import RecordServer.Text.Utf8
import RecordServer.Value

/-!
# Reading JSON text

`read?` reads a complete JSON text strictly as standardised, with at most 127 lists and maps within each other. A number
is an integer if it is written as one and fits into 64 bits, and a floating point number otherwise. A repeated name of
a map keeps its first place and takes its last value.

A floating point number is read by one multiplication or division (`scale?`) of an integer of at most 64 bits, to which
the digits that still fit contribute (`absorb`).
-/

namespace RecordServer.Json

/-! ## Numbers -/

/-- The greatest integer of 64 bits. -/
def maxSignificand : Nat := 18446744073709551615

/-- Appends the digits that still fit into 64 bits, and returns those that do not. -/
def absorb (value : Nat) : List Char → Nat × List Char
  | [] => (value, [])
  | c :: rest =>
    let next := value * 10 + (c.toNat - '0'.toNat)
    if next ≤ maxSignificand then absorb next rest else (value, c :: rest)

/-- The power of ten as a number. -/
def powerOfTen (n : Nat) : Float := Decimal.nearest (Decimal.tenTo n) 1

/-- `significand * 10 ^ exponent`, unless it is beyond all numbers. -/
def scale? (significand : Nat) (exponent : Int) : Option Float :=
  let x := (UInt64.ofNat significand).toFloat
  if significand = 0 then some x
  else if 308 < exponent then none
  else if 0 ≤ exponent then
    let y := x * powerOfTen exponent.toNat
    if y.isFinite then some y else none
  else if -308 ≤ exponent then some (x / powerOfTen (-exponent).toNat)
  else if -616 ≤ exponent then some (x / powerOfTen 308 / powerOfTen (-exponent - 308).toNat)
  else some 0

/-- A number of the given sign. -/
def signed (negative : Bool) (x : Float) : Float := if negative then -x else x

/-- The digits at the beginning, and the rest. -/
def digits (cs : List Char) : List Char × List Char := (cs.takeWhile Char.isDigit, cs.dropWhile Char.isDigit)

/-- An optional exponent: its value, if it is there, and the rest. -/
def exponent? : List Char → Option (Option Int × List Char)
  | [] => some (none, [])
  | c :: rest =>
    if c = 'e' ∨ c = 'E' then
      let (negative, rest) := Decimal.splitSign rest
      let (ds, rest) := digits rest
      if ds = [] then none
      else
        let n : Int := Decimal.ofDigits 0 ds
        some (some (if negative then -n else n), rest)
    else some (none, c :: rest)

/-- The largest exponent that is looked at. -/
def maxExponent : Nat := 2147483647

/-- A number with the exponent that is written out, added to the one which follows from the places of the digits. -/
def scaleBy? (significand : Nat) (places : Int) (exponent : Int) : Option Float :=
  if maxExponent < exponent.natAbs then if significand = 0 ∨ exponent < 0 then some 0 else none
  else scale? significand (max (min (places + exponent) maxExponent) (-maxExponent - 1))

/-- A number behind its optional minus sign. -/
def unsignedNumber? (negative : Bool) (cs : List Char) : Option (Value × List Char) := do
  let (whole, rest) := digits cs
  if whole = [] ∨ (whole.head? = some '0' ∧ whole ≠ ['0']) then none
  else
    let (significand, dropped) := absorb 0 whole
    let places : Int := dropped.length
    match rest with
    | '.' :: rest =>
      let (fraction, rest) := digits rest
      if fraction = [] then none
      else
        let (significand, ignored) := absorb significand fraction
        let places := places - (fraction.length - ignored.length : Nat)
        let (exponent, rest) ← exponent? rest
        let x ← scaleBy? significand places (exponent.getD 0)
        some (.float (signed negative x), rest)
    | rest =>
      match ← exponent? rest with
      | (some exponent, rest) =>
        let x ← scaleBy? significand places exponent
        some (.float (signed negative x), rest)
      | (none, rest) =>
        let n : Int := if negative then -(significand : Int) else significand
        if dropped ≠ [] ∨ n < -9223372036854775808 ∨ 9223372036854775808 ≤ n ∨ (negative ∧ n = 0) then
          let x ← scale? significand places
          some (.float (signed negative x), rest)
        else some (.integer (Int64.ofInt n), rest)

/-- A number. -/
def number? : List Char → Option (Value × List Char)
  | '-' :: rest => unsignedNumber? true rest
  | rest => unsignedNumber? false rest

/-! ## Strings -/

/-- The value of a hexadecimal digit. -/
def hexValue? (c : Char) : Option Nat :=
  if c.isDigit then some (c.toNat - 48)
  else if 'a' ≤ c ∧ c ≤ 'f' then some (c.toNat - 87)
  else if 'A' ≤ c ∧ c ≤ 'F' then some (c.toNat - 55)
  else none

/-- The unit which four hexadecimal digits stand for. -/
def unit? (a b c d : Char) : Option Nat := do
  some (((← hexValue? a) * 16 + (← hexValue? b)) * 256 + ((← hexValue? c) * 16 + (← hexValue? d)))

/-- The character of a letter behind a backslash. -/
def escaped? : Char → Option Char
  | '"' => some '"'
  | '\\' => some '\\'
  | '/' => some '/'
  | 'b' => some '\x08'
  | 'f' => some '\x0c'
  | 'n' => some '\n'
  | 'r' => some '\r'
  | 't' => some '\t'
  | _ => none

/-- The characters up to the closing quote, and the rest behind it. Surrogates have to come in pairs. -/
def string? : List Char → Option (List Char × List Char)
  | [] => none
  | '"' :: rest => some ([], rest)
  | '\\' :: 'u' :: a :: b :: c :: d :: rest => do
    let u ← unit? a b c d
    if u < 0xD800 ∨ 0xDFFF < u then
      let (cs, rest) ← string? rest
      some (Char.ofNat u :: cs, rest)
    else if 0xDC00 ≤ u then none
    else match rest with
      | '\\' :: 'u' :: e :: f :: g :: h :: rest =>
        let v ← unit? e f g h
        if v < 0xDC00 ∨ 0xDFFF < v then none
        else
          let (cs, rest) ← string? rest
          some (Char.ofNat (0x10000 + (u - 0xD800) * 0x400 + (v - 0xDC00)) :: cs, rest)
      | _ => none
  | '\\' :: c :: rest => do
    let e ← escaped? c
    let (cs, rest) ← string? rest
    some (e :: cs, rest)
  | c :: rest =>
    if c.toNat < 0x20 ∨ c = '\\' then none
    else do
      let (cs, rest) ← string? rest
      some (c :: cs, rest)

/-! ## Values -/

/-- The blanks between tokens. -/
def isBlank (c : Char) : Bool := c = ' ' || c = '\n' || c = '\r' || c = '\t'

/-- The input behind its leading blanks. -/
def skipBlanks (cs : List Char) : List Char := cs.dropWhile isBlank

/-- The rest behind a word, if the input begins with it. -/
def word? (word : List Char) (cs : List Char) : Option (List Char) :=
  if word.isPrefixOf cs then some (cs.drop word.length) else none

mutual

/-- A value at the beginning, with at most `room` lists and maps within each other. -/
def value? : Nat → Nat → List Char → Option (Value × List Char)
  | 0, _, _ => none
  | fuel + 1, room, cs =>
    match skipBlanks cs with
    | [] => none
    | '"' :: rest => (string? rest).map fun (text, rest) => (.string (String.ofList text), rest)
    | '[' :: rest =>
      match room with
      | 0 => none
      | room + 1 =>
        match skipBlanks rest with
        | ']' :: rest => some (.list [], rest)
        | rest => (items? fuel room rest).map fun (items, rest) => (.list items, rest)
    | '{' :: rest =>
      match room with
      | 0 => none
      | room + 1 =>
        match skipBlanks rest with
        | '}' :: rest => some (.map [], rest)
        | rest => (fields? fuel room [] rest).map fun (fields, rest) => (.map fields, rest)
    | 'n' :: rest => (word? ['u', 'l', 'l'] rest).map (.null, ·)
    | 't' :: rest => (word? ['r', 'u', 'e'] rest).map (.boolean true, ·)
    | 'f' :: rest => (word? ['a', 'l', 's', 'e'] rest).map (.boolean false, ·)
    | rest => number? rest

/-- The items of a list up to its closing bracket. -/
def items? : Nat → Nat → List Char → Option (List Value × List Char)
  | 0, _, _ => none
  | fuel + 1, room, cs => do
    let (item, rest) ← value? fuel room cs
    match skipBlanks rest with
    | ',' :: rest =>
      let (items, rest) ← items? fuel room rest
      some (item :: items, rest)
    | ']' :: rest => some ([item], rest)
    | _ => none

/-- The fields of a map up to its closing brace, set one after the other. -/
def fields? : Nat → Nat → Fields → List Char → Option (Fields × List Char)
  | 0, _, _, _ => none
  | fuel + 1, room, fields, cs =>
    match skipBlanks cs with
    | '"' :: rest => do
      let (name, rest) ← string? rest
      match skipBlanks rest with
      | ':' :: rest =>
        let (value, rest) ← value? fuel room rest
        let fields := fields.set (String.ofList name) value
        match skipBlanks rest with
        | ',' :: rest => fields? fuel room fields rest
        | '}' :: rest => some (fields, rest)
        | _ => none
      | _ => none
    | _ => none

end

/-- The greatest number of lists and maps within each other. -/
def maxDepth : Nat := 127

/-- The value of a complete JSON text. -/
def ofChars? (cs : List Char) : Option Value := do
  let (value, rest) ← value? (2 * cs.length + 2) maxDepth cs
  if skipBlanks rest = [] then some value else none

/-- The value of a complete JSON text. -/
def read? (text : String) : Option Value := ofChars? text.toList

/-- The value of a complete JSON text given as bytes, which have to be UTF-8. -/
def ofBytes? (bytes : List UInt8) : Option Value := (Text.Utf8.decode? bytes).bind read?

end RecordServer.Json
