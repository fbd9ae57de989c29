import RecordServer.Regexp.Pattern
import RecordServer.Text.Blank

/-!
# Escapes

What a backslash and the characters behind it stand for (`readEscape?`). In verbose patterns blanks and comments are
skipped between characters (`skip`).
-/

namespace RecordServer.Regexp

/-! ## Blanks -/

/-- The characters behind blanks and comments, of which the first may have been begun. -/
def skipFrom : Bool → List Char → List Char
  | _, [] => []
  | true, c :: rest => skipFrom (c != '\n') rest
  | false, c :: rest =>
    if Text.isBlank c then skipFrom false rest
    else if c = '#' then skipFrom true rest
    else c :: rest

/-- The characters behind blanks and comments, which only verbose patterns have. -/
def skip (verbose : Bool) (cs : List Char) : List Char := if verbose then skipFrom false cs else cs

/-- The characters up to a closing brace, without blanks and comments, and those behind it. -/
def readBraced? (verbose : Bool) : Nat → List Char → Option (List Char × List Char)
  | n + 1, c :: rest =>
    if c = '}' then some ([], rest)
    else (readBraced? verbose n (skip verbose rest)).map fun (cs, behind) => (c :: cs, behind)
  | _, _ => none

/-! ## Numbers -/

/-- The value of a hexadecimal digit. -/
def hexValue? (c : Char) : Option Nat :=
  if c.isDigit then some (c.toNat - '0'.toNat)
  else if 'a' ≤ c ∧ c ≤ 'f' then some (c.toNat - 'a'.toNat + 10)
  else if 'A' ≤ c ∧ c ≤ 'F' then some (c.toNat - 'A'.toNat + 10)
  else none

/-- The character whose number consists of the given hexadecimal digits. -/
def ofHex? (digits : List Char) : Option Char := do
  let values ← digits.mapM hexValue?
  let n := values.foldl (fun n v => n * 16 + v) 0
  if digits ≠ [] ∧ n.isValidChar then some (Char.ofNat n) else none

/-- The next characters, as many as asked for, and those behind them. -/
def readFixed? (verbose : Bool) : Nat → List Char → Option (List Char × List Char)
  | 0, cs => some ([], cs)
  | _ + 1, [] => none
  | n + 1, c :: rest => (readFixed? verbose n (skip verbose rest)).map fun (cs, behind) => (c :: cs, behind)

/-- Reads a character by its number: some digits in braces, or exactly `count` digits. -/
def readHex? (verbose : Bool) (count : Nat) (cs : List Char) : Option (Letter × List Char) :=
  match skip verbose cs with
  | '{' :: rest => do
    let (digits, behind) ← readBraced? verbose (rest.length + 1) (skip verbose rest)
    return (⟨← ofHex? digits, false⟩, behind)
  | cs => do
    let (digits, behind) ← readFixed? verbose count cs
    return (⟨← ofHex? digits, count = 2⟩, behind)

/-! ## Properties -/

/-- A name before and one behind the first place where a separator stands. -/
def cut? (separator : List Char) : List Char → Option (List Char × List Char)
  | [] => none
  | c :: rest =>
    if separator.isPrefixOf (c :: rest) then some ([], (c :: rest).drop separator.length)
    else (cut? separator rest).map fun (before, behind) => (c :: before, behind)

/-- The property which is named in braces. -/
def propertyOf (cs : List Char) : PropertyName :=
  match cut? ['!', '='] cs, cut? [':'] cs, cut? ['='] cs with
  | some (a, b), _, _ => .valued (String.ofList a) (String.ofList b)
  | none, some (a, b), _ => .valued (String.ofList a) (String.ofList b)
  | none, none, some (a, b) => .valued (String.ofList a) (String.ofList b)
  | none, none, none => .named (String.ofList cs)

/-- Reads a property: a name in braces or one letter. -/
def readProperty? (verbose negated : Bool) (cs : List Char) : Option (CharClass × List Char) :=
  match skip verbose cs with
  | [] => none
  | '{' :: rest =>
    (readBraced? verbose (rest.length + 1) (skip verbose rest)).map fun (name, behind) =>
      (.property (propertyOf name) negated, behind)
  | c :: rest => if c = '\\' then none else some (.property (.named (String.ofList [c])) negated, skip verbose rest)

/-! ## Places -/

/-- The places that are named in braces. -/
def boundary? (name : String) : Option Assertion :=
  match name with
  | "start" => some .wordStart
  | "end" => some .wordEnd
  | "start-half" => some .wordStartHalf
  | "end-half" => some .wordEndHalf
  | _ => none

/-- Whether a character may stand in the name of a place. -/
def isBoundaryChar (c : Char) : Bool := c.isAlpha || c = '-'

/-- The characters of the name of a place, without blanks and comments, and those behind them. -/
def readBoundaryName (verbose : Bool) : Nat → List Char → List Char × List Char
  | n + 1, c :: rest =>
    if isBoundaryChar c then
      let (cs, behind) := readBoundaryName verbose n (skip verbose rest)
      (c :: cs, behind)
    else ([], c :: rest)
  | _, cs => ([], cs)

/-- Reads what may follow the escape for the boundary of a word: a name in braces. Other braces are left. -/
def readBoundary? (verbose : Bool) : List Char → Option (Assertion × List Char)
  | '{' :: rest =>
    match skip verbose rest with
    | [] => none
    | c :: behind =>
      if !isBoundaryChar c then some (.wordBoundary, '{' :: rest)
      else match readBoundaryName verbose (behind.length + 1) (c :: behind) with
        | (name, '}' :: behind) => (boundary? (String.ofList name)).map fun a => (a, behind)
        | _ => none
  | cs => some (.wordBoundary, cs)

/-! ## Escapes -/

/-- A part of a pattern which consists of one character or an escape. -/
inductive Atom where
  | letter (l : Letter)
  | place (a : Assertion)
  | chars (s : CharClass)
  | dot

/-- A character which is written with another letter. -/
def control? (c : Char) : Option Char :=
  match c with
  | 'a' => some '\x07'
  | 'f' => some '\x0c'
  | 't' => some '\t'
  | 'n' => some '\n'
  | 'r' => some '\r'
  | 'v' => some '\x0b'
  | _ => none

/-- Reads what stands behind a backslash. -/
def readEscape? (verbose : Bool) : List Char → Option (Atom × List Char)
  | [] => none
  | 'd' :: rest => some (.chars (.kind .digit false), rest)
  | 'D' :: rest => some (.chars (.kind .digit true), rest)
  | 's' :: rest => some (.chars (.kind .blank false), rest)
  | 'S' :: rest => some (.chars (.kind .blank true), rest)
  | 'w' :: rest => some (.chars (.kind .word false), rest)
  | 'W' :: rest => some (.chars (.kind .word true), rest)
  | 'p' :: rest => (readProperty? verbose false rest).map fun (s, behind) => (.chars s, behind)
  | 'P' :: rest => (readProperty? verbose true rest).map fun (s, behind) => (.chars s, behind)
  | 'x' :: rest => (readHex? verbose 2 rest).map fun (l, behind) => (.letter l, behind)
  | 'u' :: rest => (readHex? verbose 4 rest).map fun (l, behind) => (.letter l, behind)
  | 'U' :: rest => (readHex? verbose 8 rest).map fun (l, behind) => (.letter l, behind)
  | 'A' :: rest => some (.place .textStart, rest)
  | 'z' :: rest => some (.place .textEnd, rest)
  | 'b' :: rest => (readBoundary? verbose rest).map fun (a, behind) => (.place a, behind)
  | 'B' :: rest => some (.place .noWordBoundary, rest)
  | '<' :: rest => some (.place .wordStart, rest)
  | '>' :: rest => some (.place .wordEnd, rest)
  | c :: rest =>
    match control? c with
    | some control => some (.letter ⟨control, false⟩, rest)
    | none => if c.toNat < 128 ∧ ¬c.isAlphanum then some (.letter ⟨c, false⟩, rest) else none

end RecordServer.Regexp
