import RecordServer.Text.Utf8

/-!
# Entities

`unescape?` replaces the entities of a text by the characters they stand for, encoded in UTF-8, and `escape` writes the
five special characters as entities.
-/

namespace RecordServer.Xml

/-- The bytes with special characters as entities. -/
def escape (bytes : List UInt8) : List UInt8 :=
  bytes.flatMap fun b =>
    if b = 60 then Text.Utf8.encode "&lt;"
    else if b = 62 then Text.Utf8.encode "&gt;"
    else if b = 38 then Text.Utf8.encode "&amp;"
    else if b = 39 then Text.Utf8.encode "&apos;"
    else if b = 34 then Text.Utf8.encode "&quot;"
    else [b]

/-- The byte for which a name stands. -/
def named? (name : List UInt8) : Option UInt8 :=
  if name = Text.Utf8.encode "lt" then some 60
  else if name = Text.Utf8.encode "gt" then some 62
  else if name = Text.Utf8.encode "amp" then some 38
  else if name = Text.Utf8.encode "apos" then some 39
  else if name = Text.Utf8.encode "quot" then some 34
  else none

/-- The value of a digit in a base up to 16. -/
def digit? (base : Nat) (b : UInt8) : Option Nat :=
  let n := b.toNat
  let value := if 48 ≤ n ∧ n ≤ 57 then some (n - 48)
    else if 97 ≤ n ∧ n ≤ 102 then some (n - 87)
    else if 65 ≤ n ∧ n ≤ 70 then some (n - 55)
    else none
  value.filter (· < base)

/-- The number which some digits stand for, of which there may be at most `longest`. -/
def number? (base longest : Nat) (digits : List UInt8) : Option Nat :=
  if longest < digits.length then none
  else digits.foldlM (fun n b => (digit? base b).map (n * base + ·)) 0

/-- The bytes for a number, which is not zero but need not be that of a character. -/
def numbered? (n : Nat) : Option (List UInt8) := if n = 0 then none else some (Text.Utf8.encodeNumber n)

/-- The bytes for which an entity stands, given what is between its `&` and its `;`. -/
def entity? (bytes : List UInt8) : Option (List UInt8) :=
  match named? bytes with
  | some b => some [b]
  | none =>
    match bytes with
    | 35 :: 120 :: digits => (number? 16 6 digits).bind numbered?
    | 35 :: digits => (number? 10 7 digits).bind numbered?
    | _ => none

/-- Replaces entities, with what has been read of one since its `&`, the last byte first. -/
def unescapeFrom : Option (List UInt8) → List UInt8 → Option (List UInt8)
  | none, [] => some []
  | some _, [] => none
  | none, b :: rest => if b = 38 then unescapeFrom (some []) rest else (unescapeFrom none rest).map (b :: ·)
  | some begun, b :: rest =>
    if b = 38 then none
    else if b = 59 then do
      let bytes ← entity? begun.reverse
      (unescapeFrom none rest).map (bytes ++ ·)
    else unescapeFrom (some (b :: begun)) rest

/-- The bytes with all entities replaced; `none` if there is one that does not end, is unknown or stands for nothing. -/
def unescape? (bytes : List UInt8) : Option (List UInt8) := unescapeFrom none bytes

end RecordServer.Xml
