import RecordServer.Decimal.Notation

/-!
# Nodes of a document

A `Node` is what a part of a YAML document stands for. `Node.ofPlain` tells what kind of scalar an unquoted text is;
the text of a real number is kept as it is written. The entries of a map are kept in order, where a key which is
repeated is found in the place of its last occurrence (`Node.insert`).
-/

namespace RecordServer.Yaml

/-- A part of a document. -/
inductive Node where
  | null
  /-- No value at all: an alias within its own node, or a text which is not of the kind its tag announces. -/
  | absent
  | boolean (truth : Bool)
  | integer (number : Int)
  | real (text : String)
  | string (text : String)
  | list (items : List Node)
  | map (entries : List (Node × Node))
  deriving Inhabited

namespace Node

mutual

/-- Equality of nodes. -/
def equal : Node → Node → Bool
  | null, null => true
  | absent, absent => true
  | boolean a, boolean b => a == b
  | integer a, integer b => a == b
  | real a, real b => a == b
  | string a, string b => a == b
  | list a, list b => equalItems a b
  | map a, map b => equalEntries a b
  | _, _ => false

/-- Equality of lists, item by item. -/
def equalItems : List Node → List Node → Bool
  | [], [] => true
  | a :: as, b :: bs => equal a b && equalItems as bs
  | _, _ => false

/-- Equality of entries, one by one. -/
def equalEntries : List (Node × Node) → List (Node × Node) → Bool
  | [], [] => true
  | (k, a) :: as, (l, b) :: bs => equal k l && equal a b && equalEntries as bs
  | _, _ => false

end

/-- Whether there is no value. -/
def isAbsent : Node → Bool
  | absent => true
  | _ => false

/-- Adds an entry behind others, of which the last comes first, in place of one with the same key. -/
def insert (key value : Node) (entries : List (Node × Node)) : List (Node × Node) :=
  (key, value) :: if entries.any fun entry => equal entry.1 key then
      entries.filter fun entry => !equal entry.1 key
    else entries

/-- The entries for keys and values in turn, behind others, of which the last comes first. What is absent is no key, so
that the next node takes its place. -/
def entriesOf : Node → List Node → List (Node × Node) → List (Node × Node)
  | _, [], entries => entries.reverse
  | key, node :: rest, entries =>
    if key.isAbsent then entriesOf node rest entries else entriesOf absent rest (insert key node entries)

/-- The map for keys and values in turn. -/
def ofNodes (nodes : List Node) : Node := map (entriesOf absent nodes [])

/-! ## Scalars -/

/-- An integer of 64 bits with a sign. -/
def bounded (n : Int) : Option Int := if -9223372036854775808 ≤ n ∧ n ≤ 9223372036854775807 then some n else none

/-- The value of a digit up to `f`. -/
def digitValue? (c : Char) : Option Nat :=
  if c.isDigit then some (c.toNat - '0'.toNat)
  else if 'a' ≤ c ∧ c ≤ 'f' then some (c.toNat - 'a'.toNat + 10)
  else if 'A' ≤ c ∧ c ≤ 'F' then some (c.toNat - 'A'.toNat + 10)
  else none

/-- An integer to a base of up to sixteen, with an optional sign. -/
def integerTo? (base : Nat) (cs : List Char) : Option Int := do
  let (negative, digits) := Decimal.splitSign cs
  let values ← digits.mapM digitValue?
  if values = [] ∨ values.any (base ≤ ·) then none
  else
    let n := values.foldl (fun n v => n * base + v) 0
    bounded (if negative then -(n : Int) else n)

/-- A decimal integer with an optional sign. -/
def decimal? (cs : List Char) : Option Int := (Decimal.integer? cs).bind bounded

/-- The spellings of what is no finite number. -/
def specialReals : List String :=
  [".inf", ".Inf", ".INF", "+.inf", "+.Inf", "+.INF", "-.inf", "-.Inf", "-.INF", ".nan", "NaN", ".NAN"]

/-- Whether a text is a number, finite or not. -/
def isReal (text : String) : Bool :=
  specialReals.contains text || (Decimal.ofText? text.toList).isSome ||
    Decimal.isSpecial (Decimal.splitSign text.toList).2

/-- A hexadecimal, octal or signed decimal integer. -/
def markedInteger? : List Char → Option Int
  | '0' :: 'x' :: digits => integerTo? 16 digits
  | '0' :: 'o' :: digits => integerTo? 8 digits
  | '+' :: rest => decimal? rest
  | _ => none

/-- What an unquoted text stands for. -/
def ofPlain (text : String) : Node :=
  match markedInteger? text.toList with
  | some n => .integer n
  | none =>
    if text = "~" ∨ text = "null" then .null
    else if text = "true" then .boolean true
    else if text = "false" then .boolean false
    else match decimal? text.toList with
      | some n => .integer n
      | none => if isReal text then .real text else .string text

/-- What an unquoted text stands for if its standard kind is announced. -/
def ofTagged (kind text : String) : Node :=
  match kind with
  | "bool" => if text = "true" then .boolean true else if text = "false" then .boolean false else .absent
  | "int" => ((decimal? text.toList).map Node.integer).getD .absent
  | "float" => if isReal text then .real text else .absent
  | "null" => if text = "~" ∨ text = "null" then .null else .absent
  | _ => .string text

end Node

end RecordServer.Yaml
