import RecordServer.Decimal.Notation

/-!
# Values and records

A `Value` is what a cell, an attribute or a member of an object has been parsed to. Indexes and filters compare values
by their `key?`, the text of a scalar, so that the integer 42 is found by the text "42" and the other way round. A
`Record` is an ordered list of named values; setting a name that is present keeps its place (`Fields.set`), so the
names stay pairwise different (`nodup_set`).
-/

namespace RecordServer

/-- The location of a record within its input: an offset in a file, or the index of an element. -/
abbrev Position := Nat

/-- A parsed value. -/
inductive Value where
  | null
  | string (text : String)
  | integer (number : Int64)
  | float (number : Float)
  | boolean (truth : Bool)
  | list (items : List Value)
  | map (fields : List (String × Value))
  deriving Inhabited

/-- The kinds of values. -/
inductive Kind where
  | null
  | string
  | integer
  | float
  | boolean
  | list
  | map
  deriving DecidableEq, Repr

namespace Kind

/-- The name of a kind in messages. -/
def name : Kind → String
  | null => "null"
  | string => "string"
  | integer => "integer"
  | float => "float"
  | boolean => "boolean"
  | list => "list"
  | map => "map"

end Kind

namespace Value

/-- The kind of a value. -/
def kind : Value → Kind
  | null => .null
  | string _ => .string
  | integer _ => .integer
  | float _ => .float
  | boolean _ => .boolean
  | list _ => .list
  | map _ => .map

/-- Whether a value is absent or empty. -/
def isNull : Value → Bool
  | null => true
  | _ => false

/-- The text of a string. -/
def text? : Value → Option String
  | string text => some text
  | _ => none

/-- The number of an integer. -/
def integer? : Value → Option Int64
  | integer number => some number
  | _ => none

/-! ## Keys -/

/-- The decimal text of an integer. -/
def integerText (number : Int64) : String := toString number.toInt

/-- The two spellings of truth. -/
def booleanText : Bool → String
  | true => "true"
  | false => "false"

/-- The canonical text of a scalar. Null, lists and maps have none. -/
def key? : Value → Option String
  | string text => some text
  | integer number => some (integerText number)
  | float number => some (Decimal.positional number)
  | boolean truth => some (booleanText truth)
  | _ => none

/-- The keys under which a value is found: its own, or those of the scalars of a list. -/
def keys : Value → List String
  | list items => items.filterMap key?
  | value => value.key?.toList

/-- A value satisfies a filter if one of its keys is the key of the expected value. -/
def satisfies (value expected : Value) : Bool :=
  match expected.key? with
  | none => false
  | some key => value.keys.contains key

/-! ## Equality and order -/

mutual

/-- Equality of values; floating point zeros are equal whatever their sign, and maps have their fields in one order. -/
def equal : Value → Value → Bool
  | null, null => true
  | string a, string b => a == b
  | integer a, integer b => a == b
  | float a, float b => a == b
  | boolean a, boolean b => a == b
  | list a, list b => equalItems a b
  | map a, map b => equalFields a b
  | _, _ => false

/-- Equality of lists, item by item. -/
def equalItems : List Value → List Value → Bool
  | [], [] => true
  | a :: as, b :: bs => equal a b && equalItems as bs
  | _, _ => false

/-- Equality of fields, one by one. -/
def equalFields : List (String × Value) → List (String × Value) → Bool
  | [], [] => true
  | (n, a) :: as, (m, b) :: bs => n == m && equal a b && equalFields as bs
  | _, _ => false

end

/-- A number for each floating point number, ascending from the negative to the positive ones with `-0.0` before
`0.0`. -/
def floatRank (x : Float) : Int :=
  let bits := x.toBits.toNat
  if bits < 9223372036854775808 then bits else 9223372036854775807 - (bits : Int)

/-- The order of two values of one scalar kind. Values of different kinds, lists and maps have none. -/
def order? : Value → Value → Option Ordering
  | string a, string b => some (compare a b)
  | integer a, integer b => some (compare a.toInt b.toInt)
  | float a, float b => some (compare (floatRank a) (floatRank b))
  | boolean a, boolean b => some (compare a.toNat b.toNat)
  | null, null => some .eq
  | _, _ => none

end Value

/-! ## Fields -/

/-- Named values in order. -/
abbrev Fields := List (String × Value)

namespace Fields

/-- The value of a name. -/
def get? (fields : Fields) (name : String) : Option Value := fields.lookup name

/-- The names in order. -/
def names (fields : Fields) : List String := fields.map Prod.fst

/-- Sets a name: in its place if it is present, at the end otherwise. -/
def set (name : String) (value : Value) : Fields → Fields
  | [] => [(name, value)]
  | field :: rest => if field.1 = name then (name, value) :: rest else field :: set name value rest

/-- Sets a name at the end, wherever it has been before. -/
def setLast (name : String) (value : Value) (fields : Fields) : Fields :=
  fields.filter (fun field => field.1 ≠ name) ++ [(name, value)]

end Fields

/-- A row or entry of an input: named values in order. -/
structure Record where
  fields : Fields
  deriving Inhabited

namespace Record

/-- A record without properties. -/
def empty : Record := ⟨[]⟩

/-- The value of a property. -/
def property? (record : Record) (name : String) : Option Value := record.fields.get? name

/-- Sets a property, keeping the place of a present one. -/
def set (record : Record) (name : String) (value : Value) : Record := ⟨record.fields.set name value⟩

/-- The record as a value. -/
def toValue (record : Record) : Value := .map record.fields

end Record

namespace Fields

/-- The names after setting one. -/
theorem names_set (name : String) (value : Value) (fields : Fields) :
    (fields.set name value).names =
      if name ∈ fields.names then fields.names else fields.names ++ [name] := by
  induction fields with
  | nil => simp [set, names]
  | cons field rest ih =>
    simp only [set, names, List.map_cons] at ih ⊢
    by_cases h : field.1 = name
    · simp [h]
    · have h' : ¬name = field.1 := fun e => h e.symm
      simp only [h, if_false, List.map_cons, ih, List.mem_cons, h', false_or]
      by_cases hm : name ∈ List.map Prod.fst rest <;> simp [hm]

/-- Setting a name keeps the names pairwise different. -/
theorem nodup_set (name : String) (value : Value) (fields : Fields) (h : fields.names.Nodup) :
    (fields.set name value).names.Nodup := by
  rw [names_set]
  split
  · exact h
  · rename_i hn
    exact List.nodup_append.2 ⟨h, by simp, by
      intro a ha b hb e
      rw [List.mem_singleton] at hb
      subst hb e
      exact hn ha⟩

end Fields

end RecordServer
