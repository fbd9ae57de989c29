import RecordServer.Fault
import RecordServer.Yaml.Node

/-!
# Settings

A `Setting` is a node of the configuration together with the path to it, so that each problem is reported with its
place. What is missing is a setting without a value.
-/

namespace RecordServer.Config

/-- A node of the configuration and the path to it. -/
structure Setting where
  node : Yaml.Node
  path : String
  deriving Inhabited

namespace Setting

/-- A problem with this setting. -/
def problem (s : Setting) (p : Problem) : Except Fault α := .error (Fault.located s.path p)

/-- Whether there is a value. -/
def isPresent (s : Setting) : Bool :=
  match s.node with
  | .null => false
  | .absent => false
  | _ => true

/-- The path to a child. -/
def childPath (s : Setting) (key : String) : String := if s.path.isEmpty then key else s.path ++ "." ++ key

/-- The value of a key which is a text. -/
def lookup (key : String) : List (Yaml.Node × Yaml.Node) → Yaml.Node
  | [] => .absent
  | (.string k, value) :: rest => if k = key then value else lookup key rest
  | _ :: rest => lookup key rest

/-- The child under a key. -/
def child (s : Setting) (key : String) : Setting :=
  match s.node with
  | .map entries => ⟨lookup key entries, s.childPath key⟩
  | _ => ⟨.absent, s.childPath key⟩

/-- The text of a key; integers are written in decimal. -/
def keyText? : Yaml.Node → Option String
  | .string key => some key
  | .integer key => some (toString key)
  | _ => none

/-- The entries of a map, by name. -/
def entries (s : Setting) : Except Fault (List (String × Setting)) :=
  match s.node with
  | .map entries =>
    entries.mapM fun entry =>
      match keyText? entry.1 with
      | some key => .ok (key, ⟨entry.2, s.childPath key⟩)
      | none => s.problem .keyNotString
  | .null => .ok []
  | .absent => .ok []
  | _ => s.problem .expectedMap

/-- Settings for the items of a list from an index on. -/
def itemsFrom (path : String) : Nat → List Yaml.Node → List Setting
  | _, [] => []
  | n, node :: rest => ⟨node, path ++ "[" ++ toString n ++ "]"⟩ :: itemsFrom path (n + 1) rest

/-- The items of a list. -/
def items (s : Setting) : Except Fault (List Setting) :=
  match s.node with
  | .list nodes => .ok (itemsFrom s.path 0 nodes)
  | .null => .ok []
  | .absent => .ok []
  | _ => s.problem .expectedList

/-- Accepts a map without other keys than those which are supported. -/
def ensureKeys (s : Setting) (supported : List String) : Except Fault Unit := do
  let entries ← s.entries
  entries.forM fun entry =>
    if supported.contains entry.1 then .ok () else entry.2.problem (.unknownKey entry.1 supported)

/-! ## Values -/

/-- The text of a scalar. -/
def text (s : Setting) : Except Fault String :=
  match s.node with
  | .string text => .ok text
  | .integer number => .ok (toString number)
  | .real text => .ok text
  | .boolean truth => .ok (if truth then "true" else "false")
  | .null => s.problem .missingValue
  | .absent => s.problem .missingValue
  | _ => s.problem .expectedString

/-- The text under a key. -/
def requiredText (s : Setting) (key : String) : Except Fault String := (s.child key).text

/-- The text under a key, if there is a value. -/
def optionalText (s : Setting) (key : String) : Except Fault (Option String) :=
  let c := s.child key
  if c.isPresent then some <$> c.text else .ok none

/-- The text under a key, or the default. -/
def textOr (s : Setting) (key default : String) : Except Fault String :=
  (fun text => text.getD default) <$> s.optionalText key

/-- The truth value under a key, or the default. -/
def booleanOr (s : Setting) (key : String) (default : Bool) : Except Fault Bool :=
  let c := s.child key
  match c.node with
  | .boolean truth => .ok truth
  | .null => .ok default
  | .absent => .ok default
  | _ => c.problem .expectedBoolean

/-- The natural number under a key, or the default. -/
def naturalOr (s : Setting) (key : String) (default : Nat) : Except Fault Nat :=
  let c := s.child key
  match c.node with
  | .integer number => if 0 ≤ number then .ok number.toNat else c.problem .expectedNatural
  | .null => .ok default
  | .absent => .ok default
  | _ => c.problem .expectedNatural

/-- The texts of the list under a key, if there is a value. -/
def textList (s : Setting) (key : String) : Except Fault (Option (List String)) := do
  let c := s.child key
  if c.isPresent then
    let items ← c.items
    some <$> items.mapM text
  else return none

/-- The single character under a key, or the default. -/
def characterOr (s : Setting) (key : String) (default : Char) : Except Fault Char := do
  let c := s.child key
  if c.isPresent then
    let value ← c.text
    match value.toList with
    | [single] => .ok single
    | _ => c.problem (.notOneCharacter value)
  else return default

/-- The type of a component. -/
def typeName (s : Setting) : Except Fault String := s.requiredText "type"

/-- The type of a component is none of the supported ones. -/
def unknownType (s : Setting) (name : String) (supported : List String) : Except Fault α :=
  (s.child "type").problem (.unknownType name supported)

end Setting

end RecordServer.Config
