import RecordServer.Config.Setting
import RecordServer.Proofs.Yaml.Distinct

/-!
# Supported keys

`Component.keys` is the table of all keys that a component of some type supports, with the place for each value. A
document `Conforms` if each of its maps either gives names to components or has supported keys only, if each list stands
where one is expected, and so on for everything within them. A document which is `Extended` by one key that is not
supported, anywhere within it, does not conform (`Config.not_conforms_of_extended`).
-/

namespace RecordServer.Config

open Yaml (Node)

/-! ## Supported keys -/

/-- What is described by a map with certain keys. -/
inductive Component where
  | root
  | source
  | parser
  | input
  | column
  | property
  | index
  | output
  | limit
  | offset
  | listParameter
  | wildcardParameter
  | relationship
  | sortKey
  | condition
  | service

/-- What stands at some place: a scalar, a map from names to components, a list, or a component. -/
inductive Place where
  | scalar
  | names (each : Place)
  | items (each : Place)
  | component (c : Component)

namespace Component

/-- The keys which a component of a type supports, and the places of their values. Of a component of an unknown type
nothing is expected but its type. -/
def keys : Component → String → List (String × Place)
  | root, _ => [("sources", .names (.component source)), ("parsers", .names (.component parser)),
      ("inputs", .names (.component input)), ("indexes", .names (.component index)),
      ("outputs", .names (.component output)), ("services", .names (.component service))]
  | source, "filesystem" => [("type", .scalar), ("path", .scalar)]
  | parser, "string" => [("type", .scalar), ("convertFromCharset", .scalar)]
  | parser, "integer" => [("type", .scalar), ("ignoreCharacters", .scalar)]
  | parser, "float" => [("type", .scalar), ("ignoreCharacters", .scalar), ("decimalSeparator", .scalar)]
  | parser, "boolean" => [("type", .scalar), ("trueValues", .items .scalar), ("falseValues", .items .scalar)]
  | parser, "json" => [("type", .scalar)]
  | parser, "split" => [("type", .scalar), ("separator", .scalar), ("regexp", .scalar), ("parser", .scalar)]
  | input, "csv" => [("type", .scalar), ("source", .scalar), ("file", .scalar), ("dieOnInputChange", .scalar),
      ("ignoreFirstRow", .scalar), ("delimiter", .scalar), ("columns", .items (.component column))]
  | input, "json" => [("type", .scalar), ("source", .scalar), ("file", .scalar), ("dieOnInputChange", .scalar)]
  | input, "xml" => [("type", .scalar), ("source", .scalar), ("file", .scalar), ("dieOnInputChange", .scalar),
      ("xpath", .scalar), ("properties", .names (.component property))]
  | column, _ => [("name", .scalar), ("parser", .scalar), ("trueValues", .items .scalar),
      ("falseValues", .items .scalar), ("decimalSeparator", .scalar)]
  | property, "primitive" => [("type", .scalar), ("xpath", .scalar), ("parser", .scalar)]
  | property, "array" => [("type", .scalar), ("xpath", .scalar), ("items", .component property)]
  | property, "object" => [("type", .scalar), ("xpath", .scalar), ("properties", .names (.component property))]
  | index, "noop" => [("type", .scalar)]
  | index, "map" => [("type", .scalar), ("input", .scalar), ("properties", .items .scalar)]
  | index, "partial" => [("type", .scalar), ("input", .scalar), ("properties", .items .scalar), ("ignoreCase", .scalar)]
  | index, "wildcard" => [("type", .scalar), ("input", .scalar), ("properties", .items .scalar),
      ("ignoreCase", .scalar), ("path", .scalar)]
  | output, "jsonArray" => [("type", .scalar), ("endpoint", .scalar), ("input", .scalar), ("limit", .component limit),
      ("offset", .component offset), ("parameters", .names (.component listParameter)),
      ("relationships", .names (.component relationship))]
  | output, "jsonObject" => [("type", .scalar), ("endpoint", .scalar), ("input", .scalar),
      ("parameters", .items (.component wildcardParameter)), ("relationships", .names (.component relationship))]
  | limit, _ => [("default", .scalar), ("max", .scalar), ("parameter", .scalar)]
  | offset, _ => [("parameter", .scalar)]
  | listParameter, _ => [("property", .scalar), ("index", .scalar), ("parser", .scalar)]
  | wildcardParameter, _ => [("name", .scalar), ("property", .scalar), ("index", .scalar), ("parser", .scalar)]
  | relationship, _ => [("input", .scalar), ("isArray", .scalar), ("limit", .scalar),
      ("sort", .items (.component sortKey)), ("match", .items (.component condition)),
      ("relationships", .names (.component relationship))]
  | sortKey, _ => [("property", .scalar), ("ascending", .scalar)]
  | condition, _ => [("parentProperty", .scalar), ("childProperty", .scalar), ("childIndex", .scalar)]
  | service, "http" => [("type", .scalar), ("listen", .scalar), ("certificate", .scalar), ("privateKey", .scalar),
      ("outputs", .items .scalar)]
  | _, _ => [("type", .scalar)]

/-- The type of a component for what stands under `type`. Only a property needs none. -/
def typeFor (c : Component) (type : Node) : String :=
  match Setting.text ⟨type, ""⟩, c with
  | .ok text, _ => text
  | .error _, property => "primitive"
  | .error _, _ => ""

/-- The keys which a component with these entries supports, and the places of their values. -/
def keysFor (c : Component) (entries : List (Node × Node)) : List (String × Place) :=
  c.keys (c.typeFor (Setting.lookup "type" entries))

end Component

/-! ## Conformance -/

/-- Within a node at a place, all keys of components are supported. -/
inductive Conforms : Place → Node → Prop
  | scalar {place : Place} {node : Node} : node.isScalar = true → Conforms place node
  | names {each : Place} {entries : List (Node × Node)} : (∀ entry ∈ entries, entry.1.isScalar = true) →
      (∀ entry ∈ entries, Conforms each entry.2) → Conforms (.names each) (.map entries)
  | items {each : Place} {items : List Node} : (∀ item ∈ items, Conforms each item) →
      Conforms (.items each) (.list items)
  | component {c : Component} {entries : List (Node × Node)} :
      (∀ entry ∈ entries, ∃ key ∈ (c.keysFor entries).map Prod.fst, entry.1 = .string key) →
      (∀ key place value, (.string key, value) ∈ entries → (key, place) ∈ c.keysFor entries → Conforms place value) →
      Conforms (.component c) (.map entries)

/-- Somewhere in a node at a place, one key has been added which the component there does not support. -/
inductive Extended : Place → Node → Node → Prop
  | here {c : Component} {before after : List (Node × Node)} {key value : Node} :
      (∀ name ∈ (c.keysFor (before ++ after)).map Prod.fst, key ≠ .string name) →
      Extended (.component c) (.map (before ++ after)) (.map (before ++ (key, value) :: after))
  | name {each : Place} {before after : List (Node × Node)} {key value value' : Node} : Extended each value value' →
      Extended (.names each) (.map (before ++ (key, value) :: after)) (.map (before ++ (key, value') :: after))
  | item {each : Place} {before after : List Node} {item item' : Node} : Extended each item item' →
      Extended (.items each) (.list (before ++ item :: after)) (.list (before ++ item' :: after))
  | value {c : Component} {before after : List (Node × Node)} {key : String} {place : Place} {value value' : Node} :
      (key, place) ∈ c.keysFor (before ++ (.string key, value) :: after) → Extended place value value' →
      Extended (.component c) (.map (before ++ (.string key, value) :: after))
        (.map (before ++ (.string key, value') :: after))

/-! ## Extending a document -/

theorem lookup_insert_of_ne {name : String} {key value : Node} (h : key ≠ .string name)
    {before after : List (Node × Node)} :
    Setting.lookup name (before ++ (key, value) :: after) = Setting.lookup name (before ++ after) := by
  induction before with
  | nil => cases key <;> simp_all [Setting.lookup]
  | cons entry before ih =>
    obtain ⟨k, v⟩ := entry
    cases k <;> simp [Setting.lookup, ih]

/-- The value of a key does not matter for another one. -/
theorem lookup_replace_of_ne {name : String} {key value value' : Node} (h : key ≠ .string name)
    {before after : List (Node × Node)} :
    Setting.lookup name (before ++ (key, value) :: after) = Setting.lookup name (before ++ (key, value') :: after) :=
  (lookup_insert_of_ne h).trans (lookup_insert_of_ne h).symm

namespace Component

/-- A component without a type supports the same keys whatever stands in the place of one. -/
theorem keys_untyped {c : Component} {type : String} (h : "type" ∉ (c.keys type).map Prod.fst) (other : String) :
    c.keys other = c.keys type := by
  unfold keys at h
  split at h <;> first | rfl | exact absurd List.mem_cons_self h

/-- The type of a component is a scalar. -/
theorem place_type {c : Component} {type : String} {place : Place} (h : ("type", place) ∈ c.keys type) :
    place = .scalar := by
  unfold keys at h
  split at h <;> simp_all

end Component

/-- **A document does not conform if a key has been added that is not supported.** -/
theorem not_conforms_of_extended {place : Place} {node node' : Node} (h : Extended place node node') :
    ¬Conforms place node' := by
  induction h with
  | @here c before after key value hkey =>
    intro hconforms
    cases hconforms with
    | scalar h => cases h
    | component hsupported _ =>
      -- a type that is added to a component without one changes nothing
      have hsame : c.keysFor (before ++ (key, value) :: after) = c.keysFor (before ++ after) := by
        by_cases htype : key = .string "type"
        · exact Component.keys_untyped (fun hmem => hkey "type" hmem htype) _
        · rw [Component.keysFor, lookup_insert_of_ne htype, Component.keysFor]
      obtain ⟨name, hname, rfl⟩ := hsupported (key, value) (List.mem_append_right before List.mem_cons_self)
      exact hkey name (hsame ▸ hname) rfl
  | @name each before after key value value' _ ih =>
    intro hconforms
    cases hconforms with
    | scalar h => cases h
    | names _ hvalues => exact ih (hvalues (key, value') (List.mem_append_right before List.mem_cons_self))
  | @item each before after item item' _ ih =>
    intro hconforms
    cases hconforms with
    | scalar h => cases h
    | items hitems => exact ih (hitems item' (List.mem_append_right before List.mem_cons_self))
  | @value c before after key place value value' hplace hextended ih =>
    intro hconforms
    cases hconforms with
    | scalar h => cases h
    | component _ hvalues =>
      -- what is supported depends on the type, but this is a scalar, so nothing within it can be extended
      by_cases htype : key = "type"
      · subst htype
        rw [Component.place_type hplace] at hextended
        cases hextended
      · have hsame := @lookup_replace_of_ne _ _ value value' (mt Node.string.inj htype) before after
        rw [Component.keysFor, hsame, ← Component.keysFor] at hplace
        exact ih (hvalues key place value' (List.mem_append_right before List.mem_cons_self) hplace)

end RecordServer.Config
