import RecordServer.Proofs.Config.Strict
import RecordServer.Proofs.Config.Valid

/-!
# Names

The keys of a map of a document are all different, but they may be texts or integers, and both are read as names: the
keys `1` and `"1"` give two components of one name. A document is `Ambiguous` if there are such keys somewhere within
it. This is the only way to get components of one name: the names of a configuration differ, on all levels, exactly if
its document is not ambiguous (`Config.namesDiffer_iff`).

There is one lemma for maps of names (`Config.not_ambiguous_names`) and one for components
(`Config.not_ambiguous_component`). In most components there are no names, so that nothing has to be known of how they
are read (`Config.not_ambiguous_of_plain`).
-/

namespace RecordServer

namespace Config

open Yaml (Node)

/-! ## Ambiguous documents -/

/-- Somewhere in a node at a place, an integer and a text give the same name. -/
inductive Ambiguous : Place → Node → Prop
  | here {each : Place} {entries : List (Node × Node)} {n : Int} {value other : Node} :
      (.integer n, value) ∈ entries → (.string (toString n), other) ∈ entries → Ambiguous (.names each) (.map entries)
  | name {each : Place} {entries : List (Node × Node)} {entry : Node × Node} : entry ∈ entries →
      Ambiguous each entry.2 → Ambiguous (.names each) (.map entries)
  | item {each : Place} {items : List Node} {item : Node} : item ∈ items → Ambiguous each item →
      Ambiguous (.items each) (.list items)
  | value {c : Component} {entries : List (Node × Node)} {key : String} {place : Place} {value : Node} :
      (.string key, value) ∈ entries → (key, place) ∈ c.keysFor entries → Ambiguous place value →
      Ambiguous (.component c) (.map entries)

/-- Whether there are no names anywhere in a component. -/
def Component.plain : Component → Bool
  | root | input | property | output | relationship => false
  | _ => true

/-- Whether there are no names anywhere at a place. -/
def Place.plain : Place → Bool
  | scalar => true
  | names _ => false
  | items each => each.plain
  | component c => c.plain

theorem Component.all_plain {c : Component} (h : c.plain = true) (type : String) :
    (c.keys type).all (fun child => child.2.plain) = true := by
  unfold keys
  split <;> first | rfl | cases h

/-- Without names nothing is ambiguous. -/
theorem not_ambiguous_of_plain {place : Place} {node : Node} (h : place.plain = true) : ¬Ambiguous place node := by
  intro hambiguous
  induction hambiguous with
  | here => cases h
  | name => cases h
  | item _ _ ih => exact ih h
  | value _ hplace _ ih => exact ih (List.all_eq_true.1 (Component.all_plain h _) _ hplace)

/-- Nothing is ambiguous in a scalar. -/
theorem not_ambiguous_scalar {place : Place} {node : Node} (h : node.isScalar = true) : ¬Ambiguous place node := by
  intro hambiguous
  cases hambiguous <;> cases h

/-! ## Maps of names -/

variable {s : Setting}

/-- Different keys give the same name only if they are an integer and a text. -/
theorem keyText?_eq {a b : Node} {name : String} (ha : Setting.keyText? a = some name)
    (hb : Setting.keyText? b = some name) : a = b ∨ ∃ n : Int,
      a = .integer n ∧ b = .string (toString n) ∨ a = .string (toString n) ∧ b = .integer n := by
  rcases Setting.of_keyText? ha with rfl | ⟨n, rfl, rfl⟩
  · rcases Setting.of_keyText? hb with rfl | ⟨m, rfl, rfl⟩
    · exact .inl rfl
    · exact .inr ⟨m, .inr ⟨rfl, rfl⟩⟩
  · rcases Setting.of_keyText? hb with rfl | ⟨m, rfl, hm⟩
    · exact .inr ⟨n, .inl ⟨rfl, rfl⟩⟩
    · exact .inl (congrArg Node.integer (Int.repr_inj.1 hm.symm))

/-- The names of different keys differ unless an integer and a text give the same one. -/
theorem nodup_names_iff {nodes : List (Node × Node)} {entries : List (String × Setting)}
    (hkeys : (nodes.map Prod.fst).Nodup) (h : List.Forall₂ (fun (entry : Node × Node) (read : String × Setting) =>
      Setting.keyText? entry.1 = some read.1 ∧ read.2.node = entry.2) nodes entries) :
    (entries.map Prod.fst).Nodup ↔ ¬∃ (n : Int) (value other : Node),
      (Node.integer n, value) ∈ nodes ∧ (Node.string (toString n), other) ∈ nodes := by
  have hnames : (nodes.map Prod.fst).map Setting.keyText? = (entries.map Prod.fst).map some := by
    induction h with
    | nil => rfl
    | cons hfirst _ ih => simp only [List.map_cons, hfirst.1, ih (List.nodup_cons.1 hkeys).2]
  rw [← List.nodup_map_iff (Option.some_injective String), ← hnames, List.nodup_map_iff_inj_on hkeys]
  constructor
  · rintro hinj ⟨n, value, other, hn, hother⟩
    have hsame := hinj _ (List.mem_map_of_mem hn) _ (List.mem_map_of_mem hother) rfl
    cases hsame
  · intro hclash a ha b hb hsame
    obtain ⟨⟨a, value⟩, hvalue, rfl⟩ := List.mem_map.1 ha
    obtain ⟨⟨b, other⟩, hother, rfl⟩ := List.mem_map.1 hb
    obtain ⟨read, -, hread, -⟩ := mem_of_forall₂ h.flip _ hvalue
    rcases keyText?_eq hread (hsame ▸ hread) with hab | ⟨n, ⟨rfl, rfl⟩ | ⟨rfl, rfl⟩⟩
    · exact hab
    · exact absurd ⟨n, value, other, hvalue, hother⟩ hclash
    · exact absurd ⟨n, other, value, hother, hvalue⟩ hclash

/-- **A map of names** is not ambiguous exactly if its names differ and nothing within it is ambiguous. -/
theorem not_ambiguous_names {α : Type} {each : Place} {entries : List (String × Setting)} {components : List α}
    {name : α → String} {differ : α → Prop} (hs : s.node.Distinct) (hentries : s.entries = .ok entries)
    (h : List.Forall₂ (fun entry component => name component = entry.1 ∧
      (entry.2.node.Distinct → (differ component ↔ ¬Ambiguous each entry.2.node))) entries components) :
    ¬Ambiguous (.names each) s.node ↔
      (components.map name).Nodup ∧ ∀ component ∈ components, differ component := by
  have hnames : components.map name = entries.map Prod.fst := by
    clear hentries
    induction h with
    | nil => rfl
    | cons hfirst _ ih => rw [List.map_cons, List.map_cons, hfirst.1, ih]
  rcases Setting.of_entries hentries with ⟨nodes, hnode, hread⟩ | ⟨hscalar, rfl⟩
  · rw [hnode] at hs
    rw [hnode, hnames]
    cases hs with
    | scalar hscalar => cases hscalar
    | map hkeys hvalues =>
      rw [nodup_names_iff hkeys hread]
      constructor
      · intro hnot
        refine ⟨fun ⟨n, value, other, hn, hother⟩ => hnot (.here hn hother), fun component hcomponent => ?_⟩
        obtain ⟨entry, hentry, -, hdiffer⟩ := mem_of_forall₂ h component hcomponent
        obtain ⟨node, hmem, -, hsame⟩ := mem_of_forall₂ hread entry hentry
        rw [hsame] at hdiffer
        exact (hdiffer (hvalues node hmem)).2 fun hambiguous => hnot (.name hmem hambiguous)
      · rintro ⟨hclash, hdiffer⟩ hambiguous
        cases hambiguous with
        | here hn hother => exact hclash ⟨_, _, _, hn, hother⟩
        | @name _ _ node hmem hbelow =>
          obtain ⟨entry, hentry, -, hsame⟩ := mem_of_forall₂ hread.flip node hmem
          obtain ⟨component, hcomponent, -, hiff⟩ := mem_of_forall₂ h.flip entry hentry
          rw [hsame] at hiff
          exact (hiff (hvalues node hmem)).1 (hdiffer component hcomponent) hbelow
  · cases h
    exact iff_of_true (not_ambiguous_scalar hscalar) ⟨List.nodup_nil, List.forall_mem_nil _⟩

/-! ## Components -/

/-- **A component** is not ambiguous exactly if none of its values is that may have names. -/
theorem not_ambiguous_component {c : Component} {type : String} (hs : s.node.Distinct)
    (htype : c.typeFor (s.child "type").node = type) : ¬Ambiguous (.component c) s.node ↔
      ∀ child ∈ (c.keys type).filter fun child => !child.2.plain, ¬Ambiguous child.2 (s.child child.1).node := by
  cases hnode : s.node with
  | map nodes =>
    have hchild : ∀ key, (s.child key).node = Setting.lookup key nodes := fun key => by rw [Setting.child, hnode]
    have hkeysFor : c.keysFor nodes = c.keys type := by rw [Component.keysFor, ← hchild, htype]
    rw [hnode] at hs
    cases hs with
    | scalar hscalar => cases hscalar
    | map hdistinct _ =>
      constructor
      · intro hnot child hin hambiguous
        rw [hchild] at hambiguous
        have hthere : Setting.lookup child.1 nodes ≠ .absent := fun habsent =>
          not_ambiguous_scalar (habsent ▸ rfl) hambiguous
        exact hnot (.value (Setting.mem_of_lookup hthere) (hkeysFor ▸ (List.mem_filter.1 hin).1) hambiguous)
      · intro hnot hambiguous
        cases hambiguous with
        | @value _ _ key place value hmem hplace hbelow =>
          have hplain : place.plain = false := Bool.eq_false_iff.2 fun h => not_ambiguous_of_plain h hbelow
          refine hnot (key, place) (List.mem_filter.2 ⟨hkeysFor ▸ hplace, by simp [hplain]⟩) ?_
          rwa [hchild, Setting.lookup_of_mem hdistinct hmem]
  | _ =>
    have hchild : ∀ key, (s.child key).node = .absent := fun key => by rw [Setting.child, hnode]
    refine iff_of_true (fun hambiguous => by cases hambiguous) fun child _ => ?_
    rw [hchild]
    exact not_ambiguous_scalar rfl

/-- A component in which nothing may have names but the values of some keys. -/
theorem iff_not_ambiguous_component {c : Component} {type : String} (named : List (String × Place)) {P : Prop}
    (hs : s.node.Distinct) (htype : c.typeFor (s.child "type").node = type)
    (hnamed : (c.keys type).filter (fun child => !child.2.plain) = named)
    (h : P ↔ ∀ child ∈ named, ¬Ambiguous child.2 (s.child child.1).node) : P ↔ ¬Ambiguous (.component c) s.node := by
  rw [not_ambiguous_component hs htype, hnamed, h]

/-! ## Selections -/

/-- The properties of each object within a selection have different names. -/
inductive Selection.Differ : Selection → Prop
  | primitive {path parser : String} : Differ (.primitive path parser)
  | array {path : String} {items : Selection} : items.Differ → Differ (.array path items)
  | object {path : String} {properties : List (String × Selection)} : (properties.map Prod.fst).Nodup →
      (∀ property ∈ properties, property.2.Differ) → Differ (.object path properties)

theorem differ_selection : ∀ {depth : Nat} {defaultPath : Option String} {s : Setting} {selection : Selection},
    s.node.Distinct → Selection.read depth defaultPath s = .ok selection →
    (selection.Differ ↔ ¬Ambiguous (.component .property) s.node)
  | 0, _, _, _, _, h => by cases h
  | depth + 1, defaultPath, s, selection, hs, h => by
    cases of_readSelection h with
    | primitive type _ _ _ =>
      refine iff_not_ambiguous_component [] hs (typeFor_property type) rfl ?_
      exact iff_of_true .primitive (List.forall_mem_nil _)
    | strings type _ _ none =>
      refine iff_not_ambiguous_component [("items", .component .property)] hs (typeFor_property type) rfl ?_
      rw [List.forall_mem_singleton]
      exact iff_of_true (.array .primitive) (not_ambiguous_scalar (Setting.isScalar_of_not_isPresent none))
    | array type _ _ _ itemsRead =>
      refine iff_not_ambiguous_component [("items", .component .property)] hs (typeFor_property type) rfl ?_
      rw [List.forall_mem_singleton, ← differ_selection (Setting.distinct_child hs) itemsRead]
      exact ⟨fun | .array h => h, .array⟩
    | object type _ _ entriesRead propertiesRead =>
      refine iff_not_ambiguous_component [("properties", .names (.component .property))] hs (typeFor_property type) rfl
        ?_
      have hproperties := propertiesRead.imp fun _ _ h => And.intro h.1 fun hdistinct => differ_selection hdistinct h.2
      rw [List.forall_mem_singleton, not_ambiguous_names (Setting.distinct_child hs) entriesRead hproperties]
      exact ⟨fun | .object hnames hbelow => ⟨hnames, hbelow⟩, fun h => .object h.1 h.2⟩

/-! ## Inputs -/

/-- The properties of records have different names, and so have those of each object within them. -/
def Input.NamesDiffer (input : Input) : Prop :=
  ∀ path properties, input.layout = .xml path properties →
    (properties.map Prod.fst).Nodup ∧ ∀ property ∈ properties, property.2.Differ

theorem differ_properties {properties : List (String × Selection)} (hs : s.node.Distinct)
    (h : readProperties s = .ok properties) :
    ((properties.map Prod.fst).Nodup ∧ ∀ property ∈ properties, property.2.Differ) ↔
      ¬Ambiguous (.names (.component .property)) s.node := by
  obtain ⟨entries, hentries, h⟩ := ok_of_bind h
  refine (not_ambiguous_names hs hentries ((ok_of_mapM h).imp fun entry property h => ?_)).symm
  obtain ⟨selection, hselection, h⟩ := ok_of_bind h
  cases h
  exact ⟨rfl, fun hdistinct => differ_selection hdistinct hselection⟩

theorem differ_input {input : Input} (hs : s.node.Distinct) (h : Input.read s = .ok input) :
    input.NamesDiffer ↔ ¬Ambiguous (.component .input) s.node := by
  obtain ⟨layout, hlayout, h⟩ := ok_of_bind h
  obtain ⟨source, -, h⟩ := ok_of_bind h
  obtain ⟨file, -, h⟩ := ok_of_bind h
  obtain ⟨fatalChange, -, h⟩ := ok_of_bind h
  cases h
  obtain ⟨type, htype, hlayout⟩ := ok_of_bind hlayout
  have htypeFor := Component.typeFor_of_text (c := .input) htype
  split at hlayout
  · obtain ⟨⟨⟩, -, hlayout⟩ := ok_of_bind hlayout
    obtain ⟨table, -, hlayout⟩ := ok_of_bind hlayout
    cases hlayout
    exact iff_not_ambiguous_component [] hs htypeFor rfl (iff_of_true nofun (List.forall_mem_nil _))
  · obtain ⟨⟨⟩, -, hlayout⟩ := ok_of_bind hlayout
    cases hlayout
    exact iff_not_ambiguous_component [] hs htypeFor rfl (iff_of_true nofun (List.forall_mem_nil _))
  · obtain ⟨⟨⟩, -, hlayout⟩ := ok_of_bind hlayout
    obtain ⟨path, -, hlayout⟩ := ok_of_bind hlayout
    obtain ⟨properties, hproperties, hlayout⟩ := ok_of_bind hlayout
    cases hlayout
    refine iff_not_ambiguous_component [("properties", .names (.component .property))] hs htypeFor rfl ?_
    rw [List.forall_mem_singleton, ← differ_properties (Setting.distinct_child hs) hproperties]
    refine ⟨fun h => h path properties rfl, fun h _ _ hsame => ?_⟩
    cases hsame
    exact h
  · cases hlayout

/-! ## Outputs -/

/-- Relationships have different names, and so have those of the related records. -/
inductive Relationship.Differ : List Relationship → Prop
  | mk {relationships : List Relationship} : (relationships.map Relationship.name).Nodup →
      (∀ relationship ∈ relationships, Differ relationship.relationships) → Differ relationships

/-- The parameters of an output have different names, and so have its relationships. -/
structure Output.NamesDiffer (o : Output) : Prop where
  parameters : (o.parameters.map Parameter.name).Nodup
  relationships : Relationship.Differ o.relationships

theorem differ_relationships_of_entries {entries : List (String × Setting)} {relationships : List Relationship}
    (hs : s.node.Distinct) (hentries : s.entries = .ok entries)
    (h : List.Forall₂ (fun entry relationship => Relationship.name relationship = entry.1 ∧
      (entry.2.node.Distinct → (Relationship.Differ relationship.relationships ↔
        ¬Ambiguous (.component .relationship) entry.2.node))) entries relationships) :
    Relationship.Differ relationships ↔ ¬Ambiguous (.names (.component .relationship)) s.node := by
  rw [not_ambiguous_names hs hentries h]
  exact ⟨fun | .mk hnames hbelow => ⟨hnames, hbelow⟩, fun h => .mk h.1 h.2⟩

theorem differ_relationships : ∀ {depth : Nat} {s : Setting} {relationships : List Relationship}, s.node.Distinct →
    readRelationships depth s = .ok relationships →
    (Relationship.Differ relationships ↔ ¬Ambiguous (.names (.component .relationship)) s.node)
  | 0, s, relationships, hs, h => by
    obtain ⟨hentries, rfl⟩ := of_readRelationships_zero h
    exact differ_relationships_of_entries hs hentries .nil
  | depth + 1, s, relationships, hs, h => by
    obtain ⟨entries, hentries, hread⟩ := of_readRelationships_named h
    refine differ_relationships_of_entries hs hentries (hread.imp fun entry relationship h =>
      ⟨h.1, fun hdistinct => ?_⟩)
    obtain ⟨-, -, -, -, -, -, -, -, hbelow, -⟩ := h.2
    refine iff_not_ambiguous_component [("relationships", .names (.component .relationship))] hdistinct rfl rfl ?_
    rw [List.forall_mem_singleton]
    exact differ_relationships (Setting.distinct_child hdistinct) hbelow

theorem differ_output {o : Output} (hs : s.node.Distinct) (h : Output.read s = .ok o) :
    o.NamesDiffer ↔ ¬Ambiguous (.component .output) s.node := by
  have hiff : o.NamesDiffer ↔ (o.parameters.map Parameter.name).Nodup ∧ Relationship.Differ o.relationships :=
    ⟨fun h => ⟨h.parameters, h.relationships⟩, fun h => ⟨h.1, h.2⟩⟩
  cases of_readOutput h with
  | @list _ _ _ _ parameters _ entries type _ _ _ entriesRead parametersRead _ _ relationshipsRead =>
    refine iff_not_ambiguous_component [("parameters", .names (.component .listParameter)),
      ("relationships", .names (.component .relationship))] hs (Component.typeFor_of_text type) rfl ?_
    have hparameters : ¬Ambiguous (.names (.component .listParameter)) (s.child "parameters").node ↔
        (parameters.map Parameter.name).Nodup ∧ ∀ parameter ∈ parameters, True :=
      not_ambiguous_names (Setting.distinct_child hs) entriesRead (parametersRead.imp fun entry parameter h =>
        ⟨name_readParameter h.read, fun _ => iff_of_true trivial (not_ambiguous_of_plain rfl)⟩)
    rw [List.forall_mem_cons, List.forall_mem_singleton, hparameters,
      ← differ_relationships (Setting.distinct_child hs) relationshipsRead, hiff]
    simp
  | single type _ _ _ parametersRead _ relationshipsRead =>
    refine iff_not_ambiguous_component [("relationships", .names (.component .relationship))] hs
      (Component.typeFor_of_text type) rfl ?_
    rw [List.forall_mem_singleton, ← differ_relationships (Setting.distinct_child hs) relationshipsRead, hiff]
    exact and_iff_right (nodup_readParameters parametersRead List.nodup_nil)

/-! ## Documents -/

end Config

/-- In a configuration, the components of each section have different names, and so have the properties of elements,
the parameters of outputs, and relationships. -/
structure Config.NamesDiffer (config : Config) : Prop where
  sources : (config.sources.map Prod.fst).Nodup
  parsers : (config.parsers.map Parser.name).Nodup
  inputs : (config.inputs.map Prod.fst).Nodup ∧ ∀ input ∈ config.inputs, input.2.NamesDiffer
  indexes : (config.indexes.map Prod.fst).Nodup
  outputs : (config.outputs.map Prod.fst).Nodup ∧ ∀ output ∈ config.outputs, output.2.NamesDiffer
  services : (config.services.map Prod.fst).Nodup

namespace Config

/-- A section is not ambiguous exactly if the names of its components differ and no component is ambiguous. -/
theorem not_ambiguous_section {α : Type} {read : Setting → Except Fault α} {name : String} {c : Component}
    {components : List (String × α)} {differ : α → Prop} (hs : s.node.Distinct)
    (h : readSection read s name = .ok components)
    (heach : ∀ {s : Setting} {a : α}, s.node.Distinct → read s = .ok a →
      (differ a ↔ ¬Ambiguous (.component c) s.node)) :
    ¬Ambiguous (.names (.component c)) (s.child name).node ↔
      (components.map Prod.fst).Nodup ∧ ∀ component ∈ components, differ component.2 := by
  obtain ⟨entries, hentries, hread⟩ := of_readSection h
  exact not_ambiguous_names (Setting.distinct_child hs) hentries (hread.imp fun entry component h =>
    ⟨h.1, fun hdistinct => heach hdistinct h.2⟩)

/-- Components without names within them. -/
theorem not_ambiguous_section_plain {α : Type} {read : Setting → Except Fault α} {name : String} {c : Component}
    {components : List (String × α)} (hc : c.plain = true) (hs : s.node.Distinct)
    (h : readSection read s name = .ok components) :
    ¬Ambiguous (.names (.component c)) (s.child name).node ↔ (components.map Prod.fst).Nodup := by
  rw [not_ambiguous_section hs h fun _ _ => iff_of_true trivial (not_ambiguous_of_plain hc)]
  simp

theorem differ_root {isDirectory : String → Bool} {config : Config} (hs : s.node.Distinct)
    (h : config.ReadFrom isDirectory s) : config.NamesDiffer ↔ ¬Ambiguous (.component .root) s.node := by
  obtain ⟨-, hsources, hparsers, hinputs, hindexes, houtputs, hservices, -, -⟩ := h
  refine iff_not_ambiguous_component (Component.keys .root "") hs rfl rfl ?_
  simp only [Component.keys, List.forall_mem_cons]
  rw [not_ambiguous_section_plain rfl hs hsources, not_ambiguous_section_plain rfl hs hparsers,
    not_ambiguous_section hs hinputs differ_input, not_ambiguous_section_plain rfl hs hindexes,
    not_ambiguous_section hs houtputs differ_output, not_ambiguous_section_plain rfl hs hservices]
  constructor
  · rintro ⟨sources, parsers, inputs, indexes, outputs, services⟩
    exact ⟨sources, by simpa [Function.comp_def] using parsers, inputs, indexes, outputs, services, List.forall_mem_nil _⟩
  · rintro ⟨sources, parsers, inputs, indexes, outputs, services, -⟩
    exact ⟨sources, by simpa [Function.comp_def] using parsers, inputs, indexes, outputs, services⟩

theorem namesDiffer_empty : Config.empty.NamesDiffer where
  sources := List.nodup_nil
  parsers := List.nodup_nil
  inputs := ⟨List.nodup_nil, List.forall_mem_nil _⟩
  indexes := List.nodup_nil
  outputs := ⟨List.nodup_nil, List.forall_mem_nil _⟩
  services := List.nodup_nil

/-- **The names of a configuration differ** exactly if the document from which it has been read is not ambiguous. -/
theorem namesDiffer_iff {isDirectory : String → Bool} {text : String} {config : Config}
    (h : ofText isDirectory text = .ok config) : config.NamesDiffer ↔
      ∀ document more, Yaml.read? text = some (document :: more) → ¬Ambiguous (.component .root) document := by
  unfold ofText at h
  split at h
  · cases h
  · rename_i hread
    cases h
    exact iff_of_true namesDiffer_empty fun document more h => absurd (hread.symm.trans h) (by simp)
  · rename_i document more hread
    have hdocument : config.NamesDiffer ↔ ¬Ambiguous (.component .root) document := by
      have hdistinct := Yaml.distinct_of_read? hread document List.mem_cons_self
      unfold ofDocument at h
      split at h
      · exact differ_root hdistinct (of_ofRoot h)
      · cases h
        exact iff_of_true namesDiffer_empty (not_ambiguous_scalar rfl)
      · cases h
    rw [hdocument, hread]
    constructor
    · intro hnot document more h
      cases h
      exact hnot
    · exact fun h => h document more rfl

end Config

end RecordServer
