import RecordServer.Config.Document
import RecordServer.Proofs.Outcome

/-!
# How a configuration is read

A component is accepted if its keys are supported, all its parts can be read, and nothing contradicts anything else. For
selections, relationships, outputs and the whole configuration it is said here what that is (`Selection.ReadFrom`,
`Relationship.ReadFrom`, `Output.ReadFrom`, `ReadFrom`): what is shown of the components that are read follows from it, whatever the order in
which they are checked.
-/

namespace RecordServer.Config

/-! ## Selections -/

/-- A selection is read from a setting, and those below it from within it, at most so deep. -/
inductive Selection.ReadFrom (depth : Nat) (s : Setting) : Selection → Prop
  | primitive {path parser : String} (type : s.textOr "type" "primitive" = .ok "primitive")
    (pathRead : s.requiredText "xpath" = .ok path ∨ ∃ default, s.textOr "xpath" default = .ok path)
    (keys : s.ensureKeys ["type", "xpath", "parser"] = .ok ()) (parserRead : s.textOr "parser" "string" = .ok parser) :
    ReadFrom depth s (.primitive path parser)
  | strings {path : String} (type : s.textOr "type" "primitive" = .ok "array")
    (pathRead : s.requiredText "xpath" = .ok path ∨ ∃ default, s.textOr "xpath" default = .ok path)
    (keys : s.ensureKeys ["type", "xpath", "items"] = .ok ()) (none : ¬(s.child "items").isPresent = true) :
    ReadFrom depth s (.array path (.primitive "." "string"))
  | array {path : String} {items : Selection} (type : s.textOr "type" "primitive" = .ok "array")
    (pathRead : s.requiredText "xpath" = .ok path ∨ ∃ default, s.textOr "xpath" default = .ok path)
    (keys : s.ensureKeys ["type", "xpath", "items"] = .ok ()) (present : (s.child "items").isPresent = true)
    (itemsRead : Selection.read depth (some ".") (s.child "items") = .ok items) : ReadFrom depth s (.array path items)
  | object {path : String} {entries : List (String × Setting)} {properties : List (String × Selection)}
    (type : s.textOr "type" "primitive" = .ok "object")
    (pathRead : s.requiredText "xpath" = .ok path ∨ ∃ default, s.textOr "xpath" default = .ok path)
    (keys : s.ensureKeys ["type", "xpath", "properties"] = .ok ())
    (entriesRead : (s.child "properties").entries = .ok entries)
    (propertiesRead : List.Forall₂ (fun entry property => property.1 = entry.1 ∧
      Selection.read depth none entry.2 = .ok property.2) entries properties) :
    ReadFrom depth s (.object path properties)

theorem of_readSelection {depth : Nat} {defaultPath : Option String} {s : Setting} {selection : Selection}
    (h : Selection.read (depth + 1) defaultPath s = .ok selection) : selection.ReadFrom depth s := by
  obtain ⟨type, htype, h⟩ := ok_of_bind h
  extract_lets items next at h
  obtain ⟨path, hpath, h⟩ : ∃ path, (s.requiredText "xpath" = .ok path ∨
      ∃ default, s.textOr "xpath" default = .ok path) ∧ next path = .ok selection := by
    split at h
    · obtain ⟨path, hpath, h⟩ := ok_of_bind h
      exact ⟨path, .inr ⟨_, hpath⟩, h⟩
    · obtain ⟨path, hpath, h⟩ := ok_of_bind h
      exact ⟨path, .inl hpath, h⟩
  dsimp only [next] at h
  split at h
  · obtain ⟨⟨⟩, hkeys, h⟩ := ok_of_bind h
    obtain ⟨parser, hparser, h⟩ := ok_of_bind h
    cases h
    exact .primitive htype hpath hkeys hparser
  · obtain ⟨⟨⟩, hkeys, h⟩ := ok_of_bind h
    split at h
    · rename_i hpresent
      obtain ⟨items, hitems, h⟩ := ok_of_bind h
      cases h
      exact .array htype hpath hkeys hpresent hitems
    · rename_i habsent
      cases h
      exact .strings htype hpath hkeys habsent
  · obtain ⟨⟨⟩, hkeys, h⟩ := ok_of_bind h
    obtain ⟨entries, hentries, h⟩ := ok_of_bind h
    obtain ⟨properties, hproperties, h⟩ := ok_of_bind h
    cases h
    refine .object htype hpath hkeys hentries ((ok_of_mapM hproperties).imp fun entry property h => ?_)
    obtain ⟨selection, hselection, h⟩ := ok_of_bind h
    cases h
    exact ⟨rfl, hselection⟩
  · cases h

/-! ## Relationships -/

/-- A relationship is read from a setting, and those below it from within it, at most so deep. -/
inductive Relationship.ReadFrom (depth : Nat) (s : Setting) : Relationship → Prop
  | mk {name input : String} {isArray : Bool} {limit : Nat} {sort : List SortKey} {conditions : List Match}
    {relationships : List Relationship} {sortItems matchItems : List Setting}
    (keys : s.ensureKeys ["input", "isArray", "limit", "sort", "match", "relationships"] = .ok ())
    (isArrayRead : s.booleanOr "isArray" false = .ok isArray) (limitRead : s.naturalOr "limit" 0 = .ok limit)
    (sortItemsRead : (s.child "sort").items = .ok sortItems) (sortRead : sortItems.mapM SortKey.read = .ok sort)
    (matchItemsRead : (s.child "match").items = .ok matchItems)
    (conditionsRead : readMatches [] matchItems = .ok conditions) (inputRead : s.requiredText "input" = .ok input)
    (relationshipsRead : readRelationships depth (s.child "relationships") = .ok relationships)
    (array : 0 < limit ∨ sort ≠ [] → isArray = true) :
    ReadFrom depth s (.mk name input isArray limit sort conditions relationships)

/-- No relationship is read where none may lie. -/
theorem of_readRelationships_zero {s : Setting} {relationships : List Relationship}
    (h : readRelationships 0 s = .ok relationships) : s.entries = .ok [] ∧ relationships = [] := by
  unfold readRelationships at h
  obtain ⟨entries, hentries, h⟩ := ok_of_bind h
  simp only at h
  split at h
  · rename_i hempty
    cases h
    exact ⟨List.isEmpty_iff.1 hempty ▸ hentries, rfl⟩
  · cases h

/-- **Each relationship is read from an entry** and named by it, and one is from each. -/
theorem of_readRelationships_named {depth : Nat} {s : Setting} {relationships : List Relationship}
    (h : readRelationships (depth + 1) s = .ok relationships) : ∃ entries, s.entries = .ok entries ∧
      List.Forall₂ (fun entry relationship => relationship.name = entry.1 ∧
        Relationship.ReadFrom depth entry.2 relationship) entries relationships := by
  unfold readRelationships at h
  obtain ⟨entries, hentries, h⟩ := ok_of_bind h
  refine ⟨entries, hentries, (ok_of_mapM h).imp fun ⟨name, s⟩ relationship h => ?_⟩
  obtain ⟨⟨⟩, hkeys, h⟩ := ok_of_bind h
  obtain ⟨isArray, hisArray, h⟩ := ok_of_bind h
  obtain ⟨limit, hlimit, h⟩ := ok_of_bind h
  split at h
  · cases h
  rename_i hlimited
  obtain ⟨sortItems, hsortItems, h⟩ := ok_of_bind h
  obtain ⟨sort, hsort, h⟩ := ok_of_bind h
  split at h
  · cases h
  rename_i hsorted
  obtain ⟨matchItems, hmatchItems, h⟩ := ok_of_bind h
  obtain ⟨conditions, hconditions, h⟩ := ok_of_bind h
  obtain ⟨input, hinput, h⟩ := ok_of_bind h
  obtain ⟨below, hbelow, h⟩ := ok_of_bind h
  cases h
  refine ⟨rfl, .mk hkeys hisArray hlimit hsortItems hsort hmatchItems hconditions hinput hbelow ?_⟩
  rintro (hpositive | hne)
  · simpa [hpositive] using hlimited
  · simpa [hne] using hsorted

theorem of_readRelationships {depth : Nat} {s : Setting} {relationships : List Relationship}
    (h : readRelationships (depth + 1) s = .ok relationships) : ∃ entries, s.entries = .ok entries ∧
      List.Forall₂ (fun entry relationship => Relationship.ReadFrom depth entry.2 relationship) entries
        relationships := by
  obtain ⟨entries, hentries, hread⟩ := of_readRelationships_named h
  exact ⟨entries, hentries, hread.imp fun _ _ => And.right⟩

/-! ## Outputs -/

/-- A parameter of a list is read from an entry, which is not named like one of those for the limit and the offset. -/
structure Parameter.ReadFrom (reserved : List String) (entry : String × Setting) (parameter : Parameter) : Prop where
  free : entry.1 ∉ reserved
  keys : entry.2.ensureKeys ["property", "index", "parser"] = .ok ()
  read : Parameter.read entry.2 entry.1 = .ok parameter

/-- An output is read from a setting. -/
inductive Output.ReadFrom (s : Setting) : Output → Prop
  | list {endpoint input offset : String} {limit : Limit} {parameters : List Parameter}
    {relationships : List Relationship} {entries : List (String × Setting)} (type : s.typeName = .ok "jsonArray")
    (keys : s.ensureKeys ["type", "endpoint", "input", "limit", "offset", "parameters", "relationships"] = .ok ())
    (limitRead : Limit.read (s.child "limit") = .ok limit)
    (offsetRead : readOffset (s.child "offset") limit = .ok offset)
    (entriesRead : (s.child "parameters").entries = .ok entries)
    (parametersRead : List.Forall₂ (Parameter.ReadFrom [limit.parameter, offset]) entries parameters)
    (endpointRead : readEndpoint s = .ok endpoint) (inputRead : s.requiredText "input" = .ok input)
    (relationshipsRead : readRelationships maxDepth (s.child "relationships") = .ok relationships) :
    ReadFrom s ⟨endpoint, input, .list limit offset, parameters, relationships⟩
  | single {endpoint input : String} {parameters : List Parameter} {relationships : List Relationship}
    {items : List Setting} (type : s.typeName = .ok "jsonObject")
    (keys : s.ensureKeys ["type", "endpoint", "input", "parameters", "relationships"] = .ok ())
    (endpointRead : readEndpoint s = .ok endpoint) (itemsRead : (s.child "parameters").items = .ok items)
    (parametersRead : readParameters s [] items = .ok parameters) (inputRead : s.requiredText "input" = .ok input)
    (relationshipsRead : readRelationships maxDepth (s.child "relationships") = .ok relationships)
    (wildcard : wildcards endpoint ≠ 0) (count : parameters.length = wildcards endpoint) :
    ReadFrom s ⟨endpoint, input, .single, parameters, relationships⟩

theorem of_readOutput {s : Setting} {o : Output} (h : Output.read s = .ok o) : o.ReadFrom s := by
  obtain ⟨type, htype, h⟩ := ok_of_bind h
  split at h
  · obtain ⟨⟨⟩, hkeys, h⟩ := ok_of_bind h
    obtain ⟨limit, hlimit, h⟩ := ok_of_bind h
    obtain ⟨offset, hoffset, h⟩ := ok_of_bind h
    obtain ⟨entries, hentries, h⟩ := ok_of_bind h
    obtain ⟨parameters, hparameters, h⟩ := ok_of_bind h
    obtain ⟨endpoint, hendpoint, h⟩ := ok_of_bind h
    obtain ⟨input, hinput, h⟩ := ok_of_bind h
    obtain ⟨relationships, hrelationships, h⟩ := ok_of_bind h
    cases h
    refine .list htype hkeys hlimit hoffset hentries ((ok_of_mapM hparameters).imp fun ⟨name, p⟩ parameter h => ?_)
      hendpoint hinput hrelationships
    dsimp only at h
    split at h
    · cases h
    rename_i hfree
    obtain ⟨⟨⟩, hkeys, h⟩ := ok_of_bind h
    exact ⟨by simpa using hfree, hkeys, h⟩
  · obtain ⟨⟨⟩, hkeys, h⟩ := ok_of_bind h
    obtain ⟨endpoint, hendpoint, h⟩ := ok_of_bind h
    split at h
    · cases h
    rename_i hwildcard
    obtain ⟨items, hitems, h⟩ := ok_of_bind h
    obtain ⟨parameters, hparameters, h⟩ := ok_of_bind h
    split at h
    · cases h
    rename_i hcount
    obtain ⟨input, hinput, h⟩ := ok_of_bind h
    obtain ⟨relationships, hrelationships, h⟩ := ok_of_bind h
    cases h
    exact .single htype hkeys hendpoint hitems hparameters hinput hrelationships hwildcard
      (Decidable.not_not.1 hcount)
  · cases h
  · cases h

/-! ## Sections -/

/-- Each component of a section is read from an entry and named by it, and one is from each. -/
theorem of_readSection {α : Type} {read : Setting → Except Fault α} {root : Setting} {name : String}
    {components : List (String × α)} (h : readSection read root name = .ok components) :
    ∃ entries, (root.child name).entries = .ok entries ∧
      List.Forall₂ (fun entry component => component.1 = entry.1 ∧ read entry.2 = .ok component.2) entries
        components := by
  obtain ⟨entries, hentries, h⟩ := ok_of_bind h
  refine ⟨entries, hentries, (ok_of_mapM h).imp fun entry component h => ?_⟩
  obtain ⟨found, hfound, h⟩ := ok_of_bind h
  cases h
  exact ⟨rfl, hfound⟩

/-- What has been read in a section. -/
theorem mem_readSection {α : Type} {read : Setting → Except Fault α} {root : Setting} {name : String}
    {components : List (String × α)} (h : readSection read root name = .ok components) :
    ∀ component ∈ components, ∃ s, read s = .ok component.2 := by
  obtain ⟨entries, -, hread⟩ := of_readSection h
  intro component hmem
  obtain ⟨entry, -, -, hcomponent⟩ := mem_of_forall₂ hread component hmem
  exact ⟨entry.2, hcomponent⟩

/-- A configuration is read from a setting, and no component stands in the place of a built-in one. -/
inductive ReadFrom (isDirectory : String → Bool) (root : Setting) : Config → Prop
  | mk {sources : List (String × Source)} {parsers : List (String × Format)} {inputs : List (String × Input)}
    {indexes : List (String × Index)} {outputs : List (String × Output)} {services : List (String × Service)}
    (keys : root.ensureKeys sections = .ok ()) (sourcesRead : readSection Source.read root "sources" = .ok sources)
    (parsersRead : readSection readFormat root "parsers" = .ok parsers)
    (inputsRead : readSection Input.read root "inputs" = .ok inputs)
    (indexesRead : readSection (Index.read isDirectory) root "indexes" = .ok indexes)
    (outputsRead : readSection Output.read root "outputs" = .ok outputs)
    (servicesRead : readSection Service.read root "services" = .ok services)
    (parsersDiffer : ∀ name ∈ parsers.map Prod.fst, name ∉ Parsers.builtIn.map Parser.name)
    (indexesDiffer : ∀ name ∈ indexes.map Prod.fst, name ≠ defaultIndex) :
    ReadFrom isDirectory root ⟨sources, parsers.map fun p => ⟨p.1, p.2⟩, inputs, indexes, outputs, services⟩

theorem not_mem_of_refuseBuiltIn {root : Setting} {place : String} {builtIn names : List String} {p : Problem}
    (h : refuseBuiltIn root place builtIn names p = .ok ()) : ∀ name ∈ names, name ∉ builtIn := by
  unfold refuseBuiltIn at h
  split at h
  · cases h
  · rename_i hnone
    intro name hname hbuiltIn
    exact List.find?_eq_none.1 hnone name hname (List.contains_iff_mem.2 hbuiltIn)

theorem of_ofRoot {isDirectory : String → Bool} {root : Setting} {config : Config}
    (h : ofRoot isDirectory root = .ok config) : config.ReadFrom isDirectory root := by
  obtain ⟨⟨⟩, hkeys, h⟩ := ok_of_bind h
  obtain ⟨sources, hsources, h⟩ := ok_of_bind h
  obtain ⟨parsers, hparsers, h⟩ := ok_of_bind h
  obtain ⟨inputs, hinputs, h⟩ := ok_of_bind h
  obtain ⟨indexes, hindexes, h⟩ := ok_of_bind h
  obtain ⟨outputs, houtputs, h⟩ := ok_of_bind h
  obtain ⟨services, hservices, h⟩ := ok_of_bind h
  obtain ⟨⟨⟩, hparsersDiffer, h⟩ := ok_of_bind h
  obtain ⟨⟨⟩, hindexesDiffer, h⟩ := ok_of_bind h
  cases h
  exact .mk hkeys hsources hparsers hinputs hindexes houtputs hservices (not_mem_of_refuseBuiltIn hparsersDiffer)
    fun name hname => List.ne_of_not_mem_cons (not_mem_of_refuseBuiltIn hindexesDiffer name hname)

/-- A configuration that is read from a text is empty, or read from the first document. -/
theorem of_ofText {isDirectory : String → Bool} {text : String} {config : Config}
    (h : ofText isDirectory text = .ok config) :
    config = .empty ∨ ∃ root, config.ReadFrom isDirectory root := by
  unfold ofText at h
  split at h
  · cases h
  · cases h
    exact .inl rfl
  unfold ofDocument at h
  split at h
  · exact .inr ⟨_, of_ofRoot h⟩
  · cases h
    exact .inl rfl
  · cases h

end RecordServer.Config
