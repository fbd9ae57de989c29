import RecordServer.Proofs.Relation.Compiled

/-!
# Valid configurations

`Config.Valid` collects what all parts of a configuration promise: limits within their maximum, one parameter for each
wildcard, absolute endpoints, relationships which are neither too deep nor contradictory, tables with different
columns, formats and indexes which are not empty, and no component in place of a built-in one. Every configuration that
is read from a text keeps these promises (`Config.valid_of_ofText`). There is one lemma for each reader, which turns its
success into the promise of what has been read.
-/

namespace RecordServer

/-! ## What is promised -/

/-- The texts and separators of a format are given. -/
def Format.Valid : Format → Prop
  | .boolean trueValues falseValues => trueValues ≠ [] ∧ falseValues ≠ []
  | .split (.text separator) _ => separator ≠ ""
  | _ => True

namespace Config

/-- A column with texts for truth values of its own has some for both. -/
def Column.Valid (c : Column) : Prop :=
  ∀ trueValues falseValues, c.booleans = some (trueValues, falseValues) → trueValues ≠ [] ∧ falseValues ≠ []

/-- A table has columns, of different names, and cells which are separated by an ASCII character. -/
structure Table.Valid (t : Table) : Prop where
  nonempty : t.columns ≠ []
  distinct : (t.columns.map Column.name).Nodup
  ascii : t.delimiter.toNat < 128
  columns : ∀ column ∈ t.columns, column.Valid

/-- The table of an input is valid, if it has one. -/
def Input.Valid (i : Input) : Prop := ∀ table, i.layout = .csv table → table.Valid

/-- An index which is not for every input has properties. -/
def Index.Valid (i : Index) : Prop := i.input?.isSome → i.properties ≠ []

mutual

/-- How many relationships lie within each other, the outermost included. -/
def Relationship.depth : Relationship → Nat
  | .mk _ _ _ _ _ _ relationships => depthOf relationships + 1

/-- The depth of the deepest of several relationships. -/
def depthOf : List Relationship → Nat
  | [] => 0
  | relationship :: rest => max relationship.depth (depthOf rest)

end

mutual

/-- A limit or an order is for many records, the conditions are on different properties, and so it is with all
relationships below. -/
def Relationship.Valid : Relationship → Prop
  | .mk _ _ isArray limit sort conditions relationships =>
    (0 < limit ∨ sort ≠ [] → isArray = true) ∧ (conditions.map Match.childProperty).Nodup ∧ validAll relationships

/-- Each of several relationships is valid. -/
def validAll : List Relationship → Prop
  | [] => True
  | relationship :: rest => relationship.Valid ∧ validAll rest

end

/-- The number of records is limited, and each parameter of a request has one meaning. -/
def Delivery.Valid (parameters : List Parameter) (endpoint : String) : Delivery → Prop
  | .list limit offset =>
    0 < limit.default ∧ limit.default ≤ limit.max ∧ limit.parameter ≠ offset ∧
      ∀ parameter ∈ parameters, parameter.name ≠ limit.parameter ∧ parameter.name ≠ offset
  | .single =>
    parameters.length = wildcards endpoint ∧ 1 ≤ parameters.length ∧ (parameters.map Parameter.name).Nodup

/-- An output has an absolute endpoint, parameters which suit it, and relationships of bounded depth. -/
structure Output.Valid (o : Output) : Prop where
  absolute : o.endpoint.startsWith "/" = true
  delivery : o.delivery.Valid o.parameters o.endpoint
  depth : depthOf o.relationships ≤ 8
  relationships : ∀ relationship ∈ o.relationships, relationship.Valid

end Config

/-- All components are valid, and none stands in the place of a built-in one. -/
structure Config.Valid (c : Config) : Prop where
  parsers : ∀ parser ∈ c.parsers, parser.format.Valid ∧ parser.name ∉ Parsers.builtIn.map Parser.name
  inputs : ∀ entry ∈ c.inputs, entry.2.Valid
  indexes : ∀ entry ∈ c.indexes, entry.2.Valid ∧ entry.1 ≠ defaultIndex
  outputs : ∀ entry ∈ c.outputs, entry.2.Valid

namespace Config

/-! ## Parsers -/

theorem valid_readBooleans {s : Setting} {trueValues falseValues : List String}
    (h : readBooleans s = .ok (trueValues, falseValues)) : trueValues ≠ [] ∧ falseValues ≠ [] := by
  obtain ⟨someTrue, -, h⟩ := ok_of_bind h
  obtain ⟨someFalse, -, h⟩ := ok_of_bind h
  dsimp only at h
  split at h
  · cases h
  rename_i htrue
  split at h
  · cases h
  rename_i hfalse
  cases h
  exact ⟨mt List.isEmpty_iff.2 htrue, mt List.isEmpty_iff.2 hfalse⟩

theorem nonempty_readSeparator {s : Setting} {text : String} (h : readSeparator s = .ok (.text text)) : text ≠ "" := by
  obtain ⟨separator, -, h⟩ := ok_of_bind h
  obtain ⟨regexp, -, h⟩ := ok_of_bind h
  split at h
  · split at h
    · cases h
    rename_i hempty
    cases h
    rintro rfl
    exact hempty rfl
  · split at h <;> cases h
  · cases h

/-- A format that is read is valid. -/
theorem valid_readFormat {s : Setting} {format : Format} (h : readFormat s = .ok format) : format.Valid := by
  obtain ⟨type, -, h⟩ := ok_of_bind h
  split at h
  · obtain ⟨⟨⟩, -, h⟩ := ok_of_bind h
    obtain ⟨charset, -, h⟩ := ok_of_bind h
    cases h
    exact trivial
  · obtain ⟨⟨⟩, -, h⟩ := ok_of_bind h
    obtain ⟨ignored, -, h⟩ := ok_of_bind h
    cases h
    exact trivial
  · obtain ⟨⟨⟩, -, h⟩ := ok_of_bind h
    obtain ⟨ignored, -, h⟩ := ok_of_bind h
    obtain ⟨separator, -, h⟩ := ok_of_bind h
    cases h
    exact trivial
  · obtain ⟨⟨⟩, -, h⟩ := ok_of_bind h
    obtain ⟨⟨trueValues, falseValues⟩, hvalues, h⟩ := ok_of_bind h
    cases h
    exact valid_readBooleans hvalues
  · obtain ⟨⟨⟩, -, h⟩ := ok_of_bind h
    cases h
    exact trivial
  · obtain ⟨⟨⟩, -, h⟩ := ok_of_bind h
    obtain ⟨separator, hseparator, h⟩ := ok_of_bind h
    obtain ⟨inner, -, h⟩ := ok_of_bind h
    cases h
    cases separator with
    | text text => exact nonempty_readSeparator hseparator
    | regexp source machine => exact trivial
  · cases h

/-! ## Inputs -/

/-- A column that is read is valid. -/
theorem valid_readColumn {s : Setting} {column : Column} (h : Column.read s = .ok column) : column.Valid := by
  unfold Column.read at h
  split at h
  · cases h
    nofun
  obtain ⟨⟨⟩, -, h⟩ := ok_of_bind h
  obtain ⟨name, -, h⟩ := ok_of_bind h
  dsimp only at h
  split at h
  · cases h
  split at h
  · cases h
  split at h
  · obtain ⟨⟨trueValues, falseValues⟩, hvalues, h⟩ := ok_of_bind h
    cases h
    intro _ _ hsame
    cases hsame
    exact valid_readBooleans hvalues
  split at h
  · obtain ⟨separator, -, h⟩ := ok_of_bind h
    cases h
    nofun
  · obtain ⟨parser, -, h⟩ := ok_of_bind h
    cases h
    nofun

/-- What is read item by item has different names and is valid, if a name that has been used before is refused. -/
theorem of_readColumns {table : Setting} : ∀ {settings : List Setting} {read columns : List Column},
    readColumns table read settings = .ok columns → (read.map Column.name).Nodup → (∀ column ∈ read, column.Valid) →
    (columns.map Column.name).Nodup ∧ ∀ column ∈ columns, column.Valid
  | [], read, columns, h, hread, hvalid => by
    cases h
    exact ⟨by rw [List.map_reverse]; exact List.nodup_reverse.2 hread,
      fun column hcolumn => hvalid column (List.mem_reverse.1 hcolumn)⟩
  | s :: rest, read, columns, h, hread, hvalid => by
    obtain ⟨column, hcolumn, h⟩ := ok_of_bind h
    split at h
    · cases h
    · rename_i hnew
      exact of_readColumns h (nodup_map_cons hnew hread)
        (List.forall_mem_cons.2 ⟨valid_readColumn hcolumn, hvalid⟩)

/-- A table that is read is valid. -/
theorem valid_readTable {s : Setting} {table : Table} (h : Table.read s = .ok table) : table.Valid := by
  obtain ⟨delimiter, -, h⟩ := ok_of_bind h
  split at h
  · cases h
  rename_i hascii
  obtain ⟨items, -, h⟩ := ok_of_bind h
  obtain ⟨columns, hcolumns, h⟩ := ok_of_bind h
  split at h
  · cases h
  rename_i hnonempty
  obtain ⟨ignoreFirst, -, h⟩ := ok_of_bind h
  cases h
  obtain ⟨hdistinct, hvalid⟩ := of_readColumns hcolumns List.nodup_nil nofun
  refine ⟨mt List.isEmpty_iff.2 hnonempty, hdistinct, ?_, hvalid⟩
  rw [UInt8.toNat_ofNat']
  omega

/-- An input that is read is valid. -/
theorem valid_readInput {s : Setting} {input : Input} (h : Input.read s = .ok input) : input.Valid := by
  obtain ⟨layout, hlayout, h⟩ := ok_of_bind h
  obtain ⟨source, -, h⟩ := ok_of_bind h
  obtain ⟨file, -, h⟩ := ok_of_bind h
  obtain ⟨fatalChange, -, h⟩ := ok_of_bind h
  cases h
  rintro table rfl
  obtain ⟨type, -, h⟩ := ok_of_bind hlayout
  split at h
  · obtain ⟨⟨⟩, -, h⟩ := ok_of_bind h
    obtain ⟨read, hread, h⟩ := ok_of_bind h
    cases h
    exact valid_readTable hread
  · obtain ⟨⟨⟩, -, h⟩ := ok_of_bind h
    cases h
  · obtain ⟨⟨⟩, -, h⟩ := ok_of_bind h
    obtain ⟨path, -, h⟩ := ok_of_bind h
    obtain ⟨properties, -, h⟩ := ok_of_bind h
    cases h
  · cases h

/-! ## Indexes -/

theorem nonempty_readIndexed {s : Setting} {properties : List String} (h : readIndexed s = .ok properties) :
    properties ≠ [] := by
  obtain ⟨read, -, h⟩ := ok_of_bind h
  split at h
  · cases h
    exact List.cons_ne_nil _ _
  · cases h

/-- An index that is read is valid. -/
theorem valid_readIndex {isDirectory : String → Bool} {s : Setting} {index : Index}
    (h : Index.read isDirectory s = .ok index) : index.Valid := by
  obtain ⟨type, -, h⟩ := ok_of_bind h
  split at h
  · obtain ⟨⟨⟩, -, h⟩ := ok_of_bind h
    cases h
    nofun
  · obtain ⟨⟨⟩, -, h⟩ := ok_of_bind h
    obtain ⟨input, -, h⟩ := ok_of_bind h
    obtain ⟨properties, hproperties, h⟩ := ok_of_bind h
    cases h
    exact fun _ => nonempty_readIndexed hproperties
  · obtain ⟨⟨⟩, -, h⟩ := ok_of_bind h
    obtain ⟨input, -, h⟩ := ok_of_bind h
    obtain ⟨properties, hproperties, h⟩ := ok_of_bind h
    obtain ⟨ignoreCase, -, h⟩ := ok_of_bind h
    cases h
    exact fun _ => nonempty_readIndexed hproperties
  · obtain ⟨⟨⟩, -, h⟩ := ok_of_bind h
    obtain ⟨path, -, h⟩ := ok_of_bind h
    split at h
    · cases h
    obtain ⟨input, -, h⟩ := ok_of_bind h
    obtain ⟨properties, hproperties, h⟩ := ok_of_bind h
    obtain ⟨ignoreCase, -, h⟩ := ok_of_bind h
    cases h
    exact fun _ => nonempty_readIndexed hproperties
  · cases h

/-! ## Relationships -/

theorem depthOf_le {depth : Nat} : ∀ {relationships : List Relationship},
    depthOf relationships ≤ depth ↔ ∀ relationship ∈ relationships, relationship.depth ≤ depth
  | [] => by simp [depthOf]
  | relationship :: rest => by
    rw [depthOf, Nat.max_le, List.forall_mem_cons, depthOf_le]

theorem validAll_iff : ∀ {relationships : List Relationship},
    validAll relationships ↔ ∀ relationship ∈ relationships, relationship.Valid
  | [] => by simp [validAll]
  | relationship :: rest => by
    rw [validAll, List.forall_mem_cons, validAll_iff]

/-- Relationships that are read are valid and no deeper than has been allowed. -/
theorem valid_readRelationships : ∀ {depth : Nat} {s : Setting} {relationships : List Relationship},
    readRelationships depth s = .ok relationships →
    ∀ relationship ∈ relationships, relationship.depth ≤ depth ∧ relationship.Valid
  | 0, s, relationships, h => by
    obtain ⟨-, rfl⟩ := of_readRelationships_zero h
    exact List.forall_mem_nil _
  | depth + 1, s, relationships, h => by
    obtain ⟨entries, -, hread⟩ := of_readRelationships h
    intro relationship hmem
    obtain ⟨entry, -, hread⟩ := mem_of_forall₂ hread relationship hmem
    obtain ⟨-, -, -, -, -, -, hconditions, -, hbelow, harray⟩ := hread
    have hrest := valid_readRelationships hbelow
    unfold Relationship.depth Relationship.Valid
    exact ⟨Nat.succ_le_succ (depthOf_le.2 fun r hr => (hrest r hr).1), harray,
      nodup_readMatches hconditions List.nodup_nil, validAll_iff.2 fun r hr => (hrest r hr).2⟩

/-! ## Outputs -/

theorem absolute_readEndpoint {s : Setting} {endpoint : String} (h : readEndpoint s = .ok endpoint) :
    endpoint.startsWith "/" = true := by
  obtain ⟨text, -, h⟩ := ok_of_bind h
  split at h
  · rename_i habsolute
    cases h
    exact habsolute
  · cases h

theorem valid_readLimit {s : Setting} {limit : Limit} (h : Limit.read s = .ok limit) :
    0 < limit.default ∧ limit.default ≤ limit.max := by
  obtain ⟨⟨⟩, -, h⟩ := ok_of_bind h
  obtain ⟨default, -, h⟩ := ok_of_bind h
  obtain ⟨max, -, h⟩ := ok_of_bind h
  obtain ⟨parameter, -, h⟩ := ok_of_bind h
  dsimp only at h
  split at h
  · cases h
  rename_i hwithin
  cases h
  simp only [Bool.or_eq_true, decide_eq_true_eq] at hwithin
  dsimp only
  omega

theorem ne_readOffset {s : Setting} {limit : Limit} {offset : String} (h : readOffset s limit = .ok offset) :
    limit.parameter ≠ offset := by
  obtain ⟨⟨⟩, -, h⟩ := ok_of_bind h
  obtain ⟨parameter, -, h⟩ := ok_of_bind h
  split at h
  · cases h
  rename_i hdifferent
  cases h
  exact Ne.symm hdifferent

theorem name_readParameter {s : Setting} {name : String} {parameter : Parameter}
    (h : Parameter.read s name = .ok parameter) : parameter.name = name := by
  obtain ⟨property, -, h⟩ := ok_of_bind h
  obtain ⟨index, -, h⟩ := ok_of_bind h
  obtain ⟨parser, -, h⟩ := ok_of_bind h
  cases h
  rfl

/-- No two parameters that stand for wildcards are read under one name. -/
theorem nodup_readParameters {output : Setting} : ∀ {settings : List Setting} {read parameters : List Parameter},
    readParameters output read settings = .ok parameters → (read.map Parameter.name).Nodup →
    (parameters.map Parameter.name).Nodup
  | [], read, parameters, h, hread => by
    cases h
    rw [List.map_reverse]
    exact List.nodup_reverse.2 hread
  | s :: rest, read, parameters, h, hread => by
    obtain ⟨parameter, -, h⟩ := ok_of_bind h
    split at h
    · cases h
    · rename_i hnew
      exact nodup_readParameters h (nodup_map_cons hnew hread)

/-- An output that is read is valid. -/
theorem valid_readOutput {s : Setting} {o : Output} (h : Output.read s = .ok o) : o.Valid := by
  have hrelationships := valid_readRelationships (relationships_read h)
  have hdepth : depthOf o.relationships ≤ 8 := depthOf_le.2 fun r hr => (hrelationships r hr).1
  have hvalid : ∀ relationship ∈ o.relationships, relationship.Valid := fun r hr => (hrelationships r hr).2
  cases of_readOutput h with
  | list type keys limitRead offsetRead entriesRead parametersRead endpointRead =>
    obtain ⟨hpositive, hwithin⟩ := valid_readLimit limitRead
    refine ⟨absolute_readEndpoint endpointRead, ⟨hpositive, hwithin, ne_readOffset offsetRead, ?_⟩, hdepth, hvalid⟩
    intro parameter hmem
    obtain ⟨entry, -, hread⟩ := mem_of_forall₂ parametersRead parameter hmem
    rw [name_readParameter hread.read]
    simpa using hread.free
  | single type keys endpointRead itemsRead parametersRead inputRead relationshipsRead wildcard count =>
    have hnames := nodup_readParameters parametersRead List.nodup_nil
    exact ⟨absolute_readEndpoint endpointRead, ⟨count, count ▸ Nat.pos_of_ne_zero wildcard, hnames⟩, hdepth, hvalid⟩

/-! ## Configurations -/

/-- A configuration that is read from a setting is valid. -/
theorem valid_of_readFrom {isDirectory : String → Bool} {root : Setting} {config : Config}
    (h : config.ReadFrom isDirectory root) : config.Valid := by
  obtain ⟨-, -, hparsers, hinputs, hindexes, houtputs, -, hparsersDiffer, hindexesDiffer⟩ := h
  refine ⟨fun parser hmem => ?_, fun entry hmem => ?_, fun entry hmem => ?_, fun entry hmem => ?_⟩
  · obtain ⟨entry, hentry, rfl⟩ := List.mem_map.1 hmem
    obtain ⟨s, hs⟩ := mem_readSection hparsers entry hentry
    exact ⟨valid_readFormat hs, hparsersDiffer _ (List.mem_map_of_mem hentry)⟩
  · obtain ⟨s, hs⟩ := mem_readSection hinputs entry hmem
    exact valid_readInput hs
  · obtain ⟨s, hs⟩ := mem_readSection hindexes entry hmem
    exact ⟨valid_readIndex hs, hindexesDiffer _ (List.mem_map_of_mem hmem)⟩
  · obtain ⟨s, hs⟩ := mem_readSection houtputs entry hmem
    exact valid_readOutput hs

/-- **Every configuration that is read from a text is valid.** -/
theorem valid_of_ofText {isDirectory : String → Bool} {text : String} {config : Config}
    (h : ofText isDirectory text = .ok config) : config.Valid := by
  rcases of_ofText h with rfl | ⟨root, hread⟩
  · exact ⟨nofun, nofun, nofun, nofun⟩
  · exact valid_of_readFrom hread

/-- A table of which all records are delivered. -/
def lettersText : String :=
  "inputs:\n t:\n  type: csv\n  source: s\n  file: f\n  columns: [q]\n" ++
  "outputs:\n a:\n  type: jsonArray\n  endpoint: /a\n  input: t"

theorem valid_letters : ∃ config, ofText (fun _ => false) lettersText = .ok config ∧
    config.outputs.map Prod.fst = ["a"] ∧ config.Valid := by
  have hread : (ofText (fun _ => false) lettersText).toOption.map (fun c => c.outputs.map Prod.fst) = some ["a"] := by
    decide +kernel
  obtain ⟨config, hconfig, houtputs⟩ := Option.map_eq_some_iff.1 hread
  have h := ok_of_toOption hconfig
  exact ⟨config, h, houtputs, valid_of_ofText h⟩

end Config

end RecordServer
