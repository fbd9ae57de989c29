import RecordServer.Catalog
import RecordServer.Proofs.FileSystem
import RecordServer.Proofs.Index.Exact
import RecordServer.Proofs.Index.Substring
import RecordServer.Proofs.Input.Access

/-!
# Opening a catalog

Opening indexes writes index files and changes no other files (`Catalog.openIndexes_changes`). So the indexes that are
kept in memory describe the records of their inputs as they have been found before the catalog was opened, unless an
index file has been written over the file of an input (`Index.Sound`, `Catalog.openIndexes_sound`). Inputs and indexes
are created as declared, one by one (`Catalog.of_openInputs_all`, `Catalog.of_openIndexes_all`), and are found under
their own names.
-/

namespace RecordServer

/-! ## Index files -/

/-- Where an index writes. -/
def Config.Index.writes : Config.Index → List Location
  | .substringFile _ _ _ path => [Path.location path, Path.location (path ++ ".tmp")]
  | _ => []

/-- Where the indexes of a configuration write. -/
def Config.writes (config : Config) : List Location := config.indexes.flatMap fun entry => entry.2.writes

namespace Index

open FileSystem

variable {touched : List Location} {fs : FileSystem}

theorem changes_writeFile {path : String} (content : List UInt8) (hpath : Path.location path ∈ touched)
    (htemporary : Path.location (path ++ ".tmp") ∈ touched) : Changes touched fs (writeFile fs path content).2 := by
  unfold writeFile
  simp only
  split
  · exact .refl touched fs
  · rename_i created hcreate
    have hcreated : Changes touched fs created := changes_createDirectory hcreate
    split
    · exact hcreated
    · rename_i written hwrite
      have hwritten : Changes touched fs written := hcreated.trans (changes_put hwrite htemporary)
      split
      · exact hwritten
      · rename_i moved hmove
        exact hwritten.trans (changes_move hmove htemporary hpath)

theorem changes_openFile {name path : String} {input : Input} {properties : List String} {ignoreCase : Bool}
    (hpath : Path.location path ∈ touched) (htemporary : Path.location (path ++ ".tmp") ∈ touched) :
    Changes touched fs (openFile fs name input properties ignoreCase path).2 := by
  unfold openFile
  split
  · exact .refl touched fs
  · split
    · exact .refl touched fs
    · exact .refl touched fs
    · unfold build
      split
      · exact .refl touched fs
      · rename_i records _
        have hwrite := @changes_writeFile touched fs path (SuffixFile.encode ignoreCase (properties.map fun property =>
          SuffixTable.ofKeys property (keysOf ignoreCase records property))) hpath htemporary
        simp only
        split
        · rename_i hfailed
          rw [hfailed] at hwrite
          exact hwrite
        · rename_i hdone
          rw [hdone] at hwrite
          split <;> exact hwrite

/-- Creating an index changes no files but its own. -/
theorem changes_create (place name : String) (config : Config.Index) (input : Option Input) :
    Changes config.writes fs (create fs place name config input).2 := by
  have htables : ∀ input, Changes config.writes fs (tablesFor fs name input config).2 := by
    intro input
    cases config with
    | scan => exact .refl _ fs
    | exact => exact .refl _ fs
    | substring => exact .refl _ fs
    | substringFile => exact changes_openFile (by simp [Config.Index.writes]) (by simp [Config.Index.writes])
  unfold create
  split
  · exact .refl _ fs
  · exact .refl _ fs
  · split
    · exact .refl _ fs
    · exact htables _

end Index

/-! ## Indexes -/

/-- Tables which are not in a file. -/
def Tables.InMemory : Tables → Prop
  | .substringFile _ _ _ => False
  | _ => True

/-- An index with tables in a file. -/
def Index.InFile (i : Index) : Prop := ∃ c, i.coverage = some c ∧ ¬c.tables.InMemory

/-- An index is found under its own name, and is for a known input. If it is in memory, it describes the records of the
file which the input had before anything was written, unless that file has been written over. -/
structure Index.Sound (fs : FileSystem) (touched : List Location) (inputs : List (String × Input)) (name : String)
    (i : Index) : Prop where
  name : i.name = name
  covers : ∀ c, i.coverage = some c → ∃ input, inputs.lookup c.input = some input ∧
    (c.tables.InMemory → Path.location input.path ∉ touched → ∀ f, fs.file? input.path = some f →
      c.tables.Describes c.properties (reached (input.recordsOf f.content)))

namespace Index

open FileSystem

theorem sound_scan {fs : FileSystem} {touched : List Location} {inputs : List (String × Input)} (name : String) :
    (scan name).Sound fs touched inputs name :=
  ⟨rfl, nofun⟩

/-- All records of a file that has stayed as it was have been read. -/
theorem reached_of_allRecords {fs g : FileSystem} {touched : List Location} {input : Input} {f : File}
    {records : List (Position × Record)} (hg : Changes touched fs g) (hpath : Path.location input.path ∉ touched)
    (hf : fs.file? input.path = some f) (hrecords : allRecords g input = .ok records) :
    reached (input.recordsOf f.content) = records := by
  have hitems := Input.records_of_file (hg.file hpath hf)
  rw [records_of_allRecords hrecords] at hitems
  rw [← Except.ok.inj hitems, reached_of_all]

/-- An index that has been created is sound. -/
theorem sound_create {fs g g' : FileSystem} {touched : List Location} {inputs : List (String × Input)}
    {place name : String} {config : Config.Index} {input : Option Input} {i : Index} (hg : Changes touched fs g)
    (hinput : ∀ j ∈ input, inputs.lookup j.name = some j) (h : create g place name config input = (.ok i, g')) :
    i.Sound fs touched inputs name := by
  unfold create at h
  split at h
  · obtain ⟨hi, -⟩ := Prod.mk.inj h
    exact Except.ok.inj hi ▸ sound_scan name
  · cases (Prod.mk.inj h).1
  · rename_i input _
    split at h
    · cases (Prod.mk.inj h).1
    · obtain ⟨hi, -⟩ := Prod.mk.inj h
      obtain ⟨tables, htables, rfl⟩ := ok_of_map hi
      refine ⟨rfl, fun c hc => ?_⟩
      obtain rfl : (⟨input.name, config.properties, tables⟩ : Coverage) = c := Option.some.inj hc
      refine ⟨input, hinput input rfl, fun hmemory hpath f hf => ?_⟩
      cases config with
      | scan => contradiction
      | exact _ properties =>
        obtain ⟨records, hrecords, rfl⟩ := ok_of_map htables
        rw [reached_of_allRecords hg hpath hf hrecords]
        have hasc := Input.records_ascending (records_of_allRecords hrecords)
        rw [reached_of_all] at hasc
        exact Tables.describes_exact hasc
      | substring _ properties ignoreCase =>
        obtain ⟨records, hrecords, rfl⟩ := ok_of_map htables
        rw [reached_of_allRecords hg hpath hf hrecords]
        exact Tables.describes_substring
      | substringFile _ properties ignoreCase path =>
        obtain ⟨file, -, rfl⟩ := ok_of_map htables
        exact hmemory.elim

end Index

/-! ## Registered components -/

/-- What is so of all components stays so with one more of which it is so. -/
theorem forall_register {α : Type} {P : String → α → Prop} {entries : List (String × α)} {name : String}
    {component : α} (h : ∀ e ∈ entries, P e.1 e.2) (hc : P name component) :
    ∀ e ∈ register entries name component, P e.1 e.2 := by
  intro e he
  rcases List.mem_append.1 he with he | he
  · exact h e (List.mem_filter.1 he).1
  · rw [List.mem_singleton.1 he]
    exact hc

/-- Entries with further components, one after the other. -/
def registerAll {α : Type} (entries new : List (String × α)) : List (String × α) :=
  new.foldl (fun entries e => register entries e.1 e.2) entries

theorem registerAll_concat {α : Type} (entries new : List (String × α)) (e : String × α) :
    registerAll entries (new ++ [e]) = register (registerAll entries new) e.1 e.2 := by
  simp [registerAll]

/-- What is so of all components stays so with further ones of which it is so. -/
theorem forall_registerAll {α : Type} {P : String → α → Prop} {entries new : List (String × α)}
    (h : ∀ e ∈ entries, P e.1 e.2) (hnew : ∀ e ∈ new, P e.1 e.2) : ∀ e ∈ registerAll entries new, P e.1 e.2 := by
  induction new using List.reverseRecOn with
  | nil => exact h
  | append_singleton new e ih =>
    rw [registerAll_concat]
    refine forall_register (ih fun other hother => hnew other (List.mem_append_left _ hother)) ?_
    exact hnew e (List.mem_append_right _ List.mem_cons_self)

namespace Catalog

open FileSystem

/-- A reference to an input leads to what is found under its name. -/
theorem lookup_of_input {c : Catalog} {name place : String} {input : Input} (h : c.input name place = .ok input) :
    c.inputs.lookup name = some input := by
  unfold Catalog.input at h
  split at h
  · rename_i hthere
    cases h
    exact hthere
  · cases h

/-- A reference to an index leads to what is found under its name. -/
theorem lookup_of_index {c : Catalog} {name place : String} {i : Index} (h : c.index name place = .ok i) :
    c.indexes.lookup name = some i := by
  unfold Catalog.index at h
  split at h
  · rename_i hthere
    cases h
    exact hthere
  · cases h

/-- An index of a catalog is for a property of an input. -/
def Provides (c : Catalog) (input : Input) (property : String) (i : Index) : Prop :=
  ∃ name, c.indexes.lookup name = some i ∧ i.handlesInput input.name = true ∧ i.handlesProperty property = true

/-- An index that may filter a property of an input is from the catalog, and is for both. -/
theorem provides_of_filterIndex {c : Catalog} {name property place : String} {input : Input} {i : Index}
    (h : c.filterIndex name input property place = .ok i) : c.Provides input property i := by
  obtain ⟨found, hfound, h⟩ := ok_of_bind h
  have hlookup := lookup_of_index hfound
  split at h
  · cases h
  rename_i hinput
  split at h
  · cases h
  rename_i hproperty
  split at h
  · cases h
  cases h
  exact ⟨name, hlookup, by simpa using hinput, by simpa using hproperty⟩

/-- An input is found under its own name and has a file. -/
def InputSound (fs : FileSystem) (name : String) (input : Input) : Prop :=
  input.name = name ∧ ∃ f, fs.file? input.path = some f

/-- An input that has been created is found under its own name and has a file. -/
theorem inputSound_create {fs : FileSystem} {parsers : Parsers} {place name path : String} {config : Config.Input}
    {input : Input} (h : Input.create fs parsers place name path config = .ok input) : InputSound fs name input := by
  unfold Input.create at h
  split at h
  · cases h
  · rename_i f hf
    obtain ⟨_, -, h⟩ := ok_of_bind h
    cases h
    exact ⟨rfl, f, hf⟩

/-- An input has been created under a name. -/
def InputCreated (fs : FileSystem) (name : String) (input : Input) : Prop :=
  ∃ parsers place path config, Input.create fs parsers place name path config = .ok input

theorem InputCreated.sound {fs : FileSystem} {name : String} {input : Input} (h : InputCreated fs name input) :
    InputSound fs name input := by
  obtain ⟨parsers, place, path, config, h⟩ := h
  exact inputSound_create h

/-- An input is created as declared, from the file of its source. -/
def OpensInput (fs : FileSystem) (sources : List (String × Config.Source)) (parsers : Parsers)
    (declared : String × Config.Input) (input : Input) : Prop :=
  ∃ source, sources.lookup declared.2.source = some source ∧
    Input.create fs parsers ("inputs." ++ declared.1) declared.1 (source.resolve declared.2.file) declared.2 = .ok input

/-- **Opening inputs** creates them as declared, one after the other, and registers them. -/
theorem of_openInputs_all {fs : FileSystem} {sources : List (String × Config.Source)} :
    ∀ {inputs : List (String × Config.Input)} {c c' : Catalog}, openInputs fs sources c inputs = .ok c' →
    ∃ created, List.Forall₂ (fun d e => e.1 = d.1 ∧ OpensInput fs sources c.parsers d e.2) inputs created ∧
      c' = { c with inputs := registerAll c.inputs created }
  | [], c, c', h => by
    cases h
    exact ⟨[], .nil, rfl⟩
  | (name, config) :: inputs, c, c', h => by
    unfold openInputs at h
    simp only at h
    cases hsource : sources.lookup config.source with
    | none =>
      rw [hsource] at h
      cases h
    | some source =>
      rw [hsource] at h
      obtain ⟨_, hsame, h⟩ := ok_of_bind h
      cases hsame
      obtain ⟨input, hinput, h⟩ := ok_of_bind h
      obtain ⟨created, hcreated, rfl⟩ := of_openInputs_all h
      exact ⟨(name, input) :: created, .cons ⟨rfl, source, hsource, hinput⟩ hcreated, rfl⟩

/-- Opening inputs creates them and leaves the indexes. -/
theorem openInputs_created {fs : FileSystem} {sources : List (String × Config.Source)}
    {inputs : List (String × Config.Input)} {c c' : Catalog} (h : ∀ e ∈ c.inputs, InputCreated fs e.1 e.2)
    (hopen : openInputs fs sources c inputs = .ok c') :
    (∀ e ∈ c'.inputs, InputCreated fs e.1 e.2) ∧ c'.indexes = c.indexes := by
  obtain ⟨created, hcreated, rfl⟩ := of_openInputs_all hopen
  refine ⟨forall_registerAll h fun e he => ?_, rfl⟩
  obtain ⟨d, -, hname, source, -, hinput⟩ := mem_of_forall₂ hcreated e he
  exact ⟨_, _, _, _, hname ▸ hinput⟩

/-! ## Opening indexes -/

section Indexes

variable {fs g g' : FileSystem} {touched : List Location} {c c' : Catalog} {name : String} {config : Config.Index}
  {indexes : List (String × Config.Index)}

/-- The first index is opened before the others. -/
theorem of_openIndexes (h : openIndexes g c ((name, config) :: indexes) = (.ok c', g')) :
    ∃ input index after, c.indexedInput ("indexes." ++ name) config = .ok input ∧
      Index.create g ("indexes." ++ name) name config input = (.ok index, after) ∧
      openIndexes after { c with indexes := register c.indexes name index } indexes = (.ok c', g') := by
  unfold openIndexes at h
  simp only at h
  split at h
  · cases (Prod.mk.inj h).1
  · rename_i input hinput
    split at h
    · cases (Prod.mk.inj h).1
    · rename_i index after hcreate
      exact ⟨input, index, after, hinput, hcreate, h⟩

/-- An index is created as declared, for the input of a catalog, among whatever files there are by then. -/
def OpensIndex (c : Catalog) (declared : String × Config.Index) (index : Index) : Prop :=
  ∃ input fs fs', c.indexedInput ("indexes." ++ declared.1) declared.2 = .ok input ∧
    Index.create fs ("indexes." ++ declared.1) declared.1 declared.2 input = (.ok index, fs')

/-- **Opening indexes** creates them as declared, one after the other, and registers them. -/
theorem of_openIndexes_all {fs' : FileSystem} : ∀ {indexes : List (String × Config.Index)} {fs : FileSystem}
    {c c' : Catalog}, openIndexes fs c indexes = (.ok c', fs') →
    ∃ created, List.Forall₂ (fun d e => e.1 = d.1 ∧ c.OpensIndex d e.2) indexes created ∧
      c' = { c with indexes := registerAll c.indexes created }
  | [], fs, c, c', h => by
    cases h
    exact ⟨[], .nil, rfl⟩
  | (name, config) :: indexes, fs, c, c', h => by
    obtain ⟨input, index, after, hinput, hcreate, h⟩ := of_openIndexes h
    obtain ⟨created, hcreated, rfl⟩ := of_openIndexes_all h
    exact ⟨(name, index) :: created, .cons ⟨rfl, input, fs, after, hinput, hcreate⟩ hcreated, rfl⟩

/-- Opening indexes leaves the inputs. -/
theorem inputs_of_openIndexes (h : openIndexes g c indexes = (.ok c', g')) : c'.inputs = c.inputs := by
  obtain ⟨created, -, rfl⟩ := of_openIndexes_all h
  rfl

/-- **Opening indexes changes no files but theirs.** -/
theorem openIndexes_changes : ∀ {indexes : List (String × Config.Index)} {g : FileSystem} {c : Catalog},
    (∀ e ∈ indexes, ∀ l ∈ e.2.writes, l ∈ touched) → openIndexes g c indexes = (.ok c', g') → Changes touched g g'
  | [], _, _, _, h => by
    cases h
    exact .refl touched _
  | (name, config) :: indexes, g, c, hwrites, h => by
    obtain ⟨hfirst, hrest⟩ := List.forall_mem_cons.1 hwrites
    obtain ⟨input, index, after, -, hcreate, h⟩ := of_openIndexes h
    have hchanges := @Index.changes_create g ("indexes." ++ name) name config input
    rw [hcreate] at hchanges
    exact (hchanges.mono hfirst).trans (openIndexes_changes hrest h)

/-- The input of an index is found under its name. -/
theorem lookup_of_indexedInput {place : String} {input : Option Input} (hnames : ∀ e ∈ c.inputs, e.2.name = e.1)
    (h : c.indexedInput place config = .ok input) : ∀ j ∈ input, c.inputs.lookup j.name = some j := by
  intro j hj
  unfold indexedInput at h
  split at h
  · cases h
    cases hj
  · obtain ⟨found, hfound, rfl⟩ := ok_of_map h
    obtain rfl : found = j := Option.some.inj hj
    have hthere := lookup_of_input hfound
    rwa [hnames _ (mem_of_lookup hthere)]

/-- Opening indexes gives sound indexes. -/
theorem openIndexes_sound : ∀ {indexes : List (String × Config.Index)} {g : FileSystem} {c : Catalog},
    (∀ e ∈ indexes, ∀ l ∈ e.2.writes, l ∈ touched) → Changes touched fs g → (∀ e ∈ c.inputs, e.2.name = e.1) →
    (∀ e ∈ c.indexes, e.2.Sound fs touched c.inputs e.1) → openIndexes g c indexes = (.ok c', g') →
    ∀ e ∈ c'.indexes, e.2.Sound fs touched c.inputs e.1
  | [], g, c, _, _, _, hsound, h => by
    cases h
    exact hsound
  | (name, config) :: indexes, g, c, hwrites, hg, hnames, hsound, h => by
    obtain ⟨hfirst, hrest⟩ := List.forall_mem_cons.1 hwrites
    obtain ⟨input, index, after, hinput, hcreate, h⟩ := of_openIndexes h
    have hchanges := @Index.changes_create g ("indexes." ++ name) name config input
    rw [hcreate] at hchanges
    have hindex := Index.sound_create hg (lookup_of_indexedInput hnames hinput) hcreate
    exact openIndexes_sound (c := { c with indexes := register c.indexes name index }) hrest
      (hg.trans (hchanges.mono hfirst)) hnames (forall_register hsound hindex) h

/-- Some indexes are opened before the others. -/
theorem openIndexes_append {more : List (String × Config.Index)} : ∀ {indexes : List (String × Config.Index)}
    {g : FileSystem} {c : Catalog}, openIndexes g c (indexes ++ more) = (.ok c', g') →
    ∃ between middle, openIndexes g c indexes = (.ok between, middle) ∧ openIndexes middle between more = (.ok c', g')
  | [], g, c, h => ⟨c, g, rfl, h⟩
  | (name, config) :: indexes, g, c, h => by
    rw [List.cons_append] at h
    obtain ⟨input, index, after, hinput, hcreate, h⟩ := of_openIndexes h
    obtain ⟨between, middle, hfirst, hmore⟩ := openIndexes_append h
    refine ⟨between, middle, ?_, hmore⟩
    unfold openIndexes
    simp only [hinput, hcreate]
    exact hfirst

/-- What is found under a name stays as it is if components with other names are registered. -/
theorem lookup_register {α : Type} {other : String} {component : α} (hne : name ≠ other)
    (entries : List (String × α)) : (register entries other component).lookup name = entries.lookup name := by
  have hbeq : (name == other) = false := by simpa using hne
  rw [register, List.lookup_append, lookup_filter_ne hne, List.lookup_cons, hbeq, List.lookup_nil, Option.or_none]

theorem lookup_register_self {α : Type} (entries : List (String × α)) (component : α) :
    (register entries name component).lookup name = some component := by
  have hnone : (entries.filter fun entry => entry.1 ≠ name).lookup name = none := by
    refine List.lookup_eq_none_iff.2 fun e he => ?_
    have hne : e.1 ≠ name := by simpa using (List.mem_filter.1 he).2
    exact bne_iff_ne.2 hne.symm
  rw [register, List.lookup_append, hnone, Option.none_or, List.lookup_cons, beq_self_eq_true]

/-- Opening indexes with other names leaves what is found under a name. -/
theorem lookup_openIndexes : ∀ {indexes : List (String × Config.Index)} {g : FileSystem} {c : Catalog},
    (∀ e ∈ indexes, e.1 ≠ name) → openIndexes g c indexes = (.ok c', g') →
    c'.indexes.lookup name = c.indexes.lookup name
  | [], _, _, _, h => by
    cases h
    rfl
  | (other, config) :: indexes, g, c, hnames, h => by
    obtain ⟨hfirst, hrest⟩ := List.forall_mem_cons.1 hnames
    obtain ⟨input, index, after, -, -, h⟩ := of_openIndexes h
    exact (lookup_openIndexes hrest h).trans (lookup_register hfirst.symm c.indexes)

/-- What has been opened as the last index of a name is found under it. -/
theorem of_openIndexes_last {before after : List (String × Config.Index)} (hafter : ∀ e ∈ after, e.1 ≠ name)
    (h : openIndexes g c (before ++ (name, config) :: after) = (.ok c', g')) :
    ∃ between middle input index next, openIndexes g c before = (.ok between, middle) ∧
      between.indexedInput ("indexes." ++ name) config = .ok input ∧
      Index.create middle ("indexes." ++ name) name config input = (.ok index, next) ∧
      c'.indexes.lookup name = some index := by
  obtain ⟨between, middle, hbefore, h⟩ := openIndexes_append h
  obtain ⟨input, index, next, hinput, hcreate, h⟩ := of_openIndexes h
  exact ⟨between, middle, input, index, next, hbefore, hinput, hcreate,
    (lookup_openIndexes hafter h).trans (lookup_register_self between.indexes index)⟩

end Indexes

/-- **What is found in a catalog has been opened under its name**: inputs with their files, and indexes which are up to
date if they are in memory, as far as no index file has been written over the file of an input. -/
theorem ofConfig_sound {fs fs' : FileSystem} {config : Config} {c : Catalog} (h : ofConfig fs config = (.ok c, fs')) :
    Changes config.writes fs fs' ∧ (∀ e ∈ c.inputs, InputSound fs e.1 e.2) ∧
      ∀ e ∈ c.indexes, e.2.Sound fs config.writes c.inputs e.1 := by
  unfold ofConfig at h
  split at h
  · cases (Prod.mk.inj h).1
  · rename_i opened hopened
    unfold openFiles at hopened
    obtain ⟨parsers, -, hopened⟩ := ok_of_bind hopened
    obtain ⟨hcreated, hindexes⟩ := openInputs_created (c := ⟨parsers, [], _⟩) (by simp) hopened
    have hinputs : ∀ e ∈ opened.inputs, InputSound fs e.1 e.2 := fun e he => (hcreated e he).sound
    have hdefault : ∀ e ∈ opened.indexes, e.2.Sound fs config.writes opened.inputs e.1 := by
      rw [hindexes]
      simp only [List.forall_mem_singleton]
      exact Index.sound_scan Config.defaultIndex
    have hwrites : ∀ e ∈ config.indexes, ∀ l ∈ e.2.writes, l ∈ config.writes := fun e he l hl =>
      List.mem_flatMap.2 ⟨e, he, hl⟩
    have hchanges := openIndexes_changes hwrites h
    have hsame := inputs_of_openIndexes h
    have hsound := openIndexes_sound hwrites (.refl _ fs) (fun e he => (hinputs e he).1) hdefault h
    exact ⟨hchanges, hsame ▸ hinputs, hsame ▸ hsound⟩

/-- The inputs of a catalog have been created under their names. -/
theorem inputs_created {fs fs' : FileSystem} {config : Config} {c : Catalog}
    (h : ofConfig fs config = (.ok c, fs')) : ∀ e ∈ c.inputs, InputCreated fs e.1 e.2 := by
  unfold ofConfig at h
  split at h
  · cases (Prod.mk.inj h).1
  · rename_i opened hopened
    unfold openFiles at hopened
    obtain ⟨parsers, -, hopened⟩ := ok_of_bind hopened
    rw [inputs_of_openIndexes h]
    exact (openInputs_created (c := ⟨parsers, [], _⟩) (by simp) hopened).1

end Catalog

end RecordServer
