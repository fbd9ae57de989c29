import RecordServer.Proofs.Catalog
import RecordServer.Proofs.Index.Build
import RecordServer.Proofs.Output.Delivery

/-!
# The outputs of a site

Each output of a site refers to an input and to indexes of the catalog (`Site.bound_of_mem`), which are found under
their names. So its requests can be answered (`Site.answerable`): indexes of one name are the same, those in memory are
up to date (`Site.current_of_sound`), and so are index files which have been built (`Site.current_of_builds`). An index
file that has been there before is taken over without a look at the records, so that it is up to date is a condition of
its own, and so is that no index file has been written over the file of the input.
-/

namespace RecordServer

/-- An index of a configuration builds its file: no other one has its name or writes to its path, there is no file that
could be taken over, and the new one has room for the records of the input. -/
def Config.Builds (config : Config) (fs : FileSystem) (input : RecordServer.Input) (name : String) : Prop :=
  ∃ before after inputName properties ignoreCase path,
    config.indexes = before ++ (name, .substringFile inputName properties ignoreCase path) :: after ∧
    (∀ e ∈ before ++ after, e.1 ≠ name ∧ Path.location path ∉ e.2.writes) ∧
    Index.Obsolete fs input properties ignoreCase path ∧
    ∀ source, fs.file? input.path = some source →
      SuffixFile.RoomFor ignoreCase properties (reached (input.recordsOf source.content))

namespace Output

/-- An output refers to an input and to indexes for it that are in a catalog. -/
structure Bound (c : Catalog) (o : Output) : Prop where
  input : ∃ name, c.inputs.lookup name = some o.input
  indexes : ∀ b ∈ o.bindings, ∃ name, c.indexes.lookup name = some b.index ∧ b.index.handlesInput o.input.name = true

/-- An output has been created with a catalog. -/
def Created (c : Catalog) (o : Output) : Prop := ∃ place name config, create c place name config = .ok o

variable {c : Catalog} {input : Input} {place : String}

/-- Parameters filter properties of an input by indexes of a catalog. -/
def Indexed (c : Catalog) (input : Input) (bindings : List Binding) : Prop :=
  ∀ b ∈ bindings, c.Provides input b.property b.index

theorem provides_of_bind {p : Config.Parameter} {b : Binding} (h : bind c input place p = .ok b) :
    c.Provides input b.property b.index := by
  obtain ⟨index, hindex, h⟩ := ok_of_bind h
  obtain ⟨parser, -, h⟩ := ok_of_bind h
  cases h
  exact Catalog.provides_of_filterIndex hindex

theorem indexed_bindNumbered : ∀ {n : Nat} {parameters : List Config.Parameter} {bindings : List Binding},
    bindNumbered c input place n parameters = .ok bindings → Indexed c input bindings
  | _, [], bindings, h => by
    cases h
    nofun
  | n, p :: parameters, bindings, h => by
    obtain ⟨first, hfirst, h⟩ := ok_of_bind h
    obtain ⟨rest, hrest, h⟩ := ok_of_bind h
    cases h
    exact List.forall_mem_cons.2 ⟨provides_of_bind hfirst, indexed_bindNumbered hrest⟩

/-- An output that has been created, with its parts. -/
theorem of_create {name : String} {config : Config.Output} {o : Output} (h : create c place name config = .ok o) :
    c.inputs.lookup config.input = some o.input ∧ Indexed c o.input o.bindings ∧
      Relation.compileAll c o.input (place ++ ".relationships") config.relationships = .ok o.relations := by
  obtain ⟨input, hinput, h⟩ := ok_of_bind h
  have hlookup := Catalog.lookup_of_input hinput
  dsimp only at h
  cases hdelivery : config.delivery with
  | list limit offsetParameter =>
    rw [hdelivery] at h
    obtain ⟨bindings, hbindings, h⟩ := ok_of_bind h
    obtain ⟨relations, hrelations, h⟩ := ok_of_bind h
    cases h
    refine ⟨hlookup, fun b hb => ?_, hrelations⟩
    obtain ⟨p, -, hp⟩ := (mem_of_mapM hbindings).1 b hb
    exact provides_of_bind hp
  | single =>
    rw [hdelivery] at h
    obtain ⟨bindings, hbindings, h⟩ := ok_of_bind h
    obtain ⟨relations, hrelations, h⟩ := ok_of_bind h
    cases h
    exact ⟨hlookup, indexed_bindNumbered hbindings, hrelations⟩

/-- An output that has been created refers to what is in the catalog. -/
theorem bound_create {name : String} {config : Config.Output} {o : Output} (h : create c place name config = .ok o) :
    o.Bound c := by
  obtain ⟨hinput, hindexed, -⟩ := of_create h
  refine ⟨⟨config.input, hinput⟩, fun b hb => ?_⟩
  obtain ⟨name, hlookup, hhandles, -⟩ := hindexed b hb
  exact ⟨name, hlookup, hhandles⟩

/-! ## Conditions -/

theorem binding_of_supplied {o : Output} {request : Request} {s : Binding × String} (h : s ∈ o.supplied request) :
    s.1 ∈ o.bindings := by
  unfold supplied at h
  split at h
  · obtain ⟨b, hb, hs⟩ := List.mem_filterMap.1 h
    obtain ⟨raw, -, rfl⟩ := Option.map_eq_some_iff.1 hs
    exact hb
  · rename_i route _
    cases hmatch : route.match? request.path.toList with
    | none => simp [hmatch] at h
    | some values =>
      rw [hmatch] at h
      exact (List.of_mem_zip h).1

/-- The indexes of conditions are those of the parameters which are supplied. -/
theorem index_of_condition {o : Output} {request : Request} {conditions : List Condition}
    (h : o.conditions request = .ok conditions) {c : Condition} (hc : c ∈ conditions) :
    ∃ s ∈ o.supplied request, c.index = s.1.index := by
  obtain ⟨s, hs, hread⟩ := (mem_of_mapM h).1 c hc
  exact ⟨s, hs, (of_read hread).1⟩

end Output

namespace Site

/-- **Opening outputs** creates them as declared, one after the other, and registers them. -/
theorem of_openOutputs_all {c : Catalog} : ∀ {configs : List (String × Config.Output)}
    {outputs : List (String × Output)} {site : Site}, openOutputs c outputs configs = .ok site →
    ∃ created, List.Forall₂ (fun d e => e.1 = d.1 ∧ Output.create c ("outputs." ++ d.1) d.1 d.2 = .ok e.2) configs
        created ∧ site = ⟨c, registerAll outputs created⟩
  | [], outputs, site, h => by
    cases h
    exact ⟨[], .nil, rfl⟩
  | (name, config) :: configs, outputs, site, h => by
    obtain ⟨o, ho, h⟩ := ok_of_bind h
    obtain ⟨created, hcreated, rfl⟩ := of_openOutputs_all h
    exact ⟨(name, o) :: created, .cons ⟨rfl, ho⟩ hcreated, rfl⟩

/-- All outputs have been created. -/
theorem created_openOutputs {c : Catalog} {configs : List (String × Config.Output)} {outputs : List (String × Output)}
    {site : Site} (h : ∀ e ∈ outputs, e.2.Created c) (hopen : openOutputs c outputs configs = .ok site) :
    site.catalog = c ∧ ∀ e ∈ site.outputs, e.2.Created c := by
  obtain ⟨created, hcreated, rfl⟩ := of_openOutputs_all hopen
  refine ⟨rfl, forall_registerAll (P := fun _ o => Output.Created c o) h fun e he => ?_⟩
  obtain ⟨d, -, -, houtput⟩ := mem_of_forall₂ hcreated e he
  exact ⟨_, _, _, houtput⟩

variable {fs fs' : FileSystem} {config : Config} {site : Site} {name : String} {o : Output} {request : Request}

/-- An output of a site has been created with its catalog. -/
theorem created_of_mem (h : ofConfig fs config = (.ok site, fs')) (ho : (name, o) ∈ site.outputs) :
    Catalog.ofConfig fs config = (.ok site.catalog, fs') ∧ o.Created site.catalog := by
  unfold ofConfig at h
  split at h
  · cases (Prod.mk.inj h).1
  · rename_i c g hcatalog
    obtain ⟨hopen, rfl⟩ := Prod.mk.inj h
    obtain ⟨rfl, hcreated⟩ := created_openOutputs (by simp) hopen
    exact ⟨hcatalog, hcreated _ ho⟩

/-- An output of a site refers to what is in its catalog. -/
theorem bound_of_mem (h : ofConfig fs config = (.ok site, fs')) (ho : (name, o) ∈ site.outputs) :
    Catalog.ofConfig fs config = (.ok site.catalog, fs') ∧ o.Bound site.catalog := by
  obtain ⟨hcatalog, place, name, created, hcreate⟩ := created_of_mem h ho
  exact ⟨hcatalog, Output.bound_create hcreate⟩

/-- The index of a catalog for the input of an output is up to date if it is in memory, as far as no index file has been
written over the file of the input. -/
theorem current_of_sound {c : Catalog} {touched : List Location} {input : Input} {i : Index} {inputName : String}
    (hchanges : FileSystem.Changes touched fs fs') (hinputs : ∀ e ∈ c.inputs, Catalog.InputSound fs e.1 e.2)
    (hinput : c.inputs.lookup inputName = some input) (hi : i.Sound fs touched c.inputs name)
    (hhandles : i.handlesInput input.name = true) (hspared : Path.location input.path ∉ touched)
    (hmemory : ¬i.InFile) : i.Current fs' input := by
  intro coverage hc
  obtain ⟨covered, hcovered, hdescribes⟩ := hi.covers coverage hc
  obtain ⟨hname, f, hf⟩ := hinputs _ (mem_of_lookup hinput)
  -- the index has been built for this very input
  have hsame : coverage.input = input.name := by simpa [Index.handlesInput, hc] using hhandles
  have hlookup : c.inputs.lookup input.name = some input := by
    rw [show input.name = inputName from hname]
    exact hinput
  obtain rfl : covered = input := by
    rw [hsame, hlookup] at hcovered
    exact (Option.some.inj hcovered).symm
  have htables : coverage.tables.InMemory := by
    by_contra h
    exact hmemory ⟨coverage, hc, h⟩
  exact ⟨_, Input.records_of_file (hchanges.file hspared hf), hdescribes htables hspared f hf⟩

/-- The index of a configuration that builds its file is up to date, as far as no index file has been written over the
file of the input. -/
theorem current_of_builds {c : Catalog} {input : Input} {i : Index} {inputName : String}
    (h : Catalog.ofConfig fs config = (.ok c, fs')) (hbuilds : config.Builds fs input name)
    (hinput : c.inputs.lookup inputName = some input) (hi : c.indexes.lookup name = some i)
    (hhandles : i.handlesInput input.name = true) (hspared : Path.location input.path ∉ config.writes) :
    i.Current fs' input := by
  obtain ⟨hchanges, hinputs, -⟩ := Catalog.ofConfig_sound h
  obtain ⟨before, after, indexed, properties, ignoreCase, path, hconfig, halone, hobsolete, hroom⟩ := hbuilds
  obtain ⟨hname, source, hsource⟩ := hinputs _ (mem_of_lookup hinput)
  have hsparedBefore : Path.location input.path ∉ before.flatMap fun e => e.2.writes := fun hin => hspared (by
    rw [Config.writes, hconfig, List.flatMap_append]
    exact List.mem_append_left _ hin)
  have hpath : Path.location path ∉ before.flatMap fun e => e.2.writes := fun hin => by
    obtain ⟨e, he, hl⟩ := List.mem_flatMap.1 hin
    exact (halone e (List.mem_append_left _ he)).2 hl
  unfold Catalog.ofConfig at h
  split at h
  · cases (Prod.mk.inj h).1
  · rename_i opened _
    rw [hconfig] at h
    obtain ⟨between, middle, found, index, next, hbefore, hfound, hcreate, hthere⟩ := Catalog.of_openIndexes_last
      (fun e he => (halone e (List.mem_append_right _ he)).1) h
    have hmiddle := Catalog.openIndexes_changes (fun e he l hl => List.mem_flatMap.2 ⟨e, he, hl⟩) hbefore
    have hsame : between.inputs = c.inputs :=
      (Catalog.inputs_of_openIndexes hbefore).trans (Catalog.inputs_of_openIndexes h).symm
    obtain ⟨covered, file, rfl, hopen, rfl⟩ := Index.of_create_substringFile hcreate
    obtain rfl := Option.some.inj (hi.symm.trans hthere)
    -- the index has been built for this very input
    have hcovered : covered.name = input.name := by simpa [Index.handlesInput, Index.covering] using hhandles
    have hlookup := Catalog.lookup_of_indexedInput (hsame ▸ fun e he => (hinputs e he).1) hfound covered rfl
    rw [hcovered, hsame, hname, hinput] at hlookup
    obtain rfl := Option.some.inj hlookup
    obtain ⟨records, hrecords, hdescribes⟩ := Index.describes_of_openFile hopen
      (hobsolete.current?_eq_none hmiddle hpath hsparedBefore hsource)
    rintro coverage hcoverage
    obtain rfl := Option.some.inj hcoverage
    have hread := Index.reached_of_allRecords hmiddle hsparedBefore hsource hrecords
    exact ⟨_, Input.records_of_file (hchanges.file hspared hsource), hread ▸ hdescribes (hread ▸ hroom source hsource)⟩

/-- The index of a catalog for an input is found under its own name, and it is up to date if it is in memory, or if its
file has been built, as far as no index file has been written over the file of the input. -/
theorem current_of_catalog {c : Catalog} {input : Input} {i : Index} {inputName indexName : String}
    (h : Catalog.ofConfig fs config = (.ok c, fs')) (hinput : c.inputs.lookup inputName = some input)
    (hi : c.indexes.lookup indexName = some i) (hhandles : i.handlesInput input.name = true)
    (hspared : Path.location input.path ∉ config.writes)
    (hfile : i.InFile → config.Builds fs input i.name ∨ i.Current fs' input) :
    c.indexes.lookup i.name = some i ∧ i.Current fs' input := by
  obtain ⟨hchanges, hinputs, hindexes⟩ := Catalog.ofConfig_sound h
  have hsound := hindexes _ (mem_of_lookup hi)
  have hthere : c.indexes.lookup i.name = some i := hsound.name.symm ▸ hi
  refine ⟨hthere, ?_⟩
  by_cases hin : i.InFile
  · rcases hfile hin with hbuilds | hcurrent
    · exact current_of_builds h hbuilds hinput hthere hhandles hspared
    · exact hcurrent
  · exact current_of_sound hchanges hinputs hinput hsound hhandles hspared hin

/-- **The requests for an output of a site can be answered**, if no index file has been written over the file of its
input, and the index files in which something is looked up have been built or are up to date in any case. -/
theorem answerable (h : ofConfig fs config = (.ok site, fs')) (ho : (name, o) ∈ site.outputs)
    (hspared : Path.location o.input.path ∉ config.writes)
    (hfiles : ∀ s ∈ o.supplied request, s.1.index.InFile →
      config.Builds fs o.input s.1.index.name ∨ s.1.index.Current fs' o.input) :
    o.Answerable fs' request := by
  obtain ⟨hcatalog, hbound⟩ := bound_of_mem h ho
  obtain ⟨inputName, hinput⟩ := hbound.input
  have hfound : ∀ s ∈ o.supplied request, site.catalog.indexes.lookup s.1.index.name = some s.1.index ∧
      s.1.index.Current fs' o.input := by
    intro s hs
    obtain ⟨indexName, hlookup, hhandles⟩ := hbound.indexes s.1 (Output.binding_of_supplied hs)
    exact current_of_catalog hcatalog hinput hlookup hhandles hspared (hfiles s hs)
  intro conditions hconditions
  refine ⟨fun c hc d hd hsame => ?_, fun c hc => ?_⟩
  · obtain ⟨s, hs, hcs⟩ := Output.index_of_condition hconditions hc
    obtain ⟨t, ht, hdt⟩ := Output.index_of_condition hconditions hd
    have hlookup := (hfound s hs).1
    rw [← hcs, hsame, hdt, (hfound t ht).1] at hlookup
    rw [hdt]
    exact (Option.some.inj hlookup).symm
  · obtain ⟨s, hs, hcs⟩ := Output.index_of_condition hconditions hc
    exact hcs ▸ (hfound s hs).2

end Site

end RecordServer
