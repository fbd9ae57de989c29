import RecordServer.Proofs.Config.Names
import RecordServer.Proofs.Site
import Mathlib.Data.List.Dedup

/-!
# Registered components

The inputs, the indexes and the outputs of a configuration are created as declared, one after the other
(`Site.of_ofConfig`), and each takes the place of one with its name. So of several components with one name only the
last is there (`names_registerAll`, `lookup_registerAll`). If all names differ, each declared component is the one that
is found under its name, and none is missing (`Site.names_identify`); two components of one name are read from ambiguous
documents only.
-/

namespace RecordServer

/-! ## Registering -/

variable {α : Type} {name : String}

theorem dedup_concat (names : List String) (name : String) :
    (names ++ [name]).dedup = names.dedup.filter (· ≠ name) ++ [name] := by
  induction names with
  | nil => rfl
  | cons first names ih =>
    by_cases hfirst : first ∈ names
    · rw [List.cons_append, List.dedup_cons_of_mem (List.mem_append_left _ hfirst), ih, List.dedup_cons_of_mem hfirst]
    · rw [List.dedup_cons_of_notMem hfirst, List.cons_append]
      by_cases hname : first = name
      · rw [List.dedup_cons_of_mem (by simp [hname]), ih, List.filter_cons_of_neg (by simpa using hname)]
      · rw [List.dedup_cons_of_notMem (by simp [hfirst, hname]), ih, List.filter_cons_of_pos (by simpa using hname),
          List.cons_append]

/-- Of several components with one name the last is registered. -/
theorem names_registerAll (entries : List (String × α)) (h : (entries.map Prod.fst).Nodup) (new : List (String × α)) :
    (registerAll entries new).map Prod.fst = (entries.map Prod.fst ++ new.map Prod.fst).dedup := by
  induction new using List.reverseRecOn with
  | nil => simpa [registerAll] using h.dedup.symm
  | append_singleton new e ih =>
    rw [registerAll_concat, List.map_append, ← List.append_assoc, List.map_singleton, dedup_concat, ← ih, register,
      List.map_append, List.filter_map]
    rfl

/-- What is found under a name is the last component that has been registered. -/
theorem lookup_registerAll (entries new : List (String × α)) :
    (registerAll entries new).lookup name = (new.reverse.lookup name).or (entries.lookup name) := by
  induction new using List.reverseRecOn with
  | nil => rfl
  | append_singleton new e ih =>
    rw [registerAll_concat, List.reverse_append, List.reverse_singleton, List.singleton_append, List.lookup_cons]
    by_cases h : name = e.1
    · simp [h, Catalog.lookup_register_self]
    · have hbeq : (name == e.1) = false := by simpa using h
      rw [Catalog.lookup_register h, ih, hbeq]

/-- If all names differ, each component is found under its own. -/
theorem lookup_of_mem_nodup {entries : List (String × α)} (h : (entries.map Prod.fst).Nodup) {e : String × α}
    (he : e ∈ entries) : entries.lookup e.1 = some e.2 := by
  obtain ⟨before, after, rfl⟩ := List.append_of_mem he
  rw [List.map_append, List.map_cons] at h
  refine List.lookup_eq_some_iff.2 ⟨before, after, rfl, fun other hother => ?_⟩
  have hne := (List.nodup_append.1 h).2.2 _ (List.mem_map_of_mem hother) _ List.mem_cons_self
  exact bne_iff_ne.2 hne.symm

theorem lookup_registerAll_of_mem {new : List (String × α)} (h : (new.map Prod.fst).Nodup) {e : String × α}
    (he : e ∈ new) (entries : List (String × α)) : (registerAll entries new).lookup e.1 = some e.2 := by
  have hreverse : (new.reverse.map Prod.fst).Nodup := by rwa [List.map_reverse, List.nodup_reverse]
  rw [lookup_registerAll, lookup_of_mem_nodup hreverse (List.mem_reverse.2 he), Option.some_or]

/-- What is created one by one under the declared names has these names. -/
theorem names_of_forall₂ {β : Type} {R : String × α → String × β → Prop} {declared : List (String × α)}
    {created : List (String × β)} (h : List.Forall₂ (fun d e => e.1 = d.1 ∧ R d e) declared created) :
    created.map Prod.fst = declared.map Prod.fst := by
  induction h with
  | nil => rfl
  | cons hfirst _ ih => rw [List.map_cons, List.map_cons, hfirst.1, ih]

/-- If all names of declared parsers differ, each is found under its own. -/
theorem Parsers.findIn_of_mem {declared : List Parser} (h : (declared.map Parser.name).Nodup) {p : Parser}
    (hp : p ∈ declared) (entries : List Parser) : findIn (entries ++ declared) p.name = some p := by
  obtain ⟨before, after, hsplit⟩ := List.append_of_mem (List.mem_reverse.2 hp)
  have hreverse : (declared.reverse.map Parser.name).Nodup := by rwa [List.map_reverse, List.nodup_reverse]
  rw [hsplit, List.map_append, List.map_cons] at hreverse
  rw [findIn, List.findRev?_eq_find?_reverse, List.reverse_append, hsplit]
  refine List.find?_eq_some_iff_append.2 ⟨by simp, before, after ++ entries.reverse, by simp, fun other hother => ?_⟩
  have hne := (List.nodup_append.1 hreverse).2.2 _ (List.mem_map_of_mem hother) _ List.mem_cons_self
  simpa using hne

/-! ## Identity -/

namespace Site

/-- Each component that is declared is the one that is found under its name. -/
structure Identifies (fs : FileSystem) (config : Config) (site : Site) : Prop where
  sources : ∀ d ∈ config.sources, config.sources.lookup d.1 = some d.2
  parsers : ∀ p ∈ config.parsers, site.catalog.parsers.find? p.name = some p
  inputs : ∀ d ∈ config.inputs, ∃ input, Catalog.OpensInput fs config.sources site.catalog.parsers d input ∧
    site.catalog.inputs.lookup d.1 = some input
  indexes : ∀ d ∈ config.indexes, ∃ index, site.catalog.OpensIndex d index ∧
    site.catalog.indexes.lookup d.1 = some index
  outputs : ∀ d ∈ config.outputs, ∃ o, Output.create site.catalog ("outputs." ++ d.1) d.1 d.2 = .ok o ∧
    site.outputs.lookup d.1 = some o

/-- A site, as it has been opened. -/
structure Opened (fs : FileSystem) (config : Config) (site : Site) (inputs : List (String × Input))
    (indexes : List (String × Index)) (outputs : List (String × Output)) : Prop where
  parsers : site.catalog.parsers = ⟨Parsers.builtIn ++ config.parsers⟩
  inputsCreated : List.Forall₂ (fun d e => e.1 = d.1 ∧ Catalog.OpensInput fs config.sources site.catalog.parsers d e.2)
    config.inputs inputs
  indexesCreated : List.Forall₂ (fun d e => e.1 = d.1 ∧ site.catalog.OpensIndex d e.2) config.indexes indexes
  outputsCreated : List.Forall₂ (fun d e => e.1 = d.1 ∧
    Output.create site.catalog ("outputs." ++ d.1) d.1 d.2 = .ok e.2) config.outputs outputs
  inputsRegistered : site.catalog.inputs = registerAll [] inputs
  indexesRegistered : site.catalog.indexes =
    registerAll [(Config.defaultIndex, .scan Config.defaultIndex)] indexes
  outputsRegistered : site.outputs = registerAll [] outputs

variable {fs fs' : FileSystem} {config : Config} {site : Site} {inputs : List (String × Input)}
  {indexes : List (String × Index)} {outputs : List (String × Output)}

theorem of_ofConfig (h : ofConfig fs config = (.ok site, fs')) :
    ∃ inputs indexes outputs, Opened fs config site inputs indexes outputs := by
  unfold ofConfig at h
  split at h
  · cases (Prod.mk.inj h).1
  rename_i c g hcatalog
  obtain ⟨outputs, houtputs, rfl⟩ := of_openOutputs_all (Prod.mk.inj h).1
  unfold Catalog.ofConfig at hcatalog
  split at hcatalog
  · cases (Prod.mk.inj hcatalog).1
  rename_i opened hopened
  obtain ⟨indexes, hindexes, rfl⟩ := Catalog.of_openIndexes_all hcatalog
  obtain ⟨parsers, hparsers, hopened⟩ := ok_of_bind hopened
  obtain ⟨inputs, hinputs, rfl⟩ := Catalog.of_openInputs_all hopened
  have hdeclared : parsers = ⟨Parsers.builtIn ++ config.parsers⟩ := by
    obtain ⟨⟨⟩, -, hparsers⟩ := ok_of_bind hparsers
    obtain ⟨⟨⟩, -, hparsers⟩ := ok_of_bind hparsers
    cases hparsers
    rfl
  exact ⟨inputs, indexes, outputs, hdeclared, hinputs, hindexes, houtputs, rfl, rfl, rfl⟩

/-- What has been created as declared is found if the names differ. -/
theorem exists_lookup {β : Type} {R : String × α → β → Prop} {declared : List (String × α)}
    {created : List (String × β)} (h : List.Forall₂ (fun d e => e.1 = d.1 ∧ R d e.2) declared created)
    (hnames : (declared.map Prod.fst).Nodup) (entries : List (String × β)) :
    ∀ d ∈ declared, ∃ component, R d component ∧ (registerAll entries created).lookup d.1 = some component := by
  intro d hd
  obtain ⟨e, he, hname, hcreated⟩ := mem_of_forall₂ h.flip d hd
  have hnodup : (created.map Prod.fst).Nodup := by rwa [names_of_forall₂ (R := fun d e => R d e.2) h]
  exact ⟨e.2, hcreated, hname ▸ lookup_registerAll_of_mem hnodup he entries⟩

theorem Opened.identifies (h : Opened fs config site inputs indexes outputs) (hnames : config.NamesDiffer) :
    site.Identifies fs config where
  sources d hd := lookup_of_mem_nodup hnames.sources hd
  parsers p hp := by
    rw [h.parsers]
    exact Parsers.findIn_of_mem hnames.parsers hp Parsers.builtIn
  inputs := h.inputsRegistered ▸ exists_lookup h.inputsCreated hnames.inputs.1 []
  indexes := h.indexesRegistered ▸ exists_lookup h.indexesCreated hnames.indexes _
  outputs := h.outputsRegistered ▸ exists_lookup h.outputsCreated hnames.outputs.1 []

/-- Of several components with one name the last is there. -/
theorem Opened.names (h : Opened fs config site inputs indexes outputs) :
    site.catalog.inputs.map Prod.fst = (config.inputs.map Prod.fst).dedup ∧
      site.catalog.indexes.map Prod.fst = (Config.defaultIndex :: config.indexes.map Prod.fst).dedup ∧
      site.outputs.map Prod.fst = (config.outputs.map Prod.fst).dedup := by
  refine ⟨?_, ?_, ?_⟩
  · rw [h.inputsRegistered, names_registerAll [] List.nodup_nil, names_of_forall₂ h.inputsCreated]
    rfl
  · have hdefault : ([(Config.defaultIndex, Index.scan Config.defaultIndex)].map Prod.fst).Nodup :=
      List.nodup_singleton Config.defaultIndex
    rw [h.indexesRegistered, names_registerAll _ hdefault, names_of_forall₂ h.indexesCreated]
    rfl
  · rw [h.outputsRegistered, names_registerAll [] List.nodup_nil, names_of_forall₂ h.outputsCreated]
    rfl

/-- **Names identify components** unless the document is ambiguous. The names of a configuration that is read from a
text differ, on all levels, exactly if within its document no integer and no text give the same name. If they differ,
then in each site of the configuration every declared component is the one found under its name. In any case the last
component of each name is there, so that none has been replaced exactly if the names of inputs, indexes and outputs
differ. -/
theorem names_identify {isDirectory : String → Bool} {text : String} {config : Config}
    (h : Config.ofText isDirectory text = .ok config) :
    (config.NamesDiffer ↔ ∀ document more, Yaml.read? text = some (document :: more) →
      ¬Config.Ambiguous (.component .root) document) ∧
    ∀ fs site fs', ofConfig fs config = (.ok site, fs') →
      (config.NamesDiffer → site.Identifies fs config) ∧
      site.catalog.inputs.map Prod.fst = (config.inputs.map Prod.fst).dedup ∧
      site.catalog.indexes.map Prod.fst = (Config.defaultIndex :: config.indexes.map Prod.fst).dedup ∧
      site.outputs.map Prod.fst = (config.outputs.map Prod.fst).dedup := by
  refine ⟨Config.namesDiffer_iff h, fun fs site fs' hsite => ?_⟩
  obtain ⟨inputs, indexes, outputs, hopened⟩ := of_ofConfig hsite
  exact ⟨hopened.identifies, hopened.names⟩

/-- Two services, under an integer and under a text. -/
def twoServices : String := "services:\n 1:\n  type: http\n \"1\":\n  type: http"

/-- Both services are read, and have the same name. -/
theorem names_identify_twoServices : ∃ config, Config.ofText (fun _ => false) twoServices = .ok config ∧
    config.services.map Prod.fst = ["1", "1"] ∧ ¬config.NamesDiffer ∧
    ∃ document more, Yaml.read? twoServices = some (document :: more) ∧
      Config.Ambiguous (.component .root) document := by
  have hread : (Config.ofText (fun _ => false) twoServices).toOption.map (fun c => c.services.map Prod.fst) =
      some ["1", "1"] := by
    decide +kernel
  obtain ⟨config, hconfig, hservices⟩ := Option.map_eq_some_iff.1 hread
  have h := ok_of_toOption hconfig
  have hsame : ¬config.NamesDiffer := fun hdiffer => by
    have hnodup := hdiffer.services
    rw [hservices] at hnodup
    exact absurd hnodup (by decide)
  refine ⟨config, h, hservices, hsame, ?_⟩
  by_contra hnone
  refine hsame ((names_identify h).1.2 fun document more hdocument hambiguous => ?_)
  exact hnone ⟨document, more, hdocument, hambiguous⟩

end Site

end RecordServer
