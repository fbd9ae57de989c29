import Mathlib
import RecordServer.Monitor
import RecordServer.Proofs.Parser.Registry
import RecordServer.Proofs.Site

/-!
# Watching files

The server opens its inputs, builds the indexes and the outputs, and then begins to watch the files of the inputs, while
these may change at any time. A `Startup` is how far it has come; its journal tells when the file of each input had been
changed last as the input was opened and as the file began to be watched, and which inputs have been reported. A row of
steps (`Startup.Reaches`) is of its own steps (`Startup.advance`) and of changes from outside. Undisturbed, it comes to
the site of the configuration and the monitor of its inputs (`Startup.reaches_ofConfig`).

What one call of `Monitor.check` gives and what it leaves is decided by the first file that is due
(`Monitor.check_fst`, `Monitor.forall₂_check`). Each step keeps the files of the monitor in accordance with the
journal (`Startup.Consistent`), so that a call gives a reason exactly if the file of an input has changed since it began
to be watched (`Startup.check_since_watched`). A change between opening and watching is not noticed.
-/

namespace RecordServer

/-! ## One call -/

/-- Whether the server has to stop because of this file. -/
def Watched.isDue (fs : FileSystem) (w : Watched) : Bool := w.fatalChange && !w.noticed && w.isChanged fs

namespace Monitor

variable {fs : FileSystem} {files : List Watched} {w : Watched}

/-- The file because of which a call gives a reason to stop. -/
def due? (m : Monitor) (fs : FileSystem) : Option Watched := m.files.find? (Watched.isDue fs)

/-- A file that is due ends the call. -/
theorem checkFiles_of_isDue (h : w.isDue fs = true) :
    checkFiles fs (w :: files) = (some w.reason, { w with noticed := true } :: files) := by
  simp only [Watched.isDue, Bool.and_eq_true, Bool.not_eq_true'] at h
  obtain ⟨⟨hfatal, hnoticed⟩, hchanged⟩ := h
  rw [checkFiles, hnoticed, hchanged, if_neg (by decide), if_pos hfatal]

/-- Any other file is passed over; it may count as noticed from then on, but not if its change is fatal. -/
theorem checkFiles_of_not_isDue (h : w.isDue fs = false) :
    ∃ noticed, checkFiles fs (w :: files) =
        ((checkFiles fs files).1, { w with noticed := noticed } :: (checkFiles fs files).2) ∧
      (w.fatalChange = true → noticed = w.noticed) := by
  rw [checkFiles]
  by_cases hskip : (w.noticed || !w.isChanged fs) = true
  · exact ⟨w.noticed, if_pos hskip, fun _ => rfl⟩
  · have hfatal : ¬w.fatalChange = true := by
      intro hfatal
      rw [Watched.isDue, hfatal] at h
      cases hnoticed : w.noticed <;> simp_all
    exact ⟨true, by rw [if_neg hskip, if_neg hfatal], fun h => absurd h hfatal⟩

/-- **The reason** is that of the first file which is due. -/
theorem check_fst (m : Monitor) (fs : FileSystem) : (m.check fs).1 = (m.due? fs).map Watched.reason := by
  have hfiles : ∀ files, (checkFiles fs files).1 = (files.find? (Watched.isDue fs)).map Watched.reason := by
    intro files
    induction files with
    | nil => rfl
    | cons w rest ih =>
      rw [List.find?_cons]
      cases hdue : w.isDue fs with
      | true => rw [checkFiles_of_isDue hdue, Option.map_some]
      | false =>
        obtain ⟨noticed, hcheck, -⟩ := @checkFiles_of_not_isDue fs rest w hdue
        rw [hcheck, ih]
  exact hfiles m.files

/-- A file after a call: if its change is fatal, it counts as noticed from then on exactly if it has been due. -/
structure Checked (due : Option Watched) (w w' : Watched) : Prop where
  input : w'.input = w.input
  path : w'.path = w.path
  fatalChange : w'.fatalChange = w.fatalChange
  modified : w'.modified = w.modified
  noticed : w.fatalChange = true → (w'.noticed = true ↔ w.noticed = true ∨ w.input ∈ due.map Watched.input)

/-- **A call** leaves the files as they are, but for what has been noticed. -/
theorem forall₂_check {m : Monitor} (h : (m.files.map Watched.input).Nodup) (fs : FileSystem) :
    List.Forall₂ (Checked (m.due? fs)) m.files (m.check fs).2.files := by
  have hfiles : ∀ files : List Watched, (files.map Watched.input).Nodup →
      List.Forall₂ (Checked (files.find? (Watched.isDue fs))) files (checkFiles fs files).2 := by
    intro files h
    induction files with
    | nil => exact .nil
    | cons w rest ih =>
      obtain ⟨hother, hrest⟩ := List.nodup_cons.1 h
      rw [List.find?_cons]
      cases hdue : w.isDue fs with
      | true =>
        rw [checkFiles_of_isDue hdue]
        refine .cons ⟨rfl, rfl, rfl, rfl, fun _ => ?_⟩ (List.forall₂_same.2 fun v hv => ?_)
        · exact iff_of_true rfl (.inr rfl)
        · -- no file behind is that of the same input
          refine ⟨rfl, rfl, rfl, rfl, fun _ => (or_iff_left fun hin => hother ?_).symm⟩
          rw [Option.some.inj hin]
          exact List.mem_map_of_mem hv
      | false =>
        obtain ⟨noticed, hcheck, hfatal⟩ := @checkFiles_of_not_isDue fs rest w hdue
        rw [hcheck]
        refine .cons ⟨rfl, rfl, rfl, rfl, fun h => ?_⟩ (ih hrest)
        rw [hfatal h]
        refine (or_iff_left fun hin => hother ?_).symm
        obtain ⟨d, hd, hsame⟩ := Option.map_eq_some_iff.1 hin
        exact List.mem_map.2 ⟨d, List.mem_of_find?_eq_some hd, hsame⟩
  exact hfiles m.files h

end Monitor

/-! ## Opening one by one -/

namespace Catalog

variable {fs fs' : FileSystem} {sources : List (String × Config.Source)} {c c' : Catalog}

/-- An input is opened before those behind it. -/
theorem openInputs_cons (entry : String × Config.Input) (rest : List (String × Config.Input)) :
    openInputs fs sources c (entry :: rest) =
      openInputs fs sources c [entry] >>= fun c => openInputs fs sources c rest := by
  obtain ⟨name, config⟩ := entry
  cases hsource : sources.lookup config.source with
  | none => simp only [openInputs, hsource, bind, Except.bind]
  | some source =>
    simp only [openInputs, hsource, bind, Except.bind]
    cases Input.create fs c.parsers ("inputs." ++ name) name (source.resolve config.file) config <;> rfl

/-- An input that has been opened is registered. -/
theorem of_openInputs {entry : String × Config.Input} (h : openInputs fs sources c [entry] = .ok c') :
    ∃ input, InputCreated fs entry.1 input ∧ c' = { c with inputs := register c.inputs entry.1 input } := by
  obtain ⟨name, config⟩ := entry
  rw [openInputs] at h
  split at h
  · obtain ⟨_, -, h⟩ := ok_of_bind h
    obtain ⟨input, hinput, h⟩ := ok_of_bind h
    cases h
    exact ⟨input, ⟨_, _, _, _, hinput⟩, rfl⟩
  · cases h

end Catalog

/-! ## Starting -/

/-- What has happened to inputs, the latest first: when their files had been changed last as they were opened and as
they began to be watched, and which of them have been reported. -/
structure Journal where
  opened : List (String × Option Nat)
  watched : List (String × Option Nat)
  reported : List String

/-- What the server does next. -/
inductive Stage where
  | parsing
  | opening (c : Catalog) (rest : List (String × Config.Input))
  | indexing (c : Catalog) (rest : List (String × Config.Index))
  | watching (site : Site) (m : Monitor) (rest : List Input)
  | running (site : Site) (m : Monitor)

/-- A server that starts, among files which may change. -/
structure Startup where
  files : FileSystem
  stage : Stage
  journal : Journal

namespace Startup

/-- Nothing has been done. -/
def start (fs : FileSystem) : Startup := ⟨fs, .parsing, [], [], []⟩

/-- One step of the server, unless it fails: one input or index is opened, one file begins to be watched or, once the
server is running, all of them are checked. -/
def advance (config : Config) (s : Startup) : Option Startup :=
  match s.stage with
  | .parsing =>
    match Parsers.ofDeclarations config.parsers with
    | .error _ => none
    | .ok parsers =>
      let c : Catalog := ⟨parsers, [], [(Config.defaultIndex, .scan Config.defaultIndex)]⟩
      some { s with stage := .opening c config.inputs }
  | .opening c [] => some { s with stage := .indexing c config.indexes }
  | .opening c (entry :: rest) =>
    match Catalog.openInputs s.files config.sources c [entry] with
    | .error _ => none
    | .ok c =>
      let modified := (c.inputs.lookup entry.1).bind fun i => s.files.modified? i.path
      some { s with
        stage := .opening c rest
        journal := { s.journal with opened := (entry.1, modified) :: s.journal.opened } }
  | .indexing c [] =>
    match Site.openOutputs c [] config.outputs with
    | .error _ => none
    | .ok site => some { s with stage := .watching site .empty (site.catalog.inputs.map Prod.snd) }
  | .indexing c (entry :: rest) =>
    match Catalog.openIndexes s.files c [entry] with
    | (.error _, _) => none
    | (.ok c, files) => some { s with files := files, stage := .indexing c rest }
  | .watching site m [] => some { s with stage := .running site m }
  | .watching site m (i :: rest) => some { s with
      stage := .watching site (m.watch s.files i.name i.path i.fatalChange) rest
      journal := { s.journal with watched := (i.name, s.files.modified? i.path) :: s.journal.watched } }
  | .running site m => some { s with
      stage := .running site (m.check s.files).2
      journal := { s.journal with
        reported := ((m.due? s.files).map Watched.input).toList ++ s.journal.reported } }

/-- A step of the server, or any change of files from outside. -/
inductive Step (config : Config) : Startup → Startup → Prop
  | own {s t : Startup} (h : s.advance config = some t) : Step config s t
  | change (s : Startup) (files : FileSystem) : Step config s { s with files := files }

/-- A row of steps. -/
def Reaches (config : Config) : Startup → Startup → Prop := Relation.ReflTransGen (Step config)

variable {config : Config} {fs fs' : FileSystem}

/-- Several steps of the server. -/
def advances (config : Config) : Nat → Startup → Option Startup
  | 0, s => some s
  | n + 1, s => (s.advance config).bind (advances config n)

theorem reaches_of_advances (n : Nat) {s t : Startup} (h : s.advances config n = some t) :
    Reaches config s t := by
  induction n generalizing s with
  | zero =>
    cases h
    exact .refl
  | succ n ih =>
    obtain ⟨u, hu, h⟩ := Option.bind_eq_some_iff.1 h
    exact .head (.own hu) (ih h)

theorem Reaches.step {s t u : Startup} (hst : Reaches config s t) (h : t.advance config = some u) :
    Reaches config s u :=
  hst.tail (.own h)

/-- All inputs are opened. -/
theorem reaches_openInputs {inputs : List (String × Config.Input)} {c c' : Catalog} (j : Journal)
    (h : Catalog.openInputs fs config.sources c inputs = .ok c') :
    ∃ j', Reaches config ⟨fs, .opening c inputs, j⟩ ⟨fs, .opening c' [], j'⟩ := by
  induction inputs generalizing c j with
  | nil =>
    cases h
    exact ⟨j, .refl⟩
  | cons entry rest ih =>
    rw [Catalog.openInputs_cons] at h
    obtain ⟨between, hfirst, hrest⟩ := ok_of_bind h
    obtain ⟨j', hreaches⟩ := ih _ hrest
    refine ⟨j', .head (.own ?_) hreaches⟩
    simp only [advance, hfirst]
    rfl

/-- All indexes are opened. -/
theorem reaches_openIndexes {indexes : List (String × Config.Index)} {c c' : Catalog} (j : Journal)
    (h : Catalog.openIndexes fs c indexes = (.ok c', fs')) :
    Reaches config ⟨fs, .indexing c indexes, j⟩ ⟨fs', .indexing c' [], j⟩ := by
  induction indexes generalizing fs c with
  | nil =>
    cases h
    exact .refl
  | cons entry rest ih =>
    have happend : Catalog.openIndexes fs c ([entry] ++ rest) = (.ok c', fs') := h
    obtain ⟨between, middle, hfirst, hrest⟩ := Catalog.openIndexes_append happend
    refine .head (.own ?_) (ih hrest)
    simp only [advance, hfirst]

/-- All files begin to be watched. -/
theorem reaches_watching {inputs : List Input} {site : Site} {m : Monitor} (j : Journal) :
    ∃ j', Reaches config ⟨fs, .watching site m inputs, j⟩
      ⟨fs, .watching site (inputs.foldl (fun m i => m.watch fs i.name i.path i.fatalChange) m) [], j'⟩ := by
  induction inputs generalizing m j with
  | nil => exact ⟨j, .refl⟩
  | cons i rest ih =>
    obtain ⟨j', hreaches⟩ := @ih (m.watch fs i.name i.path i.fatalChange) _
    exact ⟨j', .head (.own rfl) hreaches⟩

/-- **Undisturbed, the server comes to the site of its configuration** and watches the files of all inputs. -/
theorem reaches_ofConfig {site : Site} (h : Site.ofConfig fs config = (.ok site, fs')) :
    ∃ j, Reaches config (start fs)
      ⟨fs', .running site (.ofInputs fs' (site.catalog.inputs.map Prod.snd)), j⟩ := by
  unfold Site.ofConfig Catalog.ofConfig at h
  split at h
  · cases (Prod.mk.inj h).1
  rename_i c g hcatalog
  obtain ⟨houtputs, rfl⟩ := Prod.mk.inj h
  split at hcatalog
  · cases (Prod.mk.inj hcatalog).1
  rename_i opened hopened
  obtain ⟨parsers, hparsers, hopened⟩ := ok_of_bind hopened
  obtain ⟨j, hinputs⟩ := reaches_openInputs ⟨[], [], []⟩ hopened
  have hfirst : (start fs).advance config = some ⟨fs,
      .opening ⟨parsers, [], [(Config.defaultIndex, .scan Config.defaultIndex)]⟩ config.inputs, [], [], []⟩ := by
    simp only [start, advance, hparsers]
  have hopen : Reaches config (start fs) ⟨fs, .indexing opened config.indexes, j⟩ :=
    Reaches.step (.head (Step.own hfirst) hinputs) rfl
  have hindexed : Reaches config (start fs) ⟨g, .indexing c [], j⟩ := hopen.trans (reaches_openIndexes j hcatalog)
  have hsite : Startup.advance config ⟨g, .indexing c [], j⟩ =
      some ⟨g, .watching site .empty (site.catalog.inputs.map Prod.snd), j⟩ := by
    simp only [advance, houtputs]
  obtain ⟨j', hwatched⟩ := @reaches_watching config g (site.catalog.inputs.map Prod.snd) site .empty j
  exact ⟨j', Reaches.step ((hindexed.step hsite).trans hwatched) rfl⟩

/-! ## In accordance with the journal -/

/-- Inputs with names of their own, whose opening is in the journal. -/
structure Opened (inputs : List (String × Input)) (j : Journal) : Prop where
  named : ∀ e ∈ inputs, e.2.name = e.1
  distinct : (inputs.map Prod.fst).Nodup
  noted : ∀ e ∈ inputs, ∃ t, j.opened.lookup e.1 = some t

/-- A file is that of an input, with the time in the journal, and if a change of it is fatal, it counts as noticed
exactly if the input has been reported. -/
structure Watches (j : Journal) (i : Input) (w : Watched) : Prop where
  input : w.input = i.name
  path : w.path = i.path
  fatalChange : w.fatalChange = i.fatalChange
  modified : j.watched.lookup i.name = some w.modified
  noticed : w.fatalChange = true → (w.noticed = true ↔ i.name ∈ j.reported)

/-- What has been done is as the journal tells. -/
def Consistent (s : Startup) : Prop :=
  match s.stage with
  | .parsing => s.journal.reported = []
  | .opening c _ => Opened c.inputs s.journal ∧ s.journal.reported = []
  | .indexing c _ => Opened c.inputs s.journal ∧ s.journal.reported = []
  | .watching site m rest => Opened site.catalog.inputs s.journal ∧ s.journal.reported = [] ∧
      ∃ done, site.catalog.inputs.map Prod.snd = done ++ rest ∧ List.Forall₂ (Watches s.journal) done m.files
  | .running site m => Opened site.catalog.inputs s.journal ∧
      List.Forall₂ (Watches s.journal) (site.catalog.inputs.map Prod.snd) m.files

theorem Opened.map_name {inputs : List (String × Input)} {j : Journal} (h : Opened inputs j) :
    (inputs.map Prod.snd).map Input.name = inputs.map Prod.fst := by
  rw [List.map_map]
  exact List.map_congr_left h.named

/-- One more input is registered. -/
theorem Opened.register {inputs : List (String × Input)} {j : Journal} (h : Opened inputs j) {name : String}
    {input : Input} (hname : input.name = name) (t : Option Nat) :
    Opened (register inputs name input) { j with opened := (name, t) :: j.opened } where
  named := forall_register (P := fun name (i : Input) => i.name = name) h.named hname
  distinct := by
    rw [RecordServer.register, List.map_append, List.map_singleton]
    refine List.nodup_append.2 ⟨(List.filter_sublist.map Prod.fst).nodup h.distinct, List.nodup_singleton _, ?_⟩
    rintro _ hfirst _ hlast rfl
    obtain ⟨e, he, hsame⟩ := List.mem_map.1 hfirst
    have hne : e.1 ≠ name := by simpa using (List.mem_filter.1 he).2
    exact hne (hsame.trans (List.mem_singleton.1 hlast))
  noted := by
    refine forall_register (P := fun other _ => ∃ u, ((name, t) :: j.opened).lookup other = some u) ?_ ⟨t, ?_⟩
    · intro e he
      obtain ⟨u, hu⟩ := h.noted e he
      rw [List.lookup_cons]
      cases e.1 == name with
      | true => exact ⟨t, rfl⟩
      | false => exact ⟨u, hu⟩
    · rw [List.lookup_cons, beq_self_eq_true]

/-- The files that are watched have the names of their inputs. -/
theorem map_input {j : Journal} {inputs : List Input} {files : List Watched}
    (h : List.Forall₂ (Watches j) inputs files) : files.map Watched.input = inputs.map Input.name := by
  induction h with
  | nil => rfl
  | cons hfirst _ ih => rw [List.map_cons, List.map_cons, hfirst.input, ih]

/-- One more file begins to be watched. -/
theorem watches_watch {j : Journal} {done : List Input} {i : Input} {m : Monitor}
    (h : List.Forall₂ (Watches j) done m.files) (hnames : ((done ++ [i]).map Input.name).Nodup)
    (hreported : j.reported = []) (fs : FileSystem) :
    List.Forall₂ (Watches { j with watched := (i.name, fs.modified? i.path) :: j.watched }) (done ++ [i])
      (m.watch fs i.name i.path i.fatalChange).files := by
  have hother : ∀ d ∈ done, d.name ≠ i.name := by
    intro d hd
    rw [List.map_append] at hnames
    exact (List.nodup_append.1 hnames).2.2 _ (List.mem_map_of_mem hd) _ (List.mem_singleton.2 rfl)
  refine List.rel_append ?_ (.cons ⟨rfl, rfl, rfl, List.lookup_cons_self, fun _ => ?_⟩ .nil)
  · refine ((List.forall₂_and_left _ _).2 ⟨hother, h⟩).imp fun d w hboth => { hboth.2 with modified := ?_ }
    rw [List.lookup_cons, beq_false_of_ne hboth.1]
    exact hboth.2.modified
  · exact iff_of_false Bool.false_ne_true (hreported ▸ List.not_mem_nil)

/-- A file that has been checked is in accordance with the journal in which its input is reported if it has been due. -/
theorem Watches.check {j : Journal} {due : Option Watched} {i : Input} {w w' : Watched} (h : Watches j i w)
    (hchecked : Monitor.Checked due w w') :
    Watches { j with reported := (due.map Watched.input).toList ++ j.reported } i w' where
  input := hchecked.input.trans h.input
  path := hchecked.path.trans h.path
  fatalChange := hchecked.fatalChange.trans h.fatalChange
  modified := by rw [hchecked.modified, ← h.modified]
  noticed := by
    intro hfatal
    have hfatal : w.fatalChange = true := hchecked.fatalChange ▸ hfatal
    rw [hchecked.noticed hfatal, h.noticed hfatal, h.input, List.mem_append, Option.mem_toList, or_comm]
    rfl

/-- All files have been checked. -/
theorem watches_check {j : Journal} {inputs : List Input} {m : Monitor} (h : List.Forall₂ (Watches j) inputs m.files)
    (hnames : (inputs.map Input.name).Nodup) (fs : FileSystem) :
    List.Forall₂ (Watches { j with reported := ((m.due? fs).map Watched.input).toList ++ j.reported }) inputs
      (m.check fs).2.files := by
  have hchecked := Monitor.forall₂_check (m := m) (by rw [map_input h]; exact hnames) fs
  have hcompose : ∀ {inputs : List Input} {files files' : List Watched}, List.Forall₂ (Watches j) inputs files →
      List.Forall₂ (Monitor.Checked (m.due? fs)) files files' →
      List.Forall₂ (Watches { j with reported := ((m.due? fs).map Watched.input).toList ++ j.reported })
        inputs files' := by
    intro inputs files files' h hchecked
    induction h generalizing files' with
    | nil =>
      cases hchecked
      exact .nil
    | cons hfirst _ ih =>
      cases hchecked with
      | cons hchecked hrest => exact .cons (hfirst.check hchecked) (ih hrest)
  exact hcompose h hchecked

/-- **Each step** keeps what has been done in accordance with the journal. -/
theorem Consistent.step {s t : Startup} (h : s.Consistent) (hstep : Step config s t) : t.Consistent := by
  cases hstep with
  | change files => exact h
  | own hown =>
    obtain ⟨fs, stage, j⟩ := s
    cases stage with
    | parsing =>
      simp only [advance] at hown
      split at hown
      · cases hown
      · cases hown
        exact ⟨⟨nofun, .nil, nofun⟩, h⟩
    | opening c rest =>
      obtain ⟨hopened, hreported⟩ := h
      cases rest with
      | nil =>
        cases hown
        exact ⟨hopened, hreported⟩
      | cons entry rest =>
        simp only [advance] at hown
        split at hown
        · cases hown
        · rename_i c' hopen
          cases hown
          obtain ⟨input, hcreated, rfl⟩ := Catalog.of_openInputs hopen
          exact ⟨hopened.register hcreated.sound.1 _, hreported⟩
    | indexing c rest =>
      obtain ⟨hopened, hreported⟩ := h
      cases rest with
      | nil =>
        simp only [advance] at hown
        split at hown
        · cases hown
        · rename_i site hsite
          cases hown
          obtain ⟨rfl, -⟩ := Site.created_openOutputs (by simp) hsite
          exact ⟨hopened, hreported, [], rfl, .nil⟩
      | cons entry rest =>
        simp only [advance] at hown
        split at hown
        · cases hown
        · rename_i c' files hopen
          cases hown
          refine ⟨?_, hreported⟩
          rw [Catalog.inputs_of_openIndexes hopen]
          exact hopened
    | watching site m rest =>
      obtain ⟨hopened, hreported, done, hdone, hfiles⟩ := h
      cases rest with
      | nil =>
        cases hown
        rw [List.append_nil] at hdone
        exact ⟨hopened, hdone ▸ hfiles⟩
      | cons i rest =>
        cases hown
        have hnames : ((done ++ [i]).map Input.name).Nodup := by
          have hall := hopened.distinct
          rw [← hopened.map_name, hdone, List.append_cons, List.map_append] at hall
          exact (List.nodup_append.1 hall).1
        exact ⟨{ hopened with }, hreported, done ++ [i], by rw [hdone, List.append_cons],
          watches_watch hfiles hnames hreported fs⟩
    | running site m =>
      obtain ⟨hopened, hfiles⟩ := h
      cases hown
      have hnames : ((site.catalog.inputs.map Prod.snd).map Input.name).Nodup := by
        rw [hopened.map_name]
        exact hopened.distinct
      exact ⟨{ hopened with }, watches_check hfiles hnames fs⟩

/-- **A row of steps** keeps what has been done in accordance with the journal. -/
theorem consistent_of_reaches {s : Startup} (h : Reaches config (start fs) s) : s.Consistent := by
  induction h with
  | refl => exact rfl
  | tail _ hstep ih => exact ih.step hstep

/-! ## What is noticed -/

/-- Whether the server has to stop because the file of an input has changed since it began to be watched, and this has
not been reported. -/
def isDue (s : Startup) (i : Input) : Bool :=
  i.fatalChange && !s.journal.reported.contains i.name &&
    s.journal.watched.lookup i.name ≠ some (s.files.modified? i.path)

theorem Watches.isDue {s : Startup} {i : Input} {w : Watched} (h : Watches s.journal i w) :
    w.isDue s.files = s.isDue i := by
  have hchanged : w.isChanged s.files = decide (s.journal.watched.lookup i.name ≠ some (s.files.modified? i.path)) := by
    rw [Watched.isChanged, h.path, h.modified]
    simp [eq_comm]
  rw [Watched.isDue, Startup.isDue, hchanged, h.fatalChange]
  cases hfatal : i.fatalChange with
  | false => rfl
  | true =>
    have hnoticed : w.noticed = s.journal.reported.contains i.name := by
      rw [Bool.eq_iff_iff, h.noticed (h.fatalChange.trans hfatal), List.contains_iff_mem]
    rw [hnoticed]

/-- The file that is due is that of the first input which is due. -/
theorem due?_eq {s : Startup} {inputs : List Input} {m : Monitor}
    (h : List.Forall₂ (Watches s.journal) inputs m.files) :
    (m.due? s.files).map Watched.reason = (inputs.find? s.isDue).map fun i =>
      "The file " ++ i.path ++ " of the input '" ++ i.name ++ "' has changed." := by
  unfold Monitor.due?
  generalize m.files = files at h
  induction h with
  | nil => rfl
  | @cons i w inputs files hfirst _ ih =>
    rw [List.find?_cons, List.find?_cons, hfirst.isDue]
    cases s.isDue i with
    | true => rw [Option.map_some, Option.map_some, Watched.reason, hfirst.path, hfirst.input]
    | false => exact ih

/-- **What a call of `check` gives at any time.** All inputs have been opened and are watched. The call gives the reason
of the first input whose file has changed since it began to be watched, if a change of it is fatal and has not been
reported; without such an input it gives none. So a change since an input was opened is noticed if it is also one since
the file began to be watched. -/
theorem check_since_watched {s : Startup} {site : Site} {m : Monitor} (h : Reaches config (start fs) s)
    (hrunning : s.stage = .running site m) :
    (∀ i ∈ site.catalog.inputs.map Prod.snd, ∃ opened watched,
      s.journal.opened.lookup i.name = some opened ∧ s.journal.watched.lookup i.name = some watched) ∧
    (m.check s.files).1 = ((site.catalog.inputs.map Prod.snd).find? s.isDue).map (fun i =>
      "The file " ++ i.path ++ " of the input '" ++ i.name ++ "' has changed.") ∧
    ∀ i ∈ site.catalog.inputs.map Prod.snd, i.fatalChange = true → i.name ∉ s.journal.reported →
      s.journal.opened.lookup i.name ≠ some (s.files.modified? i.path) →
      s.journal.watched.lookup i.name = s.journal.opened.lookup i.name →
      ∃ reason, (m.check s.files).1 = some reason := by
  have hconsistent := consistent_of_reaches h
  rw [Consistent, hrunning] at hconsistent
  obtain ⟨hopened, hfiles⟩ := hconsistent
  have hcheck := (m.check_fst s.files).trans (due?_eq hfiles)
  refine ⟨?_, hcheck, ?_⟩
  · intro i hi
    obtain ⟨e, he, rfl⟩ := List.mem_map.1 hi
    obtain ⟨opened, hnoted⟩ := hopened.noted e he
    obtain ⟨w, -, hw⟩ := mem_of_forall₂ hfiles.flip _ hi
    exact ⟨opened, w.modified, by rw [hopened.named e he, hnoted], hw.modified⟩
  · intro i hi hfatal hreported hchanged hsame
    have hdue : s.isDue i = true := by
      rw [isDue, hfatal, hsame]
      simp [hreported, hchanged]
    obtain ⟨first, hfirst⟩ := Option.isSome_iff_exists.1 (List.find?_isSome.2 ⟨i, hi, hdue⟩)
    exact ⟨_, hcheck.trans (by rw [hfirst, Option.map_some])⟩

end Startup

/-! ## A change that is not noticed -/

/-- A table with one row, changed in some second. -/
def FileSystem.oneTable (cell : UInt8) (modified : Nat) : FileSystem :=
  ⟨[(⟨false, ["u.csv"]⟩, ⟨[cell, 10], modified⟩)], [], modified⟩

/-- A configuration with this table, of which any change is fatal, and an index of its cells. -/
def Config.oneTable : Config where
  sources := [("files", ⟨""⟩)]
  parsers := []
  inputs := [("u", ⟨"files", "u.csv", true, .csv ⟨false, 44, [⟨"cell", "string", none, none⟩]⟩⟩)]
  indexes := [("first", .exact "u" ["cell"])]
  outputs := []
  services := []

/-- The site of this configuration, with the index of a table with the row `p`. -/
def Site.oneTable : Site :=
  let input : Input := ⟨"u", "u.csv", true, 1, ⟨Parsers.builtIn⟩, .table false 44 [⟨"cell", ⟨"string", .string none⟩⟩]⟩
  let first : Index := .covering "first" input ["cell"] (.exact [("cell", Postings.ofKeys [("p", 0)])])
  ⟨⟨⟨Parsers.builtIn⟩, [("u", input)], [(Config.defaultIndex, .scan Config.defaultIndex), ("first", first)]⟩, []⟩

/-- The monitor of the table. -/
def Monitor.oneTable : Monitor := ⟨[⟨"u", "u.csv", true, some 2, false⟩]⟩

/-- The table is opened in the first second and begins to be watched in the second one. -/
def Journal.oneTable : Journal := ⟨[("u", some 1)], [("u", some 2)], []⟩

namespace Startup

set_option maxRecDepth 4000 in
/-- The server opens the input and the index before the table changes to `q`, and watches the file afterwards. -/
theorem reaches_oneTable : Reaches .oneTable (start (.oneTable 112 1))
    ⟨.oneTable 113 2, .running .oneTable .oneTable, .oneTable⟩ := by
  have hparsed : (start (.oneTable 112 1)).advance .oneTable = some ⟨.oneTable 112 1,
      .opening ⟨⟨Parsers.builtIn⟩, [], [(Config.defaultIndex, .scan Config.defaultIndex)]⟩ Config.oneTable.inputs,
      [], [], []⟩ := by
    have hparsers : Parsers.ofDeclarations [] = .ok ⟨Parsers.builtIn⟩ := Parsers.ofDeclarations_alone (by decide)
    simp only [start, advance, Config.oneTable, hparsers]
  have hindexed : (start (.oneTable 112 1)).advances .oneTable 5 = some ⟨.oneTable 112 1,
      .watching .oneTable .empty (Site.oneTable.catalog.inputs.map Prod.snd), [("u", some 1)], [], []⟩ := by
    rw [advances, hparsed]
    cbv
  have hwatched : advances .oneTable 2 ⟨.oneTable 113 2,
      .watching .oneTable .empty (Site.oneTable.catalog.inputs.map Prod.snd), [("u", some 1)], [], []⟩ =
      some ⟨.oneTable 113 2, .running .oneTable .oneTable, .oneTable⟩ := by cbv
  exact ((reaches_of_advances 5 hindexed).tail (.change _ _)).trans (reaches_of_advances 2 hwatched)

/-- This change is not noticed, but the next one is. -/
theorem check_since_watched_oneTable :
    Reaches .oneTable (start (.oneTable 112 1)) ⟨.oneTable 113 2, .running .oneTable .oneTable, .oneTable⟩ ∧
      Journal.oneTable.opened.lookup "u" ≠ some (FileSystem.modified? (.oneTable 113 2) "u.csv") ∧
      (Monitor.oneTable.check (.oneTable 113 2)).1 = none ∧
      (Monitor.oneTable.check (.oneTable 114 3)).1 = some "The file u.csv of the input 'u' has changed." := by
  obtain ⟨-, hlate, -⟩ := check_since_watched reaches_oneTable rfl
  obtain ⟨-, hnext, -⟩ := check_since_watched (reaches_oneTable.tail (.change _ (.oneTable 114 3))) rfl
  have hchanged : FileSystem.modified? (.oneTable 113 2) "u.csv" = some 2 := by cbv
  exact ⟨reaches_oneTable, by rw [hchanged]; decide, hlate.trans (by cbv), hnext.trans (by cbv)⟩

end Startup

end RecordServer
