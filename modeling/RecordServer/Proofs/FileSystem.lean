import RecordServer.FileSystem
import RecordServer.Proofs.Outcome

/-!
# What changes to a file system leave alone

Where a path leads, if it leads anywhere, is written in it (`FileSystem.locate_eq`). Creating directories and putting
files changes no file but those that are named (`FileSystem.Changes`), so a file at another path stays as it is
(`FileSystem.Changes.file`). A file that has been put or moved somewhere is found there (`FileSystem.file?_put`,
`FileSystem.file?_move`).
-/

namespace RecordServer

/-- One name further on the way, whatever is there. -/
def Location.walk (l : Location) (name : String) : Location :=
  if Path.isBlank name then l else if name = ".." then l.above else l.child name

/-- Where a path leads if there are all the directories on the way. -/
def Path.location (path : String) : Location :=
  ((Path.names path).dropLast.foldl Location.walk (.start path)).child ((Path.names path).getLastD "")

/-- What is appended without separators belongs to the last piece. -/
theorem Text.pieces_append {α : Type} [DecidableEq α] {separator : α} {m : List α} (hm : separator ∉ m) :
    ∀ l : List α, ∃ before last, pieces separator l = before ++ [last] ∧
      pieces separator (l ++ m) = before ++ [last ++ m]
  | [] => by
    refine ⟨[], [], rfl, ?_⟩
    induction m with
    | nil => rfl
    | cons a m ih =>
      obtain ⟨hne, hm⟩ := not_or.1 (List.mem_cons.not.1 hm)
      have hrest := ih hm
      simp only [List.nil_append] at hrest ⊢
      rw [pieces, if_neg (Ne.symm hne), hrest]
  | a :: l => by
    obtain ⟨before, last, hl, hlm⟩ := pieces_append hm l
    rw [List.cons_append, pieces, pieces, hl, hlm]
    split
    · exact ⟨[] :: before, last, rfl, rfl⟩
    · cases before with
      | nil => exact ⟨[], a :: last, rfl, rfl⟩
      | cons first before => exact ⟨(a :: first) :: before, last, rfl, rfl⟩

/-- A path which continues the last name of another leads elsewhere. -/
theorem Path.location_append_ne (path : String) {more : String} (hne : more ≠ "") (hm : '/' ∉ more.toList) :
    Path.location (path ++ more) ≠ Path.location path := by
  obtain ⟨before, last, hl, hlm⟩ := Text.pieces_append hm path.toList
  intro h
  have hnames := congrArg Location.names h
  simp only [Path.location, Location.child, Path.names, String.toList_append, hl, hlm] at hnames
  have hlast := (List.append_inj' hnames rfl).2
  simp at hlast
  exact hne hlast

namespace FileSystem

variable {fs fs' : FileSystem} {l l' : Location} {path name : String} {f : File}

/-! ## Walking -/

theorem enter_eq_walk (h : fs.enter l name = .ok l') : l' = l.walk name := by
  unfold enter at h
  unfold Location.walk
  split at h
  · rename_i hblank
    rw [if_pos hblank]
    exact (Except.ok.inj h).symm
  · rename_i hblank
    rw [if_neg hblank]
    split at h
    · rename_i hup
      rw [if_pos hup]
      exact (Except.ok.inj h).symm
    · rename_i hup
      rw [if_neg hup]
      split at h
      · cases h
      · split at h
        · exact (Except.ok.inj h).symm
        · split at h <;> cases h

/-- Walking through directories leads where the names say. -/
theorem walked : ∀ {names : List String} {l l' : Location}, names.foldlM fs.enter l = .ok l' →
    l' = names.foldl Location.walk l
  | [], _, _, h => (Except.ok.inj h).symm
  | name :: names, l, l', h => by
    rw [List.foldlM_cons] at h
    obtain ⟨middle, hfirst, hrest⟩ := ok_of_bind h
    rw [List.foldl_cons, ← enter_eq_walk hfirst]
    exact walked hrest

/-- A path leads nowhere but where its names say. -/
theorem locate_eq (h : fs.locate path = .ok l) : l = Path.location path := by
  unfold locate at h
  split at h
  · unfold locateFrom at h
    obtain ⟨directory, hdirectory, h⟩ := ok_of_bind h
    simp only at h
    split at h
    · rw [← Except.ok.inj h, walked hdirectory]
      rfl
    · cases h
  · cases h

/-- More directories are no obstacle. -/
theorem enter_mono (hdir : ∀ l ∈ fs.directories, l ∈ fs'.directories) (h : fs.enter l name = .ok l') :
    fs'.enter l name = .ok l' := by
  unfold enter at h ⊢
  split at h
  · rename_i hblank
    rw [if_pos hblank]
    exact h
  · rename_i hblank
    rw [if_neg hblank]
    split at h
    · rename_i hup
      rw [if_pos hup]
      exact h
    · rename_i hup
      rw [if_neg hup]
      split at h
      · cases h
      · rename_i hname
        rw [if_neg hname]
        split at h
        · rename_i hthere
          rw [if_pos (by simpa using hdir _ (by simpa using hthere))]
          exact h
        · split at h <;> cases h

theorem walk_mono (hdir : ∀ l ∈ fs.directories, l ∈ fs'.directories) : ∀ {names : List String} {l l' : Location},
    names.foldlM fs.enter l = .ok l' → names.foldlM fs'.enter l = .ok l'
  | [], _, _, h => h
  | name :: names, l, l', h => by
    rw [List.foldlM_cons] at h ⊢
    obtain ⟨middle, hfirst, hrest⟩ := ok_of_bind h
    rw [enter_mono hdir hfirst]
    exact walk_mono hdir hrest

theorem locate_mono (hdir : ∀ l ∈ fs.directories, l ∈ fs'.directories) (h : fs.locate path = .ok l) :
    fs'.locate path = .ok l := by
  unfold locate at h ⊢
  split at h
  · rename_i hvalid
    rw [if_pos hvalid]
    unfold locateFrom at h ⊢
    obtain ⟨directory, hdirectory, h⟩ := ok_of_bind h
    rw [walk_mono hdir hdirectory]
    exact h
  · cases h

/-! ## Changes -/

/-- Directories are only added, and files only change at some locations. -/
structure Changes (touched : List Location) (fs fs' : FileSystem) : Prop where
  directories : ∀ l ∈ fs.directories, l ∈ fs'.directories
  files : ∀ l ∉ touched, fs'.files.lookup l = fs.files.lookup l

variable {touched more : List Location}

theorem Changes.refl (touched : List Location) (fs : FileSystem) : Changes touched fs fs :=
  ⟨fun _ h => h, fun _ _ => rfl⟩

theorem Changes.trans {fs'' : FileSystem} (h : Changes touched fs fs') (h' : Changes touched fs' fs'') :
    Changes touched fs fs'' :=
  ⟨fun l hl => h'.directories l (h.directories l hl), fun l hl => (h'.files l hl).trans (h.files l hl)⟩

theorem Changes.mono (h : Changes touched fs fs') (hsub : ∀ l ∈ touched, l ∈ more) : Changes more fs fs' :=
  ⟨h.directories, fun l hl => h.files l fun hin => hl (hsub l hin)⟩

/-- **A file at another location stays as it is.** -/
theorem Changes.file (h : Changes touched fs fs') (hpath : Path.location path ∉ touched) (hf : fs.file? path = some f) :
    fs'.file? path = some f := by
  unfold file? at hf ⊢
  cases hl : fs.locate path with
  | error obstacle =>
    rw [hl] at hf
    cases hf
  | ok l =>
    rw [hl] at hf
    rw [locate_mono h.directories hl]
    exact (h.files l (locate_eq hl ▸ hpath)).trans hf

theorem changes_makeDirectory {start : Location} {names : List String} (h : fs.makeDirectory start names = .ok fs') :
    Changes touched fs fs' := by
  unfold makeDirectory at h
  obtain ⟨l, -, h⟩ := ok_of_bind h
  split at h
  · cases h
  · rw [← Except.ok.inj h]
    exact ⟨fun _ h => List.mem_cons_of_mem _ h, fun _ _ => rfl⟩

theorem changes_makeDirectories {start : Location} : ∀ {names : List String} {fs fs' : FileSystem},
    fs.makeDirectories start names = some fs' → Changes touched fs fs'
  | [], fs, fs', h => Option.some.inj h ▸ .refl touched fs
  | name :: before, fs, fs', h => by
    have existing {g : FileSystem} {names : List String}
        (h : (if (names.foldlM g.enter start).isOk then some g else none) = some fs') : g = fs' := by
      split at h
      · exact Option.some.inj h
      · cases h
    unfold makeDirectories at h
    simp only at h
    split at h
    · rename_i hmade
      exact Option.some.inj h ▸ changes_makeDirectory hmade
    · exact existing h ▸ .refl touched fs
    · obtain ⟨g, hbefore, h⟩ := Option.bind_eq_some_iff.1 h
      refine (changes_makeDirectories hbefore).trans ?_
      split at h
      · rename_i hmade
        exact Option.some.inj h ▸ changes_makeDirectory hmade
      · exact existing h ▸ .refl touched g

theorem changes_createDirectory (h : fs.createDirectory path = some fs') : Changes touched fs fs' := by
  unfold createDirectory at h
  split at h
  · exact Option.some.inj h ▸ .refl touched fs
  · split at h
    · cases h
    · exact changes_makeDirectories h

/-- Leaving out entries of another name does not change what is found under a name. -/
theorem lookup_filter_ne {α β : Type} [DecidableEq α] {a b : α} (hne : b ≠ a) : ∀ entries : List (α × β),
    (entries.filter fun entry => entry.1 ≠ a).lookup b = entries.lookup b
  | [] => rfl
  | (first, x) :: entries => by
    have ih := lookup_filter_ne hne entries
    by_cases h : first = a
    · have hbeq : (b == first) = false := by simpa [h] using hne
      rw [List.filter_cons_of_neg (by simpa using h), ih, List.lookup_cons, hbeq]
    · rw [List.filter_cons_of_pos (by simpa using h), List.lookup_cons, List.lookup_cons, ih]

theorem changes_put (h : fs.put path f = some fs') (hpath : Path.location path ∈ touched) : Changes touched fs fs' := by
  unfold put at h
  split at h
  · rename_i l hl
    split at h
    · cases h
    · rw [← Option.some.inj h]
      refine ⟨fun _ h => h, fun l' hl' => ?_⟩
      have hne : l' ≠ l := fun e => hl' (e ▸ locate_eq hl ▸ hpath)
      have hbeq : (l' == l) = false := by simpa using hne
      rw [replace, List.lookup_cons, hbeq]
      exact lookup_filter_ne hne fs.files
  · cases h

theorem changes_delete (h : fs.delete path = some fs') (hpath : Path.location path ∈ touched) :
    Changes touched fs fs' := by
  unfold delete at h
  split at h
  · rename_i l hl
    split at h
    · rw [← Option.some.inj h]
      refine ⟨fun _ h => h, fun l' hl' => ?_⟩
      have hne : l' ≠ l := fun e => hl' (e ▸ locate_eq hl ▸ hpath)
      exact lookup_filter_ne hne fs.files
    · cases h
  · cases h

theorem changes_move {target : String} (h : fs.move path target = some fs') (hpath : Path.location path ∈ touched)
    (htarget : Path.location target ∈ touched) : Changes touched fs fs' := by
  unfold move at h
  obtain ⟨f, -, h⟩ := Option.bind_eq_some_iff.1 h
  obtain ⟨g, hdelete, h⟩ := Option.bind_eq_some_iff.1 h
  exact (changes_delete hdelete hpath).trans (changes_put h htarget)

/-! ## What is put -/

/-- A file that has been put is there. -/
theorem file?_put (h : fs.put path f = some fs') : fs'.file? path = some f := by
  unfold put at h
  split at h
  · rename_i l hl
    split at h
    · cases h
    · obtain rfl := Option.some.inj h
      have hthere : (fs.replace l f).locate path = .ok l := locate_mono (fun l (h : l ∈ fs.directories) => h) hl
      rw [file?, hthere]
      simp [replace]
  · cases h

/-- A file that has been moved is there. -/
theorem file?_move {target : String} (h : fs.move path target = some fs') (hf : fs.file? path = some f) :
    fs'.file? target = some f := by
  unfold move at h
  obtain ⟨moved, hmoved, h⟩ := Option.bind_eq_some_iff.1 h
  obtain ⟨g, -, h⟩ := Option.bind_eq_some_iff.1 h
  obtain rfl := Option.some.inj (hf.symm.trans hmoved)
  exact file?_put h

/-- A file that is found tells when it has been changed. -/
theorem modified?_of_file (h : fs.file? path = some f) : fs.modified? path = some f.modified := by
  rw [modified?, h]

/-- Where a file is found, there is one. -/
theorem lookup_of_file? (h : fs.file? path = some f) : fs.files.lookup (Path.location path) = some f := by
  unfold file? at h
  split at h
  · rename_i l hl
    rwa [← locate_eq hl]
  · cases h

end FileSystem

end RecordServer
