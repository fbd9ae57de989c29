import RecordServer.Index.Open
import RecordServer.Proofs.FileSystem
import RecordServer.Proofs.Index.Decoding
import RecordServer.Proofs.Index.SuffixTable

/-!
# Building index files

An index file that has been built is the one for the records of its input (`Index.ok_of_build`). It is built if there is
no file at its path that could be taken over (`Index.Obsolete`), and then its tables describe these records
(`Index.describes_of_openFile`). If this fails, what is at the path is as before, or it is no index file at all
(`Index.lookup_of_openFile_error`).
-/

namespace RecordServer.Index

open FileSystem

variable {fs fs' g : FileSystem} {name path : String} {input : Input} {properties : List String} {ignoreCase : Bool}
  {file : SuffixFile}

/-- What has been written to an index file is there. -/
theorem file?_writeFile {content : List UInt8} (h : writeFile fs path content = (.ok (), fs')) :
    ∃ f, fs'.file? path = some f ∧ f.content = content := by
  unfold writeFile at h
  simp only at h
  split at h
  · cases (Prod.mk.inj h).1
  · split at h
    · cases (Prod.mk.inj h).1
    · rename_i hwrite
      split at h
      · cases (Prod.mk.inj h).1
      · rename_i hmove
        obtain ⟨-, rfl⟩ := Prod.mk.inj h
        exact ⟨_, file?_move hmove (file?_put hwrite), rfl⟩

/-- **What has been built is read back from the tables of all records**, suits its properties and flag, and is there. -/
theorem ok_of_build (h : build fs name input properties ignoreCase path = (.ok file, fs')) :
    ∃ records, allRecords fs input = .ok records ∧
      SuffixFile.decode? (SuffixFile.encode ignoreCase (SuffixFile.tablesOf ignoreCase properties records)) =
        some file ∧ file.suits properties ignoreCase = true ∧
      ∃ f, fs'.file? path = some f ∧
        f.content = SuffixFile.encode ignoreCase (SuffixFile.tablesOf ignoreCase properties records) := by
  unfold build at h
  split at h
  · cases (Prod.mk.inj h).1
  · rename_i records hrecords
    simp only at h
    split at h
    · cases (Prod.mk.inj h).1
    · rename_i hwritten
      obtain ⟨f, hf, hcontent⟩ := file?_writeFile hwritten
      split at h
      · rename_i hfile
        obtain ⟨hsame, rfl⟩ := Prod.mk.inj h
        obtain ⟨hread, hsuits⟩ := Option.filter_eq_some_iff.1 hfile
        rw [hf, Option.bind_some, hcontent, Except.ok.inj hsame] at hread
        exact ⟨records, hrecords, hread, Except.ok.inj hsame ▸ hsuits, f, hf, hcontent⟩
      · cases (Prod.mk.inj h).1

/-- A file that is taken over is there, is not older than the input, and suits the properties and the flag. -/
theorem of_current?_eq_some (h : current? fs input properties ignoreCase path = .ok (some file)) :
    ∃ old, fs.file? path = some old ∧ (∀ modified, fs.modified? input.path = some modified → modified ≤ old.modified) ∧
      SuffixFile.decode? old.content = some file ∧ file.suits properties ignoreCase = true := by
  unfold current? at h
  split at h
  · cases h
  · rename_i old hold
    split at h
    · cases h
    · rename_i modified hmodified
      split at h
      · cases h
      · rename_i hnew
        obtain ⟨hread, hsuits⟩ := Option.filter_eq_some_iff.1 (Except.ok.inj h)
        refine ⟨old, hold, fun m hm => ?_, hread, hsuits⟩
        obtain rfl := Option.some.inj (hmodified.symm.trans hm)
        exact Nat.le_of_not_lt hnew

/-- What opening an index file can do: it takes over the file that is there, or builds a new one. -/
theorem openFile_cases (h : openFile fs name input properties ignoreCase path = (.ok file, fs')) :
    current? fs input properties ignoreCase path = .ok (some file) ∧ fs' = fs ∨
      current? fs input properties ignoreCase path = .ok none ∧
        build fs name input properties ignoreCase path = (.ok file, fs') := by
  unfold openFile at h
  split at h
  · cases (Prod.mk.inj h).1
  · split at h
    · cases (Prod.mk.inj h).1
    · rename_i hcurrent
      obtain ⟨hfile, rfl⟩ := Prod.mk.inj h
      exact .inl ⟨Except.ok.inj hfile ▸ hcurrent, rfl⟩
    · rename_i hcurrent
      exact .inr ⟨hcurrent, h⟩

/-- A file for some properties has a region for each of them. -/
theorem suits_iff : file.suits properties ignoreCase = true ↔
    file.flags = SuffixFile.flagsFor ignoreCase ∧ file.regions.map SuffixRegion.property = properties := by
  simp [SuffixFile.suits]

/-- A file that has been written suits its properties and flag if and only if these fit into it. -/
theorem suits_decode?_encode {records : List (Position × Record)}
    (h : SuffixFile.decode? (SuffixFile.encode ignoreCase (SuffixFile.tablesOf ignoreCase properties records)) =
      some file) : file.suits properties ignoreCase = true ↔
      properties.length < 2 ^ 32 ∧ ∀ property ∈ properties, property.utf8ByteSize < 2 ^ 32 := by
  have hnames := SuffixFile.properties_of_decode? h
  rw [SuffixFile.map_property_tablesOf, SuffixFile.length_tablesOf,
    SuffixFile.forall_property_tablesOf (P := fun property => property.utf8ByteSize < 2 ^ 32)] at hnames
  rw [suits_iff, hnames]
  exact and_iff_right (SuffixFile.of_decode?_encode h).1

/-- The tables of a file that has been built fit into it if 64 bits are enough for offsets, and they are read back. -/
theorem fits_of_build {records : List (Position × Record)}
    (h : build fs name input properties ignoreCase path = (.ok file, fs'))
    (hrecords : allRecords fs input = .ok records)
    (hsize : (SuffixFile.encode ignoreCase (SuffixFile.tablesOf ignoreCase properties records)).length < 2 ^ 64) :
    SuffixFile.Fits ignoreCase (SuffixFile.tablesOf ignoreCase properties records) ∧
      file = .ofTables ignoreCase (SuffixFile.tablesOf ignoreCase properties records) := by
  obtain ⟨records', hrecords', hread, hsuits, -⟩ := ok_of_build h
  obtain rfl : records = records' := Except.ok.inj (hrecords.symm.trans hrecords')
  obtain ⟨hcount, hnames⟩ := (suits_decode?_encode hread).1 hsuits
  have hfits : SuffixFile.Fits ignoreCase (SuffixFile.tablesOf ignoreCase properties records) := by
    refine ⟨?_, SuffixFile.forall_property_tablesOf.2 hnames, SuffixFile.within_tablesOf, hsize⟩
    exact SuffixFile.length_tablesOf ▸ hcount
  exact ⟨hfits, Option.some.inj (hread.symm.trans (SuffixFile.decode?_encode hfits))⟩

/-- An index file that cannot be written is left as it is. -/
theorem lookup_of_writeFile_error {content : List UInt8} {fault : Fault}
    (h : writeFile fs path content = (.error fault, fs')) :
    fs'.files.lookup (Path.location path) = fs.files.lookup (Path.location path) := by
  have hother : Path.location path ∉ [Path.location (path ++ ".tmp")] := by
    simpa using (@Path.location_append_ne path ".tmp" (by decide) (by decide)).symm
  unfold writeFile at h
  simp only at h
  split at h
  · rw [← (Prod.mk.inj h).2]
  · rename_i created hcreate
    have hcreated : Changes [Path.location (path ++ ".tmp")] fs created := changes_createDirectory hcreate
    split at h
    · rw [← (Prod.mk.inj h).2, hcreated.files _ hother]
    · rename_i written hwrite
      have hwritten := hcreated.trans (changes_put hwrite List.mem_cons_self)
      split at h
      · rw [← (Prod.mk.inj h).2, hwritten.files _ hother]
      · cases (Prod.mk.inj h).1

/-- **An index file that cannot be opened is left as it is, or what has been written is no index file.** -/
theorem lookup_of_openFile_error {fault : Fault}
    (h : openFile fs name input properties ignoreCase path = (.error fault, fs'))
    (hcount : properties.length < 2 ^ 32) (hnames : ∀ property ∈ properties, property.utf8ByteSize < 2 ^ 32)
    {old : File} (hold : fs'.files.lookup (Path.location path) = some old) :
    fs.files.lookup (Path.location path) = some old ∨ SuffixFile.decode? old.content = none := by
  unfold openFile at h
  split at h
  · exact .inl ((Prod.mk.inj h).2 ▸ hold)
  · split at h
    · exact .inl ((Prod.mk.inj h).2 ▸ hold)
    · cases (Prod.mk.inj h).1
    · unfold build at h
      split at h
      · exact .inl ((Prod.mk.inj h).2 ▸ hold)
      · rename_i records _
        simp only at h
        split at h
        · rename_i hfailed
          have hkept := lookup_of_writeFile_error hfailed
          rw [(Prod.mk.inj h).2, hold] at hkept
          exact .inl hkept.symm
        · rename_i hwritten
          obtain ⟨f, hf, hcontent⟩ := file?_writeFile hwritten
          split at h
          · cases (Prod.mk.inj h).1
          · rename_i hmismatch
            obtain rfl : f = old := Option.some.inj ((lookup_of_file? ((Prod.mk.inj h).2 ▸ hf)).symm.trans hold)
            refine .inr (Option.eq_none_iff_forall_ne_some.2 fun g hg => ?_)
            rw [hf, Option.bind_some, Option.filter_eq_none_iff] at hmismatch
            exact hmismatch g hg ((suits_decode?_encode (hcontent ▸ hg)).2 ⟨hcount, hnames⟩)

/-- There is no file at a path that could be taken over: it is older than the input, or it is none for these
properties. -/
def Obsolete (fs : FileSystem) (input : Input) (properties : List String) (ignoreCase : Bool) (path : String) : Prop :=
  ∀ old, fs.files.lookup (Path.location path) = some old → ∀ source, fs.file? input.path = some source →
    old.modified < source.modified ∨
      ∀ f, SuffixFile.decode? old.content = some f → f.suits properties ignoreCase = false

/-- A file that cannot be taken over is not taken over, whatever else has been changed. -/
theorem Obsolete.current?_eq_none {touched : List Location} {source : File}
    (h : Obsolete fs input properties ignoreCase path) (hchanges : Changes touched fs g)
    (hpath : Path.location path ∉ touched) (hinput : Path.location input.path ∉ touched)
    (hsource : fs.file? input.path = some source) : current? g input properties ignoreCase path = .ok none := by
  unfold current?
  cases hold : g.file? path with
  | none => rfl
  | some old =>
    have hthere : fs.files.lookup (Path.location path) = some old :=
      (hchanges.files _ hpath).symm.trans (lookup_of_file? hold)
    simp only [modified?_of_file (hchanges.file hinput hsource)]
    rcases h old hthere source hsource with holder | hnone
    · rw [if_pos holder]
    · split
      · rfl
      · exact congrArg Except.ok (Option.filter_eq_none_iff.2 fun f hf => by simp [hnone f hf])

/-- **The tables of an index file that is built describe the records of its input.** -/
theorem describes_of_openFile (h : openFile g name input properties ignoreCase path = (.ok file, fs'))
    (hnone : current? g input properties ignoreCase path = .ok none) :
    ∃ records, allRecords g input = .ok records ∧ (SuffixFile.RoomFor ignoreCase properties records →
      (Tables.substringFile ignoreCase properties file).Describes properties records) := by
  obtain ⟨hcurrent, -⟩ | ⟨-, hbuilt⟩ := openFile_cases h
  · cases hnone.symm.trans hcurrent
  · obtain ⟨records, hrecords, hread, -⟩ := ok_of_build hbuilt
    refine ⟨records, hrecords, fun hroom => ?_⟩
    rw [SuffixFile.decode?_encode hroom.fits] at hread
    exact Option.some.inj hread ▸ Tables.describes_substringFile hroom

/-- An index with a file is created by opening the file. -/
theorem of_create_substringFile {place inputName : String} {found : Option Input} {i : Index}
    (h : create g place name (.substringFile inputName properties ignoreCase path) found = (.ok i, fs')) :
    ∃ input file, found = some input ∧ openFile g name input properties ignoreCase path = (.ok file, fs') ∧
      i = covering name input properties (.substringFile ignoreCase properties file) := by
  cases found with
  | none => cases (Prod.mk.inj h).1
  | some input =>
    unfold create at h
    simp only at h
    split at h
    · cases (Prod.mk.inj h).1
    · obtain ⟨hi, hnext⟩ := Prod.mk.inj h
      obtain ⟨tables, htables, rfl⟩ := ok_of_map hi
      obtain ⟨file, hfile, rfl⟩ := ok_of_map htables
      exact ⟨input, file, rfl, Prod.ext hfile hnext, rfl⟩

end RecordServer.Index
