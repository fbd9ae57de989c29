import RecordServer.Proofs.Contract
import RecordServer.Proofs.Index.Build

/-!
# Damaged index files

Whatever bytes are found as an index file, opening it is harmless: it is taken over or built anew
(`Index.harmless_openFile`, `Index.openFile_of_file`). What is taken over has been checked: its regions and their
entries are within the file. What the check does not see is a region whose end has been calculated beyond 64 bits, so
that it ends before it begins (`SuffixRegion.Reversed`). A query can end fatally if and only if such a region is found
under one of the properties (`Index.fatal_iff`); a file that has been built has none (`Index.not_reversed_of_build`).
Together this is `Index.openFile_damaged`.
-/

namespace RecordServer

/-! ## Searching -/

/-- A region with entries ends before it begins. -/
def SuffixRegion.Reversed (r : SuffixRegion) : Prop := r.entries ≠ [] ∧ r.stop < r.start

namespace SuffixFile

variable {f : SuffixFile} {r : SuffixRegion} {text : String}

/-- A search in a reversed region fails. -/
theorem search_of_reversed (h : r.Reversed) : f.search r text = .error (Cause.unsearchable r.property) := by
  have hkeys : f.keys? r = none := if_neg (UInt64.not_le.2 h.2)
  unfold search
  rw [if_neg h.1, hkeys]

/-- A search fails in reversed regions only. -/
theorem reversed_of_search {fault : Fault} (h : f.search r text = .error fault) : r.Reversed := by
  unfold search at h
  split at h
  · cases h
  · rename_i hentries
    split at h
    · cases h
    · rename_i hkeys
      refine ⟨hentries, UInt64.not_le.1 fun hle => ?_⟩
      unfold keys? at hkeys
      rw [if_pos hle] at hkeys
      cases hkeys

end SuffixFile

namespace Tables

variable {ignoreCase : Bool} {properties : List String} {file : SuffixFile}

/-- Looking up filters fails only if a reversed region is found under one of their properties. -/
theorem reversed_of_positionsOf : ∀ {filters : Filters} {fault : Fault},
    (substringFile ignoreCase properties file).positionsOf filters = .error fault →
    ∃ property r, (properties.zip file.regions).lookup property = some r ∧ r.Reversed
  | [], _, h => by cases h
  | (property, expected) :: rest, _, h => by
    unfold positionsOf at h
    cases hfirst : (substringFile ignoreCase properties file).positions? property expected with
    | error first =>
      cases hkey : expected.key? with
      | none =>
        rw [positions?, hkey] at hfirst
        cases hfirst
      | some key =>
        cases hregion : (properties.zip file.regions).lookup property with
        | none =>
          simp only [positions?, hkey, hregion] at hfirst
          cases hfirst
        | some region =>
          cases hsearch : file.search region (foldKey ignoreCase key) with
          | error e => exact ⟨property, region, hregion, SuffixFile.reversed_of_search hsearch⟩
          | ok found =>
            simp only [positions?, hkey, hregion, hsearch] at hfirst
            cases hfirst
    | ok found =>
      rw [hfirst] at h
      cases found with
      | none => cases h
      | some positions =>
        cases hrest : (substringFile ignoreCase properties file).positionsOf rest with
        | error e => exact reversed_of_positionsOf hrest
        | ok others =>
          simp only [hrest] at h
          cases h

/-- Looking up any text under the property of a reversed region fails. -/
theorem positionsOf_of_reversed {property : String} {r : SuffixRegion}
    (hr : (properties.zip file.regions).lookup property = some r) (h : r.Reversed) (text : String) :
    (substringFile ignoreCase properties file).positionsOf [(property, .string text)] =
      .error (Cause.unsearchable r.property) := by
  have hfirst : (substringFile ignoreCase properties file).positions? property (.string text) =
      .error (Cause.unsearchable r.property) := by
    simp only [positions?, Value.key?, hr, SuffixFile.search_of_reversed h]
    rfl
  unfold positionsOf
  rw [hfirst]
  rfl

end Tables

namespace Index

variable {fs fs' : FileSystem} {name path : String} {input : Input} {properties : List String} {ignoreCase : Bool}
  {file : SuffixFile}

/-! ## Opening -/

theorem harmless_writeFile (fs : FileSystem) (path : String) (content : List UInt8) :
    Harmless (writeFile fs path content).1 := by
  unfold writeFile
  simp only
  split
  · exact .error rfl
  · split
    · exact .error rfl
    · split
      · exact .error rfl
      · exact .ok _

theorem harmless_build : Harmless (build fs name input properties ignoreCase path).1 := by
  unfold build
  split
  · rename_i fault hfault
    exact .error ((ofContent_allRecords fs input).harmless fault hfault)
  · rename_i records _
    simp only
    have hwritten := harmless_writeFile fs path (SuffixFile.encode ignoreCase (properties.map fun property =>
      SuffixTable.ofKeys property (keysOf ignoreCase records property)))
    split
    · rename_i fault g hfault
      exact .error (hwritten fault (congrArg Prod.fst hfault))
    · split
      · exact .ok _
      · exact .error rfl

/-- **Opening an index file is harmless**, whatever is at its path. -/
theorem harmless_openFile : Harmless (openFile fs name input properties ignoreCase path).1 := by
  unfold openFile
  split
  · exact .error rfl
  · split
    · rename_i fault hfault
      refine .error ?_
      unfold current? at hfault
      split at hfault
      · cases hfault
      · split at hfault
        · cases hfault
          rfl
        · split at hfault <;> cases hfault
    · exact .ok _
    · exact harmless_build

/-- An index file which is not older than the input is taken over if it suits, and otherwise built anew. -/
theorem openFile_of_file {old : File} {modified : Nat} (hold : fs.file? path = some old)
    (hdirectory : fs.isDirectory path = false) (hmodified : fs.modified? input.path = some modified)
    (hnew : modified ≤ old.modified) :
    (∃ f, SuffixFile.decode? old.content = some f ∧ f.suits properties ignoreCase = true ∧
      openFile fs name input properties ignoreCase path = (.ok f, fs)) ∨
    (∀ f, SuffixFile.decode? old.content = some f → f.suits properties ignoreCase = false) ∧
      openFile fs name input properties ignoreCase path = build fs name input properties ignoreCase path := by
  have hcurrent : current? fs input properties ignoreCase path =
      .ok ((SuffixFile.decode? old.content).filter fun f => f.suits properties ignoreCase) := by
    unfold current?
    rw [hold]
    simp only
    rw [hmodified]
    exact if_neg (Nat.not_lt.2 hnew)
  unfold openFile
  rw [hdirectory, hcurrent]
  cases hread : (SuffixFile.decode? old.content).filter fun f => f.suits properties ignoreCase with
  | some f =>
    obtain ⟨hdecode, hsuits⟩ := Option.filter_eq_some_iff.1 hread
    exact .inl ⟨f, hdecode, hsuits, rfl⟩
  | none =>
    refine .inr ⟨fun f hf => ?_, rfl⟩
    exact Bool.eq_false_iff.2 (Option.filter_eq_none_iff.1 hread f hf)

/-- An index file that is opened has been read from some bytes. -/
theorem decode?_of_openFile (h : openFile fs name input properties ignoreCase path = (.ok file, fs')) :
    ∃ content, SuffixFile.decode? content = some file := by
  obtain ⟨hcurrent, -⟩ | ⟨-, hbuilt⟩ := openFile_cases h
  · obtain ⟨old, -, -, hread, -⟩ := of_current?_eq_some hcurrent
    exact ⟨_, hread⟩
  · obtain ⟨records, -, hread, -⟩ := ok_of_build hbuilt
    exact ⟨_, hread⟩

/-- No region of an index file that has been built is reversed. -/
theorem not_reversed_of_build (h : build fs name input properties ignoreCase path = (.ok file, fs'))
    (hsize : file.data.length < 2 ^ 64) : ∀ r ∈ file.regions, ¬r.Reversed := by
  obtain ⟨records, hrecords, hread, -⟩ := ok_of_build h
  have hdata : file.data = SuffixFile.encode ignoreCase (SuffixFile.tablesOf ignoreCase properties records) :=
    (SuffixFile.of_decode? hread).1
  obtain ⟨hfits, rfl⟩ := fits_of_build h hrecords (hdata ▸ hsize)
  intro r hr hreversed
  obtain ⟨t, -, hholds⟩ := mem_of_forall₂ (SuffixFile.holds_ofTables hfits).flip r hr
  have hkeys := hholds.keys
  unfold SuffixFile.keys? at hkeys
  rw [if_neg (UInt64.not_le.2 hreversed.2)] at hkeys
  cases hkeys

/-! ## Queries -/

theorem harmless_verify (c : Coverage) (queried : Input) (filters : Filters) :
    Harmless (verify name c queried filters) := by
  unfold verify
  split
  · exact .error rfl
  · split
    · exact .error rfl
    · split
      · exact .error rfl
      · exact .ok _

/-- **A query ends fatally if and only if a reversed region can be found.** -/
theorem fatal_iff : (∃ g queried filters guarded fault,
    (covering name input properties (.substringFile ignoreCase properties file)).positions g queried filters guarded =
      .error fault ∧ fault.isFatal = true) ↔
    ∃ property r, (properties.zip file.regions).lookup property = some r ∧ r.Reversed := by
  constructor
  · rintro ⟨g, queried, filters, guarded, fault, h, hfatal⟩
    unfold positions covering at h
    simp only at h
    cases hverify : verify name ⟨input.name, properties, .substringFile ignoreCase properties file⟩ queried filters with
    | error e =>
      rw [hverify] at h
      cases h
      rw [harmless_verify _ _ _ fault hverify] at hfatal
      cases hfatal
    | ok _ =>
      rw [hverify] at h
      cases hlookup : (Tables.substringFile ignoreCase properties file).positionsOf filters with
      | error e => exact Tables.reversed_of_positionsOf hlookup
      | ok found =>
        simp only [hlookup] at h
        cases h
  · rintro ⟨property, r, hr, hreversed⟩
    have hmem : property ∈ properties := (List.of_mem_zip (mem_of_lookup hr)).1
    have hverify : verify name ⟨input.name, properties, .substringFile ignoreCase properties file⟩ input
        [(property, .string "")] = .ok () :=
      verify_ok rfl (by simp) (by simpa [Fields.names] using hmem)
    refine ⟨.empty 0, input, [(property, .string "")], false, Cause.unsearchable r.property, ?_, rfl⟩
    unfold positions covering
    simp only
    rw [hverify, Tables.positionsOf_of_reversed hr hreversed]
    rfl

/-! ## Damaged files -/

/-- **What a damaged index file can do.** Whatever bytes are found at a path, opening an index is harmless, and uses
them or builds the file anew. In both cases the regions are within the file, and a query ends fatally if and only if a
region for its properties is reversed, which it is not in a file that has been built. -/
theorem openFile_damaged {old : File} {modified : Nat} (hold : fs.file? path = some old)
    (hdirectory : fs.isDirectory path = false) (hmodified : fs.modified? input.path = some modified)
    (hnew : modified ≤ old.modified) :
    Harmless (openFile fs name input properties ignoreCase path).1 ∧
    ((∃ f, SuffixFile.decode? old.content = some f ∧ f.suits properties ignoreCase = true ∧
        openFile fs name input properties ignoreCase path = (.ok f, fs)) ∨
      (∀ f, SuffixFile.decode? old.content = some f → f.suits properties ignoreCase = false) ∧
        openFile fs name input properties ignoreCase path = build fs name input properties ignoreCase path) ∧
    ∀ file fs', openFile fs name input properties ignoreCase path = (.ok file, fs') →
      (∀ r ∈ file.regions, r.Inside file.data) ∧
      ((∃ g queried filters guarded fault,
          (covering name input properties (.substringFile ignoreCase properties file)).positions g queried filters
            guarded = .error fault ∧ fault.isFatal = true) ↔
        ∃ property r, (properties.zip file.regions).lookup property = some r ∧ r.Reversed) ∧
      (build fs name input properties ignoreCase path = (.ok file, fs') → file.data.length < 2 ^ 64 →
        ∀ r ∈ file.regions, ¬r.Reversed) := by
  refine ⟨harmless_openFile, openFile_of_file hold hdirectory hmodified hnew, fun file fs' hopened => ?_⟩
  obtain ⟨content, hread⟩ := decode?_of_openFile hopened
  refine ⟨?_, fatal_iff, not_reversed_of_build⟩
  rw [(SuffixFile.of_decode? hread).1]
  exact SuffixFile.inside_of_decode? hread

/-- An index file for the cells of a table, whose region begins at the last number of 64 bits and has one byte. -/
def reversedFile : SuffixFile where
  data := SuffixFile.magic ++ littleEndian 0 4 ++ littleEndian 1 4 ++ littleEndian 4 4 ++ Text.Utf8.encode "cell" ++
    littleEndian (2 ^ 64 - 1) 8 ++ littleEndian 1 8 ++ littleEndian 56 8 ++ littleEndian 1 8 ++ List.replicate 20 0
  flags := 0
  regions := [⟨"cell", 18446744073709551615, 0, 56, [⟨0, 0, 0⟩]⟩]

/-- Such a file is taken over, and then a query ends fatally. -/
theorem openFile_damaged_reversed :
    openFile (.withBytes reversedFile.data) "first" (.ofTable "u") ["cell"] false "cells" =
      (.ok reversedFile, .withBytes reversedFile.data) ∧
    (∀ r ∈ reversedFile.regions, r.Inside reversedFile.data) ∧
    (∃ property r, (["cell"].zip reversedFile.regions).lookup property = some r ∧ r.Reversed) ∧
    (covering "first" (.ofTable "u") ["cell"] (.substringFile false ["cell"] reversedFile)).positions
      (.withBytes reversedFile.data) (.ofTable "u") [("cell", .string "p")] false =
      .error (Cause.unsearchable "cell") := by
  have hopened : openFile (.withBytes reversedFile.data) "first" (.ofTable "u") ["cell"] false "cells" =
      (.ok reversedFile, .withBytes reversedFile.data) := by cbv
  have hfatal : (covering "first" (.ofTable "u") ["cell"] (.substringFile false ["cell"] reversedFile)).positions
      (.withBytes reversedFile.data) (.ofTable "u") [("cell", .string "p")] false =
      .error (Cause.unsearchable "cell") := by cbv
  have hold : (FileSystem.withBytes reversedFile.data).file? "cells" = some ⟨reversedFile.data, 1⟩ := by cbv
  have hmodified : (FileSystem.withBytes reversedFile.data).modified? (Input.ofTable "u").path = some 0 := by cbv
  obtain ⟨-, -, hfile⟩ := @openFile_damaged (.withBytes reversedFile.data) "first" "cells" (.ofTable "u") ["cell"]
    false _ _ hold (by cbv) hmodified (Nat.zero_le 1)
  obtain ⟨hinside, hiff, -⟩ := hfile _ _ hopened
  exact ⟨hopened, hinside, hiff.1 ⟨_, _, _, _, _, hfatal, rfl⟩, hfatal⟩

end Index

end RecordServer
