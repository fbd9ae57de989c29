import RecordServer.Proofs.Index.Agreement
import RecordServer.Proofs.Text.Letters

/-!
# Indexes that find more than others

A substring index, in memory or in a file, that has been built from the records of an input describes them
(`Index.BuildsSubstrings.describes`). So does an exact index. What one of them finds and another one does not is
therefore a matter of keys alone.

Ignoring the case finds what is found without, unless a capital sigma is at the end of a word in the text of a filter or in
the key, and not in the other (`substring_ignoringCase`). Records with an equal key are found by the text of this key,
unless it is empty, for which a record needs a key that is not empty (`exact_within_substring`).
-/

namespace RecordServer

namespace Index

variable {input : Input} {properties : List String} {ignoreCase : Bool} {records : List (Position × Record)}
  {tables : Tables}

/-- Tables of substrings have been built from all records of an input: in memory, or in a file. A file is built if none
has been taken over; its numbers have 32 bits for the length of a key, and 64 bits for positions and its size. -/
inductive BuildsSubstrings (input : Input) (properties : List String) (ignoreCase : Bool)
    (records : List (Position × Record)) : Tables → Prop
  | inMemory {fs : FileSystem} {name : String} {tables : Tables} (hrecords : allRecords fs input = .ok records)
      (htables : tablesFor fs name input (.substring input.name properties ignoreCase) = (.ok tables, fs)) :
      BuildsSubstrings input properties ignoreCase records tables
  | inFile {fs fs' : FileSystem} {name path : String} {tables : Tables} (hrecords : allRecords fs input = .ok records)
      (hkeys : ∀ property ∈ properties, ∀ key ∈ keysOf ignoreCase records property, key.1.utf8ByteSize < 2 ^ 32)
      (hpositions : ∀ r ∈ records, r.1 < 2 ^ 64)
      (hsize : (SuffixFile.encode ignoreCase (SuffixFile.tablesOf ignoreCase properties records)).length < 2 ^ 64)
      (hnone : current? fs input properties ignoreCase path = .ok none)
      (htables : tablesFor fs name input (.substringFile input.name properties ignoreCase path) = (.ok tables, fs')) :
      BuildsSubstrings input properties ignoreCase records tables

/-- All records have been read in the order of their positions. -/
theorem ascending_of_allRecords {fs : FileSystem} (h : allRecords fs input = .ok records) :
    Ascending (records.map Prod.fst) := by
  simpa [reached_of_all] using Input.records_ascending (records_of_allRecords h)

theorem BuildsSubstrings.ascending (h : BuildsSubstrings input properties ignoreCase records tables) :
    Ascending (records.map Prod.fst) := by
  cases h with
  | inMemory hrecords => exact ascending_of_allRecords hrecords
  | inFile hrecords => exact ascending_of_allRecords hrecords

/-- **Tables of substrings that have been built describe the records**, and look for texts within keys. -/
theorem BuildsSubstrings.describes (h : BuildsSubstrings input properties ignoreCase records tables) :
    tables.Describes properties records ∧ tables.Test = Value.Contains ignoreCase := by
  cases h with
  | inMemory hrecords htables =>
    rw [tablesFor, hrecords] at htables
    obtain rfl := Except.ok.inj (Prod.mk.inj htables).1
    exact ⟨Tables.describes_substring, rfl⟩
  | @inFile fs fs' name path _ hrecords hkeys hpositions hsize hnone htables =>
    obtain ⟨hmap, hnext⟩ := Prod.mk.inj htables
    obtain ⟨file, hfile, rfl⟩ := ok_of_map hmap
    have hopened : openFile fs name input properties ignoreCase path = (.ok file, fs') := Prod.ext hfile hnext
    obtain ⟨records', hrecords', hdescribes⟩ := describes_of_openFile hopened hnone
    obtain rfl : records = records' := Except.ok.inj (hrecords.symm.trans hrecords')
    have hbuilt := ((openFile_cases hopened).resolve_left fun hcurrent => by
      cases hnone.symm.trans hcurrent.1).2
    refine ⟨hdescribes (SuffixFile.roomFor_iff.2 ⟨(fits_of_build hbuilt hrecords hsize).1, ?_⟩), rfl⟩
    intro property hproperty key hkey
    obtain ⟨r, hr, -⟩ := mem_keysOf.1 hkey
    exact ⟨hkeys property hproperty key hkey, hpositions _ hr⟩

/-- If all records can be read, tables of substrings can be built in memory. -/
theorem buildsSubstrings_of_allRecords {fs : FileSystem} (h : allRecords fs input = .ok records)
    (properties : List String) (ignoreCase : Bool) :
    BuildsSubstrings input properties ignoreCase records
      (.substring ignoreCase (properties.map fun p => (p, Trie.ofKeys (keysOf ignoreCase records p)))) :=
  have htables : tablesFor fs input.name input (.substring input.name properties ignoreCase) =
      (.ok (.substring ignoreCase (properties.map fun p => (p, Trie.ofKeys (keysOf ignoreCase records p)))), fs) := by
    rw [tablesFor, h]
    rfl
  .inMemory h htables

/-- What an index of substrings yields that has been built. -/
theorem BuildsSubstrings.yield (h : BuildsSubstrings input properties ignoreCase records tables) (fs : FileSystem)
    (name : String) {filters : Filters} (hne : filters ≠ []) (hsub : ∀ property ∈ filters.names, property ∈ properties) :
    ∃ found, (covering name input properties tables).yield fs input filters = .ok (found.map .ok) ∧ Ascending found ∧
      ∀ p, p ∈ found ↔ ∃ r, (p, r) ∈ records ∧
        ∀ filter ∈ filters, r.Meets filter.1 fun value => value.Contains ignoreCase filter.2 := by
  obtain ⟨found, hfound, hasc, hmem⟩ := @yield_of_describes fs (covering name input properties tables) input filters _
    records rfl rfl h.describes.1 h.ascending hne hsub
  refine ⟨found, hfound, hasc, fun p => ?_⟩
  rw [hmem]
  simp only [Accepts, Test, covering, Option.elim_some, h.describes.2]

end Index

/-! ## Ignoring the case -/

/-- A key of a value, other than the empty one, has the key of the expected value in it, with its capital sigmas at the
end of a word exactly if they are in the key alone. -/
def Value.ContainsAlike (value expected : Value) : Prop :=
  ∃ key ∈ expected.key?, ∃ own ∈ value.keys, own ≠ "" ∧ Text.StandsAlike key.toList own.toList

theorem Value.ContainsAlike.ignoringCase {value expected : Value} (h : value.ContainsAlike expected) :
    value.Contains true expected := by
  obtain ⟨key, hkey, own, hown, hne, halike⟩ := h
  refine ⟨key, hkey, own, hown, hne, ?_⟩
  simpa [foldKey, Text.lowerCase] using halike.lower_infix

theorem Value.Contains.alike {value expected : Value} (h : value.Contains false expected)
    (hsigma : ∀ key ∈ expected.key?, 'Σ' ∉ key.toList) : value.ContainsAlike expected := by
  obtain ⟨key, hkey, own, hown, hne, hinfix⟩ := h
  exact ⟨key, hkey, own, hown, hne, Text.standsAlike_of_not_mem (hsigma key hkey) hinfix⟩

theorem Record.Meets.imp {r : Record} {property : String} {test test' : Value → Prop} (h : r.Meets property test)
    (himp : ∀ value, test value → test' value) : r.Meets property test' :=
  let ⟨value, hvalue, htest⟩ := h
  ⟨value, hvalue, himp value htest⟩

/-- **Ignoring the case loses no position** which is found because the texts of the filters stand in keys with their
capital sigmas as they are alone; so it loses none at all if there are no capital sigmas in the filters. -/
theorem substring_ignoringCase {input : Input} {properties : List String} {records : List (Position × Record)}
    {tables ignoring : Tables} (htables : Index.BuildsSubstrings input properties false records tables)
    (hignoring : Index.BuildsSubstrings input properties true records ignoring) (fs fs' : FileSystem)
    (name name' : String) {filters : Filters} (hne : filters ≠ [])
    (hsub : ∀ property ∈ filters.names, property ∈ properties) :
    ∃ positions others : List Position,
      (Index.covering name input properties tables).yield fs input filters = .ok (positions.map .ok) ∧
      (Index.covering name' input properties ignoring).yield fs' input filters = .ok (others.map .ok) ∧
      (∀ p ∈ positions, ∀ r, (p, r) ∈ records →
        (∀ filter ∈ filters, r.Meets filter.1 fun value => value.ContainsAlike filter.2) → p ∈ others) ∧
      ((∀ filter ∈ filters, ∀ key ∈ filter.2.key?, 'Σ' ∉ key.toList) → positions ⊆ others) := by
  obtain ⟨positions, hpositions, -, hmem⟩ := htables.yield fs name hne hsub
  obtain ⟨others, hothers, -, hmem'⟩ := hignoring.yield fs' name' hne hsub
  refine ⟨positions, others, hpositions, hothers, fun p _ r hr halike => ?_, fun hsigma p hp => ?_⟩
  · exact (hmem' p).2 ⟨r, hr, fun filter hfilter => (halike filter hfilter).imp fun _ => Value.ContainsAlike.ignoringCase⟩
  · obtain ⟨r, hr, hmeets⟩ := (hmem p).1 hp
    refine (hmem' p).2 ⟨r, hr, fun filter hfilter => (hmeets filter hfilter).imp fun value hvalue => ?_⟩
    exact (hvalue.alike (hsigma filter hfilter)).ignoringCase

/-- The text "Äb" is found in a tag with or without regard to case. -/
theorem substring_ignoringCase_tagged : ∃ positions others : List Position,
    (Index.covering "substring" Index.taggedInput ["tags"] (.substring false
      [("tags", Trie.ofKeys (keysOf false Index.taggedRecords "tags"))])).yield Index.tagged Index.taggedInput
        [("tags", .string "Äb")] = .ok (positions.map .ok) ∧
    (Index.covering "ignoring" Index.taggedInput ["tags"] (.substring true
      [("tags", Trie.ofKeys (keysOf true Index.taggedRecords "tags"))])).yield Index.tagged Index.taggedInput
        [("tags", .string "Äb")] = .ok (others.map .ok) ∧
    (∀ p ∈ positions, ∀ r, (p, r) ∈ Index.taggedRecords →
      (∀ filter ∈ [("tags", Value.string "Äb")],
        r.Meets filter.1 fun value => value.ContainsAlike filter.2) → p ∈ others) ∧
    ((∀ filter ∈ [("tags", Value.string "Äb")], ∀ key ∈ filter.2.key?, 'Σ' ∉ key.toList) → positions ⊆ others) :=
  substring_ignoringCase (Index.buildsSubstrings_of_allRecords Index.allRecords_tagged ["tags"] false)
    (Index.buildsSubstrings_of_allRecords Index.allRecords_tagged ["tags"] true) Index.tagged Index.tagged "substring"
    "ignoring" (by simp) (by simp [Fields.names])

/-! ## Equal keys -/

theorem Value.Equals.contains {value expected : Value} (h : value.Equals expected) (ignoreCase : Bool)
    (hempty : expected.key? = some "" → ∃ own ∈ value.keys, own ≠ "") : value.Contains ignoreCase expected := by
  obtain ⟨key, hkey, hown⟩ := h
  by_cases hnone : key = ""
  · obtain ⟨own, hown, hne⟩ := hempty (hnone ▸ hkey)
    refine ⟨key, hkey, own, hown, hne, ?_⟩
    rw [foldKey_eq_empty.2 hnone]
    exact List.nil_infix
  · exact ⟨key, hkey, key, hown, hnone, List.infix_refl _⟩

end RecordServer
