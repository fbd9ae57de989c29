import Mathlib
import RecordServer.Proofs.Index.Exact
import RecordServer.Proofs.Index.Substring

/-!
# What indexes yield

If all records of an input can be read, an exact index yields what scanning yields (`exact_yields_like_scan`), and a
substring index yields exactly the positions of the records which contain the texts of all filters
(`substring_yields`). Both follow from what their tables describe (`Index.yield_of_describes`).
-/

namespace RecordServer

namespace Index

variable {fs : FileSystem} {i : Index} {input : Input} {filters : Filters}

/-- What looking up filters in an index yields if it is pulled up to the end. -/
def yield (fs : FileSystem) (i : Index) (input : Input) (filters : Filters) :
    Except Fault (List (Except Fault Position)) :=
  (i.positions fs input filters false).map fun leaf => (Feed.ofStrand (.single leaf) false).all .never

/-- What an index yields whose tables describe some records. -/
theorem yield_of_describes {c : Coverage} {records : List (Position × Record)} (hc : i.coverage = some c)
    (hname : c.input = input.name) (ht : c.tables.Describes c.properties records)
    (hasc : Ascending (records.map Prod.fst)) (hne : filters ≠ [])
    (hsub : ∀ property ∈ filters.names, property ∈ c.properties) :
    ∃ found, i.yield fs input filters = .ok (found.map .ok) ∧ Ascending found ∧
      ∀ p, p ∈ found ↔ ∃ r, (p, r) ∈ records ∧ ∀ filter ∈ filters, i.Accepts filter.1 filter.2 r := by
  obtain ⟨found, hfound, hfasc, hmem⟩ := positions_of_describes hc hname ht hasc hne hsub
  refine ⟨found, ?_, hfasc, hmem⟩
  unfold yield
  rw [hfound, Except.map, Feed.all_single _ _ Watch.check_never, Leaf.items_ofPositions]

/-- Without faults, a scan gives the positions of the records it accepts, and nothing else. -/
theorem items_scan (name : String) (filters : Filters) (guarded : Bool) : ∀ records : List (Position × Record),
    (Leaf.scan name guarded ((records.map .ok).map fun loaded : Loaded =>
      loaded.map fun r => if filters.accept r.2 then some r.1 else none)).items =
      ((records.filter fun r => filters.accept r.2).map Prod.fst).map .ok
  | [] => rfl
  | r :: records => by
    have ih := items_scan name filters guarded records
    have hfirst : Leaf.found? (Except.ok (if filters.accept r.2 then some r.1 else none)) =
        if filters.accept r.2 then some (.ok r.1) else none := by
      split <;> rfl
    simp only [Leaf.items, List.map_cons, List.filterMap_cons, List.filter_cons] at ih ⊢
    rw [Except.map, hfirst]
    split <;> simp_all

/-- What scanning yields if all records can be read. -/
theorem yield_scan {records : List (Position × Record)} (hc : i.coverage = none) (hne : filters ≠ [])
    (hrecords : allRecords fs input = .ok records) :
    i.yield fs input filters = .ok (((records.filter fun r => filters.accept r.2).map Prod.fst).map .ok) := by
  unfold yield
  rw [positions_scan hc hne (records_of_allRecords hrecords), Except.map, Feed.all_single _ _ Watch.check_never]
  exact congrArg Except.ok (items_scan input.name filters false records)

/-- A file with an array of two objects, whose tags are a list and a text. -/
def tagged : FileSystem :=
  let text := "[\x7b\"tags\":[2,\"Äb\",2]\x7d,\x7b\"tags\":\"2\"\x7d]"
  ⟨[(⟨false, ["tags.json"]⟩, ⟨Text.Utf8.encode text, 0⟩)], [], 0⟩

/-- The input of this file. -/
def taggedInput : Input := ⟨"tags", "tags.json", false, 2, ⟨[]⟩, .elements #[(1, 21), (22, 34)]⟩

/-- All of its records can be read. -/
theorem allRecords_tagged : allRecords tagged taggedInput =
    .ok [(0, ⟨[("tags", .list [.integer 2, .string "Äb", .integer 2])]⟩), (1, ⟨[("tags", .string "2")]⟩)] := by
  cbv

end Index

/-- **An exact index yields what scanning yields**: the same positions in the same ascending order, for any filters of
indexed properties of an input all of whose records can be read. -/
theorem exact_yields_like_scan {fs : FileSystem} {input : Input} {records : List (Position × Record)}
    (hrecords : Index.allRecords fs input = .ok records) (name scanName : String) (properties : List String)
    {filters : Filters} (hne : filters ≠ []) (hsub : ∀ property ∈ filters.names, property ∈ properties) :
    ∃ tables positions,
      Index.tablesFor fs name input (.exact input.name properties) = (.ok tables, fs) ∧
      (Index.covering name input properties tables).yield fs input filters = .ok (positions.map .ok) ∧
      (Index.scan scanName).yield fs input filters = .ok (positions.map .ok) ∧
      Ascending positions := by
  have hitems := Index.records_of_allRecords hrecords
  have hasc : Ascending (records.map Prod.fst) := by simpa [reached_of_all] using Input.records_ascending hitems
  refine ⟨_, (records.filter fun r => filters.accept r.2).map Prod.fst, by rw [Index.tablesFor, hrecords]; rfl, ?_,
    Index.yield_scan rfl hne hrecords, hasc.sublist (List.filter_sublist.map _)⟩
  obtain ⟨found, hfound, hfasc, hmem⟩ :=
    @Index.yield_of_describes fs (.covering name input properties _) input filters _ records rfl rfl
      (Tables.describes_exact hasc) hasc hne hsub
  rw [hfound]
  have heq : found = (records.filter fun r => filters.accept r.2).map Prod.fst := by
    refine hfasc.eq_of_mem_iff (hasc.sublist (List.filter_sublist.map _)) fun p => ?_
    rw [hmem]
    simp [Filters.accept_iff, Index.Accepts, Index.Test, Index.covering, Tables.Test]
  rw [heq]

/-- The integer 2 is found among the tags of a list and as the text of a tag, by both indexes. -/
theorem exact_yields_like_scan_tagged : ∃ tables positions,
    Index.tablesFor Index.tagged "exact" Index.taggedInput (.exact "tags" ["tags"]) = (.ok tables, Index.tagged) ∧
    (Index.covering "exact" Index.taggedInput ["tags"] tables).yield Index.tagged Index.taggedInput
      [("tags", .integer 2)] = .ok (positions.map .ok) ∧
    (Index.scan "scan").yield Index.tagged Index.taggedInput [("tags", .integer 2)] = .ok (positions.map .ok) ∧
    Ascending positions :=
  exact_yields_like_scan Index.allRecords_tagged "exact" "scan" ["tags"] (by simp) (by simp [Fields.names])

/-- **A substring index yields exactly the positions of the records which contain the texts of all filters**, each once
and in ascending order: for each filter, one of the keys of the property is not empty and contains, folded, the folded
key of the expected value. -/
theorem substring_yields {fs : FileSystem} {input : Input} {records : List (Position × Record)}
    (hrecords : Index.allRecords fs input = .ok records) (name : String) (properties : List String)
    (ignoreCase : Bool) {filters : Filters} (hne : filters ≠ [])
    (hsub : ∀ property ∈ filters.names, property ∈ properties) :
    ∃ tables positions,
      Index.tablesFor fs name input (.substring input.name properties ignoreCase) = (.ok tables, fs) ∧
      (Index.covering name input properties tables).yield fs input filters = .ok (positions.map .ok) ∧
      Ascending positions ∧
      ∀ p, p ∈ positions ↔ ∃ r, (p, r) ∈ records ∧
        ∀ filter ∈ filters, r.Meets filter.1 fun value => value.Contains ignoreCase filter.2 := by
  have hasc : Ascending (records.map Prod.fst) := by
    simpa [reached_of_all] using Input.records_ascending (Index.records_of_allRecords hrecords)
  obtain ⟨found, hfound, hfasc, hmem⟩ :=
    @Index.yield_of_describes fs (.covering name input properties _) input filters _ records rfl rfl
      Tables.describes_substring hasc hne hsub
  exact ⟨_, found, by rw [Index.tablesFor, hrecords]; rfl, hfound, hfasc, hmem⟩

/-- The text "ÄB" is within a tag if case is ignored. -/
theorem substring_yields_tagged : ∃ tables positions,
    Index.tablesFor Index.tagged "substring" Index.taggedInput (.substring "tags" ["tags"] true) =
      (.ok tables, Index.tagged) ∧
    (Index.covering "substring" Index.taggedInput ["tags"] tables).yield Index.tagged Index.taggedInput
      [("tags", .string "ÄB")] = .ok (positions.map .ok) ∧
    Ascending positions ∧
    ∀ p, p ∈ positions ↔ ∃ r, (p, r) ∈ [(0, (⟨[("tags", .list [.integer 2, .string "Äb", .integer 2])]⟩ : Record)),
        (1, ⟨[("tags", .string "2")]⟩)] ∧
      ∀ filter ∈ [("tags", Value.string "ÄB")], r.Meets filter.1 fun value => value.Contains true filter.2 :=
  substring_yields Index.allRecords_tagged "substring" ["tags"] true (by simp) (by simp [Fields.names])

end RecordServer
