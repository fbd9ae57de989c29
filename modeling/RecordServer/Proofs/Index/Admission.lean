import RecordServer.Proofs.Input.Faults
import RecordServer.Proofs.Query
import RecordServer.Proofs.Stream.Faults

/-!
# Queries that no index refuses

An index with tables looks up filters only for its input, and only of properties which it has. The filters of a query
are grouped in such a way that no index refuses its group, if each condition has an index for its property
(`Query.admitted_ofConditions`). Then executing the query fails only in ways that could not have been prevented, and so
does the feed that it yields (`Query.admits_execute`).
-/

namespace RecordServer

variable {fs : FileSystem} {input : Input} {guarded : Bool}

namespace Query

/-- No index refuses its part of a query about an input. -/
def Admitted (q : Query) (input : Input) : Prop :=
  ∀ group ∈ q.groups, ∀ c ∈ group.1.coverage, Index.verify group.1.name c input group.2 = .ok ()

/-- **No index refuses conditions on properties which it has.** -/
theorem admitted_ofConditions {conditions : List Condition} (hc : Consistent conditions)
    (h : ∀ c ∈ conditions, c.index.handlesInput input.name = true ∧ c.index.handlesProperty c.property = true) :
    (ofConditions conditions).Admitted input := by
  have hholds := holds_ofConditions hc
  rintro ⟨index, filters⟩ hgroup coverage hcoverage
  have hcovered : index.coverage = some coverage := hcoverage
  have hfilter : ∀ filter ∈ filters, coverage.input = input.name ∧ filter.1 ∈ coverage.properties := by
    rintro ⟨property, expected⟩ hfilter
    -- what is stored for an index comes from a condition with this very index
    have hkept := (hholds.stored ⟨index, property, expected⟩).1 ⟨filters, hgroup, hfilter⟩
    obtain ⟨hinput, hproperty⟩ := h _ hkept.mem
    exact ⟨by simpa [Index.handlesInput, hcovered] using hinput,
      by simpa [Index.handlesProperty, hcovered] using hproperty⟩
  have hfilled := hholds.filled _ hgroup
  obtain ⟨first, hfirst⟩ := List.exists_mem_of_ne_nil filters hfilled
  refine Index.verify_ok (hfilter first hfirst).1 hfilled fun property hproperty => ?_
  obtain ⟨filter, hmem, rfl⟩ := List.mem_map.1 hproperty
  exact (hfilter filter hmem).2

end Query

/-! ## Leaves -/

/-- What is found one by one fails with the faults that have been found. -/
theorem Leaf.admits_scan {causes : Cause → Prop} {name : String} {rest : List (Except Fault (Option Position))}
    (h : ∀ item ∈ rest, Raises causes item) : (Leaf.scan name guarded rest).Admits causes := by
  intro item hitem
  obtain ⟨found, hfound, hsome⟩ := List.mem_filterMap.1 hitem
  rcases found with fault | _ | position
  · cases hsome
    exact .error (h _ hfound fault rfl)
  · cases hsome
  · cases hsome
    exact .ok position

namespace Tables

theorem unpreventable_positions? (t : Tables) (property : String) (expected : Value) :
    Unpreventable (t.positions? property expected) := by
  unfold positions?
  split
  · exact .ok _
  · split
    · exact .ok _
    · exact .ok _
    · split
      · exact .ok _
      · refine Raises.map ?_
        unfold SuffixFile.search
        split
        · exact .ok _
        · split
          · exact .ok _
          · exact .error rfl

theorem unpreventable_positionsOf (t : Tables) : ∀ filters : Filters, Unpreventable (t.positionsOf filters)
  | [] => .ok _
  | (property, expected) :: rest => by
    unfold positionsOf
    refine (t.unpreventable_positions? property expected).bind fun found => ?_
    cases found with
    | none => exact .ok _
    | some positions => exact (t.unpreventable_positionsOf rest).bind fun _ => .ok _

end Tables

namespace Index

/-- A leaf is found, or what goes wrong could not have been prevented, and so it is with the items of the leaf. -/
def Admits (leaf : Except Fault Leaf) : Prop :=
  Unpreventable leaf ∧ ∀ found, leaf = .ok found → found.Admits fun cause => cause.isPreventable = false

theorem admits_plain : Admits (plain fs input guarded) := by
  obtain ⟨hpositions, hitems⟩ := input.ofContent_positions fs
  refine ⟨hpositions.unpreventable.bind fun _ => .ok _, fun leaf h => ?_⟩
  obtain ⟨found, hfound, h⟩ := ok_of_bind h
  cases h
  exact Leaf.admits_scan (List.forall_mem_map.2 fun item hitem => (hitems found hfound item hitem).unpreventable.map)

theorem admits_compareAll (filters : Filters) : Admits (compareAll fs input filters guarded) := by
  obtain ⟨hrecords, hitems⟩ := input.ofContent_records fs
  refine ⟨hrecords.unpreventable.bind fun _ => .ok _, fun leaf h => ?_⟩
  obtain ⟨found, hfound, h⟩ := ok_of_bind h
  cases h
  exact Leaf.admits_scan (List.forall_mem_map.2 fun item hitem => (hitems found hfound item hitem).unpreventable.map)

/-- An index that does not refuse filters finds their positions. -/
theorem admits_positions {i : Index} {filters : Filters}
    (h : ∀ c ∈ i.coverage, verify i.name c input filters = .ok ()) : Admits (i.positions fs input filters guarded) := by
  unfold positions
  split
  · split
    · exact admits_plain
    · exact admits_compareAll filters
  · rename_i c hcoverage
    rw [h c hcoverage]
    refine ⟨(c.tables.unpreventable_positionsOf filters).bind fun _ => .ok _, fun leaf hleaf => ?_⟩
    obtain ⟨⟨⟩, -, hleaf⟩ := ok_of_bind hleaf
    obtain ⟨found, -, hleaf⟩ := ok_of_bind hleaf
    cases hleaf
    exact List.forall_mem_map.2 fun position _ => .ok position

end Index

/-- **A query that no index refuses is executed**, or what goes wrong could not have been prevented. -/
theorem Query.admits_execute {q : Query} (h : q.Admitted input) : Unpreventable (q.execute fs input guarded) ∧
    ∀ feed, q.execute fs input guarded = .ok feed → feed.Admits fun cause => cause.isPreventable = false := by
  have hleaves : ∀ group ∈ q.groups, Index.Admits (group.1.positions fs input group.2 guarded) :=
    fun group hgroup => Index.admits_positions (h group hgroup)
  unfold execute
  split
  · obtain ⟨hplain, hitems⟩ := @Index.admits_plain fs input false
    refine ⟨hplain.bind fun _ => .ok _, fun feed hfeed => ?_⟩
    obtain ⟨leaf, hleaf, hfeed⟩ := ok_of_bind hfeed
    cases hfeed
    exact hitems leaf hleaf
  · refine ⟨(Raises.mapM fun group hgroup => (hleaves group hgroup).1).bind fun _ => .ok _, fun feed hfeed => ?_⟩
    obtain ⟨leaves, hfound, hfeed⟩ := ok_of_bind hfeed
    cases hfeed
    refine Strand.admits_ofLeaves fun leaf hleaf => ?_
    obtain ⟨group, hgroup, hpositions⟩ := (mem_of_mapM hfound).1 leaf hleaf
    exact (hleaves group hgroup).2 leaf hpositions

end RecordServer
