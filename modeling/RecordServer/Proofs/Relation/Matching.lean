import RecordServer.Proofs.Index.Yield
import RecordServer.Proofs.Query
import RecordServer.Proofs.Stream.Undisturbed

/-!
# Records which pass all conditions

If all records of an input can be read and the indexes of some conditions can be asked (`Condition.Answered`), the query
for these conditions is executed without a fault, and what it has to yield are the positions of exactly the records
which pass all of them, in their order (`Query.execute_passing`).

If conditions displace each other, or only what is scanned can be read, it is still executed without a fault
(`Query.execute_matches`).
-/

namespace RecordServer

variable {fs : FileSystem} {input : Input} {records : List (Position × Record)} {guarded : Bool}

/-- An index that is up to date finds positions for some filters of indexed properties without a fault, if all records
can be read in case that it scans. -/
theorem Index.faultless_of_current {i : Index} {filters : Filters}
    (hscan : i.coverage = none → ∃ records, Index.allRecords fs input = .ok records)
    (hi : i.Current fs input) (hinput : i.handlesInput input.name = true) (hne : filters ≠ [])
    (hproperties : ∀ filter ∈ filters, i.handlesProperty filter.1 = true) :
    ∃ leaf, i.positions fs input filters guarded = .ok leaf ∧ leaf.Faultless := by
  cases hc : i.coverage with
  | none =>
    obtain ⟨records, hall⟩ := hscan hc
    exact ⟨_, positions_scan hc hne (records_of_allRecords hall),
      Leaf.faultless_of_items (items_scan input.name filters guarded records)⟩
  | some c =>
    have hname : c.input = input.name := by simpa [handlesInput, hc] using hinput
    have hsub : ∀ property ∈ filters.names, property ∈ c.properties := by
      intro property hproperty
      obtain ⟨filter, hfilter, rfl⟩ := List.mem_map.1 hproperty
      simpa [handlesProperty, hc] using hproperties filter hfilter
    obtain ⟨items, hitems, hdescribes⟩ := hi c hc
    obtain ⟨found, hfound, -, -⟩ := @positions_of_describes fs i input filters guarded c _ hc hname hdescribes
      (Input.records_ascending hitems) hne hsub
    exact ⟨_, hfound, Leaf.faultless_of_items (Leaf.items_ofPositions found)⟩

/-- The index of a condition can be asked about an input: it is up to date, and it is for the input and the property. -/
structure Condition.Answered (fs : FileSystem) (input : Input) (c : Condition) : Prop where
  current : c.index.Current fs input
  input : c.index.handlesInput input.name = true
  property : c.index.handlesProperty c.property = true

namespace Query

open Classical in
/-- The records which pass all of some conditions, in their order. -/
noncomputable def passing (conditions : List Condition) (records : List (Position × Record)) :
    List (Position × Record) :=
  records.filter fun entry => ∀ c ∈ conditions, c.Accepts entry.2

variable {conditions : List Condition}

theorem passing_nil (records : List (Position × Record)) : passing [] records = records := by
  simp [passing]

theorem passing_ascending (hall : Index.allRecords fs input = .ok records) :
    Ascending ((passing conditions records).map Prod.fst) := by
  have hasc := Input.records_ascending (Index.records_of_allRecords hall)
  rw [reached_of_all] at hasc
  exact hasc.sublist (List.filter_sublist.map _)

/-- A query without conditions has to yield all positions. -/
theorem execute_plain {q : Query} (hq : q.groups = []) {positions : List Position}
    (hpositions : input.positions fs = .ok (positions.map .ok)) :
    ∃ strand, q.execute fs input guarded = .ok (.ofStrand strand guarded) ∧ strand.Faultless ∧
      strand.Serves positions ∧ positions.length ≤ (Feed.ofStrand strand guarded).bound := by
  obtain ⟨leaf, hleaf⟩ : ∃ leaf, Index.plain fs input false = .ok leaf := by
    simp [Index.plain, hpositions, bind, Except.bind, pure, Except.pure]
  obtain ⟨found, hfound, hitems⟩ := items_plain hleaf
  cases hpositions.symm.trans hfound
  obtain rfl := Leaf.rest_of_items hitems
  refine ⟨.single leaf, ?_, Leaf.faultless_of_items hitems, rfl, Nat.le_succ_of_le leaf.length_rest_le⟩
  unfold execute
  rw [if_pos (by simp [hq]), hleaf]
  rfl

/-- The leaves for groups that can be asked have no faults. -/
theorem leaves_faultless {q : Query}
    (hgroups : ∀ group ∈ q.groups, ∃ leaf, group.1.positions fs input group.2 guarded = .ok leaf ∧ leaf.Faultless) :
    ∃ leaves, q.leaves fs input guarded = .ok leaves ∧ ∀ leaf ∈ leaves, leaf.Faultless := by
  cases hleaves : q.leaves fs input guarded with
  | error fault =>
    obtain ⟨group, hgroup, hfault⟩ := error_of_mapM hleaves
    obtain ⟨leaf, hleaf, -⟩ := hgroups group hgroup
    cases hfault.symm.trans hleaf
  | ok leaves =>
    refine ⟨leaves, rfl, fun leaf hleaf => ?_⟩
    obtain ⟨group, hgroup, hok⟩ := (mem_of_mapM hleaves).1 leaf hleaf
    obtain ⟨same, hsame, hfaultless⟩ := hgroups group hgroup
    cases hok.symm.trans hsame
    exact hfaultless

/-- Groups that can be asked have to yield the positions which they have in common. -/
theorem execute_join {q : Query} (hq : q.groups ≠ []) (hfilled : ∀ group ∈ q.groups, group.2 ≠ [])
    (hall : Index.allRecords fs input = .ok records) (hcurrent : ∀ group ∈ q.groups, group.1.Current fs input)
    (hgroups : ∀ group ∈ q.groups, ∃ leaf, group.1.positions fs input group.2 guarded = .ok leaf ∧ leaf.Faultless) :
    ∃ strand m, q.execute fs input guarded = .ok (.ofStrand strand guarded) ∧ strand.Faultless ∧ strand.Serves m ∧
      m.length ≤ (Feed.ofStrand strand guarded).bound ∧ Ascending m ∧
      ∀ p, p ∈ m ↔ ∃ r, (p, r) ∈ records ∧
        ∀ group ∈ q.groups, ∀ filter ∈ group.2, group.1.Accepts filter.1 filter.2 r := by
  obtain ⟨leaves, hleaves, hfaultless⟩ := leaves_faultless hgroups
  obtain ⟨items, m, hitems, hcommon, hmem⟩ := leaves_common hq hfilled hcurrent hleaves
  cases (Index.records_of_allRecords hall).symm.trans hitems
  rw [reached_of_all] at hmem
  have hne : leaves ≠ [] := by
    rintro rfl
    exact hq (List.forall₂_nil_right_iff.1 (ok_of_mapM hleaves))
  refine ⟨.ofLeaves leaves, m, ?_, Strand.faultless_ofLeaves hfaultless, Strand.serves_ofLeaves hne hcommon,
    Feed.length_le_bound hne hcommon, hcommon.ascending, hmem⟩
  rw [execute_groups hq, hleaves]
  rfl

/-- **The query for some conditions has to yield the positions of exactly the records which pass all of them**, and does
so without a fault, unless it is cancelled. -/
theorem execute_passing (hall : Index.allRecords fs input = .ok records)
    (hpositions : input.positions fs = .ok ((records.map Prod.fst).map .ok)) (hc : Consistent conditions)
    (hdistinct : conditions.Pairwise fun earlier later => ¬later.Displaces earlier)
    (hanswered : ∀ c ∈ conditions, c.Answered fs input) :
    ∃ strand, (ofConditions conditions).execute fs input guarded = .ok (.ofStrand strand guarded) ∧
      strand.Faultless ∧ strand.Serves ((passing conditions records).map Prod.fst) ∧
      ((passing conditions records).map Prod.fst).length ≤ (Feed.ofStrand strand guarded).bound := by
  have hholds := holds_ofConditions hc
  have hstored (c : Condition) : Stored (ofConditions conditions).groups c ↔ c ∈ conditions :=
    (hholds.stored c).trans ⟨Kept.mem, kept_of_pairwise hdistinct⟩
  generalize ofConditions conditions = q at hholds hstored
  by_cases hq : q.groups = []
  · obtain rfl := hholds.groups_eq_nil.1 hq
    rw [passing_nil]
    exact execute_plain hq hpositions
  · have hasked (P : Index → String → Value → Prop) : (∀ c ∈ conditions, P c.index c.property c.expected) ↔
        ∀ group ∈ q.groups, ∀ filter ∈ group.2, P group.1 filter.1 filter.2 := by
      simp only [← forall_stored, hstored]
    have hany {group : Index × Filters} (hgroup : group ∈ q.groups) {P : Prop} (h : ∀ filter ∈ group.2, P) : P := by
      obtain ⟨filter, hfilter⟩ := List.exists_mem_of_ne_nil group.2 (hholds.filled group hgroup)
      exact h filter hfilter
    have hcurrent := (hasked fun i _ _ => i.Current fs input).1 fun c hc => (hanswered c hc).current
    have hinput := (hasked fun i _ _ => i.handlesInput input.name = true).1 fun c hc => (hanswered c hc).input
    have hproperty := (hasked fun i property _ => i.handlesProperty property = true).1
      fun c hc => (hanswered c hc).property
    obtain ⟨strand, m, hexecute, hfaultless, hserves, hbound, hasc, hmem⟩ :=
      @execute_join fs input records guarded q hq hholds.filled hall
        (fun group hgroup => hany hgroup (hcurrent group hgroup)) fun group hgroup =>
        Index.faultless_of_current (fun _ => ⟨records, hall⟩) (hany hgroup (hcurrent group hgroup))
          (hany hgroup (hinput group hgroup)) (hholds.filled group hgroup) (hproperty group hgroup)
    have hsame : m = (passing conditions records).map Prod.fst := by
      refine hasc.eq_of_mem_iff (passing_ascending hall) fun p => ?_
      have haccepts (r : Record) := hasked fun i property expected => i.Accepts property expected r
      simp only [hmem, ← haccepts, passing, List.mem_map, List.mem_filter, decide_eq_true_eq]
      constructor
      · rintro ⟨r, hr, hpasses⟩
        exact ⟨(p, r), ⟨hr, hpasses⟩, rfl⟩
      · rintro ⟨⟨_, r⟩, ⟨hr, hpasses⟩, rfl⟩
        exact ⟨r, hr, hpasses⟩
    exact ⟨strand, hexecute, hfaultless, hsame ▸ hserves, hsame ▸ hbound⟩

/-- Scanning for some conditions reports no error: neither going through all positions, if there are no conditions, nor
reading all records, if one of the indexes scans. -/
structure Scannable (fs : FileSystem) (input : Input) (conditions : List Condition) : Prop where
  positions : conditions = [] → ∃ positions : List Position, input.positions fs = .ok (positions.map .ok)
  records : ∀ c ∈ conditions, c.index.coverage = none → ∃ records, Index.allRecords fs input = .ok records

/-- **The query for some conditions is executed without a fault**, unless scanning reports an error, and has to yield
the positions which match them. -/
theorem execute_matches (hc : Consistent conditions) (hanswered : ∀ c ∈ conditions, c.Answered fs input)
    (hscannable : Scannable fs input conditions) :
    ∃ strand m, (ofConditions conditions).execute fs input guarded = .ok (.ofStrand strand guarded) ∧
      strand.Faultless ∧ strand.Serves m ∧ Ascending m ∧ ∀ p, p ∈ m ↔ Matches fs input conditions p := by
  obtain ⟨strand, hexecute, hfaultless⟩ : ∃ strand,
      (ofConditions conditions).execute fs input guarded = .ok (.ofStrand strand guarded) ∧ strand.Faultless := by
    have hholds := holds_ofConditions hc
    by_cases hq : (ofConditions conditions).groups = []
    · obtain ⟨positions, hpositions⟩ := hscannable.positions (hholds.groups_eq_nil.1 hq)
      obtain ⟨strand, hexecute, hfaultless, -, -⟩ := @execute_plain fs input guarded _ hq positions hpositions
      exact ⟨strand, hexecute, hfaultless⟩
    · suffices hgroups : ∀ group ∈ (ofConditions conditions).groups, ∃ leaf,
          group.1.positions fs input group.2 guarded = .ok leaf ∧ leaf.Faultless by
        obtain ⟨leaves, hleaves, hfaultless⟩ := leaves_faultless hgroups
        refine ⟨.ofLeaves leaves, ?_, Strand.faultless_ofLeaves hfaultless⟩
        rw [execute_groups hq, hleaves]
        rfl
      rintro ⟨index, filters⟩ hgroup
      -- each filter of a group is a condition that is kept
      have hmem : ∀ filter ∈ filters, (⟨index, filter.1, filter.2⟩ : Condition) ∈ conditions := fun filter hfilter =>
        ((hholds.stored ⟨index, filter.1, filter.2⟩).1 ⟨filters, hgroup, hfilter⟩).mem
      obtain ⟨first, hfirst⟩ := List.exists_mem_of_ne_nil filters (hholds.filled _ hgroup)
      have hanswer := hanswered _ (hmem first hfirst)
      exact Index.faultless_of_current (hscannable.records _ (hmem first hfirst)) hanswer.current hanswer.input
        (hholds.filled _ hgroup) fun filter hfilter => (hanswered _ (hmem filter hfilter)).property
  obtain ⟨m, hserves, hasc, hmatches⟩ := execute_serves hc (fun c hcm => (hanswered c hcm).current) hexecute
  exact ⟨strand, m, hexecute, hfaultless, hserves, hasc, hmatches⟩

end Query

end RecordServer
