import Mathlib.Data.List.Induction
import RecordServer.Proofs.Index.Lookup
import RecordServer.Proofs.Stream.Feed
import RecordServer.Query

/-!
# What a query yields

A query stores of several conditions on one property by one index only the last (`Query.Kept`), and all others
(`Query.holds_ofConditions`). Executing it yields exactly the positions of the records which all stored conditions
accept (`Query.execute_serves`), provided that the indexes are up to date.
-/

namespace RecordServer

/-- A filter that is added to a query. -/
structure Condition where
  index : Index
  property : String
  expected : Value

namespace Condition

/-- A later condition on the same property, by an index of the same name, takes the place of an earlier one. -/
def Displaces (later earlier : Condition) : Prop :=
  later.index.name = earlier.index.name ∧ later.property = earlier.property

instance (later earlier : Condition) : Decidable (later.Displaces earlier) := inferInstanceAs (Decidable (_ ∧ _))

/-- A record passes a condition. -/
def Accepts (c : Condition) (r : Record) : Prop := c.index.Accepts c.property c.expected r

end Condition

/-- A record can be read at a position of an input. -/
def Input.Holds (input : Input) (fs : FileSystem) (p : Position) (r : Record) : Prop :=
  ∃ items, input.records fs = .ok items ∧ (p, r) ∈ reached items

namespace Query

/-! ## Conditions -/

/-- The query for conditions which are added one after the other. -/
def ofConditions (conditions : List Condition) : Query :=
  conditions.foldl (fun q c => q.filter c.index c.property c.expected) .all

/-- A condition which no later one displaces. -/
def Kept (conditions : List Condition) (c : Condition) : Prop :=
  ∃ before after, conditions = before ++ c :: after ∧ ∀ later ∈ after, ¬later.Displaces c

theorem Kept.mem {conditions : List Condition} {c : Condition} (h : Kept conditions c) : c ∈ conditions := by
  obtain ⟨before, after, rfl, -⟩ := h
  simp

theorem not_kept_nil (c : Condition) : ¬Kept [] c := fun h => absurd h.mem List.not_mem_nil

/-- One more condition is kept, and so are those which it does not displace. -/
theorem kept_concat {conditions : List Condition} {last c : Condition} :
    Kept (conditions ++ [last]) c ↔ c = last ∨ (Kept conditions c ∧ ¬last.Displaces c) := by
  constructor
  · rintro ⟨before, after, heq, hlater⟩
    rcases List.eq_nil_or_concat after with rfl | ⟨after, other, rfl⟩
    · exact .inl (List.concat_inj.1 (by simpa using heq)).2.symm
    · have hsplit : conditions ++ [last] = (before ++ c :: after) ++ [other] := by simpa using heq
      obtain ⟨rfl, hlast⟩ := List.append_inj' hsplit rfl
      obtain rfl : last = other := by simpa using hlast
      exact .inr ⟨⟨before, after, rfl, fun later h => hlater later (by simp [h])⟩, hlater last (by simp)⟩
  · rintro (rfl | ⟨⟨before, after, rfl, hlater⟩, hlast⟩)
    · exact ⟨conditions, [], rfl, by simp⟩
    · refine ⟨before, after ++ [last], by simp, fun later h => ?_⟩
      rcases List.mem_append.1 h with h | h
      · exact hlater later h
      · exact List.mem_singleton.1 h ▸ hlast

/-- Without two conditions on one property by indexes of one name, all of them are kept. -/
theorem kept_of_pairwise {conditions : List Condition}
    (h : conditions.Pairwise fun earlier later => ¬later.Displaces earlier) {c : Condition} (hc : c ∈ conditions) :
    Kept conditions c := by
  obtain ⟨before, after, rfl⟩ := List.append_of_mem hc
  exact ⟨before, after, rfl, (List.pairwise_cons.1 (List.pairwise_append.1 h).2.1).1⟩

/-! ## Groups -/

/-- A condition is stored in one of some groups. -/
def Stored (groups : List (Index × Filters)) (c : Condition) : Prop :=
  ∃ filters, (c.index, filters) ∈ groups ∧ (c.property, c.expected) ∈ filters

/-- A query holds conditions: each index has one group, which is not empty, and exactly the conditions that are kept
are stored. -/
structure Holds (q : Query) (conditions : List Condition) : Prop where
  names : (q.groups.map fun group => group.1.name).Nodup
  filled : ∀ group ∈ q.groups, group.2 ≠ []
  stored : ∀ c, Stored q.groups c ↔ Kept conditions c

/-- All conditions that are stored are those of the groups. -/
theorem forall_stored {groups : List (Index × Filters)} {P : Index → String → Value → Prop} :
    (∀ c, Stored groups c → P c.index c.property c.expected) ↔
      ∀ group ∈ groups, ∀ filter ∈ group.2, P group.1 filter.1 filter.2 := by
  constructor
  · rintro h ⟨index, filters⟩ hgroup ⟨property, expected⟩ hfilter
    exact h ⟨index, property, expected⟩ ⟨filters, hgroup, hfilter⟩
  · rintro h c ⟨filters, hgroup, hfilter⟩
    exact h _ hgroup _ hfilter

theorem mem_setLast {property name : String} {expected value : Value} {filters : Filters} :
    (name, value) ∈ filters.setLast property expected ↔
      (name = property ∧ value = expected) ∨ ((name, value) ∈ filters ∧ name ≠ property) := by
  simp only [Fields.setLast, List.mem_append, List.mem_filter, List.mem_singleton, Prod.mk.injEq, decide_eq_true_eq]
  exact or_comm

theorem names_addTo (i : Index) (property : String) (expected : Value) : ∀ groups : List (Index × Filters),
    (addTo i property expected groups).map (fun group => group.1.name) =
      if i.name ∈ groups.map fun group => group.1.name then groups.map fun group => group.1.name
      else (groups.map fun group => group.1.name) ++ [i.name]
  | [] => rfl
  | group :: groups => by
    have ih := names_addTo i property expected groups
    unfold addTo
    by_cases h : group.1.name = i.name
    · simp [h]
    · have h' : ¬i.name = group.1.name := fun e => h e.symm
      rw [if_neg h, List.map_cons, ih]
      simp only [List.map_cons, List.mem_cons, h', false_or]
      split <;> simp

theorem filled_addTo (i : Index) (property : String) (expected : Value) : ∀ {groups : List (Index × Filters)},
    (∀ group ∈ groups, group.2 ≠ []) → ∀ group ∈ addTo i property expected groups, group.2 ≠ []
  | [], _, group, hgroup => by
    rw [List.mem_singleton.1 hgroup]
    exact List.cons_ne_nil _ _
  | first :: groups, h, group, hgroup => by
    obtain ⟨hfirst, hrest⟩ := List.forall_mem_cons.1 h
    unfold addTo at hgroup
    split at hgroup
    · rcases List.mem_cons.1 hgroup with rfl | hgroup
      · simp [Fields.setLast]
      · exact hrest group hgroup
    · rcases List.mem_cons.1 hgroup with rfl | hgroup
      · exact hfirst
      · exact filled_addTo i property expected hrest group hgroup

/-- A condition that is added is stored, in place of the one which it displaces. -/
theorem stored_addTo {added c : Condition} : ∀ {groups : List (Index × Filters)},
    (groups.map fun group => group.1.name).Nodup → (∀ group ∈ groups, group.1.name = added.index.name →
      group.1 = added.index) →
    (Stored (addTo added.index added.property added.expected groups) c ↔
      c = added ∨ (Stored groups c ∧ ¬added.Displaces c))
  | [], _, _ => by
    obtain ⟨index, property, expected⟩ := c
    obtain ⟨i, name, value⟩ := added
    simp [Stored, addTo, Condition.mk.injEq]
  | (first, filters) :: groups, hnames, hsame => by
    obtain ⟨hfirst, hrest⟩ := List.forall_mem_cons.1 hsame
    obtain ⟨hnew, hnodup⟩ := List.nodup_cons.1 hnames
    have ih := @stored_addTo added c groups hnodup hrest
    have hcons : ∀ filters groups, Stored ((first, filters) :: groups) c ↔
        (c.index = first ∧ (c.property, c.expected) ∈ filters) ∨ Stored groups c := by
      intro filters groups
      simp only [Stored, List.mem_cons, Prod.mk.injEq, or_and_right, exists_or, and_assoc, exists_and_left,
        exists_eq_left]
    unfold addTo
    split
    · rename_i hname
      have hindex : first = added.index := hfirst hname
      -- no other group has an index of this name
      have hothers : Stored groups c → ¬added.Displaces c := by
        rintro ⟨others, hgroup, -⟩ ⟨hdisplaced, -⟩
        exact hnew (List.mem_map.2 ⟨_, hgroup, (hname.trans hdisplaced).symm⟩)
      rw [hcons, hcons, mem_setLast]
      have heq : c = added ↔ c.index = first ∧ c.property = added.property ∧ c.expected = added.expected := by
        rw [hindex]
        obtain ⟨index, property, expected⟩ := c
        obtain ⟨i, name, value⟩ := added
        exact Condition.mk.injEq .. ▸ Iff.rfl
      have hdisplaced : c.index = first → (added.Displaces c ↔ c.property = added.property) := fun hi =>
        ⟨fun h => h.2.symm, fun h => ⟨by rw [hi, hindex], h.symm⟩⟩
      rw [heq]
      constructor
      · rintro (⟨hi, ⟨hp, he⟩ | ⟨hmem, hp⟩⟩ | hs)
        · exact .inl ⟨hi, hp, he⟩
        · exact .inr ⟨.inl ⟨hi, hmem⟩, fun h => hp ((hdisplaced hi).1 h)⟩
        · exact .inr ⟨.inr hs, hothers hs⟩
      · rintro (⟨hi, hp, he⟩ | ⟨⟨hi, hmem⟩ | hs, hkept⟩)
        · exact .inl ⟨hi, .inl ⟨hp, he⟩⟩
        · exact .inl ⟨hi, .inr ⟨hmem, fun h => hkept ((hdisplaced hi).2 h)⟩⟩
        · exact .inr hs
    · rename_i hname
      have hkept : c.index = first → ¬added.Displaces c := fun hi h => hname (hi ▸ h.1.symm)
      rw [hcons, hcons, ih]
      constructor
      · rintro (⟨hi, hmem⟩ | h | ⟨hs, h⟩)
        · exact .inr ⟨.inl ⟨hi, hmem⟩, hkept hi⟩
        · exact .inl h
        · exact .inr ⟨.inr hs, h⟩
      · rintro (h | ⟨⟨hi, hmem⟩ | hs, h⟩)
        · exact .inr (.inl h)
        · exact .inl ⟨hi, hmem⟩
        · exact .inr (.inr ⟨hs, h⟩)

/-- Indexes of one name are the same. -/
def Consistent (conditions : List Condition) : Prop :=
  ∀ c ∈ conditions, ∀ d ∈ conditions, c.index.name = d.index.name → c.index = d.index

/-- Adding a condition keeps what a query holds. -/
theorem Holds.filter {q : Query} {conditions : List Condition} (h : q.Holds conditions) {added : Condition}
    (hc : Consistent (conditions ++ [added])) :
    (q.filter added.index added.property added.expected).Holds (conditions ++ [added]) := by
  have hsame : ∀ group ∈ q.groups, group.1.name = added.index.name → group.1 = added.index := by
    rintro ⟨index, filters⟩ hgroup hname
    obtain ⟨⟨property, expected⟩, hfilter⟩ := List.exists_mem_of_ne_nil filters (h.filled _ hgroup)
    have hkept : Kept conditions ⟨index, property, expected⟩ := (h.stored _).1 ⟨filters, hgroup, hfilter⟩
    exact hc _ (List.mem_append_left _ hkept.mem) _ (by simp) hname
  refine ⟨?_, filled_addTo _ _ _ h.filled, fun c => ?_⟩
  · rw [Query.filter, names_addTo]
    split
    · exact h.names
    · rename_i hnew
      refine List.nodup_append.2 ⟨h.names, List.nodup_singleton _, fun a ha b hb e => hnew ?_⟩
      rw [← List.mem_singleton.1 hb, ← e]
      exact ha
  · rw [Query.filter, stored_addTo h.names hsame, h.stored, kept_concat]

/-- **A query holds exactly the conditions which are kept.** -/
theorem holds_ofConditions {conditions : List Condition} (hc : Consistent conditions) :
    (ofConditions conditions).Holds conditions := by
  induction conditions using List.reverseRecOn with
  | nil =>
    refine ⟨List.nodup_nil, by simp [ofConditions, Query.all], fun c => ?_⟩
    simp [ofConditions, Query.all, Stored, not_kept_nil]
  | append_singleton conditions last ih =>
    have hq : ofConditions (conditions ++ [last]) =
        (ofConditions conditions).filter last.index last.property last.expected := by
      simp [ofConditions]
    rw [hq]
    exact (ih fun c hcm d hdm => hc c (List.mem_append_left _ hcm) d (List.mem_append_left _ hdm)).filter hc

/-- A query without groups holds no conditions. -/
theorem Holds.groups_eq_nil {q : Query} {conditions : List Condition} (h : q.Holds conditions) :
    q.groups = [] ↔ conditions = [] := by
  constructor
  · intro hq
    rcases List.eq_nil_or_concat conditions with rfl | ⟨before, last, rfl⟩
    · rfl
    · obtain ⟨filters, hgroup, -⟩ := (h.stored last).2 ⟨before, [], by simp, by simp⟩
      rw [hq] at hgroup
      cases hgroup
  · rintro rfl
    refine List.eq_nil_iff_forall_not_mem.2 fun ⟨index, filters⟩ hgroup => ?_
    obtain ⟨⟨property, expected⟩, hfilter⟩ := List.exists_mem_of_ne_nil filters (h.filled _ hgroup)
    exact not_kept_nil ⟨index, property, expected⟩ ((h.stored _).1 ⟨filters, hgroup, hfilter⟩)

/-! ## Executing -/

/-- The position of a record that passes all conditions which are kept; without conditions, any position. -/
def Matches (fs : FileSystem) (input : Input) (conditions : List Condition) (p : Position) : Prop :=
  if conditions = [] then ∃ found, input.positions fs = .ok found ∧ p ∈ reached found
  else ∃ items, input.records fs = .ok items ∧ ∃ r, (p, r) ∈ reached items ∧ ∀ c, Kept conditions c → c.Accepts r

variable {fs : FileSystem} {input : Input} {guarded : Bool}

/-- A query whose groups are not empty executes the join of its leaves. -/
theorem execute_groups {q : Query} (hq : q.groups ≠ []) : q.execute fs input guarded =
    (q.leaves fs input guarded).map fun leaves => .ofStrand (.ofLeaves leaves) guarded := by
  unfold execute
  rw [if_neg (by simpa using hq)]
  cases q.leaves fs input guarded <;> rfl

/-- The positions of an input as they are found. -/
theorem items_plain {leaf : Leaf} (h : Index.plain fs input guarded = .ok leaf) :
    ∃ found, input.positions fs = .ok found ∧ leaf.items = found := by
  obtain ⟨found, hfound, h⟩ := ok_of_bind h
  cases h
  refine ⟨found, hfound, ?_⟩
  simp only [Leaf.items, List.filterMap_map]
  rw [List.filterMap_eq_map_iff_forall_eq_some.2, List.map_id]
  rintro (_ | _) - <;> rfl

/-- The leaves of a query without conditions: all positions of the input. -/
theorem execute_all {q : Query} (hq : q.groups = []) {feed : Feed} (h : q.execute fs input guarded = .ok feed) :
    ∃ found, input.positions fs = .ok found ∧ feed.Serves (reached found) := by
  unfold execute at h
  rw [if_pos (by simp [hq])] at h
  obtain ⟨leaf, hleaf, h⟩ := ok_of_bind h
  obtain ⟨found, hfound, hitems⟩ := items_plain hleaf
  cases h
  exact ⟨found, hfound, congrArg reached hitems⟩

/-- The leaves of a query have in common the positions of the records which all its groups accept. -/
theorem leaves_common {q : Query} (hne : q.groups ≠ []) (hfilled : ∀ group ∈ q.groups, group.2 ≠ [])
    (hcurrent : ∀ group ∈ q.groups, group.1.Current fs input) {leaves : List Leaf}
    (h : q.leaves fs input guarded = .ok leaves) :
    ∃ items m, input.records fs = .ok items ∧ Join.Common (leaves.map Leaf.rest) m ∧
      ∀ p, p ∈ m ↔ ∃ r, (p, r) ∈ reached items ∧
        ∀ group ∈ q.groups, ∀ filter ∈ group.2, group.1.Accepts filter.1 filter.2 r := by
  obtain ⟨hleaf, hgroup⟩ := mem_of_mapM h
  obtain ⟨first, hfirst⟩ := List.exists_mem_of_ne_nil q.groups hne
  obtain ⟨firstLeaf, hfirstLeaf, hfirstFound⟩ := hgroup first hfirst
  obtain ⟨items, hitems, -⟩ :=
    Index.positions_of_current (hcurrent first hfirst) (hfilled first hfirst) hfirstFound
  -- all groups are looked up in the same records
  have hfound : ∀ group ∈ q.groups, ∀ leaf, group.1.positions fs input group.2 guarded = .ok leaf →
      Ascending leaf.rest ∧ ∀ p, p ∈ leaf.rest ↔
        ∃ r, (p, r) ∈ reached items ∧ ∀ filter ∈ group.2, group.1.Accepts filter.1 filter.2 r := by
    intro group hgroup leaf hleaf
    obtain ⟨same, hsame, hasc, hmem⟩ := Index.positions_of_current (hcurrent group hgroup) (hfilled group hgroup) hleaf
    cases hitems.symm.trans hsame
    exact ⟨hasc, hmem⟩
  have heach : ∀ l ∈ leaves.map Leaf.rest, Ascending l := by
    intro l hl
    obtain ⟨leaf, hmem, rfl⟩ := List.mem_map.1 hl
    obtain ⟨group, hin, hok⟩ := hleaf leaf hmem
    exact (hfound group hin leaf hok).1
  have hleaves : leaves.map Leaf.rest ≠ [] := fun h => by
    rw [List.map_eq_nil_iff.1 h] at hfirstLeaf
    cases hfirstLeaf
  refine ⟨items, common (leaves.map Leaf.rest), hitems, ⟨heach, common_ascending heach, fun p => mem_common hleaves⟩,
    fun p => ?_⟩
  rw [mem_common hleaves, List.forall_mem_map]
  constructor
  · intro hall
    obtain ⟨r, hr, -⟩ := ((hfound first hfirst firstLeaf hfirstFound).2 p).1 (hall firstLeaf hfirstLeaf)
    refine ⟨r, hr, fun group hin => ?_⟩
    obtain ⟨leaf, hmem, hok⟩ := hgroup group hin
    obtain ⟨s, hs, haccepts⟩ := ((hfound group hin leaf hok).2 p).1 (hall leaf hmem)
    exact eq_of_position (Input.records_ascending hitems) hr hs ▸ haccepts
  · rintro ⟨r, hr, haccepts⟩ leaf hmem
    obtain ⟨group, hin, hok⟩ := hleaf leaf hmem
    exact ((hfound group hin leaf hok).2 p).2 ⟨r, hr, haccepts group hin⟩

/-- **Executing a query yields exactly the positions of the records which pass the conditions that are kept**, in
ascending order, if the indexes are up to date. -/
theorem execute_serves {conditions : List Condition} (hc : Consistent conditions)
    (hcurrent : ∀ c ∈ conditions, c.index.Current fs input) {feed : Feed}
    (h : (ofConditions conditions).execute fs input guarded = .ok feed) :
    ∃ m, feed.Serves m ∧ Ascending m ∧ ∀ p, p ∈ m ↔ Matches fs input conditions p := by
  have hholds := holds_ofConditions hc
  generalize ofConditions conditions = q at hholds h
  by_cases hq : q.groups = []
  · obtain ⟨found, hfound, hserves⟩ := execute_all hq h
    refine ⟨reached found, hserves, Input.positions_ascending hfound, fun p => ?_⟩
    rw [Matches, if_pos (hholds.groups_eq_nil.1 hq)]
    simp [hfound]
  · have hcurrent : ∀ group ∈ q.groups, group.1.Current fs input := by
      rintro ⟨index, filters⟩ hgroup
      obtain ⟨⟨property, expected⟩, hfilter⟩ := List.exists_mem_of_ne_nil filters (hholds.filled _ hgroup)
      exact hcurrent _ ((hholds.stored ⟨index, property, expected⟩).1 ⟨filters, hgroup, hfilter⟩).mem
    unfold execute at h
    rw [if_neg (by simpa using hq)] at h
    obtain ⟨leaves, hleaves, h⟩ := ok_of_bind h
    cases h
    obtain ⟨items, m, hitems, hcommon, hmem⟩ := leaves_common hq hholds.filled hcurrent hleaves
    have hne : leaves ≠ [] := by
      rintro rfl
      exact hq (List.forall₂_nil_right_iff.1 (ok_of_mapM hleaves))
    refine ⟨m, Strand.serves_ofLeaves hne hcommon, hcommon.ascending, fun p => ?_⟩
    rw [hmem, Matches, if_neg (mt hholds.groups_eq_nil.2 hq)]
    simp only [hitems, Except.ok.injEq, exists_eq_left']
    refine exists_congr fun r => and_congr_right fun _ => ?_
    constructor
    · intro haccepts c hkept
      obtain ⟨filters, hgroup, hfilter⟩ := (hholds.stored c).2 hkept
      exact haccepts _ hgroup _ hfilter
    · rintro haccepts ⟨index, filters⟩ hgroup ⟨property, expected⟩ hfilter
      exact haccepts ⟨index, property, expected⟩ ((hholds.stored _).1 ⟨filters, hgroup, hfilter⟩)

/-- A position that is yielded, by any number of pulls, is that of a record which passes each condition that is kept. -/
theorem accepts_of_take {conditions : List Condition} (hc : Consistent conditions)
    (hcurrent : ∀ c ∈ conditions, c.index.Current fs input) {feed : Feed}
    (h : (ofConditions conditions).execute fs input guarded = .ok feed) {count : Nat} {w : Watch} {p : Position}
    (hp : p ∈ reached (feed.take count w).1) {c : Condition} (hkept : Kept conditions c) :
    ∃ r, input.Holds fs p r ∧ c.Accepts r := by
  obtain ⟨m, hserves, -, hmem⟩ := execute_serves hc hcurrent h
  have hmatches := (hmem p).1 ((Feed.take_sublist hserves count w).subset hp)
  unfold Matches at hmatches
  rw [if_neg (List.ne_nil_of_mem hkept.mem)] at hmatches
  obtain ⟨items, hitems, r, hr, haccepts⟩ := hmatches
  exact ⟨r, ⟨items, hitems, hr⟩, haccepts c hkept⟩

end Query

end RecordServer
