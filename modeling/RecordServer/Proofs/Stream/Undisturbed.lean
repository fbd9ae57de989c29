import RecordServer.Proofs.Stream.Feed

/-!
# Feeds which nobody cancels

As long as the cancellation never fires (`Watch.Undisturbed`), a leaf gives its items one by one, guarded or not
(`Leaf.next_undisturbed`). So the join of leaves without faults never fails (`Leaf.steady_faultless`), and a feed of
them yields exactly what they have in common (`Feed.all_ofLeaves`).
-/

namespace RecordServer

namespace Watch

variable {w : Watch}

/-- The cancellation never fires: there is no check, or it always denies. -/
def Undisturbed (w : Watch) : Prop := ∀ check ∈ w.check, ∀ n, check n = false

/-- Without a check, it never fires. -/
theorem undisturbed_never : never.Undisturbed := by
  intro check hcheck
  cases hcheck

/-- A question, if it is asked at all, is denied. -/
theorem Undisturbed.asked (h : w.Undisturbed) (guarded : Bool) :
    ∃ v : Watch, (if guarded then w.ask else (false, w)) = (false, v) ∧ v.Undisturbed := by
  cases guarded with
  | false => exact ⟨w, rfl, h⟩
  | true =>
    refine ⟨w.ask.2, Prod.ext ?_ rfl, fun check hcheck => h check (w.check_ask ▸ hcheck)⟩
    unfold ask
    cases hcheck : w.check with
    | none => simp
    | some check => simpa using h check hcheck w.asked

end Watch

/-! ## Leaves -/

namespace Leaf

variable {leaf : Leaf} {w : Watch}

theorem readOn_undisturbed (input : String) (guarded : Bool) : ∀ (rest : List (Except Fault (Option Position)))
    {w : Watch}, w.Undisturbed →
    (readOn input guarded rest w).1 = (rest.filterMap found?).head? ∧
      (readOn input guarded rest w).2.1.items = (rest.filterMap found?).tail ∧
      (readOn input guarded rest w).2.2.Undisturbed
  | [], w, hw => by
    obtain ⟨v, hasked, hv⟩ := hw.asked guarded
    unfold readOn
    rw [hasked]
    exact ⟨rfl, rfl, hv⟩
  | record :: rest, w, hw => by
    obtain ⟨v, hasked, hv⟩ := hw.asked guarded
    have hnoted : (v.note (.scanned input)).Undisturbed := hv
    unfold readOn
    rw [hasked]
    rcases record with fault | (_ | position)
    · exact ⟨rfl, rfl, hnoted⟩
    · exact readOn_undisturbed input guarded rest hnoted
    · exact ⟨rfl, rfl, hnoted⟩

/-- A pull of a leaf takes its first item. -/
theorem next_undisturbed (leaf : Leaf) (hw : w.Undisturbed) : (leaf.next w).1 = leaf.items.head? ∧
    (leaf.next w).2.1.items = leaf.items.tail ∧ (leaf.next w).2.2.Undisturbed := by
  match leaf with
  | listed [] => exact ⟨rfl, rfl, hw⟩
  | listed (item :: rest) => exact ⟨rfl, rfl, hw⟩
  | scan input guarded rest => exact readOn_undisturbed input guarded rest hw

/-- None of the items is a fault. -/
def Faultless (leaf : Leaf) : Prop := leaf.items = leaf.rest.map .ok

theorem rest_of_items {positions : List Position} (h : leaf.items = positions.map .ok) : leaf.rest = positions := by
  rw [rest, h]
  exact (Input.reached_map_ok id positions).trans (List.map_id _)

theorem faultless_of_items {positions : List Position} (h : leaf.items = positions.map .ok) : leaf.Faultless := by
  rw [Faultless, rest_of_items h, h]

/-- A pull of a leaf without faults takes its first position. -/
theorem Faultless.next (h : leaf.Faultless) (hw : w.Undisturbed) :
    (leaf.next w).1 = leaf.rest.head?.map .ok ∧ (leaf.next w).2.1.rest = leaf.rest.tail ∧
      (leaf.next w).2.1.Faultless ∧ (leaf.next w).2.2.Undisturbed := by
  obtain ⟨hpulled, hitems, hv⟩ := leaf.next_undisturbed hw
  rw [h, List.head?_map] at hpulled
  rw [h, ← List.map_tail] at hitems
  exact ⟨hpulled, rest_of_items hitems, faultless_of_items hitems, hv⟩

/-- Leaves without faults take their positions one by one and never fail. -/
theorem steady_faultless : Join.Steady next rest bound Faultless Watch.Undisturbed fun _ _ => False where
  calm_next h hw := (h.next hw).2.2.2
  ended h hw hpulled := by
    have hnone := (h.next hw).1.symm.trans hpulled
    simpa using hnone
  taken h hw hpulled := by
    obtain ⟨hhead, hrest, hfaultless, -⟩ := h.next hw
    obtain ⟨q, hq, hqp⟩ := Option.map_eq_some_iff.1 (hhead.symm.trans hpulled)
    obtain ⟨more, hmore⟩ := List.head?_eq_some_iff.1 hq
    cases hqp
    exact ⟨by rw [hrest, hmore, List.tail_cons], hfaultless, bound_next_lt (by rw [hpulled]; rfl)⟩
  failed h hw hpulled := by
    obtain ⟨q, -, hq⟩ := Option.map_eq_some_iff.1 ((h.next hw).1.symm.trans hpulled)
    cases hq
  due_of_subset _ := id

theorem length_rest_le (leaf : Leaf) : leaf.rest.length ≤ leaf.bound :=
  Nat.le_trans (List.length_filterMap_le _ _) leaf.length_items_le

end Leaf

/-! ## Strands -/

namespace Strand

/-- None of the leaves has a fault. -/
def Faultless : Strand → Prop
  | single leaf => leaf.Faultless
  | joined join _ => join.Sound Leaf.Faultless

/-- A pull of a strand without faults takes the first of the positions to come. -/
theorem Faultless.next {s : Strand} {m : List Position} {w : Watch} (h : s.Faultless) (hserves : s.Serves m)
    (hw : w.Undisturbed) : (s.next w).1 = m.head?.map .ok ∧ (s.next w).2.1.Serves m.tail ∧
      (s.next w).2.1.Faultless ∧ (s.next w).2.2.Undisturbed := by
  cases s with
  | single leaf =>
    obtain ⟨hpulled, hrest, hfaultless, hv⟩ := Leaf.Faultless.next h hw
    obtain rfl : leaf.rest = m := hserves
    exact ⟨hpulled, hrest, hfaultless, hv⟩
  | joined join rounds =>
    obtain ⟨hv, hsound, more, htakes, hmore, hcloses⟩ := Join.pull_steady Leaf.steady_faultless hserves h hw
    have hnext : (joined join rounds).next w = ((join.pull Leaf.next rounds w).1.join,
        joined (join.pull Leaf.next rounds w).2.1 rounds, (join.pull Leaf.next rounds w).2.2) := rfl
    rw [hnext]
    generalize (join.pull Leaf.next rounds w).1.join = pulled at htakes hcloses
    match pulled with
    | none =>
      obtain ⟨rfl, rfl⟩ := htakes
      exact ⟨rfl, hmore, hsound, hv⟩
    | some (.ok p) =>
      obtain rfl : m = p :: more := htakes
      exact ⟨rfl, hmore, hsound, hv⟩
    | some (.error fault) => exact hcloses.2.elim

theorem faultless_ofLeaves {leaves : List Leaf} (h : ∀ leaf ∈ leaves, leaf.Faultless) :
    (ofLeaves leaves).Faultless := by
  match leaves with
  | [] => exact rfl
  | [leaf] => exact h leaf (by simp)
  | first :: second :: rest =>
    rintro - source hsource
    obtain ⟨leaf, hleaf, rfl⟩ := List.mem_map.1 hsource
    exact h leaf hleaf

end Strand

/-! ## Feeds -/

namespace Feed

variable {w : Watch} {m : List Position} {guarded : Bool}

/-- A pull of a feed without faults takes the first of the positions to come. -/
theorem next_undisturbed {s : Strand} (h : s.Faultless) (hserves : s.Serves m) (hw : w.Undisturbed) :
    ∃ (more : Strand) (v : Watch), (ofStrand s guarded).next w = (m.head?.map .ok, ofStrand more guarded, v) ∧
      more.Faultless ∧ more.Serves m.tail ∧ v.Undisturbed := by
  obtain ⟨v, hasked, hv⟩ := hw.asked guarded
  obtain ⟨hpulled, hmore, hfaultless, hu⟩ := h.next hserves hv
  refine ⟨_, _, ?_, hfaultless, hmore, hu⟩
  unfold next ofStrand
  rw [hasked, ← hpulled]
  rfl

/-- Pulling a strand without faults a number of times gives as many of the positions to come. -/
theorem take_undisturbed : ∀ {count : Nat} {s : Strand} {m : List Position} {w : Watch}, s.Faultless → s.Serves m →
    w.Undisturbed → ((ofStrand s guarded).take count w).1 = (m.take count).map .ok
  | 0, _, _, _, _, _, _ => by simp [take]
  | count + 1, s, m, w, h, hserves, hw => by
    obtain ⟨more, v, hnext, hfaultless, hmore, hv⟩ := @next_undisturbed w m guarded s h hserves hw
    have ih := @take_undisturbed count _ _ _ hfaultless hmore hv
    unfold take
    rw [hnext]
    cases m with
    | nil => simp
    | cons p m => simpa using ih

/-- The bound of a feed allows for all positions which its leaves have in common. -/
theorem length_le_bound {leaves : List Leaf} (hne : leaves ≠ []) (hm : Join.Common (leaves.map Leaf.rest) m) :
    m.length ≤ (ofStrand (.ofLeaves leaves) guarded).bound := by
  obtain ⟨first, others, rfl⟩ := List.exists_cons_of_ne_nil hne
  have hfirst : m.length ≤ first.bound := by
    have hsubset : m ⊆ first.rest := fun p hp => (hm.mem p).1 hp first.rest (by simp)
    have hnodup : m.Nodup := hm.ascending.imp Nat.ne_of_lt
    exact Nat.le_trans (List.subperm_of_subset hnodup hsubset).length_le first.length_rest_le
  cases others with
  | nil => exact Nat.le_succ_of_le hfirst
  | cons second rest =>
    have hrounds := @Join.potential_ofSources _ Leaf.bound (first :: second :: rest) 1
    simp only [Join.ofSources, List.map_cons, Join.potential] at hrounds
    simp only [bound, ofStrand, Strand.ofLeaves]
    omega

/-- **A feed which nobody cancels yields exactly the positions which its leaves have in common**, if they have no
faults. -/
theorem all_ofLeaves {leaves : List Leaf} (hne : leaves ≠ []) (hm : Join.Common (leaves.map Leaf.rest) m)
    (hfaultless : ∀ leaf ∈ leaves, leaf.Faultless) (hw : w.Undisturbed) :
    (ofStrand (.ofLeaves leaves) guarded).all w = m.map .ok := by
  unfold all
  rw [take_undisturbed (Strand.faultless_ofLeaves hfaultless) (Strand.serves_ofLeaves hne hm) hw,
    List.take_of_length_le (length_le_bound hne hm)]

end Feed

end RecordServer
