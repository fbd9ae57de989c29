import Mathlib.Data.List.Perm.Basic
import RecordServer.Sorting.Arrangement

/-!
# Arranged lists

However a list is arranged, it keeps its elements (`Sorting.arrange_perm`): a heap only swaps them (`sink_perm`,
`heapSort_perm`), and parting puts each on one of two sides (`parted_perm`). The pivot is an element of the list, whose
place the first element takes (`pivot_perm`).
-/

namespace RecordServer.Sorting

variable {α : Type}

/-! ## Heaps -/

theorem swap_perm (heap : Array α) (i j : Nat) : (heap.swapIfInBounds i j).Perm heap := by
  rw [Array.swapIfInBounds_def]
  split
  · split
    · exact Array.swap_perm _ _
    · exact .refl heap
  · exact .refl heap

theorem sink_perm (less : α → α → Bool) (size : Nat) : ∀ (steps node : Nat) (heap : Array α),
    (sink less size steps node heap).Perm heap
  | 0, _, heap => .refl heap
  | steps + 1, node, heap => by
    unfold sink
    simp only
    split
    · split
      · split
        · exact (sink_perm less size steps _ _).trans (swap_perm heap _ _)
        · exact .refl heap
      · exact .refl heap
    · exact .refl heap

/-- Steps which keep the elements of a heap keep them together. -/
theorem foldl_perm {step : Array α → Nat → Array α} (h : ∀ heap n, (step heap n).Perm heap) :
    ∀ (nodes : List Nat) (heap : Array α), (nodes.foldl step heap).Perm heap
  | [], heap => .refl heap
  | n :: nodes, heap => (foldl_perm h nodes (step heap n)).trans (h heap n)

theorem heapSort_perm (less : α → α → Bool) (list : List α) : (heapSort less list).Perm list := by
  unfold heapSort
  have hheap := foldl_perm (fun heap n => sink_perm less list.length list.length n heap)
    (List.range (list.length / 2)).reverse list.toArray
  have hsorted := foldl_perm (fun heap n => (sink_perm less n list.length 0 (heap.swapIfInBounds 0 n)).trans
    (swap_perm heap 0 n)) (List.range list.length).reverse
  exact ((hsorted _).trans hheap).toList

/-! ## Parting -/

theorem turn_perm (sides : List α × List α) :
    ((turn sides).1 ++ (turn sides).2.reverse).Perm (sides.1 ++ sides.2.reverse) := by
  obtain ⟨_ | ⟨first, front⟩, back⟩ := sides
  · unfold turn
    simp only [List.nil_append]
    split
    · rename_i h
      rw [h]
      exact .refl []
    · rename_i first front h
      rw [h]
      exact List.perm_append_singleton first front
  · unfold turn
    simp only [List.reverse_cons, List.cons_append]
    rw [← List.append_assoc]
    exact List.perm_append_singleton first _

/-- The elements on both sides. -/
def onSides (sides : List α × (List α × List α)) : List α := sides.1 ++ (sides.2.1 ++ sides.2.2.reverse)

theorem part_perm (isLeft : α → Bool) (sides : List α × (List α × List α)) (x : α) :
    (onSides (part isLeft sides x)).Perm (x :: onSides sides) := by
  unfold part onSides
  simp only
  split
  · exact ((turn_perm sides.2).append_left sides.1).cons x
  · exact (List.perm_middle.trans (((turn_perm sides.2).append_left sides.1).cons x))

theorem foldl_part_perm (isLeft : α → Bool) : ∀ (list : List α) (sides : List α × (List α × List α)),
    (onSides (list.foldl (part isLeft) sides)).Perm (list ++ onSides sides)
  | [], _ => .refl _
  | x :: list, sides =>
    (foldl_part_perm isLeft list _).trans (((part_perm isLeft sides x).append_left list).trans List.perm_middle)

theorem parted_perm (isLeft : α → Bool) (list : List α) :
    ((parted isLeft list).1 ++ (parted isLeft list).2).Perm list := by
  cases list with
  | nil => exact .refl []
  | cons first rest =>
    have hsides : (onSides (part isLeft (rest.foldl (part isLeft) ([], ([], []))) first)).Perm (first :: rest) := by
      refine (part_perm isLeft _ first).trans (List.Perm.cons first ?_)
      simpa [onSides] using foldl_part_perm isLeft rest ([], ([], []))
    rw [parted]
    generalize part isLeft (rest.foldl (part isLeft) ([], ([], []))) first = sides at hsides ⊢
    obtain ⟨_ | ⟨last, before⟩, front, back⟩ := sides
    · exact hsides
    · exact (((List.reverse_perm before).append_right _).cons last).trans hsides

/-! ## Pivots -/

theorem median_mem (less : α → α → Bool) (a b c : Nat × α) :
    Id.run (median (fun a b => pure (less a b)) a b c) ∈ [a, b, c] := by
  unfold median
  simp only [Id.run, pure, bind]
  split
  · split <;> simp
  · simp

/-- A median of medians is an element. -/
theorem medianOf_item (less : α → α → Bool) (item : Nat → Nat × α) (a b c length : Nat) :
    ∃ n, Id.run (medianOf (fun a b => pure (less a b)) item a b c length) = item n := by
  induction length using Nat.strongRecOn generalizing a b c with
  | ind length ih =>
    unfold medianOf
    split
    · rename_i h
      have hpart : length / 8 < length := Nat.div_lt_self (by omega) (by omega)
      obtain ⟨i, hi⟩ := ih (length / 8) hpart a (a + length / 8 * 4) (a + length / 8 * 7)
      obtain ⟨j, hj⟩ := ih (length / 8) hpart b (b + length / 8 * 4) (b + length / 8 * 7)
      obtain ⟨k, hk⟩ := ih (length / 8) hpart c (c + length / 8 * 4) (c + length / 8 * 7)
      show ∃ n, Id.run (median _ (Id.run (medianOf _ item a _ _ _)) (Id.run (medianOf _ item b _ _ _))
        (Id.run (medianOf _ item c _ _ _))) = item n
      rw [hi, hj, hk]
      have hmem := median_mem less (item i) (item j) (item k)
      simp only [List.mem_cons, List.not_mem_nil, or_false] at hmem
      rcases hmem with h | h | h <;> exact ⟨_, h⟩
    · have hmem := median_mem less (item a) (item b) (item c)
      simp only [List.mem_cons, List.not_mem_nil, or_false] at hmem
      rcases hmem with h | h | h <;> exact ⟨_, h⟩

/-- The pivot and what is left with the first element in its place. -/
theorem pivot_perm (less : α → α → Bool) (first : α) (rest : List α) {n : Nat} {p : α}
    (h : Id.run (pivot (fun a b => pure (less a b)) first rest) = (n, p)) :
    (p :: if n = 0 then rest else rest.set (n - 1) first).Perm (first :: rest) := by
  obtain ⟨k, hk⟩ := medianOf_item less (fun n => (n, (first :: rest).toArray.getD n first)) 0
    ((first :: rest).toArray.size / 8 * 4) ((first :: rest).toArray.size / 8 * 7) ((first :: rest).toArray.size / 8)
  obtain ⟨rfl, rfl⟩ := Prod.mk.inj (h.symm.trans hk)
  cases n with
  | zero => exact .refl _
  | succ k =>
    simp only [Nat.succ_ne_zero, if_false, Nat.add_sub_cancel]
    by_cases hk : k < rest.length
    · have hget : (first :: rest).toArray.getD (k + 1) first = rest[k] := by
        simp [Array.getD, hk]
      rw [hget]
      exact (((List.set_perm_cons_eraseIdx hk first).cons _).trans (.swap _ _ _)).trans
        ((List.getElem_cons_eraseIdx_perm hk).cons first)
    · have hget : (first :: rest).toArray.getD (k + 1) first = first := by
        simp [Array.getD, hk]
      rw [hget, List.set_eq_of_length_le (Nat.le_of_not_lt hk)]

/-! ## Arranging -/

theorem partAndSort_perm (less : α → α → Bool) : ∀ (depth : Nat) (bound : Option α) (list : List α),
    (partAndSort less depth bound list).Perm list
  | _, _, [] => by
    unfold partAndSort
    exact .refl []
  | 0, bound, first :: rest => by
    unfold partAndSort
    split
    · exact List.mergeSort_perm _ _
    · exact heapSort_perm less (first :: rest)
  | depth + 1, bound, first :: rest => by
    unfold partAndSort
    split
    · exact List.mergeSort_perm _ _
    · rcases hpivot : Id.run (pivot (fun a b => pure (less a b)) first rest) with ⟨n, p⟩
      have hothers := pivot_perm less first rest hpivot
      simp only
      generalize (if n = 0 then rest else rest.set (n - 1) first) = others at hothers ⊢
      split
      · have hparted := parted_perm (fun x => !less p x) others
        generalize parted (fun x => !less p x) others = sides at hparted ⊢
        obtain ⟨left, right⟩ := sides
        have hright := partAndSort_perm less depth none right
        exact (List.perm_middle.trans (((hright.append_left left).trans hparted).cons p)).trans hothers
      · have hparted := parted_perm (fun x => less x p) others
        generalize parted (fun x => less x p) others = sides at hparted ⊢
        obtain ⟨left, right⟩ := sides
        have hleft := partAndSort_perm less depth bound left
        have hright := partAndSort_perm less depth (some p) right
        exact (List.perm_middle.trans (((hleft.append hright).trans hparted).cons p)).trans hothers

/-- **Arranging a list keeps its elements.** -/
theorem arrange_perm (less : α → α → Bool) (list : List α) : (arrange less list).Perm list := by
  unfold arrange
  split
  · exact List.mergeSort_perm _ _
  · rcases Id.run (naturalRun (fun a b => pure (less a b)) list) with ⟨n, descending⟩
    simp only
    split
    · split
      · exact List.reverse_perm list
      · exact .refl list
    · exact partAndSort_perm less _ none list

end RecordServer.Sorting
