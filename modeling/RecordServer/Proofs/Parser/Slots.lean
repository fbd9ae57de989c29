import Mathlib.Data.Fintype.EquivFin
import Mathlib.Data.List.Perm.Basic
import Mathlib.Data.Nat.Prime.Basic
import Mathlib.Tactic.Ring
import RecordServer.Parser.Slots

/-!
# No name is lost in the slots

The windows in which a free slot is looked for begin at triangular distances from the slot of the hash. As the number
of slots is a power of two, these distances meet each window (`exists_triangle`), so a free slot is found as long as
there is one (`place_perm`). There always is one: names are only added to slots which have not taken all they may, or
to twice as many (`add_made`). Hence `Slots.ofNames` lists exactly the names which have been added (`mem_ofNames`).
-/

namespace RecordServer

namespace Slots

/-! ## Triangular distances -/

/-- The sum of the numbers up to one. -/
def triangle : Nat → Nat
  | 0 => 0
  | k + 1 => triangle k + (k + 1)

theorem two_mul_triangle (k : Nat) : 2 * triangle k = k * (k + 1) := by
  induction k with
  | zero => rfl
  | succ k ih =>
    rw [triangle, Nat.mul_add, ih]
    ring

/-- Twice the difference of two triangular numbers is a product of which one factor is odd. -/
theorem two_mul_triangle_sub {i j : Nat} (h : i ≤ j) :
    2 * (triangle j - triangle i) = (j - i) * (i + j + 1) := by
  obtain ⟨d, rfl⟩ := Nat.exists_eq_add_of_le h
  rw [Nat.mul_sub, two_mul_triangle, two_mul_triangle, Nat.add_sub_cancel_left, Nat.sub_eq_iff_eq_add]
  · ring
  · exact Nat.mul_le_mul (by omega) (by omega)

/-- Below a power of two, triangular numbers are different modulo this power. -/
theorem triangle_inj {n i j : Nat} (hle : i ≤ j) (hj : j < 2 ^ n)
    (h : triangle i % 2 ^ n = triangle j % 2 ^ n) : i = j := by
  have hdvd : 2 ^ n ∣ triangle j - triangle i := Nat.dvd_of_mod_eq_zero (Nat.sub_mod_eq_zero_of_mod_eq h.symm)
  have hprod : 2 ^ (n + 1) ∣ (j - i) * (i + j + 1) := by
    rw [← two_mul_triangle_sub hle, Nat.pow_succ, Nat.mul_comm]
    exact Nat.mul_dvd_mul_left 2 hdvd
  have hpow : 2 ^ (n + 1) = 2 * 2 ^ n := by rw [Nat.pow_succ, Nat.mul_comm]
  by_cases hodd : (j - i) % 2 = 1
  · have hcop : Nat.Coprime (2 ^ (n + 1)) (j - i) :=
      Nat.Coprime.pow_left _ ((Nat.coprime_two_left).2 (Nat.odd_iff.2 hodd))
    have := Nat.le_of_dvd (by omega) (hcop.dvd_of_dvd_mul_left hprod)
    omega
  · have hcop : Nat.Coprime (2 ^ (n + 1)) (i + j + 1) :=
      Nat.Coprime.pow_left _ ((Nat.coprime_two_left).2 (Nat.odd_iff.2 (by omega)))
    have hsub := hcop.dvd_of_dvd_mul_right hprod
    by_contra hne
    have := Nat.le_of_dvd (by omega) hsub
    omega

/-- **Each remainder of a power of two is that of a triangular number below it.** -/
theorem exists_triangle (n r : Nat) (hr : r < 2 ^ n) : ∃ k < 2 ^ n, triangle k % 2 ^ n = r := by
  let f : Fin (2 ^ n) → Fin (2 ^ n) := fun k => ⟨triangle k % 2 ^ n, Nat.mod_lt _ (Nat.two_pow_pos n)⟩
  have hf : Function.Injective f := by
    intro i j hij
    have hmod : triangle i % 2 ^ n = triangle j % 2 ^ n := congrArg Fin.val hij
    apply Fin.ext
    rcases Nat.le_total i j with hle | hle
    · exact triangle_inj hle j.isLt hmod
    · exact (triangle_inj hle i.isLt hmod.symm).symm
  obtain ⟨k, hk⟩ := Finite.surjective_of_injective hf ⟨r, hr⟩
  exact ⟨k, k.isLt, congrArg Fin.val hk⟩

/-- Some window at a triangular distance from a slot covers any other slot. -/
theorem exists_window (m start slot : Nat) (hslot : slot < 2 ^ m) :
    ∃ k < 2 ^ m, ∃ j < windowSize, (start + windowSize * triangle k + j) % 2 ^ m = slot := by
  have hsize : windowSize = 2 ^ 4 := rfl
  -- how far the slot is from the start, seen in the circle of all slots
  obtain ⟨d, hd, hslot'⟩ : ∃ d < 2 ^ m, (start + d) % 2 ^ m = slot := by
    have hpos := Nat.two_pow_pos m
    have hmod := Nat.mod_lt start hpos
    refine ⟨(slot + (2 ^ m - start % 2 ^ m)) % 2 ^ m, Nat.mod_lt _ hpos, ?_⟩
    have hsum : start % 2 ^ m + (slot + (2 ^ m - start % 2 ^ m)) = slot + 2 ^ m := by omega
    rw [Nat.add_mod_mod, ← Nat.mod_add_mod, hsum, Nat.add_mod_right, Nat.mod_eq_of_lt hslot]
  by_cases hm : m ≤ 4
  · have hle : 2 ^ m ≤ windowSize := by
      rw [hsize]
      exact Nat.pow_le_pow_right (by decide) hm
    exact ⟨0, Nat.two_pow_pos m, d, by omega, by simpa [triangle] using hslot'⟩
  · obtain ⟨n, rfl⟩ : ∃ n, m = 4 + n := ⟨m - 4, by omega⟩
    have hpow : 2 ^ (4 + n) = windowSize * 2 ^ n := by rw [Nat.pow_add, hsize]
    have hq : d / windowSize < 2 ^ n := by
      rw [hpow] at hd
      exact Nat.div_lt_of_lt_mul hd
    obtain ⟨k, hk, htri⟩ := exists_triangle n (d / windowSize) hq
    refine ⟨k, ?_, d % windowSize, Nat.mod_lt _ (by decide), ?_⟩
    · have : 2 ^ n ≤ windowSize * 2 ^ n := Nat.le_mul_of_pos_left _ (by decide)
      omega
    · have hmul : windowSize * triangle k % 2 ^ (4 + n) = windowSize * (d / windowSize) := by
        rw [hpow, Nat.mul_mod_mul_left, htri]
      have hsplit := Nat.div_add_mod d windowSize
      calc (start + windowSize * triangle k + d % windowSize) % 2 ^ (4 + n)
          = (start + d % windowSize + windowSize * triangle k % 2 ^ (4 + n)) % 2 ^ (4 + n) := by
            rw [Nat.add_mod_mod]
            congr 1
            omega
        _ = (start + d) % 2 ^ (4 + n) := by
            rw [hmul]
            congr 1
            omega
        _ = slot := hslot'

/-! ## Free slots -/

variable {s : Slots}

/-- What is found in a window is free. -/
theorem free_of_freeWithin {start n : Nat} (h : s.freeWithin start = some n) : s.slots[n]? = some none := by
  have := List.find?_some h
  simpa using this

/-- A free slot that a window covers is found there, or another one before it. -/
theorem isSome_freeWithin {start j : Nat} (hj : j < windowSize)
    (h : s.slots[(start + j) % s.slots.size]? = some none) : (s.freeWithin start).isSome := by
  unfold freeWithin
  rw [List.find?_isSome]
  refine ⟨(start + j) % s.slots.size, ?_, by simp [h]⟩
  exact List.mem_map.2 ⟨j, List.mem_range.2 hj, rfl⟩

/-- What is found in some windows is free. -/
theorem free_of_freeFrom {windows stride start n : Nat} (h : s.freeFrom windows stride start = some n) :
    s.slots[n]? = some none := by
  induction windows generalizing stride start with
  | zero => cases h
  | succ windows ih =>
    rw [freeFrom] at h
    cases hwithin : s.freeWithin start with
    | none =>
      rw [hwithin] at h
      exact ih h
    | some found =>
      rw [hwithin] at h
      cases h
      exact free_of_freeWithin hwithin

/-- Windows are looked through at triangular distances. -/
theorem isSome_freeFrom {windows stride start k : Nat} (hk : k < windows)
    (h : (s.freeWithin (start + k * stride + windowSize * triangle k)).isSome) :
    (s.freeFrom windows stride start).isSome := by
  induction windows generalizing stride start k with
  | zero => exact absurd hk (Nat.not_lt_zero _)
  | succ windows ih =>
    rw [freeFrom]
    cases hwithin : s.freeWithin start with
    | some found => rfl
    | none =>
      cases k with
      | zero => simp [triangle, hwithin] at h
      | succ k =>
        apply ih (Nat.lt_of_succ_lt_succ hk)
        have : start + stride + windowSize + k * (stride + windowSize) + windowSize * triangle k =
            start + (k + 1) * stride + windowSize * triangle (k + 1) := by
          rw [triangle]
          ring
        rw [this]
        exact h

/-! ## Names in slots -/

/-- A name in a place that was empty is one name more. -/
theorem filterMap_set_perm {l : List (Option String)} {n : Nat} (name : String) (h : l[n]? = some none) :
    ((l.set n (some name)).filterMap id).Perm (name :: l.filterMap id) := by
  induction l generalizing n with
  | nil => simp at h
  | cons o l ih =>
    cases n with
    | zero =>
      have ho : o = none := by simpa using h
      subst ho
      exact List.Perm.refl _
    | succ n =>
      have hl : l[n]? = some none := by simpa using h
      cases o with
      | none => exact ih hl
      | some a => exact ((ih hl).cons a).trans (List.Perm.swap name a _)

/-- Where there are fewer names than slots, one is free. -/
theorem exists_free (h : s.names.length < s.slots.size) : ∃ n < s.slots.size, s.slots[n]? = some none := by
  have hmem : none ∈ s.slots.toList := by
    by_contra hnone
    have hlen : ∀ l : List (Option String), none ∉ l → (l.filterMap id).length = l.length := by
      intro l hl
      rw [List.length_filterMap_eq_countP, List.countP_eq_length]
      intro o ho
      cases o with
      | none => exact absurd ho hl
      | some _ => rfl
    rw [names, hlen _ hnone, Array.length_toList] at h
    exact Nat.lt_irrefl _ h
  obtain ⟨n, hn, heq⟩ := List.getElem_of_mem hmem
  rw [Array.length_toList] at hn
  exact ⟨n, hn, by rw [Array.getElem?_eq_getElem hn, ← heq, Array.getElem_toList]⟩

/-- The number of slots is a power of two. -/
def Binary (s : Slots) : Prop := ∃ m, s.slots.size = 2 ^ m

/-- **A name finds a place if there is one.** -/
theorem place_perm (name : String) (hs : s.Binary) (hroom : s.names.length < s.slots.size) :
    (s.place name).names.Perm (name :: s.names) ∧ (s.place name).slots.size = s.slots.size := by
  obtain ⟨m, hm⟩ := hs
  obtain ⟨slot, hslot, hfree⟩ := exists_free hroom
  obtain ⟨k, hk, j, hj, hwindow⟩ := exists_window m ((hash name).toNat % s.slots.size) slot (hm ▸ hslot)
  have hsome : (s.freeFrom (s.slots.size + 1) 0 ((hash name).toNat % s.slots.size)).isSome := by
    apply isSome_freeFrom (k := k) (by omega)
    apply isSome_freeWithin hj
    rw [Nat.mul_zero, Nat.add_zero, hm] at *
    rw [hwindow]
    exact hfree
  obtain ⟨n, hn⟩ := Option.isSome_iff_exists.1 hsome
  have hnone := free_of_freeFrom hn
  unfold place
  rw [hn]
  constructor
  · have := filterMap_set_perm (l := s.slots.toList) (n := n) name (by simpa using hnone)
    simpa [names] using this
  · exact Array.size_setIfInBounds

/-- Names find their places one after the other if there are enough. -/
theorem foldl_place_perm (added : List String) (hs : s.Binary)
    (hroom : s.names.length + added.length ≤ s.slots.size) :
    (added.foldl place s).names.Perm (added ++ s.names) ∧ (added.foldl place s).slots.size = s.slots.size := by
  induction added generalizing s with
  | nil => exact ⟨List.Perm.refl _, rfl⟩
  | cons name added ih =>
    rw [List.length_cons] at hroom
    obtain ⟨hperm, hsize⟩ := place_perm name hs (by omega)
    have hlen := hperm.length_eq
    rw [List.length_cons] at hlen
    have hs' : (s.place name).Binary := by
      rw [Binary, hsize]
      exact hs
    obtain ⟨hrest, hsize'⟩ := ih hs' (by omega)
    refine ⟨?_, hsize'.trans hsize⟩
    exact (hrest.trans (List.Perm.append_left _ hperm)).trans List.perm_middle

/-- Slots as they are made: none at all, or a power of two that is not too small. -/
def Made (s : Slots) : Prop := s.slots.size = 0 ∨ ∃ m, s.slots.size = 2 ^ (m + 2)

theorem length_names_le (s : Slots) : s.names.length ≤ s.slots.size := by
  have := List.length_filterMap_le id s.slots.toList
  rwa [Array.length_toList] at this

/-- More slots hold the same names, with room for another. -/
theorem grow_perm (hs : s.Made) :
    s.grow.names.Perm s.names ∧ (∃ m, s.grow.slots.size = 2 ^ (m + 2)) ∧ s.names.length < s.grow.slots.size := by
  obtain ⟨m, hm⟩ : ∃ m, max 4 (2 * s.slots.size) = 2 ^ (m + 2) := by
    rcases hs with hnone | ⟨m, hm⟩
    · exact ⟨0, by rw [hnone]; rfl⟩
    · refine ⟨m + 1, ?_⟩
      have : 0 < 2 ^ m := Nat.two_pow_pos m
      rw [hm, Nat.pow_add, Nat.pow_add, Nat.pow_add]
      omega
  have hnames : (⟨Array.replicate (max 4 (2 * s.slots.size)) none⟩ : Slots).names = [] := by
    simp [names]
  have hbinary : (⟨Array.replicate (max 4 (2 * s.slots.size)) none⟩ : Slots).Binary :=
    ⟨m + 2, by rw [Array.size_replicate, hm]⟩
  have hle := length_names_le s
  obtain ⟨hperm, hsize⟩ := foldl_place_perm s.names hbinary (by
    rw [hnames, Array.size_replicate, List.length_nil]
    omega)
  rw [hnames, List.append_nil] at hperm
  rw [Array.size_replicate] at hsize
  exact ⟨hperm, ⟨m, hsize.trans hm⟩, by rw [grow, hsize]; omega⟩

/-- Fewer names than the slots may take leave a slot free. -/
theorem capacity_le (s : Slots) : s.capacity ≤ s.slots.size := by
  unfold capacity
  split <;> omega

/-- **A name that is added is there afterwards, with all others.** -/
theorem add_made (name : String) (hs : s.Made) :
    (s.add name).Made ∧ ∀ n, n ∈ (s.add name).names ↔ n = name ∨ n ∈ s.names := by
  -- the slots to which the name comes
  obtain ⟨t, ht, hperm, hsize, hroom⟩ : ∃ t, (if s.names.length < s.capacity then s else s.grow) = t ∧
      t.names.Perm s.names ∧ (∃ m, t.slots.size = 2 ^ (m + 2)) ∧ t.names.length < t.slots.size := by
    have hcap := capacity_le s
    split
    · refine ⟨s, rfl, List.Perm.refl _, ?_, by omega⟩
      rcases hs with hnone | hs
      · omega
      · exact hs
    · obtain ⟨hperm, hsize, hroom⟩ := grow_perm hs
      exact ⟨s.grow, rfl, hperm, hsize, by rw [hperm.length_eq]; exact hroom⟩
  simp only [add, ht]
  by_cases hmem : t.names.contains name
  · rw [if_pos hmem]
    refine ⟨Or.inr hsize, fun n => ?_⟩
    rw [hperm.mem_iff]
    constructor
    · exact Or.inr
    · rintro (rfl | h)
      · exact hperm.mem_iff.1 (List.contains_iff_mem.1 hmem)
      · exact h
  · rw [if_neg hmem]
    obtain ⟨m, hm⟩ := hsize
    obtain ⟨hplace, hsize'⟩ := place_perm name ⟨m + 2, hm⟩ hroom
    refine ⟨Or.inr ⟨m, hsize'.trans hm⟩, fun n => ?_⟩
    rw [hplace.mem_iff, List.mem_cons, hperm.mem_iff]

/-- **Exactly the names that have been added are listed.** -/
theorem mem_ofNames {names : List String} {n : String} : n ∈ (ofNames names).names ↔ n ∈ names := by
  have hrun : ∀ (added : List String) (s : Slots), s.Made →
      (n ∈ (added.foldl add s).names ↔ n ∈ added ∨ n ∈ s.names) := by
    intro added
    induction added with
    | nil =>
      intro s _
      simp
    | cons name added ih =>
      intro s hs
      obtain ⟨hmade, hmem⟩ := add_made name hs
      rw [List.foldl_cons, ih _ hmade, hmem, List.mem_cons]
      constructor
      · rintro (h | h | h)
        · exact Or.inl (Or.inr h)
        · exact Or.inl (Or.inl h)
        · exact Or.inr h
      · rintro ((h | h) | h)
        · exact Or.inr (Or.inl h)
        · exact Or.inl h
        · exact Or.inr (Or.inr h)
  rw [ofNames, hrun names empty (Or.inl rfl)]
  simp [empty, Slots.names]

end Slots

end RecordServer
