import RecordServer.Proofs.Relation.Runs

/-!
# Trials with pivots

A pivot has something in front of it, or equal to it: it is the middle one of three records (`Relation.settles_median`).
So it can be compared to itself whenever this is asked for, though a record need not be comparable to itself: where the
pivot is the bound, which is in front of all the others, there is a record that is equal to both.

The records on the left of a pivot are below those on its right, and both sides are sorted on their own. If there is
nothing on the left, those which are equal to the pivot stand in front of the others as they are
(`Relation.settles_byPivots`).

In the end a trial arranges a list of any length, and finds nothing exactly if any two of the records can be compared
(`Relation.settles_sort`).
-/

namespace RecordServer.Relation

open Sorting (Trial Findings)
open Sorting.Trial (Settles settles_pure settles_less)

variable {keys : List Config.SortKey} {a b p : Record} {records : List Record} {n : Nat}

/-! ## Pivots -/

/-- The middle one of three records does not have to stand in front of all of them. -/
theorem settles_median (a b c : Nat × Record) : Settles True ([a.2, b.2, c.2].Pairwise (Comparable keys))
    (fun middle => middle ∈ [a, b, c] ∧ ∃ other ∈ [a, b, c], Precedes keys other.2 middle.2)
    (Sorting.median (compared keys) a b c) := by
  refine (settles_compared.imp id (fun _ hfine => ?_) fun _ _ => id).bind fun isBelow => ?_
  · simp only [List.pairwise_cons] at hfine
    exact hfine.1 b.2 (by simp)
  refine (settles_compared.keep (fun _ => trivial) fun _ hfine => ?_).bind fun isBelowLast => ?_
  · simp only [List.pairwise_cons] at hfine
    exact hfine.1 c.2 (by simp)
  refine .ite ((settles_compared.keep (fun _ => trivial) fun _ hfine => ?_).bind fun order => .ite ?_ ?_) ?_
  · simp only [List.pairwise_cons] at hfine
    exact hfine.2.1 c.2 (by simp)
  · refine settles_pure fun ⟨⟨⟨⟨hab, _⟩, _⟩, hbc⟩, hsame⟩ => ⟨by simp, ?_⟩
    obtain rfl : order = isBelow := hsame
    cases order with
    | true => exact ⟨a, by simp, hab.below.precedes⟩
    | false => exact ⟨c, by simp, hbc.precedes⟩
  · refine settles_pure fun ⟨⟨⟨⟨_, hac⟩, hsame⟩, hbc⟩, hdiffer⟩ => ⟨by simp, ?_⟩
    obtain rfl : isBelow = isBelowLast := hsame
    obtain rfl : order = !isBelow := Bool.eq_not.2 hdiffer
    cases isBelow with
    | true => exact ⟨a, by simp, hac.below.precedes⟩
    | false => exact ⟨b, by simp, hbc.below.precedes⟩
  · refine settles_pure fun ⟨⟨hab, hac⟩, hdiffer⟩ => ⟨by simp, ?_⟩
    obtain rfl : isBelow = !isBelowLast := Bool.eq_not.2 hdiffer
    cases isBelowLast with
    | true => exact ⟨b, by simp, hab.precedes⟩
    | false => exact ⟨c, by simp, hac.precedes⟩

section

variable {item : Nat → Nat × Record}

/-- An item of a part. -/
def IsItem (item : Nat → Nat × Record) (start stop : Nat) (x : Nat × Record) : Prop :=
  ∃ k, start ≤ k ∧ k < stop ∧ x = item k

theorem IsItem.mono {start stop start' stop' : Nat} {x : Nat × Record} (h : IsItem item start stop x)
    (hstart : start' ≤ start) (hstop : stop ≤ stop') : IsItem item start' stop' x :=
  let ⟨k, hk, hk', hx⟩ := h
  ⟨k, hstart.trans hk, hk'.trans_le hstop, hx⟩

/-- The middle one of three items, each of another part. -/
theorem settles_medianOfItems {a b c length size : Nat} (hb : a + length ≤ b) (hc : b + length ≤ c)
    (hsize : c + length ≤ size) (first second third : Nat × Record) :
    Settles (IsItem item a (a + length) first ∧ IsItem item b (b + length) second ∧ IsItem item c (c + length) third)
      (∀ i j, i < j → j < size → Comparable keys (item i).2 (item j).2)
      (fun middle => IsItem item a (c + length) middle ∧ ∃ k, k < size ∧ Precedes keys (item k).2 middle.2)
      (Sorting.median (compared keys) first second third) := by
  refine (settles_median first second third).imp (fun _ => trivial) (fun h hfine => ?_) fun middle h hmiddle => ?_
  · obtain ⟨⟨i, -, hi, rfl⟩, ⟨j, hj, hj', rfl⟩, k, hk, hk', rfl⟩ := h
    simp only [List.pairwise_cons, List.mem_cons, List.not_mem_nil, or_false, forall_eq_or_imp, forall_eq]
    exact ⟨⟨hfine i j (by omega) (by omega), hfine i k (by omega) (by omega)⟩, hfine j k (by omega) (by omega),
      fun _ h => h.elim, .nil⟩
  · have hitems : ∀ x ∈ [first, second, third], IsItem item a (c + length) x := by
      simp only [List.forall_mem_cons]
      exact ⟨h.1.mono (Nat.le_refl a) (by omega), h.2.1.mono (by omega) (by omega),
        h.2.2.mono (by omega) (Nat.le_refl _), List.forall_mem_nil _⟩
    obtain ⟨hmiddle, other, hother, hprecedes⟩ := hmiddle
    obtain ⟨k, -, hk, rfl⟩ := hitems other hother
    exact ⟨hitems middle hmiddle, k, by omega, hprecedes⟩

/-- A median of medians of three parts that do not overlap compares items of different indices only. -/
theorem settles_medianOf (size a b c length : Nat) (hlength : 0 < length) (hb : a + length ≤ b) (hc : b + length ≤ c)
    (hsize : c + length ≤ size) :
    Settles True (∀ i j, i < j → j < size → Comparable keys (item i).2 (item j).2)
      (fun middle => IsItem item a (c + length) middle ∧ ∃ k, k < size ∧ Precedes keys (item k).2 middle.2)
      (Sorting.medianOf (compared keys) item a b c length) := by
  induction length using Nat.strongRecOn generalizing a b c with
  | ind length ih =>
    unfold Sorting.medianOf
    split
    · -- each part has three smaller parts, of whose medians the last one is taken
      have hpart (start : Nat) (hstart : start + length ≤ size) :
          Settles True (∀ i j, i < j → j < size → Comparable keys (item i).2 (item j).2)
            (fun middle => IsItem item start (start + length) middle)
            (Sorting.medianOf (compared keys) item start (start + length / 8 * 4) (start + length / 8 * 7)
              (length / 8)) := by
        refine (ih (length / 8) (by omega) start _ _ (by omega) (by omega) (by omega) (by omega)).imp id (fun _ => id)
          fun middle _ h => h.1.mono (Nat.le_refl start) (by omega)
      refine (hpart a (by omega)).bind fun first => ?_
      refine ((hpart b (by omega)).keep (fun _ => trivial) fun _ => id).bind fun second => ?_
      refine ((hpart c (by omega)).keep (fun _ => trivial) fun _ => id).bind fun third => ?_
      exact (settles_medianOfItems hb hc hsize first second third).imp (fun ⟨⟨hfirst, hsecond⟩, hthird⟩ =>
        ⟨hfirst, hsecond, hthird⟩) (fun _ => id) fun _ _ => id
    · refine (settles_medianOfItems hb hc hsize (item a) (item b) (item c)).imp (fun _ => ?_) (fun _ => id) fun _ _ => id
      exact ⟨⟨a, by omega, by omega, rfl⟩, ⟨b, by omega, by omega, rfl⟩, c, by omega, by omega, rfl⟩

end

/-- The pivot of a long list is one of its records, and another one need not stand behind it. -/
theorem settles_pivot (first : Record) (rest : List Record) (hlong : 32 ≤ rest.length) :
    Settles True ((first :: rest).Pairwise (Comparable keys))
      (fun pivot => (first :: rest)[pivot.1]? = some pivot.2 ∧ ∃ a ∈ first :: rest, Precedes keys a pivot.2)
      (Sorting.pivot (compared keys) first rest) := by
  have hget {k : Nat} (hk : k < rest.length + 1) :
      (first :: rest)[k]? = some ((first :: rest).toArray.getD k first) := by
    simp [Array.getD, hk]
  unfold Sorting.pivot
  simp only [List.size_toArray, List.length_cons]
  refine (settles_medianOf (rest.length + 1) 0 _ _ _ (by omega) (by omega) (by omega) (by omega)).imp id
    (fun _ hfine i j hij hj => ?_) fun pivot _ h => ?_
  · obtain ⟨hi, hirecord⟩ := List.getElem?_eq_some_iff.1 (hget (hij.trans hj))
    obtain ⟨hj, hjrecord⟩ := List.getElem?_eq_some_iff.1 (hget hj)
    exact hirecord ▸ hjrecord ▸ List.pairwise_iff_getElem.1 hfine i j hi hj hij
  · obtain ⟨⟨k, _, hk, rfl⟩, i, hi, h⟩ := h
    have hk : k < rest.length + 1 := by omega
    exact ⟨hget hk, _, List.mem_of_getElem? (hget hi), h⟩

/-! ## Parting -/

/-- Whether a record has to stand in front of another. -/
def isBelow (keys : List Config.SortKey) (a b : Record) : Bool := order keys a b matches .ok .lt

theorem isBelow_iff : isBelow keys a b = true ↔ Below keys a b := by
  unfold isBelow Below
  split <;> simp_all

theorem Comparable.precedes (h : Comparable keys a b) (hnot : isBelow keys a b = false) : Precedes keys b a := by
  obtain ⟨o, ho⟩ := h
  refine ⟨_, order_swap ho, ?_⟩
  rintro hgt
  obtain rfl : o = .lt := by cases o <;> first | rfl | cases hgt
  exact absurd (isBelow_iff.2 ho) (by simp [hnot])

theorem settles_isBelow : Settles True (Comparable keys a b)
    (fun below => below = isBelow keys a b ∧ Comparable keys a b) (compared keys a b) := by
  refine settles_less.imp id (fun _ => id) fun below _ ⟨o, ho, hbelow⟩ => ⟨?_, o, ho⟩
  rw [hbelow, isBelow, ho]
  cases o <;> rfl

theorem settles_notBelow : Settles True (Comparable keys a b)
    (fun above => above = !isBelow keys b a ∧ Comparable keys a b) (not <$> compared keys b a) := by
  refine (settles_isBelow.imp id (fun _ => Comparable.symm) fun _ _ => id).map fun below h => ?_
  exact ⟨congrArg not h.1, h.2.symm⟩

section

variable {test : Record → Bool} {isLeft : Record → Trial Bool}
  (hleft : ∀ a, Settles True (Comparable keys a p) (fun left => left = test a ∧ Comparable keys a p) (isLeft a))

include hleft

/-- Records are parted by a test, the last of each side first. -/
theorem settles_partBy : ∀ (records : List Record) (sides : List Record × List Record),
    Settles True (∀ a ∈ records, Comparable keys a p)
      (fun parted => parted = ((records.filter test).reverse ++ sides.1,
        (records.filter fun a => !test a).reverse ++ sides.2) ∧ ∀ a ∈ records, Comparable keys a p)
      (Trial.partBy isLeft records sides)
  | [], sides => settles_pure fun _ => ⟨rfl, nofun⟩
  | a :: records, (left, right) => by
    unfold Trial.partBy
    rw [List.foldlM_cons]
    -- the sides with one record more
    let sides := if test a then (a :: left, right) else (left, a :: right)
    refine Settles.bind (Q := fun parted => parted = sides ∧ Comparable keys a p) ?_ fun parted => ?_
    · refine ((hleft a).imp id (fun _ hfine => hfine a List.mem_cons_self) fun _ _ => id).bind fun isLeft => ?_
      refine .ite (settles_pure fun ⟨h, htrue⟩ => ⟨?_, h.2⟩) (settles_pure fun ⟨h, hfalse⟩ => ⟨?_, h.2⟩)
      · simp only [sides]
        rw [if_pos (h.1 ▸ htrue)]
      · simp only [sides]
        rw [if_neg (h.1 ▸ hfalse)]
    · refine ((settles_partBy records parted).keep (fun _ => trivial) fun _ hfine b hb => ?_).imp id (fun _ => id) ?_
      · exact hfine b (List.mem_cons_of_mem _ hb)
      · rintro _ - ⟨⟨rfl, ha⟩, rfl, hrest⟩
        refine ⟨?_, List.forall_mem_cons.2 ⟨ha, hrest⟩⟩
        cases htest : test a <;> simp [sides, htest]

omit hleft in
/-- The records in front of one and behind it. -/
theorem eq_around (h : records[n]? = some p) : records = records.take n ++ p :: records.drop (n + 1) := by
  obtain ⟨hn, rfl⟩ := List.getElem?_eq_some_iff.1 h
  rw [← List.drop_eq_getElem_cons hn, List.take_append_drop]

omit hleft in
/-- A record can be compared to all others if any two can. -/
theorem comparable_around (h : records[n]? = some p) (hall : records.Pairwise (Comparable keys)) :
    ∀ a ∈ records.take n ++ records.drop (n + 1), Comparable keys a p := by
  rw [eq_around h, List.pairwise_append, List.pairwise_cons] at hall
  obtain ⟨-, ⟨hbehind, -⟩, hbefore⟩ := hall
  intro a ha
  rcases List.mem_append.1 ha with ha | ha
  · exact hbefore a ha p List.mem_cons_self
  · exact (hbehind a ha).symm

/-- **Parting around a record** divides all by a test, if the record belongs to the side that the test says. -/
theorem settles_partAround {pivotIsLeft : Bool} (hpivot : test p = pivotIsLeft) (n : Nat) (records : List Record) :
    Settles (records[n]? = some p) (records.Pairwise (Comparable keys))
      (fun parted => parted = (records.filter test, records.filter fun a => !test a) ∧
        ∀ a ∈ records.take n ++ records.drop (n + 1), Comparable keys a p)
      (Trial.partAround isLeft pivotIsLeft n records) := by
  refine ((settles_partBy hleft (records.take n) ([], [])).keep (fun _ => trivial) fun h hfine a ha => ?_).bind
    fun before => ?_
  · exact comparable_around h hfine a (List.mem_append_left _ ha)
  refine ((settles_partBy hleft (records.drop (n + 1)) _).keep (fun _ => trivial) fun h hfine a ha => ?_).bind
    fun parted => settles_pure ?_
  · exact comparable_around h.1 hfine a (List.mem_append_right _ ha)
  rintro ⟨⟨h, rfl, hbefore⟩, rfl, hbehind⟩
  refine ⟨?_, fun a ha => (List.mem_append.1 ha).elim (hbefore a) (hbehind a)⟩
  have htake : (records.drop n).take 1 = [p] := by
    obtain ⟨hn, rfl⟩ := List.getElem?_eq_some_iff.1 h
    rw [List.drop_eq_getElem_cons hn]
    rfl
  have hfilter (test : Record → Bool) : records.filter test =
      (records.take n).filter test ++ (if test p then [p] else []) ++ (records.drop (n + 1)).filter test := by
    conv_lhs => rw [eq_around h]
    cases htest : test p <;> simp [htest]
  rw [htake, hfilter, hfilter fun a => !test a, hpivot]
  cases pivotIsLeft <;> simp

end

/-- A record of a list is at a place, in front of it or behind it. -/
theorem mem_around (h : records[n]? = some p) (ha : a ∈ records) :
    a = p ∨ a ∈ records.take n ++ records.drop (n + 1) := by
  rw [eq_around h, List.mem_append, List.mem_cons] at ha
  rw [List.mem_append]
  tauto

section

variable (hpivot : records[n]? = some p)
  (hall : ∀ a ∈ records.take n ++ records.drop (n + 1), Comparable keys a p)

include hpivot hall

/-- The pivot may stand in front of all the records that do not have to stand in front of it. -/
theorem precedes_right (ha : a ∈ records.filter fun a => !isBelow keys a p) : a = p ∨ Precedes keys p a := by
  obtain ⟨ha, hnot⟩ := List.mem_filter.1 ha
  exact (mem_around hpivot ha).imp_right fun ha => (hall a ha).precedes (by simpa using hnot)

/-- Those which have to stand in front of the pivot have to stand in front of the others. -/
theorem below_right (ha : a ∈ records.filter fun a => isBelow keys a p)
    (hb : b ∈ records.filter fun a => !isBelow keys a p) : Below keys a b := by
  have hap := isBelow_iff.1 (List.mem_filter.1 ha).2
  rcases precedes_right hpivot hall hb with rfl | hpb
  · exact hap
  · exact hap.of_precedes hpb

omit hpivot hall in
/-- **Both sides of a pivot** are sorted on their own. -/
theorem arranged_sides {test : Record → Bool} {left right : List Record}
    (hbelow : ∀ a ∈ records.filter test, ∀ b ∈ records.filter (fun a => !test a), Below keys a b)
    (hleft : Arranged keys (records.filter test) left) (hright : Arranged keys (records.filter fun a => !test a) right) :
    Arranged keys records (left ++ right) := by
  refine (hleft.append hright fun a ha b hb => (hbelow a ha b hb).precedes).of_rearranged (.divide test ?_)
  exact fun a ha hpass b hb hfail =>
    hbelow a (List.mem_filter.2 ⟨ha, hpass⟩) b (List.mem_filter.2 ⟨hb, by simp [hfail]⟩)

omit hpivot in
/-- If the pivot may stand in front of all records, those which need not stand behind it are equal to it. -/
theorem ties_around (hfirst : ∀ a ∈ records, a = p ∨ Precedes keys p a)
    (ha : a ∈ records.take n ++ records.drop (n + 1)) (hnot : isBelow keys p a = false) : ties keys p a = true := by
  have hmem : a ∈ records := (List.mem_append.1 ha).elim List.mem_of_mem_take List.mem_of_mem_drop
  have hap := (hall a ha).symm.precedes hnot
  rcases hfirst a hmem with rfl | hpa
  · exact ties_of_precedes hap hap
  · exact ties_of_precedes hpa hap

/-- Then they stand as they are in front of those which have to stand behind the pivot. -/
theorem arranged_equal (hfirst : ∀ a ∈ records, a = p ∨ Precedes keys p a) {right : List Record}
    (hright : Arranged keys (records.filter fun a => !(!isBelow keys p a)) right) :
    Arranged keys records ((records.filter fun a => !isBelow keys p a) ++ right) := by
  have hcases : ∀ a ∈ records.filter (fun a => !isBelow keys p a), a = p ∨ ties keys p a = true := fun a ha =>
    (mem_around hpivot (List.mem_filter.1 ha).1).imp_right fun haround =>
      ties_around hall hfirst haround (by simpa using (List.mem_filter.1 ha).2)
  refine arranged_sides (fun a ha b hb => ?_) (.self ?_) hright
  · have hpb : Below keys p b := isBelow_iff.1 (by simpa using (List.mem_filter.1 hb).2)
    rcases hcases a ha with rfl | hties
    · exact hpb
    · exact Precedes.below ⟨_, order_swap (ties_iff.1 hties), nofun⟩ hpb
  · by_cases hself : ties keys p p = true
    · -- all of them are equal to the pivot, and so to each other
      have hties : ∀ a ∈ records.filter (fun a => !isBelow keys p a), ties keys p a = true := fun a ha =>
        (hcases a ha).elim (fun hsame => hsame ▸ hself) id
      exact List.pairwise_of_forall_mem_list fun a ha b hb => ⟨_, order_of_ties (hties a ha) (hties b hb), nofun⟩
    · -- no other record is equal to the pivot
      have hnone (part : List Record) (hpart : ∀ a ∈ part, a ∈ records.take n ++ records.drop (n + 1)) :
          part.filter (fun a => !isBelow keys p a) = [] := by
        refine List.filter_eq_nil_iff.2 fun a ha hnot => hself ?_
        have hties := ties_iff.1 (ties_around hall hfirst (hpart a ha) (by simpa using hnot))
        exact ties_iff.2 (order_trans hties (order_swap hties) nofun nofun)
      rw [eq_around hpivot, List.filter_append, hnone _ fun a => List.mem_append_left _, List.nil_append,
        List.filter_cons, hnone _ fun a => List.mem_append_right _]
      split <;> simp

end

/-! ## Sorting around pivots -/

/-- The bound, if there is one, may stand in front of all records. -/
def Bounds (keys : List Config.SortKey) (bound : Option Record) (records : List Record) : Prop :=
  ∀ b ∈ bound, ∀ a ∈ records, a = b ∨ Precedes keys b a

/-- The pivot can be compared to the bound, even if they are the same. -/
theorem Bounds.comparable (h : Bounds keys (some b) records) (hpivot : p ∈ records) (ha : a ∈ records)
    (hap : Precedes keys a p) : Comparable keys b p := by
  rcases h b rfl p hpivot with rfl | hbp
  · rcases h p rfl a ha with rfl | hpa
    · exact hap.comparable
    · exact (hpa.trans hap).comparable
  · exact hbp.comparable

/-- A pivot that is not below the bound may stand in front of all records, too. -/
theorem Bounds.pivot (h : Bounds keys (some b) records) (hpb : Precedes keys p b) : Bounds keys (some p) records := by
  rintro _ ⟨⟩ a ha
  rcases h b rfl a ha with rfl | hba
  · exact .inr hpb
  · exact .inr (hpb.trans hba)

theorem Bounds.filter {bound : Option Record} (h : Bounds keys bound records) (test : Record → Bool) :
    Bounds keys bound (records.filter test) := fun b hb a ha => h b hb a (List.mem_filter.1 ha).1

/-- What is known of two sides before they are sorted: the records have been parted around the pivot, or they have not
since the pivot may stand in front of all of them. -/
def Sides (keys : List Config.SortKey) (records : List Record) (n : Nat) (p : Record)
    (sides : List Record × List Record) : Prop :=
  sides = ([], records) ∧ Bounds keys (some p) records ∨
    sides = (records.filter (fun a => isBelow keys a p), records.filter fun a => !isBelow keys a p) ∧
      ∀ a ∈ records.take n ++ records.drop (n + 1), Comparable keys a p

/-- If nothing is on its left, the pivot may stand in front of all records. -/
theorem Sides.bounds {sides : List Record × List Record} (h : Sides keys records n p sides)
    (hpivot : records[n]? = some p) (hempty : sides.1.isEmpty = true) : Bounds keys (some p) records := by
  rcases h with ⟨-, hbounds⟩ | ⟨rfl, hall⟩
  · exact hbounds
  · rintro _ ⟨⟩ a ha
    refine precedes_right hpivot hall (List.mem_filter.2 ⟨ha, ?_⟩)
    simpa using List.filter_eq_nil_iff.1 (List.isEmpty_iff.1 hempty) a ha

/-- **Sorting around pivots** arranges records, and finds nothing if any two of them can be compared. -/
theorem settles_byPivots : ∀ (depth : Nat) (bound : Option Record) (records : List Record),
    Settles (Bounds keys bound records) (records.Pairwise (Comparable keys)) (Arranged keys records)
      (Trial.byPivots (compared keys) depth bound records)
  | _, _, [] => by
    unfold Trial.byPivots
    exact settles_pure fun _ => .nil
  | 0, _, first :: rest => by
    unfold Trial.byPivots
    refine .ite ((settles_sortShort _).imp (fun _ => trivial) (fun _ => id) fun _ _ => id) ?_
    have heager (list : List Record) : Settles (true = false) (list.Pairwise (Comparable keys)) (Arranged keys list)
        (pure list) := settles_pure fun h => absurd h Bool.noConfusion
    exact (settles_byRuns heager _).imp (fun _ => trivial) (fun _ => id) fun _ _ => id
  | depth + 1, bound, first :: rest => by
    unfold Trial.byPivots
    split
    · exact (settles_sortShort _).imp (fun _ => trivial) (fun _ => id) fun _ _ => id
    rename_i hlong
    refine ((settles_pivot first rest (Nat.le_of_not_lt hlong)).keep (fun _ => trivial) fun _ => id).bind
      fun place => ?_
    obtain ⟨n, p⟩ := place
    generalize first :: rest = records
    dsimp -zeta only
    extract_lets behind choose
    have hirrefl : isBelow keys p p = false := Bool.eq_false_iff.2 fun h => Below.irrefl (isBelow_iff.1 h)
    have hbehind (sides : List Record × List Record) :
        Settles ((Bounds keys bound records ∧ records[n]? = some p) ∧ Sides keys records n p sides)
          (records.Pairwise (Comparable keys)) (Arranged keys records) (behind sides) := by
      refine .ite ?_ ?_
      · -- nothing is on the left: those which are equal to the pivot are parted from the others
        have hpart := settles_partAround (fun a => settles_notBelow (a := a)) (p := p) (congrArg not hirrefl) n records
        refine (hpart.keep (fun h => ?_) fun _ => id).bind fun parted => ?_
        · exact h.1.1.2
        refine ((settles_byPivots depth none parted.2).keep (fun _ b hb => absurd hb (Option.not_mem_none b))
          fun h hfine => ?_).bind
          fun right => settles_pure fun h => ?_
        · exact h.2.1 ▸ hfine.sublist List.filter_sublist
        · obtain ⟨⟨⟨⟨⟨-, hpivot⟩, hsides⟩, hempty⟩, rfl, hall⟩, hright⟩ := h
          exact arranged_equal hpivot hall (hsides.bounds hpivot hempty p rfl) hright
      · -- both sides are sorted, the right one with the pivot as its bound
        let parted : Prop := (Bounds keys bound records ∧ records[n]? = some p) ∧
          sides = (records.filter (fun a => isBelow keys a p), records.filter fun a => !isBelow keys a p) ∧
            ∀ a ∈ records.take n ++ records.drop (n + 1), Comparable keys a p
        have hparted (h : ((Bounds keys bound records ∧ records[n]? = some p) ∧ Sides keys records n p sides) ∧
            ¬sides.1.isEmpty = true) : parted :=
          ⟨h.1.1, h.1.2.resolve_left fun hnone => h.2 (hnone.1 ▸ rfl)⟩
        refine ((settles_byPivots depth (some p) sides.2).keep (K := parted) (fun h => ?_) fun h hfine => ?_).imp
          hparted (fun _ => id) (fun _ _ => id) |>.bind fun right => ?_
        · rintro _ ⟨⟩ a ha
          rw [h.2.1] at ha
          exact precedes_right h.1.2 h.2.2 ha
        · exact h.2.1 ▸ hfine.sublist List.filter_sublist
        refine ((settles_byPivots depth bound sides.1).keep (fun h => ?_) fun h hfine => ?_).bind
          fun left => settles_pure fun h => ?_
        · exact h.1.2.1 ▸ h.1.1.1.filter _
        · exact h.1.2.1 ▸ hfine.sublist List.filter_sublist
        · obtain ⟨⟨⟨⟨-, hpivot⟩, rfl, hall⟩, hright⟩, hleft⟩ := h
          exact arranged_sides (fun a ha b hb => below_right hpivot hall ha hb) hleft hright
    have hchoose (isBound : Bool) :
        Settles ((Bounds keys bound records ∧ records[n]? = some p) ∧ (isBound = true → Bounds keys (some p) records))
          (records.Pairwise (Comparable keys)) (Arranged keys records) (choose isBound) := by
      refine .ite ((settles_pure fun h => ?_).bind hbehind) ?_
      · exact ⟨h.1.1, .inl ⟨rfl, h.1.2 h.2⟩⟩
      · have hpart := settles_partAround (fun a => settles_isBelow (a := a)) (p := p) hirrefl n records
        refine (hpart.imp (fun h => h.1.1.2) (fun _ => id) fun parted h hparted => ?_).bind hbehind
        exact ⟨h.1.1, .inr hparted⟩
    cases bound with
    | none => exact (settles_pure fun h => ⟨⟨h.1, h.2.1⟩, fun h => absurd h Bool.noConfusion⟩).bind hchoose
    | some b =>
      refine ((settles_notBelow (a := p) (b := b)).imp (fun _ => trivial) (fun h _ => ?_) fun isBound h hbound => ?_).bind
        hchoose
      · obtain ⟨a, ha, hap⟩ := h.2.2
        exact (h.1.comparable (List.mem_of_getElem? h.2.1) ha hap).symm
      · refine ⟨⟨h.1, h.2.1⟩, fun htrue => h.1.pivot ?_⟩
        exact hbound.2.symm.precedes (by simpa [htrue] using hbound.1)

/-! ## Lists of any length -/

/-- **A trial arranges records**, and finds nothing if any two of them can be compared. -/
theorem settles_sort (records : List Record) : Settles True (records.Pairwise (Comparable keys))
    (Arranged keys records) (Trial.sort (compared keys) records) := by
  have hpivots (list : List Record) : Settles (decide (records.length ≤ 64) = false) (list.Pairwise (Comparable keys))
      (Arranged keys list) (Trial.byPivots (compared keys) (2 * list.length.log2) none list) :=
    (settles_byPivots _ none list).imp (fun _ => nofun) (fun _ => id) fun _ _ => id
  refine .ite ((settles_insertAll records [] records).imp (fun _ => ?_) (fun _ => id) fun _ _ => id)
    ((settles_byRuns hpivots records).imp (fun _ => trivial) (fun _ => id) fun _ _ => id)
  exact ⟨[], rfl, .nil⟩

end RecordServer.Relation
