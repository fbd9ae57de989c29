import Mathlib.Data.List.Pairwise
import Mathlib.Data.List.Sort
import RecordServer.Proofs.Fault
import RecordServer.Proofs.Sorting.Trial
import RecordServer.Relation

/-!
# Sorted records

The order of records by sort keys is one wherever it is defined: it can be turned around (`Relation.order_swap`), and
it is transitive (`Relation.order_trans`), so that what lies between comparable records is comparable to them.

Sorting inserts one record after the other. An insertion that succeeds has noticed every record which the new one cannot
be compared to, even if it has not looked at it (`Relation.arranged_insert`). So records are sorted exactly if any two
of them can be compared, and then they are in the one stable order (`Relation.toOption_sorted`). What goes wrong is a
matter of their order (`Relation.raises_sorted`).
-/

namespace RecordServer

/-! ## Values -/

namespace Value

/-- Going on from one to another, neither of which goes down. -/
theorem compare_trans {α : Type} [Ord α] [Std.TransOrd α] {a b c : α} {o p : Ordering} (ho : compare a b = o)
    (hp : compare b c = p) (hup : o ≠ .gt) (hup' : p ≠ .gt) : compare a c = o.then p := by
  cases o with
  | lt => exact Std.TransCmp.lt_of_lt_of_isLE ho (by rw [hp]; cases p <;> simp_all)
  | eq => rw [Std.TransCmp.congr_left ho, hp]; rfl
  | gt => exact absurd rfl hup

theorem order?_swap {x y : Value} {o : Ordering} (h : x.order? y = some o) : y.order? x = some o.swap := by
  cases x <;> cases y <;> simp only [order?, Option.some.injEq, reduceCtorEq] at h ⊢
  all_goals first
    | exact h ▸ Std.OrientedCmp.eq_swap
    | exact h ▸ rfl

theorem order?_trans {x y z : Value} {o p : Ordering} (ho : x.order? y = some o) (hp : y.order? z = some p)
    (hup : o ≠ .gt) (hup' : p ≠ .gt) : x.order? z = some (o.then p) := by
  cases x <;> cases y <;> simp only [order?, Option.some.injEq, reduceCtorEq] at ho
  all_goals cases z <;> simp only [order?, Option.some.injEq, reduceCtorEq] at hp ⊢
  all_goals first
    | exact compare_trans ho hp hup hup'
    | subst ho hp; rfl

end Value

namespace Relation

/-! ## The order of records -/

/-- The value of a record by which it is sorted. -/
def sortValue (key : Config.SortKey) (r : Record) : Value := (r.property? key.property).getD .null

/-- The order of two records by one key. -/
def keyOrder (key : Config.SortKey) (a b : Record) : Option Ordering :=
  if key.ascending then (sortValue key a).order? (sortValue key b) else (sortValue key b).order? (sortValue key a)

variable {key : Config.SortKey} {keys : List Config.SortKey} {a b c : Record} {o p : Ordering}

theorem keyOrder_swap (h : keyOrder key a b = some o) : keyOrder key b a = some o.swap := by
  unfold keyOrder at h ⊢
  split_ifs at h ⊢ <;> exact Value.order?_swap h

theorem keyOrder_trans (ho : keyOrder key a b = some o) (hp : keyOrder key b c = some p) (hup : o ≠ .gt)
    (hup' : p ≠ .gt) : keyOrder key a c = some (o.then p) := by
  unfold keyOrder at ho hp ⊢
  split_ifs at ho hp ⊢
  · exact Value.order?_trans ho hp hup hup'
  · rw [Value.order?_trans hp ho hup' hup]
    cases o <;> cases p <;> first | rfl | contradiction

/-- The order by a key, as it is found from the values. -/
theorem keyOrder_eq (key : Config.SortKey) (a b : Record) : keyOrder key a b =
    ((sortValue key a).order? (sortValue key b)).map fun q => if key.ascending then q else q.swap := by
  cases h : (sortValue key a).order? (sortValue key b) with
  | none =>
    cases h' : (sortValue key b).order? (sortValue key a) with
    | none => simp [keyOrder, h, h']
    | some q => exact absurd (h.symm.trans (Value.order?_swap h')) nofun
  | some q =>
    unfold keyOrder
    rw [h, Value.order?_swap h]
    split_ifs with hascending <;> simp

/-- The first key that tells records apart decides on their order. -/
theorem order_cons : order (key :: keys) a b = .ok o ↔
    ∃ q, keyOrder key a b = some q ∧ if q = .eq then order keys a b = .ok o else q = o := by
  rw [keyOrder_eq]
  simp only [order, sortValue]
  generalize Value.order? _ _ = q
  rcases q with _ | _ | _ | _ <;> cases key.ascending <;> simp

theorem order_swap : ∀ {keys : List Config.SortKey} {o : Ordering}, order keys a b = .ok o →
    order keys b a = .ok o.swap
  | [], _, h => by
    cases h
    rfl
  | key :: keys, o, h => by
    obtain ⟨q, hq, h⟩ := order_cons.1 h
    refine order_cons.2 ⟨q.swap, keyOrder_swap hq, ?_⟩
    cases q with
    | eq => exact order_swap h
    | lt => exact congrArg Ordering.swap h
    | gt => exact congrArg Ordering.swap h

/-- **Going on from one record to another, neither of which goes down**: the first and the last can be compared. -/
theorem order_trans : ∀ {keys : List Config.SortKey} {o p : Ordering}, order keys a b = .ok o →
    order keys b c = .ok p → o ≠ .gt → p ≠ .gt → order keys a c = .ok (o.then p)
  | [], _, _, ho, hp, _, _ => by
    cases ho
    cases hp
    rfl
  | key :: keys, o, p, ho, hp, hup, hup' => by
    obtain ⟨q, hq, ho⟩ := order_cons.1 ho
    obtain ⟨r, hr, hp⟩ := order_cons.1 hp
    have hqup : q ≠ .gt := by
      rintro rfl
      exact hup ho.symm
    have hrup : r ≠ .gt := by
      rintro rfl
      exact hup' hp.symm
    refine order_cons.2 ⟨_, keyOrder_trans hq hr hqup hrup, ?_⟩
    cases q with
    | gt => exact absurd rfl hqup
    | lt =>
      obtain rfl : Ordering.lt = o := ho
      rfl
    | eq =>
      cases r with
      | gt => exact absurd rfl hrup
      | eq => exact order_trans ho hp hup hup'
      | lt =>
        obtain rfl : Ordering.lt = p := hp
        cases o with
        | gt => exact absurd rfl hup
        | lt => rfl
        | eq => rfl

/-- Two records can be compared. -/
def Comparable (keys : List Config.SortKey) (a b : Record) : Prop := ∃ o, order keys a b = .ok o

/-- A record may stand in front of another. -/
def Precedes (keys : List Config.SortKey) (a b : Record) : Prop := ∃ o, order keys a b = .ok o ∧ o ≠ .gt

/-- Whether two records are equal by all keys. -/
def ties (keys : List Config.SortKey) (a b : Record) : Bool := order keys a b matches .ok .eq

theorem ties_iff : ties keys a b = true ↔ order keys a b = .ok .eq := by
  unfold ties
  split <;> simp_all

theorem Comparable.symm (h : Comparable keys a b) : Comparable keys b a := by
  obtain ⟨o, ho⟩ := h
  exact ⟨_, order_swap ho⟩

instance : Std.Symm (Comparable keys) := ⟨fun _ _ => Comparable.symm⟩

theorem Precedes.trans (h : Precedes keys a b) (h' : Precedes keys b c) : Precedes keys a c := by
  obtain ⟨o, ho, hup⟩ := h
  obtain ⟨p, hp, hup'⟩ := h'
  refine ⟨_, order_trans ho hp hup hup', ?_⟩
  cases o <;> cases p <;> first | contradiction | decide

/-- Records which may stand in front of each other are equal by all keys. -/
theorem ties_of_precedes (h : Precedes keys a b) (h' : Precedes keys b a) : ties keys a b = true := by
  obtain ⟨o, ho, hup⟩ := h
  obtain ⟨p, hp, hup'⟩ := h'
  cases (order_swap ho).symm.trans hp
  cases o with
  | gt => exact absurd rfl hup
  | lt => exact absurd rfl hup'
  | eq => exact ties_iff.2 ho

/-- Records which are equal to another by all keys are so to each other. -/
theorem order_of_ties (ha : ties keys c a = true) (hb : ties keys c b = true) : order keys a b = .ok .eq :=
  order_trans (order_swap (ties_iff.1 ha)) (ties_iff.1 hb) nofun nofun

/-! ## Arranged records -/

/-- Records in the order of some keys: all of them, none of which goes down, with equal ones as they have been. -/
structure Arranged (keys : List Config.SortKey) (records result : List Record) : Prop where
  perm : result.Perm records
  ordered : result.Pairwise (Precedes keys)
  stable : ∀ r, result.filter (ties keys r) = records.filter (ties keys r)

/-- **There is only one way to arrange records.** -/
theorem Arranged.unique : ∀ {records l m : List Record}, Arranged keys records l → Arranged keys records m → l = m
  | records, [], m, hl, hm => (hm.perm.trans hl.perm.symm).eq_nil.symm
  | records, a :: l, [], hl, hm => (hl.perm.trans hm.perm.symm).eq_nil
  | records, a :: l, b :: m, hl, hm => by
    obtain ⟨hafirst, hl'⟩ := List.pairwise_cons.1 hl.ordered
    obtain ⟨hbfirst, hm'⟩ := List.pairwise_cons.1 hm.ordered
    have hperm := hl.perm.trans hm.perm.symm
    have hstable : ∀ r, (a :: l).filter (ties keys r) = (b :: m).filter (ties keys r) := fun r =>
      (hl.stable r).trans (hm.stable r).symm
    obtain rfl : a = b := by
      rcases List.mem_cons.1 (hperm.mem_iff.1 List.mem_cons_self) with hab | ha
      · exact hab
      rcases List.mem_cons.1 (hperm.mem_iff.2 List.mem_cons_self) with hba | hb
      · exact hba.symm
      -- both may be the first, so they are the first of the equal ones
      have hties := ties_of_precedes (hafirst b hb) (hbfirst a ha)
      have hself : ties keys a a = true :=
        ties_iff.2 (order_trans (ties_iff.1 hties) (order_swap (ties_iff.1 hties)) nofun nofun)
      have hheads := hstable a
      rw [List.filter_cons_of_pos hself, List.filter_cons_of_pos hties] at hheads
      exact (List.cons.inj hheads).1
    have hrest : Arranged keys m l := by
      refine ⟨hperm.cons_inv, hl', fun r => ?_⟩
      have h := hstable r
      simp only [List.filter_cons] at h
      split at h
      · exact (List.cons.inj h).2
      · exact h
    rw [hrest.unique ⟨.refl m, hm', fun _ => rfl⟩]

/-! ## Inserting -/

section

variable {r last : Record} {before greatestFirst inserted : List Record}

theorem of_insert_cons (h : insert keys r (last :: before) = .ok inserted) :
    (order keys r last = .ok .lt ∧ ∃ more, insert keys r before = .ok more ∧ inserted = last :: more) ∨
      ∃ o, order keys r last = .ok o ∧ o ≠ .lt ∧ inserted = r :: last :: before := by
  obtain ⟨o, ho, h⟩ := ok_of_bind h
  cases o with
  | lt =>
    obtain ⟨more, hmore, h⟩ := ok_of_bind h
    cases h
    exact .inl ⟨ho, more, hmore, rfl⟩
  | eq =>
    cases h
    exact .inr ⟨_, ho, nofun, rfl⟩
  | gt =>
    cases h
    exact .inr ⟨_, ho, nofun, rfl⟩

/-- An insertion fails only if there is a record which cannot be compared. -/
theorem of_insert_error : ∀ {greatestFirst : List Record} {fault : Fault},
    insert keys r greatestFirst = .error fault → ∃ a ∈ greatestFirst, ¬Comparable keys a r
  | last :: before, fault, h => by
    cases ho : order keys r last with
    | error other =>
      refine ⟨last, List.mem_cons_self, fun hcomparable => ?_⟩
      obtain ⟨o, hsome⟩ := hcomparable.symm
      cases ho.symm.trans hsome
    | ok o =>
      unfold insert at h
      rw [ho] at h
      cases o with
      | eq => cases h
      | gt => cases h
      | lt =>
        cases hmore : insert keys r before with
        | ok more =>
          rw [hmore] at h
          cases h
        | error other =>
          obtain ⟨a, ha, hnot⟩ := of_insert_error hmore
          exact ⟨a, List.mem_cons_of_mem _ ha, hnot⟩

theorem perm_insert : ∀ {greatestFirst inserted : List Record}, insert keys r greatestFirst = .ok inserted →
    inserted.Perm (r :: greatestFirst)
  | [], _, h => by
    cases h
    exact .refl _
  | last :: before, _, h => by
    obtain ⟨-, more, hmore, rfl⟩ | ⟨-, -, -, rfl⟩ := of_insert_cons h
    · exact ((perm_insert hmore).cons last).trans (.swap r last before)
    · exact .refl _

/-- A record that may stand behind the greatest one may stand behind all. -/
theorem precedes_of_not_lt {o : Ordering} (hordered : (last :: before).Pairwise fun a b => Precedes keys b a)
    (ho : order keys r last = .ok o) (hne : o ≠ .lt) : ∀ a ∈ last :: before, Precedes keys a r := by
  have hlast : Precedes keys last r := ⟨_, order_swap ho, by cases o <;> first | contradiction | decide⟩
  rw [List.forall_mem_cons]
  exact ⟨hlast, fun a ha => ((List.pairwise_cons.1 hordered).1 a ha).trans hlast⟩

/-- **An insertion that succeeds has noticed all records which cannot be compared.** -/
theorem comparable_insert : ∀ {greatestFirst inserted : List Record},
    greatestFirst.Pairwise (fun a b => Precedes keys b a) → insert keys r greatestFirst = .ok inserted →
    ∀ a ∈ greatestFirst, Comparable keys a r
  | [], _, _, _ => by simp
  | last :: before, _, hordered, h => by
    obtain ⟨ho, more, hmore, rfl⟩ | ⟨o, ho, hne, rfl⟩ := of_insert_cons h
    · rw [List.forall_mem_cons]
      exact ⟨⟨_, order_swap ho⟩, comparable_insert (List.pairwise_cons.1 hordered).2 hmore⟩
    · intro a ha
      obtain ⟨p, hp, -⟩ := precedes_of_not_lt hordered ho hne a ha
      exact ⟨p, hp⟩

theorem ordered_insert : ∀ {greatestFirst inserted : List Record},
    greatestFirst.Pairwise (fun a b => Precedes keys b a) → insert keys r greatestFirst = .ok inserted →
    inserted.Pairwise fun a b => Precedes keys b a
  | [], _, _, h => by
    cases h
    exact List.pairwise_singleton _ _
  | last :: before, _, hordered, h => by
    obtain ⟨ho, more, hmore, rfl⟩ | ⟨o, ho, hne, rfl⟩ := of_insert_cons h
    · obtain ⟨hfirst, hrest⟩ := List.pairwise_cons.1 hordered
      refine List.pairwise_cons.2 ⟨fun a ha => ?_, ordered_insert hrest hmore⟩
      rcases List.mem_cons.1 ((perm_insert hmore).mem_iff.1 ha) with rfl | ha
      · exact ⟨_, ho, nofun⟩
      · exact hfirst a ha
    · exact List.pairwise_cons.2 ⟨precedes_of_not_lt hordered ho hne, hordered⟩

/-- Of equal records, the new one is the greatest. -/
theorem stable_insert (x : Record) : ∀ {greatestFirst inserted : List Record},
    insert keys r greatestFirst = .ok inserted →
    inserted.filter (ties keys x) = (r :: greatestFirst).filter (ties keys x)
  | [], _, h => by
    cases h
    rfl
  | last :: before, _, h => by
    obtain ⟨ho, more, hmore, rfl⟩ | ⟨-, -, -, rfl⟩ := of_insert_cons h
    · rw [List.filter_cons, stable_insert x hmore, List.filter_cons, List.filter_cons, List.filter_cons]
      split
      · rename_i hlast
        have hother : ¬ties keys x r = true := fun hr => nomatch (order_of_ties hr hlast).symm.trans ho
        rw [if_neg hother, if_neg hother]
      · rfl
    · rfl

end

/-! ## Sorting -/

/-- One more record is inserted into arranged ones. -/
theorem arranged_insert {records greatestFirst inserted : List Record} {r : Record}
    (harranged : Arranged keys records greatestFirst.reverse) (h : insert keys r greatestFirst = .ok inserted) :
    Arranged keys (records ++ [r]) inserted.reverse ∧ ∀ a ∈ records, Comparable keys a r := by
  have hordered := List.pairwise_reverse.1 harranged.ordered
  refine ⟨⟨?_, List.pairwise_reverse.2 (ordered_insert hordered h), fun x => ?_⟩, fun a ha => ?_⟩
  · have hinserted := (List.reverse_perm inserted).trans (perm_insert h)
    have hbefore := (List.reverse_perm greatestFirst).symm.trans harranged.perm
    exact hinserted.trans ((hbefore.cons r).trans (List.perm_append_singleton r records).symm)
  · rw [List.filter_reverse, stable_insert x h, ← List.filter_reverse, List.reverse_cons, List.filter_append,
      List.filter_append, harranged.stable x]
  · refine comparable_insert hordered h a ?_
    exact List.mem_reverse.1 (harranged.perm.mem_iff.2 ha)

/-- **Inserting records one after the other** arranges them, or fails if two of them cannot be compared. -/
theorem foldlM_insert : ∀ {rest records greatestFirst : List Record}, Arranged keys records greatestFirst.reverse →
    records.Pairwise (Comparable keys) →
    match rest.foldlM (fun greatestFirst r => insert keys r greatestFirst) greatestFirst with
    | .ok inserted => Arranged keys (records ++ rest) inserted.reverse ∧ (records ++ rest).Pairwise (Comparable keys)
    | .error _ => ¬(records ++ rest).Pairwise (Comparable keys)
  | [], records, greatestFirst, harranged, hcomparable => by
    rw [List.append_nil]
    exact ⟨harranged, hcomparable⟩
  | r :: rest, records, greatestFirst, harranged, hcomparable => by
    rw [List.foldlM_cons, List.append_cons]
    cases hinsert : insert keys r greatestFirst with
    | error fault =>
      obtain ⟨a, ha, hnot⟩ := of_insert_error hinsert
      have ha := harranged.perm.mem_iff.1 (List.mem_reverse.2 ha)
      intro hall
      exact hnot ((List.pairwise_append.1 (List.pairwise_append.1 hall).1).2.2 a ha r (List.mem_singleton_self r))
    | ok inserted =>
      obtain ⟨harranged, hnew⟩ := arranged_insert harranged hinsert
      refine foldlM_insert harranged (List.pairwise_append.2 ⟨hcomparable, List.pairwise_singleton _ _, ?_⟩)
      intro a ha b hb
      exact List.mem_singleton.1 hb ▸ hnew a ha

/-- Sorting arranges records, or fails if two of them cannot be compared. -/
theorem sorted_cases (keys : List Config.SortKey) (records : List Record) :
    (∃ result, sorted keys records = .ok result ∧ Arranged keys records result ∧ records.Pairwise (Comparable keys)) ∨
      (∃ fault, sorted keys records = .error fault) ∧ ¬records.Pairwise (Comparable keys) := by
  unfold sorted
  cases keys with
  | nil =>
    have hall (a b : Record) : order [] a b = .ok .eq := rfl
    refine .inl ⟨records, rfl, ⟨.refl _, ?_, fun _ => rfl⟩, ?_⟩
    · exact List.pairwise_of_forall fun a b => ⟨_, hall a b, nofun⟩
    · exact List.pairwise_of_forall fun a b => ⟨_, hall a b⟩
  | cons key keys =>
    have h := @foldlM_insert (key :: keys) records [] [] ⟨.refl _, .nil, fun _ => rfl⟩ .nil
    rw [List.nil_append] at h
    simp only [List.isEmpty_cons, Bool.false_eq_true, if_false]
    cases hfold : records.foldlM (fun greatestFirst r => insert (key :: keys) r greatestFirst) [] with
    | ok inserted =>
      rw [hfold] at h
      exact .inl ⟨inserted.reverse, rfl, h⟩
    | error fault =>
      rw [hfold] at h
      exact .inr ⟨⟨_, rfl⟩, h⟩

/-! ## The stable order -/

/-- Whether a record need not stand behind another. -/
def mayPrecede (keys : List Config.SortKey) (a b : Record) : Bool := !order keys a b matches .ok .gt

/-- The records in the order of the sort keys, equal ones as they are, unless two of them cannot be compared. -/
def stableOrder (keys : List Config.SortKey) (records : List Record) : Option (List Record) :=
  if records.Pairwise (fun a b => (order keys a b).isOk) then some (records.mergeSort (mayPrecede keys)) else none

section

variable {records : List Record}

theorem mayPrecede_iff (h : Comparable keys a b) : mayPrecede keys a b = true ↔ Precedes keys a b := by
  obtain ⟨o, ho⟩ := h
  unfold mayPrecede Precedes
  rw [ho]
  cases o <;> simp

theorem mayPrecede_total (keys : List Config.SortKey) (a b : Record) :
    (mayPrecede keys a b || mayPrecede keys b a) = true := by
  unfold mayPrecede
  cases hab : order keys a b with
  | error fault => rfl
  | ok o =>
    rw [order_swap hab]
    cases o <;> rfl

theorem mayPrecede_self (keys : List Config.SortKey) (a : Record) : mayPrecede keys a a = true := by
  simpa using mayPrecede_total keys a a

/-- Among records any two of which can be compared, the order is transitive. -/
theorem mayPrecede_trans (hall : records.Pairwise (Comparable keys)) (ha : a ∈ records) (hb : b ∈ records)
    (hc : c ∈ records) (hab : mayPrecede keys a b = true) (hbc : mayPrecede keys b c = true) :
    mayPrecede keys a c = true := by
  have hcomparable := hall.forall
  by_cases hsame : a = b
  · exact hsame ▸ hbc
  by_cases hsame' : b = c
  · exact hsame' ▸ hab
  by_cases hends : a = c
  · exact hends ▸ mayPrecede_self keys a
  exact (mayPrecede_iff (hcomparable ha hc hends)).2 (((mayPrecede_iff (hcomparable ha hb hsame)).1 hab).trans
    ((mayPrecede_iff (hcomparable hb hc hsame')).1 hbc))

/-- The stable sort of the library arranges records any two of which can be compared. -/
theorem arranged_mergeSort (hall : records.Pairwise (Comparable keys)) :
    Arranged keys records (records.mergeSort (mayPrecede keys)) := by
  have hperm := List.mergeSort_perm records (mayPrecede keys)
  -- among the records of the list the order is total and transitive
  let within (a b : { r // r ∈ records }) : Bool := mayPrecede keys a.1 b.1
  have htrans (a b c : { r // r ∈ records }) : within a b → within b c → within a c :=
    mayPrecede_trans hall a.2 b.2 c.2
  have htotal (a b : { r // r ∈ records }) : within a b || within b a := mayPrecede_total keys a.1 b.1
  have hmap : (records.attach.mergeSort within).map Subtype.val = records.mergeSort (mayPrecede keys) := by
    have h := @List.map_mergeSort _ _ within (mayPrecede keys) Subtype.val records.attach fun _ _ _ _ => rfl
    rwa [List.attach_map_subtype_val] at h
  have hordered : (records.mergeSort (mayPrecede keys)).Pairwise fun a b => mayPrecede keys a b = true := by
    rw [← hmap, List.pairwise_map]
    exact List.pairwise_mergeSort htrans htotal records.attach
  refine ⟨hperm, ?_, fun r => ?_⟩
  · have hcomparable := (hperm.pairwise_iff Comparable.symm).2 hall
    exact (hordered.and hcomparable).imp fun h => (mayPrecede_iff h.2).1 h.1
  · -- the records which are equal to `r` are in order, so that they keep it
    have hequal : (records.attach.filter fun a => ties keys r a.1).Pairwise fun a b => within a b = true := by
      refine List.pairwise_filter.2 (List.pairwise_of_forall fun a b ha hb => ?_)
      have hties := order_of_ties ha hb
      exact (mayPrecede_iff ⟨_, hties⟩).2 ⟨_, hties, nofun⟩
    have hfilter : (records.attach.filter fun a => ties keys r a.1).map Subtype.val =
        records.filter (ties keys r) := by
      conv_rhs => rw [← List.attach_map_subtype_val records, List.filter_map]
      rfl
    have hkept : (records.filter (ties keys r)).Sublist (records.mergeSort (mayPrecede keys)) := by
      rw [← hmap, ← hfilter]
      exact (List.sublist_mergeSort htrans htotal hequal List.filter_sublist).map _
    have hsublist := hkept.filter (ties keys r)
    rw [List.filter_eq_self.2 fun a ha => (List.mem_filter.1 ha).2] at hsublist
    exact (hsublist.eq_of_length (hperm.filter _).length_eq.symm).symm

/-- **Sorting gives the records in their stable order**, and fails if two of them cannot be compared. -/
theorem toOption_sorted (keys : List Config.SortKey) (records : List Record) :
    (sorted keys records).toOption = stableOrder keys records := by
  have hiff : records.Pairwise (fun a b => (order keys a b).isOk) ↔ records.Pairwise (Comparable keys) := by
    refine List.Pairwise.iff fun a b => ?_
    unfold Comparable
    cases order keys a b <;> simp [Except.isOk, Except.toBool]
  unfold stableOrder
  obtain ⟨result, hsorted, harranged, hall⟩ | ⟨⟨fault, hsorted⟩, hnot⟩ := sorted_cases keys records
  · rw [hsorted, if_pos (hiff.2 hall), harranged.unique (arranged_mergeSort hall)]
    rfl
  · rw [hsorted, if_neg (mt hiff.1 hnot)]
    rfl

end

/-! ## Faults -/

theorem raises_order : ∀ (keys : List Config.SortKey) (a b : Record),
    Raises (fun cause => cause.isOfOrder = true) (order keys a b)
  | [], _, _ => .ok _
  | key :: keys, a, b => by
    unfold order
    simp only
    split
    · exact .error rfl
    · exact raises_order keys a b
    · exact .ok _

theorem raises_insert (keys : List Config.SortKey) (r : Record) : ∀ greatestFirst : List Record,
    Raises (fun cause => cause.isOfOrder = true) (insert keys r greatestFirst)
  | [] => .ok _
  | last :: before => by
    unfold insert
    refine (raises_order keys r last).bind fun ordering => ?_
    split
    · exact (raises_insert keys r before).bind fun _ => .ok _
    · exact .ok _

/-- **Records which are not sorted cannot be compared, or their order contradicts itself.** -/
theorem raises_sorted (keys : List Config.SortKey) (records : List Record) :
    Raises (fun cause => cause.isOfOrder = true) (sorted keys records) := by
  unfold sorted
  split
  · exact .ok _
  · split
    · exact .ok _
    · rename_i fault hinsert
      refine .error ?_
      cases htrial : Sorting.fault? (order keys) records with
      | none => exact Raises.foldlM (fun greatestFirst r => raises_insert keys r greatestFirst) records [] fault hinsert
      | some found =>
        obtain rfl | ⟨a, b, horder⟩ := Sorting.of_fault? htrial
        · rfl
        · exact raises_order keys a b found horder

end Relation

end RecordServer
