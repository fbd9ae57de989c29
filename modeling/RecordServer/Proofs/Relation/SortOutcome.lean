import RecordServer.Proofs.Relation.Pivots

/-!
# What sorting comes to

Records are sorted exactly if there are no two among them which are incomparable, and so says the trial: it finds
something if there are, though it does not compare all records with each other (`Relation.sorted_outcome`). What it finds
is a comparison that has failed, or in lists of more than twenty records that the order contradicts itself, which ends the
program instead of the request.
-/

namespace RecordServer

/-- Only values of one scalar kind have an order. -/
theorem Value.order?_eq_none_iff {x y : Value} :
    x.order? y = none ↔ x.kind ≠ y.kind ∨ x.kind = .list ∨ x.kind = .map := by
  cases x <;> cases y <;> simp [order?, kind]

namespace Sorting.Trial

variable {α β γ : Type}

/-- A part of a trial which does not notice that the order contradicts itself. -/
def Unsuspecting (a : Trial β) : Prop := ∀ found, (a.run found).2.isContradictory = found.isContradictory

theorem unsuspecting_pure (b : β) : Unsuspecting (pure b) := fun _ => rfl

theorem Unsuspecting.bind {a : Trial β} {f : β → Trial γ} (ha : Unsuspecting a) (hf : ∀ b, Unsuspecting (f b)) :
    Unsuspecting (a >>= f) := fun found => (hf _ _).trans (ha found)

theorem unsuspecting_less (order : α → α → Except Fault Ordering) (a b : α) : Unsuspecting (less order a b) := by
  unfold less
  split
  · exact unsuspecting_pure _
  · exact fun _ => rfl

/-- Insertions compare elements, and that is all. -/
theorem unsuspecting_insert (order : α → α → Except Fault Ordering) (x : α) : ∀ greatestFirst : List α,
    Unsuspecting (insert (less order) x greatestFirst)
  | [] => unsuspecting_pure _
  | last :: before => by
    refine (unsuspecting_less order x last).bind fun isLess => ?_
    split
    · exact (unsuspecting_insert order x before).bind fun _ => unsuspecting_pure _
    · exact unsuspecting_pure _

theorem unsuspecting_foldlM_insert (order : α → α → Except Fault Ordering) : ∀ rest greatestFirst : List α,
    Unsuspecting (rest.foldlM (fun greatestFirst x => insert (less order) x greatestFirst) greatestFirst)
  | [], _ => unsuspecting_pure _
  | x :: rest, greatestFirst => by
    rw [List.foldlM_cons]
    exact (unsuspecting_insert order x greatestFirst).bind (unsuspecting_foldlM_insert order rest)

/-- Twenty elements are too few to notice a contradiction. -/
theorem unsuspecting_sort (order : α → α → Except Fault Ordering) {list : List α} (h : list.length ≤ 20) :
    Unsuspecting (sort (less order) list) := by
  unfold sort
  rw [if_pos h]
  exact (unsuspecting_foldlM_insert order list _).bind fun _ => unsuspecting_pure _

end Sorting.Trial

namespace Relation

open Sorting (Trial Findings)

variable {key : Config.SortKey} {keys : List Config.SortKey} {a b : Record}

/-! ## Incomparable records -/

/-- Two records are equal by some keys, and have values of different kinds, or lists or maps, for the next one. -/
def Incomparable (keys : List Config.SortKey) (a b : Record) : Prop :=
  ∃ before key after, keys = before ++ key :: after ∧ (∀ k ∈ before, keyOrder k a b = some .eq) ∧
    ((sortValue key a).kind ≠ (sortValue key b).kind ∨ (sortValue key a).kind = .list ∨ (sortValue key a).kind = .map)

theorem keyOrder_eq_none_iff : keyOrder key a b = none ↔
    (sortValue key a).kind ≠ (sortValue key b).kind ∨ (sortValue key a).kind = .list ∨
      (sortValue key a).kind = .map := by
  rw [keyOrder_eq, Option.map_eq_none_iff, Value.order?_eq_none_iff]

theorem incomparable_cons : Incomparable (key :: keys) a b ↔
    keyOrder key a b = none ∨ keyOrder key a b = some .eq ∧ Incomparable keys a b := by
  constructor
  · rintro ⟨before, k, after, hkeys, hbefore, hnone⟩
    rw [← keyOrder_eq_none_iff] at hnone
    rcases List.append_eq_cons_iff.1 hkeys.symm with ⟨rfl, hkeys⟩ | ⟨before, rfl, hkeys⟩
    · exact .inl ((List.cons.inj hkeys).1 ▸ hnone)
    · rw [List.forall_mem_cons] at hbefore
      exact .inr ⟨hbefore.1, before, k, after, (List.cons.inj hkeys).2, hbefore.2, keyOrder_eq_none_iff.1 hnone⟩
  · rintro (hnone | ⟨heq, before, k, after, rfl, hbefore, hnone⟩)
    · exact ⟨[], key, keys, rfl, nofun, keyOrder_eq_none_iff.1 hnone⟩
    · exact ⟨key :: before, k, after, rfl, List.forall_mem_cons.2 ⟨heq, hbefore⟩, hnone⟩

/-- Records can be compared unless they are incomparable by the keys. -/
theorem comparable_iff : ∀ {keys : List Config.SortKey}, Comparable keys a b ↔ ¬Incomparable keys a b
  | [] => by
    refine iff_of_true ⟨.eq, rfl⟩ ?_
    rintro ⟨before, key, after, hkeys, -⟩
    simp at hkeys
  | key :: keys => by
    have htail : Comparable keys a b ↔ ¬Incomparable keys a b := comparable_iff
    unfold Comparable at htail ⊢
    rw [incomparable_cons]
    simp only [order_cons]
    cases horder : keyOrder key a b with
    | none => simp
    | some q =>
      cases q with
      | eq => simpa using htail
      | lt => simp
      | gt => simp

/-! ## Lexicographic order -/

/-- The order of two records by the first key that tells them apart, in the direction of the key. -/
def lexOrder (keys : List Config.SortKey) (a b : Record) : Ordering :=
  keys.foldr (fun key later => ((keyOrder key a b).getD .eq).then later) .eq

/-- The order of records is lexicographic. -/
theorem order_eq_lexOrder : ∀ {keys : List Config.SortKey}, Comparable keys a b →
    order keys a b = .ok (lexOrder keys a b)
  | [], _ => rfl
  | key :: keys, ⟨o, ho⟩ => by
    obtain ⟨q, hq, h⟩ := order_cons.1 ho
    refine order_cons.2 ⟨q, hq, ?_⟩
    unfold lexOrder
    rw [List.foldr_cons, hq]
    cases q with
    | eq => exact order_eq_lexOrder ⟨o, h⟩
    | lt => rfl
    | gt => rfl

theorem Precedes.lexOrder (h : Precedes keys a b) : lexOrder keys a b ≠ .gt := by
  obtain ⟨o, ho, hup⟩ := h
  obtain rfl : o = Relation.lexOrder keys a b := Except.ok.inj (ho.symm.trans (order_eq_lexOrder ⟨o, ho⟩))
  exact hup

/-! ## Outcomes -/

/-- The fault of a comparison names values which have no order. -/
theorem of_order_error : ∀ {keys : List Config.SortKey} {fault : Fault}, order keys a b = .error fault →
    ∃ k l : Kind, (k ≠ l ∨ k = .list ∨ k = .map) ∧ fault = Cause.incomparable k l
  | [], _, h => nomatch h
  | key :: keys, fault, h => by
    unfold order at h
    simp only at h
    split at h
    · rename_i hnone
      exact ⟨_, _, Value.order?_eq_none_iff.1 hnone, (Except.error.inj h).symm⟩
    · exact of_order_error h
    · cases h

/-- The run of a trial from its beginning. -/
def trial (keys : List Config.SortKey) (records : List Record) : List Record × Findings :=
  (Trial.sort (compared keys) records).run .clean

/-- What a trial finds is a comparison that has failed, or a contradiction in a long list. -/
theorem fault?_of_found {records : List Record} (h : (trial keys records).2 ≠ .clean) :
    ∃ fault, Sorting.fault? (order keys) records = some fault ∧
      ((∃ k l : Kind, (k ≠ l ∨ k = .list ∨ k = .map) ∧ fault = Cause.incomparable k l) ∨
        fault = Cause.contradictoryOrder ∧ 20 < records.length) := by
  show ∃ fault, (if (trial keys records).2.isContradictory then some (Cause.contradictoryOrder : Fault)
    else (trial keys records).2.fault) = some fault ∧ _
  cases hcontradictory : (trial keys records).2.isContradictory with
  | true =>
    refine ⟨_, rfl, .inr ⟨rfl, Nat.lt_of_not_le fun hshort => ?_⟩⟩
    exact nomatch hcontradictory.symm.trans (Trial.unsuspecting_sort (order keys) hshort .clean)
  | false =>
    cases hfirst : (trial keys records).2.fault with
    | none => exact absurd (congrArg₂ Findings.mk hfirst hcontradictory) h
    | some fault =>
      have hless (a b : Record) : Trial.Keeps (fun fault => ∃ k l : Kind, (k ≠ l ∨ k = .list ∨ k = .map) ∧
          fault = Cause.incomparable k l) (compared keys a b) :=
        Trial.keeps_less (fun _ _ _ => of_order_error) a b
      exact ⟨fault, rfl, .inl (Trial.keeps_sort hless records .clean nofun fault hfirst)⟩

/-- **Sorting fails exactly if two of the records are incomparable**, which the trial finds whatever it compares; then a
comparison has failed, or the order contradicts itself, for which there have to be more than twenty records. Otherwise
the trial finds nothing, and both come to the records in the lexicographic order of the keys, equal ones as they are. -/
theorem sorted_outcome (keys : List Config.SortKey) (records : List Record) :
    (records.Pairwise (fun a b => ¬Incomparable keys a b) ∧ ∃ result, sorted keys records = .ok result ∧
      trial keys records = (result, .clean) ∧ Arranged keys records result ∧
        result.Pairwise fun a b => lexOrder keys a b ≠ .gt) ∨
    ¬records.Pairwise (fun a b => ¬Incomparable keys a b) ∧ (trial keys records).2 ≠ .clean ∧
      ∃ fault, sorted keys records = .error fault ∧
        ((∃ k l : Kind, (k ≠ l ∨ k = .list ∨ k = .map) ∧ fault = Cause.incomparable k l) ∨
          fault = Cause.contradictoryOrder ∧ 20 < records.length) := by
  have hiff : records.Pairwise (fun a b => ¬Incomparable keys a b) ↔ records.Pairwise (Comparable keys) :=
    List.Pairwise.iff fun a b => comparable_iff.symm
  have htrial : Trial.Settles True _ (Arranged keys records) _ := settles_sort records
  rw [hiff]
  obtain ⟨result, hsorted, harranged, hall⟩ | ⟨⟨fault, hsorted⟩, hnot⟩ := sorted_cases keys records
  · have hclean : (trial keys records).2 = .clean := htrial.complete trivial hall
    have hresult : (trial keys records).1 = result := (htrial.sound trivial hclean).unique harranged
    exact .inl ⟨hall, result, hsorted, Prod.ext hresult hclean, harranged, harranged.ordered.imp Precedes.lexOrder⟩
  · have hfound : (trial keys records).2 ≠ .clean := fun hclean => hnot (htrial.sound trivial hclean).comparable
    refine .inr ⟨hnot, hfound, fault, hsorted, ?_⟩
    obtain ⟨found, hfault, hcases⟩ := fault?_of_found hfound
    unfold sorted at hsorted
    simp only [hfault, Option.getD_some] at hsorted
    split at hsorted
    · cases hsorted
    · split at hsorted
      · cases hsorted
      · cases hsorted
        exact hcases

/-- One record without a value is enough for a contradiction, if there are twenty others. -/
example : (sorted [⟨"v", true⟩] (⟨[("v", .integer 3)]⟩ :: List.replicate 9 ⟨[("v", .integer 2)]⟩ ++
    .empty :: List.replicate 10 ⟨[("v", .integer 1)]⟩) matches .error ⟨[], .contradictoryOrder⟩) = true := by
  decide +kernel

end Relation

end RecordServer
