import RecordServer.Proofs.Relation.Sorted
import RecordServer.Proofs.Sorting.Settled

/-!
# Rearranged records

`Relation.Rearranged` says that records have changed places without a change of the order of those which are equal by
all keys. Blocks of records may be swapped if all of the second one are below those of the first one
(`Rearranged.swap`), and that is all that sorting does. What has been rearranged and is in order is arranged.

`Relation.Compared` is what is known of two records after a comparison.
-/

namespace RecordServer.Relation

variable {keys : List Config.SortKey} {a b c : Record} {records others middle result more : List Record}

/-! ## Strict order -/

/-- A record has to stand in front of another. -/
def Below (keys : List Config.SortKey) (a b : Record) : Prop := order keys a b = .ok .lt

theorem Below.precedes (h : Below keys a b) : Precedes keys a b := ⟨_, h, nofun⟩

theorem Precedes.comparable (h : Precedes keys a b) : Comparable keys a b :=
  let ⟨o, ho, _⟩ := h
  ⟨o, ho⟩

theorem Below.comparable (h : Below keys a b) : Comparable keys a b := ⟨_, h⟩

theorem Below.of_precedes (h : Below keys a b) (h' : Precedes keys b c) : Below keys a c := by
  obtain ⟨o, ho, hup⟩ := h'
  exact order_trans h ho nofun hup

theorem Precedes.below (h : Precedes keys a b) (h' : Below keys b c) : Below keys a c := by
  obtain ⟨o, ho, hup⟩ := h
  have hac := order_trans ho h' hup nofun
  cases o with
  | gt => exact absurd rfl hup
  | lt => exact hac
  | eq => exact hac

theorem Below.trans (h : Below keys a b) (h' : Below keys b c) : Below keys a c := h.of_precedes h'.precedes

/-- No record is below one that may stand in front of it. -/
theorem Precedes.not_below (h : Precedes keys a b) : ¬Below keys b a := fun hbelow => by
  obtain ⟨o, ho, hup⟩ := h
  exact hup (Except.ok.inj (ho.symm.trans (order_swap hbelow)))

theorem Below.irrefl : ¬Below keys a a := fun h => h.precedes.not_below h

instance : Trans (Precedes keys) (Precedes keys) (Precedes keys) := ⟨Precedes.trans⟩

instance : Trans (Below keys) (Below keys) (Below keys) := ⟨Below.trans⟩

/-! ## Comparisons -/

/-- The comparison of two records in a trial. -/
abbrev compared (keys : List Config.SortKey) : Record → Record → Sorting.Trial Bool := Sorting.Trial.less (order keys)

/-- What a comparison tells: the first record is below the second one, or the second one may stand in front. -/
def Compared (keys : List Config.SortKey) (a b : Record) (isBelow : Bool) : Prop :=
  if isBelow then Below keys a b else Precedes keys b a

theorem Compared.below (h : Compared keys a b true) : Below keys a b := h

theorem Compared.precedes (h : Compared keys a b false) : Precedes keys b a := h

theorem Compared.comparable : ∀ {isBelow : Bool}, Compared keys a b isBelow → Comparable keys a b
  | true, h => h.below.comparable
  | false, h => h.precedes.comparable.symm

/-- A comparison finds nothing if the records can be compared. -/
theorem settles_compared : Sorting.Trial.Settles True (Comparable keys a b) (Compared keys a b) (compared keys a b) := by
  refine Sorting.Trial.settles_less.imp id (fun _ => id) fun isBelow _ h => ?_
  obtain ⟨o, ho, rfl⟩ := h
  cases o with
  | lt => exact ho
  | eq => exact ⟨_, order_swap ho, nofun⟩
  | gt => exact ⟨_, order_swap ho, nofun⟩

/-! ## Rearranging -/

/-- All of the records, with equal ones as they have been. -/
structure Rearranged (keys : List Config.SortKey) (records result : List Record) : Prop where
  perm : result.Perm records
  stable : ∀ r, result.filter (ties keys r) = records.filter (ties keys r)

theorem Arranged.rearranged (h : Arranged keys records result) : Rearranged keys records result := ⟨h.perm, h.stable⟩

theorem Rearranged.arranged (h : Rearranged keys records result) (hordered : result.Pairwise (Precedes keys)) :
    Arranged keys records result := ⟨h.perm, hordered, h.stable⟩

theorem Rearranged.refl (records : List Record) : Rearranged keys records records := ⟨.refl _, fun _ => rfl⟩

theorem Rearranged.trans (h : Rearranged keys records middle) (h' : Rearranged keys middle result) :
    Rearranged keys records result :=
  ⟨h'.perm.trans h.perm, fun r => (h'.stable r).trans (h.stable r)⟩

theorem Rearranged.append (h : Rearranged keys records result) (h' : Rearranged keys others more) :
    Rearranged keys (records ++ others) (result ++ more) :=
  ⟨h.perm.append h'.perm, fun r => by rw [List.filter_append, List.filter_append, h.stable, h'.stable]⟩

theorem Rearranged.cons (a : Record) (h : Rearranged keys records result) :
    Rearranged keys (a :: records) (a :: result) :=
  (Rearranged.refl [a]).append h

/-- **Blocks change places** if all records of the second one are below those of the first one. -/
theorem Rearranged.swap (records others : List Record) (h : ∀ a ∈ records, ∀ b ∈ others, Below keys b a) :
    Rearranged keys (records ++ others) (others ++ records) := by
  refine ⟨List.perm_append_comm, fun r => ?_⟩
  rw [List.filter_append, List.filter_append]
  -- of equal records, there are some in one of the blocks at most
  by_cases hnone : records.filter (ties keys r) = []
  · rw [hnone, List.append_nil, List.nil_append]
  · obtain ⟨a, ha⟩ := List.exists_mem_of_ne_nil _ hnone
    obtain ⟨ha, hatie⟩ := List.mem_filter.1 ha
    have hothers : others.filter (ties keys r) = [] := by
      refine List.filter_eq_nil_iff.2 fun b hb hbtie => ?_
      exact nomatch (h a ha b hb).symm.trans (order_of_ties hbtie hatie)
    rw [hothers, List.append_nil, List.nil_append]

/-- Records each of which is below the one before are turned round. -/
theorem Rearranged.reverse : ∀ {records : List Record}, records.Pairwise (fun a b => Below keys b a) →
    Rearranged keys records records.reverse
  | [], _ => .refl []
  | a :: records, h => by
    obtain ⟨hfirst, hrest⟩ := List.pairwise_cons.1 h
    rw [List.reverse_cons]
    exact (Rearranged.swap [a] records (by simpa using hfirst)).trans ((Rearranged.reverse hrest).append (.refl [a]))

/-- Records are divided by a test, if those which satisfy it are below the others. -/
theorem Rearranged.divide (test : Record → Bool) : ∀ {records : List Record},
    (∀ a ∈ records, test a = true → ∀ b ∈ records, test b = false → Below keys a b) →
    Rearranged keys records (records.filter test ++ records.filter fun a => !test a)
  | [], _ => .refl []
  | a :: records, h => by
    have hrest : Rearranged keys records (records.filter test ++ records.filter fun a => !test a) :=
      Rearranged.divide test fun a ha hpass b hb => h a (List.mem_cons_of_mem _ ha) hpass b (List.mem_cons_of_mem _ hb)
    cases htest : test a with
    | true =>
      rw [List.filter_cons_of_pos htest, List.filter_cons_of_neg (by simp [htest])]
      exact hrest.cons a
    | false =>
      rw [List.filter_cons_of_neg (by simp [htest]), List.filter_cons_of_pos (by simp [htest])]
      refine (hrest.cons a).trans ?_
      have hpassed : ∀ b ∈ records.filter test, Below keys b a := fun b hb =>
        let ⟨hb, hpass⟩ := List.mem_filter.1 hb
        h b (List.mem_cons_of_mem _ hb) hpass a List.mem_cons_self htest
      simpa using (Rearranged.swap [a] _ (by simpa using hpassed)).append (.refl _)

/-! ## Arranging -/

theorem Arranged.nil : Arranged keys [] [] := (Rearranged.refl []).arranged .nil

theorem Arranged.singleton (a : Record) : Arranged keys [a] [a] := (Rearranged.refl [a]).arranged (List.pairwise_singleton _ _)

/-- What is in order is arranged. -/
theorem Arranged.self (h : records.Pairwise (Precedes keys)) : Arranged keys records records :=
  (Rearranged.refl records).arranged h

/-- What is rearranged before it is arranged is arranged. -/
theorem Arranged.of_rearranged (h' : Arranged keys middle result) (h : Rearranged keys records middle) :
    Arranged keys records result :=
  (h.trans h'.rearranged).arranged h'.ordered

/-- Records can be arranged only if any two of them can be compared. -/
theorem Arranged.comparable (h : Arranged keys records result) : records.Pairwise (Comparable keys) :=
  (h.perm.pairwise_iff Comparable.symm).1 (h.ordered.imp Precedes.comparable)

/-- Arranged blocks, where no record of the second one has to stand in front of one of the first one. -/
theorem Arranged.append (h : Arranged keys records result) (h' : Arranged keys others more)
    (hup : ∀ a ∈ records, ∀ b ∈ others, Precedes keys a b) : Arranged keys (records ++ others) (result ++ more) :=
  (h.rearranged.append h'.rearranged).arranged (List.pairwise_append.2 ⟨h.ordered, h'.ordered, fun a ha b hb =>
    hup a (h.perm.mem_iff.1 ha) b (h'.perm.mem_iff.1 hb)⟩)

end RecordServer.Relation
