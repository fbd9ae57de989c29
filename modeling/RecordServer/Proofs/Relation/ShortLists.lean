import RecordServer.Proofs.Relation.Rearranged

/-!
# Trials of short lists

A short list is sorted by insertions, and by a merger of both halves from their ends. The trial finds nothing exactly
if any two of the records can be compared, and then its result is arranged (`Relation.settles_sortShort`).

A merger from both ends takes the lower half of all records in one direction and the higher half in the other one. It is
not known to the one what the other one takes, but both compare enough: if the two took a record both, it would be above
and below one that neither has taken (`Merging.ends_meet`).
-/

namespace RecordServer.Relation

open Sorting (Trial Findings)
open Sorting.Trial (Settles settles_pure settles_less settles_unless)

variable {keys : List Config.SortKey} {a b c d r : Record} {records rest greatestFirst : List Record}

/-! ## Insertions -/

/-- An insertion in a trial finds nothing if it succeeds. -/
theorem settles_insert : ∀ greatestFirst : List Record,
    Settles True (∀ a ∈ greatestFirst, Comparable keys a r) (fun inserted => insert keys r greatestFirst = .ok inserted)
      (Trial.insert (compared keys) r greatestFirst)
  | [] => settles_pure fun _ => rfl
  | last :: before => by
    have hless : Settles True (∀ a ∈ last :: before, Comparable keys a r)
        (fun isLess => ∃ o, order keys r last = .ok o ∧ isLess = decide (o = .lt)) (compared keys r last) :=
      settles_less.imp id (fun _ hfine => (hfine last List.mem_cons_self).symm) fun _ _ h => h
    refine hless.bind fun isLess => .ite ?_ ?_
    · refine Settles.bind (Q := fun more => insert keys r before = .ok more ∧ order keys r last = .ok .lt) ?_ ?_
      · refine (settles_insert before).imp (fun _ => trivial)
          (fun _ hfine a ha => hfine a (List.mem_cons_of_mem _ ha)) fun more hpre hmore => ⟨hmore, ?_⟩
        obtain ⟨⟨o, ho, hisLess⟩, hlt⟩ := hpre
        rw [hlt] at hisLess
        rw [ho, of_decide_eq_true hisLess.symm]
      · refine fun more => settles_pure fun h => ?_
        obtain ⟨hmore, ho⟩ := h
        unfold insert
        rw [ho, hmore]
        rfl
    · refine settles_pure fun h => ?_
      obtain ⟨⟨o, ho, hisLess⟩, hlt⟩ := h
      unfold insert
      rw [ho]
      cases o with
      | lt => exact absurd hisLess hlt
      | eq => rfl
      | gt => rfl

theorem settles_foldlM_insert : ∀ (rest records greatestFirst : List Record),
    Settles (Arranged keys records greatestFirst.reverse) ((records ++ rest).Pairwise (Comparable keys))
      (fun result => Arranged keys (records ++ rest) result.reverse)
      (rest.foldlM (fun greatestFirst r => Trial.insert (compared keys) r greatestFirst) greatestFirst)
  | [], records, greatestFirst => settles_pure fun h => by rwa [List.append_nil]
  | r :: rest, records, greatestFirst => by
    rw [List.foldlM_cons]
    refine Settles.bind (Q := fun inserted => Arranged keys (records ++ [r]) inserted.reverse) ?_ fun inserted => ?_
    · refine (settles_insert greatestFirst).imp (fun _ => trivial) (fun hpre hfine a ha => ?_)
        fun inserted hpre hinserted => (arranged_insert hpre hinserted).1
      have ha := hpre.perm.mem_iff.1 (List.mem_reverse.2 ha)
      exact (List.pairwise_append.1 hfine).2.2 a ha r List.mem_cons_self
    · rw [List.append_cons records r rest]
      exact settles_foldlM_insert rest (records ++ [r]) inserted

/-- Inserting the rest of a list, where its beginning has been arranged, arranges all. -/
theorem settles_insertAll (records sorted rest : List Record) :
    Settles (∃ beginning, records = beginning ++ rest ∧ Arranged keys beginning sorted)
      (records.Pairwise (Comparable keys)) (Arranged keys records) (Trial.insertAll (compared keys) sorted rest) := by
  refine Settles.exists (F := fun _ => records.Pairwise (Comparable keys)) (fun beginning => ?_) fun _ _ => id
  refine Settles.bind (Q := fun result => Arranged keys records result.reverse) ?_ fun result => settles_pure id
  refine (settles_foldlM_insert rest beginning sorted.reverse).imp (fun ⟨_, h⟩ => ?_) (fun ⟨heq, _⟩ hfine => heq ▸ hfine)
    fun result ⟨heq, _⟩ h => heq ▸ h
  rwa [List.reverse_reverse]

/-! ## Four records -/

/-- Records of which each may stand in front of the next one. -/
theorem ordered_four (hab : Precedes keys a b) (hbc : Precedes keys b c) (hcd : Precedes keys c d) :
    [a, b, c, d].Pairwise (Precedes keys) :=
  List.isChain_iff_pairwise.1 (by simp [hab, hbc, hcd])

/-- Two pairs which are in order are merged by the comparisons of their first and last records, and by one more. -/
theorem settles_mergePairs : Settles (Precedes keys a b ∧ Precedes keys c d) ([a, b, c, d].Pairwise (Comparable keys))
    (Arranged keys [a, b, c, d]) (do
      let isBelow ← compared keys c a
      let isAbove ← compared keys d b
      let min := if isBelow then c else a
      let max := if isAbove then b else d
      let left := if isBelow then a else if isAbove then c else b
      let right := if isAbove then d else if isBelow then b else c
      if ← compared keys right left then return [min, right, left, max] else return [min, left, right, max]) := by
  refine (settles_compared.keep (fun _ => trivial) fun _ hfine => ?_).bind fun isBelow => ?_
  · simp only [List.pairwise_cons] at hfine
    exact (hfine.1 c (by simp)).symm
  refine (settles_compared.keep (fun _ => trivial) fun _ hfine => ?_).bind fun isAbove => ?_
  · simp only [List.pairwise_cons] at hfine
    exact (hfine.2.1 d (by simp)).symm
  cases isBelow with
  | false =>
    cases isAbove with
    | false =>
      refine (settles_compared.keep (fun _ => trivial) fun _ hfine => ?_).bind fun isLess => ?_
      · simp only [List.pairwise_cons] at hfine
        exact (hfine.2.1 c (by simp)).symm
      cases isLess with
      | true =>
        refine settles_pure fun ⟨⟨⟨⟨hab, hcd⟩, hca⟩, hdb⟩, hcb⟩ => ?_
        have hswap : Rearranged keys [b, c] [c, b] := Rearranged.swap [b] [c] (by simpa using hcb.below)
        exact ((hswap.append (.refl [d])).cons a).arranged (ordered_four hca.precedes hcb.below.precedes hdb.precedes)
      | false =>
        exact settles_pure fun ⟨⟨⟨⟨hab, hcd⟩, _⟩, _⟩, hcb⟩ => .self (ordered_four hab hcb.precedes hcd)
    | true =>
      refine (settles_compared.keep (fun _ => trivial) fun _ hfine => ?_).bind fun isLess => ?_
      · simp only [List.pairwise_cons] at hfine
        exact (hfine.2.2.1 d (by simp)).symm
      cases isLess with
      | true => exact settles_pure fun ⟨⟨⟨⟨_, hcd⟩, _⟩, _⟩, hdc⟩ => absurd hdc.below hcd.not_below
      | false =>
        refine settles_pure fun ⟨⟨⟨⟨_, hcd⟩, hca⟩, hdb⟩, _⟩ => ?_
        have hswap : Rearranged keys [b, c, d] [c, d, b] :=
          Rearranged.swap [b] [c, d] (by simpa using ⟨hcd.below hdb.below, hdb.below⟩)
        exact (hswap.cons a).arranged (ordered_four hca.precedes hcd hdb.below.precedes)
  | true =>
    cases isAbove with
    | false =>
      refine (settles_compared.keep (fun _ => trivial) fun _ hfine => ?_).bind fun isLess => ?_
      · simp only [List.pairwise_cons] at hfine
        exact (hfine.1 b (by simp)).symm
      cases isLess with
      | true => exact settles_pure fun ⟨⟨⟨⟨hab, _⟩, _⟩, _⟩, hba⟩ => absurd hba.below hab.not_below
      | false =>
        refine settles_pure fun ⟨⟨⟨⟨hab, _⟩, hca⟩, hdb⟩, _⟩ => ?_
        have hswap : Rearranged keys [a, b, c] [c, a, b] :=
          Rearranged.swap [a, b] [c] (by simpa using ⟨hca.below, hca.below.of_precedes hab⟩)
        exact (hswap.append (.refl [d])).arranged (ordered_four hca.below.precedes hab hdb.precedes)
    | true =>
      refine (settles_compared.keep (fun _ => trivial) fun _ hfine => ?_).bind fun isLess => ?_
      · simp only [List.pairwise_cons] at hfine
        exact (hfine.1 d (by simp)).symm
      cases isLess with
      | true =>
        refine settles_pure fun ⟨⟨⟨⟨hab, hcd⟩, hca⟩, hdb⟩, hda⟩ => ?_
        have hswap : Rearranged keys [a, b, c, d] [c, d, a, b] := by
          refine Rearranged.swap [a, b] [c, d] ?_
          simpa using ⟨⟨hca.below, hda.below⟩, hca.below.of_precedes hab, hdb.below⟩
        exact hswap.arranged (ordered_four hcd hda.below.precedes hab)
      | false =>
        refine settles_pure fun ⟨⟨⟨⟨hab, hcd⟩, hca⟩, hdb⟩, hda⟩ => ?_
        have hfirst : Rearranged keys [a, b, c, d] [c, a, b, d] :=
          (Rearranged.swap [a, b] [c]
            (by simpa using ⟨hca.below, hca.below.of_precedes hab⟩)).append (.refl [d])
        have hlast : Rearranged keys [c, a, b, d] [c, a, d, b] :=
          (Rearranged.refl [c, a]).append (Rearranged.swap [b] [d] (by simpa using hdb.below))
        exact (hfirst.trans hlast).arranged (ordered_four hca.below.precedes hda.precedes hdb.below.precedes)

/-- Two records are put in order by a comparison. -/
theorem rearranged_pair {isBelow : Bool} (h : Compared keys b a isBelow) :
    Rearranged keys [a, b] (if isBelow then [b, a] else [a, b]) ∧
      if isBelow then Precedes keys b a else Precedes keys a b := by
  cases isBelow with
  | true => exact ⟨Rearranged.swap [a] [b] (by simpa using h.below), h.below.precedes⟩
  | false => exact ⟨.refl _, h.precedes⟩

/-- Five comparisons arrange four records. -/
theorem settles_sortFour : Settles True ([a, b, c, d].Pairwise (Comparable keys)) (Arranged keys [a, b, c, d])
    (Trial.sortFour (compared keys) a b c d) := by
  -- what four records come to is the same for both orders of each pair
  have hmerge {a' b' c' d' : Record} {known : Prop} (h : known → Rearranged keys [a, b] [a', b'] ∧ Precedes keys a' b')
      (h' : known → Rearranged keys [c, d] [c', d'] ∧ Precedes keys c' d') :
      Settles known ([a, b, c, d].Pairwise (Comparable keys)) (Arranged keys [a, b, c, d]) _ :=
    (settles_mergePairs (a := a') (b := b') (c := c') (d := d')).imp (fun hknown => ⟨(h hknown).2, (h' hknown).2⟩)
      (fun hknown => (((h hknown).1.append (h' hknown).1).perm.pairwise_iff Comparable.symm).2)
      fun _ hknown harranged => harranged.of_rearranged ((h hknown).1.append (h' hknown).1)
  unfold Trial.sortFour
  refine (settles_compared.keep (K := True) id fun _ hfine => ?_).bind fun isLower => ?_
  · simp only [List.pairwise_cons] at hfine
    exact (hfine.1 b (by simp)).symm
  cases isLower with
  | true =>
    refine (settles_compared.keep (fun _ => trivial) fun _ hfine => ?_).bind fun isHigher => ?_
    · simp only [List.pairwise_cons] at hfine
      exact (hfine.2.2.1 d (by simp)).symm
    cases isHigher with
    | true => exact hmerge (fun h => rearranged_pair h.1.2) fun h => rearranged_pair h.2
    | false => exact hmerge (fun h => rearranged_pair h.1.2) fun h => rearranged_pair h.2
  | false =>
    refine (settles_compared.keep (fun _ => trivial) fun _ hfine => ?_).bind fun isHigher => ?_
    · simp only [List.pairwise_cons] at hfine
      exact (hfine.2.2.1 d (by simp)).symm
    cases isHigher with
    | true => exact hmerge (fun h => rearranged_pair h.1.2) fun h => rearranged_pair h.2
    | false => exact hmerge (fun h => rearranged_pair h.1.2) fun h => rearranged_pair h.2

/-- The beginning of a list is arranged, and the rest is left. -/
theorem settles_sortBeginning (isLong : Bool) (records : List Record) :
    Settles True (records.Pairwise (Comparable keys))
      (fun parts => ∃ beginning, records = beginning ++ parts.2 ∧ Arranged keys beginning parts.1)
      (Trial.sortBeginning (compared keys) isLong records) := by
  have hshort : ∀ records : List Record, ∃ beginning, records = beginning ++ records.drop 1 ∧
      Arranged keys beginning (records.take 1)
    | [] => ⟨[], rfl, .nil⟩
    | a :: rest => ⟨[a], rfl, .singleton a⟩
  match records with
  | [] | [_] | [_, _] | [_, _, _] => exact settles_pure fun _ => hshort _
  | a :: b :: c :: d :: rest =>
    refine .ite ?_ (settles_pure fun _ => hshort (a :: b :: c :: d :: rest))
    refine Settles.bind (Q := Arranged keys [a, b, c, d]) ?_ fun sorted => settles_pure fun h => ⟨_, rfl, h⟩
    exact settles_sortFour.imp (fun _ => trivial)
      (fun _ hfine => hfine.sublist (List.sublist_append_left [a, b, c, d] rest)) fun _ _ => id

/-! ## Mergers from both ends -/

/-- What has been taken from the beginnings of two runs, and is not left: it is arranged, and stands in front of what
is left. -/
structure TakenFirst (keys : List Config.SortKey) (low high lowLeft highLeft first : List Record) : Prop where
  arranged : Arranged keys (low ++ high) first.reverse
  below : ∀ a ∈ lowLeft, ∀ b ∈ high, Below keys b a
  precedes : ∀ a ∈ low, ∀ b ∈ highLeft, Precedes keys a b

/-- What has been taken from the ends of two runs, and is not left: it is arranged, and stands behind what is left. -/
structure TakenLast (keys : List Config.SortKey) (lowLeft highLeft low high last : List Record) : Prop where
  arranged : Arranged keys (low ++ high) last
  below : ∀ a ∈ low, ∀ b ∈ highLeft, Below keys b a
  precedes : ∀ a ∈ lowLeft, ∀ b ∈ high, Precedes keys a b

section

variable {low high lowLeft highLeft first last lower higher : List Record} {taken : Nat}

theorem TakenFirst.takeHigh (h : TakenFirst keys low high (a :: lowLeft) (b :: highLeft) first)
    (hlow : (low ++ a :: lowLeft).Pairwise (Precedes keys)) (hhigh : (high ++ b :: highLeft).Pairwise (Precedes keys))
    (hba : Below keys b a) : TakenFirst keys low (high ++ [b]) (a :: lowLeft) highLeft (b :: first) where
  arranged := by
    rw [← List.append_assoc, List.reverse_cons]
    refine h.arranged.append (.singleton _) fun x hx y hy => ?_
    obtain rfl := List.mem_singleton.1 hy
    rcases List.mem_append.1 hx with hx | hx
    · exact h.precedes x hx y List.mem_cons_self
    · exact (List.pairwise_append.1 hhigh).2.2 x hx y List.mem_cons_self
  below x hx y hy := by
    rcases List.mem_append.1 hy with hy | hy
    · exact h.below x hx y hy
    · obtain rfl := List.mem_singleton.1 hy
      rcases List.mem_cons.1 hx with rfl | hx
      · exact hba
      · exact hba.of_precedes ((List.pairwise_cons.1 (List.pairwise_append.1 hlow).2.1).1 x hx)
  precedes x hx y hy := h.precedes x hx y (List.mem_cons_of_mem _ hy)

theorem TakenFirst.takeLow (h : TakenFirst keys low high (a :: lowLeft) (b :: highLeft) first)
    (hlow : (low ++ a :: lowLeft).Pairwise (Precedes keys)) (hhigh : (high ++ b :: highLeft).Pairwise (Precedes keys))
    (hab : Precedes keys a b) : TakenFirst keys (low ++ [a]) high lowLeft (b :: highLeft) (a :: first) where
  arranged := by
    have hswap : Rearranged keys (low ++ [a] ++ high) (low ++ high ++ [a]) := by
      rw [List.append_assoc, List.append_assoc]
      refine (Rearranged.refl low).append (Rearranged.swap _ _ fun x hx y hy => ?_)
      exact List.mem_singleton.1 hx ▸ h.below a List.mem_cons_self y hy
    rw [List.reverse_cons]
    refine (h.arranged.append (.singleton _) fun x hx y hy => ?_).of_rearranged hswap
    obtain rfl := List.mem_singleton.1 hy
    rcases List.mem_append.1 hx with hx | hx
    · exact (List.pairwise_append.1 hlow).2.2 x hx y List.mem_cons_self
    · exact (h.below y List.mem_cons_self x hx).precedes
  below x hx y hy := h.below x (List.mem_cons_of_mem _ hx) y hy
  precedes x hx y hy := by
    rcases List.mem_append.1 hx with hx | hx
    · exact h.precedes x hx y hy
    · obtain rfl := List.mem_singleton.1 hx
      rcases List.mem_cons.1 hy with rfl | hy
      · exact hab
      · exact hab.trans ((List.pairwise_cons.1 (List.pairwise_append.1 hhigh).2.1).1 y hy)

theorem TakenLast.takeLow (h : TakenLast keys (lowLeft ++ [c]) (highLeft ++ [d]) low high last)
    (hlow : (lowLeft ++ [c] ++ low).Pairwise (Precedes keys)) (hhigh : (highLeft ++ [d] ++ high).Pairwise (Precedes keys))
    (hdc : Below keys d c) : TakenLast keys lowLeft (highLeft ++ [d]) (c :: low) high (c :: last) where
  arranged := by
    refine (Arranged.singleton c).append h.arranged fun x hx y hy => ?_
    obtain rfl := List.mem_singleton.1 hx
    rcases List.mem_append.1 hy with hy | hy
    · exact (List.pairwise_append.1 hlow).2.2 x (by simp) y hy
    · exact h.precedes x (by simp) y hy
  below x hx y hy := by
    rcases List.mem_cons.1 hx with rfl | hx
    · rcases List.mem_append.1 hy with hy | hy
      · exact ((List.pairwise_append.1 (List.pairwise_append.1 hhigh).1).2.2 y hy d (by simp)).below hdc
      · exact List.mem_singleton.1 hy ▸ hdc
    · exact h.below x hx y hy
  precedes x hx y hy := h.precedes x (List.mem_append_left _ hx) y hy

theorem TakenLast.takeHigh (h : TakenLast keys (lowLeft ++ [c]) (highLeft ++ [d]) low high last)
    (hlow : (lowLeft ++ [c] ++ low).Pairwise (Precedes keys)) (hhigh : (highLeft ++ [d] ++ high).Pairwise (Precedes keys))
    (hcd : Precedes keys c d) : TakenLast keys (lowLeft ++ [c]) highLeft low (d :: high) (d :: last) where
  arranged := by
    have hbelow : ∀ a ∈ low, Below keys d a := fun a ha => h.below a ha d (by simp)
    have hswap : Rearranged keys (low ++ d :: high) (d :: (low ++ high)) := by
      have h := Rearranged.swap _ [d] fun x hx y hy => List.mem_singleton.1 hy ▸ hbelow x hx
      simpa using h.append (.refl high)
    refine ((Arranged.singleton d).append h.arranged fun x hx y hy => ?_).of_rearranged hswap
    obtain rfl := List.mem_singleton.1 hx
    rcases List.mem_append.1 hy with hy | hy
    · exact (hbelow y hy).precedes
    · exact (List.pairwise_append.1 hhigh).2.2 x (by simp) y hy
  below x hx y hy := h.below x hx y (List.mem_append_left _ hy)
  precedes x hx y hy := by
    rcases List.mem_cons.1 hy with rfl | hy
    · rcases List.mem_append.1 hx with hx | hx
      · exact ((List.pairwise_append.1 (List.pairwise_append.1 hlow).1).2.2 x hx c (by simp)).trans hcd
      · exact List.mem_singleton.1 hx ▸ hcd
    · exact h.precedes x hx y hy

/-- So many records have been taken from the beginnings of two runs; given is what is left of them, where the lower run
goes on with the higher one. -/
def Front (keys : List Config.SortKey) (lower higher : List Record) (taken : Nat) (onLow onHigh first : List Record) :
    Prop :=
  ∃ low high lowLeft highLeft, lower = low ++ lowLeft ∧ higher = high ++ highLeft ∧ onLow = lowLeft ++ higher ∧
    onHigh = highLeft ∧ low.length + high.length = taken ∧ TakenFirst keys low high lowLeft highLeft first

/-- So many records have been taken from the ends of two runs; given is what is left of them, the last first, where the
higher run goes on with the lower one. -/
def Back (keys : List Config.SortKey) (lower higher : List Record) (taken : Nat) (onLow onHigh last : List Record) :
    Prop :=
  ∃ lowLeft highLeft low high, lower = lowLeft ++ low ∧ higher = highLeft ++ high ∧ onLow = lowLeft.reverse ∧
    onHigh = highLeft.reverse ++ lower.reverse ∧ low.length + high.length = taken ∧
    TakenLast keys lowLeft highLeft low high last

theorem Front.start : Front keys lower higher 0 (lower ++ higher) higher [] :=
  ⟨[], [], lower, higher, rfl, rfl, rfl, rfl, rfl, ⟨.nil, by simp, by simp⟩⟩

theorem Back.start : Back keys lower higher 0 lower.reverse (lower ++ higher).reverse [] :=
  ⟨lower, higher, [], [], by simp, by simp, rfl, List.reverse_append, rfl, ⟨.nil, by simp, by simp⟩⟩

variable {onLow onHigh : List Record}

/-- While fewer records have been taken than are in a run, some are left of both. -/
theorem Front.open (h : Front keys lower higher taken onLow onHigh first) (hlower : taken < lower.length)
    (hhigher : taken < higher.length) : ∃ low high a lowLeft b highLeft, lower = low ++ a :: lowLeft ∧
      higher = high ++ b :: highLeft ∧ onLow = a :: (lowLeft ++ higher) ∧ onHigh = b :: highLeft ∧
      low.length + high.length = taken ∧ TakenFirst keys low high (a :: lowLeft) (b :: highLeft) first := by
  obtain ⟨low, high, lowLeft, highLeft, rfl, rfl, rfl, rfl, hlength, htaken⟩ := h
  cases lowLeft with
  | nil => simp at hlower; omega
  | cons a lowLeft =>
    cases onHigh with
    | nil => simp at hhigher; omega
    | cons b highLeft => exact ⟨low, high, a, lowLeft, b, highLeft, rfl, rfl, rfl, rfl, hlength, htaken⟩

theorem Back.open (h : Back keys lower higher taken onLow onHigh last) (hlower : taken < lower.length)
    (hhigher : taken < higher.length) : ∃ lowLeft c highLeft d low high, lower = lowLeft ++ [c] ++ low ∧
      higher = highLeft ++ [d] ++ high ∧ onLow = c :: lowLeft.reverse ∧ onHigh = d :: (highLeft.reverse ++ lower.reverse) ∧
      low.length + high.length = taken ∧ TakenLast keys (lowLeft ++ [c]) (highLeft ++ [d]) low high last := by
  obtain ⟨lowLeft, highLeft, low, high, rfl, rfl, rfl, rfl, hlength, htaken⟩ := h
  rcases List.eq_nil_or_concat' lowLeft with rfl | ⟨lowLeft, c, rfl⟩
  · simp at hlower; omega
  rcases List.eq_nil_or_concat' highLeft with rfl | ⟨highLeft, d, rfl⟩
  · simp at hhigher; omega
  exact ⟨lowLeft, c, highLeft, d, low, high, rfl, rfl, by simp, by simp, hlength, htaken⟩

/-- The lesser one of the first records is taken, and the lower one of equal ones. -/
theorem Front.step {takesHigh : Bool} (h : Front keys lower higher taken (a :: onLow) (b :: onHigh) first)
    (hlow : lower.Pairwise (Precedes keys)) (hhigh : higher.Pairwise (Precedes keys)) (hlower : taken < lower.length)
    (hhigher : taken < higher.length) (hcompared : Compared keys b a takesHigh) :
    Front keys lower higher (taken + 1) (if takesHigh then a :: onLow else onLow)
      (if takesHigh then onHigh else b :: onHigh) ((if takesHigh then b else a) :: first) := by
  obtain ⟨low, high, a, lowLeft, b, highLeft, rfl, rfl, honLow, honHigh, hlength, htaken⟩ := h.open hlower hhigher
  cases honLow
  cases honHigh
  cases takesHigh with
  | true =>
    exact ⟨low, high ++ [b], a :: lowLeft, onHigh, rfl, by simp, rfl, rfl, by simp; omega,
      htaken.takeHigh hlow hhigh hcompared.below⟩
  | false =>
    exact ⟨low ++ [a], high, lowLeft, b :: onHigh, by simp, rfl, rfl, rfl, by simp; omega,
      htaken.takeLow hlow hhigh hcompared.precedes⟩

/-- The greater one of the last records is taken, and the higher one of equal ones. -/
theorem Back.step {takesLow : Bool} (h : Back keys lower higher taken (c :: onLow) (d :: onHigh) last)
    (hlow : lower.Pairwise (Precedes keys)) (hhigh : higher.Pairwise (Precedes keys)) (hlower : taken < lower.length)
    (hhigher : taken < higher.length) (hcompared : Compared keys d c takesLow) :
    Back keys lower higher (taken + 1) (if takesLow then onLow else c :: onLow)
      (if takesLow then d :: onHigh else onHigh) ((if takesLow then c else d) :: last) := by
  obtain ⟨lowLeft, c, highLeft, d, low, high, rfl, rfl, honLow, honHigh, hlength, htaken⟩ := h.open hlower hhigher
  cases honLow
  cases honHigh
  cases takesLow with
  | true =>
    exact ⟨lowLeft, highLeft ++ [d], c :: low, high, by simp, rfl, rfl, by simp, by simp; omega,
      htaken.takeLow hlow hhigh hcompared.below⟩
  | false =>
    exact ⟨lowLeft ++ [c], highLeft, low, d :: high, rfl, by simp, by simp, rfl, by simp; omega,
      htaken.takeHigh hlow hhigh hcompared.precedes⟩

/-- Two runs which are in order, from each side of which so many records have been taken. -/
structure Merging (keys : List Config.SortKey) (lower higher : List Record) (taken : Nat) (ends : Trial.Ends Record)
    (first last : List Record) : Prop where
  lower_ordered : lower.Pairwise (Precedes keys)
  higher_ordered : higher.Pairwise (Precedes keys)
  length_le : lower.length ≤ higher.length
  front : Front keys lower higher taken ends.low ends.high first
  back : Back keys lower higher taken ends.lowEnd ends.highEnd last

variable {ends : Trial.Ends Record}

/-- While fewer records have been taken than are in the lower run, some are left on each side. -/
theorem Merging.open (h : Merging keys lower higher taken ends first last) (htaken : taken < lower.length) :
    (∃ a ∈ lower, ∃ b ∈ higher, ∃ low high, ends.low = a :: low ∧ ends.high = b :: high) ∧
      ∃ c ∈ lower, ∃ d ∈ higher, ∃ lowEnd highEnd, ends.lowEnd = c :: lowEnd ∧ ends.highEnd = d :: highEnd := by
  have hhigher := htaken.trans_le h.length_le
  obtain ⟨low, high, a, lowLeft, b, highLeft, hlow, hhigh, honLow, honHigh, -⟩ := h.front.open htaken hhigher
  obtain ⟨lowLeft', c, highLeft', d, low', high', hlow', hhigh', honLow', honHigh', -⟩ := h.back.open htaken hhigher
  exact ⟨⟨a, by simp [hlow], b, by simp [hhigh], _, _, honLow, honHigh⟩,
    c, by simp [hlow'], d, by simp [hhigh'], _, _, honLow', honHigh'⟩

/-- So many steps of a merger from both ends. -/
theorem settles_mergeSteps : ∀ (steps taken : Nat) (ends : Trial.Ends Record) (first last : List Record),
    Settles (Merging keys lower higher taken ends first last ∧ taken + steps = lower.length)
      ((lower ++ higher).Pairwise (Comparable keys))
      (fun merged => Merging keys lower higher lower.length merged.1 merged.2.1 merged.2.2)
      (Trial.mergeSteps (compared keys) steps ends first last)
  | 0, taken, ends, first, last => settles_pure fun ⟨h, htaken⟩ => by
    rw [Nat.add_zero] at htaken
    exact htaken ▸ h
  | steps + 1, taken, ⟨[], _, _, _⟩, _, _ => settles_pure fun ⟨h, htaken⟩ => by
    obtain ⟨⟨_, _, _, _, _, _, hlow, -⟩, -⟩ := h.open (by omega)
    cases hlow
  | steps + 1, taken, ⟨_ :: _, [], _, _⟩, _, _ => settles_pure fun ⟨h, htaken⟩ => by
    obtain ⟨⟨_, _, _, _, _, _, -, hhigh⟩, -⟩ := h.open (by omega)
    cases hhigh
  | steps + 1, taken, ⟨_ :: _, _ :: _, [], _⟩, _, _ => settles_pure fun ⟨h, htaken⟩ => by
    obtain ⟨-, _, _, _, _, _, _, hlow, -⟩ := h.open (by omega)
    cases hlow
  | steps + 1, taken, ⟨_ :: _, _ :: _, _ :: _, []⟩, _, _ => settles_pure fun ⟨h, htaken⟩ => by
    obtain ⟨-, _, _, _, _, _, _, -, hhigh⟩ := h.open (by omega)
    cases hhigh
  | steps + 1, taken, ⟨a :: low, b :: high, c :: lowEnd, d :: highEnd⟩, first, last => by
    refine Settles.bind (settles_compared.keep (fun _ => trivial) ?_) fun takesHigh => ?_
    · intro ⟨h, htaken⟩ hfine
      obtain ⟨⟨a, ha, b, hb, _, _, hlow, hhigh⟩, -⟩ := h.open (by omega)
      cases hlow
      cases hhigh
      exact ((List.pairwise_append.1 hfine).2.2 a ha b hb).symm
    refine Settles.bind (settles_compared.keep (fun _ => trivial) ?_) fun takesLowEnd => ?_
    · intro ⟨⟨h, htaken⟩, _⟩ hfine
      obtain ⟨-, c, hc, d, hd, _, _, hlow, hhigh⟩ := h.open (by omega)
      cases hlow
      cases hhigh
      exact ((List.pairwise_append.1 hfine).2.2 c hc d hd).symm
    · refine (settles_mergeSteps steps (taken + 1) _ _ _).imp (fun ⟨⟨⟨h, htaken⟩, hba⟩, hdc⟩ => ?_) (fun _ => id)
        fun _ _ => id
      have hlower : taken < lower.length := by omega
      have hhigher := hlower.trans_le h.length_le
      refine ⟨⟨h.lower_ordered, h.higher_ordered, h.length_le, ?_, ?_⟩, by omega⟩
      · exact Front.step h.front h.lower_ordered h.higher_ordered hlower hhigher hba
      · exact Back.step h.back h.lower_ordered h.higher_ordered hlower hhigher hdc

/-- What has been taken from both sides of a list at most, if it leaves something. -/
theorem exists_left {front left left' back : List Record} (h : front ++ left = left' ++ back)
    (hlength : front.length + back.length < (front ++ left).length) : ∃ r, r ∈ left ∧ r ∈ left' := by
  rcases List.append_eq_append_iff.1 h with ⟨middle, rfl, rfl⟩ | ⟨both, rfl, rfl⟩
  · cases middle with
    | nil => simp at hlength
    | cons r middle => exact ⟨r, by simp, by simp⟩
  · simp only [List.length_append] at hlength
    omega

/-- A list of which something has been taken from both sides, unless a record has been taken twice. -/
theorem meet_or_overlap {front left left' back : List Record} (h : front ++ left = left' ++ back) :
    (∃ middle, left' = front ++ middle ∧ left = middle ++ back) ∨
      (front ++ left).length < front.length + back.length ∧ ∃ r, r ∈ front ∧ r ∈ back := by
  rcases List.append_eq_append_iff.1 h with hmeet | ⟨both, rfl, rfl⟩
  · exact .inl hmeet
  · cases both with
    | nil => exact .inl ⟨[], by simp⟩
    | cons r both =>
      refine .inr ⟨?_, r, by simp, by simp⟩
      simp only [List.length_append, List.length_cons]
      omega

/-- **Both ends of a merger meet.** A record that has been taken from both sides would be above and below one of the
other run that has been left on both sides. -/
theorem Merging.ends_meet (h : Merging keys lower higher lower.length ends first last) :
    ∃ low middle low' high middle' high', lower = low ++ middle ++ low' ∧ higher = high ++ middle' ++ high' ∧
      ends.low = middle ++ low' ++ higher ∧ ends.high = middle' ++ high' ∧ ends.lowEnd = (low ++ middle).reverse ∧
      ends.highEnd = (high ++ middle').reverse ++ lower.reverse ∧ low.length + high.length = lower.length ∧
      low'.length + high'.length = lower.length ∧ TakenFirst keys low high (middle ++ low') (middle' ++ high') first ∧
      TakenLast keys (low ++ middle) (high ++ middle') low' high' last := by
  have hle := h.length_le
  obtain ⟨low, high, lowLeft, highLeft, hlow, hhigh, honLow, honHigh, hfirst, htakenFirst⟩ := h.front
  obtain ⟨lowLeft', highLeft', low', high', hlow', hhigh', honLow', honHigh', hlast, htakenLast⟩ := h.back
  have hlower := congrArg List.length hlow
  have hhigher := congrArg List.length hhigh
  rcases meet_or_overlap (hlow.symm.trans hlow') with ⟨middle, rfl, rfl⟩ | ⟨hoverlap, a, ha, ha'⟩
  · rcases meet_or_overlap (hhigh.symm.trans hhigh') with ⟨middle', rfl, rfl⟩ | ⟨hoverlap, b, hb, hb'⟩
    · exact ⟨low, middle, low', high, middle', high', hlow', hhigh', honLow, honHigh, honLow', honHigh', hfirst, hlast,
        htakenFirst, htakenLast⟩
    · obtain ⟨a, ha, ha'⟩ := exists_left (hlow.symm.trans hlow') (by simp at hoverlap hlower hhigher ⊢; omega)
      exact absurd (htakenFirst.below a ha b hb) (htakenLast.precedes a ha' b hb').not_below
  · obtain ⟨b, hb, hb'⟩ := exists_left (hhigh.symm.trans hhigh') (by simp at hoverlap hlower hhigher ⊢; omega)
    exact absurd (htakenLast.below a ha' b hb') (htakenFirst.precedes a ha b hb).not_below

/-- What has been taken first, at most one record between, and what has been taken last, is all in order. -/
theorem arranged_ends {low middle low' high middle' high' : List Record}
    (hlow : (low ++ middle ++ low').Pairwise (Precedes keys)) (hhigh : (high ++ middle' ++ high').Pairwise (Precedes keys))
    (hfirst : TakenFirst keys low high (middle ++ low') (middle' ++ high') first)
    (hlast : TakenLast keys (low ++ middle) (high ++ middle') low' high' last)
    (hmiddle : (middle ++ middle').length ≤ 1) :
    Arranged keys ((low ++ middle ++ low') ++ (high ++ middle' ++ high')) (first.reverse ++ (middle ++ middle') ++ last) := by
  have hbetween : Arranged keys (middle ++ middle') (middle ++ middle') := by
    refine .self ?_
    match middle ++ middle', hmiddle with
    | [], _ => exact .nil
    | [_], _ => exact List.pairwise_singleton _ _
  -- the higher records that have been taken first move in front of the lower ones, those between likewise
  have hmove : Rearranged keys ((low ++ middle ++ low') ++ (high ++ middle' ++ high'))
      ((low ++ high) ++ (middle ++ middle') ++ (low' ++ high')) := by
    have hhighFirst : Rearranged keys ((middle ++ low') ++ high) (high ++ (middle ++ low')) := .swap _ _ hfirst.below
    have hmiddleFirst : Rearranged keys (low' ++ middle') (middle' ++ low') :=
      .swap _ _ fun a ha b hb => hlast.below a ha b (List.mem_append_right _ hb)
    have h := ((Rearranged.refl low).append hhighFirst).append (.refl (middle' ++ high'))
    have h' := ((Rearranged.refl (low ++ high ++ middle)).append hmiddleFirst).append (.refl high')
    simp only [List.append_assoc] at h h' ⊢
    exact h.trans h'
  refine Arranged.of_rearranged ?_ hmove
  have hlow := List.pairwise_append.1 hlow
  have hhigh := List.pairwise_append.1 hhigh
  refine (hfirst.arranged.append hbetween fun a ha b hb => ?_).append hlast.arranged fun a ha b hb => ?_
  · rcases List.mem_append.1 ha with ha | ha <;> rcases List.mem_append.1 hb with hb | hb
    · exact (List.pairwise_append.1 hlow.1).2.2 a ha b hb
    · exact hfirst.precedes a ha b (List.mem_append_left _ hb)
    · exact (hfirst.below b (List.mem_append_left _ hb) a ha).precedes
    · exact (List.pairwise_append.1 hhigh.1).2.2 a ha b hb
  · have hside : a ∈ low ++ middle ∨ a ∈ high ++ middle' := by
      simp only [List.mem_append] at ha ⊢
      tauto
    rcases hside with ha | ha <;> rcases List.mem_append.1 hb with hb | hb
    · exact hlow.2.2 a ha b hb
    · exact hlast.precedes a ha b hb
    · exact (hlast.below b hb a ha).precedes
    · exact hhigh.2.2 a ha b hb

/-- What is between both ends of a merger, and whether these meet, as it is seen from the number of the records. -/
theorem Merging.between (h : Merging keys lower higher lower.length ends first last)
    (hle : higher.length ≤ lower.length + 1) :
    let all := lower ++ higher
    let lowIsLeft := all.length - ends.low.length < ends.lowEnd.length
    let (low, high, middle) :=
      if all.length % 2 = 0 then (ends.low, ends.high, [])
      else if lowIsLeft then (ends.low.drop 1, ends.high, ends.low.take 1)
      else (ends.low, ends.high.drop 1, ends.high.take 1)
    (low.length + ends.lowEnd.length = all.length ∧ high.length + ends.highEnd.length = all.length) ∧
      Arranged keys all (first.reverse ++ middle ++ last) := by
  have hlower := h.lower_ordered
  have hhigher := h.higher_ordered
  obtain ⟨low, middle, low', high, middle', high', rfl, rfl, honLow, honHigh, honLow', honHigh', hfirst, hlast,
    htakenFirst, htakenLast⟩ := h.ends_meet
  have harranged := arranged_ends hlower hhigher htakenFirst htakenLast
  simp only [List.length_append] at hle hfirst hlast harranged
  dsimp only
  rw [honLow, honHigh, honLow', honHigh']
  have hone : middle.length + middle'.length ≤ 1 := by omega
  cases middle with
  | nil =>
    cases middle' with
    | nil =>
      simp only [List.length_nil] at hle hfirst hlast
      rw [if_pos (by simp; omega)]
      exact ⟨by simp; omega, harranged (by simp)⟩
    | cons b middle' =>
      obtain rfl : middle' = [] := List.eq_nil_of_length_eq_zero (by simp only [List.length_cons] at hone; omega)
      simp only [List.length_nil, List.length_singleton] at hle hfirst hlast
      rw [if_neg (by simp; omega), if_neg (by simp)]
      exact ⟨by simp; omega, harranged (by simp)⟩
  | cons a middle =>
    simp only [List.length_cons] at hone
    obtain rfl : middle = [] := List.eq_nil_of_length_eq_zero (by omega)
    obtain rfl : middle' = [] := List.eq_nil_of_length_eq_zero (by omega)
    simp only [List.length_nil, List.length_singleton] at hle hfirst hlast
    rw [if_neg (by simp; omega), if_pos (by simp)]
    exact ⟨by simp; omega, harranged (by simp)⟩

/-- **A merger from both ends** arranges two runs which are in order and have nearly the same length. -/
theorem settles_mergeFromEnds (lower higher : List Record) :
    Settles ((lower.Pairwise (Precedes keys) ∧ higher.Pairwise (Precedes keys)) ∧ lower.length ≤ higher.length ∧
        higher.length ≤ lower.length + 1) ((lower ++ higher).Pairwise (Comparable keys))
      (Arranged keys (lower ++ higher)) (Trial.mergeFromEnds (compared keys) lower higher) := by
  refine Settles.bind (Q := fun merged => Merging keys lower higher lower.length merged.1 merged.2.1 merged.2.2 ∧
    higher.length ≤ lower.length + 1) ?_ fun (ends, first, last) => ?_
  · refine (settles_mergeSteps lower.length 0 _ [] []).imp (fun ⟨⟨hlow, hhigh⟩, hle, _⟩ => ?_) (fun _ => id)
      fun _ ⟨_, _, hle⟩ h => ⟨h, hle⟩
    exact ⟨⟨hlow, hhigh, hle, .start, .start⟩, by omega⟩
  · refine settles_unless fun ⟨h, hle⟩ => ?_
    obtain ⟨⟨hlow, hhigh⟩, harranged⟩ := h.between hle
    refine ⟨fun hdiffers => ?_, harranged⟩
    rcases Bool.or_eq_true_iff.1 hdiffers with hdiffers | hdiffers
    · exact of_decide_eq_true hdiffers hlow
    · exact of_decide_eq_true hdiffers hhigh

end

/-! ## Short lists -/

/-- **A short list is arranged**, and the trial finds nothing if any two of its records can be compared. -/
theorem settles_sortShort (records : List Record) : Settles True (records.Pairwise (Comparable keys))
    (Arranged keys records) (Trial.sortShort (compared keys) records) := by
  unfold Trial.sortShort
  refine .ite (settles_pure fun ⟨_, hshort⟩ => ?_) ?_
  · match records, hshort with
    | [], _ => exact .nil
    | [a], _ => exact .singleton _
    | a :: b :: rest, hshort =>
      simp only [List.length_cons] at hshort
      omega
  have htake := List.take_append_drop (records.length / 2) records
  generalize hlow : records.take (records.length / 2) = low at htake ⊢
  generalize hhigh : records.drop (records.length / 2) = high at htake ⊢
  have hlowFine (hfine : records.Pairwise (Comparable keys)) : low.Pairwise (Comparable keys) :=
    hfine.sublist (htake ▸ List.sublist_append_left low high)
  have hhighFine (hfine : records.Pairwise (Comparable keys)) : high.Pairwise (Comparable keys) :=
    hfine.sublist (htake ▸ List.sublist_append_right low high)
  refine Settles.bind ((settles_sortBeginning _ low).imp (fun _ => trivial) (fun _ => hlowFine) fun _ _ => id)
    fun (lower, lowerRest) => ?_
  refine ((settles_sortBeginning _ high).keep (fun _ => trivial) fun _ => hhighFine).bind fun (higher, higherRest) => ?_
  -- what has been arranged already may be the beginning of either half
  refine Settles.bind (Q := fun lower => Arranged keys low lower ∧
    ∃ beginning, high = beginning ++ higherRest ∧ Arranged keys beginning higher) ?_ fun lower => ?_
  · exact (settles_insertAll low lower lowerRest).imp And.left (fun _ => hlowFine) fun _ h hlower => ⟨hlower, h.2⟩
  refine ((settles_insertAll high higher higherRest).keep And.right fun _ => hhighFine).bind fun higher => ?_
  · have hlength : low.length ≤ high.length ∧ high.length ≤ low.length + 1 := by
      rw [← hlow, ← hhigh, List.length_take, List.length_drop]
      omega
    refine (settles_mergeFromEnds lower higher).imp (fun ⟨⟨hlower, _⟩, hhigher⟩ => ?_)
      (fun ⟨⟨hlower, _⟩, hhigher⟩ hfine => ?_) fun result ⟨⟨hlower, _⟩, hhigher⟩ hresult => ?_
    · exact ⟨⟨hlower.ordered, hhigher.ordered⟩, by rwa [hlower.perm.length_eq, hhigher.perm.length_eq]⟩
    · rw [← htake] at hfine
      exact ((hlower.perm.append hhigher.perm).pairwise_iff Comparable.symm).2 hfine
    · exact htake ▸ hresult.of_rearranged (hlower.rearranged.append hhigher.rearranged)

end RecordServer.Relation
