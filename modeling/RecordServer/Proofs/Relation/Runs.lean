import RecordServer.Proofs.Relation.ShortLists

/-!
# Trials of runs

A long list is divided into runs, which are united with their neighbours. A run stands for a part of the list: it has
been arranged, or still is as it was (`Relation.StandsFor`). What has been united and what is still to be united stand
for parts of the list in their order (`Relation.Piled`); each step keeps this, so that in the end there is one run for
the whole list (`Relation.settles_byRuns`).
-/

namespace RecordServer.Relation

open Sorting (Trial Findings)
open Sorting.Trial (Settles settles_pure Run)

variable {keys : List Config.SortKey} {a b : Record} {records rest low high merged result : List Record}

/-! ## Mergers -/

/-- The first record of two runs is the least one of the higher run, which is below all of the lower run. -/
theorem Arranged.consHigh (h : Arranged keys (a :: low ++ high) result)
    (hlow : (a :: low).Pairwise (Precedes keys)) (hhigh : (b :: high).Pairwise (Precedes keys)) (hba : Below keys b a) :
    Arranged keys (a :: low ++ b :: high) (b :: result) := by
  have hbelow : ∀ x ∈ a :: low, Below keys b x := by
    rw [List.forall_mem_cons]
    exact ⟨hba, fun x hx => hba.of_precedes ((List.pairwise_cons.1 hlow).1 x hx)⟩
  have hswap : Rearranged keys (a :: low ++ b :: high) ([b] ++ (a :: low ++ high)) := by
    have h := Rearranged.swap _ [b] fun x hx y hy => List.mem_singleton.1 hy ▸ hbelow x hx
    simpa using h.append (.refl high)
  refine ((Arranged.singleton b).append h fun x hx y hy => ?_).of_rearranged hswap
  obtain rfl := List.mem_singleton.1 hx
  rcases List.mem_append.1 hy with hy | hy
  · exact (hbelow y hy).precedes
  · exact (List.pairwise_cons.1 hhigh).1 y hy

/-- The first record of two runs is the least one of the lower run, which may stand in front of all. -/
theorem Arranged.consLow (h : Arranged keys (low ++ b :: high) result)
    (hlow : (a :: low).Pairwise (Precedes keys)) (hhigh : (b :: high).Pairwise (Precedes keys))
    (hab : Precedes keys a b) : Arranged keys (a :: low ++ b :: high) (a :: result) := by
  refine (Arranged.singleton a).append h fun x hx y hy => ?_
  obtain rfl := List.mem_singleton.1 hx
  rcases List.mem_append.1 hy with hy | hy
  · exact (List.pairwise_cons.1 hlow).1 y hy
  · rcases List.mem_cons.1 hy with rfl | hy
    · exact hab
    · exact hab.trans ((List.pairwise_cons.1 hhigh).1 y hy)

/-- The last record of two runs is the greatest one of the lower run, which all of the higher run are below. -/
theorem Arranged.concatLow (h : Arranged keys (low ++ (high ++ [b])) result)
    (hlow : (low ++ [a]).Pairwise (Precedes keys)) (hhigh : (high ++ [b]).Pairwise (Precedes keys))
    (hba : Below keys b a) : Arranged keys (low ++ [a] ++ (high ++ [b])) (result ++ [a]) := by
  have hbelow : ∀ x ∈ high ++ [b], Below keys x a := by
    intro x hx
    rcases List.mem_append.1 hx with hx | hx
    · exact ((List.pairwise_append.1 hhigh).2.2 x hx b (List.mem_singleton_self b)).below hba
    · exact List.mem_singleton.1 hx ▸ hba
  have hswap : Rearranged keys (low ++ [a] ++ (high ++ [b])) (low ++ (high ++ [b]) ++ [a]) := by
    rw [List.append_assoc, List.append_assoc low]
    exact (Rearranged.refl low).append (.swap _ _ fun x hx y hy => List.mem_singleton.1 hx ▸ hbelow y hy)
  refine (h.append (.singleton _) fun x hx y hy => ?_).of_rearranged hswap
  obtain rfl := List.mem_singleton.1 hy
  rcases List.mem_append.1 hx with hx | hx
  · exact (List.pairwise_append.1 hlow).2.2 x hx y (List.mem_singleton_self y)
  · exact (hbelow x hx).precedes

/-- The last record of two runs is the greatest one of the higher run, which may stand behind all. -/
theorem Arranged.concatHigh (h : Arranged keys (low ++ [a] ++ high) result)
    (hlow : (low ++ [a]).Pairwise (Precedes keys)) (hhigh : (high ++ [b]).Pairwise (Precedes keys))
    (hab : Precedes keys a b) : Arranged keys (low ++ [a] ++ (high ++ [b])) (result ++ [b]) := by
  rw [← List.append_assoc]
  refine h.append (.singleton _) fun x hx y hy => ?_
  obtain rfl := List.mem_singleton.1 hy
  rcases List.mem_append.1 hx with hx | hx
  · rcases List.mem_append.1 hx with hx | hx
    · exact ((List.pairwise_append.1 hlow).2.2 x hx a (List.mem_singleton_self a)).trans hab
    · exact List.mem_singleton.1 hx ▸ hab
  · exact (List.pairwise_append.1 hhigh).2.2 x hx y (List.mem_singleton_self y)

/-- Merging two runs from the least records on. -/
theorem settles_mergeUp (merged low high : List Record) :
    Settles (low.Pairwise (Precedes keys) ∧ high.Pairwise (Precedes keys)) ((low ++ high).Pairwise (Comparable keys))
      (fun all => ∃ result, all = merged.reverse ++ result ∧ Arranged keys (low ++ high) result)
      (Trial.mergeUp (compared keys) merged low high) := by
  fun_induction Trial.mergeUp (compared keys) merged low high with
  | case1 merged high => exact settles_pure fun h => ⟨high, rfl, .self h.2⟩
  | case2 merged low _ => exact settles_pure fun h => ⟨low, rfl, by simpa using Arranged.self h.1⟩
  | case3 merged a low b high ihHigh ihLow =>
    refine Settles.bind (settles_compared.keep (fun _ => trivial) fun _ hfine => ?_) fun isBelow => ?_
    · exact ((List.pairwise_append.1 hfine).2.2 a List.mem_cons_self b List.mem_cons_self).symm
    cases isBelow with
    | true =>
      refine ihHigh.imp (fun h => ⟨h.1.1, (List.pairwise_cons.1 h.1.2).2⟩) (fun _ hfine => ?_) ?_
      · exact hfine.sublist ((List.Sublist.refl _).append (List.sublist_cons_self b high))
      · rintro _ ⟨⟨hlow, hhigh⟩, hba⟩ ⟨result, rfl, harranged⟩
        exact ⟨b :: result, by simp, harranged.consHigh hlow hhigh hba.below⟩
    | false =>
      refine ihLow.imp (fun h => ⟨(List.pairwise_cons.1 h.1.1).2, h.1.2⟩) (fun _ hfine => ?_) ?_
      · exact hfine.sublist ((List.sublist_cons_self a low).append (.refl _))
      · rintro _ ⟨⟨hlow, hhigh⟩, hba⟩ ⟨result, rfl, harranged⟩
        exact ⟨a :: result, by simp, harranged.consLow hlow hhigh hba.precedes⟩

/-- Merging two runs, which are given from their ends, from the greatest records on. -/
theorem settles_mergeDown (merged low high : List Record) :
    Settles (low.reverse.Pairwise (Precedes keys) ∧ high.reverse.Pairwise (Precedes keys))
      ((low.reverse ++ high.reverse).Pairwise (Comparable keys))
      (fun all => ∃ result, all = result ++ merged ∧ Arranged keys (low.reverse ++ high.reverse) result)
      (Trial.mergeDown (compared keys) merged low high) := by
  fun_induction Trial.mergeDown (compared keys) merged low high with
  | case1 merged high => exact settles_pure fun h => ⟨high.reverse, rfl, .self h.2⟩
  | case2 merged low _ => exact settles_pure fun h => ⟨low.reverse, rfl, by simpa using Arranged.self h.1⟩
  | case3 merged a low b high ihLow ihHigh =>
    simp only [List.reverse_cons] at ihLow ihHigh ⊢
    refine Settles.bind (settles_compared.keep (fun _ => trivial) fun _ hfine => ?_) fun isBelow => ?_
    · exact ((List.pairwise_append.1 hfine).2.2 a (by simp) b (by simp)).symm
    cases isBelow with
    | true =>
      refine ihLow.imp (fun h => ⟨(List.pairwise_append.1 h.1.1).1, h.1.2⟩) (fun _ hfine => ?_) ?_
      · exact hfine.sublist ((List.sublist_append_left _ _).append (.refl _))
      · rintro _ ⟨⟨hlow, hhigh⟩, hba⟩ ⟨result, rfl, harranged⟩
        exact ⟨result ++ [a], by simp, harranged.concatLow hlow hhigh hba.below⟩
    | false =>
      refine ihHigh.imp (fun h => ⟨h.1.1, (List.pairwise_append.1 h.1.2).1⟩) (fun _ hfine => ?_) ?_
      · exact hfine.sublist ((List.Sublist.refl _).append (List.sublist_append_left _ _))
      · rintro _ ⟨⟨hlow, hhigh⟩, hba⟩ ⟨result, rfl, harranged⟩
        exact ⟨result ++ [b], by simp, harranged.concatHigh hlow hhigh hba.precedes⟩

/-- **A merger arranges two runs** which are in order. -/
theorem settles_merge (low high : List Record) :
    Settles (low.Pairwise (Precedes keys) ∧ high.Pairwise (Precedes keys)) ((low ++ high).Pairwise (Comparable keys))
      (Arranged keys (low ++ high)) (Trial.merge (compared keys) low high) := by
  refine .ite ((settles_mergeUp [] low high).imp And.left (fun _ => id) ?_)
    ((settles_mergeDown [] low.reverse high.reverse).imp (fun ⟨h, _⟩ => ?_) (fun _ hfine => ?_) ?_)
  · rintro _ - ⟨result, rfl, harranged⟩
    exact harranged
  · rwa [List.reverse_reverse, List.reverse_reverse]
  · rwa [List.reverse_reverse, List.reverse_reverse]
  · rintro _ - ⟨result, rfl, harranged⟩
    rwa [List.reverse_reverse, List.reverse_reverse, ← List.append_nil result] at harranged

/-! ## Natural runs -/

variable {descending eager : Bool}

theorem Compared.trans {c : Record} (h : Compared keys b a descending) (h' : Compared keys c b descending) :
    Compared keys c a descending := by
  cases descending with
  | true => exact h'.below.trans h.below
  | false => exact h.precedes.trans h'.precedes

/-- A run goes on as long as comparisons say so. -/
theorem settles_runFrom : ∀ (n : Nat) (last : Record) (records : List Record),
    Settles True ((last :: records).Pairwise (Comparable keys))
      (fun length => ∃ k, length = n + k ∧ (last :: records.take k).Pairwise fun a b => Compared keys b a descending)
      (Sorting.runFrom (compared keys) descending n last records)
  | n, last, [] => settles_pure fun _ => ⟨0, rfl, List.pairwise_singleton _ _⟩
  | n, last, r :: rest => by
    refine Settles.bind (settles_compared.imp id (fun _ hfine => ?_) fun _ _ => id) fun isBelow => ?_
    · exact (List.rel_of_pairwise_cons hfine List.mem_cons_self).symm
    refine .ite ((settles_runFrom (n + 1) r rest).imp (fun _ => trivial) (fun _ => List.Pairwise.tail) ?_)
      (settles_pure fun _ => ⟨0, rfl, List.pairwise_singleton _ _⟩)
    rintro _ ⟨hr, rfl⟩ ⟨k, rfl, hrun⟩
    refine ⟨k + 1, by omega, List.pairwise_cons.2 ⟨fun x hx => ?_, hrun⟩⟩
    rcases List.mem_cons.1 hx with rfl | hx
    · exact hr
    · exact hr.trans (List.rel_of_pairwise_cons hrun hx)

/-- The run with which a list begins. -/
theorem settles_naturalRun (records : List Record) : Settles True (records.Pairwise (Comparable keys))
    (fun run => (records.take run.1).Pairwise fun a b => Compared keys b a run.2)
    (Sorting.naturalRun (compared keys) records) := by
  match records with
  | [] => exact settles_pure fun _ => .nil
  | [a] => exact settles_pure fun _ => List.pairwise_singleton _ _
  | first :: second :: rest =>
    refine Settles.bind (settles_compared.imp id (fun _ hfine => ?_) fun _ _ => id) fun descending => ?_
    · exact (List.rel_of_pairwise_cons hfine List.mem_cons_self).symm
    refine ((settles_runFrom 2 second rest).keep (fun _ => trivial) fun _ => List.Pairwise.tail).bind fun length =>
      settles_pure ?_
    rintro ⟨hsecond, k, rfl, hrun⟩
    rw [Nat.add_comm, List.take_succ_cons, List.take_succ_cons]
    refine List.pairwise_cons.2 ⟨fun x hx => ?_, hrun⟩
    rcases List.mem_cons.1 hx with rfl | hx
    · exact hsecond
    · exact hsecond.trans (List.rel_of_pairwise_cons hrun hx)

/-- A run is arranged as it is, or turned round if it goes down. -/
theorem arranged_run (h : records.Pairwise fun a b => Compared keys b a descending) :
    Arranged keys records (if descending then records.reverse else records) := by
  cases descending with
  | true => exact (Rearranged.reverse h).arranged (List.pairwise_reverse.2 (h.imp fun hbelow => hbelow.below.precedes))
  | false => exact .self h

/-- A run stands for a part of a list: it has been arranged, or still is as it was, which the eager way of sorting does
not leave. -/
inductive StandsFor (keys : List Config.SortKey) (eager : Bool) : List Record → Run Record → Prop
  | arranged {records elements : List Record} : Arranged keys records elements → StandsFor keys eager records ⟨elements, true⟩
  | same {records : List Record} : eager = false → StandsFor keys eager records ⟨records, false⟩

theorem StandsFor.of_sorted {run : Run Record} (h : StandsFor keys eager records run) (hsorted : run.isSorted = true) :
    Arranged keys records run.elements := by
  cases h with
  | arranged h => exact h
  | same h => cases hsorted

theorem StandsFor.of_not_sorted {run : Run Record} (h : StandsFor keys eager records run)
    (hsorted : ¬run.isSorted = true) : eager = false ∧ run.elements = records := by
  cases h with
  | arranged h => exact absurd rfl hsorted
  | same h => exact ⟨h, rfl⟩

theorem settles_nextRun {good : Nat} (hgood : 0 < good) (hrecords : records ≠ []) :
    Settles True (records.Pairwise (Comparable keys))
      (fun next => ∃ part, records = part ++ next.2 ∧ StandsFor keys eager part next.1 ∧ next.2.length < records.length)
      (Trial.nextRun (compared keys) eager good records) := by
  have hpositive : 0 < records.length := List.length_pos_iff.2 hrecords
  have hdrop {n : Nat} (hn : 0 < n) : (records.drop n).length < records.length := by
    rw [List.length_drop]
    omega
  unfold Trial.nextRun
  extract_lets next
  have hnext (run : Nat × Bool) : Settles (good ≤ records.length → (records.take run.1).Pairwise fun a b => Compared keys b a run.2)
      (records.Pairwise (Comparable keys))
      (fun next => ∃ part, records = part ++ next.2 ∧ StandsFor keys eager part next.1 ∧ next.2.length < records.length)
      (next run) := by
    refine .ite (settles_pure fun ⟨hrun, hlong⟩ => ?_) (.ite ?_ (settles_pure fun ⟨_, heager⟩ => ?_))
    · obtain ⟨hlength, hlong⟩ := Bool.and_eq_true_iff.1 hlong
      refine ⟨records.take run.1, (List.take_append_drop _ _).symm, .arranged (arranged_run ?_), hdrop ?_⟩
      · exact hrun (of_decide_eq_true hlength)
      · exact hgood.trans_le (of_decide_eq_true hlong)
    · refine ((settles_sortShort (records.take 32)).imp (fun _ => trivial) (fun _ => ?_) fun _ _ => id).bind
        fun sorted => settles_pure fun h => ?_
      · exact fun hfine => hfine.sublist (List.take_sublist _ _)
      · exact ⟨records.take 32, (List.take_append_drop _ _).symm, .arranged h, hdrop (by omega)⟩
    · exact ⟨records.take good, (List.take_append_drop _ _).symm, .same (by simpa using heager), hdrop hgood⟩
  refine .ite (((settles_naturalRun records).imp (fun _ => trivial) (fun _ => id) fun _ _ h _ => h).bind hnext) ?_
  exact (settles_pure fun ⟨_, hshort⟩ hlong => absurd hlong hshort).bind hnext

/-! ## Unions -/

/-- Runs which stand for the parts of a list: those in a stack, the last of them first, and behind them another one. The
first of all stands for nothing. -/
def Piled (keys : List Config.SortKey) (eager : Bool) : List (Run Record × Nat) → Run Record → List Record → Prop
  | [], run, records => records = [] ∧ StandsFor keys eager [] run
  | (lower, _) :: stack, run, records =>
    ∃ before part, records = before ++ part ∧ Piled keys eager stack lower before ∧ StandsFor keys eager part run

section

variable {sort : List Record → Trial (List Record)}
  (hsort : ∀ list, Settles (eager = false) (list.Pairwise (Comparable keys)) (Arranged keys list) (sort list))

include hsort

/-- What is not sorted is sorted before it is merged. -/
theorem settles_sortRun (records : List Record) (run : Run Record) :
    Settles (StandsFor keys eager records run ∧ ¬run.isSorted = true) (records.Pairwise (Comparable keys))
      (Arranged keys records) (sort run.elements) :=
  (hsort run.elements).imp (fun ⟨h, hnot⟩ => (h.of_not_sorted hnot).1)
    (fun ⟨h, hnot⟩ hfine => (h.of_not_sorted hnot).2.symm ▸ hfine)
    fun _ ⟨h, hnot⟩ harranged => (h.of_not_sorted hnot).2 ▸ harranged

/-- **The union of two neighbours** stands for both parts of the list. -/
theorem settles_unite (low high : List Record) (lower higher : Run Record) :
    Settles (StandsFor keys eager low lower ∧ StandsFor keys eager high higher)
      ((low ++ high).Pairwise (Comparable keys)) (StandsFor keys eager (low ++ high))
      (Trial.unite (compared keys) sort lower higher) := by
  have hmerge (sortedLow sortedHigh : List Record) :
      Settles (Arranged keys low sortedLow ∧ Arranged keys high sortedHigh) ((low ++ high).Pairwise (Comparable keys))
        (StandsFor keys eager (low ++ high))
        (do return (⟨← Trial.merge (compared keys) sortedLow sortedHigh, true⟩ : Run Record)) := by
    refine Settles.bind (Q := Arranged keys (low ++ high)) ?_ fun merged => settles_pure .arranged
    refine (settles_merge sortedLow sortedHigh).imp (fun ⟨hlow, hhigh⟩ => ⟨hlow.ordered, hhigh.ordered⟩) ?_ ?_
    · exact fun ⟨hlow, hhigh⟩ => ((hlow.perm.append hhigh.perm).pairwise_iff Comparable.symm).2
    · exact fun merged ⟨hlow, hhigh⟩ h => h.of_rearranged (hlow.rearranged.append hhigh.rearranged)
  have hhigher (sortedLow : List Record) :
      Settles (Arranged keys low sortedLow ∧ StandsFor keys eager high higher)
        ((low ++ high).Pairwise (Comparable keys)) (StandsFor keys eager (low ++ high)) (do
          let sortedHigh ← if higher.isSorted then pure higher.elements else sort higher.elements
          return (⟨← Trial.merge (compared keys) sortedLow sortedHigh, true⟩ : Run Record)) := by
    refine .ite ?_ (.bind ?_ (hmerge sortedLow))
    · exact (hmerge _ _).imp (fun ⟨⟨hlow, hhigh⟩, h⟩ => ⟨hlow, hhigh.of_sorted h⟩) (fun _ => id) fun _ _ => id
    · exact (settles_sortRun hsort high higher).imp (fun ⟨⟨_, hhigh⟩, hnot⟩ => ⟨hhigh, hnot⟩)
        (fun _ hfine => (List.pairwise_append.1 hfine).2.1) fun _ ⟨⟨hlow, _⟩, _⟩ harranged => ⟨hlow, harranged⟩
  refine .ite (.ite ?_ (.bind ?_ hhigher)) (settles_pure fun ⟨⟨hlow, hhigh⟩, hneither⟩ => ?_)
  · exact (hhigher _).imp (fun ⟨⟨⟨hlow, hhigh⟩, _⟩, h⟩ => ⟨hlow.of_sorted h, hhigh⟩) (fun _ => id) fun _ _ => id
  · exact (settles_sortRun hsort low lower).imp (fun ⟨⟨⟨hlow, _⟩, _⟩, hnot⟩ => ⟨hlow, hnot⟩)
      (fun _ hfine => (List.pairwise_append.1 hfine).1) fun _ ⟨⟨⟨_, hhigh⟩, _⟩, _⟩ harranged => ⟨harranged, hhigh⟩
  · rw [Bool.or_eq_true, not_or] at hneither
    obtain ⟨heager, hlow⟩ := hlow.of_not_sorted hneither.1
    rw [hlow, (hhigh.of_not_sorted hneither.2).2]
    exact .same heager

/-- Unions keep the list for which the runs stand; those of any depth leave one run. -/
theorem settles_uniteFrom (depth : Nat) : ∀ (stack : List (Run Record × Nat)) (run : Run Record)
    (records : List Record), Settles (Piled keys eager stack run records) (records.Pairwise (Comparable keys))
      (fun piled => Piled keys eager piled.2 piled.1 records ∧ (depth = 0 → piled.2.length ≤ 1))
      (Trial.uniteFrom (compared keys) sort depth stack run)
  | [], run, records => settles_pure fun h => ⟨h, fun _ => Nat.zero_le 1⟩
  | [_], run, records => settles_pure fun h => ⟨h, fun _ => Nat.le_refl 1⟩
  | (lower, d) :: (below, e) :: rest, run, records => by
    refine .ite ?_ (settles_pure fun ⟨h, hdepth⟩ => ⟨h, fun hzero => absurd (hzero ▸ Nat.zero_le d) hdepth⟩)
    -- the parts for which the two runs stand, and what is in front of them
    let parts (p : List Record × List Record × List Record) : Prop := records = p.1 ++ (p.2.1 ++ p.2.2) ∧
      Piled keys eager rest below p.1 ∧ StandsFor keys eager p.2.1 lower ∧ StandsFor keys eager p.2.2 run
    have hunite (p : List Record × List Record × List Record) : Settles (parts p) (records.Pairwise (Comparable keys))
        (fun run => Piled keys eager ((below, e) :: rest) run records)
        (Trial.unite (compared keys) sort lower run) := by
      refine (settles_unite hsort p.2.1 p.2.2 lower run).imp (fun h => h.2.2) (fun h hfine => ?_) fun run h hrun => ?_
      · exact (List.pairwise_append.1 (h.1 ▸ hfine)).2.1
      · exact ⟨p.1, p.2.1 ++ p.2.2, h.1, h.2.1, hrun⟩
    refine ((Settles.exists hunite fun _ _ => id).imp (fun ⟨h, _⟩ => ?_) (fun _ => id) fun _ _ => id).bind
      fun run => settles_uniteFrom depth ((below, e) :: rest) run records
    obtain ⟨_, high, rfl, ⟨before, low, rfl, hbefore, hlow⟩, hhigh⟩ := h
    exact ⟨(before, low, high), List.append_assoc .., hbefore, hlow, hhigh⟩

omit hsort in
/-- A run alone, or with the first one that stands for nothing, stands for all. -/
theorem Piled.standsFor : ∀ {stack : List (Run Record × Nat)} {run : Run Record},
    Piled keys eager stack run records → stack.length ≤ 1 → StandsFor keys eager records run
  | [], _, ⟨hnone, h⟩, _ => hnone ▸ h
  | [_], _, ⟨_, _, hparts, ⟨hnone, _⟩, h⟩, _ => by
    rw [hparts, hnone]
    exact h

omit hsort in
theorem goodLength_pos {length : Nat} (h : 0 < length) : 0 < Trial.goodLength length := by
  unfold Trial.goodLength
  split
  · omega
  · have hlog : 12 ≤ length.log2 := (Nat.le_log2 h.ne').2 (by omega)
    have hshift : 2 ^ 1 ≤ 1 <<< ((1 + length.log2) / 2) := by
      rw [Nat.one_shiftLeft]
      exact Nat.pow_le_pow_right (by omega) (by omega)
    exact Nat.div_pos (hshift.trans (Nat.le_add_right _ _)) (by omega)

/-- **All runs of a list are united**, as long as there are steps enough. -/
theorem settles_uniteRuns {length : Nat} (hlength : 0 < length) (records : List Record) :
    ∀ (steps : Nat) (stack : List (Run Record × Nat)) (run : Run Record) (rest : List Record),
      Settles (∃ before, records = before ++ rest ∧ Piled keys eager stack run before ∧ rest.length < steps)
        (records.Pairwise (Comparable keys)) (StandsFor keys eager records)
        (Trial.uniteRuns (compared keys) sort eager length steps stack run rest)
  | 0, _, _, _ => settles_pure fun ⟨_, _, _, hsteps⟩ => nomatch hsteps
  | _ + 1, stack, run, [] => by
    refine (settles_uniteFrom hsort 0 stack run records).imp (fun ⟨before, hbefore, h, _⟩ => ?_) (fun _ => id)
      (fun _ _ => id) |>.map fun piled h => h.1.standsFor (h.2 rfl)
    rwa [hbefore, List.append_nil]
  | steps + 1, stack, run, x :: rest => by
    refine Settles.exists (F := fun _ => records.Pairwise (Comparable keys)) (fun before => ?_) fun _ _ => id
    refine ((settles_nextRun (goodLength_pos hlength) (List.cons_ne_nil x rest)).keep (fun _ => trivial)
      fun h hfine => ?_).bind fun next => ?_
    · exact (List.pairwise_append.1 (h.1 ▸ hfine)).2.1
    refine ((settles_uniteFrom hsort _ stack run before).keep (fun h => ?_) fun h hfine => ?_).bind fun piled => ?_
    · exact h.1.2.1
    · exact (List.pairwise_append.1 (h.1.1 ▸ hfine)).1
    refine (settles_uniteRuns hlength records steps _ next.1 next.2).imp (fun h => ?_) (fun _ => id) fun _ _ => id
    obtain ⟨⟨⟨hbefore, -, hsteps⟩, part, hpart, hnext, hshorter⟩, hpiled, -⟩ := h
    refine ⟨before ++ part, ?_, ⟨before, part, rfl, hpiled, hnext⟩, ?_⟩
    · rw [hbefore, hpart, List.append_assoc]
    · exact hshorter.trans_le (Nat.le_of_lt_succ hsteps)

/-- **Sorting by runs** arranges records, and finds nothing if any two of them can be compared. -/
theorem settles_byRuns (records : List Record) : Settles True (records.Pairwise (Comparable keys))
    (Arranged keys records) (Trial.byRuns (compared keys) sort eager records) := by
  have hrun (run : Run Record) : Settles (StandsFor keys eager records run) (records.Pairwise (Comparable keys))
      (Arranged keys records) (if run.isSorted then pure run.elements else sort run.elements) :=
    .ite (settles_pure fun ⟨h, hsorted⟩ => h.of_sorted hsorted) (settles_sortRun hsort records run)
  have hnone : StandsFor keys eager [] (⟨[], true⟩ : Run Record) := .arranged .nil
  cases records with
  | nil => exact (settles_pure fun _ => hnone).bind hrun
  | cons a rest =>
    refine ((settles_uniteRuns hsort (Nat.succ_pos rest.length) (a :: rest) _ [] ⟨[], true⟩ (a :: rest)).imp
      (fun _ => ?_) (fun _ => id) fun _ _ => id).bind hrun
    exact ⟨[], rfl, ⟨rfl, hnone⟩, Nat.lt_succ_self _⟩

end

end RecordServer.Relation
