import RecordServer.Sorting.Trial

/-!
# What a trial finds

Whatever a trial compares and in which order: the fault that it finds is that of a comparison, or the order contradicts
itself (`Sorting.of_fault?`). No part of a trial does anything but compare elements, so it finds no other faults
(`Trial.Keeps`).
-/

namespace RecordServer.Sorting

namespace Trial

variable {α β γ : Type} {ordinary : Fault → Prop}

/-- If the fault that has been found is an ordinary one before a part of a trial, so it is afterwards. -/
def Keeps (ordinary : Fault → Prop) (a : Trial β) : Prop :=
  ∀ found, (∀ fault ∈ found.fault, ordinary fault) → ∀ fault ∈ (a.run found).2.fault, ordinary fault

theorem keeps_pure (b : β) : Keeps ordinary (pure b) := fun _ h => h

theorem Keeps.bind {a : Trial β} {f : β → Trial γ} (ha : Keeps ordinary a) (hf : ∀ b, Keeps ordinary (f b)) :
    Keeps ordinary (a >>= f) :=
  fun found h => hf _ _ (ha found h)

theorem Keeps.map {a : Trial β} (ha : Keeps ordinary a) (f : β → γ) : Keeps ordinary (f <$> a) := ha

theorem Keeps.ite {p : Prop} [Decidable p] {a b : Trial β} (ha : Keeps ordinary a) (hb : Keeps ordinary b) :
    Keeps ordinary (if p then a else b) := by
  split
  · exact ha
  · exact hb

theorem keeps_foldlM {f : γ → β → Trial γ} (hf : ∀ c b, Keeps ordinary (f c b)) : ∀ (list : List β) (start : γ),
    Keeps ordinary (list.foldlM f start)
  | [], start => keeps_pure start
  | b :: rest, start => by
    rw [List.foldlM_cons]
    exact (hf start b).bind (keeps_foldlM hf rest)

/-- A comparison finds its own fault, if none has been found before. -/
theorem keeps_less {order : α → α → Except Fault Ordering}
    (horder : ∀ a b fault, order a b = .error fault → ordinary fault) (a b : α) : Keeps ordinary (less order a b) := by
  unfold less
  split
  · exact keeps_pure _
  · rename_i fault hfault
    refine Keeps.bind (fun found h first hfirst => ?_) fun _ => keeps_pure _
    have hfirst : first ∈ (found.fault <|> some fault) := hfirst
    cases hfound : found.fault with
    | some earlier =>
      rw [hfound] at hfirst
      exact h first (hfound ▸ hfirst)
    | none =>
      rw [hfound] at hfirst
      exact Option.some.inj hfirst ▸ horder a b fault hfault

theorem keeps_contradiction : Keeps ordinary contradiction := fun _ h => h

variable {less : α → α → Trial Bool} (hless : ∀ a b, Keeps ordinary (less a b))

include hless

/-! ## Short lists -/

theorem keeps_insert (x : α) : ∀ sorted : List α, Keeps ordinary (insert less x sorted)
  | [] => keeps_pure _
  | last :: before =>
    (hless x last).bind fun _ => .ite ((keeps_insert x before).bind fun _ => keeps_pure _) (keeps_pure _)

theorem keeps_insertAll (sorted rest : List α) : Keeps ordinary (insertAll less sorted rest) :=
  (keeps_foldlM (fun greatestFirst x => keeps_insert hless x greatestFirst) rest _).bind fun _ => keeps_pure _

theorem keeps_sortFour (a b c d : α) : Keeps ordinary (sortFour less a b c d) := by
  unfold sortFour
  refine (hless b a).bind fun isLower => ?_
  split
  refine (hless d c).bind fun isHigher => ?_
  split
  exact (hless _ _).bind fun _ => (hless _ _).bind fun _ => (hless _ _).bind fun _ => .ite (keeps_pure _) (keeps_pure _)

theorem keeps_sortBeginning (isLong : Bool) : ∀ list : List α, Keeps ordinary (sortBeginning less isLong list)
  | a :: b :: c :: d :: _ => .ite ((keeps_sortFour hless a b c d).bind fun _ => keeps_pure _) (keeps_pure _)
  | [] | [_] | [_, _] | [_, _, _] => keeps_pure _

theorem keeps_mergeSteps : ∀ (steps : Nat) (ends : Ends α) (first last : List α),
    Keeps ordinary (mergeSteps less steps ends first last)
  | 0, _, _, _ => keeps_pure _
  | _ + 1, ⟨[], _, _, _⟩, _, _ => keeps_pure _
  | _ + 1, ⟨_ :: _, [], _, _⟩, _, _ => keeps_pure _
  | _ + 1, ⟨_ :: _, _ :: _, [], _⟩, _, _ => keeps_pure _
  | _ + 1, ⟨_ :: _, _ :: _, _ :: _, []⟩, _, _ => keeps_pure _
  | steps + 1, ⟨a :: _, b :: _, c :: _, d :: _⟩, _, _ =>
    (hless b a).bind fun _ => (hless d c).bind fun _ => keeps_mergeSteps steps _ _ _

theorem keeps_mergeFromEnds (lower higher : List α) : Keeps ordinary (mergeFromEnds less lower higher) := by
  unfold mergeFromEnds
  refine (keeps_mergeSteps hless _ _ _ _).bind fun merged => ?_
  exact .ite (keeps_contradiction.bind fun _ => keeps_pure _) (keeps_pure _)

theorem keeps_sortShort (list : List α) : Keeps ordinary (sortShort less list) := by
  unfold sortShort
  refine .ite (keeps_pure _) ?_
  refine (keeps_sortBeginning hless _ _).bind fun lower => (keeps_sortBeginning hless _ _).bind fun higher => ?_
  refine (keeps_insertAll hless _ _).bind fun lower => (keeps_insertAll hless _ _).bind fun higher => ?_
  exact keeps_mergeFromEnds hless _ _

/-! ## Runs -/

theorem keeps_runFrom (descending : Bool) : ∀ (n : Nat) (last : α) (list : List α),
    Keeps ordinary (runFrom less descending n last list)
  | _, _, [] => keeps_pure _
  | n, last, x :: rest =>
    (hless x last).bind fun _ => .ite (keeps_runFrom descending (n + 1) x rest) (keeps_pure _)

theorem keeps_naturalRun : ∀ list : List α, Keeps ordinary (naturalRun less list)
  | [] | [_] => keeps_pure _
  | first :: second :: rest =>
    (hless second first).bind fun descending =>
      (keeps_runFrom hless descending 2 second rest).bind fun _ => keeps_pure _

theorem keeps_mergeUp (merged low high : List α) : Keeps ordinary (mergeUp less merged low high) := by
  fun_induction mergeUp less merged low high with
  | case1 => exact keeps_pure _
  | case2 => exact keeps_pure _
  | case3 merged a low b high ihHigh ihLow => exact (hless b a).bind fun _ => .ite ihHigh ihLow

theorem keeps_mergeDown (merged low high : List α) : Keeps ordinary (mergeDown less merged low high) := by
  fun_induction mergeDown less merged low high with
  | case1 => exact keeps_pure _
  | case2 => exact keeps_pure _
  | case3 merged a low b high ihLow ihHigh => exact (hless b a).bind fun _ => .ite ihLow ihHigh

theorem keeps_merge (lower higher : List α) : Keeps ordinary (merge less lower higher) :=
  .ite (keeps_mergeUp hless _ _ _) (keeps_mergeDown hless _ _ _)

theorem keeps_nextRun (eager : Bool) (good : Nat) (list : List α) : Keeps ordinary (nextRun less eager good list) := by
  unfold nextRun
  extract_lets next
  have hnext (run : Nat × Bool) : Keeps ordinary (next run) :=
    .ite (keeps_pure _) (.ite ((keeps_sortShort hless _).bind fun _ => keeps_pure _) (keeps_pure _))
  exact .ite ((keeps_naturalRun hless list).bind hnext) ((keeps_pure _).bind hnext)

section

variable {sort : List α → Trial (List α)} (hsort : ∀ list, Keeps ordinary (sort list))

include hsort

theorem keeps_unite (lower higher : Run α) : Keeps ordinary (unite less sort lower higher) := by
  have hmerge (low high : List α) : Keeps ordinary (do return (⟨← merge less low high, true⟩ : Run α)) :=
    (keeps_merge hless low high).bind fun _ => keeps_pure _
  have hhigher (low : List α) : Keeps ordinary (do
      let high ← if higher.isSorted then pure higher.elements else sort higher.elements
      return (⟨← merge less low high, true⟩ : Run α)) :=
    .ite (hmerge low _) ((hsort _).bind (hmerge low))
  exact .ite (.ite (hhigher _) ((hsort _).bind hhigher)) (keeps_pure _)

theorem keeps_uniteFrom (depth : Nat) : ∀ (stack : List (Run α × Nat)) (run : Run α),
    Keeps ordinary (uniteFrom less sort depth stack run)
  | [], _ | [_], _ => keeps_pure _
  | (lower, _) :: below :: rest, run =>
    .ite ((keeps_unite hless hsort lower run).bind fun _ => keeps_uniteFrom depth (below :: rest) _) (keeps_pure _)

theorem keeps_uniteRuns (eager : Bool) (length : Nat) : ∀ (steps : Nat) (stack : List (Run α × Nat)) (run : Run α)
    (list : List α), Keeps ordinary (uniteRuns less sort eager length steps stack run list)
  | 0, _, _, _ => keeps_pure _
  | _ + 1, stack, run, [] => (keeps_uniteFrom hless hsort 0 stack run).bind fun _ => keeps_pure _
  | steps + 1, _, _, _ :: _ =>
    (keeps_nextRun hless _ _ _).bind fun _ => (keeps_uniteFrom hless hsort _ _ _).bind fun _ =>
      keeps_uniteRuns eager length steps _ _ _

theorem keeps_byRuns (eager : Bool) (list : List α) : Keeps ordinary (byRuns less sort eager list) :=
  (keeps_uniteRuns hless hsort eager _ _ _ _ _).bind fun _ => .ite (keeps_pure _) (hsort _)

end

/-! ## Pivots -/

theorem keeps_median (a b c : Nat × α) : Keeps ordinary (median less a b c) :=
  (hless _ _).bind fun _ => (hless _ _).bind fun _ =>
    .ite ((hless _ _).bind fun _ => .ite (keeps_pure _) (keeps_pure _)) (keeps_pure _)

theorem keeps_medianOf (item : Nat → Nat × α) (a b c length : Nat) :
    Keeps ordinary (medianOf less item a b c length) := by
  fun_induction medianOf less item a b c length with
  | case1 a b c length _ part ihFirst ihSecond ihThird =>
    exact ihFirst.bind fun first => ihSecond.bind fun second => ihThird.bind fun third => keeps_median hless _ _ _
  | case2 => exact keeps_median hless _ _ _

theorem keeps_pivot (first : α) (rest : List α) : Keeps ordinary (Sorting.pivot less first rest) :=
  keeps_medianOf hless _ _ _ _ _

omit hless in
theorem keeps_partAround {isLeft : α → Trial Bool} (hleft : ∀ a, Keeps ordinary (isLeft a)) (pivotIsLeft : Bool)
    (n : Nat) (list : List α) : Keeps ordinary (partAround isLeft pivotIsLeft n list) := by
  have hpart (list : List α) (sides : List α × List α) : Keeps ordinary (partBy isLeft list sides) :=
    keeps_foldlM (fun _ x => (hleft x).bind fun _ => .ite (keeps_pure _) (keeps_pure _)) list sides
  exact (hpart _ _).bind fun _ => (hpart _ _).bind fun _ => keeps_pure _

theorem keeps_byPivots : ∀ (depth : Nat) (bound : Option α) (list : List α),
    Keeps ordinary (byPivots less depth bound list)
  | _, _, [] => by
    unfold byPivots
    exact keeps_pure _
  | 0, _, first :: rest => by
    unfold byPivots
    exact .ite (keeps_sortShort hless _) (keeps_byRuns hless keeps_pure true _)
  | depth + 1, bound, first :: rest => by
    unfold byPivots
    refine .ite (keeps_sortShort hless _) ?_
    refine (keeps_pivot hless first rest).bind fun (n, pivot) => ?_
    dsimp -zeta only
    extract_lets behind choose
    have hbehind (parted : List α × List α) : Keeps ordinary (behind parted) :=
      .ite ((keeps_partAround (fun x => (hless pivot x).map _) true n _).bind fun _ =>
          (keeps_byPivots depth none _).bind fun _ => keeps_pure _)
        ((keeps_byPivots depth (some pivot) _).bind fun _ => (keeps_byPivots depth bound _).bind fun _ => keeps_pure _)
    have hchoose (isBound : Bool) : Keeps ordinary (choose isBound) :=
      .ite ((keeps_pure _).bind hbehind) ((keeps_partAround (fun x => hless x pivot) false n _).bind hbehind)
    cases bound with
    | some bound => exact ((hless bound pivot).map _).bind hchoose
    | none => exact (keeps_pure _).bind hchoose

/-! ## Lists of any length -/

theorem keeps_sort (list : List α) : Keeps ordinary (sort less list) :=
  .ite (keeps_insertAll hless _ _) (keeps_byRuns hless (fun _ => keeps_byPivots hless _ _ _) _ _)

end Trial

/-- **A trial finds the fault of a comparison**, or that the order contradicts itself. -/
theorem of_fault? {α : Type} {order : α → α → Except Fault Ordering} {list : List α} {fault : Fault}
    (h : fault? order list = some fault) : fault = Cause.contradictoryOrder ∨ ∃ a b, order a b = .error fault := by
  unfold fault? at h
  simp only at h
  split at h
  · exact .inl (Option.some.inj h).symm
  · have hless (a b : α) : Trial.Keeps (fun fault => ∃ a b, order a b = .error fault) (Trial.less order a b) :=
      Trial.keeps_less (fun a b fault hfault => ⟨a, b, hfault⟩) a b
    exact .inr (Trial.keeps_sort hless list ⟨none, false⟩ nofun fault h)

end RecordServer.Sorting
