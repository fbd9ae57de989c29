import RecordServer.Proofs.Stream.Feed
import RecordServer.Proofs.Stream.Quiet

/-!
# Joins as intersections

What a leaf yields up to its end are the positions in front of its first fault (`leading`) and then this fault, if there
is one (`firstFault?`). The join of leaves whose positions are ascending yields the positions which all of them have in
common, wherever one of them is cut off, and perhaps the fault of one of them (`Strand.ofLeaves_answers`). After its end
or its fault a join yields nothing, even if its leaves would.

The positions come from `Join.pull_steady`, for which leaves are steady as long as no answer of the cancellation check
can end them (`Leaf.Settled`, `Leaf.steady`). The answers of a strand are a stream; those of a join are found by
induction on the positions that are still to come (`Strand.joined_answers`).
-/

namespace RecordServer

/-- The positions in front of the first fault. -/
def leading : List (Except Fault Position) → List Position
  | .ok p :: items => p :: leading items
  | _ => []

/-- The first fault. -/
def firstFault? : List (Except Fault Position) → Option Fault
  | .ok _ :: items => firstFault? items
  | .error fault :: _ => some fault
  | [] => none

/-- What a source yields up to its end: positions, and then perhaps a fault. -/
def upToEnd (positions : List Position) (fault? : Option Fault) : List (Except Fault Position) :=
  positions.map .ok ++ (fault?.map .error).toList

/-- Items begin with the positions in front of the first fault and with this fault. -/
theorem getElem?_leading : ∀ (items : List (Except Fault Position)) {n : Nat}, n ≤ (leading items).length →
    items[n]? = (upToEnd (leading items) (firstFault? items))[n]?
  | [], _, _ => rfl
  | .error _ :: _, n, hn => by
    obtain rfl : n = 0 := Nat.le_zero.1 hn
    rfl
  | .ok _ :: _, 0, _ => rfl
  | .ok _ :: items, _ + 1, hn => getElem?_leading items (Nat.le_of_succ_le_succ hn)

/-! ## Leaves -/

namespace Leaf

/-- No answer of the cancellation check can end a leaf: there is no check, or the leaf asks nothing. -/
def Settled (check : Option (Nat → Bool)) (leaf : Leaf) : Prop := check = none ∨ leaf.quiet = leaf

/-- Reading on without questions takes the first item. -/
theorem readOn_unguarded (input : String) : ∀ (rest : List (Except Fault (Option Position))) (w : Watch),
    (readOn input false rest w).1 = (rest.filterMap found?).head? ∧
      (readOn input false rest w).2.1.items = (rest.filterMap found?).tail ∧
      (readOn input false rest w).2.1.quiet = (readOn input false rest w).2.1
  | [], _ => ⟨rfl, rfl, rfl⟩
  | .error _ :: _, _ => ⟨rfl, rfl, rfl⟩
  | .ok (some _) :: _, _ => ⟨rfl, rfl, rfl⟩
  | .ok none :: rest, w => readOn_unguarded input rest (w.note (.scanned input))

/-- A pull of a settled leaf takes its first item. -/
theorem Settled.next {leaf : Leaf} {w : Watch} (h : leaf.Settled w.check) :
    (leaf.next w).1 = leaf.items.head? ∧ (leaf.next w).2.1.items = leaf.items.tail ∧
      (leaf.next w).2.1.Settled w.check := by
  rcases h with hcheck | hquiet
  · obtain ⟨-, ⟨hpulled, hrest⟩ | ⟨hne, -⟩⟩ := leaf.next_items w
    · exact ⟨hpulled, hrest, .inl hcheck⟩
    · exact absurd hcheck hne
  · match leaf with
    | listed [] => exact ⟨rfl, rfl, .inr rfl⟩
    | listed (_ :: _) => exact ⟨rfl, rfl, .inr rfl⟩
    | scan input false rest =>
      obtain ⟨hpulled, hrest, hquiet⟩ := readOn_unguarded input rest w
      exact ⟨hpulled, hrest, .inr hquiet⟩
    | scan _ true _ => cases hquiet

/-- Settled leaves take the positions in front of their first fault one by one, and report the fault behind them. -/
theorem steady (check : Option (Nat → Bool)) (expected : Fault → Prop) :
    Join.Steady next (fun leaf => leading leaf.items) bound
      (fun leaf => leaf.Settled check ∧ ∀ fault ∈ firstFault? leaf.items, expected fault)
      (fun w => w.check = check) (fun l fault => l = [] ∧ expected fault) where
  calm_next {leaf w} _ hw := (leaf.next_items w).1.trans hw
  ended {leaf w} hgood hw hpulled := by
    obtain ⟨hhead, -⟩ := (hw ▸ hgood.1 : leaf.Settled w.check).next
    have hnil : leaf.items = [] := List.head?_eq_none_iff.1 (hhead.symm.trans hpulled)
    rw [hnil]
    rfl
  taken {leaf w p} hgood hw hpulled := by
    obtain ⟨hhead, hrest, hsettled⟩ := (hw ▸ hgood.1 : leaf.Settled w.check).next
    obtain ⟨items, hitems⟩ := List.head?_eq_some_iff.1 (hhead.symm.trans hpulled)
    have htail : (leaf.next w).2.1.items = items := by rw [hrest, hitems, List.tail_cons]
    have hexpected := hgood.2
    rw [hitems] at hexpected
    refine ⟨by rw [hitems, htail, leading], ⟨hw ▸ hsettled, ?_⟩, bound_next_lt (by rw [hpulled]; rfl)⟩
    rw [htail]
    exact hexpected
  failed {leaf w fault} hgood hw hpulled := by
    obtain ⟨hhead, -⟩ := (hw ▸ hgood.1 : leaf.Settled w.check).next
    obtain ⟨items, hitems⟩ := List.head?_eq_some_iff.1 (hhead.symm.trans hpulled)
    have hexpected := hgood.2
    rw [hitems] at hexpected ⊢
    exact ⟨rfl, hexpected fault rfl⟩
  due_of_subset hsubset hdue := ⟨List.subset_nil.1 (hdue.1 ▸ hsubset), hdue.2⟩

end Leaf

/-! ## Answers -/

namespace Strand

/-- The stream of answers of a strand which is pulled on and on. -/
def answers : Strand → Watch → Nat → Pulled Fault
  | s, w, 0 => (s.next w).1
  | s, w, n + 1 => (s.next w).2.1.answers (s.next w).2.2 n

/-- A settled leaf answers with its items. -/
theorem single_answers : ∀ {n : Nat} {leaf : Leaf} {w : Watch}, leaf.Settled w.check →
    (single leaf).answers w n = leaf.items[n]?
  | 0, leaf, w, h => by
    rw [← List.head?_eq_getElem?]
    exact h.next.1
  | n + 1, leaf, w, h => by
    obtain ⟨-, hrest, hsettled⟩ := h.next
    have ih := single_answers (n := n) ((leaf.next_items w).1.symm ▸ hsettled)
    rw [hrest, List.getElem?_tail] at ih
    exact ih

section Joined

variable {join : Join Leaf} {rounds : Nat} {w : Watch}

theorem joined_answers_zero : (joined join rounds).answers w 0 = (join.pull Leaf.next rounds w).1.join := rfl

theorem joined_answers_succ (n : Nat) : (joined join rounds).answers w (n + 1) =
    (joined (join.pull Leaf.next rounds w).2.1 rounds).answers (join.pull Leaf.next rounds w).2.2 n := rfl

/-- A closed join answers with nothing. -/
theorem closed_answers (h : join.closed = true) (n : Nat) : (joined join rounds).answers w n = none := by
  induction n generalizing join w with
  | zero => exact (Join.pull_closed h rounds w).1
  | succ n ih => exact (joined_answers_succ n).trans (ih (Join.pull_closed h rounds w).2)

/-- A join answers with the positions which are still to come, then perhaps with an expected fault, and then with
nothing. -/
theorem joined_answers {check : Option (Nat → Bool)} {expected : Fault → Prop} {m : List Position}
    (hserves : join.Serves (fun leaf => leading leaf.items) Leaf.bound rounds m)
    (hsound : join.Sound fun leaf => leaf.Settled check ∧ ∀ fault ∈ firstFault? leaf.items, expected fault)
    (hw : w.check = check) : ∃ fault? : Option Fault, (∀ fault, fault? = some fault → expected fault) ∧
      ∀ n, (joined join rounds).answers w n = (upToEnd m fault?)[n]? := by
  induction m generalizing join w with
  | nil =>
    obtain ⟨-, -, more, htakes, -, hcloses⟩ := Join.pull_steady (Leaf.steady check expected) hserves hsound hw
    -- nothing is to come: the pull finds the end or fails, and the join is closed in both cases
    have hpulled := @joined_answers_zero join rounds w
    generalize (join.pull Leaf.next rounds w).1.join = pulled at htakes hcloses hpulled
    obtain _ | fault | p := pulled
    · refine ⟨none, nofun, fun n => ?_⟩
      cases n with
      | zero => exact hpulled
      | succ n => exact (joined_answers_succ n).trans (closed_answers hcloses n)
    · obtain ⟨hclosed, -, hexpected⟩ := hcloses
      refine ⟨some fault, by rintro _ ⟨rfl⟩; exact hexpected, fun n => ?_⟩
      cases n with
      | zero => exact hpulled
      | succ n => exact (joined_answers_succ n).trans (closed_answers hclosed n)
    · cases htakes
  | cons p m ih =>
    obtain ⟨hcalm, hsound, more, htakes, hserves, hcloses⟩ :=
      Join.pull_steady (Leaf.steady check expected) hserves hsound hw
    have hpulled := @joined_answers_zero join rounds w
    generalize (join.pull Leaf.next rounds w).1.join = pulled at htakes hcloses hpulled
    obtain _ | fault | q := pulled
    · cases htakes.1
    · cases hcloses.2.1
    · obtain ⟨rfl, rfl⟩ : p = q ∧ m = more := by simpa [Takes] using htakes
      obtain ⟨fault?, hexpected, hanswers⟩ := ih hserves hsound hcalm
      refine ⟨fault?, hexpected, fun n => ?_⟩
      cases n with
      | zero => exact hpulled
      | succ n => exact (joined_answers_succ n).trans (hanswers n)

end Joined

/-- Ascending lists have some positions in common, in ascending order. -/
theorem exists_common {lists : List (List Position)} (hne : lists ≠ []) (hasc : ∀ l ∈ lists, Ascending l) :
    ∃ m, Join.Common lists m := by
  obtain ⟨first, rest, rfl⟩ := List.exists_cons_of_ne_nil hne
  refine ⟨first.filter fun p => rest.all fun l => l.contains p, hasc, ?_, fun p => ?_⟩
  · exact List.Pairwise.filter _ (hasc first List.mem_cons_self)
  · simp

/-- **The join of leaves is the intersection of their positions.** It yields the positions which all leaves have in
front of their first faults, ascending and each once, whether it ends or fails; then at most one fault, which is that of
one of the leaves; and then nothing, however often it is pulled. A single leaf is passed on as it is, so that nothing is
said of what it yields behind its fault. -/
theorem ofLeaves_answers {leaves : List Leaf} {w : Watch} (hasc : ∀ leaf ∈ leaves, Ascending (leading leaf.items))
    (hsettled : ∀ leaf ∈ leaves, leaf.Settled w.check) :
    ∃ (m : List Position) (fault? : Option Fault), Ascending m ∧
      (∀ p, p ∈ m ↔ leaves ≠ [] ∧ ∀ leaf ∈ leaves, p ∈ leading leaf.items) ∧
      (∀ fault, fault? = some fault → ∃ leaf ∈ leaves, firstFault? leaf.items = some fault) ∧
      ∀ n, n ≤ m.length ∨ leaves.length ≠ 1 → (ofLeaves leaves).answers w n = (upToEnd m fault?)[n]? := by
  match leaves with
  | [] => exact ⟨[], none, List.Pairwise.nil, by simp, nofun, fun n _ => @single_answers n (.listed []) w (.inr rfl)⟩
  | [leaf] =>
    refine ⟨leading leaf.items, firstFault? leaf.items, hasc leaf (by simp), by simp, by simp, fun n hn => ?_⟩
    have hanswers := single_answers (n := n) (hsettled leaf (by simp))
    exact hanswers.trans (getElem?_leading leaf.items (hn.resolve_right (by simp)))
  | first :: second :: more =>
    generalize hleaves : first :: second :: more = leaves at hasc hsettled ⊢
    have hne : leaves ≠ [] := hleaves ▸ nofun
    obtain ⟨m, hm⟩ := @exists_common (leaves.map fun leaf => leading leaf.items) (by simpa using hne)
      (List.forall_mem_map.2 hasc)
    have hgood : ∀ leaf ∈ leaves, leaf.Settled w.check ∧ ∀ fault ∈ firstFault? leaf.items,
        ∃ leaf ∈ leaves, firstFault? leaf.items = some fault :=
      fun leaf hleaf => ⟨hsettled leaf hleaf, fun fault hfault => ⟨leaf, hleaf, hfault⟩⟩
    obtain ⟨fault?, hexpected, hanswers⟩ := joined_answers (Join.serves_ofSources hne hm Nat.one_pos)
      (fun _ => List.forall_mem_map.2 hgood) rfl
    refine ⟨m, fault?, hm.ascending, fun p => by simpa [hne] using hm.mem p, hexpected, fun n _ => ?_⟩
    subst hleaves
    exact hanswers n

example : (List.range 4).map
    ((ofLeaves [.ofPositions [1, 2, 4, 8], .listed [.ok 2, .ok 4, .error (.external .io)]]).answers .never) =
    [some (.ok 2), some (.ok 4), some (.error (.external .io)), none] := by rfl

/-- Positions which are cut off by a fault, with one more behind it. -/
def cutOff : Leaf := .listed [.ok 1, .ok 2, .error (.external .io), .ok 3]

/-- A scan of four records, of which the second does not match. -/
def threeOfFour : Leaf := .scan "tags" false [.ok (some 1), .ok none, .ok (some 2), .ok (some 3)]

/-- A leaf that is cut off joined with a scan which asks nothing, for a client who has gone away. -/
theorem ofLeaves_answers_cutOff : ∃ (m : List Position) (fault? : Option Fault), Ascending m ∧
    (∀ p, p ∈ m ↔ [cutOff, threeOfFour] ≠ [] ∧ ∀ leaf ∈ [cutOff, threeOfFour], p ∈ leading leaf.items) ∧
    (∀ fault, fault? = some fault → ∃ leaf ∈ [cutOff, threeOfFour], firstFault? leaf.items = some fault) ∧
    ∀ n, n ≤ m.length ∨ [cutOff, threeOfFour].length ≠ 1 →
      (ofLeaves [cutOff, threeOfFour]).answers (.ofCheck fun _ => true) n = (upToEnd m fault?)[n]? :=
  ofLeaves_answers
    (by simp [show leading cutOff.items = [1, 2] from rfl, show leading threeOfFour.items = [1, 2, 3] from rfl,
      Ascending])
    (by simp [cutOff, threeOfFour, Leaf.Settled, Leaf.quiet])

end Strand

end RecordServer
