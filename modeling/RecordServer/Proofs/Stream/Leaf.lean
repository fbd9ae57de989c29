import RecordServer.Stream.Feed
import RecordServer.Proofs.Input.Order

/-!
# What a leaf yields

The view of a leaf is the list of positions and faults that are still to come (`Leaf.items`). A pull takes the first of
them, or else reports that the client has gone away (`Leaf.next_items`); it shortens what is to come
(`Leaf.bound_next_lt`). So a leaf which is pulled up to the end under a watch without a check yields its items
(`Feed.all_single`).
-/

namespace RecordServer

namespace Watch

@[simp] theorem check_note (w : Watch) (happening : Happening) : (w.note happening).check = w.check := rfl

@[simp] theorem check_never : never.check = none := rfl

@[simp] theorem check_ask (w : Watch) : w.ask.2.check = w.check := by
  unfold ask
  split <;> simp_all

/-- Without a check nothing is cancelled and nothing is noted. -/
theorem ask_of_check {w : Watch} (h : w.check = none) : w.ask = (false, w) := by
  simp [ask, h]

end Watch

/-- The fault that reports a client who has gone away. -/
def Fault.gone : Fault := Cause.cancelled

namespace Leaf

/-- What a record that has been read comes to: a fault, a position, or nothing if it does not match. -/
def found? : Except Fault (Option Position) → Option (Except Fault Position)
  | .error fault => some (.error fault)
  | .ok match? => match?.map .ok

/-- The positions and faults that are still to come. -/
def items : Leaf → List (Except Fault Position)
  | listed rest => rest
  | scan _ _ rest => rest.filterMap found?

@[simp] theorem items_listed (rest : List (Except Fault Position)) : (listed rest).items = rest := rfl

@[simp] theorem items_ofPositions (positions : List Position) : (ofPositions positions).items = positions.map .ok := rfl

/-- A question keeps the check, and nothing is cancelled without one. -/
theorem asked_check (guarded : Bool) (w : Watch) : (if guarded then w.ask else (false, w)).2.check = w.check ∧
    ((if guarded then w.ask else (false, w)).1 = true → w.check ≠ none) := by
  cases guarded with
  | false => simp
  | true => exact ⟨w.check_ask, fun ha hw => by simp [Watch.ask_of_check hw] at ha⟩

/-- Reading on takes the first item, or reports that the client has gone away. -/
theorem readOn_items (input : String) (guarded : Bool) : ∀ (rest : List (Except Fault (Option Position))) (w : Watch),
    (readOn input guarded rest w).2.2.check = w.check ∧
    (((readOn input guarded rest w).1 = (rest.filterMap found?).head? ∧
        (readOn input guarded rest w).2.1.items = (rest.filterMap found?).tail) ∨
      w.check ≠ none ∧ (readOn input guarded rest w).1 = some (.error Fault.gone) ∧
        (readOn input guarded rest w).2.1.items = [])
  | [], w => by
    unfold readOn
    obtain ⟨hcheck, hgone⟩ := asked_check guarded w
    generalize (if guarded then w.ask else (false, w)) = asked at hcheck hgone ⊢
    obtain ⟨_ | _, v⟩ := asked
    · exact ⟨hcheck, .inl ⟨rfl, rfl⟩⟩
    · exact ⟨hcheck, .inr ⟨hgone rfl, rfl, rfl⟩⟩
  | record :: rest, w => by
    unfold readOn
    obtain ⟨hcheck, hgone⟩ := asked_check guarded w
    generalize (if guarded then w.ask else (false, w)) = asked at hcheck hgone ⊢
    obtain ⟨_ | _, v⟩ := asked
    · match record with
      | .error fault => exact ⟨hcheck, .inl ⟨rfl, rfl⟩⟩
      | .ok (some position) => exact ⟨hcheck, .inl ⟨rfl, rfl⟩⟩
      | .ok none => exact hcheck ▸ readOn_items input guarded rest (v.note (.scanned input))
    · exact ⟨hcheck, .inr ⟨hgone rfl, rfl, rfl⟩⟩

/-- **A pull takes the first item, or reports that the client has gone away**; the latter only if there is a check. -/
theorem next_items (leaf : Leaf) (w : Watch) : (leaf.next w).2.2.check = w.check ∧
    (((leaf.next w).1 = leaf.items.head? ∧ (leaf.next w).2.1.items = leaf.items.tail) ∨
      w.check ≠ none ∧ (leaf.next w).1 = some (.error Fault.gone) ∧ (leaf.next w).2.1.items = []) := by
  match leaf with
  | listed [] => exact ⟨rfl, .inl ⟨rfl, rfl⟩⟩
  | listed (item :: rest) => exact ⟨rfl, .inl ⟨rfl, rfl⟩⟩
  | scan input guarded rest => exact readOn_items input guarded rest w

/-- Reading on up to something leaves less to come. -/
theorem bound_readOn_lt (input : String) (guarded : Bool) : ∀ (rest : List (Except Fault (Option Position)))
    (w : Watch), (readOn input guarded rest w).1.isSome →
    (readOn input guarded rest w).2.1.bound < (scan input guarded rest).bound
  | [], w => by
    unfold readOn
    generalize (if guarded then w.ask else (false, w)) = asked
    obtain ⟨_ | _, v⟩ := asked
    · exact nofun
    · simp [bound]
  | record :: rest, w => by
    unfold readOn
    generalize (if guarded then w.ask else (false, w)) = asked
    obtain ⟨_ | _, v⟩ := asked
    · match record with
      | .error fault => simp [bound]
      | .ok (some position) => simp [bound]
      | .ok none =>
        intro h
        exact Nat.lt_succ_of_lt (bound_readOn_lt input guarded rest (v.note (.scanned input)) h)
    · simp [bound]

/-- A pull that yields something leaves less to come. -/
theorem bound_next_lt {leaf : Leaf} {w : Watch} (h : (leaf.next w).1.isSome) :
    (leaf.next w).2.1.bound < leaf.bound := by
  match leaf with
  | listed [] => simp [next] at h
  | listed (item :: rest) => simp [next, bound]
  | scan input guarded rest => exact bound_readOn_lt input guarded rest w h

/-- The bound of a leaf allows for all its items. -/
theorem length_items_le (leaf : Leaf) : leaf.items.length ≤ leaf.bound := by
  cases leaf with
  | listed rest => exact Nat.le_refl _
  | scan input guarded rest => exact Nat.le_succ_of_le (List.length_filterMap_le _ _)

end Leaf

namespace Feed

/-- Pulling a leaf without a check a number of times gives as many of its items. -/
theorem take_single (guarded : Bool) : ∀ (count : Nat) (leaf : Leaf) (w : Watch), w.check = none →
    (take count (ofStrand (.single leaf) guarded) w).1 = leaf.items.take count
  | 0, _, _, _ => by simp [take]
  | count + 1, leaf, w, hw => by
    obtain ⟨hcheck, ⟨hpulled, hrest⟩ | ⟨hne, -⟩⟩ := leaf.next_items w
    · have hnext : (ofStrand (.single leaf) guarded).next w =
          ((leaf.next w).1, ofStrand (.single (leaf.next w).2.1) guarded, (leaf.next w).2.2) := by
        cases guarded <;> simp [next, ofStrand, Watch.ask_of_check hw, Strand.next]
      have ih := take_single guarded count (leaf.next w).2.1 (leaf.next w).2.2 (hcheck.trans hw)
      rw [hrest] at ih
      unfold take
      rw [hnext, hpulled]
      cases hi : leaf.items with
      | nil => simp
      | cons item rest => simpa [hi] using ih
    · exact absurd hw hne

/-- **Without a check a leaf yields all its items.** -/
theorem all_single (leaf : Leaf) (guarded : Bool) {w : Watch} (hw : w.check = none) :
    (ofStrand (.single leaf) guarded).all w = leaf.items := by
  unfold all
  rw [take_single guarded _ leaf w hw, List.take_of_length_le]
  exact Nat.le_succ_of_le leaf.length_items_le

end Feed

end RecordServer
