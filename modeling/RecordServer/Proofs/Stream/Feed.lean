import Mathlib.Data.List.Sort
import RecordServer.Proofs.Stream.Join
import RecordServer.Proofs.Stream.Leaf

/-!
# What a feed yields

The positions which a feed has still to yield (`Feed.Serves`) are those of its leaf, or those which its leaves have in
common. A pull takes the first of them, or fails (`Feed.next_takes`); so whatever happens on the way, a feed yields
nothing else (`Feed.take_sublist`).
-/

namespace RecordServer

namespace Leaf

/-- The positions that are still to come. -/
def rest (leaf : Leaf) : List Position := reached leaf.items

/-- A leaf takes its positions one by one, and has no more of them than its bound. -/
theorem honest : Join.Honest next rest bound where
  takes leaf w := by
    unfold rest
    obtain ⟨-, ⟨hpulled, hrest⟩ | ⟨-, hpulled, hrest⟩⟩ := leaf.next_items w
    · rw [hpulled, hrest]
      match leaf.items with
      | [] => exact ⟨rfl, rfl⟩
      | .ok p :: _ => rfl
      | .error _ :: _ => exact List.suffix_refl _
    · rw [hpulled, hrest]
      exact List.nil_suffix
  bound_lt _ _ h := bound_next_lt h

end Leaf

/-! ## Strands -/

namespace Strand

/-- The positions which a strand has still to yield. -/
def Serves : Strand → List Position → Prop
  | single leaf, m => leaf.rest = m
  | joined join rounds, m => join.Serves Leaf.rest Leaf.bound rounds m

/-- A pull of a strand takes the first of the positions to come. -/
theorem next_takes {s : Strand} {m : List Position} (h : s.Serves m) (w : Watch) :
    ∃ more, Takes (s.next w).1 m more ∧ (s.next w).2.1.Serves more := by
  cases s with
  | single leaf => exact ⟨_, h ▸ Leaf.honest.takes leaf w, rfl⟩
  | joined join rounds => exact Join.pull_takes Leaf.honest h w

/-- The intersection of leaves has to yield what they have in common. -/
theorem serves_ofLeaves {leaves : List Leaf} {m : List Position} (hne : leaves ≠ [])
    (hm : Join.Common (leaves.map Leaf.rest) m) : (ofLeaves leaves).Serves m := by
  match leaves with
  | [leaf] =>
    refine (hm.each leaf.rest (by simp)).eq_of_mem_iff hm.ascending fun p => ?_
    simp [hm.mem p]
  | _ :: _ :: _ => exact Join.serves_ofSources hne hm Nat.one_pos

end Strand

/-! ## Feeds -/

namespace Feed

/-- The positions which a feed has still to yield: none once it has been cancelled. -/
def Serves (f : Feed) (m : List Position) : Prop := if f.cancelled then m = [] else f.strand.Serves m

/-- **A pull of a feed takes the first of the positions to come, or fails.** -/
theorem next_takes {f : Feed} {m : List Position} (h : f.Serves m) (w : Watch) :
    ∃ more, Takes (f.next w).1 m more ∧ (f.next w).2.1.Serves more := by
  obtain ⟨strand, guarded, _ | _⟩ := f
  · have h : strand.Serves m := h
    unfold next
    generalize (if guarded then w.ask else (false, w)) = asked
    obtain ⟨_ | _, v⟩ := asked
    · exact Strand.next_takes h v
    · exact ⟨[], List.nil_suffix, rfl⟩
  · have h : m = [] := h
    exact ⟨[], ⟨h, rfl⟩, rfl⟩

/-- A feed which is executed yields nothing but the positions to come, in their order. -/
theorem take_sublist {f : Feed} {m : List Position} (h : f.Serves m) : ∀ (count : Nat) (w : Watch),
    (reached (f.take count w).1).Sublist m := by
  intro count
  induction count generalizing f m with
  | zero => exact fun _ => List.nil_sublist m
  | succ count ih =>
    intro w
    obtain ⟨more, htakes, hserves⟩ := next_takes h w
    unfold take
    generalize f.next w = pulled at htakes hserves ⊢
    obtain ⟨_ | _ | p, g, v⟩ := pulled
    · exact List.nil_sublist m
    · exact (ih hserves v).trans htakes.suffix.sublist
    · have hm : m = p :: more := htakes
      exact hm ▸ (ih hserves v).cons_cons p

end Feed

end RecordServer
