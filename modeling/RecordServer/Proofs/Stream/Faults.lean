import RecordServer.Proofs.Fault
import RecordServer.Proofs.Stream.Leaf

/-!
# The faults of a feed

A feed fails with what is among the items of its leaves, or because the client has gone away: if all items that are
faults have certain causes (`Feed.Admits`), so has whatever a pull reports, and so it stays for the pulls to come
(`Feed.admits_next`). A join adds no faults of its own.
-/

namespace RecordServer

/-- A pull of a source reports an ordinary error, if any, and leaves a good source. -/
def Yields {ε σ ω : Type} (good : σ → Prop) (ordinary : ε → Prop) (a : Pulled ε × σ × ω) : Prop :=
  (∀ e, a.1 = some (.error e) → ordinary e) ∧ good a.2.1

/-! ## Joins -/

namespace Join

variable {σ ω ε : Type} {next : σ → ω → Pulled ε × σ × ω} {good : σ → Prop} {ordinary : ε → Prop}

/-- All sources are good. -/
def AllGood (good : σ → Prop) (sources : List (σ × Option Nat)) : Prop := ∀ source ∈ sources, good source.1

theorem fill_good (h : ∀ s w, good s → Yields good ordinary (next s w)) : ∀ (sources : List (σ × Option Nat)) (w : ω),
    AllGood good sources → (∀ e, (fill next sources w).1 = .failed e → ordinary e) ∧
      AllGood good (fill next sources w).2.1
  | [], _, _ => ⟨nofun, nofun⟩
  | (s, some p) :: sources, w, hgood => by
    obtain ⟨hs, hsources⟩ := List.forall_mem_cons.1 hgood
    obtain ⟨hfailed, hfilled⟩ := fill_good h sources w hsources
    exact ⟨hfailed, List.forall_mem_cons.2 ⟨hs, hfilled⟩⟩
  | (s, none) :: sources, w, hgood => by
    obtain ⟨hs, hsources⟩ := List.forall_mem_cons.1 hgood
    have hnext := h s w hs
    unfold fill
    generalize next s w = a at hnext ⊢
    obtain ⟨pulled, s', v⟩ := a
    obtain ⟨hordinary, hs'⟩ := hnext
    rcases pulled with _ | e | p
    · exact ⟨nofun, List.forall_mem_cons.2 ⟨hs', hsources⟩⟩
    · refine ⟨fun other hother => ?_, List.forall_mem_cons.2 ⟨hs', hsources⟩⟩
      cases hother
      exact hordinary e rfl
    · obtain ⟨hfailed, hfilled⟩ := fill_good h sources v hsources
      exact ⟨hfailed, List.forall_mem_cons.2 ⟨hs', hfilled⟩⟩

theorem round_good (h : ∀ s w, good s → Yields good ordinary (next s w)) (j : Join σ) (w : ω)
    (hgood : AllGood good j.sources) : (∀ e, (round next j w).1 = some (some (.error e)) → ordinary e) ∧
      AllGood good (round next j w).2.1.sources := by
  obtain ⟨hfailed, hfilled⟩ := fill_good h j.sources w hgood
  unfold round
  split
  · exact ⟨nofun, hgood⟩
  · generalize fill next j.sources w = a at hfailed hfilled ⊢
    obtain ⟨filled, sources, v⟩ := a
    rcases filled with _ | _ | e
    · simp only
      cases top sources with
      | none => exact ⟨nofun, hfilled⟩
      | some p =>
        simp only
        split
        · exact ⟨nofun, List.forall_mem_map.2 hfilled⟩
        · exact ⟨nofun, List.forall_mem_map.2 hfilled⟩
    · exact ⟨nofun, hfilled⟩
    · refine ⟨fun other hother => ?_, hfilled⟩
      cases hother
      exact hfailed e rfl

/-- A pull of a join reports no error but those of its sources. -/
theorem pull_good (h : ∀ s w, good s → Yields good ordinary (next s w)) : ∀ (rounds : Nat) (j : Join σ) (w : ω),
    AllGood good j.sources → (∀ e, (pull next rounds j w).1 = some (some (.error e)) → ordinary e) ∧
      AllGood good (pull next rounds j w).2.1.sources
  | 0, _, _, hgood => ⟨nofun, hgood⟩
  | rounds + 1, j, w, hgood => by
    obtain ⟨hordinary, hleft⟩ := round_good h j w hgood
    unfold pull
    generalize round next j w = a at hordinary hleft ⊢
    obtain ⟨_ | pulled, k, v⟩ := a
    · exact pull_good h rounds k v hleft
    · exact ⟨hordinary, hleft⟩

end Join

/-! ## Leaves and feeds -/

variable {causes : Cause → Prop}

/-- The faults among the items of a leaf have certain causes. -/
def Leaf.Admits (causes : Cause → Prop) (leaf : Leaf) : Prop := ∀ item ∈ leaf.items, Raises causes item

/-- So have those of the leaves of a strand. -/
def Strand.Admits (causes : Cause → Prop) : Strand → Prop
  | single leaf => leaf.Admits causes
  | joined join _ => Join.AllGood (Leaf.Admits causes) join.sources

/-- So have those of a feed. -/
def Feed.Admits (causes : Cause → Prop) (f : Feed) : Prop := f.strand.Admits causes

theorem Leaf.admits_next (hgone : causes .cancelled) (leaf : Leaf) (w : Watch) (h : leaf.Admits causes) :
    Yields (Leaf.Admits causes) (fun fault : Fault => causes fault.cause) (leaf.next w) := by
  obtain ⟨-, ⟨hpulled, hitems⟩ | ⟨-, hpulled, hitems⟩⟩ := leaf.next_items w
  · refine ⟨fun fault hfault => ?_, fun item hitem => ?_⟩
    · exact h _ (List.mem_of_mem_head? (hpulled.symm.trans hfault)) fault rfl
    · rw [hitems] at hitem
      exact h item (List.mem_of_mem_tail hitem)
  · refine ⟨fun fault hfault => ?_, fun item hitem => ?_⟩
    · cases hpulled.symm.trans hfault
      exact hgone
    · rw [hitems] at hitem
      cases hitem

theorem Strand.admits_next (hgone : causes .cancelled) {s : Strand} (h : s.Admits causes) (w : Watch) :
    Yields (Strand.Admits causes) (fun fault : Fault => causes fault.cause) (s.next w) := by
  cases s with
  | single leaf => exact leaf.admits_next hgone w h
  | joined join rounds =>
    obtain ⟨hordinary, hleft⟩ := Join.pull_good (Leaf.admits_next hgone) rounds join w h
    refine ⟨fun fault hfault => hordinary fault ?_, hleft⟩
    exact (Option.join_eq_some_iff).1 hfault

theorem Strand.admits_ofLeaves {leaves : List Leaf} (h : ∀ leaf ∈ leaves, leaf.Admits causes) :
    (ofLeaves leaves).Admits causes := by
  match leaves with
  | [] => exact nofun
  | [leaf] => exact h leaf List.mem_cons_self
  | _ :: _ :: _ => exact List.forall_mem_map.2 h

/-- **A pull of a feed reports no other faults than those of its items**, unless the client has gone away. -/
theorem Feed.admits_next (hgone : causes .cancelled) {f : Feed} (h : f.Admits causes) (w : Watch) :
    Yields (Feed.Admits causes) (fun fault : Fault => causes fault.cause) (f.next w) := by
  unfold next
  split
  · exact ⟨nofun, h⟩
  · generalize (if f.guarded then w.ask else (false, w)) = asked
    obtain ⟨_ | _, v⟩ := asked
    · exact f.strand.admits_next hgone h v
    · refine ⟨fun fault hfault => ?_, h⟩
      cases hfault
      exact hgone

end RecordServer
