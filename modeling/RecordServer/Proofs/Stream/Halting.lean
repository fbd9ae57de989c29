import RecordServer.Proofs.Stream.Leaf

/-!
# Feeds that are cancelled

A watch is running as long as its check has denied every question (`Watch.Running`); it has halted once the check has
answered that the client has gone away, if nothing has happened since (`Watch.Halted`). A pull of a leaf, of a join and
of a feed that begins under a running watch leaves a running one, or else it has halted and the pull says so
(`Feed.next_heeds`): no answer is swallowed on the way from a leaf through the join around it.
-/

namespace RecordServer

/-- A pull leaves a calm world, or else one that has been halted, and then it reports `gone`. -/
def Heeds {ε σ ω : Type} (calm halted : ω → Prop) (gone : ε) (a : Pulled ε × σ × ω) : Prop :=
  calm a.2.2 ∨ (halted a.2.2 ∧ a.1 = some (.error gone))

/-! ## Joins -/

namespace Join

variable {σ ω ε : Type} {next : σ → ω → Pulled ε × σ × ω} {calm halted : ω → Prop} {gone : ε}

/-- Filling the heads stops at the first source which reports that the world has been halted. -/
theorem fill_heeds (h : ∀ s w, calm w → Heeds calm halted gone (next s w)) : ∀ (sources : List (σ × Option Nat))
    (w : ω), calm w → calm (fill next sources w).2.2 ∨
      (halted (fill next sources w).2.2 ∧ (fill next sources w).1 = .failed gone)
  | [], w, hw => .inl hw
  | (s, some p) :: sources, w, hw => fill_heeds h sources w hw
  | (s, none) :: sources, w, hw => by
    have hnext := h s w hw
    unfold fill
    generalize next s w = a at hnext ⊢
    obtain ⟨pulled, s', w'⟩ := a
    rcases hnext with hcalm | ⟨hhalted, hgone⟩
    · rcases pulled with _ | _ | p
      · exact .inl hcalm
      · exact .inl hcalm
      · exact fill_heeds h sources w' hcalm
    · simp only at hgone
      subst hgone
      exact .inr ⟨hhalted, rfl⟩

theorem round_heeds (h : ∀ s w, calm w → Heeds calm halted gone (next s w)) (j : Join σ) (w : ω) (hw : calm w) :
    calm (round next j w).2.2 ∨
      (halted (round next j w).2.2 ∧ (round next j w).1 = some (some (.error gone))) := by
  have hfill := fill_heeds h j.sources w hw
  unfold round
  split
  · exact .inl hw
  · generalize fill next j.sources w = a at hfill ⊢
    obtain ⟨filled, sources, w'⟩ := a
    rcases hfill with hcalm | ⟨hhalted, hgone⟩
    · rcases filled with _ | _ | e
      · simp only
        cases top sources with
        | none => exact .inl hcalm
        | some p =>
          simp only
          split
          · exact .inl hcalm
          · exact .inl hcalm
      · exact .inl hcalm
      · exact .inl hcalm
    · simp only at hgone
      subst hgone
      exact .inr ⟨hhalted, rfl⟩

/-- A pull of a join reports what one of its sources reports. -/
theorem pull_heeds (h : ∀ s w, calm w → Heeds calm halted gone (next s w)) : ∀ (rounds : Nat) (j : Join σ) (w : ω),
    calm w → calm (pull next rounds j w).2.2 ∨
      (halted (pull next rounds j w).2.2 ∧ (pull next rounds j w).1 = some (some (.error gone)))
  | 0, _, _, hw => .inl hw
  | rounds + 1, j, w, hw => by
    have hround := round_heeds h j w hw
    unfold pull
    generalize round next j w = a at hround ⊢
    obtain ⟨answer, k, w'⟩ := a
    rcases hround with hcalm | ⟨hhalted, hgone⟩
    · -- a round without an answer is followed by another one, under a watch that is still running
      cases answer with
      | none => exact pull_heeds h rounds k w' hcalm
      | some pulled => exact .inl hcalm
    · simp only at hgone
      subst hgone
      exact .inr ⟨hhalted, rfl⟩

end Join

/-! ## Watches -/

namespace Watch

variable {check : Nat → Bool} {w : Watch}

/-- Every question has been denied so far. -/
structure Running (check : Nat → Bool) (w : Watch) : Prop where
  answers : w.check = some check
  denied : ∀ n < w.asked, check n = false
  journal : .asked true ∉ w.journal

/-- The last thing that has happened is that the check has answered, for the first time, that the client has gone
away. -/
structure Halted (check : Nat → Bool) (w : Watch) : Prop where
  answered : ∃ n, w.asked = n + 1 ∧ check n = true ∧ ∀ m < n, check m = false
  journal : ∃ before, w.journal = .asked true :: before ∧ .asked true ∉ before

theorem running_ofCheck (check : Nat → Bool) : (ofCheck check).Running check := ⟨rfl, nofun, List.not_mem_nil⟩

/-- Whatever else happens, the watch is still running. -/
theorem Running.note (h : w.Running check) {happening : Happening} (hne : happening ≠ .asked true) :
    (w.note happening).Running check :=
  ⟨h.answers, h.denied, fun hmem => (List.mem_cons.1 hmem).elim (fun heq => hne heq.symm) h.journal⟩

/-- A question is denied, or the watch has halted. -/
theorem Running.ask (h : w.Running check) :
    (w.ask.1 = false ∧ w.ask.2.Running check) ∨ (w.ask.1 = true ∧ w.ask.2.Halted check) := by
  obtain ⟨hanswers, hdenied, hjournal⟩ := h
  have hask : w.ask = (check w.asked,
      { w with asked := w.asked + 1, journal := .asked (check w.asked) :: w.journal }) := by
    unfold Watch.ask
    rw [hanswers]
  rw [hask]
  cases hanswer : check w.asked with
  | false =>
    refine .inl ⟨rfl, hanswers, fun n hn => ?_, by simpa using hjournal⟩
    rcases Nat.lt_succ_iff_lt_or_eq.1 hn with hn | rfl
    · exact hdenied n hn
    · exact hanswer
  | true => exact .inr ⟨rfl, ⟨w.asked, rfl, hanswer, hdenied⟩, w.journal, rfl, hjournal⟩

/-- So it is if the question is asked only by what is guarded. -/
theorem Running.asked (h : w.Running check) (guarded : Bool) {cancelled : Bool} {v : Watch}
    (hv : (if guarded then w.ask else (false, w)) = (cancelled, v)) :
    (cancelled = false ∧ v.Running check) ∨ (cancelled = true ∧ v.Halted check) := by
  cases guarded with
  | false =>
    cases hv
    exact .inl ⟨rfl, h⟩
  | true =>
    have hask := h.ask
    have hv : w.ask = (cancelled, v) := hv
    rwa [hv] at hask

end Watch

/-! ## Leaves and feeds -/

variable {check : Nat → Bool} {w : Watch}

/-- What is pulled while a client may go away. -/
abbrev Watch.Heeded {σ : Type} (check : Nat → Bool) (a : Pulled Fault × σ × Watch) : Prop :=
  Heeds (Watch.Running check) (Watch.Halted check) Fault.gone a

open Watch (Heeded)

namespace Leaf

theorem readOn_heeds (input : String) (guarded : Bool) : ∀ (rest : List (Except Fault (Option Position))) {w : Watch},
    w.Running check → Heeded check (readOn input guarded rest w)
  | [], w, hw => by
    unfold readOn
    rcases hasked : (if guarded then w.ask else (false, w)) with ⟨cancelled, v⟩
    rcases hw.asked guarded hasked with ⟨rfl, hv⟩ | ⟨rfl, hv⟩
    · exact .inl hv
    · exact .inr ⟨hv, rfl⟩
  | record :: rest, w, hw => by
    unfold readOn
    rcases hasked : (if guarded then w.ask else (false, w)) with ⟨cancelled, v⟩
    rcases hw.asked guarded hasked with ⟨rfl, hv⟩ | ⟨rfl, hv⟩
    · have hnoted : (v.note (.scanned input)).Running check := hv.note Happening.noConfusion
      rcases record with fault | _ | position
      · exact .inl hnoted
      · exact readOn_heeds input guarded rest hnoted
      · exact .inl hnoted
    · exact .inr ⟨hv, rfl⟩

theorem next_heeds (leaf : Leaf) (w : Watch) (hw : w.Running check) : Heeded check (leaf.next w) := by
  match leaf with
  | listed [] => exact .inl hw
  | listed (item :: rest) => exact .inl hw
  | scan input guarded rest => exact readOn_heeds input guarded rest hw

end Leaf

theorem Strand.next_heeds (s : Strand) (hw : w.Running check) : Heeded check (s.next w) := by
  cases s with
  | single leaf => exact leaf.next_heeds w hw
  | joined join rounds =>
    refine (Join.pull_heeds Leaf.next_heeds rounds join w hw).imp id fun ⟨hhalted, hgone⟩ => ⟨hhalted, ?_⟩
    exact congrArg Option.join hgone

/-- **A pull of a feed heeds the check**: the watch is still running, or it has halted and the pull says so. -/
theorem Feed.next_heeds (f : Feed) (hw : w.Running check) : Heeded check (f.next w) := by
  unfold next
  split
  · exact .inl hw
  · rcases hasked : (if f.guarded then w.ask else (false, w)) with ⟨cancelled, v⟩
    rcases hw.asked f.guarded hasked with ⟨rfl, hv⟩ | ⟨rfl, hv⟩
    · exact f.strand.next_heeds hv
    · exact .inr ⟨hv, rfl⟩

end RecordServer
