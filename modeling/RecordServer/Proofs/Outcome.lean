import Mathlib.Data.List.Forall2

/-!
# Outcomes

What has led to a success: each step of the computation has been one (`ok_of_bind`, `ok_of_map`, `ok_of_mapM`), also if
the computation has a state (`ok_of_run_bind`).

What holds along a computation with a state, whether it succeeds or fails (`Upholds`): there is one rule for each way to
compose computations.
-/

namespace RecordServer

variable {ε α β : Type}

theorem ok_of_bind {a : Except ε α} {f : α → Except ε β} {b : β} (h : a >>= f = .ok b) :
    ∃ x, a = .ok x ∧ f x = .ok b := by
  cases a with
  | error e => cases h
  | ok x => exact ⟨x, rfl, h⟩

theorem ok_of_map {a : Except ε α} {f : α → β} {b : β} (h : a.map f = .ok b) : ∃ x, a = .ok x ∧ f x = b := by
  cases a with
  | error e => cases h
  | ok x => exact ⟨x, rfl, Except.ok.inj h⟩

theorem ok_of_toOption {a : Except ε α} {x : α} (h : a.toOption = some x) : a = .ok x := by
  cases a with
  | error e => cases h
  | ok y => exact congrArg Except.ok (Option.some.inj h)

theorem ok_of_mapM {f : α → Except ε β} : ∀ {as : List α} {bs : List β}, as.mapM f = .ok bs →
    List.Forall₂ (fun a b => f a = .ok b) as bs
  | [], bs, h => by
    cases h
    exact .nil
  | a :: as, bs, h => by
    rw [List.mapM_cons] at h
    obtain ⟨b, hb, h⟩ := ok_of_bind h
    obtain ⟨more, hmore, h⟩ := ok_of_bind h
    cases h
    exact .cons hb (ok_of_mapM hmore)

theorem ok_of_forM {f : α → Except ε Unit} : ∀ {as : List α}, as.forM f = .ok () → ∀ a ∈ as, f a = .ok ()
  | [], _ => nofun
  | a :: as, h => by
    obtain ⟨⟨⟩, hfirst, hrest⟩ := ok_of_bind h
    exact List.forall_mem_cons.2 ⟨hfirst, ok_of_forM hrest⟩

/-- If all outcomes together are a success, each of them is one. -/
theorem all_of_mapM_id {as : List (Except ε α)} {bs : List α} (h : as.mapM id = .ok bs) : as = bs.map .ok := by
  rw [← List.forall₂_eq_eq_eq, List.forall₂_map_right_iff]
  exact ok_of_mapM h

/-- Successes are the same if their values are. -/
theorem all_injective {as bs : List α} (h : (as.map .ok : List (Except ε α)) = bs.map .ok) : as = bs :=
  List.map_injective_iff.2 (fun _ _ => Except.ok.inj) h

/-- What corresponds to the elements of a list comes from them. -/
theorem mem_of_forall₂ {γ : Type} {R : α → γ → Prop} : ∀ {as : List α} {bs : List γ}, List.Forall₂ R as bs →
    ∀ b ∈ bs, ∃ a ∈ as, R a b
  | [], [], _, b, hb => absurd hb List.not_mem_nil
  | a :: as, _ :: _, .cons hfirst hrest, b, hb => by
    rcases List.mem_cons.1 hb with rfl | hb
    · exact ⟨a, List.mem_cons_self, hfirst⟩
    · obtain ⟨other, hother, h⟩ := mem_of_forall₂ hrest b hb
      exact ⟨other, List.mem_cons_of_mem a hother, h⟩

/-- What corresponds to one element of a list, and what to those behind it. -/
theorem split_of_forall₂ {γ : Type} {R : α → γ → Prop} {a : α} {after : List α} : ∀ {before : List α} {bs : List γ},
    List.Forall₂ R (before ++ a :: after) bs →
    ∃ before' b after', bs = before' ++ b :: after' ∧ R a b ∧ List.Forall₂ R after after'
  | [], b :: bs, .cons hfirst hrest => ⟨[], b, bs, rfl, hfirst, hrest⟩
  | _ :: before, b :: bs, .cons _ hrest => by
    obtain ⟨before', found, after', rfl, hab, hafter⟩ := split_of_forall₂ hrest
    exact ⟨b :: before', found, after', rfl, hab, hafter⟩

/-- Each result comes from an element, and each element has a result. -/
theorem mem_of_mapM {f : α → Except ε β} {as : List α} {bs : List β} (h : as.mapM f = .ok bs) :
    (∀ b ∈ bs, ∃ a ∈ as, f a = .ok b) ∧ ∀ a ∈ as, ∃ b ∈ bs, f a = .ok b :=
  ⟨mem_of_forall₂ (ok_of_mapM h), mem_of_forall₂ (ok_of_mapM h).flip⟩

/-- A failure is that of an element. -/
theorem error_of_mapM {f : α → Except ε β} {e : ε} : ∀ {as : List α}, as.mapM f = .error e → ∃ a ∈ as, f a = .error e
  | [], h => by cases h
  | a :: as, h => by
    rw [List.mapM_cons] at h
    cases hfirst : f a with
    | error first =>
      rw [hfirst] at h
      cases h
      exact ⟨a, List.mem_cons_self, hfirst⟩
    | ok b =>
      rw [hfirst] at h
      cases hrest : as.mapM f with
      | error rest =>
        obtain ⟨c, hc, hfail⟩ := error_of_mapM hrest
        rw [hrest] at h
        cases h
        exact ⟨c, List.mem_cons_of_mem _ hc, hfail⟩
      | ok bs =>
        rw [hrest] at h
        cases h

/-! ## With a state -/

section

variable {σ : Type} {a : ExceptT ε (StateM σ) α} {f : α → ExceptT ε (StateM σ) β} {s t : σ}

theorem run_bind_ok {x : α} (h : a.run s = (.ok x, t)) : (a >>= f).run s = (f x).run t := by
  have : (a >>= f).run s = (ExceptT.bindCont f (a.run s).1 : StateM σ (Except ε β)) (a.run s).2 := rfl
  rw [this, h]
  rfl

theorem run_bind_error {e : ε} (h : a.run s = (.error e, t)) : (a >>= f).run s = (.error e, t) := by
  have : (a >>= f).run s = (ExceptT.bindCont f (a.run s).1 : StateM σ (Except ε β)) (a.run s).2 := rfl
  rw [this, h]
  rfl

theorem ok_of_run_bind {b : β} (h : (a >>= f).run s = (.ok b, t)) :
    ∃ x u, a.run s = (.ok x, u) ∧ (f x).run u = (.ok b, t) := by
  rcases ha : a.run s with ⟨e | x, u⟩
  · rw [run_bind_error ha] at h
    cases h
  · exact ⟨x, u, rfl, (run_bind_ok ha).symm.trans h⟩

/-- Each result comes from the element in its place, in some state. -/
theorem forall₂_of_run_mapM {f : α → ExceptT ε (StateM σ) β} : ∀ {as : List α} {bs : List β} {s t : σ},
    (as.mapM f).run s = (.ok bs, t) → List.Forall₂ (fun a b => ∃ u v, (f a).run u = (.ok b, v)) as bs
  | [], bs, s, t, h => by
    cases h
    exact .nil
  | a :: as, bs, s, t, h => by
    rw [List.mapM_cons] at h
    obtain ⟨b, u, hfirst, h⟩ := ok_of_run_bind h
    obtain ⟨more, v, hmore, h⟩ := ok_of_run_bind h
    cases h
    exact .cons ⟨s, u, hfirst⟩ (forall₂_of_run_mapM hmore)

theorem length_of_run_mapM {f : α → ExceptT ε (StateM σ) β} {as : List α} {bs : List β}
    (h : (as.mapM f).run s = (.ok bs, t)) : bs.length = as.length :=
  (forall₂_of_run_mapM h).length_eq.symm

end

/-! ## What holds along the way -/

section

variable {σ : Type} {before : σ → Prop} {failed : ε → σ → Prop}

/-- A computation has ended: something holds of its result and the state, or of its error and the state. -/
def Ended (after : α → σ → Prop) (failed : ε → σ → Prop) : Except ε α × σ → Prop
  | (.ok a, s) => after a s
  | (.error e, s) => failed e s

/-- How a computation ends that begins in a certain state. -/
def Upholds (before : σ → Prop) (action : ExceptT ε (StateM σ) α) (after : α → σ → Prop)
    (failed : ε → σ → Prop) : Prop :=
  ∀ s, before s → Ended after failed (action.run s)

variable {action : ExceptT ε (StateM σ) α} {after : α → σ → Prop}

theorem upholds_pure {a : α} (h : ∀ s, before s → after a s) : Upholds before (pure a) after failed := h

/-- One computation after the other. -/
theorem Upholds.bind {f : α → ExceptT ε (StateM σ) β} {behind : β → σ → Prop} (h : Upholds before action after failed)
    (hf : ∀ a, Upholds (after a) (f a) behind failed) : Upholds before (action >>= f) behind failed := by
  intro s hs
  have hrun := h s hs
  rcases ht : action.run s with ⟨e | a, t⟩
  · rw [run_bind_error ht]
    rw [ht] at hrun
    exact hrun
  · rw [run_bind_ok ht]
    rw [ht] at hrun
    exact hf a t hrun

/-- From more to less. -/
theorem Upholds.imp {before' : σ → Prop} {after' : α → σ → Prop} {failed' : ε → σ → Prop}
    (h : Upholds before action after failed) (hbefore : ∀ s, before' s → before s)
    (hafter : ∀ a s, after a s → after' a s) (hfailed : ∀ e s, failed e s → failed' e s) :
    Upholds before' action after' failed' := by
  intro s hs
  have hrun := h s (hbefore s hs)
  rcases ht : action.run s with ⟨e | a, t⟩
  · rw [ht] at hrun
    exact hfailed e t hrun
  · rw [ht] at hrun
    exact hafter a t hrun

/-- The same for each element of a list. -/
theorem upholds_mapM {f : α → ExceptT ε (StateM σ) β} : ∀ {as : List α},
    (∀ a ∈ as, Upholds before (f a) (fun _ => before) failed) → Upholds before (as.mapM f) (fun _ => before) failed
  | [], _ => upholds_pure fun _ => id
  | a :: as, h => by
    obtain ⟨hfirst, hrest⟩ := List.forall_mem_cons.1 h
    rw [List.mapM_cons]
    exact hfirst.bind fun b => (upholds_mapM hrest).bind fun bs => upholds_pure fun _ => id

end

end RecordServer
