import RecordServer.Sorting.Trial

/-!
# Trials that find nothing

A trial which finds nothing has made comparisons only that have succeeded, so that what it comes to may be trusted.
`Trial.Settles` states both sides of this for a part of a trial: if it finds nothing, its result has a property, and
there is a condition under which it finds nothing. Whatever has been found stays, which is why the parts can be put
together (`Trial.Settles.bind`).
-/

namespace RecordServer.Sorting

/-- Nothing has been found. -/
def Findings.clean : Findings := ⟨none, false⟩

namespace Trial

variable {α β γ : Type} {P P' F F' : Prop} {Q Q' : β → Prop} {R : γ → Prop}

/-- What is known of a part of a trial, where something may have to hold beforehand: if nothing is found up to its end,
its result has a property, and nothing is found if all is fine. -/
structure Settles (P F : Prop) (Q : β → Prop) (a : Trial β) : Prop where
  persists : ∀ found, found ≠ .clean → (a.run found).2 ≠ .clean
  sound : P → (a.run .clean).2 = .clean → Q (a.run .clean).1
  complete : P → F → (a.run .clean).2 = .clean

/-- A result which is known without comparisons. -/
theorem settles_pure {b : β} (h : P → Q b) : Settles P F Q (pure b) where
  persists _ hfound := hfound
  sound hpre _ := h hpre
  complete _ _ := rfl

theorem Settles.bind {a : Trial β} {f : β → Trial γ} (ha : Settles P F Q a)
    (hf : ∀ b, Settles (Q b) F R (f b)) : Settles P F R (a >>= f) where
  persists found hfound := (hf _).persists _ (ha.persists found hfound)
  sound hpre hclean := by
    have hclean : ((f (a.run .clean).1).run (a.run .clean).2).2 = .clean := hclean
    have hfirst : (a.run .clean).2 = .clean :=
      Classical.byContradiction fun hfound => (hf _).persists _ hfound hclean
    rw [hfirst] at hclean
    show R ((f (a.run .clean).1).run (a.run .clean).2).1
    rw [hfirst]
    exact (hf _).sound (ha.sound hpre hfirst) hclean
  complete hpre hfine := by
    have hfirst := ha.complete hpre hfine
    show ((f (a.run .clean).1).run (a.run .clean).2).2 = .clean
    rw [hfirst]
    exact (hf _).complete (ha.sound hpre hfirst) hfine

/-- The same part with more beforehand, or less afterwards. -/
theorem Settles.imp {a : Trial β} (h : Settles P F Q a) (hpre : P' → P) (hfine : P' → F' → F)
    (hpost : ∀ b, P' → Q b → Q' b) : Settles P' F' Q' a where
  persists := h.persists
  sound hp hclean := hpost _ hp (h.sound (hpre hp) hclean)
  complete hp hf := h.complete (hpre hp) (hfine hp hf)

/-- What is known beforehand is known afterwards. -/
theorem Settles.keep {K : Prop} {a : Trial β} (h : Settles P F Q a) (hpre : K → P) (hfine : K → F' → F) :
    Settles K F' (fun b => K ∧ Q b) a :=
  h.imp hpre hfine fun _ hknown hpost => ⟨hknown, hpost⟩

/-- What has to hold beforehand may be about something that is not known. -/
theorem Settles.exists {ι : Type} [Inhabited ι] {P F : ι → Prop} {a : Trial β}
    (h : ∀ i, Settles (P i) (F i) Q a) (hfine : ∀ i, P i → F' → F i) :
    Settles (∃ i, P i) F' Q a where
  persists := (h default).persists
  sound := fun ⟨i, hpre⟩ hclean => (h i).sound hpre hclean
  complete := fun ⟨i, hpre⟩ hf => (h i).complete hpre (hfine i hpre hf)

theorem Settles.map {a : Trial β} {f : β → γ} (h : Settles P F Q a) (hf : ∀ b, Q b → R (f b)) :
    Settles P F R (f <$> a) where
  persists := h.persists
  sound hpre hclean := hf _ (h.sound hpre hclean)
  complete := h.complete

/-- A choice between two parts, each of which may use why it has been chosen. -/
theorem Settles.ite {p : Prop} [Decidable p] {a b : Trial β} (ha : Settles (P ∧ p) F Q a)
    (hb : Settles (P ∧ ¬p) F Q b) : Settles P F Q (if p then a else b) where
  persists := by
    split
    · exact ha.persists
    · exact hb.persists
  sound hpre := by
    split <;> rename_i h
    · exact ha.sound ⟨hpre, h⟩
    · exact hb.sound ⟨hpre, h⟩
  complete hpre := by
    split <;> rename_i h
    · exact ha.complete ⟨hpre, h⟩
    · exact hb.complete ⟨hpre, h⟩

/-- A result which is given unless the order contradicts itself. -/
theorem settles_unless {p : Prop} [Decidable p] {b : β} (h : P → ¬p ∧ Q b) :
    Settles P F Q (if p then contradiction >>= fun _ => pure b else pure b) := by
  refine .ite ?_ (settles_pure fun ⟨hpre, _⟩ => (h hpre).2)
  exact {
    persists := fun _ _ hclean => nomatch congrArg Findings.isContradictory hclean
    sound := fun ⟨hpre, hp⟩ => absurd hp (h hpre).1
    complete := fun ⟨hpre, hp⟩ => absurd hp (h hpre).1 }

/-- A comparison that succeeds finds nothing. -/
theorem settles_less {order : α → α → Except Fault Ordering} {a b : α} :
    Settles True (∃ o, order a b = .ok o) (fun isLess => ∃ o, order a b = .ok o ∧ isLess = decide (o = .lt))
      (less order a b) := by
  unfold less
  cases horder : order a b with
  | ok o => exact settles_pure fun _ => ⟨o, rfl, rfl⟩
  | error fault =>
    -- the fault stays in mind, or one that has been found before
    have hfound (found : Findings) : ({ found with fault := found.fault <|> some fault } : Findings) ≠ .clean := by
      intro hclean
      have hfault : (found.fault <|> some fault) = none := congrArg Findings.fault hclean
      cases hearlier : found.fault <;> rw [hearlier] at hfault <;> cases hfault
    exact {
      persists := fun found _ => hfound found
      sound := fun _ hclean => absurd hclean (hfound .clean)
      complete := fun _ ⟨_, hok⟩ => nomatch hok }

end Trial

end RecordServer.Sorting
