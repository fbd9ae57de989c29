import Mathlib.Data.List.Basic
import RecordServer.Output.Route
import RecordServer.Proofs.Parser.Shape

/-!
# The paths of a route

A path belongs to a route if it consists of the texts of the route with values of the shapes between them
(`Route.isSome_match?_iff`), and the values that are found in it are of this kind (`Route.consists_of_match?`). Of the
ways to match a part of a path only the first one to each rest is followed, which loses no rest (`Route.exists_distinct`).
-/

namespace RecordServer.Route

/-- A path consists of values of the shapes, each followed by its text. -/
def Consists : List (Shape × List Char) → List (List Char) → List Char → Prop
  | [], [], path => path = []
  | (s, text) :: parts, value :: values, path =>
    ∃ rest, path = value ++ text ++ rest ∧ s.Fits value ∧ Consists parts values rest
  | _, _, _ => False

variable {r : Route} {part : Shape × List Char} {parts : List (Shape × List Char)} {path : List Char}
  {values : List (List Char)} {w w' : Way} {ways : List Way} {size : Nat}

theorem behind?_eq_some {rest : List Char} : ∀ {text cs : List Char},
    behind? text cs = some rest ↔ cs = text ++ rest
  | [], cs => by simp [behind?]
  | a :: text, [] => by simp [behind?]
  | a :: text, c :: cs => by
    unfold behind?
    by_cases hc : a = c
    · simp [hc, behind?_eq_some]
    · simp [hc, Ne.symm hc]

/-! ## Ways -/

/-- A way leads on through a value of the shape and the text behind it. -/
theorem mem_onward : w' ∈ onward part w ↔
    ∃ value, w.rest = value ++ part.2 ++ w'.rest ∧ part.1.Fits value ∧ w'.values = value :: w.values := by
  unfold onward
  simp only [List.mem_filterMap, Option.map_eq_some_iff, behind?_eq_some, Shape.mem_ends]
  constructor
  · rintro ⟨_, ⟨value, hrest, hvalue⟩, rest, rfl, rfl⟩
    refine ⟨value, by rw [hrest, List.append_assoc], hvalue, ?_⟩
    simp [hrest]
  · rintro ⟨value, hrest, hvalue, hvalues⟩
    obtain ⟨rest, _⟩ := w'
    obtain rfl := hvalues
    refine ⟨part.2 ++ rest, ⟨value, by rw [hrest, List.append_assoc], hvalue⟩, rest, rfl, ?_⟩
    simp [hrest]

/-! ## The first way to each rest -/

/-- Each length of a rest that is marked is that of a way which has been kept. -/
def Marked (kept : Array Bool × List Way) : Prop :=
  ∀ n, kept.1.getD n false = true → ∃ w ∈ kept.2, w.rest.length = n

variable {kept : Array Bool × List Way}

theorem mem_keep (h : w' ∈ (keep kept w).2) : w' ∈ kept.2 ∨ w' = w := by
  unfold keep at h
  simp only at h
  split at h
  · exact .inl h
  · exact (List.mem_cons.1 h).symm

theorem subset_keep : kept.2 ⊆ (keep kept w).2 := by
  unfold keep
  simp only
  split
  · exact List.Subset.refl _
  · exact List.subset_cons_self w kept.2

/-- A way is kept unless one with the same rest has been kept. -/
theorem exists_keep (h : Marked kept) : ∃ w' ∈ (keep kept w).2, w'.rest.length = w.rest.length := by
  unfold keep
  simp only
  split
  · rename_i hmarked
    exact h _ hmarked
  · exact ⟨w, List.mem_cons_self, rfl⟩

theorem Marked.keep (h : Marked kept) : Marked (Route.keep kept w) := by
  unfold Route.keep
  simp only
  split
  · exact h
  · intro n hn
    by_cases hw : w.rest.length = n
    · exact ⟨w, List.mem_cons_self, hw⟩
    · rw [Array.getD_eq_getD_getElem?, Array.getElem?_setIfInBounds_ne hw, ← Array.getD_eq_getD_getElem?] at hn
      obtain ⟨v, hv, hlength⟩ := h n hn
      exact ⟨v, List.mem_cons_of_mem w hv, hlength⟩

/-- What has been kept is one of the ways. -/
theorem mem_of_mem_distinct (h : w ∈ distinct size ways) : w ∈ ways := by
  suffices hkept : ∀ (ways : List Way) kept, w ∈ (ways.foldl Route.keep kept).2 → w ∈ kept.2 ∨ w ∈ ways by
    exact (hkept ways _ (List.mem_reverse.1 h)).resolve_left List.not_mem_nil
  intro ways
  induction ways with
  | nil => exact fun kept h => .inl h
  | cons v ways ih =>
    intro kept h
    rcases ih _ h with h | h
    · rcases mem_keep h with h | rfl
      · exact .inl h
      · exact .inr List.mem_cons_self
    · exact .inr (List.mem_cons_of_mem v h)

/-- To the rest of each way one is kept. -/
theorem exists_distinct (size : Nat) (h : w ∈ ways) : ∃ w' ∈ distinct size ways, w'.rest.length = w.rest.length := by
  suffices hkept : ∀ (ways : List Way) kept, Marked kept →
      ((∃ v ∈ kept.2, v.rest.length = w.rest.length) ∨ w ∈ ways) →
      ∃ w' ∈ (ways.foldl Route.keep kept).2, w'.rest.length = w.rest.length by
    have hnone : Marked (Array.replicate (size + 1) false, []) := fun n hn => by
      rw [Array.getD_eq_getD_getElem?, Array.getElem?_replicate] at hn
      split at hn <;> cases hn
    obtain ⟨w', hw', hlength⟩ := hkept ways _ hnone (.inr h)
    exact ⟨w', List.mem_reverse.2 hw', hlength⟩
  intro ways
  induction ways with
  | nil => exact fun kept _ h => h.resolve_right List.not_mem_nil
  | cons u ways ih =>
    refine fun kept hkept h => ih _ hkept.keep ?_
    rcases h with ⟨v, hv, hlength⟩ | h
    · exact .inl ⟨v, subset_keep hv, hlength⟩
    · rcases List.mem_cons.1 h with rfl | h
      · exact .inl (exists_keep hkept)
      · exact .inr h

/-! ## Following the parts -/

/-- The values of a way through all parts are those of a way to begin with and values of which its rest consists. -/
theorem consists_of_mem_follow (h : w ∈ follow size ways parts) (hrest : w.rest = []) :
    ∃ v ∈ ways, ∃ values, w.values = values.reverse ++ v.values ∧ Consists parts values v.rest := by
  induction parts generalizing ways with
  | nil => exact ⟨w, h, [], rfl, hrest⟩
  | cons part parts ih =>
    obtain ⟨v, hv, values, hvalues, hconsists⟩ := ih h
    obtain ⟨u, hu, hv⟩ := List.mem_flatMap.1 (mem_of_mem_distinct hv)
    obtain ⟨value, hrest, hvalue, hv⟩ := mem_onward.1 hv
    refine ⟨u, hu, value :: values, ?_, v.rest, hrest, hvalue, hconsists⟩
    rw [hvalues, hv, List.reverse_cons, List.append_assoc, List.singleton_append]

/-- A way whose rest consists of values leads through all parts, if the rests are those of one path. -/
theorem exists_follow (size : Nat) (hways : ∀ w ∈ ways, w.rest <:+ path) (hw : w ∈ ways) (h : Consists parts values w.rest) :
    ∃ w' ∈ follow size ways parts, w'.rest = [] := by
  induction parts generalizing ways w values with
  | nil =>
    cases values with
    | nil => exact ⟨w, hw, h⟩
    | cons value values => exact h.elim
  | cons part parts ih =>
    cases values with
    | nil => exact h.elim
    | cons value values =>
      obtain ⟨rest, hrest, hvalue, hconsists⟩ := h
      have honward : ∀ v ∈ ways.flatMap (onward part), v.rest <:+ path := fun v hv => by
        obtain ⟨u, hu, hv⟩ := List.mem_flatMap.1 hv
        obtain ⟨value, hrest, -, -⟩ := mem_onward.1 hv
        exact .trans ⟨_, hrest.symm⟩ (hways u hu)
      have hv : ⟨rest, value :: w.values⟩ ∈ ways.flatMap (onward part) :=
        List.mem_flatMap.2 ⟨w, hw, mem_onward.2 ⟨value, hrest, hvalue, rfl⟩⟩
      obtain ⟨v, hkept, hlength⟩ := exists_distinct size hv
      have hsuffix : v.rest <:+ rest := List.suffix_of_suffix_length_le
        (honward v (mem_of_mem_distinct hkept)) (honward _ hv) (Nat.le_of_eq hlength)
      have hsame : v.rest = rest := hsuffix.eq_of_length hlength
      exact ih (fun u hu => honward u (mem_of_mem_distinct hu)) hkept (hsame ▸ hconsists)

/-! ## Matching -/

/-- The values that are found in a path fit, and the path consists of them. -/
theorem consists_of_match? (h : r.match? path = some values) :
    ∃ rest, path = r.start ++ rest ∧ Consists r.parts values rest := by
  unfold match? at h
  obtain ⟨rest, hrest, h⟩ := Option.bind_eq_some_iff.1 h
  obtain ⟨w, hw, h⟩ := Option.bind_eq_some_iff.1 h
  cases h
  have hdone : w.rest.isEmpty = true := List.find?_some (p := fun w : Way => w.rest.isEmpty) hw
  obtain ⟨v, hv, values, hvalues, hconsists⟩ :=
    consists_of_mem_follow (List.mem_of_find?_eq_some hw) (List.isEmpty_iff.1 hdone)
  obtain rfl := List.mem_singleton.1 hv
  refine ⟨rest, behind?_eq_some.1 hrest, ?_⟩
  rwa [hvalues, List.append_nil, List.reverse_reverse]

/-- **The paths of a route** are those that consist of its texts and of values of its shapes. -/
theorem isSome_match?_iff :
    (r.match? path).isSome ↔ ∃ values rest, path = r.start ++ rest ∧ Consists r.parts values rest := by
  constructor
  · intro h
    obtain ⟨values, hvalues⟩ := Option.isSome_iff_exists.1 h
    exact ⟨values, consists_of_match? hvalues⟩
  · rintro ⟨values, rest, hpath, hconsists⟩
    have hsuffix : ∀ w ∈ [Way.mk rest []], w.rest <:+ rest := fun w hw =>
      List.mem_singleton.1 hw ▸ List.suffix_refl rest
    obtain ⟨w, hw, hrest⟩ := exists_follow path.length hsuffix (List.mem_singleton_self _) hconsists
    have hfound : ((follow path.length [⟨rest, []⟩] r.parts).find? (·.rest.isEmpty)).isSome :=
      List.find?_isSome.2 ⟨w, hw, List.isEmpty_iff.2 hrest⟩
    obtain ⟨v, hv⟩ := Option.isSome_iff_exists.1 hfound
    unfold match?
    rw [behind?_eq_some.2 hpath, Option.bind_eq_bind, Option.bind_some, hv]
    rfl

end RecordServer.Route
