import Mathlib.Data.List.Basic
import RecordServer.Parser.Basic
import RecordServer.Proofs.Decimal.Reading

/-!
# Texts of a shape

Which texts have a shape is said by `Shape.Fits`, without a preference of one way to divide a text over another. What
may be left of a text behind a shape is what follows a beginning that fits (`Shape.mem_ends`), so that a whole text has
the shape if nothing may be left (`Shape.fits_iff`). From this follows what the values of formats look like
(`Format.fits_integer`, `Format.fits_float`).
-/

namespace RecordServer

namespace Shape

/-- A text has a shape. -/
def Fits : Shape → List Char → Prop
  | empty, cs => cs = []
  | char accepts, cs => ∃ c, cs = [c] ∧ accepts c = true
  | many accepts, cs => cs ≠ [] ∧ ∀ c ∈ cs, accepts c = true
  | seq a b, cs => ∃ front back, cs = front ++ back ∧ Fits a front ∧ Fits b back
  | alt a b, cs => Fits a cs ∨ Fits b cs
  | optional s, cs => Fits s cs ∨ cs = []

theorem mem_endsOfMany {accepts : Char → Bool} {rest : List Char} : ∀ {cs : List Char},
    rest ∈ endsOfMany accepts cs ↔
      ∃ front, cs = front ++ rest ∧ front ≠ [] ∧ ∀ c ∈ front, accepts c = true
  | [] => by simp [endsOfMany]
  | c :: cs => by
    unfold endsOfMany
    constructor
    · intro h
      split at h
      · rename_i hc
        rcases List.mem_append.1 h with h | h
        · obtain ⟨front, rfl, -, hall⟩ := mem_endsOfMany.1 h
          exact ⟨c :: front, rfl, List.cons_ne_nil c front, List.forall_mem_cons.2 ⟨hc, hall⟩⟩
        · exact ⟨[c], by rw [List.mem_singleton.1 h]; rfl, List.cons_ne_nil c [], List.forall_mem_singleton.2 hc⟩
      · cases h
    · rintro ⟨front, hcs, hne, hall⟩
      obtain ⟨d, front, rfl⟩ := List.exists_cons_of_ne_nil hne
      obtain ⟨rfl, rfl⟩ := List.cons.inj hcs
      obtain ⟨hc, hall⟩ := List.forall_mem_cons.1 hall
      rw [if_pos hc, List.mem_append, List.mem_singleton]
      cases front with
      | nil => exact .inr rfl
      | cons d front => exact .inl (mem_endsOfMany.2 ⟨d :: front, rfl, List.cons_ne_nil d front, hall⟩)

/-- **What may be left of a text behind a shape** is what follows a beginning of this shape. -/
theorem mem_ends {rest : List Char} : ∀ {s : Shape} {cs : List Char},
    rest ∈ s.ends cs ↔ ∃ front, cs = front ++ rest ∧ s.Fits front
  | empty, cs => by simp [ends, Fits, eq_comm]
  | char accepts, [] => by simp [ends, Fits]
  | char accepts, c :: cs => by
    simp only [ends, Fits]
    constructor
    · intro h
      by_cases hc : accepts c = true
      · rw [if_pos hc, List.mem_singleton] at h
        exact ⟨[c], h ▸ rfl, c, rfl, hc⟩
      · rw [if_neg hc] at h
        cases h
    · rintro ⟨_, hcs, d, rfl, hd⟩
      obtain ⟨rfl, rfl⟩ := List.cons.inj hcs
      rw [if_pos hd]
      exact List.mem_singleton_self _
  | many accepts, cs => mem_endsOfMany
  | seq a b, cs => by
    simp only [ends, Fits, List.mem_flatMap, mem_ends]
    constructor
    · rintro ⟨_, ⟨front, rfl, hfront⟩, back, rfl, hback⟩
      exact ⟨front ++ back, by simp, front, back, rfl, hfront, hback⟩
    · rintro ⟨_, rfl, front, back, rfl, hfront, hback⟩
      exact ⟨back ++ rest, ⟨front, by simp, hfront⟩, back, rfl, hback⟩
  | alt a b, cs => by
    simp only [ends, Fits, List.mem_append, mem_ends, and_or_left, exists_or]
  | optional s, cs => by
    simp only [ends, Fits, List.mem_append, List.mem_singleton, mem_ends, and_or_left, exists_or]
    simp [eq_comm]

/-- A text has a shape if nothing may be left of it. -/
theorem fits_iff {s : Shape} {cs : List Char} : s.Fits cs ↔ [] ∈ s.ends cs := by
  simp [mem_ends]

theorem fits_literal {cs : List Char} : ∀ {text : List Char}, (literal text).Fits cs ↔ cs = text
  | [] => Iff.rfl
  | c :: text => by
    simp only [literal, Fits, fits_literal, beq_iff_eq]
    constructor
    · rintro ⟨_, _, rfl, ⟨_, rfl, rfl⟩, rfl⟩
      rfl
    · rintro rfl
      exact ⟨[c], text, rfl, ⟨c, rfl, rfl⟩, rfl⟩

/-- A choice fits what one of the shapes does. -/
theorem fits_choice {cs : List Char} : ∀ {shapes : List Shape}, (choice shapes).Fits cs ↔ ∃ s ∈ shapes, s.Fits cs
  | [] => by simp [choice, none, Fits]
  | [s] => by simp [choice]
  | s :: t :: rest => by
    rw [choice, Fits, fits_choice]
    · simp
    · exact List.cons_ne_nil t rest

end Shape

/-! ## Formats -/

namespace Format

open Decimal (IsSign)

variable {ignored : String} {separator : Char} {cs s : List Char} {c : Char}

theorem isSign_iff : isSign c = true ↔ c = '-' ∨ c = '+' := by
  simp [isSign]

theorem isDigitOr_iff : isDigitOr ignored c = true ↔ c.isDigit = true ∨ c ∈ ignored.toList := by
  simp [isDigitOr]

theorem fits_sign : ((∃ c, s = [c] ∧ isSign c = true) ∨ s = []) ↔ IsSign s := by
  constructor
  · rintro (⟨c, rfl, hc⟩ | rfl)
    · rcases isSign_iff.1 hc with rfl | rfl
      · exact .inr (.inl rfl)
      · exact .inr (.inr rfl)
    · exact .inl rfl
  · rintro (rfl | rfl | rfl)
    · exact .inr rfl
    · exact .inl ⟨_, rfl, rfl⟩
    · exact .inl ⟨_, rfl, rfl⟩

/-- A text is not empty and has no slash. -/
theorem fits_string {charset : Option Text.Charset} :
    (string charset).shape.Fits cs ↔ cs ≠ [] ∧ '/' ∉ cs := by
  simp [shape, Shape.Fits, List.forall_mem_ne']

/-- A truth value is one of the texts. -/
theorem fits_boolean {trueValues falseValues : List String} :
    (boolean trueValues falseValues).shape.Fits cs ↔ String.ofList cs ∈ trueValues ++ falseValues := by
  unfold shape
  rw [Shape.fits_choice]
  simp only [List.mem_map, exists_exists_and_eq_and, Shape.fits_literal]
  constructor
  · rintro ⟨value, hvalue, rfl⟩
    rwa [String.ofList_toList]
  · intro h
    exact ⟨_, h, String.toList_ofList.symm⟩

/-- An integer has a sign, or none, and digits and ignored characters. -/
theorem fits_integer : (integer ignored).shape.Fits cs ↔
    ∃ s front, cs = s ++ front ∧ IsSign s ∧ front ≠ [] ∧ ∀ c ∈ front, isDigitOr ignored c = true := by
  unfold shape
  simp only [Shape.Fits, fits_sign]

/-- A separator and digits and ignored characters, or nothing. -/
def IsTail (ignored : String) (separator : Char) (tail : List Char) : Prop :=
  tail = [] ∨ ∃ back, tail = separator :: back ∧ ∀ c ∈ back, isDigitOr ignored c = true

theorem IsTail.isDigitOr_or_eq {front tail : List Char} (h : IsTail ignored separator tail)
    (hfront : ∀ c ∈ front, isDigitOr ignored c = true) :
    ∀ c ∈ front ++ tail, isDigitOr ignored c = true ∨ c = separator := by
  intro c hc
  rcases List.mem_append.1 hc with hc | hc
  · exact .inl (hfront c hc)
  · obtain rfl | ⟨back, rfl, hback⟩ := h
    · cases hc
    · rcases List.mem_cons.1 hc with rfl | hc
      · exact .inr rfl
      · exact .inl (hback c hc)

/-- A number has a sign, or none, digits and ignored characters, and more of them behind a separator, if any. -/
theorem fits_float : (float ignored separator).shape.Fits cs ↔
    ∃ s front tail, cs = s ++ (front ++ tail) ∧ IsSign s ∧ front ≠ [] ∧ (∀ c ∈ front, isDigitOr ignored c = true) ∧
      IsTail ignored separator tail := by
  have htail : ∀ tail, (Shape.optional (.seq (.char (· == separator)) (.optional (.many (isDigitOr ignored))))).Fits
      tail ↔ IsTail ignored separator tail := by
    intro tail
    simp only [Shape.Fits, IsTail, beq_iff_eq]
    constructor
    · rintro (⟨_, back, rfl, ⟨_, rfl, rfl⟩, hback⟩ | rfl)
      · refine .inr ⟨back, rfl, ?_⟩
        rcases hback with ⟨-, hback⟩ | rfl
        · exact hback
        · exact List.forall_mem_nil _
      · exact .inl rfl
    · rintro (rfl | ⟨back, rfl, hback⟩)
      · exact .inr rfl
      · refine .inl ⟨[separator], back, rfl, ⟨_, rfl, rfl⟩, ?_⟩
        by_cases hnil : back = []
        · exact .inr hnil
        · exact .inl ⟨hnil, hback⟩
  constructor
  · rintro ⟨s, _, rfl, hs, front, tail, rfl, ⟨hne, hfront⟩, htail'⟩
    exact ⟨s, front, tail, rfl, fits_sign.1 hs, hne, hfront, (htail tail).1 htail'⟩
  · rintro ⟨s, front, tail, rfl, hs, hne, hfront, htail'⟩
    exact ⟨s, front ++ tail, rfl, fits_sign.2 hs, front, tail, rfl, ⟨hne, hfront⟩, (htail tail).2 htail'⟩

end Format

end RecordServer
