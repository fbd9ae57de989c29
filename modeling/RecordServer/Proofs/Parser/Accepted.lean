import RecordServer.Proofs.Output.Paths
import RecordServer.Proofs.Parser.Written

/-!
# Shapes of values and values that are accepted

Paths are told apart by the shapes of their values, but what is accepted as a value is decided by its parser. For texts
and truth values this is the same. A number, however, may have the shape without being accepted, and it may be accepted
without having the shape (`Format.fits_and_accepts`):

* it has the shape, but no digit, or more than one point, or it is too large;
* it is accepted, but has an exponent, a sign behind ignored characters, a separator without a digit in front of it, or
  a point where another separator is expected.
-/

namespace RecordServer.Format

open Decimal (IsSign IsPlace)

/-- The characters of a number that are not ignored, with a point in place of the separator. -/
def pointed (ignored : String) (separator : Char) (cs : List Char) : List Char :=
  (clean ignored cs).map fun c => if c = separator then '.' else c

variable {ignored : String} {separator : Char} {cs s rest body : List Char} {c : Char}

/-! ## Texts without the ignored characters -/

theorem mem_clean : c ∈ clean ignored cs ↔ c ∈ cs ∧ c ∉ ignored.toList := by
  simp [clean]

theorem pointed_append (cs rest : List Char) :
    pointed ignored separator (cs ++ rest) = pointed ignored separator cs ++ pointed ignored separator rest := by
  simp [pointed, clean]

theorem pointed_cons (c : Char) (cs : List Char) : pointed ignored separator (c :: cs) =
    if c ∈ ignored.toList then pointed ignored separator cs
    else (if c = separator then '.' else c) :: pointed ignored separator cs := by
  by_cases hc : c ∈ ignored.toList
  · simp [pointed, clean, hc]
  · simp [pointed, clean, hc]

theorem pointed_point : pointed ignored '.' cs = clean ignored cs := by
  unfold pointed
  rw [List.map_congr_left (g := id) fun c _ => ?_, List.map_id]
  split
  · rename_i h
    exact h.symm
  · rfl

/-- A character that is left is one of the text, or the point for the separator. -/
theorem mem_pointed : c ∈ pointed ignored separator cs ↔
    ∃ d ∈ cs, d ∉ ignored.toList ∧ (if d = separator then '.' else d) = c := by
  simp only [pointed, List.mem_map, mem_clean, and_assoc]

theorem mem_pointed_of_ne {d : Char} (hd : d ∈ cs) (hkept : d ∉ ignored.toList) (hne : d ≠ separator) :
    d ∈ pointed ignored separator cs :=
  mem_pointed.2 ⟨d, hd, hkept, if_neg hne⟩

/-- A sign that is left is a sign of the text and no separator. -/
theorem of_isSign_mem_pointed (hc : c ∈ pointed ignored separator cs) (hsign : isSign c = true) :
    c ∈ cs ∧ c ∉ ignored.toList ∧ c ≠ separator := by
  obtain ⟨d, hd, hkept, hdc⟩ := mem_pointed.1 hc
  split at hdc
  · subst hdc
    cases hsign
  · rename_i hne
    subst hdc
    exact ⟨hd, hkept, hne⟩

/-- What is left of digits, ignored characters and separators are digits and points. -/
theorem isPlace_of_mem_pointed (h : ∀ c ∈ cs, isDigitOr ignored c = true ∨ c = separator) :
    ∀ c ∈ pointed ignored separator cs, IsPlace c := by
  intro c hc
  obtain ⟨d, hd, hkept, rfl⟩ := mem_pointed.1 hc
  split
  · exact .inr rfl
  · rename_i hne
    exact .inl ((isDigitOr_iff.1 ((h d hd).resolve_right hne)).resolve_right hkept)

theorem not_isSign_of_isPlace (h : IsPlace c) : isSign c = false := by
  rw [Bool.eq_false_iff, Ne, isSign_iff]
  rintro (rfl | rfl)
  · exact absurd h (by simp [IsPlace])
  · exact absurd h (by simp [IsPlace])

/-! ## Signs -/

theorem isSign_of_mem (hs : IsSign s) (hc : c ∈ s) : isSign c = true := by
  rcases fits_sign.2 hs with ⟨d, rfl, hd⟩ | rfl
  · rwa [List.mem_singleton.1 hc]
  · cases hc

/-- The sign of a number, or none, in front of what is left of the rest; a sign that is the separator or ignored is
none. -/
theorem exists_pointed (hs : IsSign s) (hrest : ∀ c ∈ rest, isDigitOr ignored c = true ∨ c = separator) :
    ∃ s' body, pointed ignored separator (s ++ rest) = s' ++ body ∧ IsSign s' ∧ (∀ c ∈ body, IsPlace c) ∧
      (s' = [] ∨ s' = s) := by
  have hplaces := isPlace_of_mem_pointed hrest
  rcases fits_sign.2 hs with ⟨c, rfl, hc⟩ | rfl
  · rw [List.singleton_append, pointed_cons]
    by_cases hignored : c ∈ ignored.toList
    · rw [if_pos hignored]
      exact ⟨[], _, rfl, .inl rfl, hplaces, .inl rfl⟩
    · rw [if_neg hignored]
      by_cases hpoint : c = separator
      · rw [if_pos hpoint]
        exact ⟨[], _, rfl, .inl rfl, List.forall_mem_cons.2 ⟨.inr rfl, hplaces⟩, .inl rfl⟩
      · rw [if_neg hpoint]
        exact ⟨[c], _, rfl, hs, hplaces, .inr rfl⟩
  · exact ⟨[], _, rfl, .inl rfl, hplaces, .inl rfl⟩

/-- A sign that is left at the beginning of what is left of a number stands at the beginning of it. -/
theorem head?_of_isSign (hs : IsSign s) (hrest : ∀ c ∈ rest, isDigitOr ignored c = true ∨ c = separator)
    (hc : c ∈ (pointed ignored separator (s ++ rest)).head?) (hsign : isSign c = true) :
    (s ++ rest).head? = some c := by
  obtain ⟨s', body, hpointed, hs', hbody, hsame⟩ := exists_pointed hs hrest
  rw [hpointed] at hc
  rcases fits_sign.2 hs' with ⟨d, rfl, -⟩ | rfl
  · obtain rfl : d = c := Option.some.inj hc
    obtain rfl := hsame.resolve_left (List.cons_ne_nil d [])
    rfl
  · have hplace := hbody c (List.mem_of_head? hc)
    exact absurd hsign (by simp [not_isSign_of_isPlace hplace])

/-- If the sign that is left of a text, if any, stands at the beginning of the text, the rest is what stands behind. -/
theorem exists_of_pointed (hs : IsSign s) (hpointed : pointed ignored separator cs = s ++ body)
    (hhead : ∀ c ∈ (pointed ignored separator cs).head?, isSign c = true → cs.head? = some c) :
    ∃ rest, cs = s ++ rest ∧ pointed ignored separator rest = body ∧ ∀ c ∈ s, isDigitOr ignored c = false := by
  rcases fits_sign.2 hs with ⟨c, rfl, hc⟩ | rfl
  · have hmem : c ∈ (pointed ignored separator cs).head? := by rw [hpointed]; rfl
    obtain ⟨rest, rfl⟩ := List.head?_eq_some_iff.1 (hhead c hmem hc)
    obtain ⟨-, hkept, hne⟩ := of_isSign_mem_pointed (List.mem_of_head? hmem) hc
    rw [pointed_cons, if_neg hkept, if_neg hne] at hpointed
    refine ⟨rest, rfl, (List.cons.inj hpointed).2, List.forall_mem_singleton.2 ?_⟩
    rw [Bool.eq_false_iff, Ne, isDigitOr_iff]
    rintro (hdigit | hignored)
    · rcases isSign_iff.1 hc with rfl | rfl <;> cases hdigit
    · exact hkept hignored
  · exact ⟨cs, rfl, hpointed, nofun⟩

/-! ## Accepted texts -/

section Accepts

variable (find : Option (String → Option Parser)) (depth : Nat) (name : String)

/-- A text is accepted as a value, where parsers may be referred to that can be found. -/
def Accepts (f : Format) (cs : List Char) : Prop := ∃ v, parse find depth ⟨name, f⟩ cs = .ok v

/-- An integer is one of 64 bits. -/
def IsInt64 (n : Int) : Prop := -9223372036854775808 ≤ n ∧ n ≤ 9223372036854775807

variable {find depth name}

theorem accepts_string {charset : Option Text.Charset} : Accepts find depth name (string charset) cs :=
  ⟨_, by rw [parse]⟩

theorem accepts_boolean {trueValues falseValues : List String} (hne : cs ≠ []) :
    Accepts find depth name (boolean trueValues falseValues) cs ↔ String.ofList cs ∈ trueValues ++ falseValues := by
  have hempty : (String.ofList cs).isEmpty = false := by
    simp [Bool.eq_false_iff, String.isEmpty_iff, hne]
  rw [Accepts, parse, parseBoolean, List.mem_append]
  by_cases htrue : String.ofList cs ∈ trueValues
  · simp [htrue]
  · by_cases hfalse : String.ofList cs ∈ falseValues
    · simp [htrue, hfalse]
    · simp [htrue, hfalse, hempty]

/-- An integer is accepted if no character is left, or a number of 64 bits. -/
theorem accepts_integer : Accepts find depth name (integer ignored) cs ↔
    clean ignored cs = [] ∨ ∃ n, Decimal.integer? (clean ignored cs) = some n ∧ IsInt64 n := by
  rw [Accepts, parse, parseInteger]
  by_cases hnone : clean ignored cs = []
  · simp [hnone]
  · cases Decimal.integer? (clean ignored cs) with
    | none => simp [hnone]
    | some n =>
      by_cases hn : IsInt64 n
      · simp [hnone, ofInteger?, hn, show _ ∧ _ from hn]
      · simp [hnone, ofInteger?, hn, show ¬(_ ∧ _) from hn]

theorem parseFloat_eq : parseFloat ignored separator cs =
    if pointed ignored separator cs = [] then .ok .null
    else match (Decimal.ofText? (pointed ignored separator cs)).filter Float.isFinite with
      | some x => .ok (.float x)
      | none => .error (Cause.notFloat (String.ofList cs)) := rfl

/-- A number is accepted if no character is left, or a finite number. -/
theorem accepts_float : Accepts find depth name (float ignored separator) cs ↔
    pointed ignored separator cs = [] ∨
      ∃ x, Decimal.ofText? (pointed ignored separator cs) = some x ∧ x.isFinite = true := by
  rw [Accepts, parse, parseFloat_eq]
  by_cases hnone : pointed ignored separator cs = []
  · simp [hnone]
  · cases Decimal.ofText? (pointed ignored separator cs) with
    | none => simp [hnone]
    | some x =>
      by_cases hx : x.isFinite = true
      · simp [hnone, Option.filter_some, hx]
      · simp [hnone, Option.filter_some, hx]

theorem isDigitOr_of_clean (h : ∀ c ∈ clean ignored cs, c.isDigit = true) : ∀ c ∈ cs, isDigitOr ignored c = true := by
  intro c hc
  by_cases hignored : c ∈ ignored.toList
  · exact isDigitOr_iff.2 (.inr hignored)
  · exact isDigitOr_iff.2 (.inl (h c (mem_clean.2 ⟨hc, hignored⟩)))

theorem exists_and_iff {α : Type} {o : Option α} {p : α → Prop} :
    (∃ a, o = some a ∧ p a) ↔ o.isSome ∧ ∀ a ∈ o, p a := by
  cases o <;> simp

/-! ## Integers -/

/-- An integer of the right shape is accepted if a digit is left and the number is not too large, or if no character is
left. -/
theorem accepts_integer_of_fits (h : (integer ignored).shape.Fits cs) :
    Accepts find depth name (integer ignored) cs ↔ clean ignored cs = [] ∨
      (∃ c ∈ clean ignored cs, c.isDigit = true) ∧ ∀ n ∈ Decimal.integer? (clean ignored cs), IsInt64 n := by
  obtain ⟨s, front, rfl, hs, -, hfront⟩ := fits_integer.1 h
  have hclean : clean ignored (s ++ front) = clean ignored s ++ clean ignored front := List.filter_append ..
  have hs' : IsSign (clean ignored s) := by
    rcases hs with rfl | rfl | rfl
    · exact .inl rfl
    · by_cases h : '-' ∈ ignored.toList <;> simp [clean, h, IsSign]
    · by_cases h : '+' ∈ ignored.toList <;> simp [clean, h, IsSign]
  have hdigits : ∀ c ∈ clean ignored front, c.isDigit = true := fun c hc => by
    obtain ⟨hc, hkept⟩ := mem_clean.1 hc
    exact (isDigitOr_iff.1 (hfront c hc)).resolve_right hkept
  rw [accepts_integer, exists_and_iff, hclean, Decimal.isSome_integer?_iff hs' hdigits]

/-- An accepted integer has the right shape if the sign that is left, if any, stands at the beginning. -/
theorem fits_integer_of_accepts (hne : cs ≠ []) (h : Accepts find depth name (integer ignored) cs) :
    (integer ignored).shape.Fits cs ↔
      ∀ c ∈ (clean ignored cs).head?, isSign c = true → cs.head? = some c := by
  constructor
  · intro hfits
    obtain ⟨s, front, rfl, hs, -, hfront⟩ := fits_integer.1 hfits
    rw [← pointed_point]
    exact fun c => head?_of_isSign hs fun c hc => .inl (hfront c hc)
  · intro hhead
    rw [← pointed_point] at hhead
    rcases accepts_integer.1 h with hnone | ⟨n, hn, -⟩
    · exact fits_integer.2 ⟨[], cs, rfl, .inl rfl, hne, isDigitOr_of_clean (by simp [hnone])⟩
    · obtain ⟨s, digits, hclean, hs, hdigits, hall⟩ := Decimal.of_integer? hn
      obtain ⟨rest, rfl, hrest, -⟩ := exists_of_pointed hs (pointed_point.trans hclean) hhead
      rw [pointed_point] at hrest
      refine fits_integer.2 ⟨s, rest, rfl, hs, ?_, isDigitOr_of_clean (hrest ▸ hall)⟩
      rintro rfl
      exact hdigits hrest.symm

/-! ## Numbers -/

/-- A number of the right shape is accepted if a digit is left, not more than one point, and the number is not too
large, or if no character is left. -/
theorem accepts_float_of_fits (h : (float ignored separator).shape.Fits cs) :
    Accepts find depth name (float ignored separator) cs ↔ pointed ignored separator cs = [] ∨
      ((pointed ignored separator cs).count '.' ≤ 1 ∧ ∃ c ∈ pointed ignored separator cs, c.isDigit = true) ∧
      ∀ x ∈ Decimal.ofText? (pointed ignored separator cs), x.isFinite = true := by
  obtain ⟨s, front, tail, rfl, hs, -, hfront, htail⟩ := fits_float.1 h
  obtain ⟨s', body, hpointed, hs', hbody, -⟩ := exists_pointed hs (htail.isDigitOr_or_eq hfront)
  rw [accepts_float, exists_and_iff, hpointed, Decimal.isSome_ofText?_iff hs' hbody]

/-- The parts of an accepted number, of which some character is left: the sign that is left, which stands at the
beginning, and the rest with a digit and not more than one separator. -/
theorem exists_of_accepts (h : Accepts find depth name (float ignored separator) cs)
    (hsome : pointed ignored separator cs ≠ [])
    (hchars : ∀ c ∈ clean ignored cs, c.isDigit = true ∨ isSign c = true ∨ c = separator)
    (hhead : ∀ c ∈ (pointed ignored separator cs).head?, isSign c = true → cs.head? = some c) :
    ∃ s rest, cs = s ++ rest ∧ IsSign s ∧ (∀ c ∈ s, isDigitOr ignored c = false) ∧
      (∀ c ∈ rest, isDigitOr ignored c = true ∨ c = separator) ∧
      (pointed ignored separator rest).count '.' ≤ 1 ∧ ∃ c ∈ pointed ignored separator rest, c.isDigit = true := by
  obtain ⟨x, hx, -⟩ := (accepts_float.1 h).resolve_left hsome
  have hread : (Decimal.ofText? (pointed ignored separator cs)).isSome := Option.isSome_of_eq_some hx
  have hexponent : ∀ c ∈ pointed ignored separator cs, c ≠ 'e' ∧ c ≠ 'E' := by
    intro c hc
    obtain ⟨d, hd, hkept, rfl⟩ := mem_pointed.1 hc
    split
    · exact ⟨by decide, by decide⟩
    · rename_i hne
      rcases hchars d (mem_clean.2 ⟨hd, hkept⟩) with hdigit | hsign | hsame
      · constructor <;> (rintro rfl; cases hdigit)
      · constructor <;> (rintro rfl; cases hsign)
      · exact absurd hsame hne
  obtain ⟨s, body, hpointed, hs, hbody⟩ := Decimal.of_ofText? hread hexponent
  rw [hpointed, Decimal.isSome_ofText?_iff hs hbody, Decimal.count_point_append hs,
    Decimal.exists_digit_append hs] at hread
  obtain ⟨rest, rfl, rfl, hown⟩ := exists_of_pointed hs hpointed hhead
  refine ⟨s, rest, rfl, hs, hown, fun c hc => ?_, hread⟩
  by_cases hignored : c ∈ ignored.toList
  · exact .inl (isDigitOr_iff.2 (.inr hignored))
  · rcases hchars c (mem_clean.2 ⟨List.mem_append_right s hc, hignored⟩) with hdigit | hsign | hsame
    · exact .inl (isDigitOr_iff.2 (.inl hdigit))
    · -- A sign which is no separator would be left behind the sign, among digits and points.
      refine .inr (Classical.byContradiction fun hne => ?_)
      have hplace := hbody c (mem_pointed_of_ne hc hignored hne)
      exact absurd hsign (by simp [not_isSign_of_isPlace hplace])
    · exact .inr hsame

/-- In front of a separator there is the first digit or ignored character, unless the separator is such a character
itself or a sign at the beginning. -/
theorem exists_before_separator {front tail before behind : List Char} (hs : IsSign s) (hne : front ≠ [])
    (hfront : ∀ c ∈ front, isDigitOr ignored c = true)
    (h : s ++ (front ++ tail) = before ++ separator :: behind) : isDigitOr ignored separator = true ∨
      (before = [] ∧ isSign separator = true) ∨ ∃ c ∈ before, isDigitOr ignored c = true := by
  obtain ⟨d, front, rfl⟩ := List.exists_cons_of_ne_nil hne
  have hd := hfront d List.mem_cons_self
  rcases fits_sign.2 hs with ⟨c, rfl, hc⟩ | rfl
  · match before with
    | [] =>
      obtain rfl : c = separator := (List.cons.inj h).1
      exact .inr (.inl ⟨rfl, hc⟩)
    | [_] =>
      obtain rfl : d = separator := (List.cons.inj (List.cons.inj h).2).1
      exact .inl hd
    | _ :: b :: _ =>
      obtain rfl : d = b := (List.cons.inj (List.cons.inj h).2).1
      exact .inr (.inr ⟨d, by simp, hd⟩)
  · match before with
    | [] =>
      obtain rfl : d = separator := (List.cons.inj h).1
      exact .inl hd
    | b :: _ =>
      obtain rfl : d = b := (List.cons.inj h).1
      exact .inr (.inr ⟨d, List.mem_cons_self, hd⟩)

/-- A separator that stands in a text as the only one divides it into texts without a separator. -/
theorem exists_divided (hrest : ∀ c ∈ rest, isDigitOr ignored c = true ∨ c = separator)
    (hseparator : isDigitOr ignored separator = false) (hmem : separator ∈ rest)
    (hcount : (pointed ignored separator rest).count '.' ≤ 1) :
    ∃ front back, rest = front ++ separator :: back ∧ (∀ c ∈ front, isDigitOr ignored c = true) ∧
      ∀ c ∈ back, isDigitOr ignored c = true := by
  have hkept : separator ∉ ignored.toList := fun h => by simp [isDigitOr, h] at hseparator
  obtain ⟨front, back, rfl⟩ := List.append_of_mem hmem
  rw [pointed_append, pointed_cons, if_neg hkept, if_pos rfl, List.count_append, List.count_cons_self] at hcount
  have honce : ∀ part : List Char, (pointed ignored separator part).count '.' = 0 →
      (∀ c ∈ part, isDigitOr ignored c = true ∨ c = separator) → ∀ c ∈ part, isDigitOr ignored c = true := by
    intro part hzero hpart c hc
    refine (hpart c hc).resolve_right fun hsame => ?_
    subst hsame
    exact List.count_eq_zero.1 hzero (mem_pointed.2 ⟨c, hc, hkept, if_pos rfl⟩)
  exact ⟨front, back, rfl, honce front (by omega) fun c hc => hrest c (by simp [hc]),
    honce back (by omega) fun c hc => hrest c (by simp [hc])⟩

/-- An accepted number has the right shape if no other characters are left than digits, signs and separators, the sign
that is left, if any, stands at the beginning, and a digit or an ignored character stands in front of each separator.
A separator may also be such a character itself, or a sign at the beginning. -/
theorem fits_float_of_accepts (hne : cs ≠ []) (h : Accepts find depth name (float ignored separator) cs) :
    (float ignored separator).shape.Fits cs ↔
      (∀ c ∈ clean ignored cs, c.isDigit = true ∨ isSign c = true ∨ c = separator) ∧
      (∀ c ∈ (pointed ignored separator cs).head?, isSign c = true → cs.head? = some c) ∧
      ∀ front back, cs = front ++ separator :: back → isDigitOr ignored separator = true ∨
        (front = [] ∧ isSign separator = true) ∨ ∃ c ∈ front, isDigitOr ignored c = true := by
  by_cases hnone : pointed ignored separator cs = []
  · have hclean : clean ignored cs = [] := List.map_eq_nil_iff.1 hnone
    have hall : ∀ c ∈ cs, isDigitOr ignored c = true := isDigitOr_of_clean (by simp [hclean])
    refine iff_of_true (fits_float.2 ⟨[], cs, [], by simp, .inl rfl, hne, hall, .inl rfl⟩)
      ⟨by simp [hclean], by simp [hnone], ?_⟩
    rintro front back rfl
    exact .inl (hall separator (by simp))
  · constructor
    · intro hfits
      obtain ⟨s, front, tail, rfl, hs, hfirst, hfront, htail⟩ := fits_float.1 hfits
      have hplaces := htail.isDigitOr_or_eq hfront
      refine ⟨fun c hc => ?_, fun c => head?_of_isSign hs hplaces,
        fun before behind => exists_before_separator hs hfirst hfront⟩
      obtain ⟨hc, hkept⟩ := mem_clean.1 hc
      rcases List.mem_append.1 hc with hc | hc
      · exact .inr (.inl (isSign_of_mem hs hc))
      · rcases hplaces c hc with hdigit | hsame
        · exact .inl ((isDigitOr_iff.1 hdigit).resolve_right hkept)
        · exact .inr (.inr hsame)
    · rintro ⟨hchars, hhead, hbefore⟩
      obtain ⟨s, rest, rfl, hs, hown, hrest, hcount, d, hd, hdigit⟩ := exists_of_accepts h hnone hchars hhead
      have hnonempty : rest ≠ [] := by
        rintro rfl
        cases hd
      by_cases hdivided : isDigitOr ignored separator = false ∧ separator ∈ rest
      · obtain ⟨front, back, rfl, hfront, hback⟩ := exists_divided hrest hdivided.1 hdivided.2 hcount
        rcases hbefore (s ++ front) back (by simp) with hself | ⟨hnil, hsign⟩ | ⟨c, hc, hcown⟩
        · simp [hdivided.1] at hself
        · -- The separator stands at the beginning, where it is taken for a sign.
          obtain ⟨rfl, rfl⟩ := List.append_eq_nil_iff.1 hnil
          refine fits_float.2 ⟨[separator], back, [], by simp, fits_sign.1 (.inl ⟨_, rfl, hsign⟩), ?_, hback, .inl rfl⟩
          rintro rfl
          obtain ⟨e, he, hkept, rfl⟩ := mem_pointed.1 hd
          obtain rfl := List.mem_singleton.1 he
          simp at hdigit
        · have hin : c ∈ front := (List.mem_append.1 hc).resolve_left fun hc => by simp [hown c hc] at hcown
          exact fits_float.2
            ⟨s, front, separator :: back, rfl, hs, List.ne_nil_of_mem hin, hfront, .inr ⟨back, rfl, hback⟩⟩
      · have hall : ∀ c ∈ rest, isDigitOr ignored c = true := by
          intro c hc
          rcases hrest c hc with hdigit | rfl
          · exact hdigit
          · simpa [hc] using hdivided
        exact fits_float.2 ⟨s, rest, [], by simp, hs, hnonempty, hall, .inl rfl⟩

end Accepts

/-! ## Endpoints and values -/

/-- **What endpoints match and what parsers accept.** The pattern of a primitive format describes the values of its
shape, and a path is matched by an endpoint if it consists of the texts of the endpoint and of such values of its
formats. For a value which is not empty and has no slash, having the shape and being accepted by the parser is the same
for texts and truth values. A number of the right shape is accepted if a digit is left of it, and not more than one
point, and it is not too large, or if nothing is left of it. An accepted number has the right shape if only digits, signs
and separators are left of it, its sign stands at the beginning, and no separator stands in front of all digits and
ignored characters. -/
theorem fits_and_accepts (find : Option (String → Option Parser)) (depth : Nat) (name : String) :
    (∀ f : Format, f.isPrimitive = true → ∃ p, Regexp.Pattern.read? f.pattern = some p ∧
      ∀ cs, cs ≠ [] → (p.Describes cs ↔ f.shape.Fits cs)) ∧
    (∀ (endpoint : String) (formats : List Format) (path : List Char),
      let route := Route.ofEndpoint endpoint (formats.map shape)
      (route.match? path).isSome ↔
        ∃ values rest, path = route.start ++ rest ∧ Route.Consists route.parts values rest) ∧
    ∀ cs : List Char, cs ≠ [] → '/' ∉ cs →
      (∀ charset, (string charset).shape.Fits cs ∧ Accepts find depth name (string charset) cs) ∧
      (∀ trueValues falseValues, (boolean trueValues falseValues).shape.Fits cs ↔
        Accepts find depth name (boolean trueValues falseValues) cs) ∧
      (∀ ignored,
        ((integer ignored).shape.Fits cs → (Accepts find depth name (integer ignored) cs ↔
          clean ignored cs = [] ∨ (∃ c ∈ clean ignored cs, c.isDigit = true) ∧
            ∀ n ∈ Decimal.integer? (clean ignored cs), IsInt64 n)) ∧
        (Accepts find depth name (integer ignored) cs → ((integer ignored).shape.Fits cs ↔
          ∀ c ∈ (clean ignored cs).head?, isSign c = true → cs.head? = some c))) ∧
      ∀ ignored separator,
        ((float ignored separator).shape.Fits cs → (Accepts find depth name (float ignored separator) cs ↔
          pointed ignored separator cs = [] ∨
            ((pointed ignored separator cs).count '.' ≤ 1 ∧ ∃ c ∈ pointed ignored separator cs, c.isDigit = true) ∧
            ∀ x ∈ Decimal.ofText? (pointed ignored separator cs), x.isFinite = true)) ∧
        (Accepts find depth name (float ignored separator) cs → ((float ignored separator).shape.Fits cs ↔
          (∀ c ∈ clean ignored cs, c.isDigit = true ∨ isSign c = true ∨ c = separator) ∧
          (∀ c ∈ (pointed ignored separator cs).head?, isSign c = true → cs.head? = some c) ∧
          ∀ front back, cs = front ++ separator :: back → isDigitOr ignored separator = true ∨
            (front = [] ∧ isSign separator = true) ∨ ∃ c ∈ front, isDigitOr ignored c = true)) := by
  refine ⟨fun f => read?_pattern, fun endpoint formats path => Route.isSome_match?_iff,
    fun cs hne hslash => ⟨?_, ?_, ?_, ?_⟩⟩
  · exact fun charset => ⟨fits_string.2 ⟨hne, hslash⟩, accepts_string⟩
  · exact fun trueValues falseValues => fits_boolean.trans (accepts_boolean hne).symm
  · exact fun ignored => ⟨accepts_integer_of_fits, fits_integer_of_accepts hne⟩
  · exact fun ignored separator => ⟨accepts_float_of_fits, fits_float_of_accepts hne⟩

/-- Twenty digits are no integer of 64 bits, and an accepted number with an exponent is not matched. -/
theorem fits_and_accepts_digits :
    ((integer "").shape.Fits (List.replicate 20 '9') ∧ ¬Accepts none 0 "n" (integer "") (List.replicate 20 '9')) ∧
    (Accepts none 0 "n" (float "" '.') ['1', 'e', '5'] → ¬(float "" '.').shape.Fits ['1', 'e', '5']) := by
  obtain ⟨-, -, hvalues⟩ := fits_and_accepts none 0 "n"
  constructor
  · obtain ⟨-, -, hinteger, -⟩ := hvalues (List.replicate 20 '9') (by decide) (by decide)
    have hfits : (integer "").shape.Fits (List.replicate 20 '9') := Shape.fits_iff.2 (by decide)
    refine ⟨hfits, fun h => ?_⟩
    rcases ((hinteger "").1 hfits).1 h with hnone | ⟨-, hrange⟩
    · exact absurd hnone (by decide)
    · exact absurd (hrange 99999999999999999999 (by decide)).2 (by decide)
  · obtain ⟨-, -, -, hfloat⟩ := hvalues ['1', 'e', '5'] (by decide) (by decide)
    intro haccepts hfits
    obtain ⟨hchars, -, -⟩ := ((hfloat "" '.').2 haccepts).1 hfits
    exact absurd (hchars 'e' (by decide)) (by decide)

end RecordServer.Format
