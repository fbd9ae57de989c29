import Mathlib.Data.List.TakeWhile
import RecordServer.Decimal.Notation
import RecordServer.Value

/-!
# Decimal texts

The digits of a number stand for it (`ofDigits_toDigits`), and do not begin with a zero unless it is their only one
(`toDigits_of_head?`). The text of an integer consists of them, behind a minus sign if it is negative
(`toList_toString`).

Which texts are read as numbers: an integer is a sign, or none, and digits (`isSome_integer?_iff`, `of_integer?`), which
may begin with zeros (`integer?_of_writes`). Of the texts without an exponent a number is a sign, or none, and digits
with one point among or around them at most (`isSome_ofText?_iff`, `of_ofText?`).
-/

namespace RecordServer

namespace Decimal

/-! ## Digits -/

theorem ofDigits_eq (value : Nat) (ds : List Char) : ofDigits value ds = Nat.ofDigitChars 10 ds value := by
  simp only [ofDigits, Nat.ofDigitChars_eq_foldl, Nat.mul_comm]

theorem ofDigits_cons (value : Nat) (c : Char) (ds : List Char) :
    ofDigits value (c :: ds) = ofDigits (value * 10 + (c.toNat - '0'.toNat)) ds := by
  rw [ofDigits, List.foldl_cons, ofDigits]

/-- The digits of a number stand for it. -/
theorem ofDigits_toDigits (n : Nat) : ofDigits 0 (Nat.toDigits 10 n) = n := by
  rw [ofDigits_eq, Nat.ofDigitChars_ten_toDigits]

/-- More digits do not make a number smaller. -/
theorem le_ofDigits (value : Nat) (ds : List Char) : value ≤ ofDigits value ds := by
  induction ds generalizing value with
  | nil => exact Nat.le_refl value
  | cons c ds ih =>
    have hnext : value ≤ value * 10 + (c.toNat - '0'.toNat) := by omega
    rw [ofDigits_cons]
    exact Nat.le_trans hnext (ih _)

theorem isDigit_of_mem_toDigits {n : Nat} {c : Char} (h : c ∈ Nat.toDigits 10 n) : c.isDigit = true :=
  Nat.isDigit_of_mem_toDigits (by decide) (by decide) h

/-- A number has a first digit. -/
theorem exists_toDigits (n : Nat) : ∃ d ds, Nat.toDigits 10 n = d :: ds ∧ d.isDigit = true := by
  obtain ⟨d, ds, hds⟩ := List.exists_cons_of_ne_nil (Nat.toDigits_ne_nil (n := n) (b := 10))
  exact ⟨d, ds, hds, isDigit_of_mem_toDigits (hds ▸ List.mem_cons_self)⟩

/-- Digits which begin with a zero are the digit of zero. -/
theorem toDigits_of_head? {n : Nat} (h : (Nat.toDigits 10 n).head? = some '0') : Nat.toDigits 10 n = ['0'] := by
  suffices hzero : n = 0 by rw [hzero, Nat.toDigits_zero]
  induction n using Nat.strongRecOn with
  | ind n ih =>
    by_cases hlt : n < 10
    · rw [Nat.toDigits_of_lt_base hlt, List.head?_cons, Option.some.injEq] at h
      exact (show ∀ n < 10, n.digitChar = '0' → n = 0 by decide) n hlt h
    · rw [Nat.toDigits_of_base_le (by decide) (Nat.le_of_not_lt hlt), List.head?_append,
        List.head?_eq_some_head Nat.toDigits_ne_nil, Option.some_or, ← List.head?_eq_some_head] at h
      have hzero := ih (n / 10) (by omega) h
      omega

/-- The text of an integer: its digits, behind a minus sign if it is negative. -/
theorem toList_toString (n : Int) : (toString n).toList =
    if n < 0 then '-' :: Nat.toDigits 10 n.natAbs else Nat.toDigits 10 n.natAbs := by
  rw [Int.toString_eq_repr, Int.repr_eq_if]
  by_cases h : n < 0
  · have habs : (-n).toNat = n.natAbs := by omega
    have hsign : "-".toList = ['-'] := rfl
    rw [if_neg (by omega), if_pos h, Nat.repr_eq_ofList_toDigits, String.toList_append, hsign, String.toList_ofList,
      habs, List.singleton_append]
  · have habs : n.toNat = n.natAbs := by omega
    rw [if_pos (by omega), if_neg h, Nat.repr_eq_ofList_toDigits, String.toList_ofList, habs]

/-! ## Signs -/

/-- A sign or none. -/
def IsSign (s : List Char) : Prop := s = [] ∨ s = ['-'] ∨ s = ['+']

/-- A character is a digit or a point. -/
def IsPlace (c : Char) : Prop := c.isDigit = true ∨ c = '.'

variable {cs s whole digits rest body : List Char} {n : Int}

/-- A text is a sign or none, and the rest. -/
theorem eq_splitSign (cs : List Char) : ∃ s, IsSign s ∧ cs = s ++ (splitSign cs).2 := by
  unfold splitSign
  split
  · exact ⟨['-'], .inr (.inl rfl), rfl⟩
  · exact ⟨['+'], .inr (.inr rfl), rfl⟩
  · exact ⟨[], .inl rfl, rfl⟩

/-- What follows a sign, or none, is the rest unless it begins with a sign itself. -/
theorem splitSign_append (hs : IsSign s) (hminus : rest.head? ≠ some '-')
    (hplus : rest.head? ≠ some '+') : (splitSign (s ++ rest)).2 = rest := by
  rcases hs with rfl | rfl | rfl
  · rw [List.nil_append]
    unfold splitSign
    split
    · exact absurd rfl hminus
    · exact absurd rfl hplus
    · rfl
  · rfl
  · rfl

theorem splitSign_append_places (hs : IsSign s) (hbody : ∀ c ∈ body, IsPlace c) :
    (splitSign (s ++ body)).2 = body := by
  have hhead : ∀ c, ¬IsPlace c → body.head? ≠ some c := fun c hc h => hc (hbody c (List.mem_of_head? h))
  exact splitSign_append hs (hhead '-' (by simp [IsPlace])) (hhead '+' (by simp [IsPlace]))

/-- A sign is no digit. -/
theorem exists_digit_append (hs : IsSign s) :
    (∃ c ∈ s ++ rest, c.isDigit = true) ↔ ∃ c ∈ rest, c.isDigit = true := by
  rcases hs with rfl | rfl | rfl
  · rfl
  · simp
  · simp

/-- A sign is no point. -/
theorem count_point_append (hs : IsSign s) : (s ++ rest).count '.' = rest.count '.' := by
  rcases hs with rfl | rfl | rfl <;> simp

/-! ## Integers -/

/-- There is a digit among digits unless there are none at all. -/
theorem exists_digit_iff (hdigits : ∀ c ∈ digits, c.isDigit = true) :
    (∃ c ∈ digits, c.isDigit = true) ↔ digits ≠ [] := by
  constructor
  · rintro ⟨c, hc, -⟩
    exact List.ne_nil_of_mem hc
  · intro hne
    obtain ⟨c, hc⟩ := List.exists_mem_of_ne_nil digits hne
    exact ⟨c, hc, hdigits c hc⟩

/-- A sign, or none, and digits are read as an integer if there is a digit. -/
theorem isSome_integer?_iff (hs : IsSign s) (hdigits : ∀ c ∈ digits, c.isDigit = true) :
    (integer? (s ++ digits)).isSome ↔ ∃ c ∈ s ++ digits, c.isDigit = true := by
  have hsplit := splitSign_append_places hs fun c hc => .inl (hdigits c hc)
  have hall : digits.all Char.isDigit = true := List.all_eq_true.2 hdigits
  rw [exists_digit_append hs, exists_digit_iff hdigits]
  unfold integer?
  simp only [hsplit, hall]
  by_cases hnone : digits = []
  · simp [hnone]
  · simp [hnone]

/-- What is read as an integer is a sign, or none, and digits. -/
theorem of_integer? (h : integer? cs = some n) :
    ∃ s digits, cs = s ++ digits ∧ IsSign s ∧ digits ≠ [] ∧ ∀ c ∈ digits, c.isDigit = true := by
  obtain ⟨s, hs, hcs⟩ := eq_splitSign cs
  unfold integer? at h
  simp only at h
  split at h
  · rename_i hdigits
    exact ⟨s, _, hcs, hs, hdigits.1, List.all_eq_true.1 hdigits.2⟩
  · cases h

/-- The decimal texts of an integer: a sign, or none, and digits, the first of which may be zeros. -/
def Writes (n : Int) (cs : List Char) : Prop :=
  ∃ s digits, cs = s ++ digits ∧ IsSign s ∧ digits ≠ [] ∧ (∀ c ∈ digits, c.isDigit = true) ∧
    n = if s = ['-'] then -(ofDigits 0 digits : Int) else ofDigits 0 digits

/-- The digits of an integer, behind a minus sign if it is negative, are one of its texts. -/
theorem writes_toString (n : Int) : Writes n (toString n).toList := by
  have hdigits : ∀ c ∈ Nat.toDigits 10 n.natAbs, c.isDigit = true := fun _ => isDigit_of_mem_toDigits
  rw [toList_toString]
  split
  · rename_i hneg
    refine ⟨['-'], Nat.toDigits 10 n.natAbs, rfl, .inr (.inl rfl), Nat.toDigits_ne_nil, hdigits, ?_⟩
    rw [ofDigits_toDigits, if_pos rfl]
    omega
  · rename_i hpos
    refine ⟨[], Nat.toDigits 10 n.natAbs, rfl, .inl rfl, Nat.toDigits_ne_nil, hdigits, ?_⟩
    rw [ofDigits_toDigits, if_neg (List.cons_ne_nil _ _).symm]
    omega

theorem splitSign_append_digits (hs : IsSign s) (hdigits : ∀ c ∈ digits, c.isDigit = true) :
    splitSign (s ++ digits) = (decide (s = ['-']), digits) := by
  have hrest := splitSign_append_places hs fun c hc => .inl (hdigits c hc)
  rcases hs with rfl | rfl | rfl
  · rw [List.nil_append] at hrest ⊢
    unfold splitSign at hrest ⊢
    split
    · exact absurd (hdigits '-' (by simp)) (by decide)
    · exact absurd (hdigits '+' (by simp)) (by decide)
    · rfl
  · rfl
  · rfl

/-- A decimal text of an integer is read as this integer. -/
theorem integer?_of_writes (h : Writes n cs) : integer? cs = some n := by
  obtain ⟨s, digits, rfl, hs, hne, hdigits, rfl⟩ := h
  unfold integer?
  simp only [splitSign_append_digits hs hdigits]
  rw [if_pos ⟨hne, List.all_eq_true.2 hdigits⟩]
  simp only [decide_eq_true_eq]

/-! ## Decimals -/

/-- A text begins with digits, behind which there is nothing or another character. -/
theorem eq_digits (cs : List Char) : ∃ whole rest, cs = whole ++ rest ∧ (∀ c ∈ whole, c.isDigit = true) ∧
    ∀ c ∈ rest.head?, c.isDigit = false := by
  refine ⟨_, _, List.takeWhile_append_dropWhile.symm, fun c hc => List.mem_takeWhile_imp hc, fun c hc => ?_⟩
  have hhead := List.head?_dropWhile_not Char.isDigit cs
  rw [Option.mem_def.1 hc] at hhead
  exact hhead

theorem takeWhile_digits (hdigits : ∀ c ∈ digits, c.isDigit = true) (hrest : ∀ c ∈ rest.head?, c.isDigit = false) :
    (digits ++ rest).takeWhile Char.isDigit = digits ∧ (digits ++ rest).dropWhile Char.isDigit = rest := by
  have hnone : rest.takeWhile Char.isDigit = [] ∧ rest.dropWhile Char.isDigit = rest := by
    cases rest with
    | nil => exact ⟨rfl, rfl⟩
    | cons c rest =>
      have hc : ¬c.isDigit = true := by simp [hrest c rfl]
      exact ⟨List.takeWhile_cons_of_neg hc, List.dropWhile_cons_of_neg hc⟩
  rw [List.takeWhile_append_of_pos hdigits, List.dropWhile_append_of_pos hdigits, hnone.1, hnone.2, List.append_nil]
  exact ⟨rfl, rfl⟩

/-- Digits without a point are read as a number if there is one and an exponent, or nothing, follows. -/
theorem isSome_unsigned?_whole (hwhole : ∀ c ∈ whole, c.isDigit = true) (hrest : ∀ c ∈ rest.head?, c.isDigit = false)
    (hpoint : rest.head? ≠ some '.') :
    (unsigned? (whole ++ rest)).isSome ↔ whole ≠ [] ∧ (exponent? rest).isSome := by
  obtain ⟨htake, hdrop⟩ := takeWhile_digits hwhole hrest
  unfold unsigned?
  simp only [htake, hdrop]
  cases rest with
  | nil => simp [exponent?]
  | cons c rest =>
    have hc : c ≠ '.' := fun h => hpoint (congrArg some h)
    by_cases hnone : whole = []
    · simp [hc, hnone]
    · cases hexponent : exponent? (c :: rest) <;> simp [hc, hnone, hexponent]

/-- Digits with a point are read as a number if there is a digit and an exponent, or nothing, follows. -/
theorem isSome_unsigned?_point (hwhole : ∀ c ∈ whole, c.isDigit = true) (hdigits : ∀ c ∈ digits, c.isDigit = true)
    (hrest : ∀ c ∈ rest.head?, c.isDigit = false) :
    (unsigned? (whole ++ '.' :: (digits ++ rest))).isSome ↔
      ¬(whole = [] ∧ digits = []) ∧ (exponent? rest).isSome := by
  have hpoint : ∀ c ∈ ('.' :: (digits ++ rest)).head?, c.isDigit = false := by
    rintro _ ⟨⟩
    rfl
  obtain ⟨htake, hdrop⟩ := takeWhile_digits hwhole hpoint
  obtain ⟨htake', hdrop'⟩ := takeWhile_digits hdigits hrest
  unfold unsigned?
  simp only [htake, hdrop, htake', hdrop']
  by_cases hnone : whole = [] ∧ digits = []
  · simp [hnone]
  · cases exponent? rest <;> simp [hnone]

/-- Nothing else than an exponent follows a number. -/
theorem of_exponent? (h : (exponent? cs).isSome) (he : ∀ c ∈ cs, c ≠ 'e' ∧ c ≠ 'E') : cs = [] := by
  cases cs with
  | nil => rfl
  | cons c rest =>
    obtain ⟨hlower, hupper⟩ := he c List.mem_cons_self
    simp [exponent?, hlower, hupper] at h

theorem count_point_of_digits (hdigits : ∀ c ∈ digits, c.isDigit = true) : digits.count '.' = 0 :=
  List.count_eq_zero.2 fun h => absurd (hdigits _ h) (by decide)

/-- Digits with points among or around them are read as a number if there is a digit and not more than one point. -/
theorem isSome_unsigned?_iff (hbody : ∀ c ∈ body, IsPlace c) :
    (unsigned? body).isSome ↔ body.count '.' ≤ 1 ∧ ∃ c ∈ body, c.isDigit = true := by
  obtain ⟨whole, rest, rfl, hwhole, hrest⟩ := eq_digits body
  have hcount := count_point_of_digits hwhole
  cases rest with
  | nil =>
    rw [isSome_unsigned?_whole hwhole hrest nofun, List.append_nil, exists_digit_iff hwhole]
    simp [exponent?, hcount]
  | cons c rest =>
    have hc : c = '.' := (hbody c (by simp)).resolve_left (by simp [hrest c rfl])
    subst hc
    obtain ⟨digits, rest, rfl, hdigits, hrest'⟩ := eq_digits rest
    have hcount' := count_point_of_digits hdigits
    rw [isSome_unsigned?_point hwhole hdigits hrest']
    cases rest with
    | nil =>
      have hsome : (∃ c ∈ whole ++ '.' :: (digits ++ []), c.isDigit = true) ↔ whole ≠ [] ∨ digits ≠ [] := by
        rw [← exists_digit_iff hwhole, ← exists_digit_iff hdigits]
        simp [or_and_right, exists_or]
      rw [hsome, ← not_and_or]
      simp [exponent?, hcount, hcount']
    | cons d rest =>
      have hd : d = '.' := (hbody d (by simp)).resolve_left (by simp [hrest' d rfl])
      subst hd
      have htwice : ¬(whole ++ '.' :: (digits ++ '.' :: rest)).count '.' ≤ 1 := by
        simp only [List.count_append, List.count_cons_self]
        omega
      exact iff_of_false (by simp [exponent?]) fun h => htwice h.1

/-- What is read as a number without an exponent consists of digits and points. -/
theorem of_unsigned? (h : (unsigned? cs).isSome) (he : ∀ c ∈ cs, c ≠ 'e' ∧ c ≠ 'E') : ∀ c ∈ cs, IsPlace c := by
  obtain ⟨whole, rest, rfl, hwhole, hrest⟩ := eq_digits cs
  by_cases hpoint : rest.head? = some '.'
  · obtain ⟨rest, rfl⟩ := List.head?_eq_some_iff.1 hpoint
    obtain ⟨digits, rest, rfl, hdigits, hrest'⟩ := eq_digits rest
    have hnil := of_exponent? ((isSome_unsigned?_point hwhole hdigits hrest').1 h).2 fun c hc => he c (by simp [hc])
    intro c hc
    simp only [hnil, List.append_nil, List.mem_append, List.mem_cons] at hc
    rcases hc with hc | hc | hc
    · exact .inl (hwhole c hc)
    · exact .inr hc
    · exact .inl (hdigits c hc)
  · have hnil := of_exponent? ((isSome_unsigned?_whole hwhole hrest hpoint).1 h).2 fun c hc => he c (by simp [hc])
    rw [hnil, List.append_nil]
    exact fun c hc => .inl (hwhole c hc)

/-- **Which texts are numbers**: a sign, or none, in front of digits with points among or around them is read as a
number if there is a digit and not more than one point. -/
theorem isSome_ofText?_iff (hs : IsSign s) (hbody : ∀ c ∈ body, IsPlace c) :
    (ofText? (s ++ body)).isSome ↔ (s ++ body).count '.' ≤ 1 ∧ ∃ c ∈ s ++ body, c.isDigit = true := by
  rw [count_point_append hs, exists_digit_append hs, ← isSome_unsigned?_iff hbody]
  simp [ofText?, splitSign_append_places hs hbody]

/-- What is read as a number without an exponent is a sign, or none, in front of digits and points. -/
theorem of_ofText? (h : (ofText? cs).isSome) (he : ∀ c ∈ cs, c ≠ 'e' ∧ c ≠ 'E') :
    ∃ s body, cs = s ++ body ∧ IsSign s ∧ ∀ c ∈ body, IsPlace c := by
  obtain ⟨s, hs, hcs⟩ := eq_splitSign cs
  have hsome : (unsigned? (splitSign cs).2).isSome := by simpa [ofText?] using h
  exact ⟨s, _, hcs, hs, of_unsigned? hsome fun c hc => he c (by rw [hcs]; simp [hc])⟩

end Decimal

/-- The same of an integer of 64 bits. -/
theorem Value.toList_integerText (number : Int64) : (integerText number).toList =
    if number.toInt < 0 then '-' :: Nat.toDigits 10 number.toInt.natAbs else Nat.toDigits 10 number.toInt.natAbs :=
  Decimal.toList_toString number.toInt

end RecordServer
