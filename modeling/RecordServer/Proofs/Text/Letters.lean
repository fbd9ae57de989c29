import Mathlib.Data.List.Basic
import RecordServer.Text.Blank
import RecordServer.Text.Letter
import RecordServer.Text.LowerCase

/-!
# What letters and numbers are

Bisection finds the code points of the intervals of a table, since these ascend (`Text.Intervals.has_iff`). From the
tables of letters and numbers it follows that no blank is among them (`Text.not_isAlphanumeric_of_isBlank`), nor any of
the signs that have a meaning in paths, but ASCII letters and digits are.

The lower case of a text consists of those of its parts, each folded with what is around it (`Text.lowerFrom_append`).
What is around a part matters for its capital sigmas only: if they end a word there exactly if they do so in the part
alone, the lower case of the part is within that of the text (`Text.StandsAlike.lower_infix`).
-/

namespace RecordServer.Text

/-! ## Bisection -/

namespace Intervals

/-- Intervals are not empty, and each ends before the next begins. -/
def Ascend (ranges : List (Nat × Nat)) : Prop :=
  (∀ r ∈ ranges, r.1 ≤ r.2) ∧ ranges.Pairwise fun r s => r.2 < s.1

variable {table : Intervals} {code low high m n : Nat} {r s : Nat × Nat}

theorem Ascend.le (h : Ascend table.toList) (hr : table[n]? = some r) : r.1 ≤ r.2 :=
  h.1 r (Array.mem_toList_iff.2 (Array.mem_of_getElem? hr))

theorem Ascend.lt (h : Ascend table.toList) (hr : table[m]? = some r) (hs : table[n]? = some s) (hlt : m < n) :
    r.2 < s.1 := by
  rw [← Array.getElem?_toList] at hr hs
  obtain ⟨hm, rfl⟩ := List.getElem?_eq_some_iff.1 hr
  obtain ⟨hn, rfl⟩ := List.getElem?_eq_some_iff.1 hs
  exact List.pairwise_iff_getElem.1 h.2 m n hm hn hlt

theorem getElem?_of_getD (hn : n < table.size) (h : table.getD n (0, 0) = r) : table[n]? = some r := by
  rw [← h, Array.getD_eq_getD_getElem?, Array.getElem?_eq_getElem hn, Option.getD_some]

/-- Bisection finds the code points of the intervals between two places. -/
theorem containsBetween_iff (h : Ascend table.toList) (hhigh : high ≤ table.size) :
    containsBetween table code low high = true ↔
      ∃ n r, low ≤ n ∧ n < high ∧ table[n]? = some r ∧ r.1 ≤ code ∧ code ≤ r.2 := by
  fun_induction containsBetween table code low high with
  | case1 low high hlt middle first last hmiddle hbefore ih =>
    have hr := getElem?_of_getD (show middle < table.size by omega) hmiddle
    rw [ih (by omega)]
    refine exists_congr fun n => exists_congr fun s => and_congr_right fun _ => ⟨?_, ?_⟩
    · rintro ⟨hn, hs⟩
      exact ⟨by omega, hs⟩
    · rintro ⟨-, hs, hfirst, hlast⟩
      refine ⟨?_, hs, hfirst, hlast⟩
      by_contra hge
      have hle := h.le hr
      rcases Nat.eq_or_lt_of_le (Nat.le_of_not_lt hge) with rfl | hgt
      · obtain rfl : (first, last) = s := Option.some.inj (hr.symm.trans hs)
        dsimp only at hfirst
        omega
      · have hbehind := h.lt hr hs hgt
        dsimp only at hle hbehind
        omega
  | case2 low high hlt middle first last hmiddle hfirst' hbehind ih =>
    have hr := getElem?_of_getD (show middle < table.size by omega) hmiddle
    rw [ih hhigh]
    refine exists_congr fun n => exists_congr fun s => ⟨?_, ?_⟩
    · rintro ⟨hn, hs⟩
      exact ⟨by omega, hs⟩
    · rintro ⟨-, hhigh, hs, hfirst, hlast⟩
      refine ⟨?_, hhigh, hs, hfirst, hlast⟩
      by_contra hle
      rcases Nat.eq_or_lt_of_le (Nat.le_of_lt_succ (Nat.lt_of_not_le hle)) with rfl | hlt
      · obtain rfl : (first, last) = s := Option.some.inj (hr.symm.trans hs)
        dsimp only at hlast
        omega
      · have hbefore := h.lt hs hr hlt
        have hle := h.le hr
        dsimp only at hbefore hle
        omega
  | case3 low high hlt middle first last hmiddle hfirst hlast =>
    have hm : middle < table.size := by omega
    refine iff_of_true (decide_eq_true hm) ⟨middle, (first, last), by omega, by omega, getElem?_of_getD hm hmiddle, ?_⟩
    exact ⟨Nat.le_of_not_lt hfirst, Nat.le_of_not_lt hlast⟩
  | case4 low high hge =>
    refine iff_of_false Bool.false_ne_true ?_
    rintro ⟨n, r, hlow, hhigh, -⟩
    omega

/-- **A table has the code points of its intervals.** -/
theorem has_iff (h : Ascend table.toList) :
    table.has code = true ↔ ∃ r ∈ table.toList, r.1 ≤ code ∧ code ≤ r.2 := by
  rw [has, containsBetween_iff h (Nat.le_refl _)]
  constructor
  · rintro ⟨n, r, -, -, hr, hcode⟩
    exact ⟨r, Array.mem_toList_iff.2 (Array.mem_of_getElem? hr), hcode⟩
  · rintro ⟨r, hr, hcode⟩
    obtain ⟨n, hn, rfl⟩ := Array.mem_iff_getElem.1 (Array.mem_toList_iff.1 hr)
    exact ⟨n, _, Nat.zero_le n, hn, Array.getElem?_eq_getElem hn, hcode⟩

/-- The intervals which are read from gaps and lengths lie behind each other. -/
theorem ascend_intervalsFrom (numbers : List Nat) (start : Nat) :
    Ascend (intervalsFrom start numbers) ∧ ∀ r ∈ intervalsFrom start numbers, start ≤ r.1 := by
  fun_induction intervalsFrom start numbers with
  | case1 start gap extent rest ih =>
    obtain ⟨⟨hfilled, hpairwise⟩, hstart⟩ := ih
    refine ⟨⟨List.forall_mem_cons.2 ⟨by simp, hfilled⟩, List.pairwise_cons.2 ⟨?_, hpairwise⟩⟩,
      List.forall_mem_cons.2 ⟨by simp, ?_⟩⟩
    · intro r hr
      exact hstart r hr
    · intro r hr
      have := hstart r hr
      omega
  | case2 start numbers hshort => exact ⟨⟨nofun, .nil⟩, nofun⟩

theorem ascend_ofSource (source : List String) : Ascend (ofSource source).toList := (ascend_intervalsFrom _ 0).1

end Intervals

/-! ## The tables -/

variable {c : Char}

/-- The first text of a source is given by its characters, so that a table can be evaluated. -/
theorem flatMap_toList_cons (cs : List Char) (rest : List String) :
    (String.ofList cs :: rest).flatMap String.toList = cs ++ rest.flatMap String.toList := by
  rw [List.flatMap_cons, String.toList_ofList]

/-- The code points of the blanks, and of the signs which have a meaning in paths. -/
def apartCodes : List Nat :=
  [9, 10, 11, 12, 13, 0x20, 0x85, 0xA0, 0x1680, 0x2000, 0x2001, 0x2002, 0x2003, 0x2004, 0x2005, 0x2006, 0x2007, 0x2008,
    0x2009, 0x200A, 0x2028, 0x2029, 0x202F, 0x205F, 0x3000] ++ ['(', '*', '/', '@'].map Char.toNat

theorem apart_alphabetic : ∀ r ∈ alphabetic.toList, ∀ n ∈ apartCodes, n < r.1 ∨ r.2 < n := by
  unfold alphabetic Intervals.ofSource numbers
  repeat rw [flatMap_toList_cons]
  decide +kernel

theorem apart_numeric : ∀ r ∈ numeric.toList, ∀ n ∈ apartCodes, n < r.1 ∨ r.2 < n := by
  unfold numeric Intervals.ofSource numbers
  repeat rw [flatMap_toList_cons]
  decide +kernel

theorem lowerCase_mem_alphabetic : (97, 122) ∈ alphabetic.toList := by
  unfold alphabetic Intervals.ofSource numbers
  repeat rw [flatMap_toList_cons]
  decide +kernel

theorem digits_mem_numeric : (48, 57) ∈ numeric.toList := by
  unfold numeric Intervals.ofSource numbers
  repeat rw [flatMap_toList_cons]
  decide +kernel

theorem isAlphabetic_iff : isAlphabetic c = true ↔ ∃ r ∈ alphabetic.toList, r.1 ≤ c.toNat ∧ c.toNat ≤ r.2 :=
  Intervals.has_iff (Intervals.ascend_ofSource _)

theorem isAlphanumeric_iff : isAlphanumeric c = true ↔
    isAlphabetic c = true ∨ ∃ r ∈ numeric.toList, r.1 ≤ c.toNat ∧ c.toNat ≤ r.2 := by
  rw [isAlphanumeric, Bool.or_eq_true]
  exact or_congr_right (Intervals.has_iff (Intervals.ascend_ofSource _))

theorem not_isAlphanumeric_of_mem (h : c.toNat ∈ apartCodes) : isAlphanumeric c = false := by
  rw [Bool.eq_false_iff, Ne, isAlphanumeric_iff, isAlphabetic_iff]
  rintro (⟨r, hr, hfirst, hlast⟩ | ⟨r, hr, hfirst, hlast⟩)
  · have := apart_alphabetic r hr _ h
    omega
  · have := apart_numeric r hr _ h
    omega

/-- **No blank is a letter or a number.** -/
theorem not_isAlphanumeric_of_isBlank (h : isBlank c = true) : isAlphanumeric c = false := by
  apply not_isAlphanumeric_of_mem
  simp only [isBlank, Bool.or_eq_true, Bool.and_eq_true, decide_eq_true_eq, beq_iff_eq] at h
  simp only [apartCodes, List.mem_append, List.mem_cons]
  omega

/-- A lower-case letter of ASCII is a letter. -/
theorem isAlphabetic_of_isLower (h : c.isLower = true) : isAlphabetic c = true := by
  refine isAlphabetic_iff.2 ⟨_, lowerCase_mem_alphabetic, ?_⟩
  unfold Char.isLower at h
  rw [Bool.and_eq_true, decide_eq_true_eq, decide_eq_true_eq] at h
  exact h

/-- A digit of ASCII is a number. -/
theorem isAlphanumeric_of_isDigit (h : c.isDigit = true) : isAlphanumeric c = true := by
  refine isAlphanumeric_iff.2 (.inr ⟨_, digits_mem_numeric, ?_⟩)
  simp only [Char.isDigit, Bool.and_eq_true, decide_eq_true_eq] at h
  exact h

/-! ## Folding a text and its parts -/

/-- Folding a part of a text from left to right, with the characters in front of it in reverse. -/
def lowerWithin (before after : List Char) : List Char → List Char
  | [] => []
  | c :: rest =>
    (if c = 'Σ' then [if isFinalSigma before (rest ++ after) then 'ς' else 'σ'] else lowerChar c) ++
      lowerWithin (c :: before) after rest

theorem lowerFrom_append : ∀ (before part after : List Char),
    lowerFrom before (part ++ after) = lowerWithin before after part ++ lowerFrom (part.reverse ++ before) after
  | _, [], _ => rfl
  | before, c :: rest, after => by
    rw [List.cons_append, lowerFrom, lowerFrom_append (c :: before) rest after, lowerWithin, List.append_assoc,
      List.reverse_cons, List.append_assoc]
    rfl

theorem lowerWithin_nil : ∀ (before cs : List Char), lowerWithin before [] cs = lowerFrom before cs
  | _, [] => rfl
  | before, c :: rest => by
    rw [lowerWithin, lowerFrom, lowerWithin_nil (c :: before) rest, List.append_nil]

/-- What is around a part matters for its capital sigmas only. -/
theorem lowerWithin_congr {after after' : List Char} : ∀ {part before before' : List Char},
    (∀ x y, part = x ++ 'Σ' :: y →
      isFinalSigma (x.reverse ++ before) (y ++ after) = isFinalSigma (x.reverse ++ before') (y ++ after')) →
    lowerWithin before after part = lowerWithin before' after' part
  | [], _, _, _ => rfl
  | c :: rest, before, before', h => by
    have hrest : lowerWithin (c :: before) after rest = lowerWithin (c :: before') after' rest :=
      lowerWithin_congr fun x y hpart => by simpa using h (c :: x) y (congrArg (c :: ·) hpart)
    rw [lowerWithin, lowerWithin, hrest]
    by_cases hsigma : c = 'Σ'
    · have hfirst : isFinalSigma before (rest ++ after) = isFinalSigma before' (rest ++ after') :=
        h [] rest (congrArg (· :: rest) hsigma)
      rw [if_pos hsigma, if_pos hsigma, hfirst]
    · rw [if_neg hsigma, if_neg hsigma]

/-- A text stands in another one so that its capital sigmas end a word there exactly if they do so in the text alone. -/
def StandsAlike (text all : List Char) : Prop :=
  ∃ front back, all = front ++ text ++ back ∧
    ∀ x y, text = x ++ 'Σ' :: y → isFinalSigma (x.reverse ++ front.reverse) (y ++ back) = isFinalSigma x.reverse y

variable {text all : List Char}

/-- **Folding keeps a text within another one**, if its capital sigmas stand there as they do alone. -/
theorem StandsAlike.lower_infix (h : StandsAlike text all) : lowerFrom [] text <:+: lowerFrom [] all := by
  obtain ⟨front, back, rfl, hsigmas⟩ := h
  rw [List.append_assoc, lowerFrom_append [] front, lowerFrom_append _ text, List.append_nil, ← lowerWithin_nil [] text,
    lowerWithin_congr (fun x y htext => by simpa using (hsigmas x y htext).symm), ← List.append_assoc]
  exact List.infix_append _ _ _

/-- A text without capital sigmas stands alike wherever it is. -/
theorem standsAlike_of_not_mem (hsigma : 'Σ' ∉ text) (h : text <:+: all) : StandsAlike text all := by
  obtain ⟨front, back, rfl⟩ := h
  exact ⟨front, back, rfl, fun x y htext => absurd (htext ▸ List.mem_append_right x List.mem_cons_self) hsigma⟩

end RecordServer.Text
