import RecordServer.Proofs.Parser.Shape
import RecordServer.Proofs.Regexp.Reading

/-!
# The patterns of formats

A primitive format tells what its texts look like in two ways, as a written pattern and as a shape. Both are the same:
the pattern is read as one which describes the texts of the shape (`Format.read?_pattern`), whatever characters are
ignored, separate or stand for truth values.
-/

namespace RecordServer.Format

open Decimal (IsSign)
open Regexp (Reading Pattern Nested escaped)

variable {ignored : String} {separator : Char} {cs s rest : List Char} {c : Char} {r : Reading}

/-- The pattern of a sign, or none. -/
def signPattern : Pattern :=
  .repetition 0 (some 1) true
    (.chars (.bracketed false (.union [.letter ⟨'-', false⟩, .letter ⟨'+', false⟩])))

theorem describes_sign : signPattern.Describes s ↔ IsSign s := by
  rw [signPattern, Pattern.describes_optional, Pattern.describes_chars, ← fits_sign]
  simp [Regexp.CharClass.Holds, Regexp.CharClass.HoldsAny, isSign_iff]

/-- A sign, or none, comes first. -/
theorem leads_sign (hrest : rest.head? ≠ some '?') : Reading.start.Leads ('[' :: '-' :: '+' :: ']' :: '?' :: rest)
    (Reading.start.add ⟨signPattern, 3⟩) rest := by
  have hclass : Regexp.readClass? false ('-' :: '+' :: ']' :: '?' :: rest) =
      some (⟨.bracketed false (.union [.letter ⟨'-', false⟩, .letter ⟨'+', false⟩]), 2⟩, '?' :: rest) := rfl
  refine (Reading.leads_class rfl hclass (by simp)).trans ?_
  exact Reading.leads_repeat (p := ⟨.chars _, 2⟩) rfl (.head _) rfl (by decide) hrest

/-- Brackets with the digits and ignored characters, and a sign for a repetition of it. -/
def digitsText (ignored : String) (sign : Char) (rest : List Char) : List Char :=
  '[' :: '0' :: '-' :: '9' :: (escaped ignored.toList ++ ']' :: sign :: rest)

/-- Digits and ignored characters are repeated. -/
theorem exists_leads_digits (ignored : String) (hverbose : r.verbose = false) {sign : Char} {least : Nat}
    (hsign : (sign, least) ∈ [('*', 0), ('+', 1)]) (hrest : rest.head? ≠ some '?') :
    ∃ p : Nested Pattern, p.depth ≤ 3 ∧
      r.Leads (digitsText ignored sign rest) (r.add p) rest ∧
      ∀ cs, p.value.Describes cs ↔ least ≤ cs.length ∧ ∀ c ∈ cs, isDigitOr ignored c = true := by
  obtain ⟨s, hclass, hdepth, hholds⟩ := Regexp.readClass?_digits ignored.toList (sign :: rest)
  have hsign' : (sign, least, (none : Option Nat)) ∈ [('?', 0, some 1), ('*', 0, none), ('+', 1, none)] := by
    simpa using hsign
  refine ⟨⟨.repetition least none true (.chars s.value), s.depth + 1⟩, Nat.succ_le_succ hdepth, ?_, fun cs => ?_⟩
  · refine (Reading.leads_class hverbose hclass (by simp; omega)).trans ?_
    exact Reading.leads_repeat (p := ⟨.chars s.value, s.depth⟩) hverbose hsign' rfl
      (Nat.lt_of_le_of_lt hdepth (by decide)) hrest
  · rw [Pattern.describes_repeated]
    simp only [hholds, isDigitOr_iff]

/-- A separator and digits and ignored characters may follow at the end. -/
theorem exists_leads_fraction (ignored : String) (separator : Char) (hverbose : r.verbose = false)
    (houter : r.outer.length < Nested.limit) : ∃ p : Nested Pattern, p.depth ≤ 6 ∧
      r.Leads ('(' :: '?' :: ':' :: (escaped [separator] ++ digitsText ignored '*' [')', '?'])) (r.add p) [] ∧
      ∀ cs, p.value.Describes cs ↔ IsTail ignored separator cs := by
  obtain ⟨digits, hdepth, hdigits, hdescribes⟩ := exists_leads_digits (r := r.inGroup.behind [separator]) ignored
    hverbose (.head _) (show [')', '?'].head? ≠ some '?' by simp)
  obtain ⟨p, hwhole, hle, hp⟩ := Reading.exists_concatenation (r := (r.inGroup.behind [separator]).add digits) rfl
    (Nat.le_refl 2) (n := 3) (by simp [Reading.add, Reading.behind, Reading.letters, Reading.inGroup, Nested.leaf, hdepth])
    (by decide)
  have hopen := Reading.leads_open hverbose houter (escaped [separator] ++ digitsText ignored '*' [')', '?'])
  have hseparator := Reading.leads_escaped (r := r.inGroup) hverbose [separator] (digitsText ignored '*' [')', '?'])
  have hclose := Reading.leads_close (r := r) hverbose hwhole (Nat.lt_of_le_of_lt hle (by decide)) ['?']
  have hrepeat := Reading.leads_repeat (r := r) (p := ⟨.group (.switching []) p.value, p.depth + 1⟩) hverbose (.head _) rfl
    (Nat.lt_of_le_of_lt (Nat.succ_le_succ hle) (by decide)) (show [].head? ≠ some '?' by simp)
  refine ⟨_, Nat.succ_le_succ (Nat.succ_le_succ hle), (((hopen.trans hseparator).trans hdigits).trans hclose).trans hrepeat,
    fun cs => ?_⟩
  have hparts : ((r.inGroup.behind [separator]).add digits).parts.reverse.map Nested.value =
      [.letter ⟨separator, false⟩, digits.value] := rfl
  rw [Pattern.describes_optional, Pattern.describes_group, hp, hparts]
  simp only [Pattern.describes_several, Pattern.describes_none, Pattern.describes_letter, hdescribes, IsTail]
  constructor
  · rintro (⟨_, _, rfl, rfl, back, _, rfl, ⟨-, hback⟩, rfl⟩ | rfl)
    · exact .inr ⟨back, by simp, hback⟩
    · exact .inl rfl
  · rintro (rfl | ⟨back, rfl, hback⟩)
    · exact .inr rfl
    · exact .inl ⟨[separator], back, rfl, rfl, back, [], by simp, ⟨Nat.zero_le _, hback⟩, rfl⟩

/-! ## Formats -/

/-- Reading a sign and digits. -/
def signed (digits : Nested Pattern) : Reading := (Reading.start.add ⟨signPattern, 3⟩).add digits

/-- Both patterns of numbers begin with a sign, or none, and at least one digit or ignored character. -/
theorem exists_leads_signed (ignored : String) (hrest : rest.head? ≠ some '?') : ∃ digits : Nested Pattern,
    digits.depth ≤ 3 ∧
      Reading.start.Leads ('[' :: '-' :: '+' :: ']' :: '?' :: digitsText ignored '+' rest) (signed digits) rest ∧
      ∀ cs, digits.value.Describes cs ↔ cs ≠ [] ∧ ∀ c ∈ cs, isDigitOr ignored c = true := by
  obtain ⟨digits, hdepth, hdigits, hdescribes⟩ := exists_leads_digits (r := Reading.start.add ⟨signPattern, 3⟩) ignored
    rfl (.tail _ (.head _)) hrest
  refine ⟨digits, hdepth, (leads_sign (by simp [digitsText])).trans hdigits, fun cs => ?_⟩
  rw [hdescribes, Nat.succ_le_iff, List.length_pos_iff]

/-- **The pattern of an integer** describes what an integer looks like. -/
theorem read?_integer (ignored : String) : ∃ p, Pattern.read? (integer ignored).pattern = some p ∧
    ∀ cs, p.Describes cs ↔ (integer ignored).shape.Fits cs := by
  have hpattern : (integer ignored).pattern.toList =
      '[' :: '-' :: '+' :: ']' :: '?' :: digitsText ignored '+' [] := by
    simp [pattern, digitsText, Regexp.toList_escape]
  obtain ⟨digits, hdepth, hleads, hdescribes⟩ := exists_leads_signed ignored (show [].head? ≠ some '?' by simp)
  rw [← hpattern] at hleads
  obtain ⟨p, hwhole, -, hp⟩ := Reading.exists_concatenation (r := signed digits) rfl (Nat.le_refl 2) (n := 3)
    (by simp [signed, Reading.add, Reading.start, hdepth]) (by decide)
  refine ⟨p.value, hleads.read? rfl rfl hwhole, fun cs => ?_⟩
  have hparts : (signed digits).parts.reverse.map Nested.value = [signPattern, digits.value] := rfl
  rw [hp, hparts, fits_integer]
  simp only [Pattern.describes_several, Pattern.describes_none, describes_sign, hdescribes]
  constructor
  · rintro ⟨s, _, rfl, hs, front, _, rfl, ⟨hne, hfront⟩, rfl⟩
    exact ⟨s, front, by rw [List.append_nil], hs, hne, hfront⟩
  · rintro ⟨s, front, rfl, hs, hne, hfront⟩
    exact ⟨s, front, rfl, hs, front, [], by rw [List.append_nil], ⟨hne, hfront⟩, rfl⟩

/-- **The pattern of a number** describes what a number looks like. -/
theorem read?_float (ignored : String) (separator : Char) :
    ∃ p, Pattern.read? (float ignored separator).pattern = some p ∧
      ∀ cs, p.Describes cs ↔ (float ignored separator).shape.Fits cs := by
  have hpattern : (float ignored separator).pattern.toList =
      '[' :: '-' :: '+' :: ']' :: '?' :: digitsText ignored '+'
        ('(' :: '?' :: ':' :: (escaped [separator] ++ digitsText ignored '*' [')', '?'])) := by
    simp [pattern, digitsText, Regexp.toList_escape]
  have hopen : ('(' :: '?' :: ':' :: (escaped [separator] ++ digitsText ignored '*' [')', '?'])).head? ≠ some '?' := by
    simp
  obtain ⟨digits, hdepth, hsigned, hdescribes⟩ := exists_leads_signed ignored hopen
  obtain ⟨fraction, hdepth', hfraction, hdescribes'⟩ := exists_leads_fraction (r := signed digits) ignored separator rfl
    (show 0 < Nested.limit by decide)
  have hleads := hsigned.trans hfraction
  rw [← hpattern] at hleads
  obtain ⟨p, hwhole, -, hp⟩ := Reading.exists_concatenation (r := (signed digits).add fraction) rfl
    (by simp [signed, Reading.add]) (n := 6)
    (by simp [signed, Reading.add, Reading.start, hdepth', Nat.le_trans hdepth]) (by decide)
  refine ⟨p.value, hleads.read? rfl rfl hwhole, fun cs => ?_⟩
  have hparts : ((signed digits).add fraction).parts.reverse.map Nested.value =
      [signPattern, digits.value, fraction.value] := rfl
  rw [hp, hparts, fits_float]
  simp only [Pattern.describes_several, Pattern.describes_none, describes_sign, hdescribes, hdescribes']
  constructor
  · rintro ⟨s, _, rfl, hs, front, _, rfl, ⟨hne, hfront⟩, tail, _, rfl, htail, rfl⟩
    exact ⟨s, front, tail, by rw [List.append_nil], hs, hne, hfront, htail⟩
  · rintro ⟨s, front, tail, rfl, hs, hne, hfront, htail⟩
    exact ⟨s, _, rfl, hs, front, _, rfl, ⟨hne, hfront⟩, tail, [], by rw [List.append_nil], htail, rfl⟩

/-- **The pattern of truth values** describes each of their texts, if there is one. -/
theorem read?_boolean {trueValues falseValues : List String} (hne : trueValues ++ falseValues ≠ []) :
    ∃ p, Pattern.read? (boolean trueValues falseValues).pattern = some p ∧
      ∀ cs, p.Describes cs ↔ (boolean trueValues falseValues).shape.Fits cs := by
  obtain ⟨value, values, hvalues⟩ := List.exists_cons_of_ne_nil hne
  have hpattern : (boolean trueValues falseValues).pattern.toList = '(' :: '?' :: ':' ::
      (['|'].intercalate ((value.toList :: values.map String.toList).map escaped) ++ [')']) := by
    simp [pattern, hvalues, String.toList_intercalate, Function.comp_def, Regexp.toList_escape]
  obtain ⟨branches, parts, p, hleads, hwhole, hle, hp⟩ := Reading.exists_leads_alternatives [')'] value.toList
    (values.map String.toList) Reading.start.inGroup rfl rfl nofun
  have hopen := Reading.leads_open (r := Reading.start) rfl (by decide)
    (['|'].intercalate ((value.toList :: values.map String.toList).map escaped) ++ [')'])
  have hclose := Reading.leads_close (r := Reading.start) rfl hwhole (Nat.lt_of_le_of_lt hle (by decide)) []
  have hall := (hopen.trans hleads).trans hclose
  rw [← hpattern] at hall
  refine ⟨_, hall.read? rfl rfl rfl, fun cs => ?_⟩
  rw [Pattern.describes_group, hp, fits_boolean, hvalues]
  have hmem : cs ∈ value.toList :: values.map String.toList ↔ String.ofList cs ∈ value :: values := by
    rw [← List.map_cons, List.mem_map]
    constructor
    · rintro ⟨text, htext, rfl⟩
      rwa [String.ofList_toList]
    · exact fun h => ⟨_, h, String.toList_ofList⟩
  rw [hmem]
  exact or_iff_left nofun

/-- The pattern of texts describes those without a slash which are not empty. -/
theorem read?_string (charset : Option Text.Charset) : ∃ p, Pattern.read? (string charset).pattern = some p ∧
    ∀ cs, p.Describes cs ↔ (string charset).shape.Fits cs := by
  have hpattern : (string charset).pattern.toList = ['[', '^', '/', ']', '+'] := by
    rw [pattern]
    rfl
  have hread : Pattern.read? (string charset).pattern =
      some (.repetition 1 none true (.chars (.bracketed true (.letter ⟨'/', false⟩)))) := by
    unfold Pattern.read?
    rw [hpattern]
    rfl
  refine ⟨_, hread, fun cs => ?_⟩
  rw [Pattern.describes_repeated, fits_string, Nat.one_le_iff_ne_zero, Ne, List.length_eq_zero_iff]
  simp [Regexp.CharClass.Holds, List.forall_mem_ne']

/-- **The pattern of a primitive format** is one which describes what its values look like that are not empty. -/
theorem read?_pattern {f : Format} (h : f.isPrimitive = true) : ∃ p, Pattern.read? f.pattern = some p ∧
    ∀ cs, cs ≠ [] → (p.Describes cs ↔ f.shape.Fits cs) := by
  cases f with
  | string charset =>
    obtain ⟨p, hread, hp⟩ := read?_string charset
    exact ⟨p, hread, fun cs _ => hp cs⟩
  | integer ignored =>
    obtain ⟨p, hread, hp⟩ := read?_integer ignored
    exact ⟨p, hread, fun cs _ => hp cs⟩
  | float ignored separator =>
    obtain ⟨p, hread, hp⟩ := read?_float ignored separator
    exact ⟨p, hread, fun cs _ => hp cs⟩
  | boolean trueValues falseValues =>
    by_cases hne : trueValues ++ falseValues = []
    · -- Without any values the group is empty, and so are the texts which it describes.
      have hpattern : (boolean trueValues falseValues).pattern.toList = ['(', '?', ':', ')'] := by
        rw [pattern, hne]
        rfl
      refine ⟨.group (.switching []) .empty, ?_, fun cs hcs => iff_of_false ?_ ?_⟩
      · unfold Pattern.read?
        rw [hpattern]
        rfl
      · rwa [Pattern.describes_group, Pattern.describes_empty]
      · rw [fits_boolean, hne]
        exact List.not_mem_nil
    · obtain ⟨p, hread, hp⟩ := read?_boolean hne
      exact ⟨p, hread, fun cs _ => hp cs⟩
  | json => cases h
  | split separator inner => cases h

end RecordServer.Format
