import Mathlib.Data.List.Basic
import RecordServer.Regexp.Meaning

/-!
# What patterns describe

The characters of a class (`CharClass.Holds`) and the texts which a pattern describes as a whole (`Pattern.Describes`)
are said of what is written, and not of the expression or the machine that is made of it. Patterns which ask about
places or switch flags describe nothing here.
-/

namespace RecordServer.Regexp

/-! ## Classes -/

/-- A character lies in one of the intervals of a set. -/
def Chars.Has (s : Chars) (c : Char) : Prop := ∃ r ∈ s.ranges, r.1 ≤ c.toNat ∧ c.toNat ≤ r.2

namespace CharClass

/-- A character belongs to the set for a class which is only named. -/
def IsNamed (s : CharClass) (c : Char) : Prop := ∃ chars, s.meaning? .initial = some chars ∧ chars.Has c

mutual

/-- A character belongs to a class. -/
def Holds : CharClass → Char → Prop
  | letter l, c => c = l.char
  | range first last, c => first.char ≤ c ∧ c ≤ last.char
  | ascii name negated, c => IsNamed (ascii name negated) c
  | kind k negated, c => IsNamed (kind k negated) c
  | property name negated, c => IsNamed (property name negated) c
  | bracketed negated s, c => if negated then ¬Holds s c else Holds s c
  | union sets, c => HoldsAny sets c
  | combined operation left right, c =>
    match operation with
    | .intersection => Holds left c ∧ Holds right c
    | .difference => Holds left c ∧ ¬Holds right c
    | .symmetricDifference => ¬(Holds left c ↔ Holds right c)

/-- A character belongs to one of some classes. -/
def HoldsAny : List CharClass → Char → Prop
  | [], _ => False
  | s :: rest, c => Holds s c ∨ HoldsAny rest c

end

theorem holdsAny_iff {c : Char} : ∀ {sets : List CharClass}, HoldsAny sets c ↔ ∃ s ∈ sets, s.Holds c
  | [] => by simp [HoldsAny]
  | s :: rest => by simp [HoldsAny, holdsAny_iff]

end CharClass

/-! ## Patterns -/

namespace Pattern

/-- A text is described by a pattern as a whole. -/
inductive Describes : Pattern → List Char → Prop
  | empty : Describes empty []
  | letter (l : Letter) : Describes (letter l) [l.char]
  | dot {c : Char} (hc : c ≠ '\n') : Describes dot [c]
  | chars {s : CharClass} {c : Char} (hc : s.Holds c) : Describes (chars s) [c]
  | repetition {least : Nat} {most : Option Nat} {greedy : Bool} {p : Pattern} {pieces : List (List Char)}
      (hleast : least ≤ pieces.length) (hmost : ∀ m ∈ most, pieces.length ≤ m)
      (hpieces : ∀ piece ∈ pieces, Describes p piece) : Describes (repetition least most greedy p) pieces.flatten
  | group {kind : GroupKind} {p : Pattern} {cs : List Char} (h : Describes p cs) : Describes (group kind p) cs
  | alternation {branches : List Pattern} {p : Pattern} {cs : List Char} (hp : p ∈ branches) (h : Describes p cs) :
      Describes (alternation branches) cs
  | none : Describes (concatenation []) []
  | several {p : Pattern} {parts : List Pattern} {front back : List Char} (hfront : Describes p front)
      (hback : Describes (concatenation parts) back) : Describes (concatenation (p :: parts)) (front ++ back)

variable {p : Pattern} {cs : List Char} {s : CharClass} {l : Letter} {parts branches : List Pattern} {kind : GroupKind}
  {greedy : Bool}

theorem describes_empty : Describes empty cs ↔ cs = [] := by
  constructor
  · rintro ⟨⟩
    rfl
  · rintro rfl
    exact .empty

theorem describes_letter : Describes (letter l) cs ↔ cs = [l.char] := by
  constructor
  · rintro ⟨⟩
    rfl
  · rintro rfl
    exact .letter l

theorem describes_chars : Describes (chars s) cs ↔ ∃ c, cs = [c] ∧ s.Holds c := by
  constructor
  · rintro ⟨⟩
    exact ⟨_, rfl, ‹_›⟩
  · rintro ⟨c, rfl, hc⟩
    exact .chars hc

theorem describes_group : Describes (group kind p) cs ↔ Describes p cs := by
  constructor
  · rintro ⟨⟩
    assumption
  · exact .group

theorem describes_alternation : Describes (alternation branches) cs ↔ ∃ p ∈ branches, Describes p cs := by
  constructor
  · rintro ⟨⟩
    exact ⟨_, ‹_›, ‹_›⟩
  · rintro ⟨p, hp, h⟩
    exact .alternation hp h

theorem describes_none : Describes (concatenation []) cs ↔ cs = [] := by
  constructor
  · rintro ⟨⟩
    rfl
  · rintro rfl
    exact .none

theorem describes_several : Describes (concatenation (p :: parts)) cs ↔
    ∃ front back, cs = front ++ back ∧ Describes p front ∧ Describes (concatenation parts) back := by
  constructor
  · rintro ⟨⟩
    exact ⟨_, _, rfl, ‹_›, ‹_›⟩
  · rintro ⟨front, back, rfl, hfront, hback⟩
    exact .several hfront hback

/-- Letters one after the other describe their text. -/
theorem describes_letters {text : List Char} :
    Describes (concatenation (text.map fun c => letter ⟨c, false⟩)) cs ↔ cs = text := by
  induction text generalizing cs with
  | nil => exact describes_none
  | cons c text ih =>
    rw [List.map_cons, describes_several]
    constructor
    · rintro ⟨front, back, rfl, hfront, hback⟩
      rw [describes_letter.1 hfront, ih.1 hback]
      rfl
    · rintro rfl
      exact ⟨[c], text, rfl, describes_letter.2 rfl, ih.2 rfl⟩

/-! ## Repetitions -/

theorem describes_repetition {least : Nat} {most : Option Nat} : Describes (repetition least most greedy p) cs ↔
    ∃ pieces : List (List Char), cs = pieces.flatten ∧ least ≤ pieces.length ∧ (∀ m ∈ most, pieces.length ≤ m) ∧
      ∀ piece ∈ pieces, Describes p piece := by
  constructor
  · rintro ⟨⟩
    exact ⟨_, rfl, ‹_›, ‹_›, ‹_›⟩
  · rintro ⟨pieces, rfl, hleast, hmost, hpieces⟩
    exact .repetition hleast hmost hpieces

theorem describes_optional : Describes (repetition 0 (some 1) greedy p) cs ↔ Describes p cs ∨ cs = [] := by
  rw [describes_repetition]
  constructor
  · rintro ⟨pieces, rfl, -, hmost, hpieces⟩
    cases pieces with
    | nil => exact .inr rfl
    | cons piece pieces =>
      obtain rfl : pieces = [] := List.eq_nil_of_length_eq_zero (by simpa using hmost 1 rfl)
      rw [List.flatten_singleton]
      exact .inl (hpieces piece List.mem_cons_self)
  · rintro (h | rfl)
    · exact ⟨[cs], by simp, by simp, by simp, by simpa using h⟩
    · exact ⟨[], rfl, Nat.le_refl 0, by simp, by simp⟩

/-- A class that is repeated describes texts of its characters. -/
theorem describes_repeated {least : Nat} : Describes (repetition least none greedy (chars s)) cs ↔
    least ≤ cs.length ∧ ∀ c ∈ cs, s.Holds c := by
  rw [describes_repetition]
  constructor
  · rintro ⟨pieces, rfl, hleast, -, hpieces⟩
    have hone : ∀ piece ∈ pieces, piece.length = 1 ∧ ∀ c ∈ piece, s.Holds c := fun piece hpiece => by
      obtain ⟨c, rfl, hc⟩ := describes_chars.1 (hpieces piece hpiece)
      exact ⟨rfl, List.forall_mem_singleton.2 hc⟩
    constructor
    · rw [List.length_flatten, List.map_congr_left fun piece hpiece => (hone piece hpiece).1]
      simpa using hleast
    · intro c hc
      obtain ⟨piece, hpiece, hc⟩ := List.mem_flatten.1 hc
      exact (hone piece hpiece).2 c hc
  · rintro ⟨hleast, hall⟩
    have hcs : cs = (cs.map fun c => [c]).flatten := by rw [← List.flatMap_def, List.flatMap_singleton']
    refine ⟨cs.map fun c => [c], hcs, by simpa using hleast, by simp, ?_⟩
    intro piece hpiece
    obtain ⟨c, hc, rfl⟩ := List.mem_map.1 hpiece
    exact describes_chars.2 ⟨c, rfl, hall c hc⟩

end Pattern

end RecordServer.Regexp
