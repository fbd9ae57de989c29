import RecordServer.Text.Table

/-!
# Sets of characters

A `Chars` is a set of characters: ascending intervals of code points with gaps between them, none of which holds a
surrogate. Two sets with the same characters are equal, since `Chars.ofList` and `Chars.complement` give this form and
all other operations are built of these.
-/

namespace RecordServer.Regexp

/-- A set of characters by the intervals of their code points. -/
structure Chars where
  ranges : List (Nat × Nat)
  deriving DecidableEq, Repr, Inhabited

namespace Chars

/-- Ascending intervals behind another one, where those that meet become one. -/
def coalesceFrom (first last : Nat) : List (Nat × Nat) → List (Nat × Nat)
  | [] => [(first, last)]
  | (next, last') :: rest =>
    if next ≤ last + 1 then coalesceFrom first (max last last') rest
    else (first, last) :: coalesceFrom next last' rest

/-- Ascending intervals, where those that meet become one. -/
def coalesce : List (Nat × Nat) → List (Nat × Nat)
  | [] => []
  | (first, last) :: rest => coalesceFrom first last rest

/-- The code points from one on which lie in none of some ascending intervals. -/
def gapsFrom (start : Nat) : List (Nat × Nat) → List (Nat × Nat)
  | [] => if start ≤ 0x10FFFF then [(start, 0x10FFFF)] else []
  | (first, last) :: rest =>
    if start < first then (start, first - 1) :: gapsFrom (max start (last + 1)) rest
    else gapsFrom (max start (last + 1)) rest

/-- The characters in none of some intervals. -/
def outside (ranges : List (Nat × Nat)) : Chars :=
  ⟨gapsFrom 0 (coalesce ((((0xD800, 0xDFFF) : Nat × Nat) :: ranges).mergeSort fun a b => a.1 ≤ b.1))⟩

/-- All other characters. -/
def complement (s : Chars) : Chars := outside s.ranges

/-- The characters in some intervals of code points. -/
def ofList (ranges : List (Nat × Nat)) : Chars := (outside ranges).complement

/-- No character. -/
def empty : Chars := ⟨[]⟩

/-- The characters from one code point to another. -/
def range (first last : Nat) : Chars := ofList [(first, last)]

/-- One character. -/
def one (c : Char) : Chars := ⟨[(c.toNat, c.toNat)]⟩

/-- The characters of one set or of both. -/
def union (s t : Chars) : Chars := ofList (s.ranges ++ t.ranges)

/-- The characters of both sets. -/
def intersect (s t : Chars) : Chars := outside (s.complement.ranges ++ t.complement.ranges)

/-- The characters of the first set which are not in the second one. -/
def difference (s t : Chars) : Chars := s.intersect t.complement

/-- The characters which are in one of the sets only. -/
def symmetricDifference (s t : Chars) : Chars := (s.union t).difference (s.intersect t)

/-- Whether all characters are ASCII ones. -/
def isAscii (s : Chars) : Bool := s.ranges.all fun r => r.2 < 128

/-- The only character, if there is just one. -/
def single? (s : Chars) : Option Char :=
  match s.ranges with
  | [(first, last)] => if first = last then some (Char.ofNat first) else none
  | _ => none

/-- The set as a table for looking characters up. -/
def table (s : Chars) : Text.Intervals := s.ranges.toArray

end Chars

end RecordServer.Regexp
