/-!
# Sets of code points and compact tables

A set of code points is held as the ascending array of its maximal intervals, both ends included. `Intervals.contains`
looks a code point up by bisection.

The sources of large tables are texts of numbers. A number is written in base 31 with the highest digit first, where
`v` to `z` and `A` to `Z` are the digits after which it goes on, and `0` to `9` and `a` to `u` those with which it ends.

* `Intervals.ofSource` reads a set of code points: the gap before each interval and its length less one.
* `Partition` divides all code points into classes: the class of each run and its length less one.
-/

namespace RecordServer.Text

/-! ## Intervals -/

/-- Disjoint closed intervals of code points in ascending order. -/
abbrev Intervals := Array (Nat × Nat)

namespace Intervals

/-- Bisection between the places `low` (included) and `high` (excluded). -/
def containsBetween (table : Intervals) (code low high : Nat) : Bool :=
  if _h : low < high then
    let middle := (low + high) / 2
    let (first, last) := table.getD middle (0, 0)
    if code < first then containsBetween table code low middle
    else if last < code then containsBetween table code (middle + 1) high
    else decide (middle < table.size)
  else false
termination_by high - low
decreasing_by all_goals omega

/-- Whether a code point lies in one of the intervals. -/
def has (table : Intervals) (code : Nat) : Bool := containsBetween table code 0 table.size

/-- Whether the code point of `c` lies in one of the intervals. -/
def contains (table : Intervals) (c : Char) : Bool := table.has c.toNat

end Intervals

/-! ## Sources -/

/-- The value of a digit, and whether it ends its number. -/
def digit (c : Char) : Nat × Bool :=
  if c.isDigit then (c.toNat - '0'.toNat, true)
  else if 'a' ≤ c ∧ c ≤ 'u' then (c.toNat - 'a'.toNat + 10, true)
  else if 'v' ≤ c ∧ c ≤ 'z' then (c.toNat - 'v'.toNat, false)
  else (c.toNat - 'A'.toNat + 5, false)

/-- The numbers of a text, of the first of which some digits have been read. -/
def numbersFrom (begun : Nat) : List Char → List Nat
  | [] => []
  | c :: rest =>
    let (value, isLast) := digit c
    if isLast then (begun * 31 + value) :: numbersFrom 0 rest else numbersFrom (begun * 31 + value) rest

/-- The numbers of a source. -/
def numbers (source : List String) : List Nat := numbersFrom 0 (source.flatMap String.toList)

/-- Intervals behind a code point, from gaps and lengths. -/
def intervalsFrom (start : Nat) : List Nat → List (Nat × Nat)
  | gap :: extent :: rest => (start + gap, start + gap + extent) :: intervalsFrom (start + gap + extent + 1) rest
  | _ => []

/-- The set of code points of a source. -/
def Intervals.ofSource (source : List String) : Intervals := (intervalsFrom 0 (numbers source)).toArray

/-- Runs from a code point on, from classes and lengths: first, last and class of each. -/
def runsFrom (start : Nat) : List Nat → List (Nat × Nat × Nat)
  | kind :: extent :: rest => (start, start + extent, kind) :: runsFrom (start + extent + 1) rest
  | _ => []

/-- A division of all code points into classes, which are numbered and may have names. -/
structure Partition where
  names : List (List String)
  source : List String

namespace Partition

/-- The runs of the classes: first, last and class of each. -/
def runs (p : Partition) : List (Nat × Nat × Nat) := runsFrom 0 (numbers p.source)

/-- The code points of the chosen classes. -/
def only (p : Partition) (chosen : Nat → Bool) : List (Nat × Nat) :=
  p.runs.filterMap fun (first, last, kind) => if chosen kind then some (first, last) else none

end Partition

end RecordServer.Text
