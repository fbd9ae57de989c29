import RecordServer.Fault
import RecordServer.Sorting.Pivot

/-!
# Trials

Some elements cannot be compared, and which fault of a comparison is the first depends on how a list is sorted. A
`Trial` is a way to sort in which a comparison that fails counts as if the elements were equal: it goes on, and keeps
the first fault in mind. Then the order may contradict itself, which may or may not be noticed where two runs are
merged from both ends (`mergeFromEnds`). `fault?` is what a trial finds.

A trial takes runs from the list, short ones of which are made longer, and merges them as far as possible with runs of
the same length (`byRuns`). In a long list what is between the runs is parted around pivots (`byPivots`).
-/

namespace RecordServer.Sorting

/-- What has been found in a trial. -/
structure Findings where
  /-- The fault of the first comparison that has failed. -/
  fault : Option Fault
  /-- Whether the order has been seen to contradict itself. -/
  isContradictory : Bool

/-- A part of a trial. -/
abbrev Trial := StateM Findings

namespace Trial

variable {α : Type}

/-- Whether an element comes before another one. -/
def less (order : α → α → Except Fault Ordering) (a b : α) : Trial Bool :=
  match order a b with
  | .ok ordering => pure (ordering = .lt)
  | .error fault => do
    modify fun found => { found with fault := found.fault <|> some fault }
    return false

/-- Notices that the order contradicts itself. -/
def contradiction : Trial Unit := modify fun found => { found with isContradictory := true }

variable (less : α → α → Trial Bool)

/-! ## Short lists -/

/-- Inserts an element into sorted ones, the greatest first. -/
def insert (x : α) : List α → Trial (List α)
  | [] => return [x]
  | last :: before => do
    if ← less x last then return last :: (← insert x before) else return x :: last :: before

/-- Inserts elements one after the other into sorted ones. -/
def insertAll (sorted rest : List α) : Trial (List α) := do
  return (← rest.foldlM (fun greatestFirst x => insert less x greatestFirst) sorted.reverse).reverse

/-- Four elements sorted by five comparisons. -/
def sortFour (a b c d : α) : Trial (List α) := do
  let (a, b) := if ← less b a then (b, a) else (a, b)
  let (c, d) := if ← less d c then (d, c) else (c, d)
  let isBelow ← less c a
  let isAbove ← less d b
  let min := if isBelow then c else a
  let max := if isAbove then b else d
  let left := if isBelow then a else if isAbove then c else b
  let right := if isAbove then d else if isBelow then b else c
  if ← less right left then return [min, right, left, max] else return [min, left, right, max]

/-- Sorts the beginning of a list, four elements or one, and leaves the rest. -/
def sortBeginning (isLong : Bool) : List α → Trial (List α × List α)
  | a :: b :: c :: d :: rest => do
    if isLong then return (← sortFour less a b c d, rest) else return ([a], b :: c :: d :: rest)
  | list => return (list.take 1, list.drop 1)

/-- What is still to be merged of two runs: what is left at the beginning of the lower and of the higher one, and what
is left at their ends, the last first. Each list goes on behind the end of its run. -/
structure Ends (α : Type) where
  low : List α
  high : List α
  lowEnd : List α
  highEnd : List α

/-- Merges two runs from both ends in some steps, each of which takes the least element and the greatest one. -/
def mergeSteps : Nat → Ends α → List α → List α → Trial (Ends α × List α × List α)
  | steps + 1, ⟨a :: low, b :: high, c :: lowEnd, d :: highEnd⟩, first, last => do
    let takesHigh ← less b a
    let takesLowEnd ← less d c
    mergeSteps steps
      ⟨if takesHigh then a :: low else low, if takesHigh then high else b :: high,
        if takesLowEnd then lowEnd else c :: lowEnd, if takesLowEnd then d :: highEnd else highEnd⟩
      ((if takesHigh then b else a) :: first) ((if takesLowEnd then c else d) :: last)
  | _, ends, first, last => return (ends, first, last)

/-- Merges two runs, the second of which may have one more element than the first. Where the ends do not meet, the order
contradicts itself. -/
def mergeFromEnds (lower higher : List α) : Trial (List α) := do
  let all := lower ++ higher
  let (ends, first, last) ←
    mergeSteps less lower.length ⟨all, higher, lower.reverse, all.reverse⟩ [] []
  let lowIsLeft := all.length - ends.low.length < ends.lowEnd.length
  let (low, high, middle) :=
    if all.length % 2 = 0 then (ends.low, ends.high, [])
    else if lowIsLeft then (ends.low.drop 1, ends.high, ends.low.take 1)
    else (ends.low, ends.high.drop 1, ends.high.take 1)
  if low.length + ends.lowEnd.length ≠ all.length || high.length + ends.highEnd.length ≠ all.length then contradiction
  return first.reverse ++ middle ++ last

/-- Sorts a short list: both halves, which are merged then. -/
def sortShort (list : List α) : Trial (List α) := do
  if list.length < 2 then return list
  else
    let isLong : Bool := 8 ≤ list.length
    let (lower, lowerRest) ← sortBeginning less isLong (list.take (list.length / 2))
    let (higher, higherRest) ← sortBeginning less isLong (list.drop (list.length / 2))
    let lower ← insertAll less lower lowerRest
    let higher ← insertAll less higher higherRest
    mergeFromEnds less lower higher

/-! ## Runs -/

/-- A part of a list, which may be sorted already. -/
structure Run (α : Type) where
  elements : List α
  isSorted : Bool

/-- Merges sorted lists in front of what has been merged before, the last of which is the first; of equal elements those
of the lower list come first. -/
def mergeUp : List α → List α → List α → Trial (List α)
  | merged, [], high => return merged.reverse ++ high
  | merged, low, [] => return merged.reverse ++ low
  | merged, a :: low, b :: high => do
    if ← less b a then mergeUp (b :: merged) (a :: low) high else mergeUp (a :: merged) low (b :: high)
termination_by _ low high => low.length + high.length

/-- Merges sorted lists, of which the last elements are the first, in front of what has been merged. -/
def mergeDown : List α → List α → List α → Trial (List α)
  | merged, [], high => return high.reverse ++ merged
  | merged, low, [] => return low.reverse ++ merged
  | merged, a :: low, b :: high => do
    if ← less b a then mergeDown (a :: merged) low (b :: high) else mergeDown (b :: merged) (a :: low) high
termination_by _ low high => low.length + high.length

/-- Merges two sorted lists, beginning with the least elements if the lower list is not longer. -/
def merge (lower higher : List α) : Trial (List α) :=
  if lower.length ≤ higher.length then mergeUp less [] lower higher
  else mergeDown less [] lower.reverse higher.reverse

/-- Unites two neighbours. They are merged if one of them is sorted, and what is not is sorted before. -/
def unite (sort : List α → Trial (List α)) (lower higher : Run α) : Trial (Run α) := do
  if lower.isSorted || higher.isSorted then
    let low ← if lower.isSorted then pure lower.elements else sort lower.elements
    let high ← if higher.isSorted then pure higher.elements else sort higher.elements
    return ⟨← merge less low high, true⟩
  else return ⟨lower.elements ++ higher.elements, false⟩

/-- The next run and the elements behind it. A run of fewer elements than are good is not kept; then short lists are
sorted at once, if `eager` says so, or the next elements are left as they are. -/
def nextRun (eager : Bool) (good : Nat) (list : List α) : Trial (Run α × List α) := do
  let (length, descending) ← if good ≤ list.length then naturalRun less list else pure (0, false)
  if good ≤ list.length && good ≤ length then
    let run := list.take length
    return (⟨if descending then run.reverse else run, true⟩, list.drop length)
  else if eager then return (⟨← sortShort less (list.take 32), true⟩, list.drop 32)
  else return (⟨list.take good, false⟩, list.drop good)

/-- How many elements a run should have: half of all for short lists, about the square root of their number for very
long ones. -/
def goodLength (length : Nat) : Nat :=
  if length ≤ 4096 then min (length - length / 2) 64
  else
    let shift := (1 + length.log2) / 2
    ((1 <<< shift) + (length >>> shift)) / 2

/-- How deep in the tree of all unions the union of two neighbours belongs, where `length` is that of the whole list,
and the neighbours begin, meet and end at some places of it. -/
def unionDepth (length start middle stop : Nat) : Nat :=
  let scale := ((1 <<< 62) + length - 1) / length
  63 - (scale * (start + middle) ^^^ scale * (middle + stop)).log2

/-- Unites a run with those in front of it which belong to unions of a depth or deeper. The first run of all has no
elements and stays. -/
def uniteFrom (sort : List α → Trial (List α)) (depth : Nat) :
    List (Run α × Nat) → Run α → Trial (Run α × List (Run α × Nat))
  | (lower, d) :: below :: rest, run => do
    if depth ≤ d then uniteFrom sort depth (below :: rest) (← unite less sort lower run)
    else return (run, (lower, d) :: below :: rest)
  | stack, run => return (run, stack)

/-- Takes the runs of a list and unites them. -/
def uniteRuns (sort : List α → Trial (List α)) (eager : Bool) (length : Nat) :
    Nat → List (Run α × Nat) → Run α → List α → Trial (Run α)
  | 0, _, run, _ => return run
  | _, stack, run, [] => do return (← uniteFrom less sort 0 stack run).1
  | steps + 1, stack, run, x :: rest => do
    let scanned := length - (x :: rest).length
    let (next, behind) ← nextRun less eager (goodLength length) (x :: rest)
    let depth := unionDepth length (scanned - run.elements.length) scanned (scanned + next.elements.length)
    let (run, stack) ← uniteFrom less sort depth stack run
    uniteRuns sort eager length steps ((run, depth) :: stack) next behind

/-- Sorts by runs, where `sort` is for what belongs to no run. -/
def byRuns (sort : List α → Trial (List α)) (eager : Bool) (list : List α) : Trial (List α) := do
  let run ← uniteRuns less sort eager list.length (list.length + 1) [] ⟨[], true⟩ list
  if run.isSorted then return run.elements else sort run.elements

/-! ## Pivots -/

/-- Parts elements by a comparison, without a change of their order. -/
def partBy (isLeft : α → Trial Bool) (list : List α) (sides : List α × List α) : Trial (List α × List α) :=
  list.foldlM (fun (left, right) x => do
    if ← isLeft x then return (x :: left, right) else return (left, x :: right)) sides

/-- Parts a list around the element at an index, which itself is not compared. -/
def partAround (isLeft : α → Trial Bool) (pivotIsLeft : Bool) (n : Nat) (list : List α) : Trial (List α × List α) := do
  let (left, right) ← partBy isLeft (list.take n) ([], [])
  let pivot := (list.drop n).take 1
  let sides := if pivotIsLeft then (pivot ++ left, right) else (left, pivot ++ right)
  let (left, right) ← partBy isLeft (list.drop (n + 1)) sides
  return (left.reverse, right.reverse)

/-- Sorts by parting around pivots, where the given element, which is not greater than any, shows that there are many
equal to it. If parting has been done too often, runs are used. -/
def byPivots : Nat → Option α → List α → Trial (List α)
  | _, _, [] => return []
  | depth, bound, first :: rest => do
    let list := first :: rest
    if rest.length < 32 then sortShort less list
    else match depth with
      | 0 => byRuns less pure true list
      | depth + 1 =>
        let (n, pivot) ← Sorting.pivot less first rest
        let isBound ← match bound with
          | some bound => not <$> less bound pivot
          | none => pure false
        let (left, right) ← if isBound then pure ([], list) else partAround (less · pivot) false n list
        if left.isEmpty then
          let (left, right) ← partAround (fun x => not <$> less pivot x) true n list
          return left ++ (← byPivots depth none right)
        else
          let right ← byPivots depth (some pivot) right
          return (← byPivots depth bound left) ++ right

/-! ## Lists of any length -/

/-- Sorts a list. -/
def sort (list : List α) : Trial (List α) :=
  if list.length ≤ 20 then insertAll less [] list
  else byRuns less (fun list => byPivots less (2 * list.length.log2) none list) (list.length ≤ 64) list

end Trial

/-- The first fault that is found when a list is sorted, unless its order contradicts itself. -/
def fault? {α : Type} (order : α → α → Except Fault Ordering) (list : List α) : Option Fault :=
  let found := (Trial.sort (Trial.less order) list ⟨none, false⟩).2
  if found.isContradictory then some Cause.contradictoryOrder else found.fault

end RecordServer.Sorting
