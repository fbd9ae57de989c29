import RecordServer.Value

/-!
# Pivots

With what sorting begins: how far a list is sorted already (`naturalRun`), and an element from about the middle, around
which the others are parted (`pivot`). A comparison may have an effect, so it matters which comparisons are made and
in which order.
-/

namespace RecordServer.Sorting

variable {α : Type} {m : Type → Type} [Monad m]

/-! ## Runs -/

/-- The length of a run that goes on behind an element, if it has some elements up to there. -/
@[specialize] def runFrom (less : α → α → m Bool) (descending : Bool) : Nat → α → List α → m Nat
  | n, _, [] => pure n
  | n, last, x :: rest => do
    if (← less x last) = descending then runFrom less descending (n + 1) x rest else return n

/-- The length of the run with which a list begins, and whether each of its elements is less than the one before.
Otherwise none is. -/
@[specialize] def naturalRun (less : α → α → m Bool) : List α → m (Nat × Bool)
  | first :: second :: rest => do
    let descending ← less second first
    return (← runFrom less descending 2 second rest, descending)
  | list => pure (list.length, false)

/-! ## Pivots -/

/-- The middle one of three elements with their indices. -/
@[specialize] def median (less : α → α → m Bool) (a b c : Nat × α) : m (Nat × α) := do
  let isBelow ← less a.2 b.2
  if isBelow = (← less a.2 c.2) then
    if (← less b.2 c.2) = isBelow then return b else return c
  else return a

/-- A median of medians: of three parts with a length, which begin at `a`, `b` and `c`. -/
@[specialize] def medianOf (less : α → α → m Bool) (item : Nat → Nat × α) (a b c length : Nat) : m (Nat × α) :=
  if 8 ≤ length then do
    let part := length / 8
    let first ← medianOf less item a (a + part * 4) (a + part * 7) part
    let second ← medianOf less item b (b + part * 4) (b + part * 7) part
    let third ← medianOf less item c (c + part * 4) (c + part * 7) part
    median less first second third
  else median less (item a) (item b) (item c)
termination_by length

/-- The element around which the others are parted, and its index. -/
@[specialize] def pivot (less : α → α → m Bool) (first : α) (rest : List α) : m (Nat × α) :=
  let elements := (first :: rest).toArray
  let part := elements.size / 8
  medianOf less (fun n => (n, elements.getD n first)) 0 (part * 4) (part * 7) part

end RecordServer.Sorting
