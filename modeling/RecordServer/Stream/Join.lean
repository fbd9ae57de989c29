/-!
# Joining ascending sources

A source is pulled one position at a time. `Join` pulls several sources side by side, keeps of each only its head, and
yields the positions which all of them yield. One `round` fills the empty heads and then either yields the greatest
head, if all heads are equal, or drops the smaller ones. A source that ends or fails ends the join for good.

The sources are of any type `σ` with a function `next` which may use a shared world `ω`; they need not be finite.
`pull` performs rounds until there is an answer and takes a bound on their number.
-/

namespace RecordServer

/-- What one pull gives: nothing at the end, a position, or an error. -/
abbrev Pulled (ε : Type) := Option (Except ε Nat)

/-- A join of sources, each with its head if it has been pulled already. -/
structure Join (σ : Type) where
  sources : List (σ × Option Nat)
  closed : Bool

namespace Join

variable {σ ω ε : Type}

/-- A join whose sources have not been pulled yet. -/
def ofSources (sources : List σ) : Join σ := ⟨sources.map fun s => (s, none), false⟩

/-- What came of filling the heads. -/
inductive Filled (ε : Type) where
  /-- All heads are there. -/
  | all
  /-- A source has ended. -/
  | ended
  /-- A source has failed. -/
  | failed (error : ε)

/-- Pulls each source without a head once, from left to right, up to the first which ends or fails. -/
def fill (next : σ → ω → Pulled ε × σ × ω) :
    List (σ × Option Nat) → ω → Filled ε × List (σ × Option Nat) × ω
  | [], w => (.all, [], w)
  | (s, some p) :: rest, w =>
    let (filled, rest, w) := fill next rest w
    (filled, (s, some p) :: rest, w)
  | (s, none) :: rest, w =>
    match next s w with
    | (none, s, w) => (.ended, (s, none) :: rest, w)
    | (some (.error e), s, w) => (.failed e, (s, none) :: rest, w)
    | (some (.ok p), s, w) =>
      let (filled, rest, w) := fill next rest w
      (filled, (s, some p) :: rest, w)

/-- The greatest head. -/
def top (sources : List (σ × Option Nat)) : Option Nat := (sources.filterMap Prod.snd).max?

/-- The sources without the heads below a position. -/
def dropBelow (top : Nat) (sources : List (σ × Option Nat)) : List (σ × Option Nat) :=
  sources.map fun (s, head) => (s, head.filter fun p => decide (top ≤ p))

/-- One round: an answer, or `none` if another round is needed. -/
def round (next : σ → ω → Pulled ε × σ × ω) (j : Join σ) (w : ω) : Option (Pulled ε) × Join σ × ω :=
  if j.closed then (some none, j, w)
  else
    match fill next j.sources w with
    | (.ended, sources, w) => (some none, ⟨sources, true⟩, w)
    | (.failed e, sources, w) => (some (some (.error e)), ⟨sources, true⟩, w)
    | (.all, sources, w) =>
      match top sources with
      | none => (some none, ⟨sources, false⟩, w)
      | some p =>
        if sources.all fun source => source.2 == some p then
          (some (some (.ok p)), ⟨sources.map fun source => (source.1, none), false⟩, w)
        else (none, ⟨dropBelow p sources, false⟩, w)

/-- Rounds until there is an answer; `none` if the given number of rounds has not been enough. -/
def pull (next : σ → ω → Pulled ε × σ × ω) : Nat → Join σ → ω → Option (Pulled ε) × Join σ × ω
  | 0, j, w => (none, j, w)
  | rounds + 1, j, w =>
    match round next j w with
    | (some answer, j, w) => (some answer, j, w)
    | (none, j, w) => pull next rounds j w

end Join

end RecordServer
