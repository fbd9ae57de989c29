import RecordServer.Fault
import RecordServer.Stream.Join

/-!
# Feeds of positions

A `Feed` is what the execution of a query yields: positions, pulled one at a time, of records that match. It is made
of `Leaf`s, which either list known positions or scan records, and is guarded by the cancellation of the request, so
that each pull first asks whether the client is still there.

All that happens while a request is handled is kept in a `Watch`: the answers of the cancellation check, how often it
has been asked, and a journal of the questions and of the records which have been read.
-/

namespace RecordServer

/-! ## The watch -/

/-- What happens while a request is handled. -/
inductive Happening where
  /-- The cancellation check has been asked and has answered. -/
  | asked (cancelled : Bool)
  /-- A scan has read the next record of an input. -/
  | scanned (input : String)
  /-- The record at a position of an input has been loaded. -/
  | loaded (input : String) (position : Position)
  deriving DecidableEq, Repr

/-- The cancellation check of a request and what has happened so far, the latest first. -/
structure Watch where
  check : Option (Nat → Bool)
  asked : Nat
  journal : List Happening

namespace Watch

/-- The check answers its questions in order. -/
def ofCheck (check : Nat → Bool) : Watch := ⟨some check, 0, []⟩

/-- A watch which is never cancelled. -/
def never : Watch := ⟨none, 0, []⟩

/-- Whether there is anything to ask. -/
def guards (w : Watch) : Bool := w.check.isSome

/-- Asks the check, if there is one. -/
def ask (w : Watch) : Bool × Watch :=
  match w.check with
  | none => (false, w)
  | some check =>
    let answer := check w.asked
    (answer, { w with asked := w.asked + 1, journal := .asked answer :: w.journal })

/-- Notes what has happened. -/
def note (w : Watch) (happening : Happening) : Watch := { w with journal := happening :: w.journal }

end Watch

/-! ## Leaves -/

/-- A source of positions that is no join. -/
inductive Leaf where
  /-- Positions and errors that are known. -/
  | listed (rest : List (Except Fault Position))
  /-- Records still to be read, with their position if they match, each after a question if the scan is guarded. -/
  | scan (input : String) (guarded : Bool) (rest : List (Except Fault (Option Position)))

namespace Leaf

/-- Known positions. -/
def ofPositions (positions : List Position) : Leaf := .listed (positions.map .ok)

/-- Ascending positions without those which equal their predecessor. -/
def distinct : List Position → List Position
  | p :: q :: rest => if p = q then distinct (q :: rest) else p :: distinct (q :: rest)
  | short => short

/-- Each position once, in ascending order. -/
def ascending (positions : List Position) : List Position := distinct (positions.mergeSort fun p q => p ≤ q)

/-- Known positions in any order and any number of times: each once, in ascending order. -/
def ofUnsorted (positions : List Position) : Leaf := ofPositions (ascending positions)

/-- Reads records up to the next which matches or fails. -/
def readOn (input : String) (guarded : Bool) :
    List (Except Fault (Option Position)) → Watch → Pulled Fault × Leaf × Watch
  | [], w =>
    let (cancelled, w) := if guarded then w.ask else (false, w)
    if cancelled then (some (.error Cause.cancelled), .listed [], w) else (none, .scan input guarded [], w)
  | record :: rest, w =>
    let (cancelled, w) := if guarded then w.ask else (false, w)
    if cancelled then (some (.error Cause.cancelled), .listed [], w)
    else
      let w := w.note (.scanned input)
      match record with
      | .error fault => (some (.error fault), .scan input guarded rest, w)
      | .ok (some position) => (some (.ok position), .scan input guarded rest, w)
      | .ok none => readOn input guarded rest w

/-- The next position of a leaf. -/
def next : Leaf → Watch → Pulled Fault × Leaf × Watch
  | listed [], w => (none, listed [], w)
  | listed (item :: rest), w => (some item, listed rest, w)
  | scan input guarded rest, w => readOn input guarded rest w

/-- The greatest number of positions and errors that are still to come. -/
def bound : Leaf → Nat
  | listed rest => rest.length
  | scan _ _ rest => rest.length + 1

end Leaf

/-! ## Feeds -/

/-- One leaf, or a join with a bound on the rounds that one pull takes. -/
inductive Strand where
  | single (leaf : Leaf)
  | joined (join : Join Leaf) (rounds : Nat)

namespace Strand

/-- The intersection of leaves. A single leaf is passed on as it is, no leaf yields nothing. -/
def ofLeaves : List Leaf → Strand
  | [] => single (.listed [])
  | [leaf] => single leaf
  | leaves => joined (Join.ofSources leaves) (leaves.foldl (fun rounds leaf => rounds + leaf.bound) 1)

/-- The next position. -/
def next : Strand → Watch → Pulled Fault × Strand × Watch
  | single leaf, w =>
    let (pulled, leaf, w) := leaf.next w
    (pulled, single leaf, w)
  | joined join rounds, w =>
    let (answer, join, w) := join.pull Leaf.next rounds w
    (answer.join, joined join rounds, w)

end Strand

/-- A strand, guarded or not; once it has been cancelled it yields nothing more. -/
structure Feed where
  strand : Strand
  guarded : Bool
  cancelled : Bool

namespace Feed

/-- A strand which is guarded if there is a check. -/
def ofStrand (strand : Strand) (guarded : Bool) : Feed := ⟨strand, guarded, false⟩

/-- The next position, after a question if the feed is guarded. -/
def next (f : Feed) (w : Watch) : Pulled Fault × Feed × Watch :=
  if f.cancelled then (none, f, w)
  else
    let (cancelled, w) := if f.guarded then w.ask else (false, w)
    if cancelled then (some (.error Cause.cancelled), { f with cancelled := true }, w)
    else
      let (pulled, strand, w) := f.strand.next w
      (pulled, { f with strand := strand }, w)

/-- What up to `count` pulls give, errors included, up to the end. -/
def take : Nat → Feed → Watch → List (Except Fault Position) × Watch
  | 0, _, w => ([], w)
  | count + 1, f, w =>
    match f.next w with
    | (none, _, w) => ([], w)
    | (some item, f, w) =>
      let (items, w) := take count f w
      (item :: items, w)

/-- The greatest number of positions and errors that are still to come. -/
def bound (f : Feed) : Nat :=
  match f.strand with
  | .single leaf => leaf.bound + 1
  | .joined _ rounds => rounds + 1

/-- All positions and errors up to the end. -/
def all (f : Feed) (w : Watch) : List (Except Fault Position) := (take f.bound f w).1

end Feed

end RecordServer
