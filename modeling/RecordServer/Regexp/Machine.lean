import RecordServer.Regexp.Meaning
import RecordServer.Regexp.Reader
import RecordServer.Regexp.Size

/-!
# Machines

A `Machine` is an expression as a graph of numbered states: a state reads one character, asks about a place, or leads
on to several states, the preferred one first. `Machine.ofRegexp` lays the states out; a repetition leads back to its
beginning, where one whose rounds may be empty asks for the first round and for another round at two states.

`Machine.compile?` makes the machine of a written pattern.
-/

namespace RecordServer.Regexp

/-- A state of a machine. -/
inductive State where
  /-- Reads one character of a set. -/
  | chars (table : Text.Intervals) (next : Nat)
  | look (l : Look) (next : Nat)
  | fork (targets : List Nat)
  | accept

/-- A machine: its states and the number of the first one. -/
structure Machine where
  states : Array State
  start : Nat

namespace Machine

/-! ## States -/

/-- The states that have been laid out. -/
abbrev Layout := Array State

/-- Adds a state; its number comes with the states. -/
def push (a : Layout) (s : State) : Nat × Layout := (a.size, a.push s)

/-- A state which leads to the beginning of a round or on to another state, in the order in which a repetition prefers
them. -/
def either (greedy : Bool) (round next : Nat) : State := .fork (if greedy then [round, next] else [next, round])

/-- Lays out states several times, each time in front of those before. -/
def copies (one : Nat → Layout → Nat × Layout) : Nat → Nat → Layout → Nat × Layout
  | 0, next, a => (next, a)
  | n + 1, next, a =>
    let (first, a) := one next a
    copies one n first a

/-- Lays out up to `n` rounds, of which each may be the last. -/
def upTo (one : Nat → Layout → Nat × Layout) (greedy : Bool) (behind : Nat) : Nat → Nat → Layout → Nat × Layout
  | 0, next, a => (next, a)
  | n + 1, next, a =>
    let (round, a) := one next a
    let (first, a) := push a (either greedy round behind)
    upTo one greedy behind n first a

/-- Lays out one round or more: the number of the round, and that of the state behind it, which may lead back. -/
def plus (one : Nat → Layout → Nat × Layout) (greedy : Bool) (next : Nat) (a : Layout) : Nat × Nat × Layout :=
  let (again, a) := push a .accept
  let (round, a) := one again a
  (round, again, a.setIfInBounds again (either greedy round next))

/-- Lays out any number of rounds. -/
def star (one : Nat → Layout → Nat × Layout) (isNullable greedy : Bool) (next : Nat) (a : Layout) : Nat × Layout :=
  let (round, again, a) := plus one greedy next a
  if isNullable then push a (either greedy round next) else (again, a)

/-- Lays out the characters of a text. -/
def text (next : Nat) (a : Layout) (cs : List Char) : Nat × Layout :=
  cs.reverse.foldl (fun (next, a) c => push a (.chars (Chars.one c).table next)) (next, a)

mutual

/-- Lays out the states of an expression in front of a state. -/
def layout : Regexp → Nat → Layout → Nat × Layout
  | empty, next, a => (next, a)
  | literal cs, next, a => text next a cs
  | chars s, next, a => push a (.chars s.table next)
  | look l, next, a => push a (.look l next)
  | repetition least most greedy r, next, a =>
    let one := layout r
    match least, most with
    | 0, none => star one (r.leastLength.all (· = 0)) greedy next a
    | least + 1, none =>
      let (round, _, a) := plus one greedy next a
      copies one least round a
    | least, some most =>
      let (first, a) := upTo one greedy next (most - least) next a
      copies one least first a
  | group _ r, next, a => layout r next a
  | concat parts, next, a => layoutAll parts next a
  | alternation branches, next, a =>
    let (targets, a) := layoutEach branches next a
    push a (.fork targets)

/-- Lays out expressions one after the other. -/
def layoutAll : List Regexp → Nat → Layout → Nat × Layout
  | [], next, a => (next, a)
  | r :: rest, next, a =>
    let (next, a) := layoutAll rest next a
    layout r next a

/-- Lays out expressions side by side. -/
def layoutEach : List Regexp → Nat → Layout → List Nat × Layout
  | [], _, a => ([], a)
  | r :: rest, next, a =>
    let (first, a) := layout r next a
    let (targets, a) := layoutEach rest next a
    (first :: targets, a)

end

/-- The machine of an expression. -/
def ofRegexp (r : Regexp) : Machine :=
  let (start, a) := layout r 0 #[.accept]
  ⟨a, start⟩

/-- The number of ways on from all states, and one for each of them. -/
def ways (m : Machine) : Nat :=
  m.states.foldl (fun n s => match s with
    | .fork targets => n + targets.length + 1
    | _ => n + 2) 0

/-- The machine of a pattern, if it is well-formed and not too large. -/
def compile? (source : String) : Option Machine := do
  let p ← Pattern.read? source
  let r ← p.expression?
  if r.isModest then some (ofRegexp r) else none

end Machine

end RecordServer.Regexp
