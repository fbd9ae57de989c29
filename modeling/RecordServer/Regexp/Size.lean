import RecordServer.Regexp.Basic
import RecordServer.Text.Utf8
import Std.Data.HashMap

/-!
# Sizes of expressions

The size of an expression is that of an automaton which reads it octet by octet: 32 for each state, 8 for each
transition of a state with several ones and 4 for each alternative of a choice. A repetition counts as often as it may
have to be written out. `Regexp.isModest` limits the size of both directions of reading.
-/

namespace RecordServer.Regexp

/-! ## Octets of a set -/

/-- The octets of a code point. -/
def octets (code : Nat) : List Nat := (Text.Utf8.encodeNumber code).map UInt8.toNat

/-- The last code point with so many octets. -/
def lastWith : Nat → Nat
  | 0 => 0
  | 1 => 0x7F
  | 2 => 0x7FF
  | 3 => 0xFFFF
  | _ => 0x10FFFF

/-- The first place to divide an interval of code points at, so that both ends have the same number of octets, and that
all octets but the first different one run from the lowest to the highest: the last code point of the lower part. -/
def division? (first last : Nat) : Option Nat :=
  match [1, 2, 3].find? fun n => first ≤ lastWith n && lastWith n < last with
  | some n => some (lastWith n)
  | none =>
    if last ≤ 0x7F then none
    else [0x40, 0x1000, 0x40000].findSome? fun unit =>
      if first / unit = last / unit then none
      else if first % unit ≠ 0 then some (first / unit * unit + unit - 1)
      else if last % unit ≠ unit - 1 then some (last / unit * unit - 1)
      else none

/-- The sequences of intervals of octets for an interval of code points. -/
def octetRanges : Nat → Nat → Nat → List (List (Nat × Nat))
  | 0, _, _ => []
  | n + 1, first, last =>
    match division? first last with
    | some middle => octetRanges n first middle ++ octetRanges n (middle + 1) last
    | none => [(octets first).zip (octets last)]

/-- The sequences of intervals of octets for a set, in ascending order. -/
def Chars.octetRanges (s : Chars) : List (List (Nat × Nat)) :=
  s.ranges.flatMap fun r => Regexp.octetRanges 64 r.1 r.2

/-- The number of different non-empty beginnings of ascending sequences. -/
def beginnings (before : List (Nat × Nat)) : List (List (Nat × Nat)) → Nat
  | [] => 0
  | ranges :: rest =>
    let shared := ((before.zip ranges).takeWhile fun p => p.1 == p.2).length
    ranges.length - shared + beginnings ranges rest

/-- States by their transitions to other states, and the sum of their sizes. -/
structure States where
  numbers : Std.HashMap (List ((Nat × Nat) × Nat)) Nat
  size : Nat

namespace States

/-- The number of the state with some transitions, which is added if it is new. -/
def intern (m : States) (transitions : List ((Nat × Nat) × Nat)) : Nat × States :=
  match m.numbers.get? transitions with
  | some n => (n, m)
  | none =>
    let n := m.numbers.size + 1
    (n, ⟨m.numbers.insert transitions n, m.size + 32 + 8 * transitions.length⟩)

/-- The sequences which begin alike next to each other, without their first intervals. -/
def gather : List (List (Nat × Nat)) → List ((Nat × Nat) × List (List (Nat × Nat)))
  | [] => []
  | [] :: rest => gather rest
  | (r :: ranges) :: rest =>
    match gather rest with
    | (r', tails) :: others =>
      if r = r' then (r, ranges :: tails) :: others else (r, [ranges]) :: (r', tails) :: others
    | [] => [(r, [ranges])]

/-- The number of the state that reads ascending sequences of at most `n` intervals; the last state has the number
zero. -/
def reading : Nat → States → List (List (Nat × Nat)) → Nat × States
  | 0, m, _ => (0, m)
  | n + 1, m, sequences =>
    match gather sequences with
    | [] => (0, m)
    | groups =>
      let (transitions, m) := groups.foldl (fun (transitions, m) (r, tails) =>
        let (target, m) := reading n m tails
        ((r, target) :: transitions, m)) ([], m)
      m.intern transitions.reverse

end States

/-- The sizes of a set, for both directions. -/
def Chars.sizes (s : Chars) : Nat × Nat :=
  if s.isAscii then (64 + 8 * s.ranges.length, 64 + 8 * s.ranges.length)
  else
    let sequences := s.octetRanges
    (32 + (States.reading 4 ⟨{}, 0⟩ sequences).2.size,
      64 + 4 * sequences.length + 32 * beginnings [] sequences)

/-! ## Expressions -/

/-- The size of an expression written out as often as the repetition of it asks for. -/
def repeatedSize (least : Nat) (most : Option Nat) (isNullable : Bool) (size : Nat) : Nat :=
  match least, most with
  | 0, none => if isNullable then size + 112 else size + 40
  | least, none => least * size + 40
  | 0, some 1 => size + 72
  | least, some most =>
    if least = most then least * size
    else (if least = 0 then 32 else least * size) + 32 + (most - least) * (size + 40)

mutual

/-- The sizes of an expression, for both directions. -/
def sizes : Regexp → Nat × Nat
  | empty => (32, 32)
  | literal cs =>
    let n := 32 * (String.ofList cs).utf8ByteSize
    (n, n)
  | chars s => s.sizes
  | look _ => (32, 32)
  | repetition least most _ r =>
    let (forward, backward) := sizes r
    let isNullable := r.leastLength.all (· = 0)
    (repeatedSize least most isNullable forward, repeatedSize least most isNullable backward)
  | group _ r =>
    let (forward, backward) := sizes r
    (forward + 64, backward)
  | concat parts => sizesOfAll parts
  | alternation branches =>
    let (forward, backward) := sizesOfAll branches
    (forward + 64 + 4 * branches.length, backward + 64 + 4 * branches.length)

/-- The sums of the sizes of expressions. -/
def sizesOfAll : List Regexp → Nat × Nat
  | [] => (0, 0)
  | r :: rest =>
    let (forward, backward) := sizes r
    let (forwards, backwards) := sizesOfAll rest
    (forward + forwards, backward + backwards)

end

/-- The greatest size of a whole expression. -/
def sizeLimit : Nat := 10485760

/-- Whether an expression with what is around every one does not exceed the limit. -/
def isModest (r : Regexp) : Bool :=
  let (forward, backward) := r.sizes
  forward + 200 ≤ sizeLimit && backward + 136 ≤ sizeLimit

end RecordServer.Regexp
