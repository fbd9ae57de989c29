import RecordServer.Regexp.Machine

/-!
# Matching

A machine goes through a text in all its states at the same time. Those which have been reached are kept in the order
in which they are preferred, each with the place from which it has been reached first (`Machine.step`).

* `Machine.find?` finds the leftmost match from a place on, and of those that begin there the preferred one.
* `Machine.split` gives the pieces of a text between the matches.
-/

namespace RecordServer.Regexp

/-- A place in a text: the characters before it, the nearest first, their number, and the rest. -/
structure Place where
  before : List Char
  offset : Nat
  rest : List Char

namespace Place

/-- The beginning of a text. -/
def start (cs : List Char) : Place := ⟨[], 0, cs⟩

/-- The place behind the next character, if there is one. -/
def next? (p : Place) : Option Place :=
  match p.rest with
  | [] => none
  | c :: rest => some ⟨c :: p.before, p.offset + 1, rest⟩

/-- The place behind some more characters. -/
def skip (p : Place) (n : Nat) : Place := ⟨(p.rest.take n).reverse ++ p.before, p.offset + n, p.rest.drop n⟩

end Place

/-! ## Questions -/

/-- Whether a character belongs to a word, where words may be those of ASCII only. -/
def isWordChar (ascii : Bool) (c : Char) : Bool :=
  if ascii then c.isAlphanum || c = '_' else Property.wordTable.contains c

/-- Whether a question is answered with yes at a place. -/
def Look.holds (l : Look) (p : Place) : Bool :=
  let left := p.before.head?
  let right := p.rest.head?
  match l with
  | .lineStartCrlf => left.isNone || left == some '\n' || (left == some '\r' && right != some '\n')
  | .lineEndCrlf => right.isNone || right == some '\r' || (right == some '\n' && left != some '\r')
  | .place a ascii =>
    let isLeft := left.any (isWordChar ascii)
    let isRight := right.any (isWordChar ascii)
    match a with
    | .textStart => left.isNone
    | .textEnd => right.isNone
    | .lineStart => left.isNone || left == some '\n'
    | .lineEnd => right.isNone || right == some '\n'
    | .wordBoundary => isLeft != isRight
    | .noWordBoundary => isLeft == isRight
    | .wordStart => !isLeft && isRight
    | .wordEnd => isLeft && !isRight
    | .wordStartHalf => !isLeft
    | .wordEndHalf => !isRight

/-! ## Steps -/

/-- A state that has been reached at a place, and the offset where its match begins. -/
structure Thread where
  state : Nat
  first : Nat

/-- The states which have been reached at a place, the last one first, and for each state the last turn in which it has
been visited. -/
structure Front where
  threads : List Thread
  visited : Array Nat

namespace Machine

/-- Reaches states at a place and all to which they lead without reading, unless these have been visited in this turn.
At most `n` states are looked at. -/
def reach (m : Machine) (p : Place) (turn first : Nat) : Nat → List Nat → Front → Front
  | 0, _, f => f
  | _, [], f => f
  | n + 1, s :: rest, ⟨threads, visited⟩ =>
    if visited.getD s 0 = turn then m.reach p turn first n rest ⟨threads, visited⟩
    else
      let visited := visited.setIfInBounds s turn
      match m.states.getD s (.fork []) with
      | .fork targets => m.reach p turn first n (targets ++ rest) ⟨threads, visited⟩
      | .look l next => m.reach p turn first n (if l.holds p then next :: rest else rest) ⟨threads, visited⟩
      | .chars _ _ => m.reach p turn first n rest ⟨⟨s, first⟩ :: threads, visited⟩
      | .accept => m.reach p turn first n rest ⟨⟨s, first⟩ :: threads, visited⟩

/-- The threads in front of the first one that accepts, and where the match of that one begins. -/
def untilAccept (m : Machine) : List Thread → List Thread × Option Nat
  | [] => ([], none)
  | t :: rest =>
    match m.states.getD t.state (.fork []) with
    | .accept => ([], some t.first)
    | _ =>
      let (before, first) := m.untilAccept rest
      (t :: before, first)

/-- The states that are reached from threads by reading a character, at the place behind it. -/
def read (m : Machine) (ways : Nat) (c : Char) (p : Place) (turn : Nat) (threads : List Thread)
    (visited : Array Nat) : Front :=
  threads.foldl (fun f t =>
    match m.states.getD t.state (.fork []) with
    | .chars table next => if table.contains c then m.reach p turn t.first ways [next] f else f
    | _ => f) ⟨[], visited⟩

/-- What is known at a place: the threads that go on, and the match that has been found. Before one has been found a
match may begin at every place. -/
def arrive (m : Machine) (ways turn : Nat) (found : Option (Nat × Nat)) (f : Front) (p : Place) :
    List Thread × Array Nat × Option (Nat × Nat) :=
  let f := if found.isNone then m.reach p turn p.offset ways [m.start] f else f
  let (threads, first) := m.untilAccept f.threads.reverse
  (threads, f.visited, (first.map fun first => (first, p.offset)).or found)

/-- Goes on through a text until no thread is left, and keeps the last match that has been found. The turn is the number
of places which have been visited. -/
def search (m : Machine) (ways turn : Nat) (found : Option (Nat × Nat)) (f : Front) (before : List Char)
    (offset : Nat) : List Char → Option (Nat × Nat)
  | [] => (m.arrive ways turn found f ⟨before, offset, []⟩).2.2
  | c :: rest =>
    let (threads, visited, found) := m.arrive ways turn found f ⟨before, offset, c :: rest⟩
    if threads.isEmpty && found.isSome then found
    else
      let f := m.read ways c ⟨c :: before, offset + 1, rest⟩ (turn + 1) threads visited
      m.search ways (turn + 1) found f (c :: before) (offset + 1) rest

/-- The offsets of the beginning and the end of the leftmost match from a place on. -/
def find? (m : Machine) (p : Place) : Option (Nat × Nat) :=
  m.search (m.ways + 1) 1 none ⟨[], Array.replicate m.states.size 0⟩ p.before p.offset p.rest

/-- The next match from a place on, where an empty one at the end of the match before does not count. -/
def findNext? (m : Machine) (p : Place) (last : Option Nat) : Option (Nat × Nat) :=
  match m.find? p with
  | none => none
  | some (first, stop) =>
    if first = stop ∧ last = some stop then p.next?.bind m.find? else some (first, stop)

/-- Up to `n` pieces between the matches, and the piece behind them. -/
def splitFrom (m : Machine) : Nat → Option Nat → Place → List (List Char)
  | 0, _, p => [p.rest]
  | n + 1, last, p =>
    match m.findNext? p last with
    | none => [p.rest]
    | some (first, stop) =>
      p.rest.take (first - p.offset) :: m.splitFrom n (some stop) (p.skip (stop - p.offset))

/-- The pieces of a text between the matches. -/
def split (m : Machine) (cs : List Char) : List (List Char) := m.splitFrom (cs.length + 1) none (.start cs)

end Machine

end RecordServer.Regexp
