import RecordServer.Fault
import RecordServer.Input.Pages

/-!
# Locating the elements of an array

`Json.elements` finds where the objects of a JSON array begin and end, without reading them: an object ends with the
bracket that closes its first one, brackets of both shapes being counted together and those in strings not at all.
Around the objects nothing but the brackets of the array, commas and blanks may stand. The file is delivered in buffers
of any length (`Json.scan`).

The bytes of an object are read at its span (`Span.bytes?`), or from front to back by skipping what lies between
(`Cursor.read?`).
-/

namespace RecordServer.Json

/-- Where an object begins and where it has ended. -/
abbrev Span := Nat × Nat

/-- What has been read of the array. -/
inductive Progress where
  | before
  | expecting (first : Bool)
  /-- In the object that began at `start`, with that many brackets open. -/
  | within (start depth : Nat) (inString escaped : Bool)
  | behind
  | closed
  deriving DecidableEq, Repr

/-- ASCII blanks: space, tab, line feed, form feed and carriage return. -/
def isSpace (b : UInt8) : Bool := b = 32 || b = 9 || b = 10 || b = 12 || b = 13

/-- One byte within an object at an offset: the progress, and the span of the object if it ends here. -/
def insideStep (start depth : Nat) (inString escaped : Bool) (offset : Nat) (b : UInt8) : Progress × Option Span :=
  if inString then
    if escaped then (.within start depth true false, none)
    else if b = 92 then (.within start depth true true, none)
    else (.within start depth (b ≠ 34) false, none)
  else if b = 34 then (.within start depth true false, none)
  else if b = 123 ∨ b = 91 then (.within start (depth + 1) false false, none)
  else if b = 125 ∨ b = 93 then
    if depth = 1 then (.behind, some (start, offset + 1)) else (.within start (depth - 1) false false, none)
  else (.within start depth false false, none)

/-- One byte between the objects, of which some have been found. -/
def outsideStep (found : List Span) (offset : Nat) (b : UInt8) : Progress → Except Cause Progress
  | .before => if b = 91 then .ok (.expecting true) else .error (.unexpectedByte b offset)
  | .expecting first =>
    if b = 123 then .ok (.within offset 1 false false)
    else if first ∧ b = 93 then .ok .closed
    else .error (.expectedObject found.length offset)
  | .behind =>
    if b = 44 then .ok (.expecting false)
    else if b = 93 then .ok .closed
    else .error (.unexpectedByte b offset)
  | _ => .error (.unexpectedByte b offset)

/-- How far an array has been read: the spans so far come last first. -/
structure State where
  progress : Progress
  offset : Nat
  spans : List Span

namespace State

/-- Nothing has been read. -/
def start : State := ⟨.before, 0, []⟩

/-- One byte. -/
def step (s : State) (b : UInt8) : Except Cause State :=
  match s.progress with
  | .within start depth inString escaped =>
    let (progress, span) := insideStep start depth inString escaped s.offset b
    .ok ⟨progress, s.offset + 1, span.toList ++ s.spans⟩
  | progress =>
    if isSpace b then .ok { s with offset := s.offset + 1 }
    else match outsideStep s.spans s.offset b progress with
      | .error cause => .error cause
      | .ok progress => .ok ⟨progress, s.offset + 1, s.spans⟩

/-- The bytes of a buffer. -/
def feed : State → List UInt8 → Except Cause State
  | s, [] => .ok s
  | s, b :: rest =>
    match s.step b with
    | .error cause => .error cause
    | .ok s => feed s rest

/-- The end of the file. -/
def finish (s : State) : Except Cause (List Span) :=
  if s.progress = .closed then .ok s.spans.reverse else .error (.unexpectedEnd s.offset)

/-- The buffers which a file delivers, up to one without bytes, which is the end. -/
def scanFrom : State → List (List UInt8) → Except Cause (List Span)
  | s, [] => s.finish
  | s, buffer :: buffers =>
    if buffer.isEmpty then s.finish
    else match s.feed buffer with
      | .error cause => .error cause
      | .ok s => scanFrom s buffers

end State

/-- The spans of the objects of an array that is delivered in buffers. -/
def scan (buffers : List (List UInt8)) : Except Cause (List Span) := State.start.scanFrom buffers

/-- The spans of the objects of an array that is delivered at once. -/
def elements (bytes : List UInt8) : Except Cause (List Span) := scan [bytes]

/-- The bytes of a span, if the text is long enough. -/
def Span.bytes? (span : Span) (text : Pages) : Option (List UInt8) :=
  let bytes := (text.after span.1).take (span.2 - span.1)
  if bytes.length = span.2 - span.1 then some bytes else none

/-- A file whose spans are read from front to back: where the span before has ended, and the place to which the file has
been read. -/
structure Cursor where
  offset : Nat
  place : Nat

/-- The bytes of the next span: what lies between the one before and this one is skipped. -/
def Cursor.read? (c : Cursor) (text : Pages) (span : Span) : Option (List UInt8) × Cursor :=
  let place := if c.offset < span.1 then c.place + (span.1 - c.offset) else c.place
  let behind := place + (span.2 - span.1)
  match Span.bytes? (place, behind) text with
  | some bytes => (some bytes, ⟨span.2, behind⟩)
  | none => (none, ⟨c.offset, max place text.size⟩)

end RecordServer.Json
