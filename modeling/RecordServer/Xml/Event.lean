import RecordServer.Text.Charset
import RecordServer.Value

/-!
# Events

A document as a row of `Event`s: the starts and ends of elements, texts and declarations. `Reader.next` reads one
event, `scan` all of them with their positions, up to the end or up to the first mistake. The position of an event is
the offset of its `<` if a text stands in front of it, and the end of the markup before otherwise.

End tags have to name the element that is open. An element without content counts as a start and an end. Comments,
processing instructions and the document type are passed over.
-/

namespace RecordServer.Xml

/-- A part of a document. -/
inductive Event where
  /-- The start of an element: its name and the bytes of its attributes. -/
  | start (name attributes : List UInt8)
  | stop
  /-- A text without the blanks around it, with entities. -/
  | text (bytes : List UInt8)
  /-- A text without entities. -/
  | verbatim (bytes : List UInt8)
  /-- The declaration, with the charset it names if that is known. -/
  | declaration (charset : Option Text.Charset)
  | other
  deriving DecidableEq, Repr

/-- Space, tab, line feed and carriage return. -/
def isSpace (b : UInt8) : Bool := b = 32 || b = 9 || b = 10 || b = 13

/-- The bytes without the blanks around them. -/
def trim (bytes : List UInt8) : List UInt8 :=
  ((bytes.dropWhile isSpace).reverse.dropWhile isSpace).reverse

/-! ## Attributes -/

/-- An attribute: its name and its value with entities. -/
abbrev RawAttribute := List UInt8 × List UInt8

/-- The attributes behind those with the given names; `none` stands for a mistake, which ends the list. The first byte
of a name may be any byte, the others are no blanks and no `=`. A name at the very end is passed over, as is one behind
whose `=` nothing follows. -/
def attributesFrom : Nat → List (List UInt8) → List UInt8 → List (Option RawAttribute)
  | 0, _, _ => []
  | n + 1, names, bytes =>
    match (bytes.dropWhile fun b => !isSpace b).dropWhile isSpace with
    | [] => []
    | first :: rest =>
      let isEnd (b : UInt8) : Bool := b = 61 || isSpace b
      let name := first :: rest.takeWhile fun b => !isEnd b
      match rest.dropWhile fun b => !isEnd b with
      | [] => []
      | behind =>
        match behind.dropWhile isSpace with
        | 61 :: value =>
          if names.contains name then [none]
          else match value.dropWhile isSpace with
            | [] => []
            | quote :: value =>
              if quote = 34 || quote = 39 then
                match value.dropWhile (· ≠ quote) with
                | [] => [none]
                | _ :: more => some (name, value.takeWhile (· ≠ quote)) :: attributesFrom n (name :: names) more
              else [none]
        | _ => [none]

/-- The attributes of an element. -/
def attributes (bytes : List UInt8) : List (Option RawAttribute) := attributesFrom (bytes.length + 1) [] bytes

/-! ## Reading -/

/-- A place in a document. -/
structure Reader where
  rest : List UInt8
  /-- The number of bytes that have been read. -/
  consumed : Nat
  /-- Whether the `<` of the next markup has been read. -/
  opened : Bool
  /-- Whether an element without content has been started and is to end. -/
  isEmpty : Bool
  /-- The names of the open elements, the innermost first. -/
  names : List (List UInt8)

namespace Reader

/-- The beginning of a document. -/
def ofBytes (bytes : List UInt8) : Reader := ⟨bytes, 0, false, false, []⟩

/-- The position of the next event. -/
def position (r : Reader) : Position := if r.opened then r.consumed - 1 else r.consumed

/-- The place behind some bytes. -/
def skip (r : Reader) (count : Nat) : Reader :=
  { r with rest := r.rest.drop count, consumed := r.consumed + (r.rest.take count).length }

/-- The bytes up to the next `>` and the place behind it, or up to the end. -/
def untilClose (r : Reader) : List UInt8 × Reader :=
  let bytes := r.rest.takeWhile (· ≠ 62)
  (bytes, r.skip (bytes.length + 1))

/-- The number of bytes up to the next `>` outside of quotes. -/
def tagLength : Option UInt8 → List UInt8 → Nat
  | _, [] => 0
  | none, b :: rest => if b = 62 then 0 else tagLength (if b = 34 || b = 39 then some b else none) rest + 1
  | some quote, b :: rest => tagLength (if b = quote then none else some quote) rest + 1

/-- What one event comes to: nothing more, a mistake, or the event and the place behind it. -/
inductive Step where
  | done
  | malformed
  | event (e : Event) (r : Reader)

/-- A start tag. -/
def readStart (r : Reader) : Step :=
  let length := tagLength none r.rest
  let bytes := r.rest.take length
  let r := r.skip (length + 1)
  let name := bytes.takeWhile fun b => !isSpace b
  if bytes.getLast? = some 47 then
    let name := if name.length = bytes.length then name.dropLast else name
    .event (.start name (bytes.dropLast.drop name.length)) { r with isEmpty := true, names := name :: r.names }
  else .event (.start name (bytes.drop name.length)) { r with names := name :: r.names }

/-- An ASCII blank behind the name of an end tag. -/
def isTagSpace (b : UInt8) : Bool := isSpace b || b = 12

/-- An end tag. -/
def readEnd (r : Reader) : Step :=
  let (bytes, r) := r.untilClose
  let name := bytes.drop 1
  let bare := (name.reverse.dropWhile isTagSpace).reverse
  let name := if bare = [] then name else bare
  match r.names with
  | [] => .malformed
  | opened :: names => if name = opened then .event .stop { r with names := names } else .malformed

/-- A processing instruction or the declaration. -/
def readInstruction (r : Reader) : Step :=
  let (bytes, r) := r.untilClose
  if bytes.length ≤ 2 ∨ bytes.getLast? ≠ some 63 then .malformed
  else if 5 < bytes.length ∧ (bytes.drop 1).take 3 = [120, 109, 108] ∧ (bytes.drop 4).head?.any isSpace then
    let encoding := (attributes (bytes.dropLast.drop 4)).takeWhile Option.isSome |>.findSome? fun a =>
      a.bind fun a => if a.1 = [101, 110, 99, 111, 100, 105, 110, 103] then some a.2 else none
    let charset := (encoding.bind Text.Utf8.decode?).bind Text.Charset.ofLabel?
    .event (.declaration charset) r
  else .event .other r

/-- Reads on behind a `>` until the bytes so far have an end of a kind. -/
def readUntil (isDone : List UInt8 → Bool) : Nat → List UInt8 → Reader → Option (List UInt8 × Reader)
  | 0, _, _ => none
  | n + 1, bytes, r =>
    if isDone bytes then some (bytes, r)
    else if r.rest.isEmpty then none
    else
      let (more, r) := r.untilClose
      readUntil isDone n (bytes ++ 62 :: more) r

/-- Whether bytes have a certain end. -/
def endsWith (suffix bytes : List UInt8) : Bool := suffix.reverse.isPrefixOf bytes.reverse

/-- Reads the rest of a document type, in which that many brackets are open. -/
def readDoctype : Nat → Nat → Reader → Option Reader
  | 0, _, _ => none
  | _ + 1, 0, r => some r
  | n + 1, depth + 1, r =>
    if r.rest.isEmpty then none
    else
      let (more, r) := r.untilClose
      readDoctype n (depth + more.count 60) r

/-- An ASCII letter in upper case. -/
def upper (b : UInt8) : UInt8 := if 97 ≤ b && b ≤ 122 then b - 32 else b

/-- A comment, a text without entities or the document type. -/
def readBang (r : Reader) : Step :=
  let (bytes, r) := r.untilClose
  let fuel := r.rest.length + 2
  if [33, 45, 45].isPrefixOf bytes then
    match readUntil (fun b => 5 ≤ b.length && endsWith [45, 45] b) fuel bytes r with
    | some (_, r) => .event .other r
    | none => .malformed
  else if [33, 91, 67, 68, 65, 84, 65, 91].isPrefixOf bytes then
    match readUntil (endsWith [93, 93]) fuel bytes r with
    | some (bytes, r) => .event (.verbatim ((bytes.drop 8).take (bytes.length - 10))) r
    | none => .malformed
  else if ((bytes.drop 1).take 7).map upper = [68, 79, 67, 84, 89, 80, 69] then
    match readDoctype fuel (bytes.count 60) r with
    | some r => .event .other r
    | none => .malformed
  else .malformed

/-- Markup behind its `<`. -/
def readMarkup (r : Reader) : Step :=
  let r := { r with opened := false }
  match r.rest with
  | [] => .done
  | 47 :: _ => r.readEnd
  | 33 :: _ => r.readBang
  | 63 :: _ => r.readInstruction
  | _ => r.readStart

/-- The next event. -/
def next (r : Reader) : Step :=
  if r.isEmpty then .event .stop { r with isEmpty := false, names := r.names.drop 1 }
  else if r.opened then r.readMarkup
  else if r.rest.isEmpty then .done
  else
    let bytes := r.rest.takeWhile (· ≠ 60)
    let r := { r.skip (bytes.length + 1) with opened := true }
    let text := trim bytes
    if text = [] then r.readMarkup else .event (.text text) r

end Reader

/-- The events behind a place, each with its position, and whether the document ends without a mistake. -/
def scanFrom : Nat → Reader → List (Position × Event) × Bool
  | 0, _ => ([], false)
  | n + 1, r =>
    match r.next with
    | .done => ([], true)
    | .malformed => ([], false)
    | .event e behind =>
      let (events, complete) := scanFrom n behind
      ((r.position, e) :: events, complete)

/-- A document of that many bytes has no more events: each of them takes a byte, but for the end of an element without
content. -/
def maxEvents (size : Nat) : Nat := 2 * size + 2

/-- The events of a document, and whether it ends without a mistake. -/
def scan (bytes : List UInt8) : List (Position × Event) × Bool :=
  scanFrom (maxEvents bytes.length) (.ofBytes bytes)

end RecordServer.Xml
