import RecordServer.Fault
import RecordServer.Input.Pages
import RecordServer.Xml.Entity
import RecordServer.Xml.Event
import RecordServer.Xml.Path

/-!
# Elements of a document

`select` reads the elements of a document that a path selects, one after the other and never one within another, with
their positions; what goes wrong ends it. `elementAt` reads the element that begins at a position.

Names, attributes and texts are decoded by the charset of the declaration, after entities have been replaced by UTF-8.
An element is decoded by one charset, the one known at its beginning.
-/

namespace RecordServer.Xml

/-! ## Opening and closing elements -/

/-- An element that has not ended yet, and those around it, the innermost first. -/
structure Opened where
  element : Element
  outer : List Element

/-- An attribute in a charset; `none` if its value has no meaning. -/
def decodeAttribute (charset : Text.Charset) (a : RawAttribute) : Option (String × String) :=
  (unescape? a.2).map fun value => (charset.decode a.1, charset.decode value)

/-- An element without content, given its start. -/
def startElement (charset : Text.Charset) (name raw : List UInt8) : Except Fault Element :=
  match (attributes raw).mapM fun a => a.bind (decodeAttribute charset) with
  | some attributes => .ok (.empty (charset.decode name) attributes)
  | none => .error (.external .xml)

namespace Opened

/-- The outermost element. -/
def outermost (o : Opened) : Element := o.outer.getLastD o.element

/-- What one event comes to: the element has ended, or something else is open. -/
def feed (charset : Text.Charset) (o : Opened) : Event → Except Fault (Element ⊕ Opened)
  | .start name raw =>
    (startElement charset name raw).map fun child => .inr ⟨child, o.element :: o.outer⟩
  | .stop =>
    match o.outer with
    | [] => .ok (.inl o.element)
    | parent :: outer => .ok (.inr ⟨parent.addChild o.element, outer⟩)
  | .text bytes =>
    match unescape? bytes with
    | some bytes => .ok (.inr { o with element := o.element.addText (charset.decode bytes) })
    | none => .error (.external .xml)
  | .verbatim bytes => .ok (.inr { o with element := o.element.addText (charset.decode (escape bytes)) })
  | .declaration _ => .ok (.inr o)
  | .other => .ok (.inr o)

/-- What is wrong with a document which ends here, with or without a mistake. -/
def unfinished (o : Opened) (complete : Bool) : Fault :=
  if complete then Cause.unclosedElement o.outermost.name else .external .xml

/-- The element, read up to its end within a number of events. -/
def finish (charset : Text.Charset) : Nat → Opened → Reader → Except Fault Element
  | 0, o, _ => .error (o.unfinished false)
  | n + 1, o, r =>
    match r.next with
    | .done => .error (o.unfinished true)
    | .malformed => .error (o.unfinished false)
    | .event event behind =>
      match o.feed charset event with
      | .error fault => .error fault
      | .ok (.inl element) => .ok element
      | .ok (.inr o) => finish charset n o behind

end Opened

/-! ## Selecting elements -/

/-- An element that is being read: its position and the charset it is decoded by. -/
structure Reading where
  position : Position
  charset : Text.Charset
  opened : Opened

/-- The charset behind an event. -/
def charsetAfter (charset : Text.Charset) : Event → Text.Charset
  | .declaration (some declared) => declared
  | _ => charset

/-- Selects elements from a row of events, where the names of the open elements come innermost first. -/
def selectFrom (path : Path) (complete : Bool) :
    Text.Charset → List String → Option Reading → List (Position × Event) → List (Except Fault (Position × Element))
  | _, _, none, [] => if complete then [] else [.error (.external .xml)]
  | _, _, some r, [] => [.error (r.opened.unfinished complete)]
  | charset, names, some r, (_, event) :: rest =>
    match r.opened.feed r.charset event with
    | .error fault => [.error fault]
    | .ok (.inl element) =>
      .ok (r.position, element) :: selectFrom path complete charset (names.drop 1) none rest
    | .ok (.inr opened) =>
      selectFrom path complete (charsetAfter charset event) names (some { r with opened := opened }) rest
  | charset, names, none, (position, event) :: rest =>
    match event with
    | .start name raw =>
      let names := charset.decode name :: names
      if path.accepts names.reverse then
        match startElement charset name raw with
        | .error fault => [.error fault]
        | .ok element => selectFrom path complete charset names (some ⟨position, charset, ⟨element, []⟩⟩) rest
      else selectFrom path complete charset names none rest
    | .stop => selectFrom path complete charset (names.drop 1) none rest
    | event => selectFrom path complete (charsetAfter charset event) names none rest

/-- The elements which a path selects from a document, with their positions. -/
def select (path : Path) (bytes : List UInt8) : List (Except Fault (Position × Element)) :=
  let (events, complete) := scan bytes
  selectFrom path complete .utf8 [] none events

/-- The charset known at the end of a document. -/
def charset (bytes : List UInt8) : Text.Charset :=
  (scan bytes).1.foldl (fun c event => charsetAfter c event.2) .utf8

/-- The first element behind a place, within a number of events; `none` if there is none. -/
def nextElement (charset : Text.Charset) : Nat → Reader → Except Fault (Option Element)
  | 0, _ => .error (.external .xml)
  | n + 1, r =>
    match r.next with
    | .done => .ok none
    | .malformed => .error (.external .xml)
    | .event (.start name raw) behind => do
      let element ← startElement charset name raw
      some <$> Opened.finish charset n ⟨element, []⟩ behind
    | .event _ behind => nextElement charset n behind

/-- The first element behind a position; `none` if there is none. -/
def elementAt (charset : Text.Charset) (pages : Pages) (position : Position) : Except Fault (Option Element) :=
  nextElement charset (maxEvents pages.size) (.ofBytes (pages.after position))

end RecordServer.Xml
