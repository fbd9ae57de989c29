import RecordServer.Fault
import RecordServer.Text.Blank
import RecordServer.Text.Letter
import RecordServer.Text.Split
import RecordServer.Xml.Element

/-!
# Location paths

A `Path` is a list of steps through a document: `.`, a child or a descendant with a name or with any name, and last an
attribute or `text()`. A record path is absolute and tests the names of the open elements (`Path.accepts`), a property
path is relative and selects nodes from an element (`Path.select`).
-/

namespace RecordServer.Xml

/-- One step: to the element itself, to children or descendants, where an absent name stands for any name, to the
attribute that is named, or to the text. -/
inductive Step where
  | current
  | child (name : Option String)
  | descendant (name : Option String)
  | named (name : String)
  | text
  deriving DecidableEq, Repr

/-- The steps from the outermost to the last. -/
abbrev Path := List Step

namespace Step

/-- A step to an attribute or a text, behind which there is no other. -/
def isLast : Step → Bool
  | named _ => true
  | text => true
  | _ => false

/-- A step to an element with a name, as it may stand in a record path. -/
def isElement : Step → Bool
  | child _ => true
  | descendant _ => true
  | _ => false

end Step

/-- Whether a name passes a test. -/
def passes (test : Option String) (name : String) : Bool :=
  match test with
  | some expected => expected == name
  | none => true

/-! ## Reading a path -/

/-- The characters of which a name may consist. -/
def isNameChar (c : Char) : Bool := Text.isAlphanumeric c || c = '_' || c = '-' || c = '.' || c = ':'

/-- A name is not empty. -/
def isName (cs : List Char) : Bool := !cs.isEmpty && cs.all isNameChar

/-- The step of a segment, which is not empty; behind `//` only a name or `*` may stand. -/
def stepOf? (descendant : Bool) (segment : List Char) : Option Step :=
  let element (name : Option String) : Step := if descendant then .descendant name else .child name
  if segment = ['.'] then if descendant then none else some .current
  else if segment = ['*'] then some (element none)
  else if segment = "text()".toList ∧ ¬descendant then some .text
  else match segment with
    | '@' :: name => if !descendant && isName name then some (.named (String.ofList name)) else none
    | name => if isName name then some (element (some (String.ofList name))) else none

/-- Reads segments behind the steps which have been read, the last of them first. -/
def readSegments (whole : String) : List Step → Bool → List (List Char) → Except Cause Path
  | steps, _, [] => .ok steps.reverse
  | steps, descendant, segment :: rest =>
    let segment := Text.trimChars segment
    if steps.head?.any Step.isLast then .error (.stepAfterLast whole)
    else if segment = [] then
      if descendant ∨ rest = [] then .error (.invalidPath whole)
      else readSegments whole steps true rest
    else match stepOf? descendant segment with
      | none => .error (.unsupportedStep whole (String.ofList segment))
      | some step => readSegments whole (step :: steps) false rest

namespace Path

/-- The absolute path of records: child and descendant steps from the root of the document. -/
def ofAbsolute (expression : String) : Except Cause Path :=
  let whole := Text.trim expression
  match whole.toList with
  | '/' :: rest =>
    match readSegments whole [] false (Text.pieces '/' rest) with
    | .error cause => .error cause
    | .ok path =>
      if path.isEmpty || !path.all Step.isElement then .error (.recordPathWithOtherSteps whole) else .ok path
  | _ => .error (.recordPathNotAbsolute whole)

/-- The path of a property, relative to an element. -/
def ofRelative (expression : String) : Except Cause Path :=
  let whole := Text.trim expression
  match whole.toList with
  | '/' :: '/' :: rest => readSegments whole [] false (Text.pieces '/' ('.' :: '/' :: '/' :: rest))
  | '/' :: _ => .error (.pathNotRelative whole)
  | cs => readSegments whole [] false (Text.pieces '/' cs)

/-- Whether a path selects nothing but the element it starts from. -/
def isCurrent (path : Path) : Bool := path.all (· = .current)

/-! ## Testing names -/

/-- Whether steps lead to an element, where both the steps and the names of the open elements come innermost first. -/
def leads : List Step → List String → Bool
  | [], names => names.isEmpty
  | .child test :: steps, name :: names => passes test name && leads steps names
  | .descendant test :: steps, name :: names =>
    passes test name && (List.range (names.length + 1)).any fun n => leads steps (names.drop n)
  | _, _ => false

/-- Whether the path selects the element with these names from the root down. -/
def accepts (path : Path) (names : List String) : Bool := leads path.reverse names.reverse

/-! ## Selecting nodes -/

end Path

/-- A selected node: an element, or the text of an attribute or of an element. -/
inductive Selected where
  | element (located : Located)
  | text (text : String)

namespace Selected

/-- The text of a selected node. -/
def content : Selected → String
  | element located => located.2.content
  | .text t => t

/-- The selected element. -/
def element? : Selected → Option Located
  | element located => some located
  | .text _ => none

end Selected

/-- What one step selects from an element. -/
def Step.select : Step → Located → List Selected
  | current, l => [.element l]
  | child test, l => (l.children.filter fun c => passes test c.2.name).map .element
  | descendant test, l => (l.descendants.filter fun c => passes test c.2.name).map .element
  | named name, l => ((l.2.attribute? name).map .text).toList
  | .text, l => [.text l.2.text]

/-- What one step selects from several nodes; nothing is selected from a text. -/
def Step.selectAll (step : Step) (nodes : List Selected) : List Selected :=
  (nodes.filterMap Selected.element?).flatMap step.select

/-- The nodes to which a path leads from an element. -/
def Path.select (path : Path) (e : Element) : List Selected :=
  path.foldl (fun nodes step => step.selectAll nodes) [.element ([], e)]

end RecordServer.Xml
