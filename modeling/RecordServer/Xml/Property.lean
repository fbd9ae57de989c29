import RecordServer.Config.Basic
import RecordServer.Parser.Registry
import RecordServer.Xml.Path

/-!
# Properties of elements

A `Property` takes a value from an element: the first node of a path, given to a parser, a list of one value for each
node, or a map of further properties of the first element. `extract` takes the fields of a record.
-/

namespace RecordServer.Xml

/-- How a value is taken from an element. -/
inductive Property where
  | primitive (path : Path) (parser : Parser)
  | array (path : Path) (items : Property)
  | object (path : Path) (properties : List (String × Property))
  deriving Inhabited

namespace Property

/-! ## From the configuration -/

/-- The path of a property at a place of the configuration. -/
def compilePath (place path : String) : Except Fault Path :=
  match Path.ofRelative path with
  | .ok path => .ok path
  | .error cause => .error ((cause : Fault).within (.place (place ++ ".xpath")))

mutual

/-- The property for a selection at a place of the configuration. -/
def compile (parsers : Parsers) (place : String) : Config.Selection → Except Fault Property
  | .primitive path parser => do
    let path ← compilePath place path
    return .primitive path (← parsers.require parser (place ++ ".parser"))
  | .array path items => do
    let path ← compilePath place path
    return .array path (← compile parsers (place ++ ".items") items)
  | .object path properties => do
    let path ← compilePath place path
    return .object path (← compileAll parsers (place ++ ".properties") properties)

/-- The named properties for several selections. -/
def compileAll (parsers : Parsers) (place : String) :
    List (String × Config.Selection) → Except Fault (List (String × Property))
  | [] => return []
  | (name, selection) :: rest => do
    let property ← compile parsers (place ++ "." ++ name) selection
    return (name, property) :: (← compileAll parsers place rest)

end

/-! ## Values -/

/-- The value of a text in place of an element: only a parser without a path of its own has one. -/
def ofText (parsers : Parsers) (text : String) : Property → Except Fault Value
  | primitive path parser => if path.isCurrent then parsers.parse parser text else .ok .null
  | _ => .ok .null

mutual

/-- The value of a property. -/
def apply (parsers : Parsers) : Property → Element → Except Fault Value
  | primitive path parser, e =>
    match path.select e with
    | [] => .ok .null
    | selected :: _ => parsers.parse parser selected.content
  | array path items, e =>
    .list <$> (path.select e).mapM fun
      | .element (_, item) => apply parsers items item
      | .text text => ofText parsers text items
  | object path properties, e =>
    match (path.select e).findSome? Selected.element? with
    | none => .ok .null
    | some (_, item) => .map <$> extract parsers [] properties item

/-- Sets the values of several properties behind those which have been set; a name that comes again is set at the end.
-/
def extract (parsers : Parsers) (fields : Fields) : List (String × Property) → Element → Except Fault Fields
  | [], _ => .ok fields
  | (name, property) :: rest, e => do
    let value ← Context.around (.parsingProperty name) (apply parsers property e)
    extract parsers (fields.setLast name value) rest e

end

end Property

end RecordServer.Xml
