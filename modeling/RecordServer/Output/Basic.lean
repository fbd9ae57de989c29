import RecordServer.Output.Route
import RecordServer.Relation

/-!
# Outputs

An `Output` delivers the records of an input at an endpoint, with related records and filtered by parameters: a list
of records, or the single record that is found by the values in its path. `Output.create` makes one from its
configuration.
-/

namespace RecordServer

/-- A parameter, the property which it filters by an index, and the parser of its values. -/
structure Binding where
  name : String
  property : String
  index : Index
  parser : Parser

/-- What is delivered. -/
inductive Delivery where
  /-- A list of records, limited and from an offset on. -/
  | list (limit : Config.Limit) (offsetParameter : String)
  /-- The first record, for the paths of a route with one value for each parameter. -/
  | single (route : Route)

/-- An endpoint and what it delivers. -/
structure Output where
  name : String
  endpoint : String
  input : Input
  delivery : Delivery
  bindings : List Binding
  relations : List Relation

/-- What is served: the components of a configuration and its outputs. -/
structure Site where
  catalog : Catalog
  outputs : List (String × Output)

namespace Output

/-- The media type of all responses. -/
def contentType : String := "application/json"

/-- Whether a path leads to the output. -/
def accepts (o : Output) (path : String) : Bool :=
  match o.delivery with
  | .list _ _ => path == o.endpoint
  | .single route => (route.match? path.toList).isSome

/-- Whether the output has a parameter. -/
def hasParameter (o : Output) (name : String) : Bool :=
  let bound := o.bindings.any fun b => b.name == name
  match o.delivery with
  | .list limit offset => name == limit.parameter || name == offset || bound
  | .single _ => bound

/-- The parser of a parameter, if it filters. -/
def parameterParser? (o : Output) (name : String) : Option Parser :=
  (o.bindings.find? fun b => b.name == name).map Binding.parser

/-! ## From the configuration -/

/-- The binding for a parameter at a place of the configuration. -/
def bind (c : Catalog) (input : Input) (place : String) (p : Config.Parameter) : Except Fault Binding := do
  let index ← c.filterIndex p.index input p.property (place ++ ".index")
  return ⟨p.name, p.property, index, ← c.parsers.requirePrimitive p.parser (place ++ ".parser")⟩

/-- The bindings for parameters which are found by their names. -/
def bindNamed (c : Catalog) (input : Input) (place : String) (parameters : List Config.Parameter) :
    Except Fault (List Binding) :=
  parameters.mapM fun p => bind c input (place ++ "." ++ p.name) p

/-- The bindings for parameters which are found by their order, the first of them with the given index. -/
def bindNumbered (c : Catalog) (input : Input) (place : String) :
    Nat → List Config.Parameter → Except Fault (List Binding)
  | _, [] => return []
  | n, p :: rest => do
    let binding ← bind c input (place ++ "[" ++ toString n ++ "]") p
    return binding :: (← bindNumbered c input place (n + 1) rest)

/-- The output for its configuration, at a place. -/
def create (c : Catalog) (place name : String) (config : Config.Output) : Except Fault Output := do
  let input ← c.input config.input (place ++ ".input")
  let bindings ← match config.delivery with
    | .list _ _ => bindNamed c input (place ++ ".parameters") config.parameters
    | .single => bindNumbered c input (place ++ ".parameters") 0 config.parameters
  let relations ← Relation.compileAll c input (place ++ ".relationships") config.relationships
  let delivery := match config.delivery with
    | .list limit offset => .list limit offset
    | .single => .single (.ofEndpoint config.endpoint (bindings.map fun b => b.parser.format.shape))
  return ⟨name, config.endpoint, input, delivery, bindings, relations⟩

end Output

namespace Site

/-- The outputs of a configuration, one after the other. -/
def openOutputs (c : Catalog) (outputs : List (String × Output)) :
    List (String × Config.Output) → Except Fault Site
  | [] => .ok ⟨c, outputs⟩
  | (name, config) :: rest => do
    let output ← Output.create c ("outputs." ++ name) name config
    openOutputs c (register outputs name output) rest

/-- The site of a configuration, and the file system afterwards. -/
def ofConfig (fs : FileSystem) (config : Config) : Except Fault Site × FileSystem :=
  match Catalog.ofConfig fs config with
  | (.error fault, fs) => (.error fault, fs)
  | (.ok c, fs) => (openOutputs c [] config.outputs, fs)

end Site

end RecordServer
