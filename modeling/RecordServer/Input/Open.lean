import RecordServer.Input.Basic

/-!
# Opening inputs

`Input.create` makes an input from its configuration: its parsers and paths are looked up, and its file is read once
to count the records. A file which cannot be read as a whole makes no input.
-/

namespace RecordServer.Input

/-- The column for its configuration, at a place. -/
def compileColumn (parsers : Parsers) (place : String) (column : Config.Column) : Except Fault Column :=
  match column.booleans, column.separator with
  | some (trueValues, falseValues), _ => .ok ⟨column.name, ⟨column.name, .boolean trueValues falseValues⟩⟩
  | none, some separator => .ok ⟨column.name, ⟨column.name, .float "" separator⟩⟩
  | none, none => do return ⟨column.name, ← parsers.require column.parser (place ++ ".parser")⟩

/-- The columns of a table, the first of them with the given index. -/
def compileColumns (parsers : Parsers) (place : String) : Nat → List Config.Column → Except Fault (List Column)
  | _, [] => return []
  | index, column :: rest => do
    let first ← compileColumn parsers (place ++ ".columns[" ++ toString index ++ "]") column
    return first :: (← compileColumns parsers place (index + 1) rest)

/-- The path of records at a place of the configuration. -/
def compilePath (place path : String) : Except Fault Xml.Path :=
  match Xml.Path.ofAbsolute path with
  | .ok path => .ok path
  | .error cause => .error ((cause : Fault).within (.place (place ++ ".xpath")))

/-- What is found in the bytes of a file, and the number of its records. -/
def examine (parsers : Parsers) (place path : String) (bytes : List UInt8) :
    Config.Layout → Except Fault (Content × Nat)
  | .csv table => do
    let columns ← compileColumns parsers place 0 table.columns
    return (.table table.ignoreFirstRow table.delimiter columns,
      (rowsOf table.ignoreFirstRow table.delimiter bytes).length)
  | .json =>
    match Json.elements bytes with
    | .ok spans => .ok (.elements spans.toArray, spans.length)
    | .error cause => .error ((cause : Fault).within (.reading path))
  | .xml recordPath properties => do
    let recordPath ← compilePath place recordPath
    let properties ← Xml.Property.compileAll parsers (place ++ ".properties") properties
    let found ← Context.around (.reading path) ((Xml.select recordPath bytes).mapM id)
    return (.document recordPath properties (Xml.charset bytes), found.length)

/-- The input for its configuration, at a place, whose file is at a path. -/
def create (fs : FileSystem) (parsers : Parsers) (place name path : String) (config : Config.Input) :
    Except Fault Input :=
  match fs.file? path with
  | none => .error (Fault.located (place ++ ".file") (.missingFile path))
  | some f => do
    let (content, size) ← examine parsers place path f.content config.layout
    return ⟨name, path, config.fatalChange, size, parsers, content⟩

end RecordServer.Input
