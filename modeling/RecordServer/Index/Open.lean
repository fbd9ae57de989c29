import RecordServer.Index.Basic

/-!
# Opening indexes

`Index.create` makes an index from its configuration. Exact and substring indexes are built from all records of their
input, and so is an index file, unless there is one which has been written for the same properties and is not older
than the file of the input. A new index file is written next to the old one and then moved into its place.
-/

namespace RecordServer.Index

/-- All records of an input. -/
def allRecords (fs : FileSystem) (input : Input) : Except Fault (List (Position × Record)) := do
  (← input.records fs).mapM id

/-- An index with tables of an input. -/
def covering (name : String) (input : Input) (properties : List String) (tables : Tables) : Index :=
  ⟨name, some ⟨input.name, properties, tables⟩⟩

/-! ## Index files -/

/-- The index file at a path, if it is up to date and has been written for these properties. This can only be told if
there is something at the path of the input. -/
def current? (fs : FileSystem) (input : Input) (properties : List String) (ignoreCase : Bool) (path : String) :
    Except Fault (Option SuffixFile) :=
  match fs.file? path with
  | none => .ok none
  | some file =>
    match fs.modified? input.path with
    | none => .error (.external .io)
    | some modified =>
      if file.modified < modified then .ok none
      else .ok ((SuffixFile.decode? file.content).filter fun f => f.suits properties ignoreCase)

/-- Writes an index file by way of a temporary file. -/
def writeFile (fs : FileSystem) (path : String) (content : List UInt8) : Except Fault Unit × FileSystem :=
  let failed (context : Context) : Except Fault Unit := .error ((Fault.external .io).within context)
  let directory := Path.parent path
  match fs.createDirectory directory with
  | none => (failed (.creatingDirectory directory), fs)
  | some fs =>
    let temporary := path ++ ".tmp"
    match fs.write temporary content with
    | none => (failed (.writingIndexFile temporary), fs)
    | some fs =>
      match fs.move temporary path with
      | none => (failed (.moving temporary path), fs)
      | some fs => (.ok (), fs)

/-- Builds the index file at a path. -/
def build (fs : FileSystem) (name : String) (input : Input) (properties : List String) (ignoreCase : Bool)
    (path : String) : Except Fault SuffixFile × FileSystem :=
  match allRecords fs input with
  | .error fault => (.error fault, fs)
  | .ok records =>
    let tables := properties.map fun property => SuffixTable.ofKeys property (keysOf ignoreCase records property)
    match writeFile fs path (SuffixFile.encode ignoreCase tables) with
    | (.error fault, fs) => (.error fault, fs)
    | (.ok (), fs) =>
      let written := (fs.file? path).bind fun f => SuffixFile.decode? f.content
      match written.filter fun f => f.suits properties ignoreCase with
      | some file => (.ok file, fs)
      | none => (.error (Cause.indexFileMismatch path name), fs)

/-- Opens the index file at a path, and builds it if need be. -/
def openFile (fs : FileSystem) (name : String) (input : Input) (properties : List String) (ignoreCase : Bool)
    (path : String) : Except Fault SuffixFile × FileSystem :=
  if fs.isDirectory path then (.error (Cause.indexFileIsDirectory path name), fs)
  else match current? fs input properties ignoreCase path with
    | .error fault => (.error fault, fs)
    | .ok (some file) => (.ok file, fs)
    | .ok none => build fs name input properties ignoreCase path

/-! ## Creating -/

/-- Accepts properties of an input. -/
def checkProperties (place : String) (input : Input) (properties : List String) : Except Fault Unit :=
  match properties.find? fun property => !input.hasProperty property with
  | some property => .error (Fault.located (place ++ ".properties") (.unknownProperty input.name property))
  | none => .ok ()

/-- The tables of an index over an input, and the file system afterwards. -/
def tablesFor (fs : FileSystem) (name : String) (input : Input) : Config.Index → Except Fault Tables × FileSystem
  | .scan => (.ok (.exact []), fs)
  | .exact _ properties =>
    ((allRecords fs input).map fun records =>
      .exact (properties.map fun p => (p, Postings.ofKeys (keysOf false records p))), fs)
  | .substring _ properties ignoreCase =>
    ((allRecords fs input).map fun records =>
      .substring ignoreCase (properties.map fun p => (p, Trie.ofKeys (keysOf ignoreCase records p))), fs)
  | .substringFile _ properties ignoreCase path =>
    let (file, fs) := openFile fs name input properties ignoreCase path
    (file.map fun f => .substringFile ignoreCase properties f, fs)

/-- The index for its configuration, at a place, over an input if there is one, and the file system afterwards. -/
def create (fs : FileSystem) (place name : String) (config : Config.Index) (input : Option Input) :
    Except Fault Index × FileSystem :=
  match config, input with
  | .scan, _ => (.ok (scan name), fs)
  | _, none => (.error (Fault.located (place ++ ".input") .inputRequired), fs)
  | config, some input =>
    match checkProperties place input config.properties with
    | .error fault => (.error fault, fs)
    | .ok () =>
      let (tables, fs) := tablesFor fs name input config
      (tables.map fun t => covering name input config.properties t, fs)

end RecordServer.Index
