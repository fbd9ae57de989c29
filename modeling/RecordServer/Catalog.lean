import RecordServer.Index.Open
import RecordServer.Input.Open

/-!
# Catalogs

A `Catalog` holds the parsers, inputs and indexes which have been made from a configuration, by name. The components
which refer to them look them up here, with a place of the configuration for what is wrong with the reference.
-/

namespace RecordServer

/-- The components to which others refer, by name and in order. -/
structure Catalog where
  parsers : Parsers
  inputs : List (String × Input)
  indexes : List (String × Index)

/-- Named components with one more at the end, which takes the place of those with its name. -/
def register (entries : List (String × α)) (name : String) (component : α) : List (String × α) :=
  entries.filter (fun entry => entry.1 ≠ name) ++ [(name, component)]

namespace Catalog

/-! ## References -/

/-- The input to which a place refers. -/
def input (c : Catalog) (name place : String) : Except Fault Input :=
  match c.inputs.lookup name with
  | some input => .ok input
  | none => .error (Fault.located place (.unknownInput name))

/-- The index to which a place refers. -/
def index (c : Catalog) (name place : String) : Except Fault Index :=
  match c.indexes.lookup name with
  | some index => .ok index
  | none => .error (Fault.located place (.unknownIndex name))

/-- The index to which a place refers in order to filter a property of an input. -/
def filterIndex (c : Catalog) (name : String) (input : Input) (property place : String) : Except Fault Index := do
  let index ← c.index name place
  if !index.handlesInput input.name then .error (Fault.located place (.foreignIndex name input.name))
  else if !index.handlesProperty property then .error (Fault.located place (.unindexedProperty name property))
  else if !input.hasProperty property then .error (Fault.located place (.unknownProperty input.name property))
  else .ok index

/-! ## Opening -/

/-- Opens the inputs of a configuration, one after the other. -/
def openInputs (fs : FileSystem) (sources : List (String × Config.Source)) (c : Catalog) :
    List (String × Config.Input) → Except Fault Catalog
  | [] => .ok c
  | (name, config) :: rest => do
    let place := "inputs." ++ name
    let source ← match sources.lookup config.source with
      | some source => .ok source
      | none => .error (Fault.located (place ++ ".source") (.unknownSource config.source))
    let input ← Input.create fs c.parsers place name (source.resolve config.file) config
    openInputs fs sources { c with inputs := register c.inputs name input } rest

/-- The input of an index, if it has one. -/
def indexedInput (c : Catalog) (place : String) (config : Config.Index) : Except Fault (Option Input) :=
  match config.input? with
  | none => .ok none
  | some name => some <$> c.input name (place ++ ".input")

/-- Opens the indexes of a configuration, one after the other, and gives the file system afterwards. -/
def openIndexes (fs : FileSystem) (c : Catalog) :
    List (String × Config.Index) → Except Fault Catalog × FileSystem
  | [] => (.ok c, fs)
  | (name, config) :: rest =>
    let place := "indexes." ++ name
    match c.indexedInput place config with
    | .error fault => (.error fault, fs)
    | .ok input =>
      match Index.create fs place name config input with
      | (.error fault, fs) => (.error fault, fs)
      | (.ok index, fs) => openIndexes fs { c with indexes := register c.indexes name index } rest

/-- The parsers and the inputs of a configuration, with the index that needs no declaration. -/
def openFiles (fs : FileSystem) (config : Config) : Except Fault Catalog := do
  let parsers ← Parsers.ofDeclarations config.parsers
  openInputs fs config.sources ⟨parsers, [], [(Config.defaultIndex, .scan Config.defaultIndex)]⟩ config.inputs

/-- The catalog of a configuration, and the file system afterwards. -/
def ofConfig (fs : FileSystem) (config : Config) : Except Fault Catalog × FileSystem :=
  match openFiles fs config with
  | .error fault => (.error fault, fs)
  | .ok c => openIndexes fs c config.indexes

end Catalog

end RecordServer
