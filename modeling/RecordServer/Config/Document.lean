import RecordServer.Config.Outputs
import RecordServer.FileSystem
import RecordServer.Parser.Registry
import RecordServer.Yaml.Document

/-!
# Reading a configuration

`Config.ofText` reads a configuration from the first document of a YAML text. Its sections are read in the order in
which they are listed by `Config.sections`; the built-in parsers and the built-in index must not be declared.
-/

namespace RecordServer.Config

/-- The sections of a configuration. -/
def sections : List String := ["sources", "parsers", "inputs", "indexes", "outputs", "services"]

/-- Reads the components of a section. -/
def readSection (read : Setting → Except Fault α) (root : Setting) (name : String) :
    Except Fault (List (String × α)) := do
  (← (root.child name).entries).mapM fun entry => do return (entry.1, ← read entry.2)

/-- Refuses a component of a section which is built in. -/
def refuseBuiltIn (root : Setting) (place : String) (builtIn names : List String) (p : Problem) : Except Fault Unit :=
  match names.find? builtIn.contains with
  | some name => ((root.child place).child name).problem p
  | none => .ok ()

/-- Reads all sections. -/
def ofRoot (isDirectory : String → Bool) (root : Setting) : Except Fault Config := do
  root.ensureKeys sections
  let sources ← readSection Source.read root "sources"
  let parsers ← readSection readFormat root "parsers"
  let inputs ← readSection Input.read root "inputs"
  let indexes ← readSection (Index.read isDirectory) root "indexes"
  let outputs ← readSection Output.read root "outputs"
  let services ← readSection Service.read root "services"
  refuseBuiltIn root "parsers" (Parsers.builtIn.map Parser.name) (parsers.map Prod.fst) .builtInParser
  refuseBuiltIn root "indexes" [defaultIndex] (indexes.map Prod.fst) .builtInIndex
  return ⟨sources, parsers.map fun p => ⟨p.1, p.2⟩, inputs, indexes, outputs, services⟩

/-- Reads a configuration from a document, which may be empty. -/
def ofDocument (isDirectory : String → Bool) : Yaml.Node → Except Fault Config
  | .map entries => ofRoot isDirectory ⟨.map entries, ""⟩
  | .null => .ok .empty
  | _ => .error Cause.configNotMap

/-- Reads a configuration from a text. -/
def ofText (isDirectory : String → Bool) (text : String) : Except Fault Config :=
  match Yaml.read? text with
  | none => .error ((Fault.external .yaml).within .parsingConfig)
  | some [] => .ok .empty
  | some (document :: _) => ofDocument isDirectory document

/-- Reads a configuration from a file. -/
def load (fs : FileSystem) (file : String) : Except Fault Config :=
  match (fs.file? file).bind fun f => Text.Utf8.decode? f.content with
  | none => .error ((Fault.external .io).within (.loadingConfig file))
  | some text => ofText fs.isDirectory text

end RecordServer.Config
