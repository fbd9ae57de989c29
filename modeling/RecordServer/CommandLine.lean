import RecordServer.Service.Server

/-!
# The command line

`Options.ofArguments` reads the arguments, `Config.files` lists the files that have to be there to start, and
`Server.answerLine` answers a request line, a method and a target, with a status and a body.
-/

namespace RecordServer

/-- What can be chosen on the command line. -/
structure Options where
  config : String
  verbose : Bool
  deriving DecidableEq, Repr

namespace Options

/-- What is chosen without arguments. -/
def default : Options := ⟨"server.yaml", false⟩

/-- Reads further arguments; an argument which is unknown or lacks its value is the error. -/
def readFrom (o : Options) : List String → Except String Options
  | [] => .ok o
  | "-v" :: rest => readFrom { o with verbose := true } rest
  | "--verbose" :: rest => readFrom { o with verbose := true } rest
  | "-c" :: file :: rest => readFrom { o with config := file } rest
  | "--config" :: file :: rest => readFrom { o with config := file } rest
  | argument :: _ => .error argument

/-- The options for some arguments. -/
def ofArguments (arguments : List String) : Except String Options := readFrom default arguments

end Options

/-- The files of the inputs and for encrypted connections. -/
def Config.files (c : Config) : List String :=
  (c.inputs.filterMap fun i => (c.sources.lookup i.2.source).map fun s => s.resolve i.2.file) ++
    c.services.flatMap fun s => (s.2.encryption.map fun e => [e.certificate, e.privateKey]).getD []

/-- How faults outside of the library are named. -/
def External.name : External → String
  | .json => "malformed JSON"
  | .utf8 => "malformed UTF-8"
  | .xml => "malformed XML"
  | .csv => "malformed table"
  | .io => "input or output error"
  | .yaml => "malformed YAML"
  | .regexp => "malformed expression"

/-- The method and the target of a request line. -/
def splitRequestLine (line : String) : String × String :=
  let cs := Text.trimChars line.toList
  let method := cs.takeWhile (· ≠ ' ')
  (String.ofList method, String.ofList (Text.trimChars (cs.drop method.length)))

/-- The response to a request line, as a status and a body. -/
def Server.answerLine (fs : FileSystem) (s : Server) (line : String) : String :=
  let (method, target) := splitRequestLine line
  let response := s.respond External.name fs method target
  toString response.status ++ " " ++ response.body

end RecordServer
