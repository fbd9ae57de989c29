import RecordServer.CommandLine
import RecordServer.Config.Document

/-!
# The program

Starts the servers of a configuration and answers request lines from the standard input, one response a line, with the
first server. Files are read once, at the start.
-/

namespace RecordServer

/-- Adds a file of this machine to a file system, if it can be read. -/
def readInto (fs : FileSystem) (path : String) : IO FileSystem := do
  try
    let bytes ← IO.FS.readBinFile path
    return (fs.install path ⟨bytes.toList, 0⟩).getD fs
  catch _ => return fs

/-- Reports what prevents the start. -/
def report (fault : Fault) : IO UInt32 := do
  IO.eprintln (fault.text External.name)
  return 1

/-- Answers the lines of the standard input. -/
partial def answerLines (verbose : Bool) (fs : FileSystem) (server : Server) : IO Unit := do
  let line ← (← IO.getStdin).getLine
  unless line.isEmpty do
    if verbose then IO.eprint line
    IO.println (server.answerLine fs line)
    (← IO.getStdout).flush
    answerLines verbose fs server

/-- Starts the servers with the chosen options. -/
def start (options : Options) : IO UInt32 := do
  let fs ← readInto (.empty 0) options.config
  match Config.load fs options.config with
  | .error fault => report fault
  | .ok config =>
    let fs ← config.files.foldlM readInto fs
    match Server.start fs config with
    | (.error fault, _) => report fault
    | (.ok (_, servers), fs) =>
      for server in servers do
        IO.eprintln (server.name ++ ": " ++ server.listen)
      if let server :: _ := servers then answerLines options.verbose fs server
      return 0

end RecordServer

/-- Runs the program. -/
def main (arguments : List String) : IO UInt32 := do
  match RecordServer.Options.ofArguments arguments with
  | .ok options => RecordServer.start options
  | .error argument =>
    IO.eprintln ("Unexpected argument '" ++ argument ++ "'")
    return 2
