import RecordServer.Input.Basic

/-!
# The monitor

A `Monitor` remembers when the files of inputs have been changed last. Each change is noticed once: `Monitor.check`
gives a reason to stop the server if the file of an input has changed for which this is fatal.
-/

namespace RecordServer

/-- A file, when it was changed last as the monitor began, and whether a change since then has been noticed. -/
structure Watched where
  input : String
  path : String
  fatalChange : Bool
  modified : Option Nat
  noticed : Bool
  deriving DecidableEq, Repr

/-- The files which are watched. -/
structure Monitor where
  files : List Watched
  deriving DecidableEq, Repr

namespace Watched

/-- Whether a file has changed since the monitor began. -/
def isChanged (fs : FileSystem) (w : Watched) : Bool := fs.modified? w.path ≠ w.modified

/-- Why the server stops. -/
def reason (w : Watched) : String := "The file " ++ w.path ++ " of the input '" ++ w.input ++ "' has changed."

end Watched

namespace Monitor

/-- A monitor without files. -/
def empty : Monitor := ⟨[]⟩

/-- Watches one more file. -/
def watch (m : Monitor) (fs : FileSystem) (input path : String) (fatalChange : Bool) : Monitor :=
  ⟨m.files ++ [⟨input, path, fatalChange, fs.modified? path, false⟩]⟩

/-- Watches the files of inputs. -/
def ofInputs (fs : FileSystem) (inputs : List Input) : Monitor :=
  inputs.foldl (fun m i => m.watch fs i.name i.path i.fatalChange) empty

/-- Looks at files up to the first fatal change which has not been noticed. -/
def checkFiles (fs : FileSystem) : List Watched → Option String × List Watched
  | [] => (none, [])
  | w :: rest =>
    if w.noticed || !w.isChanged fs then
      let (reason, rest) := checkFiles fs rest
      (reason, w :: rest)
    else if w.fatalChange then (some w.reason, { w with noticed := true } :: rest)
    else
      let (reason, rest) := checkFiles fs rest
      (reason, { w with noticed := true } :: rest)

/-- The reason to stop, if there is one, and the monitor afterwards. -/
def check (m : Monitor) (fs : FileSystem) : Option String × Monitor :=
  let (reason, files) := checkFiles fs m.files
  (reason, ⟨files⟩)

end Monitor

end RecordServer
