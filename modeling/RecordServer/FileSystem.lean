import RecordServer.Text.Split

/-!
# File systems

A `FileSystem` holds the files and directories below a working directory, by their locations. A path is a text of
names between slashes, which is walked name by name: each name on the way has to be that of a directory, and two dots
lead up from wherever the walk has come to. Everything above the working directory is only known to be a directory.
-/

namespace RecordServer

/-- A file: its bytes and the second in which it has been changed last. -/
structure File where
  content : List UInt8
  modified : Nat
  deriving DecidableEq, Repr, Inhabited

/-! ## Paths -/

namespace Path

/-- The names between the slashes of a path. -/
def names (path : String) : List String := (Text.pieces '/' path.toList).map String.ofList

/-- Whether a name leads nowhere else. -/
def isBlank (name : String) : Bool := name = "" || name = "."

/-- Whether a text can be a path at all. -/
def isValid (path : String) : Bool := path ≠ "" && !path.contains '\x00' && path.utf8ByteSize < 4096

/-- Whether a file or directory can have a name. -/
def isName (name : String) : Bool := !isBlank name && name ≠ ".." && name.utf8ByteSize ≤ 255

/-- The path of the directory in which a path ends, without blank names at its end. -/
def parent (path : String) : String :=
  match (((names path).reverse.dropWhile isBlank).drop 1).reverse with
  | [] => ""
  | [""] => "/"
  | first :: rest => String.intercalate "/" (first :: (rest.reverse.dropWhile isBlank).reverse)

end Path

/-- Where a file or directory is: the names on the way down from the root or from the working directory, with two dots
for each directory that lies above. -/
structure Location where
  absolute : Bool
  names : List String
  deriving DecidableEq, Repr

namespace Location

/-- Where a path starts. -/
def start (path : String) : Location := ⟨path.startsWith "/", []⟩

/-- One name further down. -/
def child (l : Location) (name : String) : Location := ⟨l.absolute, l.names ++ [name]⟩

/-- One directory up. The root is its own parent. -/
def above (l : Location) : Location :=
  if l.names.all (· = "..") then (if l.absolute then l else l.child "..") else ⟨l.absolute, l.names.dropLast⟩

end Location

/-- Why a path leads nowhere: there is nothing of that name, or a file is in the way or the name cannot be one. -/
inductive Obstacle where
  | missing
  | blocked
  deriving DecidableEq, Repr

/-- Files and directories, and the present second. -/
structure FileSystem where
  files : List (Location × File)
  directories : List Location
  now : Nat

namespace FileSystem

/-- A file system without files. -/
def empty (now : Nat) : FileSystem := ⟨[], [], now⟩

/-! ## Walking -/

/-- Enters a directory. -/
def enter (fs : FileSystem) (l : Location) (name : String) : Except Obstacle Location :=
  if Path.isBlank name then .ok l
  else if name = ".." then .ok l.above
  else if !Path.isName name then .error .blocked
  else if fs.directories.contains (l.child name) then .ok (l.child name)
  else if (fs.files.lookup (l.child name)).isSome then .error .blocked
  else .error .missing

/-- The location of what is named last on a way through directories, whether there is something or not. -/
def locateFrom (fs : FileSystem) (start : Location) (names : List String) : Except Obstacle Location := do
  let directory ← names.dropLast.foldlM fs.enter start
  let name := names.getLastD ""
  if Path.isName name then .ok (directory.child name) else .error .blocked

/-- The location of the file to which a path leads, whether there is one or not. -/
def locate (fs : FileSystem) (path : String) : Except Obstacle Location :=
  if Path.isValid path then fs.locateFrom (.start path) (Path.names path) else .error .blocked

/-- The file at a path. -/
def file? (fs : FileSystem) (path : String) : Option File :=
  match fs.locate path with
  | .ok l => fs.files.lookup l
  | .error _ => none

/-- Whether a path leads to a directory. -/
def isDirectory (fs : FileSystem) (path : String) : Bool :=
  Path.isValid path && ((Path.names path).foldlM fs.enter (Location.start path)).isOk

/-- When a file or directory has been changed last. -/
def modified? (fs : FileSystem) (path : String) : Option Nat :=
  match fs.file? path with
  | some f => some f.modified
  | none => if fs.isDirectory path then some fs.now else none

/-! ## Changes -/

/-- Creates the directory that is named last on a way through directories. -/
def makeDirectory (fs : FileSystem) (start : Location) (names : List String) : Except Obstacle FileSystem := do
  let l ← fs.locateFrom start names
  if fs.directories.contains l || (fs.files.lookup l).isSome then .error .blocked
  else .ok { fs with directories := l :: fs.directories }

/-- Creates the directories on a way, of which the last name comes first, unless they are there. A name that leads up
from a directory which is missing gets that directory created. -/
def makeDirectories (fs : FileSystem) (start : Location) : List String → Option FileSystem
  | [] => some fs
  | name :: before =>
    let names := (name :: before).reverse
    let existing (fs : FileSystem) : Option FileSystem :=
      if (names.foldlM fs.enter start).isOk then some fs else none
    match fs.makeDirectory start names with
    | .ok fs => some fs
    | .error .blocked => existing fs
    | .error .missing => do
      let fs ← makeDirectories fs start before
      match fs.makeDirectory start names with
      | .ok fs => some fs
      | .error _ => existing fs

/-- Creates the directory of a path and those on the way to it, unless they are there. -/
def createDirectory (fs : FileSystem) (path : String) : Option FileSystem :=
  if path = "" then some fs
  else if !Path.isValid path then none
  else fs.makeDirectories (.start path) ((Path.names path).filter fun name => !Path.isBlank name).reverse

/-- A file in place of the one at its location. -/
def replace (fs : FileSystem) (l : Location) (f : File) : FileSystem :=
  { fs with files := (l, f) :: fs.files.filter fun entry => entry.1 ≠ l }

/-- Puts a file into a directory which is there, and not in place of a directory. -/
def put (fs : FileSystem) (path : String) (f : File) : Option FileSystem :=
  match fs.locate path with
  | .ok l => if fs.directories.contains l then none else some (fs.replace l f)
  | .error _ => none

/-- Writes a file now. -/
def write (fs : FileSystem) (path : String) (content : List UInt8) : Option FileSystem :=
  fs.put path ⟨content, fs.now⟩

/-- Puts a file into a directory, which is created if need be. -/
def install (fs : FileSystem) (path : String) (f : File) : Option FileSystem := do
  (← fs.createDirectory (Path.parent path)).put path f

/-- Removes a file; `none` if there is none. -/
def delete (fs : FileSystem) (path : String) : Option FileSystem :=
  match fs.locate path with
  | .ok l =>
    if (fs.files.lookup l).isSome then some { fs with files := fs.files.filter fun entry => entry.1 ≠ l } else none
  | .error _ => none

/-- Moves a file in place of another, but not of a directory. -/
def move (fs : FileSystem) (source target : String) : Option FileSystem := do
  let f ← fs.file? source
  let fs ← fs.delete source
  fs.put target f

/-- Changes the time of the last change of a file. -/
def touch (fs : FileSystem) (path : String) (modified : Nat) : FileSystem :=
  match fs.file? path with
  | none => fs
  | some f => (fs.put path { f with modified := modified }).getD fs

end FileSystem

end RecordServer
