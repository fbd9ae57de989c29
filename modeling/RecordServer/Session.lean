import RecordServer.Query

/-!
# Sessions

A `Session` loads the records for one request: it opens each file only once and keeps its reader. Together with the
watch of the request it is the state in which records are loaded (`Session.Run`), which is kept also when something
fails.
-/

namespace RecordServer

/-- Files, the readers which have been opened, by input, and the watch of the request. -/
structure Session where
  files : FileSystem
  readers : List (String × Input.Reader)
  watch : Watch

namespace Session

/-- A session without readers. -/
def new (files : FileSystem) (watch : Watch) : Session := ⟨files, [], watch⟩

/-- What runs within a session and may fail. -/
abbrev Run := ExceptT Fault (StateM Session)

/-- A result which does not depend on the session. -/
def lift (a : Except Fault α) : Run α := ExceptT.mk fun s => (a, s)

/-- The reader of an input, which is opened if need be. -/
def readerOf (s : Session) (input : Input) : Except Fault Input.Reader :=
  match s.readers.lookup input.name with
  | some r => .ok r
  | none => input.reader s.files

/-- Keeps the reader of an input. -/
def keep (s : Session) (input : Input) (r : Input.Reader) : Session :=
  { s with readers := (input.name, r) :: s.readers.filter fun entry => entry.1 ≠ input.name }

/-- The record of an input at a position, and the session behind it. -/
def loadIn (s : Session) (input : Input) (position : Position) : Except Fault Record × Session :=
  let s := { s with watch := s.watch.note (.loaded input.name position) }
  match s.readerOf input with
  | .error fault => (.error fault, s)
  | .ok r =>
    let (record, r) := input.load r position
    (record, s.keep input r)

/-- Loads the record of an input at a position. -/
def load (input : Input) (position : Position) : Run Record := ExceptT.mk fun s => s.loadIn input position

/-- The next position of a feed. -/
def pull (feed : Feed) : Run (Pulled Fault × Feed) := ExceptT.mk fun s =>
  let (pulled, feed, watch) := feed.next s.watch
  (.ok (pulled, feed), { s with watch := watch })

/-- The positions of all records which satisfy a query. -/
def execute (q : Query) (input : Input) : Run Feed := ExceptT.mk fun s =>
  (q.execute s.files input s.watch.guards, s)

end Session

end RecordServer
