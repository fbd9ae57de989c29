import RecordServer.Csv.Row
import RecordServer.FileSystem
import RecordServer.Input.Pages
import RecordServer.Json.Elements
import RecordServer.Xml.Document
import RecordServer.Xml.Property

/-!
# Inputs

An `Input` is a file of records together with what has to be known to read them. Its file is opened anew each time:
`records` reads all records in order, `positions` only finds where they are, and a `Reader` loads them one by one, in
any order (`load`).
-/

namespace RecordServer

/-- A column of a table and the parser of its cells. -/
structure Column where
  name : String
  parser : Parser

/-- How the records of a file are found and read. -/
inductive Content where
  | table (ignoreFirstRow : Bool) (delimiter : UInt8) (columns : List Column)
  /-- The elements of a JSON array, which have been located before. -/
  | elements (spans : Array Json.Span)
  /-- The elements of an XML document, with the charset known at its end. -/
  | document (path : Xml.Path) (properties : List (String × Xml.Property)) (charset : Text.Charset)

/-- A file of records. -/
structure Input where
  name : String
  path : String
  /-- Whether the server ends once the file changes. -/
  fatalChange : Bool
  /-- The number of records when the file was opened for the first time. -/
  size : Nat
  parsers : Parsers
  content : Content

/-- A record or what is wrong with it. -/
abbrev Loaded := Except Fault (Position × Record)

namespace Input

/-- Whether records may have a property. -/
def hasProperty (i : Input) (property : String) : Bool :=
  match i.content with
  | .table _ _ columns => columns.any fun c => c.name == property
  | .elements _ => true
  | .document _ properties _ => properties.any fun p => p.1 == property

/-- The bytes of the file, or none if a directory has taken its place, which can be opened but not read. -/
def contents (fs : FileSystem) (i : Input) : Except Fault (Option (List UInt8)) :=
  match fs.file? i.path with
  | some f => .ok (some f.content)
  | none => if fs.isDirectory i.path then .ok none else .error ((Fault.external .io).within (.opening i.path))

/-- What reading a directory comes to. -/
def unreadable (i : Input) : Fault :=
  match i.content with
  | .table _ _ _ => .external .csv
  | .elements _ => .external .io
  | .document _ _ _ => .external .xml

/-! ## From bytes to records -/

/-- Sets the properties of columns from the cells of a row; missing cells are null. -/
def readCells (i : Input) (position : Position) (fields : Fields) : List Column → Csv.Row → Except Fault Fields
  | [], _ => .ok fields
  | c :: columns, [] => readCells i position (fields.set c.name .null) columns []
  | c :: columns, cell :: row => do
    let value ← Context.around (.parsingColumn c.name position i.path) (i.parsers.parseBytes c.parser cell)
    readCells i position (fields.set c.name value) columns row

/-- The record of a row. -/
def ofRow (i : Input) (columns : List Column) (position : Position) (row : Csv.Row) : Except Fault Record :=
  Record.mk <$> readCells i position [] columns row

/-- The record of a JSON object. -/
def ofObject (i : Input) (position : Position) (bytes : List UInt8) : Except Fault Record :=
  match Json.ofBytes? bytes with
  | some (.map fields) => .ok ⟨fields⟩
  | _ => .error ((Fault.external .json).within (.parsingRecord position i.path))

/-- The record of a JSON object, unless the file is too short for it. -/
def ofObject? (i : Input) (position : Position) : Option (List UInt8) → Except Fault Record
  | some object => i.ofObject position object
  | none => .error (.external .io)

/-- The record of an XML element. -/
def ofElement (i : Input) (properties : List (String × Xml.Property)) (position : Position) (e : Xml.Element) :
    Except Fault Record :=
  Record.mk <$> Context.around (.readingRecord position i.path) (Xml.Property.extract i.parsers [] properties e)

/-! ## Iterating -/

/-- The rows of a table that are records. -/
def rowsOf (ignoreFirstRow : Bool) (delimiter : UInt8) (bytes : List UInt8) : List (Position × Csv.Row) :=
  (Csv.rows delimiter bytes).drop (if ignoreFirstRow then 1 else 0)

/-- A record at its position. -/
def placed (position : Position) (record : Except Fault Record) : Loaded := record.map fun r => (position, r)

/-- The records of elements of an array, the first of them at a position, read from front to back. -/
def readElements (i : Input) (pages : Pages) : Json.Cursor → Position → List Json.Span → List Loaded
  | _, _, [] => []
  | c, position, span :: spans =>
    let (bytes, c) := c.read? pages span
    placed position (i.ofObject? position bytes) :: readElements i pages c (position + 1) spans

/-- The records of the bytes of a file. -/
def recordsOf (i : Input) (bytes : List UInt8) : List Loaded :=
  match i.content with
  | .table ignoreFirstRow delimiter columns =>
    (rowsOf ignoreFirstRow delimiter bytes).map fun row => placed row.1 (i.ofRow columns row.1 row.2)
  | .elements spans => i.readElements (.ofBytes bytes) ⟨0, 0⟩ 0 spans.toList
  | .document path properties _ =>
    (Xml.select path bytes).map fun item => item >>= fun e => placed e.1 (i.ofElement properties e.1 e.2)

/-- The records of a directory: the first thing that cannot be read is the last, but each element of an array is looked
for by itself. -/
def recordsOfDirectory (i : Input) : List Loaded :=
  match i.content with
  | .elements spans => spans.toList.map fun _ => .error i.unreadable
  | _ => [.error i.unreadable]

/-- All records in ascending order of their positions. -/
def records (fs : FileSystem) (i : Input) : Except Fault (List Loaded) :=
  (fun bytes => bytes.elim i.recordsOfDirectory i.recordsOf) <$> i.contents fs

/-- The positions of the records of the bytes of a file. -/
def positionsOf (i : Input) (bytes : List UInt8) : List (Except Fault Position) :=
  match i.content with
  | .table ignoreFirstRow delimiter _ => (rowsOf ignoreFirstRow delimiter bytes).map fun row => .ok row.1
  | .elements spans => (List.range spans.size).map .ok
  | .document path _ _ => (Xml.select path bytes).map fun item => item.map Prod.fst

/-- The positions of all records, ascending. The elements of an array are known without opening the file. -/
def positions (fs : FileSystem) (i : Input) : Except Fault (List (Except Fault Position)) :=
  match i.content with
  | .elements _ => .ok (i.positionsOf [])
  | _ => (fun bytes => bytes.elim [.error i.unreadable] i.positionsOf) <$> i.contents fs

/-! ## Random access -/

/-- The greatest offset in a file. -/
def maxOffset : Nat := 9223372036854775807

/-- An open file, and how far it has been read if it is a table. -/
structure Reader where
  /-- The bytes of the file; none of a directory. -/
  pages : Option Pages
  head : Csv.Head

/-- Opens the file to load single records. -/
def reader (fs : FileSystem) (i : Input) : Except Fault Reader :=
  (fun bytes => ⟨bytes.map .ofBytes, none⟩) <$> i.contents fs

/-- There is no record at a position. -/
def missing (i : Input) (position : Position) : Fault := Cause.noRecord position i.path

/-- The record at a position of a file, and the head behind it. -/
def loadFrom (i : Input) (pages : Pages) (head : Csv.Head) (position : Position) : Except Fault Record × Csv.Head :=
  match i.content with
  | .table _ delimiter columns =>
    if maxOffset < position then (.error (.external .csv), head)
    else match Csv.rowAt delimiter pages head position with
      | (some row, head) => (i.ofRow columns position row, head)
      | (none, head) => (.error (i.missing position), head)
  | .elements spans =>
    match spans[position]? with
    | some span => (i.ofObject? position (span.bytes? pages), head)
    | none => (.error (i.missing position), head)
  | .document _ properties charset =>
    if maxOffset < position then (.error (.external .io), head)
    else match Xml.elementAt charset pages position with
      | .error fault => (.error fault, head)
      | .ok none => (.error (i.missing position), head)
      | .ok (some e) => (i.ofElement properties position e, head)

/-- Why there is no record at a position of a directory. -/
def unloadable (i : Input) (position : Position) : Fault :=
  match i.content with
  | .table _ _ _ => i.unreadable
  | .elements spans => if position < spans.size then i.unreadable else i.missing position
  | .document _ _ _ => if maxOffset < position then .external .io else i.unreadable

/-- The record at a position, and the reader behind it. -/
def load (i : Input) (r : Reader) (position : Position) : Except Fault Record × Reader :=
  match r.pages with
  | none => (.error (i.unloadable position), r)
  | some pages =>
    let (record, head) := i.loadFrom pages r.head position
    (record, { r with head := head })

end Input

end RecordServer
