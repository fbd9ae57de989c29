import RecordServer.Index.Postings
import RecordServer.Index.SuffixFile
import RecordServer.Index.Trie
import RecordServer.Input.Basic
import RecordServer.Stream.Feed
import RecordServer.Text.LowerCase

/-!
# Indexes

An `Index` finds the positions of the records which satisfy `Filters`. The index that scans is for every input and
compares each record; the others are for some properties of one input and look them up in `Tables`, one for each
property: an exact index finds records by equal keys, the others by keys which contain a text, with or without regard
to case.

`Index.positions` looks up several filters at once and yields the positions that all of them have in common.
-/

namespace RecordServer

/-- Expected values of properties, each property once. -/
abbrev Filters := Fields

/-- What has been indexed, by property. -/
inductive Tables where
  | exact (tables : List (String × Postings))
  | substring (ignoreCase : Bool) (tables : List (String × Trie))
  | substringFile (ignoreCase : Bool) (properties : List String) (file : SuffixFile)

/-- The indexed properties of an input. -/
structure Coverage where
  input : String
  properties : List String
  tables : Tables

/-- An index; one without a coverage scans. -/
structure Index where
  name : String
  coverage : Option Coverage

/-! ## Keys -/

/-- A key as it is compared. -/
def foldKey (ignoreCase : Bool) (key : String) : String := if ignoreCase then Text.lowerCase key else key

/-- The keys of a property in some records, each with the position of its record. -/
def keysOf (ignoreCase : Bool) (records : List (Position × Record)) (property : String) : List (String × Position) :=
  records.flatMap fun r =>
    ((r.2.property? property).elim [] Value.keys).map fun key => (foldKey ignoreCase key, r.1)

/-! ## Looking up -/

/-- Whether a record satisfies all filters. -/
def Filters.accept (filters : Filters) (r : Record) : Bool :=
  filters.all fun filter => (r.property? filter.1).any fun value => value.satisfies filter.2

namespace Tables

/-- The positions of the records whose property has an expected value, in ascending order; `none` if there cannot be
any. -/
def positions? (t : Tables) (property : String) (expected : Value) : Except Fault (Option (List Position)) :=
  match expected.key? with
  | none => .ok none
  | some key =>
    match t with
    | exact tables => .ok ((tables.lookup property).bind fun postings => postings.positions? key)
    | substring ignoreCase tables =>
      .ok ((tables.lookup property).map fun trie => Leaf.ascending (trie.within (foldKey ignoreCase key)))
    | substringFile ignoreCase properties file =>
      match (properties.zip file.regions).lookup property with
      | none => .ok none
      | some region => (fun found => some (Leaf.ascending found)) <$> file.search region (foldKey ignoreCase key)

/-- The positions for each filter, up to the first which no record can satisfy. -/
def positionsOf (t : Tables) : Filters → Except Fault (Option (List (List Position)))
  | [] => .ok (some [])
  | (property, expected) :: rest => do
    match ← t.positions? property expected with
    | none => return none
    | some positions => return (← t.positionsOf rest).map (positions :: ·)

end Tables

/-- The positions which several ascending lists have in common. -/
def common : List (List Position) → List Position
  | [] => []
  | positions :: rest => positions.filter fun p => rest.all fun others => others.contains p

namespace Index

/-- The index that scans. -/
def scan (name : String) : Index := ⟨name, none⟩

/-- Whether an index is for an input. -/
def handlesInput (i : Index) (input : String) : Bool := i.coverage.all fun c => c.input == input

/-- Whether an index is for a property. -/
def handlesProperty (i : Index) (property : String) : Bool := i.coverage.all fun c => c.properties.contains property

/-- What forbids looking up filters for an input. -/
def verify (name : String) (c : Coverage) (input : Input) (filters : Filters) : Except Fault Unit :=
  if c.input ≠ input.name then .error (Cause.foreignIndex name input.name)
  else if filters.isEmpty then .error (Cause.filterRequired name)
  else match filters.names.find? fun property => !c.properties.contains property with
    | some property => .error (Cause.unindexedProperty name property)
    | none => .ok ()

/-- The positions of an input as they are found one by one. -/
def plain (fs : FileSystem) (input : Input) (guarded : Bool) : Except Fault Leaf := do
  let positions ← input.positions fs
  return .scan input.name guarded (positions.map fun p => p.map some)

/-- Reads all records of an input and yields the positions of those which satisfy the filters. -/
def compareAll (fs : FileSystem) (input : Input) (filters : Filters) (guarded : Bool) : Except Fault Leaf := do
  let records ← input.records fs
  return .scan input.name guarded (records.map fun loaded =>
    loaded.map fun r => if filters.accept r.2 then some r.1 else none)

/-- The positions of the records which satisfy all filters. Scanning is guarded by itself, since it may read many
records before it yields one. -/
def positions (fs : FileSystem) (i : Index) (input : Input) (filters : Filters) (guarded : Bool) : Except Fault Leaf :=
  match i.coverage with
  | none => if filters.isEmpty then plain fs input guarded else compareAll fs input filters guarded
  | some c => do
    verify i.name c input filters
    return .ofPositions (((← c.tables.positionsOf filters).map common).getD [])

end Index

end RecordServer
