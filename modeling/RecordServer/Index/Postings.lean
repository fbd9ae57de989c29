import RecordServer.Value

/-!
# Postings

`Postings` list for each key the positions of the records which have it. Records are added in the order of their
positions, so that a position which comes again is the one added last.
-/

namespace RecordServer

/-- Positions by key, the latest first. -/
structure Postings where
  entries : List (String × List Position)

namespace Postings

/-- Postings without keys. -/
def empty : Postings := ⟨[]⟩

/-- Positions, the latest first, with one more behind them unless it is there already. -/
def addPosition (position : Position) (latestFirst : List Position) : List Position :=
  if latestFirst.head? = some position then latestFirst else position :: latestFirst

/-- Adds a position to the entry of a key. -/
def addTo (key : String) (position : Position) : List (String × List Position) → List (String × List Position)
  | [] => [(key, [position])]
  | entry :: rest =>
    if entry.1 = key then (key, addPosition position entry.2) :: rest else entry :: addTo key position rest

/-- Adds a key of the record at a position. -/
def add (p : Postings) (key : String) (position : Position) : Postings := ⟨addTo key position p.entries⟩

/-- Postings of keys with positions. -/
def ofKeys (keys : List (String × Position)) : Postings := keys.foldl (fun p key => p.add key.1 key.2) empty

/-- The ascending positions of a key; `none` if no record has it. -/
def positions? (p : Postings) (key : String) : Option (List Position) := (p.entries.lookup key).map List.reverse

end Postings

end RecordServer
