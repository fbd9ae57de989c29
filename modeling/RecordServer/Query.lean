import RecordServer.Index.Basic

/-!
# Queries

A `Query` collects filters, grouped by index. It is executed by looking up each group in its index and joining what
they find; a query without filters yields all records.
-/

namespace RecordServer

/-- Filters grouped by the indexes which look them up. -/
structure Query where
  groups : List (Index × Filters)

namespace Query

/-- A query for all records. -/
def all : Query := ⟨[]⟩

/-- Adds a filter to the group of its index. Of several filters of one property in a group the last one stays, at the
end. -/
def addTo (index : Index) (property : String) (expected : Value) : List (Index × Filters) → List (Index × Filters)
  | [] => [(index, [(property, expected)])]
  | group :: rest =>
    if group.1.name = index.name then (group.1, group.2.setLast property expected) :: rest
    else group :: addTo index property expected rest

/-- Adds a filter. -/
def filter (q : Query) (index : Index) (property : String) (expected : Value) : Query :=
  ⟨addTo index property expected q.groups⟩

/-- The leaves for the groups of a query. -/
def leaves (fs : FileSystem) (q : Query) (input : Input) (guarded : Bool) : Except Fault (List Leaf) :=
  q.groups.mapM fun group => group.1.positions fs input group.2 guarded

/-- The positions of all records of an input which satisfy the filters, each pull being guarded if there is a check. -/
def execute (fs : FileSystem) (q : Query) (input : Input) (guarded : Bool) : Except Fault Feed := do
  if q.groups.isEmpty then
    return .ofStrand (.single (← Index.plain fs input false)) guarded
  else
    return .ofStrand (.ofLeaves (← q.leaves fs input guarded)) guarded

end Query

end RecordServer
