import RecordServer.Catalog
import RecordServer.Session
import RecordServer.Sorting.Trial

/-!
# Relations

A `Relation` attaches to a record the records of another input that belong to it: those which satisfy its rules,
sorted and limited, each with its own related records. `Relation.resolve` finds them within a session; `resolveAll`
attaches the values of several relations one after the other.
-/

namespace RecordServer

/-- A property of a related record has to equal one of the record to which it belongs. -/
structure Rule where
  parentProperty : String
  childProperty : String
  index : Index

/-- A way to find related records. -/
inductive Relation where
  | mk (name : String) (input : Input) (isArray : Bool) (limit : Nat) (sort : List Config.SortKey) (rules : List Rule)
      (relations : List Relation)

namespace Relation

/-- The name of the property that is attached. -/
def name : Relation → String
  | mk name _ _ _ _ _ _ => name

/-! ## From the configuration -/

/-- The rules for some conditions, the first of them with the given index. -/
def compileRules (c : Catalog) (parent child : Input) (place : String) :
    Nat → List Config.Match → Except Fault (List Rule)
  | _, [] => return []
  | n, condition :: rest => do
    let here := place ++ ".match[" ++ toString n ++ "]"
    if !parent.hasProperty condition.parentProperty then
      .error (Fault.located (here ++ ".parentProperty") (.unknownProperty parent.name condition.parentProperty))
    else
      let index ← c.filterIndex condition.childIndex child condition.childProperty (here ++ ".childIndex")
      return ⟨condition.parentProperty, condition.childProperty, index⟩ ::
        (← compileRules c parent child place (n + 1) rest)

/-- Accepts sort keys, the first of them with the given index. -/
def checkSort (child : Input) (place : String) : Nat → List Config.SortKey → Except Fault Unit
  | _, [] => return
  | n, key :: rest =>
    if child.hasProperty key.property then checkSort child place (n + 1) rest
    else
      let here := place ++ ".sort[" ++ toString n ++ "].property"
      .error (Fault.located here (.unknownProperty child.name key.property))

mutual

/-- The relation for a relationship of a parent, at a place of the configuration. -/
def compile (c : Catalog) (parent : Input) (place : String) : Config.Relationship → Except Fault Relation
  | .mk name input isArray limit sort conditions relationships => do
    let here := place ++ "." ++ name
    let child ← c.input input (here ++ ".input")
    let rules ← compileRules c parent child here 0 conditions
    checkSort child here 0 sort
    let relations ← compileAll c child (here ++ ".relationships") relationships
    return .mk name child isArray limit sort rules relations

/-- The relations for several relationships of a parent. -/
def compileAll (c : Catalog) (parent : Input) (place : String) :
    List Config.Relationship → Except Fault (List Relation)
  | [] => return []
  | relationship :: rest => do
    let relation ← compile c parent place relationship
    return relation :: (← compileAll c parent place rest)

end

/-! ## Sorting -/

/-- The order of two records by sort keys; a missing property counts as null. -/
def order : List Config.SortKey → Record → Record → Except Fault Ordering
  | [], _, _ => .ok .eq
  | key :: keys, a, b =>
    let x := (a.property? key.property).getD .null
    let y := (b.property? key.property).getD .null
    match x.order? y with
    | none => .error (Cause.incomparable x.kind y.kind)
    | some .eq => order keys a b
    | some ordering => .ok (if key.ascending then ordering else ordering.swap)

/-- Inserts a record into sorted ones, the greatest first, behind those which are not greater. -/
def insert (keys : List Config.SortKey) (r : Record) : List Record → Except Fault (List Record)
  | [] => .ok [r]
  | last :: before => do
    match ← order keys r last with
    | .lt => return last :: (← insert keys r before)
    | _ => return r :: last :: before

/-- The records in the order of the sort keys; equal ones stay as they are. If some cannot be compared, it is a trial
that finds the fault. -/
def sorted (keys : List Config.SortKey) (records : List Record) : Except Fault (List Record) :=
  if keys.isEmpty then .ok records
  else match records.foldlM (fun greatestFirst r => insert keys r greatestFirst) [] with
    | .ok greatestFirst => .ok greatestFirst.reverse
    | .error fault => .error ((Sorting.fault? (order keys) records).getD fault)

/-! ## Resolving -/

/-- The query for the records which belong to a parent. -/
def queryFor (relation : String) (parent : Record) : Query → List Rule → Except Fault Query
  | q, [] => .ok q
  | q, rule :: rest =>
    match parent.property? rule.parentProperty with
    | none => .error (Cause.missingParentProperty relation rule.parentProperty)
    | some value => queryFor relation parent (q.filter rule.index rule.childProperty value) rest

/-- How many records are enough: without sorting, no more than are attached. -/
def wanted (isArray : Bool) (limit : Nat) (sort : List Config.SortKey) : Option Nat :=
  if !sort.isEmpty then none
  else if !isArray then some 1
  else if limit = 0 then none
  else some limit

/-- Loads the records at the positions of a feed until there are enough, with at most `pulls` pulls. -/
def gather (input : Input) : Nat → Option Nat → Feed → Session.Run (List Record)
  | 0, _, _ => return []
  | pulls + 1, wanted, feed => do
    match ← Session.pull feed with
    | (none, _) => return []
    | (some position, feed) =>
      let record ← Session.load input (← Session.lift position)
      if wanted = some 1 then return [record]
      else return record :: (← gather input pulls (wanted.map (· - 1)) feed)

/-- The records which are attached of those which have been found. -/
def cut (isArray : Bool) (limit : Nat) (records : List Record) : List Record :=
  if !isArray then records.take 1 else if limit = 0 then records else records.take limit

/-- The value of a relation: a list, or a single record or null. -/
def valueOf (isArray : Bool) (records : List Record) : Value :=
  if isArray then .list (records.map Record.toValue) else (records.head?.map Record.toValue).getD .null

/-- The related records of a parent, sorted and cut, without their own related records. -/
def children (name : String) (input : Input) (isArray : Bool) (limit : Nat) (sort : List Config.SortKey)
    (rules : List Rule) (parent : Record) : Session.Run (List Record) := do
  let query ← Session.lift (queryFor name parent .all rules)
  let feed ← Session.execute query input
  let found ← gather input feed.bound (wanted isArray limit sort) feed
  return cut isArray limit (← Session.lift (sorted sort found))

mutual

/-- The value which a relation attaches to a record. -/
def resolve : Relation → Record → Session.Run Value
  | mk name input isArray limit sort rules relations, parent => do
    let found ← children name input isArray limit sort rules parent
    return valueOf isArray (← found.mapM (resolveAll relations))

/-- The record with the values of several relations. -/
def resolveAll : List Relation → Record → Session.Run Record
  | [], r => return r
  | relation :: rest, r => do
    let value ← resolve relation r
    resolveAll rest (r.set relation.name value)

end

end Relation

end RecordServer
