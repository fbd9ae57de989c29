import RecordServer.Parser.Basic

/-!
# The configuration

What the server is told to do: where the files are (`Source`), how they are read (`Input`), which indexes there are,
what is delivered at which endpoint (`Output`), with which related records (`Relationship`), and who may listen
(`Service`). All references are by name and are resolved later.
-/

namespace RecordServer

namespace Config

/-! ## Sources and inputs -/

/-- A directory of files. -/
structure Source where
  path : String

/-- The file of a source: an absolute one by itself, every other one within the directory. -/
def Source.resolve (s : Source) (file : String) : String :=
  if file.startsWith "/" then file
  else if s.path.isEmpty || s.path.endsWith "/" then s.path ++ file
  else s.path ++ "/" ++ file

/-- A column of a table, with a parser or with the values or the separator of one of its own. -/
structure Column where
  name : String
  parser : String
  booleans : Option (List String × List String)
  separator : Option Char

/-- The layout of a table. -/
structure Table where
  ignoreFirstRow : Bool
  delimiter : UInt8
  columns : List Column

/-- How a property is taken from an element. -/
inductive Selection where
  | primitive (path parser : String)
  | array (path : String) (items : Selection)
  | object (path : String) (properties : List (String × Selection))
  deriving Inhabited

/-- The path of a selection. -/
def Selection.path : Selection → String
  | primitive path _ => path
  | array path _ => path
  | object path _ => path

/-- The layout of the files of an input. -/
inductive Layout where
  | csv (table : Table)
  | json
  | xml (path : String) (properties : List (String × Selection))

/-- A file of records. -/
structure Input where
  source : String
  file : String
  /-- Whether the server ends once the file changes. -/
  fatalChange : Bool
  layout : Layout

/-! ## Indexes -/

/-- An index over properties of an input. -/
inductive Index where
  | scan
  | exact (input : String) (properties : List String)
  | substring (input : String) (properties : List String) (ignoreCase : Bool)
  | substringFile (input : String) (properties : List String) (ignoreCase : Bool) (path : String)

/-- The name of the index which needs no declaration. -/
def defaultIndex : String := "default"

namespace Index

/-- The input which is indexed; the index that scans is for every input. -/
def input? : Index → Option String
  | scan => none
  | exact input _ => some input
  | substring input _ _ => some input
  | substringFile input _ _ _ => some input

/-- The indexed properties. -/
def properties : Index → List String
  | scan => []
  | exact _ properties => properties
  | substring _ properties _ => properties
  | substringFile _ properties _ _ => properties

end Index

/-! ## Outputs -/

/-- How many records are delivered. -/
structure Limit where
  default : Nat
  max : Nat
  parameter : String

/-- A parameter which filters a property by an index. -/
structure Parameter where
  name : String
  property : String
  index : String
  parser : String

/-- A property by which related records are sorted. -/
structure SortKey where
  property : String
  ascending : Bool

/-- The property of a related record has to equal the property of the record to which it belongs. -/
structure Match where
  parentProperty : String
  childProperty : String
  childIndex : String

/-- Records of another input which are attached to a record. -/
inductive Relationship where
  | mk (name input : String) (isArray : Bool) (limit : Nat) (sort : List SortKey) (conditions : List Match)
      (relationships : List Relationship)
  deriving Inhabited

namespace Relationship

/-- The name of the property that is attached. -/
def name : Relationship → String
  | mk name _ _ _ _ _ _ => name

/-- The input of the related records. -/
def input : Relationship → String
  | mk _ input _ _ _ _ _ => input

/-- Whether all related records are attached, or only one. -/
def isArray : Relationship → Bool
  | mk _ _ isArray _ _ _ _ => isArray

/-- The greatest number of related records; 0 stands for all. -/
def limit : Relationship → Nat
  | mk _ _ _ limit _ _ _ => limit

/-- The sort keys, the most important one first. -/
def sort : Relationship → List SortKey
  | mk _ _ _ _ sort _ _ => sort

/-- The conditions for related records. -/
def conditions : Relationship → List Match
  | mk _ _ _ _ _ conditions _ => conditions

/-- The relationships of the related records. -/
def relationships : Relationship → List Relationship
  | mk _ _ _ _ _ _ relationships => relationships

end Relationship

/-- The greatest number of relationships within each other. -/
def maxDepth : Nat := 8

/-- What is delivered: a list of records, or one record found by the values in its path. -/
inductive Delivery where
  | list (limit : Limit) (offsetParameter : String)
  | single

/-- An endpoint and what it delivers. -/
structure Output where
  endpoint : String
  input : String
  delivery : Delivery
  parameters : List Parameter
  relationships : List Relationship

/-! ## Services -/

/-- The files that are needed to encrypt connections. -/
structure Encryption where
  certificate : String
  privateKey : String

/-- A server, for all outputs or for some. -/
structure Service where
  listen : String
  encryption : Option Encryption
  outputs : Option (List String)

end Config

/-- All sections of a configuration; the components come with their names, in order. -/
structure Config where
  sources : List (String × Config.Source)
  parsers : List Parser
  inputs : List (String × Config.Input)
  indexes : List (String × Config.Index)
  outputs : List (String × Config.Output)
  services : List (String × Config.Service)

/-- A configuration without any components. -/
def Config.empty : Config := ⟨[], [], [], [], [], []⟩

end RecordServer
