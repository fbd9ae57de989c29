import RecordServer.Config.Inputs

/-!
# Reading indexes, outputs and services

The rules of a list output are checked before those of its endpoint: a limit within its maximum, different names for
the parameters of limit and offset, and other names for all further parameters. An output of a single record declares
one parameter for each wildcard in its endpoint.
-/

namespace RecordServer.Config

/-! ## Indexes -/

/-- Reads the indexed properties. -/
def readIndexed (s : Setting) : Except Fault (List String) := do
  match ← s.textList "properties" with
  | some (property :: rest) => return property :: rest
  | _ => (s.child "properties").problem .noProperties

/-- Reads an index. The file of an index must not be a directory. -/
def Index.read (isDirectory : String → Bool) (s : Setting) : Except Fault Index := do
  match ← s.typeName with
  | "noop" =>
    s.ensureKeys ["type"]
    return .scan
  | "map" =>
    s.ensureKeys ["type", "input", "properties"]
    return .exact (← s.requiredText "input") (← readIndexed s)
  | "partial" =>
    s.ensureKeys ["type", "input", "properties", "ignoreCase"]
    return .substring (← s.requiredText "input") (← readIndexed s) (← s.booleanOr "ignoreCase" false)
  | "wildcard" =>
    s.ensureKeys ["type", "input", "properties", "ignoreCase", "path"]
    let path ← s.requiredText "path"
    if isDirectory path then (s.child "path").problem (.isDirectory path)
    else return .substringFile (← s.requiredText "input") (← readIndexed s) (← s.booleanOr "ignoreCase" false) path
  | other => s.unknownType other ["map", "partial", "wildcard", "noop"]

/-! ## Relationships -/

/-- Reads a sort key. -/
def SortKey.read (s : Setting) : Except Fault SortKey := do
  s.ensureKeys ["property", "ascending"]
  return ⟨← s.requiredText "property", ← s.booleanOr "ascending" true⟩

/-- Reads conditions up to the first on a property which already has one. -/
def readMatches : List Match → List Setting → Except Fault (List Match)
  | read, [] => .ok read.reverse
  | read, s :: rest => do
    s.ensureKeys ["parentProperty", "childProperty", "childIndex"]
    let m : Match := ⟨← s.requiredText "parentProperty", ← s.requiredText "childProperty",
      ← s.textOr "childIndex" defaultIndex⟩
    if read.any fun other => other.childProperty == m.childProperty then
      (s.child "childProperty").problem (.repeatedMatch m.childProperty)
    else readMatches (m :: read) rest

/-- Reads relationships below which at most `depth` others may lie, themselves included. -/
def readRelationships : Nat → Setting → Except Fault (List Relationship)
  | depth, s => do
    let entries ← s.entries
    match depth with
    | 0 => if entries.isEmpty then return [] else s.problem (.tooDeep maxDepth)
    | depth + 1 => entries.mapM fun (name, s) => do
      s.ensureKeys ["input", "isArray", "limit", "sort", "match", "relationships"]
      let isArray ← s.booleanOr "isArray" false
      let limit ← s.naturalOr "limit" 0
      if 0 < limit && !isArray then (s.child "limit").problem .limitWithoutArray
      else
        let sort ← (← (s.child "sort").items).mapM SortKey.read
        if !sort.isEmpty && !isArray then (s.child "sort").problem .sortWithoutArray
        else
          let conditions ← readMatches [] (← (s.child "match").items)
          let input ← s.requiredText "input"
          return .mk name input isArray limit sort conditions (← readRelationships depth (s.child "relationships"))

/-! ## Outputs -/

/-- Reads an endpoint. -/
def readEndpoint (s : Setting) : Except Fault String := do
  let endpoint ← s.requiredText "endpoint"
  if endpoint.startsWith "/" then return endpoint else (s.child "endpoint").problem .endpointNotAbsolute

/-- Reads what a parameter filters; the property is named like the parameter unless another is given. -/
def Parameter.read (s : Setting) (name : String) : Except Fault Parameter := do
  return ⟨name, ← s.textOr "property" name, ← s.textOr "index" defaultIndex, ← s.textOr "parser" "string"⟩

/-- Reads a parameter that stands for a wildcard, under its own name or that of its property. -/
def readNamedParameter (s : Setting) : Except Fault Parameter := do
  s.ensureKeys ["name", "property", "index", "parser"]
  match ← s.optionalText "name" with
  | some name => Parameter.read s name
  | none => Parameter.read s (← s.requiredText "property")

/-- Reads the limit of a list. -/
def Limit.read (s : Setting) : Except Fault Limit := do
  s.ensureKeys ["default", "max", "parameter"]
  let limit : Limit := ⟨← s.naturalOr "default" 100, ← s.naturalOr "max" 1000, ← s.textOr "parameter" "limit"⟩
  if limit.default = 0 || limit.max < limit.default then s.problem (.invalidLimit limit.default limit.max)
  else return limit

/-- Reads the parameter for the offset of a list. -/
def readOffset (s : Setting) (limit : Limit) : Except Fault String := do
  s.ensureKeys ["parameter"]
  let parameter ← s.textOr "parameter" "offset"
  if parameter = limit.parameter then (s.child "parameter").problem .sameParameters else return parameter

/-- Reads an output which delivers a list. -/
def readListOutput (s : Setting) : Except Fault Output := do
  let limit ← Limit.read (s.child "limit")
  let offset ← readOffset (s.child "offset") limit
  let parameters ← (← (s.child "parameters").entries).mapM fun (name, p) => do
    if name = limit.parameter || name = offset then p.problem (.reservedParameter name)
    else
      p.ensureKeys ["property", "index", "parser"]
      Parameter.read p name
  let endpoint ← readEndpoint s
  let input ← s.requiredText "input"
  return ⟨endpoint, input, .list limit offset, parameters, ← readRelationships maxDepth (s.child "relationships")⟩

/-- Reads parameters up to the first whose name has been used before. -/
def readParameters (output : Setting) : List Parameter → List Setting → Except Fault (List Parameter)
  | read, [] => .ok read.reverse
  | read, s :: rest => do
    let parameter ← readNamedParameter s
    if read.any fun other => other.name == parameter.name then
      (output.child "parameters").problem (.repeatedParameter parameter.name)
    else readParameters output (parameter :: read) rest

/-- The number of wildcards in an endpoint. -/
def wildcards (endpoint : String) : Nat := endpoint.toList.count '?'

/-- Reads an output which delivers a single record. -/
def readSingleOutput (s : Setting) : Except Fault Output := do
  let endpoint ← readEndpoint s
  if wildcards endpoint = 0 then (s.child "endpoint").problem .noWildcard
  else
    let parameters ← readParameters s [] (← (s.child "parameters").items)
    if parameters.length ≠ wildcards endpoint then
      (s.child "parameters").problem (.wildcardCount (wildcards endpoint) parameters.length)
    else
      let input ← s.requiredText "input"
      return ⟨endpoint, input, .single, parameters, ← readRelationships maxDepth (s.child "relationships")⟩

/-- Reads an output. -/
def Output.read (s : Setting) : Except Fault Output := do
  match ← s.typeName with
  | "jsonArray" =>
    s.ensureKeys ["type", "endpoint", "input", "limit", "offset", "parameters", "relationships"]
    readListOutput s
  | "jsonObject" =>
    s.ensureKeys ["type", "endpoint", "input", "parameters", "relationships"]
    readSingleOutput s
  | "graphql" => (s.child "type").problem .graphql
  | other => s.unknownType other ["jsonArray", "jsonObject", "graphql"]

/-! ## Services -/

/-- Reads the files for encryption, of which both or none are given. -/
def Encryption.read (s : Setting) : Except Fault (Option Encryption) := do
  let certificate ← s.optionalText "certificate"
  let privateKey ← s.optionalText "privateKey"
  match certificate, privateKey with
  | some certificate, some privateKey => return some ⟨certificate, privateKey⟩
  | none, none => return none
  | _, _ => s.problem .halfEncrypted

/-- Reads a service. -/
def Service.read (s : Setting) : Except Fault Service := do
  match ← s.typeName with
  | "http" =>
    s.ensureKeys ["type", "listen", "certificate", "privateKey", "outputs"]
    let encryption ← Encryption.read s
    return ⟨← s.textOr "listen" "127.0.0.1:0", encryption, ← s.textList "outputs"⟩
  | other => s.unknownType other ["http"]

end RecordServer.Config
