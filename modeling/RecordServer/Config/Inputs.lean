import RecordServer.Config.Basic
import RecordServer.Config.Setting

/-!
# Reading sources, parsers and inputs

Each function reads one component from its setting and refuses what is not supported.
-/

namespace RecordServer.Config

/-! ## Sources -/

/-- Reads a source. -/
def Source.read (s : Setting) : Except Fault Source := do
  match ← s.typeName with
  | "filesystem" =>
    s.ensureKeys ["type", "path"]
    return ⟨← s.requiredText "path"⟩
  | other => s.unknownType other ["filesystem"]

/-! ## Parsers -/

/-- Reads the texts for true and for false. -/
def readBooleans (s : Setting) : Except Fault (List String × List String) := do
  let trueValues := (← s.textList "trueValues").getD []
  let falseValues := (← s.textList "falseValues").getD []
  if trueValues.isEmpty then (s.child "trueValues").problem .noValues
  else if falseValues.isEmpty then (s.child "falseValues").problem .noValues
  else return (trueValues, falseValues)

/-- Reads the charset of a string parser. -/
def readCharset (s : Setting) : Except Fault (Option Text.Charset) := do
  match ← s.optionalText "convertFromCharset" with
  | none => return none
  | some label =>
    match Text.Charset.ofLabel? label with
    | some charset => return some charset
    | none => (s.child "convertFromCharset").problem (.unknownCharset label)

/-- Reads the separator of a split parser. -/
def readSeparator (s : Setting) : Except Fault Separator := do
  let separator ← s.optionalText "separator"
  let regexp ← s.optionalText "regexp"
  match separator, regexp with
  | some text, none => if text.isEmpty then s.problem .noSeparator else return .text text
  | none, some source =>
    match Regexp.Machine.compile? source with
    | some machine => return .regexp source machine
    | none => (s.child "regexp").problem .invalidRegexp
  | _, _ => s.problem .noSeparator

/-- Reads the format of a parser. -/
def readFormat (s : Setting) : Except Fault Format := do
  match ← s.typeName with
  | "string" =>
    s.ensureKeys ["type", "convertFromCharset"]
    return .string (← readCharset s)
  | "integer" =>
    s.ensureKeys ["type", "ignoreCharacters"]
    return .integer (← s.textOr "ignoreCharacters" "")
  | "float" =>
    s.ensureKeys ["type", "ignoreCharacters", "decimalSeparator"]
    return .float (← s.textOr "ignoreCharacters" "") (← s.characterOr "decimalSeparator" '.')
  | "boolean" =>
    s.ensureKeys ["type", "trueValues", "falseValues"]
    let (trueValues, falseValues) ← readBooleans s
    return .boolean trueValues falseValues
  | "json" =>
    s.ensureKeys ["type"]
    return .json
  | "split" =>
    s.ensureKeys ["type", "separator", "regexp", "parser"]
    return .split (← readSeparator s) (← s.textOr "parser" "string")
  | other => s.unknownType other ["string", "integer", "float", "boolean", "json", "split"]

/-! ## Tables -/

/-- Reads a column, which may be given by its name alone. -/
def Column.read (s : Setting) : Except Fault Column := do
  match s.node with
  | .string name => return ⟨name, "string", none, none⟩
  | _ =>
    s.ensureKeys ["name", "parser", "trueValues", "falseValues", "decimalSeparator"]
    let name ← s.requiredText "name"
    let hasBooleans := (s.child "trueValues").isPresent || (s.child "falseValues").isPresent
    let hasSeparator := (s.child "decimalSeparator").isPresent
    if (hasBooleans || hasSeparator) && (s.child "parser").isPresent then s.problem .ambiguousColumn
    else if hasBooleans && hasSeparator then s.problem .booleanAndFloat
    else if hasBooleans then return ⟨name, "", some (← readBooleans s), none⟩
    else if hasSeparator then return ⟨name, "", none, some (← s.characterOr "decimalSeparator" '.')⟩
    else return ⟨name, ← s.textOr "parser" "string", none, none⟩

/-- Reads columns up to the first whose name has been used before. -/
def readColumns (table : Setting) : List Column → List Setting → Except Fault (List Column)
  | read, [] => .ok read.reverse
  | read, s :: rest => do
    let column ← Column.read s
    if read.any fun other => other.name == column.name then
      (table.child "columns").problem (.repeatedColumn column.name)
    else readColumns table (column :: read) rest

/-- Reads the layout of a table. -/
def Table.read (s : Setting) : Except Fault Table := do
  let delimiter ← s.characterOr "delimiter" ','
  if 128 ≤ delimiter.toNat then (s.child "delimiter").problem .delimiterNotAscii
  else
    let columns ← readColumns s [] (← (s.child "columns").items)
    if columns.isEmpty then (s.child "columns").problem .noColumns
    else return ⟨← s.booleanOr "ignoreFirstRow" false, UInt8.ofNat delimiter.toNat, columns⟩

/-! ## Selections -/

mutual

/-- The number of nodes within each other. -/
def nodeDepth : Yaml.Node → Nat
  | .list items => listDepth items + 1
  | .map entries => mapDepth entries + 1
  | _ => 1

/-- The number of nodes within each other in a list. -/
def listDepth : List Yaml.Node → Nat
  | [] => 0
  | node :: rest => max (nodeDepth node) (listDepth rest)

/-- The number of nodes within each other in the values of a map. -/
def mapDepth : List (Yaml.Node × Yaml.Node) → Nat
  | [] => 0
  | (_, value) :: rest => max (nodeDepth value) (mapDepth rest)

end

/-- Reads a selection from a setting in which at most `depth` nodes lie within each other. A path may have a default. -/
def Selection.read : Nat → Option String → Setting → Except Fault Selection
  | 0, _, s => s.problem .expectedMap
  | depth + 1, defaultPath, s => do
    let type ← s.textOr "type" "primitive"
    let path ← match defaultPath with
      | some default => s.textOr "xpath" default
      | none => s.requiredText "xpath"
    match type with
    | "primitive" =>
      s.ensureKeys ["type", "xpath", "parser"]
      return .primitive path (← s.textOr "parser" "string")
    | "array" =>
      s.ensureKeys ["type", "xpath", "items"]
      let items := s.child "items"
      if items.isPresent then return .array path (← Selection.read depth (some ".") items)
      else return .array path (.primitive "." "string")
    | "object" =>
      s.ensureKeys ["type", "xpath", "properties"]
      let entries ← (s.child "properties").entries
      return .object path (← entries.mapM fun entry => do return (entry.1, ← Selection.read depth none entry.2))
    | other => s.unknownType other ["primitive", "array", "object"]

/-- Reads the properties of records. -/
def readProperties (s : Setting) : Except Fault (List (String × Selection)) := do
  let entries ← s.entries
  entries.mapM fun entry => do return (entry.1, ← Selection.read (nodeDepth entry.2.node + 1) none entry.2)

/-! ## Inputs -/

/-- Reads the layout of an input. -/
def Layout.read (s : Setting) : Except Fault Layout := do
  match ← s.typeName with
  | "csv" =>
    s.ensureKeys ["type", "source", "file", "dieOnInputChange", "ignoreFirstRow", "delimiter", "columns"]
    return .csv (← Table.read s)
  | "json" =>
    s.ensureKeys ["type", "source", "file", "dieOnInputChange"]
    return .json
  | "xml" =>
    s.ensureKeys ["type", "source", "file", "dieOnInputChange", "xpath", "properties"]
    return .xml (← s.requiredText "xpath") (← readProperties (s.child "properties"))
  | other => s.unknownType other ["csv", "json", "xml"]

/-- Reads an input. -/
def Input.read (s : Setting) : Except Fault Input := do
  let layout ← Layout.read s
  return ⟨← s.requiredText "source", ← s.requiredText "file", ← s.booleanOr "dieOnInputChange" true, layout⟩

end RecordServer.Config
