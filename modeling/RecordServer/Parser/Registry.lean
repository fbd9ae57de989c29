import RecordServer.Parser.Basic
import RecordServer.Parser.Slots

/-!
# Registries of parsers

`Parsers` are the built-in parsers and those which have been declared. `Parsers.ofDeclarations` accepts them if each
chain of split parsers, from one to the parser of its pieces and so on, ends in a parser of another kind. Then no
chain is longer than the number of parsers, which bounds the recursion of `Parsers.parse`. The chains are followed in
the order in which `Slots` list the names, and the first which is broken is reported.
-/

namespace RecordServer

/-- The parsers that can be referred to by their names. -/
structure Parsers where
  entries : List Parser

/-- The texts of truth values where none are declared. -/
def Format.defaultBoolean : Format := .boolean ["true"] ["false"]

namespace Parsers

/-- The parsers that need no declaration. -/
def builtIn : List Parser :=
  [⟨"string", .string none⟩, ⟨"integer", .integer ""⟩, ⟨"float", .float "" '.'⟩, ⟨"boolean", .defaultBoolean⟩,
    ⟨"json", .json⟩]

/-- The parser with a name; of several with one name the last. -/
def findIn (entries : List Parser) (name : String) : Option Parser := entries.findRev? fun p => p.name == name

/-- The parser with a name. -/
def find? (ps : Parsers) (name : String) : Option Parser := findIn ps.entries name

/-- The value of a text. -/
def parse (ps : Parsers) (p : Parser) (text : String) : Except Fault Value :=
  Format.parse (some ps.find?) (ps.entries.length + 1) p text.toList

/-- The value of a text as far as no other parser is needed for it. -/
def parseAlone (p : Parser) (text : String) : Except Fault Value := Format.parse none 0 p text.toList

/-- The value of the bytes of a text. -/
def parseBytes (ps : Parsers) (p : Parser) (bytes : List UInt8) : Except Fault Value :=
  p.format.decode bytes >>= ps.parse p

/-! ## Acceptance -/

/-- A boolean format has a text for each truth value. -/
def checkFormat (p : Parser) : Except Fault Unit :=
  match p.format with
  | .boolean trueValues falseValues =>
    if trueValues.isEmpty || falseValues.isEmpty then
      .error ((Cause.booleanWithoutValues : Fault).within (.place ("parsers." ++ p.name)))
    else .ok ()
  | _ => .ok ()

/-- Follows a chain of split parsers from the one visited last, first in the list; `next` is the parser of its pieces.
-/
def follow (find : String → Option Parser) : Nat → List String → Option String → Except Fault Unit
  | _, _, none => .ok ()
  | 0, _, some _ => .error Cause.parserCycle
  | n + 1, visited, some next =>
    if visited.contains next then .error Cause.parserCycle
    else match find next with
      | some p => follow find n (next :: visited) p.format.inner?
      | none => .error (Fault.located ("parsers." ++ visited.headD "" ++ ".parser") (.unknownParser next))

/-- Follows the chain of the parser with a name. -/
def checkChain (entries : List Parser) (name : String) : Except Fault Unit :=
  follow (findIn entries) (entries.length + 1) [name] ((findIn entries name).bind fun p => p.format.inner?)

/-- The built-in and the declared parsers, if all formats are complete and no chain is broken or comes back to itself.
-/
def ofDeclarations (declared : List Parser) : Except Fault Parsers := do
  let entries := builtIn ++ declared
  entries.forM checkFormat
  (Slots.ofNames (entries.map Parser.name)).names.forM (checkChain entries)
  return ⟨entries⟩

/-! ## References -/

/-- The parser to which a place of the configuration refers. -/
def require (ps : Parsers) (name path : String) : Except Fault Parser :=
  match ps.find? name with
  | some p => .ok p
  | none => .error (Fault.located path (.unknownParser name))

/-- The parser to which a place of the configuration refers, if it can be used to filter. -/
def requirePrimitive (ps : Parsers) (name path : String) : Except Fault Parser :=
  ps.require name path >>= fun p =>
    if p.format.isPrimitive then .ok p else .error (Fault.located path (.notPrimitive name))

end Parsers

end RecordServer
