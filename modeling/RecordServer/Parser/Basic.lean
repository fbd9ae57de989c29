import RecordServer.Fault
import RecordServer.Json.Reader
import RecordServer.Parser.Shape
import RecordServer.Regexp.Matching
import RecordServer.Text.Charset
import RecordServer.Text.Split

/-!
# Parsers

A `Parser` turns the text of a cell, an attribute or a parameter into a value. `Format` says how; a split format
refers by name to the parser of its pieces, so that `Format.parse` takes the parsers it may refer to.

A primitive format also tells what the texts look like which it is meant for, as a pattern (`Format.pattern`) and as a
shape (`Format.shape`). Endpoints use it to tell paths apart.
-/

namespace RecordServer

/-- What stands between the pieces of a value. -/
inductive Separator where
  | text (text : String)
  | regexp (source : String) (machine : Regexp.Machine)

/-- The pieces of a text between the separators. -/
def Separator.split : Separator → List Char → List (List Char)
  | text separator, cs => Text.splitOn separator.toList cs
  | regexp _ machine, cs => machine.split cs

/-- How texts are turned into values. -/
inductive Format where
  /-- A text, where bytes may be given in a charset. -/
  | string (charset : Option Text.Charset)
  /-- An integer, without the ignored characters. -/
  | integer (ignored : String)
  /-- A number, without the ignored characters and with a separator in place of the point. -/
  | float (ignored : String) (separator : Char)
  /-- Texts for true and for false. -/
  | boolean (trueValues falseValues : List String)
  | json
  /-- Pieces which are given to another parser. -/
  | split (separator : Separator) (inner : String)

/-- A format under its name. -/
structure Parser where
  name : String
  format : Format

namespace Format

/-- Whether values of this format can be used to filter. -/
def isPrimitive : Format → Bool
  | json => false
  | split _ _ => false
  | _ => true

/-- The name of the parser of the pieces. -/
def inner? : Format → Option String
  | split _ inner => some inner
  | _ => none

/-! ## Parsing -/

/-- The smallest and the greatest integer are those of 64 bits with a sign. -/
def ofInteger? (n : Int) : Option Int64 :=
  if -9223372036854775808 ≤ n ∧ n ≤ 9223372036854775807 then some (Int64.ofInt n) else none

/-- The characters that are not ignored. -/
def clean (ignored : String) (cs : List Char) : List Char := cs.filter fun c => !ignored.toList.contains c

/-- The integer of a text; nothing if no character is left of it. -/
def parseInteger (ignored : String) (cs : List Char) : Except Fault Value :=
  let cleaned := clean ignored cs
  if cleaned = [] then .ok .null
  else match (Decimal.integer? cleaned).bind ofInteger? with
    | some n => .ok (.integer n)
    | none => .error (Cause.notInteger (String.ofList cs))

/-- The finite number of a text; nothing if no character is left of it. -/
def parseFloat (ignored : String) (separator : Char) (cs : List Char) : Except Fault Value :=
  let cleaned := (clean ignored cs).map fun c => if c = separator then '.' else c
  if cleaned = [] then .ok .null
  else match (Decimal.ofText? cleaned).filter Float.isFinite with
    | some x => .ok (.float x)
    | none => .error (Cause.notFloat (String.ofList cs))

/-- The truth value of a text; nothing for an empty text which is none of the values. -/
def parseBoolean (trueValues falseValues : List String) (text : String) : Except Fault Value :=
  if trueValues.contains text then .ok (.boolean true)
  else if falseValues.contains text then .ok (.boolean false)
  else if text.isEmpty then .ok .null
  else .error (Cause.notBoolean text (trueValues ++ falseValues))

/-- The value of a JSON text; nothing for a blank text. -/
def parseJson (cs : List Char) : Except Fault Value :=
  if cs.all Text.isBlank then .ok .null
  else match Json.ofChars? cs with
    | some v => .ok v
    | none => .error ((Fault.external .json).within .parsingJson)

/-- The value of a text, where `find` gives the parsers that may be referred to and `depth` bounds the number of
references. A parser whose registry is gone cannot find the parser of its pieces. -/
def parse (registry : Option (String → Option Parser)) : Nat → Parser → List Char → Except Fault Value
  | _, ⟨_, string _⟩, cs => .ok (.string (String.ofList cs))
  | _, ⟨_, integer ignored⟩, cs => parseInteger ignored cs
  | _, ⟨_, float ignored separator⟩, cs => parseFloat ignored separator cs
  | _, ⟨_, boolean trueValues falseValues⟩, cs => parseBoolean trueValues falseValues (String.ofList cs)
  | _, ⟨_, json⟩, cs => parseJson cs
  | depth, ⟨name, split separator inner⟩, cs =>
    if cs = [] then .ok (.list [])
    else match registry, depth with
      | none, _ => .error Cause.parsersGone
      | some _, 0 => .error Cause.parserCycle
      | some find, depth + 1 =>
        match find inner with
        | none => .error (Cause.unknownInner name inner)
        | some p => .list <$> (separator.split cs).mapM (parse registry depth p)

/-- The text of bytes as the format expects them: in its charset, or else in UTF-8. -/
def decode : Format → List UInt8 → Except Fault String
  | string (some charset), bytes =>
    match charset.decode? bytes with
    | some text => .ok text
    | none => .error (Cause.notInCharset charset.name)
  | _, bytes =>
    match Text.Utf8.decode? bytes with
    | some text => .ok text
    | none => .error ((Fault.external .utf8).within .decodingUtf8)

/-! ## Shapes -/

/-- The characters which have a meaning of their own in a pattern. -/
def isMeta (c : Char) : Bool := "\\.+*?()|[]\x7b\x7d^$#&-~".toList.contains c

/-- A text such that it stands for itself in a pattern. -/
def escape (text : String) : String :=
  String.ofList (text.toList.flatMap fun c => if isMeta c then ['\\', c] else [c])

/-- The pattern for the texts of a primitive format. -/
def pattern : Format → String
  | string _ => "[^/]+"
  | integer ignored => "[-+]?[0-9" ++ escape ignored ++ "]+"
  | float ignored separator =>
    let digits := "[0-9" ++ escape ignored ++ "]"
    "[-+]?" ++ digits ++ "+(?:" ++ escape (String.ofList [separator]) ++ digits ++ "*)?"
  | boolean trueValues falseValues =>
    "(?:" ++ String.intercalate "|" ((trueValues ++ falseValues).map escape) ++ ")"
  | json => ""
  | split _ _ => ""

/-- Whether a character is a sign. -/
def isSign (c : Char) : Bool := c = '-' || c = '+'

/-- Whether a character is a digit or an ignored one. -/
def isDigitOr (ignored : String) (c : Char) : Bool := c.isDigit || ignored.toList.contains c

/-- What the texts of a primitive format look like. -/
def shape : Format → Shape
  | string _ => .many (· != '/')
  | integer ignored => .seq (.optional (.char isSign)) (.many (isDigitOr ignored))
  | float ignored separator =>
    .seq (.optional (.char isSign)) (.seq (.many (isDigitOr ignored))
      (.optional (.seq (.char (· == separator)) (.optional (.many (isDigitOr ignored))))))
  | boolean trueValues falseValues => .choice ((trueValues ++ falseValues).map fun value => .literal value.toList)
  | json => .empty
  | split _ _ => .empty

end Format

end RecordServer
