import RecordServer.Value

/-!
# Values as JSON text

`print` writes a value as compact JSON text. In a string, quotes, backslashes and control characters are escaped
(`escape`), the five common control characters by a letter, everything else is written as it is.
-/

namespace RecordServer.Json

/-- A digit of a hexadecimal number in lower case. -/
def hexDigit (n : Nat) : Char := if n < 10 then Char.ofNat (48 + n) else Char.ofNat (87 + n)

/-- A character within a string. -/
def escape (c : Char) : List Char :=
  match c with
  | '"' => ['\\', '"']
  | '\\' => ['\\', '\\']
  | '\x08' => ['\\', 'b']
  | '\x0c' => ['\\', 'f']
  | '\n' => ['\\', 'n']
  | '\r' => ['\\', 'r']
  | '\t' => ['\\', 't']
  | c => if c.toNat < 0x20 then ['\\', 'u', '0', '0', hexDigit (c.toNat / 16), hexDigit (c.toNat % 16)] else [c]

/-- A string with its quotes. -/
def quote (text : String) : List Char := '"' :: text.toList.flatMap escape ++ ['"']

mutual

/-- The characters of a value. -/
def chars : Value → List Char
  | .null => "null".toList
  | .string text => quote text
  | .integer number => (Value.integerText number).toList
  | .float number => (Decimal.json number).toList
  | .boolean truth => (Value.booleanText truth).toList
  | .list items => '[' :: charsItems items ++ [']']
  | .map fields => '{' :: charsFields fields ++ ['}']

/-- The items of a list, separated by commas. -/
def charsItems : List Value → List Char
  | [] => []
  | [item] => chars item
  | item :: rest => chars item ++ ',' :: charsItems rest

/-- The fields of a map, separated by commas. -/
def charsFields : List (String × Value) → List Char
  | [] => []
  | [(name, value)] => quote name ++ ':' :: chars value
  | (name, value) :: rest => quote name ++ ':' :: chars value ++ ',' :: charsFields rest

end

/-- The JSON text of a value. -/
def print (value : Value) : String := String.ofList (chars value)

end RecordServer.Json

namespace RecordServer

/-- The text of a value as it is shown: a string without quotes, lists and maps as JSON. -/
def Value.display (value : Value) : String := value.key?.getD (Json.print value)

/-- The JSON text of a record. -/
def Record.json (record : Record) : String := Json.print record.toValue

end RecordServer
