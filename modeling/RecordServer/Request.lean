import RecordServer.Text.Split
import RecordServer.Text.Utf8

/-!
# Requests

A `Request` is a decoded path and the parameters of a query, each name once. `percentDecode` replaces `%` and two
hexadecimal digits by the byte they stand for and leaves all else alone; bytes that are no UTF-8 become U+FFFD.
-/

namespace RecordServer

/-- The value of a hexadecimal digit given as a byte. -/
def hexDigitValue? (b : UInt8) : Option UInt8 :=
  if 48 ≤ b ∧ b ≤ 57 then some (b - 48)
  else if 97 ≤ b ∧ b ≤ 102 then some (b - 87)
  else if 65 ≤ b ∧ b ≤ 70 then some (b - 55)
  else none

/-- The bytes with all escapes replaced. -/
def percentDecode : List UInt8 → List UInt8
  | [] => []
  | 37 :: a :: b :: rest =>
    match hexDigitValue? a, hexDigitValue? b with
    | some x, some y => (x * 16 + y) :: percentDecode rest
    | _, _ => 37 :: percentDecode (a :: b :: rest)
  | b :: rest => b :: percentDecode rest

/-- A decoded path and named parameters. -/
structure Request where
  path : String
  parameters : List (String × String)
  deriving DecidableEq, Repr, Inhabited

namespace Request

/-- A name or a value of a query, in which a plus sign stands for a space. -/
def decodePart (bytes : List UInt8) : String :=
  Text.Utf8.decodeLossy (percentDecode (bytes.map fun b => if b = 43 then 32 else b))

/-- A name and its value, separated by the first equals sign. -/
def decodePair (bytes : List UInt8) : String × String :=
  (decodePart (bytes.takeWhile (· ≠ 61)), decodePart ((bytes.dropWhile (· ≠ 61)).drop 1))

/-- Keeps of several pairs with one name the first. -/
def firstOfEach : List (String × String) → List (String × String) → List (String × String)
  | kept, [] => kept
  | kept, pair :: rest =>
    firstOfEach (if kept.any (·.1 == pair.1) then kept else kept ++ [pair]) rest

/-- The parameters of a query: pairs between ampersands, without the empty ones. -/
def parseQuery (query : String) : List (String × String) :=
  firstOfEach [] (((Text.pieces 38 (Text.Utf8.encode query)).filter (· ≠ [])).map decodePair)

/-- The request for a raw path and query. -/
def ofRaw (path : String) (query : Option String) : Request where
  path := Text.Utf8.decodeLossy (percentDecode (Text.Utf8.encode path))
  parameters := (query.map parseQuery).getD []

/-- The value of a parameter. -/
def parameter? (request : Request) (name : String) : Option String := request.parameters.lookup name

/-- Sets a parameter in the place of the one with its name. -/
def setIn (name value : String) : List (String × String) → List (String × String)
  | [] => [(name, value)]
  | pair :: rest => if pair.1 = name then (name, value) :: rest else pair :: setIn name value rest

/-- The request with one more parameter, or another value of a present one. -/
def withParameter (request : Request) (name value : String) : Request :=
  { request with parameters := setIn name value request.parameters }

end Request

end RecordServer
