import RecordServer.Text.Utf8

/-!
# Suffixes

A key is found by every text within it through its suffixes: a text is within a key if one of the suffixes begins with
it. Suffixes begin with a whole character and are compared as bytes.
-/

namespace RecordServer

/-- The suffixes of a text without the empty one, the longest first. -/
def suffixes : List Char → List (List Char)
  | [] => []
  | c :: rest => (c :: rest) :: suffixes rest

/-- The suffixes of a key as bytes. -/
def keySuffixes (key : String) : List (List UInt8) :=
  (suffixes key.toList).map fun suffix => suffix.flatMap Text.Utf8.encodeChar

end RecordServer
