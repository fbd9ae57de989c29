import RecordServer.Text.Blank
import RecordServer.Text.Utf8

/-!
# Charsets

The charsets in which a file may be written. `ofLabel?` finds a charset by one of its registered labels, `decode` turns
bytes into a text and puts U+FFFD wherever they are no text of the charset.
-/

namespace RecordServer.Text

/-- The supported charsets. -/
inductive Charset where
  | windows1252
  | utf8
  | iso8859_15
  | utf16le
  | utf16be
  deriving DecidableEq, Repr

namespace Charset

/-- The name by which a charset is reported. -/
def name : Charset → String
  | windows1252 => "windows-1252"
  | utf8 => "UTF-8"
  | iso8859_15 => "ISO-8859-15"
  | utf16le => "UTF-16LE"
  | utf16be => "UTF-16BE"

/-- The registered labels, in lower case. -/
def labels : Charset → List String
  | windows1252 =>
    ["ansi_x3.4-1968", "ascii", "cp1252", "cp819", "csisolatin1", "ibm819", "iso-8859-1", "iso-ir-100", "iso8859-1",
      "iso88591", "iso_8859-1", "iso_8859-1:1987", "l1", "latin1", "us-ascii", "windows-1252", "x-cp1252"]
  | utf8 => ["unicode-1-1-utf-8", "unicode11utf8", "unicode20utf8", "utf-8", "utf8", "x-unicode20utf8"]
  | iso8859_15 => ["csisolatin9", "iso-8859-15", "iso8859-15", "iso885915", "iso_8859-15", "l9"]
  | utf16le => ["csunicode", "iso-10646-ucs-2", "ucs-2", "unicode", "unicodefeff", "utf-16", "utf-16le"]
  | utf16be => ["unicodefffe", "utf-16be"]

/-- Labels are compared without the ASCII blanks around them and without regard to the case of ASCII letters. -/
def ofLabel? (label : String) : Option Charset :=
  let blank (c : Char) : Bool := c = ' ' || c = '\t' || c = '\n' || c = '\r' || c = '\x0c'
  let bare := ((label.toList.dropWhile blank).reverse.dropWhile blank).reverse
  let folded := String.ofList (bare.map Char.toLower)
  [windows1252, utf8, iso8859_15, utf16le, utf16be].find? fun charset => charset.labels.contains folded

/-- The characters of the bytes 80 to 9F of windows-1252. -/
def windowsPunctuation : List Nat :=
  [0x20AC, 0x81, 0x201A, 0x192, 0x201E, 0x2026, 0x2020, 0x2021, 0x2C6, 0x2030, 0x160, 0x2039, 0x152, 0x8D, 0x17D, 0x8F,
    0x90, 0x2018, 0x2019, 0x201C, 0x201D, 0x2022, 0x2013, 0x2014, 0x2DC, 0x2122, 0x161, 0x203A, 0x153, 0x9D, 0x17E,
    0x178]

/-- A byte of windows-1252. -/
def ofWindows (b : UInt8) : Char :=
  if 0x80 ≤ b && b < 0xA0 then Char.ofNat (windowsPunctuation.getD (b.toNat - 0x80) 0xFFFD) else Char.ofNat b.toNat

/-- A byte of ISO-8859-15, which differs from Latin 1 in eight places. -/
def ofLatin9 (b : UInt8) : Char :=
  match b with
  | 0xA4 => '€'
  | 0xA6 => 'Š'
  | 0xA8 => 'š'
  | 0xB4 => 'Ž'
  | 0xB8 => 'ž'
  | 0xBC => 'Œ'
  | 0xBD => 'œ'
  | 0xBE => 'Ÿ'
  | b => Char.ofNat b.toNat

/-- The 16 bit units of the bytes; a single byte at the end has no unit and gives `none`. -/
def units (bigEndian : Bool) : List UInt8 → List (Option Nat)
  | [] => []
  | [_] => [none]
  | a :: b :: rest =>
    some (if bigEndian then a.toNat * 256 + b.toNat else b.toNat * 256 + a.toNat) :: units bigEndian rest

/-- Characters from 16 bit units; a surrogate without its partner is ill-formed. -/
def ofUnits : List (Option Nat) → List (Option Char)
  | [] => []
  | none :: rest => none :: ofUnits rest
  | some u :: rest =>
    if u < 0xD800 || 0xDFFF < u then some (Char.ofNat u) :: ofUnits rest
    else if 0xDC00 ≤ u then none :: ofUnits rest
    else match rest with
      | some v :: rest' =>
        if 0xDC00 ≤ v && v ≤ 0xDFFF then
          some (Char.ofNat (0x10000 + (u - 0xD800) * 0x400 + (v - 0xDC00))) :: ofUnits rest'
        else none :: ofUnits (some v :: rest')
      | [none] => [none]
      | rest' => none :: ofUnits rest'
termination_by list => list.length

/-- The characters of the bytes in a charset, with `none` where they are ill-formed. -/
def pieces : Charset → List UInt8 → List (Option Char)
  | windows1252, bytes => bytes.map (some ∘ ofWindows)
  | utf8, bytes => Utf8.pieces bytes
  | iso8859_15, bytes => bytes.map (some ∘ ofLatin9)
  | utf16le, bytes => ofUnits (units false bytes)
  | utf16be, bytes => ofUnits (units true bytes)

/-- The text of the bytes with U+FFFD in place of what is ill-formed. -/
def decode (charset : Charset) (bytes : List UInt8) : String :=
  String.ofList ((charset.pieces bytes).map fun c => c.getD '\uFFFD')

/-- The text of well-formed bytes. -/
def decode? (charset : Charset) (bytes : List UInt8) : Option String :=
  if (charset.pieces bytes).all Option.isSome then some (charset.decode bytes) else none

end Charset

end RecordServer.Text
