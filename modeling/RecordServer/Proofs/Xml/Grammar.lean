import Mathlib.Data.List.Infix
import RecordServer.Xml.Document

/-!
# The grammar of documents

Documents as they are written, byte for byte: `Content` is what may stand in an element or in a document, with every
blank and every quote, and `Content.bytes` writes it down. What is not well-formed cannot be built, since each part
carries the proof that its bytes are none that would end it.

A document as a tree is `Content.elements`, the elements with all that is within them. Texts count as they are written;
`Content.strip` is the content without the blanks around each of its texts.

Some well-formed documents are left out: those in a charset that does not extend ASCII, those with other references than
to the five special characters and to characters by their number, those with references to other than ASCII characters
in another charset than UTF-8, those with `>` in a processing instruction or with a bracket without its partner in a
document type, and those with one of the five special characters in a CDATA section. On the other hand there may be
several elements side by side in a document, and texts around them.
-/

namespace RecordServer.Xml

variable {charset : Text.Charset}

/-! ## Characters -/

/-- A reference, written between `&` and `;`: its name and the bytes of the character that it stands for. -/
structure Reference (charset : Text.Charset) where
  name : List UInt8
  stands : List UInt8
  entity : entity? name = some stands
  /-- Entities are replaced by UTF-8, which is the same in any charset for ASCII characters only. -/
  encoded : charset = .utf8 ∨ stands.all (· < 128) = true

/-- A part of a text: a byte or a reference. -/
inductive Piece (charset : Text.Charset) where
  | byte (b : UInt8)
  | reference (r : Reference charset)

namespace Piece

/-- The piece as it is written. -/
def bytes : Piece charset → List UInt8
  | byte b => [b]
  | reference r => 38 :: (r.name ++ [59])

/-- The bytes it stands for. -/
def stands : Piece charset → List UInt8
  | byte b => [b]
  | reference r => r.stands

/-- A blank that is no reference. -/
def isBlank : Piece charset → Bool
  | byte b => isSpace b
  | reference _ => false

/-- Neither `&` nor `<` as they are. -/
def isPlain : Piece charset → Bool
  | byte b => b ≠ 38 && b ≠ 60
  | reference _ => true

end Piece

/-- The text of an element or the value of an attribute. -/
structure Characters (charset : Text.Charset) where
  pieces : List (Piece charset)
  plain : ∀ p ∈ pieces, p.isPlain = true

namespace Characters

/-- The characters as they are written. -/
def bytes (t : Characters charset) : List UInt8 := t.pieces.flatMap Piece.bytes

/-- The text, with every reference replaced. -/
def value (t : Characters charset) : String := charset.decode (t.pieces.flatMap Piece.stands)

/-- Characters that are written without references. -/
def ofBytes (bytes : List UInt8) (h : bytes.all (fun b => b ≠ 38 && b ≠ 60) = true) : Characters charset where
  pieces := bytes.map .byte
  plain := List.forall_mem_map.2 (List.all_eq_true.1 h)

/-- No characters. -/
def empty : Characters charset := .ofBytes [] (by decide)

/-- The characters without the blanks around them. -/
def strip (t : Characters charset) : Characters charset where
  pieces := ((t.pieces.dropWhile Piece.isBlank).reverse.dropWhile Piece.isBlank).reverse
  plain p h := t.plain p <| (List.dropWhile_suffix _).subset <| List.mem_reverse.1 <|
    (List.dropWhile_suffix _).subset <| List.mem_reverse.1 h

end Characters

/-! ## Tags -/

/-- Blanks, or nothing. -/
structure Blanks where
  bytes : List UInt8
  blank : bytes.all isSpace = true

/-- The bytes which end a name or begin another kind of markup: blanks and `!`, `"`, `'`, `/`, `<`, `=`, `>`, `?`. -/
def isDelimiter (b : UInt8) : Bool := Reader.isTagSpace b || [33, 34, 39, 47, 60, 61, 62, 63].contains b

/-- The name of an element or of an attribute. -/
structure Name where
  bytes : List UInt8
  ne : bytes ≠ []
  plain : bytes.any isDelimiter = false

/-- An attribute, with the blanks in front of it and around its `=`. -/
structure Attribute (charset : Text.Charset) where
  before : Blanks
  name : Name
  beforeEq : Blanks
  behindEq : Blanks
  quote : UInt8
  value : Characters charset
  apart : before.bytes ≠ []
  isQuote : quote = 34 ∨ quote = 39
  quoted : quote ∉ value.bytes

namespace Attribute

/-- The attribute behind the blanks in front of it. -/
def body (a : Attribute charset) : List UInt8 :=
  a.name.bytes ++ (a.beforeEq.bytes ++ 61 :: (a.behindEq.bytes ++ a.quote :: (a.value.bytes ++ [a.quote])))

/-- The attribute as it is written. -/
def bytes (a : Attribute charset) : List UInt8 := a.before.bytes ++ a.body

/-- Its name and its value. -/
def decoded (a : Attribute charset) : String × String := (charset.decode a.name.bytes, a.value.value)

end Attribute

/-- What stands in a start tag. No two attributes have the same name. -/
structure Tag (charset : Text.Charset) where
  name : Name
  attributes : List (Attribute charset)
  behind : Blanks
  distinct : (attributes.map fun a => a.name.bytes).Nodup

namespace Tag

/-- What is written behind the name. -/
def raw (tag : Tag charset) : List UInt8 := tag.attributes.flatMap Attribute.bytes ++ tag.behind.bytes

/-- The tag as it is written, without its brackets. -/
def bytes (tag : Tag charset) : List UInt8 := tag.name.bytes ++ tag.raw

/-- The element with this tag and some text and children. -/
def element (tag : Tag charset) (text : String) (children : List Element) : Element :=
  .mk (charset.decode tag.name.bytes) (tag.attributes.map Attribute.decoded) text children

/-- The end tag as it is written, without its brackets. -/
def close (tag : Tag charset) (behind : Blanks) : List UInt8 := 47 :: (tag.name.bytes ++ behind.bytes)

end Tag

/-! ## Other markup -/

/-- Markup that has no part in the tree. -/
inductive Aside where
  | comment (bytes : List UInt8) (plain : ¬[45, 45] <:+: bytes)
  /-- A processing instruction, which does not begin as a declaration does. -/
  | instruction (bytes : List UInt8) (ne : bytes ≠ []) (closed : 62 ∉ bytes)
    (target : ¬(bytes.take 3 = [120, 109, 108] ∧ (bytes.drop 3).head?.any isSpace = true))
  /-- The document type: what stands behind `DOCTYPE`, where every `>` is that of a `<` in front of it. -/
  | doctype (bytes : List UInt8) (balanced : bytes.count 60 = bytes.count 62)
    (nested : ∀ front ∈ bytes.inits, front.count 62 ≤ front.count 60)

/-- A processing instruction or a declaration as it is written, without its brackets, given what is in it. -/
def instructionBytes (bytes : List UInt8) : List UInt8 := 63 :: (bytes ++ [63])

/-- The markup as it is written, without its brackets. -/
def Aside.bytes : Aside → List UInt8
  | comment bytes _ => 33 :: 45 :: 45 :: (bytes ++ [45, 45])
  | instruction bytes _ _ _ => instructionBytes bytes
  | doctype bytes _ _ => 33 :: 68 :: 79 :: 67 :: 84 :: 89 :: 80 :: 69 :: bytes

/-- A CDATA section as it is written, without its brackets, given what is in it. -/
def sectionBytes (bytes : List UInt8) : List UInt8 :=
  33 :: 91 :: 67 :: 68 :: 65 :: 84 :: 65 :: 91 :: (bytes ++ [93, 93])

/-- The characters that can be written as references by name. -/
def isSpecial (b : UInt8) : Bool := [60, 62, 38, 39, 34].contains b

/-! ## Content -/

/-- What may stand in an element, split behind each markup: every other part is a text, which may be empty. -/
inductive Content (charset : Text.Charset) where
  | last (text : Characters charset)
  /-- An element, with the blanks in its end tag. -/
  | element (before : Characters charset) (tag : Tag charset) (inner : Content charset) (behind : Blanks)
    (rest : Content charset)
  /-- An element that is written without an end tag. -/
  | empty (before : Characters charset) (tag : Tag charset) (rest : Content charset)
  /-- A CDATA section. -/
  | verbatim (before : Characters charset) (bytes : List UInt8) (plain : bytes.any isSpecial = false)
    (rest : Content charset)
  | aside (before : Characters charset) (markup : Aside) (rest : Content charset)

namespace Content

/-- The content as it is written. -/
def bytes : Content charset → List UInt8
  | last text => text.bytes
  | element before tag inner behind rest =>
    before.bytes ++ 60 :: (tag.bytes ++ 62 :: (inner.bytes ++ 60 :: (tag.close behind ++ 62 :: rest.bytes)))
  | empty before tag rest => before.bytes ++ 60 :: (tag.bytes ++ 47 :: 62 :: rest.bytes)
  | verbatim before bytes _ rest => before.bytes ++ 60 :: (sectionBytes bytes ++ 62 :: rest.bytes)
  | aside before markup rest => before.bytes ++ 60 :: (markup.bytes ++ 62 :: rest.bytes)

/-- The texts that stand directly in the content, one behind the other. -/
def text : Content charset → String
  | last text => text.value
  | element before _ _ _ rest => before.value ++ rest.text
  | empty before _ rest => before.value ++ rest.text
  | verbatim before bytes _ rest => before.value ++ (charset.decode bytes ++ rest.text)
  | aside before _ rest => before.value ++ rest.text

/-- The elements that stand directly in the content, with all that is within them. -/
def elements : Content charset → List Element
  | last _ => []
  | element _ tag inner _ rest => tag.element inner.text inner.elements :: rest.elements
  | empty _ tag rest => tag.element "" [] :: rest.elements
  | verbatim _ _ _ rest => rest.elements
  | aside _ _ rest => rest.elements

/-- The content without the blanks around its texts. -/
def strip : Content charset → Content charset
  | last text => last text.strip
  | element before tag inner behind rest => element before.strip tag inner.strip behind rest.strip
  | empty before tag rest => empty before.strip tag rest.strip
  | verbatim before bytes plain rest => verbatim before.strip bytes plain rest.strip
  | aside before markup rest => aside before.strip markup rest.strip

end Content

/-! ## Documents -/

/-- The value of the attribute that names the encoding. -/
def Tag.encoding? (tag : Tag charset) : Option (List UInt8) :=
  (tag.attributes.find? fun a => a.name.bytes = [101, 110, 99, 111, 100, 105, 110, 103]).map fun a => a.value.bytes

/-- The charset that a tag declares, UTF-8 if there is no word of one; `none` if it is unknown. -/
def Tag.declares? (tag : Tag charset) : Option Text.Charset :=
  match tag.encoding? with
  | some label => (Text.Utf8.decode? label).bind Text.Charset.ofLabel?
  | none => some .utf8

/-- The declaration at the beginning of a document, with or without a byte order mark. -/
structure Declaration (charset : Text.Charset) where
  marked : Bool
  tag : Tag charset
  named : tag.name.bytes = [120, 109, 108]
  versioned : tag.attributes ≠ []
  closed : 62 ∉ tag.bytes
  declares : tag.declares? = some charset

/-- What stands in front of the declaration: a byte order mark or nothing. -/
def Declaration.before (d : Declaration charset) : Characters charset :=
  if d.marked then .ofBytes [0xEF, 0xBB, 0xBF] (by decide) else .empty

/-- The declaration as it is written. -/
def Declaration.bytes (d : Declaration charset) : List UInt8 :=
  d.before.bytes ++ 60 :: (instructionBytes d.tag.bytes ++ [62])

/-- A document in a charset. It may have several elements side by side. -/
structure Document (charset : Text.Charset) where
  declaration : Option (Declaration charset)
  content : Content charset
  undeclared : declaration = none → charset = .utf8
  ascii : charset ≠ .utf16le ∧ charset ≠ .utf16be

/-- The document as it is written. -/
def Document.bytes (d : Document charset) : List UInt8 :=
  (match d.declaration with
    | some declaration => declaration.bytes
    | none => []) ++ d.content.bytes

end RecordServer.Xml
