import RecordServer.Input.Pages

/-!
# Rows of a table

A row is a list of fields between delimiters, up to a line feed, a carriage return or the end. A field may stand in
quotes, in which a quote is written twice; what follows the closing quote belongs to the field as well. Line ends in
front of a row are skipped, so that there are no empty rows, and the second character of a line end of two counts as
one of those.

The position of a row is where reading it began, that is behind the line end of the row before.
-/

namespace RecordServer.Csv

/-- The fields of a row as bytes. -/
abbrev Row := List (List UInt8)

/-- A line feed or a carriage return. -/
def isLineEnd (b : UInt8) : Bool := b = 10 || b = 13

/-- The quote around fields. -/
def quote : UInt8 := 34

/-- Where reading a field has come to. -/
inductive Phase where
  /-- At its first byte. -/
  | start
  | unquoted
  | quoted
  /-- Behind a quote within quotes. -/
  | closing
  deriving DecidableEq, Repr

/-- Reads fields up to the end of the row and counts the bytes on the way. The bytes of the field and the fields
before it come last first. -/
def readFields (delimiter : UInt8) : Phase → List UInt8 → Row → Nat → List UInt8 → Row × Nat
  | _, field, fields, count, [] => ((field.reverse :: fields).reverse, count)
  | phase, field, fields, count, b :: rest =>
    if phase = .quoted then
      if b = quote then readFields delimiter .closing field fields (count + 1) rest
      else readFields delimiter .quoted (b :: field) fields (count + 1) rest
    else if phase = .start ∧ b = quote then readFields delimiter .quoted field fields (count + 1) rest
    else if phase = .closing ∧ b = quote then readFields delimiter .quoted (b :: field) fields (count + 1) rest
    else if b = delimiter then readFields delimiter .start [] (field.reverse :: fields) (count + 1) rest
    else if isLineEnd b then ((field.reverse :: fields).reverse, count + 1)
    else readFields delimiter .unquoted (b :: field) fields (count + 1) rest

/-- The next row and the number of bytes which reading it takes; `none` if there is none. -/
def row? (delimiter : UInt8) (bytes : List UInt8) : Option (Row × Nat) :=
  match bytes.dropWhile isLineEnd with
  | [] => none
  | rest => some (readFields delimiter .start [] [] (bytes.takeWhile isLineEnd).length rest)

/-- The mark with which a text in UTF-8 may begin. -/
def byteOrderMark : List UInt8 := [0xEF, 0xBB, 0xBF]

/-- The next row, where a mark at the beginning is passed over. -/
def markedRow? (delimiter : UInt8) (bytes : List UInt8) : Option (Row × Nat) :=
  if byteOrderMark.isPrefixOf bytes then
    (row? delimiter (bytes.drop byteOrderMark.length)).map fun r => (r.1, byteOrderMark.length + r.2)
  else row? delimiter bytes

/-- The rows behind a position, each with its own. -/
def rowsFrom (delimiter : UInt8) : Nat → Position → List UInt8 → List (Position × Row)
  | 0, _, _ => []
  | n + 1, position, bytes =>
    match row? delimiter bytes with
    | none => []
    | some (row, count) => (position, row) :: rowsFrom delimiter n (position + count) (bytes.drop count)

/-- The rows of a table. -/
def rows (delimiter : UInt8) (bytes : List UInt8) : List (Position × Row) :=
  match markedRow? delimiter bytes with
  | none => []
  | some (row, count) => (0, row) :: rowsFrom delimiter bytes.length count (bytes.drop count)

/-- What a reader that jumps between rows is in front of: nothing yet, or the position behind the row it has read
last. -/
abbrev Head := Option Position

/-- The row at a position and the head behind it. A reader that jumps passes over a mark; one that is already there
does not. With its first jump it reads the first row. -/
def rowAt (delimiter : UInt8) (pages : Pages) (head : Head) (position : Position) : Option Row × Head :=
  let here := match head with
    | some p => p
    | none => match markedRow? delimiter (pages.after 0) with
      | some (_, count) => count
      | none => pages.size
  let rest := pages.after position
  match if here = position then row? delimiter rest else markedRow? delimiter rest with
  | some (row, count) => (some row, some (position + count))
  | none => (none, some (max position pages.size))

end RecordServer.Csv
