/-!
# Places in a document

A `Place` is what is left of a document together with the number of characters before it, its line and its column.
Names, tags and directives are read from a place; the text of scalars is the matter of another module.
-/

namespace RecordServer.Yaml

/-- Whether a character ends a line. -/
def isBreak (c : Char) : Bool := c = '\n' || c = '\r'

/-- Whether a character is a space or a tab. -/
def isBlank (c : Char) : Bool := c = ' ' || c = '\t'

/-- Whether a character separates tokens; the end of the text is given as NUL. -/
def isBlankOrEnd (c : Char) : Bool := isBlank c || isBreak c || c = '\x00'

/-- Whether a character is an indicator within flow collections. -/
def isFlow (c : Char) : Bool := c = ',' || c = '[' || c = ']' || c = '\x7b' || c = '\x7d'

/-- Whether a character may stand in a name. -/
def isNameChar (c : Char) : Bool := c.isAlphanum || c = '_' || c = '-'

/-- What is left of a document, and where that is. -/
structure Place where
  rest : List Char
  index : Nat
  line : Nat
  column : Nat

namespace Place

/-- The place behind some characters. Only a line feed begins a line. -/
def skip : Nat → Place → Place
  | 0, p => p
  | n + 1, p =>
    match p.rest with
    | [] => p
    | c :: rest =>
      if c = '\n' then skip n ⟨rest, p.index + 1, p.line + 1, 0⟩
      else skip n ⟨rest, p.index + 1, p.line, p.column + 1⟩

/-- The place behind the end of a line. -/
def skipBreak (p : Place) : Place :=
  match p.rest with
  | '\r' :: '\n' :: _ => p.skip 2
  | c :: _ => if isBreak c then p.skip 1 else p
  | [] => p

/-- The place behind characters of a kind. -/
def skipWhile (p : Place) (kind : Char → Bool) : Place := p.skip (p.rest.takeWhile kind).length

/-- The place at the end of a comment, and the same place if there is none. -/
def skipComment (p : Place) : Place :=
  match p.rest with
  | '#' :: _ => p.skipWhile fun c => !isBreak c
  | _ => p

/-- The next character; NUL at the end. -/
def head (p : Place) : Char := p.rest.headD '\x00'

/-- Whether three marks begin the line. -/
def isMark (p : Place) (mark : Char) : Bool :=
  p.column = 0 && p.rest.take 3 == [mark, mark, mark] && isBlankOrEnd ((p.rest.drop 3).headD '\x00')

/-! ## Names -/

/-- A name of at least one character, and the place behind it. -/
def name? (p : Place) : Option (String × Place) :=
  let name := p.rest.takeWhile isNameChar
  let behind := p.skip name.length
  let c := behind.head
  if name ≠ [] ∧ (isBlankOrEnd c ∨ "?:,]\x7d%@".toList.contains c ∨ c.toNat = 0x60) then
    some (String.ofList name, behind)
  else none

/-! ## Tags -/

/-- The value of a hexadecimal digit. -/
def hexValue? (c : Char) : Option Nat :=
  if c.isDigit then some (c.toNat - '0'.toNat)
  else if 'a' ≤ c ∧ c ≤ 'f' then some (c.toNat - 'a'.toNat + 10)
  else if 'A' ≤ c ∧ c ≤ 'F' then some (c.toNat - 'A'.toNat + 10)
  else none

/-- Whether a character may stand in the suffix of a tag. -/
def isTagChar (c : Char) : Bool := isNameChar c || ";/?:@&=+$,.!~*'()[]".toList.contains c

/-- The octets of the escapes at the beginning. -/
def escapedOctets : List Char → List Nat
  | '%' :: a :: b :: rest =>
    match hexValue? a, hexValue? b with
    | some x, some y => (x * 16 + y) :: escapedOctets rest
    | _, _ => []
  | _ => []

/-- The character of escaped octets and their number: one octet below 128, or two which are joined to a number of 16
bits. Longer sequences have no character. -/
def octetsChar? : List Nat → Option (Char × Nat)
  | a :: rest =>
    if a < 0x80 then some (Char.ofNat a, 1)
    else match rest with
      | b :: _ =>
        let n := a * 256 + b
        if 0xc0 ≤ a ∧ a < 0xe0 ∧ 0x80 ≤ b ∧ b < 0xc0 ∧ n.isValidChar then some (Char.ofNat n, 2) else none
      | [] => none
  | [] => none

/-- Characters of a tag, some of which may be escaped, behind those which have been read, the last first. At most as
many as the first argument says are left. -/
def tagChars? : Nat → List Char → Place → Option (List Char × Place)
  | 0, read, p => some (read.reverse, p)
  | n + 1, read, p =>
    match p.rest with
    | '%' :: rest =>
      match octetsChar? (escapedOctets ('%' :: rest)) with
      | some (c, octets) => tagChars? n (c :: read) (p.skip (3 * octets))
      | none => none
    | c :: _ => if isTagChar c then tagChars? n (c :: read) (p.skip 1) else some (read.reverse, p)
    | [] => some (read.reverse, p)

/-- The suffix of a tag of at most `n` characters, behind characters which have been read as its handle. -/
def suffix? (p : Place) (n : Nat) (read : List Char) : Option (List Char × Place) := do
  let (cs, behind) ← tagChars? n [] p
  if read = [] ∧ behind.index = p.index then none else some (read.drop 1 ++ cs, behind)

/-- The handle of a tag: an exclamation mark, a name, and perhaps another mark. -/
def handle? (p : Place) : Option (List Char × Place) :=
  match p.rest with
  | '!' :: rest =>
    let name := rest.takeWhile isNameChar
    let behind := p.skip (name.length + 1)
    if behind.head = '!' then some ('!' :: name ++ ['!'], behind.skip 1) else some ('!' :: name, behind)
  | _ => none

/-- A tag, as its handle and suffix, where at most `n` characters are left. -/
def tag? (p : Place) (n : Nat) : Option ((String × String) × Place) := do
  let (handle, suffix, behind) ← match p.rest with
    | '!' :: '<' :: _ => do
      let (suffix, behind) ← (p.skip 2).suffix? n []
      if behind.head = '>' then some ([], suffix, behind.skip 1) else none
    | _ => do
      let (handle, behind) ← p.handle?
      if 2 ≤ handle.length ∧ handle.getLast? = some '!' then
        let (suffix, behind) ← behind.suffix? n []
        some (handle, suffix, behind)
      else
        let (suffix, behind) ← behind.suffix? n handle
        if suffix = [] then some ([], ['!'], behind) else some (['!'], suffix, behind)
  if isBlankOrEnd behind.head then some ((String.ofList handle, String.ofList suffix), behind) else none

/-! ## Directives -/

/-- A number of at most nine digits. -/
def version? (p : Place) : Option Place :=
  let digits := p.rest.takeWhile Char.isDigit
  if digits.length = 0 ∨ 9 < digits.length then none else some (p.skip digits.length)

/-- The place behind the values of a directive with a name, where at most `n` characters are left. -/
def directiveValues? (n : Nat) (name : String) (p : Place) : Option Place :=
  match name with
  | "YAML" => do
    let p ← (p.skipWhile isBlank).version?
    if p.head = '.' then (p.skip 1).version? else none
  | "TAG" => do
    let (handle, p) ← (p.skipWhile isBlank).handle?
    if handle = ['!'] ∨ handle.getLast? = some '!' then
      let (_, p) ← (p.skipWhile isBlank).suffix? n []
      if isBlankOrEnd p.head then some p else none
    else none
  | _ => some (p.skipWhile fun c => !isBreak c)

/-- The place behind the line of a directive, where at most `n` characters are left. -/
def directive? (p : Place) (n : Nat) : Option Place := do
  let p := p.skip 1
  let name := p.rest.takeWhile isNameChar
  let p := p.skip name.length
  if name = [] ∨ ¬isBlankOrEnd p.head then none
  else
    let p ← directiveValues? n (String.ofList name) p
    let p := (p.skipWhile isBlank).skipComment
    if isBreak p.head ∨ p.rest = [] then some p.skipBreak else none

end Place

end RecordServer.Yaml
