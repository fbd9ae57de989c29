import RecordServer.Yaml.Scalar

/-!
# Tokens

A document as a row of `Token`s: scalars and properties of nodes, indicators, and the starts and ends of blocks, which
are told from the indentation. That something is a key only becomes clear at the colon behind it; a `Candidate`
remembers where the key and, if need be, its map would begin. `Token.scan?` gives all tokens of a text, or nothing if
it is malformed.
-/

namespace RecordServer.Yaml

/-- A part of a document as it is written. -/
inductive Token where
  | directive
  | documentStart
  | documentEnd
  | blockListStart
  | blockMapStart
  | blockEnd
  | flowListStart
  | flowListEnd
  | flowMapStart
  | flowMapEnd
  | blockEntry
  | flowEntry
  | key
  | value
  | alias (name : String)
  | anchor (name : String)
  | tag (handle suffix : String)
  | scalar (plain : Bool) (text : String)
  deriving DecidableEq, Repr

/-- What might become a key: the number of tokens in front of it and where that is. -/
structure Candidate where
  possible : Bool
  required : Bool
  number : Nat
  index : Nat
  line : Nat
  column : Nat

/-- There is no candidate. -/
def Candidate.none : Candidate := ⟨false, false, 0, 0, 0, 0⟩

/-- The tokens so far and all that decides about the next one. -/
structure Scanner where
  place : Place
  /-- The tokens, the last first. -/
  tokens : List Token
  count : Nat
  /-- Whether a key may begin here. -/
  keyAllowed : Bool
  /-- The candidates of the flow collections around, the innermost first, and of the block. -/
  candidates : List Candidate
  indent : Int
  indents : List Int
  flow : Nat
  /-- The place behind a quoted scalar, where a colon needs no blank. -/
  adjacent : Nat

namespace Scanner

/-- The beginning of a text. -/
def start (cs : List Char) : Scanner := ⟨⟨cs, 0, 0, 0⟩, [], 0, true, [Candidate.none], -1, [], 0, 0⟩

/-- Adds a token at the end. -/
def push (s : Scanner) (t : Token) : Scanner := { s with tokens := t :: s.tokens, count := s.count + 1 }

/-- Adds a token behind the first ones, of which the number is given. -/
def insert (s : Scanner) (number : Nat) (t : Token) : Scanner :=
  let behind := s.count - number
  { s with tokens := s.tokens.take behind ++ t :: s.tokens.drop behind, count := s.count + 1 }

/-- Adds a token for the next characters. -/
def take (s : Scanner) (count : Nat) (t : Token) : Scanner := { s with place := s.place.skip count }.push t

/-! ## Blocks -/

/-- Begins a block at a column right of the current one; its first token is the one with the given number, or the
next. -/
def openBlock (s : Scanner) (column : Nat) (number : Option Nat) (t : Token) : Scanner :=
  if s.flow = 0 ∧ s.indent < column then
    let s := { s with indents := s.indent :: s.indents, indent := column }
    match number with
    | some n => s.insert n t
    | none => s.push t
  else s

/-- Ends the blocks right of a column, where the columns of the blocks around the current one are given. -/
def closeTo (column : Int) (s : Scanner) : List Int → Scanner
  | [] => s
  | outer :: rest =>
    if column < s.indent then closeTo column ({ s with indent := outer, indents := rest }.push .blockEnd) rest else s

/-- Ends the blocks right of a column, outside of flow collections. -/
def closeBlocks (s : Scanner) (column : Int) : Scanner := if s.flow = 0 then closeTo column s s.indents else s

/-! ## Candidates -/

/-- Replaces the innermost candidate. -/
def setCandidate (s : Scanner) (c : Candidate) : Scanner := { s with candidates := c :: s.candidates.drop 1 }

/-- The innermost candidate. -/
def candidate (s : Scanner) : Candidate := s.candidates.headD Candidate.none

/-- Gives the innermost candidate up, unless it has to become a key. -/
def dropCandidate (s : Scanner) : Option Scanner :=
  let c := s.candidate
  if c.possible && c.required then none else some (s.setCandidate { c with possible := false })

/-- Takes the next token for a candidate, if a key may begin here. -/
def addCandidate (s : Scanner) : Option Scanner :=
  if s.keyAllowed then
    let p := s.place
    let required := 0 < s.flow && s.indent == p.column
    s.dropCandidate.map fun s => s.setCandidate ⟨true, required, s.count, p.index, p.line, p.column⟩
  else some s

/-- Gives up a candidate which is on another line or too far away. -/
def Candidate.age (p : Place) (c : Candidate) : Option Candidate :=
  if c.possible && (c.line < p.line || c.index + 1024 < p.index) then
    if c.required then none else some { c with possible := false }
  else some c

/-- Gives up candidates which can no longer become keys. -/
def age (s : Scanner) : Option Scanner :=
  (s.candidates.mapM (Candidate.age s.place)).map fun cs => { s with candidates := cs }

/-- Whether a key may begin at the next token. -/
def allowKey (s : Scanner) (allowed : Bool) : Scanner := { s with keyAllowed := allowed }

/-! ## Single tokens -/

/-- Skips blanks, line ends and comments in front of a token, where at most as many characters are left as the first
argument says. -/
def skipBlanks : Nat → Scanner → Scanner
  | 0, s => s
  | n + 1, s =>
    match s.place.rest with
    | ' ' :: _ => skipBlanks n { s with place := s.place.skip 1 }
    | '\t' :: _ =>
      if 0 < s.flow || !s.keyAllowed then skipBlanks n { s with place := s.place.skip 1 } else s
    | '#' :: _ => skipBlanks n { s with place := s.place.skipComment }
    | c :: _ =>
      if isBreak c then
        let s := { s with place := s.place.skipBreak }
        skipBlanks n (if s.flow = 0 then s.allowKey true else s)
      else s
    | [] => s

/-- The end of the text, on a new line. -/
def atEnd (s : Scanner) : Option Scanner := (s.closeBlocks (-1)).dropCandidate

/-- A directive or the mark between two documents. -/
def documentMark (s : Scanner) (t : Token) : Option Scanner :=
  (s.closeBlocks (-1)).dropCandidate.map fun s => (s.allowKey false).take 3 t

/-- A directive, where at most `n` characters are left. -/
def directive (s : Scanner) (n : Nat) : Option Scanner := do
  let s ← (s.closeBlocks (-1)).dropCandidate
  let place ← s.place.directive? n
  return ({ s with place := place }.allowKey false).push .directive

/-- The start of a flow collection. -/
def openFlow (s : Scanner) (t : Token) : Option Scanner := do
  let s ← s.addCandidate
  if s.flow = 255 then none
  else return ({ s with candidates := Candidate.none :: s.candidates, flow := s.flow + 1 }.allowKey true).take 1 t

/-- The end of a flow collection. -/
def closeFlow (s : Scanner) (t : Token) : Option Scanner := do
  let s ← s.dropCandidate
  let s := if 0 < s.flow then { s with candidates := s.candidates.drop 1, flow := s.flow - 1 } else s
  return (s.allowKey false).take 1 t

/-- A comma between the entries of a flow collection. -/
def flowEntry (s : Scanner) : Option Scanner := s.dropCandidate.map fun s => (s.allowKey true).take 1 .flowEntry

/-- A dash in front of an item of a block. -/
def blockEntry (s : Scanner) : Option Scanner :=
  if s.flow = 0 && s.keyAllowed then
    (s.openBlock s.place.column none .blockListStart).dropCandidate.map fun s => (s.allowKey true).take 1 .blockEntry
  else none

/-- A question mark in front of a key. -/
def explicitKey (s : Scanner) : Option Scanner :=
  if s.flow = 0 && !s.keyAllowed then none
  else
    (s.openBlock s.place.column none .blockMapStart).dropCandidate.map fun s =>
      (s.allowKey (s.flow = 0)).take 1 .key

/-- A colon in front of a value. The candidate in front of it becomes a key. -/
def value (s : Scanner) : Option Scanner :=
  let c := s.candidate
  if c.possible then
    let s := (s.insert c.number .key).openBlock c.column (some c.number) .blockMapStart
    some (((s.setCandidate { c with possible := false }).allowKey false).take 1 .value)
  else if s.flow = 0 && !s.keyAllowed then none
  else some (((s.openBlock s.place.column none .blockMapStart).allowKey (s.flow = 0)).take 1 .value)

/-- A token that may begin a key and is read from the place; `allowed` tells from what has been read whether a key may
follow. -/
def node (s : Scanner) (allowed : α → Bool) (token : α → Token) (read : Option (α × Place)) : Option Scanner := do
  let s ← s.addCandidate
  let (a, place) ← read
  return ({ s with place := place }.allowKey (allowed a)).push (token a)

/-- An alias or an anchor. -/
def name (s : Scanner) (token : String → Token) : Option Scanner :=
  s.node (fun _ => false) token (s.place.skip 1).name?

/-- A tag, where at most `n` characters are left. -/
def tag (s : Scanner) (n : Nat) : Option Scanner := s.node (fun _ => false) (fun t => .tag t.1 t.2) (s.place.tag? n)

/-- A block scalar, where at most `n` characters are left. -/
def blockScalar (s : Scanner) (n : Nat) (literal : Bool) : Option Scanner :=
  s.node (fun _ => true) (.scalar false) (s.place.blockScalar? n literal s.indent)

/-- A quoted scalar, where at most `n` characters are left. -/
def quoted (s : Scanner) (n : Nat) (single : Bool) : Option Scanner :=
  (s.node (fun _ => false) (.scalar false) (s.place.quoted? n single)).map fun s => { s with adjacent := s.place.index }

/-- A plain scalar, where at most `n` characters are left. -/
def plain (s : Scanner) (n : Nat) : Option Scanner :=
  s.node Prod.snd (fun t => .scalar true t.1) (s.place.plain? n (0 < s.flow) s.indent)

/-- Whether a colon stands in front of a value. -/
def isValue (s : Scanner) (next : Char) : Bool :=
  isBlankOrEnd next || (0 < s.flow && (isFlow next || s.place.index == s.adjacent))

/-- The next token, at its first character, where at most `n` characters are left. -/
def token (s : Scanner) (n : Nat) (c next : Char) : Option Scanner :=
  match c with
  | '[' => s.openFlow .flowListStart
  | '{' => s.openFlow .flowMapStart
  | ']' => s.closeFlow .flowListEnd
  | '}' => s.closeFlow .flowMapEnd
  | ',' => s.flowEntry
  | '*' => s.name .alias
  | '&' => s.name .anchor
  | '!' => s.tag n
  | '\'' => s.quoted n true
  | '"' => s.quoted n false
  | '-' => if isBlankOrEnd next then s.blockEntry else s.plain n
  | '?' => if isBlankOrEnd next then s.explicitKey else s.plain n
  | ':' => if s.isValue next then s.value else s.plain n
  | '|' => if s.flow = 0 then s.blockScalar n true else s.plain n
  | '>' => if s.flow = 0 then s.blockScalar n false else s.plain n
  | '%' => none
  | '@' => none
  | c => if c.toNat = 0x60 then none else s.plain n

/-- The next tokens up to the end of the text, where fewer characters are left than the first argument says. -/
def scan : Nat → Scanner → Option (List Token)
  | 0, _ => none
  | n + 1, s => do
    let s ← (skipBlanks n s).age
    let s := s.closeBlocks s.place.column
    match s.place.rest with
    | [] => return (← s.atEnd).tokens.reverse
    | c :: rest =>
      if s.place.column = 0 && c = '%' then scan n (← s.directive n)
      else if s.place.isMark '-' then scan n (← s.documentMark .documentStart)
      else if s.place.isMark '.' then scan n (← s.documentMark .documentEnd)
      else scan n (← s.token n c (rest.headD '\x00'))

end Scanner

/-- The tokens of a text, which ends at the first NUL character. -/
def Token.scan? (text : String) : Option (List Token) :=
  let cs := text.toList.takeWhile (· ≠ '\x00')
  (Scanner.start cs).scan (cs.length + 1)

end RecordServer.Yaml
