import RecordServer.Yaml.Place

/-!
# Scalars

The texts of scalars: plain ones (`Place.plain?`), which end at an indicator, quoted ones (`Place.quoted?`) and block
scalars (`Place.blockScalar?`). A single line end within a scalar is folded to a space, of several ones all but the
first remain.
-/

namespace RecordServer.Yaml

/-! ## Gaps -/

/-- Blanks and line ends between the words of a scalar. -/
structure Gap where
  /-- The blanks in front of the first line end, the last first. -/
  blanks : List Char
  /-- Whether there is a line end, be it escaped. -/
  broken : Bool
  /-- Whether the first line end is not escaped. -/
  folded : Bool
  /-- The number of line ends behind the first. -/
  breaks : Nat

namespace Gap

/-- Nothing at all, or only an escaped line end. -/
def none (broken : Bool) : Gap := ⟨[], broken, false, 0⟩

/-- The text of a gap, the last character first. -/
def text (g : Gap) : List Char :=
  if !g.broken then g.blanks
  else if g.folded && g.breaks = 0 then [' ']
  else List.replicate g.breaks '\n'

/-- Reads a gap up to the next word, where at most as many characters are left as the second argument says. Behind a
line end there must be no tab left of a column. -/
def read? (column : Int) : Nat → Gap → Place → Option (Gap × Place)
  | 0, g, p => some (g, p)
  | n + 1, g, p =>
    match p.rest with
    | [] => some (g, p)
    | c :: _ =>
      if isBlank c then
        if g.broken && c = '\t' && p.column < column then Option.none
        else read? column n (if g.broken then g else { g with blanks := c :: g.blanks }) (p.skip 1)
      else if isBreak c then
        read? column n (if g.broken then { g with breaks := g.breaks + 1 } else ⟨[], true, true, 0⟩) p.skipBreak
      else some (g, p)

end Gap

namespace Place

/-! ## Plain scalars -/

/-- The characters of a plain scalar up to a blank or an indicator. -/
def plainWord (flow : Bool) : List Char → List Char
  | [] => []
  | c :: rest =>
    let next := rest.headD '\x00'
    if isBlankOrEnd c || (c = ':' && (isBlankOrEnd next || (flow && isFlow next))) || (flow && isFlow c) then []
    else c :: plainWord flow rest

/-- The text of what has been read, the last character first. -/
def textOf (read : List Char) : String := String.ofList read.reverse

/-- Reads on in a plain scalar behind a gap, where the characters which have been read are given with the last first,
and at most as many are left as the third argument says. The result tells whether it ended behind a line end. -/
def plainFrom? (flow : Bool) (indent : Int) : Nat → List Char → Gap → Place → Option ((String × Bool) × Place)
  | 0, read, gap, p => some ((textOf read, gap.broken), p)
  | n + 1, read, gap, p =>
    if p.isMark '-' || p.isMark '.' || p.head = '#' then some ((textOf read, gap.broken), p)
    else
      let word := plainWord flow p.rest
      let behind := p.skip word.length
      let (read, gap) := if word = [] then (read, gap) else (word.reverse ++ (gap.text ++ read), Gap.none false)
      if isBlank behind.head || isBreak behind.head then
        match Gap.read? (indent + 1) (n + 1) gap behind with
        | none => none
        | some (gap, p) =>
          if !flow && p.column < indent + 1 then some ((textOf read, gap.broken), p)
          else plainFrom? flow indent n read gap p
      else some ((textOf read, gap.broken), behind)

/-- A plain scalar, whether it ended behind a line end, and the place behind it, where at most `n` characters are left.
-/
def plain? (p : Place) (n : Nat) (flow : Bool) (indent : Int) : Option ((String × Bool) × Place) :=
  plainFrom? flow indent n [] (Gap.none false) p

/-! ## Quoted scalars -/

/-- What a backslash and a character stand for: a character, or one given by some hexadecimal digits. -/
def escape? : Char → Option (Char ⊕ Nat)
  | '0' => some (.inl '\x00')
  | 'a' => some (.inl '\x07')
  | 'b' => some (.inl '\x08')
  | 't' => some (.inl '\t')
  | '\t' => some (.inl '\t')
  | 'n' => some (.inl '\n')
  | 'v' => some (.inl '\x0b')
  | 'f' => some (.inl '\x0c')
  | 'r' => some (.inl '\r')
  | 'e' => some (.inl '\x1b')
  | ' ' => some (.inl ' ')
  | '"' => some (.inl '"')
  | '\'' => some (.inl '\'')
  | '\\' => some (.inl '\\')
  | 'N' => some (.inl '\u0085')
  | '_' => some (.inl '\u00a0')
  | 'L' => some (.inl '\u2028')
  | 'P' => some (.inl '\u2029')
  | 'x' => some (.inr 2)
  | 'u' => some (.inr 4)
  | 'U' => some (.inr 8)
  | _ => none

/-- The character with a number given by hexadecimal digits. -/
def ofHex? (count : Nat) (cs : List Char) : Option Char := do
  let values ← (cs.take count).mapM hexValue?
  let n := values.foldl (fun n v => n * 16 + v) 0
  if values.length = count ∧ n.isValidChar then some (Char.ofNat n) else none

/-- Reads the characters of a quoted scalar up to a blank, a line end or the closing quote, in front of those which
have been read, the last first, and tells whether an escaped line end follows. At most as many are left as the second
argument says. -/
def quotedWord? (single : Bool) : Nat → List Char → Place → Option (List Char × Bool × Place)
  | 0, read, p => some (read, false, p)
  | n + 1, read, p =>
    match p.rest with
    | [] => some (read, false, p)
    | c :: rest =>
      if isBlank c || isBreak c then some (read, false, p)
      else if single then
        if c = '\'' then
          if rest.head? = some '\'' then quotedWord? single n ('\'' :: read) (p.skip 2)
          else some (read, false, p)
        else quotedWord? single n (c :: read) (p.skip 1)
      else if c = '"' then some (read, false, p)
      else if c = '\\' then
        match rest with
        | [] => none
        | e :: digits =>
          if isBreak e then some (read, true, (p.skip 1).skipBreak)
          else match escape? e with
            | none => none
            | some (.inl d) => quotedWord? single n (d :: read) (p.skip 2)
            | some (.inr count) =>
              match ofHex? count digits with
              | none => none
              | some d => quotedWord? single n (d :: read) (p.skip (2 + count))
      else quotedWord? single n (c :: read) (p.skip 1)

/-- Reads on in a quoted scalar behind what has been read, the last character first, where at most as many characters
are left as the second argument says. -/
def quotedFrom? (single : Bool) : Nat → List Char → Place → Option (String × Place)
  | 0, _, _ => none
  | n + 1, read, p =>
    if p.isMark '-' || p.isMark '.' || p.rest.isEmpty then none
    else
      match quotedWord? single (n + 1) read p with
      | none => none
      | some (read, escaped, p) =>
        if p.head = (if single then '\'' else '"') then some (textOf read, p.skip 1)
        else match Gap.read? (-1) (n + 1) (Gap.none escaped) p with
          | none => none
          | some (gap, p) => quotedFrom? single n (gap.text ++ read) p

/-- The text of a quoted scalar and the place behind it, where at most `n` characters are left. -/
def quoted? (p : Place) (n : Nat) (single : Bool) : Option (String × Place) := quotedFrom? single n [] (p.skip 1)

/-! ## Block scalars -/

/-- What becomes of the line ends at the end of a block scalar. -/
inductive Chomping where
  | strip
  | clip
  | keep
  deriving DecidableEq

/-- The chomping that a character announces. -/
def chomping? (c : Char) : Option Chomping := if c = '+' then some .keep else if c = '-' then some .strip else none

/-- The chomping and the indentation, which is 0 if it is not given, and the place behind them. -/
def blockHeader? (p : Place) : Option (Chomping × Nat × Place) :=
  let digit (p : Place) : Option (Nat × Place) :=
    if p.head.isDigit then
      if p.head = '0' then none else some (p.head.toNat - '0'.toNat, p.skip 1)
    else some (0, p)
  match chomping? p.head with
  | some chomping => (digit (p.skip 1)).map fun (n, p) => (chomping, n, p)
  | none =>
    (digit p).map fun (n, p) =>
      match if n = 0 then none else chomping? p.head with
      | some chomping => (chomping, n, p.skip 1)
      | none => (.clip, n, p)

/-- Skips spaces and line ends in front of a line, up to the indentation, where at most as many characters are left as
the second argument says. The greatest indentation so far is kept for the case that none is given, and the line ends
are counted. -/
def blockBreaks? (indent : Nat) : Nat → Nat → Nat → Place → Option (Nat × Nat × Place)
  | 0, greatest, breaks, p => some (greatest, breaks, p)
  | n + 1, greatest, breaks, p =>
    let spaces := (p.rest.takeWhile (· = ' ')).length
    let p := p.skip (if indent = 0 then spaces else min spaces (indent - p.column))
    let greatest := max greatest p.column
    if (indent = 0 || p.column < indent) && p.head = '\t' then none
    else if isBreak p.head then blockBreaks? indent n greatest (breaks + 1) p.skipBreak
    else some (greatest, breaks, p)

/-- The lines of a block scalar behind what has been read, the last character first, with a line end that has not been
written if `pending`, and the number of empty lines. At most as many characters are left as the third argument says. -/
def blockLines? (literal : Bool) (indent : Nat) :
    Nat → List Char → Bool → Bool → Nat → Place → Option (List Char × Bool × Nat × Place)
  | 0, read, pending, _, breaks, p => some (read, pending, breaks, p)
  | n + 1, read, pending, blank, breaks, p =>
    if p.column ≠ indent ∨ p.rest = [] then some (read, pending, breaks, p)
    else
      let here := isBlank p.head
      let join := if !literal && pending && !blank && !here then (if breaks = 0 then [' '] else [])
        else if pending then ['\n'] else []
      let line := p.rest.takeWhile fun c => !isBreak c
      let read := line.reverse ++ (List.replicate breaks '\n' ++ (join ++ read))
      let p := p.skip line.length
      if p.rest = [] then some (read, false, 0, p)
      else match blockBreaks? indent (n + 1) 0 0 p.skipBreak with
        | none => none
        | some (_, breaks, p) => blockLines? literal indent n read true here breaks p

/-- The text of a block scalar within a block at a column, and the place behind it, where at most `n` characters are
left. -/
def blockScalar? (p : Place) (n : Nat) (literal : Bool) (column : Int) : Option (String × Place) := do
  let (chomping, given, p) ← (p.skip 1).blockHeader?
  let p := (p.skipWhile isBlank).skipComment
  if ¬isBreak p.head ∧ p.rest ≠ [] then none
  else
    let p := p.skipBreak
    let indent := if given = 0 then 0 else (max column 0).toNat + given
    let (greatest, breaks, p) ← blockBreaks? indent (n + 1) 0 0 p
    let indent := if indent = 0 then max greatest (max (column + 1).toNat 1) else indent
    let (read, pending, breaks, p) ← blockLines? literal indent (n + 1) [] false false breaks p
    let tail := match chomping with
      | .strip => []
      | .clip => if pending then ['\n'] else []
      | .keep => (if pending then ['\n'] else []) ++ List.replicate breaks '\n'
    return (textOf (tail ++ read), p)

end Place

end RecordServer.Yaml
