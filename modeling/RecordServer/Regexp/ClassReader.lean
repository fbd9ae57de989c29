import RecordServer.Regexp.Escape

/-!
# Reading classes

`readClass?` reads what stands in brackets for a set of characters: characters, ranges, escapes, named classes, other
brackets, and the operations `&&`, `--` and `~~`, which bind to the left and weaker than writing side by side.

Everything that is read is counted with its depth, which has a limit.
-/

namespace RecordServer.Regexp

/-! ## Depth -/

/-- Something written, and how many constructs lie around its innermost part. -/
structure Nested (α : Type) where
  value : α
  depth : Nat

namespace Nested

/-- The greatest depth. -/
def limit : Nat := 250

/-- Something without parts. -/
def leaf (value : α) : Nested α := ⟨value, 0⟩

/-- The greatest of some depths. -/
def deepest (parts : List (Nested α)) : Nat := parts.foldl (fun n p => max n p.depth) 0

/-- A construct around parts of some depth. -/
def around? (value : α) (depth : Nat) : Option (Nested α) :=
  if depth < limit then some ⟨value, depth + 1⟩ else none

end Nested

/-! ## Named classes -/

/-- The class of a name. -/
def asciiName? (name : String) : Option AsciiName :=
  match name with
  | "alnum" => some .alnum
  | "alpha" => some .alpha
  | "ascii" => some .ascii
  | "blank" => some .blank
  | "cntrl" => some .cntrl
  | "digit" => some .digit
  | "graph" => some .graph
  | "lower" => some .lower
  | "print" => some .print
  | "punct" => some .punct
  | "space" => some .space
  | "upper" => some .upper
  | "word" => some .word
  | "xdigit" => some .xdigit
  | _ => none

/-- Reads a named class behind the bracket that opens it. -/
def readNamed? : List Char → Option (CharClass × List Char)
  | ':' :: cs =>
    let (negated, cs) := match cs with
      | '^' :: rest => (true, rest)
      | rest => (false, rest)
    match cs.dropWhile (· ≠ ':') with
    | ':' :: ']' :: behind =>
      (asciiName? (String.ofList (cs.takeWhile (· ≠ ':')))).map fun name => (.ascii name negated, behind)
    | _ => none
  | _ => none

/-! ## Characters and ranges -/

/-- Reads a character or an escape. -/
def readClassAtom? (verbose : Bool) : List Char → Option (Atom × List Char)
  | [] => none
  | '\\' :: rest => readEscape? verbose rest
  | c :: rest => some (.letter ⟨c, false⟩, rest)

/-- The set of one character or escape. -/
def Atom.alone? : Atom → Option CharClass
  | letter l => some (.letter l)
  | chars s => some s
  | place _ => none
  | dot => none

/-- The first character that is no blank, nor the first one that begins a comment. -/
def peekFrom : Bool → List Char → Option Char
  | _, [] => none
  | seen, c :: rest => if Text.isBlank c || (!seen && c == '#') then peekFrom (seen || c == '#') rest else some c

/-- The character by which it is told whether a hyphen stands for itself. -/
def peek (verbose : Bool) (cs : List Char) : Option Char :=
  if verbose then (peekFrom false cs).or cs.head? else cs.head?

/-- Reads a range, or a character or escape alone. -/
def readRange? (verbose : Bool) (cs : List Char) : Option (CharClass × List Char) := do
  let (first, rest) ← readClassAtom? verbose cs
  let rest := skip verbose rest
  match rest with
  | [] => none
  | '-' :: behind =>
    if peek verbose behind = some ']' ∨ peek verbose behind = some '-' then return (← first.alone?, rest)
    else
      let (last, rest) ← readClassAtom? verbose (skip verbose behind)
      match first, last with
      | .letter a, .letter b => if a.char ≤ b.char then return (.range a b, rest) else none
      | _, _ => none
  | _ => return (← first.alone?, rest)

/-! ## Brackets -/

/-- Brackets which have been opened: whether they are negated, what stands in front of the last operation, and the
sets behind it, the latest first. -/
structure OpenClass where
  negated : Bool
  left : Option (SetOperation × Nested CharClass)
  sets : List (Nested CharClass)

namespace OpenClass

/-- With one more set. -/
def add (o : OpenClass) (s : Nested CharClass) : OpenClass := { o with sets := s :: o.sets }

/-- The sets behind the last operation as one. -/
def side? (o : OpenClass) : Option (Nested CharClass) :=
  match o.sets with
  | [s] => some s
  | [] => some (.leaf (.union []))
  | sets => Nested.around? (.union (sets.reverse.map Nested.value)) (Nested.deepest sets)

/-- All that stands in the brackets as one set. -/
def whole? (o : OpenClass) : Option (Nested CharClass) := do
  let right ← o.side?
  match o.left with
  | none => return right
  | some (operation, left) => Nested.around? (.combined operation left.value right.value) (max left.depth right.depth)

/-- Behind one more operation. -/
def operate? (o : OpenClass) (operation : SetOperation) : Option OpenClass :=
  o.whole?.map fun s => ⟨o.negated, some (operation, s), []⟩

/-- The set of the brackets. -/
def close? (o : OpenClass) : Option (Nested CharClass) := do
  let s ← o.whole?
  Nested.around? (.bracketed o.negated s.value) s.depth

end OpenClass

/-- The hyphens at the beginning of brackets, and what follows. -/
def takeHyphens (verbose : Bool) : Nat → List Char → Nat × List Char
  | n + 1, '-' :: rest =>
    let (count, behind) := takeHyphens verbose n (skip verbose rest)
    (count + 1, behind)
  | _, cs => (0, cs)

/-- Reads the beginning of brackets behind the first one: the sign of negation and the characters which stand for
themselves only there. -/
def openClass (verbose : Bool) (cs : List Char) : OpenClass × List Char :=
  let (negated, cs) := match skip verbose cs with
    | '^' :: rest => (true, skip verbose rest)
    | rest => (false, rest)
  let own (c : Char) : Nested CharClass := .leaf (.letter ⟨c, false⟩)
  match takeHyphens verbose cs.length cs with
  | (0, ']' :: rest) => (⟨negated, none, [own ']']⟩, skip verbose rest)
  | (count, rest) => (⟨negated, none, List.replicate count (own '-')⟩, rest)

/-- Reads up to the bracket that closes the outermost brackets, where `outer` are those around the innermost ones. -/
def readClassFrom? (verbose : Bool) :
    Nat → OpenClass → List OpenClass → List Char → Option (Nested CharClass × List Char)
  | 0, _, _, _ => none
  | n + 1, inner, outer, cs =>
    let operate (operation : SetOperation) (rest : List Char) : Option (Nested CharClass × List Char) := do
      readClassFrom? verbose n (← inner.operate? operation) outer rest
    match skip verbose cs with
    | [] => none
    | '[' :: rest =>
      match readNamed? rest with
      | some (s, behind) => readClassFrom? verbose n (inner.add (.leaf s)) outer behind
      | none =>
        if outer.length < Nested.limit then
          let (o, behind) := openClass verbose rest
          readClassFrom? verbose n o (inner :: outer) behind
        else none
    | ']' :: rest => do
      let s ← inner.close?
      match outer with
      | [] => return (s, rest)
      | around :: outer => readClassFrom? verbose n (around.add s) outer rest
    | '&' :: '&' :: rest => operate .intersection rest
    | '-' :: '-' :: rest => operate .difference rest
    | '~' :: '~' :: rest => operate .symmetricDifference rest
    | cs => do
      let (s, rest) ← readRange? verbose cs
      readClassFrom? verbose n (inner.add (.leaf s)) outer rest

/-- Reads a class behind the bracket that opens it. -/
def readClass? (verbose : Bool) (cs : List Char) : Option (Nested CharClass × List Char) :=
  let (o, rest) := openClass verbose cs
  readClassFrom? verbose (rest.length + 1) o [] rest

end RecordServer.Regexp
