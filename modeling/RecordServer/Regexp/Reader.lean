import RecordServer.Regexp.ClassReader
import RecordServer.Text.Letter

/-!
# Reading regular expressions

`Pattern.read?` reads the usual notation: characters and escapes, `.`, classes, the assertions `^` and `$` and those of
escapes, repetitions `? * + {m} {m,} {m,n}`, each of them lazy with a `?` behind it, groups with or without a name,
alternatives, and the flags `i`, `m`, `s`, `u`, `U`, `R` and `x`. There are no references to groups and no expressions
that look ahead or behind.
-/

namespace RecordServer.Regexp

/-! ## Repetitions -/

/-- The decimal digits at the beginning, in verbose patterns with blanks and comments in between, and what follows. -/
def readDigits (verbose : Bool) : Nat → List Char → List Char × List Char
  | n + 1, c :: rest =>
    if c.isDigit then
      let (digits, behind) := readDigits verbose n (skip verbose rest)
      (c :: digits, behind)
    else ([], c :: rest)
  | _, cs => ([], cs)

/-- The characters behind blanks, in verbose patterns also behind comments that follow a blank. -/
def skipBlanks (verbose : Bool) : Nat → List Char → List Char
  | n + 1, c :: rest => if Text.isBlank c then skipBlanks verbose n (skip verbose rest) else c :: rest
  | _, cs => cs

/-- Reads a number of 32 bits between blanks; the number is missing without digits. -/
def readCount? (verbose : Bool) (cs : List Char) : Option (Option Nat × List Char) :=
  let (digits, rest) := readDigits verbose (cs.length + 1) (cs.dropWhile Text.isBlank)
  let n := digits.foldl (fun n c => n * 10 + (c.toNat - '0'.toNat)) 0
  let behind := skipBlanks verbose (rest.length + 1) rest
  if digits = [] then some (none, behind) else if n < 4294967296 then some (some n, behind) else none

/-- Reads the counts of a repetition behind the brace that opens them: the least and the greatest. -/
def readCounts? (verbose : Bool) (cs : List Char) : Option (Nat × Option Nat × List Char) := do
  let (least, rest) ← readCount? verbose (skip verbose cs)
  match rest with
  | '}' :: behind => let least ← least; return (least, some least, behind)
  | ',' :: rest =>
    match skip verbose rest with
    | '}' :: behind => return (← least, none, behind)
    | rest =>
      let least ← least
      match ← readCount? verbose rest with
      | (some most, '}' :: behind) => if least ≤ most then return (least, some most, behind) else none
      | _ => none
  | _ => none

/-! ## Flags -/

/-- The flag of a letter. -/
def flag? (c : Char) : Option Flag :=
  match c with
  | 'i' => some .ignoreCase
  | 'm' => some .multiLine
  | 's' => some .dotAll
  | 'U' => some .swapGreed
  | 'u' => some .unicode
  | 'R' => some .crlf
  | 'x' => some .verbose
  | _ => none

/-- Reads flags up to a closing bracket or a colon, which is given too. No flag and no hyphen may be repeated, and a
flag has to follow the hyphen. -/
def readFlags? (on : Bool) (read : List (Flag × Bool)) : List Char → Option (List (Flag × Bool) × Char × List Char)
  | [] => none
  | '-' :: rest =>
    match rest with
    | [] => none
    | c :: _ => if !on || c = ':' || c = ')' then none else readFlags? false read rest
  | c :: rest =>
    if c = ':' ∨ c = ')' then some (read.reverse, c, rest)
    else match flag? c with
      | none => none
      | some f => if read.any (·.1 == f) then none else readFlags? on ((f, on) :: read) rest

/-- Whether flags switch another one on or off. -/
def switched? (flags : List (Flag × Bool)) (f : Flag) : Option Bool := flags.lookup f

/-! ## Groups -/

/-- Whether a text can be the name of a group. -/
def isGroupName : List Char → Bool
  | [] => false
  | c :: rest =>
    (c = '_' || Text.isAlphabetic c) &&
      rest.all fun c => c = '_' || c = '.' || c = '[' || c = ']' || Text.isAlphanumeric c

/-- A group which has been opened: its kind, whether the pattern around it is verbose, and what stands before it, the
latest first: the alternatives, and the parts of the last one. -/
structure OpenGroup where
  kind : GroupKind
  verbose : Bool
  branches : List (Nested Pattern)
  parts : List (Nested Pattern)

/-- What has been read of a pattern: the groups which are open, the innermost first, and in it the alternatives and the
parts of the last one, the latest first; the number of capturing groups and their names. -/
structure Reading where
  verbose : Bool
  outer : List OpenGroup
  branches : List (Nested Pattern)
  parts : List (Nested Pattern)
  captures : Nat
  names : List (List Char)

namespace Reading

/-- Nothing has been read. -/
def start : Reading := ⟨false, [], [], [], 0, []⟩

/-- With one more part. -/
def add (r : Reading) (p : Nested Pattern) : Reading := { r with parts := p :: r.parts }

/-- The parts of the last alternative as one pattern. -/
def branch? (r : Reading) : Option (Nested Pattern) :=
  match r.parts with
  | [] => some (.leaf .empty)
  | [p] => some p
  | parts => Nested.around? (.concatenation (parts.reverse.map Nested.value)) (Nested.deepest parts)

/-- The alternatives as one pattern. -/
def whole? (r : Reading) : Option (Nested Pattern) := do
  let last ← r.branch?
  match r.branches with
  | [] => return last
  | branches =>
    let all := last :: branches
    Nested.around? (.alternation (all.reverse.map Nested.value)) (Nested.deepest all)

/-- Behind a bar. -/
def alternative? (r : Reading) : Option Reading :=
  r.branch?.map fun p => { r with branches := p :: r.branches, parts := [] }

/-- In a group. -/
def openGroup? (r : Reading) (kind : GroupKind) (verbose : Bool) : Option Reading :=
  if r.outer.length < Nested.limit then
    some { r with
      verbose := verbose, outer := ⟨kind, r.verbose, r.branches, r.parts⟩ :: r.outer, branches := [], parts := [] }
  else none

/-- In a group whose text is kept, perhaps under a name, which no other group has. -/
def openCapture? (r : Reading) (name : Option (List Char)) : Option Reading :=
  let r' := { r with captures := r.captures + 1, names := name.toList ++ r.names }
  if name.any r.names.contains then none else r'.openGroup? (.capturing (r.captures + 1)) r.verbose

/-- Behind the group. -/
def closeGroup? (r : Reading) : Option Reading := do
  let p ← r.whole?
  match r.outer with
  | [] => none
  | g :: outer =>
    let p ← Nested.around? (.group g.kind p.value) p.depth
    return { r with verbose := g.verbose, outer := outer, branches := g.branches, parts := p :: g.parts }

/-- With a repetition of the last part. -/
def repeat? (r : Reading) (least : Nat) (most : Option Nat) (greedy : Bool) : Option Reading :=
  match r.parts with
  | [] => none
  | p :: parts =>
    if p.value.isRepeatable then
      (Nested.around? (.repetition least most greedy p.value) p.depth).map fun p => { r with parts := p :: parts }
    else none

/-- Reads a group behind the bracket that opens it up to the pattern in it, or flags without one. -/
def readGroup? (r : Reading) (cs : List Char) : Option (Reading × List Char) :=
  let named (cs : List Char) : Option (Reading × List Char) :=
    let name := cs.takeWhile (· ≠ '>')
    match cs.dropWhile (· ≠ '>') with
    | _ :: rest => if isGroupName name then (r.openCapture? (some name)).map fun r => (r, rest) else none
    | [] => none
  match skip r.verbose cs with
  | '?' :: 'P' :: '<' :: rest => named rest
  | '?' :: '<' :: rest =>
    match rest with
    | '=' :: _ => none
    | '!' :: _ => none
    | rest => named rest
  | '?' :: rest =>
    match readFlags? true [] rest with
    | none => none
    | some (flags, closing, behind) =>
      let verbose := (switched? flags .verbose).getD r.verbose
      if closing = ':' then (r.openGroup? (.switching flags) verbose).map fun r => (r, behind)
      else if flags = [] then none
      else some ({ r with verbose := verbose }.add (.leaf (.switch flags)), behind)
  | rest => (r.openCapture? none).map fun r => (r, rest)

/-- Whether a repetition is greedy, and what follows: it is not with a question mark behind it. -/
def greed : List Char → Bool × List Char
  | '?' :: rest => (false, rest)
  | rest => (true, rest)

/-- Reads the next part of a pattern. -/
def step? (r : Reading) : List Char → Option (Reading × List Char)
  | [] => none
  | '(' :: rest => r.readGroup? rest
  | ')' :: rest => r.closeGroup?.map fun r => (r, rest)
  | '|' :: rest => r.alternative?.map fun r => (r, rest)
  | '[' :: rest => (readClass? r.verbose rest).map fun (s, behind) => (r.add ⟨.chars s.value, s.depth⟩, behind)
  | '?' :: rest => let (greedy, behind) := greed rest; (r.repeat? 0 (some 1) greedy).map fun r => (r, behind)
  | '*' :: rest => let (greedy, behind) := greed rest; (r.repeat? 0 none greedy).map fun r => (r, behind)
  | '+' :: rest => let (greedy, behind) := greed rest; (r.repeat? 1 none greedy).map fun r => (r, behind)
  | '{' :: rest => do
    let (least, most, behind) ← readCounts? r.verbose rest
    let (greedy, behind) := greed (skip r.verbose behind)
    return (← r.repeat? least most greedy, behind)
  | '\\' :: rest => do
    let (atom, behind) ← readEscape? r.verbose rest
    match atom with
    | .letter l => return (r.add (.leaf (.letter l)), behind)
    | .place a => return (r.add (.leaf (.assertion a)), behind)
    | .chars s => return (r.add (.leaf (.chars s)), behind)
    | .dot => return (r.add (.leaf .dot), behind)
  | '.' :: rest => some (r.add (.leaf .dot), rest)
  | '^' :: rest => some (r.add (.leaf (.assertion .lineStart)), rest)
  | '$' :: rest => some (r.add (.leaf (.assertion .lineEnd)), rest)
  | c :: rest => some (r.add (.leaf (.letter ⟨c, false⟩)), rest)

/-- Reads up to the end, in at most `n` steps. -/
def readAll? : Nat → Reading → List Char → Option Pattern
  | 0, _, _ => none
  | n + 1, r, cs =>
    match skip r.verbose cs with
    | [] => if r.outer.isEmpty then r.whole?.map Nested.value else none
    | cs =>
      match r.step? cs with
      | some (r, rest) => readAll? n r rest
      | none => none

end Reading

/-- Reads a pattern. -/
def Pattern.read? (source : String) : Option Pattern :=
  let cs := source.toList
  Reading.readAll? (cs.length + 1) .start cs

end RecordServer.Regexp
