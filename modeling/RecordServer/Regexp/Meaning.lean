import RecordServer.Regexp.Basic
import RecordServer.Regexp.Folding
import RecordServer.Regexp.Property

/-!
# What patterns mean

`Pattern.meaning?` gives the expression for a pattern, `CharClass.meaning?` the set of characters for a class. Both
depend on the `Flags` at the place, which a pattern may switch. With the flag for all scripts off a pattern is about
ASCII, and it means nothing if it asks for characters beyond.
-/

namespace RecordServer.Regexp

/-- The flags which have a meaning for expressions. -/
structure Flags where
  ignoreCase : Bool
  multiLine : Bool
  dotAll : Bool
  swapGreed : Bool
  unicode : Bool
  crlf : Bool
  deriving DecidableEq, Repr

namespace Flags

/-- The flags at the beginning. -/
def initial : Flags := ⟨false, false, false, false, true, false⟩

/-- With one flag on or off. -/
def turn (f : Flags) : Flag × Bool → Flags
  | (.ignoreCase, on) => { f with ignoreCase := on }
  | (.multiLine, on) => { f with multiLine := on }
  | (.dotAll, on) => { f with dotAll := on }
  | (.swapGreed, on) => { f with swapGreed := on }
  | (.unicode, on) => { f with unicode := on }
  | (.crlf, on) => { f with crlf := on }
  | (.verbose, _) => f

/-- With several flags on or off. -/
def switch (f : Flags) (flags : List (Flag × Bool)) : Flags := flags.foldl turn f

/-- A set with the characters that only differ by their case, if case is ignored. -/
def fold (f : Flags) (s : Chars) : Chars :=
  if !f.ignoreCase then s else if f.unicode then s.folded else s.foldedAscii

/-- A set or what is outside of it, where case is looked at first. -/
def close? (f : Flags) (negated : Bool) (s : Chars) : Option Chars :=
  let s := if negated then (f.fold s).complement else f.fold s
  if f.unicode || s.isAscii then some s else none

/-- The characters of a letter. -/
def letter? (f : Flags) (l : Letter) : Option Chars :=
  if f.unicode || (!l.isOctet || l.char.toNat < 128) then some (.one l.char) else none

/-- A kind of characters. -/
def kind (f : Flags) (k : Kind) : Chars :=
  let lower := Chars.range 97 122
  let upper := Chars.range 65 90
  let digits := Chars.range 48 57
  match k with
  | .digit => if f.unicode then Property.digits else digits
  | .blank => if f.unicode then Property.blanks else (Chars.range 9 13).union (.one ' ')
  | .word => if f.unicode then Property.words else ((lower.union upper).union digits).union (.one '_')

end Flags

/-- The characters of a named class. -/
def AsciiName.chars (name : AsciiName) : Chars :=
  match name with
  | alnum => .ofList [(48, 57), (65, 90), (97, 122)]
  | alpha => .ofList [(65, 90), (97, 122)]
  | ascii => .range 0 127
  | blank => .ofList [(9, 9), (32, 32)]
  | cntrl => .ofList [(0, 31), (127, 127)]
  | digit => .range 48 57
  | graph => .range 33 126
  | lower => .range 97 122
  | print => .range 32 126
  | punct => .ofList [(33, 47), (58, 64), (91, 96), (123, 126)]
  | space => .ofList [(9, 13), (32, 32)]
  | upper => .range 65 90
  | word => .ofList [(48, 57), (65, 90), (95, 95), (97, 122)]
  | xdigit => .ofList [(48, 57), (65, 70), (97, 102)]

/-- The set to which a name refers. -/
def PropertyName.chars? : PropertyName → Option Chars
  | named name => Property.named? name
  | valued property value => Property.valued? property value

/-- The combination of two sets. -/
def SetOperation.apply (operation : SetOperation) (s t : Chars) : Chars :=
  match operation with
  | intersection => s.intersect t
  | difference => s.difference t
  | symmetricDifference => s.symmetricDifference t

namespace CharClass

mutual

/-- The set of characters for a class. -/
def meaning? (f : Flags) : CharClass → Option Chars
  | letter l => (f.letter? l).filter fun s => f.unicode || s.isAscii
  | range a b =>
    if f.unicode || (a.char.toNat < 128 && b.char.toNat < 128) then some (.range a.char.toNat b.char.toNat) else none
  | ascii name negated => f.close? negated name.chars
  | kind k negated =>
    if negated then if f.unicode then some (f.kind k).complement else none else some (f.kind k)
  | property name negated => if f.unicode then name.chars?.bind (f.close? negated) else none
  | bracketed negated s => (meaning? f s).bind (f.close? negated)
  | union sets => unionOf? f sets
  | combined operation left right => do
    let s ← meaning? f left
    let t ← meaning? f right
    return operation.apply (f.fold s) (f.fold t)

/-- The union of the sets for some classes. -/
def unionOf? (f : Flags) : List CharClass → Option Chars
  | [] => some .empty
  | s :: rest => do return (← meaning? f s).union (← unionOf? f rest)

end

end CharClass

/-- The question of an assertion. -/
def Flags.look (f : Flags) (a : Assertion) : Look :=
  match a with
  | .lineStart => if !f.multiLine then .place .textStart false else if f.crlf then .lineStartCrlf else .place a false
  | .lineEnd => if !f.multiLine then .place .textEnd false else if f.crlf then .lineEndCrlf else .place a false
  | .textStart => .place a false
  | .textEnd => .place a false
  | _ => .place a (!f.unicode)

/-- The characters for which the dot stands. -/
def Flags.dot? (f : Flags) : Option Chars :=
  if !f.unicode then none
  else if f.dotAll then some Chars.empty.complement
  else if f.crlf then some ((Chars.one '\n').union (.one '\r')).complement
  else some (Chars.one '\n').complement

namespace Pattern

mutual

/-- The expression for a pattern, and the flags behind it. -/
def meaning? (f : Flags) : Pattern → Option (Regexp × Flags)
  | empty => some (.empty, f)
  | letter l => (f.letter? l).map fun s => (.set (if f.unicode || s.isAscii then f.fold s else s), f)
  | dot => f.dot?.map fun s => (.set s, f)
  | assertion a => some (.look (f.look a), f)
  | chars s => (s.meaning? f).map fun s => (.set s, f)
  | switch flags => some (.empty, f.switch flags)
  | repetition least most greedy p => do
    let (r, f) ← meaning? f p
    return (.repeated least most (greedy != f.swapGreed) r, f)
  | group (.capturing index) p => do
    let (r, _) ← meaning? f p
    return (.group index r, f)
  | group (.switching flags) p => do
    let (r, _) ← meaning? (f.switch flags) p
    return (r, f)
  | alternation branches => do
    let (rs, f) ← meanings? f branches
    return (.choice rs, f)
  | concatenation parts => do
    let (rs, f) ← meanings? f parts
    return (.sequence rs, f)

/-- The expressions for some patterns, and the flags behind the last of them. -/
def meanings? (f : Flags) : List Pattern → Option (List Regexp × Flags)
  | [] => some ([], f)
  | p :: rest => do
    let (r, f) ← meaning? f p
    let (rs, f) ← meanings? f rest
    return (r :: rs, f)

end

/-- The expression for a whole pattern. -/
def expression? (p : Pattern) : Option Regexp := (p.meaning? .initial).map Prod.fst

end Pattern

end RecordServer.Regexp
