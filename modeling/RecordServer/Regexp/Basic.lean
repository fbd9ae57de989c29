import RecordServer.Regexp.Chars
import RecordServer.Regexp.Pattern

/-!
# Regular expressions

A `Regexp` is an expression over sets of characters (`Chars`) with questions about the place between two characters
(`Look`). Expressions are ordered: of two alternatives the first is preferred, and a repetition prefers more or fewer
rounds.

Expressions are built by `Regexp.set`, `Regexp.repeated`, `Regexp.sequence` and `Regexp.choice`, which simplify on the
way. For repetitions of what may be empty the form of an expression matters, since it decides in which order its places
are visited.
-/

namespace RecordServer

namespace Regexp

/-- A question about the place between two characters, where words may be those of ASCII only and lines may end with a
carriage return. -/
inductive Look where
  | place (a : Assertion) (ascii : Bool)
  | lineStartCrlf
  | lineEndCrlf
  deriving DecidableEq, Repr

end Regexp

/-- A regular expression. -/
inductive Regexp where
  | empty
  /-- A text, which is not empty. -/
  | literal (cs : List Char)
  /-- One character of a set, which has none or several. -/
  | chars (s : Regexp.Chars)
  | look (l : Regexp.Look)
  | repetition (least : Nat) (most : Option Nat) (greedy : Bool) (r : Regexp)
  | group (index : Nat) (r : Regexp)
  /-- Several expressions one after the other. -/
  | concat (parts : List Regexp)
  /-- One of several expressions, the first being preferred. -/
  | alternation (branches : List Regexp)

namespace Regexp

/-! ## Equality -/

mutual

/-- Whether two expressions are the same. -/
def same : Regexp → Regexp → Bool
  | empty, empty => true
  | literal a, literal b => a == b
  | chars s, chars t => s == t
  | look a, look b => a == b
  | repetition least most greedy r, repetition least' most' greedy' r' =>
    least == least' && most == most' && greedy == greedy' && same r r'
  | group index r, group index' r' => index == index' && same r r'
  | concat parts, concat parts' => sameAll parts parts'
  | alternation branches, alternation branches' => sameAll branches branches'
  | _, _ => false

/-- Whether two lists hold the same expressions. -/
def sameAll : List Regexp → List Regexp → Bool
  | [], [] => true
  | r :: rest, r' :: rest' => same r r' && sameAll rest rest'
  | _, _ => false

end

/-! ## Lengths -/

/-- The sum of two numbers which may be missing. -/
def plus? : Option Nat → Option Nat → Option Nat
  | some m, some n => some (m + n)
  | _, _ => none

mutual

/-- The length of the shortest match, if there can be a match. -/
def leastLength : Regexp → Option Nat
  | empty => some 0
  | literal cs => some cs.length
  | chars s => if s.ranges.isEmpty then none else some 1
  | look _ => some 0
  | repetition least _ _ r => (leastLength r).map (least * ·)
  | group _ r => leastLength r
  | concat parts => leastOfAll parts
  | alternation branches => leastOfAny branches

/-- The sum of the shortest lengths. -/
def leastOfAll : List Regexp → Option Nat
  | [] => some 0
  | r :: rest => plus? (leastLength r) (leastOfAll rest)

/-- The smallest of the shortest lengths, if all of them exist. -/
def leastOfAny : List Regexp → Option Nat
  | [] => none
  | [r] => leastLength r
  | r :: rest =>
    match leastLength r, leastOfAny rest with
    | some m, some n => some (min m n)
    | _, _ => none

end

mutual

/-- Whether every match is empty. -/
def isEmptyOnly : Regexp → Bool
  | empty => true
  | literal _ => false
  | chars _ => false
  | look _ => true
  | repetition _ most _ r => isEmptyOnly r || (most == some 0 && isBounded r)
  | group _ r => isEmptyOnly r
  | concat parts => allEmptyOnly parts
  | alternation branches => allEmptyOnly branches

/-- Whether every match of all expressions is empty. -/
def allEmptyOnly : List Regexp → Bool
  | [] => true
  | r :: rest => isEmptyOnly r && allEmptyOnly rest

/-- Whether the lengths of matches are bounded. -/
def isBounded : Regexp → Bool
  | empty => true
  | literal _ => true
  | chars s => !s.ranges.isEmpty
  | look _ => true
  | repetition _ most _ r => most.isSome && isBounded r
  | group _ r => isBounded r
  | concat parts => allBounded parts
  | alternation branches => allBounded branches

/-- Whether the lengths of the matches of all expressions are bounded. -/
def allBounded : List Regexp → Bool
  | [] => true
  | r :: rest => isBounded r && allBounded rest

end

/-! ## Building -/

/-- One character of a set. -/
def set (s : Chars) : Regexp :=
  match s.single? with
  | some c => literal [c]
  | none => chars s

/-- An expression several times. What is always empty need not be repeated. -/
def repeated (least : Nat) (most : Option Nat) (greedy : Bool) (r : Regexp) : Regexp :=
  let (least, most) := if r.isEmptyOnly then (min least 1, some (min (most.getD 1) 1)) else (least, most)
  if most = some 0 then empty
  else if least = 1 ∧ most = some 1 then r
  else repetition least most greedy r

/-- The expressions without empty ones, where neighbouring texts become one. -/
def joinTexts : List Regexp → List Regexp
  | [] => []
  | empty :: rest => joinTexts rest
  | literal cs :: rest =>
    match joinTexts rest with
    | literal more :: others => literal (cs ++ more) :: others
    | others => literal cs :: others
  | r :: rest => r :: joinTexts rest

/-- The expressions whose parts are put one after the other. -/
def parts : Regexp → List Regexp
  | concat rs => rs
  | r => [r]

/-- Several expressions one after the other. -/
def sequence (rs : List Regexp) : Regexp :=
  match joinTexts (rs.flatMap parts) with
  | [] => empty
  | [r] => r
  | rs => concat rs

/-- The expressions between which there is a choice. -/
def branches : Regexp → List Regexp
  | alternation rs => rs
  | r => [r]

/-- The character of a text of one. -/
def letter? : Regexp → Option Char
  | literal [c] => some c
  | _ => none

/-- The set of characters of which one is taken. -/
def set? : Regexp → Option Chars
  | chars s => some s
  | _ => none

/-- The number of expressions at the beginning which two lists share. -/
def sharedCount : List Regexp → List Regexp → Nat
  | r :: rest, r' :: rest' => if r.same r' then sharedCount rest rest' + 1 else 0
  | _, _ => 0

/-- The number of expressions with which all of several sequences begin; none unless all are sequences. -/
def prefixCount : List Regexp → Nat
  | concat first :: rest =>
    rest.foldl (fun n r => match r with
      | concat rs => min n (sharedCount first rs)
      | _ => 0) first.length
  | _ => 0

/-- A choice between expressions none of which is a choice. What all sequences begin with is put in front. -/
def chooseFlat : Nat → List Regexp → Regexp
  | _, [] => chars .empty
  | _, [r] => r
  | n, rs =>
    match rs.mapM letter?, rs.mapM set? with
    | some cs, _ => set (.ofList (cs.map fun c => (c.toNat, c.toNat)))
    | none, some sets => set (.ofList (sets.flatMap Chars.ranges))
    | none, none =>
      let shared := prefixCount rs
      match n with
      | n + 1 =>
        if shared = 0 then alternation rs
        else
          let tails := rs.map fun r => sequence (r.parts.drop shared)
          let front := (rs.head?.map fun r => r.parts.take shared).getD []
          sequence (front ++ [chooseFlat n (tails.flatMap branches)])
      | 0 => alternation rs

/-- One of several expressions. -/
def choice (rs : List Regexp) : Regexp :=
  let rs := rs.flatMap branches
  chooseFlat ((rs.map fun r => r.parts.length).foldl max 0 + 1) rs

end Regexp

end RecordServer
