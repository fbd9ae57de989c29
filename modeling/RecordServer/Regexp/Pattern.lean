/-!
# Patterns

A `Pattern` is a regular expression as it is written, a `CharClass` what is written for a set of characters in it. What
either stands for depends on the flags at its place.
-/

namespace RecordServer.Regexp

/-- A flag that is switched on and off in a pattern. -/
inductive Flag where
  | ignoreCase
  | multiLine
  | dotAll
  | swapGreed
  | unicode
  | crlf
  | verbose
  deriving DecidableEq, Repr

/-- A character, and whether it is written as one octet by two hexadecimal digits. -/
structure Letter where
  char : Char
  isOctet : Bool
  deriving DecidableEq, Repr

/-- The kinds of characters which have escapes of one letter. -/
inductive Kind where
  | digit
  | blank
  | word
  deriving DecidableEq, Repr

/-- The names of sets of ASCII characters. -/
inductive AsciiName where
  | alnum
  | alpha
  | ascii
  | blank
  | cntrl
  | digit
  | graph
  | lower
  | print
  | punct
  | space
  | upper
  | word
  | xdigit
  deriving DecidableEq, Repr

/-- What is written to refer to a property of characters. -/
inductive PropertyName where
  | named (name : String)
  | valued (property value : String)
  deriving DecidableEq, Repr

/-- How two sets are combined. -/
inductive SetOperation where
  | intersection
  | difference
  | symmetricDifference
  deriving DecidableEq, Repr

/-- A set of characters as it is written. -/
inductive CharClass where
  | letter (l : Letter)
  | range (first last : Letter)
  | ascii (name : AsciiName) (negated : Bool)
  | kind (k : Kind) (negated : Bool)
  | property (name : PropertyName) (negated : Bool)
  | bracketed (negated : Bool) (s : CharClass)
  | union (sets : List CharClass)
  | combined (operation : SetOperation) (left right : CharClass)

/-- What may be asked about the place between two characters. -/
inductive Assertion where
  | textStart
  | textEnd
  | lineStart
  | lineEnd
  | wordBoundary
  | noWordBoundary
  | wordStart
  | wordEnd
  | wordStartHalf
  | wordEndHalf
  deriving DecidableEq, Repr

/-- What a group is for. -/
inductive GroupKind where
  /-- Its text is kept under a number. -/
  | capturing (index : Nat)
  /-- It switches flags on or off within it. -/
  | switching (flags : List (Flag × Bool))
  deriving DecidableEq, Repr

/-- A regular expression as it is written. -/
inductive Pattern where
  | empty
  | letter (l : Letter)
  | dot
  | assertion (a : Assertion)
  | chars (s : CharClass)
  /-- Switches flags on or off up to the end of the group around it. -/
  | switch (flags : List (Flag × Bool))
  | repetition (least : Nat) (most : Option Nat) (greedy : Bool) (p : Pattern)
  | group (kind : GroupKind) (p : Pattern)
  | alternation (branches : List Pattern)
  | concatenation (parts : List Pattern)

namespace Pattern

/-- Whether something is there that can be repeated. -/
def isRepeatable : Pattern → Bool
  | empty => false
  | switch _ => false
  | _ => true

end Pattern

end RecordServer.Regexp
