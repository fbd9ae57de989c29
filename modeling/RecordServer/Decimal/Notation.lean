import RecordServer.Decimal.Shortest

/-!
# Written forms of numbers

`positional` writes a finite number without an exponent, `json` writes it as a JSON number, and `ofText?` reads the
decimal texts of numbers. `fixed` writes a fraction with a fixed number of places.
-/

namespace RecordServer.Decimal

/-- The digits of a decimal with a point, without an exponent; `fraction` asks for a fraction also of an integer. -/
def Scientific.positional (s : Scientific) (fraction : Bool) : String :=
  let digits := (Nat.repr s.digits).toList
  if 0 ≤ s.exponent then
    String.ofList (digits ++ List.replicate s.exponent.toNat '0') ++ (if fraction then ".0" else "")
  else
    let places := (-s.exponent).toNat
    let padded := List.replicate (places + 1 - digits.length) '0' ++ digits
    String.ofList (padded.take (padded.length - places) ++ '.' :: padded.drop (padded.length - places))

/-- One digit, the other digits behind a point, and the exponent with its sign. -/
def Scientific.exponential (s : Scientific) : String :=
  let digits := (Nat.repr s.digits).toList
  let exponent := s.exponent + (digits.length - 1 : Nat)
  let mantissa := match digits with
    | d :: e :: rest => d :: '.' :: e :: rest
    | short => short
  String.ofList mantissa ++ "e" ++ (if exponent < 0 then "-" else "+") ++ Nat.repr exponent.natAbs

/-- The minus sign of a negative number, also of the negative zero. -/
def sign (x : Float) : String := if (parts x).negative then "-" else ""

/-- The shortest digits without an exponent and without an empty fraction. -/
def positional (x : Float) : String := sign x ++ (shortest x).positional false

/-- The shortest digits as JSON: positional from `1e-5` up to but not including `1e16`, always with a fraction. -/
def json (x : Float) : String :=
  let s := shortest x
  let leading : Int := s.exponent + (Nat.repr s.digits).length - 1
  sign x ++ if s.digits = 0 ∨ (-5 ≤ leading ∧ leading < 16) then s.positional true else s.exponential

/-- A fraction with the given number of places, rounded to the nearest one and a tie to the even one. -/
def fixed (num den places : Nat) : String :=
  let scaled := roundDiv (num * tenTo places) den
  if places = 0 then Nat.repr scaled else (Scientific.mk scaled (-(places : Int))).positional false

/-! ## Reading -/

/-- The number which a row of ASCII digits stands for, behind digits already read. -/
def ofDigits (value : Nat) (digits : List Char) : Nat :=
  digits.foldl (fun v c => v * 10 + (c.toNat - '0'.toNat)) value

/-- A sign at the beginning, and the rest. -/
def splitSign : List Char → Bool × List Char
  | '-' :: rest => (true, rest)
  | '+' :: rest => (false, rest)
  | rest => (false, rest)

/-- An integer is an optional sign and at least one digit. -/
def integer? (cs : List Char) : Option Int :=
  let (negative, digits) := splitSign cs
  if digits ≠ [] ∧ digits.all Char.isDigit then
    let n : Int := ofDigits 0 digits
    some (if negative then -n else n)
  else none

/-- The exponent of a number: nothing, or `e` with an integer. -/
def exponent? : List Char → Option Int
  | [] => some 0
  | c :: rest => if c = 'e' ∨ c = 'E' then integer? rest else none

/-- A number without its sign: digits with at most one point among or around them, then an exponent. -/
def unsigned? (cs : List Char) : Option Float := do
  let whole := cs.takeWhile Char.isDigit
  let rest := cs.dropWhile Char.isDigit
  let (fraction, rest) := match rest with
    | '.' :: rest => (rest.takeWhile Char.isDigit, rest.dropWhile Char.isDigit)
    | rest => ([], rest)
  if whole = [] ∧ fraction = [] then none
  else
    let exponent ← exponent? rest
    some (ofScientific (ofDigits (ofDigits 0 whole) fraction) (exponent - fraction.length))

/-- The words for what is no finite number, in any case. -/
def isSpecial (cs : List Char) : Bool :=
  ["inf", "infinity", "nan"].contains (String.ofList (cs.map Char.toLower))

/-- The number nearest to a decimal text. Words like `inf` are no numbers, and a text beyond all numbers is infinite. -/
def ofText? (cs : List Char) : Option Float :=
  let (negative, rest) := splitSign cs
  (unsigned? rest).map fun x => if negative then -x else x

end RecordServer.Decimal
