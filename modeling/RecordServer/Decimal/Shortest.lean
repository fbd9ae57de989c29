import RecordServer.Decimal.Binary

/-!
# The shortest decimal of a number

`shortest` finds the decimal with the fewest digits which reads back as a given number, and among those the one nearest
to it. For one digit, two digits and so on it tests the two neighbours of the number on the grid of the decimals with
that many digits against the interval of all reals that are rounded to the number (`Window`).
-/

namespace RecordServer.Decimal

/-- A decimal is `digits * 10 ^ exponent`. -/
structure Scientific where
  digits : Nat
  exponent : Int
  deriving DecidableEq, Repr

/-- The reals which are rounded to a number, as integers over one denominator, and whether the ends are among them. -/
structure Window where
  low : Nat
  value : Nat
  high : Nat
  den : Nat
  closed : Bool

/-- Half the distance to either neighbour; below a power of two the lower neighbour is nearer. -/
def Window.of (b : Binary) : Window :=
  let lower := if b.mantissa = twoTo 52 ∧ -1074 < b.exponent then 1 else 2
  let exponent := b.exponent - 2
  let up := twoTo exponent.toNat
  let down := twoTo (-exponent).toNat
  ⟨(4 * b.mantissa - lower) * up, 4 * b.mantissa * up, (4 * b.mantissa + 2) * up, down, b.mantissa % 2 = 0⟩

/-- Whether `digits * 10 ^ exponent` lies in the window. -/
def Window.holds (w : Window) (digits : Nat) (exponent : Int) : Bool :=
  let point := digits * tenTo exponent.toNat * w.den
  let unit := tenTo (-exponent).toNat
  if w.closed then w.low * unit ≤ point && point ≤ w.high * unit
  else w.low * unit < point && point < w.high * unit

/-- The greatest integer not above the value divided by `10 ^ exponent`. -/
def Window.floor (w : Window) (exponent : Int) : Nat :=
  w.value * tenTo (-exponent).toNat / (w.den * tenTo exponent.toNat)

/-- Whether the value is nearer to `digits + 1` than to `digits`, in units of `10 ^ exponent`; a tie goes to even. -/
def Window.upper (w : Window) (digits : Nat) (exponent : Int) : Bool :=
  let twice := 2 * w.value * tenTo (-exponent).toNat
  let middle := (2 * digits + 1) * (w.den * tenTo exponent.toNat)
  decide (middle < twice) || (decide (middle = twice) && decide (digits % 2 = 1))

/-- The better neighbour of the value on the grid of `10 ^ exponent`, if one of them lies in the window. -/
def Window.onGrid? (w : Window) (exponent : Int) : Option Scientific :=
  let below := w.floor exponent
  match w.holds below exponent, w.holds (below + 1) exponent with
  | true, true => some ⟨if w.upper below exponent then below + 1 else below, exponent⟩
  | true, false => some ⟨below, exponent⟩
  | false, true => some ⟨below + 1, exponent⟩
  | false, false => none

/-- The exponent of the first digit of the value. Below one it is found from the greatest integer less than the
reciprocal. -/
def Window.leading (w : Window) : Int :=
  if w.den ≤ w.value then ((Nat.repr (w.value / w.den)).length : Int) - 1
  else -((Nat.repr ((w.den - 1) / w.value)).length : Int)

/-- The same decimal without zeros at the end. -/
def Scientific.normal (s : Scientific) : Scientific :=
  let zeros := ((Nat.repr s.digits).toList.reverse.takeWhile (· = '0')).length
  ⟨s.digits / tenTo zeros, s.exponent + zeros⟩

/-- The shortest decimal of a finite number, without its sign. -/
def shortest (x : Float) : Scientific :=
  let b := parts x
  if b.mantissa = 0 then ⟨0, 0⟩
  else
    let w := Window.of b
    let leading := w.leading
    match (List.range 17).findSome? fun (n : Nat) => w.onGrid? (leading - n) with
    | some s => s.normal
    | none => ⟨0, 0⟩

end RecordServer.Decimal
