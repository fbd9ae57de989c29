/-!
# Binary floating point numbers as fractions

`parts` takes a finite 64 bit number apart into sign, mantissa and exponent, and `nearest` finds the number which is
nearest to a fraction, a tie going to the even mantissa.
-/

namespace RecordServer.Decimal

/-- A power of two. -/
def twoTo (n : Nat) : Nat := Nat.pow 2 n

/-- A power of ten. -/
def tenTo (n : Nat) : Nat := Nat.pow 10 n

/-- A number is `mantissa * 2 ^ exponent`, with a sign. -/
structure Binary where
  negative : Bool
  mantissa : Nat
  exponent : Int
  deriving DecidableEq, Repr

/-- The parts of a finite number. -/
def parts (x : Float) : Binary :=
  let bits := x.toBits.toNat
  let biased : Nat := bits / twoTo 52 % twoTo 11
  let fraction : Nat := bits % twoTo 52
  let negative := decide (twoTo 63 ≤ bits)
  if biased = 0 then ⟨negative, fraction, -1074⟩ else ⟨negative, fraction + twoTo 52, biased - 1075⟩

/-- A quotient rounded to the nearest integer, a tie to the even one. -/
def roundDiv (num den : Nat) : Nat :=
  let q := num / den
  let twice := 2 * (num % den)
  if twice < den then q else if den < twice then q + 1 else q + q % 2

/-- The integer nearest to `num / den / 2 ^ exponent`. -/
def scaled (num den : Nat) (exponent : Int) : Nat :=
  if 0 ≤ exponent then roundDiv num (den * twoTo exponent.toNat) else roundDiv (num * twoTo (-exponent).toNat) den

/-- The exponent with which `num / den` has a mantissa of 53 bits, or the least exponent there is. -/
def exponentOf (num den : Nat) : Int :=
  let guess : Int := (num.log2 : Int) - den.log2 - 52
  let short : Bool :=
    if 0 ≤ guess then num < den * twoTo guess.toNat * twoTo 52 else num * twoTo (-guess).toNat < den * twoTo 52
  max (if short then guess - 1 else guess) (-1074)

/-- The bits of the non-negative number nearest to `num / den`, infinity included. -/
def nearestBits (num den : Nat) : Nat :=
  if num = 0 then 0
  else
    let exponent := exponentOf num den
    let mantissa := scaled num den exponent
    let (mantissa, exponent) := if mantissa = twoTo 53 then (twoTo 52, exponent + 1) else (mantissa, exponent)
    if mantissa < twoTo 52 then mantissa
    else min ((exponent + 1075).toNat * twoTo 52 + (mantissa - twoTo 52)) (2047 * twoTo 52)

/-- The number nearest to `num / den`. -/
def nearest (num den : Nat) : Float := Float.ofBits (UInt64.ofNat (nearestBits num den))

/-- The number nearest to `digits * 10 ^ exponent`; very large and very small powers are decided by size alone. -/
def ofScientific (digits : Nat) (exponent : Int) : Float :=
  let size : Int := (Nat.repr digits).length + exponent
  if digits = 0 then 0
  else if 310 < size then nearest (tenTo 310) 1
  else if size < -330 then 0
  else if 0 ≤ exponent then nearest (digits * tenTo exponent.toNat) 1
  else nearest digits (tenTo (-exponent).toNat)

end RecordServer.Decimal
