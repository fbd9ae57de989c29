import RecordServer.Decimal.Notation

/-!
# Sizes and durations for people

`size` writes a number of bytes and `shortDuration` a short time with about three digits, `duration` writes a long
time in days, hours, minutes, seconds and milliseconds. Fractions are rounded to the nearest digit, a tie to the even
one.
-/

namespace RecordServer.Format

/-! ## Sizes -/

/-- The units above bytes, each 1024 times the one before. -/
def units : List String := ["KiB", "MiB", "GiB", "TiB", "PiB"]

/-- The unit in which a number of bytes is at most 1024, or the last one, and how many bytes it has. -/
def unitFor (bytes : Nat) : Nat → List String → String × Nat
  | den, [] => ("", den)
  | den, [unit] => (unit, den)
  | den, unit :: rest => if bytes ≤ 1024 * den then (unit, den) else unitFor bytes (den * 1024) rest

/-- A number of bytes, taken with the 53 bits of a floating point number. -/
def size (bytes : Nat) : String :=
  if bytes = 1 then "1 byte"
  else if bytes < 1024 then toString bytes ++ " bytes"
  else
    let b := Decimal.parts (Decimal.nearest bytes 1)
    let num := b.mantissa * Decimal.twoTo b.exponent.toNat / Decimal.twoTo (-b.exponent).toNat
    let (unit, den) := unitFor num 1024 units
    let places := if num ≤ 10 * den then 2 else if num ≤ 100 * den then 1 else 0
    Decimal.fixed num den places ++ " " ++ unit

/-! ## Durations -/

/-- A floating point number with two places below 10, one below 100, and as an integer without its fraction above. -/
def threeDigits (x : Float) : String :=
  let b := Decimal.parts x
  let num := b.mantissa * Decimal.twoTo b.exponent.toNat
  let den := Decimal.twoTo (-b.exponent).toNat
  if num < 10 * den then Decimal.fixed num den 2
  else if num < 100 * den then Decimal.fixed num den 1
  else toString (num / den)

/-- A time of whole seconds and nanoseconds as a floating point number of seconds. -/
def seconds (secs nanos : Nat) : Float := Decimal.nearest secs 1 + Decimal.nearest nanos 1 / 1000000000

/-- A short time in the unit that suits it: microseconds, milliseconds or seconds. -/
def shortDuration (secs nanos : Nat) : String :=
  let micros := secs * 1000000 + nanos / 1000
  if micros < 1000 then toString micros ++ " us"
  else if micros < 1000000 then threeDigits (seconds secs nanos * 1000) ++ " ms"
  else threeDigits (seconds secs nanos) ++ " s"

/-- The parts of a time in milliseconds, without those that are zero. -/
def durationParts : Nat → List (Nat × String) → List String
  | _, [] => []
  | millis, (unit, name) :: rest =>
    let more := durationParts (millis % unit) rest
    if millis / unit = 0 then more else (toString (millis / unit) ++ name) :: more

/-- A long time, such as `5d 3h 17m 2s 12ms`. -/
def duration (secs nanos : Nat) : String :=
  match durationParts (secs * 1000 + nanos / 1000000)
      [(86400000, "d"), (3600000, "h"), (60000, "m"), (1000, "s"), (1, "ms")] with
  | [] => "0ms"
  | parts => String.intercalate " " parts

end RecordServer.Format
