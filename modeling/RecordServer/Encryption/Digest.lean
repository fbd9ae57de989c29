import RecordServer.Encryption.Der

/-!
# The digest SHA-512

`Digest.sha512` gives 64 bytes for bytes of any length. They are padded to blocks of 16 words of 64 bits; each block is
stretched to 80 words, which are mixed into the eight words of a state one after the other.

The constants are the first bits of the fractions of square roots and cube roots of the first primes.
-/

namespace RecordServer.Digest

/-! ## Constants -/

/-- The largest number of some binary digits for which a growing function is at most a bound. -/
def largest (f : Nat → Nat) (bound digits : Nat) : Nat :=
  (List.range digits).foldr (fun digit n =>
    let more := n + 1 <<< digit
    if f more ≤ bound then more else n) 0

/-- The first primes. -/
def primes : List Nat :=
  (List.range 410).filter fun n => 2 ≤ n && (List.range n).all fun d => d < 2 || n % d != 0

/-- The first 64 bits of the fraction of the square root of a number below 2 to the eighth. -/
def squareRootBits (n : Nat) : UInt64 := UInt64.ofNat (largest (fun r => r * r) (n <<< 128) 68)

/-- The first 64 bits of the fraction of the cube root of a number below 2 to the twelfth. -/
def cubeRootBits (n : Nat) : UInt64 := UInt64.ofNat (largest (fun r => r * r * r) (n <<< 192) 68)

/-- What is added in each round. -/
def roundConstants : List UInt64 := primes.map cubeRootBits

/-! ## Words -/

/-- A word turned to the right. -/
def turn (w : UInt64) (n : UInt64) : UInt64 := (w >>> n) ||| (w <<< (64 - n))

/-- Cuts words into bytes. -/
def bytesOfWord (w : UInt64) : List UInt8 := Der.bytesOf 8 w.toNat

/-- Words of eight bytes each. -/
def words : List UInt8 → List UInt64
  | a :: b :: c :: d :: e :: f :: g :: h :: rest => UInt64.ofNat (Der.number [a, b, c, d, e, f, g, h]) :: words rest
  | _ => []

/-- Bytes with a one bit, zeros and their number of bits behind them, which fill blocks. -/
def pad (bytes : List UInt8) : List UInt8 :=
  bytes ++ 0x80 :: List.replicate ((239 - bytes.length % 128) % 128) 0 ++ Der.bytesOf 16 (bytes.length * 8)

/-! ## Blocks -/

/-- The words of a state. -/
structure State where
  a : UInt64
  b : UInt64
  c : UInt64
  d : UInt64
  e : UInt64
  f : UInt64
  g : UInt64
  h : UInt64

namespace State

/-- The state in front of all blocks. -/
def start : State :=
  ⟨squareRootBits 2, squareRootBits 3, squareRootBits 5, squareRootBits 7, squareRootBits 11, squareRootBits 13,
    squareRootBits 17, squareRootBits 19⟩

/-- The sums of the words of two states. -/
def add (s t : State) : State :=
  ⟨s.a + t.a, s.b + t.b, s.c + t.c, s.d + t.d, s.e + t.e, s.f + t.f, s.g + t.g, s.h + t.h⟩

/-- Mixes a word into a state. -/
def mix (s : State) (w : UInt64) : State :=
  let choice := (s.e &&& s.f) ^^^ (~~~s.e &&& s.g)
  let majority := (s.a &&& s.b) ^^^ (s.a &&& s.c) ^^^ (s.b &&& s.c)
  let first := s.h + (turn s.e 14 ^^^ turn s.e 18 ^^^ turn s.e 41) + choice + w
  let second := (turn s.a 28 ^^^ turn s.a 34 ^^^ turn s.a 39) + majority
  ⟨first + second, s.a, s.b, s.c, s.d + first, s.e, s.f, s.g⟩

/-- The bytes of the words. -/
def toBytes (s : State) : List UInt8 := [s.a, s.b, s.c, s.d, s.e, s.f, s.g, s.h].flatMap bytesOfWord

end State

/-- One more word behind those of a block, of which the last comes first. -/
def stretch (ws : List UInt64) : List UInt64 :=
  let word (n : Nat) : UInt64 := ws.getD n 0
  let early := word 14
  let late := word 1
  let first := turn early 1 ^^^ turn early 8 ^^^ (early >>> 7)
  let second := turn late 19 ^^^ turn late 61 ^^^ (late >>> 6)
  (word 15 + first + word 6 + second) :: ws

/-- The words for the rounds of a block of 16 words. -/
def schedule (block : List UInt64) : List UInt64 := (Nat.repeat stretch 64 block.reverse).reverse

/-- The state behind a block. -/
def State.absorb (s : State) (block : List UInt64) : State :=
  s.add ((List.zipWith (· + ·) (schedule block) roundConstants).foldl mix s)

/-- The state behind all blocks. -/
def absorbAll (s : State) (ws : List UInt64) : State :=
  if ws.length < 16 then s else absorbAll (s.absorb (ws.take 16)) (ws.drop 16)
termination_by ws.length
decreasing_by simp only [List.length_drop]; omega

/-- The digest of bytes. -/
def sha512 (bytes : List UInt8) : List UInt8 := (absorbAll .start (words (pad bytes))).toBytes

end RecordServer.Digest
