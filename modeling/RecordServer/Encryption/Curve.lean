import RecordServer.Encryption.Der
import RecordServer.Encryption.Digest

/-!
# Curves

The points of a curve modulo a prime form a group. A private key is a number, and its public key is that multiple of a
point which belongs to the curve.

`Curve` are the curves `y² = x³ - 3 x + b`, of which `Curve.p256` and `Curve.p384` are in use; `Curve.publicKey?` gives
the public key for a private key. `Edwards` is the curve `y² - x² = 1 + d x² y²`, where the private key is a digest;
`Edwards.publicKey` gives the public key.

Coordinates are residues, numbers up to a modulus, of which there are differences and inverses. `Residue.multiple` adds
a member of a group to itself as often as a number says, in as many steps as the number has binary digits.
-/

namespace RecordServer

/-! ## Residues -/

namespace Residue

/-- The difference of two residues. -/
def sub (m a b : Nat) : Nat := (a + (m - b % m)) % m

/-- The steps of the algorithm of Euclid for a modulus: each remainder `a` and `b` is a multiple of the number whose
inverse is sought, with the factors `s` and `t`. -/
def inverseFrom (m a s b t : Nat) : Nat :=
  if b = 0 then s else inverseFrom m b t (a % b) (sub m s (a / b * t))
termination_by b
decreasing_by exact Nat.mod_lt _ (Nat.pos_of_ne_zero ‹¬b = 0›)

/-- The inverse of a residue, if it has one. -/
def inverse (m a : Nat) : Nat := inverseFrom m m 0 (a % m) 1

/-- The quotient of two residues, if the second has an inverse. -/
def div (m a b : Nat) : Nat := a * inverse m b % m

/-- The sum of as many times the same member of a group as a number says. -/
def multiple (zero : α) (add : α → α → α) (n : Nat) (a : α) : α :=
  if n = 0 then zero
  else
    let rest := multiple zero add (n / 2) (add a a)
    if n % 2 = 1 then add a rest else rest
termination_by n
decreasing_by omega

end Residue

/-! ## Curves -/

/-- The coordinates of a point. -/
structure Point where
  x : Nat
  y : Nat
  deriving DecidableEq, Repr

/-- A curve `y² = x³ - 3 x + b` modulo a prime, a point on it and how often that point has to be added to itself until
the sum is zero. Coordinates and private keys are written in a number of bytes. -/
structure Curve where
  size : Nat
  prime : Nat
  base : Point
  order : Nat

namespace Curve

/-- The curve of 256 bits. -/
def p256 : Curve where
  size := 32
  prime := 0xffffffff00000001000000000000000000000000ffffffffffffffffffffffff
  base := ⟨0x6b17d1f2e12c4247f8bce6e563a440f277037d812deb33a0f4a13945d898c296,
    0x4fe342e2fe1a7f9b8ee7eb4a7c0f9e162bce33576b315ececbb6406837bf51f5⟩
  order := 0xffffffff00000000ffffffffffffffffbce6faada7179e84f3b9cac2fc632551

/-- The curve of 384 bits. -/
def p384 : Curve where
  size := 48
  prime := 0xfffffffffffffffffffffffffffffffffffffffffffffffffffffffffffffffeffffffff0000000000000000ffffffff
  base := ⟨0xaa87ca22be8b05378eb1c71ef320ad746e1d3b628ba79b9859f741e082542a385502f25dbf55296c3a545e3872760ab7,
    0x3617de4a96262c6f5d9e98bf9292dc29f8f41dbd289a147ce9da3113b5f0b8c00a60b1ce1d7e819d7a431d7c90ea0e5f⟩
  order := 0xffffffffffffffffffffffffffffffffffffffffffffffffc7634d81f4372ddf581a0db248b0a77aecec196accc52973

/-- The sum of two points, where no point is zero: the line through both meets the curve in the negative of the sum. -/
def add (c : Curve) : Option Point → Option Point → Option Point
  | none, q => q
  | p, none => p
  | some p, some q =>
    if p.x = q.x ∧ (p.y + q.y) % c.prime = 0 then none
    else
      let slope := if p.x = q.x then Residue.div c.prime (3 * Residue.sub c.prime (p.x * p.x) 1) (2 * p.y)
        else Residue.div c.prime (Residue.sub c.prime q.y p.y) (Residue.sub c.prime q.x p.x)
      let x := Residue.sub c.prime (slope * slope) (p.x + q.x)
      some ⟨x, Residue.sub c.prime (slope * Residue.sub c.prime p.x x) p.y⟩

/-- The public key for the bytes of a private key. -/
def publicKey? (c : Curve) (key : List UInt8) : Option (List UInt8) :=
  let n := Der.number key
  if key.length = c.size ∧ 0 < n ∧ n < c.order then
    (Residue.multiple none c.add n (some c.base)).map fun p =>
      4 :: Der.bytesOf c.size p.x ++ Der.bytesOf c.size p.y
  else none

end Curve

namespace Edwards

/-- The number modulo which the curve is taken. -/
def prime : Nat := 0x7fffffffffffffffffffffffffffffffffffffffffffffffffffffffffffffed

/-- The factor in the equation of the curve. -/
def factor : Nat := Residue.div prime (prime - 121665) 121666

/-- The point of which public keys are multiples. -/
def base : Point :=
  ⟨0x216936d3cd6e53fec0a4e231fdd6dc5c692cc7609525a7b2c9562d608f25d51a,
    0x6666666666666666666666666666666666666666666666666666666666666658⟩

/-- The zero of the group. -/
def zero : Point := ⟨0, 1⟩

/-- The sum of two points. -/
def add (p q : Point) : Point :=
  let mixed := factor * (p.x * q.x % prime) * (p.y * q.y % prime) % prime
  ⟨Residue.div prime (p.x * q.y + q.x * p.y) (1 + mixed),
    Residue.div prime (p.y * q.y + p.x * q.x) (Residue.sub prime 1 mixed)⟩

/-- The number for a private key: one half of its digest, the lowest byte first, in which the lowest three and the
highest bit are zero and the second highest is one. -/
def scalar (key : List UInt8) : Nat :=
  let n := Der.number ((Digest.sha512 key).take 32).reverse
  n % (1 <<< 254) / 8 * 8 + 1 <<< 254

/-- The public key for the bytes of a private key: the second coordinate, the lowest byte first, and in its highest bit
whether the first is odd. -/
def publicKey (key : List UInt8) : List UInt8 :=
  let p := Residue.multiple zero add (scalar key) base
  (Der.bytesOf 32 (p.y + (p.x % 2) <<< 255)).reverse

end Edwards

end RecordServer
