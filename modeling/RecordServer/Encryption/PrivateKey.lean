import RecordServer.Encryption.Curve
import RecordServer.Encryption.Pem

/-!
# Private keys

`PrivateKey.publicKey?` gives the public key which belongs to a private key, in the form in which certificates hold
it. There is none unless the private key is complete and all of its parts belong together: a product of two primes of
2048 to 4096 bits, or a key for one of the curves.
-/

namespace RecordServer.PrivateKey

/-! ## Algorithms -/

/-- The identifier of keys for a curve. -/
def curveKey : List UInt8 := Der.write Der.identifier [0x2A, 0x86, 0x48, 0xCE, 0x3D, 0x02, 0x01]

/-- The identifier of the curve of 256 bits. -/
def curve256 : List UInt8 := Der.write Der.identifier [0x2A, 0x86, 0x48, 0xCE, 0x3D, 0x03, 0x01, 0x07]

/-- The identifier of the curve of 384 bits. -/
def curve384 : List UInt8 := Der.write Der.identifier [0x2B, 0x81, 0x04, 0x00, 0x22]

/-- The algorithm of keys for the Edwards curve. -/
def edwards : List UInt8 := Der.write Der.identifier [0x2B, 0x65, 0x70]

/-- The algorithm of products of primes. -/
def product : List UInt8 :=
  Der.write Der.identifier [0x2A, 0x86, 0x48, 0x86, 0xF7, 0x0D, 0x01, 0x01, 0x01] ++ [0x05, 0x00]

/-- A public key with its algorithm, as in certificates. -/
def publicKeyInfo (algorithm key : List UInt8) : List UInt8 := Der.write Der.sequence algorithm ++ Der.writeBits key

/-! ## Envelopes -/

/-- Reads the private key for an algorithm out of an envelope: the key, and the public key in envelopes of the second
version, of which the flag tells whether they are accepted. -/
def envelope (algorithm : List UInt8) (second : Bool) : Der.Reader (List UInt8 × Option (List UInt8)) :=
  Der.nested Der.sequence do
    let version ← Der.small
    let actual ← Der.value Der.sequence
    if actual ≠ algorithm then failure
    let key ← Der.value Der.octetString
    if ← Der.isNext (Der.member 0) then
      let _ ← Der.value (Der.member 0)
    if version = 0 then return (key, none)
    else if version = 1 ∧ second then
      if ← Der.isNext (Der.member 1) then return (key, some (← Der.nested (Der.member 1) Der.bits))
      else return (key, some (← Der.bitsTagged (Der.plainMember 1)))
    else failure

/-! ## Products of primes -/

/-- A product `n` of two primes with the exponents `e` and `d` and what speeds up computations with `d`. -/
structure Product where
  n : Nat
  e : Nat
  d : Nat
  p : Nat
  q : Nat
  dp : Nat
  dq : Nat
  inverse : Nat

namespace Product

/-- Reads a product. -/
def read : Der.Reader Product :=
  Der.nested Der.sequence do
    let version ← Der.small
    if version ≠ 0 then failure
    let n ← Der.natural
    let e ← Der.natural
    let d ← Der.natural
    let p ← Der.natural
    let q ← Der.natural
    let dp ← Der.natural
    let dq ← Der.natural
    let inverse ← Der.natural
    return ⟨n, e, d, p, q, dp, dq, inverse⟩

/-- The number of binary digits. -/
def digits (n : Nat) : Nat := if n = 0 then 0 else n.log2 + 1

/-- Whether a number can be one of the primes of a product, and another its exponent. -/
def isPart (k : Product) (p dp : Nat) : Bool :=
  p % 2 = 1 && digits p = (digits k.n + 1) / 2 && digits p % 512 = 0 && dp % 2 = 1 && dp < p

/-- Whether the parts belong together and the product is neither too small nor too large. -/
def isSound (k : Product) : Bool :=
  k.n % 2 = 1 && 2040 < digits k.n && digits k.n ≤ 4096 &&
    k.e % 2 = 1 && 65537 ≤ k.e && digits k.e ≤ 33 &&
    k.d % 2 = 1 && k.d < k.n && (digits k.n + 1) / 2 < digits k.d &&
    k.isPart k.p k.dp && k.isPart k.q k.dq && k.p * k.q % k.n = 0 &&
    k.inverse < k.p && k.inverse * k.q % k.p = 1

/-- The public key for a product. -/
def publicKey (k : Product) : List UInt8 :=
  publicKeyInfo product (Der.write Der.sequence (Der.writeNatural k.n ++ Der.writeNatural k.e))

end Product

/-- The public key for the bytes of a product. -/
def ofProduct? (bytes : List UInt8) : Option (List UInt8) := do
  let k ← Der.whole Product.read bytes
  if k.isSound then some k.publicKey else none

/-! ## Keys for curves -/

/-- Reads the private and the public key for a curve, of which the identifier may be given. -/
def readCurveKey (identifier : List UInt8) : Der.Reader (List UInt8 × List UInt8) :=
  Der.nested Der.sequence do
    let version ← Der.small
    if version ≠ 1 then failure
    let key ← Der.value Der.octetString
    if ← Der.isNext (Der.member 0) then
      let actual ← Der.value (Der.member 0)
      if actual ≠ identifier then failure
    return (key, ← Der.nested (Der.member 1) Der.bits)

/-- The public key for the bytes of a key for a curve with an identifier. -/
def ofCurveKey? (c : Curve) (identifier bytes : List UInt8) : Option (List UInt8) := do
  let (key, publicKey) ← Der.whole (readCurveKey identifier) bytes
  if c.publicKey? key = some publicKey then some (publicKeyInfo (curveKey ++ identifier) publicKey) else none

/-- The public key for an envelope with a key for a curve with an identifier. -/
def ofCurveEnvelope? (c : Curve) (identifier bytes : List UInt8) : Option (List UInt8) := do
  let (key, _) ← Der.whole (envelope (curveKey ++ identifier) false) bytes
  ofCurveKey? c identifier key

/-- The public key for an envelope with a key for the Edwards curve. -/
def ofEdwardsEnvelope? (bytes : List UInt8) : Option (List UInt8) := do
  let (inner, stated) ← Der.whole (envelope edwards true) bytes
  let key ← Der.whole (Der.value Der.octetString) inner
  if key.length = 32 then
    let publicKey := Edwards.publicKey key
    if stated.all (· = publicKey) then some (publicKeyInfo edwards publicKey) else none
  else none

/-- The public key for the bytes of a private key in some form. -/
def publicKey? (form : Pem.KeyForm) (bytes : List UInt8) : Option (List UInt8) :=
  match form with
  | .product => ofProduct? bytes
  | .curve => (ofCurveKey? .p256 curve256 bytes).or (ofCurveKey? .p384 curve384 bytes)
  | .envelope =>
    let ofProductEnvelope? := (Der.whole (envelope product false) bytes).bind fun (key, _) => ofProduct? key
    ofProductEnvelope?.or ((ofCurveEnvelope? .p256 curve256 bytes).or
      ((ofCurveEnvelope? .p384 curve384 bytes).or (ofEdwardsEnvelope? bytes)))

end RecordServer.PrivateKey
