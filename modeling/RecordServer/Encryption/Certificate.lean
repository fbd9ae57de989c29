import RecordServer.Encryption.Der
import RecordServer.Fault

/-!
# Certificates

`Certificate.publicKey` gives the public key in a certificate, or the flaw of bytes which are no certificate of the
third version. Of the extensions only those are looked into which every reader of certificates has to know.
-/

namespace RecordServer.Certificate

/-- Reads from the beginning of bytes, or finds a flaw. -/
abbrev Reader := StateT (List UInt8) (Except CertificateFlaw)

/-- Reads DER. -/
def der (reader : Der.Reader α) : Reader α := fun bytes =>
  match reader bytes with
  | some result => .ok result
  | none => .error .badEncoding

/-- What a reader gives for some bytes; to leave some of them unread is a flaw. -/
def whole (left : CertificateFlaw) (reader : Reader α) (bytes : List UInt8) : Except CertificateFlaw α := do
  let (a, rest) ← reader bytes
  if rest = [] then .ok a else .error left

/-! ## Extensions -/

/-- An extension: its identifier, whether it has to be understood, and its value. -/
structure Extension where
  identifier : List UInt8
  critical : Bool
  value : List UInt8

/-- Reads whether an extension has to be understood. -/
def readCritical : Der.Reader Bool := do
  if ← Der.isNext 0x01 then
    match ← Der.value 0x01 with
    | [0xFF] => return true
    | [0x00] => return false
    | _ => failure
  else return false

/-- Reads an extension, of which the sequence has been opened. -/
def readExtension : Der.Reader Extension := do
  return ⟨← Der.value Der.identifier, ← readCritical, ← Der.value Der.octetString⟩

/-- The number of an extension which every reader knows: the use of the key, other names of the subject, constraints,
constraints on names, lists of withdrawn certificates, and further uses of the key. -/
def known? (e : Extension) : Option UInt8 :=
  match e.identifier with
  | [0x55, 0x1D, n] => if [15, 17, 19, 30, 31, 37].contains n then some n else none
  | _ => none

/-- Whether the value of an extension with a number has the right form; the use of the key is looked at elsewhere. -/
def hasForm (n : UInt8) (value : List UInt8) : Bool := n = 15 || (Der.whole (Der.value Der.sequence) value).isSome

/-- Accepts an extension behind those with some numbers, and gives the numbers with its own. -/
def acceptExtension (seen : List UInt8) (e : Extension) : Except CertificateFlaw (List UInt8) :=
  match known? e with
  | none => if e.critical then .error .unsupportedCriticalExtension else .ok seen
  | some n =>
    if seen.contains n then .error .extensionValueInvalid
    else if hasForm n e.value then .ok (n :: seen)
    else .error .badEncoding

/-- Accepts the extensions which are written in bytes, at most as many as the first argument says. -/
def acceptExtensions : Nat → List UInt8 → List UInt8 → Except CertificateFlaw Unit
  | _, _, [] => .ok ()
  | 0, _, _ => .error .badEncoding
  | n + 1, seen, bytes => do
    let (content, rest) ← der (Der.value Der.sequence) bytes
    let (e, left) ← der readExtension content
    let seen ← acceptExtension seen e
    if left = [] then acceptExtensions n seen rest else .error .badEncoding

/-- Reads the extensions at the end of a certificate, if there are any. -/
def readExtensions : Reader Unit := do
  if (← get) ≠ [] then
    let content ← der (Der.value (Der.member 3))
    let (bytes, left) ← (der (Der.value Der.sequence) content : Except CertificateFlaw _)
    acceptExtensions bytes.length [] bytes
    if left ≠ [] then throw .badEncoding

/-! ## Certificates -/

/-- Reads the version, which has to be the third. -/
def readVersion : Reader Unit := fun bytes =>
  match Der.value (Der.member 0) bytes with
  | none => .error .unsupportedVersion
  | some (content, rest) => do
    let version ← whole .unsupportedVersion (der Der.small) content
    if version = 2 then .ok ((), rest) else .error .unsupportedVersion

/-- Reads the signed part of a certificate whose signature is made with an algorithm, and gives the public key. -/
def readSigned (algorithm : List UInt8) : Reader (List UInt8) := do
  readVersion
  let _ ← der (Der.value Der.integer)
  let stated ← der (Der.value Der.sequence)
  if stated ≠ algorithm then throw .signatureAlgorithmMismatch
  let _ ← der (Der.value Der.sequence)
  let _ ← der (Der.value Der.sequence)
  let _ ← der (Der.value Der.sequence)
  let key ← der (Der.value Der.sequence)
  readExtensions
  return key

/-- Reads the signed part of a certificate and the algorithm of its signature. -/
def readEnvelope : Der.Reader (List UInt8 × List UInt8) :=
  Der.nested Der.sequence do
    let signed ← Der.value Der.sequence
    let algorithm ← Der.value Der.sequence
    let _ ← Der.bits
    return (signed, algorithm)

/-- The most bytes which a certificate can have. -/
def maxSize : Nat := 65538

/-- The public key in a certificate. -/
def publicKey (bytes : List UInt8) : Except CertificateFlaw (List UInt8) :=
  match Der.whole readEnvelope bytes with
  | none => .error .badEncoding
  | some (signed, algorithm) =>
    if maxSize < bytes.length then .error .badEncoding
    else whole .badEncoding (readSigned algorithm) signed

end RecordServer.Certificate
