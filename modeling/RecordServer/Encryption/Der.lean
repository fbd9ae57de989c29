/-!
# DER

DER writes a value as a tag, the length of its content and the content. A `Der.Reader` reads values from the beginning
of some bytes: `value` one with a tag, `nested` what is in it, `natural` and `bits` numbers and bits. `Der.write` is
the value with a tag and a content.

Lengths have one form each, in at most three bytes, and tags are one byte.
-/

namespace RecordServer.Der

/-! ## Tags -/

/-- The tag of an integer. -/
def integer : UInt8 := 0x02

/-- The tag of a string of bits. -/
def bitString : UInt8 := 0x03

/-- The tag of a string of bytes. -/
def octetString : UInt8 := 0x04

/-- The tag of an identifier. -/
def identifier : UInt8 := 0x06

/-- The tag of a sequence. -/
def sequence : UInt8 := 0x30

/-- The tag of the member of a sequence with a number, whose content is values. -/
def member (n : UInt8) : UInt8 := 0xA0 + n

/-- The tag of the member of a sequence with a number, whose content is no values. -/
def plainMember (n : UInt8) : UInt8 := 0x80 + n

/-! ## Numbers -/

/-- The number which bytes make up, the highest byte first. -/
def number (bytes : List UInt8) : Nat := bytes.foldl (fun n b => n * 256 + b.toNat) 0

/-- The lowest bytes of a number, the highest of them first. -/
def bytesOf : Nat → Nat → List UInt8
  | 0, _ => []
  | size + 1, n => bytesOf size (n / 256) ++ [UInt8.ofNat n]

/-! ## Reading -/

/-- Reads from the beginning of bytes; `none` stands for bytes of another form. -/
abbrev Reader := StateT (List UInt8) Option

/-- Reads a length. -/
def length : Reader Nat := fun bytes =>
  match bytes with
  | 0x81 :: a :: rest => if a < 128 then none else some (a.toNat, rest)
  | 0x82 :: a :: b :: rest =>
    let n := a.toNat * 256 + b.toNat
    if n < 256 then none else some (n, rest)
  | a :: rest => if a < 128 then some (a.toNat, rest) else none
  | [] => none

/-- Reads a value and gives its tag and its content. -/
def anyValue : Reader (UInt8 × List UInt8) := fun bytes =>
  match bytes with
  | [] => none
  | tag :: rest => do
    let (n, rest) ← length rest
    if tag % 32 = 31 ∨ rest.length < n then none else some ((tag, rest.take n), rest.drop n)

/-- Reads a value with a tag and gives its content. -/
def value (tag : UInt8) : Reader (List UInt8) := do
  let (actual, content) ← anyValue
  if actual = tag then return content else failure

/-- What a reader gives for some bytes, all of which it has to read. -/
def whole (reader : Reader α) (bytes : List UInt8) : Option α :=
  match reader bytes with
  | some (a, []) => some a
  | _ => none

/-- Reads a value with a tag and gives what a reader gives for its content. -/
def nested (tag : UInt8) (reader : Reader α) : Reader α := do
  let content ← value tag
  (whole reader content : Option α)

/-- Whether a tag comes next. -/
def isNext (tag : UInt8) : Reader Bool := do return (← get).head? == some tag

/-- The bytes of a natural number in the content of an integer, without a zero in front of them. -/
def naturalBytes? : List UInt8 → Option (List UInt8)
  | [] => none
  | [0] => some [0]
  | 0 :: b :: rest => if b < 128 then none else some (b :: rest)
  | b :: rest => if b < 128 then some (b :: rest) else none

/-- Reads a natural number. -/
def natural : Reader Nat := do
  let content ← value integer
  let bytes ← (naturalBytes? content : Option (List UInt8))
  return number bytes

/-- Reads a natural number which is one byte. -/
def small : Reader Nat := do
  let n ← natural
  if n < 256 then return n else failure

/-- The bytes in the content of a string of bits, which ends with a byte. -/
def wholeBytes? : List UInt8 → Option (List UInt8)
  | 0 :: rest => some rest
  | _ => none

/-- Reads a string of bits with a tag. -/
def bitsTagged (tag : UInt8) : Reader (List UInt8) := do
  let content ← value tag
  (wholeBytes? content : Option (List UInt8))

/-- Reads a string of bits. -/
def bits : Reader (List UInt8) := bitsTagged bitString

/-! ## Writing -/

/-- The number of bytes of a number. -/
def sizeOf (n : Nat) : Nat := if n < 256 then 1 else sizeOf (n / 256) + 1

/-- A length. -/
def writeLength (n : Nat) : List UInt8 :=
  if n < 128 then [UInt8.ofNat n] else UInt8.ofNat (128 + sizeOf n) :: bytesOf (sizeOf n) n

/-- The value with a tag and a content. -/
def write (tag : UInt8) (content : List UInt8) : List UInt8 := tag :: writeLength content.length ++ content

/-- A natural number. -/
def writeNatural (n : Nat) : List UInt8 :=
  let bytes := bytesOf (sizeOf n) n
  write integer (if bytes.headD 0 < 128 then bytes else 0 :: bytes)

/-- Bytes as a string of bits. -/
def writeBits (bytes : List UInt8) : List UInt8 := write bitString (0 :: bytes)

end RecordServer.Der
