/-!
# UTF-8

Texts as bytes (`encode`) and bytes as texts. `next` reads one character or one ill-formed sequence, and never looks
further than it consumes: the longest beginning of a character counts as one ill-formed sequence, every other byte that
begins none as one of its own. `decode?` refuses ill-formed bytes, `decodeLossy` puts U+FFFD for each such sequence.
-/

namespace RecordServer.Text.Utf8

/-- The bytes of a character. -/
def encodeChar (c : Char) : List UInt8 := String.utf8EncodeChar c

/-- The bytes for a number of up to 21 bits, by the scheme for characters also where it is none. -/
def encodeNumber (n : Nat) : List UInt8 :=
  let last (n : Nat) : UInt8 := UInt8.ofNat (0x80 + n % 64)
  if n < 0x80 then [UInt8.ofNat n]
  else if n < 0x800 then [UInt8.ofNat (0xC0 + n / 64), last n]
  else if n < 0x10000 then [UInt8.ofNat (0xE0 + n / 4096), last (n / 64), last n]
  else [UInt8.ofNat (0xF0 + n / 262144 % 8), last (n / 4096), last (n / 64), last n]

/-- The bytes of a text. -/
def encode (text : String) : List UInt8 := text.toList.flatMap encodeChar

/-- What a first byte announces: the bits it holds, the range of the second byte, and the number of bytes to come. -/
structure Lead where
  bits : Nat
  low : UInt8
  high : UInt8
  more : Nat

/-- The first bytes of the characters of two, three and four bytes. -/
def lead? (b : UInt8) : Option Lead :=
  if b < 0xC2 then none
  else if b < 0xE0 then some ⟨b.toNat - 0xC0, 0x80, 0xBF, 1⟩
  else if b = 0xE0 then some ⟨0, 0xA0, 0xBF, 2⟩
  else if b = 0xED then some ⟨0xD, 0x80, 0x9F, 2⟩
  else if b < 0xF0 then some ⟨b.toNat - 0xE0, 0x80, 0xBF, 2⟩
  else if b = 0xF0 then some ⟨0, 0x90, 0xBF, 3⟩
  else if b < 0xF4 then some ⟨b.toNat - 0xF0, 0x80, 0xBF, 3⟩
  else if b = 0xF4 then some ⟨4, 0x80, 0x8F, 3⟩
  else none

/-- Reads `more` further bytes, the first of them in the given range; `none` stands for an ill-formed sequence. -/
def continuation (bits : Nat) (low high : UInt8) : Nat → List UInt8 → Option Char × List UInt8
  | 0, bytes => (some (Char.ofNat bits), bytes)
  | _ + 1, [] => (none, [])
  | more + 1, b :: rest =>
    if low ≤ b && b ≤ high then continuation (bits * 64 + (b.toNat - 0x80)) 0x80 0xBF more rest
    else (none, b :: rest)

/-- The character or ill-formed sequence that begins with byte `b`, and the bytes behind it. -/
def next (b : UInt8) (rest : List UInt8) : Option Char × List UInt8 :=
  if b < 0x80 then (some (Char.ofNat b.toNat), rest)
  else match lead? b with
    | none => (none, rest)
    | some l => continuation l.bits l.low l.high l.more rest

/-- Further bytes only shorten the rest. -/
theorem continuation_length_le (bits : Nat) (low high : UInt8) (more : Nat) (bytes : List UInt8) :
    (continuation bits low high more bytes).2.length ≤ bytes.length := by
  induction more generalizing bits low high bytes with
  | zero => simp [continuation]
  | succ n ih =>
    cases bytes with
    | nil => simp [continuation]
    | cons b rest =>
      simp only [continuation]
      split
      · exact Nat.le_trans (ih ..) (by simp)
      · simp

/-- One step consumes its first byte at least. -/
theorem next_length_le (b : UInt8) (rest : List UInt8) : (next b rest).2.length ≤ rest.length := by
  unfold next
  split
  · simp
  · split
    · simp
    · exact continuation_length_le ..

/-- The characters of the bytes, with `none` for each ill-formed sequence. -/
def pieces : List UInt8 → List (Option Char)
  | [] => []
  | b :: rest => (next b rest).1 :: pieces (next b rest).2
termination_by bytes => bytes.length
decreasing_by exact Nat.lt_succ_of_le (next_length_le b rest)

/-- The text of well-formed bytes. -/
def decode? (bytes : List UInt8) : Option String :=
  let found := pieces bytes
  if found.all Option.isSome then some (String.ofList (found.filterMap id)) else none

/-- The text of the bytes with U+FFFD in place of every ill-formed sequence. -/
def decodeLossy (bytes : List UInt8) : String :=
  String.ofList ((pieces bytes).map fun c => c.getD '\uFFFD')

end RecordServer.Text.Utf8
