/-!
# PEM files

A PEM file holds named sections of Base64 between a line that begins and a line that ends them; all else is passed
over. `Pem.sections` lists those of the kinds that matter here, up to the first mistake; `Pem.certificates?` and
`Pem.privateKey` pick from them.
-/

namespace RecordServer.Pem

/-- The forms of private keys: a product of primes, a key for a curve, or an envelope with a key of any kind. -/
inductive KeyForm where
  | product
  | curve
  | envelope
  deriving DecidableEq, Repr

/-- The kinds of sections. -/
inductive Kind where
  | certificate
  | privateKey (form : KeyForm)
  | other
  deriving DecidableEq, Repr

/-- A section and its bytes. -/
structure Section where
  kind : Kind
  bytes : List UInt8
  deriving DecidableEq, Repr

/-- The kind which a label names; sections with other labels are passed over without looking at them. -/
def kindOf? (label : String) : Option Kind :=
  if label = "CERTIFICATE" then some .certificate
  else if label = "RSA PRIVATE KEY" then some (.privateKey .product)
  else if label = "EC PRIVATE KEY" then some (.privateKey .curve)
  else if label = "PRIVATE KEY" then some (.privateKey .envelope)
  else if ["PUBLIC KEY", "X509 CRL", "CERTIFICATE REQUEST", "ECHCONFIG"].contains label then some .other
  else none

/-! ## Base64 -/

/-- The value of a digit. -/
def digit? (c : Char) : Option Nat :=
  if 'A' ≤ c ∧ c ≤ 'Z' then some (c.toNat - 65)
  else if 'a' ≤ c ∧ c ≤ 'z' then some (c.toNat - 71)
  else if '0' ≤ c ∧ c ≤ '9' then some (c.toNat + 4)
  else if c = '+' then some 62
  else if c = '/' then some 63
  else none

/-- The bytes of groups of four digits, of which the last may be padded. -/
def decode? : List Char → Option (List UInt8)
  | [] => some []
  | [a, b, '=', '='] => do
    return [UInt8.ofNat ((← digit? a) * 4 + (← digit? b) / 16)]
  | [a, b, c, '='] => do
    let n := ((← digit? a) * 64 + (← digit? b)) * 64 + (← digit? c)
    return [UInt8.ofNat (n / 1024), UInt8.ofNat (n / 4)]
  | a :: b :: c :: d :: rest => do
    let n := (((← digit? a) * 64 + (← digit? b)) * 64 + (← digit? c)) * 64 + (← digit? d)
    return UInt8.ofNat (n / 65536) :: UInt8.ofNat (n / 256) :: UInt8.ofNat n :: (← decode? rest)
  | _ => none

/-! ## Sections -/

/-- The lines of a text; every line feed and every carriage return ends one. -/
def lines : List Char → List (List Char)
  | [] => []
  | c :: rest =>
    if c = '\n' ∨ c = '\r' then [] :: lines rest
    else match lines rest with
      | [] => [[c]]
      | line :: more => (c :: line) :: more

/-- Five dashes. -/
def dashes : List Char := ['-', '-', '-', '-', '-']

/-- The label of a line that begins a section; the inner `none` stands for a line that does not end with five dashes,
between and behind which there may be blanks. -/
def beginning? (line : List Char) : Option (Option (List Char)) :=
  let start := dashes ++ "BEGIN ".toList
  if start.isPrefixOf line then
    let (trailer, label) := (line.drop start.length).reverse.span fun c => c = '-' ∨ c = ' '
    if trailer.count '-' = 5 then some (some (label.reverse ++ trailer.reverse.takeWhile (· = ' '))) else some none
  else none

/-- Whether a line ends the section with a label. -/
def ends (label line : List Char) : Bool := (dashes ++ "END ".toList ++ label ++ dashes).isPrefixOf line

/-- The sections behind a place, where a section with its label and its digits may be open, and whether there is no
mistake. -/
def sectionsFrom : Option (List Char × List Char) → List (List Char) → List Section × Bool
  | none, [] => ([], true)
  | some _, [] => ([], false)
  | opened, line :: rest =>
    match beginning? line with
    | some none => ([], false)
    | some (some label) => sectionsFrom (some (label, (opened.map Prod.snd).getD [])) rest
    | none =>
      match opened with
      | none => sectionsFrom none rest
      | some (label, digits) =>
        if ends label line then
          match kindOf? (String.ofList label) with
          | none => sectionsFrom none rest
          | some kind =>
            match decode? (digits.filter fun c => !c.isWhitespace) with
            | none => ([], false)
            | some bytes =>
              let (sections, complete) := sectionsFrom none rest
              (⟨kind, bytes⟩ :: sections, complete)
        else sectionsFrom (some (label, digits ++ line)) rest

/-- The sections of a file up to the first mistake, and whether there is none. -/
def sections (bytes : List UInt8) : List Section × Bool :=
  sectionsFrom none (lines (bytes.map fun b => Char.ofNat b.toNat))

/-- The bytes of the certificates, or `none` if there is a mistake. -/
def certificates? (bytes : List UInt8) : Option (List (List UInt8)) :=
  match sections bytes with
  | (sections, true) => some ((sections.filter fun s => s.kind = .certificate).map Section.bytes)
  | (_, false) => none

/-- What is found where a private key is looked for: the first one in front of any mistake, nothing or a mistake. -/
inductive KeySearch where
  | found (form : KeyForm) (bytes : List UInt8)
  | missing
  | malformed
  deriving DecidableEq, Repr

/-- Looks for a private key among the sections in front of the end or of a mistake. -/
def findKey (complete : Bool) : List Section → KeySearch
  | [] => if complete then .missing else .malformed
  | s :: rest =>
    match s.kind with
    | .privateKey form => .found form s.bytes
    | _ => findKey complete rest

/-- Looks for a private key. -/
def privateKey (bytes : List UInt8) : KeySearch :=
  let (sections, complete) := sections bytes
  findKey complete sections

end RecordServer.Pem
