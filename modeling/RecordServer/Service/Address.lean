import RecordServer.Text.Split

/-!
# Addresses

An `Address` is a host and a port at which a server listens. `Address.ofText?` reads one: a host of version 4, also with
less than four numbers and with numbers in base 8 or 16, a host of version 6, in brackets or not, or the name of this
machine, and behind a colon the port.

`Address.isOwn` holds of the addresses at which this machine can listen, `Address.conflicts` of two at which it cannot
listen at the same time.
-/

namespace RecordServer

/-- A host by its number. -/
inductive Host where
  | v4 (number : Nat)
  | v6 (number : Nat)
  deriving DecidableEq, Repr

/-- A host and a port. -/
structure Address where
  host : Host
  port : Nat
  deriving DecidableEq, Repr

namespace Host

/-! ## Numbers -/

/-- The value of a digit in bases up to 16. -/
def digit? (c : Char) : Option Nat :=
  if c.isDigit then some (c.toNat - '0'.toNat)
  else if 'a' ≤ c.toLower ∧ c.toLower ≤ 'f' then some (c.toLower.toNat - 'a'.toNat + 10)
  else none

/-- The number which is written with some digits in a base; without digits there is none. -/
def number? (base : Nat) (cs : List Char) : Option Nat :=
  if cs = [] then none
  else cs.foldlM (fun n c => do
    let d ← digit? c
    if d < base then some (n * base + d) else none) 0

/-- A number in base 16 behind `0x`, in base 8 behind `0` and in base 10 otherwise. -/
def anyNumber? : List Char → Option Nat
  | '0' :: 'x' :: rest => number? 16 rest
  | '0' :: 'X' :: rest => number? 16 rest
  | '0' :: rest => if rest = [] then some 0 else number? 8 rest
  | cs => number? 10 cs

/-! ## Version 4 -/

/-- The host of one to four numbers, each of which stands for one byte, but the last one for all that are left. The
first argument is how many values are left. -/
def ofNumbers? (values : Nat) : List Nat → Option Nat
  | [] => none
  | [n] => if n < values then some n else none
  | n :: rest =>
    if n < 256 ∧ 256 < values then (ofNumbers? (values / 256) rest).map (n * (values / 256) + ·) else none

/-- Reads a host of version 4 with one to four numbers. -/
def readV4? (cs : List Char) : Option Nat := do
  ofNumbers? 4294967296 (← (Text.pieces '.' cs).mapM anyNumber?)

/-- Reads a host of version 4 with four numbers in base 10, which have no zeros in front. -/
def readPlainV4? (cs : List Char) : Option Nat := do
  let pieces := Text.pieces '.' cs
  let ns ← pieces.mapM fun piece =>
    if piece.length ≤ 3 ∧ (piece.length = 1 ∨ piece.head? ≠ some '0') then number? 10 piece else none
  if ns.length = 4 then ofNumbers? 4294967296 ns else none

/-! ## Version 6 -/

/-- The groups of 16 bits which are written between colons, where the last two may be written as a host of version
4. -/
def readGroups? (cs : List Char) : Option (List Nat) :=
  if cs = [] then some []
  else
    let pieces := Text.pieces ':' cs
    let last := pieces.getLastD []
    let group? (piece : List Char) : Option Nat := if piece.length ≤ 4 then number? 16 piece else none
    if last.contains '.' then do
      let groups ← pieces.dropLast.mapM group?
      let n ← readPlainV4? last
      return groups ++ [n / 65536, n % 65536]
    else pieces.mapM group?

/-- The parts in front of and behind the first pair of colons. -/
def cutPair? : List Char → Option (List Char × List Char)
  | ':' :: ':' :: rest => some ([], rest)
  | [] => none
  | c :: rest => (cutPair? rest).map fun (before, behind) => (c :: before, behind)

/-- Eight groups with at least one zero between those in front and those behind. -/
def fill? (before behind : List Nat) : Option (List Nat) :=
  if before.length + behind.length < 8 then
    some (before ++ List.replicate (8 - before.length - behind.length) 0 ++ behind)
  else none

/-- Reads a host of version 6: eight groups, or less with a pair of colons in place of those that are zero. -/
def readV6? (cs : List Char) : Option Nat := do
  let groups ← match cutPair? cs with
    | none => readGroups? cs
    | some (before, behind) => fill? (← readGroups? before) (← readGroups? behind)
  if groups.length = 8 then some (groups.foldl (fun n g => n * 65536 + g) 0) else none

/-- Reads a host of version 6, perhaps with the number of a network behind it. -/
def readScopedV6? (cs : List Char) : Option Nat :=
  match cs.span (· ≠ '%') with
  | (host, []) => readV6? host
  | (host, _ :: network) => do if (← number? 10 network) < 4294967296 then readV6? host else none

/-! ## Hosts -/

/-- Reads a host. -/
def ofChars? (cs : List Char) : Option Host :=
  if (String.ofList cs).toLower = "localhost" then some (.v4 0x7F000001)
  else match readV4? cs with
    | some n => some (.v4 n)
    | none => (readScopedV6? cs).map .v6

/-- A host of version 4 also where it is written as one of version 6. -/
def plain : Host → Host
  | v6 n => if n / 4294967296 = 0xFFFF then .v4 (n % 4294967296) else .v6 n
  | h => h

/-- Whether this machine can listen at a host: all of its hosts, the host itself or a group of hosts. -/
def isOwn (h : Host) : Bool :=
  match h.plain with
  | v4 n => n = 0 || n / 16777216 = 127 || n / 268435456 = 14 || n = 4294967295
  | v6 n => n ≤ 1

/-- Whether what comes to one host also comes to the other. -/
def overlaps (a b : Host) : Bool :=
  match a.plain, b.plain with
  | v6 0, _ => true
  | _, v6 0 => true
  | v4 0, v4 _ => true
  | v4 _, v4 0 => true
  | a, b => a == b

end Host

namespace Address

/-- Reads a port, perhaps with a sign. -/
def readPort? (cs : List Char) : Option Nat := do
  let n ← Host.number? 10 (match cs with
    | '+' :: rest => rest
    | cs => cs)
  if n < 65536 then some n else none

/-- Reads an address behind the bracket that opens its host. -/
def readBracketed? (cs : List Char) : Option Address :=
  match cs.span (· ≠ ']') with
  | (host, ']' :: ':' :: port) =>
    if port.head? = some '+' then none else do return ⟨.v6 (← Host.readScopedV6? host), ← readPort? port⟩
  | _ => none

/-- Reads an address. -/
def ofText? (text : String) : Option Address :=
  match text.toList with
  | '[' :: rest => readBracketed? rest
  | cs =>
    match cs.reverse.span (· ≠ ':') with
    | (port, _ :: host) => do return ⟨← Host.ofChars? host.reverse, ← readPort? port.reverse⟩
    | _ => none

/-- Whether this machine can listen at the address. -/
def isOwn (a : Address) : Bool := a.host.isOwn

/-- Whether not both addresses can be listened at. At port 0 every server gets a port of its own. -/
def conflicts (a b : Address) : Bool := a.port == b.port && a.port != 0 && a.host.overlaps b.host

end Address

end RecordServer
