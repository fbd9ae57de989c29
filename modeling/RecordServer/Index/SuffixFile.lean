import RecordServer.Fault
import RecordServer.Index.Suffix
import RecordServer.Sorting.Arrangement

/-!
# Suffix files

A `SuffixFile` is an index file: for each property the bytes of all its keys and a table of their suffixes, sorted by
their bytes and then by position, so that the suffixes which begin with a text are next to each other and found by
bisection (`SuffixFile.search`). `encode` writes such a file and `decode?` reads one.

A file begins with eight fixed bytes, its flags and the number of its tables. Then come the heads of the tables, each
with the length and the bytes of its property, offset and length of its keys, and offset and number of its entries;
and then the keys and entries themselves. Numbers are little endian, of eight bytes, except for flags, lengths and the
number of tables, which have four. Ends of ranges are calculated with 64 bits.
-/

namespace RecordServer

/-! ## Numbers -/

/-- A number in a fixed number of bytes, the lowest first. -/
def littleEndian (n : Nat) : Nat → List UInt8
  | 0 => []
  | size + 1 => UInt8.ofNat n :: littleEndian (n / 256) size

/-- The number of some bytes, the lowest first. -/
def ofLittleEndian : List UInt8 → Nat
  | [] => 0
  | b :: rest => b.toNat + 256 * ofLittleEndian rest

/-- The first bytes and those behind them, if there are enough. -/
def splitBytes? (size : Nat) (bytes : List UInt8) : Option (List UInt8 × List UInt8) :=
  let first := bytes.take size
  if first.length = size then some (first, bytes.drop size) else none

/-- A number at the beginning, and the bytes behind it. -/
def readNumber? (size : Nat) (bytes : List UInt8) : Option (Nat × List UInt8) :=
  (splitBytes? size bytes).map fun (first, rest) => (ofLittleEndian first, rest)

/-! ## Tables -/

/-- A suffix: where it begins within the keys, its length, and the position of its record. -/
structure SuffixEntry where
  start : UInt64
  length : UInt32
  position : UInt64
  deriving DecidableEq, Repr, Inhabited

namespace SuffixEntry

/-- Where a suffix ends. -/
def stop (e : SuffixEntry) : UInt64 := e.start + e.length.toUInt64

/-- The bytes of a suffix; none if it is not within the keys. -/
def bytes (e : SuffixEntry) (keys : List UInt8) : List UInt8 :=
  if e.start ≤ e.stop ∧ e.stop.toNat ≤ keys.length then (keys.drop e.start.toNat).take (e.stop - e.start).toNat else []

/-- The number of bytes of an entry in a file. -/
def size : Nat := 20

/-- An entry as bytes. -/
def encode (e : SuffixEntry) : List UInt8 :=
  littleEndian e.start.toNat 8 ++ littleEndian e.length.toNat 4 ++ littleEndian e.position.toNat 8

/-- The entry of twenty bytes. -/
def decode (bytes : List UInt8) : SuffixEntry :=
  ⟨UInt64.ofNat (ofLittleEndian (bytes.take 8)), UInt32.ofNat (ofLittleEndian ((bytes.drop 8).take 4)),
    UInt64.ofNat (ofLittleEndian ((bytes.drop 12).take 8))⟩

end SuffixEntry

/-- The keys of a property and their suffixes. -/
structure SuffixTable where
  property : String
  keys : List UInt8
  entries : List SuffixEntry
  deriving DecidableEq, Repr

namespace SuffixTable

/-- The suffixes of keys with positions, each with its bytes; the first key begins at `start`. -/
def suffixesFrom : Nat → List (String × Position) → List (List UInt8 × SuffixEntry)
  | _, [] => []
  | start, (key, position) :: rest =>
    let stop := start + key.utf8ByteSize
    ((keySuffixes key).map fun suffix =>
      (suffix, ⟨UInt64.ofNat (stop - suffix.length), UInt32.ofNat suffix.length, UInt64.ofNat position⟩)) ++
      suffixesFrom stop rest

/-- The order of entries: by the bytes of the suffix, then by position. -/
def precedes (a b : List UInt8 × SuffixEntry) : Bool :=
  decide (a.1 < b.1) || (a.1 == b.1 && decide (a.2.position ≤ b.2.position))

/-- The table of keys with positions. If a record has two keys with the same suffix, the entries of these stand as
`Sorting.arrange` leaves them. -/
def ofKeys (property : String) (keys : List (String × Position)) : SuffixTable where
  property := property
  keys := keys.flatMap fun key => Text.Utf8.encode key.1
  entries :=
    ((Sorting.arrange (fun a b => !precedes b a) (suffixesFrom 0 keys)).mergeSort precedes).map Prod.snd

end SuffixTable

/-! ## Writing -/

/-- A table within a file: where its keys begin and end, and its entries with the place of the first. -/
structure SuffixRegion where
  property : String
  start : UInt64
  stop : UInt64
  entriesStart : UInt64
  entries : List SuffixEntry
  deriving DecidableEq, Repr

/-- An index file: all its bytes, its flags and where its tables are. -/
structure SuffixFile where
  data : List UInt8
  flags : UInt32
  regions : List SuffixRegion

namespace SuffixFile

/-- The bytes with which an index file begins. -/
def magic : List UInt8 := [82, 79, 68, 83, 87, 73, 88, 49]

/-- The flags of a file. -/
def flagsFor (ignoreCase : Bool) : UInt32 := if ignoreCase then 1 else 0

/-- The number of bytes of the head of a table. -/
def headSize (t : SuffixTable) : Nat := 4 + t.property.utf8ByteSize + 32

/-- The heads of tables, the keys of the first of which begin at an offset. -/
def encodeHeads : Nat → List SuffixTable → List UInt8
  | _, [] => []
  | offset, t :: rest =>
    let entries := offset + t.keys.length
    littleEndian t.property.utf8ByteSize 4 ++ Text.Utf8.encode t.property ++ littleEndian offset 8 ++
      littleEndian t.keys.length 8 ++ littleEndian entries 8 ++ littleEndian t.entries.length 8 ++
      encodeHeads (entries + SuffixEntry.size * t.entries.length) rest

/-- The bytes of an index file. -/
def encode (ignoreCase : Bool) (tables : List SuffixTable) : List UInt8 :=
  magic ++ littleEndian (flagsFor ignoreCase).toNat 4 ++ littleEndian tables.length 4 ++
    encodeHeads (tables.foldl (fun size t => size + headSize t) 16) tables ++
    tables.flatMap fun t => t.keys ++ t.entries.flatMap SuffixEntry.encode

/-! ## Reading -/

/-- Some entries from the beginning of bytes. -/
def entriesOf : Nat → List UInt8 → List SuffixEntry
  | 0, _ => []
  | count + 1, bytes =>
    SuffixEntry.decode (bytes.take SuffixEntry.size) :: entriesOf count (bytes.drop SuffixEntry.size)

/-- The number of bytes between two offsets. -/
def extent (start stop : UInt64) : UInt64 := if start < stop then stop - start else 0

/-- The table of a region, if its end and all entries are within the file and no suffix ends behind the keys. -/
def region? (data : List UInt8) (property : String) (start length entries : UInt64) (count : Nat) :
    Option SuffixRegion :=
  let stop := start + length
  if data.length < stop.toNat ∨ data.length < entries.toNat + SuffixEntry.size * count then none
  else
    let found := entriesOf count (data.drop entries.toNat)
    if found.all fun e => decide (e.stop ≤ extent start stop) then some ⟨property, start, stop, entries, found⟩
    else none

/-- Reads the heads of some tables. -/
def regions? (data : List UInt8) : Nat → List UInt8 → Option (List SuffixRegion)
  | 0, _ => some []
  | tables + 1, bytes => do
    let (length, bytes) ← readNumber? 4 bytes
    let (property, bytes) ← splitBytes? length bytes
    let property ← Text.Utf8.decode? property
    let (start, bytes) ← readNumber? 8 bytes
    let (length, bytes) ← readNumber? 8 bytes
    let (entries, bytes) ← readNumber? 8 bytes
    let (count, bytes) ← readNumber? 8 bytes
    let region ← region? data property (UInt64.ofNat start) (UInt64.ofNat length) (UInt64.ofNat entries) count
    return region :: (← regions? data tables bytes)

/-- The index file of some bytes; `none` if they are none. -/
def decode? (data : List UInt8) : Option SuffixFile := do
  let (first, bytes) ← splitBytes? magic.length data
  if first ≠ magic then none
  else
    let (flags, bytes) ← readNumber? 4 bytes
    let (tables, bytes) ← readNumber? 4 bytes
    return ⟨data, UInt32.ofNat flags, ← regions? data tables bytes⟩

/-- Whether a file has been written for these properties, in this order, and with this treatment of case. -/
def suits (f : SuffixFile) (properties : List String) (ignoreCase : Bool) : Bool :=
  f.flags == flagsFor ignoreCase && f.regions.map SuffixRegion.property == properties

/-- The keys of a region; `none` if it ends before it begins. -/
def keys? (f : SuffixFile) (r : SuffixRegion) : Option (List UInt8) :=
  if r.start ≤ r.stop then some ((f.data.drop r.start.toNat).take (r.stop - r.start).toNat) else none

/-! ## Searching -/

/-- Bisection for the first place from `low` up to `high` which is not below what is searched for. -/
def lowerBound (isBelow : Nat → Bool) (low high : Nat) : Nat :=
  if low < high then
    let middle := low + (high - low) / 2
    if isBelow middle then lowerBound isBelow (middle + 1) high else lowerBound isBelow low middle
  else low
termination_by high - low
decreasing_by all_goals omega

/-- The positions of the suffixes which begin with a text, in the order of the table. -/
def matching (keys : List UInt8) (entries : List SuffixEntry) (text : List UInt8) : List Position :=
  let first := lowerBound (fun n => decide ((entries.getD n default).bytes keys < text)) 0 entries.length
  ((entries.drop first).takeWhile fun e => text.isPrefixOf (e.bytes keys)).map fun e => e.position.toNat

/-- The positions of the suffixes in a region which begin with a text. -/
def search (f : SuffixFile) (r : SuffixRegion) (text : String) : Except Fault (List Position) :=
  if r.entries = [] then .ok []
  else match f.keys? r with
    | some keys => .ok (matching keys r.entries (Text.Utf8.encode text))
    | none => .error (Cause.unsearchable r.property)

end SuffixFile

end RecordServer
