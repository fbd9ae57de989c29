import RecordServer.Text.Utf8

/-!
# Slots for names

`Slots` spread names by their hashes: a name takes the first slot that is free from the one of its hash on. The number
of slots is a power of two. Before a name is added to slots that have taken all they may, there are made twice as many,
and the names move there in the order in which they stand. `Slots.ofNames` adds names one after the other, and
`Slots.names` lists them slot by slot, an order which is fixed by the names but looks like none.
-/

namespace RecordServer

/-- Slots with or without names. -/
structure Slots where
  /-- The slots in their order. -/
  slots : Array (Option String)

namespace Slots

/-- The hash of a name: each of its bytes and one more is mixed in and then spread by a multiplication. -/
def hash (name : String) : UInt64 :=
  (Text.Utf8.encode name ++ [0xFF]).foldl (fun (h : UInt64) (b : UInt8) => (h ^^^ b.toUInt64) * 0x100000001b3)
    0xcbf29ce484222325

/-- The number of slots which are looked at together. -/
def windowSize : Nat := 16

/-- No slots. -/
def empty : Slots := ⟨#[]⟩

/-- The names slot by slot. -/
def names (s : Slots) : List String := s.slots.toList.filterMap id

/-- How many names may be there: one less than there are slots, or seven eighths of them. -/
def capacity (s : Slots) : Nat := if s.slots.size ≤ 8 then s.slots.size - 1 else s.slots.size / 8 * 7

/-- The first free slot of the window that begins with a slot; behind the last slot comes the first. -/
def freeWithin (s : Slots) (start : Nat) : Option Nat :=
  ((List.range windowSize).map fun k => (start + k) % s.slots.size).find? fun n => s.slots[n]? == some none

/-- The first free slot in some windows; the way from one window to the next is always one window longer than before.
-/
def freeFrom (s : Slots) : Nat → Nat → Nat → Option Nat
  | 0, _, _ => none
  | windows + 1, stride, start =>
    match s.freeWithin start with
    | some n => some n
    | none => s.freeFrom windows (stride + windowSize) (start + stride + windowSize)

/-- Puts a name into the first free slot from the one of its hash on. -/
def place (s : Slots) (name : String) : Slots :=
  match s.freeFrom (s.slots.size + 1) 0 ((hash name).toNat % s.slots.size) with
  | some n => ⟨s.slots.setIfInBounds n (some name)⟩
  | none => s

/-- The names in twice as many slots, and in four at least. -/
def grow (s : Slots) : Slots := s.names.foldl place ⟨Array.replicate (max 4 (2 * s.slots.size)) none⟩

/-- Adds a name, unless it is there. -/
def add (s : Slots) (name : String) : Slots :=
  let s := if s.names.length < s.capacity then s else s.grow
  if s.names.contains name then s else s.place name

/-- Slots for some names. -/
def ofNames (names : List String) : Slots := names.foldl add empty

end Slots

end RecordServer
