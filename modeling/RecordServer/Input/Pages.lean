import RecordServer.Value

/-!
# Random access to bytes

`Pages` hold the bytes of a file together with what is left of them at the beginning of every page, so that walking to
a position takes no more steps than a page has bytes. `after` is what is left at a position.
-/

namespace RecordServer

/-- Bytes of which parts are read in any order. -/
structure Pages where
  /-- The number of bytes. -/
  size : Nat
  /-- The bytes from the beginning of each page on. -/
  tails : Array (List UInt8)

namespace Pages

/-- The number of bytes of a page. -/
def pageSize : Nat := 512

/-- Adds the tails of at most that many pages. -/
def tailsFrom : Nat → Array (List UInt8) → List UInt8 → Array (List UInt8)
  | 0, tails, _ => tails
  | n + 1, tails, bytes => tailsFrom n (tails.push bytes) (bytes.drop pageSize)

/-- The pages of some bytes. -/
def ofBytes (bytes : List UInt8) : Pages :=
  ⟨bytes.length, tailsFrom (bytes.length / pageSize + 1) #[] bytes⟩

/-- The bytes from a position on. -/
def after (p : Pages) (position : Nat) : List UInt8 :=
  match p.tails[position / pageSize]? with
  | some bytes => bytes.drop (position % pageSize)
  | none => []

end Pages

end RecordServer
