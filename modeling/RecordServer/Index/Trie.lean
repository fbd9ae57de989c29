import RecordServer.Index.Suffix
import RecordServer.Value

/-!
# Suffix tries

A `Trie` keeps positions under byte strings: each node stands for the bytes on the way to it. `addKey` adds a position
under all suffixes of a key, so that the positions of all keys within which a text stands are those below one node. A
`Search` gives them one after the other (`search`), and `within` lists them.
-/

namespace RecordServer

/-- A node with its positions, the latest first, and its branches. -/
inductive Trie where
  | node (positions : List Position) (branches : List (UInt8 × Trie))
  deriving Inhabited

namespace Trie

/-- A trie without positions. -/
def empty : Trie := node [] []

/-- The positions of the root itself, the latest first. -/
def own : Trie → List Position
  | node positions _ => positions

/-- The branches of the root. -/
def branches : Trie → List (UInt8 × Trie)
  | node _ branches => branches

theorem sizeOf_branches_lt (t : Trie) : sizeOf t.branches < sizeOf t := by
  cases t
  simp only [branches, node.sizeOf_spec]
  omega

/-- Changes the branch of a byte, which is empty if there is none yet. -/
def alter (b : UInt8) (change : Trie → Trie) : List (UInt8 × Trie) → List (UInt8 × Trie)
  | [] => [(b, change empty)]
  | branch :: rest => if branch.1 = b then (b, change branch.2) :: rest else branch :: alter b change rest

/-- Adds a position under a byte string, unless it is the one added there last. -/
def add (position : Position) : List UInt8 → Trie → Trie
  | [], node positions branches =>
    node (if positions.head? = some position then positions else position :: positions) branches
  | b :: bytes, node positions branches => node positions (alter b (add position bytes) branches)

/-- Adds a position under all suffixes of a key. -/
def addKey (t : Trie) (key : String) (position : Position) : Trie :=
  (keySuffixes key).foldl (fun t suffix => t.add position suffix) t

/-- A trie of keys with positions. -/
def ofKeys (keys : List (String × Position)) : Trie := keys.foldl (fun t key => t.addKey key.1 key.2) empty

/-- The node for a byte string. -/
def find? : List UInt8 → Trie → Option Trie
  | [], t => some t
  | b :: bytes, t => (t.branches.lookup b).bind (find? bytes)

mutual

/-- The positions of all nodes. -/
def positions : Trie → List Position
  | node own branches => own ++ positionsOf branches

/-- The positions of all nodes of several branches. -/
def positionsOf : List (UInt8 × Trie) → List Position
  | [] => []
  | (_, t) :: rest => positions t ++ positionsOf rest

end

/-- A depth first search of a trie. Pending are the positions of the node that has been entered last, without those
which have been given; for each node on the way there, the innermost first, `unvisited` has the branches which have not
been entered yet. -/
structure Search where
  pending : List Position
  unvisited : List (List (UInt8 × Trie))

namespace Search

/-- A search that enters a node. -/
def enter (t : Trie) (unvisited : List (List (UInt8 × Trie))) : Search := ⟨t.own.reverse, t.branches :: unvisited⟩

/-- The next position and the search behind it. If no position is pending, the next branch of the innermost node is
entered, or this node is left if it has no more branches. -/
def next? : Search → Option (Position × Search)
  | ⟨p :: pending, unvisited⟩ => some (p, ⟨pending, unvisited⟩)
  | ⟨[], ((_, t) :: branches) :: unvisited⟩ => next? (enter t (branches :: unvisited))
  | ⟨[], [] :: unvisited⟩ => next? ⟨[], unvisited⟩
  | ⟨[], []⟩ => none
termination_by s => sizeOf s.unvisited
decreasing_by
  · have := t.sizeOf_branches_lt
    simp only [enter, List.cons.sizeOf_spec, Prod.mk.sizeOf_spec]
    omega
  · simp only [List.cons.sizeOf_spec]
    omega

/-- The positions that a search has not given yet. -/
def remaining (s : Search) : List Position := s.pending ++ s.unvisited.flatMap positionsOf

/-- The first positions that a search gives, at most some number of them. -/
def take : Nat → Search → List Position
  | 0, _ => []
  | n + 1, s =>
    match s.next? with
    | none => []
    | some (p, rest) => p :: rest.take n

/-- All positions that a search gives. -/
def toList (s : Search) : List Position := s.take s.remaining.length

end Search

/-- The search for the positions under all byte strings that begin with a text. -/
def search (t : Trie) (text : String) : Search :=
  match t.find? (Text.Utf8.encode text) with
  | some found => .enter found []
  | none => ⟨[], []⟩

/-- The positions under all byte strings that begin with a text. -/
def within (t : Trie) (text : String) : List Position := (t.search text).toList

end Trie

end RecordServer
