import RecordServer.Sorting.Pivot

/-!
# Arrangements

`arrange` sorts a list, but does not leave equal elements in their order: a long list is parted around pivots, which
turns the elements behind the pivot round and round (`parted`). Short lists and such that are sorted already keep the
order of equal elements.
-/

namespace RecordServer.Sorting

variable {α : Type}

/-! ## Heaps -/

/-- Lets an element sink into the heap of the first elements until no greater one is below it, in so many steps at
most. -/
def sink (less : α → α → Bool) (size : Nat) : Nat → Nat → Array α → Array α
  | 0, _, heap => heap
  | steps + 1, node, heap =>
    let left := 2 * node + 1
    let right := left + 1
    if left < size then
      let child := match heap[left]?, heap[right]? with
        | some a, some b => if right < size && less a b then right else left
        | _, _ => left
      match heap[node]?, heap[child]? with
      | some a, some b => if less a b then sink less size steps child (heap.swapIfInBounds node child) else heap
      | _, _ => heap
    else heap

/-- Sorts by a heap, from which the greatest element is taken again and again. -/
def heapSort (less : α → α → Bool) (list : List α) : List α :=
  let size := list.length
  let heap := (List.range (size / 2)).reverse.foldl (fun heap node => sink less size size node heap) list.toArray
  ((List.range size).reverse.foldl (fun heap n => sink less n size 0 (heap.swapIfInBounds 0 n)) heap).toList

/-! ## Parting -/

/-- Puts the first element of a list behind all others. The list is in two parts, the second of which is reversed. -/
def turn : List α × List α → List α × List α
  | (first :: front, back) => (front, first :: back)
  | ([], back) =>
    match back.reverse with
    | [] => ([], [])
    | first :: front => (front, [first])

/-- Adds an element to those on the left, the last first, or in front of those on the right, which turn before. -/
def part (isLeft : α → Bool) (sides : List α × (List α × List α)) (x : α) : List α × (List α × List α) :=
  let right := turn sides.2
  if isLeft x then (x :: sides.1, right) else (sides.1, (x :: right.1, right.2))

/-- The elements on the left and on the right. The first element comes last; of those on the left the last comes to the
front. -/
def parted (isLeft : α → Bool) : List α → List α × List α
  | [] => ([], [])
  | first :: rest =>
    let (left, front, back) := part isLeft (rest.foldl (part isLeft) ([], ([], []))) first
    let right := front ++ back.reverse
    match left with
    | [] => ([], right)
    | last :: before => (last :: before.reverse, right)

/-- Sorts a list without regard to the order of equal elements. Not more than 32 are sorted in a simple way. Otherwise
the elements are parted around a pivot, where the given one, which is not greater than any element, shows that there
are many equal to it; and if that has been done too often, a heap is used. -/
def partAndSort (less : α → α → Bool) : Nat → Option α → List α → List α
  | _, _, [] => []
  | depth, bound, first :: rest =>
    if rest.length < 32 then (first :: rest).mergeSort fun a b => !less b a
    else match depth with
      | 0 => heapSort less (first :: rest)
      | depth + 1 =>
        let (n, pivot) := Id.run (Sorting.pivot (fun a b => pure (less a b)) first rest)
        let others := if n = 0 then rest else rest.set (n - 1) first
        if bound.any fun bound => !less bound pivot then
          let (left, right) := parted (fun x => !less pivot x) others
          left ++ pivot :: partAndSort less depth none right
        else
          let (left, right) := parted (fun x => less x pivot) others
          partAndSort less depth bound left ++ pivot :: partAndSort less depth (some pivot) right

/-- Sorts a list; where equal elements come to stand depends on the others. -/
def arrange (less : α → α → Bool) (list : List α) : List α :=
  if list.length ≤ 20 then list.mergeSort fun a b => !less b a
  else
    let (n, descending) := Id.run (naturalRun (fun a b => pure (less a b)) list)
    if n = list.length then if descending then list.reverse else list
    else partAndSort less (2 * list.length.log2) none list

end RecordServer.Sorting
