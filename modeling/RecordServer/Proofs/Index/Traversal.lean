import RecordServer.Index.Trie

/-!
# Searching tries

A search gives the positions that it has not given yet, in some order, and ends (`Search.Gives`, `Search.Gives.perm`):
the next position is one of those that remain, and the others remain after it (`Search.perm_of_next?`), and if there is
no next one, none remains (`Search.remaining_of_next?`). So what is found for a text are the positions of the node for
the text and of all nodes below (`within_of_find?`).
-/

namespace RecordServer.Trie

namespace Search

variable {s rest : Search} {p : Position} {found : List Position}

/-- Where a node has been entered, its positions and those of all nodes below remain. -/
theorem perm_enter (t : Trie) (unvisited : List (List (UInt8 × Trie))) :
    (enter t unvisited).remaining.Perm (t.positions ++ unvisited.flatMap positionsOf) := by
  obtain ⟨own, below⟩ := t
  simpa [remaining, enter, Trie.own, Trie.branches, positions] using
    own.reverse_perm.append_right (positionsOf below ++ unvisited.flatMap positionsOf)

theorem remaining_cons (b : UInt8) (t : Trie) (branches : List (UInt8 × Trie))
    (unvisited : List (List (UInt8 × Trie))) : remaining ⟨[], ((b, t) :: branches) :: unvisited⟩ =
      t.positions ++ (branches :: unvisited).flatMap positionsOf := by
  simp [remaining, positionsOf]

/-- The next position is one of those that remain, and the others remain after it. -/
theorem perm_of_next? (h : s.next? = some (p, rest)) : s.remaining.Perm (p :: rest.remaining) := by
  fun_induction next? s with
  | case1 q pending unvisited =>
    cases h
    exact .refl _
  | case2 b t branches unvisited ih =>
    rw [remaining_cons]
    exact (perm_enter t (branches :: unvisited)).symm.trans (ih h)
  | case3 unvisited ih => exact ih h
  | case4 => cases h

/-- Each position leaves one less to give, so that no search goes on for ever. -/
theorem length_of_next? (h : s.next? = some (p, rest)) : s.remaining.length = rest.remaining.length + 1 :=
  (perm_of_next? h).length_eq

/-- A search that gives no more positions has given all. -/
theorem remaining_of_next? (h : s.next? = none) : s.remaining = [] := by
  fun_induction next? s with
  | case1 => cases h
  | case2 b t branches unvisited ih =>
    -- nothing remains where the branch has been entered, so there was nothing in it
    have hperm := perm_enter t (branches :: unvisited)
    rw [ih h, ← remaining_cons b] at hperm
    exact hperm.nil_eq.symm
  | case3 unvisited ih => exact ih h
  | case4 => rfl

/-- Asked again and again for the next position, a search gives some positions and then no more. -/
inductive Gives : Search → List Position → Prop
  | ended {s : Search} : s.next? = none → Gives s []
  | next {s rest : Search} {p : Position} {found : List Position} :
      s.next? = some (p, rest) → Gives rest found → Gives s (p :: found)

/-- A search gives each remaining position as often as it is there. -/
theorem Gives.perm (h : s.Gives found) : found.Perm s.remaining := by
  induction h with
  | ended hnone => rw [remaining_of_next? hnone]
  | next hnext _ ih => exact (ih.cons _).trans (perm_of_next? hnext).symm

theorem gives_take : ∀ {n : Nat} {s : Search}, s.remaining.length ≤ n → s.Gives (s.take n)
  | 0, s, h => by
    cases hnext : s.next? with
    | none => exact .ended hnext
    | some given =>
      have hlength := length_of_next? hnext
      omega
  | n + 1, s, h => by
    unfold take
    split
    · exact .ended ‹_›
    · rename_i p rest hnext
      have hlength := length_of_next? hnext
      exact .next hnext (gives_take (by omega))

/-- **Every search ends**, and its positions are listed. -/
theorem gives_toList (s : Search) : s.Gives s.toList := gives_take (Nat.le_refl _)

end Search

/-- The positions under all byte strings that begin with a text are those of the node for the text and of all nodes
below. -/
theorem within_of_find? {t found : Trie} {text : String} (h : t.find? (Text.Utf8.encode text) = some found) :
    (t.within text).Perm found.positions := by
  rw [within, search, h]
  simpa using (Search.gives_toList _).perm.trans (Search.perm_enter found [])

theorem within_of_find?_none {t : Trie} {text : String} (h : t.find? (Text.Utf8.encode text) = none) :
    t.within text = [] := by
  rw [within, search, h]
  rfl

end RecordServer.Trie
