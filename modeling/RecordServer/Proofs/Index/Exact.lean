import Mathlib.Data.List.Sort
import RecordServer.Proofs.Index.Lookup

/-!
# Exact indexes

Postings which have been filled in the order of positions hold, for each key, the positions with this key, each once
and the latest first (`Postings.Holds`, `Postings.holds_ofKeys`). Looking only at the position added last is enough to
leave out those that come again (`Postings.mem_addPosition`, `Postings.descending_addPosition`).

So the tables of an exact index describe the records of its input (`Tables.describes_exact`).
-/

namespace RecordServer

/-! ## Postings -/

namespace Postings

/-- Postings hold, for each key, the positions which come with it, each once and the latest first. -/
structure Holds (p : Postings) (keys : List (String × Position)) : Prop where
  mem : ∀ key position, position ∈ (p.entries.lookup key).getD [] ↔ (key, position) ∈ keys
  descending : ∀ key, ((p.entries.lookup key).getD []).Pairwise (· > ·)

theorem mem_addPosition {position q : Position} {latestFirst : List Position} :
    q ∈ addPosition position latestFirst ↔ q = position ∨ q ∈ latestFirst := by
  unfold addPosition
  split
  · rename_i h
    obtain ⟨rest, rfl⟩ := List.head?_eq_some_iff.1 h
    simp
  · simp

/-- A position which is none of the earlier ones keeps the order. -/
theorem descending_addPosition {position : Position} {latestFirst : List Position}
    (h : latestFirst.Pairwise (· > ·)) (hle : ∀ q ∈ latestFirst, q ≤ position) :
    (addPosition position latestFirst).Pairwise (· > ·) := by
  unfold addPosition
  split
  · exact h
  · rename_i hhead
    refine List.pairwise_cons.2 ⟨fun q hq => ?_, h⟩
    cases latestFirst with
    | nil => cases hq
    | cons first rest =>
      -- the latest position is smaller, and all others are smaller than that
      have hfirst : first < position :=
        Nat.lt_of_le_of_ne (hle first List.mem_cons_self) fun e => hhead (by simp [e])
      rcases List.mem_cons.1 hq with rfl | hq
      · exact hfirst
      · exact Nat.lt_trans ((List.pairwise_cons.1 h).1 q hq) hfirst

/-- Adding changes the entry of the key alone. -/
theorem lookup_addTo (key other : String) (position : Position) : ∀ entries : List (String × List Position),
    (addTo key position entries).lookup other =
      if other = key then some (addPosition position ((entries.lookup key).getD [])) else entries.lookup other
  | [] => by
    by_cases h : other = key
    · simp [addTo, addPosition, h]
    · have hother : (other == key) = false := by simpa using h
      simp [addTo, List.lookup_cons, h, hother]
  | (first, positions) :: rest => by
    have ih := lookup_addTo key other position rest
    unfold addTo
    by_cases hfirst : first = key
    · subst hfirst
      by_cases h : other = first
      · simp [h]
      · have hother : (other == first) = false := by simpa using h
        simp [List.lookup_cons, h, hother]
    · have hkey : (key == first) = false := by simpa using fun e => hfirst e.symm
      by_cases h : other = first
      · have : other ≠ key := fun e => hfirst (h.symm.trans e)
        simp [hfirst, h]
      · have hother : (other == first) = false := by simpa using h
        simp [List.lookup_cons, hfirst, hkey, hother, ih]

/-- Adding a key of the last position keeps what postings hold. -/
theorem Holds.add {p : Postings} {keys : List (String × Position)} (h : p.Holds keys) (key : String)
    {position : Position} (hle : ∀ k ∈ keys, k.2 ≤ position) :
    (p.add key position).Holds (keys ++ [(key, position)]) := by
  constructor
  · intro other q
    simp only [Postings.add, lookup_addTo, List.mem_append, List.mem_singleton, Prod.mk.injEq, ← h.mem]
    by_cases ho : other = key
    · subst ho
      simp [mem_addPosition, or_comm]
    · simp [ho]
  · intro other
    simp only [Postings.add, lookup_addTo]
    split
    · exact descending_addPosition (h.descending key) fun q hq => hle _ ((h.mem key q).1 hq)
    · exact h.descending other

theorem Holds.foldl {p : Postings} : ∀ {before after : List (String × Position)}, p.Holds before →
    ((before ++ after).map Prod.snd).Pairwise (· ≤ ·) →
    (after.foldl (fun p key => p.add key.1 key.2) p).Holds (before ++ after)
  | before, [], h, _ => by simpa using h
  | before, key :: after, h, hord => by
    have hle : ∀ k ∈ before, k.2 ≤ key.2 := by
      intro k hk
      rw [List.map_append, List.pairwise_append] at hord
      exact hord.2.2 k.2 (List.mem_map.2 ⟨k, hk, rfl⟩) key.2 (by simp)
    have hafter : (((before ++ [key]) ++ after).map Prod.snd).Pairwise (· ≤ ·) := by simpa using hord
    simpa using (h.add key.1 hle).foldl hafter

/-- **Postings of keys hold these keys** if they come in the order of their positions. -/
theorem holds_ofKeys {keys : List (String × Position)} (h : (keys.map Prod.snd).Pairwise (· ≤ ·)) :
    (ofKeys keys).Holds keys :=
  have hempty : empty.Holds [] := ⟨by simp [empty], by simp [empty]⟩
  hempty.foldl (by simpa using h)

/-- What is found for a key: the ascending positions which come with it. -/
theorem Holds.positions {p : Postings} {keys : List (String × Position)} (h : p.Holds keys) (key : String) :
    Ascending ((p.positions? key).getD []) ∧
      ∀ position, position ∈ (p.positions? key).getD [] ↔ (key, position) ∈ keys := by
  have hmem := h.mem key
  have hdesc := h.descending key
  unfold positions?
  cases hl : p.entries.lookup key with
  | none => simpa [hl] using hmem
  | some latestFirst =>
    rw [hl] at hmem hdesc
    exact ⟨List.pairwise_reverse.2 hdesc, fun position => by simpa using hmem position⟩

end Postings

/-! ## The index -/

/-- **The tables of an exact index describe the records they have been built from.** -/
theorem Tables.describes_exact {properties : List String} {records : List (Position × Record)}
    (h : Ascending (records.map Prod.fst)) :
    (Tables.exact (properties.map fun p => (p, Postings.ofKeys (keysOf false records p)))).Describes
      properties records := by
  intro property hproperty expected
  cases hkey : expected.key? with
  | none =>
    refine ⟨none, by simp [positions?, hkey], List.Pairwise.nil, fun p => ?_⟩
    simp [Tables.Test, Record.Meets, Value.Equals, hkey]
  | some key =>
    obtain ⟨hasc, hmem⟩ := (Postings.holds_ofKeys (keysOf_ordered false property h)).positions key
    refine ⟨(Postings.ofKeys (keysOf false records property)).positions? key, ?_, hasc, fun p => ?_⟩
    · simp only [positions?, hkey]
      rw [lookup_map_self (fun p => Postings.ofKeys (keysOf false records p)) hproperty]
      rfl
    · rw [hmem, mem_keysOf]
      simp [Tables.Test, Record.Meets, Value.Equals, hkey, foldKey]

end RecordServer
