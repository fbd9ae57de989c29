import Mathlib.Data.List.Sort
import RecordServer.Proofs.Index.Lookup
import RecordServer.Proofs.Index.Suffix
import RecordServer.Proofs.Index.Traversal

/-!
# Substring indexes

A trie keeps positions under byte strings (`Trie.Keeps`); walking down finds all that is kept below, since no byte has
two branches at one node (`Trie.Distinct`, `Trie.keeps_find`). Adding a position keeps it under one more byte string and
changes nothing else (`Trie.keeps_add`), so a trie of keys keeps each position under exactly the suffixes of its keys
(`Trie.keeps_ofKeys`), and `Trie.within` finds the positions of the keys which contain a text (`Trie.mem_within`).

So the tables of a substring index describe the records of its input (`Tables.describes_substring`).
-/

namespace RecordServer

/-! ## Known positions in order -/

namespace Leaf

theorem mem_distinct {p : Position} : ∀ {positions : List Position}, p ∈ distinct positions ↔ p ∈ positions
  | [] => Iff.rfl
  | [_] => Iff.rfl
  | first :: second :: rest => by
    have ih := @mem_distinct p (second :: rest)
    unfold distinct
    split
    · rename_i h
      rw [ih, h]
      simp
    · rw [List.mem_cons, ih, ← List.mem_cons]

/-- Without those which equal their predecessor, sorted positions are ascending. -/
theorem distinct_ascending : ∀ {positions : List Position}, positions.Pairwise (· ≤ ·) → Ascending (distinct positions)
  | [], _ => List.Pairwise.nil
  | [p], _ => List.pairwise_singleton _ p
  | first :: second :: rest, h => by
    obtain ⟨hfirst, hrest⟩ := List.pairwise_cons.1 h
    have ih := distinct_ascending hrest
    unfold distinct
    split
    · exact ih
    · rename_i hne
      refine List.pairwise_cons.2 ⟨fun q hq => ?_, ih⟩
      have hsecond : first < second := Nat.lt_of_le_of_ne (hfirst second List.mem_cons_self) hne
      rcases List.mem_cons.1 (mem_distinct.1 hq) with rfl | hq
      · exact hsecond
      · exact Nat.lt_of_lt_of_le hsecond ((List.pairwise_cons.1 hrest).1 q hq)

theorem mem_ascending {p : Position} {positions : List Position} : p ∈ ascending positions ↔ p ∈ positions := by
  rw [ascending, mem_distinct, List.mem_mergeSort]

theorem ascending_ascending (positions : List Position) : Ascending (ascending positions) :=
  distinct_ascending (List.pairwise_mergeSort' _ _)

end Leaf

/-! ## What tries keep -/

namespace Trie

/-- A position is kept under a byte string. -/
inductive Keeps : Trie → List UInt8 → Position → Prop
  | here {own : List Position} {branches : List (UInt8 × Trie)} {p : Position} :
      p ∈ own → Keeps (node own branches) [] p
  | under {own : List Position} {branches : List (UInt8 × Trie)} {b : UInt8} {t : Trie} {bytes : List UInt8}
      {p : Position} : (b, t) ∈ branches → Keeps t bytes p → Keeps (node own branches) (b :: bytes) p

/-- At each node, no byte has two branches. -/
inductive Distinct : Trie → Prop
  | intro {own : List Position} {branches : List (UInt8 × Trie)} :
      (branches.map Prod.fst).Nodup → (∀ branch ∈ branches, Distinct branch.2) → Distinct (node own branches)

variable {t : Trie} {own : List Position} {branches : List (UInt8 × Trie)} {p : Position}

theorem keeps_nil : (node own branches).Keeps [] p ↔ p ∈ own := by
  constructor
  · rintro ⟨h⟩
    exact h
  · exact .here

theorem keeps_cons {b : UInt8} {bytes : List UInt8} :
    (node own branches).Keeps (b :: bytes) p ↔ ∃ t, (b, t) ∈ branches ∧ t.Keeps bytes p := by
  constructor
  · rintro ⟨⟩
    exact ⟨_, ‹_›, ‹_›⟩
  · rintro ⟨t, ht, h⟩
    exact .under ht h

theorem not_keeps_empty (bytes : List UInt8) : ¬empty.Keeps bytes p := by
  rintro ⟨⟩ <;> contradiction

theorem distinct_empty : empty.Distinct := .intro List.nodup_nil (by simp)

mutual

/-- Collecting finds all positions which are kept. -/
theorem mem_positions : ∀ {t : Trie}, p ∈ t.positions ↔ ∃ bytes, t.Keeps bytes p
  | node own branches => by
    rw [positions, List.mem_append, mem_positionsOf]
    constructor
    · rintro (h | ⟨⟨b, t⟩, ht, bytes, h⟩)
      · exact ⟨[], .here h⟩
      · exact ⟨b :: bytes, .under ht h⟩
    · rintro ⟨bytes, h⟩
      cases h with
      | here h => exact .inl h
      | under ht h => exact .inr ⟨_, ht, _, h⟩

theorem mem_positionsOf : ∀ {branches : List (UInt8 × Trie)},
    p ∈ positionsOf branches ↔ ∃ branch ∈ branches, ∃ bytes, branch.2.Keeps bytes p
  | [] => by simp [positionsOf]
  | (b, t) :: rest => by
    rw [positionsOf, List.mem_append, mem_positions, mem_positionsOf]
    simp only [List.mem_cons, exists_eq_or_imp]

end

/-- The node at the end of a byte string keeps what is kept below. -/
theorem keeps_find : ∀ {t : Trie} {bytes more : List UInt8}, t.Distinct →
    ((∃ found ∈ t.find? bytes, found.Keeps more p) ↔ t.Keeps (bytes ++ more) p)
  | t, [], more, _ => by simp [find?]
  | node own branches, b :: bytes, more, .intro hnodup hbelow => by
    rw [List.cons_append, keeps_cons]
    cases hl : branches.lookup b with
    | none =>
      have hnone : ∀ t, (b, t) ∉ branches := by
        intro t ht
        have := List.lookup_eq_none_iff.1 hl (b, t) ht
        simp at this
      simp [find?, Trie.branches, hl, hnone]
    | some t =>
      have hmem : (b, t) ∈ branches := mem_of_lookup hl
      have honly : ∀ {s}, (b, s) ∈ branches → s = t := fun hs =>
        (Prod.mk.inj (List.inj_on_of_nodup_map hnodup hs hmem rfl)).2
      have ih := @keeps_find t bytes more (hbelow (b, t) hmem)
      simp only [find?, Trie.branches, hl, Option.bind_some, ih]
      constructor
      · exact fun h => ⟨t, hmem, h⟩
      · rintro ⟨s, hs, h⟩
        exact honly hs ▸ h

/-! ## Adding -/

theorem keys_alter (b : UInt8) (change : Trie → Trie) : ∀ branches : List (UInt8 × Trie),
    (alter b change branches).map Prod.fst =
      if b ∈ branches.map Prod.fst then branches.map Prod.fst else branches.map Prod.fst ++ [b]
  | [] => rfl
  | branch :: rest => by
    have ih := keys_alter b change rest
    unfold alter
    by_cases h : branch.1 = b
    · simp [h]
    · have h' : ¬b = branch.1 := fun e => h e.symm
      rw [if_neg h, List.map_cons, ih]
      simp only [List.map_cons, List.mem_cons, h', false_or]
      split <;> simp

theorem mem_alter (b : UInt8) (change : Trie → Trie) : ∀ {branches : List (UInt8 × Trie)} {branch : UInt8 × Trie},
    branch ∈ alter b change branches → branch ∈ branches ∨ branch = (b, change empty) ∨
      ∃ t, (b, t) ∈ branches ∧ branch = (b, change t)
  | [], branch, h => .inr (.inl (List.mem_singleton.1 h))
  | (first, t) :: rest, branch, h => by
    unfold alter at h
    split at h
    · rename_i hfirst
      rcases List.mem_cons.1 h with rfl | h
      · exact .inr (.inr ⟨t, by simp [← hfirst], rfl⟩)
      · exact .inl (List.mem_cons_of_mem _ h)
    · rcases List.mem_cons.1 h with rfl | h
      · exact .inl List.mem_cons_self
      · rcases mem_alter b change h with h | h | ⟨s, hs, h⟩
        · exact .inl (List.mem_cons_of_mem _ h)
        · exact .inr (.inl h)
        · exact .inr (.inr ⟨s, List.mem_cons_of_mem _ hs, h⟩)

/-- Changing a branch adds to what the branches keep what the change adds. -/
theorem keeps_alter {b c : UInt8} {change : Trie → Trie} {bytes : List UInt8} {added : Prop}
    (hchange : ∀ t : Trie, (change t).Keeps bytes p ↔ added ∨ t.Keeps bytes p) : ∀ {branches : List (UInt8 × Trie)},
    (∃ t, (c, t) ∈ alter b change branches ∧ t.Keeps bytes p) ↔
      (c = b ∧ added) ∨ ∃ t, (c, t) ∈ branches ∧ t.Keeps bytes p
  | [] => by simp [alter, hchange, not_keeps_empty]
  | (first, t) :: rest => by
    have ih := @keeps_alter b c change bytes added hchange rest
    unfold alter
    split
    · rename_i hfirst
      have hfirst : first = b := hfirst
      simp only [List.mem_cons, Prod.mk.injEq, or_and_right, exists_or, and_assoc, exists_and_left, exists_eq_left,
        hchange, hfirst, and_or_left, or_assoc]
    · simp only [List.mem_cons, Prod.mk.injEq, or_and_right, exists_or, ih, or_left_comm]

theorem Distinct.add (position : Position) : ∀ {bytes : List UInt8} {t : Trie}, t.Distinct →
    (t.add position bytes).Distinct
  | [], node _ _, .intro hnodup hbelow => .intro hnodup hbelow
  | b :: bytes, node own branches, .intro hnodup hbelow => by
    refine .intro ?_ fun branch h => ?_
    · rw [keys_alter]
      split
      · exact hnodup
      · rename_i hb
        refine List.nodup_append.2 ⟨hnodup, List.nodup_singleton b, fun a ha c hc e => hb ?_⟩
        rw [← List.mem_singleton.1 hc, ← e]
        exact ha
    · rcases mem_alter b _ h with h | rfl | ⟨t, ht, rfl⟩
      · exact hbelow branch h
      · exact Distinct.add position distinct_empty
      · exact Distinct.add position (hbelow _ ht)

/-- A position that is added is kept under its byte string, and all others are kept as they have been. -/
theorem keeps_add {position : Position} : ∀ {path bytes : List UInt8} {t : Trie},
    (t.add position path).Keeps bytes p ↔ (bytes = path ∧ p = position) ∨ t.Keeps bytes p
  | [], [], node own branches => by
    rw [Trie.add, keeps_nil, keeps_nil]
    split
    · rename_i h
      have hmem := List.mem_of_head? h
      simp only [true_and]
      exact ⟨.inr, fun h => h.elim (fun e => e ▸ hmem) id⟩
    · simp
  | [], b :: bytes, node own branches => by simp [Trie.add, keeps_cons]
  | b :: path, [], node own branches => by simp [Trie.add, keeps_nil]
  | b :: path, c :: bytes, node own branches => by
    rw [Trie.add, keeps_cons, keeps_alter fun t => keeps_add, keeps_cons, List.cons.injEq, and_assoc]

/-! ## Tries of keys -/

/-- Adding a position under several byte strings, one after the other. -/
theorem keeps_addAll {position : Position} {bytes : List UInt8} : ∀ {paths : List (List UInt8)} {t : Trie},
    t.Distinct → (paths.foldl (fun t path => t.add position path) t).Distinct ∧
      ((paths.foldl (fun t path => t.add position path) t).Keeps bytes p ↔
        (bytes ∈ paths ∧ p = position) ∨ t.Keeps bytes p)
  | [], t, h => by simpa using h
  | path :: paths, t, h => by
    obtain ⟨hdistinct, hkeeps⟩ := @keeps_addAll position bytes paths (t.add position path) (h.add position)
    refine ⟨hdistinct, hkeeps.trans ?_⟩
    rw [keeps_add, List.mem_cons, or_and_right, or_assoc, or_left_comm]

/-- Adding keys, one after the other. -/
theorem keeps_addKeys {bytes : List UInt8} : ∀ {keys : List (String × Position)} {t : Trie}, t.Distinct →
    (keys.foldl (fun t key => t.addKey key.1 key.2) t).Distinct ∧
      ((keys.foldl (fun t key => t.addKey key.1 key.2) t).Keeps bytes p ↔
        (∃ key, (key, p) ∈ keys ∧ bytes ∈ keySuffixes key) ∨ t.Keeps bytes p)
  | [], t, h => by simpa using h
  | (key, position) :: keys, t, h => by
    obtain ⟨hfirst, hkeeps⟩ := @keeps_addAll p position bytes (keySuffixes key) t h
    obtain ⟨hdistinct, hall⟩ := @keeps_addKeys bytes keys (t.addKey key position) hfirst
    refine ⟨hdistinct, hall.trans ?_⟩
    rw [addKey, hkeeps]
    simp only [List.mem_cons, or_and_right, exists_or, Prod.mk.injEq, and_assoc, exists_eq_left]
    rw [or_left_comm, or_assoc, and_comm]

/-- **A trie of keys keeps each position under exactly the suffixes of its keys.** -/
theorem keeps_ofKeys {bytes : List UInt8} (keys : List (String × Position)) :
    (ofKeys keys).Distinct ∧
      ((ofKeys keys).Keeps bytes p ↔ ∃ key, (key, p) ∈ keys ∧ bytes ∈ keySuffixes key) := by
  obtain ⟨hdistinct, hkeeps⟩ := @keeps_addKeys p bytes keys empty distinct_empty
  exact ⟨hdistinct, hkeeps.trans (or_iff_left (not_keeps_empty bytes))⟩

/-- **What is found within a trie of keys: the positions of the keys, other than the empty one, which contain the
text.** -/
theorem mem_within {keys : List (String × Position)} {text : String} :
    p ∈ (ofKeys keys).within text ↔ ∃ key, (key, p) ∈ keys ∧ key ≠ "" ∧ text.toList <:+: key.toList := by
  have hfound : p ∈ (ofKeys keys).within text ↔
      ∃ more, ∃ found ∈ (ofKeys keys).find? (Text.Utf8.encode text), found.Keeps more p := by
    cases hfind : (ofKeys keys).find? (Text.Utf8.encode text) with
    | none => simp [within_of_find?_none hfind]
    | some found => simp [(within_of_find? hfind).mem_iff, mem_positions]
  rw [hfound]
  simp only [keeps_find (@keeps_ofKeys p [] keys).1, (keeps_ofKeys keys).2, ← prefix_keySuffixes]
  constructor
  · rintro ⟨more, key, hkey, hmem⟩
    exact ⟨key, hkey, _, hmem, more, rfl⟩
  · rintro ⟨key, hkey, _, hmem, more, rfl⟩
    exact ⟨more, key, hkey, hmem⟩

end Trie

/-! ## The index -/

/-- The keys, other than the empty one, which contain what is expected are those of the records with such a value. -/
theorem mem_containing {ignoreCase : Bool} {records : List (Position × Record)} {property key : String}
    {expected : Value} (hkey : expected.key? = some key) {p : Position} :
    (∃ own, (own, p) ∈ keysOf ignoreCase records property ∧ own ≠ "" ∧
      (foldKey ignoreCase key).toList <:+: own.toList) ↔
    ∃ r, (p, r) ∈ records ∧ r.Meets property fun value => value.Contains ignoreCase expected := by
  simp only [mem_keysOf, Record.Meets, Value.Contains, hkey, Option.mem_some_iff, exists_eq_left']
  constructor
  · rintro ⟨_, ⟨r, hr, value, hvalue, own, hown, rfl⟩, hne, hinfix⟩
    exact ⟨r, hr, value, hvalue, own, hown, fun h => hne (foldKey_eq_empty.2 h), hinfix⟩
  · rintro ⟨r, hr, value, hvalue, own, hown, hne, hinfix⟩
    exact ⟨_, ⟨r, hr, value, hvalue, own, hown, rfl⟩, fun h => hne (foldKey_eq_empty.1 h), hinfix⟩

/-- **The tables of a substring index describe the records they have been built from.** -/
theorem Tables.describes_substring {ignoreCase : Bool} {properties : List String} {records : List (Position × Record)} :
    (Tables.substring ignoreCase (properties.map fun p => (p, Trie.ofKeys (keysOf ignoreCase records p)))).Describes
      properties records := by
  intro property hproperty expected
  cases hkey : expected.key? with
  | none =>
    refine ⟨none, by simp [positions?, hkey], List.Pairwise.nil, fun p => ?_⟩
    simp [Tables.Test, Record.Meets, Value.Contains, hkey]
  | some key =>
    let trie := Trie.ofKeys (keysOf ignoreCase records property)
    refine ⟨some (Leaf.ascending (trie.within (foldKey ignoreCase key))), ?_, Leaf.ascending_ascending _, fun p => ?_⟩
    · simp only [positions?, hkey]
      rw [lookup_map_self (fun p => Trie.ofKeys (keysOf ignoreCase records p)) hproperty]
      rfl
    · rw [Option.getD_some, Leaf.mem_ascending, Trie.mem_within]
      exact mem_containing hkey

end RecordServer
