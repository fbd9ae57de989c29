import Mathlib.Data.Set.Card
import RecordServer.Proofs.Index.Exact
import RecordServer.Proofs.Index.Substring

/-!
# How often a trie finds a position

Adding a position looks only at the one that has been added last at the same node. If keys come in the order of their
positions, this is enough: at each node the positions are descending, the latest first (`Trie.Descending`,
`Trie.descending_ofKeys`), so that none is there twice. Since no byte has two branches at one node either, collecting
the positions of all nodes meets each position once for every byte string under which it is kept
(`Trie.encard_places`). So what is found for a text has each position as often as there are suffixes of its keys that
begin with the text (`Trie.search_counts_suffixes`).
-/

namespace RecordServer

/-- Texts with the same bytes are the same. -/
theorem Text.Utf8.flatMap_encodeChar_injective : Function.Injective fun cs : List Char => cs.flatMap encodeChar := by
  intro cs ds h
  have hbytes : cs.flatMap encodeChar = ds.flatMap encodeChar := h
  have hto : cs <+: ds := prefix_iff.1 (hbytes ▸ List.prefix_refl _)
  have hfrom : ds <+: cs := prefix_iff.1 (hbytes ▸ List.prefix_refl _)
  exact hto.eq_of_length (Nat.le_antisymm hto.length_le hfrom.length_le)

namespace Trie

variable {t : Trie} {own : List Position} {branches : List (UInt8 × Trie)} {p position : Position}
  {keys : List (String × Position)}

/-! ## Each position once -/

/-- At each node the positions are descending, the latest first. -/
inductive Descending : Trie → Prop
  | intro {own : List Position} {branches : List (UInt8 × Trie)} :
      own.Pairwise (· > ·) → (∀ branch ∈ branches, Descending branch.2) → Descending (node own branches)

theorem descending_empty : empty.Descending := .intro List.Pairwise.nil (by simp)

/-- A position which is none of the earlier ones keeps the order at each node. -/
theorem Descending.add : ∀ {bytes : List UInt8} {t : Trie}, t.Descending →
    (∀ path q, t.Keeps path q → q ≤ position) → (t.add position bytes).Descending
  | [], node own branches, .intro hown hbelow, hle =>
    .intro (Postings.descending_addPosition hown fun q hq => hle [] q (.here hq)) hbelow
  | b :: bytes, node own branches, .intro hown hbelow, hle => by
    refine .intro hown fun branch h => ?_
    rcases mem_alter b _ h with h | rfl | ⟨t, ht, rfl⟩
    · exact hbelow branch h
    · exact descending_empty.add fun path q h => absurd h (not_keeps_empty path)
    · exact (hbelow _ ht).add fun path q h => hle (b :: path) q (.under ht h)

/-- Adding such a position under several byte strings, one after the other. -/
theorem Descending.addAll : ∀ {paths : List (List UInt8)} {t : Trie}, t.Descending →
    (∀ path q, t.Keeps path q → q ≤ position) → (paths.foldl (fun t path => t.add position path) t).Descending
  | [], _, h, _ => h
  | path :: paths, t, h, hle => by
    refine (h.add hle).addAll fun other q hq => ?_
    rcases keeps_add.1 hq with ⟨-, rfl⟩ | hq
    · exact Nat.le_refl q
    · exact hle other q hq

/-- **In a trie of keys which come in the order of their positions, no node has a position twice.** -/
theorem descending_ofKeys (h : (keys.map Prod.snd).Pairwise (· ≤ ·)) : (ofKeys keys).Descending := by
  induction keys using List.reverseRecOn with
  | nil => exact descending_empty
  | append_singleton keys key ih =>
    rw [List.map_append, List.pairwise_append] at h
    obtain ⟨hkeys, -, hlast⟩ := h
    have hconcat : ofKeys (keys ++ [key]) = (ofKeys keys).addKey key.1 key.2 := by
      rw [ofKeys, List.foldl_append]
      rfl
    rw [hconcat]
    -- whatever is kept already has come with an earlier key
    refine (ih hkeys).addAll fun path q hq => ?_
    obtain ⟨other, hother, -⟩ := (keeps_ofKeys keys).2.1 hq
    exact hlast q (List.mem_map_of_mem hother) key.2 (by simp)

/-! ## Counting -/

/-- The byte strings under which a position is kept. -/
def places (t : Trie) (p : Position) : Set (List UInt8) := {bytes | t.Keeps bytes p}

/-- The byte strings under which some branches keep a position. -/
def placesOf (branches : List (UInt8 × Trie)) (p : Position) : Set (List UInt8) :=
  {bytes | ∃ branch ∈ branches, ∃ more ∈ branch.2.places p, branch.1 :: more = bytes}

theorem places_node : (node own branches).places p = {bytes | bytes = [] ∧ p ∈ own} ∪ placesOf branches p := by
  ext bytes
  cases bytes with
  | nil => simp [places, placesOf, keeps_nil]
  | cons b bytes => simp [places, placesOf, keeps_cons]

theorem placesOf_cons (b : UInt8) (t : Trie) (branches : List (UInt8 × Trie)) :
    placesOf ((b, t) :: branches) p = (b :: ·) '' t.places p ∪ placesOf branches p := by
  ext bytes
  simp [placesOf]

mutual

/-- **Collecting finds a position once for every byte string under which it is kept.** -/
theorem encard_places : ∀ {t : Trie}, t.Distinct → t.Descending → (t.places p).encard = t.positions.count p
  | node own branches, .intro hnodup hdistinct, .intro hown hdescending => by
    have hdisjoint : Disjoint {bytes | bytes = [] ∧ p ∈ own} (placesOf branches p) := by
      rw [Set.disjoint_left]
      rintro bytes ⟨rfl, -⟩ ⟨branch, -, more, -, h⟩
      cases h
    have hhere : {bytes : List UInt8 | bytes = [] ∧ p ∈ own}.encard = own.count p := by
      by_cases hp : p ∈ own
      · have honce : own.count p = 1 := List.count_eq_one_of_mem (hown.imp Nat.ne_of_gt) hp
        simp [hp, honce]
      · simp [hp, List.count_eq_zero_of_not_mem hp]
    rw [places_node, Set.encard_union_eq hdisjoint, hhere, encard_placesOf hnodup hdistinct hdescending, positions,
      List.count_append, Nat.cast_add]

theorem encard_placesOf : ∀ {branches : List (UInt8 × Trie)}, (branches.map Prod.fst).Nodup →
    (∀ branch ∈ branches, Distinct branch.2) → (∀ branch ∈ branches, Descending branch.2) →
    (placesOf branches p).encard = (positionsOf branches).count p
  | [], _, _, _ => by simp [placesOf, positionsOf]
  | (b, t) :: branches, hnodup, hdistinct, hdescending => by
    obtain ⟨hb, hnodup⟩ := List.nodup_cons.1 hnodup
    -- byte strings of the first branch begin with its byte, which none of the other branches has
    have hdisjoint : Disjoint ((b :: ·) '' t.places p) (placesOf branches p) := by
      rw [Set.disjoint_left]
      rintro _ ⟨more, -, rfl⟩ ⟨branch, hbranch, other, -, h⟩
      exact hb (List.mem_map.2 ⟨branch, hbranch, (List.cons.inj h).1⟩)
    obtain ⟨hfirst, hdistinct⟩ := List.forall_mem_cons.1 hdistinct
    obtain ⟨hsecond, hdescending⟩ := List.forall_mem_cons.1 hdescending
    rw [placesOf_cons, Set.encard_union_eq hdisjoint, (List.cons_injective).encard_image, encard_places hfirst hsecond,
      encard_placesOf hnodup hdistinct hdescending, positionsOf, List.count_append, Nat.cast_add]

end

/-- What holds of a trie and goes over from each node to its branches holds of every node that is found. -/
theorem of_find? {P : Trie → Prop}
    (hbelow : ∀ {own branches}, P (node own branches) → ∀ branch ∈ branches, P branch.2) :
    ∀ {bytes : List UInt8} {t found : Trie}, P t → t.find? bytes = some found → P found
  | [], _, _, h, hfound => Option.some.inj hfound ▸ h
  | b :: bytes, node own branches, found, h, hfound => by
    obtain ⟨s, hs, hfound⟩ := Option.bind_eq_some_iff.1 hfound
    exact of_find? hbelow (hbelow h _ (mem_of_lookup hs)) hfound

/-- What is found for a text has a position once for every byte string which begins with the text and under which the
position is kept. -/
theorem encard_within (hdistinct : t.Distinct) (hdescending : t.Descending) (text : String) :
    {bytes ∈ t.places p | Text.Utf8.encode text <+: bytes}.encard = (t.within text).count p := by
  cases hfind : t.find? (Text.Utf8.encode text) with
  | none =>
    have hnone : {bytes ∈ t.places p | Text.Utf8.encode text <+: bytes} = ∅ := by
      rw [Set.eq_empty_iff_forall_notMem]
      rintro _ ⟨hkeeps, more, rfl⟩
      obtain ⟨found, hfound, -⟩ := (keeps_find hdistinct).2 hkeeps
      cases hfind.symm.trans hfound
    rw [hnone, within_of_find?_none hfind, Set.encard_empty, List.count_nil, Nat.cast_zero]
  | some found =>
    have himage : {bytes ∈ t.places p | Text.Utf8.encode text <+: bytes} =
        (Text.Utf8.encode text ++ ·) '' found.places p := by
      ext bytes
      constructor
      · rintro ⟨hkeeps, more, rfl⟩
        obtain ⟨other, hother, hmore⟩ := (keeps_find hdistinct).2 hkeeps
        exact ⟨more, Option.some.inj (hfind.symm.trans hother) ▸ hmore, rfl⟩
      · rintro ⟨more, hmore, rfl⟩
        exact ⟨(keeps_find hdistinct).1 ⟨found, hfind, hmore⟩, List.prefix_append _ more⟩
    have hfirst : found.Distinct := of_find? (fun (.intro _ hbelow) => hbelow) hdistinct hfind
    have hsecond : found.Descending := of_find? (fun (.intro _ hbelow) => hbelow) hdescending hfind
    rw [himage, (List.append_right_injective _).encard_image, encard_places hfirst hsecond,
      (within_of_find? hfind).count_eq]

/-- A trie of keys keeps a position under the bytes of the suffixes of the keys at this position. -/
theorem places_ofKeys (keys : List (String × Position)) (p : Position) : (ofKeys keys).places p =
    (fun suffix => suffix.flatMap Text.Utf8.encodeChar) ''
      {suffix : List Char | suffix ≠ [] ∧ ∃ key, (key, p) ∈ keys ∧ suffix <:+ key.toList} := by
  ext bytes
  simp only [places, Set.mem_ofPred_eq, (keeps_ofKeys keys).2, keySuffixes, List.mem_map, mem_suffixes, Set.mem_image]
  constructor
  · rintro ⟨key, hkey, suffix, ⟨hne, hsuffix⟩, rfl⟩
    exact ⟨suffix, ⟨hne, key, hkey, hsuffix⟩, rfl⟩
  · rintro ⟨suffix, ⟨hne, key, hkey, hsuffix⟩, rfl⟩
    exact ⟨key, hkey, suffix, ⟨hne, hsuffix⟩, rfl⟩

/-- **A trie finds each position once for each suffix.** Keys are added in the order of their positions. Then the search
for a text ends, and gives each position as often as there are suffixes, other than the empty one, of the keys at this
position that begin with the text. -/
theorem search_counts_suffixes (h : (keys.map Prod.snd).Pairwise (· ≤ ·)) (text : String) :
    ((ofKeys keys).search text).Gives ((ofKeys keys).within text) ∧
      ∀ p, {suffix : List Char | suffix ≠ [] ∧ text.toList <+: suffix ∧
        ∃ key, (key, p) ∈ keys ∧ suffix <:+ key.toList}.encard = ((ofKeys keys).within text).count p := by
  refine ⟨Search.gives_toList _, fun p => ?_⟩
  rw [← encard_within (@keeps_ofKeys p [] keys).1 (descending_ofKeys h) text,
    ← Text.Utf8.flatMap_encodeChar_injective.encard_image]
  congr 1
  -- the bytes of the suffixes are the byte strings that are found
  ext bytes
  rw [places_ofKeys]
  constructor
  · rintro ⟨suffix, ⟨hne, hprefix, hkey⟩, rfl⟩
    exact ⟨⟨suffix, ⟨hne, hkey⟩, rfl⟩, Text.Utf8.prefix_iff.2 hprefix⟩
  · rintro ⟨⟨suffix, ⟨hne, hkey⟩, rfl⟩, hprefix⟩
    exact ⟨suffix, ⟨hne, Text.Utf8.prefix_iff.1 hprefix, hkey⟩, rfl⟩

/-- Keys of two records; the suffixes of the second key of the first one are suffixes of its first key as well. -/
def nestedKeys : List (String × Position) := [("aaa", 7), ("aa", 7), ("äa", 9)]

/-- Three suffixes of two keys begin with the same letter, and their record is found three times. -/
theorem search_counts_suffixes_nested : (nestedKeys.map Prod.snd).Pairwise (· ≤ ·) ∧
    ((ofKeys nestedKeys).search "a").Gives [7, 9, 7, 7] ∧
    {suffix : List Char | suffix ≠ [] ∧ "a".toList <+: suffix ∧
      ∃ key, (key, 7) ∈ nestedKeys ∧ suffix <:+ key.toList}.encard = 3 := by
  have hordered : (nestedKeys.map Prod.snd).Pairwise (· ≤ ·) := by decide
  have hfound : (ofKeys nestedKeys).within "a" = [7, 9, 7, 7] := by decide +kernel
  obtain ⟨hgives, hcount⟩ := search_counts_suffixes hordered "a"
  rw [hfound] at hgives hcount
  exact ⟨hordered, hgives, hcount 7⟩

end Trie

end RecordServer
