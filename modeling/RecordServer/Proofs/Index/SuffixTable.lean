import RecordServer.Proofs.Index.Search
import RecordServer.Proofs.Index.Substring
import RecordServer.Proofs.Index.SuffixFile
import RecordServer.Proofs.Sorting.Arrangement

/-!
# Index files

A table of keys has an entry for each suffix of each key, which leads to it (`SuffixTable.mem_suffixesFrom`,
`SuffixTable.of_mem_suffixesFrom`), and its entries are sorted (`SuffixTable.ofKeys_spec`). So a search in a file with
such a table finds the positions of the keys which contain the text (`SuffixFile.mem_search`), and the tables of an
index file that has been written for some records describe them (`Tables.describes_substringFile`).
-/

namespace RecordServer

namespace SuffixTable

/-! ## Order -/

theorem precedes_iff {a b : List UInt8 × SuffixEntry} :
    precedes a b = true ↔ a.1 < b.1 ∨ a.1 = b.1 ∧ a.2.position ≤ b.2.position := by
  simp [precedes]

theorem precedes_trans {a b c : List UInt8 × SuffixEntry} (hab : precedes a b = true) (hbc : precedes b c = true) :
    precedes a c = true := by
  rw [precedes_iff] at hab hbc ⊢
  rcases hab with hab | ⟨hab, hposition⟩
  · rcases hbc with hbc | ⟨hbc, -⟩
    · exact .inl (List.lt_trans hab hbc)
    · exact .inl (hbc ▸ hab)
  · rcases hbc with hbc | ⟨hbc, hposition'⟩
    · exact .inl (hab ▸ hbc)
    · exact .inr ⟨hab.trans hbc, UInt64.le_trans hposition hposition'⟩

theorem precedes_total (a b : List UInt8 × SuffixEntry) : (precedes a b || precedes b a) = true := by
  rw [Bool.or_eq_true, precedes_iff, precedes_iff]
  by_cases hab : a.1 < b.1
  · exact .inl (.inl hab)
  · by_cases hba : b.1 < a.1
    · exact .inr (.inl hba)
    · have heq : a.1 = b.1 := List.le_antisymm hba hab
      rcases UInt64.le_total a.2.position b.2.position with h | h
      · exact .inl (.inr ⟨heq, h⟩)
      · exact .inr (.inr ⟨heq.symm, h⟩)

/-! ## Suffixes -/

/-- Keys with positions whose numbers fit into entries. -/
def KeysFit (keys : List (String × Position)) : Prop := ∀ key ∈ keys, key.1.utf8ByteSize < 2 ^ 32 ∧ key.2 < 2 ^ 64

/-- The bytes of keys, one behind the other. -/
def keyBytes (keys : List (String × Position)) : List UInt8 := keys.flatMap fun key => Text.Utf8.encode key.1

theorem suffix_of_mem {key : String} {suffix : List UInt8} (h : suffix ∈ keySuffixes key) :
    suffix <:+ Text.Utf8.encode key := by
  obtain ⟨cs, hcs, rfl⟩ := List.mem_map.1 h
  obtain ⟨before, hbefore⟩ := (mem_suffixes.1 hcs).2
  rw [Text.Utf8.encode, ← hbefore, List.flatMap_append]
  exact List.suffix_append _ _

/-- An entry leads to the suffix of a key for which it has been made. -/
theorem bytes_of_suffix {key : String} {before suffix after : List UInt8} {p : Position}
    (hsize : (before ++ Text.Utf8.encode key ++ after).length < 2 ^ 64) (hkey : key.utf8ByteSize < 2 ^ 32)
    (h : suffix ∈ keySuffixes key) :
    let e : SuffixEntry :=
      ⟨UInt64.ofNat (before.length + key.utf8ByteSize - suffix.length), UInt32.ofNat suffix.length, UInt64.ofNat p⟩
    e.bytes (before ++ Text.Utf8.encode key ++ after) = suffix := by
  intro e
  obtain ⟨skipped, hskipped⟩ := suffix_of_mem h
  have hlength : skipped.length + suffix.length = key.utf8ByteSize := by
    rw [← List.length_append, hskipped, Text.Utf8.length_encode]
  have hbytes : before ++ Text.Utf8.encode key ++ after = before ++ skipped ++ (suffix ++ after) := by
    simp only [← hskipped, List.append_assoc]
  have htotal : (before ++ Text.Utf8.encode key ++ after).length = before.length + key.utf8ByteSize + after.length := by
    rw [List.length_append, List.length_append, Text.Utf8.length_encode]
  rw [htotal] at hsize
  have hstart : e.start.toNat = (before ++ skipped).length := by
    rw [List.length_append, UInt64.toNat_ofNat_of_lt' (show _ < 2 ^ 64 by omega)]
    omega
  have hcount : e.length.toNat = suffix.length := UInt32.toNat_ofNat_of_lt' (show _ < 2 ^ 32 by omega)
  have hle : e.start.toNat + e.length.toNat ≤ before.length + key.utf8ByteSize + after.length := by
    rw [hstart, hcount, List.length_append]
    omega
  obtain ⟨hstop, -⟩ := SuffixFile.stop_le hsize hle
  have hordered : e.start ≤ e.stop := UInt64.le_iff_toNat_le.2 (by omega)
  rw [SuffixEntry.bytes, if_pos ⟨hordered, by omega⟩, UInt64.toNat_sub_of_le _ _ hordered, hstop,
    Nat.add_sub_cancel_left, hstart, hcount, hbytes, List.drop_left, List.take_left]

/-- Each entry leads to its suffix, which is one of a key with its position. -/
theorem of_mem_suffixesFrom : ∀ {keys : List (String × Position)} {before : List UInt8},
    KeysFit keys → (before ++ keyBytes keys).length < 2 ^ 64 → ∀ {suffix : List UInt8} {e : SuffixEntry},
    (suffix, e) ∈ suffixesFrom before.length keys → e.bytes (before ++ keyBytes keys) = suffix ∧
      ∃ key, (key, e.position.toNat) ∈ keys ∧ suffix ∈ keySuffixes key
  | [], _, _, _, _, _, h => absurd h List.not_mem_nil
  | (key, p) :: keys, before, hkeys, hsize, suffix, e, h => by
    obtain ⟨⟨hkey, hp⟩, hrest⟩ := List.forall_mem_cons.1 hkeys
    have hbytes : before ++ keyBytes ((key, p) :: keys) = before ++ Text.Utf8.encode key ++ keyBytes keys := by
      rw [keyBytes, List.flatMap_cons, List.append_assoc, ← keyBytes]
    rw [hbytes] at hsize ⊢
    rcases List.mem_append.1 h with h | h
    · obtain ⟨found, hfound, hpair⟩ := List.mem_map.1 h
      obtain ⟨rfl, rfl⟩ := Prod.mk.inj hpair
      refine ⟨@bytes_of_suffix key before found (keyBytes keys) p hsize hkey hfound, key, ?_, hfound⟩
      rw [UInt64.toNat_ofNat_of_lt' hp]
      exact List.mem_cons_self
    · have hstart : before.length + key.utf8ByteSize = (before ++ Text.Utf8.encode key).length := by
        rw [List.length_append, Text.Utf8.length_encode]
      rw [hstart] at h
      obtain ⟨hsame, key', hkey', hsuffix⟩ := of_mem_suffixesFrom hrest hsize h
      exact ⟨hsame, key', List.mem_cons_of_mem _ hkey', hsuffix⟩

/-- Each suffix of a key has an entry with its position. -/
theorem mem_suffixesFrom {key : String} {p : Position} {suffix : List UInt8} (hsuffix : suffix ∈ keySuffixes key) :
    ∀ {keys : List (String × Position)} {start : Nat}, (key, p) ∈ keys →
    ∃ e, (suffix, e) ∈ suffixesFrom start keys ∧ e.position = UInt64.ofNat p
  | (first, q) :: keys, start, h => by
    unfold suffixesFrom
    rcases List.mem_cons.1 h with h | h
    · obtain ⟨rfl, rfl⟩ := Prod.mk.inj h
      exact ⟨_, List.mem_append.2 (.inl (List.mem_map.2 ⟨suffix, hsuffix, rfl⟩)), rfl⟩
    · obtain ⟨e, he, hposition⟩ := mem_suffixesFrom hsuffix h
      exact ⟨e, List.mem_append.2 (.inr he), hposition⟩

/-! ## Tables of keys -/

variable {property : String} {keys : List (String × Position)}

/-- The suffixes of a table with their bytes, in order. -/
theorem ofKeys_arranged (property : String) (keys : List (String × Position)) :
    ∃ pairs : List (List UInt8 × SuffixEntry), (ofKeys property keys).entries = pairs.map Prod.snd ∧
      pairs.Perm (suffixesFrom 0 keys) ∧ pairs.Pairwise fun a b => precedes a b = true :=
  ⟨_, rfl, (List.mergeSort_perm _ _).trans (Sorting.arrange_perm _ _),
    List.pairwise_mergeSort (fun a b c => @precedes_trans a b c) precedes_total _⟩

/-- The numbers of an entry lead no further than the keys, even if they have been cut off. -/
theorem within_suffixesFrom : ∀ {keys : List (String × Position)} {start : Nat} {pair : List UInt8 × SuffixEntry},
    pair ∈ suffixesFrom start keys → pair.2.start.toNat + pair.2.length.toNat ≤ start + (keyBytes keys).length
  | (key, p) :: keys, start, pair, h => by
    have hbytes : (keyBytes ((key, p) :: keys)).length = key.utf8ByteSize + (keyBytes keys).length := by
      rw [keyBytes, List.flatMap_cons, List.length_append, Text.Utf8.length_encode, keyBytes]
    rcases List.mem_append.1 h with h | h
    · obtain ⟨suffix, hsuffix, rfl⟩ := List.mem_map.1 h
      have hlength := (suffix_of_mem hsuffix).length_le
      have hstart : (UInt64.ofNat (start + key.utf8ByteSize - suffix.length)).toNat ≤
          start + key.utf8ByteSize - suffix.length := UInt64.toNat_ofNat' ▸ Nat.mod_le _ _
      have hcount : (UInt32.ofNat suffix.length).toNat ≤ suffix.length := UInt32.toNat_ofNat' ▸ Nat.mod_le _ _
      rw [Text.Utf8.length_encode] at hlength
      rw [hbytes]
      simp only
      omega
    · have ih := within_suffixesFrom h
      omega

/-- The entries of a table are within its keys. -/
theorem within_ofKeys (property : String) (keys : List (String × Position)) : (ofKeys property keys).Within := by
  obtain ⟨pairs, hentries, hperm, -⟩ := ofKeys_arranged property keys
  intro e he
  obtain ⟨pair, hmem, rfl⟩ := List.mem_map.1 (hentries ▸ he)
  have hle := within_suffixesFrom (hperm.mem_iff.1 hmem)
  rwa [Nat.zero_add] at hle

/-- **A table of keys has exactly their suffixes, in order.** -/
theorem ofKeys_spec (hkeys : KeysFit keys) (hsize : (keyBytes keys).length < 2 ^ 64) :
    SuffixFile.Sorted (keyBytes keys) (ofKeys property keys).entries ∧
      ∀ suffix p, (∃ e ∈ (ofKeys property keys).entries, e.bytes (keyBytes keys) = suffix ∧ e.position.toNat = p) ↔
        ∃ key, (key, p) ∈ keys ∧ suffix ∈ keySuffixes key := by
  obtain ⟨pairs, hentries, hperm, hordered⟩ := ofKeys_arranged property keys
  have hpair : ∀ pair ∈ pairs, _ := fun pair hmem => @of_mem_suffixesFrom keys [] hkeys hsize pair.1 pair.2
    (hperm.mem_iff.1 hmem)
  refine ⟨?_, fun suffix p => ⟨?_, ?_⟩⟩
  · rw [hentries, SuffixFile.Sorted, List.pairwise_map]
    refine hordered.imp_of_mem fun {a b} ha hb hab => ?_
    rw [show a.2.bytes (keyBytes keys) = a.1 from (hpair a ha).1,
      show b.2.bytes (keyBytes keys) = b.1 from (hpair b hb).1]
    rcases precedes_iff.1 hab with hlt | ⟨heq, -⟩
    · exact List.lt_asymm hlt
    · exact heq ▸ List.lt_irrefl a.1
  · rintro ⟨e, he, rfl, rfl⟩
    obtain ⟨pair, hmem, rfl⟩ := List.mem_map.1 (hentries ▸ he)
    obtain ⟨hbytes, hkey⟩ := hpair pair hmem
    exact (show pair.2.bytes (keyBytes keys) = pair.1 from hbytes).symm ▸ hkey
  · rintro ⟨key, hkey, hsuffix⟩
    obtain ⟨e, he, hposition⟩ := @mem_suffixesFrom key p suffix hsuffix keys 0 hkey
    have hmem := hperm.mem_iff.2 he
    refine ⟨e, hentries ▸ List.mem_map.2 ⟨_, hmem, rfl⟩, (hpair _ hmem).1, ?_⟩
    rw [hposition, UInt64.toNat_ofNat_of_lt' (hkeys _ hkey).2]

end SuffixTable

namespace SuffixFile

/-- **A search finds the positions of the keys, other than the empty one, which contain the text.** -/
theorem mem_search {f : SuffixFile} {r : SuffixRegion} {property : String} {keys : List (String × Position)}
    (hkeys : SuffixTable.KeysFit keys) (hsize : (SuffixTable.keyBytes keys).length < 2 ^ 64)
    (h : f.Holds r (.ofKeys property keys)) (text : String) :
    ∃ found, f.search r text = .ok found ∧
      ∀ p, p ∈ found ↔ ∃ key, (key, p) ∈ keys ∧ key ≠ "" ∧ text.toList <:+: key.toList := by
  obtain ⟨hsorted, hmem⟩ := @SuffixTable.ofKeys_spec property keys hkeys hsize
  have hfound : ∀ p, (∃ e ∈ r.entries, Text.Utf8.encode text <+: e.bytes (SuffixTable.keyBytes keys) ∧
      e.position.toNat = p) ↔ ∃ key, (key, p) ∈ keys ∧ key ≠ "" ∧ text.toList <:+: key.toList := by
    intro p
    simp only [← prefix_keySuffixes, h.entries]
    constructor
    · rintro ⟨e, he, hprefix, hp⟩
      obtain ⟨key, hkey, hsuffix⟩ := (hmem _ p).1 ⟨e, he, rfl, hp⟩
      exact ⟨key, hkey, _, hsuffix, hprefix⟩
    · rintro ⟨key, hkey, suffix, hsuffix, hprefix⟩
      obtain ⟨e, he, rfl, hp⟩ := (hmem suffix p).2 ⟨key, hkey, hsuffix⟩
      exact ⟨e, he, hprefix, hp⟩
  unfold search
  split
  · rename_i hempty
    refine ⟨[], rfl, fun p => ?_⟩
    rw [← hfound p, hempty]
    simp
  · rw [h.keys]
    refine ⟨_, rfl, fun p => ?_⟩
    rw [← hfound p, h.entries]
    exact mem_matching hsorted

/-! ## Files of records -/

/-- The tables of the index file of some records. -/
def tablesOf (ignoreCase : Bool) (properties : List String) (records : List (Position × Record)) : List SuffixTable :=
  properties.map fun property => .ofKeys property (keysOf ignoreCase records property)

/-- An index file has room for some records: no key, position, name, number of names or place is too large. -/
structure RoomFor (ignoreCase : Bool) (properties : List String) (records : List (Position × Record)) : Prop where
  count : properties.length < 2 ^ 32
  names : ∀ property ∈ properties, property.utf8ByteSize < 2 ^ 32
  keys : ∀ property ∈ properties, SuffixTable.KeysFit (keysOf ignoreCase records property)
  size : (encode ignoreCase (tablesOf ignoreCase properties records)).length < 2 ^ 64

/-- The keys of a table are within its file. -/
theorem length_keys_le {ignoreCase : Bool} {tables : List SuffixTable} {t : SuffixTable} (h : t ∈ tables) :
    t.keys.length ≤ (encode ignoreCase tables).length := by
  obtain ⟨before, after, rfl⟩ := List.append_of_mem h
  simp only [encode_eq, SuffixTable.body, List.flatMap_append, List.flatMap_cons, List.length_append]
  omega

variable {ignoreCase : Bool} {properties : List String} {records : List (Position × Record)}

theorem RoomFor.keyBytes_lt (h : RoomFor ignoreCase properties records) {property : String}
    (hproperty : property ∈ properties) :
    (SuffixTable.keyBytes (keysOf ignoreCase records property)).length < 2 ^ 64 := by
  have hmem : .ofKeys property (keysOf ignoreCase records property) ∈ tablesOf ignoreCase properties records :=
    List.mem_map.2 ⟨property, hproperty, rfl⟩
  exact Nat.lt_of_le_of_lt (length_keys_le hmem) h.size

@[simp] theorem length_tablesOf : (tablesOf ignoreCase properties records).length = properties.length :=
  List.length_map ..

@[simp] theorem map_property_tablesOf :
    (tablesOf ignoreCase properties records).map SuffixTable.property = properties :=
  (List.map_map ..).trans (List.map_id' _)

theorem forall_property_tablesOf {P : String → Prop} :
    (∀ t ∈ tablesOf ignoreCase properties records, P t.property) ↔ ∀ property ∈ properties, P property := by
  rw [← List.forall_mem_map, map_property_tablesOf]

theorem within_tablesOf : ∀ t ∈ tablesOf ignoreCase properties records, t.Within :=
  List.forall_mem_map.2 fun _ _ => SuffixTable.within_ofKeys _ _

/-- There is room for some records if and only if their tables fit into a file, and their keys into tables. -/
theorem roomFor_iff : RoomFor ignoreCase properties records ↔
    Fits ignoreCase (tablesOf ignoreCase properties records) ∧
      ∀ property ∈ properties, SuffixTable.KeysFit (keysOf ignoreCase records property) := by
  constructor
  · intro h
    refine ⟨⟨?_, forall_property_tablesOf.2 h.names, within_tablesOf, h.size⟩, h.keys⟩
    exact length_tablesOf ▸ h.count
  · rintro ⟨h, hkeys⟩
    refine ⟨?_, forall_property_tablesOf.1 h.properties, hkeys, h.size⟩
    exact length_tablesOf ▸ h.count

theorem RoomFor.fits (h : RoomFor ignoreCase properties records) :
    Fits ignoreCase (tablesOf ignoreCase properties records) := (roomFor_iff.1 h).1

/-- The region of a property is the first one with its name. -/
theorem lookup_of_holds {f : SuffixFile} {make : String → SuffixTable} {property : String} :
    ∀ {properties : List String} {regions : List SuffixRegion},
    List.Forall₂ f.Holds regions (properties.map make) → property ∈ properties →
    ∃ r, (properties.zip regions).lookup property = some r ∧ f.Holds r (make property)
  | first :: properties, r :: regions, .cons hfirst hrest, h => by
    rw [List.zip_cons_cons, List.lookup_cons]
    by_cases hsame : property = first
    · subst hsame
      exact ⟨r, by simp, hfirst⟩
    · have hbeq : (property == first) = false := by simpa using hsame
      rw [hbeq]
      exact lookup_of_holds hrest ((List.mem_cons.1 h).resolve_left hsame)

end SuffixFile

/-- **The tables of an index file describe the records for which it has been written.** -/
theorem Tables.describes_substringFile {ignoreCase : Bool} {properties : List String}
    {records : List (Position × Record)} (h : SuffixFile.RoomFor ignoreCase properties records) :
    (Tables.substringFile ignoreCase properties
      (.ofTables ignoreCase (SuffixFile.tablesOf ignoreCase properties records))).Describes properties records := by
  have hall := SuffixFile.holds_ofTables h.fits
  generalize SuffixFile.ofTables ignoreCase (SuffixFile.tablesOf ignoreCase properties records) = f at hall ⊢
  intro property hproperty expected
  cases hkey : expected.key? with
  | none =>
    refine ⟨none, by simp [positions?, hkey], List.Pairwise.nil, fun p => ?_⟩
    simp [Tables.Test, Record.Meets, Value.Contains, hkey]
  | some key =>
    obtain ⟨region, hlookup, hholds⟩ := SuffixFile.lookup_of_holds hall hproperty
    obtain ⟨found, hfound, hmem⟩ := SuffixFile.mem_search (h.keys property hproperty) (h.keyBytes_lt hproperty) hholds
      (foldKey ignoreCase key)
    refine ⟨some (Leaf.ascending found), ?_, Leaf.ascending_ascending _, fun p => ?_⟩
    · simp only [positions?, hkey, hlookup, hfound]
      rfl
    · rw [Option.getD_some, Leaf.mem_ascending, hmem]
      exact mem_containing hkey

end RecordServer
