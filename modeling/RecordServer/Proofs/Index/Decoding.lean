import RecordServer.Proofs.Index.SuffixFile

/-!
# Reading any bytes

What can be said of bytes which are read as an index file, whoever has written them. Each region that is read lies
within the bytes, as far as its end, its entries and the ends of its suffixes are concerned (`SuffixRegion.Inside`,
`SuffixFile.inside_of_decode?`); that it begins before it ends is not checked.

What is written without regard to the size of its numbers is read with other numbers, and can still be an index file. It
is one for the same properties if and only if their number and their lengths are not too large
(`SuffixFile.properties_of_decode?`).
-/

namespace RecordServer

/-! ## Pieces -/

variable {bytes first rest : List UInt8} {size n : Nat}

theorem of_splitBytes? (h : splitBytes? size bytes = some (first, rest)) :
    first = bytes.take size ∧ rest = bytes.drop size := by
  unfold splitBytes? at h
  simp only at h
  split at h
  · obtain ⟨rfl, rfl⟩ := Prod.mk.inj (Option.some.inj h)
    exact ⟨rfl, rfl⟩
  · cases h

theorem of_readNumber? (h : readNumber? size bytes = some (n, rest)) :
    n = ofLittleEndian (bytes.take size) ∧ rest = bytes.drop size := by
  obtain ⟨⟨first, rest'⟩, hsplit, hn⟩ := Option.map_eq_some_iff.1 h
  obtain ⟨rfl, rfl⟩ := of_splitBytes? hsplit
  obtain ⟨rfl, rfl⟩ := Prod.mk.inj hn
  exact ⟨rfl, rfl⟩

/-! ## Regions -/

/-- A region is within some bytes: it ends there, its entries are there, and no suffix ends behind its keys. -/
structure SuffixRegion.Inside (data : List UInt8) (r : SuffixRegion) : Prop where
  stop : r.stop.toNat ≤ data.length
  entries : r.entriesStart.toNat + SuffixEntry.size * r.entries.length ≤ data.length
  within : ∀ e ∈ r.entries, e.stop ≤ SuffixFile.extent r.start r.stop

namespace SuffixFile

variable {data : List UInt8} {regions : List SuffixRegion} {f : SuffixFile}

@[simp] theorem length_entriesOf : ∀ (count : Nat) (bytes : List UInt8), (entriesOf count bytes).length = count
  | 0, _ => rfl
  | count + 1, bytes => congrArg Nat.succ (length_entriesOf count (bytes.drop SuffixEntry.size))

/-- A region that is read is within the bytes. -/
theorem inside_of_region? {property : String} {start length entries : UInt64} {count : Nat} {r : SuffixRegion}
    (h : region? data property start length entries count = some r) : r.property = property ∧ r.Inside data := by
  unfold region? at h
  simp only at h
  split at h
  · cases h
  · rename_i hsize
    split at h
    · rename_i hall
      obtain rfl := Option.some.inj h
      refine ⟨rfl, Nat.le_of_not_lt fun hlt => hsize (.inl hlt), ?_, ?_⟩
      · rw [length_entriesOf]
        exact Nat.le_of_not_lt fun hlt => hsize (.inr hlt)
      · simpa using hall
    · cases h

/-- The head of a table: the length and the bytes of its property, and four numbers. -/
theorem of_regions?_succ (h : regions? data (n + 1) bytes = some regions) : ∃ size rest region more,
    readNumber? 4 bytes = some (size, rest) ∧
    (∃ raw behind, splitBytes? size rest = some (raw, behind) ∧ Text.Utf8.decode? raw = some region.property ∧
      regions? data n (behind.drop 32) = some more) ∧
    region.Inside data ∧ regions = region :: more := by
  simp only [regions?, Option.bind_eq_bind, Option.bind_eq_some_iff, Prod.exists] at h
  obtain ⟨size, rest, hsize, raw, behind, hraw, property, hproperty, start, bytes₁, hstart, length, bytes₂, hlength,
    entries, bytes₃, hentries, count, bytes₄, hcount, region, hregion, more, hmore, hregions⟩ := h
  obtain ⟨rfl, hinside⟩ := inside_of_region? hregion
  obtain ⟨-, rfl⟩ := of_readNumber? hstart
  obtain ⟨-, rfl⟩ := of_readNumber? hlength
  obtain ⟨-, rfl⟩ := of_readNumber? hentries
  obtain ⟨-, rfl⟩ := of_readNumber? hcount
  simp only [List.drop_drop] at hmore
  exact ⟨size, rest, region, more, hsize, ⟨raw, behind, hraw, hproperty, hmore⟩, hinside,
    (Option.some.inj hregions).symm⟩

theorem length_regions? : ∀ {n : Nat} {bytes : List UInt8} {regions : List SuffixRegion},
    regions? data n bytes = some regions → regions.length = n
  | 0, _, _, h => by
    cases h
    rfl
  | n + 1, _, _, h => by
    obtain ⟨_, _, _, more, -, ⟨_, _, -, -, hmore⟩, -, rfl⟩ := of_regions?_succ h
    exact congrArg Nat.succ (length_regions? hmore)

theorem inside_of_regions? : ∀ {n : Nat} {bytes : List UInt8} {regions : List SuffixRegion},
    regions? data n bytes = some regions → ∀ r ∈ regions, r.Inside data
  | 0, _, _, h => by
    cases h
    exact nofun
  | n + 1, _, _, h => by
    obtain ⟨_, _, _, more, -, ⟨_, _, -, -, hmore⟩, hinside, rfl⟩ := of_regions?_succ h
    exact List.forall_mem_cons.2 ⟨hinside, inside_of_regions? hmore⟩

/-! ## Files -/

/-- What is read of a file: its flags, the number of its tables and these. -/
theorem of_decode? (h : decode? data = some f) : f.data = data ∧ data.take 8 = magic ∧
    f.flags = UInt32.ofNat (ofLittleEndian ((data.drop 8).take 4)) ∧
    regions? data (ofLittleEndian ((data.drop 12).take 4)) (data.drop 16) = some f.regions := by
  simp only [decode?, Option.bind_eq_bind, Option.bind_eq_some_iff, Prod.exists] at h
  obtain ⟨first, bytes₁, hfirst, h⟩ := h
  split at h
  · cases h
  · rename_i hmagic
    simp only [Option.bind_eq_some_iff, Prod.exists] at h
    obtain ⟨flags, bytes₂, hflags, tables, bytes₃, htables, regions, hregions, hf⟩ := h
    obtain ⟨rfl, rfl⟩ := of_splitBytes? hfirst
    obtain ⟨rfl, rfl⟩ := of_readNumber? hflags
    obtain ⟨rfl, rfl⟩ := of_readNumber? htables
    obtain rfl := Option.some.inj hf
    rw [List.drop_drop, List.drop_drop] at hregions
    exact ⟨rfl, not_not.1 hmagic, rfl, hregions⟩

/-- **Each region that is read lies within the file.** -/
theorem inside_of_decode? (h : decode? data = some f) : ∀ r ∈ f.regions, r.Inside data :=
  inside_of_regions? (of_decode? h).2.2.2

/-! ## Written files -/

/-- The head of a table is read with the property of the table if its length fits, and in no other way. -/
theorem of_regions?_encodeHeads {t : SuffixTable} {tables : List SuffixTable} {offset : Nat}
    (h : regions? data (n + 1) (encodeHeads offset (t :: tables) ++ rest) = some regions) :
    ∃ region more, regions = region :: more ∧
      (region.property = t.property ↔ t.property.utf8ByteSize < 2 ^ 32) ∧
      (t.property.utf8ByteSize < 2 ^ 32 → regions? data n
        (encodeHeads (offset + t.keys.length + SuffixEntry.size * t.entries.length) tables ++ rest) = some more) := by
  obtain ⟨size, bytes, region, more, hsize, ⟨raw, behind, hraw, hproperty, hmore⟩, -, rfl⟩ := of_regions?_succ h
  simp only [encodeHeads, List.append_assoc, readNumber?_mod] at hsize
  obtain ⟨hmod, rfl⟩ := Prod.mk.inj (Option.some.inj hsize)
  have hle : size ≤ (Text.Utf8.encode t.property).length := by
    rw [Text.Utf8.length_encode, ← hmod]
    exact Nat.mod_le _ _
  obtain ⟨hraw, hbehind⟩ := of_splitBytes? hraw
  rw [List.take_append_of_le_length hle] at hraw
  have hwhole (hfits : t.property.utf8ByteSize < 2 ^ 32) : (Text.Utf8.encode t.property).length = size := by
    rw [Text.Utf8.length_encode, ← hmod, Nat.mod_eq_of_lt (show _ < 256 ^ 4 from hfits)]
  refine ⟨region, more, rfl, ⟨fun hname => ?_, fun hfits => ?_⟩, fun hfits => ?_⟩
  · -- a part of the bytes would not have been read as the whole property
    have hall : raw = Text.Utf8.encode t.property :=
      Text.Utf8.eq_encode_of_prefix (hname ▸ hproperty) (hraw ▸ List.take_prefix _ _)
    have hlength : size = t.property.utf8ByteSize := by
      refine Nat.le_antisymm (Text.Utf8.length_encode _ ▸ hle) ?_
      rw [← Text.Utf8.length_encode, ← hall, hraw, List.length_take]
      exact Nat.min_le_left _ _
    rw [← hlength, ← hmod]
    exact Nat.mod_lt _ (by decide)
  · rw [hraw, List.take_of_length_le (Nat.le_of_eq (hwhole hfits)), Text.Utf8.decode?_encode] at hproperty
    exact (Option.some.inj hproperty).symm
  · rw [List.drop_left' (hwhole hfits)] at hbehind
    have hrest : behind.drop 32 =
        encodeHeads (offset + t.keys.length + SuffixEntry.size * t.entries.length) tables ++ rest := by
      simp only [hbehind, ← List.append_assoc]
      rw [List.append_assoc]
      exact List.drop_left' (by simp)
    exact hrest ▸ hmore

/-- The regions that are read from the heads of some tables have the properties of these, unless one is too long. -/
theorem properties_of_regions? {tables : List SuffixTable} {offset : Nat}
    (h : regions? data tables.length (encodeHeads offset tables ++ rest) = some regions) :
    regions.map SuffixRegion.property = tables.map SuffixTable.property ↔
      ∀ t ∈ tables, t.property.utf8ByteSize < 2 ^ 32 := by
  induction tables generalizing offset regions with
  | nil =>
    cases h
    simp
  | cons t tables ih =>
    obtain ⟨region, more, rfl, hfirst, hothers⟩ := of_regions?_encodeHeads h
    rw [List.map_cons, List.map_cons, List.cons.injEq, List.forall_mem_cons, hfirst]
    exact and_congr_right fun hfits => ih (hothers hfits)

variable {ignoreCase : Bool} {tables : List SuffixTable}

/-- What is read of the file of some tables: its flag, and as many tables as four bytes can count. -/
theorem of_decode?_encode (h : decode? (encode ignoreCase tables) = some f) : f.flags = flagsFor ignoreCase ∧
    regions? (encode ignoreCase tables) (tables.length % 2 ^ 32)
      (encodeHeads (start tables) tables ++ tables.flatMap SuffixTable.body) = some f.regions := by
  obtain ⟨-, -, hflags, hregions⟩ := of_decode? h
  have hbytes : encode ignoreCase tables = magic ++ (littleEndian (flagsFor ignoreCase).toNat 4 ++
      (littleEndian tables.length 4 ++ (encodeHeads (start tables) tables ++ tables.flatMap SuffixTable.body))) := by
    simp only [encode_eq, heads, List.append_assoc]
  have hflag : ((encode ignoreCase tables).drop 8).take 4 = littleEndian (flagsFor ignoreCase).toNat 4 := by
    rw [hbytes, List.drop_left' (by simp [magic]), List.take_left' (length_littleEndian _ _)]
  have hcount : ((encode ignoreCase tables).drop 12).take 4 = littleEndian tables.length 4 := by
    rw [hbytes, ← List.append_assoc, List.drop_left' (by simp [magic]), List.take_left' (length_littleEndian _ _)]
  have hrest : (encode ignoreCase tables).drop 16 =
      encodeHeads (start tables) tables ++ tables.flatMap SuffixTable.body := by
    rw [hbytes, ← List.append_assoc, ← List.append_assoc]
    exact List.drop_left' (by simp [magic])
  rw [hcount, hrest, ofLittleEndian_littleEndian_mod] at hregions
  rw [hflag, ofLittleEndian_littleEndian (flagsFor ignoreCase).toNat_lt, UInt32.ofNat_toNat] at hflags
  exact ⟨hflags, hregions⟩

/-- **The file of some tables is read with their properties if and only if the number and the lengths of these fit into
it.** -/
theorem properties_of_decode? (h : decode? (encode ignoreCase tables) = some f) :
    f.regions.map SuffixRegion.property = tables.map SuffixTable.property ↔
      tables.length < 2 ^ 32 ∧ ∀ t ∈ tables, t.property.utf8ByteSize < 2 ^ 32 := by
  obtain ⟨-, hregions⟩ := of_decode?_encode h
  have hread (hcount : tables.length < 2 ^ 32) :
      f.regions.map SuffixRegion.property = tables.map SuffixTable.property ↔
        ∀ t ∈ tables, t.property.utf8ByteSize < 2 ^ 32 := by
    rw [Nat.mod_eq_of_lt hcount] at hregions
    exact properties_of_regions? hregions
  refine ⟨fun hnames => ?_, fun hfit => (hread hfit.1).2 hfit.2⟩
  have hlength : tables.length % 2 ^ 32 = tables.length := by
    rw [← length_regions? hregions, ← List.length_map (f := SuffixRegion.property), hnames, List.length_map]
  have hcount : tables.length < 2 ^ 32 := hlength ▸ Nat.mod_lt _ (by decide)
  exact ⟨hcount, (hread hcount).1 hnames⟩

end SuffixFile

end RecordServer
