import Mathlib.Algebra.Ring.Nat
import Mathlib.Data.List.Forall2
import RecordServer.Index.SuffixFile
import RecordServer.Proofs.Text.Utf8

/-!
# Reading what has been written

Numbers which fit into their bytes are read back (`readNumber?_append`), and so are entries (`entriesOf_encode`). A
file whose tables fit into it (`SuffixFile.Fits`) is read back with a region for each table, one behind the other
(`SuffixFile.decode?_encode`), and each region has the keys and the entries of its table
(`SuffixFile.holds_regionsFrom`).
-/

namespace RecordServer

/-! ## Numbers -/

@[simp] theorem length_littleEndian : ∀ n size : Nat, (littleEndian n size).length = size
  | _, 0 => rfl
  | n, size + 1 => congrArg Nat.succ (length_littleEndian (n / 256) size)

/-- Of a number those digits are read back for which there are bytes. -/
theorem ofLittleEndian_littleEndian_mod : ∀ size n : Nat, ofLittleEndian (littleEndian n size) = n % 256 ^ size
  | 0, n => (Nat.mod_one n).symm
  | size + 1, n => by
    have hpow : 256 ^ (size + 1) = 256 * 256 ^ size := Nat.pow_succ'
    rw [littleEndian, ofLittleEndian, ofLittleEndian_littleEndian_mod size, UInt8.toNat_ofNat', hpow, Nat.mod_mul]

/-- A number that fits into its bytes is read back. -/
theorem ofLittleEndian_littleEndian {size n : Nat} (h : n < 256 ^ size) : ofLittleEndian (littleEndian n size) = n := by
  rw [ofLittleEndian_littleEndian_mod, Nat.mod_eq_of_lt h]

theorem splitBytes?_append {first rest : List UInt8} {size : Nat} (h : first.length = size) :
    splitBytes? size (first ++ rest) = some (first, rest) := by
  simp [splitBytes?, ← h]

theorem readNumber?_mod {n size : Nat} {rest : List UInt8} :
    readNumber? size (littleEndian n size ++ rest) = some (n % 256 ^ size, rest) := by
  rw [readNumber?, splitBytes?_append (length_littleEndian n size), Option.map_some]
  simp only [ofLittleEndian_littleEndian_mod]

theorem readNumber?_append {n size : Nat} {rest : List UInt8} (h : n < 256 ^ size) :
    readNumber? size (littleEndian n size ++ rest) = some (n, rest) := by
  rw [readNumber?_mod, Nat.mod_eq_of_lt h]

/-! ## Entries -/

namespace SuffixEntry

@[simp] theorem length_encode (e : SuffixEntry) : e.encode.length = size := by
  simp [encode, size]

theorem decode_encode (e : SuffixEntry) : decode e.encode = e := by
  have hstart : ofLittleEndian (littleEndian e.start.toNat 8) = e.start.toNat :=
    ofLittleEndian_littleEndian e.start.toNat_lt
  have hlength : ofLittleEndian (littleEndian e.length.toNat 4) = e.length.toNat :=
    ofLittleEndian_littleEndian e.length.toNat_lt
  have hposition : ofLittleEndian (littleEndian e.position.toNat 8) = e.position.toNat :=
    ofLittleEndian_littleEndian e.position.toNat_lt
  have hfirst : e.encode.take 8 = littleEndian e.start.toNat 8 := by simp [encode]
  have hmiddle : (e.encode.drop 8).take 4 = littleEndian e.length.toNat 4 := by simp [encode]
  have hlast : (e.encode.drop 12).take 8 = littleEndian e.position.toNat 8 := by
    rw [encode, List.drop_left' (by simp), List.take_of_length_le (by simp)]
  rw [decode, hfirst, hmiddle, hlast, hstart, hlength, hposition, UInt64.ofNat_toNat, UInt32.ofNat_toNat,
    UInt64.ofNat_toNat]

end SuffixEntry

namespace SuffixFile

theorem entriesOf_encode {rest : List UInt8} : ∀ entries : List SuffixEntry,
    entriesOf entries.length (entries.flatMap SuffixEntry.encode ++ rest) = entries
  | [] => rfl
  | e :: entries => by
    rw [List.length_cons, entriesOf, List.flatMap_cons, List.append_assoc, List.take_left' e.length_encode,
      List.drop_left' e.length_encode, SuffixEntry.decode_encode, entriesOf_encode entries]

theorem length_entries (entries : List SuffixEntry) :
    (entries.flatMap SuffixEntry.encode).length = SuffixEntry.size * entries.length := by
  induction entries with
  | nil => rfl
  | cons e entries ih =>
    rw [List.flatMap_cons, List.length_append, ih, e.length_encode, List.length_cons, Nat.mul_succ, Nat.add_comm]

end SuffixFile

/-! ## Regions -/

/-- All suffixes of a table are within its keys. -/
def SuffixTable.Within (t : SuffixTable) : Prop := ∀ e ∈ t.entries, e.start.toNat + e.length.toNat ≤ t.keys.length

/-- The keys and entries of a table as bytes. -/
def SuffixTable.body (t : SuffixTable) : List UInt8 := t.keys ++ t.entries.flatMap SuffixEntry.encode

theorem SuffixTable.length_body (t : SuffixTable) :
    t.body.length = t.keys.length + SuffixEntry.size * t.entries.length := by
  rw [body, List.length_append, SuffixFile.length_entries]

namespace SuffixFile

/-- The regions of tables which are written one behind the other from an offset on. -/
def regionsFrom : Nat → List SuffixTable → List SuffixRegion
  | _, [] => []
  | offset, t :: rest =>
    ⟨t.property, UInt64.ofNat offset, UInt64.ofNat (offset + t.keys.length), UInt64.ofNat (offset + t.keys.length),
      t.entries⟩ :: regionsFrom (offset + t.keys.length + SuffixEntry.size * t.entries.length) rest

/-- The number of bytes between two offsets which are not too large. -/
theorem extent_ofNat {start length : Nat} (h : start + length < 2 ^ 64) :
    extent (UInt64.ofNat start) (UInt64.ofNat (start + length)) = UInt64.ofNat length := by
  have hstart : (UInt64.ofNat start).toNat = start := UInt64.toNat_ofNat_of_lt' (show _ < 2 ^ 64 by omega)
  have hstop : (UInt64.ofNat (start + length)).toNat = start + length := UInt64.toNat_ofNat_of_lt' h
  have hlength : (UInt64.ofNat length).toNat = length := UInt64.toNat_ofNat_of_lt' (show _ < 2 ^ 64 by omega)
  unfold extent
  split
  · rename_i hlt
    rw [← UInt64.toNat_inj, UInt64.toNat_sub_of_le _ _ (UInt64.le_of_lt hlt), hstart, hstop, hlength]
    omega
  · rename_i hge
    rw [UInt64.lt_iff_toNat_lt, hstart, hstop] at hge
    rw [← UInt64.toNat_inj, hlength, UInt64.toNat_zero]
    omega

/-- A suffix within keys that are not too many ends within them. -/
theorem stop_le {e : SuffixEntry} {length : Nat} (h : length < 2 ^ 64) (he : e.start.toNat + e.length.toNat ≤ length) :
    e.stop.toNat = e.start.toNat + e.length.toNat ∧ e.stop ≤ UInt64.ofNat length := by
  have hlength : (UInt64.ofNat length).toNat = length := UInt64.toNat_ofNat_of_lt' h
  have hstop : e.stop.toNat = e.start.toNat + e.length.toNat := by
    rw [SuffixEntry.stop, UInt64.toNat_add, UInt32.toNat_toUInt64, Nat.mod_eq_of_lt (by omega)]
  exact ⟨hstop, UInt64.le_iff_toNat_le.2 (by omega)⟩

/-- The region of a table within a file. -/
theorem region?_body {t : SuffixTable} {before after : List UInt8} (ht : t.Within)
    (hsize : (before ++ t.body ++ after).length < 2 ^ 64) :
    region? (before ++ t.body ++ after) t.property (UInt64.ofNat before.length) (UInt64.ofNat t.keys.length)
      (UInt64.ofNat (before.length + t.keys.length)) t.entries.length =
    some ⟨t.property, UInt64.ofNat before.length, UInt64.ofNat (before.length + t.keys.length),
      UInt64.ofNat (before.length + t.keys.length), t.entries⟩ := by
  have hlength : (before ++ t.body ++ after).length =
      before.length + t.keys.length + SuffixEntry.size * t.entries.length + after.length := by
    rw [List.length_append, List.length_append, t.length_body, ← Nat.add_assoc]
  have hstop : (UInt64.ofNat (before.length + t.keys.length)).toNat = before.length + t.keys.length :=
    UInt64.toNat_ofNat_of_lt' (show _ < 2 ^ 64 by omega)
  have hfound : entriesOf t.entries.length ((before ++ t.body ++ after).drop (before.length + t.keys.length)) =
      t.entries := by
    rw [SuffixTable.body, List.append_assoc, List.append_assoc, ← List.append_assoc,
      List.drop_left' (List.length_append ..), entriesOf_encode]
  have hwithin : (t.entries.all fun e => decide (e.stop ≤ UInt64.ofNat t.keys.length)) = true := by
    simpa using fun e he => (stop_le (by omega) (ht e he)).2
  unfold region?
  simp only [← UInt64.ofNat_add, hstop, hfound]
  rw [if_neg (by omega), extent_ofNat (by omega), if_pos hwithin]

/-! ## Files -/

/-- The first heads of tables which are read back: their properties have lengths of four bytes. -/
theorem regions?_encodeHeads : ∀ {tables : List SuffixTable} {before rest : List UInt8},
    (∀ t ∈ tables, t.property.utf8ByteSize < 2 ^ 32 ∧ t.Within) →
    (before ++ tables.flatMap SuffixTable.body).length < 2 ^ 64 → ∀ {count : Nat}, count ≤ tables.length →
    regions? (before ++ tables.flatMap SuffixTable.body) count (encodeHeads before.length tables ++ rest) =
      some ((regionsFrom before.length tables).take count)
  | _, _, _, _, _, 0, _ => rfl
  | t :: tables, before, rest, ht, hsize, count + 1, hcount => by
    obtain ⟨⟨hproperty, hwithin⟩, hrest⟩ := List.forall_mem_cons.1 ht
    have hdata : before ++ (t :: tables).flatMap SuffixTable.body =
        before ++ t.body ++ tables.flatMap SuffixTable.body := by
      rw [List.flatMap_cons, List.append_assoc]
    rw [hdata] at hsize ⊢
    have hoffset : (before ++ t.body).length =
        before.length + t.keys.length + SuffixEntry.size * t.entries.length := by
      rw [List.length_append, t.length_body, Nat.add_assoc]
    have hregion := region?_body hwithin hsize
    have ih := @regions?_encodeHeads tables (before ++ t.body) rest hrest hsize count (Nat.le_of_succ_le_succ hcount)
    rw [List.length_append, hoffset] at hsize
    have hentries : t.entries.length ≤ SuffixEntry.size * t.entries.length :=
      Nat.le_mul_of_pos_left _ (by decide)
    rw [hoffset] at ih
    simp only [encodeHeads, List.append_assoc, regions?, Option.bind_eq_bind, Option.bind_some,
      readNumber?_append (show t.property.utf8ByteSize < 256 ^ 4 from hproperty),
      splitBytes?_append (Text.Utf8.length_encode t.property), Text.Utf8.decode?_encode,
      readNumber?_append (show before.length < 256 ^ 8 by omega),
      readNumber?_append (show t.keys.length < 256 ^ 8 by omega),
      readNumber?_append (show before.length + t.keys.length < 256 ^ 8 by omega),
      readNumber?_append (show t.entries.length < 256 ^ 8 by omega)]
    rw [← List.append_assoc, hregion, ih]
    rfl

/-- The number of bytes of heads. -/
theorem length_encodeHeads : ∀ (offset size : Nat) (tables : List SuffixTable),
    tables.foldl (fun size t => size + headSize t) size = size + (encodeHeads offset tables).length
  | _, _, [] => rfl
  | offset, size, t :: tables => by
    rw [List.foldl_cons, length_encodeHeads (offset + t.keys.length + SuffixEntry.size * t.entries.length)]
    simp only [encodeHeads, headSize, List.length_append, length_littleEndian, Text.Utf8.length_encode]
    omega

/-- Tables whose numbers fit into a file. -/
structure Fits (ignoreCase : Bool) (tables : List SuffixTable) : Prop where
  count : tables.length < 2 ^ 32
  properties : ∀ t ∈ tables, t.property.utf8ByteSize < 2 ^ 32
  within : ∀ t ∈ tables, t.Within
  size : (encode ignoreCase tables).length < 2 ^ 64

/-- Where the keys of the first table begin. -/
def start (tables : List SuffixTable) : Nat := tables.foldl (fun size t => size + headSize t) 16

/-- What is read back from the file of some tables. -/
def ofTables (ignoreCase : Bool) (tables : List SuffixTable) : SuffixFile :=
  ⟨encode ignoreCase tables, flagsFor ignoreCase, regionsFrom (start tables) tables⟩

/-- The bytes in front of the first keys. -/
def heads (ignoreCase : Bool) (tables : List SuffixTable) : List UInt8 :=
  magic ++ littleEndian (flagsFor ignoreCase).toNat 4 ++ littleEndian tables.length 4 ++
    encodeHeads (start tables) tables

theorem length_heads (ignoreCase : Bool) (tables : List SuffixTable) :
    (heads ignoreCase tables).length = start tables := by
  rw [start, length_encodeHeads (start tables)]
  simp only [heads, List.length_append, length_littleEndian]
  rfl

/-- A file consists of its heads and the bodies of its tables. -/
theorem encode_eq (ignoreCase : Bool) (tables : List SuffixTable) :
    encode ignoreCase tables = heads ignoreCase tables ++ tables.flatMap SuffixTable.body := rfl

variable {ignoreCase : Bool} {tables : List SuffixTable}

/-- A file is read back with as many of its tables as four bytes can count. -/
theorem decode?_encode_mod (hproperties : ∀ t ∈ tables, t.property.utf8ByteSize < 2 ^ 32)
    (hwithin : ∀ t ∈ tables, t.Within) (hsize : (encode ignoreCase tables).length < 2 ^ 64) :
    decode? (encode ignoreCase tables) = some ⟨encode ignoreCase tables, flagsFor ignoreCase,
      (regionsFrom (start tables) tables).take (tables.length % 2 ^ 32)⟩ := by
  have hregions := @regions?_encodeHeads tables (heads ignoreCase tables) (tables.flatMap SuffixTable.body)
    (fun t ht => ⟨hproperties t ht, hwithin t ht⟩) (encode_eq ignoreCase tables ▸ hsize) (tables.length % 2 ^ 32)
    (Nat.mod_le _ _)
  rw [← encode_eq, length_heads] at hregions
  have hsplit : encode ignoreCase tables = magic ++ (littleEndian (flagsFor ignoreCase).toNat 4 ++
      (littleEndian tables.length 4 ++ (encodeHeads (start tables) tables ++ tables.flatMap SuffixTable.body))) := by
    simp only [encode_eq, heads, List.append_assoc]
  have hmagic : splitBytes? magic.length (encode ignoreCase tables) = some (magic, _) :=
    hsplit ▸ splitBytes?_append rfl
  have hflags : (flagsFor ignoreCase).toNat < 256 ^ 4 := (flagsFor ignoreCase).toNat_lt
  simp only [decode?, hmagic, Option.bind_eq_bind, Option.bind_some, ne_eq, not_true_eq_false, if_false,
    readNumber?_append hflags, readNumber?_mod, show 256 ^ 4 = 2 ^ 32 from rfl, hregions, UInt32.ofNat_toNat]
  rfl

theorem length_regionsFrom : ∀ (offset : Nat) (tables : List SuffixTable),
    (regionsFrom offset tables).length = tables.length
  | _, [] => rfl
  | _, _ :: tables => congrArg Nat.succ (length_regionsFrom _ tables)

/-- **A file whose tables fit into it is read back.** -/
theorem decode?_encode (h : Fits ignoreCase tables) :
    decode? (encode ignoreCase tables) = some (ofTables ignoreCase tables) := by
  have hall : (regionsFrom (start tables) tables).length ≤ tables.length := Nat.le_of_eq (length_regionsFrom _ _)
  rw [decode?_encode_mod h.properties h.within h.size, Nat.mod_eq_of_lt h.count, List.take_of_length_le hall, ofTables]

/-- The regions have the properties of the tables. -/
theorem property_regionsFrom : ∀ (offset : Nat) (tables : List SuffixTable),
    (regionsFrom offset tables).map SuffixRegion.property = tables.map SuffixTable.property
  | _, [] => rfl
  | _, t :: tables => congrArg (t.property :: ·) (property_regionsFrom _ tables)

theorem flagsFor_inj {flag flag' : Bool} : flagsFor flag = flagsFor flag' ↔ flag = flag' := by
  cases flag <;> cases flag' <;> decide

/-- **What is read back suits the properties and flags for which it has been written, and no others.** -/
theorem suits_ofTables {properties : List String} {ignoreCase' : Bool} :
    (ofTables ignoreCase tables).suits properties ignoreCase' = true ↔
      ignoreCase = ignoreCase' ∧ tables.map SuffixTable.property = properties := by
  simp [suits, ofTables, property_regionsFrom, flagsFor_inj]

/-- A region of a file has the keys and the entries of a table. -/
structure Holds (f : SuffixFile) (r : SuffixRegion) (t : SuffixTable) : Prop where
  property : r.property = t.property
  keys : f.keys? r = some t.keys
  entries : r.entries = t.entries

theorem holds_regionsFrom {f : SuffixFile} (hsize : f.data.length < 2 ^ 64) : ∀ {tables : List SuffixTable}
    {before : List UInt8}, f.data = before ++ tables.flatMap SuffixTable.body →
    List.Forall₂ f.Holds (regionsFrom before.length tables) tables
  | [], _, _ => .nil
  | t :: tables, before, hdata => by
    have hrest : f.data = before ++ t.body ++ tables.flatMap SuffixTable.body := by
      rw [hdata, List.flatMap_cons, List.append_assoc]
    have hoffset : (before ++ t.body).length =
        before.length + t.keys.length + SuffixEntry.size * t.entries.length := by
      rw [List.length_append, t.length_body, Nat.add_assoc]
    have ih := holds_regionsFrom hsize hrest
    rw [hrest, List.length_append, hoffset] at hsize
    rw [hoffset] at ih
    refine .cons ⟨rfl, ?_, rfl⟩ ih
    have hstart : (UInt64.ofNat before.length).toNat = before.length :=
      UInt64.toNat_ofNat_of_lt' (show _ < 2 ^ 64 by omega)
    have hstop : (UInt64.ofNat (before.length + t.keys.length)).toNat = before.length + t.keys.length :=
      UInt64.toNat_ofNat_of_lt' (show _ < 2 ^ 64 by omega)
    have hle : UInt64.ofNat before.length ≤ UInt64.ofNat (before.length + t.keys.length) :=
      UInt64.le_iff_toNat_le.2 (by omega)
    unfold keys?
    rw [if_pos hle, UInt64.toNat_sub_of_le _ _ hle, hstart, hstop, Nat.add_sub_cancel_left, hrest,
      SuffixTable.body, List.append_assoc, List.drop_left, List.append_assoc, List.take_left]

/-- **Each region of what is read back has the keys and entries of its table.** -/
theorem holds_ofTables (h : Fits ignoreCase tables) :
    List.Forall₂ (ofTables ignoreCase tables).Holds (ofTables ignoreCase tables).regions tables := by
  have hholds := holds_regionsFrom (f := ofTables ignoreCase tables) h.size (encode_eq ignoreCase tables)
  rwa [length_heads] at hholds

end SuffixFile

end RecordServer
