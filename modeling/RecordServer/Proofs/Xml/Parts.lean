import Mathlib.Data.List.TakeWhile
import RecordServer.Proofs.Xml.Grammar

/-!
# Characters and attributes

The parts of a document that are read from bytes which have already been cut out: the blanks around a text are left out
(`Characters.trim_bytes`), references are replaced (`Characters.unescape?_bytes`) and the attributes of a tag are found
one after the other (`Tag.attributes_raw`), so that an element starts with the name and the attributes of its tag
(`Tag.startElement_raw`).
-/

namespace RecordServer.Xml

variable {charset : Text.Charset}

/-! ## References -/

/-- The digits of a number are no delimiters of references or markup. -/
theorem plain_of_digit? {base : Nat} {b : UInt8} (h : (digit? base b).isSome = true) : b ≠ 38 ∧ b ≠ 59 ∧ b ≠ 60 := by
  refine ⟨?_, ?_, ?_⟩ <;>
  · rintro rfl
    simp [digit?] at h

/-- A number has digits only. -/
theorem isSome_of_foldlM {f : UInt8 → Option Nat} {g : Nat → Nat → Nat} : ∀ {digits : List UInt8} {n m : Nat},
    digits.foldlM (fun n b => (f b).map (g n)) n = some m → ∀ b ∈ digits, (f b).isSome = true
  | [], _, _, _ => List.forall_mem_nil _
  | d :: digits, n, m, h => by
    rw [List.foldlM_cons] at h
    obtain ⟨k, hk, hrest⟩ := Option.bind_eq_some_iff.1 h
    obtain ⟨v, hv, -⟩ := Option.map_eq_some_iff.1 hk
    exact List.forall_mem_cons.2 ⟨by rw [hv]; rfl, isSome_of_foldlM hrest⟩

theorem plain_of_number? {base longest : Nat} {digits stands : List UInt8}
    (h : (number? base longest digits).bind numbered? = some stands) : ∀ b ∈ digits, b ≠ 38 ∧ b ≠ 59 ∧ b ≠ 60 := by
  obtain ⟨n, hn, -⟩ := Option.bind_eq_some_iff.1 h
  unfold number? at hn
  split at hn
  · cases hn
  · exact fun b hb => plain_of_digit? (isSome_of_foldlM hn b hb)

/-- Names of references have no byte which begins or ends a reference or begins markup. -/
theorem plain_of_entity? {name stands : List UInt8} (h : entity? name = some stands) :
    ∀ b ∈ name, b ≠ 38 ∧ b ≠ 59 ∧ b ≠ 60 := by
  unfold entity? at h
  split at h
  · rename_i b hnamed
    unfold named? at hnamed
    have hall : name.all (fun b => b ≠ 38 && b ≠ 59 && b ≠ 60) = true := by
      split_ifs at hnamed with h₁ h₂ h₃ h₄ h₅
      · rw [h₁]
        decide
      · rw [h₂]
        decide
      · rw [h₃]
        decide
      · rw [h₄]
        decide
      · rw [h₅]
        decide
    simpa [and_assoc] using hall
  · split at h
    · exact List.forall_mem_cons.2 ⟨by decide, List.forall_mem_cons.2 ⟨by decide, plain_of_number? h⟩⟩
    · exact List.forall_mem_cons.2 ⟨by decide, plain_of_number? h⟩
    · cases h

/-- A reference is read to its end. -/
theorem unescapeFrom_name {stands rest : List UInt8} : ∀ (name begun : List UInt8),
    (∀ b ∈ name, b ≠ 38 ∧ b ≠ 59 ∧ b ≠ 60) → entity? (begun.reverse ++ name) = some stands →
    unescapeFrom (some begun) (name ++ 59 :: rest) = (unescapeFrom none rest).map (stands ++ ·)
  | [], begun, _, h => by
    rw [List.append_nil] at h
    simp only [List.nil_append, unescapeFrom, h]
    rfl
  | b :: name, begun, hplain, h => by
    obtain ⟨⟨h38, h59, -⟩, hname⟩ := List.forall_mem_cons.1 hplain
    rw [List.cons_append, unescapeFrom, if_neg h38, if_neg h59]
    exact unescapeFrom_name name (b :: begun) hname (by simpa using h)

theorem unescape?_pieces : ∀ pieces : List (Piece charset), (∀ p ∈ pieces, p.isPlain = true) →
    unescape? (pieces.flatMap Piece.bytes) = some (pieces.flatMap Piece.stands)
  | [], _ => rfl
  | .byte b :: pieces, h => by
    obtain ⟨hb, hpieces⟩ := List.forall_mem_cons.1 h
    have h38 : b ≠ 38 := by
      rintro rfl
      cases hb
    have hrest := unescape?_pieces pieces hpieces
    unfold unescape? at hrest ⊢
    simp only [List.flatMap_cons, Piece.bytes, List.singleton_append, unescapeFrom, if_neg h38, hrest]
    rfl
  | .reference r :: pieces, h => by
    have hrest := unescape?_pieces pieces (List.forall_mem_cons.1 h).2
    unfold unescape? at hrest ⊢
    simp only [List.flatMap_cons, Piece.bytes, List.cons_append, List.append_assoc, List.nil_append, unescapeFrom,
      if_true]
    rw [unescapeFrom_name r.name [] (plain_of_entity? r.entity) r.entity, hrest]
    rfl

/-! ## Blanks around a text -/

/-- Blanks in front are no references; so it is with the bytes of each piece turned around. -/
theorem dropWhile_flatMap {f : Piece charset → List UInt8} (hbyte : ∀ b, f (.byte b) = [b])
    (hreference : ∀ r, ∃ b rest, f (.reference r) = b :: rest ∧ isSpace b = false) : ∀ pieces : List (Piece charset),
    (pieces.flatMap f).dropWhile isSpace = (pieces.dropWhile Piece.isBlank).flatMap f
  | [] => rfl
  | .byte b :: pieces => by
    rw [List.flatMap_cons, hbyte, List.singleton_append, List.dropWhile_cons, List.dropWhile_cons,
      show (Piece.byte b : Piece charset).isBlank = isSpace b from rfl]
    split
    · exact dropWhile_flatMap hbyte hreference pieces
    · rw [List.flatMap_cons, hbyte, List.singleton_append]
  | .reference r :: pieces => by
    obtain ⟨b, rest, hf, hb⟩ := hreference r
    simp [List.flatMap_cons, hf, hb, Piece.isBlank]

namespace Characters

theorem trim_bytes (t : Characters charset) : trim t.bytes = t.strip.bytes := by
  have hfront : (t.pieces.flatMap Piece.bytes).dropWhile isSpace =
      (t.pieces.dropWhile Piece.isBlank).flatMap Piece.bytes :=
    dropWhile_flatMap (fun _ => rfl) (fun r => ⟨38, r.name ++ [59], rfl, rfl⟩) t.pieces
  have hback (pieces : List (Piece charset)) : (pieces.flatMap (List.reverse ∘ Piece.bytes)).dropWhile isSpace =
      (pieces.dropWhile Piece.isBlank).flatMap (List.reverse ∘ Piece.bytes) :=
    dropWhile_flatMap (fun _ => rfl) (fun r => ⟨59, r.name.reverse ++ [38], by simp [Piece.bytes], rfl⟩) pieces
  unfold trim bytes strip
  rw [hfront, List.reverse_flatMap, hback, List.reverse_flatMap]
  simp [Function.comp_def]

theorem unescape?_bytes (t : Characters charset) : unescape? t.bytes = some (t.pieces.flatMap Piece.stands) :=
  unescape?_pieces t.pieces t.plain

theorem not_mem_bytes (t : Characters charset) : 60 ∉ t.bytes := by
  intro h
  obtain ⟨p, hp, hb⟩ := List.mem_flatMap.1 h
  cases p with
  | byte b =>
    obtain rfl := List.mem_singleton.1 hb
    cases t.plain _ hp
  | reference r =>
    simp only [Piece.bytes, List.mem_cons, List.mem_append, List.not_mem_nil, or_false] at hb
    obtain h | hname | h := hb
    · cases h
    · exact (plain_of_entity? r.entity 60 hname).2.2 rfl
    · cases h

/-- Nothing is decoded to the empty text. -/
theorem decode_nil (charset : Text.Charset) : charset.decode [] = "" := by
  cases charset <;> simp [Text.Charset.decode, Text.Charset.pieces, Text.Charset.units, Text.Charset.ofUnits,
    Text.Utf8.pieces]

/-- A text without a byte stands for nothing. -/
theorem value_eq_empty {t : Characters charset} (h : t.bytes = []) : t.value = "" := by
  have hnil : t.pieces.flatMap Piece.stands = [] := by
    have hread := t.unescape?_bytes
    rw [h] at hread
    exact (Option.some.inj hread).symm
  rw [value, hnil, decode_nil]

end Characters

/-! ## Names and blanks -/

theorem Blanks.isSpace_of_mem (blanks : Blanks) : ∀ b ∈ blanks.bytes, isSpace b = true :=
  List.all_eq_true.1 blanks.blank

namespace Name

variable {name : Name} {b : UInt8}

theorem not_isDelimiter (h : b ∈ name.bytes) : isDelimiter b = false :=
  eq_false_of_ne_true (List.any_eq_false.1 name.plain b h)

theorem not_isTagSpace (h : b ∈ name.bytes) : Reader.isTagSpace b = false :=
  (Bool.or_eq_false_iff.1 (not_isDelimiter h)).1

theorem not_isSpace (h : b ∈ name.bytes) : isSpace b = false :=
  (Bool.or_eq_false_iff.1 (not_isTagSpace h)).1

theorem not_mem {x : UInt8} (h : x ∈ [33, 34, 39, 47, 60, 61, 62, 63]) : x ∉ name.bytes := by
  intro hx
  have hother := (Bool.or_eq_false_iff.1 (not_isDelimiter hx)).2
  rw [List.contains_eq_mem, decide_eq_false_iff_not] at hother
  exact hother h

end Name

/-- Blanks are no markup. -/
theorem ne_of_isSpace {b : UInt8} (h : isSpace b = true) {x : UInt8} (hx : isSpace x = false) : b ≠ x := by
  rintro rfl
  cases h.symm.trans hx

/-! ## Attributes -/

section Cut

variable {p : UInt8 → Bool} {l rest : List UInt8}

theorem takeWhile_cut (hl : ∀ b ∈ l, p b = true) (hrest : ∀ b ∈ rest.head?, p b = false) :
    (l ++ rest).takeWhile p = l := by
  rw [List.takeWhile_append_of_pos hl]
  cases rest with
  | nil => simp
  | cons b rest => simp [hrest b rfl]

theorem dropWhile_cut (hl : ∀ b ∈ l, p b = true) (hrest : ∀ b ∈ rest.head?, p b = false) :
    (l ++ rest).dropWhile p = rest := by
  rw [List.dropWhile_append_of_pos hl]
  cases rest with
  | nil => rfl
  | cons b rest => simp [hrest b rfl]

/-- What follows blanks is found behind them, and blanks are found in front of it. -/
theorem Blanks.head?_append (blanks : Blanks) {P : UInt8 → Prop} (hblank : ∀ b, isSpace b = true → P b)
    (hrest : ∀ b ∈ rest.head?, P b) : ∀ b ∈ (blanks.bytes ++ rest).head?, P b := by
  cases hbytes : blanks.bytes with
  | nil => exact hrest
  | cons b bytes =>
    rintro _ ⟨⟩
    exact hblank b (blanks.isSpace_of_mem b (hbytes ▸ List.mem_cons_self))

end Cut

namespace Attribute

/-- The attribute as it is found. -/
def found (a : Attribute charset) : RawAttribute := (a.name.bytes, a.value.bytes)

/-- A quote is no blank. -/
theorem isSpace_quote (a : Attribute charset) : isSpace a.quote = false := by
  obtain h | h := a.isQuote <;> rw [h] <;> rfl

/-- The blanks in front of an attribute are passed over. -/
theorem dropWhile_bytes (a : Attribute charset) (more : List UInt8) :
    ((a.bytes ++ more).dropWhile fun b => !isSpace b).dropWhile isSpace = a.body ++ more := by
  obtain ⟨b, before, hbefore⟩ := List.exists_cons_of_ne_nil a.apart
  have hb : isSpace b = true := a.before.isSpace_of_mem b (by simp [hbefore])
  have hfirst : ((a.bytes ++ more).dropWhile fun b => !isSpace b) = a.bytes ++ more := by
    simp [bytes, hbefore, hb]
  obtain ⟨c, name, hname⟩ := List.exists_cons_of_ne_nil a.name.ne
  have hc : isSpace c = false := a.name.not_isSpace (by simp [hname])
  rw [hfirst, bytes, List.append_assoc]
  exact dropWhile_cut a.before.isSpace_of_mem (by simp [body, hname, hc])

/-- One attribute is found, then those behind it. -/
theorem attributesFrom_bytes (a : Attribute charset) {names : List (List UInt8)} (h : a.name.bytes ∉ names) (n : Nat)
    (more : List UInt8) : attributesFrom (n + 1) names (a.bytes ++ more) =
      some a.found :: attributesFrom n (a.name.bytes :: names) more := by
  obtain ⟨c, name, hname⟩ := List.exists_cons_of_ne_nil a.name.ne
  let value := a.value.bytes ++ a.quote :: more
  let behind := a.beforeEq.bytes ++ 61 :: (a.behindEq.bytes ++ a.quote :: value)
  have hbody : a.body ++ more = c :: (name ++ behind) := by simp [body, hname, behind, value]
  have hin : ∀ b ∈ name, (!(decide (b = 61) || isSpace b)) = true := by
    intro b hb
    have hmem : b ∈ a.name.bytes := hname ▸ List.mem_cons_of_mem c hb
    have h61 : b ≠ 61 := fun h => a.name.not_mem (by decide) (h ▸ hmem)
    simp [h61, a.name.not_isSpace hmem]
  have hout : ∀ b ∈ behind.head?, (!(decide (b = 61) || isSpace b)) = false :=
    a.beforeEq.head?_append (fun b hb => by simp [hb]) (by simp)
  have hvalue : ∀ b ∈ a.value.bytes, decide (b ≠ a.quote) = true := by
    intro b hb
    refine decide_eq_true ?_
    rintro rfl
    exact a.quoted hb
  obtain ⟨d, tail, hbehind⟩ : ∃ d tail, behind = d :: tail := List.exists_cons_of_ne_nil (by simp [behind])
  have heq : behind.dropWhile isSpace = 61 :: (a.behindEq.bytes ++ a.quote :: value) :=
    dropWhile_cut a.beforeEq.isSpace_of_mem (by simp [isSpace])
  have hquote : (a.behindEq.bytes ++ a.quote :: value).dropWhile isSpace = a.quote :: value :=
    dropWhile_cut a.behindEq.isSpace_of_mem (by simp [a.isSpace_quote])
  have hclose : value.dropWhile (fun b => decide (b ≠ a.quote)) = a.quote :: more := dropWhile_cut hvalue (by simp)
  have htaken : value.takeWhile (fun b => decide (b ≠ a.quote)) = a.value.bytes := takeWhile_cut hvalue (by simp)
  have hdrop : (name ++ behind).dropWhile (fun b => !(decide (b = 61) || isSpace b)) = d :: tail :=
    (dropWhile_cut hin hout).trans hbehind
  have htake : (name ++ behind).takeWhile (fun b => !(decide (b = 61) || isSpace b)) = name := takeWhile_cut hin hout
  rw [hbehind] at heq
  have hisQuote : (decide (a.quote = 34) || decide (a.quote = 39)) = true := by simpa using a.isQuote
  have hnew : names.contains (c :: name) = false := by simpa [← hname] using h
  rw [attributesFrom, dropWhile_bytes, hbody]
  simp only [hdrop, htake, heq, hquote, hclose, htaken, hisQuote, hnew, if_true]
  simp [found, hname]

end Attribute

namespace Tag

theorem attributesFrom_raw (behind : Blanks) : ∀ (attributes : List (Attribute charset)) (n : Nat)
    (names : List (List UInt8)), attributes.length ≤ n → (attributes.map fun a => a.name.bytes).Nodup →
    (∀ a ∈ attributes, a.name.bytes ∉ names) →
    attributesFrom n names (attributes.flatMap Attribute.bytes ++ behind.bytes) =
      attributes.map fun a => some a.found
  | [], 0, _, _, _, _ => rfl
  | [], n + 1, names, _, _, _ => by
    have hblank : (behind.bytes.dropWhile fun b => !isSpace b).dropWhile isSpace = [] :=
      List.dropWhile_eq_nil_iff.2 fun b hb => behind.isSpace_of_mem b ((List.dropWhile_suffix _).subset hb)
    rw [List.flatMap_nil, List.nil_append, attributesFrom, hblank]
    rfl
  | a :: attributes, n + 1, names, hn, hdistinct, hnew => by
    obtain ⟨hother, hdistinct⟩ := List.nodup_cons.1 hdistinct
    obtain ⟨hfirst, hnew⟩ := List.forall_mem_cons.1 hnew
    rw [List.flatMap_cons, List.append_assoc, a.attributesFrom_bytes hfirst,
      attributesFrom_raw behind attributes n _ (Nat.le_of_succ_le_succ hn) hdistinct]
    · rfl
    · intro other hmem hin
      obtain hsame | hin := List.mem_cons.1 hin
      · exact hother (List.mem_map.2 ⟨other, hmem, hsame⟩)
      · exact hnew other hmem hin

theorem length_le_length_flatMap : ∀ attributes : List (Attribute charset),
    attributes.length ≤ (attributes.flatMap Attribute.bytes).length
  | [] => Nat.le_refl 0
  | a :: attributes => by
    have := length_le_length_flatMap attributes
    simp only [List.flatMap_cons, Attribute.bytes, Attribute.body, List.length_append, List.length_cons]
    omega

/-- All attributes of a tag are found. -/
theorem attributes_raw (tag : Tag charset) : Xml.attributes tag.raw = tag.attributes.map fun a => some a.found := by
  refine attributesFrom_raw tag.behind tag.attributes _ [] ?_ tag.distinct fun _ _ => List.not_mem_nil
  have := length_le_length_flatMap tag.attributes
  simp only [raw, List.length_append]
  omega

theorem decodeAttribute_found (a : Attribute charset) : decodeAttribute charset a.found = some a.decoded := by
  simp [decodeAttribute, Attribute.found, a.value.unescape?_bytes, Attribute.decoded, Characters.value]

/-- An element starts with the name and the attributes of its tag. -/
theorem startElement_raw (tag : Tag charset) :
    startElement charset tag.name.bytes tag.raw = .ok (tag.element "" []) := by
  have hfound : (fun a : Attribute charset => (some a.found).bind (decodeAttribute charset)) =
      fun a => some a.decoded := funext decodeAttribute_found
  have hall : ((tag.attributes.map fun a => some a.found).mapM fun a => a.bind (decodeAttribute charset)) =
      some (tag.attributes.map Attribute.decoded) := by
    rw [List.mapM_map]
    simp only [Function.comp_def, hfound]
    exact List.mapM_pure
  rw [startElement, attributes_raw, hall]
  simp only [element, Element.empty]

end Tag

end RecordServer.Xml
