import Mathlib.Data.List.Infix
import RecordServer.Index.Basic

/-!
# Texts within keys

No character begins with the bytes of another one (`Text.Utf8.encodeChar_append`), so a text begins with another one if
its bytes do (`Text.Utf8.prefix_iff`). Hence a text is within a key, which is not empty, if and only if one of the
suffixes of the key begins with the bytes of the text (`prefix_keySuffixes`).

Folding turns no key into the empty one (`foldKey_eq_empty`).
-/

namespace RecordServer

/-! ## Bytes of texts -/

namespace Text.Utf8

/-- Bytes which begin with a character are decoded to it, so they determine the character and what follows. -/
theorem encodeChar_append {c d : Char} {as bs : List UInt8} (h : encodeChar c ++ as = encodeChar d ++ bs) :
    c = d ∧ as = bs := by
  have hc : c = d := by
    have hbytes : [c].utf8Encode ++ as.toByteArray = [d].utf8Encode ++ bs.toByteArray := by
      rw [List.utf8Encode_singleton, List.utf8Encode_singleton, ← List.toByteArray_append, ← List.toByteArray_append]
      exact congrArg List.toByteArray h
    have := congrArg (fun bytes => bytes.utf8DecodeChar? 0) hbytes
    simpa only [List.utf8DecodeChar?_utf8Encode_singleton_append, Option.some.injEq] using this
  subst hc
  exact ⟨rfl, List.append_cancel_left h⟩

/-- A text begins with another one if its bytes do. -/
theorem prefix_iff : ∀ {cs ds : List Char}, cs.flatMap encodeChar <+: ds.flatMap encodeChar ↔ cs <+: ds
  | [], _ => by simp
  | c :: cs, [] => by simp [encodeChar, String.utf8EncodeChar_ne_nil]
  | c :: cs, d :: ds => by
    rw [List.flatMap_cons, List.flatMap_cons, List.cons_prefix_cons, ← @prefix_iff cs]
    constructor
    · rintro ⟨rest, h⟩
      rw [List.append_assoc] at h
      obtain ⟨hfirst, hrest⟩ := encodeChar_append h
      exact ⟨hfirst, rest, hrest⟩
    · rintro ⟨rfl, h⟩
      exact (List.prefix_append_right_inj _).2 h

end Text.Utf8

/-! ## Suffixes -/

/-- The suffixes of a text are those which are not empty. -/
theorem mem_suffixes {suffix : List Char} : ∀ {cs : List Char}, suffix ∈ suffixes cs ↔ suffix ≠ [] ∧ suffix <:+ cs
  | [] => by
    simp only [suffixes, List.not_mem_nil, List.suffix_nil, false_iff]
    exact fun h => h.1 h.2
  | c :: cs => by
    rw [suffixes, List.mem_cons, mem_suffixes, List.suffix_cons_iff]
    constructor
    · rintro (rfl | ⟨hne, h⟩)
      · exact ⟨List.cons_ne_nil c cs, .inl rfl⟩
      · exact ⟨hne, .inr h⟩
    · rintro ⟨hne, rfl | h⟩
      · exact .inl rfl
      · exact .inr ⟨hne, h⟩

/-- A text is within another one, which is not empty, if it stands at the beginning of a suffix. -/
theorem infix_iff_suffixes {text cs : List Char} :
    (∃ suffix ∈ suffixes cs, text <+: suffix) ↔ cs ≠ [] ∧ text <:+: cs := by
  simp only [mem_suffixes]
  constructor
  · rintro ⟨suffix, ⟨hne, hsuffix⟩, hprefix⟩
    refine ⟨?_, List.infix_iff_prefix_suffix.2 ⟨suffix, hprefix, hsuffix⟩⟩
    rintro rfl
    exact hne (List.suffix_nil.1 hsuffix)
  · rintro ⟨hne, hinfix⟩
    obtain ⟨suffix, hprefix, hsuffix⟩ := List.infix_iff_prefix_suffix.1 hinfix
    cases suffix with
    | nil =>
      -- the empty text stands at the beginning of the whole
      rw [List.prefix_nil.1 hprefix]
      exact ⟨cs, ⟨hne, List.suffix_refl cs⟩, List.nil_prefix⟩
    | cons c suffix => exact ⟨c :: suffix, ⟨List.cons_ne_nil c suffix, hsuffix⟩, hprefix⟩

/-- **A key, which is not empty, contains a text if and only if a suffix of the key begins with the bytes of the
text.** -/
theorem prefix_keySuffixes {key text : String} :
    (∃ suffix ∈ keySuffixes key, Text.Utf8.encode text <+: suffix) ↔ key ≠ "" ∧ text.toList <:+: key.toList := by
  have hempty : key.toList ≠ [] ↔ key ≠ "" := not_congr String.toList_eq_nil_iff
  rw [← hempty, ← infix_iff_suffixes]
  simp only [keySuffixes, List.mem_map, exists_exists_and_eq_and, Text.Utf8.encode, Text.Utf8.prefix_iff]

/-! ## Folding -/

/-- Every character has a lower case, so only the empty text is folded to the empty one. -/
theorem Text.lowerFrom_eq_nil {before cs : List Char} : lowerFrom before cs = [] ↔ cs = [] := by
  constructor
  · intro h
    cases cs with
    | nil => rfl
    | cons c rest =>
      obtain ⟨hfirst, -⟩ := List.append_eq_nil_iff.1 h
      revert hfirst
      unfold lowerChar
      split_ifs <;> simp
  · rintro rfl
    rfl

theorem foldKey_eq_empty {ignoreCase : Bool} {key : String} : foldKey ignoreCase key = "" ↔ key = "" := by
  cases ignoreCase with
  | false => rfl
  | true =>
    show Text.lowerCase key = "" ↔ key = ""
    rw [← String.toList_eq_nil_iff, Text.lowerCase, String.toList_ofList, Text.lowerFrom_eq_nil,
      String.toList_eq_nil_iff]

end RecordServer
