import Mathlib.Data.Nat.Notation
import RecordServer.Text.Utf8

/-!
# UTF-8 back and forth

Each character is read back from its bytes, whatever follows them (`Text.Utf8.next_encodeChar`), so the bytes of a text
are well-formed and decoded to it (`Text.Utf8.decode?_encode`). What has been read is independent of what follows
(`Text.Utf8.pieces_append`), so no other bytes with which these begin are decoded to the text
(`Text.Utf8.eq_encode_of_prefix`).
-/

namespace RecordServer.Text.Utf8

/-! ## Bytes -/

/-- The ranges of first bytes, as numbers. -/
theorem lead?_ofNat {n : Nat} (h : n < 256) : lead? (UInt8.ofNat n) =
    if n < 0xC2 then none
    else if n < 0xE0 then some ⟨n - 0xC0, 0x80, 0xBF, 1⟩
    else if n = 0xE0 then some ⟨0, 0xA0, 0xBF, 2⟩
    else if n = 0xED then some ⟨0xD, 0x80, 0x9F, 2⟩
    else if n < 0xF0 then some ⟨n - 0xE0, 0x80, 0xBF, 2⟩
    else if n = 0xF0 then some ⟨0, 0x90, 0xBF, 3⟩
    else if n < 0xF4 then some ⟨n - 0xF0, 0x80, 0xBF, 3⟩
    else if n = 0xF4 then some ⟨4, 0x80, 0x8F, 3⟩
    else none := by
  simp [lead?, UInt8.lt_iff_toNat_lt, ← UInt8.toNat_inj, Nat.mod_eq_of_lt h]

/-- A first byte of a character of several bytes. -/
theorem next_ofNat {n bits more : Nat} {low high : UInt8} {rest : List UInt8} (h : n < 256) (hn : 0x80 ≤ n)
    (hl : lead? (UInt8.ofNat n) = some ⟨bits, low, high, more⟩) :
    next (UInt8.ofNat n) rest = continuation bits low high more rest := by
  unfold next
  rw [if_neg (by simpa [UInt8.lt_iff_toNat_lt, Nat.mod_eq_of_lt h] using hn), hl]

/-- A second byte in the range that the first one announces, with six more bits of the number. -/
theorem continuation_within {bits n more : Nat} {low high : UInt8} {rest : List UInt8} (hbits : bits = n / 64)
    (hlow : low.toNat ≤ n % 0x40 + 0x80) (hhigh : n % 0x40 + 0x80 ≤ high.toNat) :
    continuation bits low high (more + 1) (UInt8.ofNat (n % 0x40 + 0x80) :: rest) =
      continuation n 0x80 0xBF more rest := by
  have hval : (UInt8.ofNat (n % 0x40 + 0x80)).toNat = n % 0x40 + 0x80 :=
    UInt8.toNat_ofNat_of_lt' (Nat.lt_of_le_of_lt hhigh high.toNat_lt)
  have hnext : bits * 64 + (n % 0x40 + 0x80 - 0x80) = n := by omega
  rw [continuation, if_pos (by simp only [UInt8.le_iff_toNat_le, hval, hlow, hhigh, decide_true, Bool.and_self]), hval,
    hnext]

/-- Every further byte. -/
theorem continuation_further {bits n more : Nat} {rest : List UInt8} (hbits : bits = n / 64) :
    continuation bits 0x80 0xBF (more + 1) (UInt8.ofNat (n % 0x40 + 0x80) :: rest) =
      continuation n 0x80 0xBF more rest :=
  continuation_within hbits (Nat.le_add_left _ _)
    (Nat.add_le_add_right (Nat.le_of_lt_succ (Nat.mod_lt n (by decide))) 0x80)

theorem continuation_zero (c : Char) (low high : UInt8) (rest : List UInt8) :
    continuation c.toNat low high 0 rest = (some c, rest) := by
  rw [continuation, Char.ofNat_toNat]

/-! ## Characters -/

/-- The number of a character of three bytes, whose second byte is in a range. -/
theorem continuation_two {c : Char} {low high : UInt8} {rest : List UInt8}
    (hlow : low.toNat ≤ c.toNat / 64 % 0x40 + 0x80) (hhigh : c.toNat / 64 % 0x40 + 0x80 ≤ high.toNat) :
    continuation (c.toNat / 4096) low high 2
      (UInt8.ofNat (c.toNat / 64 % 0x40 + 0x80) :: UInt8.ofNat (c.toNat % 0x40 + 0x80) :: rest) = (some c, rest) := by
  rw [continuation_within (by omega) hlow hhigh, continuation_further rfl, continuation_zero]

/-- The number of a character of four bytes, whose second byte is in a range. -/
theorem continuation_three {c : Char} {low high : UInt8} {rest : List UInt8}
    (hlow : low.toNat ≤ c.toNat / 4096 % 0x40 + 0x80) (hhigh : c.toNat / 4096 % 0x40 + 0x80 ≤ high.toNat) :
    continuation (c.toNat / 262144) low high 3 (UInt8.ofNat (c.toNat / 4096 % 0x40 + 0x80) ::
      UInt8.ofNat (c.toNat / 64 % 0x40 + 0x80) :: UInt8.ofNat (c.toNat % 0x40 + 0x80) :: rest) = (some c, rest) := by
  rw [continuation_within (by omega) hlow hhigh, continuation_further (by omega), continuation_further rfl,
    continuation_zero]

/-- A character of two bytes. -/
theorem next_two {c : Char} {rest : List UInt8} (h : 0x7F < c.toNat) (h' : c.toNat ≤ 0x7FF) :
    next (UInt8.ofNat (c.toNat / 64 % 0x20 + 0xC0)) (UInt8.ofNat (c.toNat % 0x40 + 0x80) :: rest) = (some c, rest) := by
  have hbits : c.toNat / 64 % 0x20 + 0xC0 - 0xC0 = c.toNat / 64 := by omega
  have hlead := @lead?_ofNat (c.toNat / 64 % 0x20 + 0xC0) (by omega)
  rw [if_neg (by omega), if_pos (by omega), hbits] at hlead
  rw [next_ofNat (by omega) (by omega) hlead, continuation_further rfl, continuation_zero]

/-- A character of three bytes: none which has a shorter form is written, and no surrogate. -/
theorem next_three {c : Char} {rest : List UInt8} (h : 0x7FF < c.toNat) (h' : c.toNat ≤ 0xFFFF) :
    next (UInt8.ofNat (c.toNat / 4096 % 0x10 + 0xE0)) (UInt8.ofNat (c.toNat / 64 % 0x40 + 0x80) ::
      UInt8.ofNat (c.toNat % 0x40 + 0x80) :: rest) = (some c, rest) := by
  have hvalid : c.toNat < 0xD800 ∨ 0xDFFF < c.toNat ∧ c.toNat < 0x110000 := c.valid
  have hlead := @lead?_ofNat (c.toNat / 4096 % 0x10 + 0xE0) (by omega)
  rw [if_neg (by omega), if_neg (by omega)] at hlead
  by_cases hfirst : c.toNat / 4096 = 0
  · rw [if_pos (by omega), ← hfirst] at hlead
    rw [next_ofNat (by omega) (by omega) hlead]
    exact continuation_two (by simp; omega) (by simp; omega)
  · rw [if_neg (by omega)] at hlead
    by_cases hsurrogates : c.toNat / 4096 = 0xD
    · rw [if_pos (by omega), ← hsurrogates] at hlead
      rw [next_ofNat (by omega) (by omega) hlead]
      exact continuation_two (by simp) (by simp; omega)
    · have hbits : c.toNat / 4096 % 0x10 + 0xE0 - 0xE0 = c.toNat / 4096 := by omega
      rw [if_neg (by omega), if_pos (by omega), hbits] at hlead
      rw [next_ofNat (by omega) (by omega) hlead]
      exact continuation_two (by simp) (by simp; omega)

/-- A character of four bytes: none which has a shorter form is written, and no number which is too large. -/
theorem next_four {c : Char} {rest : List UInt8} (h : 0xFFFF < c.toNat) :
    next (UInt8.ofNat (c.toNat / 262144 % 0x08 + 0xF0)) (UInt8.ofNat (c.toNat / 4096 % 0x40 + 0x80) ::
      UInt8.ofNat (c.toNat / 64 % 0x40 + 0x80) :: UInt8.ofNat (c.toNat % 0x40 + 0x80) :: rest) = (some c, rest) := by
  have hvalid : c.toNat < 0xD800 ∨ 0xDFFF < c.toNat ∧ c.toNat < 0x110000 := c.valid
  have hlead := @lead?_ofNat (c.toNat / 262144 % 0x08 + 0xF0) (by omega)
  rw [if_neg (by omega), if_neg (by omega), if_neg (by omega), if_neg (by omega), if_neg (by omega)] at hlead
  by_cases hfirst : c.toNat / 262144 = 0
  · rw [if_pos (by omega), ← hfirst] at hlead
    rw [next_ofNat (by omega) (by omega) hlead]
    exact continuation_three (by simp; omega) (by simp; omega)
  · rw [if_neg (by omega)] at hlead
    by_cases hlast : c.toNat / 262144 = 4
    · rw [if_neg (by omega), if_pos (by omega), ← hlast] at hlead
      rw [next_ofNat (by omega) (by omega) hlead]
      exact continuation_three (by simp) (by simp; omega)
    · have hbits : c.toNat / 262144 % 0x08 + 0xF0 - 0xF0 = c.toNat / 262144 := by omega
      rw [if_pos (by omega), hbits] at hlead
      rw [next_ofNat (by omega) (by omega) hlead]
      exact continuation_three (by simp) (by simp; omega)

/-- **A character is read back from its bytes.** -/
theorem next_encodeChar (c : Char) (rest : List UInt8) :
    ∃ b more, encodeChar c = b :: more ∧ next b (more ++ rest) = (some c, rest) := by
  unfold encodeChar String.utf8EncodeChar
  simp only [show c.val.toNat = c.toNat from rfl]
  split
  · rename_i h
    have hval : (UInt8.ofNat c.toNat).toNat = c.toNat := UInt8.toNat_ofNat_of_lt' (Nat.lt_of_le_of_lt h (by decide))
    have hascii : UInt8.ofNat c.toNat < 0x80 := UInt8.lt_iff_toNat_lt.2 (hval.symm ▸ Nat.lt_succ_of_le h)
    refine ⟨_, _, rfl, ?_⟩
    unfold next
    rw [if_pos hascii, hval, Char.ofNat_toNat, List.nil_append]
  · rename_i h1
    split
    · rename_i h2
      exact ⟨_, _, rfl, next_two (Nat.lt_of_not_le h1) h2⟩
    · rename_i h2
      split
      · rename_i h3
        exact ⟨_, _, rfl, next_three (Nat.lt_of_not_le h2) h3⟩
      · rename_i h3
        exact ⟨_, _, rfl, next_four (Nat.lt_of_not_le h3)⟩

/-! ## Texts -/

theorem pieces_encode : ∀ cs : List Char, pieces (cs.flatMap encodeChar) = cs.map some
  | [] => by
    rw [List.flatMap_nil, pieces, List.map_nil]
  | c :: cs => by
    obtain ⟨b, more, hbytes, hnext⟩ := next_encodeChar c (cs.flatMap encodeChar)
    rw [List.flatMap_cons, hbytes, List.cons_append, pieces, hnext, pieces_encode cs, List.map_cons]

/-- **The bytes of a text are decoded to the text.** -/
theorem decode?_encode (text : String) : decode? (encode text) = some text := by
  simp [decode?, encode, pieces_encode]

/-- A character that has been read is read in front of any bytes. -/
theorem continuation_append {more : List UInt8} : ∀ {n bits : Nat} {low high : UInt8}
    {bytes : List UInt8}, (continuation bits low high n bytes).1.isSome →
    continuation bits low high n (bytes ++ more) =
      ((continuation bits low high n bytes).1, (continuation bits low high n bytes).2 ++ more)
  | 0, _, _, _, _, _ => rfl
  | n + 1, _, _, _, [], h => by cases h
  | n + 1, bits, low, high, b :: bytes, h => by
    simp only [List.cons_append, continuation] at h ⊢
    split at h
    · rename_i hwithin
      rw [if_pos hwithin, if_pos hwithin]
      exact continuation_append h
    · cases h

theorem next_append {b : UInt8} {bytes : List UInt8} (more : List UInt8) (h : (next b bytes).1.isSome) :
    next b (bytes ++ more) = ((next b bytes).1, (next b bytes).2 ++ more) := by
  unfold next at h ⊢
  split
  · rfl
  · cases hlead : lead? b with
    | none => rfl
    | some lead =>
      rename_i hascii
      simp only [hascii, if_false, hlead] at h ⊢
      exact continuation_append h

/-- Well-formed bytes are read in front of any bytes. -/
theorem pieces_append (more : List UInt8) {bytes : List UInt8} (h : (pieces bytes).all Option.isSome = true) :
    pieces (bytes ++ more) = pieces bytes ++ pieces more := by
  match bytes with
  | [] => rw [pieces, List.nil_append, List.nil_append]
  | b :: bytes =>
    rw [pieces, List.all_cons, Bool.and_eq_true] at h
    have ih := pieces_append more h.2
    rw [List.cons_append, pieces, next_append more h.1, ih, pieces, List.cons_append]
termination_by bytes.length
decreasing_by exact Nat.lt_succ_of_le (next_length_le b bytes)

/-- **Bytes with which those of a text begin are decoded to the text only if they are all of them.** -/
theorem eq_encode_of_prefix {bytes : List UInt8} {text : String} (h : decode? bytes = some text)
    (hbegin : bytes <+: encode text) : bytes = encode text := by
  obtain ⟨more, hmore⟩ := hbegin
  unfold decode? at h
  simp only at h
  split at h
  · rename_i hall
    have hlength : ((pieces bytes).filterMap id).length = (pieces bytes).length :=
      List.filterMap_length_eq_length.2 (List.all_eq_true.1 hall)
    have htext : (pieces bytes).filterMap id = text.toList := by
      rw [← Option.some.inj h, String.toList_ofList]
    have hpieces := congrArg List.length (pieces_append more hall)
    rw [hmore, encode, pieces_encode, List.length_map, List.length_append, ← hlength, htext] at hpieces
    have hnone : pieces more = [] := List.eq_nil_of_length_eq_zero (by omega)
    cases more with
    | nil => rw [← hmore, List.append_nil]
    | cons b more =>
      rw [pieces] at hnone
      cases hnone
  · cases h

theorem length_encode (text : String) : (encode text).length = text.utf8ByteSize := by
  have hbytes : (encode text).toByteArray = text.toByteArray := by
    rw [← String.ofList_toList (s := text), String.toByteArray_ofList, String.ofList_toList]
    rfl
  rw [← String.size_toByteArray, ← hbytes, List.size_toByteArray]

end RecordServer.Text.Utf8
