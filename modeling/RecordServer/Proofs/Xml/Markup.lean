import RecordServer.Proofs.Xml.Parts

/-!
# Reading markup

What the reader makes of each kind of markup behind its `<`, whatever follows it: the start of an element
(`Reader.next_start`, `Reader.next_empty`) with the name and the attributes of the tag, its end (`Reader.next_close`),
the declaration with the charset (`Reader.next_declaration`), a CDATA section with its text (`Reader.next_section`), and
what is passed over (`Reader.next_aside`). Behind the markup the reader is outside of it, with the element opened or
closed.
-/

namespace RecordServer.Xml

variable {charset : Text.Charset} {names : List (List UInt8)} {rest : List UInt8} {n : Nat}

/-! ## Tags -/

namespace Tag

/-- What is written behind a name does not continue it. -/
theorem head?_raw (tag : Tag charset) : ∀ b ∈ tag.raw.head?, isSpace b = true := by
  obtain ⟨name, attributes, behind, -⟩ := tag
  cases attributes with
  | nil =>
    intro b hb
    exact behind.isSpace_of_mem b (List.mem_of_head? (by simpa [raw] using hb))
  | cons a attributes =>
    obtain ⟨b, before, hbefore⟩ := List.exists_cons_of_ne_nil a.apart
    rintro _ hb
    obtain rfl : b = _ := by simpa [raw, Attribute.bytes, hbefore] using hb
    exact a.before.isSpace_of_mem b (by simp [hbefore])

theorem getLast?_append_ne {l l' : List UInt8} {x : UInt8} (h : l.getLast? ≠ some x) (h' : l'.getLast? ≠ some x) :
    (l ++ l').getLast? ≠ some x := by
  rw [List.getLast?_append]
  cases hl : l'.getLast? with
  | none => simpa using h
  | some b => simpa [hl] using h'

/-- A tag does not end with `/`. -/
theorem getLast?_bytes (tag : Tag charset) : tag.bytes.getLast? ≠ some 47 := by
  have hattributes (attributes : List (Attribute charset)) :
      (attributes.flatMap Attribute.bytes).getLast? ≠ some 47 := by
    induction attributes with
    | nil => simp
    | cons a attributes ih =>
      refine getLast?_append_ne ?_ ih
      have hquote : a.quote ≠ 47 := by
        obtain h | h := a.isQuote <;> rw [h] <;> decide
      simpa [Attribute.bytes, Attribute.body, List.getLast?_append, List.getLast?_cons] using hquote
  refine getLast?_append_ne (fun h => ?_) (getLast?_append_ne (hattributes tag.attributes) fun h => ?_)
  · exact tag.name.not_mem (by decide) (List.mem_of_getLast? h)
  · exact ne_of_isSpace (tag.behind.isSpace_of_mem 47 (List.mem_of_getLast? h)) rfl rfl

end Tag

namespace Reader

theorem tagLength_plain : ∀ (l rest : List UInt8), (∀ b ∈ l, b ≠ 34 ∧ b ≠ 39 ∧ b ≠ 62) →
    tagLength none (l ++ rest) = l.length + tagLength none rest
  | [], rest, _ => (Nat.zero_add _).symm
  | b :: l, rest, h => by
    obtain ⟨⟨h34, h39, h62⟩, hl⟩ := List.forall_mem_cons.1 h
    have hquote : (b = 34 || b = 39) = false := by simp [h34, h39]
    rw [List.cons_append, tagLength, if_neg h62, hquote, if_neg Bool.false_ne_true, tagLength_plain l rest hl,
      List.length_cons]
    omega

theorem tagLength_quoted (quote : UInt8) : ∀ (value rest : List UInt8), quote ∉ value →
    tagLength (some quote) (value ++ quote :: rest) = value.length + 1 + tagLength none rest
  | [], rest, _ => by
    rw [List.nil_append, tagLength, if_pos rfl, List.length_nil]
    omega
  | b :: value, rest, h => by
    obtain ⟨hb, hvalue⟩ := not_or.1 (mt List.mem_cons.2 h)
    rw [List.cons_append, tagLength, if_neg (Ne.symm hb), tagLength_quoted quote value rest hvalue, List.length_cons]
    omega

/-- Blanks end no tag and begin no quoted value. -/
theorem plain_of_isSpace {b : UInt8} (h : isSpace b = true) : b ≠ 34 ∧ b ≠ 39 ∧ b ≠ 62 :=
  ⟨ne_of_isSpace h rfl, ne_of_isSpace h rfl, ne_of_isSpace h rfl⟩

theorem plain_of_name {name : Name} {b : UInt8} (h : b ∈ name.bytes) : b ≠ 34 ∧ b ≠ 39 ∧ b ≠ 62 := by
  refine ⟨?_, ?_, ?_⟩ <;>
  · rintro rfl
    exact name.not_mem (by decide) h

theorem tagLength_attribute (a : Attribute charset) (rest : List UInt8) :
    tagLength none (a.bytes ++ rest) = a.bytes.length + tagLength none rest := by
  let front := a.before.bytes ++ (a.name.bytes ++ (a.beforeEq.bytes ++ 61 :: a.behindEq.bytes))
  have hfront : ∀ b ∈ front, b ≠ 34 ∧ b ≠ 39 ∧ b ≠ 62 := by
    intro b hb
    simp only [front, List.mem_append, List.mem_cons] at hb
    obtain h | h | h | rfl | h := hb
    · exact plain_of_isSpace (a.before.isSpace_of_mem b h)
    · exact plain_of_name h
    · exact plain_of_isSpace (a.beforeEq.isSpace_of_mem b h)
    · decide
    · exact plain_of_isSpace (a.behindEq.isSpace_of_mem b h)
  have hbytes : a.bytes = front ++ a.quote :: (a.value.bytes ++ [a.quote]) := by
    simp [Attribute.bytes, Attribute.body, front]
  have hquote : (a.quote = 34 || a.quote = 39) = true := by simpa using a.isQuote
  have h62 : a.quote ≠ 62 := by
    obtain h | h := a.isQuote <;> rw [h] <;> decide
  rw [hbytes, List.append_assoc, tagLength_plain _ _ hfront, List.cons_append, tagLength, if_neg h62, hquote,
    if_pos rfl, List.append_assoc, List.singleton_append, tagLength_quoted _ _ _ a.quoted]
  simp only [List.length_append, List.length_cons, List.length_nil]
  omega

/-- A tag reaches up to what follows it. -/
theorem tagLength_tag (tag : Tag charset) (rest : List UInt8) :
    tagLength none (tag.bytes ++ rest) = tag.bytes.length + tagLength none rest := by
  have hattributes (attributes : List (Attribute charset)) (rest : List UInt8) :
      tagLength none (attributes.flatMap Attribute.bytes ++ rest) =
        (attributes.flatMap Attribute.bytes).length + tagLength none rest := by
    induction attributes with
    | nil => simp
    | cons a attributes ih =>
      rw [List.flatMap_cons, List.append_assoc, tagLength_attribute, ih, List.length_append, Nat.add_assoc]
  rw [Tag.bytes, Tag.raw, List.append_assoc, List.append_assoc, tagLength_plain _ _ fun b hb => plain_of_name hb,
    hattributes, tagLength_plain _ _ fun b hb => plain_of_isSpace (tag.behind.isSpace_of_mem b hb)]
  simp only [List.length_append]
  omega

/-! ## Places -/

/-- The place behind some markup. -/
abbrev outside (names : List (List UInt8)) (rest : List UInt8) (n : Nat) : Reader := ⟨rest, n, false, false, names⟩

/-- The place behind the `<` of some markup. -/
abbrev inside (names : List (List UInt8)) (rest : List UInt8) (n : Nat) : Reader := ⟨rest, n, true, false, names⟩

theorem skip_outside (l rest : List UInt8) (b : UInt8) :
    (outside names (l ++ b :: rest) n).skip (l.length + 1) = outside names rest (n + (l.length + 1)) := by
  have hcut : l ++ b :: rest = (l ++ [b]) ++ rest := by simp
  have hlength : l.length + 1 = (l ++ [b]).length := by simp
  simp only [skip, hcut, hlength, List.drop_left, List.take_left]

theorem untilClose_outside {l : List UInt8} (h : 62 ∉ l) (rest : List UInt8) :
    (outside names (l ++ 62 :: rest) n).untilClose = (l, outside names rest (n + (l.length + 1))) := by
  have hl : (l ++ 62 :: rest).takeWhile (fun b => decide (b ≠ 62)) = l := by
    refine takeWhile_cut (fun b hb => decide_eq_true ?_) (by simp)
    rintro rfl
    exact h hb
  simp only [untilClose, hl, skip_outside]

/-! ## Markup -/

/-- A tag is read as a start if it does not begin as another kind of markup, which no name does. -/
theorem next_inside_name (name : Name) (rest : List UInt8) :
    (inside names (name.bytes ++ rest) n).next = (outside names (name.bytes ++ rest) n).readStart := by
  obtain ⟨b, l, hname⟩ := List.exists_cons_of_ne_nil name.ne
  have hmem : b ∈ name.bytes := hname ▸ List.mem_cons_self
  have h47 : b ≠ 47 := fun h => name.not_mem (by decide) (h ▸ hmem)
  have h33 : b ≠ 33 := fun h => name.not_mem (by decide) (h ▸ hmem)
  have h63 : b ≠ 63 := fun h => name.not_mem (by decide) (h ▸ hmem)
  simp only [next, readMarkup, hname, List.cons_append, Bool.false_eq_true, if_false, if_true]
  split
  · rename_i heq
    cases heq
  · rename_i heq
    exact absurd (List.cons.inj heq).1 h47
  · rename_i heq
    exact absurd (List.cons.inj heq).1 h33
  · rename_i heq
    exact absurd (List.cons.inj heq).1 h63
  · rfl

theorem takeWhile_tag (tag : Tag charset) : tag.bytes.takeWhile (fun b => !isSpace b) = tag.name.bytes :=
  takeWhile_cut (fun b hb => by simp [tag.name.not_isSpace hb]) fun b hb => by simp [tag.head?_raw b hb]

/-- The start of an element. -/
theorem next_start (tag : Tag charset) (rest : List UInt8) : (inside names (tag.bytes ++ 62 :: rest) n).next =
    .event (.start tag.name.bytes tag.raw)
      (outside (tag.name.bytes :: names) rest (n + (tag.bytes.length + 1))) := by
  have hlength : tagLength none (tag.bytes ++ 62 :: rest) = tag.bytes.length := by
    rw [tagLength_tag, tagLength, if_pos rfl, Nat.add_zero]
  have hdrop : tag.bytes.drop tag.name.bytes.length = tag.raw := List.drop_left
  have hmarkup := @next_inside_name names n tag.name (tag.raw ++ 62 :: rest)
  rw [← List.append_assoc] at hmarkup
  refine hmarkup.trans ?_
  show (outside names (tag.bytes ++ 62 :: rest) n).readStart = _
  simp only [readStart, hlength, List.take_left, skip_outside, takeWhile_tag, hdrop, if_neg tag.getLast?_bytes]

/-- Without attributes and blanks, the `/` is taken for a part of the name at first. -/
theorem name_empty (tag : Tag charset) :
    (if ((tag.bytes ++ [47]).takeWhile fun b => !isSpace b).length = (tag.bytes ++ [47]).length
      then ((tag.bytes ++ [47]).takeWhile fun b => !isSpace b).dropLast
      else (tag.bytes ++ [47]).takeWhile fun b => !isSpace b) = tag.name.bytes := by
  have hin : ∀ b ∈ tag.name.bytes, (!isSpace b) = true := fun b hb => by simp [tag.name.not_isSpace hb]
  cases hraw : tag.raw with
  | nil =>
    have hbytes : tag.bytes = tag.name.bytes := by rw [Tag.bytes, hraw, List.append_nil]
    have hall : ((tag.bytes ++ [47]).takeWhile fun b => !isSpace b) = tag.bytes ++ [47] :=
      List.takeWhile_eq_self_iff.2 fun b hb => (List.mem_append.1 hb).elim (fun h => hin b (hbytes ▸ h)) fun h => by
        rw [List.mem_singleton.1 h]
        rfl
    rw [hall, if_pos rfl, List.dropLast_concat, hbytes]
  | cons b more =>
    have hb : isSpace b = true := tag.head?_raw b (by rw [hraw]; rfl)
    have htaken : ((tag.bytes ++ [47]).takeWhile fun b => !isSpace b) = tag.name.bytes := by
      rw [Tag.bytes, hraw, List.append_assoc]
      exact takeWhile_cut hin (by simp [hb])
    rw [htaken, if_neg]
    simp [Tag.bytes, hraw]

/-- The start of an element that is written without an end tag. -/
theorem next_empty (tag : Tag charset) (rest : List UInt8) : (inside names (tag.bytes ++ 47 :: 62 :: rest) n).next =
    .event (.start tag.name.bytes tag.raw)
      ⟨rest, n + ((tag.bytes ++ [47]).length + 1), false, true, tag.name.bytes :: names⟩ := by
  have hbytes : tag.bytes ++ 47 :: 62 :: rest = (tag.bytes ++ [47]) ++ 62 :: rest := by simp
  have hlength : tagLength none ((tag.bytes ++ [47]) ++ 62 :: rest) = (tag.bytes ++ [47]).length := by
    rw [← hbytes, tagLength_tag]
    simp [tagLength]
  have hdrop : (tag.bytes ++ [47]).dropLast.drop tag.name.bytes.length = tag.raw := by
    rw [List.dropLast_concat]
    exact List.drop_left
  have hmarkup := @next_inside_name names n tag.name (tag.raw ++ 47 :: 62 :: rest)
  rw [← List.append_assoc] at hmarkup
  refine hmarkup.trans ?_
  show (outside names (tag.bytes ++ 47 :: 62 :: rest) n).readStart = _
  rw [hbytes]
  simp only [readStart, hlength, List.take_left, skip_outside, List.getLast?_concat, if_true, name_empty, hdrop]

theorem next_isEmpty (name : List UInt8) : (⟨rest, n, false, true, name :: names⟩ : Reader).next =
    .event .stop (outside names rest n) := rfl

/-- The end of an element. -/
theorem next_close (tag : Tag charset) (behind : Blanks) (rest : List UInt8) :
    (inside (tag.name.bytes :: names) (tag.close behind ++ 62 :: rest) n).next =
      .event .stop (outside names rest (n + ((tag.close behind).length + 1))) := by
  have hclosed : 62 ∉ tag.close behind := by
    intro h
    simp only [Tag.close, List.mem_cons, List.mem_append] at h
    obtain h | h | h := h
    · cases h
    · exact tag.name.not_mem (by decide) h
    · exact ne_of_isSpace (behind.isSpace_of_mem 62 h) rfl rfl
  have hbare : (((tag.close behind).drop 1).reverse.dropWhile isTagSpace).reverse = tag.name.bytes := by
    rw [Tag.close, List.drop_one, List.tail_cons, List.reverse_append, dropWhile_cut, List.reverse_reverse]
    · intro b hb
      have := behind.isSpace_of_mem b (List.mem_reverse.1 hb)
      simp [isTagSpace, this]
    · intro b hb
      exact tag.name.not_isTagSpace (List.mem_reverse.1 (List.mem_of_head? hb))
  show (outside (tag.name.bytes :: names) (tag.close behind ++ 62 :: rest) n).readEnd = _
  simp only [readEnd, untilClose_outside hclosed, hbare, if_neg tag.name.ne, if_true]

/-- A processing instruction ends with its `?`. -/
theorem instruction_ends {bytes : List UInt8} (h : bytes ≠ []) :
    ¬((instructionBytes bytes).length ≤ 2 ∨ (instructionBytes bytes).getLast? ≠ some 63) := by
  have hlength := List.length_pos_iff.2 h
  rw [instructionBytes, ← List.cons_append, List.getLast?_concat, List.length_append, List.length_cons]
  simp only [List.length_singleton, ne_eq, not_true_eq_false, or_false]
  omega

theorem not_mem_instructionBytes {bytes : List UInt8} (h : 62 ∉ bytes) : 62 ∉ instructionBytes bytes := by
  simpa [instructionBytes] using h

/-- A processing instruction. -/
theorem next_instruction {bytes : List UInt8} (hne : bytes ≠ []) (hclosed : 62 ∉ bytes)
    (htarget : ¬(bytes.take 3 = [120, 109, 108] ∧ (bytes.drop 3).head?.any isSpace = true)) (rest : List UInt8) :
    (inside names (instructionBytes bytes ++ 62 :: rest) n).next =
      .event .other (outside names rest (n + ((instructionBytes bytes).length + 1))) := by
  have hother : ¬(5 < (instructionBytes bytes).length ∧ ((instructionBytes bytes).drop 1).take 3 = [120, 109, 108] ∧
      ((instructionBytes bytes).drop 4).head?.any isSpace = true) := by
    rintro ⟨hlength, htake, hspace⟩
    obtain _ | ⟨a, _ | ⟨b, _ | ⟨c, _ | ⟨d, more⟩⟩⟩⟩ := bytes
    all_goals simp only [instructionBytes, List.length_cons, List.length_append, List.length_nil] at hlength
    iterate 4 omega
    exact htarget ⟨htake, hspace⟩
  show (outside names (instructionBytes bytes ++ 62 :: rest) n).readInstruction = _
  simp only [readInstruction, untilClose_outside (not_mem_instructionBytes hclosed), if_neg (instruction_ends hne),
    if_neg hother]

theorem findSome?_found (name : List UInt8) : ∀ attributes : List (Attribute charset),
    (((attributes.map fun a => some a.found).takeWhile Option.isSome).findSome? fun a =>
      a.bind fun a => if a.1 = name then some a.2 else none) =
        (attributes.find? fun a => a.name.bytes = name).map fun a => a.value.bytes
  | [] => rfl
  | a :: attributes => by
    rw [List.map_cons, List.takeWhile_cons_of_pos rfl, List.findSome?_cons, List.find?_cons]
    by_cases h : a.name.bytes = name
    · simp [Attribute.found, h]
    · simpa [Attribute.found, h] using findSome?_found name attributes

/-- The charset that a tag declares is the one that holds behind the declaration. -/
theorem charsetAfter_declares {tag : Tag charset} (h : tag.declares? = some charset) : charsetAfter .utf8
    (.declaration ((tag.encoding?.bind Text.Utf8.decode?).bind Text.Charset.ofLabel?)) = charset := by
  unfold Tag.declares? at h
  cases hencoding : tag.encoding? with
  | none =>
    rw [hencoding] at h
    exact Option.some.inj h
  | some label =>
    rw [hencoding] at h
    rw [Option.bind_some, show (Text.Utf8.decode? label).bind Text.Charset.ofLabel? = some charset from h]
    rfl

/-- The declaration of a document, which tells its charset. -/
theorem next_declaration (d : Declaration charset) (rest : List UInt8) : ∃ declared m,
    (inside names (instructionBytes d.tag.bytes ++ 62 :: rest) n).next =
      .event (.declaration declared) (outside names rest m) ∧ charsetAfter .utf8 (.declaration declared) = charset := by
  have hbytes : d.tag.bytes = 120 :: 109 :: 108 :: d.tag.raw := by rw [Tag.bytes, d.named]; rfl
  obtain ⟨b, more, hraw⟩ : ∃ b more, d.tag.raw = b :: more := by
    obtain ⟨a, as, has⟩ := List.exists_cons_of_ne_nil d.versioned
    obtain ⟨b, before, hbefore⟩ := List.exists_cons_of_ne_nil a.apart
    exact ⟨b, _, by rw [Tag.raw, has, List.flatMap_cons, Attribute.bytes, hbefore]; rfl⟩
  have hb : isSpace b = true := d.tag.head?_raw b (by rw [hraw]; rfl)
  have hxml : 5 < (instructionBytes d.tag.bytes).length ∧
      ((instructionBytes d.tag.bytes).drop 1).take 3 = [120, 109, 108] ∧
      ((instructionBytes d.tag.bytes).drop 4).head?.any isSpace = true := by
    rw [instructionBytes, hbytes, hraw]
    simp [hb]
  have hattributes : (instructionBytes d.tag.bytes).dropLast.drop 4 = d.tag.raw := by
    rw [instructionBytes, ← List.cons_append, List.dropLast_concat, hbytes]
    rfl
  refine ⟨_, n + ((instructionBytes d.tag.bytes).length + 1), ?_, charsetAfter_declares d.declares⟩
  show (outside names (instructionBytes d.tag.bytes ++ 62 :: rest) n).readInstruction = _
  simp only [readInstruction, untilClose_outside (not_mem_instructionBytes d.closed),
    if_neg (instruction_ends (hbytes ▸ List.cons_ne_nil _ _)), if_pos hxml, hattributes, Tag.attributes_raw,
    findSome?_found, Tag.encoding?]

/-! ### Comments, CDATA sections and the document type -/

theorem endsWith_iff {suffix bytes : List UInt8} : endsWith suffix bytes = true ↔ suffix <:+ bytes := by
  rw [endsWith, List.isPrefixOf_iff_prefix, List.reverse_prefix]

/-- What is read until it has an end of a kind is all that stands in front of the first `>` behind such an end. -/
theorem readUntil_outside {isDone : List UInt8 → Bool} : ∀ (fuel : Nat) (begun l : List UInt8) (n : Nat),
    l.count 62 < fuel → isDone (begun ++ l) = true →
    (∀ front behind, l = front ++ 62 :: behind → isDone (begun ++ front) = false) →
    ∃ m, readUntil isDone fuel (begun ++ (outside names (l ++ 62 :: rest) n).untilClose.1)
      (outside names (l ++ 62 :: rest) n).untilClose.2 = some (begun ++ l, outside names rest m)
  | 0, _, _, _, h, _, _ => absurd h (Nat.not_lt_zero _)
  | fuel + 1, begun, l, n, hfuel, hdone, hbefore => by
    by_cases h : 62 ∈ l
    · obtain ⟨front, behind, rfl, hfront⟩ := List.eq_append_cons_of_mem h
      have hcount : behind.count 62 < fuel := by
        rw [List.count_append, List.count_cons_self] at hfuel
        omega
      obtain ⟨m, hm⟩ := readUntil_outside fuel (begun ++ front ++ [62]) behind (n + (front.length + 1)) hcount
        (by simpa using hdone) fun front' behind' hbehind => by
          simpa using hbefore (front ++ 62 :: front') behind' (by simp [hbehind])
      refine ⟨m, ?_⟩
      have hne : (behind ++ 62 :: rest).isEmpty = false := by simp
      rw [List.append_assoc, List.cons_append, untilClose_outside hfront, readUntil, if_neg (by simp [hbefore]),
        if_neg (by simp [hne])]
      simpa using hm
    · refine ⟨n + (l.length + 1), ?_⟩
      rw [untilClose_outside h, readUntil, if_pos hdone]

/-- A document type ends at the first `>` that is not that of a `<`, where some of these may have been read before. -/
theorem readDoctype_outside : ∀ (fuel depth : Nat) (l : List UInt8) (n : Nat), l.count 62 < fuel →
    depth + l.count 60 = l.count 62 → (∀ front, front <+: l → front.count 62 ≤ depth + front.count 60) →
    ∃ m, readDoctype fuel (depth + (outside names (l ++ 62 :: rest) n).untilClose.1.count 60)
      (outside names (l ++ 62 :: rest) n).untilClose.2 = some (outside names rest m)
  | 0, _, _, _, h, _, _ => absurd h (Nat.not_lt_zero _)
  | fuel + 1, depth, l, n, hfuel, hbalanced, hnested => by
    by_cases h : 62 ∈ l
    · obtain ⟨front, behind, rfl, hfront⟩ := List.eq_append_cons_of_mem h
      have hclose (p : List UInt8) : (front ++ 62 :: p).count 62 = p.count 62 + 1 := by
        rw [List.count_append, List.count_eq_zero.2 hfront, List.count_cons_self, Nat.zero_add]
      have hopen (p : List UInt8) : (front ++ 62 :: p).count 60 = front.count 60 + p.count 60 := by
        rw [List.count_append, List.count_cons_of_ne (by decide)]
      have hfirst := hnested (front ++ 62 :: []) ⟨behind, by simp⟩
      rw [hclose, hopen, List.count_nil, List.count_nil] at hfirst
      rw [hclose] at hfuel
      rw [hclose, hopen] at hbalanced
      obtain ⟨k, hk⟩ := Nat.exists_eq_succ_of_ne_zero (show depth + front.count 60 ≠ 0 by omega)
      obtain ⟨m, hm⟩ := readDoctype_outside fuel k behind (n + (front.length + 1)) (by omega) (by omega) fun p hp => by
        have hnext := hnested (front ++ 62 :: p)
          ((List.prefix_append_right_inj front).2 (List.cons_prefix_cons.2 ⟨rfl, hp⟩))
        rw [hclose, hopen] at hnext
        omega
      refine ⟨m, ?_⟩
      have hne : (behind ++ 62 :: rest).isEmpty = false := by simp
      rw [List.append_assoc, List.cons_append, untilClose_outside hfront, hk, readDoctype, if_neg (by simp [hne])]
      exact hm
    · refine ⟨n + (l.length + 1), ?_⟩
      rw [untilClose_outside h, hbalanced, List.count_eq_zero.2 h]
      rfl

/-- There is fuel for every `>` in some markup. -/
theorem count_lt_fuel (l rest : List UInt8) (n : Nat) :
    l.count 62 < (outside names (l ++ 62 :: rest) n).untilClose.2.rest.length + 2 := by
  by_cases h : 62 ∈ l
  · obtain ⟨front, behind, rfl, hfront⟩ := List.eq_append_cons_of_mem h
    rw [List.append_assoc, List.cons_append, untilClose_outside hfront, List.count_append,
      List.count_eq_zero.2 hfront, List.count_cons_self]
    have : behind.count 62 ≤ behind.length := List.count_le_length
    simp only [List.length_append]
    omega
  · rw [List.count_eq_zero.2 h]
    omega

/-- Whether that much of a comment, from its `!` on, ends it at the next `>`. -/
def endsComment (bytes : List UInt8) : Bool := 5 ≤ bytes.length && endsWith [45, 45] bytes

/-- A comment is not ended before its end: behind `<!--` two hyphens would be needed. -/
theorem endsComment_front {bytes front behind : List UInt8} (h : ¬[45, 45] <:+: bytes)
    (hl : 33 :: 45 :: 45 :: (bytes ++ [45, 45]) = front ++ 62 :: behind) : endsComment front = false := by
  refine eq_false_of_ne_true fun hdone => ?_
  obtain ⟨hlength, hend⟩ := Bool.and_eq_true_iff.1 hdone
  have hlength : 5 ≤ front.length := of_decide_eq_true hlength
  obtain _ | ⟨a, _ | ⟨b, _ | ⟨c, p⟩⟩⟩ := front
  all_goals simp only [List.length_nil, List.length_cons] at hlength
  iterate 3 omega
  simp only [List.cons_append, List.cons.injEq] at hl
  have hp : [45, 45] <:+ p := List.suffix_of_suffix_length_le (endsWith_iff.1 hend)
    (List.suffix_append [a, b, c] p) (by simp only [List.length_cons, List.length_nil]; omega)
  obtain ⟨more, -, htail⟩ | ⟨more, hbytes, -⟩ := List.append_eq_append_iff.1 hl.2.2.2
  · have hmem : (62 : UInt8) ∈ [45, 45] := htail ▸ List.mem_append_right more List.mem_cons_self
    exact absurd hmem (by decide)
  · exact h (hp.isInfix.trans (hbytes ▸ (List.prefix_append p more).isInfix))

theorem next_comment {bytes : List UInt8} (h : ¬[45, 45] <:+: bytes) (rest : List UInt8) : ∃ m,
    (inside names ((33 :: 45 :: 45 :: (bytes ++ [45, 45])) ++ 62 :: rest) n).next =
      .event .other (outside names rest m) := by
  let l : List UInt8 := 33 :: 45 :: 45 :: (bytes ++ [45, 45])
  have hdone : endsComment ([] ++ l) = true := by
    have hlength : 5 ≤ l.length := by simp [l]
    have hend : endsWith [45, 45] l = true := endsWith_iff.2 ⟨33 :: 45 :: 45 :: bytes, rfl⟩
    simp [endsComment, hlength, hend]
  obtain ⟨m, hm⟩ := @readUntil_outside names rest endsComment _ [] l n (count_lt_fuel l rest n) hdone
    fun front behind hl => endsComment_front h hl
  refine ⟨m, ?_⟩
  show (outside names (l ++ 62 :: rest) n).readBang = _
  have hbegins : [33, 45, 45].isPrefixOf (outside names (l ++ 62 :: rest) n).untilClose.1 = true := by
    simp [untilClose, l]
  simp only [List.nil_append] at hm
  simp only [readBang]
  rw [if_pos hbegins, show (fun b : List UInt8 => decide (5 ≤ b.length) && endsWith [45, 45] b) = endsComment from rfl,
    hm]

theorem next_doctype {bytes : List UInt8} (hbalanced : bytes.count 60 = bytes.count 62)
    (hnested : ∀ front ∈ bytes.inits, front.count 62 ≤ front.count 60) (rest : List UInt8) : ∃ m,
    (inside names ((33 :: 68 :: 79 :: 67 :: 84 :: 89 :: 80 :: 69 :: bytes) ++ 62 :: rest) n).next =
      .event .other (outside names rest m) := by
  let l : List UInt8 := 33 :: 68 :: 79 :: 67 :: 84 :: 89 :: 80 :: 69 :: bytes
  let r := outside names (l ++ 62 :: rest) n
  have hbalanced : 0 + l.count 60 = l.count 62 := by simpa [l, List.count_cons] using hbalanced
  have hnested : ∀ front, front <+: l → front.count 62 ≤ 0 + front.count 60 := by
    intro front h
    -- there are no brackets in the name of the markup
    have hname : (front.take 8).count 62 = 0 :=
      Nat.le_zero.1 ((h.take 8).sublist.count_le 62)
    have hbody := hnested (front.drop 8) ((List.mem_inits _ _).2 (h.drop 8))
    rw [← List.take_append_drop 8 front, List.count_append, List.count_append, hname]
    omega
  obtain ⟨m, hm⟩ := @readDoctype_outside names rest _ 0 l n (count_lt_fuel l rest n) hbalanced hnested
  rw [Nat.zero_add] at hm
  refine ⟨m, ?_⟩
  show r.readBang = _
  have hcomment : [33, 45, 45].isPrefixOf r.untilClose.1 = false := by
    simp [untilClose, r, l, List.isPrefixOf]
  have hsection : [33, 91, 67, 68, 65, 84, 65, 91].isPrefixOf r.untilClose.1 = false := by
    simp [untilClose, r, l, List.isPrefixOf]
  have hdoctype : ((r.untilClose.1.drop 1).take 7).map upper = [68, 79, 67, 84, 89, 80, 69] := by
    simp [untilClose, r, l, upper]
  simp only [readBang]
  rw [if_neg (by simp [hcomment]), if_neg (by simp [hsection]), if_pos hdoctype, hm]

/-- Comments, processing instructions and the document type are passed over. -/
theorem next_aside (a : Aside) (rest : List UInt8) : ∃ m,
    (inside names (a.bytes ++ 62 :: rest) n).next = .event .other (outside names rest m) := by
  cases a with
  | comment bytes plain => exact next_comment plain rest
  | instruction bytes ne closed target => exact ⟨_, next_instruction ne closed target rest⟩
  | doctype bytes balanced nested => exact next_doctype balanced nested rest

/-- The text of a CDATA section. -/
theorem next_section {bytes : List UInt8} (h : bytes.any isSpecial = false) (rest : List UInt8) : ∃ m,
    (inside names (sectionBytes bytes ++ 62 :: rest) n).next = .event (.verbatim bytes) (outside names rest m) := by
  have hclosed : 62 ∉ sectionBytes bytes := by
    simp only [sectionBytes, List.mem_cons, List.mem_append]
    intro hin
    have hmem : 62 ∈ bytes := by simpa using hin
    exact List.any_eq_false.1 h 62 hmem rfl
  have hend : endsWith [93, 93] (sectionBytes bytes) = true :=
    endsWith_iff.2 ⟨33 :: 91 :: 67 :: 68 :: 65 :: 84 :: 65 :: 91 :: bytes, rfl⟩
  have htext : ((sectionBytes bytes).drop 8).take ((sectionBytes bytes).length - 10) = bytes := by
    simp [sectionBytes]
  refine ⟨n + ((sectionBytes bytes).length + 1), ?_⟩
  show (outside names (sectionBytes bytes ++ 62 :: rest) n).readBang = _
  have hcomment : [33, 45, 45].isPrefixOf (sectionBytes bytes) = false := rfl
  have hsection : [33, 91, 67, 68, 65, 84, 65, 91].isPrefixOf (sectionBytes bytes) = true := by simp [sectionBytes]
  simp only [readBang, untilClose_outside hclosed, hcomment, hsection, readUntil, hend, htext, Bool.false_eq_true,
    if_false, if_true]

end Reader

end RecordServer.Xml
