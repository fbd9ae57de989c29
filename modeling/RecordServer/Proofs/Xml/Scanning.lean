import RecordServer.Proofs.Xml.Markup

/-!
# Scanning a document

The events of a document follow from what is written in it (`Content.events`). The reader delivers them one after the
other (`Reader.reads_content`, by recursion on the content, with any markup or the end of the document behind it), and
a scan has fuel for all of them (`Content.length_events_le`), so that it finds the events of the content behind some
which declare the charset and lie outside of all elements (`scan_document`).
-/

namespace RecordServer.Xml

variable {charset : Text.Charset} {names : List (List UInt8)} {rest tail after : List UInt8} {n : Nat}

/-! ## Events -/

/-- The event of a text, if there is more to it than blanks. -/
def Characters.events (t : Characters charset) : List Event :=
  if t.strip.bytes = [] then [] else [.text t.strip.bytes]

/-- The events of some content. -/
def Content.events : Content charset → List Event
  | last text => text.events
  | element before tag inner _ rest =>
    before.events ++ .start tag.name.bytes tag.raw :: (inner.events ++ .stop :: rest.events)
  | empty before tag rest => before.events ++ .start tag.name.bytes tag.raw :: .stop :: rest.events
  | verbatim before bytes _ rest => before.events ++ .verbatim bytes :: rest.events
  | aside before _ rest => before.events ++ .other :: rest.events

namespace Reader

/-! ## Reading on -/

/-- Events are read one after the other, up to a place from which it goes on in the same way. -/
inductive Reads : Reader → List Event → Reader → Prop
  | same {r s : Reader} (h : r.next = s.next) : Reads r [] s
  | event {r s t : Reader} {e : Event} {es : List Event} (h : r.next = .event e s) (hs : Reads s es t) :
    Reads r (e :: es) t

theorem Reads.trans {r s t : Reader} {es more : List Event} (h : Reads r es s) (h' : Reads s more t) :
    Reads r (es ++ more) t := by
  induction h with
  | same h =>
    cases h' with
    | same h' => exact .same (h.trans h')
    | event h' hs => exact .event (h.trans h') hs
  | event h _ ih => exact .event h (ih h')

/-! ## Texts -/

/-- What follows a text: markup or nothing, with what is behind a `<`. -/
inductive Follows : List UInt8 → List UInt8 → Prop
  | markup (after : List UInt8) : Follows (60 :: after) after
  | nothing : Follows [] []

/-- In front of a text, the next event is that of the text, or else that of what follows. -/
theorem reads_characters (t : Characters charset) (h : Follows tail after) :
    ∃ m, Reads (outside names (t.bytes ++ tail) n) t.events (inside names after m) := by
  let count := t.bytes.length + 1
  have htaken : (t.bytes ++ tail).takeWhile (fun b => decide (b ≠ 60)) = t.bytes := by
    refine takeWhile_cut (fun b hb => decide_eq_true ?_) ?_
    · rintro rfl
      exact t.not_mem_bytes hb
    · cases h <;> simp
  have hdrop : (t.bytes ++ tail).drop count = after := by
    cases h <;> simp [count, List.drop_append]
  let m := n + ((t.bytes ++ tail).take count).length
  refine ⟨m, ?_⟩
  cases hnil : (t.bytes ++ tail).isEmpty with
  | true =>
    obtain ⟨ht, rfl⟩ := List.append_eq_nil_iff.1 (List.isEmpty_iff.1 hnil)
    have hevents : t.events = [] := if_pos (by rw [← t.trim_bytes, ht]; rfl)
    cases h
    rw [hevents, ht]
    exact .same rfl
  | false =>
    have hnext : (outside names (t.bytes ++ tail) n).next =
        if t.strip.bytes = [] then (inside names after m).next
        else .event (.text t.strip.bytes) (inside names after m) := by
      simp only [next, hnil, htaken, t.trim_bytes, skip, Bool.false_eq_true, if_false, if_true]
      rw [hdrop]
    unfold Characters.events
    split_ifs with ht
    · exact .same (hnext.trans (if_pos ht))
    · exact .event (hnext.trans (if_neg ht)) (.same rfl)

/-! ## Content -/

/-- What stands in front of some markup is read, then the markup and what is behind it. -/
theorem reads_markup {r : Reader} {names' : List (List UInt8)} {markup : List UInt8} {e : Event} {es more : List Event}
    (hfront : ∃ k, Reads r es (inside names markup k))
    (hbehind : ∀ k, ∃ s m, (inside names markup k).next = .event e s ∧ Reads s more (inside names' after m)) :
    ∃ m, Reads r (es ++ e :: more) (inside names' after m) := by
  obtain ⟨k, hk⟩ := hfront
  obtain ⟨s, m, hs, hm⟩ := hbehind k
  exact ⟨m, hk.trans (.event hs hm)⟩

/-- **The events of some content are read one after the other**, up to the markup behind it. -/
theorem reads_content : ∀ (c : Content charset) {tail after : List UInt8} (_ : Follows tail after)
    (names : List (List UInt8)) (n : Nat),
    ∃ m, Reads (outside names (c.bytes ++ tail) n) c.events (inside names after m)
  | .last text, _, _, h, _, _ => reads_characters text h
  | .element before tag inner behind rest, tail, after, h, names, n => by
    have hclose (k : Nat) : ∃ s m, (inside (tag.name.bytes :: names)
        (tag.close behind ++ 62 :: (rest.bytes ++ tail)) k).next = .event .stop s ∧
          Reads s rest.events (inside names after m) := by
      obtain ⟨m, hm⟩ := reads_content rest h names (k + ((tag.close behind).length + 1))
      exact ⟨_, m, next_close tag behind _, hm⟩
    simp only [Content.bytes, Content.events, List.append_assoc, List.cons_append]
    refine reads_markup (reads_characters before (.markup _)) fun k => ?_
    obtain ⟨m, hm⟩ := reads_markup (reads_content inner (.markup _) (tag.name.bytes :: names)
      (k + (tag.bytes.length + 1))) hclose
    exact ⟨_, m, next_start tag _, hm⟩
  | .empty before tag rest, tail, after, h, names, n => by
    simp only [Content.bytes, Content.events, List.append_assoc, List.cons_append]
    refine reads_markup (reads_characters before (.markup _)) fun k => ?_
    obtain ⟨m, hm⟩ := reads_content rest h names (k + ((tag.bytes ++ [47]).length + 1))
    exact ⟨_, m, next_empty tag _, .event (next_isEmpty tag.name.bytes) hm⟩
  | .verbatim before bytes plain rest, tail, after, h, names, n => by
    simp only [Content.bytes, Content.events, List.append_assoc, List.cons_append]
    refine reads_markup (reads_characters before (.markup _)) fun k => ?_
    obtain ⟨l, hl⟩ := @next_section names k bytes plain (rest.bytes ++ tail)
    obtain ⟨m, hm⟩ := reads_content rest h names l
    exact ⟨_, m, hl, hm⟩
  | .aside before markup rest, tail, after, h, names, n => by
    simp only [Content.bytes, Content.events, List.append_assoc, List.cons_append]
    refine reads_markup (reads_characters before (.markup _)) fun k => ?_
    obtain ⟨l, hl⟩ := @next_aside names k markup (rest.bytes ++ tail)
    obtain ⟨m, hm⟩ := reads_content rest h names l
    exact ⟨_, m, hl, hm⟩

/-- Events up to the end of a document are all its events. -/
theorem scanFrom_of_reads {r s : Reader} {es : List Event} (h : Reads r es s) (hs : s.next = .done) (fuel : Nat)
    (hfuel : es.length < fuel) : (scanFrom fuel r).1.map Prod.snd = es ∧ (scanFrom fuel r).2 = true := by
  obtain ⟨fuel, rfl⟩ := Nat.exists_eq_succ_of_ne_zero (Nat.ne_of_gt (Nat.lt_of_le_of_lt (Nat.zero_le _) hfuel))
  induction h generalizing fuel with
  | same h =>
    rw [scanFrom, h, hs]
    exact ⟨rfl, rfl⟩
  | event h _ ih =>
    have hmore := Nat.lt_of_succ_lt_succ hfuel
    obtain ⟨fuel, rfl⟩ := Nat.exists_eq_succ_of_ne_zero (Nat.ne_of_gt (Nat.lt_of_le_of_lt (Nat.zero_le _) hmore))
    obtain ⟨hevents, hcomplete⟩ := ih hs fuel hmore
    rw [scanFrom, h]
    exact ⟨congrArg _ hevents, hcomplete⟩

end Reader

/-! ## Documents -/

theorem Characters.length_events_le (t : Characters charset) : t.events.length ≤ t.bytes.length := by
  unfold events
  split_ifs with h
  · exact Nat.zero_le _
  · refine List.length_pos_iff.2 fun ht => h ?_
    rw [← t.trim_bytes, ht]
    rfl

/-- Every event takes a byte. -/
theorem Content.length_events_le : ∀ c : Content charset, c.events.length ≤ c.bytes.length
  | last text => text.length_events_le
  | element before tag inner behind rest => by
    have := before.length_events_le
    have := inner.length_events_le
    have := rest.length_events_le
    simp only [events, bytes, List.length_append, List.length_cons]
    omega
  | empty before tag rest => by
    have := before.length_events_le
    have := rest.length_events_le
    simp only [events, bytes, List.length_append, List.length_cons]
    omega
  | verbatim before _ _ rest => by
    have := before.length_events_le
    have := rest.length_events_le
    simp only [events, bytes, List.length_append, List.length_cons]
    omega
  | aside before _ rest => by
    have := before.length_events_le
    have := rest.length_events_le
    simp only [events, bytes, List.length_append, List.length_cons]
    omega

/-- An event outside of all elements. -/
def Event.isOutside : Event → Bool
  | start _ _ => false
  | stop => false
  | _ => true

/-- What is read in front of the content of a document: nothing that opens an element, but the charset is known then. -/
theorem reads_front (d : Document charset) : ∃ front n, (∀ e ∈ front, e.isOutside = true) ∧
    front.foldl charsetAfter .utf8 = charset ∧ front.length + d.content.bytes.length ≤ d.bytes.length ∧
    Reader.Reads (.ofBytes d.bytes) front (.outside [] d.content.bytes n) := by
  cases hd : d.declaration with
  | none =>
    have hbytes : d.bytes = d.content.bytes := by
      rw [Document.bytes, hd]
      rfl
    refine ⟨[], 0, List.forall_mem_nil _, (d.undeclared hd).symm, by simp [hbytes], ?_⟩
    rw [hbytes]
    exact .same rfl
  | some declaration =>
    have hbytes : d.bytes = declaration.before.bytes ++
        60 :: (instructionBytes declaration.tag.bytes ++ 62 :: d.content.bytes) := by
      rw [Document.bytes, hd]
      simp [Declaration.bytes]
    obtain ⟨k, hk⟩ := @Reader.reads_characters charset [] _ _ 0 declaration.before
      (.markup (instructionBytes declaration.tag.bytes ++ 62 :: d.content.bytes))
    obtain ⟨declared, m, hdeclared, hcharset⟩ := @Reader.next_declaration charset [] k declaration d.content.bytes
    refine ⟨declaration.before.events ++ [.declaration declared], m, ?_, ?_, ?_, ?_⟩
    · intro e he
      obtain he | he := List.mem_append.1 he
      · unfold Characters.events at he
        split_ifs at he
        · cases he
        · rw [List.mem_singleton.1 he]
          rfl
      · rw [List.mem_singleton.1 he]
        rfl
    · have hbefore : declaration.before.events.foldl charsetAfter .utf8 = .utf8 := by
        unfold Characters.events
        split_ifs <;> rfl
      rw [List.foldl_append, hbefore]
      exact hcharset
    · have := declaration.before.length_events_le
      rw [hbytes]
      simp only [List.length_append, List.length_cons, List.length_nil]
      omega
    · rw [hbytes]
      exact hk.trans (.event hdeclared (.same rfl))

/-- **The events of a document** are those of its content, behind some outside of all elements. -/
theorem scan_document (d : Document charset) : ∃ front, (∀ e ∈ front, e.isOutside = true) ∧
    front.foldl charsetAfter .utf8 = charset ∧
    (scan d.bytes).1.map Prod.snd = front ++ d.content.events ∧ (scan d.bytes).2 = true := by
  obtain ⟨front, n, houtside, hcharset, hlength, hfront⟩ := reads_front d
  obtain ⟨m, hm⟩ := Reader.reads_content d.content .nothing [] n
  rw [List.append_nil] at hm
  refine ⟨front, houtside, hcharset, Reader.scanFrom_of_reads (hfront.trans hm) rfl _ ?_⟩
  have := d.content.length_events_le
  rw [List.length_append, maxEvents]
  omega

end RecordServer.Xml
