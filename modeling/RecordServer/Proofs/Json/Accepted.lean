import RecordServer.Proofs.Json.Scan
import RecordServer.Proofs.Outcome

/-!
# What is found in any file

Nothing is read of the objects of an array but their brackets and strings. So what is found in a file need not be JSON;
but it begins with braces, and blanks, commas and the brackets of one array are all there is around it
(`arrayOf_of_scan`). A byte that is read is part of an element or of what surrounds them (`State.remaining_step`).

The brackets that are open are counted up to the length of the file at most (`State.depth_le_length`).
-/

namespace RecordServer.Json

variable {bytes : List UInt8} {spans : List Span}

/-- What begins with a brace. -/
def Braced (element : List UInt8) : Prop := element.head? = some 123

/-- What is not outside of elements is within one. -/
theorem eq_within_of_not_isOutside {p : Progress} (h : ¬p.isOutside = true) :
    ∃ start depth inString escaped, p = .within start depth inString escaped := by
  cases p with
  | within => exact ⟨_, _, _, _, rfl⟩
  | _ => exact absurd rfl h

namespace State

/-! ## What is left of an array -/

/-- What is left of an array to a reader, with the spans of the elements which it has not found yet. -/
inductive Remaining : Progress → Nat → List UInt8 → List Span → Prop
  | before {offset : Nat} {lead rest : List UInt8} {spans : List Span} (hl : Only isSpace lead)
    (h : Remaining (.expecting true) (offset + lead.length + 1) rest spans) :
    Remaining .before offset (lead ++ 91 :: rest) spans
  | empty {offset : Nat} {inner trail : List UInt8} (hi : Only isSpace inner) (ht : Only isSpace trail) :
    Remaining (.expecting true) offset (inner ++ 93 :: trail) []
  | element {first : Bool} {offset start : Nat} {inner e rest : List UInt8} {spans : List Span}
    (hi : Only isSpace inner) (he : Braced e) (hstart : start = offset + inner.length)
    (h : Following isSpace Braced (start + e.length) rest spans) :
    Remaining (.expecting first) offset (inner ++ (e ++ rest)) ((start, start + e.length) :: spans)
  | within {start depth offset : Nat} {inString escaped : Bool} {e rest : List UInt8} {spans : List Span}
    (h : Following isSpace Braced (offset + e.length) rest spans) :
    Remaining (.within start depth inString escaped) offset (e ++ rest) ((start, offset + e.length) :: spans)
  | behind {offset : Nat} {bytes : List UInt8} {spans : List Span} (h : Following isSpace Braced offset bytes spans) :
    Remaining .behind offset bytes spans
  | closed {offset : Nat} {bytes : List UInt8} (h : Only isSpace bytes) : Remaining .closed offset bytes []

/-- A blank more behind an element. -/
theorem following_blank {offset : Nat} {b : UInt8} (hb : isSpace b = true)
    (h : Following isSpace Braced (offset + 1) bytes spans) : Following isSpace Braced offset (b :: bytes) spans := by
  cases h with
  | close hbefore hbehind => exact .close (.cons hb hbefore) hbehind
  | next hbefore hbehind he hstart h =>
    refine .next (.cons hb hbefore) hbehind he ?_ h
    rw [hstart, List.length_cons]
    omega

/-- A blank more outside of elements. -/
theorem remaining_blank {p : Progress} (hp : p.isOutside = true) {offset : Nat} {b : UInt8} (hb : isSpace b = true)
    (h : Remaining p (offset + 1) bytes spans) : Remaining p offset (b :: bytes) spans := by
  cases h with
  | @before _ lead rest _ hl h =>
    have hplace : offset + 1 + lead.length + 1 = offset + (b :: lead).length + 1 := by
      rw [List.length_cons]
      omega
    exact .before (.cons hb hl) (hplace ▸ h)
  | empty hi ht => exact .empty (.cons hb hi) ht
  | element hi he hstart h =>
    refine .element (.cons hb hi) he ?_ h
    rw [hstart, List.length_cons]
    omega
  | within h => cases hp
  | behind h => exact .behind (following_blank hb h)
  | closed h => exact .closed (.cons hb h)

/-- A byte more that belongs to the array itself, or begins an element. -/
theorem remaining_outside {p q : Progress} {found : List Span} {offset : Nat} {b : UInt8}
    (hstep : outsideStep found offset b p = .ok q) (h : Remaining q (offset + 1) bytes spans) :
    Remaining p offset (b :: bytes) spans := by
  cases p with
  | before =>
    simp only [outsideStep] at hstep
    split_ifs at hstep with hb
    cases hstep
    subst hb
    exact @Remaining.before _ [] _ _ (only_nil _) h
  | expecting first =>
    simp only [outsideStep] at hstep
    split_ifs at hstep with hb hend
    · -- the brace is the first byte of an element, of which the others are left
      cases hstep
      subst hb
      cases h with
      | @within _ _ _ _ _ e rest spans h =>
        have hplace : offset + 1 + e.length = offset + (123 :: e).length := by
          rw [List.length_cons]
          omega
        exact hplace ▸ @Remaining.element _ _ _ [] (123 :: e) _ _ (only_nil _) rfl rfl (hplace ▸ h)
    · cases hstep
      obtain ⟨rfl, rfl⟩ := hend
      cases h with
      | closed h => exact @Remaining.empty _ [] _ (only_nil _) h
  | behind =>
    simp only [outsideStep] at hstep
    split_ifs at hstep with hb hend
    · cases hstep
      subst hb
      cases h with
      | @element _ _ start inner e rest spans hi he hstart h =>
        exact .behind (@Following.next _ _ _ _ [] _ _ _ _ (only_nil _) hi he hstart h)
    · cases hstep
      subst hend
      cases h with
      | closed h => exact .behind (@Following.close _ _ _ [] _ (only_nil _) h)
  | within => cases hstep
  | closed => cases hstep

/-- Within an element a byte either ends it or not, and opens one bracket at most. -/
theorem insideStep_cases (start depth : Nat) (inString escaped : Bool) (offset : Nat) (b : UInt8) :
    (∃ depth' inString' escaped', depth' ≤ depth + 1 ∧ insideStep start depth inString escaped offset b =
      (.within start depth' inString' escaped', none)) ∨
    insideStep start depth inString escaped offset b = (.behind, some (start, offset + 1)) := by
  have stays {depth' : Nat} (inString' escaped' : Bool) (hdepth : depth' ≤ depth + 1) :
      ∃ d s e, d ≤ depth + 1 ∧ (Progress.within start depth' inString' escaped', (none : Option Span)) =
        (.within start d s e, none) := ⟨_, _, _, hdepth, rfl⟩
  unfold insideStep
  split_ifs
  · exact .inl (stays _ _ (Nat.le_succ _))
  · exact .inl (stays _ _ (Nat.le_succ _))
  · exact .inl (stays _ _ (Nat.le_succ _))
  · exact .inl (stays _ _ (Nat.le_succ _))
  · exact .inl (stays _ _ (Nat.le_refl _))
  · exact .inr rfl
  · exact .inl (stays _ _ (by omega))
  · exact .inl (stays _ _ (Nat.le_succ _))

/-- Outside of elements a byte is a blank, or it goes on with the array. -/
theorem step_outside {s t : State} {b : UInt8} (hp : s.progress.isOutside = true) (h : s.step b = .ok t) :
    t.offset = s.offset + 1 ∧ t.spans = s.spans ∧ (isSpace b = true ∧ t.progress = s.progress ∨
      outsideStep s.spans s.offset b s.progress = .ok t.progress) := by
  unfold step at h
  split at h
  · rename_i hprogress
    rw [hprogress] at hp
    cases hp
  · split at h
    · cases h
      exact ⟨rfl, rfl, .inl ⟨‹_›, rfl⟩⟩
    · split at h
      · cases h
      · cases h
        exact ⟨rfl, rfl, .inr ‹_›⟩

/-- Within an element, a byte does what `insideStep` says. -/
theorem step_within {s t : State} {b : UInt8} {start depth : Nat} {inString escaped : Bool}
    (hp : s.progress = .within start depth inString escaped) (h : s.step b = .ok t) : t.offset = s.offset + 1 ∧
      t.progress = (insideStep start depth inString escaped s.offset b).1 ∧
      t.spans = (insideStep start depth inString escaped s.offset b).2.toList ++ s.spans := by
  unfold step at h
  rw [hp] at h
  cases h
  exact ⟨rfl, rfl, rfl⟩

/-- **A byte that is read is part of what was left**, as is an element that ends with it. -/
theorem remaining_step {s t : State} {b : UInt8} (hstep : s.step b = .ok t)
    (h : Remaining t.progress t.offset bytes spans) : ∃ found : List Span,
      t.spans = found.reverse ++ s.spans ∧ Remaining s.progress s.offset (b :: bytes) (found ++ spans) := by
  by_cases hp : s.progress.isOutside = true
  · obtain ⟨hoffset, hspans, hgo⟩ := step_outside hp hstep
    rw [hoffset] at h
    refine ⟨[], hspans, ?_⟩
    obtain ⟨hb, hprogress⟩ | hgo := hgo
    · exact remaining_blank hp hb (hprogress ▸ h)
    · exact remaining_outside hgo h
  · obtain ⟨start, depth, inString, escaped, hp⟩ := eq_within_of_not_isOutside hp
    obtain ⟨hoffset, hprogress, hspans⟩ := step_within hp hstep
    rw [hprogress, hoffset] at h
    rw [hp]
    obtain ⟨depth', inString', escaped', -, hinside⟩ | hinside :=
      insideStep_cases start depth inString escaped s.offset b
    · rw [hinside] at h hspans
      refine ⟨[], hspans, ?_⟩
      cases h with
      | @within _ _ _ _ _ e rest spans h =>
        have hplace : s.offset + 1 + e.length = s.offset + (b :: e).length := by
          rw [List.length_cons]
          omega
        exact hplace ▸ Remaining.within (e := b :: e) (hplace ▸ h)
    · rw [hinside] at h hspans
      refine ⟨[(start, s.offset + 1)], hspans, ?_⟩
      cases h with
      | behind h => exact .within (e := [b]) h

/-- The first byte has been read, and then the others. -/
theorem step_of_feed {s t : State} {b : UInt8} {bytes : List UInt8} (h : s.feed (b :: bytes) = .ok t) :
    ∃ m, s.step b = .ok m ∧ m.feed bytes = .ok t := by
  rw [feed] at h
  cases hstep : s.step b with
  | error cause =>
    rw [hstep] at h
    cases h
  | ok m =>
    rw [hstep] at h
    exact ⟨m, rfl, h⟩

/-- All bytes that are read are part of what was left, as are the elements which are found. -/
theorem remaining_feed : ∀ {bytes : List UInt8} {s t : State}, s.feed bytes = .ok t →
    Remaining t.progress t.offset [] spans → ∃ found : List Span,
      t.spans = found.reverse ++ s.spans ∧ Remaining s.progress s.offset bytes (found ++ spans)
  | [], s, t, hfeed, h => by
    cases hfeed
    exact ⟨[], rfl, h⟩
  | b :: bytes, s, t, hfeed, h => by
    -- what is left is known at the end, so the other bytes are put in front of it first
    obtain ⟨m, hstep, hfeed⟩ := step_of_feed hfeed
    obtain ⟨more, hmore, hrest⟩ := remaining_feed hfeed h
    obtain ⟨found, hfound, hall⟩ := remaining_step hstep hrest
    exact ⟨found ++ more, by rw [hmore, hfound, List.reverse_append, List.append_assoc], by rwa [List.append_assoc]⟩

/-- What is left at the beginning of a file is an array. -/
theorem Remaining.arrayOf (h : Remaining .before 0 bytes spans) : ArrayOf isSpace Braced bytes spans := by
  cases h with
  | @before _ lead rest _ hl h =>
    cases h with
    | empty hi ht => exact .empty hl hi ht
    | element hi he hstart h => exact .filled hl hi he (by rw [hstart, Nat.zero_add]) h

/-! ## Open brackets -/

/-- In an element, no more brackets are open than bytes of it have been read. -/
def Nested (s : State) : Prop := ∀ start depth inString escaped,
  s.progress = .within start depth inString escaped → start + depth ≤ s.offset

/-- An element begins with one bracket. -/
theorem begins_of_outsideStep {p : Progress} {found : List Span} {offset start depth : Nat} {b : UInt8}
    {inString escaped : Bool} (h : outsideStep found offset b p = .ok (.within start depth inString escaped)) :
    start = offset ∧ depth = 1 := by
  cases p with
  | expecting first =>
    simp only [outsideStep] at h
    split_ifs at h
    · cases h
      exact ⟨rfl, rfl⟩
    · cases h
  | before | behind =>
    simp only [outsideStep] at h
    split_ifs at h
    all_goals cases h
  | within | closed => cases h

/-- A byte opens one bracket at most. -/
theorem Nested.step {s t : State} {b : UInt8} (h : s.Nested) (hstep : s.step b = .ok t) : t.Nested := by
  intro start depth inString escaped ht
  by_cases hp : s.progress.isOutside = true
  · obtain ⟨hoffset, -, ⟨-, hprogress⟩ | hgo⟩ := step_outside hp hstep
    · rw [← hprogress, ht] at hp
      cases hp
    · rw [ht] at hgo
      obtain ⟨rfl, rfl⟩ := begins_of_outsideStep hgo
      exact Nat.le_of_eq hoffset.symm
  · obtain ⟨first, before, inString', escaped', hp⟩ := eq_within_of_not_isOutside hp
    obtain ⟨hoffset, hprogress, -⟩ := step_within hp hstep
    obtain ⟨depth', inString', escaped', hdepth, hinside⟩ | hinside :=
      insideStep_cases first before inString' escaped' s.offset b
    · rw [hinside, ht] at hprogress
      cases hprogress
      have := h _ _ _ _ hp
      omega
    · rw [hinside, ht] at hprogress
      cases hprogress

/-- The same for many bytes. -/
theorem nested_feed : ∀ {bytes : List UInt8} {s t : State}, s.Nested → s.feed bytes = .ok t → t.Nested
  | [], _, _, h, hfeed => by
    cases hfeed
    exact h
  | b :: bytes, s, t, h, hfeed => by
    obtain ⟨m, hstep, hfeed⟩ := step_of_feed hfeed
    exact nested_feed (h.step hstep) hfeed

/-- The offset counts the bytes that have been read. -/
theorem offset_feed : ∀ {bytes : List UInt8} {s t : State}, s.feed bytes = .ok t → t.offset = s.offset + bytes.length
  | [], _, _, hfeed => by
    cases hfeed
    rfl
  | b :: bytes, s, t, hfeed => by
    obtain ⟨m, hstep, hfeed⟩ := step_of_feed hfeed
    have hoffset : m.offset = s.offset + 1 := by
      by_cases hp : s.progress.isOutside = true
      · exact (step_outside hp hstep).1
      · obtain ⟨_, _, _, _, hp⟩ := eq_within_of_not_isOutside hp
        exact (step_within hp hstep).1
    rw [offset_feed hfeed, hoffset, List.length_cons, Nat.add_assoc, Nat.add_comm 1]

/-- **Brackets are counted up to the length of the file at most.** -/
theorem depth_le_length {t : State} {first depth : Nat} {inString escaped : Bool} (hfeed : start.feed bytes = .ok t)
    (ht : t.progress = .within first depth inString escaped) : depth ≤ bytes.length := by
  have hnested := nested_feed (s := start) nofun hfeed first depth inString escaped ht
  rw [offset_feed hfeed, show start.offset = 0 from rfl] at hnested
  omega

end State

/-! ## Files -/

/-- **What is found in a file are the elements of an array**, as far as that can be seen from outside of them. -/
theorem arrayOf_of_scan {buffers : List (List UInt8)} (hbuffers : ∀ b ∈ buffers, b ≠ [])
    (h : scan buffers = .ok spans) : ArrayOf isSpace Braced buffers.flatten spans := by
  rw [scan, State.scanFrom_flatten hbuffers] at h
  obtain ⟨t, hfeed, hfinish⟩ := ok_of_bind h
  unfold State.finish at hfinish
  split_ifs at hfinish with hclosed
  obtain rfl := Except.ok.inj hfinish
  have hend : State.Remaining t.progress t.offset [] [] := hclosed ▸ .closed (only_nil _)
  obtain ⟨found, hfound, hall⟩ := State.remaining_feed hfeed hend
  rw [hfound, List.reverse_append, List.reverse_reverse]
  rw [List.append_nil] at hall
  exact hall.arrayOf

end RecordServer.Json
