import RecordServer.Proofs.Input.Order

/-!
# Reading from within a document

A reader that starts within a document, in front of an element, reads on as the reader of the whole document does, as
long as no element around the first one ends. The places of the two differ in the offset and in the elements that are
open around (`Reader.within`); if an element is open that has been started on the way, the next event is the same
(`Reader.next_within`).

The position of the start of an element is that of its `<` or of the blanks in front of it, so that this start is the
first event from there on (`Reader.Of.next_ofBytes`). Every event opens an element, closes one or leaves them as they
are (`Reader.names_next`).
-/

namespace RecordServer.Xml

namespace Reader

/-- The place within a document for a place in what is behind an offset, with some elements open around it. -/
def within (offset : Nat) (around : List (List UInt8)) (r : Reader) : Reader :=
  { r with consumed := offset + r.consumed, names := r.names ++ around }

/-- The same for what comes of an event. -/
def Step.within (offset : Nat) (around : List (List UInt8)) : Step → Step
  | .done => .done
  | .malformed => .malformed
  | .event e r => .event e (r.within offset around)

variable {offset : Nat} {around : List (List UInt8)} {r s : Reader} {e : Event}

@[simp] theorem rest_within (r : Reader) : (r.within offset around).rest = r.rest := rfl

@[simp] theorem opened_within (r : Reader) : (r.within offset around).opened = r.opened := rfl

@[simp] theorem isEmpty_within (r : Reader) : (r.within offset around).isEmpty = r.isEmpty := rfl

@[simp] theorem names_within (r : Reader) : (r.within offset around).names = r.names ++ around := rfl

theorem skip_within (r : Reader) (count : Nat) :
    (r.within offset around).skip count = (r.skip count).within offset around := by
  simp [skip, within, Nat.add_assoc]

theorem untilClose_within (r : Reader) :
    (r.within offset around).untilClose = (r.untilClose.1, r.untilClose.2.within offset around) := by
  simp only [untilClose, skip_within, rest_within]

theorem readStart_within (r : Reader) :
    (r.within offset around).readStart = r.readStart.within offset around := by
  unfold readStart
  simp only [skip_within, rest_within]
  rw [apply_ite (Step.within offset around)]
  rfl

theorem readEnd_within (h : r.names ≠ []) : (r.within offset around).readEnd = r.readEnd.within offset around := by
  obtain ⟨opened, names, hnames⟩ := List.exists_cons_of_ne_nil h
  have hbehind : r.untilClose.2.names = opened :: names := hnames
  unfold readEnd
  simp only [untilClose_within, names_within, hbehind, List.cons_append]
  split_ifs <;> rfl

theorem readInstruction_within (r : Reader) :
    (r.within offset around).readInstruction = r.readInstruction.within offset around := by
  unfold readInstruction
  simp only [untilClose_within]
  split_ifs <;> rfl

theorem readUntil_within (isDone : List UInt8 → Bool) : ∀ (n : Nat) (bytes : List UInt8) (r : Reader),
    readUntil isDone n bytes (r.within offset around) =
      (readUntil isDone n bytes r).map fun found => (found.1, found.2.within offset around)
  | 0, _, _ => rfl
  | n + 1, bytes, r => by
    unfold readUntil
    simp only [untilClose_within, readUntil_within isDone n, rest_within]
    split_ifs <;> rfl

theorem readDoctype_within : ∀ (n depth : Nat) (r : Reader),
    readDoctype n depth (r.within offset around) = (readDoctype n depth r).map (within offset around)
  | 0, _, _ => rfl
  | _ + 1, 0, _ => rfl
  | n + 1, depth + 1, r => by
    unfold readDoctype
    simp only [untilClose_within, readDoctype_within n, rest_within]
    split_ifs <;> rfl

theorem readBang_within (r : Reader) : (r.within offset around).readBang = r.readBang.within offset around := by
  unfold readBang
  simp only [untilClose_within, rest_within, readUntil_within, readDoctype_within]
  split_ifs
  · cases readUntil _ _ _ _ <;> rfl
  · cases readUntil _ _ _ _ <;> rfl
  · cases readDoctype _ _ _ <;> rfl
  · rfl

/-- Markup is the same within a document, unless it is the end of an element around. -/
theorem readMarkup_within (h : r.names = [] → r.rest.head? ≠ some 47) :
    (r.within offset around).readMarkup = r.readMarkup.within offset around := by
  unfold readMarkup
  simp only [rest_within]
  split
  · rfl
  · rename_i rest hrest
    exact readEnd_within (r := { r with opened := false }) fun hnames => h hnames (by rw [hrest]; rfl)
  · exact readBang_within { r with opened := false }
  · exact readInstruction_within { r with opened := false }
  · exact readStart_within { r with opened := false }

/-- The next event is the same within a document, unless it is the end of an element around. -/
theorem next_within (h : r.names ≠ []) : (r.within offset around).next = r.next.within offset around := by
  have hdrop : (r.names ++ around).drop 1 = r.names.drop 1 ++ around :=
    List.drop_append_of_le_length (List.length_pos_iff.2 h)
  unfold next
  simp only [rest_within, isEmpty_within, opened_within, names_within, skip_within, hdrop]
  split_ifs
  · rfl
  · exact readMarkup_within fun hnames => absurd hnames h
  · rfl
  · exact readMarkup_within (r := { r.skip _ with opened := true }) fun hnames => absurd hnames h
  · rfl

/-- The start of an element is the same within a document. -/
theorem next_of_within_start {name raw : List UInt8} (h : (r.within offset around).next = .event (.start name raw) s) :
    ∃ t, r.next = .event (.start name raw) t ∧ s = t.within offset around := by
  -- the end of an element around would be no start
  have hmarkup : ∀ t : Reader, (t.within offset around).readMarkup = .event (.start name raw) s →
      t.readMarkup.within offset around = .event (.start name raw) s := by
    intro t ht
    rw [← readMarkup_within fun _ hclose => ?_, ht]
    obtain ⟨rest, hrest⟩ := List.head?_eq_some_iff.1 hclose
    unfold readMarkup at ht
    simp only [rest_within, hrest] at ht
    cases (ahead_readEnd ht).2
  have hnext : r.next.within offset around = .event (.start name raw) s := by
    unfold next at h ⊢
    simp only [rest_within, isEmpty_within, opened_within, skip_within] at h ⊢
    split_ifs at h ⊢
    · cases h
    · exact hmarkup _ h
    · exact hmarkup { r.skip _ with opened := true } h
    · cases h
  cases hr : r.next with
  | done =>
    rw [hr] at hnext
    cases hnext
  | malformed =>
    rw [hr] at hnext
    cases hnext
  | event e t =>
    rw [hr] at hnext
    cases hnext
    exact ⟨t, rfl, rfl⟩

/-! ## Places in a document -/

/-- A place in a document with some bytes: behind `<` if this has been read and something follows. -/
structure Of (bytes : List UInt8) (r : Reader) : Prop where
  rest : r.rest = bytes.drop r.consumed
  le : r.consumed ≤ bytes.length
  opened : r.opened = true → r.rest ≠ [] → 0 < r.consumed ∧ bytes.drop (r.consumed - 1) = 60 :: r.rest

variable {bytes : List UInt8}

/-- What stands behind the bytes in front of a certain byte begins with it, if there is more. -/
theorem drop_takeWhile_ne (x : UInt8) : ∀ bytes : List UInt8, bytes.drop ((bytes.takeWhile (· ≠ x)).length + 1) ≠ [] →
    bytes.drop (bytes.takeWhile (· ≠ x)).length = x :: bytes.drop ((bytes.takeWhile (· ≠ x)).length + 1)
  | [], h => absurd rfl h
  | b :: rest, h => by
    by_cases hb : b = x
    · simp [hb]
    · have hfirst : (b :: rest).takeWhile (· ≠ x) = b :: rest.takeWhile (· ≠ x) := by simp [hb]
      rw [hfirst] at h ⊢
      exact drop_takeWhile_ne x rest h

theorem of_ofBytes (bytes : List UInt8) : (ofBytes bytes).Of bytes := ⟨rfl, Nat.zero_le _, nofun⟩

theorem Of.ahead (h : r.Of bytes) (ha : ({ r with opened := false } : Reader).Ahead s) : s.Of bytes := by
  obtain ⟨⟨count, hrest, hconsumed⟩, hopened⟩ := ha
  have hlength : r.rest.length = bytes.length - r.consumed := by rw [h.rest, List.length_drop]
  refine ⟨?_, ?_, fun ho => absurd (ho.symm.trans hopened) (by simp)⟩
  · rw [hrest, h.rest, List.drop_drop, hconsumed]
    by_cases hle : count ≤ r.rest.length
    · rw [List.length_take, Nat.min_eq_left hle]
    · rw [List.drop_eq_nil_of_le (by omega), List.drop_eq_nil_of_le]
      simp only [List.length_take]
      omega
  · rw [hconsumed, List.length_take]
    have := h.le
    simp only
    omega

/-- The place behind the text in front of the next markup. -/
theorem Of.text (h : r.Of bytes) :
    ({ r.skip ((r.rest.takeWhile (· ≠ 60)).length + 1) with opened := true } : Reader).Of bytes := by
  have hskip := h.ahead (s := { r.skip ((r.rest.takeWhile (· ≠ 60)).length + 1) with opened := false })
    ⟨⟨_, rfl, rfl⟩, rfl⟩
  refine ⟨hskip.rest, hskip.le, fun _ hne => ?_⟩
  have hbehind := drop_takeWhile_ne 60 r.rest hne
  have hlength : (r.rest.takeWhile (· ≠ 60)).length < r.rest.length := by
    refine Nat.lt_of_not_le fun hle => ?_
    rw [List.drop_eq_nil_of_le hle] at hbehind
    cases hbehind
  have hconsumed : (r.skip ((r.rest.takeWhile (· ≠ 60)).length + 1)).consumed =
      r.consumed + (r.rest.takeWhile (· ≠ 60)).length + 1 := by
    simp only [skip, List.length_take]
    omega
  simp only [hconsumed, Nat.add_sub_cancel]
  exact ⟨Nat.succ_pos _, by rw [← List.drop_drop, ← h.rest, hbehind]; rfl⟩

/-- Every event leads from one place of a document to another. -/
theorem Of.next (h : r.Of bytes) (hn : r.next = .event e s) : s.Of bytes := by
  unfold Reader.next at hn
  split_ifs at hn with hempty hopened hrest
  · cases hn
    exact ⟨h.rest, h.le, h.opened⟩
  · exact h.ahead (ahead_readMarkup hn).1
  · simp only at hn
    split_ifs at hn
    · exact h.text.ahead (ahead_readMarkup hn).1
    · cases hn
      exact h.text

/-- The first event behind `<`. -/
theorem next_ofBytes_bracket (rest : List UInt8) :
    (ofBytes (60 :: rest)).next = (⟨rest, 1, true, false, []⟩ : Reader).next := by
  simp [next, ofBytes, skip, trim]

/-- **The start of an element is the first event behind its position.** -/
theorem Of.next_ofBytes (h : r.Of bytes) {name raw : List UInt8} (hn : r.next = .event (.start name raw) s) :
    ∃ t, (ofBytes (bytes.drop r.position)).next = .event (.start name raw) t ∧ s = t.within r.position r.names := by
  obtain ⟨rest, consumed, opened, isEmpty, names⟩ := r
  cases isEmpty with
  | true => cases hn
  | false =>
    cases opened with
    | false =>
      obtain rfl : rest = bytes.drop consumed := h.rest
      exact @next_of_within_start consumed names (ofBytes (bytes.drop consumed)) s name raw hn
    | true =>
      have hne : rest ≠ [] := by
        rintro rfl
        cases hn
      obtain ⟨hpos, hbehind⟩ := h.opened rfl hne
      obtain ⟨before, rfl⟩ := Nat.exists_eq_succ_of_ne_zero (Nat.ne_of_gt hpos)
      have hposition : position ⟨rest, before + 1, true, false, names⟩ = before := rfl
      rw [hposition, show bytes.drop before = 60 :: rest from hbehind, next_ofBytes_bracket]
      exact @next_of_within_start before names ⟨rest, 1, true, false, []⟩ s name raw hn

/-! ## Open elements -/

theorem names_readUntil {isDone : List UInt8 → Bool} : ∀ {n : Nat} {bytes found : List UInt8} {r s : Reader},
    readUntil isDone n bytes r = some (found, s) → s.names = r.names
  | 0, _, _, _, _, h => by cases h
  | n + 1, bytes, found, r, s, h => by
    unfold readUntil at h
    split_ifs at h
    · cases h
      rfl
    · exact names_readUntil (r := r.untilClose.2) h

theorem names_readDoctype : ∀ {n depth : Nat} {r s : Reader}, readDoctype n depth r = some s → s.names = r.names
  | 0, _, _, _, h => by cases h
  | _ + 1, 0, _, _, h => by
    cases h
    rfl
  | n + 1, depth + 1, r, s, h => by
    unfold readDoctype at h
    split_ifs at h
    exact names_readDoctype (r := r.untilClose.2) h

end Reader

/-- How many elements are open behind an event, if so many are open before. -/
def Event.depth (count : Nat) : Event → Nat
  | .start _ _ => count + 1
  | .stop => count - 1
  | _ => count

namespace Reader

variable {r s : Reader} {e : Event}

theorem names_readBang (h : r.readBang = .event e s) : s.names.length = e.depth r.names.length := by
  unfold readBang at h
  simp only at h
  split_ifs at h
  · split at h
    · rename_i found
      cases h
      exact congrArg List.length (names_readUntil (r := r.untilClose.2) found)
    · cases h
  · split at h
    · rename_i found
      cases h
      exact congrArg List.length (names_readUntil (r := r.untilClose.2) found)
    · cases h
  · split at h
    · rename_i found
      cases h
      exact congrArg List.length (names_readDoctype (r := r.untilClose.2) found)
    · cases h

theorem names_readEnd (h : r.readEnd = .event e s) : s.names.length = e.depth r.names.length := by
  unfold readEnd at h
  cases hnames : r.names with
  | nil =>
    have hbehind : r.untilClose.2.names = [] := hnames
    simp only [hbehind] at h
    cases h
  | cons opened names =>
    have hbehind : r.untilClose.2.names = opened :: names := hnames
    simp only [hbehind] at h
    split_ifs at h
    all_goals (cases h; rfl)

theorem names_readMarkup (h : r.readMarkup = .event e s) : s.names.length = e.depth r.names.length := by
  unfold readMarkup at h
  simp only at h
  split at h
  · cases h
  · exact names_readEnd (r := { r with opened := false }) h
  · exact names_readBang (r := { r with opened := false }) h
  · unfold readInstruction at h
    simp only at h
    split_ifs at h
    all_goals (cases h; rfl)
  · unfold readStart at h
    simp only at h
    split_ifs at h
    all_goals (cases h; rfl)

/-- The number of open elements behind an event. -/
theorem names_next (h : r.next = .event e s) : s.names.length = e.depth r.names.length := by
  unfold next at h
  split_ifs at h
  · cases h
    exact List.length_drop
  · exact names_readMarkup h
  · simp only at h
    split_ifs at h
    · exact names_readMarkup (r := { r.skip _ with opened := true }) h
    · cases h
      rfl

end Reader

end RecordServer.Xml
