import Mathlib.Tactic.SplitIfs
import RecordServer.Input.Basic

/-!
# The order of records

Reading a file meets its records at strictly ascending positions, whatever the layout of the file.

* A row takes at least one byte (`Csv.lt_count_of_row?`), so that rows have ascending positions (`Csv.rows_ascending`).
* No event of a document stands before the one read last, and the start of an element stands in front of all that
  follow (`Xml.Reader.next_position`); hence the elements that are selected have ascending positions
  (`Xml.select_ascending`).
* The elements of an array are numbered.

`Input.records_ascending` and `Input.positions_ascending` say so of an input, also if some records cannot be read.
-/

namespace RecordServer

/-- Positions each of which is greater than those before it. -/
abbrev Ascending (positions : List Nat) : Prop := positions.Pairwise (· < ·)

/-- What has been read of some items, without the faults. -/
def reached {ε α : Type} (items : List (Except ε α)) : List α := items.filterMap Except.toOption

@[simp] theorem reached_nil {ε α : Type} : reached ([] : List (Except ε α)) = [] := rfl

@[simp] theorem reached_ok {ε α : Type} (a : α) (items : List (Except ε α)) :
    reached (.ok a :: items) = a :: reached items := rfl

@[simp] theorem reached_error {ε α : Type} (e : ε) (items : List (Except ε α)) :
    reached (.error e :: items) = reached items := rfl

theorem reached_of_all {ε α : Type} (items : List α) : reached (items.map (.ok : α → Except ε α)) = items := by
  induction items with
  | nil => rfl
  | cons item items ih => simp [ih]

/-! ## Tables -/

namespace Csv

/-- Reading a field of a row takes at least one byte if there is one. -/
theorem lt_count_readFields (delimiter : UInt8) : ∀ (phase : Phase) (field : List UInt8) (fields : Row) (count : Nat)
    (b : UInt8) (rest : List UInt8), count < (readFields delimiter phase field fields count (b :: rest)).2 := by
  intro phase field fields count b rest
  have le : ∀ (bytes : List UInt8) (phase : Phase) (field : List UInt8) (fields : Row) (count : Nat),
      count ≤ (readFields delimiter phase field fields count bytes).2 := by
    intro bytes
    induction bytes with
    | nil => intro phase field fields count; simp [readFields]
    | cons b rest ih =>
      intro phase field fields count
      unfold readFields
      split_ifs <;> first | exact Nat.le_trans (Nat.le_succ _) (ih ..) | simp
  unfold readFields
  split_ifs <;> first | exact le rest .. | simp

/-- A row takes at least one byte. -/
theorem lt_count_of_row? {delimiter : UInt8} {bytes : List UInt8} {row : Row} {count : Nat}
    (h : row? delimiter bytes = some (row, count)) : 0 < count := by
  unfold row? at h
  cases hd : bytes.dropWhile isLineEnd with
  | nil => simp [hd] at h
  | cons b rest =>
    simp only [hd, Option.some.injEq] at h
    have := lt_count_readFields delimiter .start [] [] (bytes.takeWhile isLineEnd).length b rest
    rw [h] at this
    exact Nat.lt_of_le_of_lt (Nat.zero_le _) this

/-- So does a row behind a mark. -/
theorem lt_count_of_markedRow? {delimiter : UInt8} {bytes : List UInt8} {row : Row} {count : Nat}
    (h : markedRow? delimiter bytes = some (row, count)) : 0 < count := by
  unfold markedRow? at h
  split at h
  · obtain ⟨r, -, hr⟩ := Option.map_eq_some_iff.1 h
    obtain ⟨-, rfl⟩ := Prod.mk.inj hr
    exact Nat.lt_of_lt_of_le (by decide) (Nat.le_add_right _ _)
  · exact lt_count_of_row? h

/-- Rows behind a position stand at ascending positions from there on. -/
theorem rowsFrom_ascending (delimiter : UInt8) : ∀ (n position : Nat) (bytes : List UInt8),
    (∀ row ∈ rowsFrom delimiter n position bytes, position ≤ row.1) ∧
      Ascending ((rowsFrom delimiter n position bytes).map Prod.fst)
  | 0, _, _ => by simp [rowsFrom]
  | n + 1, position, bytes => by
    unfold rowsFrom
    cases hr : row? delimiter bytes with
    | none => simp
    | some r =>
      obtain ⟨row, count⟩ := r
      have hpos := lt_count_of_row? hr
      obtain ⟨hle, hasc⟩ := rowsFrom_ascending delimiter n (position + count) (bytes.drop count)
      simp only [List.mem_cons, forall_eq_or_imp, List.map_cons, List.pairwise_cons, List.mem_map]
      refine ⟨⟨Nat.le_refl _, fun row hrow => ?_⟩, ?_, hasc⟩
      · have := hle row hrow; omega
      · rintro _ ⟨row, hrow, rfl⟩
        have := hle row hrow; omega

/-- The rows of a table stand at ascending positions. -/
theorem rows_ascending (delimiter : UInt8) (bytes : List UInt8) : Ascending ((rows delimiter bytes).map Prod.fst) := by
  unfold rows
  cases hm : markedRow? delimiter bytes with
  | none => simp
  | some r =>
    obtain ⟨row, count⟩ := r
    have hpos := lt_count_of_markedRow? hm
    obtain ⟨hle, hasc⟩ := rowsFrom_ascending delimiter bytes.length count (bytes.drop count)
    simp only [List.map_cons, List.pairwise_cons, List.mem_map]
    refine ⟨?_, hasc⟩
    rintro _ ⟨row, hrow, rfl⟩
    have := hle row hrow
    omega

end Csv

/-! ## Documents -/

namespace Xml

namespace Reader

/-- The second place is some bytes behind the first, and as much of the next markup has been read. -/
def Ahead (r s : Reader) : Prop :=
  (∃ count, s.rest = r.rest.drop count ∧ s.consumed = r.consumed + (r.rest.take count).length) ∧ s.opened = r.opened

theorem Ahead.refl (r : Reader) : r.Ahead r := ⟨⟨0, by simp⟩, rfl⟩

theorem Ahead.trans {r s t : Reader} (h : r.Ahead s) (h' : s.Ahead t) : r.Ahead t := by
  obtain ⟨⟨count, hrest, hconsumed⟩, hopened⟩ := h
  obtain ⟨⟨more, hrest', hconsumed'⟩, hopened'⟩ := h'
  refine ⟨⟨count + more, by rw [hrest', hrest, List.drop_drop], ?_⟩, hopened'.trans hopened⟩
  rw [hconsumed', hconsumed, hrest]
  simp only [List.length_take, List.length_drop]
  omega

theorem Ahead.le {r s : Reader} (h : r.Ahead s) : r.consumed ≤ s.consumed := by
  obtain ⟨⟨count, -, hconsumed⟩, -⟩ := h
  omega

theorem ahead_skip (r : Reader) (count : Nat) : r.Ahead (r.skip count) := ⟨⟨count, rfl, rfl⟩, rfl⟩

theorem ahead_untilClose (r : Reader) : r.Ahead r.untilClose.2 := ahead_skip r _

theorem ahead_readUntil {isDone : List UInt8 → Bool} : ∀ {n : Nat} {bytes found : List UInt8} {r s : Reader},
    readUntil isDone n bytes r = some (found, s) → r.Ahead s
  | 0, _, _, _, _, h => by simp [readUntil] at h
  | n + 1, bytes, found, r, s, h => by
    unfold readUntil at h
    split_ifs at h
    · cases h; exact .refl r
    · exact (ahead_untilClose r).trans (ahead_readUntil h)

theorem ahead_readDoctype : ∀ {n depth : Nat} {r s : Reader}, readDoctype n depth r = some s → r.Ahead s
  | 0, _, _, _, h => by simp [readDoctype] at h
  | _ + 1, 0, r, s, h => by simp only [readDoctype, Option.some.injEq] at h; exact h ▸ .refl r
  | n + 1, depth + 1, r, s, h => by
    unfold readDoctype at h
    split_ifs at h
    exact (ahead_untilClose r).trans (ahead_readDoctype h)

theorem ahead_readEnd {r s : Reader} {e : Event} (h : r.readEnd = .event e s) : r.Ahead s ∧ e = .stop := by
  unfold readEnd at h
  cases hn : r.untilClose.2.names with
  | nil => simp [hn] at h
  | cons opened names =>
    simp only [hn] at h
    split_ifs at h
    all_goals (cases h; exact ⟨ahead_untilClose r, rfl⟩)

theorem ahead_readInstruction {r s : Reader} {e : Event} (h : r.readInstruction = .event e s) :
    r.Ahead s ∧ ∀ name raw, e ≠ .start name raw := by
  unfold readInstruction at h
  simp only at h
  split_ifs at h
  all_goals (cases h; exact ⟨ahead_untilClose r, nofun⟩)

theorem ahead_readBang {r s : Reader} {e : Event} (h : r.readBang = .event e s) :
    r.Ahead s ∧ ∀ name raw, e ≠ .start name raw := by
  unfold readBang at h
  simp only at h
  split_ifs at h
  · split at h
    · rename_i found
      cases h; exact ⟨(ahead_untilClose r).trans (ahead_readUntil found), nofun⟩
    · cases h
  · split at h
    · rename_i found
      cases h; exact ⟨(ahead_untilClose r).trans (ahead_readUntil found), nofun⟩
    · cases h
  · split at h
    · rename_i found
      cases h; exact ⟨(ahead_untilClose r).trans (ahead_readDoctype found), nofun⟩
    · cases h

/-- A start tag takes a byte at least. -/
theorem ahead_readStart {r s : Reader} {e : Event} (hr : r.rest ≠ []) (h : r.readStart = .event e s) :
    r.Ahead s ∧ r.consumed < s.consumed := by
  have hlt : r.consumed < (r.skip (tagLength none r.rest + 1)).consumed := by
    have := List.length_pos_iff.2 hr
    simp only [skip, List.length_take]
    omega
  unfold readStart at h
  simp only at h
  split_ifs at h
  all_goals (cases h; exact ⟨ahead_skip r _, hlt⟩)

/-- Markup is read onwards, and the start of an element takes a byte at least. -/
theorem ahead_readMarkup {r s : Reader} {e : Event} (h : r.readMarkup = .event e s) :
    ({ r with opened := false } : Reader).Ahead s ∧ ∀ name raw, e = .start name raw → r.consumed < s.consumed := by
  unfold readMarkup at h
  simp only at h
  split at h
  · cases h
  · obtain ⟨ha, rfl⟩ := ahead_readEnd h
    exact ⟨ha, nofun⟩
  · obtain ⟨ha, hne⟩ := ahead_readBang h
    exact ⟨ha, fun name raw he => absurd he (hne name raw)⟩
  · obtain ⟨ha, hne⟩ := ahead_readInstruction h
    exact ⟨ha, fun name raw he => absurd he (hne name raw)⟩
  · rename_i hnil _ _ _
    obtain ⟨ha, hlt⟩ := ahead_readStart (r := { r with opened := false }) (fun e => hnil e) h
    exact ⟨ha, fun _ _ _ => hlt⟩

/-- The position behind markup. -/
theorem readMarkup_position {r s : Reader} {e : Event} (h : r.readMarkup = .event e s) :
    r.consumed ≤ s.position ∧ ∀ name raw, e = .start name raw → r.consumed < s.position := by
  obtain ⟨ha, hstart⟩ := ahead_readMarkup h
  have hposition : s.position = s.consumed := by simp [position, ha.2]
  rw [hposition]
  exact ⟨ha.le, hstart⟩

/-- The place behind an event does not lie in front of the event, and lies behind the start of an element. -/
theorem next_position {r s : Reader} {e : Event} (h : r.next = .event e s) :
    r.position ≤ s.position ∧ ∀ name raw, e = .start name raw → r.position < s.position := by
  have hle : r.position ≤ r.consumed := by unfold position; split <;> lia
  unfold next at h
  split_ifs at h with hempty hopened hrest
  · cases h; exact ⟨Nat.le_refl _, nofun⟩
  · obtain ⟨hs, hstart⟩ := readMarkup_position h
    exact ⟨Nat.le_trans hle hs, fun name raw he => Nat.lt_of_le_of_lt hle (hstart name raw he)⟩
  · have hpos : r.position = r.consumed := by simp [position, hopened]
    have hlen : 0 < r.rest.length := by
      cases hr : r.rest with
      | nil => simp [hr] at hrest
      | cons => simp
    simp only at h
    split_ifs at h with htext
    · obtain ⟨hs, hstart⟩ := readMarkup_position h
      simp only [skip, List.length_take] at hs hstart
      exact ⟨by lia, fun name raw he => by have := hstart name raw he; lia⟩
    · cases h
      refine ⟨?_, nofun⟩
      -- the text is not empty, so that the `<` behind it is not the first byte
      have hbytes : 0 < (r.rest.takeWhile (· ≠ 60)).length := by
        cases hb : r.rest.takeWhile (· ≠ 60) with
        | nil => exact absurd (by rw [hb]; rfl) htext
        | cons => simp
      have := (List.takeWhile_prefix (l := r.rest) (· ≠ 60)).length_le
      rw [hpos]
      simp only [position, skip, List.length_take, if_true]
      lia

end Reader

/-- The second event does not stand before the first, and stands behind it if that starts an element. -/
def Follows (a b : Position × Event) : Prop := a.1 ≤ b.1 ∧ ∀ name raw, a.2 = .start name raw → a.1 < b.1

/-- The events of a document follow each other. -/
theorem scanFrom_follows : ∀ (n : Nat) (r : Reader),
    (∀ e ∈ (scanFrom n r).1, r.position ≤ e.1) ∧ (scanFrom n r).1.Pairwise Follows
  | 0, _ => by simp [scanFrom]
  | n + 1, r => by
    unfold scanFrom
    cases hn : r.next with
    | done => simp
    | malformed => simp
    | event e behind =>
      obtain ⟨hle, hstart⟩ := Reader.next_position hn
      obtain ⟨hall, hpair⟩ := scanFrom_follows n behind
      simp only [List.mem_cons, forall_eq_or_imp, List.pairwise_cons]
      exact ⟨⟨Nat.le_refl _, fun a ha => Nat.le_trans hle (hall a ha)⟩,
        fun a ha => ⟨Nat.le_trans hle (hall a ha),
          fun name raw he => Nat.lt_of_lt_of_le (hstart name raw he) (hall a ha)⟩, hpair⟩

/-- Elements which are selected stand at ascending positions, each of them at that of the element being read or of an
event. -/
theorem selectFrom_ascending (path : Path) (complete : Bool) : ∀ (events : List (Position × Event))
    (charset : Text.Charset) (names : List String) (reading : Option Reading), events.Pairwise Follows →
    (∀ r ∈ reading, ∀ e ∈ events, r.position < e.1) →
    (∀ p ∈ (reached (selectFrom path complete charset names reading events)).map Prod.fst,
      (∃ r ∈ reading, p = r.position) ∨ ∃ e ∈ events, p = e.1) ∧
      Ascending ((reached (selectFrom path complete charset names reading events)).map Prod.fst)
  | [], charset, names, none, _, _ => by unfold selectFrom; split <;> simp
  | [], charset, names, some r, _, _ => by simp [selectFrom]
  | (position, event) :: rest, charset, names, some r, hpair, hread => by
    obtain ⟨-, hpair⟩ := List.pairwise_cons.1 hpair
    have hrest : ∀ e ∈ rest, r.position < e.1 := fun e he => hread r rfl e (List.mem_cons_of_mem _ he)
    unfold selectFrom
    split
    · simp
    · rename_i element _
      obtain ⟨hmem, hasc⟩ := selectFrom_ascending path complete rest charset (names.drop 1) none hpair (by rintro _ ⟨⟩)
      simp only [reached_ok, List.map_cons, List.mem_cons, forall_eq_or_imp, List.pairwise_cons]
      refine ⟨⟨.inl ⟨r, rfl, rfl⟩, fun p hp => ?_⟩, fun p hp => ?_, hasc⟩
      · obtain ⟨_, h, -⟩ | ⟨e, he, rfl⟩ := hmem p hp
        · cases h
        · exact .inr ⟨e, .inr he, rfl⟩
      · obtain ⟨_, h, -⟩ | ⟨e, he, rfl⟩ := hmem p hp
        · cases h
        · exact hrest e he
    · rename_i opened _
      obtain ⟨hmem, hasc⟩ := selectFrom_ascending path complete rest (charsetAfter charset event) names
        (some { r with opened := opened }) hpair (by rintro _ ⟨rfl⟩; exact hrest)
      refine ⟨fun p hp => ?_, hasc⟩
      obtain ⟨_, ⟨rfl⟩, rfl⟩ | ⟨e, he, rfl⟩ := hmem p hp
      · exact .inl ⟨r, rfl, rfl⟩
      · exact .inr ⟨e, List.mem_cons_of_mem _ he, rfl⟩
  | (position, event) :: rest, charset, names, none, hpair, _ => by
    obtain ⟨hfirst, hrest⟩ := List.pairwise_cons.1 hpair
    -- what comes of the rest if nothing is being read
    have on (charset : Text.Charset) (names : List String) :
        (∀ p ∈ (reached (selectFrom path complete charset names none rest)).map Prod.fst,
          (∃ r ∈ (none : Option Reading), p = r.position) ∨ ∃ e ∈ (position, event) :: rest, p = e.1) ∧
        Ascending ((reached (selectFrom path complete charset names none rest)).map Prod.fst) := by
      obtain ⟨hmem, hasc⟩ := selectFrom_ascending path complete rest charset names none hrest (by rintro _ ⟨⟩)
      refine ⟨fun p hp => ?_, hasc⟩
      obtain ⟨_, h, -⟩ | ⟨e, he, rfl⟩ := hmem p hp
      · cases h
      · exact .inr ⟨e, List.mem_cons_of_mem _ he, rfl⟩
    cases event with
    | start name raw =>
      simp only [selectFrom]
      split_ifs
      · cases startElement charset name raw with
        | error fault => simp
        | ok element =>
          obtain ⟨hmem, hasc⟩ := selectFrom_ascending path complete rest charset (charset.decode name :: names)
            (some ⟨position, charset, ⟨element, []⟩⟩) hrest
            (by rintro _ ⟨rfl⟩ e he; exact (hfirst e he).2 name raw rfl)
          refine ⟨fun p hp => ?_, hasc⟩
          obtain ⟨_, ⟨rfl⟩, hp⟩ | ⟨e, he, rfl⟩ := hmem p hp
          · exact .inr ⟨_, List.mem_cons_self, hp⟩
          · exact .inr ⟨e, List.mem_cons_of_mem _ he, rfl⟩
      · exact on ..
    | _ => exact on ..

/-- The elements which a path selects stand at ascending positions. -/
theorem select_ascending (path : Path) (bytes : List UInt8) :
    Ascending ((reached (select path bytes)).map Prod.fst) := by
  have h := (scanFrom_follows (maxEvents bytes.length) (.ofBytes bytes)).2
  exact (selectFrom_ascending path (scan bytes).2 (scan bytes).1 .utf8 [] none h (by rintro _ ⟨⟩)).2

end Xml

/-! ## Inputs -/

namespace Input

/-- The records that are reached when records are placed one by one stand at some of the places. -/
theorem reached_placed_sublist {α : Type} (place : α → Position) (load : α → Except Fault Record) (items : List α) :
    List.Sublist ((reached (items.map fun a => placed (place a) (load a))).map Prod.fst) (items.map place) := by
  induction items with
  | nil => simp
  | cons a items ih =>
    cases h : load a with
    | error fault => simpa [placed, h, Except.map] using List.Sublist.cons _ ih
    | ok r => simpa [placed, h, Except.map] using ih

/-- The same for records of elements, some of which may have failed already. -/
theorem reached_bind_sublist {α : Type} (load : Position × α → Except Fault Record)
    (items : List (Except Fault (Position × α))) :
    List.Sublist ((reached (items.map fun item => item >>= fun e => placed e.1 (load e))).map Prod.fst)
      ((reached items).map Prod.fst) := by
  induction items with
  | nil => simp
  | cons item items ih =>
    cases item with
    | error fault => simpa [bind, Except.bind] using ih
    | ok e =>
      cases h : load e with
      | error fault => simpa [bind, Except.bind, placed, h, Except.map] using List.Sublist.cons _ ih
      | ok r => simpa [bind, Except.bind, placed, h, Except.map] using ih

/-- The elements of an array are numbered. -/
theorem reached_readElements_sublist (i : Input) (pages : Pages) : ∀ (spans : List Json.Span) (c : Json.Cursor)
    (position : Position), List.Sublist ((reached (i.readElements pages c position spans)).map Prod.fst)
      (List.range' position spans.length)
  | [], _, _ => .slnil
  | span :: spans, c, position => by
    have ih := reached_readElements_sublist i pages spans (c.read? pages span).2 (position + 1)
    rw [readElements, List.length_cons, List.range'_succ]
    cases h : i.ofObject? position (c.read? pages span).1 with
    | error fault => simpa [placed, h, Except.map] using List.Sublist.cons _ ih
    | ok r => simpa [placed, h, Except.map] using ih

/-- The records of some bytes stand at ascending positions. -/
theorem recordsOf_ascending (i : Input) (bytes : List UInt8) :
    Ascending ((reached (i.recordsOf bytes)).map Prod.fst) := by
  unfold recordsOf
  cases i.content with
  | table ignoreFirstRow delimiter columns =>
    refine List.Pairwise.sublist (reached_placed_sublist Prod.fst _ _) ?_
    exact (Csv.rows_ascending delimiter bytes).sublist ((List.drop_sublist _ _).map _)
  | elements spans =>
    exact List.Pairwise.sublist (reached_readElements_sublist i _ spans.toList _ _) List.pairwise_lt_range'
  | document path properties _ => exact (Xml.select_ascending path bytes).sublist (reached_bind_sublist _ _)

/-- Nothing is reached in a directory. -/
theorem reached_recordsOfDirectory (i : Input) : reached i.recordsOfDirectory = [] := by
  unfold recordsOfDirectory
  cases i.content with
  | elements spans => simp [reached, Except.toOption]
  | _ => rfl

/-- **The records of an input stand at ascending positions.** -/
theorem records_ascending {fs : FileSystem} {i : Input} {items : List Loaded} (h : i.records fs = .ok items) :
    Ascending ((reached items).map Prod.fst) := by
  unfold records at h
  cases hc : i.contents fs with
  | error fault => rw [hc] at h; cases h
  | ok bytes =>
    rw [hc] at h
    cases h
    cases bytes with
    | none => simp [reached_recordsOfDirectory]
    | some bytes => exact recordsOf_ascending i bytes

theorem reached_map_ok {α β : Type} (f : α → β) (items : List α) :
    reached (items.map fun a => (.ok (f a) : Except Fault β)) = items.map f := by
  induction items with
  | nil => rfl
  | cons a items ih => simp [ih]

theorem reached_map_map {α β : Type} (f : α → β) (items : List (Except Fault α)) :
    reached (items.map fun item => item.map f) = (reached items).map f := by
  induction items with
  | nil => rfl
  | cons item items ih =>
    cases item with
    | error fault => exact ih
    | ok a => exact congrArg (f a :: ·) ih

/-- The positions in some bytes are ascending. -/
theorem positionsOf_ascending (i : Input) (bytes : List UInt8) : Ascending (reached (i.positionsOf bytes)) := by
  unfold positionsOf
  cases i.content with
  | table ignoreFirstRow delimiter columns =>
    rw [reached_map_ok]
    exact (Csv.rows_ascending delimiter bytes).sublist ((List.drop_sublist _ _).map _)
  | elements spans =>
    have h := reached_map_ok id (List.range spans.size)
    rw [List.map_id] at h
    exact h ▸ List.pairwise_lt_range
  | document path properties _ =>
    rw [reached_map_map]
    exact Xml.select_ascending path bytes

/-- **The positions of an input are ascending.** -/
theorem positions_ascending {fs : FileSystem} {i : Input} {items : List (Except Fault Position)}
    (h : i.positions fs = .ok items) : Ascending (reached items) := by
  have file (hf : (fun bytes => bytes.elim [.error i.unreadable] i.positionsOf) <$> i.contents fs = .ok items) :
      Ascending (reached items) := by
    cases hc : i.contents fs with
    | error fault => rw [hc] at hf; cases hf
    | ok bytes =>
      rw [hc] at hf
      cases hf
      cases bytes with
      | none => simp
      | some bytes => exact positionsOf_ascending i bytes
  unfold positions at h
  split at h
  · cases h
    exact positionsOf_ascending i []
  · exact file h

end Input

end RecordServer
