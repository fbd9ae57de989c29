import Mathlib
import RecordServer.Proofs.Input.Access
import RecordServer.Proofs.Input.Order

/-!
# Rows in any order

Reading the rows of a table one by one, in any order, gives what reading the table through gives, except where a row
begins with a byte order mark.

Each row of a table is the one that is read from its position on (`Csv.rowOf?_of_rows`). A reader that has come to a
position by itself reads on from there; one that jumps to a position passes over a mark (`Csv.rowAt_eq`), which is right
at the beginning of the file only. So every row that does not begin with a mark is read as it stands in the table,
whatever has been read before, and one that does is read without its mark after a jump (`Input.table_random_access`).
-/

namespace RecordServer

namespace Csv

variable {delimiter : UInt8} {bytes : List UInt8} {position count : Nat} {row : Row}

/-! ## Rows by their positions -/

/-- The row that stands at a position of a table. -/
def rowOf? (delimiter : UInt8) (bytes : List UInt8) (position : Position) : Option (Row × Nat) :=
  if position = 0 then markedRow? delimiter bytes else row? delimiter (bytes.drop position)

/-- A byte order mark stands at a position behind the beginning of a table. -/
def Marked (bytes : List UInt8) (position : Position) : Prop :=
  0 < position ∧ byteOrderMark <+: bytes.drop position

/-- Rows behind a position are those that are read from their positions on. -/
theorem row?_of_rowsFrom : ∀ (n start : Nat), ∀ r ∈ rowsFrom delimiter n start (bytes.drop start),
    start ≤ r.1 ∧ ∃ count, row? delimiter (bytes.drop r.1) = some (r.2, count)
  | 0, _, _, h => absurd h List.not_mem_nil
  | n + 1, start, r, h => by
    unfold rowsFrom at h
    cases hrow : row? delimiter (bytes.drop start) with
    | none =>
      rw [hrow] at h
      exact absurd h List.not_mem_nil
    | some found =>
      obtain ⟨row, count⟩ := found
      simp only [hrow, List.drop_drop] at h
      rcases List.mem_cons.1 h with rfl | h
      · exact ⟨Nat.le_refl _, count, hrow⟩
      · obtain ⟨hle, hr⟩ := row?_of_rowsFrom n (start + count) r h
        exact ⟨Nat.le_trans (Nat.le_add_right _ _) hle, hr⟩

/-- **Each row of a table is the one that is read at its position.** -/
theorem rowOf?_of_rows {r : Position × Row} (h : r ∈ rows delimiter bytes) :
    ∃ count, rowOf? delimiter bytes r.1 = some (r.2, count) := by
  unfold rows at h
  cases hm : markedRow? delimiter bytes with
  | none =>
    rw [hm] at h
    exact absurd h List.not_mem_nil
  | some found =>
    obtain ⟨row, count⟩ := found
    simp only [hm] at h
    rcases List.mem_cons.1 h with rfl | h
    · exact ⟨count, by rw [rowOf?, if_pos rfl, hm]⟩
    · obtain ⟨hle, hr⟩ := row?_of_rowsFrom bytes.length count r h
      have hpos : r.1 ≠ 0 := Nat.ne_of_gt (Nat.lt_of_lt_of_le (lt_count_of_markedRow? hm) hle)
      rwa [rowOf?, if_neg hpos]

/-- There is no row behind the end. -/
theorem lt_length_of_rowOf? (h : rowOf? delimiter bytes position = some (row, count)) : position < bytes.length := by
  refine Nat.lt_of_not_le fun hle => ?_
  unfold rowOf? at h
  split at h
  · rename_i hzero
    rw [hzero] at hle
    rw [List.length_eq_zero_iff.1 (Nat.le_zero.1 hle)] at h
    cases h
  · rw [List.drop_eq_nil_of_le hle] at h
    cases h

/-! ## Readers -/

/-- The position at which a reader is. -/
def here (delimiter : UInt8) (bytes : List UInt8) : Head → Position
  | some p => p
  | none => ((markedRow? delimiter bytes).map Prod.snd).getD bytes.length

/-- The row which a reader finds at a position: it passes over a mark unless it is there already. -/
theorem rowAt_eq (delimiter : UInt8) (bytes : List UInt8) (head : Head) (position : Position) :
    rowAt delimiter (.ofBytes bytes) head position =
      match if here delimiter bytes head = position then row? delimiter (bytes.drop position)
        else markedRow? delimiter (bytes.drop position) with
      | some (row, count) => (some row, some (position + count))
      | none => (none, some (max position bytes.length)) := by
  unfold rowAt here
  simp only [Pages.after_ofBytes, Pages.size_ofBytes, List.drop_zero]
  cases head with
  | some p => rfl
  | none => cases markedRow? delimiter bytes <;> rfl

/-- A reader has never come to the beginning of a table again. -/
def Head.Left (head : Head) : Prop := head ≠ some 0

/-- A reader that has not come to the beginning again is not there, unless there is nothing to read. -/
theorem Head.Left.here_ne {head : Head} (h : head.Left) (hne : bytes ≠ []) : here delimiter bytes head ≠ 0 := by
  cases head with
  | some p => exact fun hp => h (congrArg some hp)
  | none =>
    cases hm : markedRow? delimiter bytes with
    | none => simpa [here, hm] using hne
    | some found =>
      obtain ⟨row, count⟩ := found
      simpa [here, hm] using Nat.ne_of_gt (lt_count_of_markedRow? hm)

/-- Reading a row does not lead to the beginning, unless there is nothing to read. -/
theorem left_rowAt (hne : bytes ≠ []) (head : Head) (position : Position) :
    (rowAt delimiter (.ofBytes bytes) head position).2.Left := by
  have hlength := List.length_pos_iff.2 hne
  rw [rowAt_eq]
  split
  · rename_i row count hrow
    have hcount : 0 < count := by
      split at hrow
      · exact lt_count_of_row? hrow
      · exact lt_count_of_markedRow? hrow
    exact fun h => absurd (Option.some.inj h) (Nat.ne_of_gt (Nat.lt_of_lt_of_le hcount (Nat.le_add_left _ _)))
  · exact fun h => absurd (Option.some.inj h) (Nat.ne_of_gt (Nat.lt_of_lt_of_le hlength (Nat.le_max_right _ _)))

/-- **A reader finds the row which stands at a position**, unless it jumps there and the row begins with a mark. -/
theorem rowAt_fst {head : Head} (hleft : head.Left) (hne : bytes ≠ [])
    (hmark : Marked bytes position → here delimiter bytes head = position) :
    (rowAt delimiter (.ofBytes bytes) head position).1 = (rowOf? delimiter bytes position).map Prod.fst := by
  have hrow : (if here delimiter bytes head = position then row? delimiter (bytes.drop position)
      else markedRow? delimiter (bytes.drop position)) = rowOf? delimiter bytes position := by
    unfold rowOf?
    split_ifs with hhere hzero hzero
    · exact absurd (hhere.trans hzero) (hleft.here_ne hne)
    · rfl
    · rw [hzero, List.drop_zero]
    · have hunmarked : ¬byteOrderMark <+: bytes.drop position := fun h =>
        hhere (hmark ⟨Nat.pos_of_ne_zero hzero, h⟩)
      rw [markedRow?, if_neg (by simpa using hunmarked)]
  rw [rowAt_eq, hrow]
  cases rowOf? delimiter bytes position <;> rfl

/-- A reader that jumps to a mark finds the row behind it. -/
theorem rowAt_fst_of_marked {head : Head} (hmark : Marked bytes position)
    (hjump : here delimiter bytes head ≠ position) : (rowAt delimiter (.ofBytes bytes) head position).1 =
      (row? delimiter (bytes.drop (position + byteOrderMark.length))).map Prod.fst := by
  rw [rowAt_eq, if_neg hjump, markedRow?, if_pos (by simpa using hmark.2), List.drop_drop]
  cases row? delimiter (bytes.drop (position + byteOrderMark.length)) <;> rfl

end Csv

namespace Input

variable {fs : FileSystem} {i : Input} {f : File} {ignoreFirstRow : Bool} {delimiter : UInt8} {columns : List Column}

/-- The record of a row that may be found at a position. -/
def ofRow? (i : Input) (columns : List Column) (position : Position) : Option Csv.Row → Except Fault Record
  | some row => i.ofRow columns position row
  | none => .error (i.missing position)

/-- The record that stands at a position of a table. -/
def rowRecord (i : Input) (delimiter : UInt8) (columns : List Column) (bytes : List UInt8) (position : Position) :
    Except Fault Record :=
  i.ofRow? columns position ((Csv.rowOf? delimiter bytes position).map Prod.fst)

/-- Reading a table through gives what stands at the positions of its rows. -/
theorem recordsOf_table (hc : i.content = .table ignoreFirstRow delimiter columns) (bytes : List UInt8) :
    i.recordsOf bytes = ((rowsOf ignoreFirstRow delimiter bytes).map Prod.fst).map fun p =>
      placed p (i.rowRecord delimiter columns bytes p) := by
  unfold recordsOf
  rw [hc, List.map_map]
  refine List.map_congr_left fun r hr => ?_
  obtain ⟨count, hrow⟩ := Csv.rowOf?_of_rows (List.mem_of_mem_drop hr)
  simp only [Function.comp_apply, rowRecord, hrow]
  rfl

theorem loadFrom_table (hc : i.content = .table ignoreFirstRow delimiter columns) (pages : Pages) (head : Csv.Head)
    {position : Position} (hle : position ≤ maxOffset) : i.loadFrom pages head position =
      (i.ofRow? columns position (Csv.rowAt delimiter pages head position).1,
        (Csv.rowAt delimiter pages head position).2) := by
  unfold loadFrom
  simp only [hc, if_neg (Nat.not_lt.2 hle)]
  cases (Csv.rowAt delimiter pages head position) with
  | mk row head => cases row <;> rfl

/-- Loading a record does not lead a reader to the beginning, unless there is nothing to read. -/
theorem left_loadFrom (hc : i.content = .table ignoreFirstRow delimiter columns) {bytes : List UInt8}
    (hne : bytes ≠ []) {head : Csv.Head} (hleft : head.Left) (position : Position) :
    (i.loadFrom (.ofBytes bytes) head position).2.Left := by
  by_cases hle : position ≤ maxOffset
  · rw [loadFrom_table hc _ _ hle]
    exact Csv.left_rowAt hne head position
  · unfold loadFrom
    simp only [hc, if_pos (Nat.lt_of_not_le hle)]
    exact hleft

/-- However many records have been loaded, the reader has not come to the beginning again. -/
theorem left_behind (hc : i.content = .table ignoreFirstRow delimiter columns) {bytes : List UInt8}
    (hne : bytes ≠ []) : ∀ (before : List Position) {r : Reader}, r.pages = some (.ofBytes bytes) → r.head.Left →
    (i.behind r before).head.Left
  | [], _, _, hleft => hleft
  | p :: before, r, hr, hleft => by
    refine left_behind hc hne before ((pages_load i r p).trans hr) ?_
    simp only [load_eq hr]
    exact left_loadFrom hc hne hleft p

variable {parsers : Parsers} {place name path : String} {config : Config.Input} {table : Config.Table}

/-- The content of an input for a table. -/
theorem content_of_csv {bytes : List UInt8} (hlayout : config.layout = .csv table)
    (h : examine parsers place path bytes config.layout = .ok (i.content, i.size)) :
    ∃ columns, compileColumns parsers place 0 table.columns = .ok columns ∧
      i.content = .table table.ignoreFirstRow table.delimiter columns ∧
      i.size = (rowsOf table.ignoreFirstRow table.delimiter bytes).length := by
  rw [hlayout] at h
  obtain ⟨columns, hcolumns, hpair⟩ := ok_of_bind h
  obtain ⟨hcontent, hsize⟩ := Prod.mk.inj (Except.ok.inj hpair)
  exact ⟨columns, hcolumns, hcontent.symm, hsize.symm⟩

/-- **Rows can be read in any order.** The positions of a table are ascending, as many as the input has records, and
those at which reading it through meets records. Whatever a reader has loaded before, it loads the same record at each
of them or fails alike, unless it jumps to a row that begins with a byte order mark: then it loads the row behind the
mark. -/
theorem table_random_access (hcreate : create fs parsers place name path config = .ok i)
    (hlayout : config.layout = .csv table) (hf : fs.file? i.path = some f) (hlength : f.content.length ≤ maxOffset) :
    ∃ (columns : List Column) (positions : List Position) (record : Position → Except Fault Record) (r : Reader),
      compileColumns parsers place 0 table.columns = .ok columns ∧ Ascending positions ∧
      i.size = positions.length ∧ i.positions fs = .ok (positions.map .ok) ∧
      i.records fs = .ok (positions.map fun p => placed p (record p)) ∧ i.reader fs = .ok r ∧
      ∀ before, ∀ p ∈ positions,
        ((Csv.Marked f.content p → Csv.here table.delimiter f.content (i.behind r before).head = p) →
          (i.load (i.behind r before) p).1 = record p) ∧
        (Csv.Marked f.content p → Csv.here table.delimiter f.content (i.behind r before).head ≠ p →
          (i.load (i.behind r before) p).1 = i.ofRow? columns p
            ((Csv.row? table.delimiter (f.content.drop (p + Csv.byteOrderMark.length))).map Prod.fst)) := by
  obtain ⟨same, hsame, hexamine⟩ := of_create hcreate
  obtain rfl : f = same := Option.some.inj (hf.symm.trans hsame)
  obtain ⟨columns, hcolumns, hc, hsize⟩ := content_of_csv hlayout hexamine
  have hpositions : i.positionsOf f.content =
      ((rowsOf table.ignoreFirstRow table.delimiter f.content).map Prod.fst).map .ok := by
    unfold positionsOf
    rw [hc, List.map_map]
    rfl
  refine ⟨columns, (rowsOf table.ignoreFirstRow table.delimiter f.content).map Prod.fst,
    i.rowRecord table.delimiter columns f.content, ⟨some (.ofBytes f.content), none⟩, hcolumns,
    (Csv.rows_ascending table.delimiter f.content).sublist ((List.drop_sublist _ _).map _),
    by rw [hsize, List.length_map], (positions_of_file hf (by simp [hc])).trans (congrArg _ hpositions),
    (records_of_file hf).trans (congrArg _ (recordsOf_table hc f.content)), reader_of_file hf, ?_⟩
  intro before p hp
  obtain ⟨row, hrow, rfl⟩ := List.mem_map.1 hp
  obtain ⟨count, hrow⟩ := Csv.rowOf?_of_rows (List.mem_of_mem_drop hrow)
  have hlt := Csv.lt_length_of_rowOf? hrow
  have hne : f.content ≠ [] := List.ne_nil_of_length_pos (Nat.zero_lt_of_lt hlt)
  have hleft := left_behind hc hne before (r := ⟨some (.ofBytes f.content), none⟩) rfl nofun
  have hload (head : Csv.Head) := loadFrom_table hc (.ofBytes f.content) head
    (Nat.le_trans (Nat.le_of_lt hlt) hlength)
  rw [load_eq (pages_behind i before _), hload]
  constructor
  · intro hmark
    exact congrArg (i.ofRow? columns row.1) (Csv.rowAt_fst hleft hne hmark)
  · intro hmark hjump
    exact congrArg (i.ofRow? columns row.1) (Csv.rowAt_fst_of_marked hmark hjump)

/-- Three rows, the last of which begins with a mark. -/
def letters : FileSystem :=
  ⟨[(⟨false, ["letters.csv"]⟩, ⟨Text.Utf8.encode "a\nb\n\ufeffc\n", 0⟩)], [], 0⟩

/-- The input of these rows. -/
def lettersInput : Input :=
  ⟨"letters", "letters.csv", false, 3, ⟨Parsers.builtIn⟩, .table false 44 [⟨"cell", ⟨"string", .string none⟩⟩]⟩

/-- The last of these rows is read with its mark from the row before it, but without if the reader jumps to it. -/
theorem table_random_access_letters : ∃ r, lettersInput.reader letters = .ok r ∧
    lettersInput.records letters = .ok [.ok (0, ⟨[("cell", .string "a")]⟩), .ok (2, ⟨[("cell", .string "b")]⟩),
      .ok (4, ⟨[("cell", .string "\ufeffc")]⟩)] ∧
    (lettersInput.load (lettersInput.behind r [0, 2]) 4).1 = .ok ⟨[("cell", .string "\ufeffc")]⟩ ∧
    (lettersInput.load (lettersInput.behind r [2, 0]) 4).1 = .ok ⟨[("cell", .string "c")]⟩ := by
  have hfile : letters.file? lettersInput.path = some ⟨Text.Utf8.encode "a\nb\n\ufeffc\n", 0⟩ := by cbv
  obtain ⟨columns, positions, record, r, hcolumns, hasc, hsize, hpositions, hrecords, hr, hload⟩ :=
    table_random_access (show create letters ⟨Parsers.builtIn⟩ "" "letters" "letters.csv"
      ⟨"", "letters.csv", false, .csv ⟨false, 44, [⟨"cell", "string", none, none⟩]⟩⟩ = .ok lettersInput by cbv) rfl
      hfile (by decide)
  obtain rfl : columns = [⟨"cell", ⟨"string", .string none⟩⟩] := by
    have hcompiled : compileColumns ⟨Parsers.builtIn⟩ "" 0 [⟨"cell", "string", none, none⟩] =
        .ok [⟨"cell", ⟨"string", .string none⟩⟩] := by cbv
    exact Except.ok.inj (hcolumns.symm.trans hcompiled)
  obtain rfl : positions = [0, 2, 4] := by
    have hread : lettersInput.positions letters = .ok ([0, 2, 4].map .ok) := by cbv
    exact all_injective (Except.ok.inj (hpositions.symm.trans hread))
  obtain rfl := Except.ok.inj ((reader_of_file hfile).symm.trans hr)
  have hread : lettersInput.records letters = .ok [.ok (0, ⟨[("cell", .string "a")]⟩),
      .ok (2, ⟨[("cell", .string "b")]⟩), .ok (4, ⟨[("cell", .string "\ufeffc")]⟩)] := by cbv
  refine ⟨_, hr, hread, ?_, ?_⟩
  · rw [(hload [0, 2] 4 (by simp)).1 fun _ => by cbv]
    have hrecord := hrecords.symm.trans hread
    simp only [List.map_cons, List.map_nil, Except.ok.injEq, List.cons.injEq, and_true] at hrecord
    obtain ⟨last, hlast, hpair⟩ := ok_of_map hrecord.2.2
    rw [hlast, (Prod.mk.inj hpair).2]
  · rw [(hload [2, 0] 4 (by simp)).2 ⟨by decide, [99, 10], by cbv⟩ (by cbv)]
    cbv

end Input

end RecordServer
