import RecordServer.Proofs.Csv.Access
import RecordServer.Proofs.Index.Lookup
import RecordServer.Proofs.Json.Access
import RecordServer.Proofs.Xml.Access

/-!
# Loading what has been read through

If all records of an input can be read, a reader loads the same records at their positions, in any order and whatever
it has loaded before (`Input.Loads`). This holds for every input that has been created from the file
(`Input.loads_of_create`), as long as nothing in the file makes it matter in which order records are loaded
(`Input.Uniform`).
-/

namespace RecordServer

/-- What is found in a file are elements which begin with braces, one behind the other. -/
theorem Json.placed_of_elements {bytes : List UInt8} {spans : List Span} (h : elements bytes = .ok spans) :
    Placed Braced 0 bytes spans := by
  -- a file without bytes is delivered in no buffer at all
  cases bytes with
  | nil => exact (arrayOf_of_scan (by simp) ((@scan_eq_elements [] (by simp)).trans h)).placed
  | cons b bytes =>
    have hplaced := (arrayOf_of_scan (by simp) h).placed
    rwa [List.flatten_singleton] at hplaced

namespace Input

/-- It does not matter in which order the records in the bytes of a file are loaded: no row of a table behind its
beginning begins with a byte order mark, and the declarations of a document stand in front of its elements. -/
def Uniform (i : Input) (bytes : List UInt8) : Prop :=
  match i.content with
  | .table ignoreFirstRow delimiter _ => ∀ row ∈ rowsOf ignoreFirstRow delimiter bytes, ¬Csv.Marked bytes row.1
  | .elements _ => True
  | .document _ _ _ => Xml.DeclaredFirst (Xml.scan bytes).1

/-- All records of an input can be read, and a reader loads each of them at its position, whatever it has loaded
before. -/
structure Loads (fs : FileSystem) (i : Input) (records : List (Position × Record)) : Prop where
  all : Index.allRecords fs i = .ok records
  positions : i.positions fs = .ok ((records.map Prod.fst).map .ok)
  loaded : ∃ r, i.reader fs = .ok r ∧
    ∀ before, ∀ entry ∈ records, (i.load (i.behind r before) entry.1).1 = .ok entry.2

variable {fs : FileSystem} {i : Input} {f : File} {records : List (Position × Record)}

/-- Records which have all been read where they should be. -/
theorem of_placed {record : Position → Except Fault Record} : ∀ {positions : List Position}
    {records : List (Position × Record)}, (positions.map fun p => placed p (record p)) = records.map .ok →
    positions = records.map Prod.fst ∧ ∀ entry ∈ records, record entry.1 = .ok entry.2
  | [], [], _ => by simp
  | p :: positions, entry :: records, h => by
    obtain ⟨hfirst, hrest⟩ := List.cons.inj h
    obtain ⟨r, hr, rfl⟩ := ok_of_map hfirst
    obtain ⟨rfl, hrecords⟩ := of_placed hrest
    exact ⟨rfl, List.forall_mem_cons.2 ⟨hr, hrecords⟩⟩

/-- What is read at some positions and loaded there. -/
theorem loads_of_access {positions : List Position} {record : Position → Except Fault Record}
    (hf : fs.file? i.path = some f) (hall : Index.allRecords fs i = .ok records)
    (hpositions : i.positions fs = .ok (positions.map .ok))
    (hrecords : i.recordsOf f.content = positions.map fun p => placed p (record p))
    (hload : ∀ before, ∀ p ∈ positions,
      (i.load (i.behind ⟨some (.ofBytes f.content), none⟩ before) p).1 = record p) : i.Loads fs records := by
  have hread := (records_of_file hf).symm.trans (Index.records_of_allRecords hall)
  obtain ⟨rfl, hrecord⟩ := of_placed (hrecords.symm.trans (Except.ok.inj hread))
  refine ⟨hall, hpositions, _, reader_of_file hf, fun before entry hentry => ?_⟩
  rw [hload before entry.1 (List.mem_map_of_mem hentry), hrecord entry hentry]

/-! ## Tables -/

section

variable {ignoreFirstRow : Bool} {delimiter : UInt8} {columns : List Column}

theorem loads_table (hc : i.content = .table ignoreFirstRow delimiter columns) (hf : fs.file? i.path = some f)
    (hlength : f.content.length ≤ maxOffset) (huniform : i.Uniform f.content)
    (hall : Index.allRecords fs i = .ok records) : i.Loads fs records := by
  have hunmarked : ∀ row ∈ rowsOf ignoreFirstRow delimiter f.content, ¬Csv.Marked f.content row.1 := by
    simpa [Uniform, hc] using huniform
  refine loads_of_access hf hall ?_ (recordsOf_table hc f.content) fun before p hp => ?_
  · rw [positions_of_file hf (by simp [hc]), positionsOf, hc, List.map_map]
    rfl
  · obtain ⟨row, hrow, rfl⟩ := List.mem_map.1 hp
    obtain ⟨count, hstands⟩ := Csv.rowOf?_of_rows (List.mem_of_mem_drop hrow)
    have hlt := Csv.lt_length_of_rowOf? hstands
    have hne : f.content ≠ [] := List.ne_nil_of_length_pos (Nat.zero_lt_of_lt hlt)
    have hleft := left_behind hc hne before (r := ⟨some (.ofBytes f.content), none⟩) rfl (by simp [Csv.Head.Left])
    rw [load_eq (pages_behind i before _), loadFrom_table hc _ _ (Nat.le_trans (Nat.le_of_lt hlt) hlength)]
    exact congrArg (i.ofRow? columns row.1)
      (Csv.rowAt_fst hleft hne fun hmarked => absurd hmarked (hunmarked row hrow))

end

/-! ## Arrays -/

section

variable {spans : List Json.Span}

theorem loads_elements (hc : i.content = .elements spans.toArray) (hf : fs.file? i.path = some f)
    (helements : Json.elements f.content = .ok spans) (hall : Index.allRecords fs i = .ok records) :
    i.Loads fs records := by
  have hplaced := Json.placed_of_elements helements
  refine @loads_of_access fs i f records (List.range spans.length)
    (fun p => i.ofObject p ((spans[p]?.getD (0, 0)).of f.content)) hf hall ?_ ?_ fun before p hp => ?_
  · simp [positions, positionsOf, hc]
  · rw [recordsOf_elements hc hplaced]
    refine List.ext_getElem (by simp) fun k hk hk' => ?_
    have hspan : k < spans.length := by simpa using hk
    simp [hspan]
  · have hlt : p < spans.length := List.mem_range.1 hp
    have hspan : spans[p]? = some spans[p] := List.getElem?_eq_getElem hlt
    rw [hspan]
    exact load_elements hc hplaced (pages_behind i before _) hspan

end

/-! ## Documents -/

section

variable {path : Xml.Path} {properties : List (String × Xml.Property)}

theorem loads_document (hc : i.content = .document path properties (Xml.charset f.content))
    (hf : fs.file? i.path = some f) {found : List (Position × Xml.Element)}
    (hselect : Xml.select path f.content = found.map .ok) (hlength : f.content.length ≤ maxOffset)
    (huniform : i.Uniform f.content) (hall : Index.allRecords fs i = .ok records) : i.Loads fs records := by
  have hdeclared : Xml.DeclaredFirst (Xml.scan f.content).1 := by
    simpa [Uniform, hc] using huniform
  have helement : ∀ e ∈ found, Xml.elementAt (Xml.charset f.content) (.ofBytes f.content) e.1 = .ok (some e.2) := by
    have h := @Xml.elementAt_of_select f.content path hdeclared
    rwa [hselect, reached_of_all] at h
  refine @loads_of_access fs i f records (found.map Prod.fst) (fun p => i.ofElement? properties p
    (Xml.elementAt (Xml.charset f.content) (.ofBytes f.content) p)) hf hall ?_ ?_ fun before p hp => ?_
  · rw [positions_of_file hf (by simp [hc]), positionsOf]
    simp only [hc, hselect, List.map_map]
    rfl
  · unfold recordsOf
    simp only [hc, hselect, List.map_map]
    refine List.map_congr_left fun e he => ?_
    simp only [Function.comp_apply, helement e he]
    rfl
  · obtain ⟨e, he, rfl⟩ := List.mem_map.1 hp
    have hlt := Xml.lt_length_of_elementAt (helement e he)
    rw [load_eq (pages_behind i before _), loadFrom_document hc _ _ (Nat.le_trans (Nat.le_of_lt hlt) hlength)]

end

/-! ## Inputs that have been created -/

variable {g : FileSystem} {parsers : Parsers} {place name path : String} {config : Config.Input}

/-- **An input that has been created loads what has been read through**, as long as its file stays the same. -/
theorem loads_of_create (hcreate : create g parsers place name path config = .ok i)
    (hfiles : ∀ f, g.file? i.path = some f → fs.file? i.path = some f ∧ f.content.length ≤ maxOffset ∧
      i.Uniform f.content) (hall : Index.allRecords fs i = .ok records) : i.Loads fs records := by
  obtain ⟨f, hg, hexamine⟩ := of_create hcreate
  obtain ⟨hf, hlength, huniform⟩ := hfiles f hg
  cases hlayout : config.layout with
  | csv table =>
    obtain ⟨columns, -, hc, -⟩ := content_of_csv hlayout hexamine
    exact loads_table hc hf hlength huniform hall
  | json =>
    rw [hlayout, examine] at hexamine
    split at hexamine
    · rename_i spans helements
      obtain ⟨hc, -⟩ := Prod.mk.inj (Except.ok.inj hexamine)
      exact loads_elements hc.symm hf helements hall
    · cases hexamine
  | xml recordPath selections =>
    obtain ⟨path, properties, found, hc, hselect, -⟩ := content_of_xml hlayout hexamine
    exact loads_document hc hf hselect hlength huniform hall

end Input

end RecordServer
