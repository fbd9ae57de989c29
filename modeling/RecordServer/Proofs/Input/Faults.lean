import RecordServer.Index.Open
import RecordServer.Proofs.Fault

/-!
# What can be wrong with records

Whatever is in the file of an input, and whatever its parsers make of it, what goes wrong when its records are read is a
matter of their content (`OfContent`): when all of them are read (`Input.ofContent_records`), when their positions are
found (`Input.ofContent_positions`), and when one of them is loaded (`Input.ofContent_load`). So are the steps of which
this consists, down to the events of a document and the cells of a table.
-/

namespace RecordServer

/-! ## Values -/

/-- What is wrong with the text of a value is a matter of its content, and of the parsers it refers to. -/
theorem Format.ofContent_parse (registry : Option (String → Option Parser)) : ∀ (depth : Nat) (p : Parser)
    (cs : List Char), OfContent (parse registry depth p cs)
  | _, ⟨_, string _⟩, cs => by
    unfold parse
    exact .ok _
  | _, ⟨_, integer ignored⟩, cs => by
    unfold parse parseInteger
    simp only
    split
    · exact .ok _
    · split
      · exact .ok _
      · exact .error rfl
  | _, ⟨_, float ignored separator⟩, cs => by
    unfold parse parseFloat
    simp only
    split
    · exact .ok _
    · split
      · exact .ok _
      · exact .error rfl
  | _, ⟨_, boolean trueValues falseValues⟩, cs => by
    unfold parse parseBoolean
    split
    · exact .ok _
    · split
      · exact .ok _
      · split
        · exact .ok _
        · exact .error rfl
  | _, ⟨_, json⟩, cs => by
    unfold parse parseJson
    split
    · exact .ok _
    · split
      · exact .ok _
      · exact .error rfl
  | 0, ⟨name, split separator inner⟩, cs => by
    unfold parse
    split
    · exact .ok _
    · cases registry <;> exact .error rfl
  | depth + 1, ⟨name, split separator inner⟩, cs => by
    unfold parse
    split
    · exact .ok _
    · cases registry with
      | none => exact .error rfl
      | some find =>
        simp only
        split
        · exact .error rfl
        · exact (Raises.mapM fun text _ => ofContent_parse (some find) depth _ text).map

theorem Format.ofContent_decode (f : Format) (bytes : List UInt8) : OfContent (f.decode bytes) := by
  unfold decode
  split
  · split
    · exact .ok _
    · exact .error rfl
  · split
    · exact .ok _
    · exact .error rfl

namespace Parsers

variable (ps : Parsers) (p : Parser)

theorem ofContent_parse (text : String) : OfContent (ps.parse p text) :=
  Format.ofContent_parse _ _ _ _

theorem ofContent_parseBytes (bytes : List UInt8) : OfContent (ps.parseBytes p bytes) :=
  (Format.ofContent_decode p.format bytes).bind (ps.ofContent_parse p)

end Parsers

/-! ## Documents -/

namespace Xml

theorem ofContent_startElement (charset : Text.Charset) (name raw : List UInt8) :
    OfContent (startElement charset name raw) := by
  unfold startElement
  split
  · exact .ok _
  · exact .error rfl

namespace Opened

theorem ofContent_unfinished (o : Opened) (complete : Bool) : (o.unfinished complete).cause.isOfContent = true := by
  cases complete <;> rfl

theorem ofContent_feed (charset : Text.Charset) (o : Opened) (event : Event) : OfContent (o.feed charset event) := by
  cases event with
  | start name raw => exact (ofContent_startElement charset name raw).map
  | stop =>
    obtain ⟨element, _ | ⟨parent, outer⟩⟩ := o
    · exact .ok _
    · exact .ok _
  | text bytes =>
    unfold feed
    simp only
    split
    · exact .ok _
    · exact .error rfl
  | verbatim bytes => exact .ok _
  | declaration declared => exact .ok _
  | other => exact .ok _

end Opened

/-- What goes wrong when elements are selected comes from one of the events. -/
theorem ofContent_selectFrom (path : Path) (complete : Bool) : ∀ (events : List (Position × Event))
    (charset : Text.Charset) (names : List String) (reading : Option Reading),
    ∀ item ∈ selectFrom path complete charset names reading events, OfContent item
  | [], charset, names, none => by
    cases complete
    · exact List.forall_mem_singleton.2 (.error rfl)
    · exact nofun
  | [], charset, names, some r => List.forall_mem_singleton.2 (.error (r.opened.ofContent_unfinished complete))
  | (position, event) :: rest, charset, names, some r => by
    have hfeed := r.opened.ofContent_feed r.charset event
    unfold selectFrom
    split
    · rename_i fault hfault
      exact List.forall_mem_singleton.2 (.error (hfeed fault hfault))
    · exact List.forall_mem_cons.2 ⟨.ok _, ofContent_selectFrom path complete rest _ _ _⟩
    · exact ofContent_selectFrom path complete rest _ _ _
  | (position, event) :: rest, charset, names, none => by
    cases event with
    | start name raw =>
      have hstart := ofContent_startElement charset name raw
      unfold selectFrom
      simp only
      split
      · split
        · rename_i fault hfault
          exact List.forall_mem_singleton.2 (.error (hstart fault hfault))
        · exact ofContent_selectFrom path complete rest _ _ _
      · exact ofContent_selectFrom path complete rest _ _ _
    | _ => exact ofContent_selectFrom path complete rest _ _ _

theorem ofContent_select (path : Path) (bytes : List UInt8) : ∀ item ∈ select path bytes, OfContent item :=
  ofContent_selectFrom path _ _ _ _ _

theorem ofContent_finish (charset : Text.Charset) : ∀ (n : Nat) (o : Opened) (r : Reader),
    OfContent (o.finish charset n r)
  | 0, o, _ => .error (o.ofContent_unfinished false)
  | n + 1, o, r => by
    unfold Opened.finish
    split
    · exact .error (o.ofContent_unfinished true)
    · exact .error (o.ofContent_unfinished false)
    · rename_i event behind _
      have hfeed := o.ofContent_feed charset event
      split
      · rename_i fault hfault
        exact .error (hfeed fault hfault)
      · exact .ok _
      · exact ofContent_finish charset n _ _

theorem ofContent_nextElement (charset : Text.Charset) : ∀ (n : Nat) (r : Reader),
    OfContent (nextElement charset n r)
  | 0, _ => .error rfl
  | n + 1, r => by
    unfold nextElement
    split
    · exact .ok _
    · exact .error rfl
    · exact (ofContent_startElement charset _ _).bind fun _ => (ofContent_finish charset n _ _).map
    · exact ofContent_nextElement charset n _

theorem ofContent_elementAt (charset : Text.Charset) (pages : Pages) (position : Position) :
    OfContent (elementAt charset pages position) :=
  ofContent_nextElement charset _ _

namespace Property

variable (parsers : Parsers)

theorem ofContent_ofText (text : String) (p : Property) : OfContent (ofText parsers text p) := by
  unfold ofText
  split
  · split
    · exact parsers.ofContent_parse _ _
    · exact .ok _
  · exact .ok _

mutual

theorem ofContent_apply : ∀ (p : Property) (e : Element), OfContent (apply parsers p e)
  | primitive path parser, e => by
    unfold apply
    split
    · exact .ok _
    · exact parsers.ofContent_parse _ _
  | array path items, e => by
    unfold apply
    refine (Raises.mapM fun selected _ => ?_).map
    split
    · exact ofContent_apply items _
    · exact ofContent_ofText parsers _ items
  | object path properties, e => by
    unfold apply
    split
    · exact .ok _
    · exact (ofContent_extract properties _ _).map

theorem ofContent_extract : ∀ (properties : List (String × Property)) (fields : Fields) (e : Element),
    OfContent (extract parsers fields properties e)
  | [], _, _ => .ok _
  | (name, property) :: rest, fields, e => by
    unfold extract
    exact (ofContent_apply property e).around.bind fun _ => ofContent_extract rest _ e

end

end Property

end Xml

/-! ## Records -/

namespace Input

variable (i : Input)

theorem ofContent_readCells (position : Position) : ∀ (columns : List Column) (fields : Fields) (row : Csv.Row),
    OfContent (i.readCells position fields columns row)
  | [], _, _ => .ok _
  | _ :: columns, _, [] => ofContent_readCells position columns _ []
  | c :: columns, _, cell :: row =>
    (i.parsers.ofContent_parseBytes c.parser cell).around.bind fun _ => ofContent_readCells position columns _ row

theorem ofContent_ofObject? (position : Position) (bytes : Option (List UInt8)) :
    OfContent (i.ofObject? position bytes) := by
  unfold ofObject? ofObject
  split
  · split
    · exact .ok _
    · exact .error rfl
  · exact .error rfl

theorem ofContent_readElements (pages : Pages) : ∀ (spans : List Json.Span) (c : Json.Cursor) (position : Position),
    ∀ loaded ∈ i.readElements pages c position spans, OfContent loaded
  | [], _, _ => List.forall_mem_nil _
  | span :: spans, c, position =>
    List.forall_mem_cons.2 ⟨(i.ofContent_ofObject? position _).map,
      ofContent_readElements pages spans (c.read? pages span).2 (position + 1)⟩

theorem ofContent_recordsOf (bytes : List UInt8) : ∀ loaded ∈ i.recordsOf bytes, OfContent loaded := by
  unfold recordsOf
  split
  · exact List.forall_mem_map.2 fun row _ => (i.ofContent_readCells _ _ _ _).map.map
  · exact i.ofContent_readElements _ _ _ _
  · rename_i path properties charset _
    refine List.forall_mem_map.2 fun item hitem => (Xml.ofContent_select path bytes item hitem).bind fun e => ?_
    exact (Xml.Property.ofContent_extract i.parsers properties _ _).around.map.map

theorem ofContent_unreadable : i.unreadable.cause.isOfContent = true := by
  unfold unreadable
  split <;> rfl

theorem ofContent_recordsOfDirectory : ∀ loaded ∈ i.recordsOfDirectory, OfContent loaded := by
  unfold recordsOfDirectory
  split
  · exact List.forall_mem_map.2 fun _ _ => .error i.ofContent_unreadable
  · exact List.forall_mem_singleton.2 (.error i.ofContent_unreadable)

theorem ofContent_contents (fs : FileSystem) : OfContent (i.contents fs) := by
  unfold contents
  split
  · exact .ok _
  · split
    · exact .ok _
    · exact .error rfl

/-- A list of results, none of which is there if something is wrong: all faults are a matter of content. -/
def ListOfContent {α : Type} (items : Except Fault (List (Except Fault α))) : Prop :=
  OfContent items ∧ ∀ all, items = .ok all → ∀ item ∈ all, OfContent item

/-- What is found in the bytes of a file, or in a directory in its place. -/
theorem listOfContent_map {α : Type} {fs : FileSystem} {found : List (Except Fault α)}
    {foundIn : List UInt8 → List (Except Fault α)} (hdirectory : ∀ item ∈ found, OfContent item)
    (hfile : ∀ bytes, ∀ item ∈ foundIn bytes, OfContent item) :
    ListOfContent ((fun bytes => bytes.elim found foundIn) <$> i.contents fs) := by
  refine ⟨(i.ofContent_contents fs).map, fun all h => ?_⟩
  obtain ⟨bytes, -, rfl⟩ := ok_of_map h
  cases bytes with
  | none => exact hdirectory
  | some bytes => exact hfile bytes

/-- **What is wrong with a record, when all of them are read, is a matter of its content.** -/
theorem ofContent_records (fs : FileSystem) : ListOfContent (i.records fs) :=
  i.listOfContent_map i.ofContent_recordsOfDirectory i.ofContent_recordsOf

theorem ofContent_positionsOf (bytes : List UInt8) : ∀ item ∈ i.positionsOf bytes, OfContent item := by
  unfold positionsOf
  split
  · exact List.forall_mem_map.2 fun _ _ => .ok _
  · exact List.forall_mem_map.2 fun _ _ => .ok _
  · rename_i path _ _ _
    exact List.forall_mem_map.2 fun item hitem => (Xml.ofContent_select path bytes item hitem).map

/-- **So it is when only their positions are found.** -/
theorem ofContent_positions (fs : FileSystem) : ListOfContent (i.positions fs) := by
  unfold positions
  split
  · refine ⟨.ok _, fun all h => ?_⟩
    cases h
    exact i.ofContent_positionsOf []
  · exact i.listOfContent_map (List.forall_mem_singleton.2 (.error i.ofContent_unreadable)) i.ofContent_positionsOf

/-! ## Loading -/

theorem ofContent_reader (fs : FileSystem) : OfContent (i.reader fs) := (i.ofContent_contents fs).map

theorem ofContent_loadFrom (pages : Pages) (head : Csv.Head) (position : Position) :
    OfContent (i.loadFrom pages head position).1 := by
  unfold loadFrom
  split
  · split
    · exact .error rfl
    · split
      · exact (i.ofContent_readCells _ _ _ _).map
      · exact .error rfl
  · split
    · exact i.ofContent_ofObject? _ _
    · exact .error rfl
  · rename_i properties charset _
    split
    · exact .error rfl
    · have helement := Xml.ofContent_elementAt charset pages position
      split
      · rename_i fault hfault
        exact .error (helement fault hfault)
      · exact .error rfl
      · exact (Xml.Property.ofContent_extract i.parsers properties _ _).around.map

/-- **And when a single record is loaded.** -/
theorem ofContent_load (r : Reader) (position : Position) : OfContent (i.load r position).1 := by
  unfold load
  split
  · refine .error ?_
    unfold unloadable
    split
    · exact i.ofContent_unreadable
    · split
      · exact i.ofContent_unreadable
      · rfl
    · split
      · rfl
      · exact i.ofContent_unreadable
  · exact i.ofContent_loadFrom _ _ _

end Input

/-- **Reading all records of an input fails because of the content of its file only.** -/
theorem Index.ofContent_allRecords (fs : FileSystem) (input : Input) : OfContent (allRecords fs input) := by
  unfold allRecords
  obtain ⟨hrecords, hitems⟩ := input.ofContent_records fs
  cases h : input.records fs with
  | error fault => exact .error (hrecords fault h)
  | ok items => exact Raises.mapM (hitems items h)

end RecordServer
