import Mathlib
import RecordServer.Proofs.Input.Access
import RecordServer.Proofs.Xml.Within

/-!
# Elements in any order

Reading the elements of a document one by one, in any order, gives what reading the document through gives, if
declarations stand in front of all elements (`Input.document_random_access`).

While an element is read, a reader which started at its position is at the same place within the document
(`Xml.Reading.Tracked`); so it reads the same element, in the charset known by then (`Xml.elementAt_of_selectFrom`).
-/

namespace RecordServer

namespace Xml

/-! ## Declarations -/

/-- Whether an event is the start of an element. -/
def Event.starts : Event → Bool
  | .start _ _ => true
  | _ => false

/-- Whether an event is a declaration. -/
def Event.declares : Event → Bool
  | .declaration _ => true
  | _ => false

/-- Declarations stand in front of all elements. -/
def DeclaredFirst (events : List (Position × Event)) : Prop :=
  events.Pairwise fun a b => a.2.starts = true → b.2.declares = false

/-- Without declarations the charset stays. -/
theorem foldl_charsetAfter {charset : Text.Charset} : ∀ {events : List (Position × Event)},
    (∀ e ∈ events, e.2.declares = false) → events.foldl (fun c e => charsetAfter c e.2) charset = charset
  | [], _ => rfl
  | (position, event) :: events, h => by
    obtain ⟨hfirst, hrest⟩ := List.forall_mem_cons.1 h
    have hstays : charsetAfter charset event = charset := by
      cases event with
      | declaration declared => cases hfirst
      | _ => rfl
    rw [List.foldl_cons, hstays]
    exact foldl_charsetAfter hrest

/-! ## Open elements -/

/-- An event opens and closes elements as a reader does. -/
theorem Opened.length_feed {charset : Text.Charset} {o more : Opened} {e : Event}
    (h : o.feed charset e = .ok (.inr more)) : more.outer.length + 1 = e.depth (o.outer.length + 1) := by
  unfold feed at h
  split at h
  · obtain ⟨child, -, hmore⟩ := ok_of_map h
    obtain rfl := Sum.inr.inj hmore
    rfl
  · split at h
    · cases h
    · rename_i houter
      cases h
      rw [houter]
      rfl
  · split at h
    · cases h
      rfl
    · cases h
  all_goals (cases h; rfl)

/-- An element is complete with an event that closes it. -/
theorem Opened.eq_stop_of_feed {charset : Text.Charset} {o : Opened} {e : Event} {element : Element}
    (h : o.feed charset e = .ok (.inl element)) : e = .stop := by
  unfold feed at h
  split at h
  · obtain ⟨child, -, hmore⟩ := ok_of_map h
    cases hmore
  · rfl
  · split at h <;> cases h
  all_goals cases h

/-! ## Reading an element twice -/

/-- Reading an element through a document, in the given charset and with that many events to come, comes to the same as
reading it from its position on. -/
def Reading.Tracked (charset : Text.Charset) (bytes : List UInt8) (n : Nat) (r : Reader) (reading : Reading) : Prop :=
  reading.charset = charset ∧ ∃ t m around, n ≤ m ∧ r = t.within reading.position around ∧
    t.names.length = reading.opened.outer.length + 1 ∧
    nextElement charset (maxEvents bytes.length) (.ofBytes (bytes.drop reading.position)) =
      some <$> Opened.finish charset m reading.opened t

variable {charset : Text.Charset} {bytes : List UInt8} {n : Nat} {r s : Reader} {e : Event}

/-- At the start of an element, reading it from its position on has come to the same. -/
theorem tracked_start (hr : r.Of bytes) {name raw : List UInt8} (hnext : r.next = .event (.start name raw) s)
    {element : Element} (helement : startElement charset name raw = .ok element) (hn : n < maxEvents bytes.length) :
    Reading.Tracked charset bytes n s ⟨r.position, charset, ⟨element, []⟩⟩ := by
  obtain ⟨t, ht, hs⟩ := hr.next_ofBytes hnext
  refine ⟨rfl, t, 2 * bytes.length + 1, r.names, Nat.lt_succ_iff.1 hn, hs, Reader.names_next ht, ?_⟩
  show nextElement charset (2 * bytes.length + 1 + 1) _ = _
  rw [nextElement]
  simp only [ht, helement]
  rfl

/-- One event more: either both are at the end of the element, or both go on. -/
theorem Reading.Tracked.feed {reading : Reading} (h : reading.Tracked charset bytes (n + 1) r)
    (hnext : r.next = .event e s) :
    (∀ element, reading.opened.feed reading.charset e = .ok (.inl element) →
      nextElement charset (maxEvents bytes.length) (.ofBytes (bytes.drop reading.position)) = .ok (some element)) ∧
    ∀ opened, reading.opened.feed reading.charset e = .ok (.inr opened) →
      Reading.Tracked charset bytes n s { reading with opened := opened } := by
  obtain ⟨hcharset, t, m, around, hm, rfl, hnames, hfinish⟩ := h
  have hopen : t.names ≠ [] := List.ne_nil_of_length_eq_add_one hnames
  obtain ⟨m, rfl⟩ := Nat.exists_eq_succ_of_ne_zero (Nat.ne_of_gt (Nat.lt_of_lt_of_le n.succ_pos hm))
  rw [Reader.next_within hopen] at hnext
  cases ht : t.next with
  | done =>
    rw [ht] at hnext
    cases hnext
  | malformed =>
    rw [ht] at hnext
    cases hnext
  | event e t' =>
    rw [ht] at hnext
    cases hnext
    rw [Opened.finish] at hfinish
    simp only [ht] at hfinish
    constructor
    · intro element hfeed
      rw [hcharset] at hfeed
      rw [hfinish, hfeed]
      rfl
    · intro opened hfeed
      rw [hcharset] at hfeed
      rw [hfeed] at hfinish
      refine ⟨hcharset, t', m, around, Nat.le_of_succ_le_succ hm, rfl, ?_, hfinish⟩
      rw [Reader.names_next ht, hnames, Opened.length_feed hfeed]

/-! ## Selected elements -/

/-- There is no event behind a place, or there is a first one. -/
theorem scanFrom_cases (n : Nat) (r : Reader) : (scanFrom n r).1 = [] ∨ ∃ m e s, n = m + 1 ∧ r.next = .event e s ∧
    (scanFrom n r).1 = (r.position, e) :: (scanFrom m s).1 := by
  cases n with
  | zero => exact .inl rfl
  | succ m =>
    rw [scanFrom]
    cases hnext : r.next with
    | done => exact .inl rfl
    | malformed => exact .inl rfl
    | event e s => exact .inr ⟨m, e, s, rfl, rfl, rfl⟩

/-- No element is selected where no event is left. -/
theorem reached_selectFrom_nil (path : Path) (complete : Bool) (charset : Text.Charset) (names : List String)
    (reading : Option Reading) : reached (selectFrom path complete charset names reading []) = [] := by
  cases reading with
  | none =>
    unfold selectFrom
    split <;> rfl
  | some reading => rfl

/-- **Each element that is selected is the one that is read from its position on**, in the charset known at the end. -/
theorem nextElement_of_selectFrom (path : Path) (complete : Bool) : ∀ (n : Nat) (r : Reader) (current : Text.Charset)
    (names : List String) (reading : Option Reading), r.Of bytes → n ≤ maxEvents bytes.length →
    DeclaredFirst (scanFrom n r).1 → (scanFrom n r).1.foldl (fun c e => charsetAfter c e.2) current = charset →
    (∀ x ∈ reading, x.Tracked charset bytes n r) →
    ∀ found ∈ reached (selectFrom path complete current names reading (scanFrom n r).1),
      nextElement charset (maxEvents bytes.length) (.ofBytes (bytes.drop found.1)) = .ok (some found.2) := by
  intro n
  induction n with
  | zero =>
    intro r current names reading _ _ _ _ _ found hfound
    rw [show (scanFrom 0 r).1 = [] from rfl, reached_selectFrom_nil] at hfound
    exact absurd hfound List.not_mem_nil
  | succ n ih =>
    intro r current names reading hr hn hdeclared hcharset htracked found hfound
    obtain hnil | ⟨m, e, s, hm, hnext, hscan⟩ := scanFrom_cases (n + 1) r
    · rw [hnil, reached_selectFrom_nil] at hfound
      exact absurd hfound List.not_mem_nil
    · obtain rfl : n = m := Nat.succ.inj hm
      rw [hscan] at hdeclared hcharset hfound
      obtain ⟨hfirst, hrest⟩ := List.pairwise_cons.1 hdeclared
      have hs := hr.next hnext
      have on (names : List String) (reading : Option Reading) (hx : ∀ x ∈ reading, x.Tracked charset bytes n s) :=
        ih s (charsetAfter current e) names reading hs (Nat.le_of_succ_le hn) hrest hcharset hx found
      cases reading with
      | some reading =>
        obtain ⟨hend, hgo⟩ := (htracked reading rfl).feed hnext
        unfold selectFrom at hfound
        split at hfound
        · exact absurd hfound List.not_mem_nil
        · rename_i element hfeed
          rcases List.mem_cons.1 hfound with rfl | hfound
          · exact hend element hfeed
          · obtain rfl := Opened.eq_stop_of_feed hfeed
            exact on _ none nofun hfound
        · rename_i opened hfeed
          refine on _ _ ?_ hfound
          rintro x ⟨⟩
          exact hgo opened hfeed
      | none =>
        cases e with
        | start name raw =>
          simp only [selectFrom] at hfound
          split at hfound
          · split at hfound
            · exact absurd hfound List.not_mem_nil
            · rename_i element helement
              -- behind the start of an element the charset does not change any more
              obtain rfl : current = charset :=
                (foldl_charsetAfter fun e he => hfirst e he rfl).symm.trans hcharset
              refine on _ _ ?_ hfound
              rintro x ⟨⟩
              exact tracked_start hr hnext helement hn
          · exact on _ none nofun hfound
        | _ => exact on _ none nofun hfound

/-- **Each element that a path selects is the one that is read at its position.** -/
theorem elementAt_of_select {path : Path} (h : DeclaredFirst (scan bytes).1) : ∀ found ∈ reached (select path bytes),
    elementAt (Xml.charset bytes) (.ofBytes bytes) found.1 = .ok (some found.2) := by
  intro found hfound
  rw [elementAt, Pages.after_ofBytes, Pages.size_ofBytes]
  exact nextElement_of_selectFrom path (scan bytes).2 _ (.ofBytes bytes) .utf8 [] none (Reader.of_ofBytes bytes)
    (Nat.le_refl _) h rfl nofun found hfound

/-- There is no element behind the end. -/
theorem lt_length_of_elementAt {position : Position} {element : Element}
    (h : elementAt charset (.ofBytes bytes) position = .ok (some element)) : position < bytes.length := by
  refine Nat.lt_of_not_le fun hle => ?_
  rw [elementAt, Pages.after_ofBytes, List.drop_eq_nil_of_le hle] at h
  cases h

end Xml

namespace Input

variable {fs : FileSystem} {i : Input} {f : File} {path : Xml.Path} {properties : List (String × Xml.Property)}
  {charset : Text.Charset}

/-- The record of an element that may be found at a position. -/
def ofElement? (i : Input) (properties : List (String × Xml.Property)) (position : Position) :
    Except Fault (Option Xml.Element) → Except Fault Record
  | .error fault => .error fault
  | .ok none => .error (i.missing position)
  | .ok (some e) => i.ofElement properties position e

theorem loadFrom_document (hc : i.content = .document path properties charset) (pages : Pages) (head : Csv.Head)
    {position : Position} (hle : position ≤ maxOffset) : (i.loadFrom pages head position).1 =
      i.ofElement? properties position (Xml.elementAt charset pages position) := by
  unfold loadFrom
  simp only [hc, if_neg (Nat.not_lt.2 hle)]
  rcases Xml.elementAt charset pages position with fault | (_ | e) <;> rfl

variable {parsers : Parsers} {place name file : String} {config : Config.Input}
  {recordPath : String} {selections : List (String × Config.Selection)}

/-- The content of an input for a document, all of whose elements have been read. -/
theorem content_of_xml {bytes : List UInt8} (hlayout : config.layout = .xml recordPath selections)
    (h : examine parsers place file bytes config.layout = .ok (i.content, i.size)) :
    ∃ path properties, ∃ found : List (Position × Xml.Element),
      i.content = .document path properties (Xml.charset bytes) ∧ Xml.select path bytes = found.map .ok ∧
        i.size = found.length := by
  rw [hlayout] at h
  obtain ⟨path, -, h⟩ := ok_of_bind h
  obtain ⟨properties, -, h⟩ := ok_of_bind h
  obtain ⟨found, hfound, h⟩ := ok_of_bind h
  obtain ⟨hcontent, hsize⟩ := Prod.mk.inj (Except.ok.inj h)
  refine ⟨path, properties, found, hcontent.symm, ?_, hsize.symm⟩
  cases hall : (Xml.select path bytes).mapM id with
  | error fault =>
    rw [hall] at hfound
    cases hfound
  | ok all =>
    rw [hall] at hfound
    cases hfound
    exact all_of_mapM_id hall

end Input

end RecordServer
