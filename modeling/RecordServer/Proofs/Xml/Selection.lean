import Mathlib
import RecordServer.Proofs.Xml.Scanning

/-!
# Selecting from a document

A path selects from a tree the elements which it accepts and around which it accepts none (`Path.selects`), in the order
in which they begin (`listings`). What is selected from the bytes of a document while they are read is what is selected
from its tree, where texts come without the blanks around them (`select_document`). This needs the blanks to be left
out, and it does not hold for the documents which the grammar leaves out (`select_document_spaced`).

A row of events stands for a text and some elements if, within an element that is being read, these are added to it, and
otherwise the selected ones among these are found (`StandsFor`). The events of some content stand for its text and its
elements (`Content.standsFor`); the proof goes by the content and needs one lemma for each kind of event.
-/

namespace RecordServer.Xml

/-! ## Selecting from a tree -/

namespace Element

mutual

/-- The element and those within it, each with the names from the root down to it, in document order. -/
def listing (around : List String) : Element → List (List String × Element)
  | .mk name attributes text children =>
    (around ++ [name], .mk name attributes text children) :: listings (around ++ [name]) children

/-- Several elements with those within them. -/
def listings (around : List String) : List Element → List (List String × Element)
  | [] => []
  | e :: rest => listing around e ++ listings around rest

end

theorem listings_append (around : List String) : ∀ front behind : List Element,
    listings around (front ++ behind) = listings around front ++ listings around behind
  | [], _ => rfl
  | e :: front, behind => by
    rw [List.cons_append, listings, listings, listings_append around front behind, List.append_assoc]

mutual

/-- The names of an element begin with those of the elements around it. -/
theorem around_of_mem_listing {around : List String} : ∀ {e : Element} {x : List String × Element},
    x ∈ listing around e → around <+: x.1 ∧ around ≠ x.1
  | .mk name attributes text children, x, h => by
    rw [listing] at h
    obtain rfl | h := List.mem_cons.1 h
    · exact ⟨List.prefix_append around [name], by simp⟩
    · obtain ⟨hbegins, -⟩ := around_of_mem_listings h
      refine ⟨(List.prefix_append around [name]).trans hbegins, fun hsame => ?_⟩
      have := hbegins.length_le
      rw [← hsame, List.length_append, List.length_singleton] at this
      omega

theorem around_of_mem_listings {around : List String} : ∀ {es : List Element} {x : List String × Element},
    x ∈ listings around es → around <+: x.1 ∧ around ≠ x.1
  | [], _, h => absurd h List.not_mem_nil
  | e :: rest, x, h => by
    rw [listings] at h
    obtain h | h := List.mem_append.1 h
    · exact around_of_mem_listing h
    · exact around_of_mem_listings h

end

/-- The element with more text and more children. -/
def extend (e : Element) (text : String) (elements : List Element) : Element :=
  .mk e.name e.attributes (e.text ++ text) (e.children ++ elements)

theorem extend_nil (e : Element) : e.extend "" [] = e := by
  cases e
  simp [extend, name, attributes, text, children]

theorem extend_extend (e : Element) (text text' : String) (elements elements' : List Element) :
    (e.extend text elements).extend text' elements' = e.extend (text ++ text') (elements ++ elements') := by
  simp [extend, name, attributes, Element.text, children, String.append_assoc]

end Element

theorem Tag.extend_element {charset : Text.Charset} (tag : Tag charset) (text : String) (elements : List Element) :
    (tag.element "" []).extend text elements = tag.element text elements := by
  simp [element, Element.extend, Element.name, Element.attributes, Element.text, Element.children]

namespace Path

/-- Whether a path selects the element with these names from the root down: it accepts the element, but none of those
around it. -/
def selects (path : Path) (names : List String) : Bool :=
  path.accepts names && names.inits.all fun outer => outer = [] || outer = names || !path.accepts outer

/-- No element with these names is accepted, nor is one around it. -/
def Passes (path : Path) (names : List String) : Prop :=
  ∀ outer, outer <+: names → outer ≠ [] → path.accepts outer = false

variable {path : Path} {around : List String} {name : String}

theorem passes_nil (path : Path) : path.Passes [] := fun _ h hne => absurd (List.prefix_nil.1 h) hne

theorem Passes.snoc (h : path.Passes around) (hname : path.accepts (around ++ [name]) = false) :
    path.Passes (around ++ [name]) := by
  intro outer houter hne
  obtain rfl | houter := List.prefix_concat_iff.1 houter
  · exact hname
  · exact h outer houter hne

/-- An element within others that are not accepted is selected if it is accepted. -/
theorem Passes.selects (h : path.Passes around) :
    path.selects (around ++ [name]) = path.accepts (around ++ [name]) := by
  rw [Path.selects, Bool.and_eq_left_iff_imp]
  intro _
  refine List.all_eq_true.2 fun outer houter => ?_
  obtain rfl | houter := List.prefix_concat_iff.1 ((List.mem_inits _ _).1 houter)
  · simp
  · by_cases hne : outer = []
    · simp [hne]
    · simp [h outer houter hne]

/-- Within an element that is accepted none is selected. -/
theorem selects_of_accepts {outer names : List String} (h : path.accepts outer = true) (hne : outer ≠ [])
    (houter : outer <+: names) (hne' : outer ≠ names) : path.selects names = false := by
  refine Bool.and_eq_false_iff.2 (.inr (List.all_eq_false.2 ⟨outer, (List.mem_inits _ _).2 houter, ?_⟩))
  simp [h, hne, hne']

/-- What a path selects among some elements and those within them. -/
def among (path : Path) (around : List String) (elements : List Element) : List Element :=
  ((Element.listings around elements).filter fun x => path.selects x.1).map Prod.snd

theorem among_append (around : List String) (front behind : List Element) :
    path.among around (front ++ behind) = path.among around front ++ path.among around behind := by
  rw [among, Element.listings_append, List.filter_append, List.map_append]
  rfl

variable {charset : Text.Charset} {tag : Tag charset} {text : String} {elements : List Element}

/-- Of an element that is accepted nothing within is selected. -/
theorem Passes.among_accepted (h : path.Passes around)
    (haccepts : path.accepts (around ++ [charset.decode tag.name.bytes]) = true) :
    path.among around [tag.element text elements] = [tag.element text elements] := by
  have hwithin : (Element.listings (around ++ [charset.decode tag.name.bytes]) elements).filter
      (fun x => path.selects x.1) = [] := by
    refine List.filter_eq_nil_iff.2 fun x hx => ?_
    obtain ⟨hbegins, hne⟩ := Element.around_of_mem_listings hx
    simp [selects_of_accepts haccepts (by simp) hbegins hne]
  simp [among, Element.listings, Tag.element, Element.listing, h.selects, haccepts, hwithin]

/-- Of an element that is not accepted the selected ones within are selected. -/
theorem Passes.among_passed (h : path.Passes around)
    (haccepts : path.accepts (around ++ [charset.decode tag.name.bytes]) = false) :
    path.among around [tag.element text elements] =
      path.among (around ++ [charset.decode tag.name.bytes]) elements := by
  simp [among, Element.listings, Tag.element, Element.listing, h.selects, haccepts]

end Path

/-! ## Selecting from events -/

variable {path : Path} {charset : Text.Charset}

/-- A row of events without their positions. -/
def unplaced (events : List Event) : List (Position × Event) := events.map fun e => (0, e)

theorem unplaced_append (events more : List Event) : unplaced (events ++ more) = unplaced events ++ unplaced more :=
  List.map_append

/-- The places of events decide on the positions of the selected elements only. -/
theorem selectFrom_unplaced (complete : Bool) : ∀ (events : List (Position × Event)) (current : Text.Charset)
    (names : List String) (reading : Option Reading),
    (selectFrom path complete current names reading events).map (Except.map Prod.snd) =
      (selectFrom path complete current names (reading.map fun r => { r with position := 0 })
        (unplaced (events.map Prod.snd))).map (Except.map Prod.snd)
  | [], _, _, none => rfl
  | [], _, _, some _ => rfl
  | (position, event) :: rest, current, names, some r => by
    simp only [unplaced, List.map_cons, Option.map_some, selectFrom]
    cases r.opened.feed r.charset event with
    | error fault => rfl
    | ok fed =>
      cases fed with
      | inl element =>
        exact congrArg (Except.ok element :: ·) (selectFrom_unplaced complete rest current (names.drop 1) none)
      | inr opened =>
        exact selectFrom_unplaced complete rest (charsetAfter current event) names (some { r with opened := opened })
  | (position, event) :: rest, current, names, none => by
    have on := selectFrom_unplaced complete rest
    cases event with
    | start name raw =>
      simp only [unplaced, List.map_cons, Option.map_none, selectFrom]
      split_ifs
      · cases startElement current name raw with
        | error fault => rfl
        | ok element => exact on current _ (some ⟨position, current, ⟨element, []⟩⟩)
      · exact on current _ none
    | stop => exact on current (names.drop 1) none
    | _ => exact on _ names none

/-- What a row of events stands for: within an element, some text and some elements are added to it; outside, those
elements are found which the path selects among them. -/
structure StandsFor (path : Path) (charset : Text.Charset) (events : List Event) (text : String)
    (elements : List Element) : Prop where
  inside : ∀ (names : List String) (o : Opened) (more : List (Position × Event)),
    selectFrom path true charset names (some ⟨0, charset, o⟩) (unplaced events ++ more) =
      selectFrom path true charset names (some ⟨0, charset, ⟨o.element.extend text elements, o.outer⟩⟩) more
  outside : ∀ (around : List String) (more : List (Position × Event)), path.Passes around →
    selectFrom path true charset around.reverse none (unplaced events ++ more) =
      (path.among around elements).map (fun e => .ok (0, e)) ++
        selectFrom path true charset around.reverse none more

namespace StandsFor

variable {events more : List Event} {text text' : String} {elements elements' : List Element}

theorem nil : StandsFor path charset [] "" [] where
  inside names o more := by rw [Element.extend_nil]; rfl
  outside around more h := rfl

theorem append (h : StandsFor path charset events text elements) (h' : StandsFor path charset more text' elements') :
    StandsFor path charset (events ++ more) (text ++ text') (elements ++ elements') where
  inside names o rest := by
    rw [unplaced_append, List.append_assoc, h.inside, h'.inside, Element.extend_extend]
  outside around rest hpasses := by
    rw [unplaced_append, List.append_assoc, h.outside _ _ hpasses, h'.outside _ _ hpasses, Path.among_append,
      List.map_append, List.append_assoc]

theorem other : StandsFor path charset [.other] "" [] where
  inside names o more := by rw [Element.extend_nil]; rfl
  outside around more h := rfl

theorem addText_eq (e : Element) (text : String) : e.addText text = e.extend text [] := by
  cases e
  simp [Element.addText, Element.extend, Element.name, Element.attributes, Element.text, Element.children]

theorem characters (t : Characters charset) : StandsFor path charset t.events t.strip.value [] := by
  unfold Characters.events
  split_ifs with ht
  · rw [Characters.value_eq_empty ht]
    exact nil
  · constructor
    · intro names o more
      rw [← addText_eq]
      simp only [unplaced, List.map_cons, List.map_nil, List.singleton_append]
      rw [selectFrom]
      simp only [Opened.feed, t.strip.unescape?_bytes]
      rfl
    · intro around more h
      rfl

theorem verbatim {bytes : List UInt8} (h : bytes.any isSpecial = false) :
    StandsFor path charset [.verbatim bytes] (charset.decode bytes) [] where
  inside names o more := by
    have hescape : escape bytes = bytes := by
      refine (List.flatMap_congr fun b hb => ?_).trans (List.flatMap_singleton' bytes)
      have hother := eq_false_of_ne_true (List.any_eq_false.1 h b hb)
      simp only [isSpecial, List.contains_eq_mem, List.mem_cons, List.not_mem_nil, decide_eq_false_iff_not,
        not_or] at hother
      simp [hother]
    rw [← addText_eq]
    simp only [unplaced, List.map_cons, List.map_nil, List.singleton_append]
    rw [selectFrom]
    simp only [Opened.feed, hescape]
    rfl
  outside around more hpasses := rfl

theorem addChild_eq (e child : Element) : e.addChild child = e.extend "" [child] := by
  cases e
  simp [Element.addChild, Element.extend, Element.name, Element.attributes, Element.text, Element.children]

/-- **An element** stands for itself: it is added to the one around it or, if the path accepts it, found. -/
theorem element (h : StandsFor path charset events text elements) (tag : Tag charset) :
    StandsFor path charset (.start tag.name.bytes tag.raw :: (events ++ [.stop])) "" [tag.element text elements] where
  inside names o more := by
    rw [← List.cons_append, unplaced_append, List.append_assoc]
    simp only [unplaced, List.map_cons, List.map_nil, List.cons_append, List.nil_append]
    rw [selectFrom]
    simp only [Opened.feed, tag.startElement_raw]
    refine (h.inside _ _ _).trans ?_
    rw [selectFrom]
    simp only [Opened.feed, tag.extend_element, addChild_eq]
    rfl
  outside around more hpasses := by
    rw [← List.cons_append, unplaced_append, List.append_assoc]
    simp only [unplaced, List.map_cons, List.map_nil, List.cons_append, List.nil_append]
    rw [selectFrom]
    simp only [List.reverse_cons, List.reverse_reverse, tag.startElement_raw]
    cases haccepts : path.accepts (around ++ [charset.decode tag.name.bytes]) with
    | true =>
      rw [if_pos rfl, hpasses.among_accepted haccepts]
      refine (h.inside _ _ _).trans ?_
      rw [selectFrom]
      simp only [Opened.feed, tag.extend_element]
      rfl
    | false =>
      rw [if_neg Bool.false_ne_true, hpasses.among_passed haccepts]
      have hinner := h.outside _ ((0, .stop) :: more) (hpasses.snoc haccepts)
      rw [List.reverse_append] at hinner
      exact hinner

end StandsFor

/-- **Content** stands for its text and its elements, without the blanks around texts. -/
theorem Content.standsFor : ∀ c : Content charset, StandsFor path charset c.events c.strip.text c.strip.elements
  | last text => .characters text
  | element before tag inner behind rest => by
    have h : StandsFor path charset _ _ _ :=
      (StandsFor.characters before).append ((inner.standsFor.element tag).append rest.standsFor)
    simpa [events, strip, text, elements] using h
  | empty before tag rest => by
    have h : StandsFor path charset _ _ _ :=
      (StandsFor.characters before).append ((StandsFor.nil.element tag).append rest.standsFor)
    simpa [events, strip, text, elements] using h
  | verbatim before bytes plain rest => by
    have h : StandsFor path charset _ _ _ :=
      (StandsFor.characters before).append ((StandsFor.verbatim plain).append rest.standsFor)
    simpa [events, strip, text, elements] using h
  | aside before markup rest => by
    have h : StandsFor path charset _ _ _ :=
      (StandsFor.characters before).append (StandsFor.other.append rest.standsFor)
    simpa [events, strip, text, elements] using h

/-- Nothing is selected outside of all elements, where the charset is declared. -/
theorem selectFrom_front (more : List (Position × Event)) : ∀ (front : List Event) (current : Text.Charset),
    (∀ e ∈ front, e.isOutside = true) → selectFrom path true current [] none (unplaced front ++ more) =
      selectFrom path true (front.foldl charsetAfter current) [] none more
  | [], _, _ => rfl
  | e :: front, current, h => by
    obtain ⟨he, hfront⟩ := List.forall_mem_cons.1 h
    have on := selectFrom_front more front (charsetAfter current e) hfront
    cases e with
    | start name raw => cases he
    | stop => cases he
    | _ => exact on

/-- **Selecting from the bytes of a document is selecting from its tree.** The elements that are found in a document
are those which the path accepts and around which it accepts none, each once, in document order and with everything
within them, where texts come without the blanks around them. -/
theorem select_document (path : Path) (d : Document charset) : (select path d.bytes).map (Except.map Prod.snd) =
    (path.among [] d.content.strip.elements).map .ok := by
  obtain ⟨front, hfront, hcharset, hevents, hcomplete⟩ := scan_document d
  have hcontent := (@Content.standsFor path charset d.content).outside [] [] path.passes_nil
  rw [List.append_nil] at hcontent
  calc (select path d.bytes).map (Except.map Prod.snd)
      = (selectFrom path true .utf8 [] none (unplaced ((scan d.bytes).1.map Prod.snd))).map (Except.map Prod.snd) := by
        rw [show select path d.bytes = selectFrom path (scan d.bytes).2 .utf8 [] none (scan d.bytes).1 from rfl,
          hcomplete]
        exact selectFrom_unplaced true (scan d.bytes).1 .utf8 [] none
    _ = (selectFrom path true charset [] none (unplaced d.content.events)).map (Except.map Prod.snd) := by
        rw [hevents, unplaced_append, selectFrom_front _ front _ hfront, hcharset]
    _ = (path.among [] d.content.strip.elements).map .ok := by
        rw [show selectFrom path true charset [] none (unplaced d.content.events) = _ from hcontent]
        simp [selectFrom, Except.map]

/-- A document with everything that may stand in one. -/
def annotated : Document .utf8 :=
  let noBlanks : Blanks := ⟨[], by decide⟩
  let space : Blanks := ⟨[32], by decide⟩
  let a : Name := ⟨[97], by decide, by decide⟩
  let version : Attribute .utf8 :=
    ⟨space, ⟨[118, 101, 114, 115, 105, 111, 110], by decide, by decide⟩, noBlanks, space, 34, .ofBytes [49] (by decide),
      by decide, by decide, by decide⟩
  let angle : Attribute .utf8 :=
    ⟨space, a, noBlanks, noBlanks, 39,
      ⟨[.byte 62, .reference ⟨[103, 116], [62], by decide, by decide⟩], by decide⟩, by decide, by decide, by decide⟩
  let inner : Content .utf8 :=
    .empty (.ofBytes [10] (by decide)) ⟨a, [], noBlanks, by decide⟩ <|
      .verbatim .empty [32, 121] (by decide) (.last (.ofBytes [122, 32] (by decide)))
  { declaration := some ⟨true, ⟨⟨[120, 109, 108], by decide, by decide⟩, [version], noBlanks, by decide⟩, rfl,
      by decide, by decide, rfl⟩
    content :=
      .aside .empty (.doctype [32, 98, 32, 91, 60, 33, 45, 45, 62, 93] (by decide) (by decide)) <|
      .element .empty ⟨⟨[98], by decide, by decide⟩, [], noBlanks, by decide⟩
        (.element .empty ⟨a, [angle], noBlanks, by decide⟩ inner space <|
          .aside .empty (.comment [62, 45, 62] (by decide)) <| .last .empty) noBlanks <|
      .aside .empty (.instruction [112] (by decide) (by decide) (by decide)) (.last .empty)
    undeclared := fun h => by cases h
    ascii := by decide }

set_option maxRecDepth 4000 in
example : annotated.bytes = 0xEF :: 0xBB :: 0xBF :: Text.Utf8.encode
    "<?xml version= \"1\"?><!DOCTYPE b [<!-->]><b><a a='>&gt;'>\n<a/><![CDATA[ y]]>z </a ><!-->->--></b><?p?>" := by cbv

set_option maxRecDepth 4000 in
example : (select [.descendant (some "a")] annotated.bytes).map (Except.map Prod.snd) =
    [.ok (.mk "a" [("a", ">>")] " yz" [.mk "a" [] "" []])] := by cbv

/-- A text with blanks around it, in an element whose attribute has some as well: `<a b=' y '> x </a>`. -/
def spaced : Document .utf8 where
  declaration := none
  content := .element .empty
    ⟨⟨[97], by decide, by decide⟩,
      [⟨⟨[32], by decide⟩, ⟨[98], by decide, by decide⟩, ⟨[], by decide⟩, ⟨[], by decide⟩, 39,
        .ofBytes [32, 121, 32] (by decide), by decide, by decide, by decide⟩], ⟨[], by decide⟩, by decide⟩
    (.last (.ofBytes [32, 120, 32] (by decide))) ⟨[], by decide⟩ (.last .empty)
  undeclared _ := rfl
  ascii := by decide

/-- A text of ASCII characters in UTF-16, behind a byte order mark. -/
def utf16 (text : String) : List UInt8 := 0xFF :: 0xFE :: (Text.Utf8.encode text).flatMap fun b => [b, 0]

/-- Well-formed documents which the grammar leaves out, each with its root element: a reference with many digits, one to
an entity of the document itself, `>` in a processing instruction, `<` without its partner in a document type, a special
character in a CDATA section, a reference to a character beyond ASCII in another charset than UTF-8, and a document in
UTF-16. -/
def leftOut : List (List UInt8 × Element) :=
  [(Text.Utf8.encode "<a>&#00000065;</a>", .mk "a" [] "A" []),
    (Text.Utf8.encode "<!DOCTYPE a [<!ENTITY e 'x'>]><a>&e;</a>", .mk "a" [] "x" []),
    (Text.Utf8.encode "<?p x>y?><a>z</a>", .mk "a" [] "z" []),
    (Text.Utf8.encode "<!DOCTYPE a [<!--<-->]><a>z</a>", .mk "a" [] "z" []),
    (Text.Utf8.encode "<a><![CDATA[<]]></a>", .mk "a" [] "<" []),
    (Text.Utf8.encode "<?xml version='1.0' encoding='ISO-8859-1'?><a>&#233;</a>", .mk "a" [] "é" []),
    (utf16 "<a>z</a>", .mk "a" [] "z" [])]

/-- What is found at the root of a document. -/
def roots (bytes : List UInt8) : List (Except Fault Element) :=
  (select [.child none] bytes).map (Except.map Prod.snd)

set_option maxRecDepth 4000 in
/-- Most of these documents cannot be read, and in the others the root has another text. -/
theorem roots_leftOut : leftOut.map (fun d => roots d.1) =
    [[.error (.external .xml)], [.error (.external .xml)], [.error (.external .xml)], [.error (.external .xml)],
      [.ok (.mk "a" [] "&lt;" [])], [.ok (.mk "a" [] "Ã©" [])],
      [.error (Cause.unclosedElement "\x00a\x00")]] := by cbv

set_option maxRecDepth 4000 in
/-- The blanks around the text are in the tree of the document as it is written, but not in what is found. Nor is the
tree found of any of the documents which are left out. -/
theorem select_document_spaced : spaced.bytes = Text.Utf8.encode "<a b=' y '> x </a>" ∧
    Path.ofAbsolute "/*" = .ok [.child none] ∧
    (select [.child none] spaced.bytes).map (Except.map Prod.snd) ≠
      (Path.among [.child none] [] spaced.content.elements).map .ok ∧
    ∀ d ∈ leftOut, roots d.1 ≠ (Path.among [.child none] [] [d.2]).map .ok := by
  have hfound : (select [.child none] spaced.bytes).map (Except.map Prod.snd) =
      [.ok (.mk "a" [("b", " y ")] "x" [])] := by cbv
  have htree : Path.among [.child none] [] spaced.content.elements = [.mk "a" [("b", " y ")] " x " []] := by cbv
  have hleftOut := roots_leftOut
  simp only [leftOut, List.map_cons, List.map_nil, List.cons.injEq, and_true] at hleftOut
  obtain ⟨hdigits, hentity, hinstruction, hdoctype, hsection, hcharset, hwide⟩ := hleftOut
  have hroot (text : String) : Path.among [.child none] [] [.mk "a" [] text []] = [.mk "a" [] text []] := by cbv
  refine ⟨by cbv, by cbv, ?_, ?_⟩
  · rw [hfound, htree]
    simp
  · simp [leftOut, hroot, hdigits, hentity, hinstruction, hdoctype, hsection, hcharset, hwide]

end RecordServer.Xml
