import RecordServer.Proofs.Xml.Selection
import RecordServer.Proofs.Xml.Steps
import RecordServer.Xml.Property

/-!
# Texts within an element

What is written in an element are texts and CDATA sections in some order (`Content.pieces`), with child elements between
them. The tree keeps the pieces which stand directly in an element apart from its children, so that the content of an
element has them in another order: first its own pieces, then those of each child, gathered in the same way
(`Content.gathered`, `Written.content_element`). Nothing is lost or repeated (`Content.gathered_perm`), and the order is
that of the document if no text stands behind a child with text (`Content.join_gathered`).

To tell two elements of a document apart which look the same in the tree, paths are followed through what is written:
`Content.listing` has the elements of `Element.listings`, and `Written.find?` leads to those of `Element.find?`.
`select_content` brings both together for the properties of the records of a document.
-/

namespace RecordServer.Xml

variable {charset : Text.Charset}

/-! ## Elements as they are written -/

/-- An element as it is written: its start tag, and what stands between this and the end tag. -/
structure Written (charset : Text.Charset) where
  tag : Tag charset
  inner : Content charset

namespace Written

/-- The name of the element. -/
def name (w : Written charset) : String := charset.decode w.tag.name.bytes

/-- The element in the tree. -/
def element (w : Written charset) : Element := w.tag.element w.inner.text w.inner.elements

end Written

namespace Content

/-- The elements directly in the content; in an element without an end tag there is the empty text. -/
def children : Content charset → List (Written charset)
  | last _ => []
  | element _ tag inner _ rest => ⟨tag, inner⟩ :: rest.children
  | empty _ tag rest => ⟨tag, .last .empty⟩ :: rest.children
  | verbatim _ _ _ rest => rest.children
  | aside _ _ rest => rest.children

/-- The elements in the content and within these, each with the names from the root down to it, in document order. -/
def listing (around : List String) : Content charset → List (List String × Written charset)
  | last _ => []
  | element _ tag inner _ rest =>
    let w : Written charset := ⟨tag, inner⟩
    (around ++ [w.name], w) :: (inner.listing (around ++ [w.name]) ++ rest.listing around)
  | empty _ tag rest =>
    let w : Written charset := ⟨tag, .last .empty⟩
    (around ++ [w.name], w) :: rest.listing around
  | verbatim _ _ _ rest => rest.listing around
  | aside _ _ rest => rest.listing around

/-- What a path selects among the elements in the content and within these. -/
def among (path : Path) (c : Content charset) : List (Written charset) :=
  ((c.listing []).filter fun x => path.selects x.1).map Prod.snd

end Content

theorem Characters.value_empty : (Characters.empty : Characters charset).value = "" := value_eq_empty rfl

/-- An element without an end tag is empty in the tree. -/
theorem Written.element_empty (tag : Tag charset) :
    element ⟨tag, .last .empty⟩ = tag.element "" [] := by
  rw [element, Content.text, Characters.value_empty, Content.elements]

namespace Content

theorem map_element_children (c : Content charset) : c.children.map Written.element = c.elements := by
  induction c with
  | last text => rfl
  | element before tag inner behind rest _ ih => rw [children, elements, List.map_cons, ih, Written.element]
  | empty before tag rest ih => rw [children, elements, List.map_cons, ih, Written.element_empty]
  | verbatim before bytes plain rest ih => exact ih
  | aside before markup rest ih => exact ih

theorem map_element_listing (c : Content charset) (around : List String) :
    (c.listing around).map (Prod.map id Written.element) = Element.listings around c.elements := by
  induction c generalizing around with
  | last text => rfl
  | element before tag inner behind rest ihInner ih =>
    rw [listing, elements, List.map_cons, List.map_append, ihInner, ih]
    rfl
  | empty before tag rest ih =>
    rw [listing, elements, List.map_cons, ih, Prod.map, Written.element_empty]
    rfl
  | verbatim before bytes plain rest ih => exact ih around
  | aside before markup rest ih => exact ih around

/-- A path selects the same elements from what is written as from the tree. -/
theorem map_element_among (path : Path) (c : Content charset) :
    (c.among path).map Written.element = path.among [] c.elements := by
  rw [among, Path.among, ← map_element_listing, List.filter_map, List.map_map, List.map_map]
  rfl

end Content

/-- The written element to which an address leads. -/
def Written.find? : Written charset → Address → Option (Written charset)
  | w, [] => some w
  | w, n :: rest => w.inner.children[n]?.bind fun child => child.find? rest

theorem Written.find?_element (w : Written charset) (a : Address) :
    w.element.find? a = (w.find? a).map Written.element := by
  induction a generalizing w with
  | nil => rfl
  | cons n rest ih =>
    rw [Element.find?, find?, show w.element.children = w.inner.elements from rfl, ← Content.map_element_children,
      List.getElem?_map, Option.bind_map, Option.map_bind]
    exact congrArg _ (funext ih)

/-! ## Pieces of text -/

namespace Content

/-- The texts and CDATA sections in the content and within its elements, in document order. -/
def pieces : Content charset → List String
  | last text => [text.value]
  | element before _ inner _ rest => before.value :: (inner.pieces ++ rest.pieces)
  | empty before _ rest => before.value :: rest.pieces
  | verbatim before bytes _ rest => before.value :: charset.decode bytes :: rest.pieces
  | aside before _ rest => before.value :: rest.pieces

/-- The texts and CDATA sections directly in the content. -/
def own : Content charset → List String
  | last text => [text.value]
  | element before _ _ _ rest => before.value :: rest.own
  | empty before _ rest => before.value :: rest.own
  | verbatim before bytes _ rest => before.value :: charset.decode bytes :: rest.own
  | aside before _ rest => before.value :: rest.own

/-- The texts and CDATA sections within the elements of the content, element by element, in each first its own ones. -/
def enclosed : Content charset → List String
  | last _ => []
  | element _ _ within _ rest => within.own ++ (within.enclosed ++ rest.enclosed)
  | empty _ _ rest => rest.enclosed
  | verbatim _ _ _ rest => rest.enclosed
  | aside _ _ rest => rest.enclosed

/-- The texts and CDATA sections, those which stand directly in the content in front. -/
def gathered (c : Content charset) : List String := c.own ++ c.enclosed

/-- Whether no text stands behind an element with text, neither here nor within the elements. -/
def isTextFirst : Content charset → Bool
  | last _ => true
  | element _ _ within _ rest =>
    within.isTextFirst && rest.isTextFirst && (String.join within.pieces = "" || rest.text = "")
  | empty _ _ rest => rest.isTextFirst
  | verbatim _ _ _ rest => rest.isTextFirst
  | aside _ _ rest => rest.isTextFirst

theorem join_own (c : Content charset) : String.join c.own = c.text := by
  induction c with
  | last t => rw [own, text, String.join_cons, String.join_nil, String.append_empty]
  | element before tag within behind rest _ ih => rw [own, text, String.join_cons, ih]
  | empty before tag rest ih => rw [own, text, String.join_cons, ih]
  | verbatim before bytes plain rest ih => rw [own, text, String.join_cons, String.join_cons, ih]
  | aside before markup rest ih => rw [own, text, String.join_cons, ih]

theorem contents_elements (c : Content charset) : Element.contents c.elements = String.join c.enclosed := by
  induction c with
  | last text => rfl
  | element before tag within behind rest ihWithin ih =>
    rw [elements, enclosed, Element.contents, Tag.element, Element.content, ihWithin, ih, String.join_append,
      String.join_append, join_own, String.append_assoc]
  | empty before tag rest ih =>
    rw [elements, enclosed, Element.contents, Tag.element, Element.content, ih]
    simp [Element.contents]
  | verbatim before bytes plain rest ih => exact ih
  | aside before markup rest ih => exact ih

/-- No piece is left out, and none comes twice. -/
theorem gathered_perm (c : Content charset) : c.gathered.Perm c.pieces := by
  induction c with
  | last text => exact .refl _
  | element before tag within behind rest ihWithin ih =>
    have hmoved : (rest.own ++ (within.own ++ (within.enclosed ++ rest.enclosed))).Perm
        (within.gathered ++ rest.gathered) := by
      rw [← List.append_assoc within.own, gathered, gathered]
      exact List.perm_append_comm_assoc _ _ _
    exact .cons _ (hmoved.trans (ihWithin.append ih))
  | empty before tag rest ih => exact .cons _ ih
  | verbatim before bytes plain rest ih => exact .cons _ (.cons _ ih)
  | aside before markup rest ih => exact .cons _ ih

theorem join_gathered_eq (c : Content charset) :
    String.join c.gathered = String.join c.own ++ String.join c.enclosed := by
  rw [gathered, String.join_append]

/-- The gathered pieces are in document order if no text stands behind an element with text. -/
theorem join_gathered {c : Content charset} (h : c.isTextFirst = true) :
    String.join c.gathered = String.join c.pieces := by
  rw [join_gathered_eq]
  induction c with
  | last text => exact String.append_empty
  | element before tag within behind rest ihWithin ih =>
    simp only [isTextFirst, Bool.and_eq_true, Bool.or_eq_true, decide_eq_true_eq] at h
    obtain ⟨⟨hwithin, hrest⟩, hempty⟩ := h
    -- one of the two texts that change places is empty
    have hswap : String.join rest.own ++ String.join within.pieces =
        String.join within.pieces ++ String.join rest.own := by
      obtain hempty | hempty := hempty
      · rw [hempty, String.append_empty, String.empty_append]
      · rw [join_own, hempty, String.append_empty, String.empty_append]
    calc String.join (own (.element before tag within behind rest)) ++
          String.join (enclosed (.element before tag within behind rest))
        = before.value ++ (String.join rest.own ++
            (String.join within.own ++ String.join within.enclosed) ++ String.join rest.enclosed) := by
          simp only [own, enclosed, String.join_append, String.join_cons, String.append_assoc]
      _ = before.value ++ (String.join within.pieces ++ (String.join rest.own ++ String.join rest.enclosed)) := by
          rw [ihWithin hwithin, hswap, String.append_assoc]
      _ = String.join (pieces (.element before tag within behind rest)) := by
          rw [ih hrest, pieces, String.join_cons, String.join_append]
  | empty before tag rest ih =>
    rw [own, enclosed, pieces, String.join_cons, String.join_cons, String.append_assoc, ih h]
  | verbatim before bytes plain rest ih =>
    rw [own, enclosed, pieces, String.join_cons, String.join_cons, String.join_cons, String.join_cons,
      String.append_assoc, String.append_assoc, ih h]
  | aside before markup rest ih =>
    rw [own, enclosed, pieces, String.join_cons, String.join_cons, String.append_assoc, ih h]

end Content

/-- The content of an element is the row of its gathered pieces. -/
theorem Written.content_element (w : Written charset) : w.element.content = String.join w.inner.gathered := by
  rw [element, Tag.element, Element.content, Content.contents_elements, Content.join_gathered_eq, Content.join_own]

/-! ## Properties of records -/

/-- A primitive property is parsed from the content of the element which its path selects first. -/
theorem Property.apply_primitive {parsers : Parsers} {path : Path} {parser : Parser} {e : Element} {l : Located}
    (h : (path.select e).head? = some (.element l)) :
    apply parsers (.primitive path parser) e = parsers.parse parser l.2.content := by
  obtain ⟨rest, hselect⟩ := List.head?_eq_some_iff.1 h
  rw [apply, hselect]
  rfl

/-- What a path selects from a written element is written in it. -/
theorem Written.exists_of_select {w : Written charset} {path : Path} {l : Located}
    (h : .element l ∈ path.select w.element) : ∃ x, w.find? l.1 = some x ∧ l.2 = x.element := by
  have hfound := Path.find?_of_mem_elements (Path.mem_elements.2 h)
  rw [find?_element, Option.map_eq_some_iff] at hfound
  obtain ⟨x, hx, hsame⟩ := hfound
  exact ⟨x, hx, hsame.symm⟩

/-- **The text of an element.** The records of a document are elements that are written in it. If a primitive property,
in place of a record or of an element within it, selects an element first, this is written there as well, and the
property is parsed from all texts and CDATA sections within it, where texts come without the blanks around them: first
those which stand directly in it, then those of each child, in the same order. If no text stands behind an element with
text, this is the order of the document. -/
theorem select_content (d : Document charset) (record : Path) :
    (select record d.bytes).map (Except.map Prod.snd) = (d.content.strip.among record).map (fun r => .ok r.element) ∧
      ∀ r ∈ d.content.strip.among record, ∀ a place, r.find? a = some place →
        ∀ path l, (path.select place.element).head? = some (.element l) →
          ∃ w, place.find? l.1 = some w ∧ l.2 = w.element ∧
            (∀ parsers parser, Property.apply parsers (.primitive path parser) place.element =
              parsers.parse parser (String.join w.inner.gathered)) ∧
            w.inner.gathered.Perm w.inner.pieces ∧
            (w.inner.isTextFirst = true → String.join w.inner.gathered = String.join w.inner.pieces) := by
  constructor
  · rw [select_document, ← Content.map_element_among, List.map_map]
    rfl
  · intro r _ a place _ path l hfirst
    obtain ⟨w, hw, hsame⟩ := Written.exists_of_select (List.mem_of_mem_head? hfirst)
    refine ⟨w, hw, hsame, fun parsers parser => ?_, w.inner.gathered_perm, Content.join_gathered⟩
    rw [Property.apply_primitive hfirst, hsame, Written.content_element]

/-- Text in front of a child and behind it, and a blank in the child: `<t>x<u> y</u>z</t>`. -/
def mixed : Document .utf8 :=
  let noBlanks : Blanks := ⟨[], List.all_nil⟩
  let child : Tag .utf8 := ⟨⟨[117], by decide, by decide⟩, [], noBlanks, List.nodup_nil⟩
  { spaced with
    content :=
      .element .empty ⟨⟨[116], by decide, by decide⟩, [], noBlanks, List.nodup_nil⟩
        (.element (.ofBytes [120] (by decide)) child (.last (.ofBytes [32, 121] (by decide))) noBlanks
          (.last (.ofBytes [122] (by decide))))
        noBlanks (.last .empty) }

set_option maxRecDepth 4000 in
/-- In the text of the record the piece behind the child comes in front of that of the child; the text of the child is
as in the document. -/
theorem select_content_mixed : ∃ r, mixed.content.strip.among [.child none] = [r] ∧
    (∀ parsers parser,
      Property.apply parsers (.primitive [.current] parser) r.element = parsers.parse parser "xzy") ∧
    ∃ w, r.find? [0] = some w ∧ w.inner.isTextFirst = true ∧ String.join w.inner.pieces = "y" ∧
      ∀ parsers parser,
        Property.apply parsers (.primitive [.child none] parser) r.element = parsers.parse parser "y" := by
  have hamong : mixed.content.strip.among [.child none] = mixed.content.strip.children := by cbv
  obtain ⟨r, hr⟩ : ∃ r, mixed.content.strip.children = [r] := ⟨_, rfl⟩
  have hall := (select_content mixed [.child none]).2 r (by rw [hamong, hr]; exact List.mem_singleton.2 rfl) [] r rfl
  cases hr
  refine ⟨_, hamong, ?_, _, rfl, by cbv, by cbv, ?_⟩
  · obtain ⟨w, hw, -, happly, -, -⟩ := hall [.current] _ rfl
    cases hw
    intro parsers parser
    rw [happly, show String.join _ = "xzy" by cbv]
  · obtain ⟨w, hw, -, happly, -, hordered⟩ := hall [.child none] _ rfl
    cases hw
    intro parsers parser
    rw [happly, hordered (by cbv), show String.join _ = "y" by cbv]

set_option maxRecDepth 4000 in
/-- The record is parsed from another text than the document has in it, with the blank and also without it. So is the
root of each of the documents that the grammar leaves out, if it can be read at all. -/
theorem select_content_mixed_disorder : mixed.bytes = Text.Utf8.encode "<t>x<u> y</u>z</t>" ∧
    Path.ofAbsolute "/*" = .ok [.child none] ∧ Path.ofRelative "." = .ok [.current] ∧
    (mixed.content.among [.child none]).map (fun w => String.join w.inner.pieces) = ["x yz"] ∧
    (mixed.content.strip.among [.child none]).map (fun w => String.join w.inner.pieces) = ["xyz"] ∧
    (∃ e : Element, (select [.child none] mixed.bytes).map (Except.map Prod.snd) = [.ok e] ∧
      Property.apply ⟨Parsers.builtIn⟩ (.primitive [.current] ⟨"string", .string none⟩) e = .ok (.string "xzy")) ∧
    ∀ d ∈ leftOut, ∀ e, roots d.1 = [.ok e] →
      Property.apply ⟨Parsers.builtIn⟩ (.primitive [.current] ⟨"string", .string none⟩) e ≠ .ok (.string d.2.text) := by
  refine ⟨by cbv, by cbv, by cbv, by cbv, by cbv,
    ⟨.mk "t" [] "xz" [.mk "u" [] "y" []], by cbv, by cbv⟩, ?_⟩
  have hroots := roots_leftOut
  simp only [leftOut, List.map_cons, List.map_nil, List.cons.injEq, and_true] at hroots
  have hsection : Property.apply ⟨Parsers.builtIn⟩ (.primitive [.current] ⟨"string", .string none⟩)
      (.mk "a" [] "&lt;" []) = .ok (.string "&lt;") := by cbv
  have hcharset : Property.apply ⟨Parsers.builtIn⟩ (.primitive [.current] ⟨"string", .string none⟩)
      (.mk "a" [] "Ã©" []) = .ok (.string "Ã©") := by cbv
  simp only [leftOut, List.forall_mem_cons, hroots]
  simp [hsection, hcharset, Element.text]

end RecordServer.Xml
