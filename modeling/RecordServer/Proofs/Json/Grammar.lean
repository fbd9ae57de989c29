import RecordServer.Json.Elements
import RecordServer.Text.Utf8

/-!
# The grammar of JSON

The texts which RFC 8259 derives, as bytes in UTF-8 (`Derives`), and the arrays among them all of whose elements are
objects, together with the ranges of bytes at which these stand (`ObjectArray`). Such an array is a text of the grammar
(`ObjectArray.derives`).

How an array is laid out is stated for any blanks and any kind of elements (`ArrayOf`), so that it can be said of bytes
which are no JSON as well. The elements are found at their ranges, which ascend and do not overlap (`ArrayOf.placed`).
-/

namespace RecordServer.Json

/-! ## Numbers and strings -/

/-- Space, tab, line feed or carriage return. -/
def isBlankByte (b : UInt8) : Bool := b = 32 || b = 9 || b = 10 || b = 13

/-- The digits 0 to 9. -/
def isDigitByte (b : UInt8) : Bool := 48 ≤ b && b ≤ 57

/-- The digits of hexadecimal numbers, of either case. -/
def isHexByte (b : UInt8) : Bool := isDigitByte b || 65 ≤ b && b ≤ 70 || 97 ≤ b && b ≤ 102

/-- All bytes are of a kind. -/
def Only (kind : UInt8 → Bool) (bytes : List UInt8) : Prop := ∀ b ∈ bytes, kind b = true

instance (kind : UInt8 → Bool) (bytes : List UInt8) : Decidable (Only kind bytes) :=
  decidable_of_iff (bytes.all kind = true) List.all_eq_true

theorem Only.imp {kind other : UInt8 → Bool} {bytes : List UInt8} (h : Only kind bytes)
    (himp : ∀ b, kind b = true → other b = true) : Only other bytes := fun b hb => himp b (h b hb)

theorem Only.append {kind : UInt8 → Bool} {bytes more : List UInt8} (h : Only kind bytes) (h' : Only kind more) :
    Only kind (bytes ++ more) := List.forall_mem_append.2 ⟨h, h'⟩

theorem Only.cons {kind : UInt8 → Bool} {b : UInt8} {bytes : List UInt8} (hb : kind b = true) (h : Only kind bytes) :
    Only kind (b :: bytes) := List.forall_mem_cons.2 ⟨hb, h⟩

theorem only_nil (kind : UInt8 → Bool) : Only kind [] := List.forall_mem_nil _

/-- The integer part of a number has no leading zero. -/
inductive IntegerPart : List UInt8 → Prop
  | zero : IntegerPart [48]
  | digits {b : UInt8} {ds : List UInt8} (hb : isDigitByte b = true) (hne : b ≠ 48) (hds : Only isDigitByte ds) :
    IntegerPart (b :: ds)

/-- The fraction of a number, which may be absent. -/
inductive FractionPart : List UInt8 → Prop
  | none : FractionPart []
  | digits {ds : List UInt8} (hne : ds ≠ []) (hds : Only isDigitByte ds) : FractionPart (46 :: ds)

/-- The exponent of a number, which may be absent. -/
inductive ExponentPart : List UInt8 → Prop
  | none : ExponentPart []
  | digits {e : UInt8} {sign ds : List UInt8} (he : e = 101 ∨ e = 69) (hsign : sign ∈ [[], [43], [45]]) (hne : ds ≠ [])
    (hds : Only isDigitByte ds) : ExponentPart (e :: (sign ++ ds))

/-- A number. -/
inductive Number : List UInt8 → Prop
  | mk {sign integer fraction exponent : List UInt8} (hsign : sign ∈ [[], [45]]) (hi : IntegerPart integer)
    (hf : FractionPart fraction) (he : ExponentPart exponent) : Number (sign ++ (integer ++ (fraction ++ exponent)))

/-- What stands between the quotes of a string. -/
inductive Chars : List UInt8 → Prop
  | nil : Chars []
  | plain {c : Char} {rest : List UInt8} (hcontrol : 32 ≤ c.toNat) (hquote : c ≠ '"') (hescape : c ≠ '\\')
    (h : Chars rest) : Chars (Text.Utf8.encodeChar c ++ rest)
  | escape {b : UInt8} {rest : List UInt8} (hb : b ∈ [34, 92, 47, 98, 102, 110, 114, 116]) (h : Chars rest) :
    Chars (92 :: b :: rest)
  | unicode {unit rest : List UInt8} (hlength : unit.length = 4) (hunit : Only isHexByte unit) (h : Chars rest) :
    Chars (92 :: 117 :: (unit ++ rest))

/-- A string. -/
inductive Quoted : List UInt8 → Prop
  | mk {cs : List UInt8} (h : Chars cs) : Quoted (34 :: (cs ++ [34]))

/-! ## Values -/

/-- What can be derived: an item is a value with blanks around it. -/
inductive Symbol where
  | value
  | item
  | object
  | elements
  | member
  | members

/-- `null`, `true` and `false`. -/
def words : List (List UInt8) := [[110, 117, 108, 108], [116, 114, 117, 101], [102, 97, 108, 115, 101]]

/-- The bytes that are derived from a symbol. -/
inductive Derives : Symbol → List UInt8 → Prop
  | word {w : List UInt8} (h : w ∈ words) : Derives .value w
  | number {n : List UInt8} (h : Number n) : Derives .value n
  | quoted {q : List UInt8} (h : Quoted q) : Derives .value q
  | emptyArray {w : List UInt8} (hw : Only isBlankByte w) : Derives .value (91 :: (w ++ [93]))
  | array {es : List UInt8} (h : Derives .elements es) : Derives .value (91 :: (es ++ [93]))
  | ofObject {o : List UInt8} (h : Derives .object o) : Derives .value o
  | emptyObject {w : List UInt8} (hw : Only isBlankByte w) : Derives .object (123 :: (w ++ [125]))
  | object {ms : List UInt8} (h : Derives .members ms) : Derives .object (123 :: (ms ++ [125]))
  | item {before v behind : List UInt8} (hb : Only isBlankByte before) (h : Derives .value v)
    (hb' : Only isBlankByte behind) : Derives .item (before ++ (v ++ behind))
  | lastElement {i : List UInt8} (h : Derives .item i) : Derives .elements i
  | element {i es : List UInt8} (h : Derives .item i) (hes : Derives .elements es) : Derives .elements (i ++ 44 :: es)
  | member {before q behind i : List UInt8} (hb : Only isBlankByte before) (hq : Quoted q)
    (hb' : Only isBlankByte behind) (h : Derives .item i) : Derives .member (before ++ (q ++ (behind ++ 58 :: i)))
  | lastMember {m : List UInt8} (h : Derives .member m) : Derives .members m
  | moreMembers {m ms : List UInt8} (h : Derives .member m) (hms : Derives .members ms) :
    Derives .members (m ++ 44 :: ms)

/-! ## Arrays -/

variable {isBlank : UInt8 → Bool} {isElement : List UInt8 → Prop} {bytes : List UInt8} {spans : List Span}

/-- What follows an element of an array that ends at an offset, with the spans of the other elements. -/
inductive Following (isBlank : UInt8 → Bool) (isElement : List UInt8 → Prop) : Nat → List UInt8 → List Span → Prop
  | close {offset : Nat} {before behind : List UInt8} (hb : Only isBlank before) (hb' : Only isBlank behind) :
    Following isBlank isElement offset (before ++ 93 :: behind) []
  | next {offset start : Nat} {before behind e rest : List UInt8} {spans : List Span} (hb : Only isBlank before)
    (hb' : Only isBlank behind) (he : isElement e) (hstart : start = offset + before.length + 1 + behind.length)
    (h : Following isBlank isElement (start + e.length) rest spans) :
    Following isBlank isElement offset (before ++ 44 :: (behind ++ (e ++ rest))) ((start, start + e.length) :: spans)

/-- An array between blanks, with the spans of its elements. -/
inductive ArrayOf (isBlank : UInt8 → Bool) (isElement : List UInt8 → Prop) : List UInt8 → List Span → Prop
  | empty {lead inner trail : List UInt8} (hl : Only isBlank lead) (hi : Only isBlank inner) (ht : Only isBlank trail) :
    ArrayOf isBlank isElement (lead ++ 91 :: (inner ++ 93 :: trail)) []
  | filled {lead inner e rest : List UInt8} {start : Nat} {spans : List Span} (hl : Only isBlank lead)
    (hi : Only isBlank inner) (he : isElement e) (hstart : start = lead.length + 1 + inner.length)
    (h : Following isBlank isElement (start + e.length) rest spans) :
    ArrayOf isBlank isElement (lead ++ 91 :: (inner ++ (e ++ rest))) ((start, start + e.length) :: spans)

/-- A JSON text whose value is an array of objects, with the spans of these. -/
abbrev ObjectArray : List UInt8 → List Span → Prop := ArrayOf isBlankByte (Derives .object)

/-- The bytes of a span. -/
def Span.of (span : Span) (bytes : List UInt8) : List UInt8 := (bytes.drop span.1).take (span.2 - span.1)

/-- A list of elements is derived by what follows the first of them. -/
theorem Following.derives {offset : Nat} (h : Following isBlankByte (Derives .object) offset bytes spans)
    {before v : List UInt8} (hb : Only isBlankByte before) (hv : Derives .value v) : ∃ es trail,
      before ++ (v ++ bytes) = es ++ 93 :: trail ∧ Derives .elements es ∧ Only isBlankByte trail := by
  induction h generalizing before v with
  | close hbefore hbehind =>
    exact ⟨_, _, by simp only [List.append_assoc], .lastElement (.item hb hv hbefore), hbehind⟩
  | next hbefore hbehind ho _ _ ih =>
    obtain ⟨es, trail, heq, hes, htrail⟩ := ih hbehind (.ofObject ho)
    refine ⟨_, trail, ?_, .element (.item hb hv hbefore) hes, htrail⟩
    simp only [heq, List.append_assoc, List.cons_append]

/-- **An array of objects is a JSON text.** -/
theorem ObjectArray.derives (h : ObjectArray bytes spans) : Derives .item bytes := by
  cases h with
  | @empty lead inner trail hl hi ht =>
    have heq : lead ++ 91 :: (inner ++ 93 :: trail) = lead ++ ((91 :: (inner ++ [93])) ++ trail) := by simp
    exact heq ▸ .item hl (.emptyArray hi) ht
  | @filled lead inner o rest start spans hl hi ho hstart h =>
    obtain ⟨es, trail, heq, hes, htrail⟩ := h.derives hi (.ofObject ho)
    have heq : lead ++ 91 :: (inner ++ (o ++ rest)) = lead ++ ((91 :: (es ++ [93])) ++ trail) := by simp [heq]
    exact heq ▸ .item hl (.array hes) htrail

/-! ## Spans -/

/-- Elements stand at their spans in bytes from an offset on: none begins there, and none reaches into the next. -/
structure Placed (isElement : List UInt8 → Prop) (offset : Nat) (bytes : List UInt8) (spans : List Span) : Prop where
  inside : ∀ span ∈ spans, offset < span.1 ∧ span.1 ≤ span.2 ∧ span.2 ≤ offset + bytes.length
  elements : ∀ span ∈ spans, isElement (Span.of (span.1 - offset, span.2 - offset) bytes)
  ascending : spans.Pairwise fun a b => a.2 < b.1

/-- One element more, behind some other bytes. -/
theorem Placed.cons {offset start : Nat} {before e rest : List UInt8}
    (h : Placed isElement (start + e.length) rest spans) (he : isElement e) (hne : before ≠ [])
    (hstart : start = offset + before.length) :
    Placed isElement offset (before ++ (e ++ rest)) ((start, start + e.length) :: spans) := by
  have hbefore := List.length_pos_iff.2 hne
  have hlength : (before ++ (e ++ rest)).length = before.length + e.length + rest.length := by
    simp only [List.length_append]
    omega
  have hof (first last : Nat) (hfirst : start ≤ first) :
      Span.of (first - offset, last - offset) (before ++ (e ++ rest)) =
        Span.of (first - start, last - start) (e ++ rest) := by
    have hplace : first - offset = before.length + (first - start) := by omega
    have hsize : last - offset - (first - offset) = last - start - (first - start) := by omega
    simp only [Span.of]
    rw [hsize, hplace, ← List.drop_drop, List.drop_left]
  refine ⟨List.forall_mem_cons.2 ⟨?_, fun span hspan => ?_⟩, List.forall_mem_cons.2 ⟨?_, fun span hspan => ?_⟩,
    List.pairwise_cons.2 ⟨fun span hspan => (h.inside span hspan).1, h.ascending⟩⟩
  · simp only
    omega
  · have := h.inside span hspan
    omega
  · rw [hof start _ (Nat.le_refl _)]
    simpa [Span.of] using he
  · obtain ⟨hlt, -, -⟩ := h.inside span hspan
    have hplace : span.1 - start = e.length + (span.1 - (start + e.length)) := by omega
    have hsize : span.2 - start - (span.1 - start) =
        span.2 - (start + e.length) - (span.1 - (start + e.length)) := by omega
    rw [hof _ _ (by omega)]
    simp only [Span.of]
    rw [hsize, hplace, ← List.drop_drop, List.drop_left]
    exact h.elements span hspan

/-- The elements which follow stand at their spans. -/
theorem Following.placed {offset : Nat} (h : Following isBlank isElement offset bytes spans) :
    Placed isElement offset bytes spans := by
  induction h with
  | close => exact ⟨nofun, nofun, .nil⟩
  | @next offset start before behind e rest spans _ _ he hstart _ ih =>
    have hplaced := @Placed.cons _ _ offset start (before ++ 44 :: behind) e rest ih he (by simp)
      (by rw [hstart, List.length_append, List.length_cons]; omega)
    rwa [List.append_assoc] at hplaced

/-- **The elements of an array stand at their spans.** -/
theorem ArrayOf.placed (h : ArrayOf isBlank isElement bytes spans) : Placed isElement 0 bytes spans := by
  cases h with
  | empty => exact ⟨nofun, nofun, .nil⟩
  | @filled lead inner e rest start spans _ _ he hstart h =>
    have hplaced := @Placed.cons _ _ 0 start (lead ++ 91 :: inner) e rest h.placed he (by simp)
      (by rw [hstart, List.length_append, List.length_cons]; omega)
    rwa [List.append_assoc] at hplaced

end RecordServer.Json
