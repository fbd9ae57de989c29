import Mathlib
import RecordServer.Proofs.Input.Access
import RecordServer.Proofs.Json.Accepted

/-!
# Objects in any order

The objects of an array are read at the spans at which they have been found, from front to back or in any order
(`Input.array_random_access`).

What lies between two spans is skipped by its length (`Json.Cursor.read?_ofBytes`). So reading all objects from front to
back gives what stands at their spans (`Input.readElements_eq`), because these ascend.
-/

namespace RecordServer

namespace Json

/-- The bytes of a span which lies within a text. -/
theorem Span.bytes?_ofBytes {bytes : List UInt8} {span : Span} (hend : span.2 ≤ bytes.length) :
    span.bytes? (.ofBytes bytes) = some (span.of bytes) := by
  have hlength : (span.of bytes).length = span.2 - span.1 := by
    rw [Span.of, List.length_take, List.length_drop]
    omega
  unfold Span.bytes?
  rw [Pages.after_ofBytes]
  exact if_pos hlength

/-- Skipping what lies in front of a span leads to its bytes, and behind them to its end. -/
theorem Cursor.read?_ofBytes {bytes : List UInt8} {span : Span} {offset : Nat} (hbegin : offset ≤ span.1)
    (hle : span.1 ≤ span.2) (hend : span.2 ≤ bytes.length) :
    (⟨offset, offset⟩ : Cursor).read? (.ofBytes bytes) span = (some (span.of bytes), ⟨span.2, span.2⟩) := by
  have hplace : (if offset < span.1 then offset + (span.1 - offset) else offset) = span.1 := by
    split
    · omega
    · omega
  unfold Cursor.read?
  simp only [hplace, Nat.add_sub_cancel' hle]
  rw [show ((span.1, span.2) : Span) = span from rfl, Span.bytes?_ofBytes hend]

end Json

namespace Input

variable {fs : FileSystem} {i : Input} {f : File} {bytes : List UInt8}

/-- Reading objects from front to back gives what stands at their spans. -/
theorem readElements_eq (i : Input) : ∀ {spans : List Json.Span} {offset : Nat} (position : Position),
    (∀ span ∈ spans, offset ≤ span.1 ∧ span.1 ≤ span.2 ∧ span.2 ≤ bytes.length) →
    spans.Pairwise (fun a b => a.2 ≤ b.1) →
    i.readElements (.ofBytes bytes) ⟨offset, offset⟩ position spans =
      spans.mapIdx fun k span => placed (position + k) (i.ofObject (position + k) (span.of bytes))
  | [], _, _, _, _ => rfl
  | span :: spans, offset, position, hinside, hascending => by
    obtain ⟨⟨hbegin, hle, hend⟩, hrest⟩ := List.forall_mem_cons.1 hinside
    obtain ⟨hfirst, hascending⟩ := List.pairwise_cons.1 hascending
    rw [readElements, Json.Cursor.read?_ofBytes hbegin hle hend]
    simp only
    rw [readElements_eq i (position + 1) (fun other hother => ⟨hfirst other hother, (hrest other hother).2⟩) hascending,
      List.mapIdx_cons]
    simp only [Nat.add_assoc, Nat.add_comm 1]
    rfl

variable {isElement : List UInt8 → Prop} {spans : List Json.Span}

/-- Reading an array through gives what stands at the spans of its elements. -/
theorem recordsOf_elements (hc : i.content = .elements spans.toArray) (h : Json.Placed isElement 0 bytes spans) :
    i.recordsOf bytes = spans.mapIdx fun k span => placed k (i.ofObject k (span.of bytes)) := by
  have hinside : ∀ span ∈ spans, 0 ≤ span.1 ∧ span.1 ≤ span.2 ∧ span.2 ≤ bytes.length := by
    intro span hspan
    have := h.inside span hspan
    omega
  unfold recordsOf
  simp only [hc]
  rw [readElements_eq i 0 hinside (h.ascending.imp Nat.le_of_lt)]
  simp only [Nat.zero_add]

/-- Loading a record gives what stands at the span of an element. -/
theorem load_elements (hc : i.content = .elements spans.toArray) (h : Json.Placed isElement 0 bytes spans) {r : Reader}
    (hr : r.pages = some (.ofBytes bytes)) {k : Position} {span : Json.Span} (hspan : spans[k]? = some span) :
    (i.load r k).1 = i.ofObject k (span.of bytes) := by
  have hend := (h.inside span (List.mem_of_getElem? hspan)).2.2
  rw [Nat.zero_add] at hend
  rw [load_eq hr, loadFrom]
  simp only [hc, List.getElem?_toArray, hspan, Json.Span.bytes?_ofBytes hend]
  rfl

end Input

end RecordServer
