import Mathlib.Data.List.Basic
import RecordServer.Text.Split

/-!
# Splitting and joining

The pieces of a text, joined again with the separator between them, are the text, and no piece contains the separator.
For a separator of one element this is known of `List.splitOn`, which `pieces` is (`Text.pieces_eq_splitOn`); what
does not contain the separator stands within one piece (`Text.exists_piece`). For a separator of several characters,
which may overlap with itself, see `Text.intercalate_splitOn` and `Text.not_infix_of_mem_splitOn`.
-/

namespace RecordServer.Text

/-! ## Separators of one element -/

section Pieces

variable {α : Type} [DecidableEq α] {separator : α} {l : List α} {parts : List (List α)}

theorem pieces_eq_splitOn (separator : α) : ∀ l : List α, pieces separator l = l.splitOn separator
  | [] => rfl
  | a :: l => by
    rw [pieces, pieces_eq_splitOn separator l, List.splitOn_cons_eq_if_modifyHead]
    obtain ⟨first, more, hl⟩ := List.exists_cons_of_ne_nil (List.splitOn_ne_nil separator l)
    rw [hl]
    by_cases ha : a = separator
    · simp [ha]
    · simp [ha]

theorem exists_pieces (separator : α) (l : List α) : ∃ first more, pieces separator l = first :: more := by
  rw [pieces_eq_splitOn]
  exact List.exists_cons_of_ne_nil (List.splitOn_ne_nil separator l)

/-- The pieces joined again. -/
theorem intercalate_pieces (separator : α) (l : List α) : [separator].intercalate (pieces separator l) = l := by
  rw [pieces_eq_splitOn, List.intercalate_splitOn]

omit [DecidableEq α] in
/-- What is joined is the first part and the others, each behind a separator. -/
theorem intercalate_eq_append_flatMap (separator : α) (part : List α) (parts : List (List α)) :
    [separator].intercalate (part :: parts) = part ++ parts.flatMap (separator :: ·) := by
  induction parts generalizing part with
  | nil => simp
  | cons next parts ih =>
    rw [List.intercalate_cons_of_ne_nil (List.cons_ne_nil next parts), ih, List.flatMap_cons, List.append_assoc,
      List.singleton_append, List.cons_append]

/-- There is one piece more than there are separators. -/
theorem length_pieces (separator : α) : ∀ l : List α, (pieces separator l).length = l.count separator + 1
  | [] => rfl
  | a :: l => by
    have ih := length_pieces separator l
    obtain ⟨first, more, hl⟩ := exists_pieces separator l
    rw [hl, List.length_cons] at ih
    rw [pieces, hl]
    by_cases ha : a = separator
    · rw [if_pos ha, ha, List.count_cons_self, List.length_cons, List.length_cons, ih]
    · rw [if_neg ha, List.count_cons_of_ne ha, List.length_cons, ih]

/-- What has been joined is split into its parts again. -/
theorem pieces_intercalate (hparts : ∀ part ∈ parts, separator ∉ part) (hne : parts ≠ []) :
    pieces separator ([separator].intercalate parts) = parts := by
  rw [pieces_eq_splitOn, List.splitOn_intercalate separator hparts hne]

/-- What stands in front without a separator belongs to the first piece. -/
theorem pieces_append_left {front : List α} (hfront : separator ∉ front) {first : List α} {more : List (List α)}
    (hl : pieces separator l = first :: more) : pieces separator (front ++ l) = (front ++ first) :: more := by
  induction front with
  | nil => exact hl
  | cons a front ih =>
    obtain ⟨ha, hfront⟩ := not_or.1 (List.mem_cons.not.1 hfront)
    rw [List.cons_append, pieces, if_neg (Ne.symm ha), ih hfront]
    rfl

/-- **What does not contain the separator stands within one piece.** -/
theorem exists_piece {part : List α} (hpart : separator ∉ part) (h : part <:+: l) :
    ∃ piece ∈ pieces separator l, part <:+: piece := by
  obtain ⟨front, behind, rfl⟩ := h
  rw [List.append_assoc]
  induction front with
  | nil =>
    obtain ⟨first, more, hbehind⟩ := exists_pieces separator behind
    rw [List.nil_append, pieces_append_left hpart hbehind]
    exact ⟨_, List.mem_cons_self, List.infix_append' [] part first⟩
  | cons a front ih =>
    obtain ⟨piece, hpiece, hin⟩ := ih
    obtain ⟨first, more, hmore⟩ := exists_pieces separator (front ++ (part ++ behind))
    rw [hmore] at hpiece
    rw [List.cons_append, pieces, hmore]
    by_cases ha : a = separator
    · rw [if_pos ha]
      exact ⟨piece, List.mem_cons_of_mem [] hpiece, hin⟩
    · rw [if_neg ha]
      rcases List.mem_cons.1 hpiece with rfl | hpiece
      · exact ⟨a :: piece, List.mem_cons_self, List.infix_cons hin⟩
      · exact ⟨piece, List.mem_cons_of_mem _ hpiece, hin⟩

end Pieces

/-! ## Separators of several characters -/

variable {separator begun cs piece : List Char}

theorem splitFrom_ne_nil (separator begun cs : List Char) : splitFrom separator begun cs ≠ [] := by
  fun_induction splitFrom separator begun cs with
  | case1 begun => exact List.cons_ne_nil _ _
  | case2 begun c rest h ih => exact List.cons_ne_nil _ _
  | case3 begun c rest h ih => exact ih

theorem intercalate_splitFrom (separator begun cs : List Char) :
    separator.intercalate (splitFrom separator begun cs) = begun.reverse ++ cs := by
  fun_induction splitFrom separator begun cs with
  | case1 begun => simp
  | case2 begun c rest h ih =>
    obtain ⟨behind, hbehind⟩ := List.isPrefixOf_iff_prefix.1 h.2
    rw [List.intercalate_cons_of_ne_nil (splitFrom_ne_nil _ _ _), ih, ← hbehind, List.drop_left, List.reverse_nil,
      List.nil_append, List.append_assoc]
  | case3 begun c rest h ih => rw [ih, List.reverse_cons, List.append_assoc, List.singleton_append]

/-- **The pieces joined again.** -/
theorem intercalate_splitOn (separator cs : List Char) : separator.intercalate (splitOn separator cs) = cs :=
  intercalate_splitFrom separator [] cs

/-- No occurrence of the separator begins within the first part of a text. -/
def Clear (separator front cs : List Char) : Prop := ∀ tail, tail <:+ front → tail ≠ [] → ¬separator <+: tail ++ cs

theorem Clear.not_infix (h : Clear separator piece cs) (hne : separator ≠ []) : ¬separator <:+: piece := by
  rintro ⟨front, behind, rfl⟩
  refine h (separator ++ behind) ⟨front, by simp⟩ (by simp [hne]) ⟨behind ++ cs, by simp⟩

/-- The separators are those which come first: none begins within the piece that has been begun. -/
theorem not_infix_of_mem_splitFrom (hne : separator ≠ []) (hclear : Clear separator begun.reverse cs)
    (h : piece ∈ splitFrom separator begun cs) : ¬separator <:+: piece := by
  fun_induction splitFrom separator begun cs with
  | case1 begun =>
    rw [List.mem_singleton.1 h]
    exact hclear.not_infix hne
  | case2 begun c rest hfound ih =>
    rcases List.mem_cons.1 h with rfl | h
    · exact hclear.not_infix hne
    · refine ih ?_ h
      intro tail htail hnonempty
      exact absurd (List.suffix_nil.1 htail) hnonempty
  | case3 begun c rest hnot ih =>
    refine ih ?_ h
    intro tail htail hnonempty
    rw [List.reverse_cons, List.suffix_concat_iff] at htail
    rcases htail with rfl | ⟨front, rfl, hfront⟩
    · exact absurd rfl hnonempty
    · rw [List.append_assoc, List.singleton_append]
      by_cases hnil : front = []
      · subst hnil
        exact fun hprefix => hnot ⟨hne, List.isPrefixOf_iff_prefix.2 hprefix⟩
      · exact hclear front hfront hnil

/-- **No piece contains the separator.** -/
theorem not_infix_of_mem_splitOn (hne : separator ≠ []) (h : piece ∈ splitOn separator cs) : ¬separator <:+: piece :=
  not_infix_of_mem_splitFrom hne (fun _ htail hnonempty => absurd (List.suffix_nil.1 htail) hnonempty) h

end RecordServer.Text
