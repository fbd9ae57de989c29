import RecordServer.Proofs.Parser.References
import RecordServer.Proofs.Text.Splitting

/-!
# Nested lists

A chain of split parsers with separators that are texts (`Splits`) makes nested lists. The chain is not longer than
parsers may call each other (`Splits.groundedIn`), so that every text is parsed. The lists are `joined` to the text
again, from the innermost ones outwards, and what an element is joined to does not contain the separator of its list
(`Separated`). Each level adds one splitting to this (`Splits.exists_value`): an empty text has no pieces there, and
neither do the lists of it when they are joined.
-/

namespace RecordServer

/-- A chain of parsers which split texts by the separators, one after the other, down to a parser of texts. -/
inductive Splits (find : String → Option Parser) : List (List Char) → Parser → Prop
  | string {name : String} {charset : Option Text.Charset} : Splits find [] ⟨name, .string charset⟩
  | split {name separator inner : String} {p : Parser} {separators : List (List Char)} (hne : separator ≠ "")
      (hfind : find inner = some p) (hrest : Splits find separators p) :
      Splits find (separator.toList :: separators) ⟨name, .split (.text separator) inner⟩

/-- The text of nested lists, where the lists of each level are joined with one separator. There is none for values
which are nested in another way. -/
def joined : List (List Char) → Value → Option (List Char)
  | [], .string text => some text.toList
  | separator :: separators, .list items => (items.mapM (joined separators)).map separator.intercalate
  | _, _ => none

/-- The elements of nested lists have texts which do not contain the separator of their list. -/
def Separated : List (List Char) → Value → Prop
  | [], _ => True
  | separator :: separators, v => ∀ items, v = .list items → ∀ item ∈ items,
      (∃ text, joined separators item = some text ∧ ¬separator <:+: text) ∧ Separated separators item

section

variable {find : String → Option Parser} {p : Parser} {separators : List (List Char)} {depth : Nat}

/-- A chain has as many references as separators. -/
theorem Splits.groundedIn (h : Splits find separators p) : GroundedIn find separators.length p := by
  induction h with
  | string => exact groundedIn_zero rfl
  | split hne hfind hrest ih => exact groundedIn_succ rfl hfind ih

/-- What holds of the value of each text holds of the values of texts in a row. -/
theorem exists_mapM {f : List Char → Except Fault Value} {Of : List Char → Value → Prop}
    (hf : ∀ cs, ∃ v, f cs = .ok v ∧ Of cs v) (l : List (List Char)) :
    ∃ vs, l.mapM f = .ok vs ∧ List.Forall₂ Of l vs := by
  induction l with
  | nil => exact ⟨[], rfl, .nil⟩
  | cons cs l ih =>
    obtain ⟨v, hv, hof⟩ := hf cs
    obtain ⟨vs, hvs, hall⟩ := ih
    refine ⟨v :: vs, ?_, .cons hof hall⟩
    rw [List.mapM_cons, hv, hvs]
    rfl

/-- The texts of elements are those which they have been parsed from. -/
theorem mapM_joined {pieces : List (List Char)} {items : List Value}
    (h : List.Forall₂ (fun piece v => joined separators v = some piece ∧ Separated separators v) pieces items) :
    items.mapM (joined separators) = some pieces := by
  induction h with
  | nil => rfl
  | cons hfirst _ ih =>
    rw [List.mapM_cons, hfirst.1, ih]
    rfl

/-- **A chain parses each text to nested lists** which are joined to the text again. -/
theorem Splits.exists_value (h : Splits find separators p) (hdepth : separators.length ≤ depth) (cs : List Char) :
    ∃ v, Format.parse (some find) depth p cs = .ok v ∧ joined separators v = some cs ∧ Separated separators v := by
  induction h generalizing depth cs with
  | string => exact ⟨.string (String.ofList cs), by rw [Format.parse], by rw [joined, String.toList_ofList], trivial⟩
  | @split name separator inner p separators hne hfind hrest ih =>
    obtain ⟨depth, rfl⟩ : ∃ n, depth = n + 1 := ⟨depth - 1, by rw [List.length_cons] at hdepth; omega⟩
    by_cases hcs : cs = []
    · -- An empty text is not split: its list has no element, and so not an empty one either.
      subst hcs
      exact ⟨.list [], by rw [Format.parse, if_pos rfl], rfl, by simp [Separated]⟩
    · obtain ⟨items, hparsed, hitems⟩ := exists_mapM (ih (Nat.le_of_succ_le_succ hdepth))
        (Text.splitOn separator.toList cs)
      refine ⟨.list items, ?_, ?_, ?_⟩
      · rw [Format.parse_split hcs hfind, Separator.split, hparsed]
        rfl
      · rw [joined, mapM_joined hitems, Option.map_some, Text.intercalate_splitOn]
      · rintro _ ⟨⟩ item hitem
        obtain ⟨piece, hpiece, htext, hseparated⟩ := mem_of_forall₂ hitems item hitem
        exact ⟨⟨piece, htext, Text.not_infix_of_mem_splitOn (by simpa using hne) hpiece⟩, hseparated⟩

end

namespace Parsers

/-- **Splitting loses nothing.** Every text is parsed by a chain of split parsers which ends in a parser of texts. The
nested lists, joined from the innermost ones outwards with the separators of their levels, are the text again, and no
element, written back as a text, contains the separator of its list. -/
theorem parse_splits (ps : Parsers) {name : String} {p : Parser} (hfind : ps.find? name = some p)
    {separators : List (List Char)} (hp : Splits ps.find? separators p) (text : String) :
    ∃ v, ps.parse p text = .ok v ∧ joined separators v = some text.toList ∧ Separated separators v := by
  have hlt : separators.length < countIn ps.entries := lt_countIn hfind hp.groundedIn
  have hle := countIn_le ps.entries
  exact hp.exists_value (by omega) text.toList

/-- Cells in rows, where a separator of rows can overlap with another. -/
def rowsOfCells : List Parser :=
  [⟨"rows", .split (.text "--") "cells"⟩, ⟨"cells", .split (.text ";") "string"⟩]

/-- Cells are joined to rows again, of which the first and the last are empty here. -/
theorem parse_splits_rowsOfCells :
    ∃ ps, ofDeclarations rowsOfCells = .ok ps ∧ ∃ p, ps.find? "rows" = some p ∧
      Splits ps.find? ["--".toList, ";".toList] p ∧ ∃ v, ps.parse p "---a;;b--" = .ok v ∧
        v = .list [.list [], .list [.string "-a", .string "", .string "b"], .list []] ∧
        joined ["--".toList, ";".toList] v = some "---a;;b--".toList ∧ Separated ["--".toList, ";".toList] v := by
  have haccepted : ofDeclarations rowsOfCells = .ok ⟨builtIn ++ rowsOfCells⟩ :=
    ofDeclarations_eq_ok.2 ⟨by simp [builtIn, rowsOfCells, checkFormat, Format.defaultBoolean], by
      simp only [builtIn, rowsOfCells, List.cons_append, List.nil_append, List.map_cons, List.map_nil,
        List.forall_mem_cons]
      exact ⟨rfl, rfl, rfl, rfl, rfl, rfl, rfl, by simp⟩⟩
  have hfind : find? ⟨builtIn ++ rowsOfCells⟩ "rows" = some ⟨"rows", .split (.text "--") "cells"⟩ := rfl
  have hp : Splits (find? ⟨builtIn ++ rowsOfCells⟩) ["--".toList, ";".toList] ⟨"rows", .split (.text "--") "cells"⟩ :=
    .split (by decide) rfl (.split (by decide) rfl .string)
  obtain ⟨v, hv, htext, hseparated⟩ := parse_splits ⟨builtIn ++ rowsOfCells⟩ hfind hp "---a;;b--"
  have hvalue : (⟨builtIn ++ rowsOfCells⟩ : Parsers).parse ⟨"rows", .split (.text "--") "cells"⟩ "---a;;b--" =
      .ok (.list [.list [], .list [.string "-a", .string "", .string "b"], .list []]) := by cbv
  exact ⟨_, haccepted, _, hfind, hp, v, hv, Except.ok.inj (hv.symm.trans hvalue), htext, hseparated⟩

end Parsers

end RecordServer
