import RecordServer.Proofs.Text.Letters
import RecordServer.Proofs.Text.Splitting
import RecordServer.Proofs.Xml.Order

/-!
# Written paths

A path is written with a slash, or two in front of a step to descendants, before each step (`Path.absolute`) or between
the steps (`Path.relative`). Written paths are read as the paths that they have been written for, and what is read can
be written in this way (`Path.ofAbsolute_absolute`): record paths are `Path.IsAbsolute`, property paths are
`Path.IsRelative`.

Between slashes stand the segments of a path, an empty one in front of a step to descendants. They are separated again
(`Text.pieces_intercalate`), as no step is written with a slash, and then read one after the other
(`readSegments_segments`). Conversely each segment that is read adds one step, which is named (`named_of_readSegments`)
and stands behind those which have been read (`prefix_of_readSegments`).
-/

namespace RecordServer

namespace Text

variable {cs rest : List Char} {c : Char}

theorem dropWhile_eq_self (h : ∀ c ∈ cs, isBlank c = false) : cs.dropWhile isBlank = cs := by
  cases cs with
  | nil => rfl
  | cons c cs => exact List.dropWhile_cons_of_neg (by simp [h c List.mem_cons_self])

/-- Nothing is taken off a text without blanks. -/
theorem trimChars_eq_self (h : ∀ c ∈ cs, isBlank c = false) : trimChars cs = cs := by
  rw [trimChars, dropWhile_eq_self h, trimEnd, dropWhile_eq_self fun c hc => h c (List.mem_reverse.1 hc),
    List.reverse_reverse]

/-- A text does not begin with a blank when they have been taken off. -/
theorem not_isBlank_of_trimChars (h : trimChars cs = c :: rest) : isBlank c = false := by
  have hprefix : trimChars cs <+: cs.dropWhile isBlank := by
    have := (List.dropWhile_suffix isBlank (l := (cs.dropWhile isBlank).reverse)).reverse
    rwa [List.reverse_reverse] at this
  obtain ⟨behind, hbehind⟩ := hprefix
  rw [h, List.cons_append] at hbehind
  have hhead := List.head?_dropWhile_not isBlank cs
  rw [← hbehind] at hhead
  exact hhead

/-- A text that begins with another character has a piece that does. -/
theorem trimChars_ne_nil (h : isBlank c = false) : trimChars (c :: rest) ≠ [] := by
  rw [trimChars, List.dropWhile_cons_of_neg (by simp [h]), trimEnd, List.reverse_cons]
  intro hnil
  rw [List.reverse_eq_nil_iff, List.dropWhile_eq_nil_iff] at hnil
  simpa [h] using hnil c (by simp)

end Text

namespace Xml

variable {c : Char} {name : List Char} {step : Step} {path : Path} {steps : List Step} {whole : String}
  {segment : List Char} {more : List (List Char)} {below : Bool}

/-! ## Names -/

theorem not_isBlank_of_isNameChar (h : isNameChar c = true) : Text.isBlank c = false := by
  by_contra hblank
  rw [Bool.not_eq_false] at hblank
  simp only [isNameChar, Text.not_isAlphanumeric_of_isBlank hblank, Bool.false_or, Bool.or_eq_true,
    decide_eq_true_eq] at h
  rcases h with ((rfl | rfl) | rfl) | rfl <;> exact absurd hblank (by decide)

/-- The other signs in a path do not stand in names. -/
theorem not_isNameChar (h : c ∈ ['(', '*', '/', '@']) : isNameChar c = false := by
  have hcode : c.toNat ∈ Text.apartCodes := List.mem_append_right _ (List.mem_map_of_mem h)
  rw [isNameChar, Text.not_isAlphanumeric_of_mem hcode]
  simp only [List.mem_cons, List.not_mem_nil, or_false] at h
  rcases h with rfl | rfl | rfl | rfl <;> decide

theorem isNameChar_of_mem (h : isName name = true) (hc : c ∈ name) : isNameChar c = true := by
  rw [isName, Bool.and_eq_true] at h
  exact List.all_eq_true.1 h.2 c hc

theorem ne_nil_of_isName (h : isName name = true) : name ≠ [] := by
  rintro rfl
  cases h

/-- A name has no sign in it. -/
theorem not_mem_of_isName (h : isName name = true) (hc : c ∈ ['(', '*', '/', '@']) : c ∉ name := by
  intro hmem
  exact Bool.false_ne_true ((not_isNameChar hc).symm.trans (isNameChar_of_mem h hmem))

/-! ## Steps -/

namespace Step

/-- Whether a step leads to descendants. -/
def isDescendant : Step → Bool
  | descendant _ => true
  | _ => false

/-- What is written for a step between slashes. -/
def written : Step → List Char
  | current => ['.']
  | child test => (test.getD "*").toList
  | descendant test => (test.getD "*").toList
  | named name => '@' :: name.toList
  | text => "text()".toList

/-- The name in a step is one that can be read. The name `.` stands for a step of its own. -/
def IsNamed : Step → Prop
  | child (some name) => isName name.toList = true ∧ name ≠ "."
  | descendant (some name) => isName name.toList = true ∧ name ≠ "."
  | named name => isName name.toList = true
  | _ => True

theorem written_ne_nil (h : step.IsNamed) : step.written ≠ [] := by
  cases step with
  | child test =>
    cases test with
    | none => exact List.cons_ne_nil _ _
    | some name => exact ne_nil_of_isName h.1
  | descendant test =>
    cases test with
    | none => exact List.cons_ne_nil _ _
    | some name => exact ne_nil_of_isName h.1
  | _ => exact List.cons_ne_nil _ _

/-- Neither a blank nor a slash is written for a step. -/
theorem apart_written (h : step.IsNamed) (hc : c ∈ step.written) : Text.isBlank c = false ∧ c ≠ '/' := by
  have hname (name : List Char) (hname : isName name = true) (hc : c ∈ name) : Text.isBlank c = false ∧ c ≠ '/' :=
    ⟨not_isBlank_of_isNameChar (isNameChar_of_mem hname hc), fun hslash =>
      not_mem_of_isName hname (by simp) (hslash ▸ hc)⟩
  have hsigns (signs : List Char) (hsigns : signs ⊆ ".*@text()".toList) (hc : c ∈ signs) :
      Text.isBlank c = false ∧ c ≠ '/' :=
    (show ∀ c ∈ ".*@text()".toList, Text.isBlank c = false ∧ c ≠ '/' by simp [Text.isBlank]) c (hsigns hc)
  cases step with
  | current => exact hsigns ['.'] (by simp) hc
  | child test =>
    cases test with
    | none => exact hsigns ['*'] (by simp) hc
    | some name => exact hname _ h.1 hc
  | descendant test =>
    cases test with
    | none => exact hsigns ['*'] (by simp) hc
    | some name => exact hname _ h.1 hc
  | named name =>
    rcases List.mem_cons.1 hc with rfl | hc
    · exact hsigns ['@'] (by simp) List.mem_cons_self
    · exact hname _ h hc
  | text => exact hsigns "text()".toList (by simp) hc

/-- A name is read as a step to the elements with this name. -/
theorem stepOf?_name (below : Bool) (h : isName name = true) (hdot : name ≠ ['.']) : stepOf? below name =
    some (if below then .descendant (some (String.ofList name)) else .child (some (String.ofList name))) := by
  have hany : name ≠ ['*'] := fun heq => not_mem_of_isName h (c := '*') (by simp) (by simp [heq])
  have htext : name ≠ "text()".toList := fun heq => not_mem_of_isName h (c := '(') (by simp) (by simp [heq])
  unfold stepOf?
  simp only [if_neg hdot, if_neg hany, htext, false_and, if_false]
  split
  · exact absurd List.mem_cons_self (not_mem_of_isName h (by simp))
  · rw [if_pos h]

/-- What is written for a step is read as the step. -/
theorem stepOf?_written (h : step.IsNamed) : stepOf? step.isDescendant step.written = some step := by
  cases step with
  | current => rfl
  | child test =>
    cases test with
    | none => rfl
    | some name => simp [isDescendant, written, stepOf?_name false h.1 fun heq => h.2 (String.toList_inj.1 heq)]
  | descendant test =>
    cases test with
    | none => rfl
    | some name => simp [isDescendant, written, stepOf?_name true h.1 fun heq => h.2 (String.toList_inj.1 heq)]
  | named name =>
    have hname : isName name.toList = true := h
    unfold stepOf?
    simp [isDescendant, written, hname]
  | text => rfl

/-- What is read is a step with a name of its kind, which leads to descendants behind two slashes only. -/
theorem named_of_stepOf? (h : stepOf? below segment = some step) : step.IsNamed ∧ step.isDescendant = below := by
  unfold stepOf? at h
  simp only at h
  split at h
  · cases below <;> cases h
    exact ⟨trivial, rfl⟩
  · rename_i hcurrent
    split at h
    · cases below <;> cases h <;> exact ⟨trivial, rfl⟩
    · split at h
      · rename_i htext
        cases h
        exact ⟨trivial, (Bool.not_eq_true below ▸ htext.2).symm⟩
      · split at h
        · rename_i name _
          split at h
          · rename_i hname
            rw [Bool.and_eq_true, Bool.not_eq_true'] at hname
            cases h
            exact ⟨by rw [IsNamed, String.toList_ofList]; exact hname.2, hname.1.symm⟩
          · cases h
        · split at h
          · rename_i hname
            have hall : isName (String.ofList segment).toList = true ∧ String.ofList segment ≠ "." :=
              ⟨by rwa [String.toList_ofList], fun heq => hcurrent (by simpa using congrArg String.toList heq)⟩
            cases below <;> cases h <;> exact ⟨hall, rfl⟩
          · cases h

end Step

/-! ## Segments -/

namespace Step

/-- The segments of a step between slashes. -/
def segments (step : Step) : List (List Char) := if step.isDescendant then [[], step.written] else [step.written]

/-- The slashes in front of a step. -/
def slashes (step : Step) : List Char := if step.isDescendant then ['/', '/'] else ['/']

theorem slashes_append_written (step : Step) :
    step.slashes ++ step.written = step.segments.flatMap ('/' :: ·) := by
  cases hstep : step.isDescendant <;> simp [slashes, segments, hstep]

theorem not_mem_segments (h : step.IsNamed) (hsegment : segment ∈ step.segments) : '/' ∉ segment := by
  have hwritten : '/' ∉ step.written := fun hmem => (apart_written h hmem).2 rfl
  unfold segments at hsegment
  split at hsegment
  · rcases List.mem_cons.1 hsegment with rfl | hsegment
    · exact List.not_mem_nil
    · rwa [List.mem_singleton.1 hsegment]
  · rwa [List.mem_singleton.1 hsegment]

end Step

/-- The segment of a step is read as this step behind the ones before. -/
theorem readSegments_written (h : step.IsNamed) (hsteps : steps.head?.any Step.isLast = false) :
    readSegments whole steps step.isDescendant (step.written :: more) =
      readSegments whole (step :: steps) false more := by
  have htrim : Text.trimChars step.written = step.written :=
    Text.trimChars_eq_self fun c hc => (Step.apart_written h hc).1
  rw [readSegments]
  simp only [htrim, hsteps, Step.written_ne_nil h, Step.stepOf?_written h, if_false, Bool.false_eq_true]

/-- The segments of a step are read as this step, also if there are two of them. -/
theorem readSegments_step (h : step.IsNamed) (hsteps : steps.head?.any Step.isLast = false) :
    readSegments whole steps false (step.segments ++ more) = readSegments whole (step :: steps) false more := by
  rw [← readSegments_written h hsteps]
  cases hstep : step.isDescendant with
  | false => simp [Step.segments, hstep]
  | true =>
    rw [Step.segments, hstep, if_pos rfl, List.cons_append, readSegments]
    simp [hsteps, Text.trimChars, Text.trimEnd]

/-- **The segments of the steps of a path are read as these steps**, behind those which have been read. -/
theorem readSegments_segments (hnamed : ∀ step ∈ path, step.IsNamed)
    (hlast : (steps.reverse ++ path).dropLast.all (fun step => !step.isLast) = true) :
    readSegments whole steps false (path.flatMap Step.segments) = .ok (steps.reverse ++ path) := by
  induction path generalizing steps with
  | nil => rw [List.flatMap_nil, readSegments, List.append_nil]
  | cons step path ih =>
    obtain ⟨hstep, hnamed⟩ := List.forall_mem_cons.1 hnamed
    have hsteps : steps.head?.any Step.isLast = false := by
      cases steps with
      | nil => rfl
      | cons before steps =>
        have hmem : before ∈ ((before :: steps).reverse ++ step :: path).dropLast := by
          rw [List.dropLast_append_of_ne_nil (List.cons_ne_nil _ _)]
          exact List.mem_append_left _ (by simp)
        simpa using List.all_eq_true.1 hlast before hmem
    rw [List.flatMap_cons, readSegments_step hstep hsteps, ih hnamed]
    · rw [List.reverse_cons, List.append_assoc, List.singleton_append]
    · rwa [List.reverse_cons, List.append_assoc, List.singleton_append]

/-! ## What is read -/

/-- The steps which have been read stay in front. -/
theorem prefix_of_readSegments (h : readSegments whole steps below more = .ok path) : steps.reverse <+: path := by
  induction more generalizing steps below with
  | nil =>
    cases h
    exact List.prefix_rfl
  | cons segment more ih =>
    unfold readSegments at h
    simp only at h
    split at h
    · cases h
    · split at h
      · split at h
        · cases h
        · exact ih h
      · split at h
        · cases h
        · have := ih h
          rw [List.reverse_cons] at this
          exact (List.prefix_append _ _).trans this

/-- All steps that are read are named. -/
theorem named_of_readSegments (hsteps : ∀ step ∈ steps, step.IsNamed)
    (h : readSegments whole steps below more = .ok path) : ∀ step ∈ path, step.IsNamed := by
  induction more generalizing steps below with
  | nil =>
    cases h
    simpa using hsteps
  | cons segment more ih =>
    unfold readSegments at h
    simp only at h
    split at h
    · cases h
    · split at h
      · split at h
        · cases h
        · exact ih hsteps h
      · split at h
        · cases h
        · rename_i step hstep
          exact ih (List.forall_mem_cons.2 ⟨(Step.named_of_stepOf? hstep).1, hsteps⟩) h

/-- The first segment of a path which is not empty becomes its first step. -/
theorem head?_of_readSegments (h : readSegments whole [] false (segment :: more) = .ok path)
    (hne : Text.trimChars segment ≠ []) : ∃ step, path.head? = some step ∧ step.isDescendant = false := by
  unfold readSegments at h
  simp only [List.head?_nil, Option.any_none, Bool.false_eq_true, if_false, if_neg hne] at h
  split at h
  · cases h
  · rename_i step hstep
    obtain ⟨behind, rfl⟩ := prefix_of_readSegments h
    exact ⟨step, rfl, (Step.named_of_stepOf? hstep).2⟩

namespace Path

/-! ## Written paths -/

/-- A path from the root of a document, with slashes before each step. -/
def absolute (path : Path) : String := String.ofList (path.flatMap fun step => step.slashes ++ step.written)

/-- A path from an element, with slashes between the steps. -/
def relative : Path → String
  | [] => ""
  | first :: path => String.ofList (first.written ++ path.flatMap fun step => step.slashes ++ step.written)

/-- The paths of records: child and descendant steps, at least one. -/
structure IsAbsolute (path : Path) : Prop where
  ne_nil : path ≠ []
  elements : ∀ step ∈ path, step.isElement = true
  named : ∀ step ∈ path, step.IsNamed

/-- The paths of properties: at least one step, of which the first does not lead to descendants, and an attribute or a
text at the end only. -/
structure IsRelative (path : Path) : Prop where
  ne_nil : path ≠ []
  first : ∀ test, path.head? ≠ some (.descendant test)
  body : path.dropLast.all (fun step => !step.isLast) = true
  named : ∀ step ∈ path, step.IsNamed

/-- Slashes in front of segments are those between them and one more. -/
theorem flatMap_slash (segment : List Char) (more : List (List Char)) :
    (segment :: more).flatMap ('/' :: ·) = '/' :: ['/'].intercalate (segment :: more) := by
  rw [Text.intercalate_eq_append_flatMap, List.flatMap_cons, List.cons_append]

theorem flatMap_written (path : Path) : (path.flatMap fun step => step.slashes ++ step.written) =
    (path.flatMap Step.segments).flatMap ('/' :: ·) := by
  rw [List.flatMap_assoc]
  exact List.flatMap_congr fun step _ => step.slashes_append_written

theorem segments_ne_nil {path : Path} (hne : path ≠ []) : path.flatMap Step.segments ≠ [] := by
  obtain ⟨step, path, rfl⟩ := List.exists_cons_of_ne_nil hne
  rw [List.flatMap_cons, Step.segments]
  split <;> exact List.cons_ne_nil _ _

/-- The segments of a written path. -/
theorem pieces_segments {path : Path} (hne : path ≠ []) (hnamed : ∀ step ∈ path, step.IsNamed) :
    Text.pieces '/' (['/'].intercalate (path.flatMap Step.segments)) = path.flatMap Step.segments := by
  apply Text.pieces_intercalate
  · intro segment hsegment
    obtain ⟨step, hstep, hsegment⟩ := List.mem_flatMap.1 hsegment
    exact Step.not_mem_segments (hnamed step hstep) hsegment
  · exact segments_ne_nil hne

/-- No blank is written for a path, so that nothing is taken off it. -/
theorem trim_written {path : Path} (hnamed : ∀ step ∈ path, step.IsNamed) {cs : List Char}
    (hcs : ∀ c ∈ cs, c = '/' ∨ ∃ step ∈ path, c ∈ step.written) :
    Text.trim (String.ofList cs) = String.ofList cs := by
  rw [Text.trim, String.toList_ofList, Text.trimChars_eq_self]
  intro c hc
  rcases hcs c hc with rfl | ⟨step, hstep, hmem⟩
  · decide
  · exact (Step.apart_written (hnamed step hstep) hmem).1

theorem mem_intercalate {path : Path} {c : Char} (hc : c ∈ ['/'].intercalate (path.flatMap Step.segments)) :
    c = '/' ∨ ∃ step ∈ path, c ∈ step.written := by
  have : c ∈ path.flatMap fun step => step.slashes ++ step.written := by
    rw [flatMap_written]
    cases hsegments : path.flatMap Step.segments with
    | nil => simp [hsegments] at hc
    | cons segment more =>
      rw [flatMap_slash, ← hsegments]
      exact List.mem_cons_of_mem _ hc
  obtain ⟨step, hstep, hc⟩ := List.mem_flatMap.1 this
  rcases List.mem_append.1 hc with hc | hc
  · left
    unfold Step.slashes at hc
    split at hc <;> simpa using hc
  · exact .inr ⟨step, hstep, hc⟩

/-- An absolute path is its segments with slashes between them, behind another one. -/
theorem absolute_eq {path : Path} (hne : path ≠ []) :
    path.absolute = String.ofList ('/' :: ['/'].intercalate (path.flatMap Step.segments)) := by
  obtain ⟨segment, more, hsegments⟩ := List.exists_cons_of_ne_nil (segments_ne_nil hne)
  rw [absolute, flatMap_written, hsegments, flatMap_slash]

/-- A relative path is its segments with slashes between them. -/
theorem relative_eq {path : Path} (hfirst : ∀ test, path.head? ≠ some (.descendant test)) :
    path.relative = String.ofList (['/'].intercalate (path.flatMap Step.segments)) := by
  cases path with
  | nil => rfl
  | cons step path =>
    have hstep : step.isDescendant = false := by
      cases step with
      | descendant test => exact absurd rfl (hfirst test)
      | _ => rfl
    rw [relative, flatMap_written, ← Text.intercalate_eq_append_flatMap, List.flatMap_cons, Step.segments, hstep,
      if_neg Bool.false_ne_true, List.singleton_append]

theorem IsAbsolute.body {path : Path} (h : path.IsAbsolute) :
    path.dropLast.all (fun step => !step.isLast) = true := by
  rw [List.all_eq_true]
  intro step hstep
  have := h.elements step (List.dropLast_subset path hstep)
  cases step <;> simp_all [Step.isElement, Step.isLast]

/-- An absolute path is read as the path it is written for. -/
theorem IsAbsolute.ofAbsolute_eq {path : Path} (h : path.IsAbsolute) : ofAbsolute path.absolute = .ok path := by
  have htrim : Text.trim path.absolute = path.absolute := by
    rw [absolute_eq h.ne_nil]
    refine trim_written h.named fun c hc => ?_
    rcases List.mem_cons.1 hc with rfl | hc
    · exact .inl rfl
    · exact mem_intercalate hc
  have hcs : path.absolute.toList = '/' :: ['/'].intercalate (path.flatMap Step.segments) := by
    rw [absolute_eq h.ne_nil, String.toList_ofList]
  have hread : readSegments path.absolute [] false (path.flatMap Step.segments) = .ok path :=
    readSegments_segments h.named h.body
  unfold ofAbsolute
  simp only [htrim, hcs, pieces_segments h.ne_nil h.named, hread]
  rw [if_neg]
  simp [h.ne_nil, List.all_eq_true.2 h.elements]

/-- A text which does not begin with a slash is read as it is. -/
theorem ofRelative_eq {expression : String} {cs : List Char} (htrim : (Text.trim expression).toList = cs)
    (hslash : cs.head? ≠ some '/') :
    ofRelative expression = readSegments (Text.trim expression) [] false (Text.pieces '/' cs) := by
  unfold ofRelative
  simp only [htrim]
  split
  · exact absurd rfl hslash
  · exact absurd rfl hslash
  · rfl

/-- A relative path is read as the path it is written for. -/
theorem IsRelative.ofRelative_eq {path : Path} (h : path.IsRelative) : ofRelative path.relative = .ok path := by
  have htrim : Text.trim path.relative = path.relative := by
    rw [relative_eq h.first]
    exact trim_written h.named fun c hc => mem_intercalate hc
  have hcs : (Text.trim path.relative).toList = ['/'].intercalate (path.flatMap Step.segments) := by
    rw [htrim, relative_eq h.first, String.toList_ofList]
  have hread : readSegments (Text.trim path.relative) [] false (path.flatMap Step.segments) = .ok path :=
    readSegments_segments h.named h.body
  have hslash : (['/'].intercalate (path.flatMap Step.segments)).head? ≠ some '/' := by
    rw [← hcs, htrim]
    obtain ⟨step, path, rfl⟩ := List.exists_cons_of_ne_nil h.ne_nil
    obtain ⟨c, rest, hwritten⟩ := List.exists_cons_of_ne_nil (Step.written_ne_nil (h.named step List.mem_cons_self))
    have hc := (Step.apart_written (h.named step List.mem_cons_self) (hwritten ▸ List.mem_cons_self)).2
    rw [relative, String.toList_ofList, hwritten, List.cons_append, List.head?_cons]
    exact fun heq => hc (Option.some.inj heq)
  rw [Path.ofRelative_eq hcs hslash, pieces_segments h.ne_nil h.named, hread]

/-- What is read from a text which begins neither with a blank nor with a slash begins with a step that does not lead
to descendants. -/
theorem first_of_readSegments {whole : String} {c : Char} {cs : List Char} {path : Path}
    (hblank : Text.isBlank c = false) (hslash : c ≠ '/')
    (h : readSegments whole [] false (Text.pieces '/' (c :: cs)) = .ok path) :
    ∃ step, path.head? = some step ∧ step.isDescendant = false := by
  obtain ⟨first, more, hpieces⟩ := Text.exists_pieces '/' cs
  have hfront : '/' ∉ [c] := by simpa using hslash.symm
  have hpieces' := Text.pieces_append_left hfront hpieces
  rw [List.singleton_append] at hpieces'
  rw [hpieces'] at h
  exact head?_of_readSegments h (Text.trimChars_ne_nil hblank)

/-- What is read as the path of records is one. -/
theorem isAbsolute_of_ofAbsolute {expression : String} {path : Path} (h : ofAbsolute expression = .ok path) :
    path.IsAbsolute := by
  unfold ofAbsolute at h
  simp only at h
  split at h
  · split at h
    · cases h
    · rename_i hread
      split at h
      · cases h
      · rename_i hcheck
        cases h
        simp only [Bool.or_eq_true, Bool.not_eq_true', not_or, Bool.not_eq_false, List.isEmpty_iff] at hcheck
        exact ⟨hcheck.1, List.all_eq_true.1 hcheck.2, named_of_readSegments (by simp) hread⟩
  · cases h

/-- What is read as the path of a property is one. -/
theorem isRelative_of_ofRelative {expression : String} {path : Path} (h : ofRelative expression = .ok path) :
    path.IsRelative := by
  have hbody := last_of_ofRelative h
  obtain ⟨hnamed, step, hhead, hstep⟩ : (∀ step ∈ path, step.IsNamed) ∧
      ∃ step, path.head? = some step ∧ step.isDescendant = false := by
    unfold ofRelative at h
    simp only at h
    split at h
    · exact ⟨named_of_readSegments (by simp) h, first_of_readSegments (by decide) (by decide) h⟩
    · cases h
    · rename_i hslash
      refine ⟨named_of_readSegments (by simp) h, ?_⟩
      cases hcs : (Text.trim expression).toList with
      | nil => simp [hcs, Text.pieces, readSegments, Text.trimChars, Text.trimEnd] at h
      | cons c cs =>
        rw [hcs] at h
        have htrim : Text.trimChars expression.toList = c :: cs := by
          rw [← hcs, Text.trim, String.toList_ofList]
        refine first_of_readSegments (Text.not_isBlank_of_trimChars htrim) ?_ h
        rintro rfl
        exact hslash cs hcs
  refine ⟨?_, ?_, hbody, hnamed⟩
  · rintro rfl
    cases hhead
  · rintro test htest
    rw [hhead] at htest
    cases htest
    cases hstep

/-- **Reading a path undoes writing it.** What is written for a path of records is read as this path, and so is what is
written for a path of a property; and these are all paths that are read. -/
theorem ofAbsolute_absolute :
    (∀ path : Path, path.IsAbsolute → ofAbsolute path.absolute = .ok path) ∧
    (∀ path : Path, path.IsRelative → ofRelative path.relative = .ok path) ∧
    (∀ expression path, ofAbsolute expression = .ok path → path.IsAbsolute) ∧
    ∀ expression path, ofRelative expression = .ok path → path.IsRelative :=
  ⟨fun _ => IsAbsolute.ofAbsolute_eq, fun _ => IsRelative.ofRelative_eq, fun _ _ => isAbsolute_of_ofAbsolute,
    fun _ _ => isRelative_of_ofRelative⟩

/-- Steps to descendants at the beginning and at the end of a path, and names of points, which a path of a property may
end with. -/
theorem ofAbsolute_absolute_points :
    (∃ path : Path, path.IsAbsolute ∧ path.absolute = "//a.b/*//*" ∧ ofAbsolute path.absolute = .ok path ∧
      path = [.descendant (some "a.b"), .child none, .descendant none]) ∧
    ∃ path : Path, path.IsRelative ∧ path.relative = ".//x/../@." ∧ ofRelative path.relative = .ok path ∧
      path = [.current, .descendant (some "x"), .child (some ".."), .named "."] := by
  obtain ⟨habsolute, hrelative, -⟩ := ofAbsolute_absolute
  have hletter (c : Char) (hc : c.isLower = true) : isNameChar c = true := by
    simp [isNameChar, Text.isAlphanumeric_iff.2 (.inl (Text.isAlphabetic_of_isLower hc))]
  have hpoint : isNameChar '.' = true := by simp [isNameChar]
  have hrecords : IsAbsolute [.descendant (some "a.b"), .child none, .descendant none] :=
    ⟨by decide, by decide, by simp [Step.IsNamed, isName, hletter, hpoint]⟩
  have hproperty : IsRelative [.current, .descendant (some "x"), .child (some ".."), .named "."] :=
    ⟨by decide, by simp, by decide, by simp [Step.IsNamed, isName, hletter, hpoint]⟩
  exact ⟨⟨_, hrecords, by decide, habsolute _ hrecords, rfl⟩, _, hproperty, by decide, hrelative _ hproperty, rfl⟩

end Path

end Xml

end RecordServer
