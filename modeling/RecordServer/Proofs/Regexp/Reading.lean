import Mathlib.Data.List.Basic
import Mathlib.Tactic.Tauto
import RecordServer.Parser.Basic
import RecordServer.Proofs.Regexp.Described

/-!
# Reading patterns

Reading is followed from one part of a pattern to the next (`Reading.Leads`), up to the pattern as a whole
(`Reading.Leads.read?`). A text that is escaped stands for itself, within brackets (`readClassFrom?_escaped`), outside of
them (`Reading.leads_escaped`), and as one of several alternatives (`Reading.exists_leads_alternatives`).
-/

namespace RecordServer.Regexp

/-- A character such that it stands for itself in a pattern. -/
def escape (c : Char) : List Char := if Format.isMeta c then ['\\', c] else [c]

/-- A text such that it stands for itself in a pattern. -/
def escaped (cs : List Char) : List Char := cs.flatMap escape

variable {c next : Char} {cs rest : List Char} {n : Nat}

theorem toList_escape (text : String) : (Format.escape text).toList = escaped text.toList := by
  rw [Format.escape, String.toList_ofList]
  rfl

theorem escaped_cons (c : Char) (cs : List Char) : escaped (c :: cs) = escape c ++ escaped cs := rfl

theorem isMeta_iff : Format.isMeta c = true ↔
    c ∈ ['\\', '.', '+', '*', '?', '(', ')', '|', '[', ']', '\x7b', '\x7d', '^', '$', '#', '&', '-', '~'] :=
  List.contains_iff_mem

theorem escape_meta (h : Format.isMeta c = true) : escape c = ['\\', c] := if_pos h

theorem escape_plain (h : ¬Format.isMeta c = true) : escape c = [c] := if_neg h

/-- An escaped character does not begin with one that has a meaning in brackets. -/
theorem exists_escape (c : Char) :
    ∃ first behind, escape c = first :: behind ∧ first ∉ ['[', ']', '&', '-', '~'] := by
  by_cases hc : Format.isMeta c = true
  · exact ⟨'\\', [c], escape_meta hc, by decide⟩
  · refine ⟨c, [], escape_plain hc, fun hmem => hc (isMeta_iff.2 ?_)⟩
    simp only [List.mem_cons, List.not_mem_nil, or_false] at hmem ⊢
    tauto

theorem length_escape_pos (c : Char) : 0 < (escape c).length := by
  obtain ⟨first, behind, hescape, -⟩ := exists_escape c
  rw [hescape]
  exact Nat.succ_pos _

theorem length_le_escaped : ∀ cs : List Char, cs.length ≤ (escaped cs).length
  | [] => Nat.le_refl 0
  | c :: cs => by
    have hpos := length_escape_pos c
    have hcs := length_le_escaped cs
    rw [escaped_cons, List.length_append, List.length_cons]
    omega

/-- No hyphen stands for itself. -/
theorem head?_escaped (cs rest : List Char) (h : next ≠ '-') :
    ∃ first behind, escaped cs ++ next :: rest = first :: behind ∧ first ≠ '-' := by
  cases cs with
  | nil => exact ⟨next, rest, rfl, h⟩
  | cons c cs =>
    obtain ⟨first, behind, hescape, hfirst⟩ := exists_escape c
    refine ⟨first, behind ++ escaped cs ++ next :: rest, by rw [escaped_cons, hescape]; rfl, ?_⟩
    rintro rfl
    exact hfirst (by decide)

/-- A character with a meaning of its own stands for itself behind a backslash. -/
theorem readEscape?_meta (h : Format.isMeta c = true) (rest : List Char) :
    readEscape? false (c :: rest) = some (.letter ⟨c, false⟩, rest) := by
  have hmem := isMeta_iff.1 h
  simp only [List.mem_cons, List.not_mem_nil, or_false] at hmem
  rcases hmem with rfl | rfl | rfl | rfl | rfl | rfl | rfl | rfl | rfl | rfl | rfl | rfl | rfl | rfl | rfl | rfl | rfl |
    rfl <;> rfl

/-! ## Within brackets -/

theorem readClassAtom?_escape (c : Char) (rest : List Char) :
    readClassAtom? false (escape c ++ rest) = some (.letter ⟨c, false⟩, rest) := by
  by_cases hc : Format.isMeta c = true
  · rw [escape_meta hc]
    exact readEscape?_meta hc rest
  · rw [escape_plain hc]
    unfold readClassAtom?
    split
    · contradiction
    · rename_i h
      obtain ⟨rfl, -⟩ := List.cons.inj h
      exact absurd rfl hc
    · rename_i h
      obtain ⟨rfl, rfl⟩ := List.cons.inj h
      rfl

/-- An escaped character is read alone in front of something else than a hyphen. -/
theorem readRange?_escape (c : Char) (h : next ≠ '-') (rest : List Char) :
    readRange? false (escape c ++ next :: rest) = some (.letter ⟨c, false⟩, next :: rest) := by
  unfold readRange?
  rw [readClassAtom?_escape]
  simp [skip, h, Atom.alone?]

/-- What begins with none of the characters that have a meaning in brackets begins with a range or one character. -/
theorem readClassFrom?_range (hc : c ∉ ['[', ']', '&', '-', '~']) (rest : List Char) (n : Nat) (inner : OpenClass) :
    readClassFrom? false (n + 1) inner [] (c :: rest) =
      (readRange? false (c :: rest)).bind fun p => readClassFrom? false n (inner.add (.leaf p.1)) [] p.2 := by
  simp only [List.mem_cons, List.not_mem_nil, or_false, not_or] at hc
  obtain ⟨hopen, hclose, hand, hhyphen, htilde⟩ := hc
  rw [readClassFrom?]
  simp [skip, hopen, hclose, hand, hhyphen, htilde]

theorem readClassFrom?_escape (c : Char) (h : next ≠ '-') (rest : List Char) (n : Nat) (inner : OpenClass) :
    readClassFrom? false (n + 1) inner [] (escape c ++ next :: rest) =
      readClassFrom? false n (inner.add (.leaf (.letter ⟨c, false⟩))) [] (next :: rest) := by
  have hrange := readRange?_escape c h rest
  obtain ⟨first, behind, hescape, hfirst⟩ := exists_escape c
  rw [hescape, List.cons_append] at hrange ⊢
  rw [readClassFrom?_range hfirst, hrange, Option.bind_some]

/-- **An escaped text in brackets stands for its characters.** -/
theorem readClassFrom?_escaped (rest : List Char) (inner : OpenClass) (h : cs.length ≤ n) :
    readClassFrom? false (n + 1) inner [] (escaped cs ++ ']' :: rest) =
      ({ inner with sets := (cs.map fun c => .leaf (.letter ⟨c, false⟩)).reverse ++ inner.sets } : OpenClass).close?.map
        fun s => (s, rest) := by
  induction cs generalizing n inner with
  | nil =>
    rw [readClassFrom?]
    cases hclose : inner.close? <;> simp [escaped, skip, hclose]
  | cons c cs ih =>
    obtain ⟨n, rfl⟩ : ∃ m, n = m + 1 := ⟨n - 1, by simp only [List.length_cons] at h; omega⟩
    obtain ⟨first, behind, heq, hfirst⟩ := head?_escaped cs rest (show ']' ≠ '-' by decide)
    rw [escaped_cons, List.append_assoc, heq, readClassFrom?_escape c hfirst, ← heq,
      ih _ (by simpa using h)]
    simp [OpenClass.add]

/-! ## Classes -/

theorem deepest_le {α : Type} {parts : List (Nested α)} {n : Nat} (h : ∀ p ∈ parts, p.depth ≤ n) :
    Nested.deepest parts ≤ n := by
  suffices hfold : ∀ (parts : List (Nested α)) (m : Nat), m ≤ n → (∀ p ∈ parts, p.depth ≤ n) →
      parts.foldl (fun n p => max n p.depth) m ≤ n from hfold parts 0 (Nat.zero_le n) h
  intro parts
  induction parts with
  | nil => exact fun m hm _ => hm
  | cons p parts ih =>
    intro m hm h
    rw [List.forall_mem_cons] at h
    exact ih _ (Nat.max_le.2 ⟨hm, h.1⟩) h.2

theorem around?_of_lt {α : Type} (value : α) {depth : Nat} (h : depth < Nested.limit) :
    Nested.around? value depth = some ⟨value, depth + 1⟩ := if_pos h

/-- The sets behind an operation as one. -/
theorem exists_side {o : OpenClass} (h : ∀ s ∈ o.sets, s.depth = 0) : ∃ s, o.side? = some s ∧ s.depth ≤ 1 ∧
    ∀ c, s.value.Holds c ↔ ∃ t ∈ o.sets, t.value.Holds c := by
  unfold OpenClass.side?
  split
  · rename_i s hsets
    rw [hsets] at h ⊢
    exact ⟨s, rfl, by simp [h s], by simp⟩
  · rename_i hsets
    rw [hsets]
    exact ⟨_, rfl, by simp [Nested.leaf], by simp [Nested.leaf, CharClass.Holds, CharClass.HoldsAny]⟩
  · have hdeepest : Nested.deepest o.sets ≤ 0 := deepest_le fun s hs => Nat.le_of_eq (h s hs)
    refine ⟨_, around?_of_lt _ (Nat.lt_of_le_of_lt hdeepest (by decide)), Nat.succ_le_succ hdeepest, fun c => ?_⟩
    rw [CharClass.Holds, CharClass.holdsAny_iff]
    simp

/-- Sets in brackets without an operation are closed to the class of their characters, or of all others. -/
theorem exists_close {o : OpenClass} (hleft : o.left = none) (h : ∀ s ∈ o.sets, s.depth = 0) :
    ∃ s, o.close? = some s ∧ s.depth ≤ 2 ∧ ∀ c, s.value.Holds c ↔
      if o.negated then ¬∃ t ∈ o.sets, t.value.Holds c else ∃ t ∈ o.sets, t.value.Holds c := by
  obtain ⟨s, hs, hdepth, hholds⟩ := exists_side h
  have hwhole : o.whole? = some s := by
    unfold OpenClass.whole?
    rw [hs, hleft]
    rfl
  have hlimit : s.depth < Nested.limit := Nat.lt_of_le_of_lt hdepth (by decide)
  refine ⟨⟨.bracketed o.negated s.value, s.depth + 1⟩, ?_, Nat.succ_le_succ hdepth, fun c => ?_⟩
  · unfold OpenClass.close?
    rw [hwhole, Option.bind_eq_bind, Option.bind_some, around?_of_lt _ hlimit]
  · rw [CharClass.Holds, hholds]

/-- Brackets with the digits and some more characters. -/
def digitsOr (cs : List Char) : OpenClass :=
  ⟨false, none, (cs.map fun c => .leaf (.letter ⟨c, false⟩)).reverse ++ [.leaf (.range ⟨'0', false⟩ ⟨'9', false⟩)]⟩

/-- The class of the digits and of some escaped characters. -/
theorem readClass?_digits (ignored rest : List Char) :
    ∃ s, readClass? false ('0' :: '-' :: '9' :: (escaped ignored ++ ']' :: rest)) = some (s, rest) ∧ s.depth ≤ 2 ∧
      ∀ c, s.value.Holds c ↔ c.isDigit = true ∨ c ∈ ignored := by
  have hdepth : ∀ s ∈ (digitsOr ignored).sets, s.depth = 0 := by
    simp [digitsOr, or_imp, forall_and, Nested.leaf]
  obtain ⟨s, hs, hle, hholds⟩ := exists_close rfl hdepth
  have hlength : ignored.length ≤ (escaped ignored ++ ']' :: rest).length + 2 := by
    have hescaped := length_le_escaped ignored
    rw [List.length_append]
    omega
  refine ⟨s, ?_, hle, fun c => ?_⟩
  · -- The range comes first, and behind it the text up to the bracket.
    show readClassFrom? false ((escaped ignored ++ ']' :: rest).length + 2 + 1 + 1) ⟨false, none, []⟩ []
      ('0' :: '-' :: '9' :: (escaped ignored ++ ']' :: rest)) = _
    rw [readClassFrom?_range (by decide)]
    show readClassFrom? false ((escaped ignored ++ ']' :: rest).length + 2 + 1)
      ⟨false, none, [.leaf (.range ⟨'0', false⟩ ⟨'9', false⟩)]⟩ [] (escaped ignored ++ ']' :: rest) = _
    rw [readClassFrom?_escaped rest _ hlength]
    show (digitsOr ignored).close?.map _ = _
    rw [hs]
    rfl
  · rw [hholds]
    have hdigit : c.isDigit = true ↔ '0' ≤ c ∧ c ≤ '9' := by
      rw [Char.isDigit, Bool.and_eq_true, decide_eq_true_iff, decide_eq_true_iff]
      exact Iff.rfl
    simp [digitsOr, Nested.leaf, CharClass.Holds, hdigit, or_comm]

/-! ## From one part of a pattern to the next -/

namespace Reading

/-- Reading leads from a state in front of a text to another state in front of another text, in no more steps than there
are characters between them. -/
def Leads (r : Reading) (cs : List Char) (r' : Reading) (rest : List Char) : Prop :=
  ∃ k, k + rest.length ≤ cs.length ∧ ∀ n, readAll? (n + k) r cs = readAll? n r' rest

variable {r r' r'' : Reading} {p : Nested Pattern}

theorem Leads.refl (r : Reading) (cs : List Char) : r.Leads cs r cs := ⟨0, by simp, fun _ => rfl⟩

theorem Leads.trans {behind : List Char} (h : r.Leads cs r' rest) (h' : r'.Leads rest r'' behind) :
    r.Leads cs r'' behind := by
  obtain ⟨k, hk, hread⟩ := h
  obtain ⟨l, hl, hread'⟩ := h'
  refine ⟨l + k, by omega, fun n => ?_⟩
  rw [← Nat.add_assoc, hread, hread']

theorem leads_step (hverbose : r.verbose = false) (hstep : r.step? cs = some (r', rest))
    (hshort : rest.length < cs.length) : r.Leads cs r' rest := by
  refine ⟨1, by omega, fun n => ?_⟩
  cases cs with
  | nil => cases hstep
  | cons c cs =>
    rw [readAll?, hverbose]
    simp [skip, hstep]

/-- A character that is escaped, if it has to be, is read as a letter. -/
theorem step?_escape (hverbose : r.verbose = false) (c : Char) (rest : List Char) :
    r.step? (escape c ++ rest) = some (r.add (.leaf (.letter ⟨c, false⟩)), rest) := by
  by_cases hc : Format.isMeta c = true
  · rw [escape_meta hc]
    show (readEscape? r.verbose (c :: rest)).bind _ = _
    rw [hverbose, readEscape?_meta hc]
    rfl
  · rw [escape_plain hc]
    have hne : ∀ d, Format.isMeta d = true → c ≠ d := fun d hd h => hc (h ▸ hd)
    unfold step?
    simp only [List.singleton_append]
    split
    case h_1 h => cases h
    case h_14 h =>
      obtain ⟨rfl, rfl⟩ := List.cons.inj h
      rfl
    all_goals
      rename_i h
      exact absurd (List.cons.inj h).1 (hne _ rfl)

/-- The letters of a text. -/
def letters (text : List Char) : List (Nested Pattern) := text.map fun c => .leaf (.letter ⟨c, false⟩)

/-- Behind the letters of a text. -/
def behind (r : Reading) (text : List Char) : Reading := { r with parts := (letters text).reverse ++ r.parts }

/-- **An escaped text is read as its letters.** -/
theorem leads_escaped (hverbose : r.verbose = false) (cs rest : List Char) :
    r.Leads (escaped cs ++ rest) (r.behind cs) rest := by
  induction cs generalizing r with
  | nil => exact .refl r rest
  | cons c cs ih =>
    have hlength : (escaped cs ++ rest).length < (escape c ++ (escaped cs ++ rest)).length := by
      have hpos := length_escape_pos c
      simp only [List.length_append]
      omega
    rw [escaped_cons, List.append_assoc]
    refine (leads_step hverbose (step?_escape hverbose c _) hlength).trans ?_
    simpa [add, behind, letters] using ih (r := r.add (.leaf (.letter ⟨c, false⟩))) hverbose

/-- A class is read as one part. -/
theorem leads_class (hverbose : r.verbose = false) {s : Nested CharClass} (h : readClass? false cs = some (s, rest))
    (hshort : rest.length ≤ cs.length) : r.Leads ('[' :: cs) (r.add ⟨.chars s.value, s.depth⟩) rest := by
  refine leads_step hverbose ?_ (Nat.lt_succ_of_le hshort)
  show (readClass? r.verbose cs).map _ = _
  rw [hverbose, h]
  rfl

/-- A sign for a repetition is about the last part. -/
theorem leads_repeat (hverbose : r.verbose = false) {sign : Char} {least : Nat} {most : Option Nat}
    (hsign : (sign, least, most) ∈ [('?', 0, some 1), ('*', 0, none), ('+', 1, none)]) {p : Nested Pattern}
    (hp : p.value.isRepeatable = true) (hdepth : p.depth < Nested.limit) (hrest : rest.head? ≠ some '?') :
    (r.add p).Leads (sign :: rest) (r.add ⟨.repetition least most true p.value, p.depth + 1⟩) rest := by
  have hrepeat : (r.add p).repeat? least most true = some (r.add ⟨.repetition least most true p.value, p.depth + 1⟩) := by
    unfold repeat? add
    simp only [hp, if_true]
    rw [around?_of_lt _ hdepth]
    rfl
  have hgreed : greed rest = (true, rest) := by
    unfold greed
    split
    · exact absurd rfl hrest
    · rfl
  refine leads_step hverbose ?_ (Nat.lt_succ_self _)
  simp only [List.mem_cons, Prod.mk.injEq, List.not_mem_nil, or_false] at hsign
  rcases hsign with ⟨rfl, rfl, rfl⟩ | ⟨rfl, rfl, rfl⟩ | ⟨rfl, rfl, rfl⟩ <;>
    simp [step?, hgreed, hrepeat]

/-- In a group without a name and without flags. -/
def inGroup (r : Reading) : Reading :=
  { r with outer := ⟨.switching [], r.verbose, r.branches, r.parts⟩ :: r.outer, branches := [], parts := [] }

/-- A group without a name and without flags is opened. -/
theorem leads_open (hverbose : r.verbose = false) (houter : r.outer.length < Nested.limit) (rest : List Char) :
    r.Leads ('(' :: '?' :: ':' :: rest) r.inGroup rest := by
  refine leads_step hverbose ?_ (by simp; omega)
  have hopen : r.openGroup? (.switching []) r.verbose = some r.inGroup := if_pos houter
  show r.readGroup? ('?' :: ':' :: rest) = _
  unfold readGroup?
  rw [hverbose]
  simp [skip, readFlags?, switched?, hverbose ▸ hopen]

/-- In a group whose text is kept under a name. -/
def inCapture (r : Reading) (name : List Char) : Reading :=
  { r with
    outer := ⟨.capturing (r.captures + 1), r.verbose, r.branches, r.parts⟩ :: r.outer, branches := [], parts := [],
    captures := r.captures + 1, names := name :: r.names }

/-- A group with a new name is opened. -/
theorem leads_capture (hverbose : r.verbose = false) (houter : r.outer.length < Nested.limit) {name : List Char}
    (hname : isGroupName name = true) (hend : '>' ∉ name) (hnew : name ∉ r.names) (rest : List Char) :
    r.Leads ('(' :: '?' :: 'P' :: '<' :: (name ++ '>' :: rest)) (r.inCapture name) rest := by
  refine leads_step hverbose ?_ (by simp; omega)
  have hkept : ∀ c ∈ name, decide (c ≠ '>') = true := fun c hc => by
    simpa using ne_of_mem_of_not_mem hc hend
  have htake : (name ++ '>' :: rest).takeWhile (· ≠ '>') = name := by
    rw [List.takeWhile_append_of_pos hkept, List.takeWhile_cons_of_neg (by simp), List.append_nil]
  have hdrop : (name ++ '>' :: rest).dropWhile (· ≠ '>') = '>' :: rest := by
    rw [List.dropWhile_append_of_pos hkept, List.dropWhile_cons_of_neg (by simp)]
  have hopen : r.openCapture? (some name) = some (r.inCapture name) := by
    unfold openCapture? openGroup?
    simp [hnew, houter, inCapture]
  show r.readGroup? ('?' :: 'P' :: '<' :: (name ++ '>' :: rest)) = _
  unfold readGroup?
  rw [hverbose]
  simp only [skip, if_neg Bool.false_ne_true, htake, hdrop, hname, if_true, hopen]
  rfl

/-- A group is closed behind all of its pattern. -/
theorem leads_closeGroup {g : OpenGroup} {outer : List OpenGroup} (houter : r.outer = g :: outer)
    (hverbose : r.verbose = false) (hwhole : r.whole? = some p) (hdepth : p.depth < Nested.limit) (rest : List Char) :
    r.Leads (')' :: rest) { r with
      verbose := g.verbose, outer := outer, branches := g.branches
      parts := ⟨.group g.kind p.value, p.depth + 1⟩ :: g.parts } rest := by
  refine leads_step hverbose ?_ (Nat.lt_succ_self _)
  show r.closeGroup?.map _ = _
  unfold closeGroup?
  rw [hwhole, Option.bind_eq_bind, Option.bind_some, houter]
  simp only [around?_of_lt _ hdepth]
  rfl

/-- A group without a name and without flags is closed. -/
theorem leads_close (hverbose : r.verbose = false) {branches parts : List (Nested Pattern)}
    (hwhole : { r.inGroup with branches := branches, parts := parts }.whole? = some p) (hdepth : p.depth < Nested.limit)
    (rest : List Char) : { r.inGroup with branches := branches, parts := parts }.Leads (')' :: rest)
      (r.add ⟨.group (.switching []) p.value, p.depth + 1⟩) rest :=
  leads_closeGroup (r := { r.inGroup with branches := branches, parts := parts }) rfl hverbose hwhole hdepth rest

/-- Behind a bar the next alternative begins. -/
theorem leads_bar (hverbose : r.verbose = false) (hbranch : r.branch? = some p) (rest : List Char) :
    r.Leads ('|' :: rest) { r with branches := p :: r.branches, parts := [] } rest := by
  refine leads_step hverbose ?_ (Nat.lt_succ_self _)
  show r.alternative?.map _ = _
  unfold alternative?
  rw [hbranch]
  rfl

/-- Several parts are a sequence. -/
theorem branch?_several (hparts : 2 ≤ r.parts.length) (hdepth : Nested.deepest r.parts < Nested.limit) :
    r.branch? = some ⟨.concatenation (r.parts.reverse.map Nested.value), Nested.deepest r.parts + 1⟩ := by
  unfold branch?
  split
  · rename_i hnil
    simp [hnil] at hparts
  · rename_i hone
    simp [hone] at hparts
  · exact around?_of_lt _ hdepth

/-- Several parts without alternatives before them are the whole pattern. -/
theorem exists_concatenation (hbranches : r.branches = []) (hparts : 2 ≤ r.parts.length) {n : Nat}
    (hdepth : ∀ p ∈ r.parts, p.depth ≤ n) (hn : n < Nested.limit) :
    ∃ p, r.whole? = some p ∧ p.depth ≤ n + 1 ∧ p.value = .concatenation (r.parts.reverse.map Nested.value) := by
  have hdeepest := deepest_le hdepth
  refine ⟨⟨.concatenation (r.parts.reverse.map Nested.value), Nested.deepest r.parts + 1⟩, ?_,
    Nat.succ_le_succ hdeepest, rfl⟩
  unfold whole?
  rw [branch?_several hparts (Nat.lt_of_le_of_lt hdeepest hn), hbranches]
  rfl

/-! ## Alternatives -/

/-- The letters of a text describe it. -/
theorem exists_branch {text : List Char} (h : r.parts = (letters text).reverse) :
    ∃ p, r.branch? = some p ∧ p.depth ≤ 1 ∧ ∀ cs, p.value.Describes cs ↔ cs = text := by
  match text with
  | [] =>
    refine ⟨.leaf .empty, ?_, Nat.zero_le 1, fun cs => Pattern.describes_empty⟩
    rw [branch?, h]
    rfl
  | [c] =>
    refine ⟨.leaf (.letter ⟨c, false⟩), ?_, Nat.zero_le 1, fun cs => Pattern.describes_letter⟩
    rw [branch?, h]
    rfl
  | c :: d :: more =>
    have hdepth : Nested.deepest r.parts ≤ 0 := deepest_le fun p hp => by
      rw [h, List.mem_reverse, letters, List.mem_map] at hp
      obtain ⟨_, -, rfl⟩ := hp
      exact Nat.le_refl 0
    have hmap : r.parts.reverse.map Nested.value = (c :: d :: more).map fun c => Pattern.letter ⟨c, false⟩ := by
      rw [h]
      simp [letters, Nested.leaf]
    refine ⟨_, branch?_several (by simp [h, letters]) (Nat.lt_of_le_of_lt hdepth (by decide)), Nat.succ_le_succ hdepth,
      fun cs => ?_⟩
    rw [hmap]
    exact Pattern.describes_letters

/-- The last alternative and those before it as one pattern. -/
theorem exists_whole (hbranch : r.branch? = some p) (hp : p.depth ≤ 1) (hbranches : ∀ q ∈ r.branches, q.depth ≤ 1) :
    ∃ q, r.whole? = some q ∧ q.depth ≤ 2 ∧
      ∀ cs, q.value.Describes cs ↔ p.value.Describes cs ∨ ∃ b ∈ r.branches, b.value.Describes cs := by
  unfold whole?
  rw [hbranch, Option.bind_eq_bind, Option.bind_some]
  split
  · rename_i hnone
    exact ⟨p, rfl, Nat.le_succ_of_le hp, by simp [hnone]⟩
  · have hdepth : Nested.deepest (p :: r.branches) ≤ 1 := deepest_le (List.forall_mem_cons.2 ⟨hp, hbranches⟩)
    refine ⟨_, around?_of_lt _ (Nat.lt_of_le_of_lt hdepth (by decide)), Nat.succ_le_succ hdepth, fun cs => ?_⟩
    rw [Pattern.describes_alternation]
    simp [or_comm]

/-- **Escaped texts between bars are read as a pattern which describes each of them**, besides the alternatives before
them. -/
theorem exists_leads_alternatives (rest : List Char) : ∀ (text : List Char) (texts : List (List Char)) (r : Reading),
    r.verbose = false → r.parts = [] → (∀ q ∈ r.branches, q.depth ≤ 1) →
    ∃ branches parts p, r.Leads (['|'].intercalate ((text :: texts).map escaped) ++ rest)
        { r with branches := branches, parts := parts } rest ∧
      { r with branches := branches, parts := parts }.whole? = some p ∧ p.depth ≤ 2 ∧
      ∀ cs, p.value.Describes cs ↔ cs ∈ text :: texts ∨ ∃ b ∈ r.branches, b.value.Describes cs
  | text, [], r, hverbose, hparts, hbranches => by
    have hletters : (r.behind text).parts = (letters text).reverse := by simp [behind, hparts]
    obtain ⟨p, hbranch, hdepth, hp⟩ := exists_branch hletters
    obtain ⟨q, hwhole, hle, hq⟩ := exists_whole hbranch hdepth hbranches
    refine ⟨r.branches, (r.behind text).parts, q, ?_, hwhole, hle, fun cs => ?_⟩
    · rw [List.map_singleton, List.intercalate_singleton]
      exact leads_escaped hverbose text rest
    · rw [hq, hp, List.mem_singleton]
      rfl
  | text, next :: texts, r, hverbose, hparts, hbranches => by
    have hletters : (r.behind text).parts = (letters text).reverse := by simp [behind, hparts]
    obtain ⟨p, hbranch, hdepth, hp⟩ := exists_branch hletters
    have hbranches' : ∀ q ∈ p :: r.branches, q.depth ≤ 1 := List.forall_mem_cons.2 ⟨hdepth, hbranches⟩
    obtain ⟨branches, parts, q, hrest, hwhole, hle, hq⟩ := exists_leads_alternatives rest next texts
      { r with branches := p :: r.branches, parts := [] } hverbose rfl hbranches'
    refine ⟨branches, parts, q, ?_, hwhole, hle, fun cs => ?_⟩
    · rw [List.map_cons, List.map_cons, List.intercalate_cons_cons, List.append_assoc, List.append_assoc]
      exact (leads_escaped hverbose text _).trans ((leads_bar (r := r.behind text) hverbose hbranch _).trans hrest)
    · rw [hq, List.mem_cons (a := cs) (b := text)]
      simp only [List.exists_mem_cons_iff, hp]
      tauto

/-- Reading that leads to the end gives the whole pattern. -/
theorem Leads.read? {source : String} (h : start.Leads source.toList r []) (hverbose : r.verbose = false)
    (houter : r.outer = []) (hwhole : r.whole? = some p) : Pattern.read? source = some p.value := by
  obtain ⟨k, hk, hread⟩ := h
  obtain ⟨n, hn⟩ : ∃ n, source.toList.length + 1 = (n + 1) + k := ⟨source.toList.length - k, by simp at hk; omega⟩
  unfold Pattern.read?
  simp only
  rw [hn, hread, readAll?, hverbose]
  simp [skip, houter, hwhole]

end Reading

end RecordServer.Regexp
