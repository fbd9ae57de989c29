import RecordServer.Proofs.Output.Paths
import RecordServer.Proofs.Text.Splitting

/-!
# Filled templates

The endpoint of a single record is a template, in which values take the places of the wildcards (`Route.filled`). If all
values are parts of a path (`Route.IsSegment`) and no part of the template has two wildcards, the values can be found
again: between two wildcards there is a slash (`Route.slash_mem_of_apart`), up to which the first of two values and the
text behind it are the same in equal paths (`Route.woven_injective`). So the route of the template has exactly the
filled templates as its paths, each with its values (`Route.match?_ofEndpoint`).
-/

namespace RecordServer.Route

open Text (pieces)

/-- A template with values in place of its wildcards, one after the other. Wildcards without a value are left. -/
def filled : List Char → List (List Char) → List Char
  | [], _ => []
  | c :: template, values =>
    if c = '?' then
      match values with
      | [] => c :: filled template []
      | value :: values => value ++ filled template values
    else c :: filled template values

/-- Values, each of them followed by a text. -/
def woven (values texts : List (List Char)) : List Char := (List.zipWith (· ++ ·) values texts).flatten

/-- What may stand between two slashes of a path, but not an empty text. -/
def IsSegment (value : List Char) : Prop := value ≠ [] ∧ '/' ∉ value

variable {template text first path : List Char} {values values' texts : List (List Char)} {shapes : List Shape}

theorem woven_cons (value text : List Char) (values texts : List (List Char)) :
    woven (value :: values) (text :: texts) = value ++ text ++ woven values texts := rfl

/-- A filled template consists of the texts between its wildcards, with the values in front of them. -/
theorem filled_eq (hpieces : pieces '?' template = first :: texts) (hlength : values.length = texts.length) :
    filled template values = first ++ woven values texts := by
  induction template generalizing first texts values with
  | nil =>
    cases hpieces
    rw [List.eq_nil_of_length_eq_zero hlength]
    rfl
  | cons c template ih =>
    obtain ⟨next, more, hmore⟩ := Text.exists_pieces '?' template
    rw [pieces, hmore] at hpieces
    by_cases hc : c = '?'
    · rw [if_pos hc] at hpieces
      cases hpieces
      obtain ⟨value, values, rfl⟩ := List.exists_of_length_succ values hlength
      simp only [filled, if_pos hc]
      rw [ih hmore (Nat.succ.inj hlength), woven_cons, List.nil_append, List.append_assoc]
    · rw [if_neg hc] at hpieces
      cases hpieces
      simp only [filled, if_neg hc]
      rw [ih hmore hlength, List.cons_append]

/-! ## Finding the values again -/

/-- If no part of a template has two wildcards, the texts between two of them have slashes. -/
theorem slash_mem_of_apart (hapart : ∀ segment ∈ pieces '/' template, segment.count '?' ≤ 1)
    (hpieces : pieces '?' template = first :: texts) (htext : text ∈ texts.dropLast) : '/' ∈ text := by
  by_contra hslash
  -- Otherwise the text and the wildcards around it are within one part.
  have hwithin : '?' :: (text ++ ['?']) <:+: template := by
    obtain ⟨before, behind, htexts⟩ := List.append_of_mem htext
    have hne : texts ≠ [] := by
      rintro rfl
      cases htext
    have hsplit : texts = before ++ text :: (behind ++ [texts.getLast hne]) := by
      rw [← List.cons_append, ← List.append_assoc, ← htexts, List.dropLast_append_getLast]
    have hnext : ∃ rest, (behind ++ [texts.getLast hne]).flatMap ('?' :: ·) = '?' :: rest := by
      cases behind <;> exact ⟨_, rfl⟩
    obtain ⟨rest, hrest⟩ := hnext
    refine ⟨first ++ before.flatMap ('?' :: ·), rest, ?_⟩
    rw [← Text.intercalate_pieces '?' template, hpieces, Text.intercalate_eq_append_flatMap, hsplit,
      List.flatMap_append, List.flatMap_cons, hrest]
    simp
  have hpart : '/' ∉ '?' :: (text ++ ['?']) := by simp [hslash]
  obtain ⟨segment, hsegment, hin⟩ := Text.exists_piece hpart hwithin
  have hcount := hin.sublist.count_le '?'
  have htwo : 2 ≤ ('?' :: (text ++ ['?'])).count '?' := by
    rw [List.count_cons_self, List.count_append, List.count_singleton_self]
    omega
  have := hapart segment hsegment
  omega

/-- What stands in front of the first slash is determined. -/
theorem append_slash_inj {front front' rest rest' : List Char} (hfront : '/' ∉ front) (hfront' : '/' ∉ front')
    (h : front ++ '/' :: rest = front' ++ '/' :: rest') : front = front' ∧ rest = rest' := by
  have htake (front rest : List Char) (hfront : '/' ∉ front) :
      (front ++ '/' :: rest).takeWhile (· ≠ '/') = front := by
    rw [List.takeWhile_append_of_pos fun c hc => by simpa using ne_of_mem_of_not_mem hc hfront,
      List.takeWhile_cons_of_neg (by simp), List.append_nil]
  have hsame : front = front' := by
    rw [← htake front rest hfront, h, htake front' rest' hfront']
  subst hsame
  exact ⟨rfl, (List.cons.inj (List.append_cancel_left h)).2⟩

/-- **Values without slashes are found again** between texts of which all but the last one have slashes. -/
theorem woven_injective (htexts : ∀ text ∈ texts.dropLast, '/' ∈ text) (hvalues : ∀ value ∈ values, '/' ∉ value)
    (hvalues' : ∀ value ∈ values', '/' ∉ value) (hlength : values.length = texts.length)
    (hlength' : values'.length = texts.length) (h : woven values texts = woven values' texts) : values = values' := by
  induction texts generalizing values values' with
  | nil => rw [List.eq_nil_of_length_eq_zero hlength, List.eq_nil_of_length_eq_zero hlength']
  | cons text texts ih =>
    obtain ⟨value, values, rfl⟩ := List.exists_of_length_succ values hlength
    obtain ⟨value', values', rfl⟩ := List.exists_of_length_succ values' hlength'
    obtain ⟨hvalue, hvalues⟩ := List.forall_mem_cons.1 hvalues
    obtain ⟨hvalue', hvalues'⟩ := List.forall_mem_cons.1 hvalues'
    rw [List.length_cons, List.length_cons, Nat.succ_inj] at hlength hlength'
    rw [woven_cons, woven_cons] at h
    cases texts with
    | nil =>
      rw [List.eq_nil_of_length_eq_zero hlength, List.eq_nil_of_length_eq_zero hlength'] at h ⊢
      rw [List.append_cancel_right (List.append_cancel_right h)]
    | cons next texts =>
      rw [List.dropLast_cons_cons, List.forall_mem_cons] at htexts
      obtain ⟨hslash, htexts⟩ := htexts
      -- Both paths have their first slashes behind the value and the beginning of the text.
      obtain ⟨front, behind, rfl, hfront⟩ := List.eq_append_cons_of_mem hslash
      have hfirst : '/' ∉ value ++ front := by simp [hvalue, hfront]
      have hfirst' : '/' ∉ value' ++ front := by simp [hvalue', hfront]
      have hboth : (value ++ front) ++ '/' :: (behind ++ woven values (next :: texts)) =
          (value' ++ front) ++ '/' :: (behind ++ woven values' (next :: texts)) := by simpa using h
      obtain ⟨hsame, hrest⟩ := append_slash_inj hfirst hfirst' hboth
      rw [List.append_cancel_right hsame,
        ih htexts hvalues hvalues' hlength hlength' (List.append_cancel_left hrest)]

/-! ## The paths of a template -/

/-- With shapes of parts of a path, a path consists of values with the texts behind them. -/
theorem consists_iff (hlength : shapes.length = texts.length) (hshapes : ∀ s ∈ shapes, ∀ cs, s.Fits cs ↔ IsSegment cs) :
    Consists (shapes.zip texts) values path ↔
      values.length = texts.length ∧ (∀ value ∈ values, IsSegment value) ∧ path = woven values texts := by
  induction texts generalizing shapes values path with
  | nil =>
    rw [List.zip_nil_right]
    cases values with
    | nil => simp [Consists, woven]
    | cons value values => simp [Consists]
  | cons text texts ih =>
    obtain ⟨s, shapes, rfl⟩ := List.exists_of_length_succ shapes hlength
    obtain ⟨hs, hshapes⟩ := List.forall_mem_cons.1 hshapes
    rw [List.zip_cons_cons]
    cases values with
    | nil => simp [Consists]
    | cons value values =>
      simp only [Consists, ih (Nat.succ.inj hlength) hshapes, hs, List.length_cons, Nat.succ_inj,
        List.forall_mem_cons, woven_cons]
      constructor
      · rintro ⟨rest, rfl, hvalue, hcount, hvalues, rfl⟩
        exact ⟨hcount, ⟨hvalue, hvalues⟩, rfl⟩
      · rintro ⟨hcount, ⟨hvalue, hvalues⟩, rfl⟩
        exact ⟨_, rfl, hvalue, hcount, hvalues, rfl⟩

/-- **The paths of a template are those in which it is filled**, and the values in them are those which have been
filled in. -/
theorem match?_ofEndpoint {endpoint : String} (hcount : shapes.length = endpoint.toList.count '?')
    (hshapes : ∀ s ∈ shapes, ∀ cs, s.Fits cs ↔ IsSegment cs)
    (hapart : ∀ segment ∈ pieces '/' endpoint.toList, segment.count '?' ≤ 1) :
    (ofEndpoint endpoint shapes).match? path = some values ↔
      values.length = shapes.length ∧ (∀ value ∈ values, IsSegment value) ∧ path = filled endpoint.toList values := by
  obtain ⟨first, texts, hpieces⟩ := Text.exists_pieces '?' endpoint.toList
  have hlength : shapes.length = texts.length := by
    have := Text.length_pieces '?' endpoint.toList
    rw [hpieces, List.length_cons] at this
    omega
  have hroute : ofEndpoint endpoint shapes = ⟨first, shapes.zip texts⟩ := by
    simp [ofEndpoint, hpieces, hlength]
  constructor
  · intro h
    rw [hroute] at h
    obtain ⟨rest, hpath, hrest⟩ := consists_of_match? h
    obtain ⟨hvalues, hsegments, rfl⟩ := (consists_iff hlength hshapes).1 hrest
    exact ⟨hvalues.trans hlength.symm, hsegments, by rw [hpath, filled_eq hpieces hvalues]⟩
  · rintro ⟨hvalues, hsegments, rfl⟩
    rw [hlength] at hvalues
    have hsome : ((ofEndpoint endpoint shapes).match? (filled endpoint.toList values)).isSome := by
      rw [hroute, isSome_match?_iff]
      exact ⟨values, _, filled_eq hpieces hvalues, (consists_iff hlength hshapes).2 ⟨hvalues, hsegments, rfl⟩⟩
    obtain ⟨found, hfound⟩ := Option.isSome_iff_exists.1 hsome
    have hmatch := hfound
    rw [hroute] at hmatch
    obtain ⟨rest, hpath, hrest⟩ := consists_of_match? hmatch
    obtain ⟨hcount', hsegments', rfl⟩ := (consists_iff hlength hshapes).1 hrest
    rw [filled_eq hpieces hvalues] at hpath
    have hsame : values = found := woven_injective (fun text htext => slash_mem_of_apart hapart hpieces htext)
      (fun value hvalue => (hsegments value hvalue).2) (fun value hvalue => (hsegments' value hvalue).2) hvalues hcount'
      (List.append_cancel_left hpath)
    rw [hfound, hsame]

end RecordServer.Route
