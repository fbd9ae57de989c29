import Mathlib
import RecordServer.Proofs.Config.Reading
import RecordServer.Proofs.Decimal.Reading
import RecordServer.Proofs.Output.Filled
import RecordServer.Proofs.Output.Handler
import RecordServer.Proofs.Regexp.Reading
import RecordServer.Proofs.Text.Letters

/-!
# Expressions of endpoints

The endpoint of a single record can also be turned into a regular expression (`Route.expression`): it is escaped, with a
group in place of each wildcard. The expression is followed from one character of the endpoint to the next
(`Route.spelled`) and read as its `Route.template`, in which only the groups are more than letters
(`Route.read?_expression`). What the template describes are the paths in which the endpoint is filled
(`Route.describes_template`), and these are the paths of the route. So the output has no other paths, and its parameters
are supplied with the values that have been filled in (`Output.supplied_filled`).
-/

namespace RecordServer

namespace Route

open Text (pieces)
open Regexp (Reading Pattern Nested escaped)

/-! ## The expression of an endpoint -/

/-- The name of the group for a wildcard. -/
def groupName (n : Nat) : List Char := "param_".toList ++ Nat.toDigits 10 n

/-- The group for a wildcard whose values have a pattern. -/
def groupText (n : Nat) (pattern : String) : List Char :=
  "(?P<".toList ++ groupName n ++ '>' :: (pattern.toList ++ [')'])

/-- Groups for wildcards from a number on, each with the text behind it. -/
def groupsFrom : Nat → List (String × List Char) → List Char
  | _, [] => []
  | n, (pattern, text) :: parts => groupText n pattern ++ (escaped text ++ groupsFrom (n + 1) parts)

/-- The expression for an endpoint whose values have these patterns. -/
def expression (endpoint : String) (patterns : List String) : String :=
  match pieces '?' endpoint.toList with
  | [] => "^$"
  | first :: texts => String.ofList ('^' :: (escaped first ++ (groupsFrom 0 (patterns.zip texts) ++ ['$'])))

/-- The pattern of what may stand between slashes. -/
def segmentPattern : Pattern := .repetition 1 none true (.chars (.bracketed true (.letter ⟨'/', false⟩)))

/-- A template as the parts of a pattern: a group for each wildcard, and all other characters as letters. -/
def template : Nat → List Char → List (Nested Pattern)
  | _, [] => []
  | n, c :: cs =>
    if c = '?' then ⟨.group (.capturing (n + 1)) segmentPattern, 3⟩ :: template (n + 1) cs
    else .leaf (.letter ⟨c, false⟩) :: template n cs

/-- A template as the text of an expression. -/
def spelled : Nat → List Char → List Char
  | _, [] => []
  | n, c :: cs =>
    if c = '?' then groupText n "[^/]+" ++ spelled (n + 1) cs
    else Regexp.escape c ++ spelled n cs

variable {cs first rest path : List Char} {texts : List (List Char)} {n m : Nat} {r : Reading}

/-- The groups and texts of a template are written in its order. -/
theorem escaped_append_groupsFrom (hpieces : pieces '?' cs = first :: texts) :
    escaped first ++ groupsFrom n ((List.replicate texts.length "[^/]+").zip texts) = spelled n cs := by
  induction cs generalizing first texts n with
  | nil =>
    cases hpieces
    rfl
  | cons c cs ih =>
    obtain ⟨next, more, hmore⟩ := Text.exists_pieces '?' cs
    rw [pieces, hmore] at hpieces
    by_cases hc : c = '?'
    · rw [if_pos hc] at hpieces
      cases hpieces
      rw [spelled, if_pos hc, ← ih hmore]
      rfl
    · rw [if_neg hc] at hpieces
      cases hpieces
      rw [spelled, if_neg hc, ← ih hmore, Regexp.escaped_cons, List.append_assoc]

theorem expression_eq {endpoint : String} {patterns : List String}
    (hpatterns : patterns = List.replicate (endpoint.toList.count '?') "[^/]+") :
    (expression endpoint patterns).toList = '^' :: (spelled 0 endpoint.toList ++ ['$']) := by
  obtain ⟨first, texts, hpieces⟩ := Text.exists_pieces '?' endpoint.toList
  have hlength : endpoint.toList.count '?' = texts.length := by
    have := Text.length_pieces '?' endpoint.toList
    rw [hpieces, List.length_cons] at this
    omega
  rw [← escaped_append_groupsFrom hpieces, expression, hpieces, hpatterns, hlength]
  simp

/-! ## Reading the expression -/

theorem groupName_injective (h : groupName m = groupName n) : m = n := by
  rw [← Decimal.ofDigits_toDigits m, List.append_cancel_left h, Decimal.ofDigits_toDigits]

theorem isGroupName_groupName (n : Nat) : Regexp.isGroupName (groupName n) = true := by
  have hlower (c : Char) (hc : c.isLower = true) : Text.isAlphanumeric c = true :=
    Text.isAlphanumeric_iff.2 (.inl (Text.isAlphabetic_of_isLower hc))
  have hname : groupName n = 'p' :: ("aram_".toList ++ Nat.toDigits 10 n) := rfl
  rw [hname, Regexp.isGroupName, Bool.and_eq_true, List.all_eq_true]
  refine ⟨by simp [Text.isAlphabetic_of_isLower (c := 'p') (by decide)], fun c hc => ?_⟩
  rcases List.mem_append.1 hc with hc | hc
  · have hall : ∀ c ∈ "aram_".toList, c = '_' ∨ c.isLower = true := by simp
    rcases hall c hc with rfl | hc
    · rfl
    · simp [hlower c hc]
  · simp [Text.isAlphanumeric_of_isDigit (Decimal.isDigit_of_mem_toDigits hc)]

theorem not_mem_groupName (n : Nat) : '>' ∉ groupName n := by
  intro h
  rcases List.mem_append.1 h with h | h
  · exact absurd h (by decide)
  · exact absurd (Decimal.isDigit_of_mem_toDigits h) (by decide)

/-- Behind the group for a wildcard. -/
def behindGroup (r : Reading) (n : Nat) : Reading :=
  { r with
    parts := ⟨.group (.capturing (r.captures + 1)) segmentPattern, 3⟩ :: r.parts
    captures := r.captures + 1, names := groupName n :: r.names }

/-- The group for a wildcard is read as one part. -/
theorem leads_groupText (hverbose : r.verbose = false) (houter : r.outer.length < Nested.limit)
    (hnew : groupName n ∉ r.names) (rest : List Char) :
    r.Leads (groupText n "[^/]+" ++ rest) (behindGroup r n) rest := by
  have hopen := Reading.leads_capture hverbose houter (isGroupName_groupName n) (not_mem_groupName n) hnew
    ('[' :: '^' :: '/' :: ']' :: '+' :: ')' :: rest)
  have hclass : Regexp.readClass? false ('^' :: '/' :: ']' :: '+' :: ')' :: rest) =
      some (⟨.bracketed true (.letter ⟨'/', false⟩), 1⟩, '+' :: ')' :: rest) := rfl
  have hchars := Reading.leads_class (r := r.inCapture (groupName n)) hverbose hclass (by simp)
  have hmany := Reading.leads_repeat (r := r.inCapture (groupName n)) hverbose
    (show ('+', 1, (none : Option Nat)) ∈ [('?', 0, some 1), ('*', 0, none), ('+', 1, none)] by simp)
    (p := ⟨.chars (.bracketed true (.letter ⟨'/', false⟩)), 1⟩) rfl (by decide)
    (show (')' :: rest).head? ≠ some '?' by simp)
  have hclose := Reading.leads_closeGroup (r := (r.inCapture (groupName n)).add ⟨segmentPattern, 2⟩) rfl hverbose
    (p := ⟨segmentPattern, 2⟩) rfl (by decide) rest
  have htext : groupText n "[^/]+" ++ rest =
      '(' :: '?' :: 'P' :: '<' :: (groupName n ++ '>' :: '[' :: '^' :: '/' :: ']' :: '+' :: ')' :: rest) := by
    simp [groupText]
  rw [htext]
  exact ((hopen.trans hchars).trans hmany).trans hclose

/-- **A template that is spelled is read as its parts**, if no group has been named like one of its groups. -/
theorem exists_leads_spelled (hverbose : r.verbose = false) (houter : r.outer = []) (hcaptures : r.captures = n)
    (hnew : ∀ m ≥ n, groupName m ∉ r.names) (cs rest : List Char) :
    ∃ r', r.Leads (spelled n cs ++ rest) r' rest ∧ r'.verbose = false ∧ r'.outer = [] ∧ r'.branches = r.branches ∧
      r'.parts = (template n cs).reverse ++ r.parts := by
  induction cs generalizing n r with
  | nil => exact ⟨r, .refl r rest, hverbose, houter, rfl, rfl⟩
  | cons c cs ih =>
    rw [spelled, template]
    by_cases hc : c = '?'
    · rw [if_pos hc, if_pos hc, List.append_assoc]
      have hgroup := leads_groupText hverbose (by rw [houter]; decide) (hnew n (Nat.le_refl n))
        (spelled (n + 1) cs ++ rest)
      have hnew' : ∀ m ≥ n + 1, groupName m ∉ (behindGroup r n).names := fun m hm hmem => by
        rcases List.mem_cons.1 hmem with heq | hmem
        · have := groupName_injective heq
          omega
        · exact hnew m (by omega) hmem
      obtain ⟨r', hleads, hverbose', houter', hbranches, hparts⟩ :=
        ih (r := behindGroup r n) hverbose houter (congrArg Nat.succ hcaptures) hnew'
      refine ⟨r', hgroup.trans hleads, hverbose', houter', hbranches, ?_⟩
      rw [hparts, behindGroup, hcaptures, List.reverse_cons, List.append_assoc]
      rfl
    · rw [if_neg hc, if_neg hc, List.append_assoc]
      have hletter : r.Leads (Regexp.escape c ++ (spelled n cs ++ rest)) (r.add (.leaf (.letter ⟨c, false⟩)))
          (spelled n cs ++ rest) := by
        refine Reading.leads_step hverbose (Reading.step?_escape hverbose c _) ?_
        have := Regexp.length_escape_pos c
        simp only [List.length_append]
        omega
      obtain ⟨r', hleads, hverbose', houter', hbranches, hparts⟩ :=
        ih (r := r.add (.leaf (.letter ⟨c, false⟩))) hverbose houter hcaptures hnew
      refine ⟨r', hletter.trans hleads, hverbose', houter', hbranches, ?_⟩
      rw [hparts, List.reverse_cons, List.append_assoc]
      rfl

/-- The parts of a template are not nested deeply. -/
theorem depth_template {p : Nested Pattern} (h : p ∈ template n cs) : p.depth ≤ 3 := by
  induction cs generalizing n with
  | nil => cases h
  | cons c cs ih =>
    rw [template] at h
    split at h <;> rcases List.mem_cons.1 h with rfl | h
    · exact Nat.le_refl 3
    · exact ih h
    · exact Nat.zero_le 3
    · exact ih h

/-- **The expression of an endpoint is read as its template** from the beginning to the end of a line. -/
theorem read?_expression {endpoint : String} {patterns : List String}
    (hpatterns : patterns = List.replicate (endpoint.toList.count '?') "[^/]+") :
    Pattern.read? (expression endpoint patterns) = some (.concatenation (.assertion .lineStart ::
      ((template 0 endpoint.toList).map Nested.value ++ [Pattern.assertion .lineEnd]))) := by
  have hstart : Reading.start.Leads ('^' :: (spelled 0 endpoint.toList ++ ['$']))
      (Reading.start.add (.leaf (.assertion .lineStart))) (spelled 0 endpoint.toList ++ ['$']) :=
    Reading.leads_step rfl rfl (Nat.lt_succ_self _)
  obtain ⟨r, hleads, hverbose, houter, hbranches, hparts⟩ := exists_leads_spelled
    (r := Reading.start.add (.leaf (.assertion .lineStart))) rfl rfl rfl (fun _ _ => List.not_mem_nil) endpoint.toList
    ['$']
  have hend : r.Leads ['$'] (r.add (.leaf (.assertion .lineEnd))) [] :=
    Reading.leads_step hverbose rfl (Nat.lt_succ_self _)
  have hall : Reading.start.Leads (expression endpoint patterns).toList (r.add (.leaf (.assertion .lineEnd))) [] := by
    rw [expression_eq hpatterns]
    exact (hstart.trans hleads).trans hend
  have hadded : (r.add (.leaf (.assertion .lineEnd))).parts =
      .leaf (.assertion .lineEnd) :: ((template 0 endpoint.toList).reverse ++ [Nested.leaf (.assertion .lineStart)]) :=
    congrArg (List.cons _) hparts
  have hseveral : 2 ≤ (r.add (.leaf (.assertion .lineEnd))).parts.length := by
    rw [hadded, List.length_cons, List.length_append, List.length_singleton]
    omega
  have hdepth : ∀ p ∈ (r.add (.leaf (.assertion .lineEnd))).parts, p.depth ≤ 3 := by
    intro p hp
    rw [hadded, List.mem_cons, List.mem_append, List.mem_reverse, List.mem_singleton] at hp
    rcases hp with rfl | hp | rfl
    · exact Nat.zero_le 3
    · exact depth_template hp
    · exact Nat.zero_le 3
  obtain ⟨p, hwhole, -, hp⟩ :=
    Reading.exists_concatenation (r := r.add (.leaf (.assertion .lineEnd))) hbranches hseveral hdepth (by decide)
  have hread := hall.read? hverbose houter hwhole
  rw [hp, hadded] at hread
  simpa [Nested.leaf] using hread

/-! ## What the expression describes -/

theorem describes_segmentPattern : segmentPattern.Describes cs ↔ IsSegment cs := by
  rw [segmentPattern, Pattern.describes_repeated, Nat.one_le_iff_ne_zero, Ne, List.length_eq_zero_iff]
  simp [IsSegment, Regexp.CharClass.Holds, List.forall_mem_ne']

/-- **A template describes the paths in which it is filled.** -/
theorem describes_template : (Pattern.concatenation ((template n cs).map Nested.value)).Describes path ↔
    ∃ values : List (List Char), values.length = cs.count '?' ∧ (∀ value ∈ values, IsSegment value) ∧
      path = filled cs values := by
  induction cs generalizing n path with
  | nil =>
    rw [template, List.map_nil, Pattern.describes_none]
    constructor
    · rintro rfl
      exact ⟨[], rfl, nofun, rfl⟩
    · rintro ⟨values, -, -, rfl⟩
      rfl
  | cons c cs ih =>
    rw [template]
    by_cases hc : c = '?'
    · rw [if_pos hc, List.map_cons, Pattern.describes_several]
      simp only [Pattern.describes_group, describes_segmentPattern, ih, hc, List.count_cons_self]
      constructor
      · rintro ⟨value, _, rfl, hvalue, values, hcount, hvalues, rfl⟩
        exact ⟨value :: values, by simp [hcount], List.forall_mem_cons.2 ⟨hvalue, hvalues⟩, by simp [filled]⟩
      · rintro ⟨values, hcount, hvalues, rfl⟩
        obtain ⟨value, values, rfl⟩ := List.exists_of_length_succ values hcount
        obtain ⟨hvalue, hvalues⟩ := List.forall_mem_cons.1 hvalues
        exact ⟨value, _, by simp [filled], hvalue, values, Nat.succ.inj hcount, hvalues, rfl⟩
    · rw [if_neg hc, List.map_cons, Pattern.describes_several]
      simp only [Nested.leaf, Pattern.describes_letter, ih, List.count_cons_of_ne hc, filled, if_neg hc]
      constructor
      · rintro ⟨_, _, rfl, rfl, values, hcount, hvalues, rfl⟩
        exact ⟨values, hcount, hvalues, rfl⟩
      · rintro ⟨values, hcount, hvalues, rfl⟩
        exact ⟨[c], _, rfl, rfl, values, hcount, hvalues, rfl⟩

end Route

namespace Output

open Regexp (Pattern Nested)
open Route (IsSegment filled template)

variable {c : Catalog} {place name : String} {config : Config.Output} {o : Output} {route : Route}

/-- The expression for the paths of a single record. -/
def expression (o : Output) : String :=
  Route.expression o.endpoint (o.bindings.map fun b => b.parser.format.pattern)

theorem length_bindNumbered {input : Input} : ∀ {n : Nat} {parameters : List Config.Parameter}
    {bindings : List Binding}, bindNumbered c input place n parameters = .ok bindings →
    bindings.length = parameters.length
  | _, [], bindings, h => by
    cases h
    rfl
  | n, p :: parameters, bindings, h => by
    obtain ⟨first, -, h⟩ := ok_of_bind h
    obtain ⟨rest, hrest, h⟩ := ok_of_bind h
    cases h
    rw [List.length_cons, List.length_cons, length_bindNumbered hrest]

/-- An output of a single record has the route of its endpoint, with one value for each of its parameters. -/
theorem of_create_single (h : create c place name config = .ok o) (hsingle : o.delivery = .single route) :
    config.delivery = .single ∧ o.endpoint = config.endpoint ∧ o.bindings.length = config.parameters.length ∧
      route = .ofEndpoint o.endpoint (o.bindings.map fun b => b.parser.format.shape) := by
  obtain ⟨input, hinput, h⟩ := ok_of_bind h
  dsimp only at h
  cases hdelivery : config.delivery with
  | list limit offsetParameter =>
    rw [hdelivery] at h
    obtain ⟨bindings, hbindings, h⟩ := ok_of_bind h
    obtain ⟨relations, hrelations, h⟩ := ok_of_bind h
    cases h
    cases hsingle
  | single =>
    rw [hdelivery] at h
    obtain ⟨bindings, hbindings, h⟩ := ok_of_bind h
    obtain ⟨relations, hrelations, h⟩ := ok_of_bind h
    cases h
    cases hsingle
    exact ⟨rfl, rfl, length_bindNumbered hbindings, rfl⟩

/-- A single record has as many parameters as its endpoint has wildcards. -/
theorem length_bindings {s : Config.Setting} (hread : Config.Output.read s = .ok config)
    (hcreate : create c place name config = .ok o) (hsingle : o.delivery = .single route) :
    o.bindings.length = Config.wildcards o.endpoint := by
  obtain ⟨hdelivery, hendpoint, hlength, -⟩ := of_create_single hcreate hsingle
  cases Config.of_readOutput hread with
  | list => cases hdelivery
  | single type keys endpointRead itemsRead parametersRead inputRead relationshipsRead wildcard count =>
    rw [hlength, hendpoint, count]

/-- The values of texts are the texts. -/
theorem mapM_read_texts (parsers : Parsers) : ∀ (bindings : List Binding) (values : List String),
    (∀ b ∈ bindings, ∃ charset, b.parser.format = .string charset) →
    ((bindings.zip values).mapM fun s => s.1.read parsers s.2) =
      .ok (List.zipWith (fun b value => ⟨b.index, b.property, .string value⟩) bindings values)
  | [], values, _ => rfl
  | b :: bindings, [], _ => rfl
  | b :: bindings, value :: values, h => by
    obtain ⟨⟨charset, hformat⟩, h⟩ := List.forall_mem_cons.1 h
    have hread : b.read parsers value = .ok ⟨b.index, b.property, .string value⟩ := by
      rcases b with ⟨_, _, _, ⟨_, format⟩⟩
      cases hformat
      rw [Binding.read, Parsers.parse, Format.parse, String.ofList_toList]
    rw [List.zip_cons_cons, List.mapM_cons, hread, mapM_read_texts parsers bindings values h]
    rfl

/-- All values are texts. -/
def TakesTexts (o : Output) : Prop := ∀ b ∈ o.bindings, ∃ charset, b.parser.format = .string charset

/-- No part of the endpoint has two wildcards. -/
def IsApart (o : Output) : Prop := ∀ segment ∈ Text.pieces '/' o.endpoint.toList, segment.count '?' ≤ 1

theorem TakesTexts.fits (h : o.TakesTexts) :
    ∀ s ∈ o.bindings.map fun b => b.parser.format.shape, ∀ cs, s.Fits cs ↔ IsSegment cs := by
  intro s hs cs
  obtain ⟨b, hb, rfl⟩ := List.mem_map.1 hs
  obtain ⟨charset, hformat⟩ := h b hb
  rw [hformat, Format.fits_string]
  rfl

theorem TakesTexts.patterns (h : o.TakesTexts) :
    (o.bindings.map fun b => b.parser.format.pattern) = List.replicate o.bindings.length "[^/]+" := by
  rw [List.eq_replicate_iff]
  refine ⟨List.length_map _, fun pattern hpattern => ?_⟩
  obtain ⟨b, hb, rfl⟩ := List.mem_map.1 hpattern
  obtain ⟨charset, hformat⟩ := h b hb
  rw [hformat, Format.pattern]

/-- The values that are found in a path are those with which the endpoint is filled to it. -/
theorem match?_filled {s : Config.Setting} (hread : Config.Output.read s = .ok config)
    (hcreate : create c place name config = .ok o) (hsingle : o.delivery = .single route) (hapart : o.IsApart)
    (htexts : o.TakesTexts) (path : List Char) (values : List (List Char)) :
    route.match? path = some values ↔ values.length = Config.wildcards o.endpoint ∧
      (∀ value ∈ values, IsSegment value) ∧ path = filled o.endpoint.toList values := by
  obtain ⟨-, -, -, hroute⟩ := of_create_single hcreate hsingle
  have hcount : (o.bindings.map fun b => b.parser.format.shape).length = Config.wildcards o.endpoint := by
    rw [List.length_map, length_bindings hread hcreate hsingle]
  rw [hroute, Route.match?_ofEndpoint hcount htexts.fits hapart, hcount]

/-- A path is the endpoint with values in place of its wildcards. -/
def FilledWith (o : Output) (values : List String) (path : String) : Prop :=
  values.length = Config.wildcards o.endpoint ∧ (∀ value ∈ values, IsSegment value.toList) ∧
    path.toList = filled o.endpoint.toList (values.map String.toList)

/-- **Paths of a single record undo filling its endpoint**, if no part of the endpoint has two wildcards and all values
are texts. The endpoint filled with values is a path of the output, and each parameter is supplied with exactly the
value for it; there are no other paths. They are those which the expression of the endpoint describes: it consists of a
group for each wildcard and of the other characters, which all stand for themselves. -/
theorem supplied_filled {s : Config.Setting} (hread : Config.Output.read s = .ok config)
    (hcreate : create c place name config = .ok o) (hsingle : o.delivery = .single route) (hapart : o.IsApart)
    (htexts : o.TakesTexts) :
    o.bindings.length = Config.wildcards o.endpoint ∧
    (∀ values request, o.FilledWith values request.path →
      o.accepts request.path = true ∧ route.match? request.path.toList = some (values.map String.toList) ∧
        o.supplied request = o.bindings.zip values ∧
        o.conditions request =
          .ok (List.zipWith (fun b value => ⟨b.index, b.property, .string value⟩) o.bindings values)) ∧
    (∀ path, o.accepts path = true → ∃ values, o.FilledWith values path) ∧
    Pattern.read? o.expression = some (.concatenation (.assertion .lineStart ::
      ((template 0 o.endpoint.toList).map Nested.value ++ [Pattern.assertion .lineEnd]))) ∧
    ∀ path : String, (Pattern.concatenation ((template 0 o.endpoint.toList).map Nested.value)).Describes path.toList ↔
      o.accepts path = true := by
  have hlength := length_bindings hread hcreate hsingle
  have hmatch := match?_filled hread hcreate hsingle hapart htexts
  have haccepts (path : String) : o.accepts path = (route.match? path.toList).isSome := by
    rw [accepts, hsingle]
  refine ⟨hlength, fun values request hfilled => ?_, fun path hpath => ?_, ?_, fun path => ?_⟩
  · obtain ⟨hcount, hvalues, hpath⟩ := hfilled
    have hfound : route.match? request.path.toList = some (values.map String.toList) :=
      (hmatch _ _).2 ⟨by rw [List.length_map, hcount], by simpa using hvalues, hpath⟩
    have hsupplied : o.supplied request = o.bindings.zip values := by
      simp [supplied, hsingle, hfound, Function.comp_def]
    refine ⟨by rw [haccepts, hfound]; rfl, hfound, hsupplied, ?_⟩
    rw [conditions, hsupplied, mapM_read_texts _ _ _ htexts]
  · rw [haccepts] at hpath
    obtain ⟨values, hfound⟩ := Option.isSome_iff_exists.1 hpath
    obtain ⟨hcount, hvalues, hfilled⟩ := (hmatch _ _).1 hfound
    refine ⟨values.map String.ofList, by rw [List.length_map, hcount], ?_, ?_⟩
    · simpa using hvalues
    · simpa [Function.comp_def] using hfilled
  · exact Route.read?_expression (htexts.patterns.trans (congrArg (List.replicate · _) hlength))
  · rw [Route.describes_template, haccepts, Option.isSome_iff_exists]
    exact exists_congr fun values => (hmatch _ _).symm

end Output

/-- The setting for the cells of a sheet, with signs in the endpoint that have a meaning in expressions. -/
def Config.Setting.cells : Config.Setting where
  node := .map [(.string "type", .string "jsonObject"), (.string "endpoint", .string "/a.b(?)/[?]+"),
    (.string "input", .string "sheet"),
    (.string "parameters", .list [.map [(.string "property", .string "row")],
      .map [(.string "property", .string "column")]])]
  path := "outputs.cells"

/-- The configuration which is read from the setting. -/
def Config.Output.cells : Config.Output :=
  ⟨"/a.b(?)/[?]+", "sheet", .single,
    [⟨"row", "row", Config.defaultIndex, "string"⟩, ⟨"column", "column", Config.defaultIndex, "string"⟩], []⟩

/-- A table with two columns of texts. -/
def Input.sheet : Input :=
  ⟨"sheet", "sheet.csv", false, 2, ⟨Parsers.builtIn⟩,
    .table false 87 [⟨"row", ⟨"string", .string none⟩⟩, ⟨"column", ⟨"string", .string none⟩⟩]⟩

/-- The table without an index. -/
def Catalog.ofSheet : Catalog :=
  ⟨⟨Parsers.builtIn⟩, [("sheet", .sheet)], [(Config.defaultIndex, .scan Config.defaultIndex)]⟩

/-- The cells of the table, which are found by scanning it. -/
def Output.cells : Output :=
  let binding (name : String) : Binding := ⟨name, name, .scan Config.defaultIndex, ⟨"string", .string none⟩⟩
  ⟨"cells", "/a.b(?)/[?]+", .sheet,
    .single (.ofEndpoint "/a.b(?)/[?]+" [(Format.string none).shape, (Format.string none).shape]),
    [binding "row", binding "column"], []⟩

namespace Output

/-- Values may contain wildcards, and the signs of the endpoint. -/
theorem supplied_filled_cells :
    Config.Output.read .cells = .ok .cells ∧ create .ofSheet "outputs.cells" "cells" .cells = .ok cells ∧
    cells.IsApart ∧ cells.TakesTexts ∧ cells.FilledWith ["?)b", "[?]+"] "/a.b(?)b)/[[?]+]+" ∧
    cells.accepts "/a.b(?)b)/[[?]+]+" = true ∧
    cells.supplied ⟨"/a.b(?)b)/[[?]+]+", []⟩ = cells.bindings.zip ["?)b", "[?]+"] := by
  have hendpoint : Config.readEndpoint .cells = .ok "/a.b(?)/[?]+" := by cbv
  have hread : Config.Output.read .cells = .ok .cells := by
    show Config.readSingleOutput .cells = _
    unfold Config.readSingleOutput
    rw [hendpoint]
    rfl
  have hcreate : create .ofSheet "outputs.cells" "cells" .cells = .ok cells := by cbv
  have hapart : cells.IsApart := by
    unfold IsApart
    decide
  have htexts : cells.TakesTexts := by simp [TakesTexts, cells]
  have hfilled : cells.FilledWith ["?)b", "[?]+"] "/a.b(?)b)/[[?]+]+" :=
    ⟨by decide, by simp [Route.IsSegment], by decide⟩
  obtain ⟨-, hsupplied, -⟩ := supplied_filled hread hcreate rfl hapart htexts
  obtain ⟨haccepts, -, hvalues, -⟩ := hsupplied _ ⟨"/a.b(?)b)/[[?]+]+", []⟩ hfilled
  exact ⟨hread, hcreate, hapart, htexts, hfilled, haccepts, hvalues⟩

end Output

end RecordServer
