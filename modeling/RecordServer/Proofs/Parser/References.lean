import Mathlib
import RecordServer.Proofs.Fault
import RecordServer.Proofs.Parser.Registry
import RecordServer.Proofs.Parser.Slots

/-!
# References between parsers

A split parser names the parser of its pieces. `Reaches` follows these names, and a parser is `Grounded` if it is led to
one that refers to no other. As names lead to one parser only, the parsers on the way to such an end are different
(`exists_names`), so that there are fewer references than parsers (`lt_countIn`).

`Follows` is the check of a chain, round by round and without a bound on them, and `Parses` is the parsing of a text,
where the parser of the pieces is found anew each time. The check always comes to an end (`follows_checkChain`), and it
does so without a fault exactly for parsers which are grounded (`checkChain_eq_ok`). The parsing of a text ends for
grounded parsers (`parses_parse`), and only a parser that refers to no other can refuse it (`refused_of_parse`).
`Parsers.references_end` brings all this together for declarations.
-/

namespace RecordServer

/-! ## Following names -/

/-- Following some names leads from a parser to another. -/
inductive Reaches (find : String → Option Parser) : Nat → Parser → Parser → Prop
  | here {p : Parser} : Reaches find 0 p p
  | there {n : Nat} {p q r : Parser} {inner : String} (hinner : p.format.inner? = some inner)
      (hfind : find inner = some q) (hrest : Reaches find n q r) : Reaches find (n + 1) p r

/-- Following a number of names leads to a parser that refers to no other. -/
def GroundedIn (find : String → Option Parser) (n : Nat) (p : Parser) : Prop :=
  ∃ q, Reaches find n p q ∧ q.format.inner? = none

/-- Following names leads to a parser that refers to no other. -/
def Grounded (find : String → Option Parser) (p : Parser) : Prop := ∃ n, GroundedIn find n p

section

variable {find : String → Option Parser} {p q : Parser} {inner : String} {n m : Nat}

theorem groundedIn_zero (h : p.format.inner? = none) : GroundedIn find 0 p := ⟨p, .here, h⟩

theorem groundedIn_succ (hinner : p.format.inner? = some inner) (hfind : find inner = some q)
    (h : GroundedIn find n q) : GroundedIn find (n + 1) p := by
  obtain ⟨r, hreaches, hr⟩ := h
  exact ⟨r, .there hinner hfind hreaches, hr⟩

/-- A parser that refers to another is grounded if the other one is found and is grounded. -/
theorem of_groundedIn (hinner : p.format.inner? = some inner) (h : GroundedIn find n p) :
    ∃ m q, n = m + 1 ∧ find inner = some q ∧ GroundedIn find m q := by
  obtain ⟨r, hreaches, hr⟩ := h
  cases hreaches with
  | here => rw [hinner] at hr; cases hr
  | there hinner' hfind hrest =>
    rw [hinner] at hinner'
    cases hinner'
    exact ⟨_, _, rfl, hfind, r, hrest, hr⟩

/-- A parser that refers to no other needs no reference. -/
theorem eq_zero_of_groundedIn (hinner : p.format.inner? = none) (h : GroundedIn find n p) : n = 0 := by
  obtain ⟨r, hreaches, -⟩ := h
  cases hreaches with
  | here => rfl
  | there hinner' _ _ => rw [hinner] at hinner'; cases hinner'

/-- The number of names which are followed is determined. -/
theorem GroundedIn.unique (hn : GroundedIn find n p) (hm : GroundedIn find m p) : n = m := by
  induction n generalizing m p with
  | zero =>
    cases hinner : p.format.inner? with
    | none => exact (eq_zero_of_groundedIn hinner hm).symm
    | some inner =>
      obtain ⟨k, q, hk, -, -⟩ := of_groundedIn hinner hn
      omega
  | succ n ih =>
    cases hinner : p.format.inner? with
    | none => exact absurd (eq_zero_of_groundedIn hinner hn) (Nat.succ_ne_zero n)
    | some inner =>
      obtain ⟨k, q, hk, hfind, hq⟩ := of_groundedIn hinner hn
      obtain ⟨k', q', rfl, hfind', hq'⟩ := of_groundedIn hinner hm
      obtain rfl : n = k := by omega
      obtain rfl : q = q' := Option.some.inj (hfind.symm.trans hfind')
      rw [ih hq hq']

/-- The names on the way from a parser to its end are different: the parsers there are further and further from it. -/
theorem exists_names {name : String} (hfind : find name = some p) (h : GroundedIn find n p) :
    ∃ names : List String, names.length = n + 1 ∧ names.Nodup ∧
      ∀ x ∈ names, ∃ q, find x = some q ∧ ∃ k ≤ n, GroundedIn find k q := by
  induction n generalizing name p with
  | zero =>
    refine ⟨[name], rfl, List.nodup_singleton name, ?_⟩
    rintro x hx
    rw [List.mem_singleton] at hx
    subst hx
    exact ⟨p, hfind, 0, Nat.le_refl 0, h⟩
  | succ n ih =>
    cases hinner : p.format.inner? with
    | none => exact absurd (eq_zero_of_groundedIn hinner h) (Nat.succ_ne_zero n)
    | some inner =>
      obtain ⟨k, q, hk, hfind', hq⟩ := of_groundedIn hinner h
      obtain rfl : n = k := by omega
      obtain ⟨names, hlength, hnodup, hnames⟩ := ih hfind' hq
      refine ⟨name :: names, by rw [List.length_cons, hlength], ?_, ?_⟩
      · rw [List.nodup_cons]
        refine ⟨fun hmem => ?_, hnodup⟩
        obtain ⟨q', hfound, k, hle, hk⟩ := hnames name hmem
        obtain rfl : p = q' := Option.some.inj (hfind.symm.trans hfound)
        have := h.unique hk
        omega
      · intro x hx
        rcases List.mem_cons.1 hx with rfl | hx
        · exact ⟨p, hfind, n + 1, Nat.le_refl _, h⟩
        · obtain ⟨q', hfound, k, hle, hk⟩ := hnames x hx
          exact ⟨q', hfound, k, Nat.le_succ_of_le hle, hk⟩

end

namespace Parsers

variable {entries : List Parser} {name : String} {p q : Parser}

/-! ## Parsers and their names -/

/-- The number of parsers that can be found: of several with one name there is one. -/
def countIn (entries : List Parser) : Nat := (entries.map Parser.name).dedup.length

/-- The number of parsers. -/
def count (ps : Parsers) : Nat := countIn ps.entries

theorem countIn_le (entries : List Parser) : countIn entries ≤ entries.length := by
  have := (List.dedup_sublist (entries.map Parser.name)).length_le
  rwa [List.length_map] at this

/-- A parser is found under its own name. -/
theorem name_of_findIn (h : findIn entries name = some p) : p.name = name := by
  unfold findIn at h
  rw [List.findRev?_eq_find?_reverse] at h
  simpa using List.find?_some h

/-- There is a parser under each name of one. -/
theorem isSome_findIn (h : name ∈ entries.map Parser.name) : (findIn entries name).isSome := by
  obtain ⟨p, hp, rfl⟩ := List.mem_map.1 h
  unfold findIn
  rw [List.findRev?_eq_find?_reverse, List.find?_isSome]
  exact ⟨p, List.mem_reverse.2 hp, by simp⟩

theorem mem_names_of_findIn (h : findIn entries name = some p) : name ∈ entries.map Parser.name :=
  List.mem_map.2 ⟨p, mem_of_findIn h, name_of_findIn h⟩

/-- Different names that are found are not more than there are parsers. -/
theorem length_le_countIn {names : List String} (hnodup : names.Nodup)
    (hnames : ∀ x ∈ names, (findIn entries x).isSome) : names.length ≤ countIn entries := by
  have hsub : names ⊆ (entries.map Parser.name).dedup := by
    intro x hx
    obtain ⟨p, hp⟩ := Option.isSome_iff_exists.1 (hnames x hx)
    exact List.mem_dedup.2 (mem_names_of_findIn hp)
  exact (hnodup.subperm hsub).length_le

/-- **There are fewer references than parsers** on the way from one of them to its end. -/
theorem lt_countIn {n : Nat} (hfind : findIn entries name = some p) (h : GroundedIn (findIn entries) n p) :
    n < countIn entries := by
  obtain ⟨names, hlength, hnodup, hnames⟩ := exists_names hfind h
  have := length_le_countIn hnodup fun x hx => by
    obtain ⟨q, hq, -⟩ := hnames x hx
    rw [hq]
    rfl
  omega

/-- Of parsers with different names each is found. -/
theorem findIn_eq_some (hnodup : (entries.map Parser.name).Nodup) :
    findIn entries name = some p ↔ p ∈ entries ∧ p.name = name := by
  constructor
  · intro h
    exact ⟨mem_of_findIn h, name_of_findIn h⟩
  · rintro ⟨hp, rfl⟩
    obtain ⟨q, hq⟩ := Option.isSome_iff_exists.1 (isSome_findIn (List.mem_map_of_mem hp))
    rw [hq, List.inj_on_of_nodup_map hnodup (mem_of_findIn hq) hp (name_of_findIn hq)]

/-- Parsers which are declared later hide others of their names. -/
theorem findIn_append (before after : List Parser) (name : String) :
    findIn (before ++ after) name = (findIn after name).or (findIn before name) := by
  unfold findIn
  simp only [List.findRev?_eq_find?_reverse, List.reverse_append, List.find?_append]

/-- In which order parsers of different names are declared does not matter to what is found. -/
theorem findIn_perm {declared other : List Parser} (hnodup : (declared.map Parser.name).Nodup)
    (hperm : other.Perm declared) (name : String) :
    findIn (builtIn ++ other) name = findIn (builtIn ++ declared) name := by
  have hother : (other.map Parser.name).Nodup := (hperm.map Parser.name).nodup_iff.2 hnodup
  have hfind : findIn other name = findIn declared name := by
    apply Option.ext
    intro p
    rw [findIn_eq_some hother, findIn_eq_some hnodup, hperm.mem_iff]
  rw [findIn_append, findIn_append, hfind]

/-! ## The check of a chain -/

/-- What the check of a chain comes to within some rounds, where `visited` are the names that have been met, the last
one first, and `next` is the name that has to be followed. -/
inductive Follows (find : String → Option Parser) : Nat → List String → Option String → Except Fault Unit → Prop
  | done {n : Nat} {visited : List String} : Follows find n visited none (.ok ())
  | cycle {n : Nat} {visited : List String} {next : String} (h : next ∈ visited) :
      Follows find (n + 1) visited (some next) (.error Cause.parserCycle)
  | unknown {n : Nat} {visited : List String} {next : String} (h : next ∉ visited) (hfind : find next = none) :
      Follows find (n + 1) visited (some next)
        (.error (Fault.located ("parsers." ++ visited.headD "" ++ ".parser") (.unknownParser next)))
  | onward {n : Nat} {visited : List String} {next : String} {p : Parser} {outcome : Except Fault Unit}
      (h : next ∉ visited) (hfind : find next = some p)
      (hrest : Follows find n (next :: visited) p.format.inner? outcome) :
      Follows find (n + 1) visited (some next) outcome

/-- **The check of a chain comes to an end**, since the names that have been met are different and those of parsers.
The bound on the rounds that `follow` has is never reached. -/
theorem follows_follow {visited : List String} {next : Option String} {rounds fuel : Nat} (hnodup : visited.Nodup)
    (hvisited : ∀ x ∈ visited, (findIn entries x).isSome) (hrounds : countIn entries < visited.length + rounds)
    (hfuel : rounds ≤ fuel) :
    Follows (findIn entries) rounds visited next (follow (findIn entries) fuel visited next) := by
  induction rounds generalizing visited next fuel with
  | zero =>
    have := length_le_countIn hnodup hvisited
    omega
  | succ rounds ih =>
    obtain ⟨fuel, rfl⟩ : ∃ k, fuel = k + 1 := ⟨fuel - 1, by omega⟩
    cases next with
    | none => exact .done
    | some next =>
      rw [follow]
      by_cases hmem : next ∈ visited
      · rw [if_pos (List.contains_iff_mem.2 hmem)]
        exact .cycle hmem
      · rw [if_neg (fun h => hmem (List.contains_iff_mem.1 h))]
        cases hfind : findIn entries next with
        | none => exact .unknown hmem hfind
        | some p =>
          apply Follows.onward hmem hfind
          apply ih (List.nodup_cons.2 ⟨hmem, hnodup⟩)
          · intro x hx
            rcases List.mem_cons.1 hx with rfl | hx
            · rw [hfind]
              rfl
            · exact hvisited x hx
          · rw [List.length_cons]
            omega
          · omega

/-- **The check of each chain ends**, after at most as many rounds as there are parsers. -/
theorem follows_checkChain (hname : name ∈ entries.map Parser.name) :
    Follows (findIn entries) (countIn entries) [name] ((findIn entries name).bind fun p => p.format.inner?)
      (checkChain entries name) := by
  apply follows_follow (List.nodup_singleton name)
  · intro x hx
    rw [List.mem_singleton.1 hx]
    exact isSome_findIn hname
  · rw [List.length_singleton]
    omega
  · exact Nat.le_succ_of_le (countIn_le entries)

/-- A chain that is followed to its end without a fault is grounded. -/
theorem grounded_of_follow {find : String → Option Parser} {fuel : Nat} {visited : List String}
    (h : follow find fuel visited p.format.inner? = .ok ()) : Grounded find p := by
  induction fuel generalizing visited p with
  | zero =>
    cases hinner : p.format.inner? with
    | none => exact ⟨0, groundedIn_zero hinner⟩
    | some next => rw [hinner] at h; cases h
  | succ fuel ih =>
    cases hinner : p.format.inner? with
    | none => exact ⟨0, groundedIn_zero hinner⟩
    | some next =>
      rw [hinner, follow] at h
      split at h
      · cases h
      · cases hfind : find next with
        | none => rw [hfind] at h; cases h
        | some q =>
          rw [hfind] at h
          obtain ⟨n, hn⟩ := ih h
          exact ⟨n + 1, groundedIn_succ hinner hfind hn⟩

/-- A grounded chain is followed without a fault: what has been met is further from the end than what is to come. -/
theorem follow_of_groundedIn {find : String → Option Parser} {fuel n : Nat} {visited : List String}
    (h : GroundedIn find n p) (hfuel : n ≤ fuel)
    (hvisited : ∀ x ∈ visited, ∃ q, find x = some q ∧ ∃ m ≥ n, GroundedIn find m q) :
    follow find fuel visited p.format.inner? = .ok () := by
  induction n generalizing fuel visited p with
  | zero =>
    cases hinner : p.format.inner? with
    | none => unfold follow; rfl
    | some next =>
      obtain ⟨k, q, hk, -, -⟩ := of_groundedIn hinner h
      omega
  | succ n ih =>
    cases hinner : p.format.inner? with
    | none => unfold follow; rfl
    | some next =>
      obtain ⟨k, q, hk, hfind, hq⟩ := of_groundedIn hinner h
      obtain rfl : n = k := by omega
      obtain ⟨fuel, rfl⟩ : ∃ k, fuel = k + 1 := ⟨fuel - 1, by omega⟩
      have hmem : next ∉ visited := by
        intro hmem
        obtain ⟨q', hfind', m, hm, hground⟩ := hvisited next hmem
        obtain rfl : q = q' := Option.some.inj (hfind.symm.trans hfind')
        have := hq.unique hground
        omega
      rw [follow, if_neg (fun h => hmem (List.contains_iff_mem.1 h))]
      simp only [hfind]
      apply ih hq (by omega)
      intro x hx
      rcases List.mem_cons.1 hx with rfl | hx
      · exact ⟨q, hfind, n, Nat.le_refl n, hq⟩
      · obtain ⟨q', hfind', m, hm, hground⟩ := hvisited x hx
        exact ⟨q', hfind', m, by omega, hground⟩

/-- **A chain is found intact exactly if it is grounded.** -/
theorem checkChain_eq_ok (hfind : findIn entries name = some p) :
    checkChain entries name = .ok () ↔ Grounded (findIn entries) p := by
  unfold checkChain
  rw [hfind, Option.bind_some]
  constructor
  · exact grounded_of_follow
  · rintro ⟨n, hn⟩
    have hlt := lt_countIn hfind hn
    have hle := countIn_le entries
    apply follow_of_groundedIn hn (by omega)
    intro x hx
    rw [List.mem_singleton.1 hx]
    exact ⟨p, hfind, n, Nat.le_refl n, hn⟩

/-! ## Acceptance -/

/-- Declarations are accepted exactly if all formats are complete and all chains are intact. -/
theorem ofDeclarations_eq_ok {declared : List Parser} :
    ofDeclarations declared = .ok ⟨builtIn ++ declared⟩ ↔
      (∀ p ∈ builtIn ++ declared, checkFormat p = .ok ()) ∧
        ∀ name ∈ (builtIn ++ declared).map Parser.name, checkChain (builtIn ++ declared) name = .ok () := by
  constructor
  · intro h
    obtain ⟨⟨⟩, hformats, h⟩ := ok_of_bind h
    obtain ⟨⟨⟩, hchains, -⟩ := ok_of_bind h
    exact ⟨ok_of_forM hformats, fun name hname => ok_of_forM hchains name (Slots.mem_ofNames.2 hname)⟩
  · rintro ⟨hformats, hchains⟩
    have hforM : (Slots.ofNames ((builtIn ++ declared).map Parser.name)).names.forM
        (checkChain (builtIn ++ declared)) = .ok () :=
      forM_ok fun name hname => hchains name (Slots.mem_ofNames.1 hname)
    unfold ofDeclarations
    simp only [forM_ok hformats, hforM]
    rfl

/-- What is accepted are the built-in and the declared parsers. -/
theorem entries_of_ofDeclarations {declared : List Parser} {ps : Parsers} (h : ofDeclarations declared = .ok ps) :
    ps = ⟨builtIn ++ declared⟩ := by
  obtain ⟨⟨⟩, -, h⟩ := ok_of_bind h
  obtain ⟨⟨⟩, -, h⟩ := ok_of_bind h
  exact (Except.ok.inj h).symm

/-- All parsers of an accepted registry are grounded. -/
theorem grounded_of_ofDeclarations {declared : List Parser} {ps : Parsers} (h : ofDeclarations declared = .ok ps)
    (hfind : ps.find? name = some p) : Grounded ps.find? p := by
  obtain rfl := entries_of_ofDeclarations h
  exact (checkChain_eq_ok hfind).1 ((ofDeclarations_eq_ok.1 h).2 name (mem_names_of_findIn hfind))

end Parsers

/-! ## Parsing -/

mutual

/-- What the parsing of a text comes to, with a bound on how deep parsers call each other. -/
inductive Parses (find : String → Option Parser) : Nat → Parser → List Char → Except Fault Value → Prop
  /-- A parser that refers to no other needs none. -/
  | alone {n : Nat} {p : Parser} {cs : List Char} (h : p.format.inner? = none) :
      Parses find (n + 1) p cs (Format.parse none 0 p cs)
  | empty {n : Nat} {name : String} {separator : Separator} {inner : String} :
      Parses find (n + 1) ⟨name, .split separator inner⟩ [] (.ok (.list []))
  | unknown {n : Nat} {name : String} {separator : Separator} {inner : String} {cs : List Char} (h : cs ≠ [])
      (hfind : find inner = none) :
      Parses find (n + 1) ⟨name, .split separator inner⟩ cs (.error (Cause.unknownInner name inner))
  | pieces {n : Nat} {name : String} {separator : Separator} {inner : String} {cs : List Char} {p : Parser}
      {outcome : Except Fault (List Value)} (h : cs ≠ []) (hfind : find inner = some p)
      (hpieces : ParsesEach find n p (separator.split cs) outcome) :
      Parses find (n + 1) ⟨name, .split separator inner⟩ cs (.list <$> outcome)

/-- What the parsing of one text after the other comes to, up to the first which is refused. -/
inductive ParsesEach (find : String → Option Parser) :
    Nat → Parser → List (List Char) → Except Fault (List Value) → Prop
  | nil {n : Nat} {p : Parser} : ParsesEach find n p [] (.ok [])
  | refused {n : Nat} {p : Parser} {piece : List Char} {rest : List (List Char)} {fault : Fault}
      (h : Parses find n p piece (.error fault)) : ParsesEach find n p (piece :: rest) (.error fault)
  | cons {n : Nat} {p : Parser} {piece : List Char} {rest : List (List Char)} {v : Value}
      {outcome : Except Fault (List Value)} (h : Parses find n p piece (.ok v))
      (hrest : ParsesEach find n p rest outcome) : ParsesEach find n p (piece :: rest) ((v :: ·) <$> outcome)

end

/-- What is wrong with a text which a parser refuses. -/
def Cause.isOfText : Cause → Bool
  | notInteger _ | notFloat _ | notBoolean _ _ | external .json => true
  | _ => false

namespace Format

variable {find : String → Option Parser} {p : Parser} {n depth : Nat} {cs : List Char}

/-- A parser that refers to no other does not look at the registry. -/
theorem parse_alone (registry : Option (String → Option Parser)) (depth : Nat) (h : p.format.inner? = none)
    (cs : List Char) : parse registry depth p cs = parse none 0 p cs := by
  obtain ⟨name, format⟩ := p
  cases format with
  | split separator inner => cases h
  | _ => unfold parse; rfl

/-- A parser that refers to no other refuses a text for what is wrong with it. -/
theorem ofText_alone (h : p.format.inner? = none) (cs : List Char) :
    Raises (fun cause => cause.isOfText = true) (parse none 0 p cs) := by
  obtain ⟨name, format⟩ := p
  cases format with
  | string charset =>
    unfold parse
    exact .ok _
  | integer ignored =>
    unfold parse parseInteger
    simp only
    split
    · exact .ok _
    · split
      · exact .ok _
      · exact .error rfl
  | float ignored separator =>
    unfold parse parseFloat
    simp only
    split
    · exact .ok _
    · split
      · exact .ok _
      · exact .error rfl
  | boolean trueValues falseValues =>
    unfold parse parseBoolean
    split
    · exact .ok _
    · split
      · exact .ok _
      · split
        · exact .ok _
        · exact .error rfl
  | json =>
    unfold parse parseJson
    split
    · exact .ok _
    · split
      · exact .ok _
      · exact .error rfl
  | split separator inner => cases h

/-- A split parser gives each piece to the parser it refers to. -/
theorem parse_split {name inner : String} {separator : Separator} (hcs : cs ≠ []) (hfind : find inner = some p) :
    parse (some find) (depth + 1) ⟨name, .split separator inner⟩ cs =
      .list <$> (separator.split cs).mapM (parse (some find) depth p) := by
  rw [parse, if_neg hcs, hfind]

theorem parsesEach_mapM {f : List Char → Except Fault Value} (h : ∀ piece, Parses find n p piece (f piece))
    (pieces : List (List Char)) : ParsesEach find n p pieces (pieces.mapM f) := by
  induction pieces with
  | nil => exact .nil
  | cons piece rest ih =>
    have hpiece := h piece
    rw [List.mapM_cons]
    cases hf : f piece with
    | error fault =>
      rw [hf] at hpiece
      exact .refused hpiece
    | ok v =>
      rw [hf] at hpiece
      have := ParsesEach.cons hpiece ih
      cases hrest : rest.mapM f with
      | error fault =>
        rw [hrest] at this
        exact this
      | ok vs =>
        rw [hrest] at this
        exact this

/-- **The parsing of a text comes to an end** for a grounded parser: no deeper than by one call for each name that is
followed. The bound on the depth that `parse` has is never reached. -/
theorem parses_parse {calls : Nat} (h : GroundedIn find n p) (hcalls : n < calls) (hdepth : n ≤ depth)
    (cs : List Char) : Parses find calls p cs (parse (some find) depth p cs) := by
  obtain ⟨calls, rfl⟩ : ∃ k, calls = k + 1 := ⟨calls - 1, by omega⟩
  induction n generalizing depth calls p cs with
  | zero =>
    cases hinner : p.format.inner? with
    | none =>
      rw [parse_alone _ _ hinner]
      exact .alone hinner
    | some inner =>
      obtain ⟨k, q, hk, -, -⟩ := of_groundedIn hinner h
      omega
  | succ n ih =>
    cases hinner : p.format.inner? with
    | none => exact absurd (eq_zero_of_groundedIn hinner h) (Nat.succ_ne_zero n)
    | some inner =>
      obtain ⟨k, q, hk, hfind, hq⟩ := of_groundedIn hinner h
      obtain rfl : n = k := by omega
      obtain ⟨depth, rfl⟩ : ∃ k, depth = k + 1 := ⟨depth - 1, by omega⟩
      obtain ⟨calls, rfl⟩ : ∃ k, calls = k + 1 := ⟨calls - 1, by omega⟩
      obtain ⟨name, format⟩ := p
      cases format with
      | split separator referred =>
        cases hinner
        by_cases hcs : cs = []
        · subst hcs
          rw [parse, if_pos rfl]
          exact .empty
        · rw [parse_split hcs hfind]
          exact .pieces hcs hfind (parsesEach_mapM (fun piece => ih hq (by omega) piece calls (by omega)) _)
      | _ => cases hinner

/-- **A text is refused by a parser that refers to no other**, to which names lead. -/
theorem refused_of_parse {fault : Fault} (h : GroundedIn find n p) (hdepth : n ≤ depth)
    (hfail : parse (some find) depth p cs = .error fault) :
    ∃ q piece, (∃ m, Reaches find m p q) ∧ q.format.inner? = none ∧ parse none 0 q piece = .error fault := by
  induction n generalizing depth p cs with
  | zero =>
    cases hinner : p.format.inner? with
    | none =>
      rw [parse_alone _ _ hinner] at hfail
      exact ⟨p, cs, ⟨0, .here⟩, hinner, hfail⟩
    | some inner =>
      obtain ⟨k, q, hk, -, -⟩ := of_groundedIn hinner h
      omega
  | succ n ih =>
    cases hinner : p.format.inner? with
    | none => exact absurd (eq_zero_of_groundedIn hinner h) (Nat.succ_ne_zero n)
    | some inner =>
      obtain ⟨k, q, hk, hfind, hq⟩ := of_groundedIn hinner h
      obtain rfl : n = k := by omega
      obtain ⟨depth, rfl⟩ : ∃ k, depth = k + 1 := ⟨depth - 1, by omega⟩
      have hp := hinner
      obtain ⟨name, format⟩ := p
      cases format with
      | split separator referred =>
        cases hinner
        by_cases hcs : cs = []
        · rw [hcs, parse, if_pos rfl] at hfail
          cases hfail
        · rw [parse_split hcs hfind] at hfail
          obtain ⟨piece, -, hpiece⟩ : ∃ piece ∈ separator.split cs, parse (some find) depth q piece = .error fault := by
            apply error_of_mapM
            cases hmap : (separator.split cs).mapM (parse (some find) depth q) with
            | error other =>
              rw [hmap] at hfail
              cases hfail
              rfl
            | ok vs =>
              rw [hmap] at hfail
              cases hfail
          obtain ⟨r, refused, ⟨m, hm⟩, hr, hrefused⟩ := ih hq (by omega) hpiece
          exact ⟨r, refused, ⟨m + 1, .there hp hfind hm⟩, hr, hrefused⟩
      | _ => cases hinner

end Format

namespace Parsers

/-! ## Declarations -/

/-- A boolean format with a text for each truth value is complete, and so is any other format. -/
theorem checkFormat_eq_ok {p : Parser}
    (h : ∀ trueValues falseValues, p.format = .boolean trueValues falseValues → trueValues ≠ [] ∧ falseValues ≠ []) :
    checkFormat p = .ok () := by
  unfold checkFormat
  split
  · rename_i trueValues falseValues hformat
    obtain ⟨htrue, hfalse⟩ := h trueValues falseValues hformat
    rw [if_neg (by simp [htrue, hfalse])]
  · rfl

/-- **Declarations of different names are accepted exactly if each split parser among them is grounded.** -/
theorem accepted_iff_grounded {declared : List Parser} (hnames : (declared.map Parser.name).Nodup)
    (hbooleans : ∀ p ∈ declared, ∀ trueValues falseValues, p.format = .boolean trueValues falseValues →
      trueValues ≠ [] ∧ falseValues ≠ []) :
    (∃ ps, ofDeclarations declared = .ok ps) ↔
      ∀ p ∈ declared, p.format.inner? ≠ none → Grounded (findIn (builtIn ++ declared)) p := by
  have hdeclared : ∀ p ∈ declared, findIn (builtIn ++ declared) p.name = some p := by
    intro p hp
    rw [findIn_append, (findIn_eq_some hnames).2 ⟨hp, rfl⟩, Option.some_or]
  constructor
  · rintro ⟨ps, h⟩ p hp -
    obtain rfl := entries_of_ofDeclarations h
    exact grounded_of_ofDeclarations h (hdeclared p hp)
  · intro h
    refine ⟨⟨builtIn ++ declared⟩, ofDeclarations_eq_ok.2 ⟨?_, ?_⟩⟩
    · intro p hp
      rcases List.mem_append.1 hp with hbuiltIn | hp
      · have : ∀ p ∈ builtIn, checkFormat p = .ok () := by decide
        exact this p hbuiltIn
      · exact checkFormat_eq_ok (hbooleans p hp)
    · intro name hname
      obtain ⟨p, hp⟩ := Option.isSome_iff_exists.1 (isSome_findIn hname)
      rw [checkChain_eq_ok hp]
      by_cases hinner : p.format.inner? = none
      · exact ⟨0, groundedIn_zero hinner⟩
      · rcases List.mem_append.1 (mem_of_findIn hp) with hbuiltIn | hp
        · have : ∀ p ∈ builtIn, p.format.inner? = none := by decide
          exact absurd (this p hbuiltIn) hinner
        · exact h p hp hinner

/-- **Which references between parsers are accepted, and what this means for parsing.** Declarations of different names
are accepted exactly if following the names from each split parser leads to a built-in or declared parser of another
kind, in whichever order they are declared. The check of a chain comes to an end for all declarations. If they have been
accepted, parsing a text comes to an end, with no more parsers calling each other than there are, and a text is only
refused for what a parser that refers to no other finds wrong with a piece of it. -/
theorem references_end (declared : List Parser) :
    ((declared.map Parser.name).Nodup →
      (∀ p ∈ declared, ∀ trueValues falseValues, p.format = .boolean trueValues falseValues →
        trueValues ≠ [] ∧ falseValues ≠ []) →
      ((∃ ps, ofDeclarations declared = .ok ps) ↔
        ∀ p ∈ declared, p.format.inner? ≠ none →
          ∃ n q, Reaches (findIn (builtIn ++ declared)) n p q ∧ q.format.inner? = none) ∧
      ∀ other : List Parser, other.Perm declared →
        ((∃ ps, ofDeclarations other = .ok ps) ↔ ∃ ps, ofDeclarations declared = .ok ps) ∧
        ∀ name, findIn (builtIn ++ other) name = findIn (builtIn ++ declared) name) ∧
    (∀ name ∈ (builtIn ++ declared).map Parser.name,
      Follows (findIn (builtIn ++ declared)) (countIn (builtIn ++ declared)) [name]
        ((findIn (builtIn ++ declared) name).bind fun p => p.format.inner?)
        (checkChain (builtIn ++ declared) name)) ∧
    ∀ ps, ofDeclarations declared = .ok ps → ∀ name p, ps.find? name = some p → ∀ text : String,
      Parses ps.find? ps.count p text.toList (ps.parse p text) ∧
      ∀ fault, ps.parse p text = .error fault →
        (∃ q piece, (∃ n, Reaches ps.find? n p q) ∧ q.format.inner? = none ∧ parseAlone q piece = .error fault) ∧
        ∀ parser inner, fault.cause ≠ .unknownInner parser inner := by
  refine ⟨?_, fun name hname => follows_checkChain hname, ?_⟩
  · intro hnames hbooleans
    refine ⟨accepted_iff_grounded hnames hbooleans, fun other hperm => ?_⟩
    have hother : (other.map Parser.name).Nodup := (hperm.map Parser.name).nodup_iff.2 hnames
    have hfind : findIn (builtIn ++ other) = findIn (builtIn ++ declared) := funext (findIn_perm hnames hperm)
    refine ⟨?_, fun name => congrFun hfind name⟩
    rw [accepted_iff_grounded hnames hbooleans,
      accepted_iff_grounded hother fun p hp => hbooleans p (hperm.mem_iff.1 hp), hfind]
    exact ⟨fun h p hp => h p (hperm.mem_iff.2 hp), fun h p hp => h p (hperm.mem_iff.1 hp)⟩
  · intro ps hps name p hfind text
    obtain ⟨n, hn⟩ := grounded_of_ofDeclarations hps hfind
    have hlt : n < ps.count := lt_countIn hfind hn
    have hdepth : n ≤ ps.entries.length + 1 := by
      have := countIn_le ps.entries
      unfold count at hlt
      omega
    refine ⟨Format.parses_parse hn hlt hdepth text.toList, fun fault hfail => ?_⟩
    obtain ⟨q, piece, hreaches, hq, hrefused⟩ := Format.refused_of_parse hn hdepth hfail
    refine ⟨⟨q, String.ofList piece, hreaches, hq, ?_⟩, fun parser inner hcause => ?_⟩
    · rw [parseAlone, String.toList_ofList]
      exact hrefused
    · have := Format.ofText_alone hq piece fault hrefused
      rw [hcause] at this
      cases this

/-- Rows of numbers, where each parser is declared in front of the one it refers to. -/
def rowsOfNumbers : List Parser :=
  [⟨"rows", .split (.text ";") "numbers"⟩, ⟨"numbers", .split (.text ",") "amount"⟩, ⟨"amount", .integer "."⟩]

/-- Rows of numbers are accepted. Parsing them calls no more parsers than there are, also if a number is refused. -/
theorem references_end_rowsOfNumbers :
    (rowsOfNumbers.map Parser.name).Nodup ∧
    (∀ p ∈ rowsOfNumbers, ∀ trueValues falseValues, p.format = .boolean trueValues falseValues →
      trueValues ≠ [] ∧ falseValues ≠ []) ∧
    (∃ ps, ofDeclarations rowsOfNumbers = .ok ps) ∧
    ∀ ps, ofDeclarations rowsOfNumbers = .ok ps → ∀ p, ps.find? "rows" = some p →
      Parses ps.find? 8 p "1.000,2;3".toList (.ok (.list [.list [.integer 1000, .integer 2], .list [.integer 3]])) ∧
      Parses ps.find? 8 p "1;x".toList (.error (Cause.notInteger "x")) := by
  have hnames : (rowsOfNumbers.map Parser.name).Nodup := by decide
  have hbooleans : ∀ p ∈ rowsOfNumbers, ∀ trueValues falseValues, p.format = .boolean trueValues falseValues →
      trueValues ≠ [] ∧ falseValues ≠ [] := by
    simp [rowsOfNumbers]
  have hend := references_end rowsOfNumbers
  refine ⟨hnames, hbooleans, ?_, ?_⟩
  · have hnumbers : Reaches (findIn (builtIn ++ rowsOfNumbers)) 1 ⟨"numbers", .split (.text ",") "amount"⟩
        ⟨"amount", .integer "."⟩ := .there rfl rfl .here
    apply (hend.1 hnames hbooleans).1.2
    intro p hp hinner
    simp only [rowsOfNumbers, List.mem_cons, List.not_mem_nil, or_false] at hp
    rcases hp with rfl | rfl | rfl
    · exact ⟨2, _, .there rfl rfl hnumbers, rfl⟩
    · exact ⟨1, _, hnumbers, rfl⟩
    · exact absurd rfl hinner
  · intro ps hps p hp
    have h := hend.2.2 ps hps "rows" p hp
    obtain rfl := entries_of_ofDeclarations hps
    cases hp
    have hlists : (⟨builtIn ++ rowsOfNumbers⟩ : Parsers).parse ⟨"rows", .split (.text ";") "numbers"⟩ "1.000,2;3" =
        .ok (.list [.list [.integer 1000, .integer 2], .list [.integer 3]]) := by cbv
    have hrefused : (⟨builtIn ++ rowsOfNumbers⟩ : Parsers).parse ⟨"rows", .split (.text ";") "numbers"⟩ "1;x" =
        .error (Cause.notInteger "x") := by cbv
    exact ⟨hlists ▸ (h "1.000,2;3").1, hrefused ▸ (h "1;x").1⟩

end Parsers

end RecordServer
