import RecordServer.Proofs.FileSystem
import RecordServer.Proofs.Input.Loading
import RecordServer.Proofs.Relation.Matching
import RecordServer.Proofs.Relation.Sorted

/-!
# Resolving relations

The plain algorithm for a relation reads all children, keeps those which satisfy every rule, sorts them stably, cuts
them off, and resolves the relations of those which are left (`Relation.plain`).

Resolving a relation within a session comes to the same (`Relation.gives_resolve`). A session keeps readers which have
loaded other records before; all that matters is that they have been opened in its files (`Session.Regular`), and that
nobody cancels the request. What a part of the run comes to in such sessions is stated by `Session.Gives`, which has one
rule for each way to put runs together.
-/

namespace RecordServer

/-! ## The plain algorithm -/

/-- A child has what a rule asks for: its property equals that of the parent in the sense of the index. -/
def Rule.Satisfied (rule : Rule) (parent child : Record) : Prop :=
  ∃ value ∈ parent.property? rule.parentProperty, rule.index.Accepts rule.childProperty value child

namespace Relation

open Classical in
/-- The children of a parent which are kept: those which satisfy every rule, in the stable order of the sort keys, and
of these the first one, or all up to the limit, if there is any. There are none if the parent lacks a property on which
there is a rule, or if two children cannot be compared. -/
noncomputable def kept (isArray : Bool) (limit : Nat) (sort : List Config.SortKey) (rules : List Rule)
    (records : List Record) (parent : Record) : Option (List Record) :=
  if ∀ rule ∈ rules, (parent.property? rule.parentProperty).isSome then
    (stableOrder sort (records.filter fun child => ∀ rule ∈ rules, rule.Satisfied parent child)).map fun children =>
      if isArray then if 0 < limit then children.take limit else children else children.take 1
  else none

mutual

/-- What is attached to a parent, where the records of each input are given: the list of the kept children, each with
its own relations, or the only one or null. -/
noncomputable def plain (records : Input → List Record) : Relation → Record → Option Value
  | mk _ input isArray limit sort rules relations, parent => do
    let children ← kept isArray limit sort rules (records input) parent
    let attached ← children.mapM (plainAll records relations)
    return if isArray then .list (attached.map Record.toValue) else (attached.head?.map Record.toValue).getD .null

/-- A record with what several relations attach to it. -/
noncomputable def plainAll (records : Input → List Record) : List Relation → Record → Option Record
  | [], r => some r
  | relation :: rest, r => do
    let value ← plain records relation r
    plainAll records rest (r.set relation.name value)

end

end Relation

/-! ## Runs -/

namespace Session

variable {α β : Type} {known : Session → Prop}

/-- In sessions of which something is known, a run keeps it and comes to a value, or fails if there is none. -/
def Gives (known : Session → Prop) (a : Run α) (x : Option α) : Prop :=
  ∀ s, known s → known (a.run s).2 ∧ (a.run s).1.toOption = x

theorem gives_pure (x : α) : Gives known (pure x) (some x) := fun _ hs => ⟨hs, rfl⟩

theorem gives_lift (a : Except Fault α) : Gives known (lift a) a.toOption := fun _ hs => ⟨hs, rfl⟩

theorem Gives.bind {a : Run α} {x : Option α} {f : α → Run β} {g : α → Option β} (ha : Gives known a x)
    (hf : ∀ y, x = some y → Gives known (f y) (g y)) : Gives known (a >>= f) (x.bind g) := by
  intro s hs
  obtain ⟨ht, hx⟩ := ha s hs
  rcases hrun : a.run s with ⟨e | y, t⟩
  · rw [hrun] at ht hx
    rw [run_bind_error hrun, ← hx]
    exact ⟨ht, rfl⟩
  · rw [hrun] at ht hx
    rw [run_bind_ok hrun, ← hx]
    exact hf y hx.symm t ht

/-- A run that comes to a value in any case, and what follows it. -/
theorem Gives.step {a : Run α} {y : α} {f : α → Run β} {x : Option β} (ha : Gives known a (some y))
    (hf : Gives known (f y) x) : Gives known (a >>= f) x := by
  refine ha.bind (g := fun _ => x) fun z hz => ?_
  cases hz
  exact hf

theorem gives_mapM {f : α → Run β} {g : α → Option β} (hf : ∀ x, Gives known (f x) (g x)) : ∀ l : List α,
    Gives known (l.mapM f) (l.mapM g)
  | [] => gives_pure []
  | x :: l => by
    rw [List.mapM_cons, List.mapM_cons]
    apply (hf x).bind
    intro y _
    apply (gives_mapM hf l).bind
    intro ys _
    exact gives_pure (y :: ys)

/-! ## Regular sessions -/

/-- A session over some files which nobody cancels: each reader has been opened there for the input of its name, and has
loaded records of it. -/
structure Regular (fs : FileSystem) (inputs : List (String × Input)) (s : Session) : Prop where
  files : s.files = fs
  readers : ∀ name input r, inputs.lookup name = some input → s.readers.lookup name = some r →
    ∃ first before, input.reader fs = .ok first ∧ r = input.behind first before
  undisturbed : s.watch.Undisturbed

variable {fs : FileSystem} {inputs : List (String × Input)}

/-- A new session is regular. -/
theorem regular_new {watch : Watch} (h : watch.Undisturbed) : (new fs watch).Regular fs inputs where
  files := rfl
  readers _ _ _ _ hreader := nomatch hreader
  undisturbed := h

/-- What has been noted makes no difference. -/
theorem Regular.note {s : Session} (h : s.Regular fs inputs) (happening : Happening) :
    ({ s with watch := s.watch.note happening } : Session).Regular fs inputs :=
  ⟨h.files, h.readers, h.undisturbed⟩

/-- A regular session stays so if it keeps a reader which has loaded one more record. -/
theorem Regular.keep {s : Session} (h : s.Regular fs inputs) {input : Input} {first : Input.Reader}
    {before : List Position} (hinput : inputs.lookup input.name = some input) (hfirst : input.reader fs = .ok first) :
    (s.keep input (input.behind first before)).Regular fs inputs := by
  refine ⟨h.files, fun name other r hother hr => ?_, h.undisturbed⟩
  unfold Session.keep at hr
  by_cases hname : name = input.name
  · subst hname
    obtain rfl := Option.some.inj (hinput.symm.trans hother)
    rw [List.lookup_cons_self] at hr
    exact ⟨first, before, hfirst, (Option.some.inj hr).symm⟩
  · have hbeq : (name == input.name) = false := by simpa using hname
    rw [List.lookup_cons, hbeq] at hr
    simp only [FileSystem.lookup_filter_ne hname] at hr
    exact h.readers name other r hother hr

/-- **Loading gives the record that has been read through**, whatever the session has loaded before. -/
theorem gives_load {input : Input} {records : List (Position × Record)} {entry : Position × Record}
    (hloads : input.Loads fs records) (hinput : inputs.lookup input.name = some input) (hentry : entry ∈ records) :
    Gives (Regular fs inputs) (load input entry.1) (some entry.2) := by
  intro s hs
  obtain ⟨first, hfirst, hloaded⟩ := hloads.loaded
  have hnoted := hs.note (.loaded input.name entry.1)
  obtain ⟨before, hreader⟩ : ∃ before, ({ s with watch := s.watch.note (.loaded input.name entry.1) } :
      Session).readerOf input = .ok (input.behind first before) := by
    unfold readerOf
    cases hlookup : s.readers.lookup input.name with
    | none =>
      rw [hs.files]
      exact ⟨[], hfirst⟩
    | some r =>
      obtain ⟨same, before, hsame, rfl⟩ := hs.readers _ _ _ hinput hlookup
      cases hfirst.symm.trans hsame
      exact ⟨before, rfl⟩
  have hrun : (load input entry.1).run s = (.ok entry.2, ({ s with
      watch := s.watch.note (.loaded input.name entry.1) } : Session).keep input
        (input.behind first (before ++ [entry.1]))) := by
    show s.loadIn input entry.1 = _
    unfold loadIn
    simp only [hreader]
    rw [Prod.mk.injEq]
    refine ⟨hloaded before entry hentry, ?_⟩
    simp [Input.behind]
  rw [hrun]
  exact ⟨hnoted.keep hinput hfirst, rfl⟩

end Session

/-! ## Children -/

namespace Relation

open Session

variable {fs : FileSystem} {inputs : List (String × Input)} {input : Input} {records : List (Position × Record)}

/-- As many records as are wanted. -/
def enough : Option Nat → List Record → List Record
  | none, records => records
  | some count, records => records.take count

theorem enough_nil (wanted : Option Nat) : enough wanted [] = [] := by
  cases wanted with
  | none => rfl
  | some count => exact List.take_nil

/-- One record more is taken, and the others if it has not been the last. -/
theorem enough_cons {wanted : Option Nat} (h : wanted ≠ some 0) (r : Record) (records : List Record) :
    enough wanted (r :: records) =
      if wanted = some 1 then [r] else r :: enough (wanted.map (· - 1)) records := by
  match wanted with
  | none => rfl
  | some 0 => exact absurd rfl h
  | some 1 => rfl
  | some (count + 2) => rfl

/-- A pull of a feed without faults keeps a session regular. -/
theorem pull_regular {strand : Strand} {m : List Position} {s : Session} (guarded : Bool)
    (hs : s.Regular fs inputs) (hfaultless : strand.Faultless) (hserves : strand.Serves m) :
    ∃ more t, (pull (.ofStrand strand guarded)).run s = (.ok (m.head?.map .ok, .ofStrand more guarded), t) ∧
      more.Faultless ∧ more.Serves m.tail ∧ t.Regular fs inputs := by
  obtain ⟨more, v, hnext, hmore, hserves, hv⟩ :=
    @Feed.next_undisturbed s.watch m guarded strand hfaultless hserves hs.undisturbed
  refine ⟨more, { s with watch := v }, ?_, hmore, hserves, hs.files, hs.readers, hv⟩
  have hrun (feed : Feed) : (pull feed).run s = (.ok ((feed.next s.watch).1, (feed.next s.watch).2.1),
      { s with watch := (feed.next s.watch).2.2 }) := rfl
  rw [hrun, hnext]

/-- **Gathering loads the records at the positions to come**, until there are enough. -/
theorem gives_gather (hloads : input.Loads fs records) (hinput : inputs.lookup input.name = some input)
    (guarded : Bool) : ∀ {pulls : Nat} {wanted : Option Nat} {strand : Strand} {entries : List (Position × Record)},
    wanted ≠ some 0 → (∀ entry ∈ entries, entry ∈ records) → strand.Faultless →
    strand.Serves (entries.map Prod.fst) → entries.length ≤ pulls →
    Gives (Regular fs inputs) (gather input pulls wanted (.ofStrand strand guarded))
      (some (enough wanted (entries.map Prod.snd)))
  | 0, wanted, _, entries, _, _, _, _, hpulls => by
    obtain rfl := List.eq_nil_of_length_eq_zero (Nat.le_zero.1 hpulls)
    rw [List.map_nil, enough_nil]
    exact gives_pure []
  | pulls + 1, wanted, strand, entries, hwanted, hentries, hfaultless, hserves, hpulls => by
    intro s hs
    obtain ⟨more, t, hpull, hmore, hserves, ht⟩ := pull_regular guarded hs hfaultless hserves
    unfold gather
    rw [run_bind_ok hpull]
    revert t
    cases entries with
    | nil =>
      intro t _ ht
      rw [show enough wanted (List.map Prod.snd []) = [] from enough_nil wanted]
      exact gives_pure [] t ht
    | cons entry entries =>
      intro t _ ht
      obtain ⟨hfirst, hrest⟩ := List.forall_mem_cons.1 hentries
      rw [show enough wanted (List.map Prod.snd (entry :: entries)) = _ from enough_cons hwanted _ _]
      refine Gives.step (gives_lift (.ok entry.1)) (Gives.step (gives_load hloads hinput hfirst) ?_) t ht
      split
      · exact gives_pure [entry.2]
      · rename_i hmany
        have hwanted' : wanted.map (· - 1) ≠ some 0 := by
          match wanted with
          | none => nofun
          | some 0 => exact absurd rfl hwanted
          | some 1 => exact absurd rfl hmany
          | some (count + 2) => simp
        have ih := gives_gather hloads hinput guarded hwanted' hrest hmore hserves (Nat.le_of_succ_le_succ hpulls)
        exact ih.step (gives_pure _)

/-! ### Conditions -/

/-- What the rules of a relation ask of the children of a parent. -/
def conditionsFor (parent : Record) (rules : List Rule) : List Condition :=
  rules.filterMap fun rule => (parent.property? rule.parentProperty).map fun value =>
    ⟨rule.index, rule.childProperty, value⟩

variable {parent : Record} {rules : List Rule}

theorem mem_conditionsFor {c : Condition} : c ∈ conditionsFor parent rules ↔
    ∃ rule ∈ rules, ∃ value ∈ parent.property? rule.parentProperty,
      c = ⟨rule.index, rule.childProperty, value⟩ := by
  simp only [conditionsFor, List.mem_filterMap, Option.map_eq_some_iff, Option.mem_def, eq_comm (a := c)]

/-- A parent with all properties on which there are rules has a query for its children. -/
theorem queryFor_ok (relation : String) : ∀ {rules : List Rule} (before : List Condition),
    (∀ rule ∈ rules, (parent.property? rule.parentProperty).isSome) →
    queryFor relation parent (Query.ofConditions before) rules =
      .ok (Query.ofConditions (before ++ conditionsFor parent rules))
  | [], before, _ => by
    rw [conditionsFor, List.filterMap_nil, List.append_nil]
    rfl
  | rule :: rules, before, h => by
    obtain ⟨hfirst, hrest⟩ := List.forall_mem_cons.1 h
    obtain ⟨value, hvalue⟩ := Option.isSome_iff_exists.1 hfirst
    have hconditions : conditionsFor parent (rule :: rules) =
        ⟨rule.index, rule.childProperty, value⟩ :: conditionsFor parent rules := by
      simp [conditionsFor, hvalue]
    have hquery : Query.ofConditions (before ++ [⟨rule.index, rule.childProperty, value⟩]) =
        (Query.ofConditions before).filter rule.index rule.childProperty value := by
      simp [Query.ofConditions]
    have ih := queryFor_ok relation (before ++ [⟨rule.index, rule.childProperty, value⟩]) hrest
    rw [hquery, List.append_assoc, List.singleton_append] at ih
    rw [hconditions, queryFor, hvalue]
    exact ih

/-- A parent that lacks a property on which there is a rule has none. -/
theorem queryFor_error (relation : String) : ∀ {rules : List Rule} (q : Query),
    ¬(∀ rule ∈ rules, (parent.property? rule.parentProperty).isSome) →
    ∃ fault, queryFor relation parent q rules = .error fault
  | [], _, h => absurd nofun h
  | rule :: rules, q, h => by
    cases hvalue : parent.property? rule.parentProperty with
    | none => exact ⟨_, by simp [queryFor, hvalue]; rfl⟩
    | some value =>
      rw [queryFor, hvalue]
      refine queryFor_error relation _ fun hrest => h ?_
      rw [List.forall_mem_cons]
      exact ⟨by simp [hvalue], hrest⟩

/-- The conditions are passed by the children which satisfy all rules. -/
theorem passes_iff (hpresent : ∀ rule ∈ rules, (parent.property? rule.parentProperty).isSome) (child : Record) :
    (∀ c ∈ conditionsFor parent rules, c.Accepts child) ↔ ∀ rule ∈ rules, rule.Satisfied parent child := by
  constructor
  · intro h rule hrule
    obtain ⟨value, hvalue⟩ := Option.isSome_iff_exists.1 (hpresent rule hrule)
    exact ⟨value, hvalue, h _ (mem_conditionsFor.2 ⟨rule, hrule, value, hvalue, rfl⟩)⟩
  · intro h c hc
    obtain ⟨rule, hrule, value, hvalue, rfl⟩ := mem_conditionsFor.1 hc
    obtain ⟨same, hsame, haccepts⟩ := h rule hrule
    cases hvalue.symm.trans hsame
    exact haccepts

/-! ### The kept children -/

/-- The children of a relation can be found: they can be loaded, and the indexes of its rules be asked about them. -/
structure Findable (fs : FileSystem) (inputs : List (String × Input)) (records : List (Position × Record))
    (input : Input) (rules : List Rule) : Prop where
  loads : input.Loads fs records
  known : inputs.lookup input.name = some input
  current : ∀ rule ∈ rules, rule.index.Current fs input
  handled : ∀ rule ∈ rules, rule.index.handlesInput input.name = true ∧
    rule.index.handlesProperty rule.childProperty = true
  consistent : ∀ rule ∈ rules, ∀ other ∈ rules, rule.index.name = other.index.name → rule.index = other.index
  distinct : (rules.map Rule.childProperty).Nodup

/-- The conditions of rules on different properties are all kept. -/
theorem pairwise_conditionsFor (parent : Record) : ∀ {rules : List Rule}, (rules.map Rule.childProperty).Nodup →
    (conditionsFor parent rules).Pairwise fun earlier later => ¬later.Displaces earlier
  | [], _ => List.Pairwise.nil
  | rule :: rules, h => by
    obtain ⟨hnew, hrest⟩ := List.nodup_cons.1 h
    have ih := pairwise_conditionsFor parent hrest
    cases hvalue : parent.property? rule.parentProperty with
    | none => simpa [conditionsFor, hvalue] using ih
    | some value =>
      have hconditions : conditionsFor parent (rule :: rules) =
          ⟨rule.index, rule.childProperty, value⟩ :: conditionsFor parent rules := by
        simp [conditionsFor, hvalue]
      rw [hconditions, List.pairwise_cons]
      refine ⟨fun later hlater => ?_, ih⟩
      rintro ⟨-, hproperty⟩
      obtain ⟨other, hother, _, -, rfl⟩ := mem_conditionsFor.1 hlater
      exact hnew (List.mem_map.2 ⟨other, hother, hproperty⟩)

/-- **Gathering no more children than are wanted makes no difference** to those which are kept. -/
theorem kept_of_enough (isArray : Bool) (limit : Nat) (sort : List Config.SortKey) (children : List Record) :
    (stableOrder sort (enough (wanted isArray limit sort) children)).map (cut isArray limit) =
      (stableOrder sort children).map fun children =>
        if isArray then if 0 < limit then children.take limit else children else children.take 1 := by
  have hcut : cut isArray limit = fun children =>
      if isArray then if 0 < limit then children.take limit else children else children.take 1 := by
    funext children
    unfold cut
    rcases limit with _ | limit <;> cases isArray <;> simp
  rw [hcut]
  cases sort with
  | cons key keys => rfl
  | nil =>
    have hsorted (children : List Record) : stableOrder [] children = some children :=
      (toOption_sorted [] children).symm
    rw [hsorted, hsorted, Option.map_some, Option.map_some]
    rcases limit with _ | limit <;> cases isArray <;> simp [wanted, enough]

variable {isArray : Bool} {limit : Nat} {sort : List Config.SortKey}

theorem wanted_ne_zero : wanted isArray limit sort ≠ some 0 := by
  unfold wanted
  split_ifs <;> simp_all

open Classical in
/-- The records which pass the conditions are the children which satisfy all rules. -/
theorem map_passing (hpresent : ∀ rule ∈ rules, (parent.property? rule.parentProperty).isSome) :
    (Query.passing (conditionsFor parent rules) records).map Prod.snd =
      (records.map Prod.snd).filter fun child => ∀ rule ∈ rules, rule.Satisfied parent child := by
  rw [List.filter_map, Query.passing]
  refine congrArg (List.map Prod.snd) (List.filter_congr fun entry _ => ?_)
  exact decide_eq_decide.2 (passes_iff hpresent entry.2)

/-- The query for the children of a relation yields the positions of those which satisfy all rules. -/
theorem execute_children (h : Findable fs inputs records input rules) (parent : Record) (guarded : Bool) :
    ∃ strand, (Query.ofConditions (conditionsFor parent rules)).execute fs input guarded =
      .ok (.ofStrand strand guarded) ∧ strand.Faultless ∧
      strand.Serves ((Query.passing (conditionsFor parent rules) records).map Prod.fst) ∧
      (Query.passing (conditionsFor parent rules) records).length ≤ (Feed.ofStrand strand guarded).bound := by
  have hof {c : Condition} (hc : c ∈ conditionsFor parent rules) : ∃ rule ∈ rules, c.index = rule.index ∧
      c.property = rule.childProperty := by
    obtain ⟨rule, hrule, value, -, rfl⟩ := mem_conditionsFor.1 hc
    exact ⟨rule, hrule, rfl, rfl⟩
  have hconsistent : Query.Consistent (conditionsFor parent rules) := by
    intro c hc d hd hname
    obtain ⟨rule, hrule, hci, -⟩ := hof hc
    obtain ⟨other, hother, hdi, -⟩ := hof hd
    rw [hci, hdi] at hname ⊢
    exact h.consistent rule hrule other hother hname
  have hanswered : ∀ c ∈ conditionsFor parent rules, c.Answered fs input := by
    intro c hc
    obtain ⟨rule, hrule, hci, hcp⟩ := hof hc
    constructor
    · exact hci ▸ h.current rule hrule
    · exact hci ▸ (h.handled rule hrule).1
    · exact hci ▸ hcp ▸ (h.handled rule hrule).2
  obtain ⟨strand, hexecute, hfaultless, hserves, hbound⟩ :=
    @Query.execute_passing fs input records guarded _ h.loads.all h.loads.positions hconsistent
      (pairwise_conditionsFor parent h.distinct) hanswered
  exact ⟨strand, hexecute, hfaultless, hserves, by simpa using hbound⟩

/-- **The children which are found are those which are kept.** -/
theorem gives_children (name : String) (h : Findable fs inputs records input rules) :
    Gives (Regular fs inputs) (children name input isArray limit sort rules parent)
      (kept isArray limit sort rules (records.map Prod.snd) parent) := by
  unfold children kept
  by_cases hpresent : ∀ rule ∈ rules, (parent.property? rule.parentProperty).isSome
  · have hquery : queryFor name parent .all rules = .ok (.ofConditions (conditionsFor parent rules)) :=
      queryFor_ok name [] hpresent
    rw [if_pos hpresent, hquery, ← map_passing hpresent, ← kept_of_enough, ← toOption_sorted, Option.map_eq_bind]
    refine (gives_lift (.ok _)).step fun s hs => ?_
    obtain ⟨strand, hexecute, hfaultless, hserves, hbound⟩ := execute_children h parent s.watch.guards
    have hrun : (execute (.ofConditions (conditionsFor parent rules)) input).run s =
        (.ok (.ofStrand strand s.watch.guards), s) := by
      show (Query.execute s.files _ input s.watch.guards, s) = _
      rw [hs.files, hexecute]
    rw [run_bind_ok hrun]
    have hgather := gives_gather h.loads h.known s.watch.guards
      (wanted_ne_zero : wanted isArray limit sort ≠ some 0) (fun entry hentry => (List.mem_filter.1 hentry).1)
      hfaultless hserves hbound
    exact hgather.step ((gives_lift _).bind fun found _ => gives_pure (cut isArray limit found)) s hs
  · obtain ⟨fault, hfault⟩ := queryFor_error name .all hpresent
    rw [if_neg hpresent, hfault]
    exact fun s hs => ⟨hs, rfl⟩

/-! ## Relations at any depth -/

mutual

/-- Something is so of a relation, and of all relations below it: of its input, its rules and its own relations. -/
def Each (P : Input → List Rule → List Relation → Prop) : Relation → Prop
  | mk _ input _ _ _ rules relations => P input rules relations ∧ EachOf P relations

/-- Something is so of several relations and of all below them. -/
def EachOf (P : Input → List Rule → List Relation → Prop) : List Relation → Prop
  | [] => True
  | relation :: rest => Each P relation ∧ EachOf P rest

end

section

variable {P Q R : Input → List Rule → List Relation → Prop}

mutual

/-- What follows from two things which are so of a relation at any depth. -/
theorem Each.imp (himp : ∀ input rules below, P input rules below → Q input rules below → R input rules below) :
    ∀ {relation : Relation}, relation.Each P → relation.Each Q → relation.Each R
  | mk _ _ _ _ _ _ _, hp, hq => by
    unfold Each at hp hq ⊢
    exact ⟨himp _ _ _ hp.1 hq.1, EachOf.imp himp hp.2 hq.2⟩

theorem EachOf.imp (himp : ∀ input rules below, P input rules below → Q input rules below → R input rules below) :
    ∀ {relations : List Relation}, EachOf P relations → EachOf Q relations → EachOf R relations
  | [], _, _ => trivial
  | _ :: _, hp, hq => by
    unfold EachOf at hp hq ⊢
    exact ⟨Each.imp himp hp.1 hq.1, EachOf.imp himp hp.2 hq.2⟩

end

end

variable {found : Input → List (Position × Record)}

mutual

/-- **Resolving a relation comes to what the plain algorithm attaches.** -/
theorem gives_resolve : ∀ (relation : Relation) (parent : Record),
    relation.Each (fun input rules _ => Findable fs inputs (found input) input rules) →
    Gives (Regular fs inputs) (resolve relation parent)
      (plain (fun input => (found input).map Prod.snd) relation parent)
  | mk name input isArray limit sort rules relations, parent, h => by
    unfold resolve plain
    unfold Each at h
    apply (gives_children name h.1).bind
    intro children _
    apply (gives_mapM (fun child => gives_resolveAll relations child h.2) children).bind
    intro attached _
    exact gives_pure _

/-- So does attaching the values of several relations. -/
theorem gives_resolveAll : ∀ (relations : List Relation) (r : Record),
    EachOf (fun input rules _ => Findable fs inputs (found input) input rules) relations →
    Gives (Regular fs inputs) (resolveAll relations r)
      (plainAll (fun input => (found input).map Prod.snd) relations r)
  | [], r, _ => by
    unfold resolveAll plainAll
    exact gives_pure r
  | relation :: rest, r, h => by
    unfold resolveAll plainAll
    unfold EachOf at h
    apply (gives_resolve relation r h.1).bind
    intro value _
    exact gives_resolveAll rest (r.set relation.name value) h.2

end

end Relation

end RecordServer
