import RecordServer.Proofs.Index.Agreement
import RecordServer.Proofs.Index.Damage
import RecordServer.Proofs.Stream.Intersection
import RecordServer.Proofs.Stream.Undisturbed

/-!
# Filters compose

Looking up filters one by one and looking them up together come to the same: a query yields exactly the positions which
each of its filters yields alone (`Query.filters_compose`), whatever the indexes which look them up. So neither the
order of the filters matters nor how they are spread over indexes which answer them alike.

What is found in the tables of an index that has been created for an input is in order (`Index.MadeFor.ordered`); hence
the index yields exactly the positions which it yields for each filter alone (`Index.positions_of_made`). The groups of
a query are joined (`Query.yield_of_handled`); if one of them is refused, the query is refused
(`Query.handled_of_yield`). Looking up an indexed property can only fail if the file of the index is damaged
(`Condition.settled_of_undamaged`).
-/

namespace RecordServer

/-! ## Indexes of an input -/

/-- Looking into tables cannot fail: no region of their file ends before it begins. -/
def Tables.Undamaged : Tables → Prop
  | .substringFile _ _ file => ∀ r ∈ file.regions, ¬r.Reversed
  | _ => True

/-- Tables which are not damaged can be looked into. -/
theorem Tables.Undamaged.found {t : Tables} (h : t.Undamaged) (property : String) (expected : Value) :
    ∃ found, t.positions? property expected = .ok found := by
  unfold positions?
  cases expected.key? with
  | none => exact ⟨none, rfl⟩
  | some key =>
    cases t with
    | exact tables => exact ⟨_, rfl⟩
    | substring ignoreCase tables => exact ⟨_, rfl⟩
    | substringFile ignoreCase properties file =>
      cases hregion : (properties.zip file.regions).lookup property with
      | none => exact ⟨none, by simp [hregion]⟩
      | some r =>
        cases hsearch : file.search r (foldKey ignoreCase key) with
        | error fault =>
          exact absurd (SuffixFile.reversed_of_search hsearch) (h r (List.of_mem_zip (mem_of_lookup hregion)).2)
        | ok found =>
          simp only [hregion, hsearch]
          exact ⟨_, rfl⟩

/-- Whatever an index file has been written for, what is found in it is in order. -/
theorem Tables.ascending_of_substringFile {ignoreCase : Bool} {properties : List String} {file : SuffixFile}
    {property : String} {expected : Value} {found : Option (List Position)}
    (h : (substringFile ignoreCase properties file).positions? property expected = .ok found) :
    Ascending (found.getD []) := by
  unfold positions? at h
  cases hkey : expected.key? with
  | none =>
    simp only [hkey] at h
    cases h
    exact List.Pairwise.nil
  | some key =>
    cases hregion : (properties.zip file.regions).lookup property with
    | none =>
      simp only [hkey, hregion] at h
      cases h
      exact List.Pairwise.nil
    | some r =>
      simp only [hkey, hregion] at h
      obtain ⟨positions, -, rfl⟩ := ok_of_map h
      exact Leaf.ascending_ascending positions

namespace Index

variable {fs : FileSystem} {i : Index} {input : Input} {filters : Filters} {records : List (Position × Record)}

/-- An index has been created for an input, now or before. -/
def MadeFor (input : Input) (i : Index) : Prop :=
  ∃ g place config g', create g place i.name config (some input) = (.ok i, g')

/-- An index that is created scans, or covers the properties of its configuration with tables for them. -/
theorem of_create {g g' : FileSystem} {place name : String} {config : Config.Index}
    (h : create g place name config (some input) = (.ok i, g')) : i = scan name ∨ config ≠ .scan ∧
      ∃ tables, (tablesFor g name input config).1 = .ok tables ∧ i = covering name input config.properties tables := by
  unfold create at h
  split at h
  · obtain ⟨hi, -⟩ := Prod.mk.inj h
    exact .inl (Except.ok.inj hi).symm
  · contradiction
  · rename_i hscan hfound
    obtain rfl := Option.some.inj hfound
    split at h
    · cases (Prod.mk.inj h).1
    · obtain ⟨tables, htables, rfl⟩ := ok_of_map (Prod.mk.inj h).1
      exact .inr ⟨hscan, tables, htables, rfl⟩

/-- What is found in the tables of an index that has been created is in order. -/
theorem MadeFor.ordered (h : i.MadeFor input) {c : Coverage} (hc : i.coverage = some c) : c.input = input.name ∧
    ∀ property ∈ c.properties, ∀ expected found, c.tables.positions? property expected = .ok found →
      Ascending (found.getD []) := by
  obtain ⟨g, place, config, g', hcreate⟩ := h
  rcases of_create hcreate with hi | ⟨hscan, tables, htables, hi⟩
  · rw [hi] at hc
    cases hc
  · rw [hi] at hc
    obtain rfl : (⟨input.name, config.properties, tables⟩ : Coverage) = c := Option.some.inj hc
    refine ⟨rfl, fun property hproperty expected found hfound => ?_⟩
    have hdescribed {records : List (Position × Record)} (hd : tables.Describes config.properties records) :
        Ascending (found.getD []) := by
      obtain ⟨same, hsame, hasc⟩ := hd.answers hproperty expected
      cases hfound.symm.trans hsame
      exact hasc
    cases config with
    | scan => contradiction
    | exact _ properties =>
      obtain ⟨records, hrecords, rfl⟩ := ok_of_map htables
      have hasc := Input.records_ascending (records_of_allRecords hrecords)
      rw [reached_of_all] at hasc
      exact hdescribed (Tables.describes_exact hasc)
    | substring _ properties ignoreCase =>
      obtain ⟨records, hrecords, rfl⟩ := ok_of_map htables
      exact hdescribed Tables.describes_substring
    | substringFile _ properties ignoreCase path =>
      obtain ⟨file, -, rfl⟩ := ok_of_map htables
      exact Tables.ascending_of_substringFile hfound

/-- An index that yields something for one filter alone has tables which answer it. -/
theorem MadeFor.answers (h : i.MadeFor input) {c : Coverage} (hc : i.coverage = some c) {property : String}
    {expected : Value} {items : List (Except Fault Position)}
    (hyield : i.yield fs input [(property, expected)] = .ok items) :
    property ∈ c.properties ∧ c.tables.Answers property expected := by
  obtain ⟨leaf, hleaf, -⟩ := ok_of_map hyield
  unfold positions at hleaf
  rw [hc] at hleaf
  obtain ⟨⟨⟩, hverify, hfound⟩ := ok_of_bind hleaf
  have hproperty : property ∈ c.properties := by simpa [Fields.names] using (of_verify hverify).2.2
  refine ⟨hproperty, ?_⟩
  obtain ⟨lists, hlists, -⟩ := ok_of_bind hfound
  obtain ⟨found, hfound, -⟩ := ok_of_bind hlists
  exact ⟨found, hfound, (h.ordered hc).2 property hproperty expected found hfound⟩

/-- Looking up one filter alone yields a position. -/
def Finds (fs : FileSystem) (input : Input) (i : Index) (property : String) (expected : Value) (p : Position) : Prop :=
  ∃ positions : List Position, i.yield fs input [(property, expected)] = .ok (positions.map .ok) ∧ p ∈ positions

/-- What an index yields are the items of its leaf. -/
theorem yield_of_positions {leaf : Leaf} (h : i.positions fs input filters false = .ok leaf) :
    i.yield fs input filters = .ok leaf.items := by
  unfold yield
  rw [h, Except.map, Feed.all_single _ _ Watch.check_never]

theorem finds_of_yield {property : String} {expected : Value} {positions : List Position}
    (h : i.yield fs input [(property, expected)] = .ok (positions.map .ok)) {p : Position} :
    i.Finds fs input property expected p ↔ p ∈ positions := by
  constructor
  · rintro ⟨others, hothers, hp⟩
    obtain rfl : others = positions := all_injective (Except.ok.inj (hothers.symm.trans h))
    exact hp
  · exact fun hp => ⟨positions, h, hp⟩

/-- **An index yields exactly the positions which it yields for each filter alone**, in ascending order. -/
theorem positions_of_made {guarded : Bool} (hrecords : allRecords fs input = .ok records) (hi : i.MadeFor input)
    (hne : filters ≠ [])
    (halone : ∀ filter ∈ filters, ∃ items, i.yield fs input [filter] = .ok items) :
    ∃ leaf, i.positions fs input filters guarded = .ok leaf ∧ leaf.Faultless ∧ Ascending leaf.rest ∧
      ∀ p, p ∈ leaf.rest ↔ ∀ filter ∈ filters, i.Finds fs input filter.1 filter.2 p := by
  cases hc : i.coverage with
  | none =>
    have hitems := records_of_allRecords hrecords
    have hasc : Ascending (records.map Prod.fst) := by
      simpa [reached_of_all] using Input.records_ascending hitems
    have hleaf := items_scan input.name filters guarded records
    have hone : ∀ filter ∈ filters, ∀ p, i.Finds fs input filter.1 filter.2 p ↔
        ∃ r, (p, r) ∈ records ∧ Filters.accept [filter] r = true := by
      intro filter _ p
      rw [finds_of_yield (yield_scan hc (by simp) hrecords)]
      simp
    refine ⟨_, positions_scan hc hne hitems, Leaf.faultless_of_items hleaf, ?_, fun p => ?_⟩
    · rw [Leaf.rest_of_items hleaf]
      exact hasc.sublist (List.filter_sublist.map _)
    · rw [Leaf.rest_of_items hleaf]
      simp only [List.mem_map, List.mem_filter, Prod.exists, exists_and_right, exists_eq_right]
      constructor
      · rintro ⟨r, hr, haccept⟩ filter hfilter
        refine (hone filter hfilter p).2 ⟨r, hr, Filters.accept_iff.2 ?_⟩
        simpa using Filters.accept_iff.1 haccept filter hfilter
      · intro h
        obtain ⟨first, hfirst⟩ := List.exists_mem_of_ne_nil filters hne
        obtain ⟨r, hr, -⟩ := (hone first hfirst p).1 (h first hfirst)
        refine ⟨r, hr, Filters.accept_iff.2 fun filter hfilter => ?_⟩
        obtain ⟨s, hs, haccept⟩ := (hone filter hfilter p).1 (h filter hfilter)
        obtain rfl : r = s := eq_of_position hasc hr hs
        exact Filters.accept_iff.1 haccept filter List.mem_cons_self
  | some c =>
    have hname := (hi.ordered hc).1
    have hanswers : ∀ filter ∈ filters, filter.1 ∈ c.properties ∧ c.tables.Answers filter.1 filter.2 := by
      intro filter hfilter
      obtain ⟨items, hitems⟩ := halone filter hfilter
      exact hi.answers hc hitems
    obtain ⟨found, hfound, hasc, hmem⟩ := @positions_of_answers fs i input filters guarded c hc hname
      (fun filter hfilter => (hanswers filter hfilter).2) hne (List.forall_mem_map.2 fun f hf => (hanswers f hf).1)
    have hitems := Leaf.items_ofPositions found
    refine ⟨_, hfound, Leaf.faultless_of_items hitems, ?_, fun p => ?_⟩
    · rwa [Leaf.rest_of_items hitems]
    · rw [Leaf.rest_of_items hitems, hmem]
      refine forall₂_congr fun filter hfilter => ?_
      obtain ⟨hproperty, hanswer⟩ := hanswers filter hfilter
      obtain ⟨alone, halone, -, honly⟩ := @positions_of_answers fs i input [filter] false c hc hname
        (List.forall_mem_singleton.2 hanswer) (by simp) (by simpa [Fields.names] using hproperty)
      rw [finds_of_yield (yield_of_positions halone), honly, List.forall_mem_singleton]

/-- The properties of filters that are looked up are handled. -/
theorem handled_of_positions {guarded : Bool} {leaf : Leaf} (h : i.positions fs input filters guarded = .ok leaf) :
    ∀ property ∈ filters.names, i.handlesProperty property = true := by
  unfold handlesProperty
  cases hc : i.coverage with
  | none => simp
  | some c =>
    unfold positions at h
    rw [hc] at h
    obtain ⟨⟨⟩, hverify, -⟩ := ok_of_bind h
    simpa using (of_verify hverify).2.2

end Index

namespace Condition

variable {fs : FileSystem} {input : Input} {records : List (Position × Record)} {c d : Condition} {p : Position}

/-- What the index of a condition yields for this condition alone. -/
def alone (fs : FileSystem) (input : Input) (c : Condition) : Except Fault (List (Except Fault Position)) :=
  c.index.yield fs input [(c.property, c.expected)]

/-- A position is among those which a condition yields alone. -/
def Finds (fs : FileSystem) (input : Input) (c : Condition) (p : Position) : Prop :=
  c.index.Finds fs input c.property c.expected p

/-- Two conditions yield the same alone, or both of them are refused. -/
def Equivalent (fs : FileSystem) (input : Input) (c d : Condition) : Prop :=
  (c.alone fs input).toOption = (d.alone fs input).toOption

theorem finds_iff : c.Finds fs input p ↔
    ∃ positions : List Position, (c.alone fs input).toOption = some (positions.map .ok) ∧ p ∈ positions := by
  refine exists_congr fun positions => and_congr_left fun _ => ?_
  unfold alone
  cases c.index.yield fs input [(c.property, c.expected)] <;> simp [Except.toOption]

theorem Equivalent.finds (h : c.Equivalent fs input d) : c.Finds fs input p ↔ d.Finds fs input p := by
  rw [finds_iff, finds_iff, h]

/-- A condition can be looked up alone, unless it is refused because its property is not handled. -/
def Settled (fs : FileSystem) (input : Input) (c : Condition) : Prop :=
  c.index.handlesProperty c.property = true → ∃ items, c.alone fs input = .ok items

/-- Conditions are settled by all indexes whose files, if they have one, are not damaged. -/
theorem settled_of_undamaged (hrecords : Index.allRecords fs input = .ok records) (hc : c.index.MadeFor input)
    (h : ∀ coverage ∈ c.index.coverage, coverage.tables.Undamaged) : c.Settled fs input := by
  intro hhandled
  cases hcoverage : c.index.coverage with
  | none => exact ⟨_, Index.yield_scan hcoverage (by simp) hrecords⟩
  | some coverage =>
    have hproperty : c.property ∈ coverage.properties := by simpa [Index.handlesProperty, hcoverage] using hhandled
    obtain ⟨hname, hordered⟩ := hc.ordered hcoverage
    obtain ⟨found, hfound⟩ := (h coverage hcoverage).found c.property c.expected
    obtain ⟨positions, hpositions, -⟩ := @Index.positions_of_answers fs c.index input [(c.property, c.expected)] false
      coverage hcoverage hname
      (List.forall_mem_singleton.2 ⟨found, hfound, hordered _ hproperty _ _ hfound⟩) (by simp)
      (by simpa [Fields.names] using hproperty)
    exact ⟨_, Index.yield_of_positions hpositions⟩

/-- A settled condition on a property that is handled yields ascending positions alone. -/
theorem Settled.alone (h : c.Settled fs input) (hrecords : Index.allRecords fs input = .ok records)
    (hc : c.index.MadeFor input) (hhandled : c.index.handlesProperty c.property = true) :
    ∃ positions : List Position, c.alone fs input = .ok (positions.map .ok) ∧ Ascending positions := by
  obtain ⟨leaf, hleaf, hfaultless, hasc, -⟩ := @Index.positions_of_made fs c.index input
    [(c.property, c.expected)] records false hrecords hc (by simp) (List.forall_mem_singleton.2 (h hhandled))
  exact ⟨leaf.rest, hfaultless ▸ Index.yield_of_positions hleaf, hasc⟩

/-- A condition that yields anything alone is on a property that is handled. -/
theorem handled_of_alone {items : List (Except Fault Position)} (h : c.alone fs input = .ok items) :
    c.index.handlesProperty c.property = true := by
  obtain ⟨leaf, hleaf, -⟩ := ok_of_map h
  simpa [Fields.names] using Index.handled_of_positions hleaf

/-- A condition that is equivalent to one on a property that is handled is on such a property, too. -/
theorem Equivalent.handled (h : c.Equivalent fs input d) (hc : c.Settled fs input)
    (hhandled : c.index.handlesProperty c.property = true) : d.index.handlesProperty d.property = true := by
  obtain ⟨items, halone⟩ := hc hhandled
  unfold Equivalent at h
  rw [halone] at h
  cases hd : d.alone fs input with
  | error fault => simp [hd, Except.toOption] at h
  | ok items => exact handled_of_alone hd

end Condition

/-! ## Queries -/

namespace Query

variable {fs : FileSystem} {input : Input} {guarded : Bool} {w : Watch} {records : List (Position × Record)}
  {conditions : List Condition}

/-- What executing a query yields if it is pulled up to the end. -/
def yield (fs : FileSystem) (q : Query) (input : Input) (guarded : Bool) (w : Watch) :
    Except Fault (List (Except Fault Position)) :=
  (q.execute fs input guarded).map fun feed => feed.all w

/-- Conditions which differ in their property or in the name of their index. -/
structure Distinct (conditions : List Condition) : Prop where
  consistent : Consistent conditions
  pairwise : conditions.Pairwise fun earlier later => ¬later.Displaces earlier

theorem index_addTo {i : Index} {property : String} {expected : Value} : ∀ {groups : List (Index × Filters)},
    ∀ group ∈ addTo i property expected groups, group.1 = i ∨ ∃ old ∈ groups, group.1 = old.1
  | [], group, hgroup => .inl (congrArg Prod.fst (List.mem_singleton.1 hgroup))
  | first :: groups, group, hgroup => by
    unfold addTo at hgroup
    split at hgroup
    · rcases List.mem_cons.1 hgroup with rfl | hgroup
      · exact .inr ⟨first, List.mem_cons_self, rfl⟩
      · exact .inr ⟨group, List.mem_cons_of_mem _ hgroup, rfl⟩
    · rcases List.mem_cons.1 hgroup with rfl | hgroup
      · exact .inr ⟨group, List.mem_cons_self, rfl⟩
      · rcases index_addTo group hgroup with rfl | ⟨old, hold, heq⟩
        · exact .inl rfl
        · exact .inr ⟨old, List.mem_cons_of_mem _ hold, heq⟩

/-- The groups of a query have filters, and their indexes are those of its conditions. -/
theorem groups_ofConditions (conditions : List Condition) : ∀ group ∈ (ofConditions conditions).groups,
    group.2 ≠ [] ∧ ∃ c ∈ conditions, group.1 = c.index := by
  induction conditions using List.reverseRecOn with
  | nil => simp [ofConditions, all]
  | append_singleton conditions last ih =>
    have hq : ofConditions (conditions ++ [last]) =
        (ofConditions conditions).filter last.index last.property last.expected := by
      simp [ofConditions]
    rw [hq]
    intro group hgroup
    refine ⟨filled_addTo _ _ _ (fun old hold => (ih old hold).1) group hgroup, ?_⟩
    rcases index_addTo group hgroup with hlast | ⟨old, hold, heq⟩
    · exact ⟨last, by simp, hlast⟩
    · obtain ⟨c, hc, hold⟩ := (ih old hold).2
      exact ⟨c, List.mem_append_left _ hc, heq.trans hold⟩

/-- A query for at least one condition has groups. -/
theorem groups_ne_nil (hne : conditions ≠ []) : (ofConditions conditions).groups ≠ [] := by
  obtain ⟨before, last, heq⟩ := (List.eq_nil_or_concat conditions).resolve_left hne
  have hgroups : (ofConditions (before ++ [last])).groups =
      addTo last.index last.property last.expected (ofConditions before).groups := by
    simp [ofConditions, filter]
  rw [heq, List.concat_eq_append, hgroups]
  unfold addTo
  split
  · simp
  · split <;> simp

/-- A query for an input has groups, with filters and with indexes that have been created for the input, and each of
its conditions can be looked up alone unless it is refused. -/
structure MadeFor (fs : FileSystem) (input : Input) (q : Query) : Prop where
  groups : q.groups ≠ []
  filled : ∀ group ∈ q.groups, group.2 ≠ []
  indexes : ∀ group ∈ q.groups, group.1.MadeFor input
  settled : ∀ c, Stored q.groups c → c.Settled fs input

theorem madeFor_ofConditions (hne : conditions ≠ []) (hmade : ∀ c ∈ conditions, c.index.MadeFor input)
    (hsettled : ∀ c, Stored (ofConditions conditions).groups c → c.Settled fs input) :
    (ofConditions conditions).MadeFor fs input := by
  refine ⟨groups_ne_nil hne, fun group hgroup => (groups_ofConditions conditions group hgroup).1, ?_, hsettled⟩
  intro group hgroup
  obtain ⟨-, c, hc, hindex⟩ := groups_ofConditions conditions group hgroup
  exact hindex ▸ hmade c hc

theorem MadeFor.stored {q : Query} (hq : q.MadeFor fs input) {c : Condition} (hc : Stored q.groups c) :
    c.index.MadeFor input := by
  obtain ⟨filters, hgroup, -⟩ := hc
  exact hq.indexes _ hgroup

/-- **A query whose properties are all handled yields exactly the positions which each of its conditions yields
alone**, in ascending order. -/
theorem yield_of_handled (hrecords : Index.allRecords fs input = .ok records) {q : Query} (hq : q.MadeFor fs input)
    (hhandled : ∀ c, Stored q.groups c → c.index.handlesProperty c.property = true) (guarded : Bool)
    (hw : w.Undisturbed) :
    ∃ m, q.yield fs input guarded w = .ok (m.map .ok) ∧ Ascending m ∧
      ∀ p, p ∈ m ↔ ∀ c, Stored q.groups c → c.Finds fs input p := by
  have hfound : ∀ group ∈ q.groups, ∃ leaf, group.1.positions fs input group.2 guarded = .ok leaf ∧
      leaf.Faultless ∧ Ascending leaf.rest ∧
      ∀ p, p ∈ leaf.rest ↔ ∀ filter ∈ group.2, group.1.Finds fs input filter.1 filter.2 p := by
    intro group hgroup
    refine Index.positions_of_made hrecords (hq.indexes group hgroup) (hq.filled group hgroup) ?_
    exact (forall_stored (P := fun i property expected =>
      ∃ items, i.yield fs input [(property, expected)] = .ok items)).1
      (fun c hc => hq.settled c hc (hhandled c hc)) group hgroup
  cases hleaves : q.leaves fs input guarded with
  | error fault =>
    obtain ⟨group, hgroup, hfault⟩ := error_of_mapM hleaves
    obtain ⟨leaf, hleaf, -⟩ := hfound group hgroup
    cases hfault.symm.trans hleaf
  | ok leaves =>
    obtain ⟨hleaf, hgroup⟩ := mem_of_mapM hleaves
    have hspec : ∀ group leaf, group ∈ q.groups → group.1.positions fs input group.2 guarded = .ok leaf →
        leaf.Faultless ∧ Ascending leaf.rest ∧
        ∀ p, p ∈ leaf.rest ↔ ∀ filter ∈ group.2, group.1.Finds fs input filter.1 filter.2 p := by
      intro group leaf hmem hok
      obtain ⟨same, hsame, hspec⟩ := hfound group hmem
      cases hok.symm.trans hsame
      exact hspec
    have hne : leaves ≠ [] := by
      rintro rfl
      exact hq.groups (List.forall₂_nil_right_iff.1 (ok_of_mapM hleaves))
    obtain ⟨m, hm⟩ := @Strand.exists_common (leaves.map Leaf.rest) (by simpa using hne)
      (List.forall_mem_map.2 fun leaf hmem => by
        obtain ⟨group, hin, hok⟩ := hleaf leaf hmem
        exact (hspec group leaf hin hok).2.1)
    refine ⟨m, ?_, hm.ascending, fun p => ?_⟩
    · unfold yield
      rw [execute_groups hq.groups, hleaves]
      refine congrArg Except.ok (Feed.all_ofLeaves hne hm (fun leaf hmem => ?_) hw)
      obtain ⟨group, hin, hok⟩ := hleaf leaf hmem
      exact (hspec group leaf hin hok).1
    · rw [hm.mem, List.forall_mem_map]
      refine Iff.trans ?_ (forall_stored (P := fun i property expected => i.Finds fs input property expected p)).symm
      constructor
      · intro hall group hin
        obtain ⟨leaf, hmem, hok⟩ := hgroup group hin
        exact ((hspec group leaf hin hok).2.2 p).1 (hall leaf hmem)
      · intro hall leaf hmem
        obtain ⟨group, hin, hok⟩ := hleaf leaf hmem
        exact ((hspec group leaf hin hok).2.2 p).2 (hall group hin)

/-- The properties of a query that is not refused are all handled. -/
theorem handled_of_yield {q : Query} (hq : q.MadeFor fs input) {items : List (Except Fault Position)}
    (h : q.yield fs input guarded w = .ok items) :
    ∀ c, Stored q.groups c → c.index.handlesProperty c.property = true := by
  obtain ⟨feed, hfeed, -⟩ := ok_of_map h
  rw [execute_groups hq.groups] at hfeed
  obtain ⟨leaves, hleaves, -⟩ := ok_of_map hfeed
  refine (forall_stored (P := fun i property _ => i.handlesProperty property = true)).2 fun group hgroup => ?_
  obtain ⟨leaf, -, hleaf⟩ := (mem_of_mapM hleaves).2 group hgroup
  exact List.forall_mem_map.1 (Index.handled_of_positions hleaf)

/-- Queries whose conditions are equivalent yield the same. -/
theorem yield_of_equivalent (hrecords : Index.allRecords fs input = .ok records) {q r : Query} (hq : q.MadeFor fs input)
    (hr : r.MadeFor fs input) (hqr : ∀ c, Stored q.groups c → ∃ d, Stored r.groups d ∧ c.Equivalent fs input d)
    (hrq : ∀ d, Stored r.groups d → ∃ c, Stored q.groups c ∧ c.Equivalent fs input d) (hw : w.Undisturbed)
    {items : List (Except Fault Position)} (h : q.yield fs input guarded w = .ok items) :
    r.yield fs input guarded w = .ok items := by
  have hhandled := handled_of_yield hq h
  obtain ⟨m, hm, hmasc, hmem⟩ := yield_of_handled hrecords hq hhandled guarded hw
  obtain ⟨n, hn, hnasc, hnmem⟩ := yield_of_handled hrecords hr (fun d hd => by
    obtain ⟨c, hc, hcd⟩ := hrq d hd
    exact hcd.handled (hq.settled c hc) (hhandled c hc)) guarded hw
  have hsame : m = n := hmasc.eq_of_mem_iff hnasc fun p => by
    rw [hmem, hnmem]
    constructor
    · intro hall d hd
      obtain ⟨c, hc, hcd⟩ := hrq d hd
      exact hcd.finds.1 (hall c hc)
    · intro hall c hc
      obtain ⟨d, hd, hcd⟩ := hqr c hc
      exact hcd.finds.2 (hall d hd)
  rw [← Except.ok.inj (hm.symm.trans h), hn, hsame]

/-- All conditions which are distinct are stored. -/
theorem Distinct.stored (h : Distinct conditions) {c : Condition} :
    Stored (ofConditions conditions).groups c ↔ c ∈ conditions :=
  ((holds_ofConditions h.consistent).stored c).trans ⟨Kept.mem, kept_of_pairwise h.pairwise⟩

/-- **Filters compose.** A query for indexes of an input yields exactly the positions which each condition that is
stored yields alone, in ascending order, unless one of these is refused because its property is not indexed. So distinct
conditions can be arranged in any other order, and looked up by any other indexes that answer each of them alike. -/
theorem filters_compose (hrecords : Index.allRecords fs input = .ok records) (hne : conditions ≠ [])
    (hmade : ∀ c ∈ conditions, c.index.MadeFor input)
    (hsettled : ∀ c, Stored (ofConditions conditions).groups c → c.Settled fs input) (guarded : Bool)
    (hw : w.Undisturbed) :
    ((∃ m, (ofConditions conditions).yield fs input guarded w = .ok (m.map .ok) ∧ Ascending m ∧
        (∀ c, Stored (ofConditions conditions).groups c →
          ∃ positions : List Position, c.alone fs input = .ok (positions.map .ok) ∧ Ascending positions) ∧
        ∀ p, p ∈ m ↔ ∀ c, Stored (ofConditions conditions).groups c → c.Finds fs input p) ∨
      (∃ fault, (ofConditions conditions).yield fs input guarded w = .error fault) ∧
        ∃ c, Stored (ofConditions conditions).groups c ∧ c.index.handlesProperty c.property = false ∧
          ∃ fault, c.alone fs input = .error fault) ∧
    ∀ others arranged : List Condition, (∀ d ∈ others, d.index.MadeFor input ∧ d.Settled fs input) →
      Distinct conditions → Distinct others →
      List.Forall₂ (Condition.Equivalent fs input) conditions arranged → arranged.Perm others →
      ((ofConditions conditions).yield fs input guarded w).toOption =
        ((ofConditions others).yield fs input guarded w).toOption := by
  have hq := madeFor_ofConditions hne hmade hsettled
  refine ⟨?_, ?_⟩
  · by_cases hhandled : ∀ c, Stored (ofConditions conditions).groups c → c.index.handlesProperty c.property = true
    · obtain ⟨m, hm, hasc, hmem⟩ := yield_of_handled hrecords hq hhandled guarded hw
      exact .inl ⟨m, hm, hasc, fun c hc => (hsettled c hc).alone hrecords (hq.stored hc) (hhandled c hc), hmem⟩
    · obtain ⟨c, hc, hrefused⟩ : ∃ c, Stored (ofConditions conditions).groups c ∧
          ¬c.index.handlesProperty c.property = true := by
        simpa using hhandled
      refine .inr ⟨?_, c, hc, Bool.eq_false_iff.2 hrefused, ?_⟩
      · cases hyield : (ofConditions conditions).yield fs input guarded w with
        | error fault => exact ⟨fault, rfl⟩
        | ok items => exact absurd (handled_of_yield hq hyield c hc) hrefused
      · cases halone : c.alone fs input with
        | error fault => exact ⟨fault, rfl⟩
        | ok items => exact absurd (Condition.handled_of_alone halone) hrefused
  · intro others arranged hothers hdistinct hdistinct' hequivalent hperm
    have hne' : others ≠ [] := by
      rintro rfl
      rw [hperm.eq_nil] at hequivalent
      exact hne (List.forall₂_nil_right_iff.1 hequivalent)
    have hr := madeFor_ofConditions hne' (fun d hd => (hothers d hd).1)
      fun d hd => (hothers d (hdistinct'.stored.1 hd)).2
    have hqr : ∀ c, Stored (ofConditions conditions).groups c →
        ∃ d, Stored (ofConditions others).groups d ∧ c.Equivalent fs input d := by
      intro c hc
      obtain ⟨d, hd, hcd⟩ := mem_of_forall₂ hequivalent.flip c (hdistinct.stored.1 hc)
      exact ⟨d, hdistinct'.stored.2 (hperm.mem_iff.1 hd), hcd⟩
    have hrq : ∀ d, Stored (ofConditions others).groups d →
        ∃ c, Stored (ofConditions conditions).groups c ∧ c.Equivalent fs input d := by
      intro d hd
      obtain ⟨c, hc, hcd⟩ := mem_of_forall₂ hequivalent d (hperm.mem_iff.2 (hdistinct'.stored.1 hd))
      exact ⟨c, hdistinct.stored.2 hc, hcd⟩
    have hforth := @yield_of_equivalent fs input guarded w records hrecords _ _ hq hr hqr hrq hw
    have hback := @yield_of_equivalent fs input guarded w records hrecords _ _ hr hq
      (fun d hd => by
        obtain ⟨c, hc, hcd⟩ := hrq d hd
        exact ⟨c, hc, hcd.symm⟩)
      (fun c hc => by
        obtain ⟨d, hd, hcd⟩ := hqr c hc
        exact ⟨d, hd, hcd.symm⟩) hw
    cases hyield : (ofConditions conditions).yield fs input guarded w with
    | ok items => rw [hforth hyield]
    | error fault =>
      cases hyield' : (ofConditions others).yield fs input guarded w with
      | ok items => cases (hback hyield').symm.trans hyield
      | error other => rfl

/-! ## Four indexes of one input -/

/-- Two filters of the tagged objects, by scanning and by a substring index. -/
def taggedConditions : List Condition :=
  [⟨.scan "default", "tags", .integer 2⟩,
    ⟨.covering "substring" Index.taggedInput ["tags"]
      (.substring true [("tags", Trie.ofKeys (keysOf true Index.taggedRecords "tags"))]), "tags", .string "ÄB"⟩]

/-- The same filters the other way round, by an index file and by an exact index. -/
def taggedOthers : List Condition :=
  [⟨.covering "file" Index.taggedInput ["tags"] (.substringFile true ["tags"] Index.taggedFile), "tags", .string "ÄB"⟩,
    ⟨.covering "exact" Index.taggedInput ["tags"]
      (.exact [("tags", Postings.ofKeys (keysOf false Index.taggedRecords "tags"))]), "tags", .string "2"⟩]

/-- The index file of the tagged objects is not damaged. -/
theorem undamaged_taggedFile : ∀ r ∈ Index.taggedFile.regions, ¬r.Reversed := by
  obtain ⟨hcurrent, -⟩ | ⟨-, hbuilt⟩ := Index.openFile_cases Index.openFile_tagged
  · have hnone : Index.current? Index.tagged Index.taggedInput ["tags"] true "tags.idx" = .ok none := by cbv
    cases hnone.symm.trans hcurrent
  · exact Index.not_reversed_of_build hbuilt Index.roomFor_tagged.size

/-- All records of the tagged objects can be read next to their index file. -/
theorem allRecords_taggedWithFile : Index.allRecords Index.taggedWithFile Index.taggedInput =
    .ok Index.taggedRecords := by
  cbv

set_option maxRecDepth 4000 in
/-- These indexes have been created for the tagged objects. -/
theorem created_tagged : ∀ c ∈ taggedConditions ++ taggedOthers, c.index.MadeFor Index.taggedInput := by
  have hfile : Index.create Index.tagged "" "file" (.substringFile "tags" ["tags"] true "tags.idx")
      (some Index.taggedInput) = (.ok (.covering "file" Index.taggedInput ["tags"]
        (.substringFile true ["tags"] Index.taggedFile)), Index.taggedWithFile) := by
    unfold Index.create Index.tablesFor
    simp only
    rw [Index.openFile_tagged]
    rfl
  simp only [taggedConditions, taggedOthers, List.cons_append, List.nil_append, List.forall_mem_cons,
    List.not_mem_nil, false_implies, implies_true, and_true]
  exact ⟨⟨Index.tagged, "", .scan, Index.tagged, rfl⟩,
    ⟨Index.tagged, "", .substring "tags" ["tags"] true, Index.tagged, by cbv⟩,
    ⟨Index.tagged, "", _, Index.taggedWithFile, hfile⟩,
    ⟨Index.tagged, "", .exact "tags" ["tags"], Index.tagged, by cbv⟩⟩

/-- All of them can be looked up. -/
theorem settled_tagged : ∀ c ∈ taggedConditions ++ taggedOthers,
    c.Settled Index.taggedWithFile Index.taggedInput := by
  refine fun c hc => Condition.settled_of_undamaged allRecords_taggedWithFile (created_tagged c hc) ?_
  revert c
  simp only [taggedConditions, taggedOthers, List.cons_append, List.nil_append, List.forall_mem_cons,
    List.not_mem_nil, false_implies, implies_true, and_true]
  refine ⟨nofun, ?_, ?_, ?_⟩ <;> rintro _ ⟨⟩
  · trivial
  · exact undamaged_taggedFile
  · trivial

/-- Two filters of indexes of different names are distinct. -/
theorem distinct_pair {a b : Condition} (h : a.index.name ≠ b.index.name) : Distinct [a, b] where
  consistent := by
    simp only [Consistent, List.mem_cons, List.not_mem_nil, or_false]
    rintro _ (rfl | rfl) _ (rfl | rfl) hname
    · rfl
    · exact absurd hname h
    · exact absurd hname.symm h
    · rfl
  pairwise := by simpa [Condition.Displaces] using fun hname => absurd hname.symm h

set_option maxRecDepth 4000 in
/-- Both queries yield the first object to a client who stays. -/
theorem filters_compose_tagged :
    (∃ m, (ofConditions taggedConditions).yield Index.taggedWithFile Index.taggedInput true (.ofCheck fun _ => false) =
        .ok (m.map .ok) ∧ Ascending m ∧
      ∀ p, p ∈ m ↔ ∀ c, Stored (ofConditions taggedConditions).groups c →
        c.Finds Index.taggedWithFile Index.taggedInput p) ∧
    (ofConditions taggedOthers).yield Index.taggedWithFile Index.taggedInput true (.ofCheck fun _ => false) =
      .ok [.ok 0] := by
  have hyield : (ofConditions taggedConditions).yield Index.taggedWithFile Index.taggedInput true
      (.ofCheck fun _ => false) = .ok [.ok 0] := by
    cbv
  have hundisturbed : (Watch.ofCheck fun _ => false).Undisturbed := by
    rintro _ ⟨⟩ n
    rfl
  obtain ⟨hmade, hothers⟩ := List.forall_mem_append.1 created_tagged
  obtain ⟨hsettled, hothersSettled⟩ := List.forall_mem_append.1 settled_tagged
  have hdistinct : Distinct taggedConditions := distinct_pair (by decide)
  obtain ⟨hcompose, hsame⟩ := filters_compose allRecords_taggedWithFile
    (show taggedConditions ≠ [] from List.cons_ne_nil _ _) hmade (fun c hc => hsettled c (hdistinct.stored.1 hc)) true
    hundisturbed
  constructor
  · rcases hcompose with ⟨m, hm, hasc, -, hmem⟩ | ⟨⟨fault, hfault⟩, -⟩
    · exact ⟨m, hm, hasc, hmem⟩
    · cases hyield.symm.trans hfault
  · have hequivalent : List.Forall₂ (Condition.Equivalent Index.taggedWithFile Index.taggedInput) taggedConditions
        taggedOthers.reverse := by
      refine .cons ?_ (.cons ?_ .nil) <;> (unfold Condition.Equivalent; cbv)
    have h := hsame taggedOthers taggedOthers.reverse (fun d hd => ⟨hothers d hd, hothersSettled d hd⟩) hdistinct
      (distinct_pair (by decide)) hequivalent (List.reverse_perm _)
    rw [hyield] at h
    cases hothers : (ofConditions taggedOthers).yield Index.taggedWithFile Index.taggedInput true
        (.ofCheck fun _ => false) with
    | error fault => rw [hothers] at h; cases h
    | ok items =>
      rw [hothers] at h
      cases h
      rfl

end Query

end RecordServer
