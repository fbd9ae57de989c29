import RecordServer.Proofs.Contract
import RecordServer.Proofs.Index.Admission
import RecordServer.Proofs.Output.Regime
import RecordServer.Proofs.Relation.Attached

/-!
# What validation prevents

The references of a configuration are checked when its site is made, and the indexes check each query again when they
look it up. The second check never fails (`Site.validation_suffices`): parameters and rules refer to indexes of the
catalog for properties which these have, whatever the request, the files and the records are by then. And a relation
always finds the properties of the records to which it belongs if these are rows of tables or elements of documents.

Relations fit the records to which they belong as soon as they are compiled (`Relation.fits_of_nested`), and parameters
as soon as they are bound (`Output.Indexed`); so no index refuses what is asked of it (`Catalog.admitted`). While a
request is handled, the faults of such queries are tolerated (`Session.Regime.validated`).
-/

namespace RecordServer

/-- A fault which is no refusal of an index, and under a condition no missing property. -/
def Fault.Tolerated (strict : Prop) (fault : Fault) : Prop :=
  fault.cause.isRejection = false ∧ (strict → fault.cause.isMissingProperty = false)

theorem Fault.tolerated_of_unpreventable {fault : Fault} (strict : Prop) (h : fault.cause.isPreventable = false) :
    fault.Tolerated strict := by
  rw [Cause.isPreventable, Bool.or_eq_false_iff] at h
  exact ⟨h.1, fun _ => h.2⟩

/-! ## What refers to a catalog -/

namespace Catalog

variable {c : Catalog} {input : Input}

/-- Indexes which are found under their own names are the same if their names are. -/
theorem consistent (hnames : ∀ e ∈ c.indexes, e.2.name = e.1) {conditions : List Condition}
    (h : ∀ condition ∈ conditions, ∃ name, c.indexes.lookup name = some condition.index) :
    Query.Consistent conditions := by
  intro first hfirst second hsecond hsame
  obtain ⟨name, hname⟩ := h first hfirst
  obtain ⟨other, hother⟩ := h second hsecond
  have hfirstName : first.index.name = name := hnames _ (mem_of_lookup hname)
  have hsecondName : second.index.name = other := hnames _ (mem_of_lookup hother)
  obtain rfl : name = other := hfirstName.symm.trans (hsame.trans hsecondName)
  exact Option.some.inj (hname.symm.trans hother)

/-- No index refuses conditions for which there are indexes in the catalog. -/
theorem admitted (hnames : ∀ e ∈ c.indexes, e.2.name = e.1) {conditions : List Condition}
    (h : ∀ condition ∈ conditions, c.Provides input condition.property condition.index) :
    (Query.ofConditions conditions).Admitted input := by
  refine Query.admitted_ofConditions (consistent hnames fun condition hcondition => ?_) fun condition hcondition => ?_
  · obtain ⟨name, hname, -⟩ := h condition hcondition
    exact ⟨name, hname⟩
  · obtain ⟨-, -, hhandles⟩ := h condition hcondition
    exact hhandles

end Catalog

namespace Relation

variable {c : Catalog} {parent : Input} {place : String}

/-- The query for the children of a parent holds the conditions of the rules. -/
theorem of_queryFor {relation : String} {r : Record} {rules : List Rule} {q : Query}
    (h : queryFor relation r .all rules = .ok q) : q = Query.ofConditions (conditionsFor r rules) := by
  by_cases hpresent : ∀ rule ∈ rules, (r.property? rule.parentProperty).isSome
  · exact Except.ok.inj (h.symm.trans (queryFor_ok relation [] hpresent))
  · obtain ⟨fault, hfault⟩ := queryFor_error relation .all hpresent
    cases h.symm.trans hfault

/-- There is no such query only if the parent lacks a property. -/
theorem missing_of_queryFor (relation : String) (r : Record) : ∀ (rules : List Rule) (q : Query),
    Raises (fun cause => cause.isRejection = false ∧ cause.isMissingProperty = true) (queryFor relation r q rules)
  | [], q => .ok q
  | rule :: rest, q => by
    unfold queryFor
    split
    · exact .error ⟨rfl, rfl⟩
    · exact missing_of_queryFor relation r rest _

/-- No index refuses the query for the children of a parent. -/
theorem Fits.admitted {relation : Relation} (h : Fits c parent relation) (hnames : ∀ e ∈ c.indexes, e.2.name = e.1)
    {r : Record} {q : Query} (hq : queryFor relation.name r .all relation.rules = .ok q) :
    q.Admitted relation.input := by
  rw [of_queryFor hq]
  refine Catalog.admitted hnames fun condition hcondition => ?_
  obtain ⟨rule, hrule, value, -, rfl⟩ := mem_conditionsFor.1 hcondition
  exact h.indexed rule hrule

/-- There is a query for the children of each record of a table or a document. -/
theorem Fits.isSome {relation : Relation} (h : Fits c parent relation) (ht : parent.Tabular) {r : Record}
    (hr : parent.Shows r) : ∀ rule ∈ relation.rules, (r.property? rule.parentProperty).isSome := by
  obtain ⟨offered, hoffered, hnames⟩ := hr
  intro rule hrule
  have hname := hnames _ ((Input.mem_names_of_tabular ht hoffered).2 (h.present rule hrule))
  exact Fields.isSome_of_mem_names hname

end Relation

/-! ## While a request is handled -/

namespace Session

/-- What is wrong with a record that a session loads is a matter of its content. -/
theorem ofContent_loadIn (s : Session) (input : Input) (position : Position) :
    OfContent (s.loadIn input position).1 := by
  unfold loadIn
  simp only
  split
  · rename_i fault hreader
    refine .error ?_
    unfold readerOf at hreader
    split at hreader
    · cases hreader
    · exact input.ofContent_reader s.files fault hreader
  · rename_i reader _
    exact input.ofContent_load reader position

/-- Sessions of queries that no index refuses: the feeds fail in ways which could not have been prevented, and all
faults are tolerated. -/
def Regime.validated (strict : Prop) : Regime where
  calm _ := True
  failed fault _ := fault.Tolerated strict
  sound feed := feed.Admits fun cause => cause.isPreventable = false
  raise _ _ _ h := Fault.tolerated_of_unpreventable strict h
  load input position s _ := by
    have hload := (s.ofContent_loadIn input position).unpreventable
    show Ended _ _ (s.loadIn input position)
    revert hload
    rcases s.loadIn input position with ⟨fault | r, t⟩ <;> intro hload
    · exact Fault.tolerated_of_unpreventable strict (hload fault rfl)
    · trivial
  pull feed hfeed := Session.upholds_pull fun s _ => by
    obtain ⟨hfault, hrest⟩ := @Feed.admits_next (fun cause => cause.isPreventable = false) rfl _ hfeed s.watch
    revert hfault
    rcases (feed.next s.watch).1 with _ | fault | position <;> intro hfault
    · exact ⟨hrest, trivial⟩
    · exact Fault.tolerated_of_unpreventable strict (hfault fault rfl)
    · exact ⟨hrest, trivial⟩
  ask s _ := by
    cases s.watch.ask.1
    · exact .inl ⟨rfl, trivial⟩
    · exact .inr ⟨rfl, rfl, fun _ => rfl⟩

end Session

/-- A query that no index refuses can be executed. -/
theorem Query.Admitted.finds {q : Query} {input : Input} (h : q.Admitted input) (strict : Prop) :
    (Session.Regime.validated strict).Finds q input :=
  Session.Regime.finds_of_execute _ (fun _ _ => (Query.admits_execute h).2) fun _ _ =>
    Session.Regime.leaves_of_unpreventable _ (Query.admits_execute h).1

/-- There is a query for the records of a relation that fits, unless the properties of its parent are not declared. -/
theorem Relation.Fits.suits {c : Catalog} {parent : Input} {relation : Relation} (h : Fits c parent relation)
    (hnames : ∀ e ∈ c.indexes, e.2.name = e.1) {strict : Prop} (ht : strict → parent.Tabular) :
    (Session.Regime.validated strict).Suits parent relation := by
  intro r hr
  refine Session.Regime.upholds_lift _ (fun q hq => (h.admitted hnames hq).finds strict) fun fault hfault _ _ => ?_
  obtain ⟨hrejection, -⟩ := missing_of_queryFor relation.name r relation.rules .all fault hfault
  refine ⟨hrejection, fun hstrict => ?_⟩
  have hok := queryFor_ok relation.name [] (h.isSome (ht hstrict) hr)
  cases hfault.symm.trans hok

/-! ## Requests -/

namespace Output

variable {c : Catalog} {o : Output}

/-- The relations of an output, at any depth, belong to records of tables or documents. -/
def TabularParents (o : Output) : Prop :=
  ∀ parent relation, Relation.Nested o.input o.relations parent relation → parent.Tabular

/-- No index refuses the query of a request. -/
theorem Indexed.admitted (h : Indexed c o.input o.bindings) (hnames : ∀ e ∈ c.indexes, e.2.name = e.1)
    {request : Request} {q : Query} (hq : applyCaptured o.input.parsers .all (o.supplied request) = .ok q) :
    q.Admitted o.input := by
  rw [applyCaptured_eq] at hq
  obtain ⟨conditions, hconditions, rfl⟩ := ok_of_map hq
  refine Catalog.admitted hnames fun condition hcondition => ?_
  obtain ⟨s, hs, hread⟩ := (mem_of_mapM hconditions).1 condition hcondition
  obtain ⟨hindex, hproperty, -⟩ := of_read hread
  rw [hindex, hproperty]
  exact h s.1 (binding_of_supplied hs)

end Output

namespace Site

variable {fs fs' : FileSystem} {config : Config} {site : Site} {name : String} {o : Output}

/-- **What has been validated at the start need not be checked while requests are handled.** No index refuses a query
for the parameters of a request, nor for the rules of a relation at any depth. So a request fails because of its sink,
or with a fault which is not that an index refuses; nor is it that a record lacks a property by which others are found,
as long as the relations of the output belong to records of tables and documents. -/
theorem validation_suffices (hsite : ofConfig fs config = (.ok site, fs')) (ho : (name, o) ∈ site.outputs) :
    (∀ request q, Output.applyCaptured o.input.parsers .all (o.supplied request) = .ok q → q.Admitted o.input) ∧
    (∀ parent relation, Relation.Nested o.input o.relations parent relation → ∀ r q,
      Relation.queryFor relation.name r .all relation.rules = .ok q → q.Admitted relation.input) ∧
    ∀ describe g request watch refuse failure,
      let d := o.dispatch describe g request watch ⟨refuse, []⟩
      d.outcome = .error failure → (∃ call, ⟨call, some failure⟩ ∈ d.sink.account) ∨
        (failure.fault.cause.isRejection = false ∧
          (o.TabularParents → failure.fault.cause.isMissingProperty = false)) := by
  obtain ⟨hcatalog, place, name, created, hcreate⟩ := created_of_mem hsite ho
  obtain ⟨-, -, hindexes⟩ := Catalog.ofConfig_sound hcatalog
  obtain ⟨-, hindexed, hcompile⟩ := Output.of_create hcreate
  -- filters are grouped by the names of indexes, so an index has to be the only one of its name
  have hnames : ∀ e ∈ site.catalog.indexes, e.2.name = e.1 := fun e he => (hindexes e he).name
  have hqueries : ∀ request q, Output.applyCaptured o.input.parsers .all (o.supplied request) = .ok q →
      q.Admitted o.input :=
    fun _ _ => hindexed.admitted hnames
  have hfits (parent : Input) (relation : Relation) (h : Relation.Nested o.input o.relations parent relation) :=
    Relation.fits_of_nested h hcompile
  refine ⟨hqueries, fun parent relation h r q hq => (hfits parent relation h).admitted hnames hq, ?_⟩
  intro describe g request watch refuse failure d hfailure
  rcases Output.stopped_of_dispatch (.validated o.TabularParents) (fun q hq => (hqueries request q hq).finds _)
    (fun parent relation h => (hfits parent relation h).suits hnames fun ht => ht parent relation h) trivial
    (d := d) rfl hfailure with hrefused | hunpreventable | ⟨fault, _, rfl, htolerated⟩
  · exact .inl hrefused
  · exact .inr (Fault.tolerated_of_unpreventable _ hunpreventable)
  · exact .inr htolerated

end Site

/-! ## Two tables -/

/-- The file of the second table alone. -/
def FileSystem.secondTable : FileSystem := ⟨[(⟨false, ["v.csv"]⟩, ⟨[113, 10], 0⟩)], [], 1⟩

/-- A configuration with a list of rows which are filtered by a parameter and related to others, at two levels. -/
def Config.relatedTables : Config where
  __ := Config.twoTables [("second", .exact "v" ["cell"])] "second"
  outputs := [("list", ⟨"/list", "v", .list ⟨1, 10, "limit"⟩ "offset", [⟨"cell", "cell", "second", "string"⟩],
    [.ofTwoTables]⟩)]

/-- Its list. -/
def Output.relatedTables : Output where
  __ := Output.ofIndex (.ofRow "second")
  relations := [.ofTwoTables (.ofRow "second")]

/-- Its site. -/
def Site.relatedTables : Site where
  __ := Site.ofIndexes [.ofRow "second"] (.ofRow "second")
  outputs := [("list", .relatedTables)]

theorem Output.tabularParents_relatedTables : relatedTables.TabularParents := by
  have hrows (name : String) : (Input.ofTable name).Tabular := nofun
  intro parent relation h
  cases h with
  | direct _ => exact hrows "v"
  | deeper mem nested =>
    obtain rfl := List.mem_singleton.1 mem
    cases nested with
    | direct _ => exact hrows "v"
    | deeper mem nested =>
      obtain rfl := List.mem_singleton.1 mem
      cases nested with
      | direct mem => cases mem
      | deeper mem _ => cases mem

namespace Site

theorem ofConfig_relatedTables : ofConfig .twoTables .relatedTables = (.ok relatedTables, .twoTables) := by
  unfold ofConfig Catalog.ofConfig Catalog.openFiles
  rw [show Config.relatedTables.parsers = [] from rfl, Parsers.ofDeclarations_alone (by decide)]
  cbv

/-- The index answers for the parameter and for the relation, and a request for rows with related ones of which the file
is gone fails of nothing else. -/
theorem validation_suffices_related : ofConfig .twoTables .relatedTables = (.ok relatedTables, .twoTables) ∧
    ("list", .relatedTables) ∈ relatedTables.outputs ∧
    (Query.ofConditions [⟨.ofRow "second", "cell", .string "q"⟩]).Admitted Output.relatedTables.input ∧
    (Query.ofConditions [⟨.ofRow "second", "cell", .string "q"⟩]).Admitted
      (Relation.ofTwoTables (.ofRow "second")).input ∧
    ∃ failure, (Output.relatedTables.dispatch (fun _ => "") .secondTable ⟨"/list", [("cell", "q")]⟩ .never
        .willing).outcome = .error failure ∧
      failure.fault.cause.isRejection = false ∧ failure.fault.cause.isMissingProperty = false := by
  have hlist : ("list", .relatedTables) ∈ relatedTables.outputs := List.mem_cons_self
  obtain ⟨hrequest, hrelations, hfailure⟩ := validation_suffices ofConfig_relatedTables hlist
  refine ⟨ofConfig_relatedTables, hlist, hrequest ⟨"/list", [("cell", "q")]⟩ _ (by cbv), ?_, ?_⟩
  · exact hrelations _ _ (.direct List.mem_cons_self) ⟨[("cell", .string "q")]⟩ _ (by cbv)
  · have hhandled : (Output.relatedTables.handled .secondTable ⟨"/list", [("cell", "q")]⟩ .never .willing).1 =
        .error ⟨.server, ⟨[.opening "u.csv"], .external .io⟩⟩ := by
      cbv
    have houtcome := (@Output.outcome_dispatch (fun _ => "") _ _ _ _ _).2 _ hhandled
    refine ⟨_, houtcome, ?_⟩
    rcases hfailure _ _ _ _ _ _ houtcome with ⟨call, hcall⟩ | ⟨hrejection, hmissing⟩
    · cases Output.unrefused_dispatch (fun _ => "") _ .relatedTables _ _ _ hcall
    · exact ⟨hrejection, hmissing Output.tabularParents_relatedTables⟩

end Site

end RecordServer
