import RecordServer.Proofs.Contract
import RecordServer.Proofs.Index.Damage
import RecordServer.Proofs.Relation.Matching

/-!
# What is delivered as a single record

A request for a single record that nobody cancels is refused if a value in its path cannot be parsed
(`Output.handle_misread`). Otherwise the handler finds the positions which are selected and goes on with the first of
them (`Output.run_handle`): there is none, or the record at it is loaded and written, or loading it fails. In this way
the request is answered (`Output.Answers`), since nothing is written before the record has been loaded.

For the outputs of a site this takes index files which have been built or are up to date in any case, as it does for
lists, and scans which report no error (`Site.single_answered`).
-/

namespace RecordServer

variable {fs fs' : FileSystem} {config : Config} {site : Site} {name : String} {o : Output} {route : Route}
  {request : Request}

namespace Output

open Handler

/-- A value cannot be parsed. -/
def Misread (o : Output) (request : Request) : Prop :=
  ∃ s ∈ o.supplied request, ∃ fault, o.input.parsers.parse s.1.parser s.2 = .error fault

/-- Scanning for a request reports no error: neither going through all positions, if no value is supplied, nor reading
all records, if one of the indexes scans. -/
structure Scannable (o : Output) (fs : FileSystem) (request : Request) : Prop where
  positions : o.supplied request = [] → ∃ positions : List Position, o.input.positions fs = .ok (positions.map .ok)
  records : ∀ s ∈ o.supplied request, s.1.index.coverage = none →
    ∃ records, Index.allRecords fs o.input = .ok records

/-- The record at a position cannot be loaded with its related records, even if nobody cancels. -/
def Fails (o : Output) (fs : FileSystem) (p : Position) (fault : Fault) : Prop :=
  ∃ s, (o.loadRecord p).run (.new fs .never) = (.error fault, s)

/-- How a request for a single record is answered that selects some positions: nothing is found if there are none;
otherwise it is the record at the first of them, or the reason why this cannot be loaded, if it is one to report. -/
structure Answers (o : Output) (fs : FileSystem) (describe : External → String) (request : Request)
    (reported : Fault → Prop) (m : List Position) (d : Dispatched) : Prop where
  missing : m = [] → d.Reports describe (.ofMissing (.noMatch request.path)) 404
  found : ∀ p r, m.head? = some p → o.Loads fs [p] [r] → d.Succeeds ∧ d.sink.body = r.json
  failed : ∀ p fault, m.head? = some p → o.Fails fs p fault → reported fault →
    d.Reports describe (.ofFault fault) 500
  missed : d.sink.status? = some 404 → m = []

/-! ## Conditions -/

/-- There are conditions unless a value cannot be parsed. -/
theorem misread_or_conditions (o : Output) (request : Request) :
    (o.Misread request ∧ ∃ failure, o.conditions request = .error failure) ∨
      ¬o.Misread request ∧ ∃ conditions, o.conditions request = .ok conditions := by
  cases h : o.conditions request with
  | error failure =>
    refine .inl ⟨?_, failure, rfl⟩
    obtain ⟨s, hs, hread⟩ := error_of_mapM h
    unfold Binding.read at hread
    split at hread
    · cases hread
    · rename_i fault hparse
      exact ⟨s, hs, fault, hparse⟩
  | ok conditions =>
    refine .inr ⟨?_, conditions, rfl⟩
    rintro ⟨s, hs, fault, hfault⟩
    obtain ⟨value, hvalue⟩ := parses_of_conditions h s hs
    cases hfault.symm.trans hvalue

/-- So the query for its conditions scans without an error. -/
theorem Scannable.query {conditions : List Condition} (h : o.Scannable fs request)
    (hconditions : o.conditions request = .ok conditions) : Query.Scannable fs o.input conditions := by
  constructor
  · rintro rfl
    exact h.positions (List.forall₂_nil_right_iff.1 (ok_of_mapM hconditions))
  · intro c hc hscan
    obtain ⟨s, hs, hsame⟩ := index_of_condition hconditions hc
    exact h.records s hs (hsame ▸ hscan)

/-- Nothing is scanned for a value by indexes that cover an input. -/
theorem scannable_of_covered (hne : o.supplied request ≠ []) (h : ∀ b ∈ o.bindings, b.index.coverage ≠ none) :
    o.Scannable fs request :=
  ⟨fun hempty => absurd hempty hne, fun s hs hscan => absurd hscan (h s.1 (binding_of_supplied hs))⟩

/-- The value of the only parameter can be parsed. -/
theorem not_misread {s : Binding × String} (hsupplied : o.supplied request = [s])
    (hparse : ∃ value, o.input.parsers.parse s.1.parser s.2 = .ok value) : ¬o.Misread request := by
  rintro ⟨t, ht, fault, hfault⟩
  obtain ⟨value, hvalue⟩ := hparse
  rw [hsupplied, List.mem_singleton] at ht
  cases ht
  cases hfault.symm.trans hvalue

/-! ## Handling -/

/-- What is done with the first of the positions, if there is one. -/
def answerFirst (o : Output) (request : Request) : Option Position → Handler Unit
  | none => Handler.fail (.ofMissing (.noMatch request.path))
  | some p => do
    let r ← within (o.loadRecord p)
    Handler.write (Json.print r.toValue)

/-- A request for a single record is handled for the values in its path. -/
theorem handle_single {values : List (List Char)} (hdelivery : o.delivery = .single route)
    (hmatch : route.match? request.path.toList = some values) : o.handle request = (do
      let query ← lift ((o.conditions request).map Query.ofConditions)
      let feed ← within (Session.execute query o.input)
      match ← within (Session.pull feed) with
      | (none, _) => o.answerFirst request none
      | (some (.error fault), _) => Handler.fail (.ofFault fault)
      | (some (.ok position), _) => o.answerFirst request (some position)) := by
  rw [← applyCaptured_single hdelivery hmatch]
  unfold handle handleSingle
  rw [hdelivery]
  simp only [hmatch]
  rfl

/-- **A request with a value that cannot be parsed fails at once**: the handler leaves the exchange as it is. -/
theorem handle_misread (hdelivery : o.delivery = .single route) (haccepts : o.accepts request.path = true)
    (h : o.Misread request) :
    ∃ failure, Refusal failure ∧ ∀ x, (o.handle request).run x = (.error failure, x) := by
  rcases o.misread_or_conditions request with ⟨-, failure, hconditions⟩ | ⟨hread, -⟩
  · simp only [accepts, hdelivery] at haccepts
    obtain ⟨values, hmatch⟩ := Option.isSome_iff_exists.1 haccepts
    refine ⟨failure, refusal_conditions hconditions, fun x => ?_⟩
    rw [handle_single hdelivery hmatch, hconditions]
    exact run_bind_error rfl
  · exact absurd h hread

/-- **A request that nobody cancels is handled by what is done with the first of the positions which match.** -/
theorem run_handle {conditions : List Condition} (hdelivery : o.delivery = .single route)
    (haccepts : o.accepts request.path = true) (hconditions : o.conditions request = .ok conditions)
    (hc : Query.Consistent conditions) (hanswered : ∀ c ∈ conditions, c.Answered fs o.input)
    (hscannable : o.Scannable fs request) {x : Exchange} (hfiles : x.session.files = fs)
    (hw : x.session.watch.Undisturbed) :
    ∃ m v, o.Lists fs request m ∧ v.Undisturbed ∧ (o.handle request).run x =
      (o.answerFirst request m.head?).run { x with session := { x.session with watch := v } } := by
  simp only [accepts, hdelivery] at haccepts
  obtain ⟨values, hmatch⟩ := Option.isSome_iff_exists.1 haccepts
  obtain ⟨strand, m, hexecute, hfaultless, hserves, hasc, hmatches⟩ :=
    @Query.execute_matches fs o.input x.session.watch.guards conditions hc hanswered (hscannable.query hconditions)
  obtain ⟨more, v, hnext, -, -, hv⟩ :=
    @Feed.next_undisturbed x.session.watch m x.session.watch.guards strand hfaultless hserves hw
  refine ⟨m, v, ⟨hasc, fun p => (hmatches p).trans (matches_iff_selects hconditions)⟩, hv, ?_⟩
  have hfeed : (Session.execute (Query.ofConditions conditions) o.input).run x.session =
      (.ok (.ofStrand strand x.session.watch.guards), x.session) := by
    rw [← hexecute, ← hfiles]
    rfl
  have hpull : (Session.pull (.ofStrand strand x.session.watch.guards)).run x.session =
      (.ok (m.head?.map .ok, .ofStrand more x.session.watch.guards), { x.session with watch := v }) := by
    have hrun (feed : Feed) : (Session.pull feed).run x.session = (.ok ((feed.next x.session.watch).1,
        (feed.next x.session.watch).2.1), { x.session with watch := (feed.next x.session.watch).2.2 }) := rfl
    rw [hrun, hnext]
  rw [handle_single hdelivery hmatch, hconditions]
  refine (run_bind_ok rfl).trans ((run_bind_ok (run_within_ok hfeed)).trans
    ((run_bind_ok (run_within_ok hpull)).trans ?_))
  cases m.head? <;> rfl

/-! ## The first record -/

theorem loads_singleton {p : Position} {r : Record} :
    o.Loads fs [p] [r] ↔ ∃ s, (o.loadRecord p).run (.new fs .never) = (.ok r, s) := by
  unfold Loads
  rw [List.mapM_cons, List.mapM_nil]
  constructor
  · rintro ⟨s, h⟩
    obtain ⟨first, t, hfirst, h⟩ := ok_of_run_bind h
    obtain ⟨rest, u, hrest, h⟩ := ok_of_run_bind h
    cases h
    exact ⟨t, hfirst⟩
  · rintro ⟨s, h⟩
    exact ⟨s, (run_bind_ok h).trans rfl⟩

/-- A record can be loaded or it cannot. -/
theorem loads_or_fails (o : Output) (fs : FileSystem) (p : Position) :
    (∃ r, o.Loads fs [p] [r]) ∨ ∃ fault, o.Fails fs p fault := by
  rcases h : (o.loadRecord p).run (.new fs .never) with ⟨fault | r, s⟩
  · exact .inr ⟨fault, s, h⟩
  · exact .inl ⟨r, loads_singleton.2 ⟨s, h⟩⟩

/-- Loading a record that nobody cancels comes to the same as without a check. -/
theorem run_loadRecord {s t : Session} (hs : s.Alike (.new fs .never)) (hw : s.watch.Undisturbed) {p : Position}
    {outcome : Except Fault Record} (h : (o.loadRecord p).run (.new fs .never) = (outcome, t)) :
    ∃ u, (o.loadRecord p).run s = (outcome, u) := by
  have hagrees := @steady_loadRecord (fun _ => False) o p s _ hs (.inr hw)
  rcases hrun : (o.loadRecord p).run s with ⟨fault | r, u⟩
  · rw [hrun] at hagrees
    obtain hgone | ⟨v, hsame⟩ := hagrees
    · cases hgone
    · cases h.symm.trans hsame
      exact ⟨u, rfl⟩
  · rw [hrun] at hagrees
    obtain ⟨r', v, hsame, rfl, -⟩ := hagrees
    cases h.symm.trans hsame
    exact ⟨u, rfl⟩

/-- A record that can be loaded is written. -/
theorem run_answerFirst_ok {x : Exchange} (hx : x.session.Alike (.new fs .never)) (hw : x.session.watch.Undisturbed)
    (hreply : x.reply.Holds "") {p : Position} {r : Record} (h : o.Loads fs [p] [r]) :
    ∃ y, (o.answerFirst request (some p)).run x = (.ok (), y) ∧ y.reply.Holds r.json := by
  obtain ⟨t, ht⟩ := loads_singleton.1 h
  obtain ⟨u, hload⟩ := run_loadRecord hx hw ht
  obtain ⟨reply, hwrite, hholds⟩ := @run_write "" { x with session := u } hreply r.json
  rw [String.empty_append] at hholds
  exact ⟨_, (run_bind_ok (run_within_ok hload)).trans hwrite, hholds⟩

/-- If a record cannot be loaded, nothing is written. -/
theorem run_answerFirst_error {x : Exchange} (hx : x.session.Alike (.new fs .never))
    (hw : x.session.watch.Undisturbed) {p : Position} {fault : Fault} (h : o.Fails fs p fault) :
    ∃ y, (o.answerFirst request (some p)).run x = (.error (.ofFault fault), y) ∧ y.reply = x.reply := by
  obtain ⟨t, ht⟩ := h
  obtain ⟨u, hload⟩ := run_loadRecord hx hw ht
  exact ⟨{ x with session := u }, run_bind_error (run_within_error hload), rfl⟩

theorem status_ofFault (fault : Fault) : (Failure.ofFault fault).blame.status = 500 := by
  unfold Failure.ofFault
  split <;> rfl

/-- **A request for a single record is answered** with the record at the first of the positions which it selects. -/
theorem answers {conditions : List Condition} (hdelivery : o.delivery = .single route)
    (haccepts : o.accepts request.path = true) (hconditions : o.conditions request = .ok conditions)
    (hc : Query.Consistent conditions) (hanswered : ∀ c ∈ conditions, c.Answered fs o.input)
    (hscannable : o.Scannable fs request) (describe : External → String) {watch : Watch} (hw : watch.Undisturbed) :
    ∃ m, o.Lists fs request m ∧ o.Answers fs describe request (fun fault => fault.isFatal = false) m
      (o.dispatch describe fs request watch .willing) := by
  obtain ⟨m, v, hlists, hv, hrun⟩ := run_handle hdelivery haccepts hconditions hc hanswered hscannable
    (x := ⟨.new fs watch, .ofSink .willing⟩) rfl hw
  refine ⟨m, hlists, ?_⟩
  cases m with
  | nil =>
    obtain ⟨-, hreports⟩ := @dispatch_fails o request describe fs watch _ _ _ hrun rfl rfl
    exact ⟨fun _ => hreports, nofun, nofun, fun _ => rfl⟩
  | cons p more =>
    have halike : Session.Alike ⟨fs, [], v⟩ (.new fs .never) := ⟨rfl, rfl, rfl⟩
    have hfound (r : Record) (h : o.Loads fs [p] [r]) :
        (o.dispatch describe fs request watch .willing).Succeeds ∧
          (o.dispatch describe fs request watch .willing).sink.body = r.json := by
      obtain ⟨y, hanswer, hreply⟩ :=
        run_answerFirst_ok (x := ⟨⟨fs, [], v⟩, .ofSink .willing⟩) halike hv Reply.holds_ofSink h
      exact dispatch_completes (hrun.trans hanswer) hreply rfl
    have hfailed (fault : Fault) (h : o.Fails fs p fault) :
        if fault.isFatal then (o.dispatch describe fs request watch .willing).sink.status? = none
        else (o.dispatch describe fs request watch .willing).Reports describe (.ofFault fault) 500 := by
      obtain ⟨y, hanswer, hreply⟩ := run_answerFirst_error (x := ⟨⟨fs, [], v⟩, .ofSink .willing⟩) halike hv h
      obtain ⟨-, hreports⟩ := @dispatch_fails o request describe fs watch _ _ _ (hrun.trans hanswer) hreply rfl
      rw [status_ofFault] at hreports
      exact hreports
    refine ⟨nofun, fun q r hq hr => ?_, fun q fault hq hfault hharmless => ?_, fun hstatus => ?_⟩
    · obtain rfl := Option.some.inj hq
      exact hfound r hr
    · obtain rfl := Option.some.inj hq
      exact (if_neg (ne_true_of_eq_false hharmless)).mp (hfailed fault hfault)
    · exfalso
      rcases o.loads_or_fails fs p with ⟨r, hr⟩ | ⟨fault, hfault⟩
      · cases (hfound r hr).1.status.symm.trans hstatus
      · have hreports := hfailed fault hfault
        split at hreports
        · cases hreports.symm.trans hstatus
        · cases hreports.status.symm.trans hstatus

end Output

namespace Site

open Output

/-- The indexes of the conditions of a request can be asked. -/
theorem answered (h : ofConfig fs config = (.ok site, fs')) (ho : (name, o) ∈ site.outputs)
    (hspared : Path.location o.input.path ∉ config.writes)
    (hfiles : ∀ s ∈ o.supplied request, s.1.index.InFile →
      config.Builds fs o.input s.1.index.name ∨ s.1.index.Current fs' o.input)
    {conditions : List Condition} (hconditions : o.conditions request = .ok conditions) :
    Query.Consistent conditions ∧ ∀ c ∈ conditions, c.Answered fs' o.input := by
  obtain ⟨hconsistent, hcurrent⟩ := answerable h ho hspared hfiles conditions hconditions
  obtain ⟨-, place, name, created, hcreate⟩ := created_of_mem h ho
  obtain ⟨-, hindexed, -⟩ := of_create hcreate
  refine ⟨hconsistent, fun c hc => ?_⟩
  obtain ⟨s, hs, hread⟩ := (mem_of_mapM hconditions).1 c hc
  obtain ⟨hindex, hproperty, -⟩ := of_read hread
  obtain ⟨-, -, hinput, hhandles⟩ := hindexed s.1 (binding_of_supplied hs)
  exact ⟨hcurrent c hc, hindex ▸ hinput, by rw [hindex, hproperty]; exact hhandles⟩

/-- **A single record is delivered if it is the first which is asked for, and what goes wrong is reported instead.** -/
theorem single_answered (hsite : ofConfig fs config = (.ok site, fs')) (ho : (name, o) ∈ site.outputs)
    (hdelivery : o.delivery = .single route) (describe : External → String) (request : Request)
    (haccepts : o.accepts request.path = true) (watch : Watch) (hw : watch.Undisturbed) :
    (o.Misread request → ∃ failure, failure.blame = .client ∧
      (∀ x, (o.handle request).run x = (.error failure, x)) ∧
      (o.dispatch describe fs' request watch .willing).watch = watch ∧
      (o.dispatch describe fs' request watch .willing).Reports describe failure 400) ∧
    (¬o.Misread request → Path.location o.input.path ∉ config.writes →
      (∀ s ∈ o.supplied request, s.1.index.InFile →
        config.Builds fs o.input s.1.index.name ∨ s.1.index.Current fs' o.input) →
      o.Scannable fs' request →
      ∃ m, o.Lists fs' request m ∧
        o.Answers fs' describe request (fun fault => fault.isFatal = false) m
          (o.dispatch describe fs' request watch .willing)) := by
  constructor
  · intro hmisread
    obtain ⟨failure, hrefusal, hrun⟩ := handle_misread hdelivery haccepts hmisread
    obtain ⟨houtcome, hwatch, hstatus, haborted, hbody⟩ :=
      @dispatch_refusal o request describe fs' watch _ _ hrefusal hrun rfl
    exact ⟨failure, hrefusal.1, hrun, hwatch, houtcome, hstatus, haborted, hbody⟩
  · intro hread hspared hfiles hscannable
    rcases o.misread_or_conditions request with ⟨hmisread, -⟩ | ⟨-, conditions, hconditions⟩
    · exact absurd hmisread hread
    · obtain ⟨hconsistent, hanswered⟩ := answered hsite ho hspared hfiles hconditions
      exact answers hdelivery haccepts hconditions hconsistent hanswered hscannable describe hw

end Site

/-! ## A single table -/

/-- A file with two rows. -/
def FileSystem.twoRows : FileSystem := ⟨[(⟨false, ["v.csv"]⟩, ⟨[55, 10, 56, 10], 0⟩)], [], 1⟩

/-- A configuration with this table and the record that has a number in its cell, to which it belongs itself. -/
def Config.twoRows : Config where
  sources := [("files", ⟨""⟩)]
  parsers := []
  inputs := [("v", ⟨"files", "v.csv", false, .csv ⟨false, 87, [⟨"cell", "string", none, none⟩]⟩⟩)]
  indexes := [("exact", .exact "v" ["cell"])]
  outputs := [("row", ⟨"/row/?", "v", .single, [⟨"cell", "cell", "exact", "integer"⟩],
    [.mk "same" "v" true 0 [] [⟨"cell", "cell", Config.defaultIndex⟩] []]⟩)]
  services := []

/-- The single record of this configuration. -/
def Output.twoRows : Output :=
  let input : Input := ⟨"v", "v.csv", false, 2, ⟨Parsers.builtIn⟩, .table false 87 [⟨"cell", ⟨"string", .string none⟩⟩]⟩
  let exact : Index := .covering "exact" input ["cell"] (.exact [("cell", Postings.ofKeys [("7", 0), ("8", 2)])])
  ⟨"row", "/row/?", input, .single (.ofEndpoint "/row/?" [(Format.integer "").shape]),
    [⟨"cell", "cell", exact, ⟨"integer", .integer ""⟩⟩],
    [.mk "same" input true 0 [] [⟨"cell", "cell", .scan Config.defaultIndex⟩] []]⟩

namespace Site

open Output

/-- The site of this configuration. -/
def twoRows : Site where
  catalog :=
    { parsers := ⟨Parsers.builtIn⟩
      inputs := [("v", Output.twoRows.input)]
      indexes := (Config.defaultIndex, .scan Config.defaultIndex) ::
        Output.twoRows.bindings.map fun b => (b.index.name, b.index) }
  outputs := [("row", Output.twoRows)]

theorem ofConfig_twoRows : ofConfig .twoRows .twoRows = (.ok twoRows, .twoRows) := by
  unfold ofConfig Catalog.ofConfig Catalog.openFiles
  rw [show Config.twoRows.parsers = [] from rfl, Parsers.ofDeclarations_alone (by decide)]
  cbv

theorem single_answered_twoRows :
    (∃ m, Output.twoRows.Lists .twoRows ⟨"/row/8", []⟩ m ∧
      Output.twoRows.Answers .twoRows (fun _ => "") ⟨"/row/8", []⟩ (fun fault => fault.isFatal = false) m
        (Output.twoRows.dispatch (fun _ => "") .twoRows ⟨"/row/8", []⟩ .never .willing)) ∧
    (Output.twoRows.dispatch (fun _ => "") .twoRows ⟨"/row/99999999999999999999", []⟩ .never .willing).sink.status? =
      some 400 := by
  have h (request : Request) (haccepts : Output.twoRows.accepts request.path = true) :=
    single_answered ofConfig_twoRows List.mem_cons_self rfl (fun _ => "") request haccepts .never
      Watch.undisturbed_never
  constructor
  · have hsupplied : Output.twoRows.supplied ⟨"/row/8", []⟩ = Output.twoRows.bindings.map fun b => (b, "8") := by cbv
    refine (h _ (by cbv)).2 ?_ List.not_mem_nil ?_ ?_
    · exact not_misread hsupplied ⟨.integer 8, by cbv⟩
    · intro s hs hfile
      rw [hsupplied] at hs
      obtain rfl := List.mem_singleton.1 hs
      obtain ⟨c, hc, hin⟩ := hfile
      cases hc
      exact absurd trivial hin
    · refine scannable_of_covered ?_ (List.forall_mem_singleton.2 (Option.some_ne_none _))
      rw [hsupplied]
      exact List.cons_ne_nil _ _
  · have hsupplied : Output.twoRows.supplied ⟨"/row/99999999999999999999", []⟩ =
        Output.twoRows.bindings.map fun b => (b, "99999999999999999999") := by cbv
    have hmisread : Output.twoRows.Misread ⟨"/row/99999999999999999999", []⟩ := by
      refine ⟨_, by rw [hsupplied]; exact List.mem_cons_self, Cause.notInteger "99999999999999999999", ?_⟩
      cbv
    obtain ⟨failure, -, -, -, hreports⟩ := (h _ (by cbv)).1 hmisread
    exact hreports.status

/-- The record at the second position, to which only itself belongs. -/
example : (Output.twoRows.dispatch (fun _ => "") .twoRows ⟨"/row/8", []⟩ .never .willing).summary =
    (.ok (), some 200, none, "\x7b\"cell\":\"8\",\"same\":[\x7b\"cell\":\"8\"\x7d]\x7d") := by
  cbv

end Site

/-! ## Two tables -/

/-- The configuration with two tables and a single record of the second one in place of the list. -/
def Config.oneRow (indexes : List (String × Config.Index)) (relationships : List Config.Relationship) : Config :=
  { Config.twoTables indexes "second" with
    outputs := [("row", ⟨"/row/?", "v", .single, [⟨"cell", "cell", "second", "string"⟩], relationships⟩)] }

/-- The single record with the index by which it is found. -/
def Output.oneRow (i : Index) (relations : List Relation) : Output :=
  ⟨"row", "/row/?", .ofTable "v", .single (.ofEndpoint "/row/?" [(Format.string none).shape]),
    [⟨"cell", "cell", i, ⟨"string", .string none⟩⟩], relations⟩

/-- The request for a row with a letter. -/
def Request.forRow (letter : String) : Request := ⟨"/row/" ++ letter, []⟩

/-- The index of the first table with a damaged file. -/
def Index.damaged : Index := .covering "first" (.ofTable "u") ["cell"] (.substringFile false ["cell"] reversedFile)

/-- A relationship with the first table by this index. -/
def Relation.damaged : Relation :=
  .mk "related" (.ofTable "u") true 0 [] [⟨"cell", "cell", .damaged⟩] []

namespace Site

open Output

/-- The site with some indexes, of which one is used. -/
def oneRow (indexes : List Index) (used : Index) (relations : List Relation) : Site :=
  { ofIndexes indexes used with outputs := [("row", .oneRow used relations)] }

theorem ofConfig_oneRow_shared : ofConfig .twoTables (.oneRow [("first", .substringFile "u" ["cell"] false "cells"),
    ("second", .substringFile "v" ["cell"] false "cells")] []) =
    (.ok (oneRow [.ofLetter "first" "u" "p", .ofLetter "second" "v" "p"] (.ofLetter "second" "v" "p") []),
      .withLetter "cells" "p") := by
  unfold ofConfig Catalog.ofConfig Catalog.openFiles
  rw [show (Config.oneRow _ _).parsers = [] from rfl, Parsers.ofDeclarations_alone (by decide)]
  cbv

theorem ofConfig_oneRow_overwritten : ofConfig .twoTables (.oneRow [("second", .exact "v" ["cell"]),
    ("first", .substringFile "u" ["cell"] false "v.csv")] []) =
    (.ok (oneRow [.ofRow "second", .ofLetter "first" "u" "p"] (.ofRow "second") []), .withLetter "v.csv" "p") := by
  unfold ofConfig Catalog.ofConfig Catalog.openFiles
  rw [show (Config.oneRow _ _).parsers = [] from rfl, Parsers.ofDeclarations_alone (by decide)]
  cbv

theorem ofConfig_oneRow_damaged : ofConfig (.withBytes Index.reversedFile.data)
    (.oneRow [("first", .substringFile "u" ["cell"] false "cells"), ("second", .exact "v" ["cell"])]
      [.mk "related" "u" true 0 [] [⟨"cell", "cell", "first"⟩] []]) =
    (.ok (oneRow [.damaged, .ofRow "second"] (.ofRow "second") [.damaged]),
      .withBytes Index.reversedFile.data) := by
  unfold ofConfig Catalog.ofConfig Catalog.openFiles
  rw [show (Config.oneRow _ _).parsers = [] from rfl, Parsers.ofDeclarations_alone (by decide)]
  cbv

/-- A request for a single record of the site of a configuration is not answered as it should be, although its values
can be parsed and nothing has to be scanned. -/
def Misanswers (fs : FileSystem) (config : Config) : Prop :=
  ∃ site fs' name o route request m, ofConfig fs config = (.ok site, fs') ∧ (name, o) ∈ site.outputs ∧
    o.delivery = .single route ∧ o.accepts request.path = true ∧ ¬o.Misread request ∧ o.Scannable fs' request ∧
    o.Lists fs' request m ∧ ¬o.Answers fs' (fun _ => "") request (fun _ => True) m
      (o.dispatch (fun _ => "") fs' request .never .willing)

/-- A request for a row supplies the letter, if this can stand in the path. -/
theorem supplied_oneRow (i : Index) (relations : List Relation) {letter : String}
    (h : (Route.ofEndpoint "/row/?" [(Format.string none).shape]).match? (Request.forRow letter).path.toList =
      some [letter.toList]) :
    (Output.oneRow i relations).accepts (Request.forRow letter).path = true ∧
      (Output.oneRow i relations).supplied (.forRow letter) =
        [(⟨"cell", "cell", i, ⟨"string", .string none⟩⟩, letter)] := by
  constructor
  · simp [accepts, Output.oneRow, h]
  · simp [supplied, Output.oneRow, h]

/-- A site is wrong if it answers so a request for a row with a letter. -/
theorem misanswers_of_forRow {i : Index} {relations : List Relation} {letter : String} {m : List Position}
    (hsite : ofConfig fs config = (.ok site, fs')) (ho : ("row", .oneRow i relations) ∈ site.outputs)
    (hi : i.coverage ≠ none)
    (h : (Route.ofEndpoint "/row/?" [(Format.string none).shape]).match? (Request.forRow letter).path.toList =
      some [letter.toList])
    (hlists : (Output.oneRow i relations).Lists fs' (.forRow letter) m)
    (hanswers : ¬(Output.oneRow i relations).Answers fs' (fun _ => "") (.forRow letter) (fun _ => True) m
      ((Output.oneRow i relations).dispatch (fun _ => "") fs' (.forRow letter) .never .willing)) :
    Misanswers fs config := by
  obtain ⟨haccepts, hsupplied⟩ := supplied_oneRow i relations h
  refine ⟨site, fs', "row", .oneRow i relations, _, .forRow letter, m, hsite, ho, rfl, haccepts, ?_, ?_, hlists,
    hanswers⟩
  · exact not_misread hsupplied ⟨.string (String.ofList letter.toList), rfl⟩
  · exact scannable_of_covered (by simp [hsupplied]) (List.forall_mem_singleton.2 hi)

/-- If there is no response, the first record cannot be loaded. -/
theorem fails_of_unanswered {describe : External → String} {reported : Fault → Prop} {m : List Position}
    {d : Dispatched} (h : o.Answers fs describe request reported m d) (hstatus : d.sink.status? = none) :
    ∃ p fault, m.head? = some p ∧ o.Fails fs p fault := by
  cases m with
  | nil => cases (h.missing rfl).status.symm.trans hstatus
  | cons p more =>
    rcases o.loads_or_fails fs p with ⟨r, hr⟩ | ⟨fault, hfault⟩
    · cases (h.found p r rfl hr).1.status.symm.trans hstatus
    · exact ⟨p, fault, rfl, hfault⟩

/-- A site is wrong if it finds a row with a letter although no record is accepted. -/
theorem misanswers_of_found {i : Index} {relations : List Relation} {letter : String} {items : List Loaded}
    (hsite : ofConfig fs config = (.ok site, fs')) (ho : ("row", .oneRow i relations) ∈ site.outputs)
    (hi : i.coverage ≠ none)
    (h : (Route.ofEndpoint "/row/?" [(Format.string none).shape]).match? (Request.forRow letter).path.toList =
      some [letter.toList])
    (hitems : (Input.ofTable "v").records fs' = .ok items)
    (hnone : ∀ a ∈ reached items, ¬(Output.oneRow i relations).Accepts
      (⟨"cell", "cell", i, ⟨"string", .string none⟩⟩, letter) a.2)
    (hstatus : ((Output.oneRow i relations).dispatch (fun _ => "") fs' (.forRow letter) .never
      .willing).sink.status? = some 200) :
    Misanswers fs config := by
  obtain ⟨-, hsupplied⟩ := supplied_oneRow i relations h
  have hnothing := not_selects (o := .oneRow i relations) ⟨[], [], hsupplied, by simp⟩ hitems hnone
  refine misanswers_of_forRow (m := []) hsite ho hi h ?_ fun hanswers => ?_
  · exact ⟨List.Pairwise.nil, fun p => ⟨nofun, fun hselects => absurd hselects (hnothing p)⟩⟩
  · cases (hanswers.missing rfl).status.symm.trans hstatus

set_option maxRecDepth 2000 in
/-- **Index files have to be up to date, must not be written over the file of the input, and must not be damaged**: an
index answers from a file which has been written for other records, one in memory does not notice that the records are
gone, and there is no response if related records are looked up in a damaged file. -/
theorem single_answered_needs_files :
    Misanswers .twoTables (.oneRow [("first", .substringFile "u" ["cell"] false "cells"),
      ("second", .substringFile "v" ["cell"] false "cells")] []) ∧
    Misanswers .twoTables (.oneRow [("second", .exact "v" ["cell"]),
      ("first", .substringFile "u" ["cell"] false "v.csv")] []) ∧
    Misanswers (.withBytes Index.reversedFile.data)
      (.oneRow [("first", .substringFile "u" ["cell"] false "cells"), ("second", .exact "v" ["cell"])]
        [.mk "related" "u" true 0 [] [⟨"cell", "cell", "first"⟩] []]) := by
  refine ⟨?_, ?_, ?_⟩
  · have hsummary : ((Output.oneRow (.ofLetter "second" "v" "p") []).dispatch (fun _ => "") (.withLetter "cells" "p")
        (.forRow "p") .never .willing).summary = (.ok (), some 200, none, "\x7b\"cell\":\"q\"\x7d") := by
      cbv
    have hrecords : (Input.ofTable "v").records (.withLetter "cells" "p") =
        .ok [.ok (0, ⟨[("cell", .string "q")]⟩)] := by
      cbv
    refine misanswers_of_found ofConfig_oneRow_shared List.mem_cons_self (Option.some_ne_none _) (by cbv)
      hrecords ?_ (Dispatched.succeeds_of_summary hsummary).1.status
    rintro a ha ⟨value, hparse, found, hfound, key, hkey, own, hown, -, hcontains⟩
    obtain rfl : a = (0, ⟨[("cell", .string "q")]⟩) := List.mem_singleton.1 ha
    obtain rfl : Value.string "p" = value := Except.ok.inj hparse
    obtain rfl : Value.string "q" = found := Option.some.inj hfound
    obtain rfl : "p" = key := Option.some.inj hkey
    obtain rfl : own = "q" := List.mem_singleton.1 hown
    revert hcontains
    decide
  · have hsummary : ((Output.oneRow (.ofRow "second") []).dispatch (fun _ => "") (.withLetter "v.csv" "p")
        (.forRow "q") .never .willing).summary = (.ok (), some 200, none, "\x7b\"cell\":\"RODS\"\x7d") := by
      cbv
    have hrecords : (Input.ofTable "v").records (.withLetter "v.csv" "p") =
        .ok [.ok (0, ⟨[("cell", .string "RODS")]⟩)] := by
      cbv
    refine misanswers_of_found ofConfig_oneRow_overwritten List.mem_cons_self (Option.some_ne_none _) (by cbv)
      hrecords ?_ (Dispatched.succeeds_of_summary hsummary).1.status
    rintro a ha ⟨value, hparse, found, hfound, key, hkey, hown⟩
    obtain rfl : a = (0, ⟨[("cell", .string "RODS")]⟩) := List.mem_singleton.1 ha
    obtain rfl : Value.string "q" = value := Except.ok.inj hparse
    obtain rfl : Value.string "RODS" = found := Option.some.inj hfound
    obtain rfl : "q" = key := Option.some.inj hkey
    have heq : "q" = "RODS" := List.mem_singleton.1 hown
    revert heq
    decide
  · have hsummary : ((Output.oneRow (.ofRow "second") [.damaged]).dispatch (fun _ => "")
        (.withBytes Index.reversedFile.data) (.forRow "q") .never .willing).summary =
        (.error (.ofFault (Cause.unsearchable "cell")), none, none, "") := by
      cbv
    have hstatus := congrArg (fun summary => summary.2.1) hsummary
    have hmatch : (Route.ofEndpoint "/row/?" [(Format.string none).shape]).match?
        (Request.forRow "q").path.toList = some ["q".toList] := by
      cbv
    obtain ⟨haccepts, hsupplied⟩ := supplied_oneRow (.ofRow "second") [.damaged] hmatch
    have hconditions : (Output.oneRow (.ofRow "second") [.damaged]).conditions (.forRow "q") =
        .ok [⟨.ofRow "second", "cell", .string "q"⟩] := by
      rw [Output.conditions, hsupplied]
      rfl
    -- the exact index is in memory, so that its positions are right
    have hspared : decide (Path.location "v.csv" ∉ Config.writes (.oneRow [("first", .substringFile "u" ["cell"] false
        "cells"), ("second", .exact "v" ["cell"])] [.mk "related" "u" true 0 [] [⟨"cell", "cell", "first"⟩] []])) =
        true := by
      cbv
    have hmemory : ∀ s ∈ (Output.oneRow (.ofRow "second") [.damaged]).supplied (.forRow "q"), ¬s.1.index.InFile := by
      rw [hsupplied]
      rintro s hs ⟨c, hc, hfile⟩
      obtain rfl := List.mem_singleton.1 hs
      cases hc
      exact hfile trivial
    obtain ⟨hconsistent, hanswered⟩ := answered ofConfig_oneRow_damaged List.mem_cons_self
      (of_decide_eq_true hspared) (fun s hs hfile => absurd hfile (hmemory s hs)) hconditions
    obtain ⟨m, hlists, hanswers⟩ := answers rfl haccepts hconditions hconsistent hanswered
      (scannable_of_covered (by simp [hsupplied]) (List.forall_mem_singleton.2 (Option.some_ne_none _))) (fun _ => "")
      Watch.undisturbed_never
    refine misanswers_of_forRow ofConfig_oneRow_damaged List.mem_cons_self (Option.some_ne_none _) hmatch hlists
      fun hanswers => ?_
    obtain ⟨p, fault, hfirst, hfails⟩ := fails_of_unanswered hanswers hstatus
    cases (hanswers.failed p fault hfirst hfails trivial).status.symm.trans hstatus

end Site

end RecordServer
