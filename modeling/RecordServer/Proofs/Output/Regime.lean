import RecordServer.Proofs.Input.Properties
import RecordServer.Proofs.Output.Account
import RecordServer.Proofs.Output.Rejection
import RecordServer.Proofs.Relation.Compiled

/-!
# How requests go wrong

A `Session.Regime` says when a session is calm and what a fault leaves behind: what loads a record, pulls a feed or asks
the check keeps a session calm, or it fails and leaves what a fault may leave. Then related records, at any depth, are
resolved in such a way (`Relation.upholds_resolveAll`), and a handler ends with an unrefused reply and a calm session,
or it has been stopped (`Handler.Stopped`) by a fault of the session, by the request, or by the sink
(`Output.upholds_handle`). So a request that fails has been refused by its sink, or it fails of this
(`Output.stopped_of_dispatch`).

This takes queries which can be executed (`Session.Regime.Finds`): that of the request, and for each relation those for
the records to which it belongs (`Session.Regime.Suits`).
-/

namespace RecordServer

/-! ## Sessions -/

namespace Session

/-- What has been drawn from a feed: a fault leaves what it may leave, and behind a position the feed is sound. -/
def Drawn (calm : Session → Prop) (failed : Fault → Session → Prop) (sound : Feed → Prop) :
    Pulled Fault × Feed → Session → Prop
  | (some (.error fault), _), s => failed fault s
  | (_, feed), s => sound feed ∧ calm s

/-- A pull ends as the feed does. -/
theorem upholds_pull {calm : Session → Prop} {failed : Fault → Session → Prop} {sound : Feed → Prop} {feed : Feed}
    (h : ∀ s, calm s → Drawn calm failed sound ((feed.next s.watch).1, (feed.next s.watch).2.1)
      { s with watch := (feed.next s.watch).2.2 }) :
    Upholds calm (Session.pull feed) (Drawn calm failed sound) failed := h

/-- What is said of sessions while a request is handled. -/
structure Regime where
  /-- Nothing has gone wrong. -/
  calm : Session → Prop
  /-- What a fault may leave. -/
  failed : Fault → Session → Prop
  /-- A feed that may be pulled. -/
  sound : Feed → Prop
  /-- A fault which cannot be prevented may be raised at any time. -/
  raise : ∀ fault s, calm s → fault.cause.isPreventable = false → failed fault s
  load : ∀ input position, Upholds calm (Session.load input position) (fun _ => calm) failed
  pull : ∀ feed, sound feed → Upholds calm (Session.pull feed) (Drawn calm failed sound) failed
  ask : ∀ s, calm s → (s.watch.ask.1 = false ∧ calm { s with watch := s.watch.ask.2 }) ∨
    (s.watch.ask.1 = true ∧ failed Fault.gone { s with watch := s.watch.ask.2 })

namespace Regime

variable {α : Type} (R : Regime)

/-- A fault may be left whenever the session has been calm. -/
def Leaves (fault : Fault) : Prop := ∀ s, R.calm s → R.failed fault s

theorem leaves_of_unpreventable {a : Except Fault α} (h : Unpreventable a) :
    ∀ fault, a = .error fault → R.Leaves fault :=
  fun fault hfault s hs => R.raise fault s hs (h fault hfault)

/-- A result which does not depend on the session. -/
theorem upholds_lift {a : Except Fault α} {after : α → Prop} (hok : ∀ x, a = .ok x → after x)
    (herror : ∀ fault, a = .error fault → R.Leaves fault) :
    Upholds R.calm (lift a) (fun x s => after x ∧ R.calm s) R.failed := by
  intro s hs
  cases a with
  | ok x => exact ⟨hok x rfl, hs⟩
  | error fault => exact herror fault rfl s hs

/-- A query is executed and yields a sound feed, or fails in an admitted way. -/
def Finds (q : Query) (input : Input) : Prop :=
  Upholds R.calm (execute q input) (fun feed s => R.sound feed ∧ R.calm s) R.failed

theorem finds_of_execute {q : Query} {input : Input}
    (hok : ∀ fs guarded feed, q.execute fs input guarded = .ok feed → R.sound feed)
    (herror : ∀ fs guarded fault, q.execute fs input guarded = .error fault → R.Leaves fault) : R.Finds q input := by
  intro s hs
  show Ended _ _ (q.execute s.files input s.watch.guards, s)
  cases hexecute : q.execute s.files input s.watch.guards with
  | ok feed => exact ⟨hok _ _ feed hexecute, hs⟩
  | error fault => exact herror _ _ fault hexecute s hs

/-- The record that is loaded is one which its input gives. -/
theorem upholds_load (input : Input) (position : Position) :
    Upholds R.calm (Session.load input position) (fun r s => input.Offers r ∧ R.calm s) R.failed := by
  intro s hs
  have hload := R.load input position s hs
  rcases hrun : (Session.load input position).run s with ⟨fault | r, t⟩
  · rwa [hrun] at hload
  · rw [hrun] at hload
    refine ⟨?_, hload⟩
    have hrun : s.loadIn input position = (.ok r, t) := hrun
    unfold loadIn at hrun
    simp only at hrun
    split at hrun
    · cases hrun
    · rename_i reader _
      exact ⟨reader, position, congrArg Prod.fst hrun⟩

end Regime

end Session

/-! ## Related records -/

/-- A record that an input has given, whatever properties have been set since. -/
def Input.Shows (i : Input) (r : Record) : Prop :=
  ∃ offered, i.Offers offered ∧ ∀ name ∈ offered.fields.names, name ∈ r.fields.names

theorem Input.Offers.shows {i : Input} {r : Record} (h : i.Offers r) : i.Shows r := ⟨r, h, fun _ => id⟩

theorem Input.Shows.set {i : Input} {r : Record} (h : i.Shows r) (name : String) (value : Value) :
    i.Shows (r.set name value) := by
  obtain ⟨offered, hoffered, hnames⟩ := h
  exact ⟨offered, hoffered, fun other hother => Fields.mem_names_set.2 (.inl (hnames other hother))⟩

/-- The records of a parent have a query for those which belong to them. -/
def Session.Regime.Suits (R : Regime) (parent : Input) (relation : Relation) : Prop :=
  ∀ r, parent.Shows r → Upholds R.calm (lift (Relation.queryFor relation.name r .all relation.rules))
    (fun q s => R.Finds q relation.input ∧ R.calm s) R.failed

namespace Relation

open Session

variable (R : Regime)

theorem upholds_gather (input : Input) : ∀ (pulls : Nat) (wanted : Option Nat) (feed : Feed), R.sound feed →
    Upholds R.calm (gather input pulls wanted feed) (fun records s => (∀ r ∈ records, input.Offers r) ∧ R.calm s)
      R.failed
  | 0, _, _, _ => upholds_pure fun _ hs => ⟨List.forall_mem_nil _, hs⟩
  | pulls + 1, wanted, feed, hfeed => by
    unfold gather
    refine (R.pull feed hfeed).bind ?_
    rintro ⟨_ | fault | position, rest⟩
    · exact upholds_pure fun _ hs => ⟨List.forall_mem_nil _, hs.2⟩
    · exact fun s hs => hs
    · rintro s ⟨hrest, hs⟩
      have hfound := R.upholds_lift (fun _ _ => trivial) (R.leaves_of_unpreventable (.ok position))
      refine Upholds.bind hfound (fun p => ?_) s hs
      refine Upholds.bind ((R.upholds_load input p).imp (fun _ h => h.2) (fun _ _ => id) fun _ _ => id) fun r => ?_
      split
      · exact upholds_pure fun _ h => ⟨List.forall_mem_singleton.2 h.1, h.2⟩
      · rintro s ⟨hr, hs⟩
        refine Upholds.bind (upholds_gather input pulls _ rest hrest) (fun records => ?_) s hs
        exact upholds_pure fun _ h => ⟨List.forall_mem_cons.2 ⟨hr, h.1⟩, h.2⟩

/-- Sorting and cutting adds no records. -/
theorem mem_of_cut {keys : List Config.SortKey} {found sorted : List Record} {isArray : Bool} {limit : Nat}
    (h : Relation.sorted keys found = .ok sorted) {r : Record} (hr : r ∈ cut isArray limit sorted) : r ∈ found := by
  have hmem : r ∈ sorted := by
    unfold cut at hr
    split at hr
    · exact List.mem_of_mem_take hr
    · split at hr
      · exact hr
      · exact List.mem_of_mem_take hr
  obtain ⟨result, hresult, harranged, -⟩ | ⟨⟨fault, hfault⟩, -⟩ := sorted_cases keys found
  · cases h.symm.trans hresult
    exact harranged.perm.mem_iff.1 hmem
  · cases h.symm.trans hfault

theorem upholds_children {parent : Input} {name : String} {input : Input} (isArray : Bool) (limit : Nat)
    (sort : List Config.SortKey) {rules : List Rule} {relations : List Relation}
    (h : R.Suits parent (mk name input isArray limit sort rules relations)) {r : Record} (hr : parent.Shows r) :
    Upholds R.calm (children name input isArray limit sort rules r)
      (fun records s => (∀ r ∈ records, input.Offers r) ∧ R.calm s) R.failed := by
  unfold children
  refine (h r hr).bind fun q s ⟨hq, hs⟩ => ?_
  refine Upholds.bind hq (fun feed s ⟨hfeed, hs⟩ => ?_) s hs
  refine Upholds.bind (upholds_gather R input _ _ feed hfeed) (fun found s ⟨hfound, hs⟩ => ?_) s hs
  have hkept : ∀ records, sorted sort found = .ok records → ∀ r ∈ cut isArray limit records, input.Offers r :=
    fun records hsorted r hr => hfound r (mem_of_cut hsorted hr)
  have hsorted : Unpreventable (sorted sort found) :=
    (raises_sorted sort found).imp fun _ => Cause.not_preventable_of_order
  refine Upholds.bind (R.upholds_lift hkept (R.leaves_of_unpreventable hsorted)) (fun records => ?_) s hs
  exact upholds_pure fun _ => id

mutual

/-- The value of a relation is resolved, or fails in an admitted way. -/
theorem upholds_resolve : ∀ (relation : Relation) {parent : Input} {r : Record}, parent.Shows r →
    R.Suits parent relation → (∀ i below, Nested relation.input relation.relations i below → R.Suits i below) →
    Upholds R.calm (resolve relation r) (fun _ => R.calm) R.failed
  | mk name input isArray limit sort rules relations, parent, r, hr, hsuits, hbelow => by
    unfold resolve
    refine (upholds_children R isArray limit sort hsuits hr).bind fun found s ⟨hfound, hs⟩ => ?_
    have hall : ∀ child ∈ found, Upholds R.calm (resolveAll relations child) (fun _ => R.calm) R.failed :=
      fun child hchild => upholds_resolveAll relations (hfound child hchild).shows hbelow
    exact (upholds_mapM hall).bind (fun values => upholds_pure (a := valueOf isArray values) fun _ hs => hs) s hs

/-- **So are the values of several relations**, at any depth. -/
theorem upholds_resolveAll : ∀ (relations : List Relation) {parent : Input} {r : Record}, parent.Shows r →
    (∀ i relation, Nested parent relations i relation → R.Suits i relation) →
    Upholds R.calm (resolveAll relations r) (fun _ => R.calm) R.failed
  | [], _, _, _, _ => by
    unfold resolveAll
    exact upholds_pure fun _ => id
  | relation :: rest, parent, r, hr, hsuits => by
    unfold resolveAll
    have hfirst := upholds_resolve relation hr (hsuits _ _ (.direct List.mem_cons_self))
      fun i below hnested => hsuits _ _ (.deeper List.mem_cons_self hnested)
    -- the value may replace a property of the record, but none gets lost
    exact hfirst.bind fun value =>
      upholds_resolveAll rest (hr.set _ value) fun i other hnested => hsuits _ _ hnested.cons

end

end Relation

/-! ## Replies -/

namespace Reply

/-- A sink has refused nothing, or the outcome is one of its refusals. -/
def Told : Outcome → Prop
  | (.ok (), r) => r.sink.Unrefused
  | (.error failure, r) => ∃ c, ⟨c, some failure⟩ ∈ r.sink.account

variable {r : Reply}

theorem told_tell (h : r.sink.Unrefused) (c : Call) : Told (r.tell c) := by
  rw [tell_eq]
  cases hrefusal : r.refusalOf c with
  | none => exact unrefused_noted.2 ⟨rfl, h⟩
  | some failure => exact ⟨c, List.mem_cons_self⟩

theorem told_writeOut (h : r.sink.Unrefused) : Told r.writeOut := by
  unfold writeOut
  split
  · exact h
  · exact told_tell (r := { r with buffer := "" }) h _

theorem told_flush (h : r.sink.Unrefused) : Told r.flush := by
  unfold flush
  split
  · exact told_writeOut h
  · have htell := told_tell (r := { r with committed := true }) h (.commit 200)
    split
    · rename_i hcommitted
      rw [hcommitted] at htell
      exact told_writeOut htell
    · rename_i hrefused
      rwa [hrefused] at htell

theorem told_append (h : r.sink.Unrefused) (text : String) : Told (r.append text) := by
  unfold append
  simp only
  split
  · exact told_flush (r := { r with buffer := r.buffer ++ text }) h
  · exact h

end Reply

/-! ## Handlers -/

/-- Nothing has gone wrong so far. -/
structure Exchange.Fine (R : Session.Regime) (x : Exchange) : Prop where
  session : R.calm x.session
  reply : x.reply.sink.Unrefused

namespace Handler

open Session

variable {α : Type} (R : Regime)

/-- Why a handler has failed, and what it has left. -/
inductive Stopped : Failure → Exchange → Prop
  /-- By a fault of the session. -/
  | fault {fault : Fault} {x : Exchange} (failed : R.failed fault x.session) (reply : x.reply.sink.Unrefused) :
    Stopped (.ofFault fault) x
  /-- Because of the request. -/
  | denied {failure : Failure} {x : Exchange} (fine : x.Fine R)
    (unpreventable : failure.fault.cause.isPreventable = false) : Stopped failure x
  /-- By the sink. -/
  | refused {failure : Failure} {x : Exchange} (calm : R.calm x.session) {c : Call}
    (entry : ⟨c, some failure⟩ ∈ x.reply.sink.account) : Stopped failure x

theorem upholds_within {action : Run α} {after : α → Session → Prop} (h : Upholds R.calm action after R.failed) :
    Upholds (Exchange.Fine R) (within action) (fun a x => after a x.session ∧ x.reply.sink.Unrefused) (Stopped R) := by
  intro x hx
  have hrun := h x.session hx.session
  rw [run_within]
  revert hrun
  rcases action.run x.session with ⟨fault | a, s⟩ <;> intro hrun
  · exact .fault hrun hx.reply
  · exact ⟨hrun, hx.reply⟩

theorem upholds_write (text : String) :
    Upholds (Exchange.Fine R) (write text) (fun _ => Exchange.Fine R) (Stopped R) := by
  intro x hx
  have htold := Reply.told_append hx.reply text
  have hrun : (write text).run x = ((x.reply.append text).1, { x with reply := (x.reply.append text).2 }) := rfl
  rw [hrun]
  revert htold
  rcases x.reply.append text with ⟨failure | _, reply⟩ <;> intro htold
  · obtain ⟨c, hentry⟩ := htold
    exact .refused hx.session hentry
  · exact ⟨hx.session, htold⟩

theorem upholds_checkpoint : Upholds (Exchange.Fine R) checkpoint (fun _ => Exchange.Fine R) (Stopped R) := by
  intro x hx
  have hrun : checkpoint.run x = (if x.session.watch.ask.1 then .error .cancelled else .ok (),
      { x with session := { x.session with watch := x.session.watch.ask.2 } }) := rfl
  rw [hrun]
  rcases R.ask x.session hx.session with ⟨hanswer, hcalm⟩ | ⟨hanswer, hfailed⟩
  · rw [hanswer]
    exact ⟨hcalm, hx.reply⟩
  · rw [hanswer]
    exact @Stopped.fault R Fault.gone _ hfailed hx.reply

/-- What is checked of the request. -/
theorem upholds_check {a : Except Cause α} (h : ∀ cause, a = .error cause → cause.isPreventable = false) :
    Upholds (Exchange.Fine R) (check a) (fun _ => Exchange.Fine R) (Stopped R) := by
  intro x hx
  cases a with
  | error cause => exact @Stopped.denied R (.ofClient cause) _ hx (h cause rfl)
  | ok v => exact hx

theorem upholds_fail {failure : Failure} (h : failure.fault.cause.isPreventable = false) :
    Upholds (Exchange.Fine R) (fail failure : Handler α) (fun _ => Exchange.Fine R) (Stopped R) :=
  fun _ hx => .denied hx h

end Handler

namespace Output

open Session Handler

variable (R : Regime) {o : Output} {request : Request}

/-- The query of a request can be executed. -/
def Asks (R : Regime) (o : Output) (request : Request) : Prop :=
  ∀ q, applyCaptured o.input.parsers .all (o.supplied request) = .ok q → R.Finds q o.input

/-- The queries for all related records can be executed. -/
def Relates (R : Regime) (o : Output) : Prop :=
  ∀ parent relation, Relation.Nested o.input o.relations parent relation → R.Suits parent relation

theorem upholds_loadRecord (h : o.Relates R) (position : Position) :
    Upholds R.calm (o.loadRecord position) (fun _ => R.calm) R.failed :=
  (R.upholds_load o.input position).bind fun _ s ⟨hr, hs⟩ => Relation.upholds_resolveAll R o.relations hr.shows h s hs

theorem upholds_skip : ∀ (n : Nat) (feed : Feed), R.sound feed → Upholds (Exchange.Fine R) (skip n feed)
    (fun feed x => R.sound feed ∧ x.Fine R) (Stopped R)
  | 0, feed, h => upholds_pure fun _ hx => ⟨h, hx⟩
  | n + 1, feed, h => by
    unfold skip
    refine (upholds_within R (R.pull feed h)).bind ?_
    rintro ⟨_ | fault | position, rest⟩ x ⟨hdrawn, hreply⟩
    · exact ⟨hdrawn.1, hdrawn.2, hreply⟩
    · exact .fault hdrawn hreply
    · exact upholds_skip n rest hdrawn.1 x ⟨hdrawn.2, hreply⟩

theorem upholds_writeRecords (h : o.Relates R) : ∀ (n : Nat) (first : Bool) (feed : Feed), R.sound feed →
    Upholds (Exchange.Fine R) (o.writeRecords n first feed) (fun _ => Exchange.Fine R) (Stopped R)
  | 0, _, _, _ => upholds_pure fun _ => id
  | n + 1, first, feed, hfeed => by
    unfold writeRecords
    refine (upholds_within R (R.pull feed hfeed)).bind ?_
    rintro ⟨_ | fault | position, rest⟩ x ⟨hdrawn, hreply⟩
    · exact ⟨hdrawn.2, hreply⟩
    · exact .fault hdrawn hreply
    · refine (upholds_within R (upholds_loadRecord R h position)).bind (fun r x hx => ?_) x ⟨hdrawn.2, hreply⟩
      have hrest : Upholds (Exchange.Fine R) (write (Json.print r.toValue) >>= fun _ => o.writeRecords n false rest)
          (fun _ => Exchange.Fine R) (Stopped R) :=
        (upholds_write R _).bind fun _ => upholds_writeRecords h n false rest hdrawn.1
      cases first with
      | true => exact hrest x ⟨hx.1, hx.2⟩
      | false => exact (upholds_write R ",").bind (fun _ => hrest) x ⟨hx.1, hx.2⟩

/-- The query of a request, or a value that cannot be parsed. -/
theorem upholds_query (h : o.Asks R request) :
    Upholds (Exchange.Fine R) (Handler.lift (applyCaptured o.input.parsers .all (o.supplied request)))
      (fun q x => R.Finds q o.input ∧ x.Fine R) (Stopped R) := by
  intro x hx
  cases hquery : applyCaptured o.input.parsers .all (o.supplied request) with
  | ok q => exact ⟨h q hquery, hx⟩
  | error failure =>
    refine .denied hx ?_
    rw [applyCaptured_eq] at hquery
    cases hconditions : o.conditions request with
    | ok conditions =>
      rw [show ((o.supplied request).mapM fun s => s.1.read o.input.parsers s.2) = .ok conditions from hconditions]
        at hquery
      cases hquery
    | error first =>
      rw [show ((o.supplied request).mapM fun s => s.1.read o.input.parsers s.2) = .error first from hconditions]
        at hquery
      cases hquery
      exact Cause.not_preventable_of_content (error_conditions hconditions).2

/-- **A handler ends well, or it is stopped** by a fault of the session, by the request, or by the sink. -/
theorem upholds_handle (hasks : o.Asks R request) (hrelates : o.Relates R) :
    Upholds (Exchange.Fine R) (o.handle request) (fun _ => Exchange.Fine R) (Stopped R) := by
  unfold handle
  split
  · rename_i limit offsetParameter hdelivery
    unfold handleList
    refine (upholds_check R fun cause h => error_limitOf h ▸ rfl).bind fun count => ?_
    refine (upholds_check R fun cause h => error_offsetOf h ▸ rfl).bind fun offset => ?_
    refine (upholds_check R fun cause h => ?_).bind fun _ => ?_
    · obtain ⟨name, rfl⟩ := error_checkParameters h
      rfl
    have hquery := upholds_query R hasks
    have hsupplied : o.supplied request =
        o.bindings.filterMap fun b => (request.parameter? b.name).map fun raw => (b, raw) := by
      unfold supplied
      rw [hdelivery]
    rw [hsupplied, ← applyBindings_eq] at hquery
    refine hquery.bind fun q x ⟨hq, hx⟩ => ?_
    refine (upholds_within R hq).bind (fun feed x ⟨⟨hfeed, hs⟩, hreply⟩ => ?_) x hx
    refine (upholds_skip R offset feed hfeed).bind (fun feed x ⟨hfeed, hx⟩ => ?_) x ⟨hs, hreply⟩
    refine (upholds_checkpoint R).bind (fun _ => (upholds_write R "[").bind fun _ => ?_) x hx
    exact (upholds_writeRecords R hrelates count true feed hfeed).bind fun _ => upholds_write R "]"
  · rename_i route hdelivery
    unfold handleSingle
    split
    · exact upholds_fail R rfl
    · rename_i values hvalues
      have hquery := upholds_query R hasks
      have hsupplied : o.supplied request = o.bindings.zip (values.map String.ofList) := by
        unfold supplied
        rw [hdelivery]
        simp only [hvalues, Option.map_some, Option.getD_some]
      rw [hsupplied] at hquery
      refine hquery.bind fun q x ⟨hq, hx⟩ => ?_
      refine (upholds_within R hq).bind (fun feed x ⟨⟨hfeed, hs⟩, hreply⟩ => ?_) x hx
      refine (upholds_within R (R.pull feed hfeed)).bind ?_ x ⟨hs, hreply⟩
      rintro ⟨_ | fault | position, rest⟩ x ⟨hdrawn, hreply⟩
      · exact upholds_fail R rfl x ⟨hdrawn.2, hreply⟩
      · exact .fault hdrawn hreply
      · refine (upholds_within R (upholds_loadRecord R hrelates position)).bind (fun r x hx => ?_) x
          ⟨hdrawn.2, hreply⟩
        exact upholds_write R _ x ⟨hx.1, hx.2⟩

/-- A request that fails has been refused by its sink, or else it fails as its handler has been stopped. -/
theorem stopped_of_dispatch (hasks : o.Asks R request) (hrelates : o.Relates R) {describe : External → String}
    {fs : FileSystem} {watch : Watch} (hcalm : R.calm (.new fs watch))
    {refuse : List Entry → Call → Option Failure} {d : Dispatched}
    (hd : o.dispatch describe fs request watch ⟨refuse, []⟩ = d) {failure : Failure}
    (hfailure : d.outcome = .error failure) : (∃ call, ⟨call, some failure⟩ ∈ d.sink.account) ∨
      failure.fault.cause.isPreventable = false ∨ ∃ fault s, failure = .ofFault fault ∧ R.failed fault s := by
  have hhandle := upholds_handle R hasks hrelates ⟨.new fs watch, .ofSink ⟨refuse, []⟩⟩
    ⟨hcalm, fun _ h => absurd h List.not_mem_nil⟩
  subst hd
  unfold dispatch at hfailure ⊢
  revert hhandle hfailure
  rcases (o.handle request).run ⟨.new fs watch, .ofSink ⟨refuse, []⟩⟩ with ⟨stopped | _, x⟩ <;>
    intro hhandle hfailure
  · obtain rfl : stopped = failure := by
      simp only at hfailure
      split at hfailure <;> exact Except.error.inj hfailure
    cases hhandle with
    | fault failed _ => exact .inr (.inr ⟨_, _, rfl, failed⟩)
    | denied _ unpreventable => exact .inr (.inl unpreventable)
    | @refused _ x calm call entry =>
      refine .inl ⟨call, ?_⟩
      simp only
      split
      · exact entry
      · exact Reply.mem_account_fail entry describe _
  · have htold : Reply.Told x.reply.complete := Reply.told_flush hhandle.reply
    simp only at hfailure ⊢
    revert hfailure htold
    rcases x.reply.complete with ⟨refused | _, reply⟩ <;> intro hfailure htold
    · obtain rfl := Except.error.inj hfailure
      exact .inl htold
    · cases hfailure

end Output

end RecordServer
