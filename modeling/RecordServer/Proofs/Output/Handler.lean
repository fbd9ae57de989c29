import RecordServer.Proofs.Query
import RecordServer.Proofs.Reply
import RecordServer.Proofs.Session

/-!
# What handlers do

`Handler.Leads` says of a handler what holds after it has succeeded, and that it leaves an intact reply if it has
failed. The exchange is described by a session in which nothing is asked and by the text that the reply has been given
(`Exchange.At`); there is one rule for each step of a handler.

The parameters of a request become conditions (`Output.conditions`), which are those of the query
(`Output.applyCaptured_eq`). Passing over positions drops them (`Output.leads_skip`), and writing records appends the
records at the next positions (`Output.leads_writeRecords`). The response has the status of a success only if handling
has succeeded, and then its body is the text (`Output.dispatch_ok`).
-/

namespace RecordServer

/-- The records of an exchange can be loaded like those of a session in which nothing is asked, and the reply has been
given a text. -/
structure Exchange.At (t : Session) (text : String) (x : Exchange) : Prop where
  session : x.session.Alike t
  reply : x.reply.Holds text

namespace Handler

variable {α β : Type} {t : Session} {text : String}

/-- A handler has ended: something holds if it has succeeded; if it has failed, the reply is intact. -/
def Ends (after : α → Exchange → Prop) : Except Failure α × Exchange → Prop
  | (.ok a, x) => after a x
  | (.error _, x) => ∃ text, x.reply.Holds text

/-- How a handler ends that begins in a certain state. -/
def Leads (before : Exchange → Prop) (h : Handler α) (after : α → Exchange → Prop) : Prop :=
  ∀ x, before x → Ends after (h.run x)

variable {before : Exchange → Prop} {h : Handler α} {between : α → Exchange → Prop} {x : Exchange}

/-- One step of a handler, and what comes after it. -/
theorem Leads.step (hh : Leads before h between) (hx : before x) {f : α → Handler β} {after : β → Exchange → Prop}
    (hf : ∀ a y, between a y → Ends after ((f a).run y)) : Ends after ((h >>= f).run x) := by
  have hrun := hh x hx
  rcases hy : h.run x with ⟨failure | a, y⟩
  · rw [run_bind_error hy]
    rw [hy] at hrun
    exact hrun
  · rw [run_bind_ok hy]
    rw [hy] at hrun
    exact hf a y hrun

/-- The last step of a handler. -/
theorem Leads.last (hh : Leads before h between) (hx : before x) {after : α → Exchange → Prop}
    (himp : ∀ a y, between a y → after a y) : Ends after (h.run x) := by
  have hrun := hh x hx
  rcases hy : h.run x with ⟨failure | a, y⟩
  · rw [hy] at hrun
    exact hrun
  · rw [hy] at hrun
    exact himp a y hrun

/-! ## Steps -/

theorem leads_lift (a : Except Failure α) :
    Leads (Exchange.At t text) (lift a) fun v x => a = .ok v ∧ x.At t text := by
  intro x hx
  cases a with
  | error failure => exact ⟨text, hx.reply⟩
  | ok v => exact ⟨rfl, hx⟩

theorem leads_check (a : Except Cause α) :
    Leads (Exchange.At t text) (check a) fun v x => a = .ok v ∧ x.At t text := by
  intro x hx
  cases a with
  | error cause => exact ⟨text, hx.reply⟩
  | ok v => exact ⟨rfl, hx⟩

/-- Text is appended to the reply as long as the sink is not unwilling. -/
theorem run_write (hreply : x.reply.Holds text) (more : String) :
    ∃ reply, (write more).run x = (.ok (), { x with reply := reply }) ∧ reply.Holds (text ++ more) := by
  obtain ⟨reply, happend, hholds⟩ := hreply.append more
  refine ⟨reply, ?_, hholds⟩
  show ((x.reply.append more).1, { x with reply := (x.reply.append more).2 }) = _
  rw [happend]

theorem leads_write (more : String) :
    Leads (Exchange.At t text) (write more) fun _ => Exchange.At t (text ++ more) := by
  intro x hx
  obtain ⟨reply, hrun, hreply⟩ := run_write hx.reply more
  rw [hrun]
  exact ⟨hx.session, hreply⟩

theorem leads_checkpoint : Leads (Exchange.At t text) checkpoint fun _ => Exchange.At t text := by
  intro x hx
  have hrun : checkpoint.run x = (if x.session.watch.ask.1 then .error .cancelled else .ok (),
      { x with session := { x.session with watch := x.session.watch.ask.2 } }) := rfl
  rw [hrun]
  cases x.session.watch.ask.1 with
  | true => exact ⟨text, hx.reply⟩
  | false => exact ⟨⟨hx.session.files, hx.session.readers, hx.session.calm⟩, hx.reply⟩

theorem run_within (action : Session.Run α) (x : Exchange) : (within action).run x =
    ((action.run x.session).1.mapError Failure.ofFault, { x with session := (action.run x.session).2 }) := by
  unfold within ExceptT.mk ExceptT.run
  beta_reduce
  generalize (action x.session : Except Fault α × Session) = result
  rcases result with ⟨_ | _, _⟩ <;> rfl

theorem run_within_ok {action : Session.Run α} {x : Exchange} {a : α} {s : Session}
    (h : action.run x.session = (.ok a, s)) : (within action).run x = (.ok a, { x with session := s }) := by
  rw [run_within, h]
  rfl

theorem run_within_error {action : Session.Run α} {x : Exchange} {fault : Fault} {s : Session}
    (h : action.run x.session = (.error fault, s)) :
    (within action).run x = (.error (.ofFault fault), { x with session := s }) := by
  rw [run_within, h]
  rfl

/-- What does not depend on the check has the result it has in the session in which nothing is asked. -/
theorem leads_within {action : Session.Run α} (h : Session.Steady (fun _ => True) action) :
    Leads (Exchange.At t text) (within action) fun a x => ∃ t', action.run t = (.ok a, t') ∧ x.At t' text := by
  intro x hx
  rw [run_within]
  rcases hrun : action.run x.session with ⟨fault | a, s⟩
  · exact ⟨text, hx.reply⟩
  · have hagrees := h x.session t hx.session (.inl trivial)
    rw [hrun] at hagrees
    obtain ⟨_, t', ht', rfl, hst, -⟩ := hagrees
    exact ⟨t', ht', hst, hx.reply⟩

/-- A feed that is executed yields the positions which match the conditions. -/
theorem leads_execute {conditions : List Condition} {fs : FileSystem} {input : Input} (ht : t.files = fs)
    (hc : Query.Consistent conditions) (hcurrent : ∀ c ∈ conditions, c.index.Current fs input) :
    Leads (Exchange.At t text) (within (Session.execute (Query.ofConditions conditions) input)) fun feed x =>
      x.At t text ∧ ∃ m, feed.Serves m ∧ Ascending m ∧ ∀ p, p ∈ m ↔ Query.Matches fs input conditions p := by
  intro x hx
  rw [run_within]
  have hrun : (Session.execute (Query.ofConditions conditions) input).run x.session =
      ((Query.ofConditions conditions).execute fs input x.session.watch.guards, x.session) := by
    rw [← ht, hx.session.files]
    rfl
  rw [hrun]
  cases hfeed : (Query.ofConditions conditions).execute fs input x.session.watch.guards with
  | error fault => exact ⟨text, hx.reply⟩
  | ok feed => exact ⟨hx, Query.execute_serves hc hcurrent hfeed⟩

/-- A pull takes the first of the positions to come, or fails. -/
theorem leads_pull {feed : Feed} {m : List Position} (h : feed.Serves m) :
    Leads (Exchange.At t text) (within (Session.pull feed)) fun a x =>
      x.At t text ∧ ∃ more, Takes a.1 m more ∧ a.2.Serves more := by
  intro x hx
  exact ⟨⟨⟨hx.session.files, hx.session.readers, hx.session.calm⟩, hx.reply⟩, feed.next_takes h x.session.watch⟩

end Handler

/-! ## Conditions of a request -/

/-- The condition of a parameter, given the text of its value. -/
def Binding.read (parsers : Parsers) (b : Binding) (raw : String) : Except Failure Condition :=
  match parsers.parse b.parser raw with
  | .ok value => .ok ⟨b.index, b.property, value⟩
  | .error fault => .error ⟨.client, fault.outermost.within (.parsingParameter b.name)⟩

/-- A later parameter that filters the same property, by an index of the same name, takes the place of an earlier
one. -/
def Binding.Displaces (later earlier : Binding) : Prop :=
  later.index.name = earlier.index.name ∧ later.property = earlier.property

namespace Output

open Handler

/-- The parameters which filter, in the order of their declaration, with the texts of their values. -/
def supplied (o : Output) (request : Request) : List (Binding × String) :=
  match o.delivery with
  | .list _ _ => o.bindings.filterMap fun b => (request.parameter? b.name).map fun raw => (b, raw)
  | .single route => ((route.match? request.path.toList).map fun values =>
      o.bindings.zip (values.map String.ofList)).getD []

/-- The conditions of a request, in the order of their declaration. -/
def conditions (o : Output) (request : Request) : Except Failure (List Condition) :=
  (o.supplied request).mapM fun s => s.1.read o.input.parsers s.2

theorem applyBinding_eq (parsers : Parsers) (q : Query) (b : Binding) (raw : String) :
    applyBinding parsers q b raw = (b.read parsers raw).map fun c => q.filter c.index c.property c.expected := by
  unfold applyBinding Binding.read
  cases parsers.parse b.parser raw <;> rfl

/-! ## Effective parameters -/

/-- A parameter that a request supplies is effective if no later one filters the same property by an index of the same
name. -/
def Effective (o : Output) (request : Request) (s : Binding × String) : Prop :=
  ∃ before after, o.supplied request = before ++ s :: after ∧ ∀ later ∈ after, ¬later.1.Displaces s.1

/-- A record is accepted for a parameter and the text of its value. -/
def Accepts (o : Output) (s : Binding × String) (r : Record) : Prop :=
  ∃ value, o.input.parsers.parse s.1.parser s.2 = .ok value ∧ s.1.index.Accepts s.1.property value r

variable {o : Output} {request : Request} {conditions : List Condition} {c : Condition} {s : Binding × String}

/-- A parameter is read as the condition on its property by its index. -/
theorem of_read (h : s.1.read o.input.parsers s.2 = .ok c) : c.index = s.1.index ∧ c.property = s.1.property ∧
    o.input.parsers.parse s.1.parser s.2 = .ok c.expected := by
  unfold Binding.read at h
  split at h
  · rename_i hparse
    cases h
    exact ⟨rfl, rfl, hparse⟩
  · cases h

theorem accepts_of_read (h : s.1.read o.input.parsers s.2 = .ok c) {r : Record} : c.Accepts r ↔ o.Accepts s r := by
  obtain ⟨hindex, hproperty, hparse⟩ := of_read h
  unfold Condition.Accepts Output.Accepts
  rw [hindex, hproperty, hparse]
  simp

/-- Parameters displace each other as their conditions do. -/
theorem displaces_of_read {t : Binding × String} {later : Condition} (ht : t.1.read o.input.parsers t.2 = .ok later)
    (hs : s.1.read o.input.parsers s.2 = .ok c) : later.Displaces c ↔ t.1.Displaces s.1 := by
  obtain ⟨hlaterIndex, hlaterProperty, -⟩ := of_read ht
  obtain ⟨hindex, hproperty, -⟩ := of_read hs
  unfold Condition.Displaces Binding.Displaces
  rw [hlaterIndex, hlaterProperty, hindex, hproperty]

/-- The condition of an effective parameter is kept. -/
theorem kept_of_effective (h : o.conditions request = .ok conditions) (hs : o.Effective request s) :
    ∃ c, Query.Kept conditions c ∧ s.1.read o.input.parsers s.2 = .ok c := by
  obtain ⟨before, after, hsupplied, hlast⟩ := hs
  have hall := ok_of_mapM h
  rw [hsupplied] at hall
  obtain ⟨before', c, after', rfl, hread, hafter⟩ := split_of_forall₂ hall
  refine ⟨c, ⟨before', after', rfl, fun later hlater hdisplaces => ?_⟩, hread⟩
  obtain ⟨t, ht, htread⟩ := mem_of_forall₂ hafter later hlater
  exact hlast t ht ((displaces_of_read htread hread).1 hdisplaces)

/-- A condition that is kept is that of an effective parameter. -/
theorem effective_of_kept (h : o.conditions request = .ok conditions) (hc : Query.Kept conditions c) :
    ∃ s, o.Effective request s ∧ s.1.read o.input.parsers s.2 = .ok c := by
  obtain ⟨before, after, rfl, hlast⟩ := hc
  obtain ⟨before', s, after', hsupplied, hread, hafter⟩ := split_of_forall₂ (ok_of_mapM h).flip
  refine ⟨s, ⟨before', after', hsupplied, fun t ht hdisplaces => ?_⟩, hread⟩
  obtain ⟨later, hlater, htread⟩ := mem_of_forall₂ hafter t ht
  exact hlast later hlater ((displaces_of_read htread hread).2 hdisplaces)

/-! ## Handling a query -/

/-- Parameters are added to a query as conditions. -/
theorem applyCaptured_eq (parsers : Parsers) : ∀ (q : Query) (supplied : List (Binding × String)),
    applyCaptured parsers q supplied = (supplied.mapM fun s : Binding × String => s.1.read parsers s.2).map
      fun conditions => conditions.foldl (fun q c => q.filter c.index c.property c.expected) q
  | q, [] => rfl
  | q, (b, raw) :: rest => by
    rw [applyCaptured, applyBinding_eq, List.mapM_cons]
    cases b.read parsers raw with
    | error failure => rfl
    | ok c =>
      show applyCaptured parsers (q.filter c.index c.property c.expected) rest = _
      rw [applyCaptured_eq parsers _ rest]
      generalize (rest.mapM fun s : Binding × String => s.1.read parsers s.2) = conditions
      cases conditions <;> rfl

/-- Parameters without a value are left out. -/
theorem applyBindings_eq (parsers : Parsers) (valueOf : Binding → Option String) : ∀ (q : Query)
    (bindings : List Binding), applyBindings parsers valueOf q bindings =
      applyCaptured parsers q (bindings.filterMap fun b => (valueOf b).map fun raw => (b, raw))
  | q, [] => rfl
  | q, b :: rest => by
    unfold applyBindings
    cases h : valueOf b with
    | none =>
      rw [List.filterMap_cons_none (by simp [h])]
      exact applyBindings_eq parsers valueOf q rest
    | some raw =>
      rw [List.filterMap_cons_some (by simp [h]; rfl)]
      show (applyBinding parsers q b raw >>= fun q => applyBindings parsers valueOf q rest) =
        (applyBinding parsers q b raw >>= fun q => applyCaptured parsers q _)
      exact congrArg _ (funext fun q => applyBindings_eq parsers valueOf q rest)

/-! ## Records -/

/-- Texts with commas between them, and one in front if they come behind others. -/
def commaText : Bool → List String → String
  | _, [] => ""
  | first, text :: rest => (if first then "" else ",") ++ text ++ commaText false rest

/-- Passing over positions drops as many of them. -/
theorem leads_skip {t : Session} {text : String} : ∀ (n : Nat) {feed : Feed} {m : List Position}, feed.Serves m →
    Leads (Exchange.At t text) (skip n feed) fun feed x => x.At t text ∧ feed.Serves (m.drop n)
  | 0, _, _, h => fun _ hx => ⟨hx, h⟩
  | n + 1, feed, m, h => by
    unfold skip
    intro x hx
    refine (leads_pull h).step hx ?_
    rintro ⟨_ | fault | p, rest⟩ x ⟨hx, more, htakes, hserves⟩
    · refine ⟨hx, ?_⟩
      obtain ⟨rfl, rfl⟩ := htakes
      simpa using hserves
    · exact ⟨text, hx.reply⟩
    · have hm : m = p :: more := htakes
      exact hm ▸ leads_skip n hserves x hx

/-- Writing records appends the texts of the records at the next positions. -/
theorem leads_writeRecords (o : Output) : ∀ (n : Nat) (first : Bool) {feed : Feed} {m : List Position} {t : Session}
    {text : String}, feed.Serves m → Leads (Exchange.At t text) (o.writeRecords n first feed) fun _ x =>
      ∃ records t', ((m.take n).mapM o.loadRecord).run t = (.ok records, t') ∧
        x.At t' (text ++ commaText first (records.map fun r => Json.print r.toValue))
  | 0, first, feed, m, t, text, h => by
    intro x hx
    exact ⟨[], t, rfl, hx.session, by simpa [commaText] using hx.reply⟩
  | n + 1, first, feed, m, t, text, h => by
    unfold writeRecords
    intro x hx
    refine (leads_pull h).step hx ?_
    rintro ⟨_ | fault | p, rest⟩ x ⟨hx, more, htakes, hserves⟩
    · obtain ⟨rfl, -⟩ := htakes
      exact ⟨[], t, rfl, hx.session, by simpa [commaText] using hx.reply⟩
    · exact ⟨text, hx.reply⟩
    · have hm : m = p :: more := htakes
      subst hm
      refine (leads_within (o.steady_loadRecord p)).step hx ?_
      rintro r y ⟨t', hload, hy⟩
      -- the text of the record, and those behind it
      have hrest {text : String} {y : Exchange} (hy : y.At t' text) : Ends (fun _ z => ∃ records u,
          (((p :: more).take (n + 1)).mapM o.loadRecord).run t = (.ok (r :: records), u) ∧
          z.At u (text ++ Json.print r.toValue ++ commaText false (records.map fun r => Json.print r.toValue)))
          ((write (Json.print r.toValue) >>= fun _ => o.writeRecords n false rest).run y) := by
        refine (leads_write (Json.print r.toValue)).step hy fun _ z hz => ?_
        refine (leads_writeRecords o n false hserves).last hz ?_
        rintro _ z ⟨records, u, hrun, hz⟩
        refine ⟨records, u, ?_, hz⟩
        rw [List.take_succ_cons, List.mapM_cons, run_bind_ok hload, run_bind_ok hrun]
        rfl
      cases first with
      | false =>
        refine (leads_write ",").step hy fun _ z hz => ?_
        refine Leads.last (fun _ hz => hrest hz) hz ?_
        rintro _ z ⟨records, u, hrun, hz⟩
        exact ⟨r :: records, u, hrun, by simpa [commaText, String.append_assoc] using hz⟩
      | true =>
        refine Leads.last (fun _ hz => hrest hz) hy ?_
        rintro _ z ⟨records, u, hrun, hz⟩
        exact ⟨r :: records, u, hrun, by simpa [commaText, String.append_assoc] using hz⟩

end Output

end RecordServer
