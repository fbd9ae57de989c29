import RecordServer.Proofs.Output.Handler

/-!
# What is delivered

A request for a list is answered with the records at the positions which match its conditions, from the offset on and
up to the limit (`Output.leads_handleList`); a request for a single record with the first of them
(`Output.leads_handleSingle`). Nothing else is delivered with the status of a success (`Output.dispatch_ok`).
-/

namespace RecordServer

namespace Output

open Handler

/-- The JSON text of a list of records. -/
def listText (records : List Record) : String := "[" ++ String.intercalate "," (records.map Record.json) ++ "]"

theorem commaText_eq : ∀ texts : List String, commaText true texts = String.intercalate "," texts
  | [] => rfl
  | [text] => by simp [commaText]
  | text :: more :: rest => by
    have ih := commaText_eq (more :: rest)
    simp only [commaText, if_true, String.empty_append, Bool.false_eq_true, if_false] at ih ⊢
    rw [String.intercalate_cons_cons, ← ih]
    simp only [String.append_assoc]

/-- The conditions of a request can be looked up: indexes of one name are the same, and all are up to date. -/
def Answerable (o : Output) (fs : FileSystem) (request : Request) : Prop :=
  ∀ conditions, o.conditions request = .ok conditions →
    Query.Consistent conditions ∧ ∀ c ∈ conditions, c.index.Current fs o.input

/-- The records which are loaded from positions, one after the other, by a request that nobody cancels. -/
def Loads (o : Output) (fs : FileSystem) (positions : List Position) (records : List Record) : Prop :=
  ∃ s, (positions.mapM o.loadRecord).run (.new fs .never) = (.ok records, s)

/-- The position of a record that is accepted for all parameters which are effective; if the request supplies none, any
position. -/
def Selects (o : Output) (fs : FileSystem) (request : Request) (p : Position) : Prop :=
  if o.supplied request = [] then ∃ found, o.input.positions fs = .ok found ∧ p ∈ reached found
  else ∃ items, o.input.records fs = .ok items ∧ ∃ r, (p, r) ∈ reached items ∧
    ∀ s, o.Effective request s → o.Accepts s r

/-- The positions which a request selects, in ascending order. -/
structure Lists (o : Output) (fs : FileSystem) (request : Request) (m : List Position) : Prop where
  ascending : Ascending m
  mem : ∀ p, p ∈ m ↔ o.Selects fs request p

variable {o : Output} {fs : FileSystem} {request : Request}

/-- A request selects the positions which match its conditions. -/
theorem matches_iff_selects {conditions : List Condition} (h : o.conditions request = .ok conditions) {p : Position} :
    Query.Matches fs o.input conditions p ↔ o.Selects fs request p := by
  unfold Query.Matches Selects
  have hempty : conditions = [] ↔ o.supplied request = [] := by
    have hlength := (ok_of_mapM h).length_eq
    rw [← List.length_eq_zero_iff, ← hlength, List.length_eq_zero_iff]
  simp only [hempty]
  split
  · exact Iff.rfl
  · refine exists_congr fun items => and_congr_right fun _ => exists_congr fun r => and_congr_right fun _ => ?_
    constructor
    · intro haccepts s hs
      obtain ⟨c, hkept, hread⟩ := kept_of_effective h hs
      exact (accepts_of_read hread).1 (haccepts c hkept)
    · intro haccepts c hkept
      obtain ⟨s, hs, hread⟩ := effective_of_kept h hkept
      exact (accepts_of_read hread).2 (haccepts s hs)

/-- A list is answered with the records at the positions which match, from the offset on and up to the limit. -/
theorem leads_handleList {limit : Config.Limit} {offsetParameter : String}
    (hdelivery : o.delivery = .list limit offsetParameter) (h : o.Answerable fs request) :
    Leads (Exchange.At (.new fs .never) "") (o.handleList limit offsetParameter request) fun _ x =>
      ∃ count offset m records t, limitOf limit request = .ok count ∧ offsetOf offsetParameter request = .ok offset ∧
        o.Lists fs request m ∧ o.Loads fs ((m.drop offset).take count) records ∧ x.At t (listText records) := by
  intro x hx
  unfold handleList
  refine (leads_check _).step hx ?_
  rintro count x ⟨hcount, hx⟩
  refine (leads_check _).step hx ?_
  rintro offset x ⟨hoffset, hx⟩
  refine (leads_check _).step hx ?_
  rintro _ x ⟨-, hx⟩
  refine (leads_lift _).step hx ?_
  rintro query x ⟨hquery, hx⟩
  -- the query is the one for the conditions of the request
  rw [applyBindings_eq, applyCaptured_eq] at hquery
  obtain ⟨conditions, hconditions, hquery⟩ := ok_of_map hquery
  obtain rfl : Query.ofConditions conditions = query := hquery
  have hconditions : o.conditions request = .ok conditions := by
    unfold Output.conditions supplied
    rw [hdelivery]
    exact hconditions
  obtain ⟨hconsistent, hcurrent⟩ := h conditions hconditions
  have hexecute := @leads_execute (.new fs .never) "" conditions fs o.input rfl hconsistent hcurrent
  refine hexecute.step hx ?_
  rintro feed x ⟨hx, m, hserves, hasc, hmem⟩
  have hlists : o.Lists fs request m := ⟨hasc, fun p => (hmem p).trans (matches_iff_selects hconditions)⟩
  refine (leads_skip offset hserves).step hx ?_
  rintro feed x ⟨hx, hserves⟩
  refine leads_checkpoint.step hx fun _ x hx => (leads_write "[").step hx fun _ x hx => ?_
  refine (leads_writeRecords o count true hserves).step hx ?_
  rintro _ x ⟨records, t, hload, hx⟩
  refine (leads_write "]").last hx fun _ x hx => ?_
  refine ⟨count, offset, m, records, t, hcount, hoffset, hlists, ⟨t, hload⟩, ?_⟩
  have htext : "" ++ "[" ++ commaText true (records.map fun r => Json.print r.toValue) ++ "]" = listText records := by
    rw [commaText_eq, String.empty_append]
    rfl
  exact htext ▸ hx

/-- The query for the values in a path is the one for the conditions of the request. -/
theorem applyCaptured_single {route : Route} {values : List (List Char)} (hdelivery : o.delivery = .single route)
    (hmatch : route.match? request.path.toList = some values) :
    applyCaptured o.input.parsers .all (o.bindings.zip (values.map String.ofList)) =
      (o.conditions request).map Query.ofConditions := by
  have hsupplied : o.supplied request = o.bindings.zip (values.map String.ofList) := by
    simp [supplied, hdelivery, hmatch]
  rw [applyCaptured_eq, Output.conditions, hsupplied]
  rfl

/-- A single record is the one at the first of the positions which match. -/
theorem leads_handleSingle {route : Route} (hdelivery : o.delivery = .single route) (h : o.Answerable fs request) :
    Leads (Exchange.At (.new fs .never) "") (o.handleSingle route request) fun _ x =>
      ∃ m p r t, o.Lists fs request m ∧ m.head? = some p ∧ o.Loads fs [p] [r] ∧ x.At t r.json := by
  intro x hx
  unfold handleSingle
  cases hmatch : route.match? request.path.toList with
  | none => exact ⟨"", hx.reply⟩
  | some values =>
    refine (leads_lift _).step hx ?_
    rintro query x ⟨hquery, hx⟩
    rw [applyCaptured_single hdelivery hmatch] at hquery
    obtain ⟨conditions, hconditions, rfl⟩ := ok_of_map hquery
    obtain ⟨hconsistent, hcurrent⟩ := h conditions hconditions
    have hexecute := @leads_execute (.new fs .never) "" conditions fs o.input rfl hconsistent hcurrent
    refine hexecute.step hx ?_
    rintro feed x ⟨hx, m, hserves, hasc, hmem⟩
    have hlists : o.Lists fs request m := ⟨hasc, fun p => (hmem p).trans (matches_iff_selects hconditions)⟩
    refine (leads_pull hserves).step hx ?_
    rintro ⟨_ | fault | p, rest⟩ x ⟨hx, more, htakes, -⟩
    · exact ⟨"", hx.reply⟩
    · exact ⟨"", hx.reply⟩
    · refine (leads_within (o.steady_loadRecord p)).step hx ?_
      rintro r x ⟨t, hload, hx⟩
      refine (leads_write (Json.print r.toValue)).last hx fun _ x hx => ?_
      have hm : m = p :: more := htakes
      refine ⟨m, p, r, t, hlists, by rw [hm]; rfl, ⟨t, ?_⟩, ?_⟩
      · rw [List.mapM_cons, run_bind_ok hload]
        rfl
      · rw [String.empty_append] at hx
        exact hx

/-- The initial exchange of a request. -/
theorem at_new (fs : FileSystem) (watch : Watch) :
    Exchange.At (.new fs .never) "" ⟨.new fs watch, .ofSink .willing⟩ :=
  ⟨⟨rfl, rfl, rfl⟩, Reply.holds_ofSink⟩

/-- A request has been answered with the status of a success, and the transfer has not been aborted. -/
structure Dispatched.Succeeds (d : Dispatched) : Prop where
  answered : ∀ failure, d.outcome = .error failure → failure.fault.isFatal = false
  status : d.sink.status? = some 200
  unaborted : d.sink.aborted? = none

/-- A handler that has succeeded is answered with the text which the reply has been given. -/
theorem dispatch_completes {describe : External → String} {watch : Watch} {x : Exchange} {text : String}
    (h : (o.handle request).run ⟨.new fs watch, .ofSink .willing⟩ = (.ok (), x)) (hreply : x.reply.Holds text)
    {d : Dispatched} (hd : o.dispatch describe fs request watch .willing = d) : d.Succeeds ∧ d.sink.body = text := by
  obtain ⟨reply, hcomplete, hstatus, haborted, hbody⟩ := hreply.complete
  unfold dispatch at hd
  rw [h] at hd
  simp only [hcomplete] at hd
  subst hd
  exact ⟨⟨nofun, hstatus, haborted⟩, hbody⟩

/-- **A response with the status of a success, which has not been aborted, is that of a handler that has succeeded**,
and its body is the text which the reply has been given. -/
theorem dispatch_ok {describe : External → String} {watch : Watch} {after : Unit → Exchange → Prop}
    (h : Leads (Exchange.At (.new fs .never) "") (o.handle request) after) {d : Dispatched}
    (hd : o.dispatch describe fs request watch .willing = d) (hsucceeds : d.Succeeds) :
    ∃ x, after () x ∧ ∀ text, x.reply.Holds text → d.sink.body = text := by
  have hends := h ⟨.new fs watch, .ofSink .willing⟩ (at_new fs watch)
  rcases hrun : (o.handle request).run ⟨.new fs watch, .ofSink .willing⟩ with ⟨failure | _, x⟩
  · exfalso
    unfold dispatch at hd
    rw [hrun] at hends hd
    obtain ⟨text, hreply⟩ := hends
    simp only at hd
    split at hd
    · rename_i hfatal
      subst hd
      have hharmless := hsucceeds.answered failure rfl
      rw [hfatal] at hharmless
      cases hharmless
    · subst hd
      rcases hreply.fail describe failure with ⟨-, haborted⟩ | ⟨-, hfailed, -⟩
      · rw [hsucceeds.unaborted] at haborted
        cases haborted
      · have hne : failure.blame.status ≠ 200 := by
          cases failure.blame <;> decide
        exact hne (Option.some.inj (hfailed.symm.trans hsucceeds.status))
  · rw [hrun] at hends
    exact ⟨x, hends, fun text hreply => (dispatch_completes hrun hreply hd).2⟩

end Output

end RecordServer
