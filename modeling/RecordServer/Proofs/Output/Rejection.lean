import RecordServer.Proofs.Input.Faults
import RecordServer.Proofs.Output.Delivery

/-!
# Requests that are refused

A request for a list is refused if its limit or offset cannot be taken, if it has an unknown parameter, or if the value
of one that filters cannot be parsed (`Output.Refused`). Then the handler fails before it does anything else, whatever
state it begins in (`Output.handleList_refused`), and the response is that of a failure of the client
(`Output.dispatch_refusal`).
-/

namespace RecordServer

namespace Output

variable {o : Output} {request : Request} {limit : Config.Limit} {offsetParameter : String}

/-! ## Checks -/

/-- A request wants a number of records: the limit that it gives, if this is positive, but no more than the greatest
one; if it gives none, the default. -/
def Wants (limit : Config.Limit) (request : Request) (count : Nat) : Prop :=
  match request.parameter? limit.parameter with
  | none => count = limit.default
  | some raw => ∃ n, readInteger? raw = some n ∧ 0 < n.toInt ∧ count = min n.toInt.toNat limit.max

/-- A request passes over a number of records: the offset that it gives, if this is not negative; if it gives none,
nothing. -/
def Skips (offsetParameter : String) (request : Request) (offset : Nat) : Prop :=
  match request.parameter? offsetParameter with
  | none => offset = 0
  | some raw => ∃ n, readInteger? raw = some n ∧ 0 ≤ n.toInt ∧ offset = n.toInt.toNat

/-- A request is refused. -/
inductive Refused (o : Output) (limit : Config.Limit) (offsetParameter : String) (request : Request) : Prop where
  /-- The limit is no positive integer of 64 bits. -/
  | limit {raw : String} (given : request.parameter? limit.parameter = some raw)
    (bad : ∀ n, readInteger? raw = some n → ¬0 < n.toInt)
  /-- The offset is a negative integer, or no integer of 64 bits. -/
  | offset {raw : String} (given : request.parameter? offsetParameter = some raw)
    (bad : ∀ n, readInteger? raw = some n → ¬0 ≤ n.toInt)
  /-- A parameter is unknown. -/
  | unknown {name : String} (given : name ∈ request.parameters.map Prod.fst) (bad : o.hasParameter name = false)
  /-- A value cannot be parsed. -/
  | value {s : Binding × String} {fault : Fault} (given : s ∈ o.supplied request)
    (bad : o.input.parsers.parse s.1.parser s.2 = .error fault)

theorem wants_of_limitOf {count : Nat} (h : limitOf limit request = .ok count) : Wants limit request count := by
  unfold limitOf at h
  unfold Wants
  revert h
  cases request.parameter? limit.parameter with
  | none =>
    intro h
    cases h
    rfl
  | some raw =>
    intro h
    simp only at h
    split at h
    · rename_i n hn
      split at h <;> cases h
      exact ⟨n, hn, ‹_›, rfl⟩
    · cases h

theorem skips_of_offsetOf {offset : Nat} (h : offsetOf offsetParameter request = .ok offset) :
    Skips offsetParameter request offset := by
  unfold offsetOf at h
  unfold Skips
  revert h
  cases request.parameter? offsetParameter with
  | none =>
    intro h
    cases h
    rfl
  | some raw =>
    intro h
    simp only at h
    split at h
    · rename_i n hn
      split at h <;> cases h
      exact ⟨n, hn, ‹_›, rfl⟩
    · cases h

/-- A failure that is the client's and is answered. -/
def Refusal (failure : Failure) : Prop := failure.blame = .client ∧ failure.fault.isFatal = false

theorem error_limitOf {cause : Cause} (h : limitOf limit request = .error cause) :
    cause = .limitNotPositive limit.parameter := by
  unfold limitOf at h
  split at h
  · cases h
  · split at h
    · split at h <;> cases h
      rfl
    · cases h
      rfl

theorem error_offsetOf {cause : Cause} (h : offsetOf offsetParameter request = .error cause) :
    cause = .offsetNegative offsetParameter := by
  unfold offsetOf at h
  split at h
  · cases h
  · split at h
    · split at h <;> cases h
      rfl
    · cases h
      rfl

theorem error_checkParameters {cause : Cause} (h : o.checkParameters request = .error cause) :
    ∃ name, cause = .unknownParameter name := by
  unfold checkParameters at h
  split at h <;> cases h
  exact ⟨_, rfl⟩

/-- Conditions are missing only because of a value that cannot be parsed, which is a matter of its content. -/
theorem error_conditions {failure : Failure} (h : o.conditions request = .error failure) :
    failure.blame = .client ∧ failure.fault.cause.isOfContent = true := by
  obtain ⟨s, -, hread⟩ := error_of_mapM h
  unfold Binding.read at hread
  split at hread
  · cases hread
  · rename_i fault hparse
    cases hread
    exact ⟨rfl, Fault.content_outermost (Format.ofContent_parse _ _ _ _ fault hparse)⟩

/-- If there are conditions, all values can be parsed. -/
theorem parses_of_conditions {conditions : List Condition} (h : o.conditions request = .ok conditions) :
    ∀ s ∈ o.supplied request, ∃ value, o.input.parsers.parse s.1.parser s.2 = .ok value := by
  intro s hs
  obtain ⟨c, -, hread⟩ := (mem_of_mapM h).2 s hs
  exact ⟨c.expected, (of_read hread).2.2⟩

theorem refusal_limitOf {cause : Cause} (h : limitOf limit request = .error cause) : Refusal (.ofClient cause) :=
  error_limitOf h ▸ ⟨rfl, rfl⟩

theorem refusal_offsetOf {cause : Cause} (h : offsetOf offsetParameter request = .error cause) :
    Refusal (.ofClient cause) :=
  error_offsetOf h ▸ ⟨rfl, rfl⟩

theorem refusal_checkParameters {cause : Cause} (h : o.checkParameters request = .error cause) :
    Refusal (.ofClient cause) := by
  obtain ⟨name, rfl⟩ := error_checkParameters h
  exact ⟨rfl, rfl⟩

theorem refusal_conditions {failure : Failure} (h : o.conditions request = .error failure) : Refusal failure := by
  obtain ⟨hblame, hcontent⟩ := error_conditions h
  exact ⟨hblame, Fault.not_fatal_of_content hcontent⟩

/-- A request that passes all checks is not refused. -/
theorem not_refused {count offset : Nat} {conditions : List Condition} (hcount : limitOf limit request = .ok count)
    (hoffset : offsetOf offsetParameter request = .ok offset) (hknown : o.checkParameters request = .ok ())
    (hconditions : o.conditions request = .ok conditions) : ¬o.Refused limit offsetParameter request := by
  intro h
  cases h with
  | limit given bad =>
    have hwants := wants_of_limitOf hcount
    unfold Wants at hwants
    rw [given] at hwants
    obtain ⟨n, hn, hpositive, -⟩ := hwants
    exact bad n hn hpositive
  | offset given bad =>
    have hskips := skips_of_offsetOf hoffset
    unfold Skips at hskips
    rw [given] at hskips
    obtain ⟨n, hn, hnatural, -⟩ := hskips
    exact bad n hn hnatural
  | @unknown name given bad =>
    unfold checkParameters at hknown
    split at hknown
    · cases hknown
    · rename_i hfind
      have hall := List.find?_eq_none.1 hfind name given
      simp [bad] at hall
  | @value s fault given bad =>
    obtain ⟨value, hvalue⟩ := parses_of_conditions hconditions s given
    cases bad.symm.trans hvalue

/-! ## Answers -/

/-- **A request that is refused fails at once**: the handler leaves the exchange as it is. -/
theorem handleList_refused (hdelivery : o.delivery = .list limit offsetParameter)
    (h : o.Refused limit offsetParameter request) : ∃ failure, Refusal failure ∧
      ∀ x, (o.handleList limit offsetParameter request).run x = (.error failure, x) := by
  have hcheck {α : Type} {cause : Cause} {a : Except Cause α} (ha : a = .error cause) (x : Exchange) :
      (Handler.check a).run x = (.error (.ofClient cause), x) := by
    subst ha
    rfl
  have hpass {α : Type} {v : α} {a : Except Cause α} (ha : a = .ok v) (x : Exchange) :
      (Handler.check a).run x = (.ok v, x) := by
    subst ha
    rfl
  cases hcount : limitOf limit request with
  | error cause => exact ⟨_, refusal_limitOf hcount, fun x => run_bind_error (hcheck hcount x)⟩
  | ok count =>
    cases hoffset : offsetOf offsetParameter request with
    | error cause =>
      exact ⟨_, refusal_offsetOf hoffset, fun x =>
        (run_bind_ok (hpass hcount x)).trans (run_bind_error (hcheck hoffset x))⟩
    | ok offset =>
      cases hknown : o.checkParameters request with
      | error cause =>
        exact ⟨_, refusal_checkParameters hknown, fun x => (run_bind_ok (hpass hcount x)).trans
          ((run_bind_ok (hpass hoffset x)).trans (run_bind_error (hcheck hknown x)))⟩
      | ok _ =>
        cases hconditions : o.conditions request with
        | ok conditions => exact absurd h (not_refused hcount hoffset hknown hconditions)
        | error failure =>
          have hquery : applyBindings o.input.parsers (fun b => request.parameter? b.name) .all o.bindings =
              .error failure := by
            unfold Output.conditions supplied at hconditions
            rw [hdelivery] at hconditions
            rw [applyBindings_eq, applyCaptured_eq, hconditions]
            rfl
          have hlift (x : Exchange) : (Handler.lift (applyBindings o.input.parsers
              (fun b => request.parameter? b.name) .all o.bindings)).run x = (.error failure, x) := by
            rw [hquery]
            rfl
          exact ⟨_, refusal_conditions hconditions, fun x => (run_bind_ok (hpass hcount x)).trans
            ((run_bind_ok (hpass hoffset x)).trans ((run_bind_ok (hpass hknown x)).trans
              (run_bind_error (hlift x))))⟩

/-- A response reports a failure, and nothing else. -/
structure Dispatched.Reports (d : Dispatched) (describe : External → String) (failure : Failure) (status : Nat) :
    Prop where
  outcome : d.outcome = .error failure
  status : d.sink.status? = some status
  unaborted : d.sink.aborted? = none
  body : d.sink.body = failure.body describe

section

variable {describe : External → String} {fs : FileSystem} {watch : Watch} {failure : Failure} {x : Exchange}
  {d : Dispatched}

/-- The response to a request for which the handler fails before it has written anything. -/
theorem dispatch_fails (h : (o.handle request).run ⟨.new fs watch, .ofSink .willing⟩ = (.error failure, x))
    (hreply : x.reply = .ofSink .willing) (hd : o.dispatch describe fs request watch .willing = d) :
    d.watch = x.session.watch ∧
      if failure.fault.isFatal then d.sink.status? = none else d.Reports describe failure failure.blame.status := by
  unfold dispatch at hd
  rw [h] at hd
  simp only [hreply] at hd
  subst hd
  cases failure.fault.isFatal with
  | true => exact ⟨rfl, rfl⟩
  | false =>
    rcases Reply.holds_ofSink.fail describe failure with ⟨hcommitted, -⟩ | ⟨-, hstatus, haborted, hbody⟩
    · cases hcommitted
    · exact ⟨rfl, rfl, hstatus, haborted, hbody⟩

/-- The response to a request for which the handler fails at once. -/
theorem dispatch_refusal (hrefusal : Refusal failure) (h : ∀ x, (o.handle request).run x = (.error failure, x))
    (hd : o.dispatch describe fs request watch .willing = d) : d.outcome = .error failure ∧ d.watch = watch ∧
      d.sink.status? = some 400 ∧ d.sink.aborted? = none ∧ d.sink.body = failure.body describe := by
  obtain ⟨hblame, hharmless⟩ := hrefusal
  obtain ⟨hwatch, hreports⟩ := dispatch_fails (h _) rfl hd
  rw [hharmless, if_neg Bool.false_ne_true, hblame] at hreports
  exact ⟨hreports.outcome, hwatch, hreports.status, hreports.unaborted, hreports.body⟩

end

end Output

end RecordServer
