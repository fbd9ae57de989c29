import RecordServer.Proofs.Output.Regime
import RecordServer.Proofs.Relation.Attached
import RecordServer.Proofs.Stream.Halting

/-!
# Requests that are cancelled

Once the check has answered that the client has gone away, nothing happens any more: no record is read or loaded, and no
further question is asked. The handler fails with exactly this failure, and the sink is told of it: with a status and a
body, or, if something has been committed, by aborting the transfer (`Output.dispatch_cancelled`). This is so for every
output, at any depth of its relations, and for any sequence of answers.
-/

namespace RecordServer

/-- Sessions that are cancelled by a check: the watch is running, or it has halted and the fault says so. -/
def Session.Regime.heeding (check : Nat → Bool) : Session.Regime where
  calm s := s.watch.Running check
  failed fault s := s.watch.Running check ∨ (s.watch.Halted check ∧ fault = Fault.gone)
  sound _ := True
  raise _ _ hs _ := .inl hs
  load input position s hs := by
    have hnoted : (s.watch.note (.loaded input.name position)).Running check := hs.note nofun
    show Ended _ _ (s.loadIn input position)
    unfold loadIn
    simp only
    split
    · exact .inl hnoted
    · rename_i reader _
      rcases input.load reader position with ⟨fault | r, reader⟩
      · exact .inl hnoted
      · exact hnoted
  pull feed _ := Session.upholds_pull fun s hs => by
    rcases feed.next_heeds hs with hrunning | ⟨hhalted, hgone⟩
    · rcases (feed.next s.watch).1 with _ | fault | position
      · exact ⟨trivial, hrunning⟩
      · exact .inl hrunning
      · exact ⟨trivial, hrunning⟩
    · rw [hgone]
      exact .inr ⟨hhalted, rfl⟩
  ask s hs := hs.ask.imp id fun ⟨hanswer, hhalted⟩ => ⟨hanswer, .inr ⟨hhalted, rfl⟩⟩

namespace Reply

/-- What a sink has been told of a failure, if it has refused nothing before. -/
inductive Reports (describe : External → String) (failure : Failure) : List Entry → Prop
  /-- It refuses to hear of it. -/
  | refused (refusal : Failure) : Reports describe failure [⟨.commit failure.blame.status, some refusal⟩]
  /-- It gets the body, whether or not this can be transferred. -/
  | body (refusal : Option Failure) : Reports describe failure
      [⟨.commit failure.blame.status, none⟩, ⟨.write (failure.body describe), refusal⟩]
  /-- What has been committed is aborted. -/
  | aborted (chunks : List String) : Reports describe failure
      (⟨.commit 200, none⟩ :: accepted chunks ++ [⟨.abort failure, none⟩])

theorem Given.reports {r : Reply} {text : String} (h : r.Given text) (hunrefused : r.sink.Unrefused)
    (describe : External → String) (failure : Failure) :
    Reports describe failure (r.fail describe failure).sink.account.reverse := by
  unfold fail
  cases h with
  | kept hcommitted haccount hbuffer hshort =>
    rw [if_neg (by simp [hcommitted]), tell_eq]
    cases refusalOf _ (.commit failure.blame.status) with
    | some refusal =>
      simp only [Option.elim_some, account_noted, haccount]
      exact .refused refusal
    | none =>
      simp only [Option.elim_none, tell_eq, account_noted, haccount]
      exact .body _
  | handedOver refusal written hcommitted haccount hlong htext =>
    rw [if_pos hcommitted, tell_eq, account_noted, List.reverse_cons, account_of_unrefused haccount hunrefused]
    exact .aborted _

end Reply

namespace Output

variable {describe : External → String} {fs : FileSystem} {o : Output} {request : Request} {check : Nat → Bool}
  {refuse : List Entry → Call → Option Failure}

/-- While a request is handled the check denies all questions, or else it has been obeyed at once. -/
theorem handled_heeds : (o.handled fs request (.ofCheck check) ⟨refuse, []⟩).2.session.watch.Running check ∨
    ((o.handled fs request (.ofCheck check) ⟨refuse, []⟩).2.session.watch.Halted check ∧
      (o.handled fs request (.ofCheck check) ⟨refuse, []⟩).1 = .error .cancelled ∧
      (o.handled fs request (.ofCheck check) ⟨refuse, []⟩).2.reply.sink.Unrefused) := by
  have hleaves (fault : Fault) : (Session.Regime.heeding check).Leaves fault := fun _ => .inl
  have hfinds (q : Query) (input : Input) : (Session.Regime.heeding check).Finds q input :=
    Session.Regime.finds_of_execute _ (fun _ _ _ _ => trivial) fun _ _ fault _ => hleaves fault
  have hsuits (parent : Input) (relation : Relation) : (Session.Regime.heeding check).Suits parent relation :=
    fun _ _ => Session.Regime.upholds_lift _ (fun q _ => hfinds q relation.input) fun fault _ => hleaves fault
  have hfine : Exchange.Fine (Session.Regime.heeding check) ⟨.new fs (.ofCheck check), .ofSink ⟨refuse, []⟩⟩ :=
    ⟨Watch.running_ofCheck check, fun _ h => absurd h List.not_mem_nil⟩
  have hhandle := @upholds_handle (Session.Regime.heeding check) o request
    (fun q _ => hfinds q o.input) (fun parent relation _ => hsuits parent relation) _ hfine
  unfold handled
  revert hhandle
  rcases (o.handle request).run ⟨.new fs (.ofCheck check), .ofSink ⟨refuse, []⟩⟩ with ⟨failure | _, x⟩ <;> intro hhandle
  · cases hhandle with
    | fault failed reply =>
      rcases failed with hrunning | ⟨hhalted, rfl⟩
      · exact .inl hrunning
      · exact .inr ⟨hhalted, rfl, reply⟩
    | denied fine _ => exact .inl fine.session
    | refused calm _ => exact .inl calm
  · exact .inl hhandle.session

/-- **Cancellation stops everything.** If an answer of the check is that the client has gone away, it is the last thing
that happens while the request is handled: nothing is read or loaded any more. The handler fails with this and nothing
else, and the sink is told of it: with the status 500 and a body, or, behind what has been committed, by aborting it. -/
theorem dispatch_cancelled (describe : External → String) (fs : FileSystem) (o : Output) (request : Request)
    (check : Nat → Bool) (refuse : List Entry → Call → Option Failure) {d : Dispatched}
    (hd : o.dispatch describe fs request (.ofCheck check) ⟨refuse, []⟩ = d) {n : Nat} (hasked : n < d.watch.asked)
    (hanswer : check n = true) :
    d.watch.asked = n + 1 ∧
    (∃ before, d.watch.journal = .asked true :: before ∧ .asked true ∉ before) ∧
    (o.handled fs request (.ofCheck check) ⟨refuse, []⟩).1 = .error .cancelled ∧
    d.outcome = .error .cancelled ∧ Failure.cancelled.blame.status = 500 ∧
    Reply.Reports describe .cancelled d.sink.account.reverse := by
  subst hd
  obtain ⟨hwatch, houtcome⟩ := @outcome_dispatch describe fs o request (.ofCheck check) ⟨refuse, []⟩
  rw [hwatch] at hasked ⊢
  rcases @handled_heeds fs o request check refuse with
    hrunning | ⟨⟨⟨last, hlast, -, hdenied⟩, hjournal⟩, hfailed, hunrefused⟩
  · have hno := hrunning.denied n hasked
    rw [hanswer] at hno
    cases hno
  · -- all questions before the last one have been denied, so this is the one that has been affirmed
    have hn : n = last := by
      rcases Nat.lt_or_eq_of_le (Nat.lt_succ_iff.1 (hlast ▸ hasked)) with hlt | rfl
      · cases hanswer.symm.trans (hdenied n hlt)
      · rfl
    obtain ⟨texts, hreply⟩ := appends_handle o request ⟨.new fs (.ofCheck check), .ofSink ⟨refuse, []⟩⟩
    have hgiven := (Reply.given_ofSink refuse).appendAll texts
    rw [← hreply] at hgiven
    refine ⟨hn ▸ hlast, hjournal, hfailed, houtcome _ hfailed, rfl, ?_⟩
    rw [sink_dispatch, hfailed]
    exact hgiven.reports hunrefused describe .cancelled

/-- A list of rows with relations to others, each of which has a relation of its own. -/
def ofTwoTables (i : Index) : Output :=
  ⟨"list", "/list", .ofTable "v", .list ⟨1, 10, "limit"⟩ "offset", [], [.ofTwoTables i]⟩

/-- The client goes away while the last of the records is looked for, that of a relation of a related record. -/
def interrupted : Dispatched :=
  (ofTwoTables (.scan "default")).dispatch (fun _ => "") .twoTables ⟨"/list", []⟩ (.ofCheck fun n => n == 6)
    ⟨fun _ _ => none, []⟩

theorem dispatch_cancelled_nested : 6 < interrupted.watch.asked ∧ (6 == 6) = true ∧
    interrupted.outcome = .error .cancelled ∧
    Reply.Reports (fun _ => "") .cancelled interrupted.sink.account.reverse := by
  have hasked : interrupted.watch.asked = 7 := by
    rw [interrupted, outcome_dispatch.1]
    cbv
  obtain ⟨-, -, -, houtcome, -, hreports⟩ := dispatch_cancelled (fun _ => "") .twoTables (ofTwoTables (.scan "default"))
    ⟨"/list", []⟩ (fun n => n == 6) (fun _ _ => none) (d := interrupted) rfl (n := 6) (by omega) rfl
  exact ⟨by omega, rfl, houtcome, hreports⟩

end Output

end RecordServer
