import RecordServer.Proofs.Output.Handler

/-!
# What a sink is told

A sink may refuse any of its calls, and a handler may append any texts, go on after a refusal or not, and end in any
way. Even so the sink is told to commit first and only once, and as long as it has refused nothing, its chunks and the
buffer are together what has been appended (`Reply.Given`, kept by each text in `Reply.Given.append`). A sink that never
refuses anything is told of a failure alone, or of a success alone, or is told to abort what has been committed
(`Reply.account_fail_short`, `Reply.account_fail_long`, `Reply.account_complete`).

All this is so for every output and every request (`Output.dispatch_account`), since handling a request does nothing to
the reply but append texts (`Output.appends_handle`).
-/

namespace RecordServer

namespace Call

/-- A call to commit. -/
def commits : Call → Bool
  | commit _ => true
  | _ => false

/-- The first call commits, and no other one does. -/
def Orderly : List Call → Prop
  | [] => True
  | first :: rest => first.commits = true ∧ ∀ c ∈ rest, c.commits = false

/-- One more call that does not commit, behind the one that does. -/
theorem Orderly.concat {calls : List Call} (h : Orderly calls) (hne : calls ≠ []) {c : Call}
    (hc : c.commits = false) : Orderly (calls ++ [c]) := by
  obtain ⟨first, rest, rfl⟩ := List.exists_cons_of_ne_nil hne
  refine ⟨h.1, fun d hd => ?_⟩
  rcases List.mem_append.1 hd with hd | hd
  · exact h.2 d hd
  · rwa [List.mem_singleton.1 hd]

end Call

/-- A chunk that has been handed over, and its refusal. -/
def Entry.ofChunk (written : String × Option Failure) : Entry := ⟨.write written.1, written.2⟩

namespace Sink

/-- The calls, the first one first. -/
def calls (sink : Sink) : List Call := sink.account.reverse.map Entry.call

/-- No call has been refused. -/
def Unrefused (sink : Sink) : Prop := ∀ e ∈ sink.account, e.refusal = none

/-- A sink that has never refused anything and never will. -/
structure Obliging (sink : Sink) : Prop where
  willing : ∀ account c, sink.refuse account c = none
  unrefused : sink.Unrefused

theorem obliging_willing : willing.Obliging := ⟨fun _ _ => rfl, fun _ h => absurd h List.not_mem_nil⟩

end Sink

namespace Reply

/-! ## Calls -/

/-- The reply with one more entry in the account of its sink. -/
def noted (r : Reply) (e : Entry) : Reply := { r with sink := { r.sink with account := e :: r.sink.account } }

@[simp] theorem account_noted (r : Reply) (e : Entry) : (r.noted e).sink.account = e :: r.sink.account := rfl

@[simp] theorem buffer_noted (r : Reply) (e : Entry) : (r.noted e).buffer = r.buffer := rfl

@[simp] theorem committed_noted (r : Reply) (e : Entry) : (r.noted e).committed = r.committed := rfl

/-- The refusal of a call. -/
def refusalOf (r : Reply) (c : Call) : Option Failure := (r.sink.call c).1

/-- A call is entered in the account, and fails if it is refused. -/
theorem tell_eq (r : Reply) (c : Call) :
    r.tell c = ((r.refusalOf c).elim (.ok ()) .error, r.noted ⟨c, r.refusalOf c⟩) := by
  have hcall : r.sink.call c =
      (r.refusalOf c, { r.sink with account := ⟨c, r.refusalOf c⟩ :: r.sink.account }) := rfl
  unfold tell
  rw [hcall]
  cases r.refusalOf c <;> rfl

theorem calls_noted (r : Reply) (e : Entry) : (r.noted e).sink.calls = r.sink.calls ++ [e.call] := by
  simp [Sink.calls]

/-- Nothing has been refused if this is so of the last call and of those before. -/
theorem unrefused_noted {r : Reply} {e : Entry} :
    (r.noted e).sink.Unrefused ↔ e.refusal = none ∧ r.sink.Unrefused := by
  simp [Sink.Unrefused]

theorem mem_account_tell {r : Reply} {e : Entry} (h : e ∈ r.sink.account) (c : Call) :
    e ∈ (r.tell c).2.sink.account := by
  rw [tell_eq]
  exact List.mem_cons_of_mem _ h

/-- What a sink has been told stays in its account. -/
theorem mem_account_fail {r : Reply} {e : Entry} (h : e ∈ r.sink.account) (describe : External → String)
    (failure : Failure) : e ∈ (r.fail describe failure).sink.account := by
  unfold fail
  split
  · exact mem_account_tell h _
  · have htell := mem_account_tell (r := { r with buffer := "" }) h (.commit failure.blame.status)
    split
    · rename_i hcommitted
      rw [hcommitted] at htell
      exact mem_account_tell htell _
    · rename_i hrefused
      rwa [hrefused] at htell

theorem refusalOf_of_obliging {r : Reply} (h : r.sink.Obliging) (c : Call) : r.refusalOf c = none := by
  cases c with
  | abort failure => rfl
  | commit status => exact h.willing _ _
  | write chunk => exact h.willing _ _

/-- A call to an obliging sink is accepted, and the sink stays as it is. -/
theorem tell_of_obliging {r : Reply} (h : r.sink.Obliging) (c : Call) :
    r.tell c = (.ok (), r.noted ⟨c, none⟩) ∧ (r.noted ⟨c, none⟩).sink.Obliging := by
  constructor
  · rw [tell_eq, refusalOf_of_obliging h]
    rfl
  · exact ⟨h.willing, unrefused_noted.2 ⟨rfl, h.unrefused⟩⟩

/-! ## Appending texts -/

/-- The reply after texts have been appended, whether or not they could be handed over. -/
def appendAll (r : Reply) (texts : List String) : Reply := texts.foldl (fun r text => (r.append text).2) r

theorem appendAll_append (r : Reply) (texts more : List String) :
    r.appendAll (texts ++ more) = (r.appendAll texts).appendAll more := List.foldl_append

/-- A reply has been given a text. Either all of it is in the buffer and the sink has been told nothing; or the sink has
been told to commit, and then to write long chunks, which are the text together with the buffer unless something has
been refused. -/
inductive Given (text : String) (r : Reply) : Prop where
  | kept (committed : r.committed = false) (account : r.sink.account = []) (buffer : r.buffer = text)
      (short : text.utf8ByteSize < chunkSize)
  | handedOver (refusal : Option Failure) (written : List (String × Option Failure)) (committed : r.committed = true)
      (account : r.sink.account.reverse = ⟨.commit 200, refusal⟩ :: written.map .ofChunk)
      (long : ∀ w ∈ written, chunkSize ≤ w.1.utf8ByteSize)
      (text : r.sink.Unrefused → written ≠ [] ∧ String.join (written.map Prod.fst) ++ r.buffer = text)

/-- A reply that has not begun. -/
theorem given_ofSink (refuse : List Entry → Call → Option Failure) : (ofSink ⟨refuse, []⟩).Given "" :=
  .kept rfl rfl rfl (by decide)

variable {r : Reply} {text : String}

/-- A long buffer is written as one more chunk. -/
theorem writeOut_long (r : Reply) (h : chunkSize ≤ r.buffer.utf8ByteSize) :
    ∃ refusal, r.writeOut.2 = { r with buffer := "" }.noted ⟨.write r.buffer, refusal⟩ := by
  have hne : r.buffer.isEmpty = false := by
    refine Bool.eq_false_iff.2 fun hempty => ?_
    rw [String.isEmpty_iff.1 hempty] at h
    exact absurd h (by decide)
  refine ⟨{ r with buffer := "" }.refusalOf (.write r.buffer), ?_⟩
  rw [writeOut, hne, if_neg Bool.false_ne_true, tell_eq]

/-- Behind a commit and some chunks, a long buffer is handed over. -/
theorem given_writeOut {refusal : Option Failure} {written : List (String × Option Failure)}
    (hcommitted : r.committed = true)
    (haccount : r.sink.account.reverse = ⟨.commit 200, refusal⟩ :: written.map .ofChunk)
    (hlong : ∀ w ∈ written, chunkSize ≤ w.1.utf8ByteSize)
    (htext : r.sink.Unrefused → String.join (written.map Prod.fst) ++ r.buffer = text)
    (hbuffer : chunkSize ≤ r.buffer.utf8ByteSize) : r.writeOut.2.Given text := by
  obtain ⟨last, hwrite⟩ := writeOut_long r hbuffer
  rw [hwrite]
  refine .handedOver refusal (written ++ [(r.buffer, last)]) hcommitted ?_ ?_ fun hunrefused => ?_
  · simp [haccount, Entry.ofChunk]
  · simpa [or_imp, forall_and] using ⟨fun text refusal h => hlong (text, refusal) h, hbuffer⟩
  · simpa using htext (unrefused_noted.1 hunrefused).2

/-- **Appending a text adds it to what a reply has been given**, whatever the sink refuses. -/
theorem Given.append (h : r.Given text) (more : String) : (r.append more).2.Given (text ++ more) := by
  unfold Reply.append
  simp only
  cases h with
  | kept hcommitted haccount hbuffer hshort =>
    rw [hbuffer]
    split
    · rename_i hlong
      rw [flush, if_neg (by simp [hcommitted]), tell_eq]
      cases hrefusal : refusalOf _ (.commit 200) with
      | none =>
        exact @given_writeOut _ _ none [] rfl (by simp [haccount]) nofun (fun _ => by simp) hlong
      | some failure =>
        refine .handedOver (some failure) [] rfl (by simp [haccount]) nofun fun hunrefused => ?_
        cases (unrefused_noted.1 hunrefused).1
    · rename_i hshort
      exact .kept hcommitted haccount rfl (Nat.lt_of_not_le hshort)
  | handedOver refusal written hcommitted haccount hlong htext =>
    have hmore : r.sink.Unrefused → String.join (written.map Prod.fst) ++ (r.buffer ++ more) = text ++ more := by
      intro hunrefused
      rw [← String.append_assoc, (htext hunrefused).2]
    split
    · rename_i hbuffer
      rw [flush, if_pos hcommitted]
      exact given_writeOut hcommitted haccount hlong hmore hbuffer
    · exact .handedOver refusal written hcommitted haccount hlong fun hunrefused =>
        ⟨(htext hunrefused).1, hmore hunrefused⟩

/-- Appending texts adds all of them. -/
theorem Given.appendAll : ∀ {r : Reply} {text : String}, r.Given text → ∀ texts : List String,
    (r.appendAll texts).Given (text ++ String.join texts)
  | r, text, h, [] => by
    rw [String.join_nil, String.append_empty]
    exact h
  | r, text, h, more :: texts => by
    have hrest := (h.append more).appendAll texts
    rwa [String.append_assoc, ← String.join_cons] at hrest

/-- What a reply has been given is in the chunks and in the buffer, as long as nothing has been refused. -/
theorem Given.body (h : r.Given text) (hunrefused : r.sink.Unrefused) : r.sink.body ++ r.buffer = text := by
  cases h with
  | kept hcommitted haccount hbuffer hshort => simp [Sink.body, Sink.chunks, haccount, hbuffer]
  | handedOver refusal written hcommitted haccount hlong htext =>
    have hall : ∀ w ∈ written, w.2 = none := fun w hw =>
      hunrefused (.ofChunk w) (List.mem_reverse.1 (haccount ▸ List.mem_cons_of_mem _ (List.mem_map_of_mem hw)))
    have hchunks : r.sink.chunks = written.map Prod.fst := by
      rw [Sink.chunks, haccount, List.filterMap_cons_none rfl, List.filterMap_map]
      refine List.filterMap_eq_map_iff_forall_eq_some.2 fun w hw => ?_
      simp [Entry.ofChunk, hall w hw]
    rw [Sink.body, hchunks]
    exact (htext hunrefused).2

/-- What a sink has been told while a reply was given a text is orderly, and something if it has been committed. -/
theorem Given.orderly (h : r.Given text) :
    Call.Orderly r.sink.calls ∧ (r.committed = true → r.sink.calls ≠ []) ∧
      (r.committed = false → r.sink.calls = []) := by
  cases h with
  | kept hcommitted haccount hbuffer hshort => simp [Sink.calls, haccount, hcommitted, Call.Orderly]
  | handedOver refusal written hcommitted haccount hlong htext =>
    have hcalls : r.sink.calls = .commit 200 :: written.map fun w => .write w.1 := by
      simp [Sink.calls, haccount, Entry.ofChunk]
    rw [hcalls]
    refine ⟨⟨rfl, fun c hc => ?_⟩, by simp, by simp [hcommitted]⟩
    obtain ⟨w, -, rfl⟩ := List.mem_map.1 hc
    rfl

/-! ## Ending a reply -/

/-- The reply at the end, given how its handler has ended. After a fatal fault nothing happens any more. -/
def conclude (describe : External → String) (r : Reply) : Except Failure Unit → Reply
  | .ok () => r.complete.2
  | .error failure => if failure.fault.isFatal then r else r.fail describe failure

/-- Writing the buffer behind a commit is orderly. -/
theorem orderly_writeOut (h : Call.Orderly r.sink.calls) (hne : r.sink.calls ≠ []) :
    Call.Orderly r.writeOut.2.sink.calls := by
  unfold writeOut
  split
  · exact h
  · rw [tell_eq, calls_noted]
    exact h.concat hne rfl

/-- **A sink is told to commit first and only once**, however a reply ends. -/
theorem Given.orderly_conclude (h : r.Given text) (describe : External → String) (outcome : Except Failure Unit) :
    Call.Orderly (r.conclude describe outcome).sink.calls := by
  obtain ⟨horderly, hbegun, hopen⟩ := h.orderly
  cases outcome with
  | ok _ =>
    show Call.Orderly r.flush.2.sink.calls
    unfold flush
    split
    · rename_i hcommitted
      exact orderly_writeOut horderly (hbegun hcommitted)
    · rename_i hcommitted
      have hcalls (e : Entry) : ({ r with committed := true }.noted e).sink.calls = [e.call] := by
        rw [calls_noted]
        exact congrArg (· ++ [e.call]) (hopen (by simpa using hcommitted))
      rw [tell_eq]
      cases refusalOf _ (.commit 200) with
      | none => exact orderly_writeOut (by rw [hcalls]; exact ⟨rfl, nofun⟩) (by simp [hcalls])
      | some failure =>
        simp only [Option.elim_some, hcalls]
        exact ⟨rfl, nofun⟩
  | error failure =>
    unfold conclude
    simp only
    split
    · exact horderly
    · unfold fail
      split
      · rename_i hcommitted
        rw [tell_eq, calls_noted]
        exact horderly.concat (hbegun hcommitted) rfl
      · rename_i hcommitted
        have hcalls (e : Entry) : ({ r with buffer := "" }.noted e).sink.calls = [e.call] := by
          rw [calls_noted]
          exact congrArg (· ++ [e.call]) (hopen (by simpa using hcommitted))
        rw [tell_eq]
        cases refusalOf _ (.commit failure.blame.status) with
        | none =>
          simp only [Option.elim_none, tell_eq, calls_noted (noted _ _), hcalls]
          exact ⟨rfl, by simp [Call.commits]⟩
        | some refused =>
          simp only [Option.elim_some, hcalls]
          exact ⟨rfl, nofun⟩

/-! ## Obliging sinks -/

theorem obliging_writeOut (h : r.sink.Obliging) : r.writeOut.2.sink.Obliging := by
  unfold writeOut
  split
  · exact h
  · rw [(tell_of_obliging (r := { r with buffer := "" }) h _).1]
    exact (tell_of_obliging (r := { r with buffer := "" }) h _).2

theorem obliging_flush (h : r.sink.Obliging) : r.flush.2.sink.Obliging := by
  unfold flush
  split
  · exact obliging_writeOut h
  · obtain ⟨htell, hobliging⟩ := tell_of_obliging (r := { r with committed := true }) h (.commit 200)
    rw [htell]
    exact obliging_writeOut hobliging

/-- A sink stays obliging while texts are appended. -/
theorem obliging_appendAll : ∀ {r : Reply}, r.sink.Obliging → ∀ texts : List String,
    (r.appendAll texts).sink.Obliging
  | r, h, [] => h
  | r, h, text :: texts => by
    refine obliging_appendAll (r := (r.append text).2) ?_ texts
    unfold append
    simp only
    split
    · exact obliging_flush (r := { r with buffer := r.buffer ++ text }) h
    · exact h

/-- It stays obliging when the reply is concluded. -/
theorem obliging_conclude (h : r.sink.Obliging) (describe : External → String) :
    ∀ outcome, (r.conclude describe outcome).sink.Obliging
  | .ok () => obliging_flush h
  | .error failure => by
    dsimp only [conclude, fail]
    split
    · exact h
    · split
      · rw [(tell_of_obliging h _).1]
        exact (tell_of_obliging h _).2
      · obtain ⟨htell, hobliging⟩ :=
          tell_of_obliging (r := { r with buffer := "" }) h (.commit failure.blame.status)
        rw [htell]
        simp only [(tell_of_obliging hobliging _).1]
        exact (tell_of_obliging hobliging _).2

/-- The entries of chunks which have been accepted. -/
def accepted (chunks : List String) : List Entry := chunks.map fun chunk => .ofChunk (chunk, none)

/-- If nothing has been refused, the commit and all chunks have been accepted. -/
theorem account_of_unrefused {refusal : Option Failure} {written : List (String × Option Failure)}
    (haccount : r.sink.account.reverse = ⟨.commit 200, refusal⟩ :: written.map .ofChunk)
    (hunrefused : r.sink.Unrefused) :
    r.sink.account.reverse = ⟨.commit 200, none⟩ :: accepted (written.map Prod.fst) := by
  have hall : ∀ e ∈ r.sink.account.reverse, e.refusal = none := fun e he => hunrefused e (List.mem_reverse.1 he)
  rw [haccount] at hall ⊢
  obtain ⟨rfl, hwritten⟩ := List.forall_mem_cons.1 hall
  rw [accepted, List.map_map]
  refine congrArg _ (List.map_congr_left fun w hw => ?_)
  have hw : w.2 = none := hwritten _ (List.mem_map_of_mem hw)
  rw [Function.comp_apply, ← hw]

/-- What an obliging sink has been told: nothing as long as the text is short, and then to commit and to write. -/
theorem Given.told (h : r.Given text) (hsink : r.sink.Obliging) :
    (r.committed = false ∧ text.utf8ByteSize < chunkSize ∧ r.sink.account = [] ∧ r.buffer = text) ∨
    (r.committed = true ∧ chunkSize ≤ text.utf8ByteSize ∧ ∃ chunks, String.join chunks ++ r.buffer = text ∧
      r.sink.account.reverse = ⟨.commit 200, none⟩ :: accepted chunks ∧ ∀ c ∈ chunks, chunkSize ≤ c.utf8ByteSize) := by
  cases h with
  | kept hcommitted haccount hbuffer hshort => exact .inl ⟨hcommitted, hshort, haccount, hbuffer⟩
  | handedOver refusal written hcommitted haccount hlong htext =>
    obtain ⟨hne, htext⟩ := htext hsink.unrefused
    refine .inr ⟨hcommitted, ?_, written.map Prod.fst, htext, account_of_unrefused haccount hsink.unrefused, ?_⟩
    · obtain ⟨w, rest, rfl⟩ := List.exists_cons_of_ne_nil hne
      have hfirst := hlong w List.mem_cons_self
      rw [← htext, List.map_cons, String.join_cons, String.utf8ByteSize_append, String.utf8ByteSize_append]
      omega
    · intro c hc
      obtain ⟨w, hw, rfl⟩ := List.mem_map.1 hc
      exact hlong w hw

variable {describe : External → String} {failure : Failure}

/-- **A failure before the first chunk is all that an obliging sink is told.** -/
theorem account_fail_short (h : r.Given text) (hsink : r.sink.Obliging) (hfatal : failure.fault.isFatal = false)
    (hshort : text.utf8ByteSize < chunkSize) : (r.conclude describe (.error failure)).sink.account.reverse =
      [⟨.commit failure.blame.status, none⟩, ⟨.write (failure.body describe), none⟩] := by
  obtain ⟨hcommitted, -, haccount, -⟩ | ⟨-, hlong, -⟩ := h.told hsink
  · obtain ⟨htell, hobliging⟩ := tell_of_obliging (r := { r with buffer := "" }) hsink (.commit failure.blame.status)
    rw [conclude, hfatal, if_neg Bool.false_ne_true, fail, hcommitted, if_neg Bool.false_ne_true, ← hcommitted, htell]
    simp only [(tell_of_obliging hobliging _).1, account_noted, haccount]
    rfl
  · exact absurd hshort (Nat.not_lt.2 hlong)

/-- **After the first chunk a failure aborts what has been committed**, and the chunks are the beginning of the text. -/
theorem account_fail_long (h : r.Given text) (hsink : r.sink.Obliging) (hfatal : failure.fault.isFatal = false)
    (hlong : chunkSize ≤ text.utf8ByteSize) : ∃ chunks rest, String.join chunks ++ rest = text ∧
      (r.conclude describe (.error failure)).sink.account.reverse =
        ⟨.commit 200, none⟩ :: accepted chunks ++ [⟨.abort failure, none⟩] := by
  obtain ⟨-, hshort, -⟩ | ⟨hcommitted, -, chunks, htext, haccount, -⟩ := h.told hsink
  · exact absurd hlong (Nat.not_le.2 hshort)
  · refine ⟨chunks, r.buffer, htext, ?_⟩
    simp only [conclude, hfatal, Bool.false_eq_true, if_false, fail, hcommitted, if_true,
      (tell_of_obliging hsink _).1, account_noted, List.reverse_cons, haccount]

/-- Writing the buffer out, of whatever length. -/
theorem account_writeOut (hsink : r.sink.Obliging) : ∃ last, String.join last = r.buffer ∧ last.length ≤ 1 ∧
    r.writeOut.2.sink.account.reverse = r.sink.account.reverse ++ accepted last := by
  unfold writeOut
  split
  · rename_i hempty
    exact ⟨[], (String.isEmpty_iff.1 hempty).symm, Nat.zero_le 1, by simp [accepted]⟩
  · refine ⟨[r.buffer], by simp, Nat.le_refl 1, ?_⟩
    rw [(tell_of_obliging (r := { r with buffer := "" }) hsink _).1]
    exact List.reverse_cons

/-- **A success is committed and written completely**, in chunks of which only the last may be short. -/
theorem account_complete (h : r.Given text) (hsink : r.sink.Obliging) : ∃ chunks, String.join chunks = text ∧
    (r.conclude describe (.ok ())).sink.account.reverse = ⟨.commit 200, none⟩ :: accepted chunks ∧
    ∀ c ∈ chunks.dropLast, chunkSize ≤ c.utf8ByteSize := by
  obtain ⟨hcommitted, -, haccount, hbuffer⟩ | ⟨hcommitted, -, chunks, htext, haccount, hlong⟩ := h.told hsink
  · obtain ⟨htell, hobliging⟩ := tell_of_obliging (r := { r with committed := true }) hsink (.commit 200)
    obtain ⟨last, hlast, hlength, hwrite⟩ := account_writeOut hobliging
    refine ⟨last, hlast.trans hbuffer, ?_, ?_⟩
    · simp only [conclude, complete, flush, hcommitted, Bool.false_eq_true, if_false]
      simp only [htell, hwrite, account_noted, haccount]
      rfl
    · intro c hc
      have hpos := List.length_pos_of_mem hc
      rw [List.length_dropLast] at hpos
      omega
  · obtain ⟨last, hlast, hlength, hwrite⟩ := account_writeOut hsink
    refine ⟨chunks ++ last, by rw [String.join_append, hlast, htext], ?_, fun c hc => ?_⟩
    · simp only [conclude, complete, flush, hcommitted, if_true, hwrite, haccount, accepted, List.map_append]
      rfl
    · refine hlong c ?_
      match last, hlength with
      | [], _ => exact List.dropLast_subset _ (by simpa using hc)
      | [_], _ => simpa using hc

end Reply

/-! ## Handlers -/

namespace Handler

variable {α β : Type}

/-- All that a handler does to the reply is to append texts. -/
def Appends (h : Handler α) : Prop := ∀ x, ∃ texts, (h.run x).2.reply = x.reply.appendAll texts

theorem appends_of_reply {h : Handler α} (hreply : ∀ x, (h.run x).2.reply = x.reply) : h.Appends :=
  fun x => ⟨[], hreply x⟩

theorem appends_pure (a : α) : Appends (pure a : Handler α) := appends_of_reply fun _ => rfl

theorem appends_fail (failure : Failure) : Appends (fail failure : Handler α) := appends_of_reply fun _ => rfl

theorem appends_lift (a : Except Failure α) : Appends (lift a) := appends_of_reply fun _ => rfl

theorem appends_check (a : Except Cause α) : Appends (check a) := appends_lift _

theorem appends_checkpoint : Appends checkpoint := appends_of_reply fun _ => rfl

theorem appends_within (action : Session.Run α) : Appends (within action) :=
  appends_of_reply fun x => by rw [run_within]

theorem appends_write (text : String) : Appends (write text) := fun _ => ⟨[text], rfl⟩

theorem Appends.bind {h : Handler α} {f : α → Handler β} (hh : h.Appends) (hf : ∀ a, (f a).Appends) :
    (h >>= f).Appends := by
  intro x
  obtain ⟨texts, hreply⟩ := hh x
  rcases hrun : h.run x with ⟨failure | a, y⟩
  · exact ⟨texts, by rw [run_bind_error hrun, ← hreply, hrun]⟩
  · obtain ⟨more, hmore⟩ := hf a y
    exact ⟨texts ++ more, by rw [run_bind_ok hrun, hmore, Reply.appendAll_append, ← hreply, hrun]⟩

end Handler

namespace Output

open Handler

theorem appends_skip : ∀ (n : Nat) (feed : Feed), (skip n feed).Appends
  | 0, feed => appends_pure feed
  | n + 1, feed => by
    unfold skip
    refine (appends_within _).bind ?_
    rintro ⟨_ | _ | _, feed⟩
    · exact appends_pure feed
    · exact appends_fail _
    · exact appends_skip n feed

theorem appends_writeRecords (o : Output) : ∀ (n : Nat) (first : Bool) (feed : Feed),
    (o.writeRecords n first feed).Appends
  | 0, _, _ => appends_pure ()
  | n + 1, first, feed => by
    unfold writeRecords
    refine (appends_within _).bind ?_
    rintro ⟨_ | _ | _, feed⟩
    · exact appends_pure ()
    · exact appends_fail _
    · refine (appends_within _).bind fun r => ?_
      have hrest : (write (Json.print r.toValue) >>= fun _ => o.writeRecords n false feed).Appends :=
        (appends_write _).bind fun _ => appends_writeRecords o n false feed
      cases first with
      | true => exact hrest
      | false => exact (appends_write _).bind fun _ => hrest

/-- **Handling a request does nothing to the reply but append texts.** -/
theorem appends_handle (o : Output) (request : Request) : (o.handle request).Appends := by
  unfold handle
  split
  · unfold handleList
    refine (appends_check _).bind fun count => (appends_check _).bind fun offset => (appends_check _).bind fun _ => ?_
    refine (appends_lift _).bind fun query => (appends_within _).bind fun feed => ?_
    refine (appends_skip offset feed).bind fun feed => appends_checkpoint.bind fun _ => ?_
    exact (appends_write _).bind fun _ => (appends_writeRecords o count true feed).bind fun _ => appends_write _
  · unfold handleSingle
    split
    · exact appends_fail _
    · refine (appends_lift _).bind fun query => (appends_within _).bind fun feed => (appends_within _).bind ?_
      rintro ⟨_ | _ | _, feed⟩
      · exact appends_fail _
      · exact appends_fail _
      · exact (appends_within _).bind fun r => appends_write _

/-- How handling a request ends, and with which exchange. -/
def handled (fs : FileSystem) (o : Output) (request : Request) (watch : Watch) (sink : Sink) :
    Except Failure Unit × Exchange :=
  (o.handle request).run ⟨.new fs watch, .ofSink sink⟩

/-- A request is dispatched by handling it and concluding the reply. -/
theorem sink_dispatch (describe : External → String) (fs : FileSystem) (o : Output) (request : Request) (watch : Watch)
    (sink : Sink) : (o.dispatch describe fs request watch sink).sink =
      ((o.handled fs request watch sink).2.reply.conclude describe (o.handled fs request watch sink).1).sink := by
  unfold dispatch Reply.conclude handled
  rcases (o.handle request).run ⟨.new fs watch, .ofSink sink⟩ with ⟨failure | _, x⟩
  · simp only
    split <;> rfl
  · rfl

/-- How a request ends is how handling it ends, unless its reply cannot be completed. -/
theorem outcome_dispatch {describe : External → String} {fs : FileSystem} {o : Output} {request : Request}
    {watch : Watch} {sink : Sink} :
    (o.dispatch describe fs request watch sink).watch = (o.handled fs request watch sink).2.session.watch ∧
    ∀ failure, (o.handled fs request watch sink).1 = .error failure →
      (o.dispatch describe fs request watch sink).outcome = .error failure := by
  unfold dispatch handled
  rcases (o.handle request).run ⟨.new fs watch, .ofSink sink⟩ with ⟨failure | _, x⟩
  · simp only
    split <;> exact ⟨rfl, fun _ => id⟩
  · exact ⟨rfl, nofun⟩

/-- A sink that never refuses anything has not refused anything when a request has been dispatched. -/
theorem unrefused_dispatch (describe : External → String) (fs : FileSystem) (o : Output) (request : Request)
    (watch : Watch) : (o.dispatch describe fs request watch .willing).sink.Unrefused := by
  obtain ⟨texts, hreply⟩ := appends_handle o request ⟨.new fs watch, .ofSink .willing⟩
  have hsink := Reply.obliging_appendAll (r := .ofSink .willing) Sink.obliging_willing texts
  rw [sink_dispatch, handled, hreply]
  exact (Reply.obliging_conclude hsink describe _).unrefused

/-- **A response is never half reported.** Whatever a sink refuses, whatever a handler appends and however it ends: the
sink is told to commit first and only once, and its chunks are, with the buffer, what has been appended as long as
nothing has been refused. A sink that never refuses anything is told of a failure alone, if less than a chunk has been
appended, and otherwise to abort behind the beginning of the text; of a success it gets all, in chunks of which only the
last may be short. The requests for any output are answered in this way. -/
theorem dispatch_account (describe : External → String) (refuse : List Entry → Call → Option Failure) :
    (∀ texts, let r := (Reply.ofSink ⟨refuse, []⟩).appendAll texts
      r.sink.Unrefused → r.sink.body ++ r.buffer = String.join texts) ∧
    (∀ texts outcome, Call.Orderly
      (((Reply.ofSink ⟨refuse, []⟩).appendAll texts).conclude describe outcome).sink.calls) ∧
    (∀ texts,
      let account outcome := (((Reply.ofSink .willing).appendAll texts).conclude describe outcome).sink.account.reverse
      (∀ failure, failure.fault.isFatal = false →
        ((String.join texts).utf8ByteSize < Reply.chunkSize → account (.error failure) =
          [⟨.commit failure.blame.status, none⟩, ⟨.write (failure.body describe), none⟩]) ∧
        (Reply.chunkSize ≤ (String.join texts).utf8ByteSize → ∃ chunks rest,
          String.join chunks ++ rest = String.join texts ∧ account (.error failure) =
            ⟨.commit 200, none⟩ :: Reply.accepted chunks ++ [⟨.abort failure, none⟩])) ∧
      ∃ chunks, String.join chunks = String.join texts ∧
        account (.ok ()) = ⟨.commit 200, none⟩ :: Reply.accepted chunks ∧
        ∀ c ∈ chunks.dropLast, Reply.chunkSize ≤ c.utf8ByteSize) ∧
    ∀ fs (o : Output) request watch, ∃ texts, let ended := o.handled fs request watch ⟨refuse, []⟩
      ended.2.reply = (Reply.ofSink ⟨refuse, []⟩).appendAll texts ∧
      (o.dispatch describe fs request watch ⟨refuse, []⟩).sink = (ended.2.reply.conclude describe ended.1).sink := by
  have hgiven (refuse) (texts : List String) :
      ((Reply.ofSink ⟨refuse, []⟩).appendAll texts).Given (String.join texts) := by
    simpa using (Reply.given_ofSink refuse).appendAll texts
  refine ⟨fun texts => (hgiven refuse texts).body, fun texts outcome =>
    (hgiven refuse texts).orderly_conclude describe outcome, ?_, ?_⟩
  · intro texts
    have hsink := Reply.obliging_appendAll (r := .ofSink .willing) Sink.obliging_willing texts
    have hwilling := hgiven (fun _ _ => none) texts
    exact ⟨fun failure hfatal => ⟨Reply.account_fail_short hwilling hsink hfatal,
      Reply.account_fail_long hwilling hsink hfatal⟩, Reply.account_complete hwilling hsink⟩
  · intro fs o request watch
    obtain ⟨texts, hreply⟩ := appends_handle o request ⟨.new fs watch, .ofSink ⟨refuse, []⟩⟩
    exact ⟨texts, hreply, sink_dispatch describe fs o request watch _⟩

end Output

end RecordServer
