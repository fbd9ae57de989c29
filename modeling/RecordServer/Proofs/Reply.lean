import RecordServer.Reply

/-!
# What a reply delivers

On a sink which never refuses anything, the chunks which have been written and the buffered text are together the text
that has been appended (`Reply.Holds`). So a reply that is completed delivers exactly this text
(`Reply.Holds.complete`), and one that fails is aborted or delivers another status than that of a success
(`Reply.Holds.fail`).
-/

namespace RecordServer

namespace Sink

/-- A sink that never refuses anything and has not been told to abort. -/
structure Intact (sink : Sink) : Prop where
  willing : ∀ account c, sink.refuse account c = none
  unaborted : sink.aborted? = none

theorem intact_willing : willing.Intact := ⟨fun _ _ => rfl, rfl⟩

variable {sink : Sink}

/-- A commit is accepted, and sets the status unless there is one. -/
theorem Intact.commit (h : sink.Intact) (status : Nat) : ∃ s, sink.call (.commit status) = (none, s) ∧ s.Intact ∧
    s.body = sink.body ∧ s.status? = sink.status?.or (some status) := by
  have hrefuse := h.willing sink.account (.commit status)
  refine ⟨_, Prod.ext hrefuse rfl, ⟨h.willing, h.unaborted⟩, ?_, ?_⟩
  · simp [call, body, chunks]
  · simp [call, status?, hrefuse, List.findSome?_append]

/-- A chunk is accepted and goes behind those before it. -/
theorem Intact.write (h : sink.Intact) (chunk : String) : ∃ s, sink.call (.write chunk) = (none, s) ∧ s.Intact ∧
    s.body = sink.body ++ chunk ∧ s.status? = sink.status? := by
  have hrefuse := h.willing sink.account (.write chunk)
  refine ⟨_, Prod.ext hrefuse rfl, ⟨h.willing, h.unaborted⟩, ?_, ?_⟩
  · simp [call, body, chunks, hrefuse]
  · simp [call, status?, List.findSome?_append]

end Sink

namespace Reply

/-- A reply has been given a text: it is in the chunks and the buffer, and no chunk is written before the status. -/
structure Holds (r : Reply) (text : String) : Prop where
  intact : r.sink.Intact
  body : r.sink.body ++ r.buffer = text
  status : r.sink.status? = if r.committed then some 200 else none
  begun : r.committed = false → r.sink.body = ""

variable {r : Reply} {text : String}

/-- A reply that has not begun. -/
theorem holds_ofSink : (ofSink .willing).Holds "" := ⟨Sink.intact_willing, rfl, rfl, fun _ => rfl⟩

/-- Writing the buffered text out keeps the text. -/
theorem Holds.writeOut (h : r.Holds text) (hc : r.committed = true) :
    ∃ s, r.writeOut = (.ok (), s) ∧ s.Holds text ∧ s.committed = true ∧ s.buffer = "" := by
  unfold Reply.writeOut
  split
  · rename_i hempty
    exact ⟨r, rfl, h, hc, String.isEmpty_iff.1 hempty⟩
  · obtain ⟨sink, hcall, hintact, hbody, hstatus⟩ := h.intact.write r.buffer
    refine ⟨⟨sink, "", r.committed⟩, by simp [tell, hcall], ⟨hintact, ?_, hstatus.trans h.status, ?_⟩, hc, rfl⟩
    · rw [String.append_empty, hbody, h.body]
    · intro hopen
      exact absurd hc (by simp [show r.committed = false from hopen])

/-- Handing the buffer over commits the status and keeps the text. -/
theorem Holds.flush (h : r.Holds text) :
    ∃ s, r.flush = (.ok (), s) ∧ s.Holds text ∧ s.committed = true ∧ s.buffer = "" := by
  unfold Reply.flush
  split
  · rename_i hc
    exact h.writeOut hc
  · rename_i hc
    have hc : r.committed = false := by simpa using hc
    obtain ⟨sink, hcall, hintact, hbody, hstatus⟩ := h.intact.commit 200
    have hholds : Holds ⟨sink, r.buffer, true⟩ text := by
      refine ⟨hintact, by rw [hbody, h.body], ?_, nofun⟩
      rw [hstatus, h.status, hc]
      rfl
    simp only [tell, hcall]
    exact hholds.writeOut rfl

/-- Appending text adds it to the text. -/
theorem Holds.append (h : r.Holds text) (more : String) :
    ∃ s, r.append more = (.ok (), s) ∧ s.Holds (text ++ more) := by
  have hholds : Holds { r with buffer := r.buffer ++ more } (text ++ more) :=
    ⟨h.intact, by rw [← String.append_assoc, h.body], h.status, h.begun⟩
  unfold Reply.append
  simp only
  split
  · obtain ⟨s, hflush, hs, -⟩ := hholds.flush
    exact ⟨s, hflush, hs⟩
  · exact ⟨_, rfl, hholds⟩

/-- **A reply that is completed delivers the text with the status of a success.** -/
theorem Holds.complete (h : r.Holds text) : ∃ s, r.complete = (.ok (), s) ∧ s.sink.status? = some 200 ∧
    s.sink.aborted? = none ∧ s.sink.body = text := by
  obtain ⟨s, hflush, hs, hc, hbuffer⟩ := h.flush
  refine ⟨s, hflush, by rw [hs.status, hc]; rfl, hs.intact.unaborted, ?_⟩
  rw [← hs.body, hbuffer, String.append_empty]

/-- **A reply that fails is aborted, or delivers the status of the failure and its text alone.** -/
theorem Holds.fail (h : r.Holds text) (describe : External → String) (failure : Failure) :
    (r.committed = true ∧ (r.fail describe failure).sink.aborted? = some failure) ∨
      (r.committed = false ∧ (r.fail describe failure).sink.status? = some failure.blame.status ∧
        (r.fail describe failure).sink.aborted? = none ∧
        (r.fail describe failure).sink.body = failure.body describe) := by
  unfold Reply.fail
  split
  · rename_i hc
    exact .inl ⟨hc, rfl⟩
  · rename_i hc
    have hc : r.committed = false := by simpa using hc
    obtain ⟨sink, hcall, hintact, hbody, hstatus⟩ := h.intact.commit failure.blame.status
    obtain ⟨sink', hcall', hintact', hbody', hstatus'⟩ := hintact.write (failure.body describe)
    refine .inr ⟨hc, ?_, ?_, ?_⟩
    · simp [tell, hcall, hcall', hstatus', hstatus, h.status, hc]
    · simp [tell, hcall, hcall', hintact'.unaborted]
    · simp [tell, hcall, hcall', hbody', hbody, h.begun hc]

end Reply

end RecordServer
