import RecordServer.Proofs.Monitor
import Mathlib.Data.List.Nodup

/-!
# Changes that are reported

Files are added to a monitor, the file system changes, and the monitor is called, in any order. What has to come out of
a row of such events is kept in a `Ledger`, which never looks into the monitor: the files with their modification times
as they were added, and the places of those that have been reported. A file is *due* when it has a fatal change and has
not been reported.

Every event keeps the monitor in accordance with the ledger (`Follows.apply`, `follows_run`), although a call leaves its
loop at the first file that is due and takes note of other changes on its way; so a call answers for the first file that
is due (`Follows.check`, `answers_run`). The rest is about ledgers: the places of the reported files are all different
(`nodup_reported`); files that are due and stay changed are reported one by one (`reported_after`), and no file waits
for longer than there are files in front of it (`mem_reported_after`). `check_reports` puts this together.
-/

namespace RecordServer.Monitor

/-- What happens to a monitor. -/
inductive Event where
  | watch (input path : String) (fatalChange : Bool)
  | change (fs : FileSystem)
  | check

namespace Event

/-- The files and the monitor after an event. -/
def apply : FileSystem × Monitor → Event → FileSystem × Monitor
  | (fs, m), watch input path fatalChange => (fs, m.watch fs input path fatalChange)
  | (_, m), change fs => (fs, m)
  | (fs, m), check => (fs, (m.check fs).2)

/-- Whether the monitor is called. -/
def isCheck : Event → Bool
  | check => true
  | _ => false

/-- The reason that is given if the monitor is called. -/
def answer (s : FileSystem × Monitor) : Event → Option String
  | check => (s.2.check s.1).1
  | watch .. | change _ => none

end Event

/-- The files and a monitor that was empty at first, after the given events. -/
def run (fs : FileSystem) (events : List Event) : FileSystem × Monitor := events.foldl Event.apply (fs, empty)

/-- The reasons that are given by the calls among the given events. -/
def answers : FileSystem × Monitor → List Event → List String
  | _, [] => []
  | s, e :: events => (e.answer s).toList ++ answers (e.apply s) events

/-! ## The ledger -/

/-- The files as they are, those that are watched with their modification times as they were added, and the places of
those that have been reported. -/
structure Ledger where
  present : FileSystem
  added : List Watched
  reported : List Nat

namespace Ledger

/-- The watched files with a fatal change, each with its place. -/
def changed (l : Ledger) : List (Watched × Nat) :=
  l.added.zipIdx.filter fun entry => entry.1.fatalChange && entry.1.isChanged l.present

/-- Those which have not been reported. -/
def due (l : Ledger) : List (Watched × Nat) := l.changed.filter fun entry => entry.2 ∉ l.reported

/-- What is known after an event. A call reports the first file that is due. -/
def next (l : Ledger) : Event → Ledger
  | .watch input path fatalChange =>
    { l with added := l.added ++ [⟨input, path, fatalChange, l.present.modified? path, false⟩] }
  | .change fs => { l with present := fs }
  | .check => { l with reported := l.reported ++ (l.due.head?.map Prod.snd).toList }

/-- What is known after the given events. -/
def after (l : Ledger) (events : List Event) : Ledger := events.foldl next l

end Ledger

/-- What is known of an empty monitor after the given events. -/
def ledger (fs : FileSystem) (events : List Event) : Ledger := Ledger.after ⟨fs, [], []⟩ events

variable {fs : FileSystem} {l : Ledger}

theorem Ledger.after_concat (l : Ledger) (events : List Event) (e : Event) :
    l.after (events ++ [e]) = (l.after events).next e := by
  simp [after]

theorem ledger_append (fs : FileSystem) (events rest : List Event) :
    ledger fs (events ++ rest) = (ledger fs events).after rest := by
  simp [ledger, Ledger.after]

theorem ledger_concat (fs : FileSystem) (events : List Event) (e : Event) :
    ledger fs (events ++ [e]) = (ledger fs events).next e :=
  Ledger.after_concat _ events e

theorem run_concat (fs : FileSystem) (events : List Event) (e : Event) :
    run fs (events ++ [e]) = e.apply (run fs events) := by
  simp [run]

theorem answers_concat (fs : FileSystem) (events : List Event) (e : Event) :
    answers (fs, empty) (events ++ [e]) = answers (fs, empty) events ++ (e.answer (run fs events)).toList := by
  have hfrom : ∀ s, answers s (events ++ [e]) =
      answers s events ++ (e.answer (events.foldl Event.apply s)).toList := by
    induction events with
    | nil => simp [answers]
    | cons first events ih => simp [answers, ih]
  exact hfrom (fs, empty)

/-! ## The monitor follows the ledger -/

/-- A file of the monitor and its entry. Only a fatal change has to be noticed together with its report. -/
structure Tracks (reported : List Nat) (entry : Watched × Nat) (w : Watched) : Prop where
  input : w.input = entry.1.input
  path : w.path = entry.1.path
  fatalChange : w.fatalChange = entry.1.fatalChange
  modified : w.modified = entry.1.modified
  noticed : entry.1.fatalChange = true → (w.noticed = true ↔ entry.2 ∈ reported)

/-- The files and the monitor are those that the ledger tells of. -/
structure Follows (l : Ledger) (s : FileSystem × Monitor) : Prop where
  present : s.1 = l.present
  files : List.Forall₂ (Tracks l.reported) l.added.zipIdx s.2.files
  inRange : ∀ i ∈ l.reported, i < l.added.length

variable {reported : List Nat} {entry : Watched × Nat} {entries : List (Watched × Nat)} {w : Watched}
  {files : List Watched}

theorem Tracks.reason (h : Tracks reported entry w) : w.reason = entry.1.reason := by
  rw [Watched.reason, Watched.reason, h.path, h.input]

theorem Tracks.isDue (h : Tracks reported entry w) (fs : FileSystem) :
    w.isDue fs = (entry.1.fatalChange && entry.1.isChanged fs && decide (entry.2 ∉ reported)) := by
  have hchanged : w.isChanged fs = entry.1.isChanged fs := by
    rw [Watched.isChanged, Watched.isChanged, h.path, h.modified]
  rw [Watched.isDue, hchanged, h.fatalChange]
  cases hfatal : entry.1.fatalChange with
  | false => rfl
  | true =>
    have hnoticed : w.noticed = decide (entry.2 ∈ reported) := Bool.eq_iff_iff.2 (by simpa using h.noticed hfatal)
    rw [hnoticed]
    by_cases hin : entry.2 ∈ reported <;> cases entry.1.isChanged fs <;> simp [hin]

/-- Reports of other places do not matter. -/
theorem Tracks.append (h : Tracks reported entry w) {more : List Nat} (hnot : entry.2 ∉ more) :
    Tracks (reported ++ more) entry w where
  input := h.input
  path := h.path
  fatalChange := h.fatalChange
  modified := h.modified
  noticed hfatal := by rw [h.noticed hfatal, List.mem_append, or_iff_left hnot]

theorem tracks_append (h : List.Forall₂ (Tracks reported) entries files) {more : List Nat}
    (hnot : ∀ entry ∈ entries, entry.2 ∉ more) : List.Forall₂ (Tracks (reported ++ more)) entries files := by
  induction h with
  | nil => exact .nil
  | cons hw _ ih =>
    obtain ⟨hfirst, hrest⟩ := List.forall_mem_cons.1 hnot
    exact .cons (hw.append hfirst) (ih hrest)

/-- **One call** answers for the first entry that is due, and reports it and no other. -/
theorem checkFiles_tracks (h : List.Forall₂ (Tracks reported) entries files) (hnodup : (entries.map Prod.snd).Nodup)
    (fs : FileSystem) {first : Option (Watched × Nat)}
    (hfirst : first = entries.find? fun entry =>
      entry.1.fatalChange && entry.1.isChanged fs && decide (entry.2 ∉ reported)) :
    (checkFiles fs files).1 = first.map (fun entry => entry.1.reason) ∧
      List.Forall₂ (Tracks (reported ++ (first.map Prod.snd).toList)) entries (checkFiles fs files).2 := by
  induction h with
  | nil =>
    subst hfirst
    exact ⟨rfl, .nil⟩
  | @cons entry w entries files hw hfiles ih =>
    obtain ⟨hother, hrest⟩ := List.nodup_cons.1 hnodup
    rw [List.find?_cons, ← hw.isDue fs] at hfirst
    cases h : w.isDue fs with
    | true =>
      simp only [h] at hfirst
      subst hfirst
      rw [checkFiles_of_isDue h]
      refine ⟨congrArg some hw.reason, .cons ?_ (tracks_append hfiles fun other hin => ?_)⟩
      · exact ⟨hw.input, hw.path, hw.fatalChange, hw.modified, fun _ => by simp⟩
      · -- the entries behind have other places
        intro hsame
        rw [Option.map_some, Option.toList_some, List.mem_singleton] at hsame
        exact hother (hsame ▸ List.mem_map_of_mem hin)
    | false =>
      simp only [h] at hfirst
      obtain ⟨noticed, hcheck, hfatal⟩ := @checkFiles_of_not_isDue fs files w h
      obtain ⟨hreason, htracks⟩ := ih hrest hfirst
      rw [hcheck]
      refine ⟨hreason, .cons ?_ htracks⟩
      have hnot : entry.2 ∉ (first.map Prod.snd).toList := by
        intro hin
        obtain ⟨found, hfound, hsame⟩ := Option.map_eq_some_iff.1 (Option.mem_toList.1 hin)
        rw [hfirst] at hfound
        exact hother (hsame ▸ List.mem_map_of_mem (List.mem_of_find?_eq_some hfound))
      have hkept := hw.append hnot
      refine ⟨hkept.input, hkept.path, hkept.fatalChange, hkept.modified, fun h => ?_⟩
      rw [hfatal (hw.fatalChange.trans h)]
      exact hkept.noticed h

/-- The places of the entries of a ledger are those of a list. -/
theorem snd_zipIdx (files : List Watched) : files.zipIdx.map Prod.snd = List.range files.length := by
  rw [List.zipIdx_map_snd, List.range_eq_range']

/-- The first file that is due, as a call finds it. -/
theorem head?_due (l : Ledger) : l.due.head? = l.added.zipIdx.find? fun entry =>
    entry.1.fatalChange && entry.1.isChanged l.present && decide (entry.2 ∉ l.reported) := by
  rw [Ledger.due, Ledger.changed, List.filter_filter, List.head?_filter]
  congr 1
  funext entry
  exact Bool.and_comm ..

variable {s : FileSystem × Monitor}

/-- A call in accordance with the ledger. -/
theorem Follows.check (h : Follows l s) :
    (s.2.check s.1).1 = l.due.head?.map (fun entry => entry.1.reason) ∧
      Follows (l.next .check) (s.1, (s.2.check s.1).2) := by
  have hnodup : (l.added.zipIdx.map Prod.snd).Nodup := by
    rw [snd_zipIdx]
    exact List.nodup_range
  obtain ⟨hreason, htracks⟩ := checkFiles_tracks h.files hnodup s.1 (h.present ▸ head?_due l)
  refine ⟨hreason, h.present, htracks, fun i hi => ?_⟩
  rcases List.mem_append.1 hi with hold | hnew
  · exact h.inRange i hold
  · obtain ⟨entry, hentry, rfl⟩ := Option.map_eq_some_iff.1 (Option.mem_toList.1 hnew)
    have hin := List.mem_of_mem_filter (List.mem_of_mem_filter (List.mem_of_head? hentry))
    exact List.snd_lt_of_mem_zipIdx hin

/-- **A step**: every event keeps the monitor in accordance with the ledger. -/
theorem Follows.apply (h : Follows l s) (e : Event) : Follows (l.next e) (e.apply s) := by
  cases e with
  | change fs => exact ⟨rfl, h.files, h.inRange⟩
  | check => exact h.check.2
  | watch input path fatalChange =>
    refine ⟨h.present, ?_, fun i hi => ?_⟩
    · show List.Forall₂ _ (List.zipIdx (l.added ++ _)) (s.2.files ++ _)
      rw [List.zipIdx_append]
      refine List.rel_append h.files (.cons ⟨rfl, rfl, rfl, ?_, fun _ => ?_⟩ .nil)
      · rw [h.present]
      · -- nothing has been reported at a new place
        refine iff_of_false Bool.false_ne_true fun hin => ?_
        have := h.inRange _ hin
        omega
    · have := h.inRange i hi
      simp only [Ledger.next, List.length_append]
      omega

/-- **A run**: any events keep it so. -/
theorem follows_run (fs : FileSystem) (events : List Event) : Follows (ledger fs events) (run fs events) := by
  induction events using List.reverseRecOn with
  | nil => exact ⟨rfl, .nil, fun _ hi => absurd hi List.not_mem_nil⟩
  | append_singleton events e ih =>
    rw [run_concat, ledger_concat]
    exact ih.apply e

/-- The reasons that have been given are those of the reported files. -/
theorem answers_run (fs : FileSystem) (events : List Event) : (answers (fs, empty) events).map some =
    (ledger fs events).reported.map fun i => (ledger fs events).added[i]?.map Watched.reason := by
  induction events using List.reverseRecOn with
  | nil => rfl
  | append_singleton events e ih =>
    have hfollows := follows_run fs events
    rw [answers_concat, List.map_append, ih, ledger_concat]
    cases e with
    | change fs => simp [Event.answer, Ledger.next]
    | watch input path fatalChange =>
      rw [Event.answer, Option.toList_none, List.map_nil, List.append_nil]
      refine List.map_congr_left fun i hi => ?_
      show _ = Option.map _ (_ ++ _)[i]?
      rw [List.getElem?_append_left (hfollows.inRange i hi)]
    | check =>
      have hcall : ((run fs events).2.check (run fs events).1).1 = _ := hfollows.check.1
      rw [Event.answer, hcall]
      show _ = List.map _ (_ ++ _)
      rw [List.map_append]
      congr 1
      cases hdue : (ledger fs events).due.head? with
      | none => rfl
      | some entry =>
        have hentry := List.mem_of_mem_filter (List.mem_of_mem_filter (List.mem_of_head? hdue))
        have hplace := List.mem_zipIdx_iff_getElem?.1 hentry
        simp [Ledger.next, hplace]

/-! ## Ledgers -/

/-- The files that are due are in the order in which they have been added. -/
theorem pairwise_due (l : Ledger) : (l.due.map Prod.snd).Pairwise (· < ·) := by
  have hsub : (l.due.map Prod.snd).Sublist (List.range l.added.length) := by
    rw [← snd_zipIdx]
    exact (List.filter_sublist.trans List.filter_sublist).map _
  exact List.pairwise_lt_range.sublist hsub

theorem not_mem_reported {l : Ledger} {entry : Watched × Nat} (h : entry ∈ l.due) : entry.2 ∉ l.reported := by
  simpa using (List.mem_filter.1 h).2

/-- No call reports what has been reported before. -/
theorem nodup_next (h : l.reported.Nodup) (e : Event) : (l.next e).reported.Nodup := by
  cases e with
  | watch input path fatalChange => exact h
  | change fs => exact h
  | check =>
    show (l.reported ++ _).Nodup
    cases hdue : l.due.head? with
    | none => simpa using h
    | some entry =>
      have hnot := not_mem_reported (List.mem_of_head? hdue)
      exact List.nodup_append'.2 ⟨h, by simp, by simpa using hnot⟩

theorem nodup_reported (fs : FileSystem) (events : List Event) : (ledger fs events).reported.Nodup := by
  induction events using List.reverseRecOn with
  | nil => exact List.nodup_nil
  | append_singleton events e ih =>
    rw [ledger_concat]
    exact nodup_next ih e

/-! ## One by one -/

/-- The number of calls. -/
def calls (events : List Event) : Nat := events.countP Event.isCheck

/-- A call takes the first file from those that are due. -/
theorem due_next_check (l : Ledger) : (l.next .check).due = l.due.tail := by
  have hfilter : (l.next .check).due = l.due.filter fun entry => entry.2 ∉ (l.due.head?.map Prod.snd).toList := by
    show l.changed.filter _ = (l.changed.filter _).filter _
    rw [List.filter_filter]
    refine List.filter_congr fun entry _ => ?_
    rw [← Bool.decide_and, decide_eq_decide, Ledger.next, List.mem_append, not_or, and_comm]
  have hordered := pairwise_due l
  rw [hfilter]
  cases hdue : l.due with
  | nil => rfl
  | cons first rest =>
    rw [hdue, List.map_cons] at hordered
    have hbehind := (List.pairwise_cons.1 hordered).1
    rw [List.filter_cons_of_neg (by simp), List.tail_cons]
    refine List.filter_eq_self.2 fun entry hin => ?_
    have := hbehind _ (List.mem_map_of_mem hin)
    have hne : entry.2 ≠ first.2 := by omega
    simpa using hne

theorem reported_next_of_not_check {e : Event} (h : e.isCheck = false) : (l.next e).reported = l.reported := by
  cases e with
  | watch input path fatalChange => rfl
  | change fs => rfl
  | check => cases h

/-- As long as the same files are changed, calls report those that are due **one by one**, in their order. -/
theorem reported_after (during : List Event) (l : Ledger)
    (h : ∀ events, events <+: during → (l.after events).changed = l.changed) :
    (l.after during).reported = l.reported ++ (l.due.map Prod.snd).take (calls during) := by
  induction during generalizing l with
  | nil => simp [Ledger.after, calls]
  | cons e during ih =>
    have hnext : (l.next e).changed = l.changed := h [e] (by simp)
    have hsame : ∀ events, events <+: during → ((l.next e).after events).changed = (l.next e).changed := by
      intro events hin
      exact (h (e :: events) (List.cons_prefix_cons.2 ⟨rfl, hin⟩)).trans hnext.symm
    refine (ih (l.next e) hsame).trans ?_
    cases he : e.isCheck with
    | false =>
      have hdue : (l.next e).due = l.due := by
        rw [Ledger.due, Ledger.due, hnext, reported_next_of_not_check he]
      have hcalls : calls (e :: during) = calls during := List.countP_cons_of_neg (by simp [he])
      rw [hdue, hcalls, reported_next_of_not_check he]
    | true =>
      cases e with
      | watch input path fatalChange => cases he
      | change fs => cases he
      | check =>
        have hcalls : calls (.check :: during) = calls during + 1 := List.countP_cons_of_pos rfl
        rw [due_next_check, hcalls]
        show l.reported ++ _ ++ _ = _
        cases l.due with
        | nil => simp
        | cons first rest => simp

/-- A call that does not report a file which is due reports one in front of it. -/
theorem reported_next_check {entry : Watched × Nat} (h : entry ∈ l.due) :
    entry.2 ∈ (l.next .check).reported ∨ ∃ i < entry.2, (l.next .check).reported = l.reported ++ [i] := by
  have hordered := pairwise_due l
  rw [Ledger.next]
  cases hdue : l.due with
  | nil => simp [hdue] at h
  | cons first rest =>
    rw [hdue, List.map_cons] at hordered
    rw [hdue] at h
    rcases List.mem_cons.1 h with rfl | hrest
    · exact .inl (by simp)
    · exact .inr ⟨first.2, (List.pairwise_cons.1 hordered).1 _ (List.mem_map_of_mem hrest), rfl⟩

/-- A file that is due and stays changed is passed over only in favour of files in front of it. -/
theorem reported_in_front {entry : Watched × Nat} (during : List Event)
    (hstays : ∀ events, events <+: during → entry ∈ (l.after events).changed) :
    entry.2 ∈ (l.after during).reported ∨ ∃ more, (l.after during).reported = l.reported ++ more ∧
      more.length = calls during ∧ ∀ i ∈ more, i < entry.2 := by
  induction during using List.reverseRecOn with
  | nil => exact .inr ⟨[], by simp [Ledger.after], rfl, by simp⟩
  | append_singleton during e ih =>
    rw [Ledger.after_concat]
    have hbefore := ih fun events hin => hstays events (hin.trans (List.prefix_append ..))
    rcases hbefore with hin | ⟨more, hmore, hlength, hfront⟩
    · left
      cases e with
      | watch input path fatalChange => exact hin
      | change fs => exact hin
      | check => exact List.mem_append_left _ hin
    · have hcalls : calls (during ++ [e]) = calls during + calls [e] := List.countP_append ..
      cases he : e.isCheck with
      | false =>
        have hnone : calls [e] = 0 := by simp [calls, he]
        rw [reported_next_of_not_check he]
        exact .inr ⟨more, hmore, by omega, hfront⟩
      | true =>
        have hone : calls [e] = 1 := by simp [calls, he]
        obtain rfl : e = .check := by cases e <;> first | rfl | cases he
        by_cases hin : entry.2 ∈ (l.after during).reported
        · exact .inl (List.mem_append_left _ hin)
        · have hdue : entry ∈ (l.after during).due :=
            List.mem_filter.2 ⟨hstays during (List.prefix_append ..), by simpa using hin⟩
          rcases reported_next_check hdue with hdone | ⟨i, hi, hnext⟩
          · exact .inl hdone
          · refine .inr ⟨more ++ [i], by rw [hnext, hmore, List.append_assoc], by simp [hlength, hcalls, hone], ?_⟩
            simpa [or_imp, forall_and] using ⟨hfront, hi⟩

/-- A file that stays changed is reported as soon as there have been more calls than there are files in front of it. -/
theorem mem_reported_after {entry : Watched × Nat} (during : List Event) (hnodup : (l.after during).reported.Nodup)
    (hstays : ∀ events, events <+: during → entry ∈ (l.after events).changed) (hcalls : entry.2 < calls during) :
    entry.2 ∈ (l.after during).reported := by
  rcases reported_in_front during hstays with hin | ⟨more, hmore, hlength, hfront⟩
  · exact hin
  · -- more different places than there are in front of the file
    rw [hmore] at hnodup
    have hsub : more ⊆ List.range entry.2 := fun i hi => List.mem_range.2 (hfront i hi)
    have hle := (List.subperm_of_subset (List.nodup_append'.1 hnodup).2.1 hsub).length_le
    rw [List.length_range] at hle
    omega

/-! ## Reports of a monitor -/

/-- **Each change is reported once, and none is missed.** After any events, a call gives a reason exactly if a file is
due, and it names the first such file; the reasons that have been given are those of the reported files, and no file is
reported twice. As long as the same files are changed, the calls that
follow report those that are due one by one and in order; whatever happens to other files, a file that stays changed is
reported when there have been more calls than there are files in front of it. -/
theorem check_reports (fs : FileSystem) (events : List Event) :
    let l := ledger fs events
    let s := run fs events
    (s.2.check s.1).1 = l.due.head?.map (fun entry => entry.1.reason) ∧
      (answers (fs, empty) events).map some = l.reported.map (fun i => l.added[i]?.map Watched.reason) ∧
      l.reported.Nodup ∧
      (∀ during, (∀ more, more <+: during → (ledger fs (events ++ more)).changed = l.changed) →
        (ledger fs (events ++ during)).reported = l.reported ++ (l.due.map Prod.snd).take (calls during)) ∧
      ∀ during entry, (∀ more, more <+: during → entry ∈ (ledger fs (events ++ more)).changed) →
        entry.2 < calls during → entry.2 ∈ (ledger fs (events ++ during)).reported := by
  refine ⟨(follows_run fs events).check.1, answers_run fs events, nodup_reported fs events, fun during hsame => ?_,
    fun during entry hstays hcalls => ?_⟩
  · rw [ledger_append]
    exact reported_after during _ fun more hmore => ledger_append fs events more ▸ hsame more hmore
  · have hnodup := nodup_reported fs (events ++ during)
    rw [ledger_append] at hnodup ⊢
    exact mem_reported_after during hnodup (fun more hmore => ledger_append fs events more ▸ hstays more hmore) hcalls

/-- Two files that are removed at once are reported by two calls. -/
example : answers (⟨[(⟨false, ["a"]⟩, ⟨[], 1⟩), (⟨false, ["b"]⟩, ⟨[], 1⟩)], [], 2⟩, empty)
    [.watch "u" "a" true, .watch "v" "b" true, .check, .change (.empty 3), .check, .check, .check] =
    ["The file a of the input 'u' has changed.", "The file b of the input 'v' has changed."] := by
  cbv

/-- A monitor of the files of inputs is one to which these have been added. -/
theorem run_inputs (fs : FileSystem) (inputs : List Input) :
    run fs (inputs.map fun i => .watch i.name i.path i.fatalChange) = (fs, ofInputs fs inputs) := by
  have hfrom : ∀ m, (inputs.map fun i => Event.watch i.name i.path i.fatalChange).foldl Event.apply (fs, m) =
      (fs, inputs.foldl (fun m i => m.watch fs i.name i.path i.fatalChange) m) := by
    induction inputs with
    | nil => exact fun _ => rfl
    | cons i inputs ih => exact fun m => ih (m.watch fs i.name i.path i.fatalChange)
  exact hfrom empty

end RecordServer.Monitor
