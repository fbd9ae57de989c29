import RecordServer.Output.Handler
import RecordServer.Proofs.Outcome
import RecordServer.Proofs.Stream.Quiet

/-!
# Sessions without a check

What is loaded does not depend on the cancellation check: if loading records and their related records succeeds in a
session, it gives the same in a session with the same files and readers in which nothing is asked (`Session.Steady`).
If it fails there, it fails here with the same fault, unless the client has gone away, which a check that never fires
does not report. This is so for all relations, at any depth (`Relation.steady_resolveAll`), and for the records of an
output (`Output.steady_loadRecord`).
-/

namespace RecordServer

namespace Session

/-- A session with the same files and readers in which nothing is asked. -/
structure Alike (s t : Session) : Prop where
  files : t.files = s.files
  readers : t.readers = s.readers
  calm : t.watch.Calm

variable {α β γ δ : Type} {gone : Fault → Prop}

/-- The second outcome is related to the first, or the same fault, unless this one is that of a client who has gone
away. -/
def Agrees (gone : Fault → Prop) (related : α → β → Prop) :
    Except Fault α × Session → Except Fault β × Session → Prop
  | (.ok x, s), b => ∃ y t, b = (.ok y, t) ∧ related x y ∧ Alike s t ∧ s.watch.Heeds gone
  | (.error fault, _), b => gone fault ∨ ∃ t, b = (.error fault, t)

/-- The second comes to what the first has come to, in a session in which nothing is asked. -/
def Simulates (gone : Fault → Prop) (related : α → β → Prop) (a : Run α) (b : Run β) : Prop :=
  ∀ s t, Alike s t → s.watch.Heeds gone → Agrees gone related (a.run s) (b.run t)

/-- The outcome is the same if nothing is asked. -/
def Steady (gone : Fault → Prop) (a : Run α) : Prop := Simulates gone Eq a a

theorem Simulates.bind {related : α → β → Prop} {also : γ → δ → Prop} {a : Run α} {b : Run β} {f : α → Run γ}
    {g : β → Run δ} (hab : Simulates gone related a b)
    (hfg : ∀ x y, related x y → Simulates gone also (f x) (g y)) : Simulates gone also (a >>= f) (b >>= g) := by
  intro s t hst hs
  have hagrees := hab s t hst hs
  rcases ha : a.run s with ⟨fault | x, u⟩
  · rw [ha] at hagrees
    rw [run_bind_error ha]
    rcases hagrees with hgone | ⟨v, hb⟩
    · exact .inl hgone
    · exact .inr ⟨v, run_bind_error hb⟩
  · rw [ha] at hagrees
    obtain ⟨y, v, hb, hxy, huv, hu⟩ := hagrees
    rw [run_bind_ok ha, run_bind_ok hb]
    exact hfg x y hxy u v huv hu

theorem Steady.bind {a : Run α} {f : α → Run β} (ha : Steady gone a) (hf : ∀ x, Steady gone (f x)) :
    Steady gone (a >>= f) :=
  Simulates.bind ha fun x _ hxy => hxy ▸ hf x

theorem simulates_pure {related : α → β → Prop} {x : α} {y : β} (h : related x y) :
    Simulates gone related (pure x) (pure y) :=
  fun _ t hst hs => ⟨y, t, rfl, h, hst, hs⟩

theorem steady_pure (x : α) : Steady gone (pure x) := simulates_pure rfl

theorem steady_lift (a : Except Fault α) : Steady gone (lift a) := by
  intro s t hst hs
  cases a with
  | error fault => exact .inr ⟨t, rfl⟩
  | ok x => exact ⟨x, t, rfl, rfl, hst, hs⟩

theorem steady_mapM {f : α → Run β} (hf : ∀ x, Steady gone (f x)) : ∀ l : List α, Steady gone (l.mapM f)
  | [] => steady_pure []
  | x :: l => by
    rw [List.mapM_cons]
    exact (hf x).bind fun y => (steady_mapM hf l).bind fun ys => steady_pure (y :: ys)

/-! ## Loading and pulling -/

theorem steady_load (input : Input) (position : Position) : Steady gone (load input position) := by
  intro s t hst hs
  have hreader : ({ t with watch := t.watch.note (.loaded input.name position) } : Session).readerOf input =
      ({ s with watch := s.watch.note (.loaded input.name position) } : Session).readerOf input := by
    simp only [readerOf, hst.files, hst.readers]
  show Agrees gone Eq (s.loadIn input position) (t.loadIn input position)
  unfold loadIn
  simp only [hreader]
  generalize readerOf _ input = reader
  cases reader with
  | error fault => exact .inr ⟨_, rfl⟩
  | ok reader =>
    simp only
    generalize input.load reader position = loaded
    obtain ⟨fault | r, next⟩ := loaded
    · exact .inr ⟨_, rfl⟩
    · refine ⟨r, _, rfl, rfl, ⟨hst.files, ?_, hst.calm⟩, hs⟩
      simp only [keep, hst.readers]

/-- A feed that is executed, and the one which asks nothing. -/
theorem simulates_execute (q : Query) (input : Input) :
    Simulates gone (fun feed quiet => quiet = feed.quiet) (execute q input) (execute q input) := by
  intro s t hst hs
  have hguards : t.watch.guards = false := by
    rw [Watch.guards, hst.calm]
    rfl
  show Agrees gone _ (q.execute s.files input s.watch.guards, s) (q.execute t.files input t.watch.guards, t)
  rw [hst.files, hguards, @Query.execute_quiet _ _ s.watch.guards]
  cases q.execute s.files input s.watch.guards with
  | error fault => exact .inr ⟨t, rfl⟩
  | ok feed => exact ⟨feed.quiet, t, rfl, rfl, hst, hs⟩

/-- A pull of a feed, and of the one which asks nothing. -/
theorem pull_quiet {feed rest : Feed} {pulled : Pulled Fault} {s s' t : Session} (hst : Alike s t)
    (hs : s.watch.Heeds gone) (hrun : (pull feed).run s = (.ok (pulled, rest), s')) :
    (∃ fault, gone fault ∧ pulled = some (.error fault)) ∨
      ∃ t', (pull feed.quiet).run t = (.ok (pulled, rest.quiet), t') ∧ Alike s' t' ∧ s'.watch.Heeds gone := by
  have hrun :
      (Except.ok ((feed.next s.watch).1, (feed.next s.watch).2.1), { s with watch := (feed.next s.watch).2.2 }) =
      ((Except.ok (pulled, rest) : Except Fault _), s') := hrun
  simp only [Prod.mk.injEq, Except.ok.injEq] at hrun
  obtain ⟨⟨rfl, rfl⟩, rfl⟩ := hrun
  rcases feed.next_quiet s.watch t.watch ⟨hs, hst.calm⟩ with hgone | ⟨hpulled, hrest, hhushes⟩
  · exact .inl hgone
  · refine .inr ⟨{ t with watch := (feed.quiet.next t.watch).2.2 }, ?_, ⟨hst.files, hst.readers, hhushes.calm⟩,
      hhushes.heeds⟩
    rw [← hpulled, ← hrest]
    rfl

end Session

/-! ## Related records -/

namespace Relation

open Session

variable {gone : Fault → Prop}

/-- Gathering records from a feed and from the one which asks nothing. -/
theorem simulates_gather (input : Input) : ∀ (pulls : Nat) (wanted : Option Nat) (feed : Feed),
    Simulates gone Eq (gather input pulls wanted feed) (gather input pulls wanted feed.quiet)
  | 0, _, _ => simulates_pure rfl
  | pulls + 1, wanted, feed => by
    unfold gather
    intro s t hst hs
    have hpull : (pull feed).run s = (.ok ((feed.next s.watch).1, (feed.next s.watch).2.1),
        { s with watch := (feed.next s.watch).2.2 }) := rfl
    rw [run_bind_ok hpull]
    rcases pull_quiet hst hs hpull with ⟨fault, hgone, hpulled⟩ | ⟨v, hquiet, huv, hu⟩
    · -- a client who has gone away is a fault
      rw [hpulled]
      exact .inl hgone
    · rw [run_bind_ok hquiet]
      clear hpull hquiet
      generalize (feed.next s.watch).1 = pulled, (feed.next s.watch).2.1 = rest at *
      rcases pulled with _ | position
      · exact simulates_pure rfl _ v huv hu
      · refine Simulates.bind (steady_lift position) (fun p q hpq => ?_) _ v huv hu
        subst hpq
        refine Simulates.bind (steady_load input p) fun r r' hr => ?_
        subst hr
        split
        · exact simulates_pure rfl
        · refine (simulates_gather input pulls _ rest).bind fun more more' hmore => ?_
          exact simulates_pure (congrArg (r :: ·) hmore)

/-- The related records of a parent do not depend on the check. -/
theorem steady_children (name : String) (input : Input) (isArray : Bool) (limit : Nat) (sort : List Config.SortKey)
    (rules : List Rule) (parent : Record) : Steady gone (children name input isArray limit sort rules parent) := by
  unfold children
  refine (steady_lift _).bind fun query => Simulates.bind (simulates_execute query input) fun feed quiet hquiet => ?_
  subst hquiet
  rw [Feed.bound_quiet]
  refine (simulates_gather input _ _ feed).bind fun found found' hfound => ?_
  subst hfound
  exact (steady_lift _).bind fun records => steady_pure _

mutual

/-- The value which a relation attaches does not depend on the check. -/
theorem steady_resolve : ∀ (relation : Relation) (parent : Record), Steady gone (resolve relation parent)
  | mk name input isArray limit sort rules relations, parent => by
    unfold resolve
    refine Steady.bind (steady_children name input isArray limit sort rules parent) fun found => ?_
    exact Steady.bind (steady_mapM (steady_resolveAll relations) found) fun _ => steady_pure _

/-- Nor does a record with the values of several relations. -/
theorem steady_resolveAll : ∀ (relations : List Relation) (r : Record), Steady gone (resolveAll relations r)
  | [], r => by
    unfold resolveAll
    exact steady_pure r
  | relation :: rest, r => by
    unfold resolveAll
    exact Steady.bind (steady_resolve relation r) fun value => steady_resolveAll rest (r.set relation.name value)

end

end Relation

/-- **The records of an output do not depend on the check**, as far as they can be loaded; nor does the fault if they
cannot, unless the client has gone away. -/
theorem Output.steady_loadRecord {gone : Fault → Prop} (o : Output) (position : Position) :
    Session.Steady gone (o.loadRecord position) :=
  Session.Steady.bind (Session.steady_load o.input position) fun r => Relation.steady_resolveAll o.relations r

end RecordServer
