import RecordServer.Proofs.Stream.Undisturbed
import RecordServer.Query

/-!
# Feeds without a check

A feed that asks nothing (`Feed.quiet`) gives what the feed itself gives, unless that one reports that the client has
gone away (`Feed.next_quiet`), which it does not do under a watch that never fires. It is the feed of a request which
nobody cancels (`Query.execute_quiet`).
-/

namespace RecordServer

/-- A pull of a quiet source gives the same as a pull of the source, unless that one reports an error that is `gone`. -/
def Follows {ε σ τ ω : Type} (gone : ε → Prop) (quiet : σ → τ) (calm : ω → ω → Prop) (a : Pulled ε × σ × ω)
    (b : Pulled ε × τ × ω) : Prop :=
  (∃ e, gone e ∧ a.1 = some (.error e)) ∨ (b.1 = a.1 ∧ b.2.1 = quiet a.2.1 ∧ calm a.2.2 b.2.2)

/-! ## Joins -/

namespace Join

variable {σ ω ε : Type} {next : σ → ω → Pulled ε × σ × ω} {gone : ε → Prop} {quiet : σ → σ} {calm : ω → ω → Prop}

/-- Sources with their heads, each in its quiet form. -/
def quietAll (quiet : σ → σ) (sources : List (σ × Option Nat)) : List (σ × Option Nat) :=
  sources.map fun source => (quiet source.1, source.2)

/-- The join of the quiet sources. -/
def toQuiet (quiet : σ → σ) (j : Join σ) : Join σ := ⟨quietAll quiet j.sources, j.closed⟩

theorem top_quietAll (sources : List (σ × Option Nat)) : top (quietAll quiet sources) = top sources := by
  rw [top, quietAll, List.filterMap_map]
  rfl

theorem dropBelow_quietAll (p : Nat) (sources : List (σ × Option Nat)) :
    dropBelow p (quietAll quiet sources) = quietAll quiet (dropBelow p sources) := by
  simp [dropBelow, quietAll, Function.comp_def]

/-- Filling the heads of quiet sources. -/
theorem fill_quiet (h : ∀ s w v, calm w v → Follows gone quiet calm (next s w) (next (quiet s) v)) :
    ∀ (sources : List (σ × Option Nat)) (w v : ω), calm w v →
    (∃ e, gone e ∧ (fill next sources w).1 = .failed e) ∨
      ((fill next (quietAll quiet sources) v).1 = (fill next sources w).1 ∧
        (fill next (quietAll quiet sources) v).2.1 = quietAll quiet (fill next sources w).2.1 ∧
        calm (fill next sources w).2.2 (fill next (quietAll quiet sources) v).2.2)
  | [], w, v, hv => .inr ⟨rfl, rfl, hv⟩
  | (s, some p) :: sources, w, v, hv => by
    rcases fill_quiet h sources w v hv with hgone | ⟨hfilled, hsources, hcalm⟩
    · exact .inl hgone
    · exact .inr ⟨hfilled, congrArg ((quiet s, some p) :: ·) hsources, hcalm⟩
  | (s, none) :: sources, w, v, hv => by
    have hfollows := h s w v hv
    rw [quietAll, List.map_cons, ← quietAll]
    unfold fill
    generalize next s w = a at hfollows ⊢
    generalize next (quiet s) v = b at hfollows ⊢
    obtain ⟨pulled, s', w'⟩ := a
    obtain ⟨pulled', t, v'⟩ := b
    rcases hfollows with ⟨e, he, hgone⟩ | ⟨hpulled, hsource, hcalm⟩
    · simp only at hgone
      subst hgone
      exact .inl ⟨e, he, rfl⟩
    · simp only at hpulled hsource hcalm
      subst hpulled hsource
      rcases pulled' with _ | _ | p
      · exact .inr ⟨rfl, rfl, hcalm⟩
      · exact .inr ⟨rfl, rfl, hcalm⟩
      · rcases fill_quiet h sources w' v' hcalm with hgone | ⟨hfilled, hsources, hcalm⟩
        · exact .inl hgone
        · exact .inr ⟨hfilled, congrArg ((quiet s', some p) :: ·) hsources, hcalm⟩

/-- A round of quiet sources. -/
theorem round_quiet (h : ∀ s w v, calm w v → Follows gone quiet calm (next s w) (next (quiet s) v)) (j : Join σ)
    (w v : ω) (hv : calm w v) : (∃ e, gone e ∧ (round next j w).1 = some (some (.error e))) ∨
      ((round next (j.toQuiet quiet) v).1 = (round next j w).1 ∧
        (round next (j.toQuiet quiet) v).2.1 = (round next j w).2.1.toQuiet quiet ∧
        calm (round next j w).2.2 (round next (j.toQuiet quiet) v).2.2) := by
  have hfill := fill_quiet h j.sources w v hv
  have hclosed : (j.toQuiet quiet).closed = j.closed := rfl
  have hsources : (j.toQuiet quiet).sources = quietAll quiet j.sources := rfl
  unfold round
  rw [hclosed, hsources]
  split
  · exact .inr ⟨rfl, rfl, hv⟩
  · generalize fill next j.sources w = a at hfill ⊢
    generalize fill next (quietAll quiet j.sources) v = b at hfill ⊢
    obtain ⟨filled, sources, w'⟩ := a
    obtain ⟨filled', sources', v'⟩ := b
    rcases hfill with ⟨e, he, hgone⟩ | ⟨hfilled, hsources, hcalm⟩
    · simp only at hgone
      subst hgone
      exact .inl ⟨e, he, rfl⟩
    · simp only at hfilled hsources hcalm
      subst hfilled hsources
      rcases filled' with _ | _ | e
      · simp only [top_quietAll]
        cases top sources with
        | none => exact .inr ⟨rfl, rfl, hcalm⟩
        | some p =>
          have hall : ((quietAll quiet sources).all fun source => source.2 == some p) =
              sources.all fun source => source.2 == some p := by
            simp [quietAll, Function.comp_def]
          simp only [hall]
          split
          · exact .inr ⟨rfl, by simp [toQuiet, quietAll, Function.comp_def], hcalm⟩
          · exact .inr ⟨rfl, by rw [dropBelow_quietAll, toQuiet], hcalm⟩
      · exact .inr ⟨rfl, rfl, hcalm⟩
      · exact .inr ⟨rfl, rfl, hcalm⟩

/-- A pull of the join of quiet sources. -/
theorem pull_quiet (h : ∀ s w v, calm w v → Follows gone quiet calm (next s w) (next (quiet s) v)) :
    ∀ (rounds : Nat) (j : Join σ) (w v : ω), calm w v →
      (∃ e, gone e ∧ (pull next rounds j w).1 = some (some (.error e))) ∨
      ((pull next rounds (j.toQuiet quiet) v).1 = (pull next rounds j w).1 ∧
        (pull next rounds (j.toQuiet quiet) v).2.1 = (pull next rounds j w).2.1.toQuiet quiet ∧
        calm (pull next rounds j w).2.2 (pull next rounds (j.toQuiet quiet) v).2.2)
  | 0, _, _, _, hv => .inr ⟨rfl, rfl, hv⟩
  | rounds + 1, j, w, v, hv => by
    have hround := round_quiet h j w v hv
    unfold pull
    generalize round next j w = a at hround ⊢
    generalize round next (j.toQuiet quiet) v = b at hround ⊢
    obtain ⟨answer, k, w'⟩ := a
    obtain ⟨answer', k', v'⟩ := b
    rcases hround with ⟨e, he, hgone⟩ | ⟨hanswer, hjoin, hcalm⟩
    · simp only at hgone
      subst hgone
      exact .inl ⟨e, he, rfl⟩
    · simp only at hanswer hjoin hcalm
      subst hanswer hjoin
      cases answer' with
      | none => exact pull_quiet h rounds k w' v' hcalm
      | some pulled => exact .inr ⟨rfl, rfl, hcalm⟩

end Join

/-! ## Leaves and feeds -/

namespace Watch

/-- Nothing is asked. -/
def Calm (w : Watch) : Prop := w.check = none

/-- The cancellation never fires, unless a client who has gone away is expected. -/
def Heeds (gone : Fault → Prop) (w : Watch) : Prop := gone Fault.gone ∨ w.Undisturbed

/-- The first watch heeds who has gone away, the second one asks nothing. -/
structure Hushes (gone : Fault → Prop) (w v : Watch) : Prop where
  heeds : w.Heeds gone
  calm : v.Calm

variable {gone : Fault → Prop} {w v : Watch}

/-- A question, if it is asked at all, is denied, or the client may have gone away. -/
theorem Heeds.asked (h : w.Heeds gone) (guarded : Bool) : ∃ cancelled u,
    (if guarded then w.ask else (false, w)) = (cancelled, u) ∧ (cancelled = true → gone Fault.gone) ∧
      u.Heeds gone := by
  rcases h with hgone | hw
  · exact ⟨_, _, rfl, fun _ => hgone, .inl hgone⟩
  · obtain ⟨u, hasked, hu⟩ := hw.asked guarded
    exact ⟨false, u, hasked, nofun, .inr hu⟩

theorem Heeds.note (h : w.Heeds gone) (happening : Happening) : (w.note happening).Heeds gone := h

end Watch

variable {gone : Fault → Prop}

namespace Leaf

/-- A leaf which asks nothing. -/
def quiet : Leaf → Leaf
  | listed rest => listed rest
  | scan input _ rest => scan input false rest

@[simp] theorem bound_quiet (leaf : Leaf) : leaf.quiet.bound = leaf.bound := by
  cases leaf <;> rfl

theorem readOn_quiet (input : String) (guarded : Bool) : ∀ (rest : List (Except Fault (Option Position)))
    (w v : Watch), w.Hushes gone v →
    Follows gone quiet (Watch.Hushes gone) (readOn input guarded rest w) (readOn input false rest v)
  | [], w, v, hwv => by
    obtain ⟨cancelled, u, hasked, hgone, hu⟩ := hwv.heeds.asked guarded
    unfold readOn
    rw [hasked]
    cases cancelled with
    | false => exact .inr ⟨rfl, rfl, hu, hwv.calm⟩
    | true => exact .inl ⟨_, hgone rfl, rfl⟩
  | record :: rest, w, v, hwv => by
    obtain ⟨cancelled, u, hasked, hgone, hu⟩ := hwv.heeds.asked guarded
    have hnoted : (u.note (.scanned input)).Hushes gone (v.note (.scanned input)) := ⟨hu, hwv.calm⟩
    unfold readOn
    rw [hasked]
    cases cancelled with
    | false =>
      rcases record with fault | _ | position
      · exact .inr ⟨rfl, rfl, hnoted⟩
      · exact readOn_quiet input guarded rest _ _ hnoted
      · exact .inr ⟨rfl, rfl, hnoted⟩
    | true => exact .inl ⟨_, hgone rfl, rfl⟩

/-- A pull of a leaf which asks nothing. -/
theorem next_quiet (leaf : Leaf) (w v : Watch) (hwv : w.Hushes gone v) :
    Follows gone quiet (Watch.Hushes gone) (leaf.next w) (leaf.quiet.next v) := by
  match leaf with
  | listed [] => exact .inr ⟨rfl, rfl, hwv⟩
  | listed (item :: rest) => exact .inr ⟨rfl, rfl, hwv⟩
  | scan input guarded rest => exact readOn_quiet input guarded rest w v hwv

end Leaf

namespace Strand

/-- A strand which asks nothing. -/
def quiet : Strand → Strand
  | single leaf => single leaf.quiet
  | joined join rounds => joined (join.toQuiet Leaf.quiet) rounds

/-- A pull of a strand which asks nothing. -/
theorem next_quiet (s : Strand) (w v : Watch) (hwv : w.Hushes gone v) :
    Follows gone quiet (Watch.Hushes gone) (s.next w) (s.quiet.next v) := by
  cases s with
  | single leaf =>
    rcases leaf.next_quiet w v hwv with ⟨e, he, hgone⟩ | ⟨hpulled, hleaf, hcalm⟩
    · exact .inl ⟨e, he, hgone⟩
    · exact .inr ⟨hpulled, congrArg single hleaf, hcalm⟩
  | joined join rounds =>
    rcases Join.pull_quiet Leaf.next_quiet rounds join w v hwv with ⟨e, he, hgone⟩ | ⟨hpulled, hjoin, hcalm⟩
    · exact .inl ⟨e, he, congrArg Option.join hgone⟩
    · exact .inr ⟨congrArg Option.join hpulled, congrArg (joined · rounds) hjoin, hcalm⟩

theorem quiet_ofLeaves (leaves : List Leaf) : ofLeaves (leaves.map Leaf.quiet) = (ofLeaves leaves).quiet := by
  match leaves with
  | [] => rfl
  | [leaf] => rfl
  | first :: second :: rest =>
    simp [ofLeaves, quiet, Join.toQuiet, Join.quietAll, Join.ofSources, List.foldl_map]

end Strand

namespace Feed

/-- A feed which asks nothing. -/
def quiet (f : Feed) : Feed := ⟨f.strand.quiet, false, f.cancelled⟩

@[simp] theorem bound_quiet (f : Feed) : f.quiet.bound = f.bound := by
  obtain ⟨_ | _, _, _⟩ := f
  · simp [bound, quiet, Strand.quiet]
  · rfl

/-- **A feed which asks nothing gives the same as the feed**, unless that one reports that the client has gone away. -/
theorem next_quiet (f : Feed) (w v : Watch) (hwv : w.Hushes gone v) :
    Follows gone quiet (Watch.Hushes gone) (f.next w) (f.quiet.next v) := by
  obtain ⟨strand, guarded, _ | _⟩ := f
  · obtain ⟨cancelled, u, hasked, hgone, hu⟩ := hwv.heeds.asked guarded
    unfold next
    rw [hasked]
    cases cancelled with
    | false =>
      rcases strand.next_quiet u v ⟨hu, hwv.calm⟩ with ⟨e, he, hgone⟩ | ⟨hpulled, hstrand, hcalm⟩
      · exact .inl ⟨e, he, hgone⟩
      · exact .inr ⟨hpulled, congrArg (Feed.mk · false false) hstrand, hcalm⟩
    | true => exact .inl ⟨_, hgone rfl, rfl⟩
  · exact .inr ⟨rfl, rfl, hwv⟩

end Feed

/-! ## Queries -/

variable {fs : FileSystem} {input : Input} {guarded : Bool}

theorem Index.plain_quiet : plain fs input false = (plain fs input guarded).map Leaf.quiet := by
  unfold plain
  cases input.positions fs <;> rfl

theorem Index.positions_quiet (i : Index) (filters : Filters) :
    i.positions fs input filters false = (i.positions fs input filters guarded).map Leaf.quiet := by
  unfold positions
  cases i.coverage with
  | none =>
    simp only
    split
    · exact plain_quiet
    · unfold compareAll
      cases input.records fs <;> rfl
  | some c =>
    simp only
    cases verify i.name c input filters with
    | error fault => rfl
    | ok _ => cases c.tables.positionsOf filters <;> rfl

theorem Query.leaves_quiet (q : Query) :
    q.leaves fs input false = (q.leaves fs input guarded).map (List.map Leaf.quiet) := by
  unfold leaves
  induction q.groups with
  | nil => rfl
  | cons group groups ih =>
    rw [List.mapM_cons, List.mapM_cons, ih, @Index.positions_quiet fs input guarded group.1 group.2]
    cases group.1.positions fs input group.2 guarded with
    | error fault => rfl
    | ok leaf => cases groups.mapM fun group => group.1.positions fs input group.2 guarded <;> rfl

/-- **The feed of a request which nobody cancels asks nothing.** -/
theorem Query.execute_quiet (q : Query) : q.execute fs input false = (q.execute fs input guarded).map Feed.quiet := by
  unfold execute
  split
  · cases hplain : Index.plain fs input false with
    | error fault => rfl
    | ok leaf =>
      have hleaf := @Index.plain_quiet fs input false
      rw [hplain] at hleaf
      exact congrArg (fun leaf => Except.ok (Feed.ofStrand (.single leaf) false)) (Except.ok.inj hleaf)
  · rw [@leaves_quiet fs input guarded q]
    cases q.leaves fs input guarded with
    | error fault => rfl
    | ok leaves => exact congrArg (fun strand => Except.ok (Feed.ofStrand strand false)) (Strand.quiet_ofLeaves leaves)

end RecordServer
