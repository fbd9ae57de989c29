import RecordServer.Proofs.Input.Order
import RecordServer.Stream.Join

/-!
# What a join yields

A pull takes the first of the positions which are still to come, or fails (`Takes`). If this is so for each source
(`Join.Honest`), it is so for their join, of which the positions are still to come that all sources have in common
(`Join.Serves`, `Join.pull_takes`). This holds in any world; where more is known of a world and of the errors of the
sources (`Join.Steady`), it is known of the errors of their join, too (`Join.pull_steady`). A join that reports its end
or an error is closed (`Join.Closes`).

Neither filling the heads nor dropping the small ones changes what is still to come (`Join.fill_coming`,
`Join.Common.dropBelow`). A round without an answer drops a head, so that the heads and the bounds of the sources, taken
together, limit the number of these rounds (`Join.potential`).
-/

namespace RecordServer

/-- What a pull takes of the positions to come, and what is left of them: the first is taken, or there is none. After a
fault some may be missing. -/
def Takes {ε : Type} (pulled : Pulled ε) (m rest : List Nat) : Prop :=
  match pulled with
  | none => m = [] ∧ rest = []
  | some (.ok p) => m = p :: rest
  | some (.error _) => rest <:+ m

/-- What is left are the last of the positions to come. -/
theorem Takes.suffix {ε : Type} {pulled : Pulled ε} {m rest : List Nat} (h : Takes pulled m rest) : rest <:+ m := by
  match pulled with
  | none => exact h.1 ▸ h.2 ▸ List.suffix_refl []
  | some (.ok p) => exact h ▸ List.suffix_cons p rest
  | some (.error _) => exact h

/-- The least of ascending positions comes first. -/
theorem Ascending.eq_cons {m : List Nat} {p : Nat} (hm : Ascending m) (hp : p ∈ m) (hle : ∀ q ∈ m, p ≤ q) :
    ∃ rest, m = p :: rest := by
  cases m with
  | nil => cases hp
  | cons first rest =>
    obtain ⟨hfirst, -⟩ := List.pairwise_cons.1 hm
    rcases List.mem_cons.1 hp with rfl | hp
    · exact ⟨rest, rfl⟩
    · exact absurd (hle first List.mem_cons_self) (Nat.not_le.2 (hfirst p hp))

namespace Join

variable {σ ω ε : Type} {next : σ → ω → Pulled ε × σ × ω} {rest : σ → List Nat} {bound : σ → Nat}
variable {good : σ → Prop} {calm : ω → Prop} {due : List Nat → ε → Prop}
variable {sources : List (σ × Option Nat)} {m : List Nat} {p : Nat}

/-! ## Positions to come -/

/-- A pull takes the first of the positions that are still to come of a source, and leaves less to pull. -/
structure Honest (next : σ → ω → Pulled ε × σ × ω) (rest : σ → List Nat) (bound : σ → Nat) : Prop where
  takes : ∀ s w, Takes (next s w).1 (rest s) (rest (next s w).2.1)
  bound_lt : ∀ s w, (next s w).1.isSome → bound (next s w).2.1 < bound s

/-- What good sources do in a calm world: a pull takes the first of the positions that are still to come, and leaves
less to pull, or there is none, or it fails with an error that is due in front of these positions. -/
structure Steady (next : σ → ω → Pulled ε × σ × ω) (rest : σ → List Nat) (bound : σ → Nat) (good : σ → Prop)
    (calm : ω → Prop) (due : List Nat → ε → Prop) : Prop where
  calm_next : ∀ {s w}, good s → calm w → calm (next s w).2.2
  ended : ∀ {s w}, good s → calm w → (next s w).1 = none → rest s = []
  taken : ∀ {s w p}, good s → calm w → (next s w).1 = some (.ok p) →
    rest s = p :: rest (next s w).2.1 ∧ good (next s w).2.1 ∧ bound (next s w).2.1 < bound s
  failed : ∀ {s w e}, good s → calm w → (next s w).1 = some (.error e) → due (rest s) e
  due_of_subset : ∀ {l m e}, m ⊆ l → due l e → due m e

/-- Honest sources are steady in any world, if any error may come at any time. -/
theorem Honest.steady (h : Honest next rest bound) :
    Steady next rest bound (fun _ => True) (fun _ => True) (fun _ _ => True) where
  calm_next _ _ := trivial
  ended {s w} _ _ hnone := by
    have htakes := h.takes s w
    rw [hnone] at htakes
    exact htakes.1
  taken {s w p} _ _ hp := by
    have htakes := h.takes s w
    rw [hp] at htakes
    exact ⟨htakes, trivial, h.bound_lt s w (by rw [hp]; rfl)⟩
  failed _ _ _ := trivial
  due_of_subset _ _ := trivial

/-- The positions still to come of a source, with its head. -/
def coming (rest : σ → List Nat) (source : σ × Option Nat) : List Nat := source.2.toList ++ rest source.1

/-- Ascending positions are those which several ascending lists have in common. -/
structure Common (lists : List (List Nat)) (m : List Nat) : Prop where
  each : ∀ l ∈ lists, Ascending l
  ascending : Ascending m
  mem : ∀ p, p ∈ m ↔ ∀ l ∈ lists, p ∈ l

/-- The number of pulls and drops that are still possible. -/
def potential (bound : σ → Nat) : List (σ × Option Nat) → Nat
  | [] => 0
  | source :: sources => bound source.1 + source.2.toList.length + potential bound sources

/-- The positions which a join has still to yield, and enough rounds for a pull. -/
inductive Serves (rest : σ → List Nat) (bound : σ → Nat) (rounds : Nat) (j : Join σ) : List Nat → Prop
  | closed (h : j.closed = true) : Serves rest bound rounds j []
  | opened {m : List Nat} (h : j.closed = false) (hne : j.sources ≠ []) (hm : Common (j.sources.map (coming rest)) m)
      (hrounds : potential bound j.sources < rounds) : Serves rest bound rounds j m

theorem Serves.mono {n k : Nat} {j : Join σ} (h : Serves rest bound n j m) (hle : n ≤ k) : Serves rest bound k j m := by
  cases h with
  | closed h => exact .closed h
  | opened h hne hm hrounds => exact .opened h hne hm (Nat.lt_of_lt_of_le hrounds hle)

/-- The sources of a join are good, unless it is closed. -/
def Sound (good : σ → Prop) (j : Join σ) : Prop := j.closed = false → ∀ source ∈ j.sources, good source.1

/-- A join that reports its end or an error is closed, and the error was due. -/
def Closes (due : List Nat → ε → Prop) (pulled : Pulled ε) (j : Join σ) (m : List Nat) : Prop :=
  match pulled with
  | none => j.closed = true
  | some (.ok _) => True
  | some (.error e) => j.closed = true ∧ due m e

/-! ## Heads -/

/-- Filling the heads keeps what is still to come; a source that has ended had nothing to come, and the error of one
that has failed was due. -/
theorem fill_coming (h : Steady next rest bound good calm due) : ∀ (sources : List (σ × Option Nat)) (w : ω),
    (∀ source ∈ sources, good source.1) → calm w → calm (fill next sources w).2.2 ∧
    match fill next sources w with
    | (.all, filled, _) => filled.map (coming rest) = sources.map (coming rest) ∧
        (∀ source ∈ filled, good source.1 ∧ source.2 ≠ none) ∧ potential bound filled ≤ potential bound sources
    | (.ended, _, _) => [] ∈ sources.map (coming rest)
    | (.failed e, _, _) => ∃ l ∈ sources.map (coming rest), due l e
  | [], w, _, hw => ⟨hw, rfl, by simp, Nat.le_refl _⟩
  | (s, some p) :: sources, w, hgood, hw => by
    obtain ⟨hs, hsources⟩ := List.forall_mem_cons.1 hgood
    obtain ⟨hcalm, hfill⟩ := fill_coming h sources w hsources hw
    unfold fill
    generalize fill next sources w = filled at hcalm hfill ⊢
    refine ⟨hcalm, ?_⟩
    obtain ⟨_ | _ | e, filled, v⟩ := filled
    · obtain ⟨hcoming, hheads, hpotential⟩ := hfill
      refine ⟨by simp [hcoming], List.forall_mem_cons.2 ⟨⟨hs, nofun⟩, hheads⟩, ?_⟩
      simpa [potential] using hpotential
    · exact List.mem_cons_of_mem _ hfill
    · obtain ⟨l, hl, hdue⟩ := hfill
      exact ⟨l, List.mem_cons_of_mem _ hl, hdue⟩
  | (s, none) :: sources, w, hgood, hw => by
    obtain ⟨hs, hsources⟩ := List.forall_mem_cons.1 hgood
    have hcalm := h.calm_next hs hw
    have hended := h.ended hs hw
    have htaken := @Steady.taken _ _ _ _ _ _ _ _ _ h s w
    have hfailed := @Steady.failed _ _ _ _ _ _ _ _ _ h s w
    unfold fill
    generalize next s w = pulled at hcalm hended htaken hfailed ⊢
    obtain ⟨_ | e | p, s', v⟩ := pulled
    · have hnone : coming rest (s, none) = [] := hended rfl
      exact ⟨hcalm, List.mem_cons.2 (.inl hnone.symm)⟩
    · exact ⟨hcalm, coming rest (s, none), List.mem_cons_self, hfailed hs hw rfl⟩
    · obtain ⟨hfirst, hs', hless⟩ := htaken hs hw rfl
      obtain ⟨hcalm, hfill⟩ := fill_coming h sources v hsources hcalm
      simp only
      generalize fill next sources v = filled at hcalm hfill ⊢
      refine ⟨hcalm, ?_⟩
      obtain ⟨_ | _ | e, filled, u⟩ := filled
      · obtain ⟨hcoming, hheads, hpotential⟩ := hfill
        have hfirst : coming rest (s', some p) = coming rest (s, none) := hfirst.symm
        have hless : bound s' < bound s := hless
        refine ⟨by rw [List.map_cons, List.map_cons, hfirst, hcoming],
          List.forall_mem_cons.2 ⟨⟨hs', nofun⟩, hheads⟩, ?_⟩
        simp only [potential, Option.toList_some, Option.toList_none, List.length_cons, List.length_nil] at hpotential ⊢
        omega
      · exact List.mem_cons_of_mem _ hfill
      · obtain ⟨l, hl, hdue⟩ := hfill
        exact ⟨l, List.mem_cons_of_mem _ hl, hdue⟩

/-- A position which is to come of all sources and is the head of one is the greatest head, unless there is another
one. -/
theorem top_eq_some (h : top sources = some p) :
    (∃ source ∈ sources, source.2 = some p) ∧ ∀ source ∈ sources, ∀ q ∈ source.2, q ≤ p := by
  obtain ⟨hmem, hle⟩ := List.max?_eq_some_iff.1 h
  refine ⟨List.mem_filterMap.1 hmem, fun source hsource q hq => hle q ?_⟩
  exact List.mem_filterMap.2 ⟨source, hsource, hq⟩

/-- Positions to come are not smaller than the head of a source. -/
theorem Common.le_of_head (hm : Common (sources.map (coming rest)) m) {source : σ × Option Nat}
    (hsource : source ∈ sources) (hp : source.2 = some p) : ∀ q ∈ m, p ≤ q := by
  intro q hq
  have hmem := List.mem_map_of_mem (f := coming rest) hsource
  have hcoming : coming rest source = p :: rest source.1 := by simp [coming, hp]
  have hasc := hm.each _ hmem
  have hin := (hm.mem q).1 hq _ hmem
  rw [hcoming] at hasc hin
  rcases List.mem_cons.1 hin with rfl | hin
  · exact Nat.le_refl _
  · exact Nat.le_of_lt ((List.pairwise_cons.1 hasc).1 q hin)

/-- If all heads are equal, they are the first position to come. -/
theorem Common.pop (hm : Common (sources.map (coming rest)) m) (hne : sources ≠ [])
    (hheads : ∀ source ∈ sources, source.2 = some p) :
    ∃ more, m = p :: more ∧ Common ((sources.map fun source => (source.1, none)).map (coming rest)) more := by
  have hcoming : ∀ source ∈ sources, coming rest source = p :: coming rest (source.1, none) := by
    intro source hsource
    simp [coming, hheads source hsource]
  have hp : p ∈ m := by
    refine (hm.mem p).2 fun l hl => ?_
    obtain ⟨source, hsource, rfl⟩ := List.mem_map.1 hl
    simp [hcoming source hsource]
  obtain ⟨source, hsource⟩ := List.exists_mem_of_ne_nil sources hne
  obtain ⟨more, rfl⟩ := hm.ascending.eq_cons hp (hm.le_of_head hsource (hheads source hsource))
  obtain ⟨hfirst, hmore⟩ := List.pairwise_cons.1 hm.ascending
  refine ⟨more, rfl, ?_, hmore, fun q => ?_⟩
  · intro l hl
    simp only [List.map_map, List.mem_map] at hl
    obtain ⟨source, hsource, rfl⟩ := hl
    exact (List.pairwise_cons.1 (hcoming source hsource ▸ hm.each _ (List.mem_map_of_mem hsource))).2
  · -- the positions behind the first are those of all sources behind their heads
    simp only [List.map_map, List.forall_mem_map, Function.comp_apply]
    constructor
    · intro hq source hsource
      have hin := (hm.mem q).1 (List.mem_cons_of_mem p hq) _ (List.mem_map_of_mem hsource)
      rw [hcoming source hsource] at hin
      exact (List.mem_cons.1 hin).resolve_left (Nat.ne_of_gt (hfirst q hq))
    · intro hall
      have hq : q ∈ p :: more := by
        refine (hm.mem q).2 fun l hl => ?_
        obtain ⟨source, hsource, rfl⟩ := List.mem_map.1 hl
        rw [hcoming source hsource]
        exact List.mem_cons_of_mem p (hall source hsource)
      refine (List.mem_cons.1 hq).resolve_left fun e => ?_
      have hasc := hcoming source hsource ▸ hm.each _ (List.mem_map_of_mem hsource)
      exact Nat.lt_irrefl p ((List.pairwise_cons.1 hasc).1 p (e ▸ hall source hsource))

/-- Dropping the heads below another head keeps what is still to come. -/
theorem Common.dropBelow (hm : Common (sources.map (coming rest)) m) {source : σ × Option Nat}
    (hsource : source ∈ sources) (hp : source.2 = some p) : Common ((dropBelow p sources).map (coming rest)) m := by
  have hle := hm.le_of_head hsource hp
  have hdrop : ∀ source ∈ sources, Ascending (coming rest (source.1, source.2.filter fun q => decide (p ≤ q))) ∧
      ∀ q, p ≤ q → (q ∈ coming rest (source.1, source.2.filter fun q => decide (p ≤ q)) ↔ q ∈ coming rest source) := by
    rintro ⟨s, _ | head⟩ hsource
    · exact ⟨hm.each _ (List.mem_map_of_mem hsource), fun q _ => Iff.rfl⟩
    · have hasc := hm.each _ (List.mem_map_of_mem hsource)
      by_cases hhead : p ≤ head
      · simpa [Option.filter, hhead] using hasc
      · simp only [Option.filter, hhead, decide_false, Bool.false_eq_true, if_false]
        refine ⟨(List.pairwise_cons.1 hasc).2, fun q hq => ?_⟩
        simp only [coming, Option.toList_none, Option.toList_some, List.nil_append, List.cons_append, List.mem_cons]
        exact ⟨.inr, fun h => h.resolve_left fun e => hhead (e ▸ hq)⟩
  refine ⟨?_, hm.ascending, fun q => ?_⟩
  · simp only [Join.dropBelow, List.map_map, List.forall_mem_map]
    exact fun source hsource => (hdrop source hsource).1
  · simp only [Join.dropBelow, List.map_map, List.forall_mem_map]
    constructor
    · intro hq source hsource
      exact ((hdrop source hsource).2 q (hle q hq)).2 ((hm.mem q).1 hq _ (List.mem_map_of_mem hsource))
    · intro hall
      have hq : p ≤ q := by
        have hkept : (source.1, source.2.filter fun q => decide (p ≤ q)) = source := by
          rw [Prod.ext_iff]
          simp [hp, Option.filter]
        have hin : q ∈ coming rest source := hkept ▸ hall source hsource
        have hasc := hm.each _ (List.mem_map_of_mem hsource)
        simp only [coming, hp, Option.toList_some, List.cons_append, List.nil_append] at hin hasc
        rcases List.mem_cons.1 hin with rfl | hin
        · exact Nat.le_refl _
        · exact Nat.le_of_lt ((List.pairwise_cons.1 hasc).1 q hin)
      refine (hm.mem q).2 fun l hl => ?_
      obtain ⟨other, hother, rfl⟩ := List.mem_map.1 hl
      exact ((hdrop other hother).2 q hq).1 (hall other hother)

/-! ## Rounds -/

theorem potential_none : ∀ sources : List (σ × Option Nat),
    potential bound (sources.map fun source => (source.1, none)) ≤ potential bound sources
  | [] => Nat.le_refl 0
  | source :: sources => by
    have ih := potential_none sources
    simp only [List.map_cons, potential, Option.toList_none, List.length_nil]
    omega

/-- Dropping a head lowers the potential. -/
theorem potential_dropBelow {p : Nat} : ∀ sources : List (σ × Option Nat),
    potential bound (dropBelow p sources) ≤ potential bound sources ∧
      ((∃ source ∈ sources, ∃ q, source.2 = some q ∧ q < p) →
        potential bound (dropBelow p sources) < potential bound sources)
  | [] => ⟨Nat.le_refl 0, by simp⟩
  | (s, head) :: sources => by
    obtain ⟨hle, hlt⟩ := potential_dropBelow (p := p) sources
    have hhead : (head.filter fun q => decide (p ≤ q)).toList.length ≤ head.toList.length ∧
        ((∃ q, head = some q ∧ q < p) →
          (head.filter fun q => decide (p ≤ q)).toList.length < head.toList.length) := by
      cases head with
      | none => simp
      | some q => by_cases hq : p ≤ q <;> simp [Option.filter, hq]
    simp only [Join.dropBelow, List.map_cons, potential] at hle hlt ⊢
    refine ⟨by omega, ?_⟩
    rintro ⟨source, hsource, q, hq, hsmall⟩
    rcases List.mem_cons.1 hsource with rfl | hsource
    · have hfirst := hhead.2 ⟨q, hq, hsmall⟩
      omega
    · have hrest := hlt ⟨source, hsource, q, hq, hsmall⟩
      omega

/-- A round takes the first position to come, or comes closer to an answer. -/
theorem round_takes (h : Steady next rest bound good calm due) {n : Nat} {j : Join σ}
    (hj : Serves rest bound (n + 1) j m) (hgood : j.Sound good) {w : ω} (hw : calm w) :
    calm (round next j w).2.2 ∧ (round next j w).2.1.Sound good ∧
    match round next j w with
    | (none, k, _) => Serves rest bound n k m
    | (some pulled, k, _) =>
      ∃ more, Takes pulled m more ∧ Serves rest bound (n + 1) k more ∧ Closes due pulled k m := by
  unfold round
  cases hj with
  | closed hclosed =>
    rw [if_pos hclosed]
    exact ⟨hw, hgood, [], ⟨rfl, rfl⟩, .closed hclosed, hclosed⟩
  | opened hopen hne hm hrounds =>
    rw [if_neg (by simp [hopen])]
    obtain ⟨hcalm, hfill⟩ := fill_coming h j.sources w (hgood hopen) hw
    generalize fill next j.sources w = filled at hcalm hfill ⊢
    obtain ⟨_ | _ | e, filled, v⟩ := filled
    · obtain ⟨hcoming, hheads, hpotential⟩ := hfill
      have hm : Common (filled.map (coming rest)) m := hcoming ▸ hm
      have hne : filled ≠ [] := by
        rintro rfl
        exact hne (List.map_eq_nil_iff.1 hcoming.symm)
      simp only
      cases htop : top filled with
      | none =>
        obtain ⟨source, hsource⟩ := List.exists_mem_of_ne_nil filled hne
        obtain ⟨q, hq⟩ := Option.ne_none_iff_exists'.1 (hheads source hsource).2
        have hnil := List.max?_eq_none_iff.1 htop
        exact absurd (List.mem_filterMap.2 ⟨source, hsource, hq⟩) (by rw [hnil]; exact List.not_mem_nil)
      | some p =>
        obtain ⟨⟨source, hsource, hp⟩, hgreatest⟩ := top_eq_some htop
        by_cases hall : (filled.all fun source => source.2 == some p) = true
        · simp only [hall, if_true]
          have hall : ∀ source ∈ filled, source.2 = some p := by simpa using hall
          obtain ⟨more, rfl, hmore⟩ := hm.pop hne hall
          refine ⟨hcalm, fun _ => List.forall_mem_map.2 fun source hs => (hheads source hs).1, more, rfl,
            .opened rfl (by simpa using hne) hmore ?_, trivial⟩
          exact Nat.lt_of_le_of_lt (Nat.le_trans (potential_none filled) hpotential) hrounds
        · simp only [hall]
          refine ⟨hcalm, fun _ => List.forall_mem_map.2 fun source hs => (hheads source hs).1,
            .opened rfl (by simpa [Join.dropBelow] using hne) (hm.dropBelow hsource hp) ?_⟩
          have hsmall : ∃ source ∈ filled, source.2 ≠ some p := by simpa using hall
          obtain ⟨small, hsmall, hother⟩ := hsmall
          obtain ⟨q, hq⟩ := Option.ne_none_iff_exists'.1 (hheads small hsmall).2
          have hlt : q < p := Nat.lt_of_le_of_ne (hgreatest small hsmall q hq) fun e => hother (e ▸ hq)
          have hrounds := Nat.le_of_lt_succ (Nat.lt_of_le_of_lt hpotential hrounds)
          exact Nat.lt_of_lt_of_le ((potential_dropBelow filled).2 ⟨small, hsmall, q, hq, hlt⟩) hrounds
    · have hnil : m = [] :=
        List.eq_nil_iff_forall_not_mem.2 fun q hq => absurd ((hm.mem q).1 hq [] hfill) List.not_mem_nil
      exact ⟨hcalm, nofun, [], ⟨hnil, rfl⟩, .closed rfl, rfl⟩
    · obtain ⟨l, hl, hdue⟩ := hfill
      have hsubset : m ⊆ l := fun q hq => (hm.mem q).1 hq l hl
      exact ⟨hcalm, nofun, [], List.nil_suffix, .closed rfl, rfl, h.due_of_subset hsubset hdue⟩

/-- **A pull of steady sources takes the first of the positions which they have in common**, if enough rounds are
allowed; the join closes with the end and with an error, and the error is due. -/
theorem pull_steady (h : Steady next rest bound good calm due) : ∀ {n : Nat} {j : Join σ} {w : ω},
    Serves rest bound n j m → j.Sound good → calm w →
    calm (pull next n j w).2.2 ∧ (pull next n j w).2.1.Sound good ∧
      ∃ more, Takes (pull next n j w).1.join m more ∧ Serves rest bound n (pull next n j w).2.1 more ∧
        Closes due (pull next n j w).1.join (pull next n j w).2.1 m
  | 0, j, w, hj, hgood, hw => by
    cases hj with
    | closed hclosed => exact ⟨hw, hgood, [], ⟨rfl, rfl⟩, .closed hclosed, hclosed⟩
    | opened _ _ _ hrounds => exact absurd hrounds (Nat.not_lt_zero _)
  | n + 1, j, w, hj, hgood, hw => by
    obtain ⟨hcalm, hsound, hround⟩ := round_takes h hj hgood hw
    unfold pull
    generalize round next j w = answer at hcalm hsound hround ⊢
    obtain ⟨_ | pulled, k, v⟩ := answer
    · obtain ⟨hcalm, hsound, more, htakes, hserves, hcloses⟩ := pull_steady h hround hsound hcalm
      exact ⟨hcalm, hsound, more, htakes, hserves.mono (Nat.le_succ n), hcloses⟩
    · exact ⟨hcalm, hsound, hround⟩

/-- **A pull of a join takes the first of the positions which all its sources have in common**, if enough rounds are
allowed. -/
theorem pull_takes (h : Honest next rest bound) {n : Nat} {j : Join σ} (hj : Serves rest bound n j m) (w : ω) :
    ∃ more, Takes (pull next n j w).1.join m more ∧ Serves rest bound n (pull next n j w).2.1 more := by
  obtain ⟨-, -, more, htakes, hserves, -⟩ := pull_steady h.steady hj (fun _ _ _ => trivial) trivial (w := w)
  exact ⟨more, htakes, hserves⟩

/-- A closed join yields nothing. -/
theorem pull_closed {j : Join σ} (hj : j.closed = true) (n : Nat) (w : ω) :
    (pull next n j w).1.join = none ∧ (pull next n j w).2.1.closed = true := by
  cases n with
  | zero => exact ⟨rfl, hj⟩
  | succ n => simp [pull, round, hj]

theorem potential_ofSources : ∀ (starts : List σ) (n : Nat),
    starts.foldl (fun rounds s => rounds + bound s) n = n + potential bound (ofSources starts).sources
  | [], n => rfl
  | s :: starts, n => by
    have ih := potential_ofSources starts (n + bound s)
    simp only [ofSources, List.map_cons, potential, Option.toList_none, List.length_nil, List.foldl_cons] at ih ⊢
    omega

/-- A join of sources which have not been pulled yet yields what they have in common. -/
theorem serves_ofSources {starts : List σ} (hne : starts ≠ []) (hm : Common (starts.map rest) m) {n : Nat}
    (hn : 0 < n) :
    Serves rest bound (starts.foldl (fun rounds s => rounds + bound s) n) (ofSources starts) m := by
  refine .opened rfl (by simpa [ofSources] using hne) ?_ ?_
  · have : (ofSources starts).sources.map (coming rest) = starts.map rest := by simp [ofSources, coming]
    exact this ▸ hm
  · rw [potential_ofSources]
    omega

end Join

end RecordServer
