import Mathlib
import RecordServer.Proofs.Outcome
import RecordServer.Proofs.Stream.Join

/-!
# How much a join demands

The sources of a join may be endless. If one of them is finite, pulling the join on and on comes to an end, and of no
other source many positions are pulled that lie behind those of the finite one (`Join.exhaust_demands`).

A source is known by the positions which it can produce (`Join.Produces`), and what a join pulls of it is noted
(`Join.Noted`). While a join is running (`Join.Running`), it has pulled no more positions beyond a finite source than it
has pulled positions of this source: as long as the finite source has a head, there are none, and later each round pulls
one position of it. Each round drops a head below the bound of the finite source, so that the room below the bound
limits the number of rounds (`Join.room`).
-/

namespace RecordServer

namespace Join

variable {σ ω ε : Type} {next : σ → ω → Pulled ε × σ × ω}

/-! ## Sources -/

/-- From a source, positions can be pulled one after the other, each in some world, and another source is left. -/
inductive Produces (next : σ → ω → Pulled ε × σ × ω) (s : σ) : List Nat → σ → Prop
  | nil : Produces next s [] s
  | snoc {l : List Nat} {t u : σ} {p : Nat} {w v : ω} : Produces next s l t → next t w = (some (.ok p), u, v) →
      Produces next s (l ++ [p]) u

/-- Whatever a source produces is ascending, and it never fails. -/
structure Sorted (next : σ → ω → Pulled ε × σ × ω) (s : σ) : Prop where
  ascending : ∀ {l t}, Produces next s l t → Ascending l
  sound : ∀ {l t e} (w : ω), Produces next s l t → (next t w).1 ≠ some (.error e)

/-- A source has no other positions than those of a list, and produces them in its order. -/
def Within (next : σ → ω → Pulled ε × σ × ω) (s : σ) (l : List Nat) : Prop :=
  ∀ {l' t}, Produces next s l' t → l' <+: l

/-! ## Pulling to the end -/

/-- Pulls a join up to its end, with a bound on the rounds of each pull and one on the number of pulls. Gives the
positions and the join at the end, unless the bounds have not been enough or a source has failed. -/
def exhaust (next : σ → ω → Pulled ε × σ × ω) (rounds : Nat) : Nat → Join σ → ω → Option (List Nat × Join σ)
  | 0, _, _ => none
  | pulls + 1, j, w =>
    match pull next rounds j w with
    | (some none, j, _) => some ([], j)
    | (some (some (.ok p)), j, w) => (exhaust next rounds pulls j w).map fun (l, j) => (p :: l, j)
    | _ => none

/-! ## Notes -/

/-- A source, what it has been in the beginning, and the positions which have been pulled of it. -/
structure Noted (σ : Type) where
  origin : σ
  present : σ
  pulled : List Nat

namespace Noted

/-- Nothing has been pulled. -/
def start (s : σ) : Noted σ := ⟨s, s, []⟩

/-- Pulls a source and notes the position. -/
def pull (next : σ → ω → Pulled ε × σ × ω) (t : Noted σ) (w : ω) : Pulled ε × Noted σ × ω :=
  match next t.present w with
  | (some (.ok p), s, w) => (some (.ok p), ⟨t.origin, s, t.pulled ++ [p]⟩, w)
  | (pulled, s, w) => (pulled, ⟨t.origin, s, t.pulled⟩, w)

variable {t : Noted σ} {s : σ} {w v : ω}

theorem pull_end (h : next t.present w = (none, s, v)) : t.pull next w = (none, ⟨t.origin, s, t.pulled⟩, v) := by
  rw [pull, h]

theorem pull_error {e : ε} (h : next t.present w = (some (.error e), s, v)) :
    t.pull next w = (some (.error e), ⟨t.origin, s, t.pulled⟩, v) := by
  rw [pull, h]

theorem pull_position {p : Nat} (h : next t.present w = (some (.ok p), s, v)) :
    t.pull next w = (some (.ok p), ⟨t.origin, s, t.pulled ++ [p]⟩, v) := by
  rw [pull, h]

theorem pull_present (t : Noted σ) (w : ω) : next t.present w =
    ((t.pull next w).1, (t.pull next w).2.1.present, (t.pull next w).2.2) := by
  unfold pull
  obtain ⟨_ | _ | p, s, v⟩ := next t.present w <;> rfl

end Noted

/-- A join with a function applied to its sources. -/
def map {τ : Type} (φ : τ → σ) (j : Join τ) : Join σ := ⟨j.sources.map fun x => (φ x.1, x.2), j.closed⟩

section Map

variable {τ : Type} {next' : τ → ω → Pulled ε × τ × ω} {φ : τ → σ}
  (h : ∀ t w, next (φ t) w = ((next' t w).1, φ (next' t w).2.1, (next' t w).2.2))

include h

theorem fill_map : ∀ (sources : List (τ × Option Nat)) (w : ω), fill next (sources.map fun x => (φ x.1, x.2)) w =
    ((fill next' sources w).1, (fill next' sources w).2.1.map fun x => (φ x.1, x.2), (fill next' sources w).2.2)
  | [], _ => rfl
  | (t, some p) :: sources, w => by
    simp only [List.map_cons, fill, fill_map sources w]
  | (t, none) :: sources, w => by
    simp only [List.map_cons, fill, h t w]
    obtain ⟨_ | _ | p, u, v⟩ := next' t w
    · rfl
    · rfl
    · simp only [fill_map sources v, List.map_cons]

theorem round_map (j : Join τ) (w : ω) : round next (j.map φ) w =
    ((round next' j w).1, (round next' j w).2.1.map φ, (round next' j w).2.2) := by
  unfold round
  by_cases hclosed : j.closed = true
  · simp only [map, hclosed, if_true]
  have hfill := fill_map h j.sources w
  simp only [map, hclosed, Bool.false_eq_true, if_false]
  rw [hfill]
  obtain ⟨_ | _ | e, filled, v⟩ := fill next' j.sources w
  · have htop : top (filled.map fun x => (φ x.1, x.2)) = top filled := by
      simp only [top, List.filterMap_map, Function.comp_def]
    simp only [htop]
    cases top filled with
    | none => rfl
    | some p =>
      simp only [List.all_map, Function.comp_def]
      split
      · simp only [List.map_map, Function.comp_def]
      · simp only [dropBelow, List.map_map, Function.comp_def]
  · rfl
  · rfl

theorem pull_map : ∀ (n : Nat) (j : Join τ) (w : ω), pull next n (j.map φ) w =
    ((pull next' n j w).1, (pull next' n j w).2.1.map φ, (pull next' n j w).2.2)
  | 0, _, _ => rfl
  | n + 1, j, w => by
    unfold pull
    rw [round_map h]
    obtain ⟨_ | answer, k, v⟩ := round next' j w
    · exact pull_map n k v
    · rfl

theorem exhaust_map (rounds : Nat) : ∀ (pulls : Nat) (j : Join τ) (w : ω), exhaust next rounds pulls (j.map φ) w =
    (exhaust next' rounds pulls j w).map fun (l, k) => (l, k.map φ)
  | 0, _, _ => rfl
  | pulls + 1, j, w => by
    unfold exhaust
    rw [pull_map h]
    obtain ⟨_ | _ | _ | p, k, v⟩ := pull next' rounds j w
    · rfl
    · rfl
    · rfl
    · simp only [exhaust_map rounds pulls k v, Option.map_map]
      rfl

end Map

/-! ## Filling the heads -/

/-- What becomes of a source when the heads are filled: it stays as it is, it is pulled and the position is its head, or
it gives none and has no head. -/
inductive Fills (next : σ → ω → Pulled ε × σ × ω) : Noted σ × Option Nat → Noted σ × Option Nat → Prop
  | kept {x : Noted σ × Option Nat} : Fills next x x
  | taken {t : Noted σ} {s : σ} {p : Nat} {w v : ω} : next t.present w = (some (.ok p), s, v) →
      Fills next (t, none) (⟨t.origin, s, t.pulled ++ [p]⟩, some p)
  | given {t : Noted σ} {s : σ} : Fills next (t, none) (⟨t.origin, s, t.pulled⟩, none)

theorem Fills.origin {x y : Noted σ × Option Nat} (h : Fills next x y) : y.1.origin = x.1.origin := by
  cases h <;> rfl

theorem origins_of_fills {sources filled : List (Noted σ × Option Nat)}
    (h : List.Forall₂ (Fills next) sources filled) :
    (filled.map fun x => x.1.origin) = sources.map fun x => x.1.origin := by
  induction h with
  | nil => rfl
  | cons hfirst _ ih => rw [List.map_cons, List.map_cons, hfirst.origin, ih]

theorem fills_refl (sources : List (Noted σ × Option Nat)) : List.Forall₂ (Fills next) sources sources :=
  List.forall₂_same.2 fun _ _ => .kept

/-- Filling the heads pulls each source at most once; if all heads are there, none has been left out, and a failure is
that of a source. -/
theorem fill_fills : ∀ (sources : List (Noted σ × Option Nat)) (w : ω),
    List.Forall₂ (Fills next) sources (fill (Noted.pull next) sources w).2.1 ∧
    match (fill (Noted.pull next) sources w).1 with
    | .all => ∀ x ∈ (fill (Noted.pull next) sources w).2.1, x.2 ≠ none
    | .ended => True
    | .failed e => ∃ x ∈ sources, ∃ v, (next x.1.present v).1 = some (.error e)
  | [], _ => ⟨.nil, by simp [fill]⟩
  | (t, some p) :: sources, w => by
    obtain ⟨hfills, hrest⟩ := fill_fills sources w
    unfold fill
    generalize fill (Noted.pull next) sources w = filled at hfills hrest ⊢
    obtain ⟨_ | _ | e, filled, v⟩ := filled
    · exact ⟨.cons .kept hfills, List.forall_mem_cons.2 ⟨Option.some_ne_none p, hrest⟩⟩
    · exact ⟨.cons .kept hfills, trivial⟩
    · obtain ⟨x, hx, hfailed⟩ := hrest
      exact ⟨.cons .kept hfills, x, List.mem_cons_of_mem _ hx, hfailed⟩
  | (t, none) :: sources, w => by
    unfold fill
    rcases hnext : next t.present w with ⟨_ | e | p, s, v⟩
    · rw [Noted.pull_end hnext]
      exact ⟨.cons .given (fills_refl sources), trivial⟩
    · rw [Noted.pull_error hnext]
      exact ⟨.cons .given (fills_refl sources), (t, none), List.mem_cons_self, w, by rw [hnext]⟩
    · obtain ⟨hfills, hrest⟩ := fill_fills sources v
      rw [Noted.pull_position hnext]
      simp only
      generalize fill (Noted.pull next) sources v = filled at hfills hrest ⊢
      obtain ⟨_ | _ | e, filled, u⟩ := filled
      · exact ⟨.cons (.taken hnext) hfills, List.forall_mem_cons.2 ⟨Option.some_ne_none p, hrest⟩⟩
      · exact ⟨.cons (.taken hnext) hfills, trivial⟩
      · obtain ⟨x, hx, hfailed⟩ := hrest
        exact ⟨.cons (.taken hnext) hfills, x, List.mem_cons_of_mem _ hx, hfailed⟩

/-! ## Positions beyond a finite source -/

/-- The positions which lie behind all positions of a list. -/
def beyond (l pulled : List Nat) : List Nat := pulled.filter fun p => l.all fun q => decide (q < p)

/-- What has been noted of a source is so, and its head is what has been pulled last. -/
structure Tracked (next : σ → ω → Pulled ε × σ × ω) (x : Noted σ × Option Nat) : Prop where
  sorted : Sorted next x.1.origin
  produced : Produces next x.1.origin x.1.pulled x.1.present
  head : ∀ p ∈ x.2, x.1.pulled.getLast? = some p

/-- Of no source more positions have been pulled beyond a finite one than positions of the finite one. -/
def Few (next : σ → ω → Pulled ε × σ × ω) (sources : List (Noted σ × Option Nat)) : Prop :=
  ∀ x ∈ sources, ∀ l, Within next x.1.origin l → ∀ y ∈ sources, (beyond l y.1.pulled).length ≤ x.1.pulled.length

/-- Few positions have been pulled beyond a finite source, and none at all as long as it has a head. -/
structure Sparing (next : σ → ω → Pulled ε × σ × ω) (sources : List (Noted σ × Option Nat)) : Prop where
  tracked : ∀ x ∈ sources, Tracked next x
  few : Few next sources
  dropped : ∀ x ∈ sources, ∀ l, Within next x.1.origin l → ∀ y ∈ sources, beyond l y.1.pulled ≠ [] → x.2 = none

section Beyond

variable {x y : Noted σ × Option Nat} {l : List Nat} {sources filled : List (Noted σ × Option Nat)} {p : Nat}

/-- A pull adds at most one position. -/
theorem Fills.beyond_le (h : Fills next x y) (l : List Nat) :
    (beyond l y.1.pulled).length ≤ (beyond l x.1.pulled).length + 1 := by
  cases h with
  | kept => omega
  | given => simp
  | @taken t s p w v _ =>
    have hone : (beyond l [p]).length ≤ 1 := List.length_filter_le _ _
    have happend : beyond l (t.pulled ++ [p]) = beyond l t.pulled ++ beyond l [p] := List.filter_append ..
    simp only [happend, List.length_append]
    omega

theorem Fills.tracked (h : Fills next x y) (hx : Tracked next x) (hy : y.2 ≠ none) : Tracked next y := by
  cases h with
  | kept => exact hx
  | given => exact absurd rfl hy
  | taken hnext =>
    refine ⟨hx.sorted, .snoc hx.produced hnext, ?_⟩
    rintro p ⟨rfl⟩
    exact List.getLast?_concat

/-- The head of a source is the greatest of the positions which have been pulled. -/
theorem Tracked.le_head (h : Tracked next x) (hp : x.2 = some p) : ∀ q ∈ x.1.pulled, q ≤ p := by
  intro q hq
  have hasc := h.sorted.ascending h.produced
  obtain ⟨before, hpulled⟩ := List.getLast?_eq_some_iff.1 (h.head p hp)
  rw [hpulled] at hq hasc
  rcases List.mem_append.1 hq with hq | hq
  · exact Nat.le_of_lt ((List.pairwise_append.1 hasc).2.2 q hq p List.mem_cons_self)
  · exact Nat.le_of_eq (List.mem_singleton.1 hq)

/-- If positions have been pulled beyond a finite source, then so has been the head. -/
theorem Tracked.lt_head (h : Tracked next y) (hp : y.2 = some p) (hbeyond : beyond l y.1.pulled ≠ []) :
    ∀ q ∈ l, q < p := by
  intro q hq
  obtain ⟨r, hr⟩ := List.exists_mem_of_ne_nil _ hbeyond
  obtain ⟨hpulled, hall⟩ := List.mem_filter.1 hr
  have hlt : q < r := by simpa using List.all_eq_true.1 hall q hq
  exact Nat.lt_of_lt_of_le hlt (h.le_head hp r hpulled)

/-- The head of a finite source is one of its positions. -/
theorem Tracked.head_mem (h : Tracked next x) (hl : Within next x.1.origin l) (hp : x.2 = some p) : p ∈ l :=
  (hl h.produced).subset (List.mem_of_getLast? (h.head p hp))

/-- However filling the heads has ended, at most one position more has been pulled beyond a finite source than it
has. -/
theorem length_beyond_of_fills (h : Sparing next sources) (hfills : List.Forall₂ (Fills next) sources filled) :
    ∀ x ∈ filled, ∀ l, Within next x.1.origin l → ∀ y ∈ filled, (beyond l y.1.pulled).length ≤ l.length + 1 := by
  intro x' hx' l hl y' hy'
  obtain ⟨x, hx, hxx⟩ := mem_of_forall₂ hfills x' hx'
  obtain ⟨y, hy, hyy⟩ := mem_of_forall₂ hfills y' hy'
  rw [hxx.origin] at hl
  have hfew := h.few x hx l hl y hy
  have hlength := (hl (h.tracked x hx).produced).length_le
  have hle := hyy.beyond_le l
  omega

theorem tracked_of_filled (h : Sparing next sources) (hfills : List.Forall₂ (Fills next) sources filled)
    (hheads : ∀ x ∈ filled, x.2 ≠ none) : ∀ x ∈ filled, Tracked next x := by
  intro x' hx'
  obtain ⟨x, hx, hxx⟩ := mem_of_forall₂ hfills x' hx'
  exact hxx.tracked (h.tracked x hx) (hheads x' hx')

/-- With all heads there are still few positions beyond a finite source: it has been pulled as well, or there have been
none. -/
theorem few_of_filled (h : Sparing next sources) (hfills : List.Forall₂ (Fills next) sources filled)
    (hheads : ∀ x ∈ filled, x.2 ≠ none) : Few next filled := by
  intro x' hx' l hl y' hy'
  obtain ⟨x, hx, hxx⟩ := mem_of_forall₂ hfills x' hx'
  obtain ⟨y, hy, hyy⟩ := mem_of_forall₂ hfills y' hy'
  have hle := hyy.beyond_le l
  cases hxx with
  | kept =>
    obtain ⟨p, hp⟩ := Option.ne_none_iff_exists'.1 (hheads x' hx')
    have hnone : beyond l y.1.pulled = [] := by
      by_contra hsome
      exact hheads x' hx' (h.dropped x' hx l hl y hy hsome)
    have hmem := List.mem_of_getLast? ((h.tracked x' hx).head p hp)
    have hpos := List.length_pos_of_mem hmem
    rw [hnone, List.length_nil] at hle
    omega
  | given => exact absurd rfl (hheads _ hx')
  | @taken t s p w v _ =>
    have hfew := h.few (t, none) hx l hl y hy
    simp only [List.length_append, List.length_singleton]
    simp only at hfew
    omega

/-- Sources stay sparing when heads are dropped, if those of finite sources are that have been passed. -/
theorem sparing_drop (drop : Option Nat → Option Nat) (hdrop : ∀ head, ∀ p ∈ drop head, p ∈ head)
    (htracked : ∀ x ∈ sources, Tracked next x) (hfew : Few next sources)
    (hpassed : ∀ x ∈ sources, ∀ l, Within next x.1.origin l → ∀ y ∈ sources, beyond l y.1.pulled ≠ [] →
      drop x.2 = none) : Sparing next (sources.map fun x => (x.1, drop x.2)) where
  tracked := by
    refine List.forall_mem_map.2 fun x hx => ?_
    obtain ⟨hsorted, hproduced, hhead⟩ := htracked x hx
    exact ⟨hsorted, hproduced, fun p hp => hhead p (hdrop x.2 p hp)⟩
  few := List.forall_mem_map.2 fun x hx l hl => List.forall_mem_map.2 fun y hy => hfew x hx l hl y hy
  dropped := List.forall_mem_map.2 fun x hx l hl => List.forall_mem_map.2 fun y hy => hpassed x hx l hl y hy

/-- Dropping the heads below the greatest one drops that of a finite source which has been passed. -/
theorem sparing_dropBelow (htracked : ∀ x ∈ sources, Tracked next x) (hheads : ∀ x ∈ sources, x.2 ≠ none)
    (hfew : Few next sources) (hp : top sources = some p) : Sparing next (dropBelow p sources) := by
  refine sparing_drop _ (fun head q hq => (Option.mem_filter_iff.1 hq).1) htracked hfew ?_
  intro x hx l hl y hy hbeyond
  obtain ⟨head, hhead⟩ := Option.ne_none_iff_exists'.1 (hheads x hx)
  obtain ⟨passed, hpassed⟩ := Option.ne_none_iff_exists'.1 (hheads y hy)
  have hlt := (htracked y hy).lt_head hpassed hbeyond head ((htracked x hx).head_mem hl hhead)
  have hle := (top_eq_some hp).2 y hy passed hpassed
  have hsmall : ¬p ≤ head := by omega
  simp [hhead, Option.filter, hsmall]

end Beyond

/-! ## Room below a bound -/

/-- How many positions below a bound a source may still give, its head included. -/
def roomOf (bound : Nat) (x : Noted σ × Option Nat) : Nat :=
  bound - (x.1.pulled.filter (· < bound)).length + (x.2.toList.filter (· < bound)).length

/-- How many heads below a bound can still be dropped. -/
def room (bound : Nat) (sources : List (Noted σ × Option Nat)) : Nat := (sources.map (roomOf bound)).sum

section Room

variable {x y : Noted σ × Option Nat} {sources filled : List (Noted σ × Option Nat)} {bound : Nat}

theorem length_below_le {l : List Nat} (h : Ascending l) (bound : Nat) : (l.filter (· < bound)).length ≤ bound := by
  have hnodup : (l.filter (· < bound)).Nodup := (h.imp Nat.ne_of_lt).filter _
  have hsubset : l.filter (· < bound) ⊆ List.range bound := by
    intro p hp
    simpa using (List.mem_filter.1 hp).2
  simpa using (List.subperm_of_subset hnodup hsubset).length_le

/-- Filling a head takes as much room as there was for it. -/
theorem Fills.roomOf_eq (h : Fills next x y) (hy : Tracked next y) : roomOf bound y = roomOf bound x := by
  cases h with
  | kept => rfl
  | given => rfl
  | @taken t s p w v _ =>
    have hle := length_below_le (hy.sorted.ascending hy.produced) bound
    simp only [roomOf, List.filter_append, List.length_append, Option.toList_some, Option.toList_none,
      List.filter_nil, List.length_nil] at hle ⊢
    omega

theorem room_of_filled (hfills : List.Forall₂ (Fills next) sources filled) (htracked : ∀ x ∈ filled, Tracked next x) :
    room bound filled = room bound sources := by
  induction hfills with
  | nil => rfl
  | cons hfirst _ ih =>
    obtain ⟨hx, hrest⟩ := List.forall_mem_cons.1 htracked
    simp only [room, List.map_cons, List.sum_cons] at ih ⊢
    rw [hfirst.roomOf_eq hx, ih hrest]

/-- Dropping a head below the bound makes room. -/
theorem room_drop (drop : Option Nat → Option Nat) (hdrop : ∀ head, drop head = head ∨ drop head = none)
    (h : ∃ x ∈ sources, ∃ p < bound, x.2 = some p ∧ drop x.2 = none) :
    room bound (sources.map fun x => (x.1, drop x.2)) < room bound sources := by
  rw [room, room, List.map_map]
  refine List.sum_lt_sum _ _ (fun x _ => ?_) ?_
  · simp only [Function.comp_apply, roomOf]
    rcases hdrop x.2 with hsame | hnone
    · rw [hsame]
    · rw [hnone, Option.toList_none, List.filter_nil, List.length_nil]
      omega
  · obtain ⟨x, hx, p, hp, hhead, hnone⟩ := h
    refine ⟨x, hx, ?_⟩
    simp only [Function.comp_apply, roomOf, hnone]
    simp [hhead, hp]

end Room

/-! ## Rounds -/

/-- A join of certain sources that goes on. -/
structure Running (next : σ → ω → Pulled ε × σ × ω) (sources : List σ) (j : Join (Noted σ)) : Prop where
  opened : j.closed = false
  origins : (j.sources.map fun x => x.1.origin) = sources
  sparing : Sparing next j.sources

/-- A join of certain sources that has ended, with at most one position more pulled beyond a finite source than it has
positions. -/
structure Exhausted (next : σ → ω → Pulled ε × σ × ω) (sources : List σ) (j : Join (Noted σ)) : Prop where
  origins : (j.sources.map fun x => x.1.origin) = sources
  few : ∀ x ∈ j.sources, ∀ l, Within next x.1.origin l → ∀ y ∈ j.sources,
    (beyond l y.1.pulled).length ≤ l.length + 1

section Rounds

variable {sources : List σ} {j : Join (Noted σ)} {s : σ} {l : List Nat} {bound : Nat}

/-- **A round** ends the join, or drops a head below the bound of a finite source. -/
theorem round_running (hj : Running next sources j) (hmem : s ∈ sources) (hl : Within next s l)
    (hbound : ∀ p ∈ l, p < bound) (w : ω) :
    match round (Noted.pull next) j w with
    | (some none, k, _) => Exhausted next sources k
    | (some (some (.error _)), _, _) => False
    | (_, k, _) => Running next sources k ∧ room bound k.sources < room bound j.sources := by
  obtain ⟨hopened, horigins, hsparing⟩ := hj
  obtain ⟨hfills, hfill⟩ := @fill_fills _ _ _ next j.sources w
  unfold round
  rw [if_neg (by simp [hopened])]
  generalize fill (Noted.pull next) j.sources w = filled at hfills hfill ⊢
  have hsame := (origins_of_fills hfills).trans horigins
  have hended := length_beyond_of_fills hsparing hfills
  obtain ⟨_ | _ | e, filled, v⟩ := filled
  · have hheads : ∀ x ∈ filled, x.2 ≠ none := hfill
    have htracked := tracked_of_filled hsparing hfills hheads
    have hfew := few_of_filled hsparing hfills hheads
    have hroom : room bound filled = room bound j.sources := room_of_filled hfills htracked
    -- the finite source has a head, and this is below the bound
    obtain ⟨x, hx, hxs⟩ := List.mem_map.1 (hsame.symm ▸ hmem)
    obtain ⟨head, hhead⟩ := Option.ne_none_iff_exists'.1 (hheads x hx)
    have hlow : head < bound := hbound head ((htracked x hx).head_mem (hxs.symm ▸ hl) hhead)
    simp only
    cases htop : top filled with
    | none =>
      have hnil := List.max?_eq_none_iff.1 htop
      have hin : head ∈ filled.filterMap Prod.snd := List.mem_filterMap.2 ⟨x, hx, hhead⟩
      rw [hnil] at hin
      cases hin
    | some p =>
      obtain ⟨-, hgreatest⟩ := top_eq_some htop
      by_cases hall : (filled.all fun source => source.2 == some p) = true
      · simp only [hall, if_true]
        have hdropped : Sparing next (filled.map fun x => (x.1, none)) :=
          sparing_drop (fun _ => none) (fun _ _ => nofun) htracked hfew fun _ _ _ _ _ _ _ => rfl
        have hless : room bound (filled.map fun x => (x.1, none)) < room bound filled :=
          room_drop (fun _ => none) (fun _ => .inr rfl) ⟨x, hx, head, hlow, hhead, rfl⟩
        exact ⟨⟨rfl, by simpa [Function.comp_def] using hsame, hdropped⟩, hroom ▸ hless⟩
      · simp only [hall]
        have hdropped := sparing_dropBelow htracked hheads hfew htop
        have hless : room bound (dropBelow p filled) < room bound filled := by
          refine room_drop (fun head => head.filter fun q => decide (p ≤ q)) (fun head => ?_) ?_
          · cases head with
            | none => exact .inl rfl
            | some q => by_cases hq : p ≤ q <;> simp [Option.filter, hq]
          · -- the head of the finite source is dropped, or it is the greatest one and another is dropped
            have hdrop : ∀ q < p, (some q).filter (fun q => decide (p ≤ q)) = none := fun q hq => by
              simp [Option.filter, Nat.not_le.2 hq]
            by_cases hpassed : head < p
            · exact ⟨x, hx, head, hlow, hhead, hhead ▸ hdrop head hpassed⟩
            · have hsmall : ∃ y ∈ filled, y.2 ≠ some p := by simpa using hall
              obtain ⟨y, hy, hother⟩ := hsmall
              obtain ⟨q, hq⟩ := Option.ne_none_iff_exists'.1 (hheads y hy)
              have hne : q ≠ p := fun h => hother (h ▸ hq)
              have hle := hgreatest y hy q hq
              exact ⟨y, hy, q, by omega, hq, hq ▸ hdrop q (by omega)⟩
        exact ⟨⟨rfl, by simpa [dropBelow, Function.comp_def] using hsame, hdropped⟩, hroom ▸ hless⟩
  · exact ⟨hsame, hended⟩
  · obtain ⟨x, hx, v, hfailed⟩ := hfill
    obtain ⟨hsorted, hproduced, -⟩ := hsparing.tracked x hx
    exact hsorted.sound v hproduced hfailed

/-- A pull of a running join takes a position or ends the join, if there are as many rounds as heads to drop. -/
theorem pull_running (hmem : s ∈ sources) (hl : Within next s l) (hbound : ∀ p ∈ l, p < bound) : ∀ {n : Nat}
    {j : Join (Noted σ)} {w : ω}, Running next sources j → room bound j.sources < n →
    match pull (Noted.pull next) n j w with
    | (some none, k, _) => Exhausted next sources k
    | (some (some (.ok _)), k, _) => Running next sources k ∧ room bound k.sources < room bound j.sources
    | _ => False
  | 0, _, _, _, hn => absurd hn (Nat.not_lt_zero _)
  | n + 1, j, w, hj, hn => by
    have hround := round_running hj hmem hl hbound w
    unfold pull
    generalize round (Noted.pull next) j w = answer at hround ⊢
    obtain ⟨_ | _ | _ | p, k, v⟩ := answer
    · obtain ⟨hk, hless⟩ := hround
      have hpull := pull_running (w := v) hmem hl hbound hk (n := n) (by omega)
      simp only
      generalize pull (Noted.pull next) n k v = answer at hpull ⊢
      obtain ⟨_ | _ | _ | p, i, u⟩ := answer
      · exact hpull
      · exact hpull
      · exact hpull
      · exact ⟨hpull.1, Nat.lt_trans hpull.2 hless⟩
    · exact hround
    · exact hround
    · exact hround

/-- Pulled on and on, a running join ends. -/
theorem exhaust_running (hmem : s ∈ sources) (hl : Within next s l) (hbound : ∀ p ∈ l, p < bound) {rounds : Nat} :
    ∀ {pulls : Nat} {j : Join (Noted σ)} {w : ω}, Running next sources j → room bound j.sources < rounds →
    room bound j.sources < pulls →
    ∃ positions k, exhaust (Noted.pull next) rounds pulls j w = some (positions, k) ∧ Exhausted next sources k
  | 0, _, _, _, _, hn => absurd hn (Nat.not_lt_zero _)
  | pulls + 1, j, w, hj, hrounds, hpulls => by
    have hpull := pull_running (w := w) hmem hl hbound hj hrounds
    unfold exhaust
    generalize pull (Noted.pull next) rounds j w = answer at hpull ⊢
    obtain ⟨_ | _ | _ | p, k, v⟩ := answer
    · cases hpull
    · exact ⟨[], k, rfl, hpull⟩
    · cases hpull
    · obtain ⟨hk, hless⟩ := hpull
      have henough : room bound k.sources < pulls := by omega
      obtain ⟨positions, i, hexhaust, hi⟩ :=
        exhaust_running (w := v) hmem hl hbound hk (Nat.lt_trans hless hrounds) henough
      exact ⟨p :: positions, i, by simp only [hexhaust, Option.map_some], hi⟩

theorem running_start (hsorted : ∀ s ∈ sources, Sorted next s) :
    Running next sources (ofSources (sources.map Noted.start)) where
  opened := rfl
  origins := by simp [ofSources, Noted.start, Function.comp_def]
  sparing := by
    have hsource : ∀ x ∈ (ofSources (sources.map Noted.start)).sources, ∃ s ∈ sources, x = (Noted.start s, none) := by
      simp [ofSources, eq_comm]
    refine ⟨fun x hx => ?_, fun x hx l _ y hy => ?_, fun x hx l _ y hy _ => ?_⟩
    · obtain ⟨s, hs, rfl⟩ := hsource x hx
      exact ⟨hsorted s hs, .nil, fun p hp => by cases hp⟩
    · obtain ⟨s, hs, rfl⟩ := hsource y hy
      exact Nat.zero_le _
    · obtain ⟨s, hs, rfl⟩ := hsource x hx
      rfl

theorem room_start (sources : List σ) (bound : Nat) :
    room bound (ofSources (sources.map Noted.start)).sources = sources.length * bound := by
  simp [room, ofSources, roomOf, Noted.start, Function.comp_def]

end Rounds

/-- **A join comes to an end, and demands little of its sources.** Let all sources be ascending and never fail, and let
one of them be finite, with positions below a bound, while the others may be endless. Then pulling the join on and on
comes to an end, and the number of sources times the bound limits the pulls and the rounds of each of them. If a source
has no other positions than those of a list, by then at most as many positions behind all of these have been pulled of
each source as the list is long, and one more. That what is pulled is noted makes no difference. -/
theorem exhaust_demands {sources : List σ} {s : σ} {l : List Nat} {bound n : Nat}
    (hsorted : ∀ s ∈ sources, Sorted next s) (hmem : s ∈ sources) (hl : Within next s l) (hbound : ∀ p ∈ l, p < bound)
    (hn : sources.length * bound < n) (w : ω) :
    ∃ positions j, exhaust (Noted.pull next) n n (ofSources (sources.map Noted.start)) w = some (positions, j) ∧
      exhaust next n n (ofSources sources) w = some (positions, j.map Noted.present) ∧
      (j.sources.map fun x => x.1.origin) = sources ∧
      ∀ x ∈ j.sources, ∀ l, Within next x.1.origin l → ∀ y ∈ j.sources,
        (beyond l y.1.pulled).length ≤ l.length + 1 := by
  have hroom := room_start sources bound
  obtain ⟨positions, j, hexhaust, hj⟩ := exhaust_running (w := w) hmem hl hbound (running_start hsorted)
    (hroom ▸ hn) (hroom ▸ hn)
  refine ⟨positions, j, hexhaust, ?_, hj.origins, hj.few⟩
  have hmap := @exhaust_map _ _ _ next _ (Noted.pull next) Noted.present Noted.pull_present n n
    (ofSources (sources.map Noted.start)) w
  have hstart : (ofSources (sources.map Noted.start)).map Noted.present = ofSources sources := by
    simp [map, ofSources, Noted.start, Function.comp_def]
  rw [hstart, hexhaust] at hmap
  exact hmap

/-! ## Endless sources -/

/-- Positions which are known, or all positions from one on. -/
inductive Sequence where
  | known (rest : List Nat)
  | endless (first : Nat)

namespace Sequence

/-- The next position of a sequence. -/
def pull : Sequence → Unit → Pulled Empty × Sequence × Unit
  | known [], w => (none, known [], w)
  | known (p :: rest), w => (some (.ok p), known rest, w)
  | endless p, w => (some (.ok p), endless (p + 1), w)

theorem of_produces_known {m l : List Nat} {t : Sequence} (h : Produces pull (known m) l t) :
    ∃ rest, t = known rest ∧ l ++ rest = m := by
  induction h with
  | nil => exact ⟨m, rfl, rfl⟩
  | snoc _ hnext ih =>
    obtain ⟨rest, rfl, hm⟩ := ih
    cases rest with
    | nil => cases hnext
    | cons p rest =>
      cases hnext
      exact ⟨rest, rfl, by simpa using hm⟩

theorem of_produces_endless {first : Nat} {l : List Nat} {t : Sequence} (h : Produces pull (endless first) l t) :
    t = endless (first + l.length) ∧ l = List.range' first l.length := by
  induction h with
  | nil => exact ⟨rfl, rfl⟩
  | @snoc l t u p w v _ hnext ih =>
    obtain ⟨rfl, hl⟩ := ih
    cases hnext
    refine ⟨by simp [Nat.add_assoc], ?_⟩
    rw [List.length_append, List.length_singleton, List.range'_concat, Nat.one_mul, ← hl]

theorem sorted_known {m : List Nat} (hm : Ascending m) : Sorted pull (known m) where
  ascending h := by
    obtain ⟨rest, -, rfl⟩ := of_produces_known h
    exact (List.pairwise_append.1 hm).1
  sound w h := by
    obtain ⟨rest, rfl, -⟩ := of_produces_known h
    cases rest <;> simp [pull]

theorem within_known (m : List Nat) : Within pull (known m) m := by
  intro l t h
  obtain ⟨rest, -, rfl⟩ := of_produces_known h
  exact List.prefix_append l rest

theorem sorted_endless (first : Nat) : Sorted pull (endless first) where
  ascending h := by
    rw [(of_produces_endless h).2]
    exact List.pairwise_lt_range' ..
  sound w h := by
    rw [(of_produces_endless h).1]
    simp [pull]

end Sequence

open Sequence in
/-- All positions without an end, joined with two of them. -/
theorem exhaust_demands_endless :
    (∀ s ∈ [endless 0, known [3, 5]], Sorted Sequence.pull s) ∧ Within Sequence.pull (known [3, 5]) [3, 5] ∧
      ∃ positions j, exhaust (Noted.pull Sequence.pull) 13 13
          (ofSources ([endless 0, known [3, 5]].map Noted.start)) () = some (positions, j) ∧
        exhaust Sequence.pull 13 13 (ofSources [endless 0, known [3, 5]]) () =
          some (positions, j.map Noted.present) ∧
        (j.sources.map fun x => x.1.origin) = [endless 0, known [3, 5]] ∧
        ∀ x ∈ j.sources, ∀ l, Within Sequence.pull x.1.origin l → ∀ y ∈ j.sources,
          (beyond l y.1.pulled).length ≤ l.length + 1 := by
  have hsorted : ∀ s ∈ [endless 0, known [3, 5]], Sorted Sequence.pull s := by
    simp only [List.forall_mem_cons, List.not_mem_nil, false_imp_iff, implies_true, and_true]
    exact ⟨sorted_endless 0, sorted_known (by simp [Ascending])⟩
  have hbound : ∀ p ∈ [3, 5], p < 6 := by decide
  exact ⟨hsorted, within_known [3, 5], exhaust_demands hsorted (by simp) (within_known [3, 5]) hbound (by decide) ()⟩

end Join

end RecordServer
