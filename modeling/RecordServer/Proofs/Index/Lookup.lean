import Mathlib.Data.List.Nodup
import RecordServer.Index.Open
import RecordServer.Proofs.Outcome
import RecordServer.Proofs.Stream.Leaf

/-!
# Looking up filters

Which records an index accepts for a filter: those with an equal key (`Value.Equals`), or those with a key that is not
empty and contains the text of the filter (`Value.Contains`), depending on what has been indexed (`Tables.Test`,
`Index.Accepts`).

Tables answer a filter if looking it up gives ascending positions (`Tables.Answers`). Looking up several such filters
gives exactly the positions which are found for each of them (`Tables.common_of_answers`), and this is what the index
yields (`Index.positions_of_answers`). Tables describe some records if what is found for a filter
are exactly the positions of the records which pass the test (`Tables.Describes`), so that the index yields the
positions of the records which pass all tests (`Index.positions_of_describes`).
-/

namespace RecordServer

/-! ## What filters mean -/

/-- One of the keys of a value is the key of the expected value. -/
def Value.Equals (value expected : Value) : Prop := ∃ key ∈ expected.key?, key ∈ value.keys

/-- One of the keys of a value is not empty and contains the key of the expected value, as they are compared. -/
def Value.Contains (ignoreCase : Bool) (value expected : Value) : Prop :=
  ∃ key ∈ expected.key?, ∃ own ∈ value.keys, own ≠ "" ∧
    (foldKey ignoreCase key).toList <:+: (foldKey ignoreCase own).toList

/-- The test that is made by looking into tables. -/
def Tables.Test : Tables → Value → Value → Prop
  | .exact _ => Value.Equals
  | .substring ignoreCase _ => Value.Contains ignoreCase
  | .substringFile ignoreCase _ _ => Value.Contains ignoreCase

/-- A record has a property whose value passes a test. -/
def Record.Meets (r : Record) (property : String) (test : Value → Prop) : Prop :=
  ∃ value ∈ r.property? property, test value

/-- What an index tests: scanning compares keys, other indexes have a test of their own. -/
def Index.Test (i : Index) : Value → Value → Prop := i.coverage.elim Value.Equals fun c => c.tables.Test

/-- An index accepts a record for a filter. -/
def Index.Accepts (i : Index) (property : String) (expected : Value) (r : Record) : Prop :=
  r.Meets property fun value => i.Test value expected

theorem Value.satisfies_iff {value expected : Value} : value.satisfies expected = true ↔ value.Equals expected := by
  unfold satisfies Equals
  cases expected.key? <;> simp

/-- Scanning accepts a record if it has the keys of all filters. -/
theorem Filters.accept_iff {filters : Filters} {r : Record} : filters.accept r = true ↔
    ∀ filter ∈ filters, r.Meets filter.1 fun value => value.Equals filter.2 := by
  simp [Filters.accept, Record.Meets, Option.any_eq_true, Value.satisfies_iff]

/-! ## Common positions -/

theorem mem_common {lists : List (List Position)} (h : lists ≠ []) {p : Position} :
    p ∈ common lists ↔ ∀ positions ∈ lists, p ∈ positions := by
  cases lists with
  | nil => exact absurd rfl h
  | cons positions rest => simp [common]

theorem common_ascending {lists : List (List Position)} (h : ∀ positions ∈ lists, Ascending positions) :
    Ascending (common lists) := by
  cases lists with
  | nil => exact List.Pairwise.nil
  | cons positions rest => exact (h positions List.mem_cons_self).filter _

/-- Records at ascending positions are determined by them. -/
theorem eq_of_position {records : List (Position × Record)} (h : Ascending (records.map Prod.fst)) {p : Position}
    {r s : Record} (hr : (p, r) ∈ records) (hs : (p, s) ∈ records) : r = s := by
  have := List.inj_on_of_nodup_map (h.imp Nat.ne_of_lt) hr hs rfl
  exact (Prod.mk.inj this).2

/-! ## Keys -/

/-- The keys of a property are those of its values in the records, as they are compared. -/
theorem mem_keysOf {ignoreCase : Bool} {records : List (Position × Record)} {property key : String} {p : Position} :
    (key, p) ∈ keysOf ignoreCase records property ↔
      ∃ r, (p, r) ∈ records ∧ r.Meets property fun value => ∃ own ∈ value.keys, foldKey ignoreCase own = key := by
  simp only [keysOf, List.mem_flatMap, List.mem_map, Prod.mk.injEq, Record.Meets]
  constructor
  · rintro ⟨⟨q, r⟩, hr, own, hown, hkey, rfl⟩
    cases hv : r.property? property with
    | none => simp [hv] at hown
    | some value => exact ⟨r, hr, value, Option.mem_def.2 hv, own, by simpa [hv] using hown, hkey⟩
  · rintro ⟨r, hr, value, hv, own, hown, hkey⟩
    have hv : r.property? property = some value := hv
    exact ⟨(p, r), hr, own, by simpa [hv] using hown, hkey, rfl⟩

/-- Keys come in the order of the positions of their records. -/
theorem keysOf_ordered (ignoreCase : Bool) (property : String) : ∀ {records : List (Position × Record)},
    Ascending (records.map Prod.fst) → ((keysOf ignoreCase records property).map Prod.snd).Pairwise (· ≤ ·)
  | [], _ => List.Pairwise.nil
  | (p, r) :: records, h => by
    obtain ⟨hfirst, hrest⟩ := List.pairwise_cons.1 h
    have ih := keysOf_ordered ignoreCase property hrest
    simp only [keysOf, List.flatMap_cons, List.map_append, List.map_map] at ih ⊢
    refine List.pairwise_append.2 ⟨?_, ih, ?_⟩
    · exact List.pairwise_map.2 (List.pairwise_of_forall fun _ _ => Nat.le_refl p)
    · intro a ha b hb
      obtain ⟨_, -, rfl⟩ := List.mem_map.1 ha
      obtain ⟨⟨key, q⟩, hq, rfl⟩ := List.mem_map.1 hb
      obtain ⟨s, hs, -⟩ := mem_keysOf.1 hq
      exact Nat.le_of_lt (hfirst q (List.mem_map.2 ⟨_, hs, rfl⟩))

/-! ## Tables which describe records -/

/-- What is found under a name is an entry with this name. -/
theorem mem_of_lookup {α β : Type} [DecidableEq α] {a : α} {b : β} {entries : List (α × β)}
    (h : entries.lookup a = some b) : (a, b) ∈ entries := by
  obtain ⟨before, after, rfl, -⟩ := List.lookup_eq_some_iff.1 h
  simp

/-- The entry of a name among those which have been made for some names. -/
theorem lookup_map_self {α : Type} (make : String → α) {name : String} : ∀ {names : List String}, name ∈ names →
    (names.map fun n => (n, make n)).lookup name = some (make name)
  | first :: rest, h => by
    by_cases hf : name = first
    · simp [hf]
    · have hbeq : (name == first) = false := by simpa using hf
      rw [List.map_cons, List.lookup_cons, hbeq]
      exact lookup_map_self make ((List.mem_cons.1 h).resolve_left hf)

namespace Tables

/-- Looking up a filter of an indexed property gives exactly the positions of the records which pass the test. -/
def Describes (t : Tables) (properties : List String) (records : List (Position × Record)) : Prop :=
  ∀ property ∈ properties, ∀ expected, ∃ found, t.positions? property expected = .ok found ∧
    Ascending (found.getD []) ∧ ∀ p, p ∈ found.getD [] ↔
      ∃ r, (p, r) ∈ records ∧ r.Meets property fun value => t.Test value expected

variable {t : Tables} {properties : List String} {records : List (Position × Record)}

/-- Looking up a filter finds a position. -/
def Finds (t : Tables) (property : String) (expected : Value) (p : Position) : Prop :=
  ∃ found, t.positions? property expected = .ok found ∧ p ∈ found.getD []

/-- Looking up a filter gives ascending positions. -/
def Answers (t : Tables) (property : String) (expected : Value) : Prop :=
  ∃ found, t.positions? property expected = .ok found ∧ Ascending (found.getD [])

/-- The positions for several filters: the lists have in common the positions which are found for each filter, and none
are there only if no position is. -/
theorem positionsOf_of_answers : ∀ {filters : Filters},
    (∀ filter ∈ filters, t.Answers filter.1 filter.2) → ∃ found, t.positionsOf filters = .ok found ∧
      (∀ lists ∈ found, (lists = [] ↔ filters = []) ∧ ∀ positions ∈ lists, Ascending positions) ∧
      ∀ p, (∃ lists ∈ found, ∀ positions ∈ lists, p ∈ positions) ↔
        ∀ filter ∈ filters, t.Finds filter.1 filter.2 p
  | [], _ => ⟨some [], rfl, by simp, by simp⟩
  | (property, expected) :: rest, h => by
    obtain ⟨⟨found, hfound, hasc⟩, hrest⟩ := List.forall_mem_cons.1 h
    have hmem (p : Position) : t.Finds property expected p ↔ p ∈ found.getD [] := by
      simp [Finds, hfound]
    obtain ⟨others, hothers, hlists, hall⟩ := positionsOf_of_answers hrest
    cases found with
    | none =>
      refine ⟨none, by simp [Tables.positionsOf, hfound, bind, Except.bind, pure, Except.pure], by simp, fun p => ?_⟩
      constructor
      · rintro ⟨_, ⟨⟩, _⟩
      · intro h
        exact absurd ((hmem p).1 (h (property, expected) List.mem_cons_self)) (by simp)
    | some positions =>
      refine ⟨others.map (positions :: ·),
        by simp [Tables.positionsOf, hfound, hothers, bind, Except.bind, pure, Except.pure], ?_, fun p => ?_⟩
      · intro lists hl
        obtain ⟨lists, hlists', rfl⟩ := Option.map_eq_some_iff.1 hl
        exact ⟨by simp, by simpa using ⟨hasc, (hlists lists hlists').2⟩⟩
      · simp only [List.mem_cons, forall_eq_or_imp, ← hall p, hmem p]
        cases others <;> simp

/-- **Looking up filters gives exactly the positions which are found for each of them.** -/
theorem common_of_answers {filters : Filters} (hne : filters ≠ [])
    (h : ∀ filter ∈ filters, t.Answers filter.1 filter.2) :
    ∃ found, t.positionsOf filters = .ok found ∧ Ascending ((found.map RecordServer.common).getD []) ∧
      ∀ p, p ∈ (found.map RecordServer.common).getD [] ↔ ∀ filter ∈ filters, t.Finds filter.1 filter.2 p := by
  obtain ⟨found, hfound, hlists, hall⟩ := positionsOf_of_answers h
  refine ⟨found, hfound, ?_, fun p => ?_⟩
  · cases found with
    | none => exact List.Pairwise.nil
    | some lists => exact common_ascending (hlists lists rfl).2
  · rw [← hall]
    cases found with
    | none => simp
    | some lists => simpa using mem_common (fun h => hne ((hlists lists rfl).1.1 h))

/-- Tables that describe some records answer all filters of indexed properties. -/
theorem Describes.answers (ht : t.Describes properties records) {property : String} (h : property ∈ properties)
    (expected : Value) : t.Answers property expected := by
  obtain ⟨found, hfound, hasc, -⟩ := ht property h expected
  exact ⟨found, hfound, hasc⟩

/-- What is found for each of several filters are the positions of the records which pass them all. -/
theorem Describes.finds_iff (ht : t.Describes properties records) (hasc : Ascending (records.map Prod.fst))
    {filters : Filters} (hne : filters ≠ []) (hsub : ∀ property ∈ filters.names, property ∈ properties)
    {p : Position} : (∀ filter ∈ filters, t.Finds filter.1 filter.2 p) ↔
      ∃ r, (p, r) ∈ records ∧ ∀ filter ∈ filters, r.Meets filter.1 fun value => t.Test value filter.2 := by
  have hone : ∀ filter ∈ filters, (t.Finds filter.1 filter.2 p ↔
      ∃ r, (p, r) ∈ records ∧ r.Meets filter.1 fun value => t.Test value filter.2) := by
    intro filter hfilter
    obtain ⟨found, hfound, -, hmem⟩ := ht filter.1 (hsub _ (List.mem_map.2 ⟨filter, hfilter, rfl⟩)) filter.2
    simp [Finds, hfound, hmem]
  constructor
  · intro h
    obtain ⟨filter, hfilter⟩ := List.exists_mem_of_ne_nil filters hne
    obtain ⟨r, hr, -⟩ := (hone filter hfilter).1 (h filter hfilter)
    refine ⟨r, hr, fun filter hfilter => ?_⟩
    obtain ⟨s, hs, hmeets⟩ := (hone filter hfilter).1 (h filter hfilter)
    exact eq_of_position hasc hr hs ▸ hmeets
  · rintro ⟨r, hr, h⟩ filter hfilter
    exact (hone filter hfilter).2 ⟨r, hr, h filter hfilter⟩

end Tables

/-! ## What indexes yield -/

namespace Index

variable {fs : FileSystem} {i : Index} {input : Input} {filters : Filters} {guarded : Bool}

/-- Filters of indexed properties of the indexed input can be looked up. -/
theorem verify_ok {name : String} {c : Coverage} (hname : c.input = input.name) (hne : filters ≠ [])
    (hsub : ∀ property ∈ filters.names, property ∈ c.properties) : verify name c input filters = .ok () := by
  have hfind : (filters.names.find? fun property => !c.properties.contains property) = none := by
    simpa using hsub
  have hempty : filters.isEmpty = false := by simpa using hne
  unfold verify
  rw [if_neg (not_not.2 hname), hempty, hfind]
  rfl

/-- Filters that are looked up are not empty, and their properties are indexed. -/
theorem of_verify {name : String} {c : Coverage} (h : verify name c input filters = .ok ()) :
    c.input = input.name ∧ filters ≠ [] ∧ ∀ property ∈ filters.names, property ∈ c.properties := by
  unfold verify at h
  split at h
  · cases h
  · rename_i hname
    split at h
    · cases h
    · rename_i hne
      split at h
      · cases h
      · rename_i hfind
        exact ⟨not_not.1 hname, by simpa using hne, by simpa using hfind⟩

/-- **An index whose tables answer some filters yields exactly the positions which are found for all of them**, in
ascending order. -/
theorem positions_of_answers {c : Coverage} (hc : i.coverage = some c) (hname : c.input = input.name)
    (ht : ∀ filter ∈ filters, c.tables.Answers filter.1 filter.2) (hne : filters ≠ [])
    (hsub : ∀ property ∈ filters.names, property ∈ c.properties) :
    ∃ found, i.positions fs input filters guarded = .ok (.ofPositions found) ∧ Ascending found ∧
      ∀ p, p ∈ found ↔ ∀ filter ∈ filters, c.tables.Finds filter.1 filter.2 p := by
  obtain ⟨found, hfound, hcommon, hmem⟩ := Tables.common_of_answers hne ht
  refine ⟨_, ?_, hcommon, hmem⟩
  simp [positions, hc, verify_ok hname hne hsub, hfound, bind, Except.bind, pure, Except.pure]

/-- **An index whose tables describe some records yields exactly the positions of those which it accepts for all
filters**, in ascending order. -/
theorem positions_of_describes {c : Coverage} {records : List (Position × Record)} (hc : i.coverage = some c)
    (hname : c.input = input.name) (ht : c.tables.Describes c.properties records)
    (hasc : Ascending (records.map Prod.fst)) (hne : filters ≠ [])
    (hsub : ∀ property ∈ filters.names, property ∈ c.properties) :
    ∃ found, i.positions fs input filters guarded = .ok (.ofPositions found) ∧ Ascending found ∧
      ∀ p, p ∈ found ↔ ∃ r, (p, r) ∈ records ∧ ∀ filter ∈ filters, i.Accepts filter.1 filter.2 r := by
  obtain ⟨found, hfound, hfasc, hmem⟩ := positions_of_answers hc hname
    (fun filter hfilter => ht.answers (hsub _ (List.mem_map.2 ⟨filter, hfilter, rfl⟩)) filter.2) hne hsub
  refine ⟨found, hfound, hfasc, fun p => ?_⟩
  rw [hmem, ht.finds_iff hasc hne hsub]
  simp [Accepts, Test, hc]

/-- What scanning yields of the records that have been read: the positions of those with all keys, and the faults. -/
theorem positions_scan {items : List Loaded} (hc : i.coverage = none) (hne : filters ≠ [])
    (hitems : input.records fs = .ok items) :
    i.positions fs input filters guarded = .ok (.scan input.name guarded (items.map fun loaded =>
      loaded.map fun r => if filters.accept r.2 then some r.1 else none)) := by
  simp [positions, hc, hne, compareAll, hitems, bind, Except.bind, pure, Except.pure]

theorem reached_scan (name : String) (filters : Filters) (guarded : Bool) : ∀ items : List Loaded,
    reached (Leaf.scan name guarded (items.map fun loaded =>
      loaded.map fun r => if filters.accept r.2 then some r.1 else none)).items =
      ((reached items).filter fun r => filters.accept r.2).map Prod.fst
  | [] => rfl
  | .error fault :: items => reached_scan name filters guarded items
  | .ok r :: items => by
    have ih := reached_scan name filters guarded items
    simp only [Leaf.items, List.filterMap_map] at ih ⊢
    cases h : filters.accept r.2 <;> simpa [Leaf.found?, Except.map, h] using ih

/-- **An index that scans yields exactly the positions of the records which it accepts for all filters**, in ascending
order, of those records that can be read. -/
theorem positions_of_scan {items : List Loaded} (hc : i.coverage = none) (hne : filters ≠ [])
    (hitems : input.records fs = .ok items) :
    ∃ leaf, i.positions fs input filters guarded = .ok leaf ∧ Ascending (reached leaf.items) ∧
      ∀ p, p ∈ reached leaf.items ↔
        ∃ r, (p, r) ∈ reached items ∧ ∀ filter ∈ filters, i.Accepts filter.1 filter.2 r := by
  refine ⟨_, positions_scan hc hne hitems, ?_, fun p => ?_⟩
  · rw [reached_scan]
    exact (Input.records_ascending hitems).sublist (List.filter_sublist.map _)
  · simp [reached_scan, Accepts, Test, hc, Filters.accept_iff]

/-- An index is up to date: its tables describe the records which are in the file of the input. -/
def Current (fs : FileSystem) (input : Input) (i : Index) : Prop :=
  ∀ c, i.coverage = some c → ∃ items, input.records fs = .ok items ∧ c.tables.Describes c.properties (reached items)

/-- **An index that is up to date yields exactly the positions of the records which it accepts for all filters**, in
ascending order, unless it refuses to look them up. -/
theorem positions_of_current {leaf : Leaf} (hi : i.Current fs input) (hne : filters ≠ [])
    (h : i.positions fs input filters guarded = .ok leaf) :
    ∃ items, input.records fs = .ok items ∧ Ascending (reached leaf.items) ∧
      ∀ p, p ∈ reached leaf.items ↔
        ∃ r, (p, r) ∈ reached items ∧ ∀ filter ∈ filters, i.Accepts filter.1 filter.2 r := by
  cases hc : i.coverage with
  | none =>
    cases hitems : input.records fs with
    | error fault => simp [positions, hc, hne, compareAll, hitems, bind, Except.bind] at h
    | ok items =>
      obtain ⟨found, hfound, hasc, hmem⟩ := @positions_of_scan fs i input filters guarded items hc hne hitems
      cases h.symm.trans hfound
      exact ⟨items, rfl, hasc, hmem⟩
  | some c =>
    obtain ⟨items, hitems, hdescribes⟩ := hi c hc
    have hverify : verify i.name c input filters = .ok () := by
      unfold positions at h
      rw [hc] at h
      obtain ⟨⟨⟩, hverify, -⟩ := ok_of_bind h
      exact hverify
    obtain ⟨hname, -, hsub⟩ := of_verify hverify
    obtain ⟨found, hfound, hasc, hmem⟩ := @positions_of_describes fs i input filters guarded c (reached items) hc hname
      hdescribes (Input.records_ascending hitems) hne hsub
    cases h.symm.trans hfound
    simp only [Leaf.items_ofPositions, reached_of_all]
    exact ⟨items, hitems, hasc, hmem⟩

/-- All records of an input have been read if none of them has failed. -/
theorem records_of_allRecords {fs : FileSystem} {input : Input} {records : List (Position × Record)}
    (h : allRecords fs input = .ok records) : input.records fs = .ok (records.map .ok) := by
  obtain ⟨items, hitems, h⟩ := ok_of_bind h
  rw [hitems, all_of_mapM_id h]

end Index

end RecordServer
