import RecordServer.Proofs.Input.Properties
import RecordServer.Proofs.Relation.Attached

/-!
# Appended properties

The values of relations are set in the record that has been loaded, one after the other. Properties with other names
keep their values, and all properties keep their places; the values are appended, one for each relation, exactly if the
names of the relations are different from each other and from those of the properties (`Relation.Fresh`).

If they are, and no relation has a rule on what one before it attaches (`Relation.Unread`), each value depends only on
the record that has been loaded (`Relation.resolveAll_append`). For a table or a document both can be told from the
names in the configuration (`Relation.fresh_of_named`, `Relation.unread_of_named`); an element of an array may have any
properties, or lack any.
-/

namespace RecordServer

/-! ## Setting several properties -/

namespace Fields

/-- Sets several names, one after the other. -/
def setAll (fields more : Fields) : Fields := more.foldl (fun fields field => fields.set field.1 field.2) fields

variable {fields more : Fields} {name : String} {value : Value}

/-- The place and the value of a name stay if another one is set. -/
theorem getElem?_set : ∀ {fields : Fields} {k : Nat} {field : String × Value}, fields[k]? = some field →
    field.1 ≠ name → (fields.set name value)[k]? = some field
  | first :: rest, 0, field, h, hne => by
    obtain rfl := Option.some.inj h
    rw [set, if_neg hne]
    rfl
  | first :: rest, k + 1, field, h, hne => by
    have hk : rest[k]? = some field := h
    unfold set
    split
    · exact hk
    · exact getElem?_set hk hne

/-- The places and the values of names stay if others are set. -/
theorem getElem?_setAll {k : Nat} {field : String × Value} : ∀ {more fields : Fields}, fields[k]? = some field →
    field.1 ∉ more.names → (fields.setAll more)[k]? = some field
  | [], _, h, _ => h
  | other :: more, fields, h, hnot => by
    obtain ⟨hne, hmore⟩ := not_or.1 (mt List.mem_cons.2 hnot)
    show ((fields.set other.1 other.2).setAll more)[k]? = some field
    exact getElem?_setAll (getElem?_set h hne) hmore

/-- Setting a name keeps the names, in front of it if it is new. -/
theorem names_set_append (fields : Fields) (name : String) (value : Value) :
    ∃ new, (fields.set name value).names = fields.names ++ new ∧ new.Sublist [name] := by
  rw [names_set]
  split
  · exact ⟨[], (List.append_nil _).symm, List.nil_sublist _⟩
  · exact ⟨[name], rfl, List.Sublist.refl _⟩

/-- Setting names keeps those which are present, in front of those which are new. -/
theorem names_setAll : ∀ (more fields : Fields), ∃ new, (fields.setAll more).names = fields.names ++ new ∧
    new.Sublist more.names
  | [], fields => ⟨[], (List.append_nil _).symm, List.nil_sublist _⟩
  | field :: more, fields => by
    obtain ⟨first, hfirst, hsub⟩ := names_set_append fields field.1 field.2
    obtain ⟨rest, hrest, hsub'⟩ := names_setAll more (fields.set field.1 field.2)
    refine ⟨first ++ rest, ?_, hsub.append hsub'⟩
    rw [← List.append_assoc, ← hfirst]
    exact hrest

/-- All names which are set are present. -/
theorem mem_names_setAll : ∀ {more fields : Fields}, name ∈ more.names → name ∈ (fields.setAll more).names
  | field :: more, fields, h => by
    rcases List.mem_cons.1 h with rfl | h
    · obtain ⟨new, hnew, -⟩ := names_setAll more (fields.set field.1 field.2)
      have hset : field.1 ∈ (fields.set field.1 field.2).names := by
        rw [names_set]
        split_ifs <;> simp_all
      exact (congrArg (field.1 ∈ ·) hnew).mpr (List.mem_append_left _ hset)
    · show name ∈ ((fields.set field.1 field.2).setAll more).names
      exact mem_names_setAll h

/-- Names are new if they are different from each other and from those which are present. -/
def New (names : List String) (fields : Fields) : Prop := names.Nodup ∧ ∀ name ∈ names, name ∉ fields.names

/-- A first name is new, and the others are new behind it. -/
theorem new_cons {names : List String} : New (name :: names) fields ↔
    name ∉ fields.names ∧ New names (fields ++ [(name, value)]) := by
  have hnames : Fields.names (fields ++ [(name, value)]) = fields.names ++ [name] := by
    simp [Fields.names]
  unfold New
  rw [hnames, List.nodup_cons, List.forall_mem_cons]
  simp only [List.mem_append, List.mem_singleton, not_or]
  constructor
  · rintro ⟨⟨hnot, hdistinct⟩, hfirst, hrest⟩
    refine ⟨hfirst, hdistinct, fun other hother => ⟨hrest other hother, ?_⟩⟩
    rintro rfl
    exact hnot hother
  · rintro ⟨hfirst, hdistinct, hrest⟩
    exact ⟨⟨fun hmem => (hrest name hmem).2 rfl, hdistinct⟩, hfirst, fun other hother => (hrest other hother).1⟩

/-- New names are set at the end. -/
theorem setAll_of_new : ∀ {more fields : Fields}, New more.names fields → fields.setAll more = fields ++ more
  | [], fields, _ => (List.append_nil fields).symm
  | field :: more, fields, h => by
    obtain ⟨hfirst, hrest⟩ := (@new_cons fields field.1 field.2 (Fields.names more)).1 h
    have ih := setAll_of_new hrest
    rw [List.append_assoc, List.singleton_append, ← set_of_not_mem hfirst] at ih
    exact ih

/-- **Setting names adds one for each exactly if they are new.** -/
theorem names_setAll_iff : ∀ {more fields : Fields},
    (fields.setAll more).names = fields.names ++ more.names ↔ New more.names fields
  | [], fields => by simp [setAll, New, Fields.names]
  | field :: more, fields => by
    constructor
    · intro h
      refine (@new_cons fields field.1 field.2 (Fields.names more)).2 ?_
      have hset := names_set field.1 field.2 fields
      split at hset
      · -- there is a name less than there have been set
        obtain ⟨new, hnew, hsub⟩ := names_setAll more (fields.set field.1 field.2)
        have hlength := congrArg List.length (hnew.symm.trans h)
        have hle := hsub.length_le
        rw [hset] at hlength
        simp [Fields.names] at hlength hle
        omega
      · rename_i hfirst
        refine ⟨hfirst, names_setAll_iff.1 ?_⟩
        rw [← set_of_not_mem hfirst, hset, List.append_assoc, List.singleton_append]
        exact h
    · intro h
      rw [setAll_of_new h]
      exact List.map_append

/-- What is appended does not change the values of other names. -/
theorem get?_append (h : name ∉ more.names) : Fields.get? (fields ++ more) name = fields.get? name := by
  have hnone : more.lookup name = none := by
    refine List.lookup_eq_none_iff.2 fun field hfield => ?_
    refine bne_iff_ne.2 ?_
    rintro rfl
    exact h (List.mem_map_of_mem hfield)
  unfold get?
  rw [List.lookup_append, hnone, Option.or_none]

end Fields

/-- A record with further properties behind its own. -/
def Record.append (r : Record) (more : Fields) : Record := ⟨r.fields ++ more⟩

theorem Record.append_append (r : Record) (first more : Fields) :
    (r.append first).append more = r.append (first ++ more) :=
  congrArg Record.mk (List.append_assoc r.fields first more)

/-- A new name is set behind all others. -/
theorem Record.set_of_not_mem {r : Record} {name : String} {value : Value} (h : name ∉ r.fields.names) :
    r.set name value = r.append [(name, value)] :=
  congrArg Record.mk (Fields.set_of_not_mem h)

/-! ## Resolving -/

namespace Relation

open Session

theorem queryFor_congr (relation : String) {a b : Record} : ∀ {rules : List Rule} (q : Query),
    (∀ rule ∈ rules, a.property? rule.parentProperty = b.property? rule.parentProperty) →
    queryFor relation a q rules = queryFor relation b q rules
  | [], _, _ => rfl
  | rule :: rules, q, h => by
    obtain ⟨hfirst, hrest⟩ := List.forall_mem_cons.1 h
    unfold queryFor
    rw [hfirst]
    cases b.property? rule.parentProperty with
    | none => rfl
    | some value => exact queryFor_congr relation _ hrest

/-- **What a relation attaches depends on the properties of its rules only.** -/
theorem resolve_congr {relation : Relation} {a b : Record}
    (h : ∀ rule ∈ relation.rules, a.property? rule.parentProperty = b.property? rule.parentProperty) :
    resolve relation a = resolve relation b := by
  obtain ⟨name, input, isArray, limit, sort, rules, relations⟩ := relation
  have hquery : queryFor name a .all rules = queryFor name b .all rules := queryFor_congr name .all h
  unfold resolve children
  rw [hquery]

variable {r : Record} {relations : List Relation}

/-- The names of some relations are new for a record. -/
def Fresh (relations : List Relation) (r : Record) : Prop := Fields.New (relations.map name) r.fields

theorem fresh_cons {relation : Relation} (value : Value) : Fresh (relation :: relations) r ↔
    relation.name ∉ r.fields.names ∧ Fresh relations (r.append [(relation.name, value)]) :=
  Fields.new_cons

/-- No relation has a rule on a property that one before it attaches. -/
def Unread (relations : List Relation) : Prop :=
  relations.Pairwise fun earlier later => ∀ rule ∈ later.rules, rule.parentProperty ≠ earlier.name

/-- What has been attached before does not matter to relations with new names and without a rule on it. -/
theorem resolveAll_append : ∀ {relations : List Relation} {before : Fields},
    Fresh relations (r.append before) → Unread relations →
    (∀ relation ∈ relations, ∀ rule ∈ relation.rules, rule.parentProperty ∉ before.names) →
    resolveAll relations (r.append before) = (do
      let values ← relations.mapM fun relation => resolve relation r
      return r.append (before ++ (relations.map name).zip values))
  | [], before, _, _, _ => by
    unfold resolveAll
    simp
  | relation :: rest, before, hnew, hunread, hbefore => by
    obtain ⟨hlater, hunread⟩ := List.pairwise_cons.1 hunread
    obtain ⟨hfirst, hrest⟩ := List.forall_mem_cons.1 hbefore
    have hsame : resolve relation (r.append before) = resolve relation r :=
      resolve_congr fun rule hrule => Fields.get?_append (hfirst rule hrule)
    unfold resolveAll
    rw [hsame, List.mapM_cons, bind_assoc]
    refine bind_congr fun value => ?_
    obtain ⟨hname, hnew⟩ := (fresh_cons value).1 hnew
    rw [Record.append_append] at hnew
    rw [Record.set_of_not_mem hname, Record.append_append, resolveAll_append hnew hunread]
    · simp
    · intro other hother rule hrule
      rw [Fields.names, List.map_append, List.mem_append, not_or]
      refine ⟨hrest other hother rule hrule, ?_⟩
      simpa using hlater other hother rule hrule

/-- There is no such rule if a record with other properties has all those on which there are rules. -/
theorem unread_of_complete (hfresh : Fresh relations r)
    (hcomplete : ∀ relation ∈ relations, ∀ rule ∈ relation.rules, rule.parentProperty ∈ r.fields.names) :
    Unread relations := by
  refine List.Pairwise.imp_of_mem (R := fun _ _ => True) (fun {earlier later} hearlier hlater _ rule hrule hsame => ?_)
    (List.pairwise_of_forall fun _ _ => trivial)
  refine hfresh.2 earlier.name (List.mem_map_of_mem hearlier) ?_
  rw [← hsame]
  exact hcomplete later hlater rule hrule

/-! ### Successful runs -/

theorem names_attached {values : List Value} (h : values.length = relations.length) :
    Fields.names ((relations.map name).zip values) = relations.map name :=
  List.map_fst_zip (by rw [List.length_map, h])

/-- The relations that have been resolved have set their values one after the other. -/
theorem of_resolveAll : ∀ {relations : List Relation} {r shown : Record} {s t : Session},
    (resolveAll relations r).run s = (.ok shown, t) → ∃ values : List Value, values.length = relations.length ∧
      shown.fields = r.fields.setAll ((relations.map name).zip values)
  | [], r, shown, s, t, h => by
    unfold resolveAll at h
    cases h
    exact ⟨[], rfl, rfl⟩
  | relation :: rest, r, shown, s, t, h => by
    unfold resolveAll at h
    obtain ⟨value, u, -, h⟩ := ok_of_run_bind h
    obtain ⟨values, hlength, hshown⟩ := of_resolveAll h
    exact ⟨value :: values, congrArg (· + 1) hlength, hshown⟩

/-- A record that has been loaded is from the input. -/
theorem offers_of_load {input : Input} {position : Position} {child : Record} {s t : Session}
    (h : (load input position).run s = (.ok child, t)) : input.Offers child := by
  replace h : s.loadIn input position = (.ok child, t) := h
  unfold loadIn at h
  dsimp only at h
  split at h
  · cases h
  · rename_i reader _
    exact ⟨reader, position, congrArg Prod.fst h⟩

/-- The records that have been gathered are from the input. -/
theorem offers_of_gather {input : Input} : ∀ {pulls : Nat} {wanted : Option Nat} {feed : Feed} {found : List Record}
    {s t : Session}, (gather input pulls wanted feed).run s = (.ok found, t) → ∀ child ∈ found, input.Offers child
  | 0, wanted, feed, found, s, t, h => by
    cases h
    nofun
  | pulls + 1, wanted, feed, found, s, t, h => by
    unfold gather at h
    obtain ⟨⟨pulled, rest⟩, u, -, h⟩ := ok_of_run_bind h
    cases pulled with
    | none =>
      cases h
      nofun
    | some position =>
      obtain ⟨p, u, -, h⟩ := ok_of_run_bind h
      obtain ⟨child, u, hload, h⟩ := ok_of_run_bind h
      have hchild := offers_of_load hload
      split at h
      · cases h
        simpa using hchild
      · obtain ⟨more, u, hmore, h⟩ := ok_of_run_bind h
        cases h
        exact List.forall_mem_cons.2 ⟨hchild, offers_of_gather hmore⟩

/-- The children that have been found are from the input. -/
theorem offers_of_children {name : String} {input : Input} {isArray : Bool} {limit : Nat} {sort : List Config.SortKey}
    {rules : List Rule} {parent : Record} {found : List Record} {s t : Session}
    (h : (children name input isArray limit sort rules parent).run s = (.ok found, t)) :
    ∀ child ∈ found, input.Offers child := by
  unfold children at h
  obtain ⟨q, u, -, h⟩ := ok_of_run_bind h
  obtain ⟨feed, u, -, h⟩ := ok_of_run_bind h
  obtain ⟨gathered, u, hgathered, h⟩ := ok_of_run_bind h
  obtain ⟨arranged, v, hsorted, h⟩ := ok_of_run_bind h
  cases h
  intro child hchild
  refine offers_of_gather hgathered child ?_
  have hmem : child ∈ arranged := by
    unfold cut at hchild
    split_ifs at hchild
    · exact List.mem_of_mem_take hchild
    · exact hchild
    · exact List.mem_of_mem_take hchild
  have hok : sorted sort gathered = .ok arranged := congrArg Prod.fst hsorted
  obtain ⟨same, hsame, harranged, -⟩ | ⟨⟨fault, hfault⟩, -⟩ := sorted_cases sort gathered
  · cases hok.symm.trans hsame
    exact harranged.perm.mem_iff.1 hmem
  · cases hok.symm.trans hfault

mutual

/-- A value which a relation attaches: a list of children or a single one, each of them with what the relations below
append to it. -/
def Attaches : Relation → Value → Prop
  | mk _ input isArray _ _ _ below, value => ∃ found shown : List Record, (∀ child ∈ found, input.Offers child) ∧
      List.Forall₂ (Appends below) found shown ∧ value = valueOf isArray shown

/-- A record with one property for each of several relations behind its own. -/
def Appends : List Relation → Record → Record → Prop
  | [], r, shown => shown = r
  | relation :: rest, r, shown =>
    ∃ value, Attaches relation value ∧ Appends rest (r.append [(relation.name, value)]) shown

end

/-- The names of the relations of a relation are new for all children which its input may give. -/
abbrev FreshBelow (input : Input) (_ : List Rule) (below : List Relation) : Prop :=
  ∀ child, input.Offers child → Fresh below child

mutual

/-- A relation attaches children to which the relations below have appended, if their names are new. -/
theorem attaches_of_run : ∀ {relation : Relation} {parent : Record} {value : Value} {s t : Session},
    relation.Each FreshBelow → (resolve relation parent).run s = (.ok value, t) → Attaches relation value
  | mk name input isArray limit sort rules below, parent, value, s, t, hfresh, h => by
    unfold Each at hfresh
    unfold resolve at h
    obtain ⟨found, u, hfound, h⟩ := ok_of_run_bind h
    obtain ⟨shown, v, hshown, h⟩ := ok_of_run_bind h
    cases h
    have hoffers := offers_of_children hfound
    unfold Attaches
    refine ⟨found, shown, hoffers, ?_, rfl⟩
    have hall := List.forall₂_iff_zip.1 (forall₂_of_run_mapM hshown)
    refine List.forall₂_iff_zip.2 ⟨hall.1, fun {child shown} hmem => ?_⟩
    obtain ⟨u, v, hrun⟩ := hall.2 hmem
    exact appends_of_run (hfresh.1 child (hoffers child (List.of_mem_zip hmem).1)) hfresh.2 hrun

/-- Relations append to a record if their names are new, and so do the relations below them. -/
theorem appends_of_run : ∀ {relations : List Relation} {r shown : Record} {s t : Session}, Fresh relations r →
    EachOf FreshBelow relations → (resolveAll relations r).run s = (.ok shown, t) → Appends relations r shown
  | [], r, shown, s, t, _, _, h => by
    unfold resolveAll at h
    cases h
    unfold Appends
    rfl
  | relation :: rest, r, shown, s, t, hfresh, hbelow, h => by
    unfold EachOf at hbelow
    unfold resolveAll at h
    obtain ⟨value, u, hvalue, h⟩ := ok_of_run_bind h
    obtain ⟨hname, hrest⟩ := (fresh_cons value).1 hfresh
    rw [Record.set_of_not_mem hname] at h
    unfold Appends
    exact ⟨value, attaches_of_run hbelow.1 hvalue, appends_of_run hrest hbelow.2 h⟩

end

/-! ### Names in a configuration -/

/-- Relations have names which are different from each other and from those of the properties of an input. -/
def Named (input : Input) (relations : List Relation) : Prop :=
  (relations.map name).Nodup ∧ ∀ relation ∈ relations, input.hasProperty relation.name = false

/-- Such names are new for all records of the input. -/
theorem fresh_of_named {input : Input} (hnamed : Named input relations) (hr : input.Offers r) : Fresh relations r := by
  refine ⟨hnamed.1, fun other hother hmem => ?_⟩
  obtain ⟨relation, hrelation, rfl⟩ := List.mem_map.1 hother
  exact Bool.noConfusion ((Input.hasProperty_of_offers hr hmem).symm.trans (hnamed.2 relation hrelation))

/-- No rule is on what has such a name, if the relations have been compiled. -/
theorem unread_of_named {c : Catalog} {input : Input} {place : String} {relationships : List Config.Relationship}
    (hcompile : compileAll c input place relationships = .ok relations) (hnamed : Named input relations) :
    Unread relations := by
  refine List.Pairwise.imp_of_mem (R := fun _ _ => True) (fun {earlier later} hearlier hlater _ rule hrule hsame => ?_)
    (List.pairwise_of_forall fun _ _ => trivial)
  have hproperty := (fits_of_mem hcompile later hlater).1.present rule hrule
  rw [hsame, hnamed.2 earlier hearlier] at hproperty
  exact Bool.noConfusion hproperty

/-- **Relations append exactly if their names are new**, and then what each of them attaches depends only on the record
which has been loaded. All other properties stay as they are in any case. -/
theorem resolveAll_appends (relations : List Relation) (r : Record) :
    (∀ s shown t, (resolveAll relations r).run s = (.ok shown, t) →
      (∃ new, shown.fields.names = r.fields.names ++ new ∧ new.Sublist (relations.map name)) ∧
      (∀ relation ∈ relations, relation.name ∈ shown.fields.names) ∧
      (∀ (k : Nat) field, r.fields[k]? = some field → field.1 ∉ relations.map name → shown.fields[k]? = some field) ∧
      ((∃ values, values.length = relations.length ∧ shown = r.append ((relations.map name).zip values)) ↔
        Fresh relations r)) ∧
    (Fresh relations r → (Unread relations ∨ ∀ relation ∈ relations, ∀ rule ∈ relation.rules,
        rule.parentProperty ∈ r.fields.names) → resolveAll relations r = (do
      let values ← relations.mapM fun relation => resolve relation r
      return r.append ((relations.map name).zip values))) ∧
    (Fresh relations r → EachOf FreshBelow relations →
      ∀ s shown t, (resolveAll relations r).run s = (.ok shown, t) → Appends relations r shown) ∧
    ∀ c parent place relationships, compileAll c parent place relationships = .ok relations →
      Named parent relations → parent.Offers r → Fresh relations r ∧ Unread relations := by
  refine ⟨fun s shown t hrun => ?_, fun hfresh hunread => ?_, fun hfresh hbelow s shown t hrun => ?_, ?_⟩
  · obtain ⟨values, hlength, hshown⟩ := of_resolveAll hrun
    have hnames := names_attached hlength
    obtain ⟨new, hnew, hsub⟩ := Fields.names_setAll ((relations.map name).zip values) r.fields
    rw [← hshown] at hnew
    rw [hnames] at hsub
    refine ⟨⟨new, hnew, hsub⟩, fun relation hrelation => ?_, fun k field hk hnot => ?_, ?_, fun hfresh => ?_⟩
    · rw [hshown]
      refine Fields.mem_names_setAll ?_
      rw [hnames]
      exact List.mem_map_of_mem hrelation
    · rw [hshown]
      refine Fields.getElem?_setAll hk ?_
      rwa [hnames]
    · rintro ⟨others, hothers, rfl⟩
      unfold Fresh
      have happended : (r.append ((relations.map name).zip others)).fields.names =
          r.fields.names ++ Fields.names ((relations.map name).zip others) :=
        List.map_append
      rw [← hnames, ← Fields.names_setAll_iff, ← hshown, happended, names_attached hothers, hnames]
    · unfold Fresh at hfresh
      rw [← hnames] at hfresh
      exact ⟨values, hlength, congrArg Record.mk (hshown.trans (Fields.setAll_of_new hfresh))⟩
  · have hr : r.append [] = r := congrArg Record.mk (List.append_nil r.fields)
    have hunread : Unread relations := hunread.elim id (unread_of_complete hfresh)
    have h := @resolveAll_append r relations [] (hr.symm ▸ hfresh) hunread fun _ _ _ _ => List.not_mem_nil
    rwa [hr] at h
  · exact appends_of_run hfresh hbelow hrun
  · intro c parent place relationships hcompile hnamed hr
    exact ⟨fresh_of_named hnamed hr, unread_of_named hcompile hnamed⟩

/-! ### Two tables -/

/-- Two relations of the second table. -/
def ofBothTables (i : Index) : List Relation := [ofTwoTables i, mk "any" (.ofTable "u") false 0 [] [] []]

theorem resolveAll_appends_built : Named (.ofTable "v") (ofBothTables (.ofLetter "second" "v" "q")) ∧
    EachOf FreshBelow (ofBothTables (.ofLetter "second" "v" "q")) ∧
    (Input.ofTable "v").Offers ⟨[("cell", .string "q")]⟩ ∧
    Fresh (ofBothTables (.ofLetter "second" "v" "q")) ⟨[("cell", .string "q")]⟩ ∧
    Appends (ofBothTables (.ofLetter "second" "v" "q")) ⟨[("cell", .string "q")]⟩
      ⟨[("cell", .string "q"), ("same", .list [.map [("cell", .string "q"), ("any", .map [("cell", .string "p")])]]),
        ("any", .map [("cell", .string "p")])]⟩ := by
  have hnamed : Named (.ofTable "v") (ofBothTables (.ofLetter "second" "v" "q")) := by
    refine ⟨by decide, ?_⟩
    simp [ofBothTables, ofTwoTables, name, Input.hasProperty, Input.ofTable]
  have hany : Named (.ofTable "v") [mk "any" (.ofTable "u") false 0 [] [] []] :=
    ⟨List.nodup_singleton _, by simp [name, Input.hasProperty, Input.ofTable]⟩
  have hbelow : EachOf FreshBelow (ofBothTables (.ofLetter "second" "v" "q")) := by
    have hnone : (mk "any" (.ofTable "u") false 0 [] [] []).Each FreshBelow := by
      unfold Each
      exact ⟨fun child _ => ⟨List.nodup_nil, fun _ hname => absurd hname List.not_mem_nil⟩, trivial⟩
    unfold ofBothTables ofTwoTables EachOf EachOf Each EachOf EachOf
    exact ⟨⟨fun child => fresh_of_named hany, hnone, trivial⟩, hnone, trivial⟩
  have hoffers : (Input.ofTable "v").Offers ⟨[("cell", .string "q")]⟩ :=
    ⟨⟨some (.ofBytes [113, 10]), none⟩, 0, by cbv⟩
  have hcompile : compileAll (Site.ofIndexes [.ofLetter "second" "v" "q"] (.ofLetter "second" "v" "q")).catalog
      (.ofTable "v") "outputs.list.relationships" [.ofTwoTables, .mk "any" "u" false 0 [] [] []] =
      .ok (ofBothTables (.ofLetter "second" "v" "q")) := by
    cbv
  obtain ⟨-, -, happends, hconfigured⟩ :=
    resolveAll_appends (ofBothTables (.ofLetter "second" "v" "q")) ⟨[("cell", .string "q")]⟩
  have hfresh := (hconfigured _ _ _ _ hcompile hnamed hoffers).1
  refine ⟨hnamed, hbelow, hoffers, hfresh, ?_⟩
  exact happends hfresh hbelow (.new (.withLetter "cells" "q") .never) _ _ (Prod.ext (by cbv) rfl)

/-- A relation that is named like a property takes its place, and the next one reads what it has attached. -/
example : ((resolveAll [mk "cell" (.ofTable "u") false 0 [] [] [],
      mk "same" (.ofTable "v") true 0 [] [⟨"cell", "cell", .scan "default"⟩] []] ⟨[("cell", .string "q")]⟩).run
      (.new .twoTables .never)).1 =
    .ok ⟨[("cell", .map [("cell", .string "p")]), ("same", .list [])]⟩ := by
  cbv

/-- A relation has a rule on a property that is missing, unless one before it attaches it. -/
example : ((resolveAll [mk "first" (.ofTable "u") false 0 [] [] [],
      mk "same" (.ofTable "v") true 0 [] [⟨"first", "cell", .scan "default"⟩] []] ⟨[("cell", .string "q")]⟩).run
      (.new .twoTables .never)).1 =
    .ok ⟨[("cell", .string "q"), ("first", .map [("cell", .string "p")]), ("same", .list [])]⟩ := by
  cbv

end Relation

end RecordServer
