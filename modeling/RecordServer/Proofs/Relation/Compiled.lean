import RecordServer.Proofs.Catalog
import RecordServer.Proofs.Config.Reading
import RecordServer.Proofs.Relation.Resolving

/-!
# Compiled relations

A configuration that has been read from a text has conditions on different properties in each of its relationships
(`Config.separate_of_ofText`). A relation that is compiled from such a relationship refers to an input and to indexes of
the catalog, its rules are on different properties, and so it is with the relations below it (`Relation.each_compile`).
Its rules are also about properties of the records to which it belongs, at any depth (`Relation.fits_of_nested`).
-/

namespace RecordServer

/-! ## Conditions on different properties -/

namespace Config

mutual

/-- The conditions of a relationship are on different properties of the children, and so are those of all relationships
below it. -/
def Relationship.Separate : Relationship → Prop
  | .mk _ _ _ _ _ conditions relationships =>
    (conditions.map Match.childProperty).Nodup ∧ separateAll relationships

/-- The conditions of each of several relationships are on different properties. -/
def separateAll : List Relationship → Prop
  | [] => True
  | relationship :: rest => relationship.Separate ∧ separateAll rest

end

theorem separateAll_iff : ∀ {relationships : List Relationship},
    separateAll relationships ↔ ∀ relationship ∈ relationships, relationship.Separate
  | [] => by simp [separateAll]
  | relationship :: rest => by
    rw [separateAll, List.forall_mem_cons, separateAll_iff]

/-- Values stay different if one is added that none of the others has. -/
theorem nodup_map_cons {α β : Type} [BEq β] [LawfulBEq β] {f : α → β} {a : α} {as : List α}
    (hnew : ¬(as.any fun other => f other == f a) = true) (has : (as.map f).Nodup) : ((a :: as).map f).Nodup := by
  refine List.nodup_cons.2 ⟨fun hmem => hnew ?_, has⟩
  obtain ⟨other, hother, hsame⟩ := List.mem_map.1 hmem
  exact List.any_eq_true.2 ⟨other, hother, beq_iff_eq.2 hsame⟩

/-- No two conditions are read on one property. -/
theorem nodup_readMatches : ∀ {settings : List Setting} {read conditions : List Match},
    readMatches read settings = .ok conditions → (read.map Match.childProperty).Nodup →
    (conditions.map Match.childProperty).Nodup
  | [], read, conditions, h, hread => by
    cases h
    rw [List.map_reverse]
    exact List.nodup_reverse.2 hread
  | s :: rest, read, conditions, h, hread => by
    obtain ⟨⟨⟩, -, h⟩ := ok_of_bind h
    obtain ⟨parentProperty, -, h⟩ := ok_of_bind h
    obtain ⟨childProperty, -, h⟩ := ok_of_bind h
    obtain ⟨childIndex, -, h⟩ := ok_of_bind h
    dsimp only at h
    split at h
    · cases h
    · rename_i hnew
      exact nodup_readMatches h (nodup_map_cons hnew hread)

/-- The relationships that are read have conditions on different properties, at any depth. -/
theorem separate_readRelationships : ∀ {depth : Nat} {s : Setting} {relationships : List Relationship},
    readRelationships depth s = .ok relationships → ∀ relationship ∈ relationships, relationship.Separate
  | 0, s, relationships, h => by
    obtain ⟨-, rfl⟩ := of_readRelationships_zero h
    exact List.forall_mem_nil _
  | depth + 1, s, relationships, h => by
    obtain ⟨entries, -, hread⟩ := of_readRelationships h
    intro relationship hmem
    obtain ⟨entry, -, hread⟩ := mem_of_forall₂ hread relationship hmem
    obtain ⟨-, -, -, -, -, -, hconditions, -, hbelow, -⟩ := hread
    unfold Relationship.Separate
    exact ⟨nodup_readMatches hconditions List.nodup_nil, separateAll_iff.2 (separate_readRelationships hbelow)⟩

/-- The relationships of an output that is read have been read below it. -/
theorem relationships_read {s : Setting} {o : Output} (h : Output.read s = .ok o) :
    readRelationships maxDepth (s.child "relationships") = .ok o.relationships := by
  cases of_readOutput h <;> assumption

/-- **A configuration that has been read from a text has conditions on different properties only**, in all relationships
of all outputs. -/
theorem separate_of_ofText {isDirectory : String → Bool} {text : String} {config : Config}
    (h : ofText isDirectory text = .ok config) :
    ∀ entry ∈ config.outputs, ∀ relationship ∈ entry.2.relationships, relationship.Separate := by
  rcases of_ofText h with rfl | ⟨root, hread⟩
  · exact List.forall_mem_nil _
  · obtain ⟨-, -, -, -, -, houtputs, -, -, -⟩ := hread
    intro entry hentry
    obtain ⟨s, hs⟩ := mem_readSection houtputs entry hentry
    exact separate_readRelationships (relationships_read hs)

end Config

/-! ## What has been compiled -/

namespace Relation

variable {c : Catalog}

/-- The rules of a relation. -/
def rules : Relation → List Rule
  | mk _ _ _ _ _ rules _ => rules

/-- The input and the rules of a relation are from a catalog, and the rules are on different properties. -/
structure Compiled (c : Catalog) (input : Input) (rules : List Rule) : Prop where
  known : ∃ name, c.inputs.lookup name = some input
  indexed : ∀ rule ∈ rules, ∃ name, c.indexes.lookup name = some rule.index ∧
    rule.index.handlesInput input.name = true ∧ rule.index.handlesProperty rule.childProperty = true
  distinct : (rules.map Rule.childProperty).Nodup

variable {parent child : Input} {place : String}

theorem of_compileRules : ∀ {n : Nat} {conditions : List Config.Match} {rules : List Rule},
    compileRules c parent child place n conditions = .ok rules →
    rules.map Rule.childProperty = conditions.map Config.Match.childProperty ∧
      ∀ rule ∈ rules, c.Provides child rule.childProperty rule.index
  | _, [], rules, h => by
    cases h
    exact ⟨rfl, nofun⟩
  | n, condition :: rest, rules, h => by
    unfold compileRules at h
    split at h
    · cases h
    obtain ⟨index, hindex, h⟩ := ok_of_bind h
    obtain ⟨more, hmore, h⟩ := ok_of_bind h
    cases h
    obtain ⟨hproperties, hrules⟩ := of_compileRules hmore
    refine ⟨by rw [List.map_cons, List.map_cons, hproperties], ?_⟩
    rw [List.forall_mem_cons]
    exact ⟨Catalog.provides_of_filterIndex hindex, hrules⟩

/-- A relation that has been compiled, with its parts. -/
theorem of_compile {name input : String} {isArray : Bool} {limit : Nat} {sort : List Config.SortKey}
    {conditions : List Config.Match} {relationships : List Config.Relationship} {relation : Relation}
    (h : compile c parent place (.mk name input isArray limit sort conditions relationships) = .ok relation) :
    ∃ child rules relations below, relation = .mk name child isArray limit sort rules relations ∧
      c.inputs.lookup input = some child ∧
      (∃ here, compileRules c parent child here 0 conditions = .ok rules) ∧
      compileAll c child below relationships = .ok relations := by
  unfold compile at h
  obtain ⟨child, hchild, h⟩ := ok_of_bind h
  obtain ⟨rules, hrules, h⟩ := ok_of_bind h
  obtain ⟨⟨⟩, -, h⟩ := ok_of_bind h
  obtain ⟨relations, hrelations, h⟩ := ok_of_bind h
  cases h
  exact ⟨child, rules, relations, _, rfl, Catalog.lookup_of_input hchild, ⟨_, hrules⟩, hrelations⟩

theorem of_compileAll {relationship : Config.Relationship} {rest : List Config.Relationship}
    {relations : List Relation} (h : compileAll c parent place (relationship :: rest) = .ok relations) :
    ∃ relation more, relations = relation :: more ∧ compile c parent place relationship = .ok relation ∧
      compileAll c parent place rest = .ok more := by
  unfold compileAll at h
  obtain ⟨relation, hrelation, h⟩ := ok_of_bind h
  obtain ⟨more, hmore, h⟩ := ok_of_bind h
  cases h
  exact ⟨relation, more, rfl, hrelation, hmore⟩

/-- The rules of relations that have been compiled are on properties of their parents. -/
theorem hasProperty_of_compileRules : ∀ {n : Nat} {conditions : List Config.Match} {rules : List Rule},
    compileRules c parent child place n conditions = .ok rules →
    ∀ rule ∈ rules, parent.hasProperty rule.parentProperty = true
  | _, [], rules, h => by
    cases h
    nofun
  | n, condition :: rest, rules, h => by
    unfold compileRules at h
    split at h
    · cases h
    rename_i hproperty
    obtain ⟨index, -, h⟩ := ok_of_bind h
    obtain ⟨more, hmore, h⟩ := ok_of_bind h
    cases h
    exact List.forall_mem_cons.2 ⟨by simpa using hproperty, hasProperty_of_compileRules hmore⟩

/-- The input of the related records. -/
def input : Relation → Input
  | mk _ input _ _ _ _ _ => input

/-- The relations of the related records. -/
def relations : Relation → List Relation
  | mk _ _ _ _ _ _ relations => relations

/-- A relation fits the records to which it belongs: its rules are about their properties, and have indexes of the
catalog for those of the related records. -/
structure Fits (c : Catalog) (parent : Input) (relation : Relation) : Prop where
  present : ∀ rule ∈ relation.rules, parent.hasProperty rule.parentProperty = true
  indexed : ∀ rule ∈ relation.rules, c.Provides relation.input rule.childProperty rule.index

/-- A relation that has been compiled fits, and so have those below it been compiled. -/
theorem fits_of_compile {relationship : Config.Relationship} {relation : Relation}
    (h : compile c parent place relationship = .ok relation) : Fits c parent relation ∧
      ∃ place relationships, compileAll c relation.input place relationships = .ok relation.relations := by
  obtain ⟨name, input, isArray, limit, sort, conditions, relationships⟩ := relationship
  obtain ⟨child, rules, relations, below, rfl, -, ⟨here, hrules⟩, hrelations⟩ := of_compile h
  exact ⟨⟨hasProperty_of_compileRules hrules, (of_compileRules hrules).2⟩, below, relationships, hrelations⟩

/-- So it is with each of several relations. -/
theorem fits_of_mem : ∀ {relationships : List Config.Relationship} {relations : List Relation},
    compileAll c parent place relationships = .ok relations → ∀ relation ∈ relations, Fits c parent relation ∧
      ∃ place relationships, compileAll c relation.input place relationships = .ok relation.relations
  | [], relations, h => by
    unfold compileAll at h
    cases h
    nofun
  | relationship :: rest, relations, h => by
    obtain ⟨relation, more, rfl, hrelation, hmore⟩ := of_compileAll h
    exact List.forall_mem_cons.2 ⟨fits_of_compile hrelation, fits_of_mem hmore⟩

/-- Of the relations of an input, and of those below them, one belongs to the records of a parent. -/
inductive Nested : Input → List Relation → Input → Relation → Prop
  | direct {parent : Input} {relations : List Relation} {relation : Relation} (mem : relation ∈ relations) :
    Nested parent relations parent relation
  | deeper {input parent : Input} {relations : List Relation} {outer relation : Relation} (mem : outer ∈ relations)
    (nested : Nested outer.input outer.relations parent relation) : Nested input relations parent relation

theorem Nested.cons {input parent : Input} {relations : List Relation} {first relation : Relation}
    (h : Nested input relations parent relation) : Nested input (first :: relations) parent relation := by
  cases h with
  | direct mem => exact .direct (List.mem_cons_of_mem _ mem)
  | deeper mem nested => exact .deeper (List.mem_cons_of_mem _ mem) nested

/-- **Relations that have been compiled fit**, at any depth. -/
theorem fits_of_nested {input : Input} {relations : List Relation} {relation : Relation}
    (h : Nested input relations parent relation) : ∀ {place : String} {relationships : List Config.Relationship},
    compileAll c input place relationships = .ok relations → Fits c parent relation := by
  induction h with
  | direct mem => exact fun hcompile => (fits_of_mem hcompile _ mem).1
  | deeper mem _ ih =>
    intro place relationships hcompile
    obtain ⟨-, below, nested, hbelow⟩ := fits_of_mem hcompile _ mem
    exact ih hbelow

mutual

/-- **A relation that has been compiled refers to the catalog**, with rules on different properties, and so do all
relations below it. -/
theorem each_compile : ∀ {relationship : Config.Relationship} {parent : Input} {place : String} {relation : Relation},
    relationship.Separate → compile c parent place relationship = .ok relation →
    relation.Each fun input rules _ => Compiled c input rules
  | .mk _ _ _ _ _ _ relationships, parent, place, relation, hseparate, h => by
    obtain ⟨child, rules, relations, below, rfl, hchild, ⟨here, hrules⟩, hrelations⟩ := of_compile h
    obtain ⟨hproperties, hindexed⟩ := of_compileRules hrules
    unfold Config.Relationship.Separate at hseparate
    unfold Each
    exact ⟨⟨⟨_, hchild⟩, hindexed, hproperties ▸ hseparate.1⟩, each_compileAll hseparate.2 hrelations⟩

theorem each_compileAll : ∀ {relationships : List Config.Relationship} {parent : Input} {place : String}
    {relations : List Relation}, Config.separateAll relationships →
    compileAll c parent place relationships = .ok relations →
    EachOf (fun input rules _ => Compiled c input rules) relations
  | [], _, _, _, _, h => by
    unfold compileAll at h
    cases h
    exact trivial
  | relationship :: rest, parent, place, relations, hseparate, h => by
    obtain ⟨relation, more, rfl, hrelation, hmore⟩ := of_compileAll h
    unfold Config.separateAll at hseparate
    unfold EachOf
    exact ⟨each_compile hseparate.1 hrelation, each_compileAll hseparate.2 hmore⟩

end

end Relation

end RecordServer
