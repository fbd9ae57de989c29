import Mathlib.Data.List.Nodup
import RecordServer.Yaml.Document

/-!
# Different keys

In every document that is read, the keys of each map are different (`Yaml.distinct_of_read?`), so that the entry of a
key is the one that `Setting.lookup` would find. `Node.entriesOf` puts no key in twice; an alias stands for a node that
has been read before, which is why the invariant is also about the anchors.
-/

namespace RecordServer.Yaml

namespace Node

mutual

/-- The equality of nodes is the real one. -/
theorem equal_iff : ∀ {a b : Node}, equal a b = true ↔ a = b
  | .list as, b => by
    cases b with
    | list bs => rw [equal, equalItems_iff, list.injEq]
    | _ => simp [equal]
  | .map as, b => by
    cases b with
    | map bs => rw [equal, equalEntries_iff, map.injEq]
    | _ => simp [equal]
  | .null, b => by cases b <;> simp [equal]
  | .absent, b => by cases b <;> simp [equal]
  | .boolean truth, b => by cases b <;> simp [equal]
  | .integer number, b => by cases b <;> simp [equal]
  | .real text, b => by cases b <;> simp [equal]
  | .string text, b => by cases b <;> simp [equal]

theorem equalItems_iff : ∀ {as bs : List Node}, equalItems as bs = true ↔ as = bs
  | [], bs => by cases bs <;> simp [equalItems]
  | a :: as, bs => by
    cases bs with
    | nil => simp [equalItems]
    | cons b bs => rw [equalItems, Bool.and_eq_true, equal_iff, equalItems_iff, List.cons.injEq]

theorem equalEntries_iff : ∀ {as bs : List (Node × Node)}, equalEntries as bs = true ↔ as = bs
  | [], bs => by cases bs <;> simp [equalEntries]
  | (k, a) :: as, bs => by
    cases bs with
    | nil => simp [equalEntries]
    | cons entry bs =>
      obtain ⟨l, b⟩ := entry
      rw [equalEntries, Bool.and_eq_true, Bool.and_eq_true, equal_iff, equal_iff, equalEntries_iff, List.cons.injEq,
        Prod.mk.injEq]

end

instance : DecidableEq Node := fun _ _ => decidable_of_iff _ equal_iff

end Node

/-- Whether there is nothing within a node. -/
def Node.isScalar : Node → Bool
  | .list _ => false
  | .map _ => false
  | _ => true

/-- Different keys in each map of a node, where nothing is said about the keys themselves. -/
inductive Node.Distinct : Node → Prop
  | scalar {node : Node} : node.isScalar = true → Distinct node
  | list {items : List Node} : (∀ item ∈ items, Distinct item) → Distinct (.list items)
  | map {entries : List (Node × Node)} : (entries.map Prod.fst).Nodup → (∀ entry ∈ entries, Distinct entry.2) →
      Distinct (.map entries)

/-- Different keys in each of several nodes. -/
def DistinctAll (nodes : List Node) : Prop := ∀ node ∈ nodes, node.Distinct

theorem distinctAll_nil : DistinctAll [] := nofun

theorem distinctAll_cons {node : Node} {nodes : List Node} (hnode : node.Distinct) (h : DistinctAll nodes) :
    DistinctAll (node :: nodes) := List.forall_mem_cons.2 ⟨hnode, h⟩

theorem distinctAll_reverse {nodes : List Node} (h : DistinctAll nodes) : DistinctAll nodes.reverse :=
  fun node hnode => h node (List.mem_reverse.1 hnode)

namespace Node

/-! ## Entries -/

/-- Entries with different keys, whose values have different keys. -/
structure Fresh (entries : List (Node × Node)) : Prop where
  keys : (entries.map Prod.fst).Nodup
  values : ∀ entry ∈ entries, entry.2.Distinct

theorem fresh_insert {key value : Node} {entries : List (Node × Node)} (h : Fresh entries) (hvalue : value.Distinct) :
    Fresh (insert key value entries) := by
  unfold insert
  split
  · refine ⟨List.nodup_cons.2 ⟨fun hkey => ?_, h.keys.sublist (List.filter_sublist.map _)⟩,
      List.forall_mem_cons.2 ⟨hvalue, fun entry hentry => h.values entry (List.mem_filter.1 hentry).1⟩⟩
    obtain ⟨entry, hentry, hsame⟩ := List.mem_map.1 hkey
    simpa [equal_iff.2 hsame] using (List.mem_filter.1 hentry).2
  · rename_i hnew
    refine ⟨List.nodup_cons.2 ⟨fun hkey => hnew ?_, h.keys⟩, List.forall_mem_cons.2 ⟨hvalue, h.values⟩⟩
    obtain ⟨entry, hentry, hsame⟩ := List.mem_map.1 hkey
    exact List.any_eq_true.2 ⟨entry, hentry, equal_iff.2 hsame⟩

theorem distinct_entriesOf : ∀ {nodes : List Node} {key : Node} {entries : List (Node × Node)},
    DistinctAll nodes → Fresh entries → Distinct (.map (entriesOf key nodes entries))
  | [], key, entries, _, h => by
    refine .map ?_ fun entry hentry => h.values entry (List.mem_reverse.1 hentry)
    rw [entriesOf, List.map_reverse]
    exact List.nodup_reverse.2 h.keys
  | node :: rest, key, entries, hnodes, h => by
    obtain ⟨hnode, hrest⟩ := List.forall_mem_cons.1 hnodes
    unfold entriesOf
    split
    · exact distinct_entriesOf hrest h
    · exact distinct_entriesOf hrest (fresh_insert h hnode)

theorem distinct_ofNodes {nodes : List Node} (h : DistinctAll nodes) : (ofNodes nodes).Distinct :=
  distinct_entriesOf h ⟨List.nodup_nil, nofun⟩

theorem isScalar_ofPlain (text : String) : (ofPlain text).isScalar = true := by
  unfold ofPlain
  repeat' split
  all_goals rfl

theorem isScalar_ofTagged (kind text : String) : (ofTagged kind text).isScalar = true := by
  unfold ofTagged
  split
  · repeat' split
    all_goals rfl
  · cases decimal? text.toList <;> rfl
  · split <;> rfl
  · split <;> rfl
  · rfl

end Node

theorem isScalar_scalarNode (tag : Option (String × String)) (plain : Bool) (text : String) :
    (scalarNode tag plain text).isScalar = true := by
  unfold scalarNode
  split
  · rfl
  split
  · exact Node.isScalar_ofPlain text
  · exact Node.isScalar_ofTagged _ text
  · rfl

/-! ## Readings -/

/-- The nodes of the anchors have different keys. -/
def Anchors.Distinct (a : Anchors) : Prop := ∀ entry ∈ a.nodes, entry.2.Distinct

/-- What is read, if anything, is good, and the anchors have different keys. -/
def Keeps {α : Type} (good : α → Prop) (read : Option (Reading α)) : Prop :=
  ∀ x a rest, read = some (x, a, rest) → good x ∧ a.Distinct

section

variable {α β : Type} {good : α → Prop}

theorem keeps_none : Keeps good none := nofun

theorem keeps_some {x : α} {a : Anchors} {rest : List Token} (hx : good x) (ha : a.Distinct) :
    Keeps good (some (x, a, rest)) := by
  intro _ _ _ h
  cases h
  exact ⟨hx, ha⟩

theorem keeps_bind {good' : β → Prop} {read : Option (Reading α)} {f : Reading α → Option (Reading β)}
    (hread : Keeps good read) (hf : ∀ x a rest, good x → a.Distinct → Keeps good' (f (x, a, rest))) :
    Keeps good' (read >>= f) := by
  intro y b behind h
  obtain ⟨⟨x, a, rest⟩, hx, h⟩ := Option.bind_eq_some_iff.1 h
  obtain ⟨hgood, ha⟩ := hread x a rest hx
  exact hf x a rest hgood ha y b behind h

theorem keeps_collection {make : List Node → Node} {read : Option (Reading (List Node))}
    (hmake : ∀ nodes, DistinctAll nodes → (make nodes).Distinct) (hread : Keeps DistinctAll read) :
    Keeps Node.Distinct (collection make read) := by
  intro _ _ _ h
  obtain ⟨⟨nodes, _, _⟩, hnodes, h⟩ := Option.map_eq_some_iff.1 h
  cases h
  obtain ⟨hgood, ha⟩ := hread _ _ _ hnodes
  exact ⟨hmake nodes hgood, ha⟩

end

namespace Anchors

variable {a : Anchors}

/-- Without complete nodes there is nothing to show. -/
theorem distinct_fresh {count : Nat} {numbers : List (String × Nat)} : Distinct ⟨count, numbers, []⟩ :=
  fun _ hentry => absurd hentry List.not_mem_nil

theorem distinct_close {number : Option Nat} {node : Node} (ha : a.Distinct) (hnode : node.Distinct) :
    (a.close number node).Distinct := by
  unfold close
  split
  · exact List.forall_mem_cons.2 ⟨hnode, ha⟩
  · exact ha

theorem distinct_node? {name : String} {node : Node} (ha : a.Distinct) (h : a.node? name = some node) :
    node.Distinct := by
  obtain ⟨number, -, rfl⟩ := Option.map_eq_some_iff.1 h
  cases hlookup : a.nodes.lookup number with
  | none => exact .scalar rfl
  | some node =>
    obtain ⟨before, after, hnodes, -⟩ := List.lookup_eq_some_iff.1 hlookup
    exact ha (number, node) (hnodes ▸ List.mem_append_right before List.mem_cons_self)

end Anchors

theorem distinct_properties {a b : Anchors} {tokens rest : List Token} {props : Properties} (ha : a.Distinct)
    (h : properties a tokens = (props, b, rest)) : b.Distinct := by
  unfold properties at h
  split at h <;> cases h <;> exact ha

/-! ## Readers

One theorem for each function of the grammar, by recursion on the number of steps that bounds all of them. -/

mutual

theorem keeps_node (block unindented : Bool) : ∀ (n : Nat) {a : Anchors} {tokens : List Token}, a.Distinct →
    Keeps Node.Distinct (node block unindented n a tokens)
  | 0, _, _, _ => by
    unfold node
    exact keeps_none
  | n + 1, a, tokens, ha => by
    unfold node
    split
    · contradiction
    · intro _ _ _ h
      obtain ⟨node, hnode, h⟩ := Option.map_eq_some_iff.1 h
      cases h
      exact ⟨Anchors.distinct_node? ha hnode, ha⟩
    · rename_i a tokens _ _ _ _ hn _
      cases hn
      rcases h : properties a tokens with ⟨props, b, rest⟩
      have hb := distinct_properties ha h
      dsimp only
      -- whatever the node is, it may get an anchor, by which it can be repeated later
      have hclose : ∀ (node : Node) (a : Anchors) (rest : List Token), node.Distinct → a.Distinct →
          Keeps Node.Distinct (some (node, a.close props.anchor node, rest)) := fun node a rest hnode ha =>
        keeps_some hnode (Anchors.distinct_close ha hnode)
      split
      · exact hclose _ _ _ (.scalar (isScalar_scalarNode _ _ _)) hb
      · exact keeps_bind (keeps_collection (fun _ => .list) (keeps_flowItems true n distinctAll_nil hb)) hclose
      · exact keeps_bind
          (keeps_collection (fun _ => Node.distinct_ofNodes) (keeps_flowEntries true n distinctAll_nil hb)) hclose
      · split
        · exact keeps_bind (keeps_collection (fun _ => .list) (keeps_blockItems n distinctAll_nil hb)) hclose
        · exact keeps_none
      · split
        · exact keeps_bind
            (keeps_collection (fun _ => Node.distinct_ofNodes) (keeps_blockEntries n distinctAll_nil hb)) hclose
        · exact keeps_none
      · split
        · exact keeps_bind (keeps_collection (fun _ => .list) (keeps_unindentedItems n distinctAll_nil hb)) hclose
        split
        · exact hclose (scalarNode props.tag true "") b rest (.scalar (isScalar_scalarNode _ _ _)) hb
        · exact keeps_none

theorem keeps_nodeUnless (followers : List Token) (block unindented : Bool) : ∀ (n : Nat) {a : Anchors}
    {tokens : List Token}, a.Distinct → Keeps Node.Distinct (nodeUnless followers block unindented n a tokens)
  | 0, _, _, _ => by
    unfold nodeUnless
    exact keeps_none
  | n + 1, a, tokens, ha => by
    unfold nodeUnless
    split
    · exact keeps_some (.scalar rfl) ha
    · exact keeps_node block unindented n ha

theorem keeps_blockItems : ∀ (n : Nat) {read : List Node} {a : Anchors} {tokens : List Token}, DistinctAll read →
    a.Distinct → Keeps DistinctAll (blockItems n read a tokens)
  | 0, _, _, _, _, _ => by
    unfold blockItems
    exact keeps_none
  | n + 1, read, a, tokens, hread, ha => by
    unfold blockItems
    split
    · contradiction
    · exact keeps_some (distinctAll_reverse hread) ha
    · rename_i hn
      cases hn
      refine keeps_bind (keeps_nodeUnless _ true false n ha) fun item a rest hitem ha => ?_
      exact keeps_blockItems n (distinctAll_cons hitem hread) ha
    · exact keeps_none

theorem keeps_unindentedItems : ∀ (n : Nat) {read : List Node} {a : Anchors} {tokens : List Token}, DistinctAll read →
    a.Distinct → Keeps DistinctAll (unindentedItems n read a tokens)
  | 0, _, _, _, _, _ => by
    unfold unindentedItems
    exact keeps_none
  | n + 1, read, a, tokens, hread, ha => by
    unfold unindentedItems
    split
    · contradiction
    · rename_i hn
      cases hn
      refine keeps_bind (keeps_nodeUnless _ true false n ha) fun item a rest hitem ha => ?_
      exact keeps_unindentedItems n (distinctAll_cons hitem hread) ha
    · exact keeps_some (distinctAll_reverse hread) ha

theorem keeps_blockEntries : ∀ (n : Nat) {read : List Node} {a : Anchors} {tokens : List Token}, DistinctAll read →
    a.Distinct → Keeps DistinctAll (blockEntries n read a tokens)
  | 0, _, _, _, _, _ => by
    unfold blockEntries
    exact keeps_none
  | n + 1, read, a, tokens, hread, ha => by
    unfold blockEntries
    split
    · contradiction
    · exact keeps_some (distinctAll_reverse hread) ha
    · rename_i hn
      cases hn
      refine keeps_bind (keeps_nodeUnless _ true true n ha) fun key a rest hkey ha => ?_
      refine keeps_bind (keeps_blockValue n ha) fun value a rest hvalue ha => ?_
      exact keeps_blockEntries n (distinctAll_cons hvalue (distinctAll_cons hkey hread)) ha
    · rename_i hn
      cases hn
      refine keeps_bind (keeps_blockValue n ha) fun value a rest hvalue ha => ?_
      exact keeps_blockEntries n (distinctAll_cons hvalue (distinctAll_cons (.scalar rfl) hread)) ha
    · exact keeps_none

theorem keeps_blockValue : ∀ (n : Nat) {a : Anchors} {tokens : List Token}, a.Distinct →
    Keeps Node.Distinct (blockValue n a tokens)
  | 0, _, _, _ => by
    unfold blockValue
    exact keeps_none
  | n + 1, a, tokens, ha => by
    unfold blockValue
    split
    · contradiction
    · rename_i hn
      cases hn
      exact keeps_nodeUnless _ true true n ha
    · exact keeps_some (.scalar rfl) ha

theorem keeps_flowItems (first : Bool) : ∀ (n : Nat) {read : List Node} {a : Anchors} {tokens : List Token},
    DistinctAll read → a.Distinct → Keeps DistinctAll (flowItems first n read a tokens)
  | 0, _, _, _, _, _ => by
    unfold flowItems
    exact keeps_none
  | n + 1, read, a, tokens, hread, ha => by
    unfold flowItems
    split
    · contradiction
    · exact keeps_some (distinctAll_reverse hread) ha
    · rename_i hn _
      cases hn
      extract_lets next
      have hnext : ∀ tokens, Keeps DistinctAll (next tokens) := by
        intro tokens
        dsimp only [next]
        split
        · exact keeps_some (distinctAll_reverse hread) ha
        · refine keeps_bind (keeps_flowPair n ha) fun item a rest hitem ha => ?_
          exact keeps_flowItems false n (distinctAll_cons hitem hread) ha
        · refine keeps_bind (keeps_node false false n ha) fun item a rest hitem ha => ?_
          exact keeps_flowItems false n (distinctAll_cons hitem hread) ha
      split
      · exact hnext _
      split
      · exact hnext _
      · exact keeps_none

theorem keeps_flowPair : ∀ (n : Nat) {a : Anchors} {tokens : List Token}, a.Distinct →
    Keeps Node.Distinct (flowPair n a tokens)
  | 0, _, _, _ => by
    unfold flowPair
    exact keeps_none
  | n + 1, a, tokens, ha => by
    unfold flowPair
    extract_lets pair
    have hpair : ∀ (key : Node) (a : Anchors) (rest : List Token), key.Distinct → a.Distinct →
        Keeps Node.Distinct (pair (key, a, rest)) := by
      intro key a rest hkey ha
      refine keeps_bind (keeps_flowValue _ n ha) fun value a rest hvalue ha => ?_
      exact keeps_some (Node.distinct_ofNodes (distinctAll_cons hkey (distinctAll_cons hvalue distinctAll_nil))) ha
    split
    · exact hpair _ _ _ (.scalar rfl) ha
    · exact keeps_bind (keeps_node false false n ha) hpair

theorem keeps_flowEntries (first : Bool) : ∀ (n : Nat) {read : List Node} {a : Anchors} {tokens : List Token},
    DistinctAll read → a.Distinct → Keeps DistinctAll (flowEntries first n read a tokens)
  | 0, _, _, _, _, _ => by
    unfold flowEntries
    exact keeps_none
  | n + 1, read, a, tokens, hread, ha => by
    unfold flowEntries
    split
    · contradiction
    · exact keeps_some (distinctAll_reverse hread) ha
    · rename_i hn _
      cases hn
      extract_lets next
      have hnext : ∀ tokens, Keeps DistinctAll (next tokens) := by
        intro tokens
        dsimp only [next]
        split
        · exact keeps_some (distinctAll_reverse hread) ha
        · refine keeps_bind (keeps_nodeUnless _ false false n ha) fun key a rest hkey ha => ?_
          refine keeps_bind (keeps_flowValue _ n ha) fun value a rest hvalue ha => ?_
          exact keeps_flowEntries false n (distinctAll_cons hvalue (distinctAll_cons hkey hread)) ha
        · refine keeps_bind (keeps_flowValue _ n ha) fun value a rest hvalue ha => ?_
          exact keeps_flowEntries false n (distinctAll_cons hvalue (distinctAll_cons (.scalar rfl) hread)) ha
        · refine keeps_bind (keeps_node false false n ha) fun key a rest hkey ha => ?_
          exact keeps_flowEntries false n (distinctAll_cons (.scalar rfl) (distinctAll_cons hkey hread)) ha
      split
      · exact hnext _
      split
      · exact hnext _
      · exact keeps_none

theorem keeps_flowValue (followers : List Token) : ∀ (n : Nat) {a : Anchors} {tokens : List Token}, a.Distinct →
    Keeps Node.Distinct (flowValue followers n a tokens)
  | 0, _, _, _ => by
    unfold flowValue
    exact keeps_none
  | n + 1, a, tokens, ha => by
    unfold flowValue
    split
    · contradiction
    · rename_i hn
      cases hn
      exact keeps_nodeUnless _ false false n ha
    · exact keeps_some (.scalar rfl) ha

end

/-! ## Documents -/

theorem keeps_document (first : Bool) {a : Anchors} {tokens : List Token} (ha : a.Distinct) :
    Keeps Node.Distinct (document first a tokens) := by
  unfold document
  split
  · exact keeps_node true false _ ha
  split
  · unfold content
    split
    · exact keeps_some (.scalar rfl) ha
    · exact keeps_node true false _ ha
  · exact keeps_none

theorem distinct_documents : ∀ {n : Nat} {first : Bool} {count : Nat} {tokens : List Token} {nodes : List Node},
    documents n first count tokens = some nodes → DistinctAll nodes
  | 0, _, _, _, _, h => by cases h
  | n + 1, first, count, tokens, nodes, h => by
    unfold documents at h
    split at h
    · cases h
      exact distinctAll_nil
    · obtain ⟨⟨node, a, rest⟩, hnode, h⟩ := Option.bind_eq_some_iff.1 h
      obtain ⟨more, hmore, h⟩ := Option.bind_eq_some_iff.1 h
      cases h
      have hfirst := (keeps_document first Anchors.distinct_fresh node a rest hnode).1
      exact distinctAll_cons hfirst (distinct_documents hmore)

/-- **In the documents of a text the keys of each map are different.** -/
theorem distinct_of_read? {text : String} {nodes : List Node} (h : read? text = some nodes) : DistinctAll nodes := by
  obtain ⟨tokens, -, h⟩ := Option.bind_eq_some_iff.1 h
  exact distinct_documents h

end RecordServer.Yaml
