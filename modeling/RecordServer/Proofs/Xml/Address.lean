import Mathlib.Data.List.Lex
import Mathlib.Data.List.Sort
import RecordServer.Xml.Path

/-!
# Addresses

An address leads from an element to one within it (`Element.find?`), past elements whose names can be read off
(`Element.namesTo`). Each of the lists of located elements is described by the addresses in it: the children
(`Located.mem_children`), a subtree (`mem_subtree`) and the descendants (`Located.mem_descendants`).

Document order is the lexicographic order of addresses: each of the lists ascends (`Before`), and the children of an
element even follow each other with all that is within them (`Apart`). A list that ascends and has elements of a subtree
only is a sublist of it (`sublist_subtree`).
-/

namespace RecordServer.Xml

/-! ## Elements at addresses -/

namespace Element

/-- The element to which an address leads. -/
def find? : Element → Address → Option Element
  | e, [] => some e
  | e, n :: rest => e.children[n]?.bind fun child => child.find? rest

/-- The names on the way to an address, without that of the element itself. -/
def namesTo : Element → Address → List String
  | _, [] => []
  | e, n :: rest =>
    match e.children[n]? with
    | some child => child.name :: child.namesTo rest
    | none => []

theorem find?_cons_eq_some_iff {e x : Element} {n : Nat} {rest : Address} :
    e.find? (n :: rest) = some x ↔ ∃ child, e.children[n]? = some child ∧ child.find? rest = some x := by
  rw [find?, Option.bind_eq_some_iff]

/-- An address leads on from where its front leads. -/
theorem find?_append (e : Element) (a b : Address) : e.find? (a ++ b) = (e.find? a).bind fun x => x.find? b := by
  induction a generalizing e with
  | nil => rfl
  | cons n a ih =>
    rw [List.cons_append, find?, find?, Option.bind_assoc]
    exact congrArg _ (funext ih)

/-- The way to an address passes every address in front. -/
theorem find?_front {e x : Element} {a b : Address} (h : e.find? (a ++ b) = some x) :
    ∃ y, e.find? a = some y ∧ y.find? b = some x := by
  rwa [find?_append, Option.bind_eq_some_iff] at h

theorem namesTo_append {e x : Element} {a : Address} (h : e.find? a = some x) (b : Address) :
    e.namesTo (a ++ b) = e.namesTo a ++ x.namesTo b := by
  induction a generalizing e with
  | nil =>
    cases h
    rfl
  | cons n a ih =>
    obtain ⟨child, hchild, hrest⟩ := find?_cons_eq_some_iff.1 h
    simp only [List.cons_append, namesTo, hchild, ih hrest]

theorem length_namesTo {e x : Element} {a : Address} (h : e.find? a = some x) :
    (e.namesTo a).length = a.length := by
  induction a generalizing e with
  | nil => rfl
  | cons n a ih =>
    obtain ⟨child, hchild, hrest⟩ := find?_cons_eq_some_iff.1 h
    simp only [namesTo, hchild, List.length_cons, ih hrest]

/-- The last name on the way is that of the element. -/
theorem namesTo_snoc {e x child : Element} {a : Address} {n : Nat} (h : e.find? a = some x)
    (hchild : x.find? [n] = some child) : e.namesTo (a ++ [n]) = e.namesTo a ++ [child.name] := by
  obtain ⟨found, hfound, hself⟩ := find?_cons_eq_some_iff.1 hchild
  cases hself
  rw [namesTo_append h]
  simp only [namesTo, hfound]

/-- The first names on the way are those on the way to an address in front. -/
theorem exists_of_prefix_namesTo {e x : Element} {a : Address} {front : List String} (h : e.find? a = some x)
    (hbegins : front <+: e.namesTo a) : ∃ b c, a = b ++ c ∧ front = e.namesTo b := by
  refine ⟨a.take front.length, a.drop front.length, (List.take_append_drop _ _).symm, ?_⟩
  have hsplit : e.find? (a.take front.length ++ a.drop front.length) = some x := by rwa [List.take_append_drop]
  obtain ⟨y, hy, -⟩ := find?_front hsplit
  have hway := namesTo_append hy (a.drop front.length)
  rw [List.take_append_drop] at hway
  have hlength : (e.namesTo (a.take front.length)).length = front.length := by
    rw [length_namesTo hy, List.length_take, ← length_namesTo h, Nat.min_eq_left hbegins.length_le]
  have hnames : e.namesTo (a.take front.length) <+: e.namesTo a := hway ▸ List.prefix_append _ _
  exact (List.prefix_of_prefix_length_le hbegins hnames hlength.ge).eq_of_length hlength.symm

end Element

/-! ## Members -/

theorem mem_childrenFrom {a : Address} {d : Located} {n : Nat} {es : List Element} :
    d ∈ childrenFrom a n es ↔ ∃ i x, es[i]? = some x ∧ d = (a ++ [n + i], x) := by
  induction es generalizing n with
  | nil => simp [childrenFrom]
  | cons e es ih =>
    rw [childrenFrom, List.mem_cons, ih]
    constructor
    · rintro (rfl | ⟨i, x, hx, rfl⟩)
      · exact ⟨0, e, rfl, rfl⟩
      · exact ⟨i + 1, x, hx, by rw [Nat.add_right_comm, Nat.add_assoc]⟩
    · rintro ⟨i, x, hx, rfl⟩
      cases i with
      | zero =>
        cases hx
        exact .inl rfl
      | succ i => exact .inr ⟨i, x, hx, by rw [Nat.add_right_comm, Nat.add_assoc]⟩

/-- The children of an element are found one place further. -/
theorem Located.mem_children {l d : Located} :
    d ∈ l.children ↔ ∃ n, l.2.find? [n] = some d.2 ∧ d.1 = l.1 ++ [n] := by
  rw [Located.children, mem_childrenFrom]
  constructor
  · rintro ⟨n, x, hx, rfl⟩
    exact ⟨n, Element.find?_cons_eq_some_iff.2 ⟨x, hx, rfl⟩, by rw [Nat.zero_add]⟩
  · rintro ⟨n, hx, ha⟩
    obtain ⟨x, hx, hself⟩ := Element.find?_cons_eq_some_iff.1 hx
    cases hself
    exact ⟨n, _, hx, by rw [Nat.zero_add, ← ha]⟩

mutual

/-- What is in a subtree is found from its root. -/
theorem mem_subtree {d : Located} : ∀ {a : Address} {e : Element},
    d ∈ subtree a e ↔ ∃ b, e.find? b = some d.2 ∧ d.1 = a ++ b
  | a, .mk name attributes text children => by
    rw [subtree, List.mem_cons, mem_subtrees]
    constructor
    · rintro (rfl | ⟨i, b, x, hx, hfound, ha⟩)
      · exact ⟨[], rfl, by rw [List.append_nil]⟩
      · exact ⟨i :: b, Element.find?_cons_eq_some_iff.2 ⟨x, hx, hfound⟩, by rw [ha, Nat.zero_add]⟩
    · rintro ⟨b, hfound, ha⟩
      cases b with
      | nil => exact .inl (Prod.ext (by rw [ha, List.append_nil]) (Option.some.inj hfound).symm)
      | cons i b =>
        obtain ⟨x, hx, hfound⟩ := Element.find?_cons_eq_some_iff.1 hfound
        exact .inr ⟨i, b, x, hx, hfound, by rw [ha, Nat.zero_add]⟩

theorem mem_subtrees {d : Located} : ∀ {a : Address} {n : Nat} {es : List Element},
    d ∈ subtrees a n es ↔ ∃ i b x, es[i]? = some x ∧ x.find? b = some d.2 ∧ d.1 = a ++ (n + i) :: b
  | _, _, [] => by simp [subtrees]
  | a, n, e :: es => by
    rw [subtrees, List.mem_append, mem_subtree, mem_subtrees]
    constructor
    · rintro (⟨b, hfound, ha⟩ | ⟨i, b, x, hx, hfound, ha⟩)
      · exact ⟨0, b, e, rfl, hfound, by rw [ha, List.append_assoc]; rfl⟩
      · exact ⟨i + 1, b, x, hx, hfound, by rw [ha, Nat.add_right_comm, Nat.add_assoc]⟩
    · rintro ⟨i, b, x, hx, hfound, ha⟩
      cases i with
      | zero =>
        cases hx
        exact .inl ⟨b, hfound, by rw [ha, List.append_assoc]; rfl⟩
      | succ i => exact .inr ⟨i, b, x, hx, hfound, by rw [ha, Nat.add_right_comm, Nat.add_assoc]⟩

end

/-- The descendants of an element are found at the longer addresses. -/
theorem Located.mem_descendants {l d : Located} :
    d ∈ l.descendants ↔ ∃ b, b ≠ [] ∧ l.2.find? b = some d.2 ∧ d.1 = l.1 ++ b := by
  rw [Located.descendants, mem_subtrees]
  constructor
  · rintro ⟨i, b, x, hx, hfound, ha⟩
    exact ⟨i :: b, List.cons_ne_nil i b, Element.find?_cons_eq_some_iff.2 ⟨x, hx, hfound⟩, by rw [ha, Nat.zero_add]⟩
  · rintro ⟨b, hne, hfound, ha⟩
    obtain ⟨i, b, rfl⟩ := List.exists_cons_of_ne_nil hne
    obtain ⟨x, hx, hfound⟩ := Element.find?_cons_eq_some_iff.1 hfound
    exact ⟨i, b, x, hx, hfound, by rw [ha, Nat.zero_add]⟩

/-! ## Document order -/

/-- The way to one element ends on the way to the other, or turns into an earlier child. -/
def Before (l l' : Located) : Prop := l.1 < l'.1

/-- One element ends before the other begins: the ways to them part, and the first turns into an earlier child. -/
def Apart (l l' : Located) : Prop :=
  ∃ (a : Address) (i j : Nat) (b b' : Address), i < j ∧ l.1 = a ++ i :: b ∧ l'.1 = a ++ j :: b'

theorem lt_append (a : Address) {b : Address} (h : b ≠ []) : a < a ++ b := by
  induction a with
  | nil =>
    obtain ⟨n, b, rfl⟩ := List.exists_cons_of_ne_nil h
    exact List.Lex.nil
  | cons n a ih => exact List.Lex.cons ih

theorem append_cons_lt (a : Address) {i j : Nat} (b b' : Address) (h : i < j) : a ++ i :: b < a ++ j :: b' := by
  induction a with
  | nil => exact List.Lex.rel h
  | cons n a ih => exact List.Lex.cons ih

theorem Apart.before {l l' : Located} (h : Apart l l') : Before l l' := by
  obtain ⟨a, i, j, b, b', hlt, hl, hl'⟩ := h
  rw [Before, hl, hl']
  exact append_cons_lt a b b' hlt

/-- What is within two elements is apart as they are. -/
theorem Apart.within {l l' d d' : Located} (h : Apart l l') (hd : l.1 <+: d.1) (hd' : l'.1 <+: d'.1) : Apart d d' := by
  obtain ⟨a, i, j, b, b', hlt, hl, hl'⟩ := h
  obtain ⟨c, hc⟩ := hd
  obtain ⟨c', hc'⟩ := hd'
  refine ⟨a, i, j, b ++ c, b' ++ c', hlt, ?_, ?_⟩
  · rw [← hc, hl, List.append_assoc, List.cons_append]
  · rw [← hc', hl', List.append_assoc, List.cons_append]

/-- Elements in document order are apart if the second is not within the first. -/
theorem Before.apart {l l' : Located} (h : Before l l') (hnot : ¬l.1 <+: l'.1) : Apart l l' := by
  have hway : ∀ {a a' : Address}, List.Lex (· < ·) a a' → ¬a <+: a' →
      ∃ (c : Address) (i j : Nat) (b b' : Address), i < j ∧ a = c ++ i :: b ∧ a' = c ++ j :: b' := by
    intro a a' hlex
    induction hlex with
    | nil => exact fun hnot => absurd (List.nil_prefix) hnot
    | @cons n a a' _ ih =>
      intro hnot
      obtain ⟨c, i, j, b, b', hlt, rfl, rfl⟩ := ih fun h => hnot ((List.prefix_cons_inj n).2 h)
      exact ⟨n :: c, i, j, b, b', hlt, rfl, rfl⟩
    | @rel i a j a' hlt => exact fun _ => ⟨[], i, j, a, a', hlt, rfl, rfl⟩
  exact hway h hnot

/-- The children of an element follow each other. -/
theorem pairwise_childrenFrom (a : Address) (n : Nat) (es : List Element) :
    (childrenFrom a n es).Pairwise Apart := by
  induction es generalizing n with
  | nil => exact .nil
  | cons e es ih =>
    refine .cons (fun d hd => ?_) (ih (n + 1))
    obtain ⟨i, x, -, rfl⟩ := mem_childrenFrom.1 hd
    exact ⟨a, n, n + 1 + i, [], [], by omega, rfl, rfl⟩

theorem Located.pairwise_children (l : Located) : l.children.Pairwise Apart := pairwise_childrenFrom l.1 0 l.2.children

mutual

/-- A subtree is in document order. -/
theorem pairwise_subtree (a : Address) : ∀ e : Element, (subtree a e).Pairwise Before
  | .mk name attributes text children => by
    rw [subtree]
    refine .cons (fun d hd => ?_) (pairwise_subtrees a 0 children)
    obtain ⟨i, b, x, -, -, ha⟩ := mem_subtrees.1 hd
    rw [Before, ha]
    exact lt_append a (List.cons_ne_nil _ _)

theorem pairwise_subtrees (a : Address) (n : Nat) : ∀ es : List Element, (subtrees a n es).Pairwise Before
  | [] => .nil
  | e :: es => by
    rw [subtrees]
    refine List.pairwise_append.2 ⟨pairwise_subtree (a ++ [n]) e, pairwise_subtrees a (n + 1) es, ?_⟩
    intro d hd d' hd'
    obtain ⟨b, -, ha⟩ := mem_subtree.1 hd
    obtain ⟨i, b', x, -, -, ha'⟩ := mem_subtrees.1 hd'
    rw [Before, ha, ha', List.append_assoc]
    exact append_cons_lt a b b' (by omega)

end

theorem Located.pairwise_descendants (l : Located) : l.descendants.Pairwise Before :=
  pairwise_subtrees l.1 0 l.2.children

/-- No element stands twice in a list that ascends. -/
theorem nodup_addresses {nodes : List Located} (h : nodes.Pairwise Before) : (nodes.map Prod.fst).Nodup :=
  List.pairwise_map.2 (h.imp fun {_ _} hlt => ne_of_lt hlt)

/-- **Elements of a tree which ascend are in the order of the tree.** -/
theorem sublist_subtree {e : Element} {nodes : List Located} (h : nodes.Pairwise Before)
    (hmem : ∀ d ∈ nodes, e.find? d.1 = some d.2) : nodes.Sublist (subtree [] e) := by
  have : Std.Antisymm Before := ⟨fun _ _ h h' => absurd (lt_trans h h') (lt_irrefl _)⟩
  refine List.sublist_of_subperm_of_pairwise (List.subperm_of_subset ?_ ?_) h (pairwise_subtree [] e)
  · exact List.Nodup.of_map _ (nodup_addresses h)
  · intro d hd
    exact mem_subtree.2 ⟨d.1, hmem d hd, rfl⟩

end RecordServer.Xml
