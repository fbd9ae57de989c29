import Mathlib.Data.List.Induction
import RecordServer.Proofs.Xml.Address

/-!
# Selecting and testing names

A path can be followed from an element (`Path.select`), or the names on the way to an element can be tested from the
last to the first (`Path.accepts`). Both find the same elements, if all steps lead to children or descendants, and `.`
makes no difference (`Path.select_agrees`).

Both are described by the last step of a path: from which elements it leads on (`Path.elements_snoc`), and which of the
names in front are tested by the steps before (`Path.accepts_snoc_child`, `Path.accepts_snoc_descendant`). The proof
goes by the path from its end.
-/

namespace RecordServer.Xml

/-! ## Elements that are selected -/

/-- The elements to which a step leads. -/
def Step.elements : Step → Located → List Located
  | current, l => [l]
  | child test, l => l.children.filter fun c => passes test c.2.name
  | descendant test, l => l.descendants.filter fun c => passes test c.2.name
  | _, _ => []

/-- The elements among the nodes that are selected. -/
def Path.elements (path : Path) (e : Element) : List Located := (path.select e).filterMap Selected.element?

theorem Step.filterMap_select (step : Step) (l : Located) :
    (step.select l).filterMap Selected.element? = step.elements l := by
  have helements : ∀ nodes : List Located, (nodes.map Selected.element).filterMap Selected.element? = nodes := by
    intro nodes
    rw [List.filterMap_map]
    exact List.filterMap_some
  cases step with
  | current => rfl
  | child test => exact helements _
  | descendant test => exact helements _
  | named name => cases h : l.2.attribute? name <;> simp [Step.select, Step.elements, h, Selected.element?]
  | text => rfl

/-- What a step selects is no text, unless it is a last step. -/
theorem Step.select_eq {step : Step} (h : step.isLast = false) (l : Located) :
    step.select l = (step.elements l).map .element := by
  cases step with
  | named name => cases h
  | text => cases h
  | _ => rfl

namespace Path

variable {path : Path} {e : Element}

theorem mem_elements {d : Located} : d ∈ path.elements e ↔ .element d ∈ path.select e := by
  rw [elements, List.mem_filterMap]
  constructor
  · rintro ⟨node, hnode, hd⟩
    cases node with
    | element l =>
      cases hd
      exact hnode
    | text t => cases hd
  · exact fun h => ⟨_, h, rfl⟩

theorem select_snoc (path : Path) (step : Step) (e : Element) :
    (path ++ [step]).select e = (path.elements e).flatMap step.select := by
  rw [select, List.foldl_append]
  rfl

/-- The last step leads on from all elements which the steps before select. -/
theorem elements_snoc (path : Path) (step : Step) (e : Element) :
    (path ++ [step]).elements e = (path.elements e).flatMap step.elements := by
  rw [elements, select_snoc, List.filterMap_flatMap]
  exact List.flatMap_congr fun l _ => step.filterMap_select l

/-- Without last steps only elements are selected. -/
theorem select_eq_map (h : path.all (fun step => !step.isLast) = true) :
    path.select e = (path.elements e).map .element := by
  induction path using List.reverseRecOn with
  | nil => rfl
  | append_singleton path step ih =>
    have hstep : step.isLast = false := by simpa using List.all_eq_true.1 h step (by simp)
    rw [select_snoc, elements_snoc, List.map_flatMap]
    exact List.flatMap_congr fun l _ => Step.select_eq hstep l

/-- What is selected is found at its address. -/
theorem find?_of_mem_elements {d : Located} (h : d ∈ path.elements e) : e.find? d.1 = some d.2 := by
  induction path using List.reverseRecOn generalizing d with
  | nil =>
    obtain rfl := List.mem_singleton.1 h
    rfl
  | append_singleton path step ih =>
    rw [elements_snoc] at h
    obtain ⟨l, hl, hd⟩ := List.mem_flatMap.1 h
    have hfound := ih hl
    cases step with
    | current =>
      obtain rfl := List.mem_singleton.1 hd
      exact hfound
    | child test =>
      obtain ⟨n, hchild, ha⟩ := Located.mem_children.1 (List.mem_filter.1 hd).1
      rw [ha, Element.find?_append, hfound]
      exact hchild
    | descendant test =>
      obtain ⟨b, -, hwithin, ha⟩ := Located.mem_descendants.1 (List.mem_filter.1 hd).1
      rw [ha, Element.find?_append, hfound]
      exact hwithin
    | named name => exact absurd hd List.not_mem_nil
    | text => exact absurd hd List.not_mem_nil

/-! ## Names that are accepted -/

section Names

variable {step : Step} {test : Option String} {names : List String} {name : String}

theorem accepts_nil : accepts [] names = names.isEmpty := by
  rw [accepts]
  exact List.isEmpty_reverse

/-- No path with a step accepts the element from which it starts. -/
theorem accepts_snoc_nil : (path ++ [step]).accepts [] = false := by
  rw [accepts, List.reverse_append]
  cases step <;> rfl

theorem accepts_snoc_child :
    accepts (path ++ [.child test]) (names ++ [name]) = (passes test name && path.accepts names) := by
  rw [accepts, List.reverse_append, List.reverse_append]
  rfl

/-- In front of a descendant any of the names may be left out, up to that of the descendant itself. -/
theorem accepts_snoc_descendant :
    accepts (path ++ [.descendant test]) (names ++ [name]) = true ↔
      passes test name = true ∧ ∃ front, front <+: names ∧ path.accepts front = true := by
  have hfront (n : Nat) : leads path.reverse (names.reverse.drop n) = path.accepts (names.take (names.length - n)) := by
    rw [accepts, List.reverse_take]
    congr 1
    by_cases hn : n ≤ names.length
    · rw [Nat.sub_sub_self hn]
    · rw [List.drop_of_length_le (by rw [List.length_reverse]; omega),
        List.drop_of_length_le (by rw [List.length_reverse]; omega)]
  rw [accepts, List.reverse_append, List.reverse_append]
  simp only [List.reverse_singleton, List.singleton_append, leads, Bool.and_eq_true, List.any_eq_true, List.mem_range,
    hfront, List.length_reverse]
  refine and_congr_right fun _ => ⟨?_, ?_⟩
  · rintro ⟨n, -, h⟩
    exact ⟨_, List.take_prefix _ _, h⟩
  · rintro ⟨front, hbegins, h⟩
    refine ⟨names.length - front.length, by omega, ?_⟩
    rwa [Nat.sub_sub_self hbegins.length_le, ← List.prefix_iff_eq_take.1 hbegins]

end Names

/-! ## Agreement -/

/-- **Selecting and testing names agree** on every element within another. -/
theorem mem_elements_iff (h : path.all Step.isElement = true) {a : Address} {x : Element}
    (hfound : e.find? a = some x) : (a, x) ∈ path.elements e ↔ path.accepts (e.namesTo a) = true := by
  induction path using List.reverseRecOn generalizing a x with
  | nil =>
    rw [accepts_nil, List.isEmpty_iff, ← List.length_eq_zero_iff, Element.length_namesTo hfound,
      List.length_eq_zero_iff]
    constructor
    · intro hmem
      exact (Prod.mk.inj (List.mem_singleton.1 hmem)).1
    · rintro rfl
      cases hfound
      exact List.mem_singleton.2 rfl
  | append_singleton path step ih =>
    have hpath : path.all Step.isElement = true := by
      rw [List.all_append, Bool.and_eq_true] at h
      exact h.1
    rw [elements_snoc, List.mem_flatMap]
    obtain rfl | ⟨b, n, rfl⟩ := List.eq_nil_or_concat' a
    · -- the element itself is neither a child nor a descendant
      rw [show e.namesTo [] = [] from rfl, accepts_snoc_nil]
      refine iff_of_false ?_ Bool.false_ne_true
      rintro ⟨l, -, hd⟩
      cases step with
      | child test =>
        obtain ⟨n, -, ha⟩ := Located.mem_children.1 (List.mem_filter.1 hd).1
        simp at ha
      | descendant test =>
        obtain ⟨b, hne, -, ha⟩ := Located.mem_descendants.1 (List.mem_filter.1 hd).1
        simp [hne] at ha
      | _ => simp [Step.isElement] at h
    · obtain ⟨y, hy, hlast⟩ := Element.find?_front hfound
      rw [Element.namesTo_snoc hy hlast]
      cases step with
      | child test =>
        rw [accepts_snoc_child, Bool.and_eq_true, ← ih hpath hy]
        constructor
        · rintro ⟨l, hl, hd⟩
          obtain ⟨hchild, hname⟩ := List.mem_filter.1 hd
          obtain ⟨m, -, ha⟩ := Located.mem_children.1 hchild
          obtain ⟨ha, -⟩ := List.append_inj' ha rfl
          have hl' : e.find? l.1 = some l.2 := find?_of_mem_elements hl
          obtain rfl : y = l.2 := Option.some.inj (hy.symm.trans (ha ▸ hl'))
          exact ⟨hname, ha ▸ hl⟩
        · rintro ⟨hname, hl⟩
          exact ⟨(b, y), hl, List.mem_filter.2 ⟨Located.mem_children.2 ⟨n, hlast, rfl⟩, hname⟩⟩
      | descendant test =>
        rw [accepts_snoc_descendant]
        constructor
        · rintro ⟨l, hl, hd⟩
          obtain ⟨hbelow, hname⟩ := List.mem_filter.1 hd
          obtain ⟨c, hne, -, ha⟩ := Located.mem_descendants.1 hbelow
          have hl' : e.find? l.1 = some l.2 := find?_of_mem_elements hl
          -- the way to the element in front ends at the latest where the last step begins
          obtain ⟨c, m, rfl⟩ := (List.eq_nil_or_concat' c).resolve_left hne
          obtain ⟨ha, -⟩ := List.append_inj' (ha.trans (List.append_assoc l.1 c [m]).symm) rfl
          refine ⟨hname, e.namesTo l.1, ?_, (ih hpath hl').1 hl⟩
          rw [ha, Element.namesTo_append hl']
          exact List.prefix_append _ _
        · rintro ⟨hname, front, hbegins, haccepts⟩
          obtain ⟨c, d, rfl, rfl⟩ := Element.exists_of_prefix_namesTo hy hbegins
          rw [List.append_assoc] at hfound
          obtain ⟨z, hz, hrest⟩ := Element.find?_front hfound
          refine ⟨(c, z), (ih hpath hz).2 haccepts, List.mem_filter.2 ⟨?_, hname⟩⟩
          exact Located.mem_descendants.2 ⟨d ++ [n], by simp, hrest, by rw [List.append_assoc]⟩
      | _ => simp [Step.isElement] at h

/-- Steps to the element itself make no difference. -/
theorem select_filter_current (h : path.all (fun step => !step.isLast) = true) :
    Path.select (path.filter fun step => step ≠ .current) e = path.select e := by
  induction path using List.reverseRecOn with
  | nil => rfl
  | append_singleton path step ih =>
    rw [List.all_append, Bool.and_eq_true] at h
    rw [List.filter_append]
    by_cases hstep : step = .current
    · subst hstep
      rw [List.filter_singleton, show decide (Step.current ≠ .current) = false from rfl, cond_false, List.append_nil,
        ih h.1, select_snoc, select_eq_map h.1]
      exact List.map_eq_flatMap
    · rw [List.filter_singleton, decide_eq_true hstep, cond_true, select_snoc, select_snoc, elements, elements, ih h.1]

/-- **The two ways to evaluate a path agree.** An element within another is selected from it exactly if the names on the
way to it are accepted, and steps to the element itself can be put anywhere. -/
theorem select_agrees (h : path.all Step.isElement = true) (e : Element) :
    (∀ d ∈ Located.descendants ([], e), .element d ∈ path.select e ↔ path.accepts (e.namesTo d.1) = true) ∧
      ∀ pointed : Path, pointed.filter (fun step => step ≠ .current) = path → pointed.select e = path.select e := by
  constructor
  · intro d hd
    obtain ⟨b, -, hfound, ha⟩ := Located.mem_descendants.1 hd
    rw [← mem_elements]
    exact mem_elements_iff h (a := d.1) (x := d.2) (by rw [ha]; exact hfound)
  · rintro pointed rfl
    refine (select_filter_current (List.all_eq_true.2 fun step hstep => ?_)).symm
    by_cases hcurrent : step = .current
    · rw [hcurrent]
      rfl
    · have helement := List.all_eq_true.1 h step (List.mem_filter.2 ⟨hstep, by simpa using hcurrent⟩)
      cases step with
      | child test => rfl
      | descendant test => rfl
      | _ => cases helement

end Path

/-- Two elements of one name, the first in front of a child of the other: `<r><a><a><b>x</b></a><b>y</b></a></r>`. -/
def Element.nested : Element :=
  .mk "r" [] "" [.mk "a" [] "" [.mk "a" [] "" [.mk "b" [] "x" []], .mk "b" [] "y" []]]

/-- Both ways find the two children of elements with the name `a`, also with a `.` in front and one in between. -/
theorem Path.select_agrees_nested :
    List.all [.descendant (some "a"), .child (some "b")] Step.isElement = true ∧
      (∀ d ∈ Located.descendants ([], .nested),
        .element d ∈ Path.select [.descendant (some "a"), .child (some "b")] .nested ↔
          Path.accepts [.descendant (some "a"), .child (some "b")] (Element.nested.namesTo d.1) = true) ∧
      Path.select [.current, .descendant (some "a"), .current, .child (some "b")] .nested =
        Path.select [.descendant (some "a"), .child (some "b")] .nested := by
  have hsteps : List.all [.descendant (some "a"), .child (some "b")] Step.isElement = true := rfl
  obtain ⟨hagree, hpointed⟩ := Path.select_agrees hsteps .nested
  exact ⟨hsteps, hagree, hpointed _ rfl⟩

example : (Path.elements [.descendant (some "a"), .child (some "b")] .nested).map Prod.fst = [[0, 1], [0, 0, 0]] := by
  decide

end RecordServer.Xml
