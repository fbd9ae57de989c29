import Mathlib
import RecordServer.Proofs.Xml.Steps

/-!
# The order of selected nodes

A path does not always select elements in document order, nor each of them once. It does if it is steady, that is, if no
step to children or descendants stands behind a step to descendants (`Path.isSteady`); and for each path which is not
there is a tree where it does not. In a given tree it also does if no element from which a step leads on to children or
descendants is within another one (`Path.IsSpread`). `Path.reached_inDocumentOrder` has all of this for the paths of
properties.

From one element, a step leads to children which follow each other or to descendants which ascend. So the order is kept
if the elements from which a step leads on follow each other (`Path.pairwise_flatMap`). It can be lost behind a step to
descendants, which may find one element within another: what is found from the outer one need not end before that begins
which is found from the inner one (`Path.not_pairwise_of_nested`). A tree that shows this for a path has two elements
around each other at the place of its first step to descendants, and in each of them what the rest of the path leads to
(`Path.exists_unordered`).
-/

namespace RecordServer.Xml

/-- Elements of a tree, each at most once and in the order of the tree. -/
def InDocumentOrder (e : Element) (nodes : List Located) : Prop :=
  nodes.Sublist (subtree [] e) ∧ (nodes.map Prod.fst).Nodup

/-- Elements of a tree are in document order exactly if they ascend. -/
theorem inDocumentOrder_iff {e : Element} {nodes : List Located} (hmem : ∀ d ∈ nodes, e.find? d.1 = some d.2) :
    InDocumentOrder e nodes ↔ nodes.Pairwise Before := by
  constructor
  · intro h
    exact (pairwise_subtree [] e).sublist h.1
  · intro h
    exact ⟨sublist_subtree h hmem, nodup_addresses h⟩

/-! ## Following steps -/

namespace Step

variable {step : Step} {l d : Located}

/-- A step leads to an element itself or into it. -/
theorem within_of_mem (h : d ∈ step.elements l) : l.1 <+: d.1 := by
  cases step with
  | current =>
    obtain rfl := List.mem_singleton.1 h
    exact List.prefix_refl _
  | child test =>
    obtain ⟨n, -, ha⟩ := Located.mem_children.1 (List.mem_filter.1 h).1
    exact ha ▸ List.prefix_append _ _
  | descendant test =>
    obtain ⟨b, -, -, ha⟩ := Located.mem_descendants.1 (List.mem_filter.1 h).1
    exact ha ▸ List.prefix_append _ _
  | named name => exact absurd h List.not_mem_nil
  | text => exact absurd h List.not_mem_nil

/-- What one step finds ascends. -/
theorem pairwise_elements (step : Step) (l : Located) : (step.elements l).Pairwise Before := by
  cases step with
  | current => exact List.pairwise_singleton _ _
  | child test => exact (l.pairwise_children.filter _).imp Apart.before
  | descendant test => exact l.pairwise_descendants.filter _
  | named name => exact .nil
  | text => exact .nil

end Step

namespace Path

variable {path : Path} {l d : Located}

/-- The elements to which a path leads from an element. -/
def elementsFrom : Path → Located → List Located
  | [], l => [l]
  | step :: path, l => (step.elements l).flatMap (elementsFrom path)

theorem elementsFrom_append (front behind : Path) (l : Located) :
    elementsFrom (front ++ behind) l = (elementsFrom front l).flatMap (elementsFrom behind) := by
  induction front generalizing l with
  | nil => simp [elementsFrom]
  | cons step front ih =>
    rw [List.cons_append, elementsFrom, elementsFrom, List.flatMap_assoc]
    exact List.flatMap_congr fun x _ => ih x

theorem elements_eq (path : Path) (e : Element) : path.elements e = path.elementsFrom ([], e) := by
  induction path using List.reverseRecOn with
  | nil => rfl
  | append_singleton path step ih =>
    rw [elements_snoc, elementsFrom_append, ih]
    exact List.flatMap_congr fun l _ => (List.flatMap_singleton' _).symm

theorem within_of_mem (h : d ∈ elementsFrom path l) : l.1 <+: d.1 := by
  induction path generalizing l with
  | nil =>
    obtain rfl := List.mem_singleton.1 h
    exact List.prefix_refl _
  | cons step path ih =>
    obtain ⟨x, hx, hd⟩ := List.mem_flatMap.1 h
    exact (Step.within_of_mem hx).trans (ih hd)

/-- Steps that lead neither to children nor to descendants lead nowhere else. -/
theorem elementsFrom_sublist (h : path.all (fun step => !step.isElement) = true) (l : Located) :
    (elementsFrom path l).Sublist [l] := by
  induction path with
  | nil => exact List.Sublist.refl _
  | cons step path ih =>
    rw [List.all_cons, Bool.and_eq_true] at h
    rw [elementsFrom]
    cases step with
    | current =>
      rw [Step.elements, List.flatMap_singleton]
      exact ih h.2
    | child test => simp [Step.isElement] at h
    | descendant test => simp [Step.isElement] at h
    | named name => exact List.nil_sublist _
    | text => exact List.nil_sublist _

/-- What is found from elements which follow each other ascends if it does from each of them. -/
theorem pairwise_flatMap {nodes : List Located} {find : Located → List Located} (hnodes : nodes.Pairwise Apart)
    (hwithin : ∀ l, ∀ d ∈ find l, l.1 <+: d.1) (hfind : ∀ l, (find l).Pairwise Before) :
    (nodes.flatMap find).Pairwise Before := by
  refine List.pairwise_flatMap.2 ⟨fun l _ => hfind l, hnodes.imp ?_⟩
  intro l l' happart d hd d' hd'
  exact (happart.within (hwithin l d hd) (hwithin l' d' hd')).before

/-- What ascends does so if nothing but the elements themselves is found from them. -/
theorem pairwise_flatMap_still {nodes : List Located} (hnodes : nodes.Pairwise Before)
    (h : path.all (fun step => !step.isElement) = true) : (nodes.flatMap (elementsFrom path)).Pairwise Before := by
  have hstill := List.Sublist.flatMap_right nodes fun l _ => elementsFrom_sublist h l
  rw [List.flatMap_singleton'] at hstill
  exact hnodes.sublist hstill

/-! ## Steady paths -/

/-- Whether no step to children or descendants stands behind a step to descendants. -/
def isSteady : Path → Bool
  | [] => true
  | .descendant _ :: rest => rest.all fun step => !step.isElement
  | _ :: rest => isSteady rest

/-- **What a steady path finds ascends.** -/
theorem pairwise_of_isSteady (h : path.isSteady = true) (l : Located) : (elementsFrom path l).Pairwise Before := by
  induction path generalizing l with
  | nil => exact List.pairwise_singleton _ _
  | cons step path ih =>
    cases step with
    | current =>
      rw [elementsFrom, Step.elements, List.flatMap_singleton]
      exact ih h l
    | child test => exact pairwise_flatMap (l.pairwise_children.filter _) (fun _ _ => within_of_mem) (ih h)
    | descendant test => exact pairwise_flatMap_still (Step.pairwise_elements (.descendant test) l) h
    | named name => exact .nil
    | text => exact .nil

/-! ## Trees in which nothing is nested -/

/-- No element from which a path leads on to children or descendants is within another. -/
def IsSpread (path : Path) (e : Element) : Prop :=
  ∀ (front : Path) (step : Step) (behind : Path), path = front ++ step :: behind → step.isElement = true →
    ∀ l ∈ front.elements e, ∀ l' ∈ front.elements e, l.1 <+: l'.1 → l.1 = l'.1

/-- **Where nothing is nested, what a path finds ascends.** -/
theorem IsSpread.pairwise {e : Element} (h : path.IsSpread e) : (path.elements e).Pairwise Before := by
  induction path using List.reverseRecOn with
  | nil => exact List.pairwise_singleton _ _
  | append_singleton path step ih =>
    have hfront : (elements path e).Pairwise Before := by
      refine ih fun front step' behind hpath => h front step' (behind ++ [step]) ?_
      rw [hpath, List.append_assoc, List.cons_append]
    rw [elements_snoc]
    by_cases hstep : step.isElement = true
    · refine pairwise_flatMap (hfront.imp_of_mem ?_) (fun _ _ => Step.within_of_mem) step.pairwise_elements
      intro l l' hl hl' hbefore
      refine hbefore.apart fun hwithin => ?_
      exact ne_of_lt hbefore (h path step [] rfl hstep l hl l' hl' hwithin)
    · have hall : List.all [step] (fun step => !step.isElement) = true := by simpa using hstep
      have hstill := pairwise_flatMap_still hfront hall
      simpa only [elementsFrom, List.flatMap_singleton'] using hstill

end Path

/-! ## Trees for paths that are not steady -/

/-- A name of the children to which a step leads. -/
def Step.wanted : Step → String
  | child test => test.getD "a"
  | descendant test => test.getD "a"
  | _ => "a"

/-- A step leads to a child with the name that it wants. -/
theorem Step.mem_elements_child {step : Step} (h : step.isElement = true) {l : Located} {n : Nat} {x : Element}
    (hx : l.2.find? [n] = some x) (hname : x.name = step.wanted) : (l.1 ++ [n], x) ∈ step.elements l := by
  have hpasses : ∀ test : Option String, passes test (test.getD "a") = true := by
    intro test
    cases test <;> simp [passes]
  cases step with
  | child test =>
    exact List.mem_filter.2 ⟨Located.mem_children.2 ⟨n, hx, rfl⟩, by rw [hname]; exact hpasses test⟩
  | descendant test =>
    exact List.mem_filter.2 ⟨Located.mem_descendants.2 ⟨[n], List.cons_ne_nil _ _, hx, rfl⟩,
      by rw [hname]; exact hpasses test⟩
  | _ => cases h

namespace Path

variable {path : Path} {l : Located}

/-- An element with a name from which a path leads somewhere. -/
def growth : Path → String → Element
  | [], name => .empty name []
  | step :: path, name =>
    if step.isElement then .mk name [] "" [growth path step.wanted] else growth path name

theorem name_growth (path : Path) (name : String) : (growth path name).name = name := by
  induction path generalizing name with
  | nil => rfl
  | cons step path ih =>
    rw [growth]
    split
    · rfl
    · exact ih name

/-- A path leads somewhere from its growth. -/
theorem exists_mem_growth (h : path.all (fun step => !step.isLast) = true) {name : String}
    (hl : l.2 = growth path name) : ∃ d, d ∈ elementsFrom path l := by
  induction path generalizing l name with
  | nil => exact ⟨l, List.mem_singleton.2 rfl⟩
  | cons step path ih =>
    rw [List.all_cons, Bool.and_eq_true] at h
    rw [growth] at hl
    split at hl
    · rename_i hstep
      have hfound : l.2.find? [0] = some (growth path step.wanted) := by
        rw [hl]
        rfl
      obtain ⟨d, hd⟩ := ih h.2 (l := (l.1 ++ [0], growth path step.wanted)) rfl
      exact ⟨d, List.mem_flatMap.2 ⟨_, Step.mem_elements_child hstep hfound (name_growth path _), hd⟩⟩
    · rename_i hstep
      obtain ⟨d, hd⟩ := ih h.2 hl
      cases step with
      | current => exact ⟨d, List.mem_flatMap.2 ⟨l, List.mem_singleton.2 rfl, hd⟩⟩
      | child test => exact absurd rfl hstep
      | descendant test => exact absurd rfl hstep
      | _ => simp [Step.isLast] at h

/-- In front of the first step to children or descendants, a path leads nowhere. -/
theorem exists_first_element (h : path.all (fun step => !step.isElement) = false)
    (hlast : path.all (fun step => !step.isLast) = true) :
    ∃ step behind, step.isElement = true ∧ behind.all (fun step => !step.isLast) = true ∧
      ∀ l, elementsFrom path l = elementsFrom (step :: behind) l := by
  induction path with
  | nil => cases h
  | cons step path ih =>
    rw [List.all_cons, Bool.and_eq_true] at hlast
    by_cases hstep : step.isElement = true
    · exact ⟨step, path, hstep, hlast.2, fun l => rfl⟩
    · obtain ⟨next, behind, hnext, hbehind, hsame⟩ := ih (by simpa [hstep] using h) hlast.2
      refine ⟨next, behind, hnext, hbehind, fun l => ?_⟩
      cases step with
      | current =>
        rw [elementsFrom, Step.elements, List.flatMap_singleton]
        exact hsame l
      | child test => exact absurd rfl hstep
      | descendant test => exact absurd rfl hstep
      | _ => simp [Step.isLast] at hlast

/-- The order is lost if what is found from one element begins before what is found from one in front. -/
theorem not_pairwise_of_nested {nodes : List Located} {find : Located → List Located} {outer inner u v : Located}
    (hnodes : List.Sublist [outer, inner] nodes) (hu : u ∈ find outer) (hv : v ∈ find inner) (h : Before v u) :
    ¬(nodes.flatMap find).Pairwise Before := by
  intro hpairwise
  have hfound := hpairwise.sublist (hnodes.flatMap find)
  rw [List.flatMap_cons, List.flatMap_singleton, List.pairwise_append] at hfound
  exact lt_asymm (hfound.2.2 u hu v hv) h

/-- **For a path that is not steady there is a tree** in which what it finds does not ascend. -/
theorem exists_unordered (h : path.isSteady = false) (hlast : path.all (fun step => !step.isLast) = true)
    (name : String) : ∃ e : Element, e.name = name ∧ ∀ a, ¬(elementsFrom path (a, e)).Pairwise Before := by
  induction path generalizing name with
  | nil => cases h
  | cons step path ih =>
    rw [List.all_cons, Bool.and_eq_true] at hlast
    cases step with
    | current =>
      obtain ⟨e, hname, hnot⟩ := ih h hlast.2 name
      refine ⟨e, hname, fun a => ?_⟩
      rw [elementsFrom, Step.elements, List.flatMap_singleton]
      exact hnot a
    | child test =>
      obtain ⟨e, hname, hnot⟩ := ih h hlast.2 (Step.child test).wanted
      refine ⟨.mk name [] "" [e], rfl, fun a hpairwise => hnot (a ++ [0]) ?_⟩
      have hmem : (a ++ [0], e) ∈ (Step.child test).elements (a, .mk name [] "" [e]) :=
        Step.mem_elements_child rfl rfl hname
      exact (List.pairwise_flatMap.1 hpairwise).1 _ hmem
    | descendant test =>
      obtain ⟨next, behind, hnext, hbehind, hsame⟩ := exists_first_element h hlast.2
      let found := growth behind next.wanted
      let inner : Element := .mk (Step.descendant test).wanted [] "" [found]
      let outer : Element := .mk (Step.descendant test).wanted [] "" [inner, found]
      refine ⟨.mk name [] "" [outer], rfl, fun a => ?_⟩
      -- from the outer element the rest of the path leads to its second child, from the inner one to its first
      obtain ⟨u, hu⟩ := exists_mem_growth hbehind (l := (a ++ [0] ++ [1], found)) rfl
      obtain ⟨v, hv⟩ := exists_mem_growth hbehind (l := (a ++ [0] ++ [0] ++ [0], found)) rfl
      have hmemu : (a ++ [0] ++ [1], found) ∈ next.elements (a ++ [0], outer) :=
        Step.mem_elements_child hnext rfl (name_growth _ _)
      have hmemv : (a ++ [0] ++ [0] ++ [0], found) ∈ next.elements (a ++ [0] ++ [0], inner) :=
        Step.mem_elements_child hnext rfl (name_growth _ _)
      have happart : Apart (a ++ [0] ++ [0] ++ [0], found) (a ++ [0] ++ [1], found) :=
        ⟨a ++ [0], 0, 1, [0], [], by decide, by simp, rfl⟩
      have hfoundu : u ∈ elementsFrom path (a ++ [0], outer) := hsame _ ▸ List.mem_flatMap.2 ⟨_, hmemu, hu⟩
      have hfoundv : v ∈ elementsFrom path (a ++ [0] ++ [0], inner) := hsame _ ▸ List.mem_flatMap.2 ⟨_, hmemv, hv⟩
      refine not_pairwise_of_nested ?_ hfoundu hfoundv (happart.within (within_of_mem hv) (within_of_mem hu)).before
      have hpasses : passes test (Step.descendant test).wanted = true := by
        cases test <;> simp [passes, Step.wanted]
      simp [Step.elements, Located.descendants, Element.children, subtrees, subtree, Element.name, outer, inner,
        hpasses]
    | _ => simp [Step.isLast] at hlast

/-! ## Paths of properties -/

/-- The steps of a path without an attribute or a text at the end. -/
def body (path : Path) : Path := path.filter fun step => !step.isLast

/-- The elements which a path selects or, if it ends with an attribute or a text, those from which these are taken. -/
def reached (path : Path) (e : Element) : List Located := path.body.elements e

/-- What a path takes from the elements that it reaches: the elements themselves, or what its last step selects. -/
def take (path : Path) (l : Located) : List Selected :=
  match path.getLast? with
  | some step => if step.isLast then step.select l else [.element l]
  | none => [.element l]

theorem take_snoc (path : Path) (step : Step) (l : Located) :
    take (path ++ [step]) l = if step.isLast then step.select l else [.element l] := by
  rw [take, List.getLast?_concat]

theorem body_all (path : Path) : path.body.all (fun step => !step.isLast) = true := by
  rw [body, List.all_filter]
  simp

/-- An attribute or a text does not matter for steadiness. -/
theorem isSteady_body (path : Path) : path.body.isSteady = path.isSteady := by
  induction path with
  | nil => rfl
  | cons step path ih =>
    cases step with
    | descendant test =>
      rw [body, List.filter_cons_of_pos rfl, isSteady, isSteady, List.all_filter]
      refine congrArg _ (funext fun step => ?_)
      cases step <;> rfl
    | _ => exact ih

/-- An attribute or a text stands at the end only. -/
theorem last_of_readSegments {whole : String} {segments : List (List Char)} (steps : List Step) {descendant : Bool}
    (hsteps : steps.tail.all (fun step => !step.isLast) = true)
    (h : readSegments whole steps descendant segments = .ok path) :
    path.dropLast.all (fun step => !step.isLast) = true := by
  induction segments generalizing steps descendant with
  | nil =>
    cases h
    rw [List.dropLast_reverse, List.all_reverse]
    exact hsteps
  | cons segment segments ih =>
    unfold readSegments at h
    simp only at h
    split at h
    · cases h
    · rename_i hlast
      have hall : steps.all (fun step => !step.isLast) = true := by
        cases steps with
        | nil => rfl
        | cons step steps =>
          rw [List.all_cons, Bool.and_eq_true]
          exact ⟨by simpa using hlast, hsteps⟩
      split at h
      · split at h
        · cases h
        · exact ih _ hsteps h
      · split at h
        · cases h
        · exact ih (_ :: steps) hall h

theorem last_of_ofRelative {expression : String} (h : ofRelative expression = .ok path) :
    path.dropLast.all (fun step => !step.isLast) = true := by
  unfold ofRelative at h
  simp only at h
  split at h
  · exact last_of_readSegments [] rfl h
  · cases h
  · exact last_of_readSegments [] rfl h

/-- What is selected is taken from the elements that are reached, one after the other. -/
theorem select_eq_take (h : path.dropLast.all (fun step => !step.isLast) = true) (e : Element) :
    path.select e = (path.reached e).flatMap path.take := by
  obtain rfl | ⟨front, step, rfl⟩ := List.eq_nil_or_concat' path
  · rfl
  · rw [List.dropLast_concat] at h
    have hfront : front.filter (fun step => !step.isLast) = front := List.filter_eq_self.2 (List.all_eq_true.1 h)
    cases hstep : step.isLast with
    | true =>
      rw [select_snoc, reached, body, List.filter_append, hfront, List.filter_singleton, hstep]
      simp [funext (take_snoc front step), hstep]
    | false =>
      have hall : Path.body (front ++ [step]) = front ++ [step] := by
        rw [body, List.filter_append, hfront, List.filter_singleton, hstep]
        rfl
      rw [select_eq_map (hall ▸ body_all _), reached, hall, List.map_eq_flatMap]
      simp [funext (take_snoc front step), hstep]

/-- **The order of what is selected.** A path of a property takes what it selects from the elements that it reaches. If
none of those from which a step leads on is within another, then they are reached in document order and each of them
once; and the paths for which this is so in all trees are the steady ones. -/
theorem reached_inDocumentOrder {expression : String} (h : ofRelative expression = .ok path) :
    (∀ e, path.select e = (path.reached e).flatMap path.take) ∧
      (∀ e, path.body.IsSpread e → InDocumentOrder e (path.reached e)) ∧
      ((∀ e, InDocumentOrder e (path.reached e)) ↔ path.isSteady = true) := by
  have hiff (e : Element) : InDocumentOrder e (path.reached e) ↔ (path.reached e).Pairwise Before :=
    inDocumentOrder_iff fun _ => find?_of_mem_elements
  refine ⟨select_eq_take (last_of_ofRelative h), fun e hspread => (hiff e).2 hspread.pairwise, ?_, ?_⟩
  · intro hall
    by_contra hnot
    rw [Bool.not_eq_true, ← isSteady_body] at hnot
    obtain ⟨e, -, hunordered⟩ := exists_unordered hnot path.body_all "a"
    have hascending := (hiff e).1 (hall e)
    rw [reached, elements_eq] at hascending
    exact hunordered [] hascending
  · intro hsteady e
    rw [hiff, reached, elements_eq]
    exact pairwise_of_isSteady (path.isSteady_body.trans hsteady) _

/-- With two steps to descendants, an element within two others is found from both of them, and the one behind it is
found in between. -/
theorem reached_inDocumentOrder_nested :
    ∃ path : Path, ofRelative ".//*//*" = .ok path ∧
      (path.reached .nested).map Prod.fst = [[0, 0], [0, 0, 0], [0, 1], [0, 0, 0]] ∧
      (∀ e, path.select e = (path.reached e).flatMap path.take) ∧
      (∀ e, path.body.IsSpread e → InDocumentOrder e (path.reached e)) ∧
      ((∀ e, InDocumentOrder e (path.reached e)) ↔ path.isSteady = true) := by
  have hpath : ofRelative ".//*//*" = .ok [.current, .descendant none, .descendant none] := by cbv
  exact ⟨_, hpath, by decide, reached_inDocumentOrder hpath⟩

end Path

end RecordServer.Xml
