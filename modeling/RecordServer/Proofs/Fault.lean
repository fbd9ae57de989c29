import RecordServer.Fault
import RecordServer.Proofs.Outcome

/-!
# Which faults arise

An action may raise faults of some causes only (`Raises`); there is one rule for each way to compose actions. What is
wrong with the content of a file or with the text of a value has causes of its own (`OfContent`): these are not what the
validation of a configuration is to prevent, and they are harmless, since they end a request or the construction of an
index with a message. After a fatal fault nothing can be answered any more.
-/

namespace RecordServer

namespace Cause

/-- What can be wrong with the content of a file, with the text of a value, or outside of the library. -/
def isOfContent : Cause → Bool
  | external _ | stated _ | parserCycle | notInteger _ | notFloat _ | notBoolean _ _ | notInCharset _ | parsersGone
  | unknownInner _ _ | noRecord _ _ | unclosedElement _ => true
  | _ => false

/-- Why records cannot be sorted. -/
def isOfOrder : Cause → Bool
  | incomparable _ _ | contradictoryOrder => true
  | _ => false

/-- Why an index refuses to look up the filters of a query. -/
def isRejection : Cause → Bool
  | foreignIndex _ _ | filterRequired _ | unindexedProperty _ _ => true
  | _ => false

/-- A record lacks a property by which a relation finds others. -/
def isMissingProperty : Cause → Bool
  | missingParentProperty _ _ => true
  | _ => false

/-- What the validation of a configuration is to prevent. -/
def isPreventable (cause : Cause) : Bool := cause.isRejection || cause.isMissingProperty

theorem not_preventable_of_content {cause : Cause} (h : cause.isOfContent = true) : cause.isPreventable = false := by
  cases cause <;> first | rfl | cases h

theorem not_preventable_of_order {cause : Cause} (h : cause.isOfOrder = true) : cause.isPreventable = false := by
  cases cause <;> first | rfl | cases h

end Cause

theorem Fault.not_fatal_of_content {fault : Fault} (h : fault.cause.isOfContent = true) : fault.isFatal = false := by
  obtain ⟨contexts, cause⟩ := fault
  cases cause <;> first | rfl | cases h

/-- The outermost link of a fault says what was being done, or what was wrong. -/
theorem Fault.content_outermost {fault : Fault} (h : fault.cause.isOfContent = true) :
    fault.outermost.cause.isOfContent = true := by
  unfold outermost
  split
  · exact h
  · rfl

/-- All faults of an action have certain causes. -/
def Raises {α : Type} (causes : Cause → Prop) (a : Except Fault α) : Prop :=
  ∀ fault, a = .error fault → causes fault.cause

/-- What goes wrong is a matter of the content of files and values. -/
abbrev OfContent {α : Type} (a : Except Fault α) : Prop := Raises (fun cause => cause.isOfContent = true) a

/-- What goes wrong could not have been prevented. -/
abbrev Unpreventable {α : Type} (a : Except Fault α) : Prop := Raises (fun cause => cause.isPreventable = false) a

namespace Raises

variable {α β : Type} {causes : Cause → Prop} {a : Except Fault α} {fault : Fault}

theorem ok (x : α) : Raises causes (.ok x : Except Fault α) := nofun

theorem error (h : causes fault.cause) : Raises causes (.error fault : Except Fault α) := by
  rintro _ ⟨rfl⟩
  exact h

theorem bind {f : α → Except Fault β} (ha : Raises causes a) (hf : ∀ x, Raises causes (f x)) :
    Raises causes (a >>= f) := by
  cases a with
  | error fault => exact error (ha fault rfl)
  | ok x => exact hf x

theorem map {f : α → β} (ha : Raises causes a) : Raises causes (a.map f) := by
  cases a with
  | error fault => exact error (ha fault rfl)
  | ok x => exact ok (f x)

theorem around {context : Context} (ha : Raises causes a) : Raises causes (context.around a) := by
  cases a with
  | error fault => exact error (ha fault rfl)
  | ok x => exact ok x

theorem mapM {f : α → Except Fault β} {as : List α} (h : ∀ a ∈ as, Raises causes (f a)) :
    Raises causes (as.mapM f) := by
  intro fault hfail
  obtain ⟨a, ha, hfail⟩ := error_of_mapM hfail
  exact h a ha fault hfail

theorem foldlM {f : β → α → Except Fault β} (h : ∀ b a, Raises causes (f b a)) : ∀ (as : List α) (start : β),
    Raises causes (as.foldlM f start)
  | [], start => ok start
  | a :: as, start => by
    rw [List.foldlM_cons]
    exact (h start a).bind (foldlM h as)

theorem imp {more : Cause → Prop} (ha : Raises causes a) (h : ∀ cause, causes cause → more cause) : Raises more a :=
  fun fault hfail => h _ (ha fault hfail)

end Raises

/-! ## Harmless actions -/

/-- An action does not fail with a fatal fault. -/
def Harmless {α : Type} (a : Except Fault α) : Prop := ∀ fault, a = .error fault → fault.isFatal = false

namespace Harmless

variable {α : Type} {fault : Fault}

theorem ok (x : α) : Harmless (.ok x : Except Fault α) := nofun

theorem error (h : fault.isFatal = false) : Harmless (.error fault : Except Fault α) := by
  rintro _ ⟨rfl⟩
  exact h

end Harmless

theorem OfContent.unpreventable {α : Type} {a : Except Fault α} (h : OfContent a) : Unpreventable a :=
  h.imp fun _ => Cause.not_preventable_of_content

theorem OfContent.harmless {α : Type} {a : Except Fault α} (h : OfContent a) : Harmless a :=
  fun fault hfail => Fault.not_fatal_of_content (h fault hfail)

end RecordServer
