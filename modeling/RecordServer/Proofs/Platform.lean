import RecordServer.Platform
import RecordServer.Proofs.FileSystem
import Mathlib.Data.List.DropRight

/-!
# The platform after any operations

The operations on a platform come in any order: servers are registered while the system starts, and a signal may end
the system before that is over. A run is described by what its operations say, without the states in between:

- `ends` are the operations that end the system, and `registered` is what has been registered since the last of them;
- every single operation is followed by its effect on these (`registered_concat`) and on the platform (`run_concat`);
- `run_observed` says what can be seen of a platform after any operations. The end of the system is final, and so is
  the first reason, but the services are only gone until something is registered again.
-/

namespace RecordServer.Platform

variable {κ σ : Type}

/-- What may be done with a platform. -/
inductive Operation (κ σ : Type) where
  | register (key : κ) (service : σ)
  | find (key : κ)
  | require (key : κ) (name : String)
  | terminate
  | abort (reason : String)

namespace Operation

/-- The operations that end the system. -/
def ends : Operation κ σ → Bool
  | terminate | abort _ => true
  | _ => false

/-- The service that is added. -/
def entry? : Operation κ σ → Option (κ × σ)
  | register key service => some (key, service)
  | _ => none

/-- The reason that is given for the end of the system. -/
def reason? : Operation κ σ → Option String
  | abort reason => some reason
  | _ => none

/-- The platform after an operation; looking for a service leaves it as it is. -/
def apply [BEq κ] (p : Platform κ σ) : Operation κ σ → Platform κ σ
  | register key service => p.register key service
  | terminate => p.terminate
  | abort reason => p.abort reason
  | find _ | require _ _ => p

end Operation

/-- The services that have been registered since the system was last ended, the last one at the end. -/
def registered (ops : List (Operation κ σ)) : List (κ × σ) :=
  (ops.rtakeWhile fun op => !op.ends).filterMap Operation.entry?

theorem registered_concat_ends {op : Operation κ σ} (h : op.ends = true) (ops : List (Operation κ σ)) :
    registered (ops ++ [op]) = [] := by
  rw [registered, List.rtakeWhile_concat_neg _ _ _ (by simp [h])]
  rfl

theorem registered_concat {op : Operation κ σ} (h : op.ends = false) (ops : List (Operation κ σ)) :
    registered (ops ++ [op]) = registered ops ++ op.entry?.toList := by
  rw [registered, List.rtakeWhile_concat_pos _ _ _ (by simp [h]), List.filterMap_append]
  cases he : op.entry? <;> simp [registered, he]

variable [DecidableEq κ]

/-- A new platform after the given operations. -/
def run (ops : List (Operation κ σ)) : Platform κ σ := ops.foldl Operation.apply new

theorem run_concat (ops : List (Operation κ σ)) (op : Operation κ σ) : run (ops ++ [op]) = op.apply (run ops) := by
  simp [run]

/-! ## Services -/

/-- The service registered last is found under its key, and what is found under the other keys stays. -/
theorem find?_register (p : Platform κ σ) (key : κ) (service : σ) (other : κ) :
    (p.register key service).find? other = if other = key then some service else p.find? other := by
  rw [find?, register, List.lookup_cons]
  by_cases h : other = key
  · simp [h]
  · have hleft := FileSystem.lookup_filter_ne h p.services
    have hbeq : (other == key) = false := by simpa using h
    simp only [hbeq, h, if_false, find?, ← hleft]
    congr 2
    funext entry
    by_cases he : entry.1 = key <;> simp [he]

/-- What is found is what has been registered last since the last end. -/
theorem find?_run (ops : List (Operation κ σ)) (key : κ) :
    (run ops).find? key = (registered ops).reverse.lookup key := by
  induction ops using List.reverseRecOn with
  | nil => rfl
  | append_singleton ops op ih =>
    rw [run_concat]
    cases op with
    | register other service =>
      rw [registered_concat rfl]
      simp only [Operation.apply, Operation.entry?, find?_register, Option.toList_some, List.reverse_append,
        List.reverse_singleton, List.singleton_append, List.lookup_cons, ih]
      by_cases h : key = other
      · simp [h]
      · simp only [h, if_false, beq_eq_false_iff_ne.mpr h]
    | find other =>
      rw [registered_concat rfl]
      simpa [Operation.apply, Operation.entry?] using ih
    | require other name =>
      rw [registered_concat rfl]
      simpa [Operation.apply, Operation.entry?] using ih
    | terminate =>
      rw [registered_concat_ends rfl]
      rfl
    | abort reason =>
      rw [registered_concat_ends rfl]
      rfl

/-! ## The end of the system -/

theorem running_run (ops : List (Operation κ σ)) : (run ops).running = !ops.any Operation.ends := by
  induction ops using List.reverseRecOn with
  | nil => rfl
  | append_singleton ops op ih =>
    rw [run_concat, List.any_append]
    cases op <;> simp [Operation.apply, Operation.ends, register, terminate, abort, ih]

/-- The first reason is kept by all that follows. -/
theorem reason_run (ops : List (Operation κ σ)) : (run ops).reason = ops.findSome? Operation.reason? := by
  induction ops using List.reverseRecOn with
  | nil => rfl
  | append_singleton ops op ih =>
    rw [run_concat, List.findSome?_append, ← ih]
    cases op with
    | abort reason =>
      show some ((run ops).reason.getD reason) = _
      cases (run ops).reason <;> simp [Operation.reason?]
    | register key service => simp [Operation.apply, Operation.reason?, register]
    | find key => simp [Operation.apply, Operation.reason?]
    | require key name => simp [Operation.apply, Operation.reason?]
    | terminate => simp [Operation.apply, Operation.reason?, terminate]

/-! ## What can be seen of a platform -/

/-- A list of entries in which nothing is found has no entries. -/
theorem forall_lookup_eq_none {entries : List (κ × σ)} : (∀ key, entries.lookup key = none) ↔ entries = [] := by
  constructor
  · intro h
    cases entries with
    | nil => rfl
    | cons entry entries => simpa [List.lookup_cons] using h entry.1
  · rintro rfl key
    rfl

/-- After any operations: the system is running, and has to be waited for, unless one of them ended it; the reason is
that of the first abort; what is found is what has been registered last since the last end, and what is not found is
missed with a message that tells whether the system has been ended. So there are no services after an end exactly if
nothing has been registered since. -/
theorem run_observed (ops : List (Operation κ σ)) :
    (run ops).running = !ops.any Operation.ends ∧ (run ops).isTerminated = ops.any Operation.ends ∧
      (run ops).reason = ops.findSome? Operation.reason? ∧
      (∀ key, (run ops).find? key = (registered ops).reverse.lookup key) ∧
      (∀ key name, (run ops).require key name = ((registered ops).reverse.lookup key).elim
        (.error (if ops.any Operation.ends
          then s!"A required component ({name}) has been requested but the system is already shutting down!"
          else s!"A required component ({name}) was not available in the platform registry!")) .ok) ∧
      ((∀ key, (run ops).find? key = none) ↔ registered ops = []) := by
  refine ⟨running_run ops, ?_, reason_run ops, find?_run ops, ?_, ?_⟩
  · simp [isTerminated, running_run]
  · intro key name
    rw [require, find?_run]
    cases (registered ops).reverse.lookup key with
    | some service => rfl
    | none => cases h : ops.any Operation.ends <;> simp [missing, running_run, h]
  · simp only [find?_run, forall_lookup_eq_none, List.reverse_eq_nil_iff]

/-- A server that is registered after the end of the system is found. -/
example : (run [.terminate, .register "server" "late"]).find? "server" = some "late" := by decide

end RecordServer.Platform
