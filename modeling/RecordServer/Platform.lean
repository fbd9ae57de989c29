/-!
# The platform

A `Platform` holds the services of the running system, one for each key, until it is terminated. Terminating it releases
all services; aborting it also keeps the reason, and the first reason stays.
-/

namespace RecordServer

/-- The services of the system and whether it is still running. -/
structure Platform (κ : Type) (σ : Type) where
  services : List (κ × σ)
  running : Bool
  reason : Option String

namespace Platform

variable {κ σ : Type} [BEq κ]

/-- A running platform without services. -/
def new : Platform κ σ := ⟨[], true, none⟩

/-- Adds a service in place of the one with the same key. -/
def register (p : Platform κ σ) (key : κ) (service : σ) : Platform κ σ :=
  { p with services := (key, service) :: p.services.filter fun entry => !(entry.1 == key) }

/-- The service with the given key. -/
def find? (p : Platform κ σ) (key : κ) : Option σ := p.services.lookup key

/-- Releases all services and stops the system. -/
def terminate (p : Platform κ σ) : Platform κ σ := { p with services := [], running := false }

/-- Stops the system for a reason, of which the first is kept. -/
def abort (p : Platform κ σ) (reason : String) : Platform κ σ :=
  terminate { p with reason := some (p.reason.getD reason) }

/-- What is said about a component that is needed but not there. -/
def missing (p : Platform κ σ) (name : String) : String :=
  if p.running then s!"A required component ({name}) was not available in the platform registry!"
  else s!"A required component ({name}) has been requested but the system is already shutting down!"

/-- The service with the given key, whose component has the given name, which has to be there. -/
def require (p : Platform κ σ) (key : κ) (name : String) : Except String σ :=
  match p.find? key with
  | some service => .ok service
  | none => .error (p.missing name)

/-- Whether nobody has to wait for the end of the system. -/
def isTerminated (p : Platform κ σ) : Bool := !p.running

end Platform

end RecordServer
