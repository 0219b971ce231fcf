import CellMachine.Host
import CellMachine.Machine.Action

/-!
# Systems

A system is a machine on a host, and a session is what the machine does with its host at hand. A
session that stops with a fault leaves a system behind that can go on.
-/

namespace CellMachine

/-- A machine and the host it runs on. -/
structure System (δ : Type) where
  /-- The machine. -/
  machine : Machine
  /-- The state of its host. -/
  host : δ

/-- What a machine can do with its host at hand. -/
abbrev Session (δ : Type) := EStateM Fault (System δ)

namespace Session

variable {δ α : Type}

/-- Does what concerns the machine alone. -/
def onMachine (action : Action α) : Session δ α := fun ⟨machine, host⟩ =>
  match action machine with
  | .ok a machine => .ok a ⟨machine, host⟩
  | .error fault machine => .error fault ⟨machine, host⟩

/-- Does what concerns the host alone. A failed device is a fault of the session. -/
def onHost (use : EStateM IoError δ α) : Session δ α := fun ⟨machine, host⟩ =>
  match use host with
  | .ok a host => .ok a ⟨machine, host⟩
  | .error cause host => .error (.io cause) ⟨machine, host⟩

/-- An action is a session that leaves the host alone. -/
instance : MonadLift Action (Session δ) := ⟨onMachine⟩

variable [Host δ]

/-- Takes note of an event. -/
def note (event : Log.Event) : Session δ Unit := fun ⟨machine, host⟩ =>
  .ok () ⟨machine, Host.note event host⟩

end Session

end CellMachine
