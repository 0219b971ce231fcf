import CellMachine.Fault
import CellMachine.Log

/-!
# Hosts

A host is the surroundings of a machine: the device that it reads characters from, the device that
it writes bytes to, and the log. Each use of a device may fail, and leaves the host in a new state
whether it fails or not.
-/

namespace CellMachine

/-- What a machine reads when there is nothing left to read. -/
def endOfInput : Cell := -1

/-- The devices around a machine, whose state is of type `δ`. -/
class Host (δ : Type) where
  /-- Waits for the next character. -/
  read : EStateM IoError δ Cell
  /-- Emits a byte. -/
  put (byte : UInt8) : EStateM IoError δ Unit
  /-- Hands everything emitted so far to the device behind the host. -/
  flush : EStateM IoError δ Unit
  /-- Takes note of an event. -/
  note (event : Log.Event) (host : δ) : δ

end CellMachine
