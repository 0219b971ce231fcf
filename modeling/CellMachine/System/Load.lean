import CellMachine.Memory.Transfer
import CellMachine.System

/-!
# Loading

A load replaces the beginning of memory and nothing else of the machine. All ways to load give the
number of cells that were stored.
-/

namespace CellMachine.Session

variable {δ : Type} [Host δ]

/-- Warns of cells that were discarded, if there are any. -/
def warn (discarded : Nat) : Session δ Unit :=
  if discarded = 0 then return else note (.discarded discarded)

/-- Puts memory in place after a transfer, and gives the number of cells that were stored. -/
def install (transfer : Memory.Transfer) : Session δ Nat := do
  modify fun s => { s with machine.memory := transfer.memory }
  warn transfer.discarded
  return transfer.stored

/-- Loads cells. -/
def loadCells (cells : List Cell) : Session δ Nat := fun s =>
  install (s.machine.memory.transfer 0 cells) s

/-- Loads the image that a reader delivers. -/
def loadProgram (deliveries : List Delivery) : Session δ Nat := fun s =>
  match s.machine.memory.receive 0 deliveries with
  | .ok transfer => install transfer s
  | .error cause => .error (.io cause) s

/-- Loads the image that was found at a path. -/
def loadImage (path : String) (found : Except IoError (List UInt8)) : Session δ Nat := fun s =>
  match s.machine.memory.loadImage path found with
  | .ok transfer =>
    (do
      let stored ← install transfer
      note (.loaded stored path)
      return stored) s
  | .error fault => .error fault s

end CellMachine.Session
