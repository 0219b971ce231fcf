import CellMachine.Delivery
import CellMachine.Image
import CellMachine.Memory

/-!
# Transfers into memory

A program reaches memory as a list of cells, as the bytes that a reader delivers, or as an image
that was found at a path. All three end in the same write, and a transfer tells what became of the
cells. When the bytes cannot be had there is no transfer, and nothing is stored.
-/

namespace CellMachine.Memory

/-- What became of a run of cells that was written to memory. -/
structure Transfer where
  /-- Memory after the write. -/
  memory : Memory
  /-- The number of cells that were stored. -/
  stored : Nat
  /-- The number of cells that would have fallen past the end of memory. -/
  discarded : Nat

/-- Writes cells from `start` on. -/
def transfer (memory : Memory) (start : Nat) (cells : List Cell) : Transfer :=
  let stored := room start cells.length
  { memory := memory.write start cells, stored, discarded := cells.length - stored }

/-- Writes the image that a reader delivers from `start` on. -/
def receive (memory : Memory) (start : Nat) (deliveries : List Delivery) :
    Except IoError Transfer :=
  (Delivery.collect deliveries).map fun image => memory.transfer start (Image.decode image)

/-- Writes the image that was found at a path from address 0 on. -/
def loadImage (memory : Memory) (path : String) (found : Except IoError (List UInt8)) :
    Except Fault Transfer :=
  match found with
  | .ok image => .ok (memory.transfer 0 (Image.decode image))
  | .error cause => .error (.load path cause)

end CellMachine.Memory
