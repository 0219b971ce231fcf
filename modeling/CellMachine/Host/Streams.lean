import CellMachine.Host

/-!
# Standard streams

What a command writes: bytes to its standard output and lines of the log to its standard error.
Bytes for the standard output wait until they are handed over together. A device that is full
takes nothing at all, and what it was given keeps waiting.
-/

namespace CellMachine

/-- The state of the two streams that a command writes to. -/
structure Streams where
  /-- Whether the device behind the standard output takes no bytes. -/
  full : Bool := false
  /-- The bytes that wait to be handed over. -/
  waiting : Array UInt8 := #[]
  /-- The bytes that were handed over. -/
  written : Array UInt8 := #[]
  /-- The log. -/
  journal : Log.Journal

namespace Streams

/-- How many bytes may wait. -/
def capacity : Nat := 8192

/-- Hands the waiting bytes over. -/
def flush : EStateM IoError Streams Unit := fun s =>
  if s.waiting.isEmpty then .ok () s
  else if s.full then .error .noSpace s
  else .ok () { s with written := s.written ++ s.waiting, waiting := #[] }

/-- Hands the waiting bytes over if no more can wait. -/
def makeRoom : EStateM IoError Streams Unit := fun s =>
  if capacity ≤ s.waiting.size then flush s else .ok () s

/-- Lets a byte wait. -/
def put (byte : UInt8) : EStateM IoError Streams Unit := do
  makeRoom
  modify fun s => { s with waiting := s.waiting.push byte }

/-- Takes note of an event. -/
def note (event : Log.Event) (s : Streams) : Streams :=
  { s with journal := s.journal.note event }

end Streams

end CellMachine
