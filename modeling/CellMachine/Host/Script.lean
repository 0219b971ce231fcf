import CellMachine.Host

/-!
# A scripted host

A host whose answers are all laid down in advance: what each read gives, and which use of the
output fails. It keeps a record of what was emitted and of every time that the output was flushed.
-/

namespace CellMachine

/-- A successful use of the output. -/
inductive Emission where
  | byte (value : UInt8)
  | flush
  deriving DecidableEq, Repr

/-- The answers of a host and the record of its use. -/
structure Script where
  /-- What the reads to come give. After them every read gives the end of the input. -/
  replies : List (Except IoError Cell) := []
  /-- The number of the emission that fails, counting from 1. -/
  failingPut : Option Nat := none
  /-- The number of the flush that fails, counting from 1. -/
  failingFlush : Option Nat := none
  /-- How many bytes the machine has tried to emit. -/
  puts : Nat := 0
  /-- How many times the machine has tried to flush the output. -/
  flushes : Nat := 0
  /-- What was emitted, the earliest first. -/
  emissions : Array Emission := #[]

namespace Script

/-- The next reply. A failure is used up like any other reply. -/
def read : EStateM IoError Script Cell := fun s =>
  match s.replies with
  | [] => .ok endOfInput s
  | .ok value :: rest => .ok value { s with replies := rest }
  | .error cause :: rest => .error cause { s with replies := rest }

/-- Keeps a byte, unless this is the emission that fails. -/
def put (byte : UInt8) : EStateM IoError Script Unit := fun s =>
  let s := { s with puts := s.puts + 1 }
  if s.failingPut = some s.puts then .error (.reported "put failed") s
  else .ok () { s with emissions := s.emissions.push (.byte byte) }

/-- Keeps a record of the flush, unless this is the one that fails. -/
def flush : EStateM IoError Script Unit := fun s =>
  let s := { s with flushes := s.flushes + 1 }
  if s.failingFlush = some s.flushes then .error (.reported "flush failed") s
  else .ok () { s with emissions := s.emissions.push .flush }

instance : Host Script where
  read := read
  put := put
  flush := flush
  note _ s := s

end Script

end CellMachine
