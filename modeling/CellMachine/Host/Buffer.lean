import CellMachine.Host

/-!
# A host in memory

A host that reads from a list of bytes and keeps everything that is emitted. It never fails and
takes no notes.
-/

namespace CellMachine

/-- Bytes to be read and bytes that were emitted. -/
structure Buffer where
  /-- What is still to be read. -/
  input : List UInt8
  /-- What was emitted, the earliest first. -/
  output : Array UInt8 := #[]

namespace Buffer

/-- The next byte, or the end of the input. -/
def read : EStateM IoError Buffer Cell := fun b =>
  match b.input with
  | [] => .ok endOfInput b
  | byte :: rest => .ok (Cell.ofByte byte) { b with input := rest }

/-- Keeps a byte. -/
def put (byte : UInt8) : EStateM IoError Buffer Unit := fun b =>
  .ok () { b with output := b.output.push byte }

instance : Host Buffer where
  read := read
  put := put
  flush := pure ()
  note _ b := b

end Buffer

end CellMachine
