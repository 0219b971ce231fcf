import CellMachine.Host.Streams

/-!
# The console

The host of a command that is not interactive. It reads its standard input a byte at a time, and
what it emits reaches the standard output when the machine waits for input or stops.
-/

namespace CellMachine

/-- The standard streams of a command. -/
structure Console where
  /-- What is still to be read from the standard input, or why reading from it fails. -/
  input : Except IoError (List UInt8)
  /-- The streams that the command writes to. -/
  streams : Streams

namespace Console

/-- The next byte of the standard input, or its end. -/
def read : EStateM IoError Console Cell := fun c =>
  match c.input with
  | .ok [] => .ok endOfInput c
  | .ok (byte :: rest) => .ok (Cell.ofByte byte) { c with input := .ok rest }
  | .error cause => .error cause c

/-- Does what concerns the streams alone. -/
def onStreams {α : Type} (use : EStateM IoError Streams α) : EStateM IoError Console α :=
  fun ⟨input, streams⟩ =>
    match use streams with
    | .ok a streams => .ok a ⟨input, streams⟩
    | .error cause streams => .error cause ⟨input, streams⟩

instance : Host Console where
  read := read
  put byte := onStreams (Streams.put byte)
  flush := onStreams Streams.flush
  note event c := { c with streams := c.streams.note event }

end Console

end CellMachine
