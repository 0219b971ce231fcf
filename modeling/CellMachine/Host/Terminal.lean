import CellMachine.Host.Streams
import CellMachine.Key

/-!
# The terminal

The host of an interactive command. It reads a key at a time, and each byte that it emits reaches
the standard output at once. What happens at the terminal and stands for no character is passed
over, and a key among it is noted.

Raw mode lasts as long as the run. Entering it is noted, or fails before there is a host at all.
Leaving it is taken not to fail: the warning that there would be then is not among the events of
the log.
-/

namespace CellMachine

/-- A terminal in raw mode. -/
structure Terminal where
  /-- What is still to happen at the terminal. -/
  events : List TerminalEvent
  /-- The streams that the command writes to. -/
  streams : Streams

namespace Terminal

/-- The character of the next key that stands for one. A terminal at which nothing more can happen
has gone away. -/
def readFrom (streams : Streams) : List TerminalEvent → EStateM.Result IoError Terminal Cell
  | [] => .error .hungUp ⟨[], streams⟩
  | .key key :: rest => .ok key.cell ⟨rest, streams⟩
  | .special key :: rest => readFrom (streams.note (.ignoredKey key.name)) rest
  | .other :: rest => readFrom streams rest

/-- The character of the next key that stands for one. -/
def read : EStateM IoError Terminal Cell := fun ⟨events, streams⟩ =>
  readFrom streams events

/-- Writes a byte at once. -/
def put (byte : UInt8) : EStateM IoError Terminal Unit := fun ⟨events, streams⟩ =>
  match (do Streams.put byte; Streams.flush) streams with
  | .ok a streams => .ok a ⟨events, streams⟩
  | .error cause streams => .error cause ⟨events, streams⟩

instance : Host Terminal where
  read := read
  put := put
  flush := pure ()
  note event t := { t with streams := t.streams.note event }

end Terminal

end CellMachine
