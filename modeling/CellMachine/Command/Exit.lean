import CellMachine.Command.Profile
import CellMachine.FileSystem
import CellMachine.Host.Streams

/-!
# How a command ends

What is left of a command after it has ended: its exit status and everything that it wrote to its
two streams.
-/

namespace CellMachine.Command

/-- The trace that a command leaves. -/
structure Exit where
  /-- The exit status: 0 if all went well. -/
  status : Nat
  /-- The bytes that reached the standard output. -/
  output : Array UInt8
  /-- The text that reached the standard error. -/
  errors : String

namespace Exit

/-- The bytes of a text, if the device behind the standard output takes any. -/
def printed (full : Bool) (text : String) : Array UInt8 :=
  if full then #[] else text.toUTF8.data

/-- The end of a command that prints a text and does nothing else. -/
def ofText (full : Bool) (text : String) : Exit :=
  { status := 0, output := printed full text, errors := "" }

/-- The exit status of a command that cannot print what it has to say. -/
def brokenOutput : Nat := 101

/-- The end of a command that has its closing words to say after what its machine wrote. -/
def ofClosing (streams : Streams) (closing : Closing) : Exit :=
  if streams.full ∧ closing.output ≠ "" then
    { status := brokenOutput
      output := streams.written
      errors := streams.journal.text ++ "failed printing to stdout: " ++ IoError.noSpace.message
        ++ "\n" }
  else
    { status := closing.status
      output := streams.written ++ printed streams.full closing.output
      errors := streams.journal.text ++ closing.complaint }

end Exit

/-- What surrounds a command, apart from where its input comes from. -/
structure Surroundings where
  /-- The arguments. -/
  arguments : List String
  /-- The files that the command can see. -/
  files : FileSystem
  /-- The threshold of the log that the surroundings name, if they name one. -/
  logLevel : Option String := none
  /-- Whether the device behind the standard output takes no bytes. -/
  fullOutput : Bool := false

end CellMachine.Command
