import CellMachine.Command.Exit
import CellMachine.Host.Console

/-!
# The batch command

Runs an image until it halts, with the standard input and output as its devices, and then prints
what is left on the stack.
-/

namespace CellMachine.Command

/-- The batch command. -/
def Profile.batch : Profile where
  name := "ngb"
  purpose := "Run an ngb image until it halts, then print what is left on the stack"
  defaultImage := "ngbImage"
  set := .base
  stackLine := numberedLine

/-- Runs the batch command. The standard input is a list of bytes, or it fails at every read. There
is no answer if the image runs for more than `fuel` steps. -/
def batch (fuel : Nat) (world : Surroundings) (input : Except IoError (List UInt8)) :
    Option (Except UsageError Exit) :=
  match Options.parse world.arguments with
  | .error (.usage error) => some (.error error)
  | .error .help => some (.ok (.ofText world.fullOutput Profile.batch.helpText))
  | .error .version => some (.ok (.ofText world.fullOutput Profile.batch.versionLine))
  | .ok options =>
    let journal := { threshold := Profile.threshold options world.logLevel : Log.Journal }
    let console := { input, streams := { full := world.fullOutput, journal } : Console }
    let found := world.files.read (Profile.batch.imagePath options)
    (Profile.batch.execute fuel options found console).map fun (s, closing) =>
      .ok (.ofClosing s.host.streams closing)

end CellMachine.Command
