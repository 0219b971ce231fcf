import CellMachine.Command.Exit
import CellMachine.Host.Terminal

/-!
# The interactive command

Runs an image on a terminal, a key at a time, until it halts, and then prints what is left on the
stack. Without a terminal it does not even look at the image. A terminal that was put in raw mode is
taken to leave it again without fail, before the stack is printed, so that there is nothing to say
about it.
-/

namespace CellMachine.Command

/-- The interactive command. -/
def Profile.interactive : Profile where
  name := "ngita"
  purpose := "Run an image interactively: the terminal is put in raw mode for the length of the "
    ++ "run, and PUTC/GETC talk to it a key at a time"
  defaultImage := "ngaImage"
  set := .interactive
  stackLine := plainLine

/-- Runs the interactive command at a terminal where the given events happen, or without a terminal.
There is no answer if the image runs for more than `fuel` steps. -/
def interactive (fuel : Nat) (world : Surroundings) (terminal : Option (List TerminalEvent)) :
    Option (Except UsageError Exit) :=
  match Options.parse world.arguments with
  | .error (.usage error) => some (.error error)
  | .error .help => some (.ok (.ofText world.fullOutput Profile.interactive.helpText))
  | .error .version => some (.ok (.ofText world.fullOutput Profile.interactive.versionLine))
  | .ok options =>
    let journal := { threshold := Profile.threshold options world.logLevel : Log.Journal }
    let streams := { full := world.fullOutput, journal : Streams }
    match terminal with
    | none =>
      let closing := Profile.interactive.giveUp (Fault.io .noDevice).message
      some (.ok (.ofClosing streams closing))
    | some events =>
      let host := { events, streams := streams.note .rawMode : Terminal }
      let found := world.files.read (Profile.interactive.imagePath options)
      (Profile.interactive.execute fuel options found host).map fun (s, closing) =>
        .ok (.ofClosing s.host.streams closing)

end CellMachine.Command
