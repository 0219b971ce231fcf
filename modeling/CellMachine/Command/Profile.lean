import CellMachine.Command.Arguments
import CellMachine.System.Load
import CellMachine.System.Run

/-!
# Running an image by a command

The two commands differ in their names and in what they say of themselves, in the image that they
run when none is named, in the instruction set of their machine, in how they print the stack that a
program leaves behind, and in their host. Everything else is the same: load the image, run it,
report the statistics if they are asked for, and then either complain of the fault that stopped the
run or print the stack.
-/

namespace CellMachine.Command

/-- What makes a command the command that it is. -/
structure Profile where
  /-- The name of the command. -/
  name : String
  /-- What the command does, in a sentence. -/
  purpose : String
  /-- The image that is run when the arguments name none. -/
  defaultImage : String
  /-- The instruction set of the machine. -/
  set : InstructionSet
  /-- The text that shows the stack that a program leaves behind. -/
  stackLine : DataStack → String

/-- The version of the commands. -/
def version : String := "0.1.0"

/-- How many entries of the stack are shown after a run. -/
def shownEntries : Nat := 100

/-- The stack with each value behind its position in the stack, from the bottom to the top. -/
def numberedLine (stack : DataStack) : String :=
  String.join ((stack.trailing shownEntries).map fun (i, value) =>
    Text.padLeft 8 i.repr ++ ": " ++ value.text ++ " ")

/-- The values of the stack, each followed by a space, from the bottom to the top. -/
def plainLine (stack : DataStack) : String :=
  String.join (stack.entries.map fun value => value.text ++ " ")

/-- What a command has to say once the machine has stopped. -/
structure Closing where
  /-- What is printed after the output of the program. -/
  output : String
  /-- What is printed after the log. -/
  complaint : String
  /-- The exit status of the command. -/
  status : Nat
  deriving DecidableEq, Repr

namespace Profile

/-- The line by which a command complains. -/
def complaint (profile : Profile) (message : String) : String :=
  profile.name ++ ": " ++ message ++ "\n"

/-- Gives up without having run anything. -/
def giveUp (profile : Profile) (message : String) : Closing :=
  { output := "", complaint := profile.complaint message, status := 1 }

/-- The statistics, if they are asked for. -/
def report (options : Options) (machine : Machine) : String :=
  if options.statistics then machine.statistics.report else ""

/-- What there is to say after a run. The statistics are reported after a fault, too. -/
def close (profile : Profile) (options : Options) (machine : Machine) :
    Except Fault Unit → Closing
  | .ok _ =>
    { output := report options machine ++ profile.stackLine machine.data ++ "\n"
      complaint := ""
      status := 0 }
  | .error fault =>
    { output := report options machine, complaint := profile.complaint fault.message, status := 1 }

/-- The path of the image that the arguments ask for. -/
def imagePath (profile : Profile) (options : Options) : String :=
  options.image.getD profile.defaultImage

/-- The line that tells the version of a command. -/
def versionLine (profile : Profile) : String :=
  profile.name ++ " " ++ version ++ "\n"

/-- The text that explains how to use a command. -/
def helpText (profile : Profile) : String :=
  profile.purpose ++ "\n\n"
    ++ "Usage: " ++ profile.name ++ " [OPTIONS] [IMAGE]\n\n"
    ++ "Arguments:\n"
    ++ "  [IMAGE]  image file to load [default: " ++ profile.defaultImage ++ "]\n\n"
    ++ "Options:\n"
    ++ "      --stats       print runtime statistics after the run\n"
    ++ "  -v, --verbose...  log more to stderr; repeat for more detail\n"
    ++ "  -h, --help        Print help\n"
    ++ "  -V, --version     Print version\n"

/-- Loads the image that was found and runs it on a host. There is no answer if the run takes more
than `fuel` steps. -/
def execute {δ : Type} [Host δ] (profile : Profile) (fuel : Nat) (options : Options)
    (found : Except IoError (List UInt8)) (host : δ) : Option (System δ × Closing) :=
  match Session.loadImage (profile.imagePath options) found ⟨{ set := profile.set }, host⟩ with
  | .error fault s => some (s, profile.giveUp fault.message)
  | .ok _ s =>
    match Session.run fuel s with
    | none => none
    | some (.ok _ s) => some (s, profile.close options s.machine (.ok ()))
    | some (.error fault s) => some (s, profile.close options s.machine (.error fault))

/-- The threshold of the log: the one that the surroundings name, or else the one that the
arguments ask for. -/
def threshold (options : Options) (named : Option String) : Log.Level :=
  (named.bind Log.Level.ofName?).getD (Log.Level.ofVerbosity options.verbosity)

end Profile

end CellMachine.Command
