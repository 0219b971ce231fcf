import CellMachine.Command.Batch
import CellMachine.Command.Interactive

/-!
# The commands on real devices

The executable runs one of the two commands, which its first argument names. Everything that a
command decides is decided by the machine and its host; this file fetches input when the machine
is about to read it, and passes on what the host has written so far.

The interactive command expects a terminal that is in raw mode already.
-/

namespace CellMachine.Main

/-- The environment variable that names the threshold of the log. -/
def logVariable : String := "RUST_LOG"

/-- The number of a failure, which some operations report with a minus sign. -/
def failureNumber (code : UInt32) : UInt32 :=
  if code < 0x80000000 then code else 0 - code

/-- The cause of a failure with a number, if it is one that the commands know. -/
def causeOfNumber? : UInt32 → Option IoError
  | 20 => some .notDirectory
  | 21 => some .isDirectory
  | 28 => some .noSpace
  | 36 => some .nameTooLong
  | _ => none

/-- The cause of a failure that the operating system reports. -/
def causeOf : IO.Error → IoError
  | .noFileOrDirectory .. => .notFound
  | error@(.inappropriateType _ code _)
  | error@(.resourceExhausted _ code _)
  | error@(.invalidArgument _ code _) =>
    (causeOfNumber? (failureNumber code)).getD (.reported (toString error))
  | error => .reported (toString error)

/-- What an attempt gives, or the cause of its failure. -/
def attempt {α : Type} (action : IO α) : IO (Except IoError α) := do
  try
    return .ok (← action)
  catch error =>
    return .error (causeOf error)

/-- The next byte of the standard input, or nothing at its end. -/
def nextByte : IO (Option UInt8) := do
  return (← (← IO.getStdin).read 1).data[0]?

/-- A host whose input comes from a real device. -/
class Live (δ : Type) extends Host δ where
  /-- The streams that the host writes to. -/
  streams : δ → Streams
  /-- Replaces the streams that the host writes to. -/
  setStreams : Streams → δ → δ
  /-- Fetches what the machine is about to read. -/
  supply : δ → IO δ

instance : Live Console where
  streams := Console.streams
  setStreams streams c := { c with streams }
  supply c := do
    return { c with input := (← attempt nextByte).map Option.toList }

/-- How many bytes follow the first byte of a character. -/
def followers (first : UInt8) : Nat :=
  if first < 0xc0 then 0 else if first < 0xe0 then 1 else if first < 0xf0 then 2 else 3

/-- The key that a terminal sends as the given byte, or as that byte and those that follow. -/
def keyOf (first : UInt8) : IO Key := do
  if first = 13 then return .enter
  else if first = 27 then return .escape
  else if first = 127 then return .backspace
  else if first = 0 then return .control ' '
  else if first < 27 then return .ofControl (Char.ofNat (first.toNat + 96))
  else if first < 32 then return .control (Char.ofNat (first.toNat + 24))
  else
    let mut sent := ByteArray.empty.push first
    for _ in [0:followers first] do
      for byte in (← nextByte).toList do
        sent := sent.push byte
    return .char ((String.fromUTF8? sent).bind (·.toList.head?) |>.getD '\ufffd')

instance : Live Terminal where
  streams := Terminal.streams
  setStreams streams t := { t with streams }
  supply t := do
    match ← attempt nextByte with
    | .ok (some byte) => return { t with events := [.key (← keyOf byte)] }
    | _ => return t

/-- Writes bytes to the standard output. -/
def writeOut (bytes : Array UInt8) : IO Unit := do
  let out ← IO.getStdout
  out.write ⟨bytes⟩
  out.flush

/-- Passes on what the host has written so far. If the standard output fails, the bytes go back to
wait, and the host finds the device full. -/
def passOn {δ : Type} [Live δ] (host : δ) : IO δ := do
  let streams := Live.streams host
  if streams.journal.entries.isEmpty && streams.written.isEmpty then return host
  (← IO.getStderr).putStr streams.journal.text
  let streams := { streams with journal := { streams.journal with entries := #[] } }
  if streams.written.isEmpty then return Live.setStreams streams host
  match ← attempt (writeOut streams.written) with
  | .ok _ => return Live.setStreams { streams with written := #[] } host
  | .error _ =>
    let waiting := streams.written ++ streams.waiting
    return Live.setStreams { streams with written := #[], waiting, full := true } host

/-- Whether the next instruction of a machine reads a character. -/
def awaitsInput (machine : Machine) : Bool :=
  match (machine.memory.get? machine.ip).bind machine.set.decode with
  | some .input | some .getc => true
  | _ => false

/-- Hands out what was emitted and fetches what the machine is about to read. -/
def prepare {δ : Type} [Live δ] (s : System δ) : IO (System δ) := do
  if awaitsInput s.machine then
    match Host.flush s.host with
    | .ok _ host => return { s with host := ← Live.supply (← passOn host) }
    | .error _ host => return { s with host }
  else return s

/-- More steps than any run will take. -/
def patience : Nat := 4611686018427387904

/-- Steps until the machine has halted or stops with a fault. -/
def drive {δ : Type} [Live δ] : (fuel : Nat) → System δ →
    IO (EStateM.Result Fault (System δ) Unit)
  | 0, s => return .ok () s
  | fuel + 1, s => do
    match Session.step (← prepare s) with
    | .ok .running s => drive fuel { s with host := ← passOn s.host }
    | .ok .halted s => return .ok () s
    | .error fault s => return .error fault s

/-- Says the closing words of a command. -/
def finish (closing : Command.Closing) : IO UInt32 := do
  match ← attempt (writeOut closing.output.toUTF8.data) with
  | .ok _ =>
    (← IO.getStderr).putStr closing.complaint
    return UInt32.ofNat closing.status
  | .error cause =>
    (← IO.getStderr).putStr ("failed printing to stdout: " ++ cause.message ++ "\n")
    return UInt32.ofNat Command.Exit.brokenOutput

/-- Runs an image on a host. -/
def runOn {δ : Type} [Live δ] (profile : Command.Profile) (options : Command.Options) (host : δ) :
    IO UInt32 := do
  let path := profile.imagePath options
  let found ← attempt do return (← IO.FS.readBinFile path).data.toList
  match Session.loadImage path found ⟨{ set := profile.set }, host⟩ with
  | .error fault s =>
    let _ ← passOn s.host
    finish (profile.giveUp fault.message)
  | .ok _ s =>
    match Session.settle (← drive patience s) with
    | .ok _ s =>
      let _ ← passOn s.host
      finish (profile.close options s.machine (.ok ()))
    | .error fault s =>
      let _ ← passOn s.host
      finish (profile.close options s.machine (.error fault))

/-- Reads the arguments of a command and lets it start. -/
def launch (profile : Command.Profile) (arguments : List String)
    (start : Command.Options → Streams → IO UInt32) : IO UInt32 := do
  match Command.Options.parse arguments with
  | .error (.usage error) =>
    (← IO.getStderr).putStr (profile.complaint error.message)
    return 2
  | .error .help => finish { output := profile.helpText, complaint := "", status := 0 }
  | .error .version => finish { output := profile.versionLine, complaint := "", status := 0 }
  | .ok options =>
    let threshold := Command.Profile.threshold options (← IO.getEnv logVariable)
    start options { journal := { threshold } }

/-- Runs the batch command. -/
def batch (arguments : List String) : IO UInt32 :=
  launch .batch arguments fun options streams =>
    runOn .batch options { input := .ok [], streams : Console }

/-- Runs the interactive command. -/
def interactive (arguments : List String) : IO UInt32 :=
  launch .interactive arguments fun options streams => do
    if ← (← IO.getStdin).isTty then
      runOn .interactive options { events := [], streams := streams.note .rawMode : Terminal }
    else finish (Command.Profile.interactive.giveUp (Fault.io .noDevice).message)

end CellMachine.Main

/-- Runs the command that the first argument names. -/
def main : List String → IO UInt32
  | "ngb" :: arguments => CellMachine.Main.batch arguments
  | "ngita" :: arguments => CellMachine.Main.interactive arguments
  | _ => do
    (← IO.getStderr).putStr "the first argument is ngb or ngita\n"
    return 2
