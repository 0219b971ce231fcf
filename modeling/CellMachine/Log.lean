import CellMachine.Opcode
import CellMachine.Text.Field

/-!
# The log

What the machine and its devices have to say about a run, apart from its output. Each event has
a level, and a journal keeps the events that its threshold admits, in order.
-/

namespace CellMachine

namespace Log

/-- How much detail an event gives, or how much detail a journal admits. -/
inductive Level where
  | off
  | error
  | warn
  | info
  | debug
  | trace
  deriving DecidableEq, Repr

namespace Level

/-- The name of a level in log lines. -/
def name : Level → String
  | off => "OFF"
  | error => "ERROR"
  | warn => "WARN"
  | info => "INFO"
  | debug => "DEBUG"
  | trace => "TRACE"

/-- Every level, from the one that admits nothing to the one that admits everything. -/
def all : List Level :=
  [off, error, warn, info, debug, trace]

/-- The level with a given name, in letters of either case. -/
def ofName? (text : String) : Option Level :=
  all.find? fun level => level.name == text.toUpper

/-- The threshold that a number of requests for more detail asks for. Warnings are always on. -/
def ofVerbosity : Nat → Level
  | 0 => warn
  | 1 => info
  | 2 => debug
  | _ => trace

/-- Whether a threshold lets an event of a given level through. -/
def admits (threshold level : Level) : Bool :=
  level.ctorIdx ≤ threshold.ctorIdx

end Level

/-- Something worth a line in the log. -/
inductive Event where
  /-- Cells that would have fallen past the end of memory were discarded. -/
  | discarded (count : Nat)
  /-- An image file was loaded. -/
  | loaded (count : Nat) (path : String)
  /-- An instruction is about to be executed. -/
  | dispatched (address : Cell) (op : Opcode) (sp rp : Int)
  /-- The instruction at an address has no meaning yet. -/
  | unimplemented (address : Cell)
  /-- A run ended without a fault. -/
  | halted (instructions : Nat) (sp rp : Int)
  /-- The terminal was put in raw mode. Leaving raw mode is taken not to fail, and no event tells of
  it. -/
  | rawMode
  /-- A key that stands for no cell was pressed. -/
  | ignoredKey (key : String)
  deriving DecidableEq, Repr

namespace Event

/-- How much detail an event gives. -/
def level : Event → Level
  | discarded _ => .warn
  | unimplemented _ => .error
  | dispatched .. => .trace
  | loaded .. | halted .. | rawMode | ignoredKey _ => .debug

/-- The part of the program that an event comes from. -/
def origin : Event → String
  | discarded _ | loaded .. => "ngb::memory"
  | dispatched .. | unimplemented _ | halted .. => "ngb::interpreter"
  | rawMode | ignoredKey _ => "ngb::input"

/-- The positions of the two stack pointers, as events show them. -/
def pointers (sp rp : Int) : String :=
  "sp " ++ sp.repr ++ " rp " ++ rp.repr

/-- The wording of an event. -/
def text : Event → String
  | discarded count =>
    "image too large: " ++ count.repr ++ " cells past the end of memory discarded"
  | loaded count path => "loaded " ++ count.repr ++ " cells from " ++ path
  | dispatched address op sp rp =>
    Text.padLeft 6 address.text ++ ": " ++ Text.padRight 6 op.mnemonic ++ " " ++ pointers sp rp
  | unimplemented address => "CJUMP not yet implemented (at " ++ address.text ++ ")"
  | halted instructions sp rp =>
    "halted after " ++ instructions.repr ++ " instructions, " ++ pointers sp rp
  | rawMode => "terminal in raw mode"
  | ignoredKey key => "ignoring unmapped key " ++ key

/-- A text whose second and later lines are set in by four spaces. -/
def indented (text : String) : String :=
  String.ofList (text.toList.flatMap fun c => if c = '\n' then "\n    ".toList else [c])

/-- The line of the log that tells of an event. -/
def line (event : Event) : String :=
  "[" ++ Text.padRight 5 event.level.name ++ " " ++ event.origin ++ "] "
    ++ indented event.text ++ "\n"

end Event

/-- The events of a run that a threshold let through. -/
structure Journal where
  /-- The threshold. -/
  threshold : Level
  /-- The events that were let through, the earliest first. -/
  entries : Array Event := #[]

namespace Journal

/-- Keeps an event if the threshold admits it. -/
def note (event : Event) (journal : Journal) : Journal :=
  if journal.threshold.admits event.level then
    { journal with entries := journal.entries.push event }
  else journal

/-- The lines of a journal. -/
def text (journal : Journal) : String :=
  journal.entries.foldl (fun lines event => lines ++ event.line) ""

end Journal

end Log

end CellMachine
