import CellMachine.Cell

/-!
# Faults

Everything that can keep an image from loading or stop a run early, with its wording. A fault of
an instruction carries the address of that instruction.
-/

namespace CellMachine

/-- Why an operation on a file or a device failed. -/
inductive IoError where
  /-- Nothing exists at the path. -/
  | notFound
  /-- A component of the path that should be a directory is something else. -/
  | notDirectory
  /-- A path, or a component of it, is longer than a file system allows. -/
  | nameTooLong
  /-- The thing to be read is a directory. -/
  | isDirectory
  /-- The device takes no more bytes. -/
  | noSpace
  /-- There is no terminal. -/
  | noDevice
  /-- The terminal went away. -/
  | hungUp
  /-- The path contains the character NUL. -/
  | nulInPath
  /-- A device reported a failure in its own words. -/
  | reported (text : String)
  deriving DecidableEq, Repr

/-- The wording of a failure. -/
def IoError.message : IoError → String
  | notFound => "No such file or directory (os error 2)"
  | notDirectory => "Not a directory (os error 20)"
  | nameTooLong => "File name too long (os error 36)"
  | isDirectory => "Is a directory (os error 21)"
  | noSpace => "No space left on device (os error 28)"
  | noDevice => "No such device or address (os error 6)"
  | hungUp => "Input/output error (os error 5)"
  | nulInPath => "file name contained an unexpected NUL byte"
  | reported text => text

/-- One of the two stacks of the machine. -/
inductive StackKind where
  | data
  | ret
  deriving DecidableEq, Repr

/-- The name of a stack in messages. -/
def StackKind.name : StackKind → String
  | data => "data"
  | ret => "return"

/-- What stops a run, or a load, early. -/
inductive Fault where
  /-- The image at a path cannot be read. -/
  | load (path : String) (cause : IoError)
  /-- The cell at an address stands for no opcode of the instruction set. -/
  | invalidOpcode (address opcode : Cell)
  /-- An instruction reaches past the end of a stack. -/
  | stackOverflow (stack : StackKind) (address : Cell)
  /-- An instruction reaches below the floor of a stack. -/
  | stackUnderflow (stack : StackKind) (address : Cell)
  /-- An instruction divides by zero. -/
  | divisionByZero (address : Cell)
  /-- An instruction refers to a cell outside memory. -/
  | outOfBounds (address target : Cell)
  /-- A device failed. -/
  | io (cause : IoError)
  deriving DecidableEq, Repr

namespace Fault

/-- The wording of a fault. -/
def message : Fault → String
  | load path cause => "unable to load image " ++ path ++ ": " ++ cause.message
  | invalidOpcode address opcode =>
    "invalid instruction at " ++ address.text ++ ", opcode " ++ opcode.text
  | stackOverflow stack address => stack.name ++ " stack overflow at " ++ address.text
  | stackUnderflow stack address => stack.name ++ " stack underflow at " ++ address.text
  | divisionByZero address => "division by zero at " ++ address.text
  | outOfBounds address target =>
    "memory access out of bounds at " ++ address.text ++ ": address " ++ target.text
  | io cause => cause.message

/-- The failure underneath a fault. A failed device is a fault of its own and has none. -/
def cause? : Fault → Option IoError
  | load _ cause => some cause
  | _ => none

end Fault

end CellMachine
