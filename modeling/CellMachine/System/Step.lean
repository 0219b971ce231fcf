import CellMachine.Machine.Instruction
import CellMachine.System

/-!
# Steps

One step of a system fetches, decodes and executes one instruction. A machine that has halted does
not step any further, and a machine that faults has been left where the fault happened.
-/

namespace CellMachine

/-- Whether a machine has more to do. -/
inductive Status where
  | running
  | halted
  deriving DecidableEq, Repr

namespace Session

variable {δ : Type} [Host δ]

/-- Reads a character. Whatever the program wrote as a prompt is handed out first. -/
def read : Session δ Cell := do
  onHost Host.flush
  onHost Host.read

/-- Emits the low byte of the top of the data stack. -/
def emit (here : Cell) : Session δ Unit := do
  let value ← Action.peek here 0
  onHost (Host.put value.lowByte)

/-- Executes an instruction. -/
def execute (here : Cell) : Opcode → Session δ Unit
  | .nop => return
  | .lit => Action.literal here
  | .dup => Action.duplicate here
  | .drop => Action.drop here
  | .swap => Action.exchange here
  | .push => Action.toReturns here
  | .pop => Action.fromReturns here
  | .jump => Action.jump here
  | .call => Action.call here
  | .ccall => Action.conditionalCall here
  | .ret => Action.goBack here
  | .eq => Action.compare here (· == ·)
  | .neq => Action.compare here (· != ·)
  | .lt => Action.compare here (· < ·)
  | .gt => Action.compare here (· > ·)
  | .fetch => Action.fetch here
  | .store => Action.store here
  | .add => Action.combine here (· + ·)
  | .sub => Action.combine here (· - ·)
  | .mul => Action.combine here (· * ·)
  | .divmod => Action.divide here
  | .and => Action.combine here (· &&& ·)
  | .or => Action.combine here (· ||| ·)
  | .xor => Action.combine here (· ^^^ ·)
  | .shift => Action.combine here Cell.shift
  | .zret => Action.goBackOnZero here
  | .stop => Action.halt
  | .input | .getc => do
    let value ← read
    Action.push here value
  | .output => do
    emit here
    Action.lower
  | .cjump => do
    note (.unimplemented here)
    Action.halt
  | .putc => emit here

/-- Whether the machine has more to do. -/
def status : Session δ Status := fun s =>
  .ok (if s.machine.hasHalted then .halted else .running) s

/-- Takes note of the instruction that is about to be executed. -/
def announce (here : Cell) (op : Opcode) : Session δ Unit := fun s =>
  note (.dispatched here op s.machine.sp s.machine.rp) s

/-- Executes an instruction that has been decoded, counts it, and moves on. The statistics know of
the instruction even if it stops with a fault; the high-water marks do not. -/
def dispatch (here : Cell) (op : Opcode) : Session δ Status := do
  announce here op
  Action.record op
  execute here op
  Action.advance
  Action.checkpoint
  status

/-- Fetches, decodes and executes one instruction. A machine that has halted stays as it is. -/
def step : Session δ Status := fun s =>
  let here := s.machine.ip
  if s.machine.hasHalted then .ok .halted s
  else
    match s.machine.memory.get? here with
    | none => .error (.outOfBounds here here) s
    | some value =>
      match s.machine.set.decode value with
      | none => .error (.invalidOpcode here value) s
      | some op => dispatch here op s

end Session

end CellMachine
