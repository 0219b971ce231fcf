import CellMachine.Memory
import CellMachine.Stack
import CellMachine.Statistics

/-!
# The machine

The state of a machine is its memory, a data stack of 32 cells, a return stack of 128 cells, the
address of the next instruction, its statistics, and the instruction set that it accepts.
-/

namespace CellMachine

/-- The stack of operands. -/
abbrev DataStack := Stack 32

/-- The stack of return addresses. -/
abbrev ReturnStack := Stack 128

/-- The state of a machine. A field that is left out is that of a machine that has done nothing and
has nothing in memory. -/
structure Machine where
  /-- Code and data. -/
  memory : Memory := .blank
  /-- The stack of operands. -/
  data : DataStack := {}
  /-- The stack of return addresses. -/
  returns : ReturnStack := {}
  /-- The address of the next instruction. -/
  ip : Cell := 0
  /-- The counters. -/
  statistics : Statistics := {}
  /-- The opcodes that the machine accepts. -/
  set : InstructionSet

namespace Machine

/-- The first address past the end of memory. A machine whose next instruction would lie there, or
after it, has halted. -/
def haltAddress : Cell := Int32.ofNat Memory.size

/-- The position of the data stack pointer. -/
def sp (m : Machine) : Int := m.data.top

/-- The position of the return stack pointer. -/
def rp (m : Machine) : Int := m.returns.top

/-- Whether the machine has halted. -/
def hasHalted (m : Machine) : Bool := haltAddress ≤ m.ip

end Machine

end CellMachine
