import CellMachine.Fault
import CellMachine.Machine

/-!
# Actions

An action is what a part of an instruction does to a machine: it gives a value or stops with a
fault, and in both cases it leaves a machine behind. `here` is the address of the instruction, for
its faults.
-/

namespace CellMachine

/-- A part of an instruction. -/
abbrev Action := EStateM Fault Machine

/-- The fault of an instruction that misses a stack. -/
def Stack.Miss.fault (stack : StackKind) (here : Cell) : Stack.Miss → Fault
  | underflow => .stackUnderflow stack here
  | overflow => .stackOverflow stack here

namespace Action

/-- The address of the next instruction. -/
def address : Action Cell := fun m =>
  .ok m.ip m

/-- Makes the machine go on at another address. -/
def continueAt (target : Cell) : Action Unit := fun m =>
  .ok () { m with ip := target }

/-- Moves on to the next address. -/
def advance : Action Unit := fun m =>
  .ok () { m with ip := m.ip + 1 }

/-- Stops the machine. -/
def halt : Action Unit :=
  continueAt Machine.haltAddress

/-- Counts a dispatch of an opcode. -/
def record (op : Opcode) : Action Unit := fun m =>
  .ok () { m with statistics := m.statistics.record op }

/-- Keeps the high-water marks of the stack pointers current. -/
def checkpoint : Action Unit := fun m =>
  .ok () { m with statistics := m.statistics.checkpoint m.data.top m.returns.top }

/-! ## The data stack -/

/-- The value that lies `depth` cells below the top of the data stack. -/
def peek (here : Cell) (depth : Nat) : Action Cell := fun m =>
  match m.data.slot depth with
  | .ok i => .ok m.data.cells[i] m
  | .error miss => .error (miss.fault .data here) m

/-- Replaces the value that lies `depth` cells below the top of the data stack. -/
def poke (here : Cell) (depth : Nat) (value : Cell) : Action Unit := fun m =>
  match m.data.slot depth with
  | .ok i => .ok () { m with data := m.data.set i value }
  | .error miss => .error (miss.fault .data here) m

/-- Moves the data stack pointer up by one cell. -/
def raise : Action Unit := fun m =>
  .ok () { m with data := m.data.raise }

/-- Moves the data stack pointer down by one cell. -/
def lower : Action Unit := fun m =>
  .ok () { m with data := m.data.lower }

/-- Puts a value on top of the data stack. When there is no cell for it, the pointer has moved up
all the same. -/
def push (here value : Cell) : Action Unit := do
  raise
  poke here 0 value

/-- The position of the data stack pointer. -/
def pointer : Action Int := fun m =>
  .ok m.data.top m

/-- Clears the top of the data stack and moves the pointer down. A program ends itself by taking
the pointer below the floor, and below the floor there is nothing to clear. -/
def drop (here : Cell) : Action Unit := do
  let top ← pointer
  if top < 0 then
    halt
  else
    poke here 0 0
    lower
    if top = 0 then
      halt

/-- Takes the top value off the data stack. -/
def pop (here : Cell) : Action Cell := do
  let value ← peek here 0
  drop here
  return value

/-! ## The return stack -/

/-- The value on top of the return stack. -/
def peekReturn (here : Cell) : Action Cell := fun m =>
  match m.returns.slot 0 with
  | .ok i => .ok m.returns.cells[i] m
  | .error miss => .error (miss.fault .ret here) m

/-- Replaces the top of the return stack. -/
def pokeReturn (here value : Cell) : Action Unit := fun m =>
  match m.returns.slot 0 with
  | .ok i => .ok () { m with returns := m.returns.set i value }
  | .error miss => .error (miss.fault .ret here) m

/-- Moves the return stack pointer up by one cell. -/
def raiseReturn : Action Unit := fun m =>
  .ok () { m with returns := m.returns.raise }

/-- Puts a value on top of the return stack. When there is no cell for it, the pointer has moved
up all the same. -/
def pushReturn (here value : Cell) : Action Unit := do
  raiseReturn
  pokeReturn here value

/-- Moves the return stack pointer down by one cell. -/
def lowerReturn : Action Unit := fun m =>
  .ok () { m with returns := m.returns.lower }

/-! ## Memory -/

/-- The value of the cell of memory at an address. -/
def load (here target : Cell) : Action Cell := fun m =>
  match m.memory.get? target with
  | some value => .ok value m
  | none => .error (.outOfBounds here target) m

/-- Replaces the value of the cell of memory at an address. -/
def save (here target value : Cell) : Action Unit := fun m =>
  match Memory.locate? target with
  | some i => .ok () { m with memory := m.memory.set i value }
  | none => .error (.outOfBounds here target) m

end Action

end CellMachine
