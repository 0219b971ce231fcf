import CellMachine.Machine.Action

/-!
# Instructions

What each opcode that needs no device does to the machine. `here` is the address of the
instruction, for its faults. The machine moves on to the next address after every instruction, so
that an instruction that transfers control makes the machine go on one address before its target.

The operand on top of the data stack is the second one: a binary operation computes
`below op top`, leaves the result in the place of `below`, and drops `top`.
-/

namespace CellMachine.Action

/-- Pushes the cell that follows the instruction, and skips it. -/
def literal (here : Cell) : Action Unit := do
  advance
  let target ← address
  let value ← load here target
  push here value

/-- Pushes the top of the data stack once more. -/
def duplicate (here : Cell) : Action Unit := do
  let value ← peek here 0
  push here value

/-- Exchanges the two values on top of the data stack. -/
def exchange (here : Cell) : Action Unit := do
  let top ← peek here 0
  let below ← peek here 1
  poke here 0 below
  poke here 1 top

/-- Moves a value from the data stack to the return stack. -/
def toReturns (here : Cell) : Action Unit := do
  let value ← peek here 0
  pushReturn here value
  drop here

/-- Moves a value from the return stack to the data stack. -/
def fromReturns (here : Cell) : Action Unit := do
  let value ← peekReturn here
  push here value
  lowerReturn

/-- Goes to the address on top of the data stack. -/
def jump (here : Cell) : Action Unit := do
  let target ← peek here 0
  continueAt (target - 1)
  drop here

/-- Remembers the present address and goes to the one on top of the data stack. -/
def call (here : Cell) : Action Unit := do
  let origin ← address
  pushReturn here origin
  let target ← peek here 0
  continueAt (target - 1)
  drop here

/-- Goes to the address on top of the data stack if the flag below it is not zero. The present
address is remembered even if the call does not happen. -/
def conditionalCall (here : Cell) : Action Unit := do
  let origin ← address
  pushReturn here origin
  let target ← pop here
  let flag ← pop here
  if flag ≠ 0 then
    continueAt (target - 1)

/-- Goes back to the address on top of the return stack. -/
def goBack (here : Cell) : Action Unit := do
  let target ← peekReturn here
  continueAt target
  lowerReturn

/-- Drops a zero and goes back; does nothing if the top of the data stack is not zero. -/
def goBackOnZero (here : Cell) : Action Unit := do
  let flag ← peek here 0
  if flag = 0 then
    drop here
    goBack here

/-- Replaces the two values on top of the data stack by the result of an operation on them. -/
def combine (here : Cell) (op : Cell → Cell → Cell) : Action Unit := do
  let below ← peek here 1
  let top ← peek here 0
  poke here 1 (op below top)
  drop here

/-- Replaces the two values on top of the data stack by the flag of a relation between them. -/
def compare (here : Cell) (rel : Cell → Cell → Bool) : Action Unit :=
  combine here fun below top => Cell.ofFlag (rel below top)

/-- Replaces the two values on top of the data stack by their remainder and, on top of it, their
quotient. -/
def divide (here : Cell) : Action Unit := do
  let divisor ← peek here 0
  let dividend ← peek here 1
  if divisor = 0 then
    throw (.divisionByZero here)
  else
    poke here 0 (dividend / divisor)
    poke here 1 (dividend % divisor)

/-- Replaces the address on top of the data stack by the cell of memory that is there. -/
def fetch (here : Cell) : Action Unit := do
  let target ← peek here 0
  let value ← load here target
  poke here 0 value

/-- Stores the value below the top of the data stack in memory, at the address on top. -/
def store (here : Cell) : Action Unit := do
  let target ← peek here 0
  let value ← peek here 1
  save here target value
  drop here
  drop here

end CellMachine.Action
