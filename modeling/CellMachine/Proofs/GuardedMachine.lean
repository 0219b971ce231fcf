import CellMachine.Proofs.History

/-!
# The guarded machine

The same operations as those of the machine, on stack pointers that have to stay in the range of a
cell and on arrays that are read and written at an index. Every time a pointer moves or a depth is
taken off it, and every time that an array is indexed or cut, a guard asks whether this can be done.
A guard that fails is a trap: the operation ends there and then, and there is no result.
-/

namespace CellMachine

/-- Why a guard fails. -/
inductive Trap where
  /-- A stack pointer would leave the range of a cell. -/
  | pointer
  /-- An index lies outside an array, or a range does. -/
  | index
  /-- A divisor is zero. -/
  | divisor
  deriving DecidableEq, Repr

/-- What has a result unless a guard fails. -/
def Guarded (σ α : Type) := σ → Except Trap (EStateM.Result Fault σ α)

namespace Guarded

variable {σ α β : Type}

/-- Goes on with what comes after a result that gives a value. -/
def andThen (x : Guarded σ α) (f : α → Guarded σ β) : Guarded σ β := fun s =>
  match x s with
  | .ok (.ok a s) => f a s
  | .ok (.error fault s) => .ok (.error fault s)
  | .error trap => .error trap

instance : Monad (Guarded σ) where
  pure a := fun s => .ok (.ok a s)
  bind := andThen

/-- Does what needs no guard. -/
def unguarded (x : EStateM Fault σ α) : Guarded σ α := fun s =>
  .ok (x s)

/-- Does something only if a guard holds. -/
def guarded (holds : σ → Bool) (trap : Trap) (x : EStateM Fault σ α) : Guarded σ α := fun s =>
  if holds s then .ok (x s) else .error trap

/-- The guard of a stack pointer: a position that a cell can hold. -/
def inRange (position : Int) : Bool :=
  -2147483648 ≤ position ∧ position ≤ 2147483647

/-- The part of an array from one index to another, which have to be in order and in the array. -/
def cut (cells : List Cell) (first last : Nat) : Except Trap (List Cell) :=
  if first ≤ last ∧ last ≤ cells.length then .ok ((cells.take last).drop first) else .error .index

/-! ## The data stack -/

/-- The index of the cell that lies `depth` cells below the top of a stack. -/
def index {n : Nat} (s : Stack n) (depth : Nat) : Except Trap (Except Stack.Miss Nat) :=
  if inRange (s.top - depth) then
    .ok (if s.top - depth < 0 then .error .underflow
      else if n ≤ (s.top - depth).toNat then .error .overflow
      else .ok (s.top - depth).toNat)
  else .error .pointer

/-- The value at a depth of a stack. -/
def valueAt {n : Nat} (s : Stack n) (depth : Nat) : Except Trap (Except Stack.Miss Cell) :=
  match index s depth with
  | .ok (.ok i) =>
    match s.cells[i]? with
    | some value => .ok (.ok value)
    | none => .error .index
  | .ok (.error miss) => .ok (.error miss)
  | .error trap => .error trap

/-- A stack after the value at a depth was replaced. -/
def replaceAt {n : Nat} (s : Stack n) (depth : Nat) (value : Cell) :
    Except Trap (Except Stack.Miss (Stack n)) :=
  match index s depth with
  | .ok (.ok i) => if h : i < n then .ok (.ok (s.set ⟨i, h⟩ value)) else .error .index
  | .ok (.error miss) => .ok (.error miss)
  | .error trap => .error trap

/-- The value at a depth of the data stack. -/
def peek (here : Cell) (depth : Nat) : Guarded Machine Cell := fun m =>
  (valueAt m.data depth).map fun
    | .ok value => .ok value m
    | .error miss => .error (miss.fault .data here) m

/-- Replaces the value at a depth of the data stack. -/
def poke (here : Cell) (depth : Nat) (value : Cell) : Guarded Machine Unit := fun m =>
  (replaceAt m.data depth value).map fun
    | .ok data => .ok () { m with data }
    | .error miss => .error (miss.fault .data here) m

/-- Moves the data stack pointer up. -/
def raise : Guarded Machine Unit :=
  guarded (fun m => inRange (m.data.top + 1)) .pointer Action.raise

/-- Moves the data stack pointer down. -/
def lower : Guarded Machine Unit :=
  guarded (fun m => inRange (m.data.top - 1)) .pointer Action.lower

def push (here value : Cell) : Guarded Machine Unit := do
  raise
  poke here 0 value

def drop (here : Cell) : Guarded Machine Unit := do
  let top ← unguarded Action.pointer
  if top < 0 then
    unguarded Action.halt
  else
    poke here 0 0
    lower
    if top = 0 then
      unguarded Action.halt

def pop (here : Cell) : Guarded Machine Cell := do
  let value ← peek here 0
  drop here
  return value

/-! ## The return stack -/

/-- The value on top of the return stack. -/
def peekReturn (here : Cell) : Guarded Machine Cell := fun m =>
  (valueAt m.returns 0).map fun
    | .ok value => .ok value m
    | .error miss => .error (miss.fault .ret here) m

/-- Replaces the top of the return stack. -/
def pokeReturn (here value : Cell) : Guarded Machine Unit := fun m =>
  (replaceAt m.returns 0 value).map fun
    | .ok returns => .ok () { m with returns }
    | .error miss => .error (miss.fault .ret here) m

/-- Moves the return stack pointer up. -/
def raiseReturn : Guarded Machine Unit :=
  guarded (fun m => inRange (m.returns.top + 1)) .pointer Action.raiseReturn

/-- Moves the return stack pointer down. -/
def lowerReturn : Guarded Machine Unit :=
  guarded (fun m => inRange (m.returns.top - 1)) .pointer Action.lowerReturn

def pushReturn (here value : Cell) : Guarded Machine Unit := do
  raiseReturn
  pokeReturn here value

/-! ## Memory -/

/-- The largest number that can be the length of an array. A longer range is cut off there. -/
def largestLength : Nat := 18446744073709551615

/-- The cells of a run that lie in memory, cut out of it between two ends that are in memory. -/
def window (memory : Memory) (start length : Nat) : Except Trap (List Cell) :=
  cut memory.cells.toList (min start Memory.size)
    (min (min (start + length) largestLength) Memory.size)

/-- The cell at an address, if there is one. -/
def cellAt (memory : Memory) (address : Cell) : Except Trap (Option Cell) :=
  if address < 0 then .ok none
  else (window memory address.toNatClampNeg 1).map List.head?

/-- Memory with one of its cells replaced, if the cell is there. -/
def replaceCell (memory : Memory) (address value : Cell) : Except Trap (Option Memory) :=
  match cellAt memory address with
  | .ok (some _) =>
    if h : address.toNatClampNeg < Memory.size then
      .ok (some (memory.set ⟨address.toNatClampNeg, h⟩ value))
    else .error .index
  | .ok none => .ok none
  | .error trap => .error trap

/-- Writes as many of the cells as the run in memory has room for. -/
def transfer (memory : Memory) (cells : List Cell) : Except Trap Memory.Transfer := do
  let room ← window memory 0 cells.length
  let stored ← cut cells 0 room.length
  if room.length ≤ cells.length then
    return {
      memory := memory.write 0 stored, stored := stored.length
      discarded := cells.length - room.length }
  else throw .index

def load (here target : Cell) : Guarded Machine Cell := fun m =>
  (cellAt m.memory target).map fun
    | some value => .ok value m
    | none => .error (.outOfBounds here target) m

def save (here target value : Cell) : Guarded Machine Unit := fun m =>
  (replaceCell m.memory target value).map fun
    | some memory => .ok () { m with memory }
    | none => .error (.outOfBounds here target) m

/-! ## Instructions -/

def literal (here : Cell) : Guarded Machine Unit := do
  unguarded Action.advance
  let target ← unguarded Action.address
  let value ← load here target
  push here value

def duplicate (here : Cell) : Guarded Machine Unit := do
  let value ← peek here 0
  push here value

def exchange (here : Cell) : Guarded Machine Unit := do
  let top ← peek here 0
  let below ← peek here 1
  poke here 0 below
  poke here 1 top

def toReturns (here : Cell) : Guarded Machine Unit := do
  let value ← peek here 0
  pushReturn here value
  drop here

def fromReturns (here : Cell) : Guarded Machine Unit := do
  let value ← peekReturn here
  push here value
  lowerReturn

def jump (here : Cell) : Guarded Machine Unit := do
  let target ← peek here 0
  unguarded (Action.continueAt (target - 1))
  drop here

def call (here : Cell) : Guarded Machine Unit := do
  let origin ← unguarded Action.address
  pushReturn here origin
  let target ← peek here 0
  unguarded (Action.continueAt (target - 1))
  drop here

def conditionalCall (here : Cell) : Guarded Machine Unit := do
  let origin ← unguarded Action.address
  pushReturn here origin
  let target ← pop here
  let flag ← pop here
  if flag ≠ 0 then
    unguarded (Action.continueAt (target - 1))

def goBack (here : Cell) : Guarded Machine Unit := do
  let target ← peekReturn here
  unguarded (Action.continueAt target)
  lowerReturn

def goBackOnZero (here : Cell) : Guarded Machine Unit := do
  let flag ← peek here 0
  if flag = 0 then
    drop here
    goBack here

def combine (here : Cell) (op : Cell → Cell → Cell) : Guarded Machine Unit := do
  let below ← peek here 1
  let top ← peek here 0
  poke here 1 (op below top)
  drop here

/-- The guard of a division. -/
def divisible (divisor : Cell) : Guarded Machine Unit :=
  guarded (fun _ => divisor != 0) .divisor (pure ())

def divide (here : Cell) : Guarded Machine Unit := do
  let divisor ← peek here 0
  let dividend ← peek here 1
  if divisor = 0 then
    unguarded (throw (.divisionByZero here))
  else
    divisible divisor
    poke here 0 (dividend / divisor)
    divisible divisor
    poke here 1 (dividend % divisor)

def fetch (here : Cell) : Guarded Machine Unit := do
  let target ← peek here 0
  let value ← load here target
  poke here 0 value

def store (here : Cell) : Guarded Machine Unit := do
  let target ← peek here 0
  let value ← peek here 1
  save here target value
  drop here
  drop here

/-! ## Steps and runs -/

section Systems

variable {δ : Type}

/-- Does what concerns the machine alone. -/
def onMachine (x : Guarded Machine α) : Guarded (System δ) α := fun s =>
  (x s.machine).map fun
    | .ok a machine => .ok a { s with machine }
    | .error fault machine => .error fault { s with machine }

variable [Host δ]

def emit (here : Cell) : Guarded (System δ) Unit := do
  let value ← onMachine (peek here 0)
  unguarded (Session.onHost (Host.put value.lowByte))

def execute (here : Cell) (op : Opcode) : Guarded (System δ) Unit :=
  match op.operator? with
  | some f => onMachine (combine here f)
  | none =>
    match op with
    | .lit => onMachine (literal here)
    | .dup => onMachine (duplicate here)
    | .drop => onMachine (drop here)
    | .swap => onMachine (exchange here)
    | .push => onMachine (toReturns here)
    | .pop => onMachine (fromReturns here)
    | .jump => onMachine (jump here)
    | .call => onMachine (call here)
    | .ccall => onMachine (conditionalCall here)
    | .ret => onMachine (goBack here)
    | .fetch => onMachine (fetch here)
    | .store => onMachine (store here)
    | .divmod => onMachine (divide here)
    | .zret => onMachine (goBackOnZero here)
    | .input | .getc => do
      let value ← unguarded Session.read
      onMachine (push here value)
    | .output => do
      emit here
      onMachine lower
    | .putc => emit here
    -- What is left has no use for a stack.
    | op => unguarded (Session.execute here op)

def dispatch (here : Cell) (op : Opcode) : Guarded (System δ) Status := do
  unguarded (Session.announce here op)
  unguarded (liftM (Action.record op))
  execute here op
  unguarded (liftM Action.advance)
  unguarded (liftM Action.checkpoint)
  unguarded Session.status

def step : Guarded (System δ) Status := fun s =>
  if s.machine.hasHalted then .ok (.ok .halted s)
  else
    match cellAt s.machine.memory s.machine.ip with
    | .error trap => .error trap
    | .ok none => .ok (.error (.outOfBounds s.machine.ip s.machine.ip) s)
    | .ok (some value) =>
      match s.machine.set.decode value with
      | none => .ok (.error (.invalidOpcode s.machine.ip value) s)
      | some op => dispatch s.machine.ip op s

/-- Steps until the machine has halted, stops with a fault, or a guard fails. -/
def runToHalt :
    (fuel : Nat) → System δ → Except Trap (Option (EStateM.Result Fault (System δ) Unit))
  | 0, _ => .ok none
  | fuel + 1, s =>
    match step s with
    | .error trap => .error trap
    | .ok (.ok .running s) => runToHalt fuel s
    | .ok (.ok .halted s) => .ok (some (.ok () s))
    | .ok (.error fault s) => .ok (some (.error fault s))

/-! ## Operations -/

/-- What has been pushed, cut out of the data stack between the floor and the pointer. -/
def entries (s : DataStack) : Except Trap (List Cell) :=
  if 0 < s.top then cut s.cells.toList 1 (min s.top.toNat 31 + 1) else .ok []

/-- The last `limit` entries, each with its position. -/
def trailing (s : DataStack) (limit : Nat) : Except Trap (List (Nat × Cell)) := do
  let numbered := (← entries s).zipIdx 1
  return (numbered.drop (numbered.length - limit)).map fun (value, i) => (i, value)

/-- Loads the image that a reader delivers, or cells. -/
def install (cells : List Cell) (finish : Nat → Session δ Answer) : Guarded (System δ) Answer :=
  fun s =>
    (transfer s.machine.memory cells).map fun transfer =>
      (Session.install transfer >>= finish) s

/-- Performs an operation. -/
def perform (op : Operation) (s : System δ) :
    Except Trap (Option (EStateM.Result Fault (System δ) Answer)) :=
  match op with
  | .loadCells cells => (install cells (fun stored => pure (.stored stored)) s).map some
  | .loadProgram deliveries =>
    match Delivery.collect deliveries with
    | .ok image => (install (Image.decode image) (fun stored => pure (.stored stored)) s).map some
    | .error cause => .ok (some (.error (.io cause) s))
  | .loadImage path found =>
    match found with
    | .ok image =>
      (install (Image.decode image) (fun stored => do
        Session.note (.loaded stored path)
        return .stored stored) s).map some
    | .error cause => .ok (some (.error (.load path cause) s))
  | .step => ((Answer.status <$> step) s).map some
  | .run fuel => (runToHalt fuel s).map fun result => (result.map Session.settle).map fun
    | .ok _ s => .ok .ended s
    | .error fault s => .error fault s
  | .stack => (entries s.machine.data).map fun cells => some (.ok (.cells cells) s)
  | .stackTail limit =>
    (trailing s.machine.data limit).map fun entries => some (.ok (.numbered entries) s)
  | .cell address =>
    (cellAt s.machine.memory address).map fun value => some (.ok (.cell value) s)
  | .slice start length =>
    (window s.machine.memory start length).map fun cells => some (.ok (.cells cells) s)

end Systems

end Guarded

end CellMachine
