import CellMachine.Proofs.Addresses
import CellMachine.Proofs.Contents
import CellMachine.Proofs.Dispatch

/-!
# The list machine

A machine whose stacks are lists, the topmost cell first. It has no stack pointers and no cells
outside its stacks: an instruction takes its operands off the lists and puts its results on them,
and it fails when a list is too short for its operands or has no room for its results. The data
stack has room for 32 cells and the return stack for 128, their floors included.

`Rejects` says for every fault when an instruction stops with it.
-/

namespace CellMachine

/-- A machine with lists for stacks. -/
structure ListMachine where
  /-- Code and data. -/
  memory : Memory
  /-- The operands, the topmost first. -/
  data : List Cell
  /-- The return addresses, the topmost first. -/
  returns : List Cell
  /-- The address of the next instruction. -/
  ip : Cell
  /-- The opcodes that the machine accepts. -/
  set : InstructionSet

/-- How many values on top of the data stack an opcode looks at. -/
def Opcode.operands : Opcode → Nat
  | dup | drop | push | jump | call | fetch | zret | output | putc => 1
  | swap | ccall | eq | neq | lt | gt | store | add | sub | mul | divmod | and | or | xor
  | shift => 2
  | nop | lit | pop | ret | stop | input | cjump | getc => 0

namespace ListMachine

/-- Puts a value on the data stack. -/
def push (here value : Cell) (l : ListMachine) : Except Fault ListMachine :=
  if l.data.length < 32 then .ok { l with data := value :: l.data }
  else .error (.stackOverflow .data here)

/-- Puts a value on the return stack. -/
def remember (here value : Cell) (l : ListMachine) : Except Fault ListMachine :=
  if l.returns.length < 128 then .ok { l with returns := value :: l.returns }
  else .error (.stackOverflow .ret here)

/-- Goes on with what a drop has left on the data stack. A drop that leaves nothing ends the
program. -/
def keep (rest : List Cell) (l : ListMachine) : ListMachine :=
  { l with data := rest, ip := if rest.isEmpty then Machine.haltAddress else l.ip }

/-- Goes back to the address on top of the return stack. -/
def goBack (here : Cell) (l : ListMachine) : Except Fault ListMachine :=
  match l.returns with
  | target :: rest => .ok { l with ip := target, returns := rest }
  | [] => .error (.stackUnderflow .ret here)

/-- Executes an instruction that needs no device. The last case is that of an instruction whose
operands are not all there. -/
def execute (here : Cell) (l : ListMachine) (op : Opcode) : Except Fault ListMachine :=
  match op.operator? with
  | some f =>
    match l.data with
    | top :: below :: rest => .ok { l with data := f below top :: rest }
    | _ => .error (.stackUnderflow .data here)
  | none =>
    match op, l.data with
    | .nop, _ => .ok l
    | .lit, _ =>
      match l.memory.get? (l.ip + 1) with
      | some value => { l with ip := l.ip + 1 }.push here value
      | none => .error (.outOfBounds here (l.ip + 1))
    | .dup, top :: _ => l.push here top
    | .drop, data => .ok (l.keep data.tail)
    | .swap, top :: below :: rest => .ok { l with data := below :: top :: rest }
    | .push, top :: rest => (l.remember here top).map (keep rest)
    | .pop, _ =>
      match l.returns with
      | value :: rest => { l with returns := rest }.push here value
      | [] => .error (.stackUnderflow .ret here)
    | .jump, target :: rest => .ok ({ l with ip := target - 1 }.keep rest)
    | .call, data => do
      let l ← l.remember here l.ip
      match data with
      | target :: rest => .ok ({ l with ip := target - 1 }.keep rest)
      | [] => .error (.stackUnderflow .data here)
    | .ccall, data => do
      let l ← l.remember here l.ip
      match data with
      | target :: flag :: rest =>
        .ok (if flag = 0 then l.keep rest else { l with data := rest, ip := target - 1 })
      | _ => .error (.stackUnderflow .data here)
    | .ret, _ => l.goBack here
    | .fetch, target :: rest =>
      match l.memory.get? target with
      | some value => .ok { l with data := value :: rest }
      | none => .error (.outOfBounds here target)
    | .store, target :: value :: rest =>
      match l.memory.set? target value with
      | some memory => .ok ({ l with memory }.keep rest)
      | none => .error (.outOfBounds here target)
    | .divmod, divisor :: dividend :: rest =>
      if divisor = 0 then .error (.divisionByZero here)
      else .ok { l with data := dividend / divisor :: dividend % divisor :: rest }
    | .zret, flag :: rest => if flag = 0 then { l with data := rest }.goBack here else .ok l
    | .stop, _ => .ok { l with ip := Machine.haltAddress }
    | _, _ => .error (.stackUnderflow .data here)

section Devices

variable {δ : Type} [Host δ]

/-- Waits for a character once everything emitted has been handed out. -/
def receive : EStateM IoError δ Cell := do
  Host.flush
  Host.read

/-- Emits the low byte of the top of the data stack. -/
def emit (here : Cell) (l : ListMachine) (host : δ) : Except Fault ListMachine × δ :=
  match l.data with
  | top :: _ =>
    match Host.put top.lowByte host with
    | .ok _ host => (.ok l, host)
    | .error cause host => (.error (.io cause), host)
  | [] => (.error (.stackUnderflow .data here), host)

/-- Executes an instruction with the devices at hand. -/
def perform (here : Cell) (l : ListMachine) (op : Opcode) (host : δ) :
    Except Fault ListMachine × δ :=
  match op with
  | .input | .getc =>
    match receive host with
    | .ok value host => (l.push here value, host)
    | .error cause host => (.error (.io cause), host)
  | .output =>
    let (result, host) := l.emit here host
    (result.map fun l => { l with data := l.data.tail }, host)
  | .putc => l.emit here host
  | .cjump => (.ok { l with ip := Machine.haltAddress }, Host.note (.unimplemented here) host)
  | op => (l.execute here op, host)

/-- Takes note of a dispatch. -/
def announce (l : ListMachine) (op : Opcode) (host : δ) : δ :=
  Host.note (.dispatched l.ip op (l.data.length - 1) (l.returns.length - 1)) host

/-- Fetches, decodes and executes one instruction. -/
def step (l : ListMachine) (host : δ) : Except Fault (Status × ListMachine) × δ :=
  if Machine.haltAddress ≤ l.ip then (.ok (.halted, l), host)
  else if l.ip < 0 then (.error (.outOfBounds l.ip l.ip), host)
  else
    let value := (l.memory.get? l.ip).getD 0
    match l.set.decode value with
    | none => (.error (.invalidOpcode l.ip value), host)
    | some op =>
      let (result, host) := l.perform l.ip op (l.announce op host)
      (result.map fun l =>
        (if Machine.haltAddress ≤ l.ip + 1 then .halted else .running, { l with ip := l.ip + 1 }),
        host)

/-- Steps until the machine has halted or stops with a fault. There is no answer if that takes more
than `fuel` steps. -/
def run (l : ListMachine) (host : δ) :
    (fuel : Nat) → Option (Except Fault (Unit × ListMachine) × δ)
  | 0 => none
  | fuel + 1 =>
    match l.step host with
    | (.ok (.running, l), host) => l.run host fuel
    | (.ok (.halted, l), host) => some (.ok ((), l), host)
    | (.error fault, host) => some (.error fault, host)

/-- When an instruction at `here` stops with a fault. -/
def Rejects (here : Cell) (l : ListMachine) (op : Opcode) (host : δ) (fault : Fault) : Prop :=
  -- The data stack is too short for the operands. A call looks for room on the other stack first.
  (fault = .stackUnderflow .data here ∧ l.data.length < op.operands ∧ op ≠ .drop ∧
    (op = .call ∨ op = .ccall → l.returns.length < 128)) ∨
  -- There is no address to go back to, or no value to fetch from the return stack.
  (fault = .stackUnderflow .ret here ∧ l.returns = [] ∧
    (op = .ret ∨ op = .pop ∨ op = .zret ∧ l.data.head? = some 0)) ∨
  -- There is a value to push, and the data stack is full.
  (fault = .stackOverflow .data here ∧ l.data.length = 32 ∧
    (op = .dup ∨ op = .lit ∧ (∃ value, l.memory.get? (l.ip + 1) = some value) ∨
      op = .pop ∧ l.returns ≠ [] ∨
      (op = .input ∨ op = .getc) ∧ ∃ value rest, receive host = .ok value rest)) ∨
  -- There is a value to remember, and the return stack is full.
  (fault = .stackOverflow .ret here ∧ l.returns.length = 128 ∧
    (op = .call ∨ op = .ccall ∨ op = .push ∧ l.data ≠ [])) ∨
  (fault = .divisionByZero here ∧ op = .divmod ∧ 2 ≤ l.data.length ∧ l.data.head? = some 0) ∨
  (∃ target, fault = .outOfBounds here target ∧ l.memory.get? target = none ∧
    (op = .lit ∧ target = l.ip + 1 ∨
      (op = .fetch ∨ op = .store ∧ 2 ≤ l.data.length) ∧ l.data.head? = some target)) ∨
  (∃ cause, fault = .io cause ∧
    ((op = .input ∨ op = .getc) ∧ (∃ rest, receive host = .error cause rest) ∨
      (op = .output ∨ op = .putc) ∧
        ∃ top rest, l.data.head? = some top ∧ Host.put top.lowByte host = .error cause rest))

variable {l : ListMachine} {host : δ} {here value : Cell} {op : Opcode} {fault : Fault}

/-! ## The cases of a step -/

theorem step_of_halted (hip : Machine.haltAddress ≤ l.ip) :
    l.step host = (.ok (.halted, l), host) := by
  rw [step, if_pos hip]

theorem step_of_lt (hip : l.ip < 0) : l.step host = (.error (.outOfBounds l.ip l.ip), host) := by
  have hrunning : ¬Machine.haltAddress ≤ l.ip := fun hhalted =>
    absurd (Int32.lt_of_le_of_lt hhalted hip) (by decide)
  rw [step, if_neg hrunning, if_pos hip]

/-- A cell that is there is decoded, and its opcode is performed. -/
theorem step_of_get? (hsome : l.memory.get? l.ip = some value) :
    l.step host = match l.set.decode value with
      | none => (.error (.invalidOpcode l.ip value), host)
      | some op =>
        ((l.perform l.ip op (l.announce op host)).1.map fun l =>
          (if Machine.haltAddress ≤ l.ip + 1 then .halted else .running, { l with ip := l.ip + 1 }),
          (l.perform l.ip op (l.announce op host)).2) := by
  have hinside : ¬(l.ip < 0 ∨ Machine.haltAddress ≤ l.ip) := by
    intro hout
    rw [Memory.get?_eq_none_iff.mpr hout] at hsome
    simp at hsome
  rw [not_or] at hinside
  rw [step, if_neg hinside.2, if_neg hinside.1, hsome]
  rfl

/-! ## When an instruction stops -/

theorem error_eq_error_iff {α : Type} {other : Fault} :
    (Except.error other : Except Fault α) = .error fault ↔ fault = other := by
  rw [Except.error.injEq, eq_comm]

theorem map_eq_error_iff {α β : Type} {f : α → β} {x : Except Fault α} :
    x.map f = .error fault ↔ x = .error fault := by
  cases x <;> simp [Except.map]

/-- A push fails only on a full stack. -/
theorem push_eq_error_iff (hdata : l.data.length ≤ 32) :
    l.push here value = .error fault ↔
      fault = .stackOverflow .data here ∧ l.data.length = 32 := by
  unfold push
  split <;> grind

/-- An address fails to be remembered only on a full stack. -/
theorem remember_eq_error_iff (hreturns : l.returns.length ≤ 128) :
    l.remember here value = .error fault ↔
      fault = .stackOverflow .ret here ∧ l.returns.length = 128 := by
  unfold remember
  split <;> grind

section Shapes

-- What decides is the shape of the lists, up to the operands of the instruction. Once it is known,
-- both sides are computed.
attribute [local simp] perform execute Opcode.operator? Opcode.operands Rejects error_eq_error_iff

/-- An operation on two values stops only when one of them is missing. -/
theorem perform_operator_eq_error_iff (hop : op.operator? ≠ none) :
    (l.perform here op host).1 = .error fault ↔ l.Rejects here op host fault := by
  rcases hdata : l.data with _ | ⟨top, _ | ⟨below, rest⟩⟩ <;>
    cases op <;> simp only [Opcode.operator?, ne_eq, not_true_eq_false] at hop <;>
      simp [-Except.error.injEq, hdata]

/-- A call finds no room for its address, or else lacks its operands. -/
theorem perform_call_eq_error_iff (hreturns : l.returns.length ≤ 128)
    (hop : op = .call ∨ op = .ccall) :
    (l.perform here op host).1 = .error fault ↔ l.Rejects here op host fault := by
  rcases Nat.lt_or_eq_of_le hreturns with hroom | hfull
  · have hok : l.remember here l.ip = .ok { l with returns := l.ip :: l.returns } := if_pos hroom
    have hne : l.returns.length ≠ 128 := Nat.ne_of_lt hroom
    rcases hop with rfl | rfl <;> rcases hdata : l.data with _ | ⟨target, _ | ⟨flag, rest⟩⟩ <;>
      simp [-Except.error.injEq, hdata, hok, hroom, hne, Bind.bind, Except.bind]
  · have herror : l.remember here l.ip = .error (.stackOverflow .ret here) :=
      (remember_eq_error_iff hreturns).mpr ⟨rfl, hfull⟩
    rcases hop with rfl | rfl <;>
      simp [-Except.error.injEq, herror, hfull, Bind.bind, Except.bind]

/-- An instruction with its device at hand stops on a failure of the device, or on what any other
instruction stops on. -/
theorem perform_device_eq_error_iff (hdata : l.data.length ≤ 32)
    (hop : op = .input ∨ op = .getc ∨ op = .output ∨ op = .putc) :
    (l.perform here op host).1 = .error fault ↔ l.Rejects here op host fault := by
  rcases hop with rfl | rfl | rfl | rfl
  · cases hreceive : receive host <;>
      simp [-Except.error.injEq, hreceive, push_eq_error_iff hdata]
  · cases hreceive : receive host <;>
      simp [-Except.error.injEq, hreceive, push_eq_error_iff hdata]
  · rcases hshape : l.data with _ | ⟨top, rest⟩
    · simp [-Except.error.injEq, emit, hshape, map_eq_error_iff]
    · cases hput : Host.put top.lowByte host <;>
        simp [-Except.error.injEq, emit, hshape, map_eq_error_iff, hput]
  · rcases hshape : l.data with _ | ⟨top, rest⟩
    · simp [-Except.error.injEq, emit, hshape]
    · cases hput : Host.put top.lowByte host <;>
        simp [-Except.error.injEq, emit, hshape, hput]

/-- An instruction stops with the faults that `Rejects` lists, and with no others. -/
theorem perform_eq_error_iff (hdata : l.data.length ≤ 32) (hreturns : l.returns.length ≤ 128) :
    (l.perform here op host).1 = .error fault ↔ l.Rejects here op host fault := by
  cases op with
  | nop | drop | stop | cjump => simp
  | lit =>
    cases hget : l.memory.get? (l.ip + 1) <;>
      simp [-Except.error.injEq, hget, push_eq_error_iff, hdata]
  | dup | swap | push | jump =>
    rcases hshape : l.data with _ | ⟨top, _ | ⟨below, rest⟩⟩ <;>
      simp [-Except.error.injEq, hshape, push_eq_error_iff hdata, remember_eq_error_iff hreturns,
        map_eq_error_iff]
  | pop | ret =>
    rcases hshape : l.returns with _ | ⟨value, rest⟩ <;>
      simp [-Except.error.injEq, goBack, hshape, push_eq_error_iff, hdata]
  | call => exact perform_call_eq_error_iff hreturns (.inl rfl)
  | ccall => exact perform_call_eq_error_iff hreturns (.inr rfl)
  | fetch =>
    rcases hshape : l.data with _ | ⟨target, rest⟩
    · simp [-Except.error.injEq, hshape]
    · cases hget : l.memory.get? target <;>
        simp [-Except.error.injEq, hshape, hget]
  | store =>
    rcases hshape : l.data with _ | ⟨target, _ | ⟨value, rest⟩⟩
    · simp [-Except.error.injEq, hshape]
    · simp [-Except.error.injEq, hshape]
    · have hlong : ¬rest.length + 1 + 1 < 2 := by omega
      cases hlocate : Memory.locate? target <;>
        simp [-Except.error.injEq, Memory.set?, Memory.get?, hshape, hlong, hlocate]
  | divmod =>
    rcases hshape : l.data with _ | ⟨divisor, _ | ⟨dividend, rest⟩⟩
    · simp [-Except.error.injEq, hshape]
    · simp [-Except.error.injEq, hshape]
    · have hlong : ¬rest.length + 1 + 1 < 2 := by omega
      by_cases hzero : divisor = 0 <;>
        simp [-Except.error.injEq, hshape, hlong, hzero]
  | zret =>
    rcases hshape : l.data with _ | ⟨flag, rest⟩
    · simp [-Except.error.injEq, hshape]
    · by_cases hzero : flag = 0 <;> cases hreturn : l.returns <;>
        simp [-Except.error.injEq, goBack, hshape, hzero, hreturn]
  | input => exact perform_device_eq_error_iff hdata (.inl rfl)
  | getc => exact perform_device_eq_error_iff hdata (.inr (.inl rfl))
  | output => exact perform_device_eq_error_iff hdata (.inr (.inr (.inl rfl)))
  | putc => exact perform_device_eq_error_iff hdata (.inr (.inr (.inr rfl)))
  | _ => exact perform_operator_eq_error_iff (by simp)

end Shapes

end Devices

end ListMachine

end CellMachine
