import CellMachine.Proofs.Addresses
import CellMachine.Proofs.Instructions

/-!
# Rules of a step

A step counts the instruction that it finds, executes it, and moves on. The rules here reduce what
holds after a step to what holds after the instruction, on a machine that has already counted it.
-/

namespace CellMachine

/-- The operation on two values that an opcode stands for, if it replaces them by one result. -/
def Opcode.operator? : Opcode → Option (Cell → Cell → Cell)
  | eq => some fun below top => Cell.ofFlag (below == top)
  | neq => some fun below top => Cell.ofFlag (below != top)
  | lt => some fun below top => Cell.ofFlag (below < top)
  | gt => some fun below top => Cell.ofFlag (below > top)
  | add => some (· + ·)
  | sub => some (· - ·)
  | mul => some (· * ·)
  | and => some (· &&& ·)
  | or => some (· ||| ·)
  | xor => some (· ^^^ ·)
  | shift => some Cell.shift
  | _ => none

/-- The action that an opcode stands for, if it asks nothing of the host. -/
def Opcode.action? (here : Cell) (op : Opcode) : Option (Action Unit) :=
  match op.operator? with
  | some f => some (Action.combine here f)
  | none =>
    match op with
    | nop => some (pure ())
    | lit => some (Action.literal here)
    | dup => some (Action.duplicate here)
    | drop => some (Action.drop here)
    | swap => some (Action.exchange here)
    | push => some (Action.toReturns here)
    | pop => some (Action.fromReturns here)
    | jump => some (Action.jump here)
    | call => some (Action.call here)
    | ccall => some (Action.conditionalCall here)
    | ret => some (Action.goBack here)
    | fetch => some (Action.fetch here)
    | store => some (Action.store here)
    | divmod => some (Action.divide here)
    | zret => some (Action.goBackOnZero here)
    | stop => some Action.halt
    | _ => none

/-- Only the opcodes of the devices and the one that is not implemented ask something of the
host. -/
theorem Opcode.action?_eq_none {here : Cell} {op : Opcode} (hop : op.action? here = none) :
    op = input ∨ op = getc ∨ op = output ∨ op = putc ∨ op = cjump := by
  cases op <;> simp [action?, operator?] at hop ⊢

/-- An opcode that asks nothing of the host combines two values, or it is one of those that have an
action of their own. -/
theorem Opcode.action?_cases {here : Cell}
    {motive : (op : Opcode) → (x : Action Unit) → op.action? here = some x → Prop}
    (operator : ∀ op f (_ : op.operator? = some f) h, motive op (Action.combine here f) h)
    (nop : motive .nop (pure ()) rfl)
    (lit : motive .lit (Action.literal here) rfl)
    (dup : motive .dup (Action.duplicate here) rfl)
    (drop : motive .drop (Action.drop here) rfl)
    (swap : motive .swap (Action.exchange here) rfl)
    (push : motive .push (Action.toReturns here) rfl)
    (pop : motive .pop (Action.fromReturns here) rfl)
    (jump : motive .jump (Action.jump here) rfl)
    (call : motive .call (Action.call here) rfl)
    (ccall : motive .ccall (Action.conditionalCall here) rfl)
    (ret : motive .ret (Action.goBack here) rfl)
    (fetch : motive .fetch (Action.fetch here) rfl)
    (store : motive .store (Action.store here) rfl)
    (divmod : motive .divmod (Action.divide here) rfl)
    (zret : motive .zret (Action.goBackOnZero here) rfl)
    (stop : motive .stop Action.halt rfl)
    (op : Opcode) (x : Action Unit) (hop : op.action? here = some x) : motive op x hop := by
  cases hoperator : op.operator? with
  | some f =>
    have hx : x = Action.combine here f := by simpa [action?, hoperator] using hop.symm
    subst hx
    exact operator op f hoperator hop
  | none =>
    cases op <;> first | (cases hop <;> assumption) | simp [operator?] at hoperator

/-- Whether an opcode emits a byte. -/
def Opcode.emits : Opcode → Bool
  | output | putc => true
  | _ => false

/-- Whether an opcode reads a character. -/
def Opcode.reads : Opcode → Bool
  | input | getc => true
  | _ => false

namespace Machine

/-- The opcode at the machine's address, if there is one that it accepts. -/
def next? (m : Machine) : Option Opcode :=
  (m.memory.get? m.ip).bind m.set.decode

/-- The machine after it counted a dispatch. -/
def counted (m : Machine) (op : Opcode) : Machine :=
  { m with statistics := m.statistics.record op }

/-- The machine after it moved on from an instruction that ended well. -/
def advanced (m : Machine) : Machine :=
  { m with
    ip := m.ip + 1, statistics := m.statistics.checkpoint m.data.top m.returns.top }

@[simp] theorem data_counted (m : Machine) (op : Opcode) : (m.counted op).data = m.data :=
  rfl

@[simp] theorem returns_counted (m : Machine) (op : Opcode) : (m.counted op).returns = m.returns :=
  rfl

@[simp] theorem memory_counted (m : Machine) (op : Opcode) : (m.counted op).memory = m.memory :=
  rfl

@[simp] theorem ip_counted (m : Machine) (op : Opcode) : (m.counted op).ip = m.ip :=
  rfl

@[simp] theorem set_counted (m : Machine) (op : Opcode) : (m.counted op).set = m.set :=
  rfl

@[simp] theorem data_advanced (m : Machine) : m.advanced.data = m.data :=
  rfl

@[simp] theorem returns_advanced (m : Machine) : m.advanced.returns = m.returns :=
  rfl

@[simp] theorem memory_advanced (m : Machine) : m.advanced.memory = m.memory :=
  rfl

@[simp] theorem ip_advanced (m : Machine) : m.advanced.ip = m.ip + 1 :=
  rfl

@[simp] theorem set_advanced (m : Machine) : m.advanced.set = m.set :=
  rfl

/-- A machine that has halted is past the end of memory. -/
theorem hasHalted_iff {m : Machine} : m.hasHalted = true ↔ haltAddress ≤ m.ip := by
  simp [hasHalted]

/-- Whether a machine has more to do. -/
def status (m : Machine) : Status :=
  if m.hasHalted then .halted else .running

/-- A machine that has halted finds no opcode. -/
theorem next?_of_hasHalted {m : Machine} (h : m.hasHalted = true) : m.next? = none := by
  rw [next?, Memory.get?_eq_none_iff.mpr (.inr (hasHalted_iff.mp h)), Option.bind_none]

theorem status_eq (m : Machine) :
    m.status = if haltAddress ≤ m.ip then .halted else .running := by
  simp only [status, hasHalted_iff]

end Machine

namespace Session

variable {δ : Type} [Host δ] {here : Cell} {op : Opcode} {m : Machine} {host : δ}
  {stopped : Fault → System δ → Prop}

/-- An opcode that stands for an operation on two values combines the two values on top. -/
theorem execute_operator {f : Cell → Cell → Cell} (hop : op.operator? = some f) :
    execute (δ := δ) here op = liftM (Action.combine here f) := by
  cases op <;> simp only [Opcode.operator?, Option.some.injEq, reduceCtorEq] at hop <;>
    subst hop <;> rfl

/-- An opcode that asks nothing of the host does what its action does. -/
theorem execute_action {x : Action Unit} (hop : op.action? here = some x) :
    execute (δ := δ) here op = liftM x := by
  cases op, x, hop using Opcode.action?_cases with
  | operator op f hf => exact execute_operator hf
  | _ => rfl

/-- A character is read only after what was emitted has been handed out. -/
@[simp] theorem yields_read {done : Cell → System δ → Prop} :
    Yields (read ⟨m, host⟩) done stopped ↔
      Yields (Host.flush host)
        (fun _ h => Yields (Host.read h) (fun c h => done c ⟨m, h⟩)
          (fun cause h => stopped (.io cause) ⟨m, h⟩))
        (fun cause h => stopped (.io cause) ⟨m, h⟩) := by
  simp only [read, yields_bind, yields_onHost]

/-- A character that was read is pushed. -/
theorem yields_input {done : Unit → System δ → Prop} (h : m.Grounded) :
    Yields ((do let value ← read; Action.push here value : Session δ Unit) ⟨m, host⟩) done stopped ↔
      Yields (Host.flush host)
        (fun _ rest => Yields (Host.read rest)
          (fun value rest =>
            (m.data.top < 31 → done () ⟨{ m with data := m.data.raise.put 0 value }, rest⟩) ∧
            (31 ≤ m.data.top →
              stopped (.stackOverflow .data here) ⟨{ m with data := m.data.raise }, rest⟩))
          (fun cause rest => stopped (.io cause) ⟨m, rest⟩))
        (fun cause rest => stopped (.io cause) ⟨m, rest⟩) := by
  have hdata := h.data
  have hpush : ∀ value (rest : δ),
      Yields ((liftM (Action.push here value) : Session δ Unit) ⟨m, rest⟩) done stopped ↔
        (m.data.top < 31 → done () ⟨{ m with data := m.data.raise.put 0 value }, rest⟩) ∧
        (31 ≤ m.data.top →
          stopped (.stackOverflow .data here) ⟨{ m with data := m.data.raise }, rest⟩) := by
    intro value rest
    rw [yields_liftM, Action.yields_push]
    grind
  simp only [yields_bind, yields_read, hpush]

/-- The low byte of the top is emitted if there is a top. -/
@[simp] theorem yields_emit {done : Unit → System δ → Prop} :
    Yields (emit here ⟨m, host⟩) done stopped ↔
      (m.data.top < 0 → stopped (.stackUnderflow .data here) ⟨m, host⟩) ∧
      (0 ≤ m.data.top → m.data.top < 32 →
        Yields (Host.put (m.data.look 0).lowByte host) (fun u h => done u ⟨m, h⟩)
          (fun cause h => stopped (.io cause) ⟨m, h⟩)) ∧
      (32 ≤ m.data.top → stopped (.stackOverflow .data here) ⟨m, host⟩) := by
  simp only [emit, yields_bind, yields_liftM, Action.yields_peek, yields_onHost]
  grind

/-- What an instruction does to the machine, whatever the host answers. A device that fails has
left the machine alone; otherwise an input pushes some value, and an output may move the pointer. -/
theorem yields_execute_machine {P Q : Machine → Prop}
    (haction : ∀ x, op.action? here = some x → Yields (x m) (fun _ => P) (fun _ => Q))
    (hfailed : op.reads = true ∨ op.emits = true → Q m)
    (hinput : op.reads = true → ∀ value,
      Yields (Action.push here value m) (fun _ => P) (fun _ => Q))
    (houtput : op = .output → 0 ≤ m.data.top → m.data.top < 32 → P { m with data := m.data.lower })
    (hputc : op = .putc → 0 ≤ m.data.top → m.data.top < 32 → P m)
    (hcjump : op = .cjump → P { m with ip := Machine.haltAddress }) :
    Yields (execute here op ⟨m, host⟩) (fun _ s => P s.machine) (fun _ s => Q s.machine) := by
  have hread : op.reads = true →
      Yields ((do let value ← read; Action.push here value : Session δ Unit) ⟨m, host⟩)
        (fun _ s => P s.machine) (fun _ s => Q s.machine) := by
    intro hreads
    have hstopped := hfailed (.inl hreads)
    simp only [yields_bind, yields_read, yields_liftM]
    refine .of_forall (fun _ _ => ?_) (fun _ _ => hstopped)
    exact .of_forall (fun value _ => hinput hreads value) (fun _ _ => hstopped)
  have hemit : ∀ R : Machine → Prop, op.emits = true →
      (0 ≤ m.data.top → m.data.top < 32 → R m) →
      Yields (emit here ⟨m, host⟩) (fun _ s => R s.machine) (fun _ s => Q s.machine) := by
    intro R hemits hemitted
    have hstopped := hfailed (.inr hemits)
    rw [yields_emit]
    refine ⟨fun _ => hstopped, fun hlow hhigh => ?_, fun _ => hstopped⟩
    exact .of_forall (fun _ _ => hemitted hlow hhigh) (fun _ _ => hstopped)
  cases hop : op.action? here with
  | some x =>
    rw [execute_action hop, yields_liftM]
    exact haction x hop
  | none =>
    rcases Opcode.action?_eq_none hop with rfl | rfl | rfl | rfl | rfl
    · exact hread rfl
    · exact hread rfl
    · rw [execute, yields_bind]
      exact hemit (fun m => P { m with data := m.data.lower }) rfl (houtput rfl)
    · exact hemit P rfl (hputc rfl)
    · exact hcjump rfl

/-- A dispatch executes the instruction on a machine that has counted it. -/
theorem yields_dispatch {done : Status → System δ → Prop} :
    Yields (dispatch here op ⟨m, host⟩) done stopped ↔
      Yields
        (execute here op
          ⟨m.counted op, Host.note (.dispatched here op m.data.top m.returns.top) host⟩)
        (fun _ s => done s.machine.advanced.status ⟨s.machine.advanced, s.host⟩) stopped := by
  have hannounce : Yields (dispatch here op ⟨m, host⟩) done stopped ↔
      Yields ((do
          execute here op
          liftM Action.advance
          liftM Action.checkpoint
          status : Session δ Status)
        ⟨m.counted op, Host.note (.dispatched here op m.data.top m.returns.top) host⟩)
        done stopped :=
    yields_bind.trans yields_bind
  rw [hannounce, yields_bind]
  rfl

/-- A step leaves a machine that has halted as it is. Otherwise it fails to fetch, fails to
decode, or dispatches. -/
theorem yields_step {s : System δ} {done : Status → System δ → Prop} :
    Yields (step s) done stopped ↔
      (s.machine.hasHalted = true → done .halted s) ∧
      (s.machine.hasHalted = false →
        (s.machine.memory.get? s.machine.ip = none →
          stopped (.outOfBounds s.machine.ip s.machine.ip) s) ∧
        (∀ value, s.machine.memory.get? s.machine.ip = some value →
          s.machine.set.decode value = none → stopped (.invalidOpcode s.machine.ip value) s) ∧
        ∀ op, s.machine.next? = some op →
          Yields (dispatch s.machine.ip op s) done stopped) := by
  cases hhalted : s.machine.hasHalted with
  | true => simp [step, Yields, hhalted]
  | false =>
    cases hget : s.machine.memory.get? s.machine.ip with
    | none => simp [step, Yields, Machine.next?, hhalted, hget]
    | some value =>
      cases hdecode : s.machine.set.decode value with
      | none => simp [step, Yields, Machine.next?, hhalted, hget, hdecode]
      | some op => simp [step, Machine.next?, hhalted, hget, hdecode]

/-- A step that finds an opcode dispatches it. -/
theorem step_of_next {s : System δ} (hnext : s.machine.next? = some op) :
    step s = dispatch s.machine.ip op s := by
  obtain ⟨value, hget, hdecode⟩ := Option.bind_eq_some_iff.mp hnext
  have hrunning : ¬s.machine.hasHalted = true := by
    intro hhalted
    rw [Machine.next?_of_hasHalted hhalted] at hnext
    simp at hnext
  simp only [step, if_neg hrunning, hget, hdecode]

/-- A step that finds an opcode executes it. -/
theorem yields_step_of_next {s : System δ} {done : Status → System δ → Prop}
    (hnext : s.machine.next? = some op) :
    Yields (step s) done stopped ↔
      Yields
        (execute s.machine.ip op ⟨s.machine.counted op,
          Host.note (.dispatched s.machine.ip op s.machine.data.top s.machine.returns.top) s.host⟩)
        (fun _ s => done s.machine.advanced.status ⟨s.machine.advanced, s.host⟩) stopped := by
  rw [step_of_next hnext]
  exact yields_dispatch

end Session

end CellMachine
