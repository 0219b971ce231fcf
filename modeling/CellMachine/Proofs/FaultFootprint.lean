import CellMachine.Host.Script
import CellMachine.Proofs.Bounds

/-!
# What a fault leaves behind

An instruction that stops has done a part of its work. Most instructions read everything they need
before they write, and leave nothing behind. The others are those that move a stack pointer, or the
address of the next instruction, before they find out that they cannot go on. `residue` lists them,
and it lists all of them: no fault comes after a write to memory.
-/

namespace CellMachine

/-- The address that a fault carries, unless it is the fault of a file or a device. -/
def Fault.address? : Fault → Option Cell
  | invalidOpcode address _ | stackOverflow _ address | stackUnderflow _ address
  | divisionByZero address | outOfBounds address _ => some address
  | load _ _ | io _ => none

namespace Machine

/-- What an opcode that stops with a fault leaves of the machine that it found. -/
def residue (m : Machine) (op : Opcode) (fault : Fault) : Machine :=
  match op, fault with
  -- The literal has been skipped, and there was no cell to push it to.
  | .lit, .stackOverflow _ _ => { m with ip := m.ip + 1, data.top := m.data.top + 1 }
  | .lit, _ => { m with ip := m.ip + 1 }
  -- There was a value to push and no cell for it.
  | .dup, _ => if m.data.top = 31 then { m with data.top := m.data.top + 1 } else m
  | .pop, .stackOverflow .data _ | .input, .stackOverflow .data _ | .getc, .stackOverflow .data _ =>
    { m with data.top := m.data.top + 1 }
  | .push, .stackOverflow .ret _ => { m with returns.top := m.returns.top + 1 }
  -- The address to come back to has been pushed, if there was a cell for it.
  | .call, _ =>
    if m.returns.top + 1 < 128 then m.called else { m with returns.top := m.returns.top + 1 }
  | .ccall, _ =>
    if m.returns.top + 1 < 128 then
      -- The only value was popped as the target, and the drop has halted the machine.
      if m.data.top = 0 then
        { m.called with
          data.cells := m.data.cells.set 0 0, data.top := -1, ip := haltAddress }
      else m.called
    else { m with returns.top := m.returns.top + 1 }
  -- The zero has been dropped.
  | .zret, .stackUnderflow .ret _ | .zret, .stackOverflow .ret _ =>
    { m with data.top := m.data.top - 1, ip := if m.data.top = 0 then haltAddress else m.ip }
  | _, _ => m

theorem memory_residue (m : Machine) (op : Opcode) (fault : Fault) :
    (m.residue op fault).memory = m.memory := by
  unfold residue
  repeat' split
  all_goals rfl

theorem statistics_residue (m : Machine) (op : Opcode) (fault : Fault) :
    (m.residue op fault).statistics = m.statistics := by
  unfold residue
  repeat' split
  all_goals rfl

end Machine

/-- Nothing changes when the value that is put at a depth lies there already. -/
theorem Stack.put_of_look {n : Nat} (s : Stack n) {depth : Nat} {value : Cell}
    (hvalue : s.look depth = value) : s.put depth value = s := by
  subst hvalue
  have hcells : s.cells.setIfInBounds (s.top - depth).toNat (s.look depth) = s.cells := by
    apply Vector.ext
    intro i hi
    rw [Vector.getElem_setIfInBounds hi]
    split
    · rename_i hat
      simp [look, hat, hi]
    · rfl
  rw [put, hcells]

/-- A result that stops carries the address of its instruction, unless a device failed, and leaves
what is said of the opcode. -/
def Footprint (op : Opcode) (here : Cell) (m : Machine)
    (result : EStateM.Result Fault Machine Unit) : Prop :=
  Yields result (fun _ _ => True)
    (fun fault m' => fault.address? = some here ∧ m' = m.residue op fault)

namespace Action

variable {m : Machine} {here : Cell}

theorem footprint_literal (h : m.Grounded) : Footprint .lit here m (literal here m) := by
  rw [Footprint, yields_literal h]
  exact ⟨fun _ => ⟨rfl, rfl⟩, fun _ _ => ⟨fun _ => trivial, fun _ => ⟨rfl, rfl⟩⟩⟩

theorem footprint_duplicate : Footprint .dup here m (duplicate here m) := by
  rw [Footprint, yields_duplicate]
  refine ⟨fun hlow => ⟨rfl, ?_⟩, fun _ _ => trivial, fun hfull => ⟨rfl, ?_⟩, fun hover => ⟨rfl, ?_⟩⟩
  · exact (if_neg (by omega)).symm
  · exact (if_pos hfull).symm
  · exact (if_neg (by omega)).symm

theorem footprint_drop : Footprint .drop here m (drop here m) := by
  rw [Footprint, yields_drop]
  exact ⟨fun _ => trivial, fun _ _ => trivial, fun _ => ⟨rfl, rfl⟩⟩

theorem footprint_exchange : Footprint .swap here m (exchange here m) := by
  rw [Footprint, yields_exchange]
  exact ⟨fun _ => ⟨rfl, rfl⟩, fun _ _ => trivial, fun _ => ⟨rfl, rfl⟩⟩

theorem footprint_toReturns (h : m.Grounded) : Footprint .push here m (toReturns here m) := by
  rw [Footprint, yields_toReturns h]
  exact ⟨fun _ => ⟨rfl, rfl⟩, fun _ _ => ⟨fun _ => trivial, fun _ => ⟨rfl, rfl⟩⟩,
    fun _ => ⟨rfl, rfl⟩⟩

theorem footprint_fromReturns (h : m.Grounded) : Footprint .pop here m (fromReturns here m) := by
  rw [Footprint, yields_fromReturns h]
  exact ⟨fun _ => ⟨rfl, rfl⟩, fun _ _ => ⟨fun _ => trivial, fun _ => ⟨rfl, rfl⟩⟩,
    fun _ => ⟨rfl, rfl⟩⟩

theorem footprint_jump : Footprint .jump here m (jump here m) := by
  rw [Footprint, yields_jump]
  exact ⟨fun _ => ⟨rfl, rfl⟩, fun _ _ => trivial, fun _ => ⟨rfl, rfl⟩⟩

theorem footprint_call (h : m.Grounded) : Footprint .call here m (call here m) := by
  rw [Footprint, yields_call h]
  refine ⟨fun hfull => ⟨rfl, ?_⟩, fun hroom => ⟨fun _ => ⟨rfl, ?_⟩, fun _ _ => trivial,
    fun _ => ⟨rfl, ?_⟩⟩⟩
  · exact (if_neg (by omega)).symm
  · exact (if_pos (by omega)).symm
  · exact (if_pos (by omega)).symm

theorem footprint_conditionalCall (h : m.Grounded) :
    Footprint .ccall here m (conditionalCall here m) := by
  rw [Footprint, yields_conditionalCall h]
  have hresidue : ∀ fault, m.returns.top < 127 → m.data.top ≠ 0 →
      m.called = m.residue .ccall fault := by
    intro fault hroom htop
    have hcell : m.returns.top + 1 < 128 := by omega
    simp only [Machine.residue, if_pos hcell, if_neg htop]
  refine ⟨fun hfull => ⟨rfl, ?_⟩, fun hroom => ⟨fun hlow => ⟨rfl, hresidue _ hroom (by omega)⟩,
    fun hfloor => ⟨rfl, ?_⟩, fun _ _ => ⟨fun _ => trivial, fun _ => trivial⟩,
    fun hover => ⟨rfl, hresidue _ hroom (by omega)⟩⟩⟩
  · exact (if_neg (by omega)).symm
  · have hcell : m.returns.top + 1 < 128 := by omega
    have hset : m.data.cells.setIfInBounds 0 0 = m.data.cells.set 0 0 := by
      simp [Vector.setIfInBounds, Vector.set, Array.setIfInBounds]
    simp only [Machine.residue, if_pos hcell, if_pos hfloor]
    simp [Machine.dropped, Stack.put, Stack.lower, hfloor, hset]

theorem footprint_goBack : Footprint .ret here m (goBack here m) := by
  rw [Footprint, yields_goBack]
  exact ⟨fun _ => ⟨rfl, rfl⟩, fun _ _ => trivial, fun _ => ⟨rfl, rfl⟩⟩

theorem footprint_goBackOnZero : Footprint .zret here m (goBackOnZero here m) := by
  rw [Footprint, yields_goBackOnZero]
  refine ⟨fun _ => ⟨rfl, rfl⟩, fun _ _ => ⟨fun _ => trivial, fun hzero => ?_⟩, fun _ => ⟨rfl, rfl⟩⟩
  -- What the drop clears was zero before, so that only the pointer is left to tell of it.
  have hdropped : m.dropped = { m with
      data.top := m.data.top - 1, ip := if m.data.top = 0 then Machine.haltAddress else m.ip } := by
    rw [Machine.dropped, m.data.put_of_look hzero]
    rfl
  exact ⟨fun _ => ⟨rfl, hdropped⟩, fun _ _ => trivial, fun _ => ⟨rfl, hdropped⟩⟩

theorem footprint_combine {op : Opcode} {f : Cell → Cell → Cell} (hop : op.operator? = some f) :
    Footprint op here m (combine here f m) := by
  have hresidue : ∀ fault, m = m.residue op fault := by
    intro fault
    cases op <;> first | rfl | simp [Opcode.operator?] at hop
  rw [Footprint, yields_combine]
  exact ⟨fun _ => ⟨rfl, hresidue _⟩, fun _ _ => trivial, fun _ => ⟨rfl, hresidue _⟩⟩

theorem footprint_divide : Footprint .divmod here m (divide here m) := by
  rw [Footprint, yields_divide]
  exact ⟨fun _ => ⟨rfl, rfl⟩, fun _ _ => ⟨fun _ => ⟨rfl, rfl⟩, fun _ => trivial⟩,
    fun _ => ⟨rfl, rfl⟩⟩

theorem footprint_fetch : Footprint .fetch here m (fetch here m) := by
  rw [Footprint, yields_fetch]
  exact ⟨fun _ => ⟨rfl, rfl⟩, fun _ _ => ⟨fun _ => ⟨rfl, rfl⟩, fun _ _ => trivial⟩,
    fun _ => ⟨rfl, rfl⟩⟩

theorem footprint_store : Footprint .store here m (store here m) := by
  rw [Footprint, yields_store]
  exact ⟨fun _ => ⟨rfl, rfl⟩, fun _ _ => ⟨fun _ => ⟨rfl, rfl⟩, fun _ _ => trivial⟩,
    fun _ => ⟨rfl, rfl⟩⟩

end Action

namespace Session

variable {δ : Type} {m : Machine} {host : δ} {here : Cell} {op : Opcode}

/-- A session that stops names its instruction, unless a device failed, and leaves what is said of
the opcode. -/
def Footprint (op : Opcode) (here : Cell) (m : Machine)
    (result : EStateM.Result Fault (System δ) Unit) : Prop :=
  Yields result (fun _ _ => True)
    (fun fault s' => (fault.address? = some here ∨ ∃ cause, fault = .io cause) ∧
      s'.machine = m.residue op fault)

theorem footprint_liftM {x : Action Unit} (hx : CellMachine.Footprint op here m (x m)) :
    Footprint op here m ((liftM x : Session δ Unit) ⟨m, host⟩) := by
  rw [Footprint, yields_liftM]
  exact hx.imp (fun _ _ _ => trivial) (fun _ _ hstopped => ⟨.inl hstopped.1, hstopped.2⟩)

variable [Host δ]

theorem footprint_input (h : m.Grounded) (hop : op = .input ∨ op = .getc) :
    Footprint op here m
      ((do let value ← read; Action.push here value : Session δ Unit) ⟨m, host⟩) := by
  have hio : ∀ cause, m = m.residue op (.io cause) := by
    rcases hop with rfl | rfl <;> exact fun _ => rfl
  have hfull : { m with data := m.data.raise } = m.residue op (.stackOverflow .data here) := by
    rcases hop with rfl | rfl <;> rfl
  rw [Footprint, yields_input h]
  refine .of_forall (fun _ _ => .of_forall (fun value rest => ?_) fun cause _ => ?_)
    fun cause _ => ?_
  · exact ⟨fun _ => trivial, fun _ => ⟨.inl rfl, hfull⟩⟩
  · exact ⟨.inr ⟨cause, rfl⟩, hio cause⟩
  · exact ⟨.inr ⟨cause, rfl⟩, hio cause⟩

theorem footprint_emit : Footprint .putc here m (emit here ⟨m, host⟩) := by
  rw [Footprint, yields_emit]
  refine ⟨fun _ => ⟨.inl rfl, rfl⟩, fun _ _ => ?_, fun _ => ⟨.inl rfl, rfl⟩⟩
  exact .of_forall (fun _ _ => trivial) fun cause _ => ⟨.inr ⟨cause, rfl⟩, rfl⟩

theorem footprint_output :
    Footprint .output here m ((do emit here; Action.lower : Session δ Unit) ⟨m, host⟩) := by
  rw [Footprint, yields_bind, yields_emit]
  refine ⟨fun _ => ⟨.inl rfl, rfl⟩, fun _ _ => ?_, fun _ => ⟨.inl rfl, rfl⟩⟩
  exact .of_forall (fun _ _ => trivial) fun cause _ => ⟨.inr ⟨cause, rfl⟩, rfl⟩

/-- Every instruction that stops leaves what is said of its opcode. -/
theorem footprint_execute (h : m.Grounded) :
    Footprint op here m (execute here op ⟨m, host⟩) := by
  cases hop : op.operator? with
  | some f =>
    rw [execute_operator (δ := δ) hop]
    exact footprint_liftM (Action.footprint_combine hop)
  | none =>
    cases op with
    | nop => trivial
    | lit => exact footprint_liftM (Action.footprint_literal h)
    | dup => exact footprint_liftM Action.footprint_duplicate
    | drop => exact footprint_liftM Action.footprint_drop
    | swap => exact footprint_liftM Action.footprint_exchange
    | push => exact footprint_liftM (Action.footprint_toReturns h)
    | pop => exact footprint_liftM (Action.footprint_fromReturns h)
    | jump => exact footprint_liftM Action.footprint_jump
    | call => exact footprint_liftM (Action.footprint_call h)
    | ccall => exact footprint_liftM (Action.footprint_conditionalCall h)
    | ret => exact footprint_liftM Action.footprint_goBack
    | fetch => exact footprint_liftM Action.footprint_fetch
    | store => exact footprint_liftM Action.footprint_store
    | divmod => exact footprint_liftM Action.footprint_divide
    | zret => exact footprint_liftM Action.footprint_goBackOnZero
    | stop => trivial
    | input => exact footprint_input h (.inl rfl)
    | getc => exact footprint_input h (.inr rfl)
    | output => exact footprint_output
    | putc => exact footprint_emit
    | cjump => trivial
    | _ => simp [Opcode.operator?] at hop

/-- What a step that stops leaves behind. -/
theorem yields_step_footprint {s : System δ} (h : s.machine.Grounded) :
    Yields (step s) (fun _ _ => True)
      (fun fault s' => (fault.address? = some s.machine.ip ∨ ∃ cause, fault = .io cause) ∧
        s'.machine = match s.machine.next? with
          | none => s.machine
          | some op => (s.machine.counted op).residue op fault) := by
  cases hnext : s.machine.next? with
  | some op =>
    have hcounted : (s.machine.counted op).Grounded := ⟨h.data, h.returns⟩
    rw [yields_step_of_next hnext]
    exact (footprint_execute hcounted).imp (fun _ _ _ => trivial) (fun _ _ hstopped => hstopped)
  | none =>
    rw [yields_step]
    refine ⟨fun _ => trivial, fun _ => ⟨fun _ => ⟨.inl rfl, rfl⟩, fun _ _ _ => ⟨.inl rfl, rfl⟩,
      fun op hop => ?_⟩⟩
    rw [hnext] at hop
    simp at hop

end Session

/-- A step that stops with a fault names its own address, unless a device failed. Memory and the
high-water marks are as before, the dispatch is counted if there was one, and of the rest of the
machine only what is said of the opcode has changed. -/
theorem fault_leaves_residue {δ : Type} [Host δ] {s s' : System δ} {fault : Fault}
    (h : Reachable s) (hstep : Session.step s = .error fault s') :
    (fault.address? = some s.machine.ip ∨ ∃ cause, fault = .io cause) ∧
      (s'.machine.memory = s.machine.memory ∧
        s'.machine.statistics.maxSp = s.machine.statistics.maxSp ∧
        s'.machine.statistics.maxRp = s.machine.statistics.maxRp ∧
        ∀ op, s'.machine.statistics.count op =
          s.machine.statistics.count op + if s.machine.next? = some op then 1 else 0) ∧
      s'.machine = match s.machine.next? with
        | none => s.machine
        | some op => (s.machine.counted op).residue op fault := by
  obtain ⟨haddress, hmachine⟩ := (Session.yields_step_footprint h.grounded).of_error hstep
  refine ⟨haddress, ?_, hmachine⟩
  cases hnext : s.machine.next? with
  | none =>
    rw [hnext] at hmachine
    simp only at hmachine
    rw [hmachine]
    exact ⟨rfl, rfl, rfl, fun op => by simp⟩
  | some op =>
    rw [hnext] at hmachine
    simp only at hmachine
    rw [hmachine, Machine.memory_residue, Machine.statistics_residue]
    refine ⟨rfl, rfl, rfl, fun other => ?_⟩
    rw [Machine.counted, Statistics.count_record]
    by_cases heq : op = other <;> simp [heq]

/-- A conditional call that finds only the floor cell stops with the cell cleared, the pointer below
it and its own address on the return stack. -/
theorem fault_leaves_residue_of_call :
    ∃ s s' : System Script, Reachable s ∧ s.machine.next? = some .ccall ∧
      Session.step s = .error (.stackUnderflow .data 0) s' ∧
      s'.machine.memory = s.machine.memory ∧ s'.machine.statistics.count .ccall = 1 ∧
      (s'.machine.ip, s'.machine.sp, s'.machine.rp) = (Machine.haltAddress, -1, 1) := by
  obtain ⟨s, hs⟩ : ∃ s : System Script, s = ⟨.loaded .base [9], {}⟩ := ⟨_, rfl⟩
  have hreachable : Reachable s := hs ▸ Reachable.loaded .base _ [9] (by decide)
  have hnext : s.machine.next? = some .ccall := hs ▸ Machine.next?_loaded rfl rfl
  have hsp : s.machine.data.top = 0 := hs ▸ rfl
  have hrp : s.machine.returns.top = 0 := hs ▸ rfl
  have hip : s.machine.ip = 0 := hs ▸ rfl
  have hcounted : (s.machine.counted .ccall).Grounded :=
    ⟨hreachable.grounded.data, hreachable.grounded.returns⟩
  have hstep : Yields (Session.step s) (fun _ _ => False)
      (fun fault _ => fault = .stackUnderflow .data 0) := by
    rw [Session.yields_step_of_next hnext]
    refine Session.yields_liftM.mpr ((Action.yields_conditionalCall hcounted).mpr ?_)
    simp [hsp, hrp, hip]
  obtain ⟨fault, s', herror, rfl⟩ := hstep.exists_error
  obtain ⟨_, ⟨hmemory, _, _, hcount⟩, hmachine⟩ := fault_leaves_residue hreachable herror
  rw [hnext] at hmachine
  refine ⟨s, s', hreachable, hnext, herror, hmemory, ?_, ?_⟩
  · rw [hcount, hnext, hs]
    rfl
  · rw [hmachine]
    simp [Machine.residue, Machine.sp, Machine.rp, hsp, hrp]

end CellMachine
