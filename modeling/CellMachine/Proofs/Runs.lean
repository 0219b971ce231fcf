import CellMachine.Proofs.History

/-!
# Steps in a row

A step that ends well leaves a machine that can be named: `afterLiteral`, `afterOutput` and
`afterStop` are the machines after the instructions that small programs are made of.

`after` follows a system from step to step, whatever the steps come to. What is said of a run is
mostly said of a run whose steps all end well, and then `after` names the systems on the way.
-/

namespace CellMachine

/-- A machine decodes the cell that was written at its address. -/
theorem Machine.next?_of_write {m : Machine} {cells : List Cell} {i : Nat} {op : Opcode}
    (hmemory : m.memory = Memory.blank.write 0 cells) (hip : m.ip = Int32.ofNat i)
    (hcell : cells[i]? = some op.code) (hi : i < 262144) (hop : m.set.admits op = true) :
    m.next? = some op := by
  rw [next?, hmemory, hip, Memory.get?_write Memory.blank hcell hi, Option.bind_some]
  exact InstructionSet.decode_eq_some_iff.mpr ⟨rfl, hop⟩

/-- A step that finds no opcode and ends well has found a machine that has halted. -/
theorem Session.eq_of_step_of_none {δ : Type} [Host δ] {s s' : System δ} {status : Status}
    (hstep : step s = .ok status s') (hnext : s.machine.next? = none) : s' = s := by
  have hstay : Yields (step s) (fun _ s' => s' = s) (fun _ _ => True) := by
    rw [yields_step]
    refine ⟨fun _ => rfl, fun _ => ⟨fun _ => trivial, fun _ _ _ => trivial, fun op hop => ?_⟩⟩
    rw [hnext] at hop
    simp at hop
  exact hstay.of_ok hstep

/-- The host after it took note of the dispatch of an opcode. -/
def System.noted {δ : Type} [Host δ] (s : System δ) (op : Opcode) : δ :=
  Host.note (.dispatched s.machine.ip op s.machine.sp s.machine.rp) s.host

/-! ## Steps that end well -/

namespace Machine

/-- The machine after it pushed the value that stands behind its address. -/
def afterLiteral (m : Machine) (value : Cell) : Machine :=
  { m.counted .lit with ip := m.ip + 1, data := m.data.raise.put 0 value }.advanced

/-- The machine after it emitted the top of its data stack and moved the pointer down. -/
def afterOutput (m : Machine) : Machine :=
  { m.counted .output with data := m.data.lower }.advanced

/-- The machine after the end of its program. -/
def afterStop (m : Machine) : Machine :=
  { m.counted .stop with ip := haltAddress }.advanced

/-- A machine has come to a cell of the program that was loaded, with its data stack pointer at some
position and no address to go back to. -/
structure At (cells : List Cell) (i : Nat) (sp : Int) (m : Machine) : Prop where
  memory : m.memory = Memory.blank.write 0 cells
  ip : m.ip = Int32.ofNat i
  sp : m.sp = sp
  rp : m.rp = 0

namespace At

variable {cells : List Cell} {i : Nat} {sp : Int} {m : Machine}

theorem loaded (set : InstructionSet) (cells : List Cell) :
    (Machine.loaded set cells).At cells 0 0 :=
  ⟨rfl, rfl, rfl, rfl⟩

theorem next? (h : m.At cells i sp) {op : Opcode} (hcell : cells[i]? = some op.code)
    (hi : i < 262144) (hop : m.set.admits op = true) : m.next? = some op :=
  next?_of_write h.memory h.ip hcell hi hop

/-- The value of a literal stands behind it. -/
theorem get?_succ (h : m.At cells i sp) {value : Cell} (hcell : cells[i + 1]? = some value)
    (hi : i + 1 < 262144) : m.memory.get? (m.ip + 1) = some value := by
  have hip : m.ip + 1 = Int32.ofNat (i + 1) := by
    rw [h.ip, Int32.ofNat_add]
    rfl
  rw [hip, h.memory]
  exact Memory.get?_write Memory.blank hcell hi

theorem status (h : m.At cells i sp) (hi : i < 262144) : m.status = .running := by
  have hlow : ¬haltAddress ≤ m.ip := by
    rw [h.ip, haltAddress, Int32.le_iff_toInt_le, Int32.toInt_ofNat_of_lt (by decide),
      Int32.toInt_ofNat_of_lt (by omega), Memory.size]
    omega
  rw [status_eq, if_neg hlow]

theorem afterLiteral (h : m.At cells i sp) (value : Cell) :
    (m.afterLiteral value).At cells (i + 2) (sp + 1) where
  memory := h.memory
  ip := by
    change m.ip + 1 + 1 = _
    rw [h.ip, Int32.ofNat_add, Int32.add_assoc]
    rfl
  sp := congrArg (· + 1) h.sp
  rp := h.rp

theorem afterOutput (h : m.At cells i sp) : m.afterOutput.At cells (i + 1) (sp - 1) where
  memory := h.memory
  ip := by
    change m.ip + 1 = _
    rw [h.ip, Int32.ofNat_add]
    rfl
  sp := congrArg (· - 1) h.sp
  rp := h.rp

end At

end Machine

namespace Session

variable {δ : Type} [Host δ] {s : System δ}

/-- A literal is pushed if there is a cell for it. -/
theorem step_literal (hnext : s.machine.next? = some .lit) {value : Cell}
    (hvalue : s.machine.memory.get? (s.machine.ip + 1) = some value) (h : s.machine.Grounded)
    (hroom : s.machine.sp < 31) :
    step s = .ok (s.machine.afterLiteral value).status
      ⟨s.machine.afterLiteral value, s.noted .lit⟩ := by
  have hpushed : Yields (step s)
      (fun status s' => status = (s.machine.afterLiteral value).status ∧
        s' = ⟨s.machine.afterLiteral value, s.noted .lit⟩) (fun _ _ => False) := by
    have hcounted : (s.machine.counted .lit).Grounded := ⟨h.data, h.returns⟩
    rw [yields_step_of_next hnext, execute, yields_liftM, Action.yields_literal hcounted]
    refine ⟨fun hnone => ?_, fun found hfound => ⟨fun _ => ?_, fun hfull => ?_⟩⟩
    · rw [Machine.memory_counted, Machine.ip_counted, hvalue] at hnone
      simp at hnone
    · rw [Machine.memory_counted, Machine.ip_counted, hvalue] at hfound
      obtain rfl := Option.some.inj hfound
      exact ⟨rfl, rfl⟩
    · rw [Machine.data_counted] at hfull
      rw [Machine.sp] at hroom
      omega
  obtain ⟨_, _, hstep, rfl, rfl⟩ := hpushed.exists_ok
  exact hstep

/-- The top is emitted if there is one and the host takes it. -/
theorem step_output (hnext : s.machine.next? = some .output) (hlow : 0 ≤ s.machine.sp)
    (hhigh : s.machine.sp < 32) {rest : δ}
    (hput : Host.put (s.machine.data.look 0).lowByte (s.noted .output) = .ok () rest) :
    step s = .ok s.machine.afterOutput.status ⟨s.machine.afterOutput, rest⟩ := by
  have hemitted : Yields (step s)
      (fun status s' => status = s.machine.afterOutput.status ∧ s' = ⟨s.machine.afterOutput, rest⟩)
      (fun _ _ => False) := by
    rw [yields_step_of_next hnext, execute, yields_bind, yields_emit]
    rw [Machine.sp] at hlow hhigh
    refine ⟨fun hshort => ?_, fun _ _ => ?_, fun hfull => ?_⟩
    · rw [Machine.data_counted] at hshort
      omega
    · change Yields (Host.put (s.machine.data.look 0).lowByte (s.noted .output)) _ _
      rw [hput]
      exact ⟨rfl, rfl⟩
    · rw [Machine.data_counted] at hfull
      omega
  obtain ⟨_, _, hstep, rfl, rfl⟩ := hemitted.exists_ok
  exact hstep

/-- The end of a program halts the machine. -/
theorem step_stop (hnext : s.machine.next? = some .stop) :
    step s = .ok .halted ⟨s.machine.afterStop, s.noted .stop⟩ := by
  have hended : Yields (step s)
      (fun status s' => status = .halted ∧ s' = ⟨s.machine.afterStop, s.noted .stop⟩)
      (fun _ _ => False) := by
    rw [yields_step_of_next hnext, execute, yields_liftM]
    exact ⟨rfl, rfl⟩
  obtain ⟨_, _, hstep, rfl, rfl⟩ := hended.exists_ok
  exact hstep

/-- A program runs on after a literal. -/
theorem step_literal_at {cells : List Cell} {i : Nat} {sp : Int} (h : s.machine.At cells i sp)
    (hcell : cells[i]? = some Opcode.lit.code) {value : Cell} (hvalue : cells[i + 1]? = some value)
    (hi : i + 2 < 262144) (hlow : -1 ≤ sp) (hroom : sp < 31) :
    ∃ s', step s = .ok .running s' ∧ s'.machine = s.machine.afterLiteral value ∧
      s'.host = s.noted .lit ∧ s'.machine.At cells (i + 2) (sp + 1) := by
  have hset : s.machine.set.admits .lit = true := by
    cases s.machine.set <;> rfl
  have hsp : s.machine.data.top = sp := h.sp
  have hrp : s.machine.returns.top = 0 := h.rp
  have hgrounded : s.machine.Grounded := ⟨by omega, by omega⟩
  have hstep := step_literal (h.next? hcell (by omega) hset) (h.get?_succ hvalue (by omega))
    hgrounded (h.sp ▸ hroom)
  have hthere := h.afterLiteral value
  rw [hthere.status hi] at hstep
  exact ⟨_, hstep, rfl, rfl, hthere⟩

/-- A program runs on after an output that the host takes. -/
theorem step_output_at {cells : List Cell} {i : Nat} {sp : Int} (h : s.machine.At cells i sp)
    (hcell : cells[i]? = some Opcode.output.code) (hi : i + 1 < 262144) (hlow : 0 ≤ sp)
    (hhigh : sp < 32) {rest : δ}
    (hput : Host.put (s.machine.data.look 0).lowByte (s.noted .output) = .ok () rest) :
    ∃ s', step s = .ok .running s' ∧ s'.machine = s.machine.afterOutput ∧ s'.host = rest ∧
      s'.machine.At cells (i + 1) (sp - 1) := by
  have hset : s.machine.set.admits .output = true := by
    cases s.machine.set <;> rfl
  have hstep := step_output (h.next? hcell (by omega) hset) (h.sp ▸ hlow) (h.sp ▸ hhigh) hput
  have hthere := h.afterOutput
  rw [hthere.status hi] at hstep
  exact ⟨_, hstep, rfl, rfl, hthere⟩

/-- The end of a program halts the machine there. -/
theorem step_stop_at {cells : List Cell} {i : Nat} {sp : Int} (h : s.machine.At cells i sp)
    (hcell : cells[i]? = some Opcode.stop.code) (hi : i < 262144) :
    step s = .ok .halted ⟨s.machine.afterStop, s.noted .stop⟩ := by
  have hset : s.machine.set.admits .stop = true := by
    cases s.machine.set <;> rfl
  exact step_stop (h.next? hcell hi hset)

/-- A run goes on after a step that leaves the machine running. -/
theorem run_of_running {s' : System δ} (hstep : step s = .ok .running s') (fuel : Nat) :
    run (fuel + 1) s = run fuel s' := by
  rw [run, runToHalt, hstep, run]

/-- A run ends with the step that halts the machine. -/
theorem run_of_halted {s' : System δ} (hstep : step s = .ok .halted s') (fuel : Nat) :
    run (fuel + 1) s = some (settle (.ok () s')) := by
  rw [run, runToHalt, hstep, Option.map_some]

/-- A run ends with the step that stops with a fault. -/
theorem run_of_fault {s' : System δ} {fault : Fault} (hstep : step s = .error fault s')
    (fuel : Nat) : run (fuel + 1) s = some (settle (.error fault s')) := by
  rw [run, runToHalt, hstep, Option.map_some]

end Session

namespace System

variable {δ : Type} [Host δ] {s : System δ} {n : Nat}

/-- The system after a number of steps, whatever they come to. -/
def after (s : System δ) : Nat → System δ
  | 0 => s
  | n + 1 => stateAfter (Session.step (s.after n))

@[simp] theorem after_zero (s : System δ) : s.after 0 = s :=
  rfl

/-- The first `n` steps of a system all end well. -/
def Succeeds (s : System δ) (n : Nat) : Prop :=
  ∀ i < n, faultOf? (Session.step (s.after i)) = none

/-- Steps after steps are steps. -/
theorem after_after (s : System δ) (i j : Nat) : (s.after i).after j = s.after (i + j) := by
  induction j with
  | zero => rfl
  | succ j ih => rw [after, ih, ← Nat.add_assoc, after]

/-- The rest of a run whose steps all end well is such a run. -/
theorem Succeeds.rest {i : Nat} (h : s.Succeeds (i + n)) : (s.after i).Succeeds n := by
  intro j hj
  rw [after_after]
  exact h (i + j) (by omega)

/-- A step of a run that ends well leads to the next system on the way. -/
theorem Succeeds.step (h : s.Succeeds n) {i : Nat} (hi : i < n) :
    ∃ status, Session.step (s.after i) = .ok status (s.after (i + 1)) := by
  have hquiet := h i hi
  cases hresult : Session.step (s.after i) with
  | ok status s' => exact ⟨status, by rw [after, hresult, stateAfter]⟩
  | error fault s' =>
    rw [hresult, faultOf?] at hquiet
    simp at hquiet

/-- A run is under way as long as each system on the way has a step that ends well. -/
theorem Succeeds.succ (h : s.Succeeds n) {status : Status} {s' : System δ}
    (hstep : Session.step (s.after n) = .ok status s') : s.Succeeds (n + 1) := by
  intro i hi
  rcases Nat.lt_succ_iff_lt_or_eq.mp hi with hlt | rfl
  · exact h i hlt
  · rw [hstep, faultOf?]

theorem after_succ_of_ok {status : Status} {s' : System δ}
    (hstep : Session.step (s.after n) = .ok status s') : s.after (n + 1) = s' := by
  rw [after, hstep, stateAfter]

end System

end CellMachine
