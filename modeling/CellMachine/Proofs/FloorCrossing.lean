import CellMachine.Host.Script
import CellMachine.Proofs.Bounds

/-!
# Below the floor

A drop that takes the data stack pointer below the floor makes the machine go on past the end of
memory, which halts it. The drop has no way to say so but the address of the next instruction, and
two instructions set that address again after their last drop: a return on zero, and a conditional
call whose flag was the floor cell. This file finds the address that every instruction ends with
when it takes the pointer below the floor, and from it the exact condition under which the machine
does not halt.
-/

namespace CellMachine

namespace Machine

/-- The address that an opcode ends with when it takes the data stack pointer below the floor. -/
def landing (m : Machine) (op : Opcode) : Cell :=
  match op with
  | .zret => m.returns.look 0
  | .ccall => if m.data.look 1 = 0 then haltAddress else m.data.look 0 - 1
  | _ => haltAddress

/-- An opcode that takes the data stack pointer below the floor goes on inside memory: it returns
on zero to an address in memory, or it calls one on a flag that is not zero. -/
def Escapes (m : Machine) (op : Opcode) : Prop :=
  op = .zret ∧ m.returns.look 0 + 1 < haltAddress ∨
    op = .ccall ∧ m.data.look 1 ≠ 0 ∧ m.data.look 0 < haltAddress

/-- An opcode escapes exactly when what follows its last address does not halt the machine. -/
theorem escapes_iff {m : Machine} {op : Opcode} :
    m.Escapes op ↔ ¬haltAddress ≤ m.landing op + 1 := by
  have hhalt : haltAddress ≤ haltAddress + 1 := by decide
  cases op with
  | zret => simp [Escapes, landing, Int32.not_le]
  | ccall =>
    by_cases hflag : m.data.look 1 = 0
    · simp [Escapes, landing, hflag, hhalt]
    · simp [Escapes, landing, hflag, Int32.not_le, Int32.sub_add_cancel]
  | _ => simp [Escapes, landing, hhalt]

end Machine

/-- A result that has the data stack pointer right below the floor ends with an address. -/
def Lands (target : Cell) (result : EStateM.Result Fault Machine Unit) : Prop :=
  Yields result (fun _ m => m.data.top = -1 → m.ip = target) (fun _ _ => True)

namespace Action

variable {m : Machine} {here : Cell}

/-- A drop from the floor halts, and no other drop ends below it. -/
theorem ip_dropped_of_crossing (hcrossed : m.dropped.data.top = -1) :
    m.dropped.ip = Machine.haltAddress := by
  have htop : m.data.top = 0 := by
    simp only [Machine.data_dropped, Stack.top_lower, Stack.top_put] at hcrossed
    omega
  rw [Machine.ip_dropped, if_pos htop]

theorem lands_literal (h : m.Grounded) (hsp : 0 ≤ m.data.top) :
    Lands Machine.haltAddress (literal here m) := by
  rw [Lands, yields_literal h]
  refine ⟨fun _ => trivial, fun _ _ => ⟨fun _ hcrossed => ?_, fun _ => trivial⟩⟩
  rw [Stack.top_put, Stack.top_raise] at hcrossed
  omega

theorem lands_duplicate (hsp : 0 ≤ m.data.top) :
    Lands Machine.haltAddress (duplicate here m) := by
  rw [Lands, yields_duplicate]
  refine ⟨fun _ => trivial, fun _ _ hcrossed => ?_, fun _ => trivial, fun _ => trivial⟩
  rw [Stack.top_put, Stack.top_raise] at hcrossed
  omega

theorem lands_drop : Lands Machine.haltAddress (drop here m) := by
  rw [Lands, yields_drop]
  exact ⟨fun _ _ => rfl, fun _ _ => ip_dropped_of_crossing, fun _ => trivial⟩

theorem lands_exchange : Lands Machine.haltAddress (exchange here m) := by
  rw [Lands, yields_exchange]
  refine ⟨fun _ => trivial, fun _ _ hcrossed => ?_, fun _ => trivial⟩
  rw [Stack.top_put, Stack.top_put] at hcrossed
  omega

theorem lands_toReturns (h : m.Grounded) : Lands Machine.haltAddress (toReturns here m) := by
  rw [Lands, yields_toReturns h]
  exact ⟨fun _ => trivial, fun _ _ => ⟨fun _ => ip_dropped_of_crossing, fun _ => trivial⟩,
    fun _ => trivial⟩

theorem lands_fromReturns (h : m.Grounded) (hsp : 0 ≤ m.data.top) :
    Lands Machine.haltAddress (fromReturns here m) := by
  rw [Lands, yields_fromReturns h]
  refine ⟨fun _ => trivial, fun _ _ => ⟨fun _ hcrossed => ?_, fun _ => trivial⟩, fun _ => trivial⟩
  rw [Stack.top_put, Stack.top_raise] at hcrossed
  omega

theorem lands_jump : Lands Machine.haltAddress (jump here m) := by
  rw [Lands, yields_jump]
  exact ⟨fun _ => trivial, fun _ _ => ip_dropped_of_crossing, fun _ => trivial⟩

theorem lands_call (h : m.Grounded) : Lands Machine.haltAddress (call here m) := by
  rw [Lands, yields_call h]
  exact ⟨fun _ => trivial, fun _ => ⟨fun _ => trivial, fun _ _ => ip_dropped_of_crossing,
    fun _ => trivial⟩⟩

/-- The flag decides: when it is not zero, the address is set after the drop of the floor cell. -/
theorem lands_conditionalCall (h : m.Grounded) :
    Lands (m.landing .ccall) (conditionalCall here m) := by
  rw [Lands, yields_conditionalCall h, Machine.landing]
  refine ⟨fun _ => trivial, fun _ => ⟨fun _ => trivial, fun _ => trivial, fun _ _ => ?_,
    fun _ => trivial⟩⟩
  refine ⟨fun hflag hcrossed => ?_, fun hflag _ => ?_⟩
  · rw [if_pos hflag]
    exact ip_dropped_of_crossing hcrossed
  · rw [if_neg hflag]

theorem lands_goBack (hsp : 0 ≤ m.data.top) : Lands Machine.haltAddress (goBack here m) := by
  rw [Lands, yields_goBack]
  exact ⟨fun _ => trivial, fun _ _ hcrossed => by simp only at hcrossed; omega, fun _ => trivial⟩

/-- The address is set after the drop of the zero. -/
theorem lands_goBackOnZero (hsp : 0 ≤ m.data.top) :
    Lands (m.landing .zret) (goBackOnZero here m) := by
  rw [Lands, yields_goBackOnZero]
  exact ⟨fun _ => trivial, fun _ _ => ⟨fun _ hcrossed => by omega, fun _ => ⟨fun _ => trivial,
    fun _ _ _ => rfl, fun _ => trivial⟩⟩, fun _ => trivial⟩

theorem lands_combine {f : Cell → Cell → Cell} : Lands Machine.haltAddress (combine here f m) := by
  rw [Lands, yields_combine]
  exact ⟨fun _ => trivial, fun _ _ => ip_dropped_of_crossing, fun _ => trivial⟩

theorem lands_divide : Lands Machine.haltAddress (divide here m) := by
  rw [Lands, yields_divide]
  refine ⟨fun _ => trivial, fun _ _ => ⟨fun _ => trivial, fun _ hcrossed => ?_⟩, fun _ => trivial⟩
  rw [Stack.top_put, Stack.top_put] at hcrossed
  omega

theorem lands_fetch (hsp : 0 ≤ m.data.top) : Lands Machine.haltAddress (fetch here m) := by
  rw [Lands, yields_fetch]
  refine ⟨fun _ => trivial, fun _ _ => ⟨fun _ => trivial, fun _ _ hcrossed => ?_⟩, fun _ => trivial⟩
  rw [Stack.top_put] at hcrossed
  omega

theorem lands_store : Lands Machine.haltAddress (store here m) := by
  rw [Lands, yields_store]
  exact ⟨fun _ => trivial, fun _ _ => ⟨fun _ => trivial, fun _ _ => ip_dropped_of_crossing⟩,
    fun _ => trivial⟩

end Action

namespace Session

variable {δ : Type} {m : Machine} {host : δ} {here : Cell} {op : Opcode}

/-- A session that has the data stack pointer right below the floor ends with an address. -/
def Lands (target : Cell) (result : EStateM.Result Fault (System δ) Unit) : Prop :=
  Yields result (fun _ s => s.machine.data.top = -1 → s.machine.ip = target) (fun _ _ => True)

theorem lands_liftM {target : Cell} {x : Action Unit} (hx : CellMachine.Lands target (x m)) :
    Lands target ((liftM x : Session δ Unit) ⟨m, host⟩) := by
  rw [Lands, yields_liftM]
  exact hx

variable [Host δ]

theorem lands_input (h : m.Grounded) (hsp : 0 ≤ m.data.top) :
    Lands Machine.haltAddress
      ((do let value ← read; Action.push here value : Session δ Unit) ⟨m, host⟩) := by
  rw [Lands, yields_input h]
  refine .of_forall (fun _ _ => .of_forall (fun value rest => ?_) fun _ _ => trivial)
    fun _ _ => trivial
  refine ⟨fun _ hcrossed => ?_, fun _ => trivial⟩
  rw [Stack.top_put, Stack.top_raise] at hcrossed
  omega

theorem lands_emit (hsp : 0 ≤ m.data.top) : Lands Machine.haltAddress (emit here ⟨m, host⟩) := by
  rw [Lands, yields_emit]
  refine ⟨fun _ => trivial, fun _ _ => ?_, fun _ => trivial⟩
  refine .of_forall (fun _ _ hcrossed => ?_) fun _ _ => trivial
  simp only at hcrossed
  omega

/-- Every instruction but an output that takes the pointer below the floor ends with its landing. -/
theorem lands_execute (h : m.Grounded) (hsp : 0 ≤ m.data.top) (hop : op ≠ .output) :
    Lands (m.landing op) (execute here op ⟨m, host⟩) := by
  cases hoperator : op.operator? with
  | some f =>
    have hlanding : m.landing op = Machine.haltAddress := by
      cases op <;> first | rfl | simp [Opcode.operator?] at hoperator
    rw [execute_operator (δ := δ) hoperator, hlanding]
    exact lands_liftM Action.lands_combine
  | none =>
    cases op with
    | nop => exact fun hcrossed => by simp only at hcrossed; omega
    | lit => exact lands_liftM (Action.lands_literal h hsp)
    | dup => exact lands_liftM (Action.lands_duplicate hsp)
    | drop => exact lands_liftM Action.lands_drop
    | swap => exact lands_liftM Action.lands_exchange
    | push => exact lands_liftM (Action.lands_toReturns h)
    | pop => exact lands_liftM (Action.lands_fromReturns h hsp)
    | jump => exact lands_liftM Action.lands_jump
    | call => exact lands_liftM (Action.lands_call h)
    | ccall => exact lands_liftM (Action.lands_conditionalCall h)
    | ret => exact lands_liftM (Action.lands_goBack hsp)
    | fetch => exact lands_liftM (Action.lands_fetch hsp)
    | store => exact lands_liftM Action.lands_store
    | divmod => exact lands_liftM Action.lands_divide
    | zret => exact lands_liftM (Action.lands_goBackOnZero hsp)
    | stop => exact fun _ => rfl
    | input => exact lands_input h hsp
    | getc => exact lands_input h hsp
    | output => exact absurd rfl hop
    | putc => exact lands_emit hsp
    | cjump => exact fun _ => rfl
    | _ => simp [Opcode.operator?] at hoperator

/-- A machine that has halted stays as it is. -/
theorem step_of_hasHalted {s : System δ} (h : s.machine.hasHalted = true) :
    step s = .ok .halted s := by
  rw [step, if_pos h]

end Session

/-- A step, not of an output, that takes the data stack pointer from the stack to below the floor
halts the machine for good, unless its opcode escapes. An escape leaves the machine running. -/
theorem crossing_halts_iff {δ : Type} [Host δ] {s s' : System δ} {op : Opcode} {status : Status}
    (h : Reachable s) (hsp : 0 ≤ s.machine.sp) (hnext : s.machine.next? = some op)
    (hop : op ≠ .output) (hstep : Session.step s = .ok status s') (hcrossed : s'.machine.sp = -1) :
    ((status = .halted ∧ Machine.haltAddress ≤ s'.machine.ip ∧
      Session.step s' = .ok .halted s') ↔ ¬s.machine.Escapes op) ∧
      (s.machine.Escapes op → status = .running) := by
  have hcounted : (s.machine.counted op).Grounded := ⟨h.grounded.data, h.grounded.returns⟩
  have hlands : Yields (Session.step s)
      (fun status s' => s'.machine.data.top = -1 →
        s'.machine.ip = s.machine.landing op + 1 ∧ status = s'.machine.status)
      (fun _ _ => True) := by
    rw [Session.yields_step_of_next hnext]
    refine (Session.lands_execute hcounted hsp hop).imp (fun _ t hlanded hbelow => ⟨?_, rfl⟩)
      (fun _ _ _ => trivial)
    rw [Machine.ip_advanced, hlanded hbelow]
    rfl
  obtain ⟨hip, rfl⟩ := hlands.of_ok hstep hcrossed
  rw [Machine.escapes_iff, Decidable.not_not, ← hip, Machine.status_eq]
  constructor
  · constructor
    · exact fun hhalted => hhalted.2.1
    · intro hhalted
      exact ⟨if_pos hhalted, hhalted, Session.step_of_hasHalted (Machine.hasHalted_iff.mpr hhalted)⟩
  · intro hrunning
    exact if_neg hrunning

/-- A program that only drops takes the pointer below the floor and halts for good. -/
theorem crossing_halts_of_drop :
    ∃ s s' : System Script, Reachable s ∧ Session.step s = .ok .halted s' ∧ s'.machine.sp = -1 ∧
      Machine.haltAddress ≤ s'.machine.ip ∧ Session.step s' = .ok .halted s' := by
  obtain ⟨s, hs⟩ : ∃ s : System Script, s = ⟨.loaded .base [3], {}⟩ := ⟨_, rfl⟩
  have hreachable : Reachable s := hs ▸ Reachable.loaded .base _ [3] (by decide)
  have hnext : s.machine.next? = some .drop := hs ▸ Machine.next?_loaded rfl rfl
  have hsp : s.machine.data.top = 0 := hs ▸ rfl
  have hstep : Yields (Session.step s) (fun _ s' => s'.machine.sp = -1) (fun _ _ => False) := by
    rw [Session.yields_step_of_next hnext]
    refine Session.yields_liftM.mpr (Action.yields_drop.mpr ⟨fun hneg => ?_, fun _ _ => ?_,
      fun hover => ?_⟩)
    · simp [hsp] at hneg
    · simp [Machine.sp, hsp]
    · simp [hsp] at hover
  obtain ⟨status, s', hok, hcrossed⟩ := hstep.exists_ok
  have hescapes : ¬s.machine.Escapes .drop := by simp [Machine.Escapes]
  obtain ⟨rfl, hip, hstays⟩ := (crossing_halts_iff hreachable (Int.le_of_eq hsp.symm) hnext
    (by decide) hok hcrossed).1.mpr hescapes
  exact ⟨s, s', hreachable, hok, hcrossed, hip, hstays⟩

/-- A program that only returns on zero takes the pointer below the floor and goes on. -/
theorem crossing_does_not_always_halt :
    ¬∀ (s s' : System Script) (op : Opcode) (status : Status), Reachable s → 0 ≤ s.machine.sp →
      s.machine.next? = some op → op ≠ .output → Session.step s = .ok status s' →
      s'.machine.sp = -1 → status = .halted ∧ Machine.haltAddress ≤ s'.machine.ip := by
  intro halways
  obtain ⟨s, hs⟩ : ∃ s : System Script, s = ⟨.loaded .base [25], {}⟩ := ⟨_, rfl⟩
  have hreachable : Reachable s := hs ▸ Reachable.loaded .base _ [25] (by decide)
  have hnext : s.machine.next? = some .zret := hs ▸ Machine.next?_loaded rfl rfl
  have hsp : s.machine.data.top = 0 := hs ▸ rfl
  have hrp : s.machine.returns.top = 0 := hs ▸ rfl
  have hflag : s.machine.data.look 0 = 0 := hs ▸ rfl
  have hback : s.machine.returns.look 0 = 0 := hs ▸ rfl
  have hstep : Yields (Session.step s) (fun status s' => status = .running ∧ s'.machine.sp = -1)
      (fun _ _ => False) := by
    rw [Session.yields_step_of_next hnext]
    refine Session.yields_liftM.mpr (Action.yields_goBackOnZero.mpr ?_)
    have hrunning : 1 < Machine.haltAddress := by decide
    simp [Machine.sp, Machine.status_eq, hsp, hrp, hflag, hback, hrunning]
  obtain ⟨status, s', hok, rfl, hcrossed⟩ := hstep.exists_ok
  have hhalted := (halways s s' .zret .running hreachable (Int.le_of_eq hsp.symm) hnext (by decide)
    hok hcrossed).1
  exact Status.noConfusion hhalted

end CellMachine
