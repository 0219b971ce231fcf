import CellMachine.Proofs.GuardsHold
import CellMachine.Proofs.PointerBalance

/-!
# Stacks past their last cell

A stack pointer that has moved past the last cell never comes back. Every instruction that takes a
value away reads the top first, and there is no cell there to read; what it does before that only
moves a pointer further up. So the cells of such a stack are as they will be, and only the
instructions that have no use for the stack end well.
-/

namespace CellMachine

namespace Stack

variable {n : Nat} {s t u : Stack n}

/-- The second stack has the cells of the first, and its pointer is not lower. -/
structure Raised (s t : Stack n) : Prop where
  cells : t.cells = s.cells
  top : s.top ≤ t.top

@[simp] theorem Raised.refl (s : Stack n) : Raised s s :=
  ⟨rfl, Int.le_refl _⟩

theorem Raised.trans (h : Raised s t) (h' : Raised t u) : Raised s u :=
  ⟨h'.cells.trans h.cells, Int.le_trans h.top h'.top⟩

@[simp] theorem raised_raise (s : Stack n) : Raised s s.raise := by
  constructor
  · rfl
  · rw [top_raise]
    omega

/-- With the pointer past the last cell, the entries are all cells above the floor. -/
theorem entries_of_full (hfull : n ≤ s.top) : s.entries = s.cells.toList.drop 1 := by
  rw [entries_eq, List.take_of_length_le]
  simp
  omega

end Stack

/-! ## Instructions -/

/-- An opcode that has no use for the data stack, and a place to go back to if it is a return. -/
def Machine.Spares (m : Machine) (op : Opcode) : Prop :=
  op ∈ [.nop, .stop, .cjump] ∨ op = .ret ∧ 0 ≤ m.returns.top ∧ m.returns.top < 128

/-- An opcode that remembers an address or a value, or takes it back. -/
def Machine.Returns (m : Machine) (op : Opcode) : Prop :=
  op ∈ [.push, .pop, .call, .ccall, .ret] ∨ op = .zret ∧ m.data.look 0 = 0

namespace Opcode

variable {here : Cell} {op : Opcode} {m : Machine} {x : Action Unit}

/-- With the data pointer past the last cell, an instruction that asks nothing of the host ends well
only if it has no use for the data stack. Otherwise it can do no more than move the pointer up. -/
theorem yields_action_full_data (hop : op.action? here = some x) (hfull : 32 ≤ m.data.top) :
    Yields (x m) (fun _ m' => m'.data = m.data ∧ m.Spares op)
      (fun _ m' => m.data.Raised m'.data ∧ ¬m.Spares op) := by
  have habove : ¬m.data.top < 0 := by omega
  have hpast : ¬m.data.top < 32 := by omega
  have hpushed : 32 ≤ m.data.top + 1 := by omega
  unfold Machine.Spares
  cases op, x, hop using Opcode.action?_cases with
  | operator op f hf =>
    rw [Action.yields_combine]
    cases op <;> simp [operator?] at hf ⊢ <;> omega
  | nop | stop => simp
  | ret =>
    rw [Action.yields_goBack]
    simp
    omega
  | drop => simp [habove, hpast]
  | lit => simp [Action.literal, hpushed]
  | pop => simp [Action.fromReturns, hpushed]
  | dup => simp [Action.duplicate, hpast]
  | swap => simp [Action.exchange, hpast]
  | push => simp [Action.toReturns, hpast]
  | jump => simp [Action.jump, hpast]
  | call => simp [Action.call, hpast]
  | ccall => simp [Action.conditionalCall, hpast]
  | fetch => simp [Action.fetch, hpast]
  | store => simp [Action.store, hpast]
  | divmod => simp [Action.divide, hpast]
  | zret => simp [Action.goBackOnZero, hpast]

/-- With the return pointer past the last cell, an instruction that asks nothing of the host ends
well only if it leaves the return stack alone. Otherwise it can do no more than move the pointer
up. -/
theorem yields_action_full_returns (hop : op.action? here = some x) (hfull : 128 ≤ m.returns.top) :
    Yields (x m) (fun _ m' => m'.returns = m.returns ∧ ¬m.Returns op)
      (fun _ m' => m.returns.Raised m'.returns) := by
  have hpast : ¬m.returns.top < 128 := by omega
  have hpushed : ¬m.returns.top + 1 < 128 := by omega
  unfold Machine.Returns
  cases op, x, hop using Opcode.action?_cases with
  | operator op f hf =>
    rw [Action.yields_combine]
    cases op <;> simp [operator?] at hf ⊢
  | nop | stop | drop => simp
  | lit => simp [Action.literal]
  | dup => simp [Action.duplicate]
  | swap => simp [Action.exchange]
  | jump => simp [Action.jump]
  | fetch => simp [Action.fetch]
  | store => simp [Action.store]
  | divmod => simp [Action.divide]
  | push => simp [Action.toReturns, hpushed]
  | call => simp [Action.call, hpushed]
  | ccall => simp [Action.conditionalCall, hpushed]
  | pop => simp [Action.fromReturns, hpast]
  | ret => simp [Action.goBack, hpast]
  | zret => simp [Action.yields_goBackOnZero, hpast]

end Opcode

section Steps

variable {δ : Type} [Host δ]

namespace Session

variable {here : Cell} {op : Opcode} {m : Machine} {host : δ}

/-- The same holds of the instructions that use a device. -/
theorem yields_execute_full_data (hfull : 32 ≤ m.data.top) :
    Yields (execute here op ⟨m, host⟩) (fun _ s' => s'.machine.data = m.data ∧ m.Spares op)
      (fun _ s' => m.data.Raised s'.machine.data ∧ ¬m.Spares op) := by
  have hdevice : op.reads = true ∨ op.emits = true → ¬m.Spares op := by
    unfold Machine.Spares
    cases op <;> simp [Opcode.reads, Opcode.emits]
  apply yields_execute_machine (P := fun m' => m'.data = m.data ∧ m.Spares op)
    (Q := fun m' => m.data.Raised m'.data ∧ ¬m.Spares op)
  · exact fun x hop => Opcode.yields_action_full_data hop hfull
  · exact fun huses => ⟨.refl _, hdevice huses⟩
  · intro hreads value
    rw [Action.yields_push]
    refine ⟨?_, ?_, fun _ => ⟨m.data.raised_raise, hdevice (.inl hreads)⟩⟩ <;> omega
  · omega
  · omega
  · rintro rfl
    exact ⟨rfl, .inl (by simp)⟩

theorem yields_execute_full_returns (hfull : 128 ≤ m.returns.top) :
    Yields (execute here op ⟨m, host⟩)
      (fun _ s' => s'.machine.returns = m.returns ∧ ¬m.Returns op)
      (fun _ s' => m.returns.Raised s'.machine.returns) := by
  have hdevice : op.reads = true ∨ op = .output ∨ op = .putc ∨ op = .cjump → ¬m.Returns op := by
    unfold Machine.Returns
    cases op <;> simp [Opcode.reads]
  apply yields_execute_machine (P := fun m' => m'.returns = m.returns ∧ ¬m.Returns op)
    (Q := fun m' => m.returns.Raised m'.returns)
  · exact fun x hop => Opcode.yields_action_full_returns hop hfull
  · exact fun _ => .refl _
  · intro hreads value
    rw [Action.yields_push]
    exact ⟨fun _ => .refl _, fun _ _ => ⟨rfl, hdevice (.inl hreads)⟩, fun _ => .refl _⟩
  · exact fun hop _ _ => ⟨rfl, hdevice (.inr (.inl hop))⟩
  · exact fun hop _ _ => ⟨rfl, hdevice (.inr (.inr (.inl hop)))⟩
  · exact fun hop => ⟨rfl, hdevice (.inr (.inr (.inr hop)))⟩

variable {s : System δ}

/-- A step that finds the data pointer past the last cell ends well exactly when its opcode has no
use for the data stack, and it leaves the cells as they are. -/
theorem yields_step_full_data (hfull : 32 ≤ s.machine.data.top)
    (hnext : s.machine.next? = some op) :
    Yields (step s) (fun _ s' => s'.machine.data = s.machine.data ∧ s.machine.Spares op)
      (fun _ s' => s.machine.data.Raised s'.machine.data ∧ ¬s.machine.Spares op) := by
  rw [yields_step_of_next hnext]
  exact yields_execute_full_data (m := s.machine.counted op) hfull

/-- A step that finds the return pointer past the last cell ends well only if its opcode leaves the
return stack alone, and it leaves the cells as they are. -/
theorem yields_step_full_returns (hfull : 128 ≤ s.machine.returns.top)
    (hnext : s.machine.next? = some op) :
    Yields (step s) (fun _ s' => s'.machine.returns = s.machine.returns ∧ ¬s.machine.Returns op)
      (fun _ s' => s.machine.returns.Raised s'.machine.returns) := by
  rw [yields_step_of_next hnext]
  exact yields_execute_full_returns (m := s.machine.counted op) hfull

theorem raised_data_step (hfull : 32 ≤ s.machine.data.top) :
    s.machine.data.Raised (stateAfter (step s)).machine.data := by
  cases hnext : s.machine.next? with
  | none =>
    rw [stateAfter_step_of_none hnext]
    exact .refl _
  | some op =>
    have hstep := yields_step_full_data hfull hnext
    cases hresult : step s with
    | ok status s' =>
      rw [stateAfter, (hstep.of_ok hresult).1]
      exact .refl _
    | error fault s' => exact (hstep.of_error hresult).1

theorem raised_returns_step (hfull : 128 ≤ s.machine.returns.top) :
    s.machine.returns.Raised (stateAfter (step s)).machine.returns := by
  cases hnext : s.machine.next? with
  | none =>
    rw [stateAfter_step_of_none hnext]
    exact .refl _
  | some op =>
    have hstep := yields_step_full_returns hfull hnext
    cases hresult : step s with
    | ok status s' =>
      rw [stateAfter, (hstep.of_ok hresult).1]
      exact .refl _
    | error fault s' => exact hstep.of_error hresult

end Session

/-! ## Histories -/

/-- A stack of every machine that no load touches, and that steps can only raise once its pointer is
past the last cell, is only raised from then on. -/
theorem accounts_raised {n : Nat} {stack : Machine → Stack n}
    (hload : ∀ m memory, stack { m with memory } = stack m)
    (hstep : ∀ s : System δ, n ≤ (stack s.machine).top →
      (stack s.machine).Raised (stack (stateAfter (Session.step s)).machine)) :
    Accounts fun m (steps : List (System δ)) m' => n ≤ (stack m).top →
      (m :: steps.map System.machine ++ [m']).Pairwise
        fun m m' => (stack m).Raised (stack m') where
  load m memory _ := by simp [hload]
  step s hfull := by
    have hraised := hstep s hfull
    simp [hraised]
  append {m m' m'' steps steps'} h h' hfull := by
    obtain ⟨hfirst, -, hlast⟩ := List.pairwise_append.mp (h hfull)
    have hend : (stack m).Raised (stack m') := hlast m List.mem_cons_self m' List.mem_cons_self
    have hrest := h' (Int.le_trans hfull hend.top)
    rw [List.cons_append, List.pairwise_cons] at hrest
    rw [List.map_append, ← List.cons_append, List.append_assoc, List.pairwise_append]
    refine ⟨hfirst, hrest.2, fun before hbefore after hafter => ?_⟩
    exact (hlast before hbefore m' List.mem_cons_self).trans (hrest.1 after hafter)

/-- The machines at all steps of operations, the first and the last included. -/
def Operation.machines (ops : List Operation) (s s' : System δ) : List Machine :=
  s.machine :: (allSteps ops s).map System.machine ++ [s'.machine]

theorem Operation.mem_machines {ops : List Operation} {s s' t : System δ}
    (h : t ∈ allSteps ops s) : t.machine ∈ machines ops s s' := by
  unfold machines
  apply List.mem_append_left
  exact List.mem_cons_of_mem _ (List.mem_map_of_mem h)

/-- Whatever the operations are, such a stack is raised from each machine to every later one. -/
theorem raised_performAll {n : Nat} (stack : Machine → Stack n)
    (hload : ∀ m memory, stack { m with memory } = stack m)
    (hstep : ∀ s : System δ, n ≤ (stack s.machine).top →
      (stack s.machine).Raised (stack (stateAfter (Session.step s)).machine))
    {s s' : System δ} {ops : List Operation} {answers : List (Except Fault Answer)}
    (hall : Operation.performAll ops s = some (answers, s')) (hfull : n ≤ (stack s.machine).top) :
    (Operation.machines ops s s').Pairwise (fun m m' => (stack m).Raised (stack m')) ∧
      ∀ m ∈ Operation.machines ops s s', (stack s.machine).Raised (stack m) := by
  have hpairs := (accounts_raised hload hstep).performAll hall hfull
  refine ⟨hpairs, fun m hm => ?_⟩
  unfold Operation.machines at hm
  rw [List.cons_append] at hm hpairs
  rcases List.mem_cons.mp hm with rfl | hlater
  · exact .refl _
  · exact (List.pairwise_cons.mp hpairs).1 m hlater

/-- Once a stack pointer is past the last cell of its stack, it never comes down again, whatever the
machine is asked to do, and the stack stays as it is. With the data pointer there, only the four
instructions that have no use for the data stack can end well. With the return pointer there, none
ends well that remembers something or takes it back. -/
theorem overflow_is_permanent {s s' : System δ} {ops : List Operation}
    {answers : List (Except Fault Answer)}
    (hall : Operation.performAll ops s = some (answers, s')) :
    (32 ≤ s.machine.sp →
      (Operation.machines ops s s').Pairwise
        (fun m m' => m'.data.cells = m.data.cells ∧ m.sp ≤ m'.sp) ∧
      (∀ m ∈ Operation.machines ops s s', m.data.entries = s.machine.data.entries) ∧
      s.machine.data.entries.length = 31 ∧
      ∀ t ∈ Operation.allSteps ops s, ∀ op, t.machine.next? = some op →
        (faultOf? (Session.step t) = none ↔ op ∈ [.nop, .stop, .cjump] ∨
          op = .ret ∧ 0 ≤ t.machine.rp ∧ t.machine.rp < 128)) ∧
    (128 ≤ s.machine.rp →
      (Operation.machines ops s s').Pairwise
        (fun m m' => m'.returns.cells = m.returns.cells ∧ m.rp ≤ m'.rp) ∧
      ∀ t ∈ Operation.allSteps ops s, ∀ op, t.machine.next? = some op →
        op ∈ [.push, .pop, .call, .ccall, .ret] ∨ op = .zret ∧ t.machine.data.look 0 = 0 →
        ∃ fault, faultOf? (Session.step t) = some fault) := by
  constructor
  · intro hfull
    obtain ⟨hpairs, hfrom⟩ := raised_performAll Machine.data (fun _ _ => rfl)
      (fun _ => Session.raised_data_step) hall hfull
    refine ⟨hpairs.imp fun h => ⟨h.cells, h.top⟩, fun m hm => ?_, ?_, fun t ht op hnext => ?_⟩
    · have hraised := hfrom m hm
      rw [Stack.entries_of_full hfull,
        Stack.entries_of_full (Int.le_trans hfull hraised.top), hraised.cells]
    · rw [Stack.entries_of_full hfull]
      simp
    · have hthere := Int.le_trans hfull (hfrom _ (Operation.mem_machines ht)).top
      have hstep := Session.yields_step_full_data hthere hnext
      cases hresult : Session.step t with
      | ok status t' => exact iff_of_true rfl (hstep.of_ok hresult).2
      | error fault t' => exact iff_of_false (by simp [faultOf?]) (hstep.of_error hresult).2
  · intro hfull
    obtain ⟨hpairs, hfrom⟩ := raised_performAll Machine.returns (fun _ _ => rfl)
      (fun _ => Session.raised_returns_step) hall hfull
    refine ⟨hpairs.imp fun h => ⟨h.cells, h.top⟩, fun t ht op hnext hreturns => ?_⟩
    have hthere := Int.le_trans hfull (hfrom _ (Operation.mem_machines ht)).top
    have hstep := Session.yields_step_full_returns hthere hnext
    cases hresult : Session.step t with
    | ok status t' => exact absurd hreturns (hstep.of_ok hresult).2
    | error fault t' => exact ⟨fault, rfl⟩

end Steps

/-! ## Overflows that are reached -/

theorem Reachable.step {δ : Type} [Host δ] {s : System δ} (h : Reachable s) :
    Reachable (stateAfter (Session.step s)) := by
  obtain ⟨data, returns, hreached⟩ := h
  have hperform : Operation.step.perform s = some ((Answer.status <$> Session.step) s) := rfl
  have hstep := hreached.perform hperform
  rw [stateAfter_map] at hstep
  exact ⟨_, _, hstep⟩

theorem Operation.performAll_step {δ : Type} [Host δ] (s : System δ) :
    ∃ answers s', performAll [.step] s = some (answers, s') :=
  ⟨_, _, rfl⟩

/-- A machine that is about to call with nothing on the data stack. -/
structure Machine.CallsEmpty (m : Machine) : Prop where
  memory : m.memory = Memory.blank.write 0 [Opcode.zret.code, Opcode.call.code]
  set : m.set = .base
  ip : m.ip = 1
  sp : m.data.top = -1

/-- Such a call stops with a fault, and has moved the return pointer up. -/
theorem Machine.CallsEmpty.step {s : System Script} (h : s.machine.CallsEmpty)
    (hlow : -1 ≤ s.machine.rp) :
    (stateAfter (Session.step s)).machine.CallsEmpty ∧
      (stateAfter (Session.step s)).machine.rp = s.machine.rp + 1 := by
  have hnext : s.machine.next? = some .call :=
    next?_of_write (i := 1) h.memory h.ip rfl (by omega) (by rw [h.set]; rfl)
  have hgrounded : (s.machine.counted .call).Grounded := ⟨by simp [h.sp], hlow⟩
  have hstops : Yields (Session.step s) (fun _ _ => False)
      (fun _ s' => s'.machine.CallsEmpty ∧ s'.machine.rp = s.machine.rp + 1) := by
    rw [Session.yields_step_of_next hnext]
    apply Session.yields_liftM.mpr
    rw [Action.yields_call hgrounded]
    refine ⟨fun _ => ⟨⟨h.memory, h.set, h.ip, h.sp⟩, rfl⟩, fun _ => ⟨fun _ => ?_, ?_, ?_⟩⟩
    · exact ⟨⟨h.memory, h.set, h.ip, h.sp⟩, rfl⟩
    · simp [h.sp]
    · simp [h.sp]
  obtain ⟨fault, s', hstep, hstopped⟩ := hstops.exists_error
  rw [hstep]
  exact hstopped

/-- The return pointer of a machine can be anywhere above the floor. -/
theorem reachable_rp (k : Nat) : ∃ s : System Script, Reachable s ∧ s.machine.CallsEmpty ∧
    s.machine.rp = k - 1 := by
  induction k with
  | zero =>
    obtain ⟨s, hs⟩ : ∃ s : System Script,
        s = ⟨.loaded .base [Opcode.zret.code, Opcode.call.code], {}⟩ := ⟨_, rfl⟩
    have hreachable : Reachable s := by
      rw [hs]
      exact Reachable.loaded .base _ _ (Nat.le_of_ble_eq_true rfl)
    have hnext : s.machine.next? = some .zret := by
      rw [hs]
      exact Machine.next?_loaded rfl rfl
    have htop : s.machine.data.top = 0 ∧ s.machine.returns.top = 0 := by simp [hs, Machine.loaded]
    have hzero : s.machine.data.look 0 = 0 ∧ s.machine.returns.look 0 = 0 := by
      rw [hs]
      exact ⟨rfl, rfl⟩
    have hback : Yields (Session.step s)
        (fun _ s' => s'.machine.memory = s.machine.memory ∧ s'.machine.set = s.machine.set ∧
          s'.machine.ip = 1 ∧ s'.machine.data.top = -1 ∧ s'.machine.returns.top = -1)
        (fun _ _ => False) := by
      rw [Session.yields_step_of_next hnext]
      apply Session.yields_liftM.mpr
      apply Action.yields_goBackOnZero.mpr
      simp [htop, hzero]
    obtain ⟨status, s', hstep, hmemory, hset, hip, hsp, hrp⟩ := hback.exists_ok
    have hempty : s'.machine.CallsEmpty := by
      refine ⟨hmemory.trans ?_, hset.trans ?_, hip, hsp⟩
      · rw [hs, Machine.loaded]
      · rw [hs, Machine.loaded]
    have hafter : stateAfter (Session.step s) = s' := by rw [hstep, stateAfter]
    exact ⟨s', hafter ▸ hreachable.step, hempty, hrp⟩
  | succ k ih =>
    obtain ⟨s, hreachable, hempty, hrp⟩ := ih
    obtain ⟨hempty', hrp'⟩ := hempty.step (by omega)
    refine ⟨_, hreachable.step, hempty', ?_⟩
    rw [hrp', hrp]
    push_cast
    omega

/-- Both overflows are reached, and a step does not undo them. -/
theorem overflow_is_permanent_past_both_stacks :
    (∃ (s s' : System Script) (answers : List (Except Fault Answer)), Reachable s ∧
      s.machine.sp = 32 ∧ Operation.performAll [.step] s = some (answers, s') ∧
      32 ≤ s'.machine.sp ∧ s'.machine.data.cells = s.machine.data.cells ∧
      s'.machine.data.entries.length = 31) ∧
    ∃ (s s' : System Script) (answers : List (Except Fault Answer)), Reachable s ∧
      s.machine.rp = 128 ∧ Operation.performAll [.step] s = some (answers, s') ∧
      128 ≤ s'.machine.rp ∧ s'.machine.returns.cells = s.machine.returns.cells := by
  constructor
  · obtain ⟨s, htop, -, hreached⟩ := Script.reached_unheard_overflow
    obtain ⟨answers, s', hall⟩ := Operation.performAll_step s
    obtain ⟨hpairs, hentries, hlength, -⟩ := (overflow_is_permanent hall).1 (by omega)
    obtain ⟨hcells, hraised⟩ := (List.pairwise_cons.mp hpairs).1 s'.machine (by simp)
    rw [← hentries s'.machine (by simp [Operation.machines])] at hlength
    exact ⟨s, s', answers, ⟨_, _, hreached⟩, htop, hall, by omega, hcells, hlength⟩
  · obtain ⟨s, hreachable, -, hrp⟩ := reachable_rp 129
    obtain ⟨answers, s', hall⟩ := Operation.performAll_step s
    obtain ⟨hpairs, -⟩ := (overflow_is_permanent hall).2 (by omega)
    obtain ⟨hcells, hraised⟩ := (List.pairwise_cons.mp hpairs).1 s'.machine (by simp)
    exact ⟨s, s', answers, hreachable, by omega, hall, by omega, hcells⟩

end CellMachine
