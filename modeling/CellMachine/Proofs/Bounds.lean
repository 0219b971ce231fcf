import CellMachine.Proofs.History

/-!
# How far the stack pointers go

A push moves its pointer before it looks for a cell, and a fault does not take the pointer back. So
a pointer can come to lie past the last cell of its stack, but no further than one cell for each
overflow so far, and it never lies lower than right below the floor.
-/

namespace CellMachine

namespace Machine

/-- The stack pointers of a machine lie as far up as a number of overflows of each stack allows,
and not too low. -/
def Within (data returns : Nat) (m : Machine) : Prop :=
  (-1 ≤ m.data.top ∧ m.data.top ≤ 31 + data) ∧ (-1 ≤ m.returns.top ∧ m.returns.top ≤ 127 + returns)

namespace Within

variable {data returns : Nat} {m : Machine}

theorem grounded (h : m.Within data returns) : m.Grounded :=
  ⟨h.1.1, h.2.1⟩

/-- More overflows allow no less. -/
theorem more (h : m.Within data returns) (data' returns' : Nat) :
    m.Within (data + data') (returns + returns') := by
  simp only [Within] at h ⊢
  omega

theorem lowered (h : m.Within data returns) (htop : 0 ≤ m.data.top) :
    { m with data := m.data.lower }.Within data returns := by
  simp only [Within, Stack.top_lower] at h ⊢
  omega

theorem loweredReturn (h : m.Within data returns) (htop : 0 ≤ m.returns.top) :
    { m with returns := m.returns.lower }.Within data returns := by
  simp only [Within, Stack.top_lower] at h ⊢
  omega

theorem dropped (h : m.Within data returns) (htop : 0 ≤ m.data.top) :
    m.dropped.Within data returns :=
  h.lowered htop

theorem dropped_dropped (h : m.Within data returns) (htop : 1 ≤ m.data.top) :
    m.dropped.dropped.Within data returns := by
  have hfirst : m.dropped.Within data returns := h.dropped (by omega)
  refine hfirst.dropped ?_
  rw [data_dropped, Stack.top_lower, Stack.top_put]
  omega

theorem pushed (h : m.Within data returns) (hroom : m.data.top < 31) :
    { m with data := m.data.raise }.Within data returns := by
  simp only [Within, Stack.top_raise] at h ⊢
  omega

theorem remembered (h : m.Within data returns) (hroom : m.returns.top < 127) :
    { m with returns := m.returns.raise }.Within data returns := by
  simp only [Within, Stack.top_raise] at h ⊢
  omega

/-- A push that finds no cell is one more overflow. -/
theorem overflowed (h : m.Within data returns) :
    { m with data := m.data.raise }.Within (data + 1) returns := by
  simp only [Within, Stack.top_raise] at h ⊢
  omega

theorem overflowedReturn (h : m.Within data returns) :
    { m with returns := m.returns.raise }.Within data (returns + 1) := by
  simp only [Within, Stack.top_raise] at h ⊢
  omega

end Within

end Machine

/-- The stack pointers stay as far up as the overflows allow, the last one included. -/
def Bounded (data returns : Nat) (result : EStateM.Result Fault Machine Unit) : Prop :=
  Yields result (fun _ m => m.Within data returns)
    (fun fault m => m.Within (data + fault.overflows .data) (returns + fault.overflows .ret))

namespace Action

variable {m : Machine} {here : Cell} {data returns : Nat}

theorem bounded_literal (h : m.Within data returns) : Bounded data returns (literal here m) := by
  rw [Bounded, yields_literal h.grounded]
  exact ⟨fun _ => h, fun _ _ => ⟨fun hroom => h.pushed hroom, fun _ => h.overflowed⟩⟩

theorem bounded_duplicate (h : m.Within data returns) :
    Bounded data returns (duplicate here m) := by
  rw [Bounded, yields_duplicate]
  exact ⟨fun _ => h, fun _ hroom => h.pushed hroom, fun _ => h.overflowed, fun _ => h.more 1 0⟩

theorem bounded_drop (h : m.Within data returns) : Bounded data returns (drop here m) := by
  rw [Bounded, yields_drop]
  exact ⟨fun _ => h, fun htop _ => h.dropped htop, fun _ => h.more 1 0⟩

theorem bounded_exchange (h : m.Within data returns) :
    Bounded data returns (exchange here m) := by
  rw [Bounded, yields_exchange]
  exact ⟨fun _ => h, fun _ _ => h, fun _ => h.more 1 0⟩

theorem bounded_toReturns (h : m.Within data returns) :
    Bounded data returns (toReturns here m) := by
  rw [Bounded, yields_toReturns h.grounded]
  exact ⟨fun _ => h, fun htop _ => ⟨fun hroom => (h.remembered hroom).dropped htop,
    fun _ => h.overflowedReturn⟩, fun _ => h.more 1 0⟩

theorem bounded_fromReturns (h : m.Within data returns) :
    Bounded data returns (fromReturns here m) := by
  rw [Bounded, yields_fromReturns h.grounded]
  exact ⟨fun _ => h, fun htop _ => ⟨fun hroom => (h.pushed hroom).loweredReturn htop,
    fun _ => h.overflowed⟩, fun _ => h.more 0 1⟩

theorem bounded_jump (h : m.Within data returns) : Bounded data returns (jump here m) := by
  rw [Bounded, yields_jump]
  exact ⟨fun _ => h, fun htop _ => h.dropped htop, fun _ => h.more 1 0⟩

theorem bounded_call (h : m.Within data returns) : Bounded data returns (call here m) := by
  rw [Bounded, yields_call h.grounded]
  refine ⟨fun _ => h.overflowedReturn, fun hroom => ?_⟩
  have hcalled : m.called.Within data returns := h.remembered hroom
  exact ⟨fun _ => hcalled, fun htop _ => hcalled.dropped htop, fun _ => hcalled.more 1 0⟩

theorem bounded_conditionalCall (h : m.Within data returns) :
    Bounded data returns (conditionalCall here m) := by
  rw [Bounded, yields_conditionalCall h.grounded]
  refine ⟨fun _ => h.overflowedReturn, fun hroom => ?_⟩
  have hcalled : m.called.Within data returns := h.remembered hroom
  refine ⟨fun _ => hcalled, fun htop => hcalled.dropped (by rw [Machine.data_called]; omega),
    fun htop _ => ?_, fun _ => hcalled.more 1 0⟩
  have hsecond := hcalled.dropped_dropped htop
  exact ⟨fun _ => hsecond, fun _ => hsecond⟩

theorem bounded_goBack (h : m.Within data returns) : Bounded data returns (goBack here m) := by
  rw [Bounded, yields_goBack]
  exact ⟨fun _ => h, fun htop _ => h.loweredReturn htop, fun _ => h.more 0 1⟩

theorem bounded_goBackOnZero (h : m.Within data returns) :
    Bounded data returns (goBackOnZero here m) := by
  rw [Bounded, yields_goBackOnZero]
  refine ⟨fun _ => h, fun htop _ => ⟨fun _ => h, fun _ => ?_⟩, fun _ => h.more 1 0⟩
  have hdropped := h.dropped htop
  exact ⟨fun _ => hdropped, fun hback _ => hdropped.loweredReturn hback,
    fun _ => hdropped.more 0 1⟩

theorem bounded_combine (h : m.Within data returns) {f : Cell → Cell → Cell} :
    Bounded data returns (combine here f m) := by
  rw [Bounded, yields_combine]
  exact ⟨fun _ => h, fun htop _ => h.dropped (by omega), fun _ => h.more 1 0⟩

theorem bounded_divide (h : m.Within data returns) : Bounded data returns (divide here m) := by
  rw [Bounded, yields_divide]
  exact ⟨fun _ => h, fun _ _ => ⟨fun _ => h, fun _ => h⟩, fun _ => h.more 1 0⟩

theorem bounded_fetch (h : m.Within data returns) : Bounded data returns (fetch here m) := by
  rw [Bounded, yields_fetch]
  exact ⟨fun _ => h, fun _ _ => ⟨fun _ => h, fun _ _ => h⟩, fun _ => h.more 1 0⟩

theorem bounded_store (h : m.Within data returns) : Bounded data returns (store here m) := by
  rw [Bounded, yields_store]
  refine ⟨fun _ => h, fun htop _ => ⟨fun _ => h, fun i _ => ?_⟩, fun _ => h.more 1 0⟩
  have hstored : { m with memory := m.memory.set i (m.data.look 1) }.Within data returns :=
    ⟨h.1, h.2⟩
  exact hstored.dropped_dropped htop

end Action

namespace Session

open Machine (Within)

variable {δ : Type} {m : Machine} {host : δ} {here : Cell} {op : Opcode} {data returns : Nat}

theorem preserves_liftM {x : Action Unit} (hx : Bounded data returns (x m)) :
    Preserves Within data returns ((liftM x : Session δ Unit) ⟨m, host⟩) := by
  rw [Preserves, yields_liftM]
  exact hx

variable [Host δ]

theorem preserves_input (h : m.Within data returns) :
    Preserves Within data returns
      ((do let value ← read; Action.push here value : Session δ Unit) ⟨m, host⟩) := by
  rw [Preserves, yields_input h.grounded]
  refine .of_forall (fun _ _ => .of_forall (fun value rest => ?_) fun _ _ => h) fun _ _ => h
  exact ⟨fun hroom => h.pushed hroom, fun _ => h.overflowed⟩

theorem preserves_emit (h : m.Within data returns) :
    Preserves Within data returns (emit here ⟨m, host⟩) := by
  rw [Preserves, yields_emit]
  exact ⟨fun _ => h, fun _ _ => .of_forall (fun _ _ => h) fun _ _ => h, fun _ => h.more 1 0⟩

theorem preserves_output (h : m.Within data returns) :
    Preserves Within data returns ((do emit here; Action.lower : Session δ Unit) ⟨m, host⟩) := by
  rw [Preserves, yields_bind, yields_emit]
  exact ⟨fun _ => h, fun htop _ => .of_forall (fun _ _ => h.lowered htop) fun _ _ => h,
    fun _ => h.more 1 0⟩

/-- No instruction moves a stack pointer further than the overflows allow. -/
theorem preserves_execute (h : m.Within data returns) :
    Preserves Within data returns (execute here op ⟨m, host⟩) := by
  cases hop : op.operator? with
  | some f =>
    rw [execute_operator (δ := δ) hop]
    exact preserves_liftM (Action.bounded_combine h)
  | none =>
    cases op with
    | nop => exact h
    | lit => exact preserves_liftM (Action.bounded_literal h)
    | dup => exact preserves_liftM (Action.bounded_duplicate h)
    | drop => exact preserves_liftM (Action.bounded_drop h)
    | swap => exact preserves_liftM (Action.bounded_exchange h)
    | push => exact preserves_liftM (Action.bounded_toReturns h)
    | pop => exact preserves_liftM (Action.bounded_fromReturns h)
    | jump => exact preserves_liftM (Action.bounded_jump h)
    | call => exact preserves_liftM (Action.bounded_call h)
    | ccall => exact preserves_liftM (Action.bounded_conditionalCall h)
    | ret => exact preserves_liftM (Action.bounded_goBack h)
    | fetch => exact preserves_liftM (Action.bounded_fetch h)
    | store => exact preserves_liftM (Action.bounded_store h)
    | divmod => exact preserves_liftM (Action.bounded_divide h)
    | zret => exact preserves_liftM (Action.bounded_goBackOnZero h)
    | stop => exact h
    | input => exact preserves_input h
    | getc => exact preserves_input h
    | output => exact preserves_output h
    | putc => exact preserves_emit h
    | cjump => exact h
    | _ => simp [Opcode.operator?] at hop

theorem preserves_step {s : System δ} (h : s.machine.Within data returns) :
    Preserves Within data returns (step s) := by
  rw [Preserves, yields_step]
  refine ⟨fun _ => h, fun _ => ⟨fun _ => h, fun _ _ _ => h, fun op _ => ?_⟩⟩
  rw [yields_dispatch]
  have hcounted : (s.machine.counted op).Within data returns := h
  exact (preserves_execute hcounted).imp (fun _ _ hdone => hdone) (fun _ _ hstopped => hstopped)

end Session

/-- Along every history, a stack pointer lies no further up than one cell past the last cell of its
stack for each overflow, and no lower than right below the floor. -/
theorem Reached.within {δ : Type} [Host δ] {s : System δ} {data returns : Nat}
    (h : Reached Operation.raised? s data returns) : s.machine.Within data returns := by
  refine Reached.induction Machine.Within (fun set => ?_) (fun _ _ _ _ hm => ⟨hm.1, hm.2⟩)
    (fun _ _ s hs => Session.preserves_step hs) h
  simp [Machine.Within]

/-- The pointers of a system that a history leads to are grounded. -/
theorem Reachable.grounded {δ : Type} [Host δ] {s : System δ} (h : Reachable s) :
    s.machine.Grounded := by
  obtain ⟨data, returns, hreached⟩ := h
  exact hreached.within.grounded

end CellMachine
