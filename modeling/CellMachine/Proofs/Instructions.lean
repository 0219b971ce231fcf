import CellMachine.Proofs.Outcome

/-!
# Rules of the instructions

One rule for each instruction that needs no device. A rule lists everything that the instruction
can come to, by the positions of the two stack pointers and the values that it reads, and names
the machine that is left behind in each case. Statements about instructions are read off these
rules and do not look into the instructions again.

A pointer that lies at most one cell below the floor can be raised to a cell. This is all that the
rules of the instructions that push need to know, and `Machine.Grounded` says it of a machine.
-/

namespace CellMachine

namespace Machine

/-- Neither stack pointer lies more than one cell below the floor. -/
structure Grounded (m : Machine) : Prop where
  /-- The data stack pointer. -/
  data : -1 ≤ m.data.top
  /-- The return stack pointer. -/
  returns : -1 ≤ m.returns.top

/-- The machine after its next address was put on the return stack. -/
def called (m : Machine) : Machine :=
  { m with returns := m.returns.raise.put 0 m.ip }

@[simp] theorem data_called (m : Machine) : m.called.data = m.data :=
  rfl

@[simp] theorem returns_called (m : Machine) :
    m.called.returns = m.returns.raise.put 0 m.ip :=
  rfl

@[simp] theorem ip_called (m : Machine) : m.called.ip = m.ip :=
  rfl

@[simp] theorem data_dropped (m : Machine) : m.dropped.data = (m.data.put 0 0).lower :=
  rfl

@[simp] theorem returns_dropped (m : Machine) : m.dropped.returns = m.returns :=
  rfl

@[simp] theorem memory_dropped (m : Machine) : m.dropped.memory = m.memory :=
  rfl

@[simp] theorem set_dropped (m : Machine) : m.dropped.set = m.set :=
  rfl

@[simp] theorem statistics_dropped (m : Machine) : m.dropped.statistics = m.statistics :=
  rfl

/-- A drop halts the machine exactly when it takes the floor cell. -/
theorem ip_dropped (m : Machine) :
    m.dropped.ip = if m.data.top = 0 then haltAddress else m.ip :=
  rfl

end Machine

/-- What lies under the top is on top after a drop. -/
theorem Stack.look_zero_lower {n : Nat} {s : Stack n} (hdeep : 1 ≤ s.top) (value : Cell) :
    (s.put 0 value).lower.look 0 = s.look 1 := by
  have hne : s.top.toNat ≠ s.top.toNat - 1 := by omega
  simp [look, put, lower, Vector.getElem?_setIfInBounds_ne hne]

namespace Action

variable {here : Cell} {m : Machine} {stopped : Fault → Machine → Prop}
  {done : Unit → Machine → Prop}

theorem yields_literal (h : m.Grounded) :
    Yields (literal here m) done stopped ↔
      (m.memory.get? (m.ip + 1) = none →
        stopped (.outOfBounds here (m.ip + 1)) { m with ip := m.ip + 1 }) ∧
      ∀ v, m.memory.get? (m.ip + 1) = some v →
        (m.data.top < 31 →
          done () { m with ip := m.ip + 1, data := m.data.raise.put 0 v }) ∧
        (31 ≤ m.data.top →
          stopped (.stackOverflow .data here)
            { m with ip := m.ip + 1, data := m.data.raise }) := by
  have hdata := h.data
  simp only [literal, yields_bind, yields_advance, yields_address, yields_load, yields_push]
  grind

theorem yields_duplicate :
    Yields (duplicate here m) done stopped ↔
      (m.data.top < 0 → stopped (.stackUnderflow .data here) m) ∧
      (0 ≤ m.data.top → m.data.top < 31 →
        done () { m with data := m.data.raise.put 0 (m.data.look 0) }) ∧
      (m.data.top = 31 → stopped (.stackOverflow .data here) { m with data := m.data.raise }) ∧
      (32 ≤ m.data.top → stopped (.stackOverflow .data here) m) := by
  simp only [duplicate, yields_bind, yields_peek, yields_push]
  grind

theorem yields_exchange :
    Yields (exchange here m) done stopped ↔
      (m.data.top < 1 → stopped (.stackUnderflow .data here) m) ∧
      (1 ≤ m.data.top → m.data.top < 32 →
        done () { m with data := (m.data.put 0 (m.data.look 1)).put 1 (m.data.look 0) }) ∧
      (32 ≤ m.data.top → stopped (.stackOverflow .data here) m) := by
  simp only [exchange, yields_bind, yields_peek, yields_poke, Stack.top_put]
  grind

theorem yields_toReturns (h : m.Grounded) :
    Yields (toReturns here m) done stopped ↔
      (m.data.top < 0 → stopped (.stackUnderflow .data here) m) ∧
      (0 ≤ m.data.top → m.data.top < 32 →
        (m.returns.top < 127 →
          done () { m with returns := m.returns.raise.put 0 (m.data.look 0) }.dropped) ∧
        (127 ≤ m.returns.top →
          stopped (.stackOverflow .ret here) { m with returns := m.returns.raise })) ∧
      (32 ≤ m.data.top → stopped (.stackOverflow .data here) m) := by
  have hreturns := h.returns
  simp only [toReturns, yields_bind, yields_peek, yields_pushReturn, yields_drop]
  grind

theorem yields_fromReturns (h : m.Grounded) :
    Yields (fromReturns here m) done stopped ↔
      (m.returns.top < 0 → stopped (.stackUnderflow .ret here) m) ∧
      (0 ≤ m.returns.top → m.returns.top < 128 →
        (m.data.top < 31 →
          done () { m with
            data := m.data.raise.put 0 (m.returns.look 0), returns := m.returns.lower }) ∧
        (31 ≤ m.data.top →
          stopped (.stackOverflow .data here) { m with data := m.data.raise })) ∧
      (128 ≤ m.returns.top → stopped (.stackOverflow .ret here) m) := by
  have hdata := h.data
  simp only [fromReturns, yields_bind, yields_peekReturn, yields_push, yields_lowerReturn]
  grind

theorem yields_jump :
    Yields (jump here m) done stopped ↔
      (m.data.top < 0 → stopped (.stackUnderflow .data here) m) ∧
      (0 ≤ m.data.top → m.data.top < 32 →
        done () { m with ip := m.data.look 0 - 1 }.dropped) ∧
      (32 ≤ m.data.top → stopped (.stackOverflow .data here) m) := by
  simp only [jump, yields_bind, yields_peek, yields_continueAt, yields_drop]
  grind

theorem yields_call (h : m.Grounded) :
    Yields (call here m) done stopped ↔
      (127 ≤ m.returns.top →
        stopped (.stackOverflow .ret here) { m with returns := m.returns.raise }) ∧
      (m.returns.top < 127 →
        (m.data.top < 0 → stopped (.stackUnderflow .data here) m.called) ∧
        (0 ≤ m.data.top → m.data.top < 32 →
          done () { m.called with ip := m.data.look 0 - 1 }.dropped) ∧
        (32 ≤ m.data.top → stopped (.stackOverflow .data here) m.called)) := by
  have hreturns := h.returns
  simp only [call, yields_bind, yields_address, yields_pushReturn, yields_peek, yields_continueAt,
    yields_drop, Machine.called]
  grind

/-- The flag of a conditional call is what lies under the target. When it is not zero, its drop
has no say in where the machine goes on. -/
theorem yields_conditionalCall (h : m.Grounded) :
    Yields (conditionalCall here m) done stopped ↔
      (127 ≤ m.returns.top →
        stopped (.stackOverflow .ret here) { m with returns := m.returns.raise }) ∧
      (m.returns.top < 127 →
        (m.data.top < 0 → stopped (.stackUnderflow .data here) m.called) ∧
        (m.data.top = 0 → stopped (.stackUnderflow .data here) m.called.dropped) ∧
        (1 ≤ m.data.top → m.data.top < 32 →
          (m.data.look 1 = 0 → done () m.called.dropped.dropped) ∧
          (m.data.look 1 ≠ 0 →
            done () { m.called.dropped.dropped with ip := m.data.look 0 - 1 })) ∧
        (32 ≤ m.data.top → stopped (.stackOverflow .data here) m.called)) := by
  have hreturns := h.returns
  have hflag : 1 ≤ m.data.top → (m.data.put 0 0).lower.look 0 = m.data.look 1 :=
    fun hdeep => Stack.look_zero_lower hdeep 0
  simp only [conditionalCall, yields_bind, yields_address, yields_pushReturn, yields_pop,
    yields_ite, yields_continueAt, yields_pure, Machine.data_dropped, Stack.top_lower,
    Stack.top_put, Machine.called]
  grind

theorem yields_goBack :
    Yields (goBack here m) done stopped ↔
      (m.returns.top < 0 → stopped (.stackUnderflow .ret here) m) ∧
      (0 ≤ m.returns.top → m.returns.top < 128 →
        done () { m with ip := m.returns.look 0, returns := m.returns.lower }) ∧
      (128 ≤ m.returns.top → stopped (.stackOverflow .ret here) m) := by
  simp only [goBack, yields_bind, yields_peekReturn, yields_continueAt, yields_lowerReturn]

/-- The zero is dropped before the return stack is read, so that it is gone when there is nothing
to go back to. -/
theorem yields_goBackOnZero :
    Yields (goBackOnZero here m) done stopped ↔
      (m.data.top < 0 → stopped (.stackUnderflow .data here) m) ∧
      (0 ≤ m.data.top → m.data.top < 32 →
        (m.data.look 0 ≠ 0 → done () m) ∧
        (m.data.look 0 = 0 →
          (m.returns.top < 0 → stopped (.stackUnderflow .ret here) m.dropped) ∧
          (0 ≤ m.returns.top → m.returns.top < 128 →
            done () { m.dropped with ip := m.returns.look 0, returns := m.returns.lower }) ∧
          (128 ≤ m.returns.top → stopped (.stackOverflow .ret here) m.dropped))) ∧
      (32 ≤ m.data.top → stopped (.stackOverflow .data here) m) := by
  simp only [goBackOnZero, yields_bind, yields_peek, yields_ite, yields_drop, yields_goBack,
    yields_pure, Machine.returns_dropped]
  grind

theorem yields_combine {op : Cell → Cell → Cell} :
    Yields (combine here op m) done stopped ↔
      (m.data.top < 1 → stopped (.stackUnderflow .data here) m) ∧
      (1 ≤ m.data.top → m.data.top < 32 →
        done ()
          { m with data := m.data.put 1 (op (m.data.look 1) (m.data.look 0)) }.dropped) ∧
      (32 ≤ m.data.top → stopped (.stackOverflow .data here) m) := by
  simp only [combine, yields_bind, yields_peek, yields_poke, yields_drop, Stack.top_put]
  grind

theorem yields_divide :
    Yields (divide here m) done stopped ↔
      (m.data.top < 1 → stopped (.stackUnderflow .data here) m) ∧
      (1 ≤ m.data.top → m.data.top < 32 →
        (m.data.look 0 = 0 → stopped (.divisionByZero here) m) ∧
        (m.data.look 0 ≠ 0 →
          done () { m with
            data := (m.data.put 0 (m.data.look 1 / m.data.look 0)).put 1
              (m.data.look 1 % m.data.look 0) })) ∧
      (32 ≤ m.data.top → stopped (.stackOverflow .data here) m) := by
  simp only [divide, yields_bind, yields_peek, yields_poke, yields_ite, yields_throw,
    Stack.top_put]
  grind

theorem yields_fetch :
    Yields (fetch here m) done stopped ↔
      (m.data.top < 0 → stopped (.stackUnderflow .data here) m) ∧
      (0 ≤ m.data.top → m.data.top < 32 →
        (m.memory.get? (m.data.look 0) = none →
          stopped (.outOfBounds here (m.data.look 0)) m) ∧
        ∀ v, m.memory.get? (m.data.look 0) = some v →
          done () { m with data := m.data.put 0 v }) ∧
      (32 ≤ m.data.top → stopped (.stackOverflow .data here) m) := by
  simp only [fetch, yields_bind, yields_peek, yields_load, yields_poke]
  grind

theorem yields_store :
    Yields (store here m) done stopped ↔
      (m.data.top < 1 → stopped (.stackUnderflow .data here) m) ∧
      (1 ≤ m.data.top → m.data.top < 32 →
        (Memory.locate? (m.data.look 0) = none →
          stopped (.outOfBounds here (m.data.look 0)) m) ∧
        ∀ i, Memory.locate? (m.data.look 0) = some i →
          done () { m with memory := m.memory.set i (m.data.look 1) }.dropped.dropped) ∧
      (32 ≤ m.data.top → stopped (.stackOverflow .data here) m) := by
  simp only [store, yields_bind, yields_peek, yields_save, yields_drop, Machine.data_dropped,
    Stack.top_lower, Stack.top_put]
  grind

end Action

end CellMachine
