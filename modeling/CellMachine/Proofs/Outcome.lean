import CellMachine.System.Step

/-!
# Outcomes of actions and sessions

An action either gives a value or stops with a fault, and leaves a machine behind in both cases.
`Yields` asks one thing of the first case and another of the second. This file has one rule for
each part that instructions are made of, so that what holds after an instruction is found by
rewriting with the rules of its parts.

The rules name the machine that a part leaves behind. For that, `Stack.look` and `Stack.put` read
and write at a depth without asking whether there is a cell.
-/

namespace CellMachine

/-- A result that gives a value satisfies `done`, and one that stops satisfies `stopped`. -/
def Yields {ε σ α : Type} (result : EStateM.Result ε σ α) (done : α → σ → Prop)
    (stopped : ε → σ → Prop) : Prop :=
  match result with
  | .ok a s => done a s
  | .error e s => stopped e s

section Monad

variable {ε σ α β : Type} {done : α → σ → Prop} {done' : β → σ → Prop} {stopped : ε → σ → Prop}

/-- A result that satisfies a condition satisfies a weaker one. -/
theorem Yields.imp {result : EStateM.Result ε σ α} {weaker : α → σ → Prop}
    {weakerStopped : ε → σ → Prop} (h : Yields result done stopped)
    (hdone : ∀ a s, done a s → weaker a s) (hstopped : ∀ e s, stopped e s → weakerStopped e s) :
    Yields result weaker weakerStopped := by
  cases result with
  | ok a s => exact hdone a s h
  | error e s => exact hstopped e s h

/-- What holds of the value and the state of a result that gives one. -/
theorem Yields.of_ok {result : EStateM.Result ε σ α} {a : α} {s : σ}
    (h : Yields result done stopped) (hok : result = .ok a s) : done a s := by
  subst hok
  exact h

/-- What holds of the fault and the state of a result that stops. -/
theorem Yields.of_error {result : EStateM.Result ε σ α} {e : ε} {s : σ}
    (h : Yields result done stopped) (herror : result = .error e s) : stopped e s := by
  subst herror
  exact h

@[simp] theorem yields_pure {a : α} {s : σ} :
    Yields ((pure a : EStateM ε σ α) s) done stopped ↔ done a s :=
  Iff.rfl

@[simp] theorem yields_throw {e : ε} {s : σ} :
    Yields ((throw e : EStateM ε σ α) s) done stopped ↔ stopped e s :=
  Iff.rfl

/-- What holds of every value and every fault holds of a result. -/
theorem Yields.of_forall {result : EStateM.Result ε σ α} (hdone : ∀ a s, done a s)
    (hstopped : ∀ e s, stopped e s) : Yields result done stopped := by
  cases result with
  | ok a s => exact hdone a s
  | error e s => exact hstopped e s

/-- A result that cannot stop gives a value. -/
theorem Yields.exists_ok {result : EStateM.Result ε σ α}
    (h : Yields result done (fun _ _ => False)) : ∃ a s, result = .ok a s ∧ done a s := by
  cases result with
  | ok a s => exact ⟨a, s, rfl, h⟩
  | error e s => exact h.elim

/-- A result that cannot give a value stops. -/
theorem Yields.exists_error {result : EStateM.Result ε σ α}
    (h : Yields result (fun _ _ => False) stopped) : ∃ e s, result = .error e s ∧ stopped e s := by
  cases result with
  | ok a s => exact h.elim
  | error e s => exact ⟨e, s, rfl, h⟩

/-- What comes after is done only if the first part gives a value. -/
theorem bind_apply (x : EStateM ε σ α) (f : α → EStateM ε σ β) (s : σ) :
    (x >>= f) s = match x s with
      | .ok a t => f a t
      | .error e t => .error e t := by
  change EStateM.bind x f s = _
  cases h : x s <;> simp only [EStateM.bind, h]

@[simp] theorem yields_bind {x : EStateM ε σ α} {f : α → EStateM ε σ β} {s : σ} :
    Yields ((x >>= f) s) done' stopped ↔
      Yields (x s) (fun a t => Yields (f a t) done' stopped) stopped := by
  rw [bind_apply]
  cases x s <;> simp [Yields]

@[simp] theorem yields_ite {c : Prop} [Decidable c] {x y : EStateM ε σ α} {s : σ} :
    Yields ((if c then x else y) s) done stopped ↔
      (c → Yields (x s) done stopped) ∧ (¬c → Yields (y s) done stopped) := by
  by_cases h : c <;> simp [h]

end Monad

namespace Stack

variable {n : Nat}

/-- The value that lies `depth` cells below the top, or zero where there is no cell. -/
def look (s : Stack n) (depth : Nat) : Cell :=
  s.cells[(s.top - depth).toNat]?.getD 0

/-- Replaces the value that lies `depth` cells below the top, if there is a cell. -/
def put (s : Stack n) (depth : Nat) (value : Cell) : Stack n :=
  { s with cells := s.cells.setIfInBounds (s.top - depth).toNat value }

@[simp] theorem top_put (s : Stack n) (depth : Nat) (value : Cell) :
    (s.put depth value).top = s.top :=
  rfl

@[simp] theorem top_raise (s : Stack n) : s.raise.top = s.top + 1 :=
  rfl

@[simp] theorem top_lower (s : Stack n) : s.lower.top = s.top - 1 :=
  rfl

@[simp] theorem cells_raise (s : Stack n) : s.raise.cells = s.cells :=
  rfl

@[simp] theorem cells_lower (s : Stack n) : s.lower.cells = s.cells :=
  rfl

/-- The cell that an operation finds is the one that `look` reads and `put` writes. -/
theorem slot_spec {s : Stack n} {depth : Nat} {i : Fin n} (h : s.slot depth = .ok i) :
    s.cells[i] = s.look depth ∧ ∀ value, s.set i value = s.put depth value := by
  have htop := slot_eq_ok_iff.mp h
  have hat : (s.top - depth).toNat = i := by omega
  constructor
  · simp [look, hat]
  · intro value
    simp [set, put, hat, Vector.setIfInBounds, Vector.set, Array.setIfInBounds]

/-- An operation finds a cell, or it misses on one of the two sides of the stack. -/
theorem slot_cases (s : Stack n) (depth : Nat) :
    (s.top < depth ∧ s.slot depth = .error .underflow) ∨
      ((depth : Int) ≤ s.top ∧ s.top < n + depth ∧ ∃ i, s.slot depth = .ok i) ∨
        ((n + depth : Int) ≤ s.top ∧ s.slot depth = .error .overflow) := by
  rcases Int.lt_or_le s.top depth with hlow | hlow
  · exact .inl ⟨hlow, slot_eq_underflow_iff.mpr hlow⟩
  · rcases Int.lt_or_le s.top (n + depth) with hhigh | hhigh
    · refine .inr (.inl ⟨hlow, hhigh, ⟨(s.top - depth).toNat, by omega⟩, ?_⟩)
      exact slot_eq_ok_iff.mpr (by simp only; omega)
    · exact .inr (.inr ⟨hhigh, slot_eq_overflow_iff.mpr hhigh⟩)

end Stack

namespace Machine

/-- The machine after the top of its data stack, which exists, was dropped. -/
def dropped (m : Machine) : Machine :=
  { m with data := (m.data.put 0 0).lower, ip := if m.data.top = 0 then haltAddress else m.ip }

end Machine

namespace Action

variable {α : Type} {here value target : Cell} {depth : Nat} {m : Machine} {op : Opcode}
  {stopped : Fault → Machine → Prop}

section Registers

variable {done : Unit → Machine → Prop}

@[simp] theorem yields_address {done : Cell → Machine → Prop} :
    Yields (address m) done stopped ↔ done m.ip m :=
  Iff.rfl

@[simp] theorem yields_continueAt :
    Yields (continueAt target m) done stopped ↔ done () { m with ip := target } :=
  Iff.rfl

@[simp] theorem yields_advance :
    Yields (advance m) done stopped ↔ done () { m with ip := m.ip + 1 } :=
  Iff.rfl

@[simp] theorem yields_halt :
    Yields (halt m) done stopped ↔ done () { m with ip := Machine.haltAddress } :=
  Iff.rfl

@[simp] theorem yields_lower :
    Yields (lower m) done stopped ↔ done () { m with data := m.data.lower } :=
  Iff.rfl

@[simp] theorem yields_lowerReturn :
    Yields (lowerReturn m) done stopped ↔ done () { m with returns := m.returns.lower } :=
  Iff.rfl

end Registers

/-! ## The data stack -/

/-- A read at a depth gives a value, or misses below the floor or past the last cell. -/
@[simp] theorem yields_peek {done : Cell → Machine → Prop} :
    Yields (peek here depth m) done stopped ↔
      (m.data.top < depth → stopped (.stackUnderflow .data here) m) ∧
        ((depth : Int) ≤ m.data.top → m.data.top < 32 + depth → done (m.data.look depth) m) ∧
          (32 + depth ≤ m.data.top → stopped (.stackOverflow .data here) m) := by
  unfold peek
  rcases m.data.slot_cases depth with ⟨htop, hslot⟩ | ⟨hlow, hhigh, i, hslot⟩ | ⟨htop, hslot⟩
  · simp only [hslot, Yields, Stack.Miss.fault]
    grind
  · simp only [hslot, Yields, (Stack.slot_spec hslot).1]
    grind
  · simp only [hslot, Yields, Stack.Miss.fault]
    grind

/-- A write at a depth finds a cell, or misses below the floor or past the last cell. -/
@[simp] theorem yields_poke {done : Unit → Machine → Prop} :
    Yields (poke here depth value m) done stopped ↔
      (m.data.top < depth → stopped (.stackUnderflow .data here) m) ∧
        ((depth : Int) ≤ m.data.top → m.data.top < 32 + depth →
          done () { m with data := m.data.put depth value }) ∧
          (32 + depth ≤ m.data.top → stopped (.stackOverflow .data here) m) := by
  unfold poke
  rcases m.data.slot_cases depth with ⟨htop, hslot⟩ | ⟨hlow, hhigh, i, hslot⟩ | ⟨htop, hslot⟩
  · simp only [hslot, Yields, Stack.Miss.fault]
    grind
  · simp only [hslot, Yields, (Stack.slot_spec hslot).2]
    grind
  · simp only [hslot, Yields, Stack.Miss.fault]
    grind

/-- A push moves the pointer first, and only then looks for a cell. -/
@[simp] theorem yields_push {done : Unit → Machine → Prop} :
    Yields (push here value m) done stopped ↔
      (m.data.top + 1 < 0 → stopped (.stackUnderflow .data here) { m with data := m.data.raise }) ∧
        (0 ≤ m.data.top + 1 → m.data.top + 1 < 32 →
          done () { m with data := m.data.raise.put 0 value }) ∧
          (32 ≤ m.data.top + 1 →
            stopped (.stackOverflow .data here) { m with data := m.data.raise }) := by
  have hraise : Yields (push here value m) done stopped ↔
      Yields (poke here 0 value { m with data := m.data.raise }) done stopped := yields_bind
  rw [hraise, yields_poke]
  simp

/-- A drop takes the top away and halts the machine when nothing is left below it. With nothing
to drop it only halts. -/
@[simp] theorem yields_drop {done : Unit → Machine → Prop} :
    Yields (drop here m) done stopped ↔
      (m.data.top < 0 → done () { m with ip := Machine.haltAddress }) ∧
        (0 ≤ m.data.top → m.data.top < 32 → done () m.dropped) ∧
          (32 ≤ m.data.top → stopped (.stackOverflow .data here) m) := by
  have hpointer : Yields (drop here m) done stopped ↔ Yields ((if m.data.top < 0 then halt else do
      poke here 0 0
      lower
      if m.data.top = 0 then halt) m) done stopped := yields_bind
  rw [hpointer]
  by_cases hzero : m.data.top = 0
  · simp [hzero, Machine.dropped]
  · simp only [yields_ite, yields_halt, yields_bind, yields_poke, yields_lower, yields_pure, hzero,
      Machine.dropped, if_false]
    grind

/-- A pop gives the top of the data stack and drops it. -/
@[simp] theorem yields_pop {done : Cell → Machine → Prop} :
    Yields (pop here m) done stopped ↔
      (m.data.top < 0 → stopped (.stackUnderflow .data here) m) ∧
        (0 ≤ m.data.top → m.data.top < 32 → done (m.data.look 0) m.dropped) ∧
          (32 ≤ m.data.top → stopped (.stackOverflow .data here) m) := by
  simp only [pop, yields_bind, yields_peek, yields_drop, yields_pure]
  grind

/-! ## The return stack -/

/-- A read of the top gives a value, or misses below the floor or past the last cell. -/
@[simp] theorem yields_peekReturn {done : Cell → Machine → Prop} :
    Yields (peekReturn here m) done stopped ↔
      (m.returns.top < 0 → stopped (.stackUnderflow .ret here) m) ∧
        (0 ≤ m.returns.top → m.returns.top < 128 → done (m.returns.look 0) m) ∧
          (128 ≤ m.returns.top → stopped (.stackOverflow .ret here) m) := by
  unfold peekReturn
  rcases m.returns.slot_cases 0 with ⟨htop, hslot⟩ | ⟨hlow, hhigh, i, hslot⟩ | ⟨htop, hslot⟩
  · simp only [hslot, Yields, Stack.Miss.fault]
    grind
  · simp only [hslot, Yields, (Stack.slot_spec hslot).1]
    grind
  · simp only [hslot, Yields, Stack.Miss.fault]
    grind

/-- A write of the top finds a cell, or misses below the floor or past the last cell. -/
@[simp] theorem yields_pokeReturn {done : Unit → Machine → Prop} :
    Yields (pokeReturn here value m) done stopped ↔
      (m.returns.top < 0 → stopped (.stackUnderflow .ret here) m) ∧
        (0 ≤ m.returns.top → m.returns.top < 128 →
          done () { m with returns := m.returns.put 0 value }) ∧
          (128 ≤ m.returns.top → stopped (.stackOverflow .ret here) m) := by
  unfold pokeReturn
  rcases m.returns.slot_cases 0 with ⟨htop, hslot⟩ | ⟨hlow, hhigh, i, hslot⟩ | ⟨htop, hslot⟩
  · simp only [hslot, Yields, Stack.Miss.fault]
    grind
  · simp only [hslot, Yields, (Stack.slot_spec hslot).2]
    grind
  · simp only [hslot, Yields, Stack.Miss.fault]
    grind

/-- A push moves the pointer first, and only then looks for a cell. -/
@[simp] theorem yields_pushReturn {done : Unit → Machine → Prop} :
    Yields (pushReturn here value m) done stopped ↔
      (m.returns.top + 1 < 0 →
        stopped (.stackUnderflow .ret here) { m with returns := m.returns.raise }) ∧
        (0 ≤ m.returns.top + 1 → m.returns.top + 1 < 128 →
          done () { m with returns := m.returns.raise.put 0 value }) ∧
          (128 ≤ m.returns.top + 1 →
            stopped (.stackOverflow .ret here) { m with returns := m.returns.raise }) := by
  have hraise : Yields (pushReturn here value m) done stopped ↔
      Yields (pokeReturn here value { m with returns := m.returns.raise }) done stopped :=
    yields_bind
  rw [hraise, yields_pokeReturn]
  simp

/-! ## Memory -/

/-- A load gives the cell at an address, or finds the address outside memory. -/
@[simp] theorem yields_load {done : Cell → Machine → Prop} :
    Yields (load here target m) done stopped ↔
      (∀ v, m.memory.get? target = some v → done v m) ∧
        (m.memory.get? target = none → stopped (.outOfBounds here target) m) := by
  unfold load
  cases h : m.memory.get? target <;> simp [Yields]

/-- A save replaces the cell at an address, or finds the address outside memory. -/
@[simp] theorem yields_save {done : Unit → Machine → Prop} :
    Yields (save here target value m) done stopped ↔
      (∀ i, Memory.locate? target = some i → done () { m with memory := m.memory.set i value }) ∧
        (Memory.locate? target = none → stopped (.outOfBounds here target) m) := by
  unfold save
  cases h : Memory.locate? target <;> simp [Yields]

end Action

namespace Session

variable {δ α : Type} {here : Cell} {m : Machine} {host : δ} {op : Opcode}
  {stopped : Fault → System δ → Prop}

/-- An action of the machine leaves the host as it is. -/
@[simp] theorem yields_liftM {done : α → System δ → Prop} {x : Action α} :
    Yields ((liftM x : Session δ α) ⟨m, host⟩) done stopped ↔
      Yields (x m) (fun a m' => done a ⟨m', host⟩) (fun f m' => stopped f ⟨m', host⟩) := by
  change Yields (onMachine x ⟨m, host⟩) done stopped ↔ _
  cases h : x m <;> simp [onMachine, Yields, h]

/-- The use of a device leaves the machine as it is, and its failure is a fault. -/
@[simp] theorem yields_onHost {done : α → System δ → Prop} {use : EStateM IoError δ α} :
    Yields (onHost use ⟨m, host⟩) done stopped ↔
      Yields (use host) (fun a h => done a ⟨m, h⟩) (fun cause h => stopped (.io cause) ⟨m, h⟩) := by
  cases h : use host <;> simp [onHost, Yields, h]

variable [Host δ]

@[simp] theorem yields_note {done : Unit → System δ → Prop} {event : Log.Event} :
    Yields (note event ⟨m, host⟩) done stopped ↔ done () ⟨m, Host.note event host⟩ :=
  Iff.rfl

end Session

end CellMachine
