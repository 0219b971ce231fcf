import CellMachine.Proofs.Tally

/-!
# Control transfers and the length of runs

Five opcodes can make a machine go on at an address that does not lie further up in memory. Every
other instruction that ends well moves the address up, and it halts the machine when it leaves
memory. So a machine can make no more steps between two of these five than memory has cells, and a
run that does not end is one that never stops to transfer control.
-/

namespace CellMachine

/-- Whether an opcode can make the machine go on at any address. -/
def Opcode.transfers : Opcode → Bool
  | jump | call | ccall | ret | zret => true
  | _ => false

/-- The number of dispatches of opcodes that transfer control. -/
def Statistics.transfers (s : Statistics) : Nat :=
  s.count .jump + s.count .call + s.count .ccall + s.count .ret + s.count .zret

/-- The cell after a cell is the next number, unless it wraps around. -/
theorem Cell.toInt_add_one {c : Cell} (h : c.toInt < 2147483647) :
    (c + 1).toInt = c.toInt + 1 := by
  have hlow := c.le_toInt
  rw [Int32.toInt_add]
  apply Int.bmod_eq_of_le
  · simp
    omega
  · simp
    omega

/-- An opcode is only found at an address in memory. -/
theorem Machine.ip_of_next? {m : Machine} {op : Opcode} (hnext : m.next? = some op) :
    0 ≤ m.ip.toInt ∧ m.ip.toInt < 262144 := by
  have hget : m.memory.get? m.ip ≠ none := by
    intro hnone
    simp [next?, hnone] at hnext
  rw [ne_eq, Memory.get?, Option.map_eq_none_iff, Memory.locate?_eq_none_iff] at hget
  omega

/-- A machine with nothing in memory finds an instruction that does nothing at every address. -/
theorem Machine.next?_of_blank {m : Machine} (hmemory : m.memory = .blank)
    (hlow : 0 ≤ m.ip.toInt) (hhigh : m.ip.toInt < 262144) : m.next? = some .nop := by
  have hinside : m.ip.toInt.toNat < 262144 := by omega
  obtain ⟨i, hi⟩ : ∃ i : Fin Memory.size, m.ip.toInt = i :=
    ⟨⟨_, hinside⟩, (Int.toNat_of_nonneg hlow).symm⟩
  rw [next?, hmemory, Memory.get?, Memory.locate?_eq_some_iff.mpr hi]
  simp only [Memory.blank, Option.map_some, Fin.getElem_fin, Vector.getElem_replicate,
    Option.bind_some]
  exact InstructionSet.decode_eq_some_iff.mpr ⟨rfl, by cases m.set <;> rfl⟩

/-! ## Instructions that do not transfer control -/

/-- The second machine goes on at the address of the first, or has halted. -/
def Machine.Stays (m m' : Machine) : Prop :=
  m'.ip = m.ip ∨ m'.ip = haltAddress

/-- A drop goes on at the same address, or halts the machine. -/
@[simp] theorem Machine.ip_dropped_cases (m : Machine) :
    m.dropped.ip = m.ip ∨ m.dropped.ip = haltAddress := by
  rw [ip_dropped]
  split
  · exact .inr rfl
  · exact .inl rfl

@[simp] theorem Machine.ip_dropped_dropped_cases (m : Machine) :
    m.dropped.dropped.ip = m.ip ∨ m.dropped.dropped.ip = haltAddress := by
  rcases m.dropped.ip_dropped_cases with hsame | hhalted
  · rw [hsame]
    exact m.ip_dropped_cases
  · exact .inr hhalted

/-- A literal is skipped. -/
theorem Action.yields_literal_address {here : Cell} {m : Machine} :
    Yields (literal here m) (fun _ m' => m'.ip = m.ip + 1) (fun _ _ => True) := by
  simp [literal]

/-- Every other opcode that asks nothing of the host and transfers no control goes on at the same
address, or halts the machine. -/
theorem Opcode.yields_action_address {op : Opcode} {here : Cell} {x : Action Unit} {m : Machine}
    (hop : op.action? here = some x) (htransfers : op.transfers = false) (hlit : op ≠ .lit) :
    Yields (x m) (fun _ => m.Stays) (fun _ _ => True) := by
  unfold Machine.Stays
  cases op, x, hop using Opcode.action?_cases with
  | operator op f => simp [Action.combine]
  | nop | drop | stop => simp
  | lit => exact absurd rfl hlit
  | dup => simp [Action.duplicate]
  | swap => simp [Action.exchange]
  | push => simp [Action.toReturns]
  | pop => simp [Action.fromReturns]
  | jump | call | ccall | ret | zret => simp [Opcode.transfers] at htransfers
  | fetch => simp [Action.fetch]
  | store =>
    rw [Action.yields_store]
    simp
  | divmod => simp [Action.divide]

section Steps

variable {δ : Type} [Host δ]

/-- Every instruction but a literal that transfers no control goes on at the same address, or halts
the machine. -/
theorem Session.yields_execute_address {here : Cell} {op : Opcode} {m : Machine} {host : δ}
    (htransfers : op.transfers = false) (hlit : op ≠ .lit) :
    Yields (execute here op ⟨m, host⟩) (fun _ s' => m.Stays s'.machine) (fun _ _ => True) := by
  apply yields_execute_machine (P := m.Stays) (Q := fun _ => True)
  · exact fun x hop => Opcode.yields_action_address hop htransfers hlit
  · exact fun _ => trivial
  · simp [Machine.Stays]
  · exact fun _ _ _ => .inl rfl
  · exact fun _ _ _ => .inl rfl
  · exact fun _ => .inr rfl

/-- A step that transfers no control moves the address up, if it ends well. -/
theorem ip_lt_of_step {s s' : System δ} {op : Opcode} {status : Status}
    (hnext : s.machine.next? = some op) (htransfers : op.transfers = false)
    (hstep : Session.step s = .ok status s') : s.machine.ip.toInt < s'.machine.ip.toInt := by
  obtain ⟨hlow, hhigh⟩ := Machine.ip_of_next? hnext
  have hhalt : (Machine.haltAddress + 1).toInt = 262145 := by decide
  have hone := Cell.toInt_add_one (c := s.machine.ip) (by omega)
  have hmoved : Yields (Session.step s) (fun _ s' => s.machine.ip.toInt < s'.machine.ip.toInt)
      (fun _ _ => True) := by
    rw [Session.yields_step_of_next hnext]
    by_cases hlit : op = .lit
    · subst hlit
      apply Session.yields_liftM.mpr
      refine Action.yields_literal_address.imp (fun _ m hskipped => ?_) (fun _ _ _ => trivial)
      have htwo := Cell.toInt_add_one (c := s.machine.ip + 1) (by omega)
      rw [Machine.ip_advanced, hskipped, Machine.ip_counted]
      omega
    · refine (Session.yields_execute_address htransfers hlit).imp (fun _ t hip => ?_)
        (fun _ _ _ => trivial)
      rw [Machine.ip_advanced]
      rcases hip with hsame | hhalted
      · rw [hsame, Machine.ip_counted]
        omega
      · rw [hhalted]
        omega
  exact hmoved.of_ok hstep

/-! ## The potential of a machine -/

/-- How far up in memory a machine is. -/
def Machine.progress (m : Machine) : Nat :=
  min m.ip.toInt.toNat 262144

/-- How many dispatches a machine can account for: as many as memory has cells for each transfer of
control, and as many as it has come up in memory since. -/
def Machine.potential (m : Machine) : Nat :=
  m.statistics.transfers * 262144 + m.progress

theorem Machine.progress_le (m : Machine) : m.progress ≤ 262144 :=
  Nat.min_le_right _ _

namespace System

variable {s : System δ}

/-- Every step counts one dispatch, if it finds an opcode. -/
theorem total_step (s : System δ) : (stateAfter (Session.step s)).machine.statistics.total =
    s.machine.statistics.total + if s.machine.next?.isSome then 1 else 0 := by
  rw [Session.statistics_step, total_tally]

/-- Every step counts one transfer of control, if it finds an opcode that is one. -/
theorem transfers_step (s : System δ) :
    (stateAfter (Session.step s)).machine.statistics.transfers =
      s.machine.statistics.transfers + if s.machine.next?.any Opcode.transfers then 1 else 0 := by
  rw [Session.statistics_step]
  simp only [Statistics.transfers, count_tally]
  cases s.machine.next? with
  | none => simp
  | some op => cases op <;> simp [Opcode.transfers] <;> omega

/-- A step that ends well raises the potential, if it finds an opcode. -/
theorem potential_of_step {s' : System δ} {status : Status}
    (hstep : Session.step s = .ok status s') :
    s'.machine.statistics.total + s.machine.potential ≤
      s.machine.statistics.total + s'.machine.potential := by
  have htotal := s.total_step
  have htransfers := s.transfers_step
  rw [hstep, stateAfter] at htotal htransfers
  cases hnext : s.machine.next? with
  | none =>
    obtain rfl := Session.eq_of_step_of_none hstep hnext
    exact Nat.le_refl _
  | some op =>
    obtain ⟨hlow, hhigh⟩ := Machine.ip_of_next? hnext
    have hprogress : s.machine.progress = s.machine.ip.toInt.toNat := by
      unfold Machine.progress
      omega
    simp only [hnext, Option.isSome_some, if_true, Option.any_some] at htotal htransfers
    unfold Machine.potential
    by_cases hop : op.transfers = true
    · rw [htotal, htransfers, if_pos hop]
      omega
    · have hmoved := ip_lt_of_step hnext (by simpa using hop) hstep
      have hmore : s.machine.progress + 1 ≤ s'.machine.progress := by
        unfold Machine.progress
        omega
      rw [htotal, htransfers, if_neg hop]
      omega

/-- The potential accounts for every dispatch of a run whose steps all end well. -/
theorem potential_of_succeeds {n : Nat} (h : s.Succeeds n) :
    (s.after n).machine.statistics.total + s.machine.potential ≤
      s.machine.statistics.total + (s.after n).machine.potential := by
  induction n with
  | zero => exact Nat.le_refl _
  | succ n ih =>
    obtain ⟨status, hstep⟩ := h.step (Nat.lt_succ_self n)
    have hfirst := ih fun i hi => h i (Nat.lt_succ_of_lt hi)
    have hlast := potential_of_step hstep
    omega

/-- A machine that has counted nothing yet dispatches at most as often as memory has cells for each
transfer of control, and once more as often, up to its first fault. -/
theorem total_le_transfers {n : Nat} (hnew : s.machine.statistics = {})
    (h : s.Succeeds (n - 1)) :
    (s.after n).machine.statistics.total ≤
      ((s.after n).machine.statistics.transfers + 1) * 262144 := by
  have hnone : s.machine.statistics.total = 0 := by
    rw [hnew]
    rfl
  cases n with
  | zero =>
    rw [after_zero, hnone]
    exact Nat.zero_le _
  | succ n =>
    have hpotential := potential_of_succeeds h
    rw [Nat.add_sub_cancel] at hpotential
    have htotal := (s.after n).total_step
    have htransfers := (s.after n).transfers_step
    have hprogress := (s.after n).machine.progress_le
    rw [after, htotal, htransfers]
    unfold Machine.potential at hpotential
    cases hnext : (s.after n).machine.next? with
    | none =>
      simp
      omega
    | some op =>
      obtain ⟨hlow, hhigh⟩ := Machine.ip_of_next? hnext
      have hinside : (s.after n).machine.progress < 262144 := by
        unfold Machine.progress
        omega
      simp
      omega

/-! ## Stretches without transfers -/

/-- The next step ends well and leaves the machine running. -/
def Runs (s : System δ) : Prop :=
  ∃ s', Session.step s = .ok .running s'

theorem Runs.succeeds {n : Nat} (h : ∀ i < n, (s.after i).Runs) : s.Succeeds n := by
  intro i hi
  obtain ⟨s', hstep⟩ := h i hi
  rw [hstep, faultOf?]

/-- A step that leaves the machine running has found an opcode, and has not come to the end of
memory. -/
theorem Runs.dispatches (h : s.Runs) :
    ∃ op, s.machine.next? = some op ∧
      (stateAfter (Session.step s)).machine.ip.toInt < 262144 := by
  obtain ⟨s', hstep⟩ := h
  have hrunning : Yields (Session.step s)
      (fun status s' => status = .running →
        ∃ op, s.machine.next? = some op ∧ ¬Machine.haltAddress ≤ s'.machine.ip)
      (fun _ _ => True) := by
    rw [Session.yields_step]
    refine ⟨fun _ => by simp, fun _ => ⟨fun _ => trivial, fun _ _ _ => trivial, fun op hop => ?_⟩⟩
    rw [Session.yields_dispatch]
    refine .of_forall (fun _ t hstatus => ⟨op, hop, fun hhalted => ?_⟩) (fun _ _ => trivial)
    rw [Machine.status_eq, if_pos hhalted] at hstatus
    simp at hstatus
  obtain ⟨op, hnext, hbelow⟩ := hrunning.of_ok hstep rfl
  rw [Int32.not_le, Int32.lt_iff_toInt_lt] at hbelow
  rw [hstep]
  exact ⟨op, hnext, hbelow⟩

/-- Steps that leave the machine running and transfer no control move the address up, each by one
cell at least. -/
theorem ip_of_runs {n : Nat} (hruns : ∀ i < n, (s.after i).Runs)
    (hstraight : ∀ i < n, ∀ op, (s.after i).machine.next? = some op → op.transfers = false) :
    s.machine.ip.toInt + n ≤ (s.after n).machine.ip.toInt := by
  induction n with
  | zero => simp
  | succ n ih =>
    have hfirst := ih (fun i hi => hruns i (Nat.lt_succ_of_lt hi))
      (fun i hi => hstraight i (Nat.lt_succ_of_lt hi))
    obtain ⟨op, hnext, -⟩ := (hruns n (Nat.lt_succ_self n)).dispatches
    obtain ⟨status, hstep⟩ := (Runs.succeeds hruns).step (Nat.lt_succ_self n)
    have hlast := ip_lt_of_step hnext (hstraight n (Nat.lt_succ_self n) op hnext) hstep
    push_cast
    omega

/-- A step that does not leave the machine running halts it, or stops with a fault. -/
theorem stops_of_not_runs (h : ¬s.Runs) :
    (∃ s', Session.step s = .ok .halted s') ∨ ∃ fault, faultOf? (Session.step s) = some fault := by
  cases hstep : Session.step s with
  | error fault s' => exact .inr ⟨fault, rfl⟩
  | ok status s' =>
    cases status with
    | halted => exact .inl ⟨s', rfl⟩
    | running => exact absurd ⟨s', hstep⟩ h

/-- A machine that transfers no control for as long as it is running stops running before it has
made more steps than there are cells from its address on. -/
theorem exists_not_runs_of_straight (hlow : 0 ≤ s.machine.ip.toInt)
    (hhigh : s.machine.ip.toInt < 262144)
    (hstraight : ∀ i, (∀ j < i, (s.after j).Runs) → ∀ op,
      (s.after i).machine.next? = some op → op.transfers = false) :
    ∃ k < 262144 - s.machine.ip.toInt.toNat,
      (∀ i < k, (s.after i).Runs) ∧ ¬(s.after k).Runs := by
  by_contra hnone
  have hruns : ∀ k < 262144 - s.machine.ip.toInt.toNat, (s.after k).Runs := by
    intro k
    induction k using Nat.strongRecOn with
    | ind k ih =>
      intro hk
      by_contra hstops
      exact hnone ⟨k, hk, fun i hi => ih i hi (Nat.lt_trans hi hk), hstops⟩
  -- The address would have come past the end of memory, where no machine is running.
  obtain ⟨n, hn⟩ : ∃ n, 262144 - s.machine.ip.toInt.toNat = n + 1 :=
    ⟨262143 - s.machine.ip.toInt.toNat, by omega⟩
  have hmoved := ip_of_runs hruns fun i hi =>
    hstraight i fun j hj => hruns j (Nat.lt_trans hj hi)
  obtain ⟨_, -, hbelow⟩ := (hruns n (by omega)).dispatches
  rw [hn, after] at hmoved
  push_cast at hmoved
  omega

/-! ## Runs that do not end -/

/-- A run that has no answer yet has left the machine running after every step. -/
theorem runs_of_runToHalt {fuel : Nat} (hrun : Session.runToHalt fuel s = none) :
    ∀ i < fuel, (s.after i).Runs := by
  induction fuel generalizing s with
  | zero => simp
  | succ fuel ih =>
    rw [Session.runToHalt] at hrun
    cases hstep : Session.step s with
    | error fault s' => simp [hstep] at hrun
    | ok status s' =>
      cases status with
      | halted => simp [hstep] at hrun
      | running =>
        simp only [hstep] at hrun
        have hafter : s.after 1 = s' := by
          rw [after, after_zero, hstep, stateAfter]
        intro i hi
        cases i with
        | zero => exact ⟨s', hstep⟩
        | succ i =>
          rw [Nat.add_comm i 1, ← after_after, hafter]
          exact ih hrun i (Nat.lt_of_succ_lt_succ hi)

/-- Every step that leaves the machine running counts one dispatch. -/
theorem total_of_runs {n : Nat} (hruns : ∀ i < n, (s.after i).Runs) :
    (s.after n).machine.statistics.total = s.machine.statistics.total + n := by
  induction n with
  | zero => rfl
  | succ n ih =>
    obtain ⟨op, hnext, -⟩ := (hruns n (Nat.lt_succ_self n)).dispatches
    rw [after, total_step, ih fun i hi => hruns i (Nat.lt_succ_of_lt hi), hnext]
    simp
    omega

/-- A run that does not end transfers control more often than any number says. -/
theorem transfers_unbounded (hrun : ∀ fuel, Session.run fuel s = none) (bound : Nat) :
    ∃ n, s.machine.statistics.transfers + bound ≤ (s.after n).machine.statistics.transfers := by
  refine ⟨(bound + 1) * 262144, ?_⟩
  have hruns : ∀ i < (bound + 1) * 262144, (s.after i).Runs :=
    runs_of_runToHalt (by simpa [Session.run] using hrun ((bound + 1) * 262144))
  have htotal := total_of_runs hruns
  have hpotential := potential_of_succeeds (Runs.succeeds hruns)
  have hprogress := (s.after ((bound + 1) * 262144)).machine.progress_le
  unfold Machine.potential at hpotential
  omega

/-! ## Memory of zeros -/

/-- A step of such a machine moves on to the next address. -/
theorem step_of_blank (hmemory : s.machine.memory = .blank) (hlow : 0 ≤ s.machine.ip.toInt)
    (hhigh : s.machine.ip.toInt < 262144) :
    ∃ status s', Session.step s = .ok status s' ∧ s'.machine.memory = .blank ∧
      s'.machine.ip.toInt = s.machine.ip.toInt + 1 := by
  have hone := Cell.toInt_add_one (c := s.machine.ip) (by omega)
  have hmoves : Yields (Session.step s)
      (fun _ s' => s'.machine.memory = .blank ∧ s'.machine.ip.toInt = s.machine.ip.toInt + 1)
      (fun _ _ => False) := by
    rw [Session.yields_step_of_next (Machine.next?_of_blank hmemory hlow hhigh)]
    simpa [Session.execute, hmemory] using hone
  exact hmoves.exists_ok

/-- A machine with nothing in memory dispatches at every address and transfers no control. -/
theorem after_of_blank {n : Nat} (hmemory : s.machine.memory = .blank) (hip : s.machine.ip = 0)
    (hn : n ≤ 262144) :
    s.Succeeds n ∧ (s.after n).machine.memory = .blank ∧ (s.after n).machine.ip.toInt = n ∧
      (s.after n).machine.statistics.total = s.machine.statistics.total + n ∧
      (s.after n).machine.statistics.transfers = s.machine.statistics.transfers := by
  induction n with
  | zero => simp [Succeeds, hmemory, hip]
  | succ n ih =>
    obtain ⟨hsucceeds, hblank, haddress, htotal, htransfers⟩ := ih (by omega)
    have hnext := Machine.next?_of_blank hblank (by omega) (by omega)
    obtain ⟨status, s', hstep, hblank', haddress'⟩ :=
      step_of_blank hblank (by omega) (by omega)
    have htotal' := (s.after n).total_step
    have htransfers' := (s.after n).transfers_step
    simp only [hnext, hstep, stateAfter] at htotal' htransfers'
    rw [after_succ_of_ok hstep]
    refine ⟨hsucceeds.succ hstep, hblank', ?_, ?_, ?_⟩
    · push_cast
      omega
    · simpa [htotal, Nat.add_assoc] using htotal'
    · simpa [htransfers, Opcode.transfers] using htransfers'

/-- A machine with nothing in memory transfers no control for as long as it is running. -/
theorem straight_of_blank (hmemory : s.machine.memory = .blank) (hip : s.machine.ip = 0) (i : Nat)
    (hruns : ∀ j < i, (s.after j).Runs) (op : Opcode)
    (hnext : (s.after i).machine.next? = some op) : op.transfers = false := by
  have hend : (s.after 262144).machine.next? = none := by
    obtain ⟨-, -, haddress, -⟩ := after_of_blank hmemory hip (Nat.le_refl 262144)
    cases hlast : (s.after 262144).machine.next? with
    | none => rfl
    | some last =>
      have hinside := Machine.ip_of_next? hlast
      omega
  rcases Nat.lt_trichotomy i 262144 with hi | rfl | hi
  · obtain ⟨-, hblank, haddress, -⟩ := after_of_blank hmemory hip (Nat.le_of_lt hi)
    rw [Machine.next?_of_blank hblank (by omega) (by omega), Option.some.injEq] at hnext
    rw [← hnext]
    rfl
  · rw [hend] at hnext
    simp at hnext
  · obtain ⟨_, hnext', -⟩ := (hruns 262144 hi).dispatches
    rw [hend] at hnext'
    simp at hnext'

end System

/-- Control transfers bound the length of every run. A new machine makes no more dispatches than
memory has cells, once and once more for each transfer, up to its first fault. Every other step
that ends well moves the address up, so that a machine halts or stops with a fault before it has
passed the end of memory, and a run can go on for ever only by transferring control. A machine with
nothing in memory attains the bound. -/
theorem dispatches_bounded_by_transfers :
    (∀ (s : System δ) (n : Nat), (∃ memory, s.machine = { memory, set := s.machine.set }) →
      s.Succeeds (n - 1) →
      (s.after n).machine.statistics.total ≤
        ((s.after n).machine.statistics.transfers + 1) * Memory.size) ∧
    (∀ (s s' : System δ) (op : Opcode) (status : Status), s.machine.next? = some op →
      op.transfers = false → Session.step s = .ok status s' →
      s.machine.ip.toInt < s'.machine.ip.toInt) ∧
    (∀ s : System δ, 0 ≤ s.machine.ip.toInt → s.machine.ip.toInt < Memory.size →
      (∀ i, (∀ j < i, (s.after j).Runs) → ∀ op, (s.after i).machine.next? = some op →
        op.transfers = false) →
      ∃ k < Memory.size - s.machine.ip.toInt.toNat, (∀ i < k, (s.after i).Runs) ∧
        ((∃ s', Session.step (s.after k) = .ok .halted s') ∨
          ∃ fault, faultOf? (Session.step (s.after k)) = some fault)) ∧
    (∀ s : System δ, (∀ fuel, Session.run fuel s = none) →
      ∀ bound, ∃ n, bound ≤ (s.after n).machine.statistics.transfers) ∧
    ∀ s : System δ, s.machine = { set := s.machine.set } →
      s.Succeeds Memory.size ∧ (s.after Memory.size).machine.statistics.total = Memory.size ∧
        (s.after Memory.size).machine.statistics.transfers = 0 := by
  refine ⟨?_, ?_, ?_, ?_, ?_⟩
  · rintro s n ⟨memory, hmachine⟩ hsucceeds
    apply System.total_le_transfers _ hsucceeds
    rw [hmachine]
  · intro s s' op status hnext htransfers hstep
    exact ip_lt_of_step hnext htransfers hstep
  · intro s hlow hhigh hstraight
    obtain ⟨k, hk, hruns, hstops⟩ := System.exists_not_runs_of_straight hlow hhigh hstraight
    exact ⟨k, hk, hruns, System.stops_of_not_runs hstops⟩
  · intro s hrun bound
    obtain ⟨n, hn⟩ := System.transfers_unbounded hrun bound
    exact ⟨n, by omega⟩
  · intro s hmachine
    have hzero : s.machine.statistics.total = 0 ∧ s.machine.statistics.transfers = 0 := by
      rw [hmachine]
      exact ⟨rfl, rfl⟩
    obtain ⟨hsucceeds, -, -, htotal, htransfers⟩ :=
      System.after_of_blank (n := Memory.size) (by rw [hmachine]) (by rw [hmachine])
        (Nat.le_refl _)
    refine ⟨hsucceeds, ?_, ?_⟩
    · rw [htotal, hzero.1, Nat.zero_add]
    · rw [htransfers, hzero.2]

end Steps

/-! ## A loop -/

/-- A machine that goes back to its first instruction for ever: a literal zero and a jump to it. -/
structure Machine.Circles (m : Machine) : Prop where
  memory : m.memory = Memory.blank.write 0 [Opcode.lit.code, 0, Opcode.jump.code]
  set : m.set = .base
  place : m.ip = 0 ∧ m.data.top = 0 ∨ m.ip = 2 ∧ m.data.top = 1 ∧ m.data.look 0 = 0

namespace Machine.Circles

theorem status {m : Machine} (h : m.Circles) : m.status = .running := by
  rcases h.place with ⟨hip, -⟩ | ⟨hip, -⟩
  · rw [status_eq, hip]
    decide
  · rw [status_eq, hip]
    decide

/-- The literal of such a machine pushes the address to go back to. -/
theorem literal {s : System Script} (h : s.machine.Circles) (hip : s.machine.ip = 0)
    (htop : s.machine.data.top = 0) :
    ∃ status s', Session.step s = .ok status s' ∧ status = s'.machine.status ∧
      s'.machine.Circles := by
  have hnext : s.machine.next? = some .lit :=
    next?_of_write (i := 0) h.memory hip rfl (by omega) (by rw [h.set]; rfl)
  have hoperand : s.machine.memory.get? 1 = some 0 := by
    rw [h.memory]
    exact Memory.get?_write (i := 1) Memory.blank rfl (by omega)
  have hpushes : Yields (Session.step s)
      (fun status s' => status = s'.machine.status ∧ s'.machine.memory = s.machine.memory ∧
        s'.machine.set = s.machine.set ∧ s'.machine.ip = 2 ∧ s'.machine.data.top = 1 ∧
        s'.machine.data.look 0 = 0) (fun _ _ => False) := by
    rw [Session.yields_step_of_next hnext]
    apply Session.yields_liftM.mpr
    simp [Action.literal, hip, hoperand, htop, Stack.look, Stack.put]
  obtain ⟨status, s', hstep, hstatus, hmemory, hset, hplace⟩ := hpushes.exists_ok
  exact ⟨status, s', hstep, hstatus, hmemory.trans h.memory, hset.trans h.set, .inr hplace⟩

/-- The jump of such a machine goes back to it. -/
theorem jump {s : System Script} (h : s.machine.Circles) (hip : s.machine.ip = 2)
    (htop : s.machine.data.top = 1) (hzero : s.machine.data.look 0 = 0) :
    ∃ status s', Session.step s = .ok status s' ∧ status = s'.machine.status ∧
      s'.machine.Circles := by
  have hnext : s.machine.next? = some .jump :=
    next?_of_write (i := 2) h.memory hip rfl (by omega) (by rw [h.set]; rfl)
  have hreturns : Yields (Session.step s)
      (fun status s' => status = s'.machine.status ∧ s'.machine.memory = s.machine.memory ∧
        s'.machine.set = s.machine.set ∧ s'.machine.ip = 0 ∧ s'.machine.data.top = 0)
      (fun _ _ => False) := by
    rw [Session.yields_step_of_next hnext]
    apply Session.yields_liftM.mpr
    apply Action.yields_jump.mpr
    simp [htop, hzero, ip_dropped]
  obtain ⟨status, s', hstep, hstatus, hmemory, hset, hplace⟩ := hreturns.exists_ok
  exact ⟨status, s', hstep, hstatus, hmemory.trans h.memory, hset.trans h.set, .inl hplace⟩

/-- Such a machine is running after every step, and goes on like that. -/
theorem step {s : System Script} (h : s.machine.Circles) :
    ∃ s', Session.step s = .ok .running s' ∧ s'.machine.Circles := by
  obtain ⟨status, s', hstep, hstatus, hcircles⟩ : ∃ status s',
      Session.step s = .ok status s' ∧ status = s'.machine.status ∧ s'.machine.Circles := by
    rcases h.place with ⟨hip, htop⟩ | ⟨hip, htop, hzero⟩
    · exact h.literal hip htop
    · exact h.jump hip htop hzero
  rw [hcircles.status] at hstatus
  subst hstatus
  exact ⟨s', hstep, hcircles⟩

theorem run {s : System Script} (h : s.machine.Circles) (fuel : Nat) :
    Session.run fuel s = none := by
  rw [Session.run, Option.map_eq_none_iff]
  induction fuel generalizing s with
  | zero => rfl
  | succ fuel ih =>
    obtain ⟨s', hstep, hcircles⟩ := h.step
    rw [Session.runToHalt, hstep]
    exact ih hcircles

end Machine.Circles

/-- A machine with nothing in memory makes as many steps as memory has cells, and no more. A machine
that circles transfers control more and more often. -/
theorem dispatches_bounded_by_transfers_of_blank_and_loop :
    (∃ s : System Script, s.machine = { set := .base } ∧ s.Succeeds Memory.size ∧
      (s.after Memory.size).machine.statistics.total ≤
        ((s.after Memory.size).machine.statistics.transfers + 1) * Memory.size ∧
      (s.after Memory.size).machine.statistics.total = Memory.size ∧
      (s.after Memory.size).machine.statistics.transfers = 0 ∧
      ∃ k < Memory.size, (∃ s', Session.step (s.after k) = .ok .halted s') ∨
        ∃ fault, faultOf? (Session.step (s.after k)) = some fault) ∧
    ∃ s : System Script, s.machine = .loaded .base [Opcode.lit.code, 0, Opcode.jump.code] ∧
      (∀ fuel, Session.run fuel s = none) ∧
      ∀ bound, ∃ n, bound ≤ (s.after n).machine.statistics.transfers := by
  obtain ⟨hbound, -, hstops, hloop, hblank⟩ := dispatches_bounded_by_transfers (δ := Script)
  constructor
  · obtain ⟨s, hs⟩ : ∃ s : System Script, s = ⟨{ set := .base }, {}⟩ := ⟨_, rfl⟩
    have hmachine : s.machine = { set := .base } := by rw [hs]
    have hset : s.machine.set = .base := by rw [hmachine]
    have hmemory : s.machine.memory = .blank := by rw [hmachine]
    have hip : s.machine.ip = 0 := by rw [hmachine]
    obtain ⟨hsucceeds, htotal, htransfers⟩ := hblank s (by rw [hset, hmachine])
    have hle := hbound s Memory.size ⟨.blank, by rw [hset, hmachine]⟩
      fun i hi => hsucceeds i (Nat.lt_of_lt_pred hi)
    obtain ⟨k, hk, -, hstopped⟩ := hstops s (by simp [hip]) (by simp [hip])
      (System.straight_of_blank hmemory hip)
    have hinside : k < Memory.size := Nat.lt_of_lt_of_le hk (Nat.sub_le _ _)
    exact ⟨s, hmachine, hsucceeds, hle, htotal, htransfers, k, hinside, hstopped⟩
  · obtain ⟨s, hs⟩ : ∃ s : System Script,
        s = ⟨.loaded .base [Opcode.lit.code, 0, Opcode.jump.code], {}⟩ := ⟨_, rfl⟩
    have hcircles : s.machine.Circles := by
      rw [hs]
      exact ⟨rfl, rfl, .inl ⟨rfl, rfl⟩⟩
    exact ⟨s, by rw [hs], hcircles.run, hloop s hcircles.run⟩

end CellMachine
