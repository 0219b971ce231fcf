import CellMachine.Proofs.Tally

/-!
# Counters and pointers

Every opcode that ends well moves the two stack pointers by distances of its own, so that the
counters tell where the pointers are. Two opcodes need a closer look. A return on zero moves the
pointers only if it finds a zero. A drop below the floor moves nothing, but it halts the machine, so
that it can only be the last instruction of all.
-/

namespace CellMachine

namespace Machine

/-- How far an opcode that ends well moves the data stack pointer. -/
def dataMove (m : Machine) : Opcode → Int
  | .lit | .dup | .pop | .input | .getc => 1
  | .push | .jump | .call | .output | .eq | .neq | .lt | .gt | .add | .sub | .mul | .and | .or
  | .xor | .shift => -1
  | .store | .ccall => -2
  | .drop => if m.data.top < 0 then 0 else -1
  | .zret => if m.data.look 0 = 0 then -1 else 0
  | _ => 0

/-- How far an opcode that ends well moves the return stack pointer. -/
def returnsMove (m : Machine) : Opcode → Int
  | .push | .call | .ccall => 1
  | .pop | .ret => -1
  | .zret => if m.data.look 0 = 0 then -1 else 0
  | _ => 0

/-- An operation on two values leaves one in their place. -/
theorem dataMove_operator {op : Opcode} {f : Cell → Cell → Cell} (hop : op.operator? = some f)
    (m : Machine) : m.dataMove op = -1 ∧ m.returnsMove op = 0 := by
  cases op <;> first | exact ⟨rfl, rfl⟩ | simp [Opcode.operator?] at hop

/-- The pointers of the second machine lie where an opcode moves those of the first. -/
def MovedBy (op : Opcode) (m m' : Machine) : Prop :=
  m'.data.top = m.data.top + m.dataMove op ∧ m'.returns.top = m.returns.top + m.returnsMove op

end Machine

open Machine (MovedBy dataMove returnsMove)

/-- A step that ends well is performed and answered. -/
theorem Operation.perform_step {δ : Type} [Host δ] {s s' : System δ} {status : Status}
    (hstep : Session.step s = .ok status s') :
    Operation.step.perform s = some (.ok (.status status) s') := by
  rw [perform, map_eq_pure_bind, bind_apply, hstep]
  rfl

/-! ## Instructions -/

namespace Opcode

variable {op : Opcode} {here : Cell} {m : Machine} {x : Action Unit}

/-- Every opcode that asks nothing of the host moves the pointers as it should, if it ends well. -/
theorem movedBy_action (h : m.Grounded) (hop : op.action? here = some x) :
    Yields (x m) (fun _ m' => MovedBy op m m') (fun _ _ => True) := by
  cases op, x, hop using Opcode.action?_cases with
  | operator op f hf =>
    obtain ⟨hdata, hreturns⟩ := m.dataMove_operator hf
    rw [Action.yields_combine]
    refine ⟨fun _ => trivial, fun _ _ => ⟨?_, ?_⟩, fun _ => trivial⟩
    · simp [hdata]
      omega
    · simp [hreturns]
  | nop => simp [MovedBy, dataMove, returnsMove]
  | lit =>
    rw [Action.yields_literal h]
    simp [MovedBy, dataMove, returnsMove]
  | dup =>
    rw [Action.yields_duplicate]
    simp [MovedBy, dataMove, returnsMove]
  | drop =>
    rw [Action.yields_drop]
    simp +contextual [MovedBy, dataMove, returnsMove, Int.not_lt.mpr, Int.sub_eq_add_neg]
  | swap =>
    rw [Action.yields_exchange]
    simp [MovedBy, dataMove, returnsMove]
  | push =>
    rw [Action.yields_toReturns h]
    simp [MovedBy, dataMove, returnsMove, Int.sub_eq_add_neg]
  | pop =>
    rw [Action.yields_fromReturns h]
    simp [MovedBy, dataMove, returnsMove, Int.sub_eq_add_neg]
  | jump =>
    rw [Action.yields_jump]
    simp [MovedBy, dataMove, returnsMove, Int.sub_eq_add_neg]
  | call =>
    rw [Action.yields_call h]
    simp [MovedBy, dataMove, returnsMove, Int.sub_eq_add_neg]
  | ccall =>
    rw [Action.yields_conditionalCall h]
    simp [MovedBy, dataMove, returnsMove, Int.sub_eq_add_neg, Int.add_assoc]
  | ret =>
    rw [Action.yields_goBack]
    simp [MovedBy, dataMove, returnsMove, Int.sub_eq_add_neg]
  | fetch =>
    rw [Action.yields_fetch]
    simp [MovedBy, dataMove, returnsMove]
  | store =>
    rw [Action.yields_store]
    simp [MovedBy, dataMove, returnsMove, Int.sub_eq_add_neg, Int.add_assoc]
  | divmod =>
    rw [Action.yields_divide]
    simp [MovedBy, dataMove, returnsMove]
  | zret =>
    rw [Action.yields_goBackOnZero]
    simp +contextual [MovedBy, dataMove, returnsMove, Int.sub_eq_add_neg]
  | stop => simp [Action.halt, MovedBy, dataMove, returnsMove]

end Opcode

section Steps

variable {δ : Type} [Host δ]

/-- Every instruction moves the pointers as it should, if it ends well. -/
theorem Session.movedBy_execute {here : Cell} {op : Opcode} {m : Machine} {host : δ}
    (h : m.Grounded) :
    Yields (execute here op ⟨m, host⟩) (fun _ s' => MovedBy op m s'.machine)
      (fun _ _ => True) := by
  apply yields_execute_machine (P := MovedBy op m) (Q := fun _ => True)
  · exact fun x hop => Opcode.movedBy_action h hop
  · exact fun _ => trivial
  · intro hreads value
    have hmoves : m.dataMove op = 1 ∧ m.returnsMove op = 0 := by
      cases op <;> simp [Opcode.reads] at hreads <;> exact ⟨rfl, rfl⟩
    simp [MovedBy, hmoves]
  · rintro rfl _ _
    simp [MovedBy, dataMove, returnsMove, Int.sub_eq_add_neg]
  · rintro rfl _ _
    simp [MovedBy, dataMove, returnsMove]
  · rintro rfl
    simp [MovedBy, dataMove, returnsMove]

/-- Every step that finds an opcode moves the pointers as the opcode does, if it ends well. -/
theorem movedBy_of_step {s s' : System δ} {op : Opcode} {status : Status} (h : s.machine.Grounded)
    (hnext : s.machine.next? = some op) (hstep : Session.step s = .ok status s') :
    MovedBy op s.machine s'.machine := by
  have hcounted : (s.machine.counted op).Grounded := ⟨h.data, h.returns⟩
  have hmoved : Yields (Session.step s) (fun _ s' => MovedBy op s.machine s'.machine)
      (fun _ _ => True) := by
    rw [Session.yields_step_of_next hnext]
    exact (Session.movedBy_execute hcounted).imp (fun _ _ hdone => hdone) (fun _ _ _ => trivial)
  exact hmoved.of_ok hstep

/-- A drop that finds nothing to drop halts the machine. -/
theorem hasHalted_of_drop {s s' : System δ} {status : Status}
    (hnext : s.machine.next? = some .drop) (hbelow : s.machine.data.top < 0)
    (hstep : Session.step s = .ok status s') : s'.machine.hasHalted = true := by
  have hhalts : Yields (Session.step s) (fun _ s' => s'.machine.hasHalted = true)
      (fun _ _ => True) := by
    rw [Session.yields_step_of_next hnext]
    apply Session.yields_liftM.mpr
    apply Action.yields_drop.mpr
    have hpast : Machine.haltAddress ≤ Machine.haltAddress + 1 := by decide
    refine ⟨fun _ => Machine.hasHalted_iff.mpr hpast, fun hcell _ => ?_, fun _ => trivial⟩
    rw [Machine.data_counted] at hcell
    omega
  exact hhalts.of_ok hstep

end Steps

/-! ## Counters -/

namespace Statistics

/-- Where the counters put the data stack pointer, if every return on zero has found another value
and every drop has found something to drop. -/
def dataBalance (s : Statistics) : Int :=
  s.count .lit + s.count .dup + s.count .pop + s.count .input + s.count .getc
    - s.count .drop - s.count .push - s.count .jump - s.count .call - s.count .output
    - (s.count .eq + s.count .neq + s.count .lt + s.count .gt + s.count .add + s.count .sub
      + s.count .mul + s.count .and + s.count .or + s.count .xor + s.count .shift)
    - 2 * (s.count .store + s.count .ccall)

/-- Where the counters put the return stack pointer, if every return on zero has found another
value. -/
def returnsBalance (s : Statistics) : Int :=
  s.count .push + s.count .call + s.count .ccall - s.count .pop - s.count .ret

theorem dataBalance_record (s : Statistics) (op : Opcode) (m : Machine) :
    (s.record op).dataBalance = s.dataBalance + m.dataMove op
      + (if op = .zret ∧ m.data.look 0 = 0 then 1 else 0)
      - (if op = .drop ∧ m.data.top < 0 then 1 else 0) := by
  cases op with
  | drop | zret =>
    simp [dataBalance, dataMove]
    split <;> omega
  | _ => simp [dataBalance, dataMove] <;> omega

theorem returnsBalance_record (s : Statistics) (op : Opcode) (m : Machine) :
    (s.record op).returnsBalance = s.returnsBalance + m.returnsMove op
      + (if op = .zret ∧ m.data.look 0 = 0 then 1 else 0) := by
  cases op with
  | zret =>
    simp [returnsBalance, returnsMove]
    split <;> omega
  | _ => simp [returnsBalance, returnsMove] <;> omega

@[simp] theorem dataBalance_checkpoint (s : Statistics) (sp rp : Int) :
    (s.checkpoint sp rp).dataBalance = s.dataBalance :=
  rfl

@[simp] theorem returnsBalance_checkpoint (s : Statistics) (sp rp : Int) :
    (s.checkpoint sp rp).returnsBalance = s.returnsBalance :=
  rfl

end Statistics

namespace Machine

/-- Whether the next instruction is a return on zero that finds a zero. -/
def returnsOnZero (m : Machine) : Bool :=
  m.next? = some .zret ∧ m.data.look 0 = 0

/-- Whether the next instruction is a drop that finds nothing to drop. -/
def dropsNothing (m : Machine) : Bool :=
  m.next? = some .drop ∧ m.sp = -1

end Machine

/-! ## The last dispatch -/

section Dispatches

variable {δ : Type} {steps steps' : List (System δ)}

/-- The last of the systems that finds an opcode. -/
def lastDispatch? (steps : List (System δ)) : Option (System δ) :=
  (steps.filter fun t => t.machine.next?.isSome).getLast?

/-- One if the last dispatch is that of a drop that finds nothing to drop, and nothing otherwise. -/
def lastDrop (steps : List (System δ)) : Int :=
  if (lastDispatch? steps).any (fun t => t.machine.dropsNothing) then 1 else 0

theorem lastDispatch?_append (steps steps' : List (System δ)) :
    lastDispatch? (steps ++ steps') = (lastDispatch? steps').or (lastDispatch? steps) := by
  simp only [lastDispatch?, List.filter_append, List.getLast?_append]

theorem lastDispatch?_eq_none_iff :
    lastDispatch? steps = none ↔ ∀ t ∈ steps, t.machine.next? = none := by
  simp [lastDispatch?]

theorem lastDrop_of_none (h : ∀ t ∈ steps, t.machine.next? = none) : lastDrop steps = 0 := by
  rw [lastDrop, lastDispatch?_eq_none_iff.mpr h]
  rfl

theorem lastDrop_append_of_none (h : ∀ t ∈ steps', t.machine.next? = none) :
    lastDrop (steps ++ steps') = lastDrop steps := by
  rw [lastDrop, lastDispatch?_append, lastDispatch?_eq_none_iff.mpr h, Option.none_or, lastDrop]

theorem lastDrop_append_of_some (h : ¬∀ t ∈ steps', t.machine.next? = none) :
    lastDrop (steps ++ steps') = lastDrop steps' := by
  rw [← lastDispatch?_eq_none_iff] at h
  obtain ⟨t, ht⟩ := Option.ne_none_iff_exists'.mp h
  rw [lastDrop, lastDispatch?_append, ht, Option.some_or, lastDrop, ht]

theorem lastDrop_eq_zero (h : lastDrop steps ≠ 1) : lastDrop steps = 0 := by
  unfold lastDrop at h ⊢
  split
  · simp_all
  · rfl

end Dispatches

/-! ## The account of the pointers -/

section Accounts

variable {δ : Type} {steps steps' : List (System δ)} {m m' m'' : Machine}

/-- The counters account for how the pointers have moved along some steps. -/
structure Balanced (m : Machine) (steps : List (System δ)) (m' : Machine) : Prop where
  within : m'.Within 0 0
  data : m'.sp - m'.statistics.dataBalance = m.sp - m.statistics.dataBalance
    - steps.countP (fun t => t.machine.returnsOnZero) + lastDrop steps
  returns : m'.rp - m'.statistics.returnsBalance = m.rp - m.statistics.returnsBalance
    - steps.countP (fun t => t.machine.returnsOnZero)
  /-- A drop that found nothing was the last dispatch for good. -/
  halts : lastDrop steps = 1 → m'.hasHalted = true
  /-- A machine that has halted dispatches nothing any more. -/
  halted : m.hasHalted = true → m'.hasHalted = true ∧ ∀ t ∈ steps, t.machine.next? = none

namespace Balanced

theorem load (h : m.Within 0 0) (memory : Memory) :
    Balanced m ([] : List (System δ)) { m with memory } where
  within := h
  data := by simp [Machine.sp, lastDrop_of_none]
  returns := by simp [Machine.rp]
  halts := by simp [lastDrop_of_none]
  halted hhalted := ⟨hhalted, by simp⟩

theorem append (h : Balanced m steps m') (h' : Balanced m' steps' m'') :
    Balanced m (steps ++ steps') m'' := by
  have hdata := h.data
  have hdata' := h'.data
  have hreturns := h.returns
  have hreturns' := h'.returns
  -- Only one of the two parts can have ended with a drop that found nothing.
  have hlast : lastDrop (steps ++ steps') = lastDrop steps + lastDrop steps' ∧
      (lastDrop (steps ++ steps') = 1 → m''.hasHalted = true) := by
    by_cases hnone : ∀ t ∈ steps', t.machine.next? = none
    · rw [lastDrop_append_of_none hnone, lastDrop_of_none hnone, Int.add_zero]
      exact ⟨rfl, fun hdrop => (h'.halted (h.halts hdrop)).1⟩
    · have hgoes : lastDrop steps = 0 :=
        lastDrop_eq_zero fun hdrop => hnone (h'.halted (h.halts hdrop)).2
      rw [lastDrop_append_of_some hnone, hgoes, Int.zero_add]
      exact ⟨rfl, h'.halts⟩
  constructor
  · exact h'.within
  · rw [List.countP_append, hlast.1]
    omega
  · rw [List.countP_append]
    omega
  · exact hlast.2
  · intro hhalted
    obtain ⟨hfirst, hsteps⟩ := h.halted hhalted
    obtain ⟨hsecond, hsteps'⟩ := h'.halted hfirst
    exact ⟨hsecond, List.forall_mem_append.mpr ⟨hsteps, hsteps'⟩⟩

/-- A step that finds no opcode leaves everything as it is. -/
theorem stay {s : System δ} (h : s.machine.Within 0 0) (hnext : s.machine.next? = none) :
    Balanced s.machine [s] s.machine := by
  have hsteps : ∀ t ∈ [s], t.machine.next? = none := by simp [hnext]
  have hzeros : s.machine.returnsOnZero = false := by simp [Machine.returnsOnZero, hnext]
  constructor
  · exact h
  · simp [lastDrop_of_none hsteps, hzeros]
  · simp [hzeros]
  · simp [lastDrop_of_none hsteps]
  · exact fun hhalted => ⟨hhalted, hsteps⟩

variable [Host δ] {s s' : System δ} {op : Opcode} {status : Status}

/-- A step that ends well raises the counter that accounts for its moves. -/
theorem dispatch (h : s.machine.Within 0 0) (hnext : s.machine.next? = some op)
    (hstep : Session.step s = .ok status s') : Balanced s.machine [s] s'.machine := by
  obtain ⟨hdata, hreturns⟩ := movedBy_of_step h.grounded hnext hstep
  have hcounted : s'.machine.statistics =
      (s.machine.statistics.record op).checkpoint s'.machine.sp s'.machine.rp := by
    have htally := Session.statistics_step s
    simpa [hstep, stateAfter, System.tally, System.passed?, hnext] using htally
  have hzeros : [s].countP (fun t => t.machine.returnsOnZero) =
      if op = .zret ∧ s.machine.data.look 0 = 0 then 1 else 0 := by
    simp [List.countP_cons, Machine.returnsOnZero, hnext]
  have hbelow : s.machine.sp = -1 ↔ s.machine.data.top < 0 := by
    have hlow := h.1.1
    simp only [Machine.sp]
    omega
  have hdrop : lastDrop [s] = if op = .drop ∧ s.machine.data.top < 0 then 1 else 0 := by
    simp [lastDrop, lastDispatch?, Machine.dropsNothing, hnext, hbelow]
  have hdataBalance := s.machine.statistics.dataBalance_record op s.machine
  have hreturnsBalance := s.machine.statistics.returnsBalance_record op s.machine
  constructor
  · exact (Session.preserves_step h).of_ok hstep
  · simp only [Machine.sp] at *
    rw [hcounted, hzeros, hdrop, hdata, Statistics.dataBalance_checkpoint, hdataBalance]
    split <;> split <;> omega
  · rw [hcounted, hzeros, Machine.rp, hreturns, Statistics.returnsBalance_checkpoint,
      hreturnsBalance, Machine.rp]
    split <;> omega
  · intro hlast
    rw [hdrop] at hlast
    split at hlast
    · rename_i hempty
      rw [hempty.1] at hnext
      exact hasHalted_of_drop hnext hempty.2 hstep
    · simp at hlast
  · intro hhalted
    rw [Machine.next?_of_hasHalted hhalted] at hnext
    simp at hnext

/-- As long as no step stops with a fault, the counters account for the pointers, whatever the
operations are. -/
theorem accounts : Accounts fun m (steps : List (System δ)) m' =>
    Quiet steps → m.Within 0 0 → Balanced m steps m' where
  load _ memory _ h := load h memory
  step s hquiet h := by
    cases hnext : s.machine.next? with
    | none =>
      rw [Session.stateAfter_step_of_none hnext]
      exact stay h hnext
    | some op =>
      have hends := hquiet s List.mem_cons_self
      cases hstep : Session.step s with
      | ok status s' => exact dispatch h hnext hstep
      | error fault s' => simp [hstep, faultOf?] at hends
  append h h' hquiet hwithin := by
    obtain ⟨hfirst, hsecond⟩ := List.forall_mem_append.mp hquiet
    have hbalanced := h hfirst hwithin
    exact hbalanced.append (h' hsecond hbalanced.within)

end Balanced

/-- Whatever a new machine is asked to do, as long as no step stops with a fault its counters tell
where both stack pointers are: each opcode stands for its moves, but for the returns on zero that
found no zero, and for a drop below the floor, which can only have been the last instruction. -/
theorem pointers_of_counts [Host δ] {s s' : System δ} {ops : List Operation}
    {answers : List (Except Fault Answer)}
    (hnew : ∃ memory, s.machine = { memory, set := s.machine.set })
    (hall : Operation.performAll ops s = some (answers, s'))
    (hquiet : Quiet (Operation.allSteps ops s)) :
    let steps := Operation.allSteps ops s
    let count (op : Opcode) : Int := s'.machine.statistics.count op
    let zeros : Int := steps.countP fun t =>
      t.machine.next? = some .zret ∧ t.machine.data.look 0 = 0
    let empty : Int := if (lastDispatch? steps).any (fun t =>
      t.machine.next? = some .drop ∧ t.machine.sp = -1) then 1 else 0
    s'.machine.rp = count .push + count .call + count .ccall - count .pop - count .ret - zeros ∧
      s'.machine.sp = count .lit + count .dup + count .pop + count .input + count .getc
        - count .drop - count .push - count .jump - count .call - count .output - zeros
        - (count .eq + count .neq + count .lt + count .gt + count .add + count .sub + count .mul
          + count .and + count .or + count .xor + count .shift)
        - 2 * (count .store + count .ccall) + empty := by
  intro steps count zeros empty
  obtain ⟨memory, hmachine⟩ := hnew
  have hwithin : s.machine.Within 0 0 := by
    rw [hmachine]
    simp [Machine.Within]
  have hstart : s.machine.sp - s.machine.statistics.dataBalance = 0 ∧
      s.machine.rp - s.machine.statistics.returnsBalance = 0 := by
    rw [hmachine]
    simp [Machine.sp, Machine.rp, Statistics.dataBalance, Statistics.returnsBalance]
  have hbalanced : Balanced s.machine steps s'.machine :=
    Balanced.accounts.performAll hall hquiet hwithin
  have hdata := hbalanced.data
  have hreturns := hbalanced.returns
  have hempty : lastDrop steps = empty := rfl
  have hzeros : (steps.countP (fun t => t.machine.returnsOnZero) : Int) = zeros := rfl
  rw [hstart.1, hempty, hzeros, Statistics.dataBalance] at hdata
  rw [hstart.2, hzeros, Statistics.returnsBalance] at hreturns
  simp only [count]
  constructor <;> omega

end Accounts

/-- A return on zero takes the pointer below the floor, and a drop finds nothing there. -/
theorem pointers_of_counts_of_empty_drop :
    ∃ (s s' : System Script) (answers : List (Except Fault Answer)),
      s.machine = .loaded .base [25, 3] ∧
        Operation.performAll [.step, .step] s = some (answers, s') ∧
        s'.machine.statistics.count .zret = 1 ∧ s'.machine.statistics.count .drop = 1 ∧
        s'.machine.sp = -1 ∧ s'.machine.rp = -1 := by
  obtain ⟨s, hs⟩ : ∃ s : System Script, s = ⟨.loaded .base [25, 3], {}⟩ := ⟨_, rfl⟩
  have hmachine : s.machine = .loaded .base [25, 3] := by rw [hs]
  have hset : s.machine.set = .base := by rw [hmachine, Machine.loaded]
  have hmemory : s.machine.memory = Memory.blank.write 0 [25, 3] := by rw [hmachine, Machine.loaded]
  have hip : s.machine.ip = 0 := by rw [hmachine, Machine.loaded]
  have htop : s.machine.data.top = 0 ∧ s.machine.returns.top = 0 := by
    simp [hmachine, Machine.loaded]
  have hzero : s.machine.data.look 0 = 0 := by
    rw [hmachine]
    rfl
  have hback : s.machine.returns.look 0 = 0 := by
    rw [hmachine]
    rfl
  have hnext : s.machine.next? = some .zret :=
    Machine.next?_of_write (i := 0) hmemory hip rfl (by omega) (by rw [hset]; rfl)
  have hfirst : Yields (Session.step s)
      (fun _ t => t.machine.memory = s.machine.memory ∧ t.machine.set = s.machine.set ∧
        t.machine.ip = 1 ∧ t.machine.data.top = -1) (fun _ _ => False) := by
    rw [Session.yields_step_of_next hnext]
    apply Session.yields_liftM.mpr
    apply Action.yields_goBackOnZero.mpr
    simp [hzero, hback, htop]
  obtain ⟨status, t, hok, htmemory, htset, htip, htsp⟩ := hfirst.exists_ok
  have hnext' : t.machine.next? = some .drop :=
    Machine.next?_of_write (i := 1) (htmemory.trans hmemory) htip rfl (by omega)
      (by rw [htset, hset]; rfl)
  have hsecond : Yields (Session.step t) (fun _ _ => True) (fun _ _ => False) := by
    rw [Session.yields_step_of_next hnext']
    apply Session.yields_liftM.mpr
    apply Action.yields_drop.mpr
    simp [htsp]
  obtain ⟨status', s', hok', -⟩ := hsecond.exists_ok
  have hall : Operation.performAll [.step, .step] s =
      some ([.ok (.status status), .ok (.status status')], s') := by
    simp [Operation.performAll, Operation.perform_step hok, Operation.perform_step hok',
      stateAfter, answerOf]
  have hsteps : Operation.allSteps [.step, .step] s = [s, t] := by
    simp [Operation.allSteps, Operation.steps, Operation.perform_step hok,
      Operation.perform_step hok', stateAfter]
  have hquiet : Quiet (Operation.allSteps [.step, .step] s) := by
    simp [hsteps, Quiet, hok, hok', faultOf?]
  have hcount : ∀ op, s'.machine.statistics.count op =
      [s, t].countP fun u => u.machine.next? = some op := by
    intro op
    rw [System.accounts_tally.performAll hall, hsteps, System.count_foldl_tally, hmachine]
    simp [Machine.loaded]
  have hlast : lastDispatch? [s, t] = some t := by
    simp [lastDispatch?, hnext, hnext']
  obtain ⟨hrp, hsp⟩ := pointers_of_counts ⟨_, by rw [hset]; exact hmachine⟩ hall hquiet
  rw [hsteps] at hrp hsp
  refine ⟨s, s', _, hmachine, hall, ?_, ?_, ?_, ?_⟩
  · simp [hcount, hnext, hnext']
  · simp [hcount, hnext, hnext']
  · simpa [hcount, hnext, hnext', hlast, hzero, htsp, Machine.sp] using hsp
  · simpa [hcount, hnext, hnext', hzero] using hrp

end CellMachine
