import Mathlib.Data.List.Forall2
import CellMachine.Host.Script
import CellMachine.Proofs.Recorder
import CellMachine.Proofs.Runs
import CellMachine.Proofs.StepLists

/-!
# What a machine asks of its devices

Only four instructions use a device. Two emit the low byte of the top of the data stack. The other
two read a character, and hand out what was emitted before they wait for it. The end of a run hands
out what is left. This file follows the calls that are made along every sequence of operations,
whatever comes of them, and accounts for each of them by the steps that were made.
-/

namespace CellMachine

/-- The low byte of a cell is the cell modulo 256. -/
theorem Cell.toNat_lowByte (c : Cell) : (c.lowByte.toNat : Int) = c.toInt % 256 := by
  have hbyte : c.lowByte.toNat = c.toBitVec.toNat % 256 := rfl
  have hlt : c.toBitVec.toNat < 2 ^ 32 := c.toBitVec.isLt
  have hint : c.toInt = c.toBitVec.toInt := rfl
  rw [hbyte, hint, BitVec.toInt_eq_toNat_cond]
  split <;> omega

/-! ## Calls -/

namespace Call

/-- Whether a call ended well. -/
def succeeded : Call → Bool
  | read outcome => outcome.isOk
  | put _ outcome => outcome.isOk
  | flush outcome => outcome.isOk

/-- The byte that a call emits. -/
def byte? : Call → Option UInt8
  | put byte _ => some byte
  | _ => none

/-- What a call that reads a character comes to. -/
def reply? : Call → Option (Except IoError Cell)
  | read outcome => some outcome
  | _ => none

end Call

/-- Right before every read, what was emitted has been handed out. -/
def Prompted (calls : List Call) : Prop :=
  ∀ before outcome after, calls = before ++ .read outcome :: after →
    ∃ earlier, before = earlier ++ [.flush (.ok ())]

theorem Prompted.append {first second : List Call} (hfirst : Prompted first)
    (hsecond : Prompted second) : Prompted (first ++ second) := by
  intro before outcome after heq
  rcases List.append_eq_append_iff.mp heq with ⟨middle, rfl, hlater⟩ | ⟨middle, hearlier, hread⟩
  · obtain ⟨earlier, rfl⟩ := hsecond middle outcome after hlater
    exact ⟨first ++ earlier, (List.append_assoc ..).symm⟩
  · cases middle with
    | nil =>
      -- The read would be the first call of the second part.
      obtain ⟨earlier, hnil⟩ := hsecond [] outcome after hread.symm
      simp at hnil
    | cons call middle =>
      obtain ⟨rfl, _⟩ := List.cons.inj hread
      exact hfirst before outcome middle hearlier

theorem Prompted.of_no_read {calls : List Call} (h : ∀ outcome, Call.read outcome ∉ calls) :
    Prompted calls := by
  rintro before outcome after rfl
  exact absurd (List.mem_append_right before List.mem_cons_self) (h outcome)

theorem Prompted.read (outcome : Except IoError Cell) :
    Prompted [.flush (.ok ()), .read outcome] := by
  intro before outcome' after heq
  match before with
  | [] => simp at heq
  | [call] =>
    obtain ⟨rfl, _⟩ := List.cons.inj heq
    exact ⟨[], rfl⟩
  | _ :: _ :: _ => simp at heq

/-! ## Steps that use a device -/

/-- The value of the byte that the machine is about to emit. -/
def Machine.emission? (m : Machine) : Option Int :=
  if m.next?.any Opcode.emits ∧ 0 ≤ m.sp ∧ m.sp ≤ 31 then some ((m.data.look 0).toInt % 256)
  else none

namespace System

variable {δ : Type} [Host δ]

/-- Whether the next step waits for a character: its opcode reads one, and what was emitted before
can be handed out. -/
def awaits (s : System δ) : Bool :=
  match s.machine.next? with
  | some op => op.reads && (faultOf? (Host.flush (s.noted op))).isNone
  | none => false

/-- The next step comes to what was read: it pushes the character if there is room, and stops if
reading failed. -/
def Receives (s : System δ) : Except IoError Cell → Prop
  | .ok value => -1 ≤ s.machine.sp → s.machine.sp < 31 → ∃ status s',
      Session.step s = .ok status s' ∧ s'.machine.data = s.machine.data.raise.put 0 value
  | .error cause => faultOf? (Session.step s) = some (.io cause)

end System

/-- The calls are those that the steps make, each in its turn. -/
structure Conducts {δ : Type} [Host δ] (steps : List (System δ)) (calls : List Call) : Prop where
  /-- No step waits for a character before what was emitted is handed out. -/
  prompted : Prompted calls
  /-- Every step that emits a byte emits it once, and nothing else does. -/
  bytes : (calls.filterMap Call.byte?).map (fun byte => (byte.toNat : Int)) =
    steps.filterMap fun s => s.machine.emission?
  /-- Every step that waits for a character gets one, and nothing else does. -/
  replies : List.Forall₂ System.Receives (steps.filter System.awaits) (calls.filterMap Call.reply?)

namespace Conducts

variable {δ : Type} [Host δ]

theorem append {steps steps' : List (System δ)} {calls calls' : List Call}
    (h : Conducts steps calls) (h' : Conducts steps' calls') :
    Conducts (steps ++ steps') (calls ++ calls') where
  prompted := h.prompted.append h'.prompted
  bytes := by
    rw [List.filterMap_append, List.map_append, List.filterMap_append, h.bytes, h'.bytes]
  replies := by
    rw [List.filterMap_append, List.filter_append]
    exact List.rel_append h.replies h'.replies

theorem nil : Conducts ([] : List (System δ)) [] where
  prompted := .of_no_read (by simp)
  bytes := rfl
  replies := .nil

/-- To hand out what was emitted takes no step. -/
theorem flush (outcome : Except IoError Unit) :
    Conducts ([] : List (System δ)) [.flush outcome] where
  prompted := .of_no_read (by simp)
  bytes := rfl
  replies := .nil

variable {s : System δ}

theorem quiet (hemission : s.machine.emission? = none) (hawaits : s.awaits = false) :
    Conducts [s] [] where
  prompted := .of_no_read (by simp)
  bytes := by simp [hemission]
  replies := by simp [hawaits]

theorem unprompted (hemission : s.machine.emission? = none) (hawaits : s.awaits = false)
    (outcome : Except IoError Unit) : Conducts [s] [.flush outcome] :=
  (quiet hemission hawaits).append (flush outcome)

theorem emitted {byte : UInt8} (hemission : s.machine.emission? = some (byte.toNat : Int))
    (hawaits : s.awaits = false) (outcome : Except IoError Unit) :
    Conducts [s] [.put byte outcome] where
  prompted := .of_no_read (by simp)
  bytes := by simp [hemission, Call.byte?]
  replies := by simp [hawaits, Call.reply?]

theorem received {outcome : Except IoError Cell} (hemission : s.machine.emission? = none)
    (hawaits : s.awaits = true) (hreceives : s.Receives outcome) :
    Conducts [s] [.flush (.ok ()), .read outcome] where
  prompted := .read outcome
  bytes := by simp [hemission, Call.byte?]
  replies := by
    rw [List.filter_cons_of_pos hawaits]
    exact .cons hreceives .nil

end Conducts

/-- A result has a fault exactly when it answers with one. -/
theorem faultOf?_eq_none_iff {ε σ α : Type} {result : EStateM.Result ε σ α} :
    faultOf? result = none ↔ ∃ a, answerOf result = .ok a := by
  cases result with
  | ok a s => simp [faultOf?, answerOf]
  | error e s => simp [faultOf?, answerOf]

/-! ## Calls that are made -/

section Made

variable {δ α : Type}

/-- A result has added calls to the record, and if it ends well they all did. -/
def Made (s : System (Recorder δ)) (result : EStateM.Result Fault (System (Recorder δ)) α)
    (made : List Call) : Prop :=
  Yields result
    (fun _ s' => s'.host.calls = s.host.calls ++ made ∧ ∀ call ∈ made, call.succeeded = true)
    (fun _ s' => s'.host.calls = s.host.calls ++ made)

theorem Made.stateAfter {s : System (Recorder δ)} {made : List Call}
    {result : EStateM.Result Fault (System (Recorder δ)) α} (h : Made s result made) :
    (stateAfter result).host.calls = s.host.calls ++ made := by
  cases result with
  | ok a s' => exact h.1
  | error e s' => exact h

theorem Made.succeeded {s : System (Recorder δ)} {made : List Call}
    {result : EStateM.Result Fault (System (Recorder δ)) α} (h : Made s result made)
    (hquiet : faultOf? result = none) : ∀ call ∈ made, call.succeeded = true := by
  cases result with
  | ok a s' => exact h.2
  | error e s' => simp [faultOf?] at hquiet

/-- What happens after a result that ended well adds its calls to the record. -/
theorem Made.trans {β : Type} {s s' : System (Recorder δ)} {a : α} {made made' : List Call}
    {result : EStateM.Result Fault (System (Recorder δ)) β} (h : Made s (.ok a s' : _) made)
    (h' : Made s' result made') : Made s result (made ++ made') := by
  obtain ⟨hcalls, hsucceeded⟩ : _ ∧ _ := h
  refine Yields.imp h' (fun _ t hdone => ⟨?_, ?_⟩) (fun _ t hstopped => ?_)
  · rw [hdone.1, hcalls, List.append_assoc]
  · intro call hcall
    rcases List.mem_append.mp hcall with hfirst | hsecond
    · exact hsucceeded call hfirst
    · exact hdone.2 call hsecond
  · rw [hstopped, hcalls, List.append_assoc]

/-- The words that a value is put into do not matter. -/
theorem Made.map {β : Type} (f : α → β) {s : System (Recorder δ)} {made : List Call}
    {x : Session (Recorder δ) α} (h : Made s (x s) made) : Made s ((f <$> x) s) made := by
  rw [Made, map_eq_pure_bind, yields_bind]
  exact h.imp (fun _ _ hdone => hdone) (fun _ _ hstopped => hstopped)

/-- Nothing was asked of a device. -/
theorem Made.nil {s : System (Recorder δ)}
    {result : EStateM.Result Fault (System (Recorder δ)) α}
    (h : Yields result (fun _ s' => s'.host.calls = s.host.calls)
      (fun _ s' => s'.host.calls = s.host.calls)) : Made s result [] := by
  refine h.imp (fun _ s' hkept => ⟨?_, ?_⟩) (fun _ s' hkept => ?_)
  · rw [hkept, List.append_nil]
  · simp
  · rw [hkept, List.append_nil]

/-- What a recorded use adds to the record. -/
theorem Recorder.record_cases (call : Except IoError α → Call) (use : EStateM IoError δ α)
    (r : Recorder δ) :
    (∃ a host, record call use r = .ok a ⟨host, r.calls ++ [call (.ok a)]⟩) ∨
      ∃ cause host, record call use r = .error cause ⟨host, r.calls ++ [call (.error cause)]⟩ := by
  unfold record
  cases use r.host with
  | ok a host => exact .inl ⟨a, host, rfl⟩
  | error cause host => exact .inr ⟨cause, host, rfl⟩

variable [Host δ] (r : Recorder δ)

theorem Recorder.read_cases :
    (∃ value host, Host.read r = .ok value ⟨host, r.calls ++ [.read (.ok value)]⟩) ∨
      ∃ cause host, Host.read r = .error cause ⟨host, r.calls ++ [.read (.error cause)]⟩ :=
  record_cases Call.read Host.read r

theorem Recorder.put_cases (byte : UInt8) :
    (∃ u host, Host.put byte r = .ok u ⟨host, r.calls ++ [.put byte (.ok u)]⟩) ∨
      ∃ cause host, Host.put byte r = .error cause ⟨host, r.calls ++ [.put byte (.error cause)]⟩ :=
  record_cases (Call.put byte) (Host.put byte) r

theorem Recorder.flush_cases :
    (∃ u host, Host.flush r = .ok u ⟨host, r.calls ++ [.flush (.ok u)]⟩) ∨
      ∃ cause host, Host.flush r = .error cause ⟨host, r.calls ++ [.flush (.error cause)]⟩ :=
  record_cases Call.flush Host.flush r

end Made

namespace Session

variable {δ : Type} [Host δ] {s : System (Recorder δ)} {op : Opcode}

/-- A step that finds an opcode makes the calls that the instruction makes. -/
theorem made_step_of_next {made : List Call} (hnext : s.machine.next? = some op)
    (h : Made s (execute s.machine.ip op ⟨s.machine.counted op, s.noted op⟩) made) :
    Made s (step s) made := by
  rw [Made, yields_step_of_next hnext]
  exact h.imp (fun _ _ hdone => hdone) (fun _ _ hstopped => hstopped)

/-- An instruction that asks nothing of the devices makes no call. -/
theorem step_calls_of_quiet (hnext : s.machine.next? = some op) (hemits : op.emits = false)
    (hreads : op.reads = false) : ∃ made, Made s (step s) made ∧ Conducts [s] made := by
  refine ⟨[], made_step_of_next hnext (.nil ?_), .quiet ?_ ?_⟩
  · cases hop : op.action? s.machine.ip with
    | some x =>
      rw [execute_action hop, yields_liftM]
      exact .of_forall (fun _ _ => rfl) fun _ _ => rfl
    | none =>
      rcases Opcode.action?_eq_none hop with rfl | rfl | rfl | rfl | rfl
      · simp [Opcode.reads] at hreads
      · simp [Opcode.reads] at hreads
      · simp [Opcode.emits] at hemits
      · simp [Opcode.emits] at hemits
      · exact rfl
  · simp [Machine.emission?, hnext, hemits]
  · simp [System.awaits, hnext, hreads]

/-- A step that reads a character pushes it. -/
theorem yields_step_of_reads (hnext : s.machine.next? = some op) (hreads : op.reads = true)
    {done : Status → System (Recorder δ) → Prop} {stopped : Fault → System (Recorder δ) → Prop} :
    Yields (step s) done stopped ↔
      Yields (Host.flush (s.noted op))
        (fun _ h => Yields (Host.read h)
          (fun value h => Yields (Action.push s.machine.ip value (s.machine.counted op))
            (fun _ m => done m.advanced.status ⟨m.advanced, h⟩)
            (fun fault m => stopped fault ⟨m, h⟩))
          (fun cause h => stopped (.io cause) ⟨s.machine.counted op, h⟩))
        (fun cause h => stopped (.io cause) ⟨s.machine.counted op, h⟩) := by
  have hexecute : execute (δ := Recorder δ) s.machine.ip op =
      (do let value ← read; Action.push s.machine.ip value) := by
    cases op <;> first | rfl | simp [Opcode.reads] at hreads
  rw [yields_step_of_next hnext, hexecute]
  simp only [yields_bind, yields_read, yields_liftM]
  exact Iff.rfl

/-- An instruction that reads a character hands out what was emitted, and if it can, it waits. -/
theorem step_calls_of_reads (hnext : s.machine.next? = some op) (hreads : op.reads = true) :
    ∃ made, Made s (step s) made ∧ Conducts [s] made := by
  have hemission : s.machine.emission? = none := by
    have hemits : op.emits = false := by
      cases op <;> first | rfl | simp [Opcode.reads] at hreads
    simp [Machine.emission?, hnext, hemits]
  have hcalls : (s.noted op).calls = s.host.calls := rfl
  rcases Recorder.flush_cases (s.noted op) with ⟨_, host, hflush⟩ | ⟨cause, host, hflush⟩
  · have hawaits : s.awaits = true := by
      simp [System.awaits, hnext, hreads, hflush, faultOf?]
    rcases Recorder.read_cases ⟨host, (s.noted op).calls ++ [.flush (.ok ())]⟩ with
      ⟨value, host', hread⟩ | ⟨cause, host', hread⟩
    · refine ⟨[.flush (.ok ()), .read (.ok value)], ?_, .received hemission hawaits ?_⟩
      · rw [Made, yields_step_of_reads hnext hreads, hflush, Yields, hread, Yields]
        refine .of_forall (fun _ _ => ⟨?_, ?_⟩) (fun _ _ => ?_)
        · simp [hcalls]
        · simp [Call.succeeded, Except.isOk, Except.toBool]
        · simp [hcalls]
      · intro hlow hroom
        apply Yields.exists_ok
        simp only [Machine.sp] at hlow hroom
        rw [yields_step_of_reads hnext hreads, hflush, Yields, hread, Yields, Action.yields_push]
        refine ⟨fun hneg => ?_, fun _ _ => rfl, fun hfull => ?_⟩
        · rw [Machine.data_counted] at hneg
          omega
        · rw [Machine.data_counted] at hfull
          omega
    · refine ⟨[.flush (.ok ()), .read (.error cause)], ?_, .received hemission hawaits ?_⟩
      · rw [Made, yields_step_of_reads hnext hreads, hflush, Yields, hread, Yields]
        simp [hcalls]
      · have hfails : Yields (step s) (fun _ _ => False) (fun fault _ => fault = .io cause) := by
          rw [yields_step_of_reads hnext hreads, hflush, Yields, hread, Yields]
        obtain ⟨_, _, hstep, rfl⟩ := hfails.exists_error
        rw [System.Receives, hstep, faultOf?]
  · have hawaits : s.awaits = false := by
      simp [System.awaits, hnext, hreads, hflush, faultOf?]
    refine ⟨[.flush (.error cause)], ?_, .unprompted hemission hawaits _⟩
    rw [Made, yields_step_of_reads hnext hreads, hflush, Yields, hcalls]

/-- An instruction that emits a byte emits the low byte of the top, if there is a top. -/
theorem step_calls_of_emits (hnext : s.machine.next? = some op) (hemits : op.emits = true) :
    ∃ made, Made s (step s) made ∧ Conducts [s] made := by
  have hawaits : s.awaits = false := by
    have hreads : op.reads = false := by
      cases op <;> first | rfl | simp [Opcode.emits] at hemits
    simp [System.awaits, hnext, hreads]
  -- Nothing that follows the byte asks for a device.
  have hexecute : ∀ {made : List Call},
      Made s (emit s.machine.ip ⟨s.machine.counted op, s.noted op⟩) made →
        Made s (step s) made := by
    intro made hmade
    apply made_step_of_next hnext
    cases op <;> simp only [Opcode.emits, Bool.false_eq_true] at hemits
    · rw [execute, Made, yields_bind]
      exact hmade.imp (fun _ _ hdone => hdone) (fun _ _ hstopped => hstopped)
    · exact hmade
  by_cases hcell : 0 ≤ s.machine.sp ∧ s.machine.sp ≤ 31
  · have hemission : s.machine.emission? =
        some ((s.machine.data.look 0).lowByte.toNat : Int) := by
      rw [Machine.emission?, if_pos (by simp [hnext, hemits, hcell]), Cell.toNat_lowByte]
    simp only [Machine.sp] at hcell
    rcases Recorder.put_cases (s.noted op) (s.machine.data.look 0).lowByte with
      ⟨_, host, hput⟩ | ⟨cause, host, hput⟩
    · refine ⟨_, hexecute ?_, .emitted hemission hawaits (.ok ())⟩
      rw [Made, yields_emit, Machine.data_counted, hput]
      refine ⟨fun _ => by omega, fun _ _ => ⟨rfl, ?_⟩, fun _ => by omega⟩
      simp [Call.succeeded, Except.isOk, Except.toBool]
    · refine ⟨_, hexecute ?_, .emitted hemission hawaits (.error cause)⟩
      rw [Made, yields_emit, Machine.data_counted, hput]
      exact ⟨fun _ => by omega, fun _ _ => rfl, fun _ => by omega⟩
  · have hemission : s.machine.emission? = none := by
      rw [Machine.emission?, if_neg (fun h => hcell h.2)]
    simp only [Machine.sp] at hcell
    refine ⟨[], hexecute (.nil ?_), .quiet hemission hawaits⟩
    rw [yields_emit, Machine.data_counted]
    exact ⟨fun _ => rfl, fun _ _ => by omega, fun _ => rfl⟩

/-- Every step makes the calls that its instruction stands for. -/
theorem step_calls (s : System (Recorder δ)) :
    ∃ made, Made s (step s) made ∧ Conducts [s] made := by
  cases hnext : s.machine.next? with
  | none =>
    refine ⟨[], .nil ?_, .quiet (by simp [Machine.emission?, hnext])
      (by simp [System.awaits, hnext])⟩
    rw [yields_step]
    refine ⟨fun _ => rfl, fun _ => ⟨fun _ => rfl, fun _ _ _ => rfl, fun op hop => ?_⟩⟩
    rw [hnext] at hop
    simp at hop
  | some op =>
    cases hemits : op.emits with
    | true => exact step_calls_of_emits hnext hemits
    | false =>
      cases hreads : op.reads with
      | true => exact step_calls_of_reads hnext hreads
      | false => exact step_calls_of_quiet hnext hemits hreads

end Session

/-! ## Calls along operations -/

/-- Steps in a row make their calls one after the other, also those of a run that does not end. -/
theorem System.after_calls {δ : Type} [Host δ] (s : System (Recorder δ)) (n : Nat) :
    ∃ made, (s.after n).host.calls = s.host.calls ++ made ∧
      Conducts ((List.range n).map s.after) made := by
  induction n with
  | zero => exact ⟨[], (List.append_nil _).symm, .nil⟩
  | succ n ih =>
    obtain ⟨made, hcalls, hconducts⟩ := ih
    obtain ⟨made', hmade, hconducts'⟩ := Session.step_calls (s.after n)
    refine ⟨made ++ made', ?_, ?_⟩
    · rw [after, hmade.stateAfter, hcalls, List.append_assoc]
    · rw [List.range_succ, List.map_append]
      exact hconducts.append hconducts'

namespace Session

variable {δ : Type} [Host δ] {s : System (Recorder δ)}

/-- A run makes the calls of its steps, one after the other. -/
theorem runToHalt_calls {fuel : Nat} {result : EStateM.Result Fault (System (Recorder δ)) Unit}
    (hrun : runToHalt fuel s = some result) :
    ∃ made, Made s result made ∧ Conducts (stepsToHalt fuel s) made := by
  induction fuel generalizing s with
  | zero => simp [runToHalt] at hrun
  | succ fuel ih =>
    obtain ⟨made, hmade, hconducts⟩ := step_calls s
    rw [runToHalt] at hrun
    rw [stepsToHalt]
    split at hrun
    · rename_i s' hok
      rw [hok] at hmade ⊢
      obtain ⟨rest, hrest, hconducts'⟩ := ih hrun
      exact ⟨made ++ rest, hmade.trans hrest, hconducts.append hconducts'⟩
    · rename_i s' hok
      rw [hok] at hmade ⊢
      rw [← Option.some.inj hrun]
      exact ⟨made, hmade, hconducts⟩
    · rename_i fault s' herror
      rw [herror] at hmade ⊢
      rw [← Option.some.inj hrun]
      exact ⟨made, hmade, hconducts⟩

/-- The end of a run is one more call, and what comes of it is told before anything else. -/
theorem settle_calls (result : EStateM.Result Fault (System (Recorder δ)) Unit) :
    ∃ outcome, (stateAfter (settle result)).host.calls =
        (stateAfter result).host.calls ++ [.flush outcome] ∧
      answerOf (settle result) = match outcome with
        | .ok _ => answerOf result
        | .error cause => .error (.io cause) := by
  cases result with
  | ok u s =>
    obtain ⟨m, r⟩ := s
    rw [settle, bind_apply]
    rcases Recorder.flush_cases r with ⟨_, host, hflush⟩ | ⟨cause, host, hflush⟩
    · simp only [onHost, hflush]
      exact ⟨.ok (), rfl, rfl⟩
    · simp only [onHost, hflush]
      exact ⟨.error cause, rfl, rfl⟩
  | error fault s =>
    obtain ⟨m, r⟩ := s
    rw [settle, bind_apply]
    rcases Recorder.flush_cases r with ⟨_, host, hflush⟩ | ⟨cause, host, hflush⟩
    · simp only [onHost, hflush]
      exact ⟨.ok (), rfl, rfl⟩
    · simp only [onHost, hflush]
      exact ⟨.error cause, rfl, rfl⟩

theorem made_install (s : System (Recorder δ)) (transfer : Memory.Transfer) :
    Made s (install transfer s) [] := by
  apply Made.nil
  rw [install_apply, yields_bind, warn, yields_ite]
  exact ⟨fun _ => rfl, fun _ => rfl⟩

theorem made_loadProgram (s : System (Recorder δ)) (deliveries : List Delivery) :
    Made s (loadProgram deliveries s) [] := by
  unfold loadProgram
  cases s.machine.memory.receive 0 deliveries with
  | ok transfer => exact made_install s transfer
  | error cause => exact .nil rfl

theorem made_loadImage (s : System (Recorder δ)) (path : String)
    (found : Except IoError (List UInt8)) : Made s (loadImage path found s) [] := by
  unfold loadImage
  cases s.machine.memory.loadImage path found with
  | ok transfer =>
    rw [Made, yields_bind]
    exact (made_install s transfer).imp (fun _ _ hdone => hdone) (fun _ _ hstopped => hstopped)
  | error fault => exact .nil rfl

end Session

namespace Operation

variable {δ : Type} [Host δ]

/-- An operation makes the calls of its steps, and a run one more. -/
theorem perform_calls {op : Operation} {s : System (Recorder δ)}
    {result : EStateM.Result Fault (System (Recorder δ)) Answer}
    (hresult : op.perform s = some result) :
    ∃ made, (stateAfter result).host.calls = s.host.calls ++ made ∧
      Conducts (op.steps s) made := by
  cases op with
  | loadCells cells =>
    obtain rfl := Option.some.inj hresult
    exact ⟨[], ((Session.made_install s _).map _).stateAfter, .nil⟩
  | loadProgram deliveries =>
    obtain rfl := Option.some.inj hresult
    exact ⟨[], ((Session.made_loadProgram s deliveries).map _).stateAfter, .nil⟩
  | loadImage path found =>
    obtain rfl := Option.some.inj hresult
    exact ⟨[], ((Session.made_loadImage s path found).map _).stateAfter, .nil⟩
  | step =>
    obtain rfl := Option.some.inj hresult
    obtain ⟨made, hmade, hconducts⟩ := Session.step_calls s
    exact ⟨made, (hmade.map _).stateAfter, hconducts⟩
  | run fuel =>
    obtain ⟨ended, hended, rfl⟩ := Option.map_eq_some_iff.mp hresult
    obtain ⟨loop, hloop, rfl⟩ := Option.map_eq_some_iff.mp hended
    obtain ⟨made, hmade, hconducts⟩ := Session.runToHalt_calls hloop
    obtain ⟨outcome, hcalls, _⟩ := Session.settle_calls loop
    rw [hmade.stateAfter, List.append_assoc] at hcalls
    refine ⟨made ++ [.flush outcome], ?_, ?_⟩
    · cases hsettle : Session.settle loop <;> rw [hsettle] at hcalls <;> exact hcalls
    · have hsteps := hconducts.append (.flush outcome)
      rwa [List.append_nil] at hsteps
  | stack | stackTail limit | cell address | slice start length =>
    obtain rfl := Option.some.inj hresult
    exact ⟨[], (List.append_nil _).symm, .nil⟩

/-- The calls of operations are those of their steps, in order, and one more for each run. -/
theorem performAll_calls {ops : List Operation} {s s' : System (Recorder δ)}
    {answers : List (Except Fault Answer)} (hall : performAll ops s = some (answers, s')) :
    ∃ made, s'.host.calls = s.host.calls ++ made ∧ Conducts (allSteps ops s) made := by
  induction ops generalizing s answers with
  | nil =>
    obtain ⟨_, rfl⟩ := Prod.mk.inj (Option.some.inj hall)
    exact ⟨[], (List.append_nil _).symm, .nil⟩
  | cons op rest ih =>
    rw [performAll] at hall
    rw [allSteps]
    cases hresult : op.perform s with
    | none =>
      rw [hresult] at hall
      simp at hall
    | some result =>
      rw [hresult] at hall
      obtain ⟨⟨later, t⟩, hrest, heq⟩ := Option.map_eq_some_iff.mp hall
      obtain ⟨_, rfl⟩ := Prod.mk.inj heq
      obtain ⟨made, hcalls, hconducts⟩ := perform_calls hresult
      obtain ⟨made', hcalls', hconducts'⟩ := ih hrest
      refine ⟨made ++ made', ?_, hconducts.append hconducts'⟩
      rw [hcalls', hcalls, List.append_assoc]

end Operation

/-- Whatever a machine is asked to do, its host sees the calls of its steps, each in its turn, and
one call to hand out what is left at the end of each run. The steps of a run that does not end make
their calls in the same way. A run tells the failure of its last call before anything else, so that
after a run that ended well all its calls have. To keep a record of the calls changes nothing. -/
theorem device_protocol {δ : Type} [Host δ] (s : System (Recorder δ)) (ops : List Operation) :
    Operation.performAll ops s.erased =
        (Operation.performAll ops s).map (fun (answers, s') => (answers, s'.erased)) ∧
      (∀ answers s', Operation.performAll ops s = some (answers, s') →
        ∃ made, s'.host.calls = s.host.calls ++ made ∧
          Conducts (Operation.allSteps ops s) made) ∧
      (∀ n, ∃ made, (s.after n).host.calls = s.host.calls ++ made ∧
        Conducts ((List.range n).map s.after) made) ∧
      ∀ fuel result, Session.run fuel s = some result →
        ∃ loop made outcome, Session.runToHalt fuel s = some loop ∧
          (stateAfter loop).host.calls = s.host.calls ++ made ∧
          Conducts (Session.stepsToHalt fuel s) made ∧
          (stateAfter result).host.calls = s.host.calls ++ (made ++ [.flush outcome]) ∧
          (answerOf result = match outcome with
            | .ok _ => answerOf loop
            | .error cause => .error (.io cause)) ∧
          (faultOf? result = none →
            ∀ call ∈ made ++ [.flush outcome], call.succeeded = true) := by
  refine ⟨Operation.performAll_erased ops s, ?_, s.after_calls, ?_⟩
  · intro answers s' hall
    exact Operation.performAll_calls hall
  · intro fuel result hrun
    obtain ⟨loop, hloop, rfl⟩ := Option.map_eq_some_iff.mp hrun
    obtain ⟨made, hmade, hconducts⟩ := Session.runToHalt_calls hloop
    obtain ⟨outcome, hcalls, hanswer⟩ := Session.settle_calls loop
    refine ⟨loop, made, outcome, hloop, hmade.stateAfter, hconducts, ?_, hanswer, ?_⟩
    · rw [hcalls, hmade.stateAfter, List.append_assoc]
    · intro hquiet call hcall
      rw [faultOf?_eq_none_iff, hanswer] at hquiet
      cases outcome with
      | error cause => simp at hquiet
      | ok u =>
        rcases List.mem_append.mp hcall with hstep | hlast
        · exact hmade.succeeded (faultOf?_eq_none_iff.mpr hquiet) call hstep
        · rw [List.mem_singleton.mp hlast]
          rfl

/-- A machine with 300 on top of its data stack emits 44, and makes no other call. -/
theorem device_protocol_of_output :
    ∃ (s : System (Recorder Script)) (answers : List (Except Fault Answer))
      (s' : System (Recorder Script)), s.machine.next? = some .output ∧
      s.machine.data.look 0 = 300 ∧ Operation.performAll [.step] s = some (answers, s') ∧
      s'.host.calls.filterMap Call.byte? = [44] ∧ s'.host.calls.filterMap Call.reply? = [] := by
  obtain ⟨s, hs⟩ : ∃ s : System (Recorder Script), s = ⟨{ Machine.loaded .base [28] with
      data := { cells := Vector.replicate 32 300 } }, { host := {} }⟩ := ⟨_, rfl⟩
  have hmemory : s.machine.memory = Memory.blank.write 0 [28] := by
    rw [hs]
    rfl
  have hnext : s.machine.next? = some .output :=
    Machine.next?_of_write (i := 0) hmemory (by rw [hs]; rfl) rfl (by omega) (by rw [hs]; rfl)
  have htop : s.machine.data.look 0 = 300 := by
    rw [hs]
    rfl
  have hsp : s.machine.sp = 0 := by
    rw [hs]
    rfl
  have hall : Operation.performAll [.step] s =
      some ([answerOf ((Answer.status <$> Session.step) s)],
        stateAfter ((Answer.status <$> Session.step) s)) := rfl
  obtain ⟨made, hcalls, hconducts⟩ := (device_protocol s [.step]).2.1 _ _ hall
  have hnone : s.host.calls = [] := by
    rw [hs]
  have hsteps : Operation.allSteps [.step] s = [s] := rfl
  have hemission : s.machine.emission? = some 44 := by
    rw [Machine.emission?, if_pos (by simp [hnext, hsp, Opcode.emits]), htop]
    rfl
  have hawaits : s.awaits = false := by
    simp [System.awaits, hnext, Opcode.reads]
  rw [hnone, List.nil_append] at hcalls
  refine ⟨s, _, _, hnext, htop, hall, ?_, ?_⟩
  · have hbytes : (made.filterMap Call.byte?).map (fun byte => (byte.toNat : Int)) = [44] := by
      rw [hconducts.bytes, hsteps]
      simp [hemission]
    obtain ⟨byte, hbyte, hvalue⟩ := List.map_eq_singleton_iff.mp hbytes
    obtain rfl : byte = 44 := UInt8.toNat_inj.mp (Int.ofNat_inj.mp hvalue)
    rw [hcalls, hbyte]
  · have hreplies := hconducts.replies
    rw [hsteps, List.filter_cons_of_neg (by simp [hawaits]), List.filter_nil] at hreplies
    rw [hcalls]
    exact List.forall₂_nil_left_iff.mp hreplies

end CellMachine
