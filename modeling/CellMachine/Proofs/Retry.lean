import CellMachine.Proofs.DeviceProtocol
import CellMachine.Proofs.Tally

/-!
# Failed devices

A step that stops because a device failed has emitted nothing, read nothing and changed nothing but
the number of dispatches, so the step can be made again. This file compares a machine whose devices
fail now and then with the same machine on devices that never fail: without the steps that a device
has stopped, both do the same.
-/

namespace CellMachine

namespace Call

/-- The byte that a call has emitted. -/
def written? : Call → Option UInt8
  | put byte (.ok _) => some byte
  | _ => none

/-- The value that a call has read. -/
def value? : Call → Option Cell
  | read (.ok value) => some value
  | _ => none

end Call

/-- Calls that have emitted nothing and read nothing. -/
structure Idle (calls : List Call) : Prop where
  written : calls.filterMap Call.written? = []
  values : calls.filterMap Call.value? = []

/-- Whether a fault stands for a failed device. -/
def Fault.isDevice : Fault → Bool
  | .io _ => true
  | _ => false

/-! ## Devices that do not fail -/

/-- The script has values to read, and none of its devices fails. -/
structure Script.Supplies (s : Script) (values : List Cell) : Prop where
  replies : s.replies = values.map .ok
  puts : s.failingPut = none
  flushes : s.failingFlush = none

/-- A recorded use that cannot fail leaves what the use leaves. -/
theorem Recorder.record_of_yields {δ α : Type} {use : EStateM IoError δ α} {r : Recorder δ}
    {P : α → δ → Prop} (call : Except IoError α → Call)
    (h : Yields (use r.host) P (fun _ _ => False)) :
    ∃ a host, record call use r = .ok a ⟨host, r.calls ++ [call (.ok a)]⟩ ∧ P a host := by
  obtain ⟨a, host, huse, hP⟩ := h.exists_ok
  exact ⟨a, host, by rw [record, huse], hP⟩

namespace Script.Supplies

variable {q : Recorder Script} {values : List Cell} {value : Cell}

theorem read (h : q.host.Supplies (value :: values)) :
    ∃ host, Host.read q = .ok value ⟨host, q.calls ++ [.read (.ok value)]⟩ ∧
      host.Supplies values := by
  have hread : Yields (Script.read q.host) (fun a host => a = value ∧ host.Supplies values)
      (fun _ _ => False) := by
    rw [Script.read, h.replies]
    exact ⟨rfl, rfl, h.puts, h.flushes⟩
  obtain ⟨_, host, hrecord, rfl, hsupplies⟩ := Recorder.record_of_yields Call.read hread
  exact ⟨host, hrecord, hsupplies⟩

theorem put (h : q.host.Supplies values) (byte : UInt8) :
    ∃ host, Host.put byte q = .ok () ⟨host, q.calls ++ [.put byte (.ok ())]⟩ ∧
      host.Supplies values := by
  have hput : Yields (Script.put byte q.host) (fun _ host => host.Supplies values)
      (fun _ _ => False) := by
    simp only [Script.put, h.puts, reduceCtorEq, if_false]
    exact ⟨h.replies, rfl, h.flushes⟩
  obtain ⟨_, host, hrecord, hsupplies⟩ := Recorder.record_of_yields (Call.put byte) hput
  exact ⟨host, hrecord, hsupplies⟩

theorem flush (h : q.host.Supplies values) :
    ∃ host, Host.flush q = .ok () ⟨host, q.calls ++ [.flush (.ok ())]⟩ ∧
      host.Supplies values := by
  have hflush : Yields (Script.flush q.host) (fun _ host => host.Supplies values)
      (fun _ _ => False) := by
    simp only [Script.flush, h.flushes, reduceCtorEq, if_false]
    exact ⟨h.replies, h.puts, rfl⟩
  obtain ⟨_, host, hrecord, hsupplies⟩ := Recorder.record_of_yields Call.flush hflush
  exact ⟨host, hrecord, hsupplies⟩

end Script.Supplies

/-! ## Actions -/

/-- An instruction that asks nothing of the host does not fail because of a device. -/
theorem Opcode.yields_action_fault {op : Opcode} {here : Cell} {x : Action Unit} {m : Machine}
    (hop : op.action? here = some x) :
    Yields (x m) (fun _ _ => True) (fun fault _ => fault.isDevice = false) := by
  cases op, x, hop using Opcode.action?_cases with
  | operator op f => simp [Action.combine, Fault.isDevice]
  | nop | stop => simp
  | drop => simp [Fault.isDevice]
  | lit => simp [Action.literal, Fault.isDevice]
  | dup => simp [Action.duplicate, Fault.isDevice]
  | swap => simp [Action.exchange, Fault.isDevice]
  | push => simp [Action.toReturns, Fault.isDevice]
  | pop => simp [Action.fromReturns, Fault.isDevice]
  | jump => simp [Action.jump, Fault.isDevice]
  | call => simp [Action.call, Fault.isDevice]
  | ccall => simp [Action.conditionalCall, Fault.isDevice]
  | ret => simp [Action.goBack, Fault.isDevice]
  | fetch => simp [Action.fetch, Fault.isDevice]
  | store => simp [Action.store, Fault.isDevice]
  | divmod => simp [Action.divide, Fault.isDevice]
  | zret => simp [Action.goBackOnZero, Action.goBack, Fault.isDevice]

theorem Machine.Miscounted.data {m m' : Machine} (h : m.Miscounted m') : m'.data = m.data := by
  obtain ⟨counts, rfl⟩ := h
  rfl

theorem Machine.Miscounted.next? {m m' : Machine} (h : m.Miscounted m') : m'.next? = m.next? := by
  obtain ⟨counts, rfl⟩ := h
  rfl

section Sessions

variable {δ α β : Type}

/-- What a use of the devices has added to both records, and what is left to read. -/
structure Repeats (calls calls' made : List Call) (later : List Cell) (r : Recorder δ)
    (q : Recorder Script) : Prop where
  calls : r.calls = calls ++ made
  repeated : q.calls = calls' ++ made
  supplies : q.host.Supplies later

/-- A device has failed before anything was emitted, read or changed. -/
def Forfeits (s : System (Recorder δ))
    (result : EStateM.Result Fault (System (Recorder δ)) α) : Prop :=
  ∃ cause host made, result = .error (.io cause) ⟨s.machine, host, s.host.calls ++ made⟩ ∧ Idle made

/-- No device has failed, and devices that never fail and give the values that were read come to the
same on a machine that differs in its counters only. -/
structure Repeatable (s : System (Recorder δ)) (x : Session (Recorder δ) α)
    (y : Session (Recorder Script) α) (made : List Call) : Prop where
  clean : Yields (x s) (fun _ _ => True) (fun fault _ => fault.isDevice = false)
  succeeded : ∀ call ∈ made, call.succeeded = true
  concurs : ∀ (t : System (Recorder Script)) (later : List Cell),
    s.machine.Miscounted t.machine → t.host.host.Supplies (made.filterMap Call.value? ++ later) →
    Concur (Paired Machine.Miscounted (Repeats s.host.calls t.host.calls made later))
      (Paired Machine.Miscounted (Repeats s.host.calls t.host.calls made later)) (x s) (y t)

/-- The calls are those that were made. -/
theorem Repeatable.calls {s : System (Recorder δ)} {x : Session (Recorder δ) α}
    {y : Session (Recorder Script) α} {made : List Call} (h : Repeatable s x y made) :
    (stateAfter (x s)).host.calls = s.host.calls ++ made := by
  -- Any devices that give the values will do to compare with.
  have hconcur := h.concurs
    ⟨s.machine, { host := { replies := (made.filterMap Call.value?).map .ok } }⟩ []
    ⟨s.machine.statistics.counts, rfl⟩ ⟨by rw [List.append_nil], rfl, rfl⟩
  exact hconcur.stateAfter.2.calls

/-- Either of the two. -/
def Retries (s : System (Recorder δ)) (x : Session (Recorder δ) α)
    (y : Session (Recorder Script) α) : Prop :=
  Forfeits s (x s) ∨ ∃ made, Repeatable s x y made

/-- An action that does not depend on the counters, and does not fail because of a device. -/
structure Action.Steady (x : Action α) : Prop where
  respects : Respects (fun _ _ => Machine.Miscounted) 0 0 0 0 x
  clean (m : Machine) : Yields (x m) (fun _ _ => True) (fun fault _ => fault.isDevice = false)

/-- What can be retried can be retried if only the machine has something to do after it. -/
theorem Retries.bind {s : System (Recorder δ)} {x : Session (Recorder δ) α}
    {y : Session (Recorder Script) α} {next : α → Action β} (h : Retries s x y)
    (hnext : ∀ a, (next a).Steady) :
    Retries s (x >>= fun a => liftM (next a)) (y >>= fun a => liftM (next a)) := by
  rcases h with ⟨cause, host, made, hresult, hidle⟩ | ⟨made, h⟩
  · refine .inl ⟨cause, host, made, ?_, hidle⟩
    rw [bind_apply, hresult]
  · refine .inr ⟨made, ?_, h.succeeded, fun t later hmachine hsupplies => ?_⟩
    · rw [yields_bind]
      refine h.clean.imp (fun a t _ => ?_) (fun _ _ hclean => hclean)
      exact Session.yields_liftM.mpr ((hnext a).clean t.machine)
    · refine (h.concurs t later hmachine hsupplies).bind fun a s' t' hst => ?_
      exact Session.concur_liftM ((hnext a).respects _ _ hst.1) hst.2

/-- An action can be retried, as it uses no device. -/
theorem Action.Steady.retries {x : Action α} (hx : x.Steady) (s : System (Recorder δ)) :
    Retries s (liftM x) (liftM x) := by
  refine .inr ⟨[], ?_, by simp, fun t later hmachine hsupplies => ?_⟩
  · exact Session.yields_liftM.mpr (hx.clean s.machine)
  · apply Session.concur_liftM (hx.respects _ _ hmachine)
    exact ⟨(List.append_nil _).symm, (List.append_nil _).symm, hsupplies⟩

theorem Opcode.steady_action {op : Opcode} {here : Cell} {x : Action Unit}
    (hop : op.action? here = some x) : x.Steady where
  respects := Machine.congruence_miscounted.action hop
  clean _ := yields_action_fault hop

theorem Action.steady_push (here value : Cell) : (push here value).Steady where
  respects := Machine.congruence_miscounted.push (a := 0) (r := 0) here value
  clean m := by simp [Fault.isDevice]

theorem Action.steady_lower : lower.Steady where
  respects := Machine.congruence_miscounted.lower (a := 0) (r := 0)
  clean m := by simp

namespace Session

variable [Host δ]

theorem read_apply (s : System δ) :
    read s = match Host.flush s.host with
      | .ok _ h => onHost Host.read ⟨s.machine, h⟩
      | .error cause h => .error (.io cause) ⟨s.machine, h⟩ := by
  rw [read, bind_apply, onHost]
  cases Host.flush s.host <;> rfl

/-- Nothing is emitted if there is no top. -/
theorem emit_of_missed {s : System δ} {data : DataStack} {miss : Stack.Miss} (here : Cell)
    (hdata : s.machine.data = data) (hslot : data.slot 0 = .error miss) :
    emit here s = .error (miss.fault .data here) s := by
  have hpeek : (liftM (Action.peek here 0) : Session δ Cell) s =
      .error (miss.fault .data here) s := by
    change onMachine (Action.peek here 0) s = _
    simp only [onMachine, Action.peek, hdata, hslot]
  rw [emit, bind_apply, hpeek]

/-- The low byte of the top is emitted if there is one. -/
theorem emit_of_found {s : System δ} {data : DataStack} {i : Fin 32} (here : Cell)
    (hdata : s.machine.data = data) (hslot : data.slot 0 = .ok i) :
    emit here s = onHost (Host.put (data.look 0).lowByte) s := by
  have hpeek : (liftM (Action.peek here 0) : Session δ Cell) s = .ok (data.look 0) s := by
    change onMachine (Action.peek here 0) s = _
    simp only [onMachine, Action.peek, hdata, hslot, (Stack.slot_spec hslot).1]
  rw [emit, bind_apply, hpeek]

variable (s : System (Recorder δ))

/-- To read a character can be retried: what fails has read none. -/
theorem retries_read : Retries s read read := by
  rcases Recorder.flush_cases s.host with ⟨_, host, hflush⟩ | ⟨cause, host, hflush⟩
  · rcases Recorder.read_cases ⟨host, s.host.calls ++ [.flush (.ok ())]⟩ with
      ⟨value, host', hread⟩ | ⟨cause, host', hread⟩
    · have hresult : read s = .ok value
          ⟨s.machine, host', s.host.calls ++ [.flush (.ok ()), .read (.ok value)]⟩ := by
        rw [read_apply, hflush]
        simp [onHost, hread]
      refine .inr ⟨[.flush (.ok ()), .read (.ok value)], ?_, ?_, ?_⟩
      · rw [hresult]
        trivial
      · simp [Call.succeeded, Except.isOk, Except.toBool]
      · intro t later hmachine hsupplies
        obtain ⟨given, hflush', hgiven⟩ := hsupplies.flush
        obtain ⟨given', hread', hgiven'⟩ :=
          Script.Supplies.read (q := ⟨given, t.host.calls ++ [.flush (.ok ())]⟩) hgiven
        have hresult' : read t = .ok value
            ⟨t.machine, given', t.host.calls ++ [.flush (.ok ()), .read (.ok value)]⟩ := by
          rw [read_apply, hflush']
          simp [onHost, hread']
        rw [hresult, hresult']
        exact ⟨rfl, hmachine, rfl, rfl, hgiven'⟩
    · refine .inl ⟨cause, host', [.flush (.ok ()), .read (.error cause)], ?_, rfl, rfl⟩
      rw [read_apply, hflush]
      simp [onHost, hread]
  · refine .inl ⟨cause, host, [.flush (.error cause)], ?_, rfl, rfl⟩
    rw [read_apply, hflush]

/-- To emit a byte can be retried: what fails has emitted none. -/
theorem retries_emit (here : Cell) : Retries s (emit here) (emit here) := by
  cases hslot : s.machine.data.slot 0 with
  | error miss =>
    have hresult := emit_of_missed here rfl hslot
    refine .inr ⟨[], ?_, by simp, ?_⟩
    · rw [hresult]
      cases miss <;> rfl
    · intro t later hmachine hsupplies
      rw [hresult, emit_of_missed here hmachine.data hslot]
      exact ⟨rfl, hmachine, (List.append_nil _).symm, (List.append_nil _).symm, hsupplies⟩
  | ok i =>
    have hresult := emit_of_found here rfl hslot
    rcases Recorder.put_cases s.host (s.machine.data.look 0).lowByte with
      ⟨_, host, hput⟩ | ⟨cause, host, hput⟩
    · refine .inr ⟨[.put (s.machine.data.look 0).lowByte (.ok ())], ?_, ?_, ?_⟩
      · rw [hresult, onHost, hput]
        trivial
      · simp [Call.succeeded, Except.isOk, Except.toBool]
      · intro t later hmachine hsupplies
        obtain ⟨given, hput', hgiven⟩ := hsupplies.put (s.machine.data.look 0).lowByte
        rw [hresult, emit_of_found here hmachine.data hslot, onHost, onHost, hput, hput']
        exact ⟨rfl, hmachine, rfl, rfl, hgiven⟩
    · refine .inl ⟨cause, host, [.put (s.machine.data.look 0).lowByte (.error cause)], ?_,
        rfl, rfl⟩
      rw [hresult, onHost, hput]

/-- Every instruction can be retried. -/
theorem retries_execute (here : Cell) (op : Opcode) :
    Retries s (execute here op) (execute here op) := by
  cases hop : op.action? here with
  | some x =>
    rw [execute_action hop, execute_action hop]
    exact (Opcode.steady_action hop).retries s
  | none =>
    rcases Opcode.action?_eq_none hop with rfl | rfl | rfl | rfl | rfl
    · exact (retries_read s).bind (Action.steady_push here)
    · exact (retries_read s).bind (Action.steady_push here)
    · exact (retries_emit s here).bind fun _ => Action.steady_lower
    · exact retries_emit s here
    · refine .inr ⟨[], trivial, by simp, ?_⟩
      rintro t later ⟨counts, hcounts⟩ hsupplies
      refine ⟨rfl, ⟨counts, ?_⟩, (List.append_nil _).symm, (List.append_nil _).symm, hsupplies⟩
      rw [hcounts]

/-- A step either is stopped by a device, and has changed the number of dispatches only, or it comes
to the same on devices that never fail. -/
theorem step_retries :
    (∃ op cause host made, s.machine.next? = some op ∧
      step s = .error (.io cause) ⟨s.machine.counted op, host, s.host.calls ++ made⟩ ∧
      Idle made) ∨
    ∃ made, Repeatable s step step made := by
  cases hnext : s.machine.next? with
  | none =>
    refine .inr ⟨[], ?_, by simp, fun t later hmachine hsupplies => ?_⟩
    · rw [yields_step]
      refine ⟨fun _ => trivial, fun _ => ⟨fun _ => rfl, fun _ _ _ => rfl, fun op hop => ?_⟩⟩
      rw [hnext] at hop
      simp at hop
    · have hnow : Paired Machine.Miscounted (Repeats s.host.calls t.host.calls [] later) s t :=
        ⟨hmachine, (List.append_nil _).symm, (List.append_nil _).symm, hsupplies⟩
      obtain ⟨counts, hcounts⟩ := hmachine
      refine concur_step ?_ ?_ (fun _ _ => ?_) hnow hnow fun op hop => ?_
      · rw [hcounts]
      · rw [hcounts]
      · rw [hcounts]
      · rw [hnext] at hop
        simp at hop
  | some op =>
    rcases retries_execute ⟨s.machine.counted op, s.noted op⟩ s.machine.ip op with
      ⟨cause, host, made, hresult, hidle⟩ | ⟨made, h⟩
    · have hstops : Yields (step s) (fun _ _ => False) (fun fault s' => fault = .io cause ∧
          s' = ⟨s.machine.counted op, host, s.host.calls ++ made⟩) := by
        rw [yields_step_of_next hnext]
        change Yields (execute s.machine.ip op ⟨s.machine.counted op, s.noted op⟩) _ _
        rw [hresult]
        exact ⟨rfl, rfl⟩
      obtain ⟨_, _, hstep, rfl, rfl⟩ := hstops.exists_error
      exact .inl ⟨op, cause, host, made, rfl, hstep, hidle⟩
    · refine .inr ⟨made, ?_, h.succeeded, fun t later hmachine hsupplies => ?_⟩
      · rw [yields_step_of_next hnext]
        exact h.clean.imp (fun _ _ _ => trivial) (fun _ _ hclean => hclean)
      · have hnext' : t.machine.next? = some op := by rw [hmachine.next?, hnext]
        have hip : t.machine.ip = s.machine.ip :=
          Machine.congruence_miscounted.ip (a := 0) (r := 0) hmachine
        have hcounted : (s.machine.counted op).Miscounted (t.machine.counted op) :=
          Machine.congruence_miscounted.counted (a := 0) (r := 0) op hmachine
        rw [step_of_next hnext, step_of_next hnext', hip]
        apply concur_dispatch_of_execute Machine.congruence_miscounted
        exact h.concurs ⟨t.machine.counted op, Host.note _ t.host⟩ later hcounted hsupplies

end Session

end Sessions

/-! ## Runs -/

section Runs

variable {δ : Type} [Host δ]

namespace System

/-- Whether the next step is stopped by a device. -/
def spoiled (s : System δ) : Bool :=
  (faultOf? (Session.step s)).any Fault.isDevice

/-- How many of the first steps are not stopped by a device. -/
def kept (s : System δ) (n : Nat) : Nat :=
  (List.range n).countP fun i => !(s.after i).spoiled

/-- How many of the first steps dispatch an opcode and are stopped by a device. -/
def lost (s : System δ) (n : Nat) (op : Opcode) : Nat :=
  (List.range n).countP fun i => (s.after i).spoiled && (s.after i).machine.next? = some op

theorem kept_succ (s : System δ) (n : Nat) :
    s.kept (n + 1) = s.kept n + if (s.after n).spoiled then 0 else 1 := by
  rw [kept, kept, List.range_succ, List.countP_append, List.countP_singleton]
  cases (s.after n).spoiled <;> rfl

theorem lost_succ (s : System δ) (n : Nat) (op : Opcode) :
    s.lost (n + 1) op = s.lost n op +
      if (s.after n).spoiled && (s.after n).machine.next? = some op then 1 else 0 := by
  rw [lost, lost, List.range_succ, List.countP_append, List.countP_singleton]

/-- The values that have been read, the earliest first. -/
def values (s : System (Recorder δ)) : List Cell :=
  s.host.calls.filterMap Call.value?

/-- The bytes that have been emitted, the earliest first. -/
def written (s : System (Recorder δ)) : List UInt8 :=
  s.host.calls.filterMap Call.written?

/-- The second system is where the first one would be if the devices had not failed. -/
structure Shadows (s : System (Recorder δ)) (lost : Opcode → Nat) (later : List Cell)
    (t : System (Recorder Script)) : Prop where
  machine : s.machine.Miscounted t.machine
  counts (op : Opcode) :
    s.machine.statistics.count op = t.machine.statistics.count op + lost op
  written : t.written = s.written
  values : t.values = s.values
  succeeded : ∀ call ∈ t.host.calls, call.succeeded = true
  supplies : t.host.host.Supplies later

variable {s : System (Recorder δ)} {t : System (Recorder Script)} {later : List Cell}
  {lost : Opcode → Nat}

/-- A step that can be made on devices that never fail was not stopped by one. -/
theorem not_spoiled_of_repeatable {made : List Call}
    (h : Repeatable s Session.step Session.step made) : s.spoiled = false := by
  have hclean := h.clean
  unfold spoiled
  cases hstep : Session.step s with
  | ok status s' => rfl
  | error fault s' => exact hclean.of_error hstep

/-- A step that a device has stopped changes nothing but the number of dispatches. -/
theorem step_of_spoiled (hspoiled : s.spoiled = true) :
    ∃ op host made, s.machine.next? = some op ∧ Idle made ∧
      stateAfter (Session.step s) = ⟨s.machine.counted op, host, s.host.calls ++ made⟩ := by
  rcases Session.step_retries s with ⟨op, cause, host, made, hnext, hstep, hidle⟩ | ⟨made, h⟩
  · exact ⟨op, host, made, hnext, hidle, by rw [hstep, stateAfter]⟩
  · rw [not_spoiled_of_repeatable h] at hspoiled
    simp at hspoiled

theorem values_of_spoiled (hspoiled : s.spoiled = true) :
    (stateAfter (Session.step s)).values = s.values := by
  obtain ⟨op, host, made, -, hidle, hafter⟩ := step_of_spoiled hspoiled
  rw [hafter, values, List.filterMap_append, hidle.values, List.append_nil, values]

/-- It need not be made on devices that never fail. -/
theorem Shadows.of_spoiled (h : s.Shadows lost later t) (hspoiled : s.spoiled = true) :
    (stateAfter (Session.step s)).Shadows
      (fun op => lost op + if s.machine.next? = some op then 1 else 0) later t := by
  have hvalues := values_of_spoiled hspoiled
  obtain ⟨op, host, made, hnext, hidle, hafter⟩ := step_of_spoiled hspoiled
  refine ⟨?_, fun other => ?_, ?_, ?_, h.succeeded, h.supplies⟩
  · obtain ⟨counts, hcounts⟩ := h.machine
    rw [hafter]
    exact ⟨counts, hcounts⟩
  · rw [Session.statistics_step, count_tally, h.counts other, Nat.add_assoc]
  · rw [h.written, hafter, System.written, System.written, List.filterMap_append, hidle.written,
      List.append_nil]
  · rw [h.values, hvalues]

/-- Every other step is made on both, and comes to the same. -/
theorem step_of_not_spoiled (hclean : s.spoiled = false) :
    ∃ read, (stateAfter (Session.step s)).values = s.values ++ read ∧
      ∀ lost later t, s.Shadows lost (read ++ later) t →
        answerOf (Session.step t) = answerOf (Session.step s) ∧
        (stateAfter (Session.step s)).Shadows lost later (stateAfter (Session.step t)) := by
  rcases Session.step_retries s with ⟨op, cause, host, made, hnext, hstep, hidle⟩ | ⟨made, hmade⟩
  · simp [spoiled, hstep, faultOf?, Fault.isDevice] at hclean
  · refine ⟨made.filterMap Call.value?, ?_, fun lost later t h => ?_⟩
    · rw [values, hmade.calls, List.filterMap_append, values]
    · have hconcur := hmade.concurs t later h.machine h.supplies
      obtain ⟨hmachine, hhost⟩ := hconcur.stateAfter
      refine ⟨hconcur.answerOf, hmachine, fun op => ?_, ?_, ?_, ?_, hhost.supplies⟩
      · rw [Session.statistics_step, Session.statistics_step, count_tally, count_tally,
          h.counts op, h.machine.next?]
        omega
      · rw [written, written, hhost.calls, hhost.repeated, List.filterMap_append,
          List.filterMap_append]
        exact congrArg (· ++ _) h.written
      · rw [values, values, hhost.calls, hhost.repeated, List.filterMap_append,
          List.filterMap_append]
        exact congrArg (· ++ _) h.values
      · intro call hcall
        rw [hhost.repeated] at hcall
        rcases List.mem_append.mp hcall with hbefore | hnew
        · exact h.succeeded call hbefore
        · exact hmade.succeeded call hnew

/-- Without the steps that a device has stopped, a run is a run on devices that never fail. -/
theorem after_shadows (s : System (Recorder δ)) (n : Nat) :
    ∃ read, (s.after n).values = s.values ++ read ∧
      ∀ later t, s.Shadows (fun _ => 0) (read ++ later) t →
        (s.after n).Shadows (s.lost n) later (t.after (s.kept n)) := by
  induction n with
  | zero => exact ⟨[], (List.append_nil _).symm, fun later t h => h⟩
  | succ n ih =>
    obtain ⟨read, hvalues, hshadows⟩ := ih
    have hlost := funext (s.lost_succ n)
    have hkept := s.kept_succ n
    cases hspoiled : (s.after n).spoiled with
    | true =>
      rw [hspoiled] at hlost hkept
      refine ⟨read, ?_, fun later t h => ?_⟩
      · rw [after, values_of_spoiled hspoiled, hvalues]
      · have hnow := (hshadows later t h).of_spoiled hspoiled
        simpa [after, hlost, hkept] using hnow
    | false =>
      rw [hspoiled] at hlost hkept
      obtain ⟨new, hnew, hstep⟩ := step_of_not_spoiled hspoiled
      refine ⟨read ++ new, ?_, fun later t h => ?_⟩
      · rw [after, hnew, hvalues, List.append_assoc]
      · rw [List.append_assoc] at h
        have hnow := (hstep _ later _ (hshadows (new ++ later) t h)).2
        simpa [after, hlost, hkept] using hnow

/-- What has been read is never taken back. -/
theorem values_after (s : System (Recorder δ)) {i n : Nat} (hi : i ≤ n) :
    ∃ read, (s.after n).values = (s.after i).values ++ read := by
  obtain ⟨read, hvalues, -⟩ := (s.after i).after_shadows (n - i)
  rw [after_after, Nat.add_sub_cancel' hi] at hvalues
  exact ⟨read, hvalues⟩

end System

/-- A machine whose devices fail now and then does what it does on devices that never fail and give
the values that were read, once the steps are left out that a device has stopped. The machines
differ in the number of dispatches only, by one for every step that was stopped; the bytes, the
values and the answers are the same. -/
theorem failed_steps_can_be_repeated {s : System (Recorder δ)} {t : System (Recorder Script)}
    {i n : Nat} {later : List Cell} (hcalls : s.host.calls = []) (hmachine : t.machine = s.machine)
    (hcalls' : t.host.calls = []) (hsupplies : t.host.host.Supplies ((s.after n).values ++ later))
    (hi : i ≤ n) :
    (s.after i).machine.Miscounted (t.after (s.kept i)).machine ∧
      (∀ op, (s.after i).machine.statistics.count op =
        (t.after (s.kept i)).machine.statistics.count op + s.lost i op) ∧
      (t.after (s.kept i)).written = (s.after i).written ∧
      (t.after (s.kept i)).values = (s.after i).values ∧
      (∀ call ∈ (t.after (s.kept i)).host.calls, call.succeeded = true) ∧
      (i < n → (s.after i).spoiled = false →
        answerOf (Session.step (t.after (s.kept i))) = answerOf (Session.step (s.after i))) := by
  have hnone : s.values = [] := by rw [System.values, hcalls, List.filterMap_nil]
  have hstart : s.Shadows (fun _ => 0) ((s.after n).values ++ later) t := by
    refine ⟨⟨s.machine.statistics.counts, hmachine⟩, fun _ => ?_, ?_, ?_, ?_, hsupplies⟩
    · rw [hmachine, Nat.add_zero]
    · rw [System.written, System.written, hcalls, hcalls']
    · rw [System.values, System.values, hcalls, hcalls']
    · simp [hcalls']
  obtain ⟨read, hread, hshadows⟩ := s.after_shadows i
  have hnow : ∀ rest, (s.after n).values = (s.after i).values ++ rest →
      (s.after i).Shadows (s.lost i) (rest ++ later) (t.after (s.kept i)) := by
    intro rest hrest
    rw [hrest, hread, hnone, List.nil_append, List.append_assoc] at hstart
    exact hshadows (rest ++ later) t hstart
  obtain ⟨rest, hrest⟩ := s.values_after hi
  have h := hnow rest hrest
  refine ⟨h.machine, h.counts, h.written, h.values, h.succeeded, fun hlt hclean => ?_⟩
  obtain ⟨new, hnew, hstep⟩ := System.step_of_not_spoiled hclean
  obtain ⟨rest', hrest'⟩ := s.values_after (Nat.succ_le_of_lt hlt)
  have hsplit : (s.after n).values = (s.after i).values ++ (new ++ rest') := by
    rw [hrest', System.after, hnew, List.append_assoc]
  have hbefore := hnow (new ++ rest') hsplit
  rw [List.append_assoc] at hbefore
  exact (hstep _ _ _ hbefore).1

end Runs

/-- A byte that could not be emitted is emitted by the next step. -/
theorem failed_steps_can_be_repeated_of_output :
    ∃ (s t : System (Recorder Script)),
      s.machine = .loaded .base [Opcode.output.code] ∧ t.machine = s.machine ∧
      t.host.host.failingPut = none ∧ s.spoiled = true ∧ (s.after 1).spoiled = false ∧
      s.kept 2 = 1 ∧
      (s.after 2).machine.Miscounted (t.after 1).machine ∧
      (t.after 1).written = (s.after 2).written ∧
      answerOf (Session.step t) = answerOf (Session.step (s.after 1)) := by
  obtain ⟨s, hs⟩ : ∃ s : System (Recorder Script),
      s = ⟨.loaded .base [Opcode.output.code], { host := { failingPut := some 1 } }⟩ := ⟨_, rfl⟩
  have hnext : s.machine.next? = some .output := by
    rw [hs]
    exact Machine.next?_loaded rfl rfl
  have htop : s.machine.data.top = 0 := by
    rw [hs]
    rfl
  have hfails : Yields (Session.step s) (fun _ _ => False) (fun fault s' =>
      fault.isDevice = true ∧ s'.machine = s.machine.counted .output ∧
      s'.host.host = { failingPut := some 1, puts := 1 }) := by
    rw [Session.yields_step_of_next hnext, Session.execute, yields_bind, Session.yields_emit]
    rw [Machine.data_counted, htop]
    refine ⟨by omega, fun _ _ => ?_, by omega⟩
    rw [hs]
    exact ⟨rfl, rfl, rfl⟩
  obtain ⟨fault, ⟨m, given, calls⟩, hstep, hdevice, hmachine, hgiven⟩ := hfails.exists_error
  subst hmachine hgiven
  have hafter : s.after 1 = ⟨s.machine.counted .output,
      { failingPut := some 1, puts := 1 }, calls⟩ := by
    rw [System.after, System.after_zero, hstep, stateAfter]
  have hemits : Yields (Session.step (s.after 1)) (fun _ _ => True) (fun _ _ => False) := by
    have hnext' : (s.after 1).machine.next? = some .output := by
      rw [hafter]
      exact hnext
    have htop' : (s.after 1).machine.data.top = 0 := by
      rw [hafter]
      exact htop
    rw [Session.yields_step_of_next hnext', Session.execute, yields_bind, Session.yields_emit]
    rw [Machine.data_counted, htop']
    refine ⟨by omega, fun _ _ => ?_, by omega⟩
    rw [hafter]
    trivial
  have hspoiled : s.spoiled = true := by
    rw [System.spoiled, hstep]
    exact hdevice
  have hclean : (s.after 1).spoiled = false := by
    obtain ⟨status, s', hok, -⟩ := hemits.exists_ok
    rw [System.spoiled, hok]
    rfl
  have hkept : s.kept 1 = 0 ∧ s.kept 2 = 1 := by
    rw [s.kept_succ 1, s.kept_succ 0, System.after_zero, hspoiled, hclean]
    exact ⟨rfl, rfl⟩
  obtain ⟨t, ht⟩ : ∃ t : System (Recorder Script),
      t = ⟨s.machine, { host := { replies := (s.after 2).values.map .ok } }⟩ := ⟨_, rfl⟩
  have hcalls : s.host.calls = [] ∧ t.host.calls = [] := by
    rw [hs, ht]
    exact ⟨rfl, rfl⟩
  have hmachine : t.machine = s.machine := by rw [ht]
  have hsupplies : t.host.host.Supplies ((s.after 2).values ++ []) := by
    rw [ht, List.append_nil]
    exact ⟨rfl, rfl, rfl⟩
  obtain ⟨-, -, -, -, -, hanswer⟩ := failed_steps_can_be_repeated (i := 1) hcalls.1 hmachine
    hcalls.2 hsupplies (by omega)
  obtain ⟨hsame, -, hwritten, -⟩ := failed_steps_can_be_repeated (i := 2) hcalls.1 hmachine
    hcalls.2 hsupplies (by omega)
  rw [hkept.1] at hanswer
  rw [hkept.2] at hsame hwritten
  exact ⟨s, t, by rw [hs], hmachine, hsupplies.puts, hspoiled, hclean, hkept.2, hsame, hwritten,
    hanswer (by omega) hclean⟩

end CellMachine
