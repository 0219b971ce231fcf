import CellMachine.Proofs.FloorCrossing
import CellMachine.Proofs.Transfers

/-!
# Runs and single steps

A run makes the steps that the owner of a machine could make one by one, and hands out what was
emitted at its end. So a run may be taken over after any number of steps that leave the machine
running, and whoever makes the last step as well has only to hand out the rest.

A machine that has halted does nothing any more. Loads give it another memory and leave its address
where it is, past the end, so that steps find nothing to do and runs only hand out what is left.
-/

namespace CellMachine

/-! ## Taking over from a run -/

section Steps

variable {δ : Type} [Host δ] {s : System δ} {n : Nat}

/-- The steps that leave the machine running are the first steps of its run. -/
theorem runToHalt_after (hruns : ∀ i < n, (s.after i).Runs) (fuel : Nat) :
    Session.runToHalt (n + fuel) s = Session.runToHalt fuel (s.after n) := by
  induction n generalizing fuel with
  | zero => rw [Nat.zero_add, System.after_zero]
  | succ n ih =>
    obtain ⟨s', hstep⟩ := hruns n (Nat.lt_succ_self n)
    rw [Nat.add_right_comm, Nat.add_assoc, ih fun i hi => hruns i (Nat.lt_succ_of_lt hi),
      Session.runToHalt, hstep, System.after_succ_of_ok hstep]

theorem run_after (hruns : ∀ i < n, (s.after i).Runs) (fuel : Nat) :
    Session.run (n + fuel) s = Session.run fuel (s.after n) := by
  unfold Session.run
  rw [runToHalt_after hruns]

/-- More fuel keeps what a run came to. -/
theorem run_of_le {fuel more : Nat} {result : EStateM.Result Fault (System δ) Unit}
    (hrun : Session.run fuel s = some result) (hle : fuel ≤ more) :
    Session.run more s = some result := by
  obtain ⟨loop, hloop, rfl⟩ := Option.map_eq_some_iff.mp hrun
  rw [Session.run, Session.runToHalt_of_le hloop hle, Option.map_some]

/-- Whatever a run comes to, if anything, it comes to after the first steps as well. -/
theorem run_after_iff (hruns : ∀ i < n, (s.after i).Runs)
    (result : EStateM.Result Fault (System δ) Unit) :
    (∃ fuel, Session.run fuel s = some result) ↔
      ∃ fuel, Session.run fuel (s.after n) = some result := by
  constructor
  · rintro ⟨fuel, hrun⟩
    refine ⟨fuel, ?_⟩
    rw [← run_after hruns]
    exact run_of_le hrun (Nat.le_add_left fuel n)
  · rintro ⟨fuel, hrun⟩
    refine ⟨n + fuel, ?_⟩
    rw [run_after hruns, hrun]

/-- A run does not end exactly if every step leaves the machine running. -/
theorem run_eq_none_iff :
    (∀ fuel, Session.run fuel s = none) ↔ ∀ n, (s.after n).Runs := by
  unfold Session.run
  simp only [Option.map_eq_none_iff]
  constructor
  · intro hrun n
    exact System.runs_of_runToHalt (hrun (n + 1)) n (Nat.lt_succ_self n)
  · intro hruns fuel
    rw [← Nat.add_zero fuel, runToHalt_after fun i _ => hruns i, Session.runToHalt]

end Steps

/-- If the output can be handed out after the first step that does not leave the machine running,
the run comes to what that step has come to. -/
theorem run_of_last_step {δ : Type} [Host δ] {s : System (Recorder δ)} {n : Nat}
    (hruns : ∀ i < n, (s.after i).Runs) (hstops : ¬(s.after n).Runs) {host : Recorder δ}
    (hflush : Host.flush (s.after (n + 1)).host = .ok () host) :
    ∃ result, (∀ fuel, Session.run (n + 1 + fuel) s = some result) ∧
      answerOf result = (answerOf (Session.step (s.after n))).map (fun _ => ()) ∧
      (stateAfter result).machine = (s.after (n + 1)).machine ∧
      (stateAfter result).host.calls = host.calls ∧
      ((stateAfter result).host = host ∨
        ∃ event, (stateAfter result).host = Host.note event host) := by
  have hsplit (fuel : Nat) : Session.runToHalt (n + 1 + fuel) s =
      Session.runToHalt (fuel + 1) (s.after n) := by
    rw [Nat.add_assoc, Nat.add_comm 1 fuel, runToHalt_after hruns]
  rw [System.after] at hflush ⊢
  cases hstep : Session.step (s.after n) with
  | ok status t =>
    rw [hstep, stateAfter] at hflush
    cases status with
    | running => exact absurd ⟨t, hstep⟩ hstops
    | halted =>
      refine ⟨Session.settle (.ok () t), fun fuel => ?_, ?_⟩
      · rw [Session.run, hsplit, Session.runToHalt, hstep]
        rfl
      · rw [Session.settle, bind_apply, Session.onHost, hflush]
        exact ⟨rfl, rfl, rfl, .inr ⟨_, rfl⟩⟩
  | error fault t =>
    rw [hstep, stateAfter] at hflush
    refine ⟨Session.settle (.error fault t), fun fuel => ?_, ?_⟩
    · rw [Session.run, hsplit, Session.runToHalt, hstep]
      rfl
    · rw [Session.settle, bind_apply, Session.onHost, hflush]
      exact ⟨rfl, rfl, rfl, .inl rfl⟩

/-! ## Machines that have halted -/

section Halted

variable {δ : Type} [Host δ]

/-- A step that ends with the word that the machine has halted leaves it so. -/
theorem hasHalted_of_step {s s' : System δ} (hstep : Session.step s = .ok .halted s') :
    s'.machine.hasHalted = true := by
  have hstatus : Yields (Session.step s)
      (fun status t => status = .halted → t.machine.hasHalted = true) (fun _ _ => True) := by
    rw [Session.yields_step]
    refine ⟨fun hhalted _ => hhalted, fun _ => ⟨fun _ => trivial, fun _ _ _ => trivial, ?_⟩⟩
    intro op _
    rw [Session.yields_dispatch]
    refine .of_forall (fun _ t hstatus => ?_) (fun _ _ => trivial)
    by_contra hrunning
    rw [Machine.status, if_neg hrunning] at hstatus
    simp at hstatus
  exact hstatus.of_ok hstep rfl

/-- The steps of a machine that has halted all find it halted, and nothing but loads changes it. -/
theorem accounts_halted : Accounts fun m (steps : List (System δ)) m' =>
    m.hasHalted = true →
      (∀ t ∈ steps, t.machine.hasHalted = true) ∧ m' = { m with memory := m'.memory } where
  load m memory hhalted := by simp
  step s hhalted := by
    rw [Session.step_of_hasHalted hhalted, stateAfter]
    simp [hhalted]
  append {m m' m'' steps steps'} h h' hhalted := by
    obtain ⟨hsteps, hmachine⟩ := h hhalted
    have hhalted' : m'.hasHalted = true := by
      rw [hmachine]
      exact hhalted
    obtain ⟨hsteps', hmachine'⟩ := h' hhalted'
    constructor
    · intro t ht
      rcases List.mem_append.mp ht with hfirst | hsecond
      · exact hsteps t hfirst
      · exact hsteps' t hsecond
    · rw [hmachine', hmachine]

/-- A run of a machine that has halted is its end alone. -/
theorem run_of_hasHalted {s : System δ} (hhalted : s.machine.hasHalted = true) (fuel : Nat) :
    Session.run (fuel + 1) s = some (Session.settle (.ok () s)) :=
  Session.run_of_halted (Session.step_of_hasHalted hhalted) fuel

end Halted

/-- What the owner of a machine that has halted is told, and the calls that are made: a step says
that the machine has halted, a run makes one call and tells what came of it, and nothing else makes
any call. -/
inductive Dormant : List Operation → List (Except Fault Answer) → List Call → Prop
  | nil : Dormant [] [] []
  | step {ops answers calls} :
      Dormant ops answers calls → Dormant (.step :: ops) (.ok (.status .halted) :: answers) calls
  | handedOut {ops answers calls fuel} :
      Dormant ops answers calls →
        Dormant (.run fuel :: ops) (.ok .ended :: answers) (.flush (.ok ()) :: calls)
  | failed {ops answers calls fuel cause} :
      Dormant ops answers calls →
        Dormant (.run fuel :: ops) (.error (.io cause) :: answers) (.flush (.error cause) :: calls)
  | still {ops answers calls op answer} :
      op ≠ .step → (∀ fuel, op ≠ .run fuel) → Dormant ops answers calls →
        Dormant (op :: ops) (answer :: answers) calls

section Dormant

variable {δ : Type} [Host δ] {s : System (Recorder δ)}

/-- Every operation on a machine that has halted goes as it should. -/
theorem Dormant.cons {op : Operation} (hhalted : s.machine.hasHalted = true) (hop : op ≠ .run 0) :
    ∃ result made, op.perform s = some result ∧
      (stateAfter result).host.calls = s.host.calls ++ made ∧
      ∀ ops answers calls, Dormant ops answers calls →
        Dormant (op :: ops) (answerOf result :: answers) (made ++ calls) := by
  cases op with
  | loadCells cells =>
    refine ⟨_, [], rfl, ((Session.made_install s _).map _).stateAfter, fun _ _ _ h => ?_⟩
    exact .still (by simp) (by simp) h
  | loadProgram deliveries =>
    refine ⟨_, [], rfl, ((Session.made_loadProgram s deliveries).map _).stateAfter,
      fun _ _ _ h => ?_⟩
    exact .still (by simp) (by simp) h
  | loadImage path found =>
    refine ⟨_, [], rfl, ((Session.made_loadImage s path found).map _).stateAfter,
      fun _ _ _ h => ?_⟩
    exact .still (by simp) (by simp) h
  | step =>
    have hperform : Operation.step.perform s = some (.ok (.status .halted) s) := by
      rw [Operation.perform, map_eq_pure_bind, bind_apply, Session.step_of_hasHalted hhalted]
      rfl
    exact ⟨_, [], hperform, (List.append_nil _).symm, fun _ _ _ h => .step h⟩
  | run fuel =>
    -- The first step finds the machine halted, so that any fuel is enough.
    obtain ⟨fuel, rfl⟩ : ∃ k, fuel = k + 1 := by
      cases fuel with
      | zero => exact absurd rfl hop
      | succ k => exact ⟨k, rfl⟩
    obtain ⟨outcome, hcalls, hanswer⟩ := Session.settle_calls (.ok () s)
    rw [Operation.perform, run_of_hasHalted hhalted, Option.map_some]
    cases hsettle : Session.settle (.ok () s) with
    | ok u t =>
      rw [hsettle] at hcalls hanswer
      refine ⟨_, [.flush outcome], rfl, hcalls, fun _ _ _ h => ?_⟩
      cases outcome with
      | ok u => exact .handedOut h
      | error cause => simp [answerOf] at hanswer
    | error fault t =>
      rw [hsettle] at hcalls hanswer
      refine ⟨_, [.flush outcome], rfl, hcalls, fun _ _ _ h => ?_⟩
      cases outcome with
      | ok u => simp [answerOf] at hanswer
      | error cause =>
        obtain rfl : fault = .io cause := by simpa [answerOf] using hanswer
        exact .failed h
  | stack | stackTail limit | cell address | slice start length =>
    refine ⟨_, [], rfl, (List.append_nil _).symm, fun _ _ _ h => ?_⟩
    exact .still (by simp) (by simp) h

/-- All operations on a machine that has halted go as they should. -/
theorem Dormant.performAll {ops : List Operation} (hhalted : s.machine.hasHalted = true)
    (hops : .run 0 ∉ ops) :
    ∃ answers s' made, Operation.performAll ops s = some (answers, s') ∧
      Dormant ops answers made ∧ s'.host.calls = s.host.calls ++ made := by
  induction ops generalizing s with
  | nil => exact ⟨[], s, [], rfl, .nil, (List.append_nil _).symm⟩
  | cons op ops ih =>
    rw [List.mem_cons, not_or] at hops
    obtain ⟨result, made, hresult, hcalls, hcons⟩ := Dormant.cons hhalted (Ne.symm hops.1)
    -- A load may have changed the memory by now, but not the address.
    have hhalted' : (stateAfter result).machine.hasHalted = true := by
      rw [(accounts_halted.perform hresult hhalted).2]
      exact hhalted
    obtain ⟨answers, s', later, hall, hdormant, hlater⟩ := ih hhalted' hops.2
    refine ⟨answerOf result :: answers, s', made ++ later, ?_, hcons _ _ _ hdormant, ?_⟩
    · rw [Operation.performAll, hresult]
      simp only [hall, Option.map_some]
    · rw [hlater, hcalls, List.append_assoc]

end Dormant

/-- A run is the steps that could be made one by one. It comes to the same from the system that any
number of its first steps lead to, it ends exactly if some step does not leave the machine running,
and to make all of its steps and to hand out the output, if that goes well, comes to what the run
comes to; only the log is told of the end of the run.

A machine that has halted, or whose address lies past the end of memory, has halted for good:
whatever is loaded, every step that is asked for finds no opcode, says that the machine has halted
and leaves everything as it is, and every run tells what came of its only call. -/
theorem runs_are_steps_and_halts_are_final {δ : Type} [Host δ] (s : System (Recorder δ)) :
    (∀ n, (∀ i < n, (s.after i).Runs) →
      (∀ fuel, Session.run (n + fuel) s = Session.run fuel (s.after n)) ∧
      (∀ result, (∃ fuel, Session.run fuel s = some result) ↔
        ∃ fuel, Session.run fuel (s.after n) = some result) ∧
      (¬(s.after n).Runs → ∀ host, Host.flush (s.after (n + 1)).host = .ok () host →
        ∃ result, (∀ fuel, Session.run (n + 1 + fuel) s = some result) ∧
          answerOf result = (answerOf (Session.step (s.after n))).map (fun _ => ()) ∧
          (stateAfter result).machine = (s.after (n + 1)).machine ∧
          (stateAfter result).host.calls = host.calls ∧
          ((stateAfter result).host = host ∨
            ∃ event, (stateAfter result).host = Host.note event host))) ∧
    ((∀ fuel, Session.run fuel s = none) ↔ ∀ n, (s.after n).Runs) ∧
    ((∃ t, Session.step t = .ok .halted s) ∨ Machine.haltAddress ≤ s.machine.ip →
      ∀ ops, .run 0 ∉ ops →
        ∃ answers s' made, Operation.performAll ops s = some (answers, s') ∧
          Dormant ops answers made ∧ s'.host.calls = s.host.calls ++ made ∧
          s'.machine = { s.machine with memory := s'.machine.memory } ∧
          ∀ t ∈ Operation.allSteps ops s,
            Session.step t = .ok .halted t ∧ t.machine.next? = none) := by
  refine ⟨?_, run_eq_none_iff, ?_⟩
  · intro n hruns
    refine ⟨run_after hruns, run_after_iff hruns, ?_⟩
    intro hstops host hflush
    exact run_of_last_step hruns hstops hflush
  · intro hhalt ops hops
    have hhalted : s.machine.hasHalted = true := by
      rcases hhalt with ⟨t, hstep⟩ | hip
      · exact hasHalted_of_step hstep
      · exact Machine.hasHalted_iff.mpr hip
    obtain ⟨answers, s', made, hall, hdormant, hcalls⟩ := Dormant.performAll hhalted hops
    obtain ⟨hsteps, hmachine⟩ := accounts_halted.performAll hall hhalted
    refine ⟨answers, s', made, hall, hdormant, hcalls, hmachine, ?_⟩
    intro t ht
    have hthere := hsteps t ht
    exact ⟨Session.step_of_hasHalted hthere, Machine.next?_of_hasHalted hthere⟩

/-- A literal and the end of a program: the first step leaves the machine running, the second halts
it, and a new program does not wake it up. -/
theorem runs_are_steps_and_halts_are_final_of_literal :
    ∃ (s : System (Recorder Script)) (result : EStateM.Result Fault (System (Recorder Script)) Unit)
      (answers : List (Except Fault Answer)) (s' : System (Recorder Script)),
      s.machine = .loaded .base [1, 7, 26] ∧ s.Runs ∧ ¬(s.after 1).Runs ∧
      (∀ fuel, Session.run (1 + fuel) s = Session.run fuel (s.after 1)) ∧
      Session.run 2 s = some result ∧ answerOf result = .ok () ∧
      (stateAfter result).machine = (s.after 2).machine ∧
      (stateAfter result).host.calls = [.flush (.ok ())] ∧
      Operation.performAll [.loadCells [1, 5], .step] (s.after 2) = some (answers, s') ∧
      answers[1]? = some (.ok (.status .halted)) ∧ s'.machine.ip = (s.after 2).machine.ip ∧
      s'.host.calls = [] := by
  obtain ⟨s, hs⟩ : ∃ s : System (Recorder Script),
      s = ⟨.loaded .base [1, 7, 26], { host := {} }⟩ := ⟨_, rfl⟩
  have hmachine : s.machine = .loaded .base [1, 7, 26] := by rw [hs]
  have hstart : s.machine.At [1, 7, 26] 0 0 := by
    rw [hmachine]
    exact .loaded .base _
  obtain ⟨t, hstep, -, hhost, hthere⟩ :=
    Session.step_literal_at hstart rfl rfl (by omega) (by omega) (by omega)
  have hafter : s.after 1 = t := System.after_succ_of_ok (n := 0) hstep
  obtain ⟨u, hstep', hhost'⟩ : ∃ u, Session.step t = .ok .halted u ∧ u.host = t.noted .stop :=
    ⟨_, Session.step_stop_at hthere rfl (by omega), rfl⟩
  have hafter' : s.after 2 = u := System.after_succ_of_ok (n := 1) (by rw [hafter, hstep'])
  have hruns : ∀ i < 1, (s.after i).Runs := by
    intro i hi
    obtain rfl : i = 0 := by omega
    exact ⟨t, hstep⟩
  have hstops : ¬(s.after 1).Runs := by
    rintro ⟨v, hv⟩
    rw [hafter, hstep'] at hv
    simp at hv
  obtain ⟨host, hflush, hcalls⟩ : ∃ host, Host.flush (s.after 2).host = .ok () host ∧
      host.calls = [.flush (.ok ())] := by
    rw [hafter', hhost', System.noted, hhost, hs]
    exact ⟨_, rfl, rfl⟩
  obtain ⟨hrun, -, hlast⟩ := (runs_are_steps_and_halts_are_final s).1 1 hruns
  obtain ⟨result, hresult, hanswer, hfinal, hmade, -⟩ := hlast hstops host hflush
  have hfinished : ∃ v, Session.step v = .ok .halted (s.after 2) := ⟨t, by rw [hstep', hafter']⟩
  obtain ⟨answers, s', made, hall, hdormant, hcalls', hkept, -⟩ :=
    (runs_are_steps_and_halts_are_final (s.after 2)).2.2 (.inl hfinished) [.loadCells [1, 5], .step]
      (by simp)
  have hanswers : answers[1]? = some (.ok (.status .halted)) ∧ made = [] := by
    cases hdormant with
    | still _ _ hrest =>
      cases hrest with
      | step hnone =>
        cases hnone
        exact ⟨rfl, rfl⟩
      | still hne _ _ => exact absurd rfl hne
  refine ⟨s, result, answers, s', hmachine, hruns 0 (by omega), hstops, hrun, hresult 0, ?_, hfinal,
    hmade.trans hcalls, hall, hanswers.1, ?_, ?_⟩
  · rw [hanswer, hafter, hstep']
    rfl
  · rw [hkept]
  · rw [hcalls', hanswers.2, hafter', hhost', System.noted, hhost, hs]
    rfl

end CellMachine
