import CellMachine.Proofs.Transcript

/-!
# The steps of operations

Whatever the owner of a machine asks for comes down to steps, and to loads between them. This file
lists the systems that the steps of operations are made from, and has one rule for all that is said
of these steps and of what they lead to: it is enough to say it of a load, of one step, and of steps
after steps.
-/

namespace CellMachine

variable {δ : Type} [Host δ]

/-- The systems that the steps of a run are made from, in order. -/
def Session.stepsToHalt : (fuel : Nat) → System δ → List (System δ)
  | 0, _ => []
  | fuel + 1, s =>
    s :: match step s with
      | .ok .running s' => stepsToHalt fuel s'
      | _ => []

namespace Operation

/-- The systems that the steps of an operation are made from, in order. -/
def steps (op : Operation) (s : System δ) : List (System δ) :=
  match op with
  | .step => [s]
  | .run fuel => Session.stepsToHalt fuel s
  | _ => []

/-- The systems that the steps of all operations are made from, in order. -/
def allSteps : List Operation → System δ → List (System δ)
  | [], _ => []
  | op :: rest, s =>
    op.steps s ++ match op.perform s with
      | some result => allSteps rest (stateAfter result)
      | none => []

end Operation

omit [Host δ] in
/-- The words that a value is put into do not matter to what is left behind. -/
theorem stateAfter_map {α β : Type} (f : α → β) (x : Session δ α) (s : System δ) :
    stateAfter ((f <$> x) s) = stateAfter (x s) := by
  rw [map_eq_pure_bind, bind_apply]
  cases x s <;> rfl

/-- What is said of one step, and of steps after steps, is said of the steps of a run and of the
systems that they begin and end with. -/
theorem Session.stepsToHalt_induction {P : System δ → List (System δ) → System δ → Prop}
    (hstep : ∀ s, P s [s] (stateAfter (step s)))
    (happend : ∀ {s t u steps steps'}, P s steps t → P t steps' u → P s (steps ++ steps') u)
    {fuel : Nat} {s : System δ} {loop : EStateM.Result Fault (System δ) Unit}
    (hrun : runToHalt fuel s = some loop) : P s (stepsToHalt fuel s) (stateAfter loop) := by
  induction fuel generalizing s with
  | zero => simp [runToHalt] at hrun
  | succ fuel ih =>
    have hfirst := hstep s
    rw [runToHalt] at hrun
    rw [stepsToHalt]
    split at hrun
    · rename_i s' hok
      rw [hok] at hfirst ⊢
      exact happend hfirst (ih hrun)
    · rename_i s' hok
      rw [hok] at hfirst ⊢
      rw [← Option.some.inj hrun]
      exact hfirst
    · rename_i fault s' herror
      rw [herror] at hfirst ⊢
      rw [← Option.some.inj hrun]
      exact hfirst

/-- A statement about a machine, the steps that begin with it and the machine that they lead to, in
parts: it holds of a load, of one step, and of steps after steps. -/
structure Accounts (P : Machine → List (System δ) → Machine → Prop) : Prop where
  load (m : Machine) (memory : Memory) : P m [] { m with memory }
  step (s : System δ) : P s.machine [s] (stateAfter (Session.step s)).machine
  append {m m' m'' : Machine} {steps steps' : List (System δ)} :
    P m steps m' → P m' steps' m'' → P m (steps ++ steps') m''

namespace Accounts

variable {P : Machine → List (System δ) → Machine → Prop} {s : System δ}

/-- The end of a run has no part in the account of its steps. -/
theorem run (hP : Accounts P) {fuel : Nat} {result : EStateM.Result Fault (System δ) Unit}
    (hrun : Session.run fuel s = some result) :
    P s.machine (Session.stepsToHalt fuel s) (stateAfter result).machine := by
  obtain ⟨loop, hloop, rfl⟩ := Option.map_eq_some_iff.mp hrun
  rw [Session.machine_settle]
  exact Session.stepsToHalt_induction (P := fun s steps t => P s.machine steps t.machine) hP.step
    hP.append hloop

theorem loads (hP : Accounts P) {result : EStateM.Result Fault (System δ) Nat}
    (hload : Loads s result) : P s.machine [] (stateAfter result).machine := by
  cases result with
  | ok stored s' =>
    obtain ⟨memory, hmachine⟩ : ∃ memory, s'.machine = { s.machine with memory } := hload
    rw [stateAfter, hmachine]
    exact hP.load s.machine memory
  | error fault s' =>
    rw [stateAfter, hload.1]
    exact hP.load s.machine s.machine.memory

theorem perform (hP : Accounts P) {op : Operation}
    {result : EStateM.Result Fault (System δ) Answer} (hresult : op.perform s = some result) :
    P s.machine (op.steps s) (stateAfter result).machine := by
  cases op with
  | loadCells cells =>
    obtain rfl := Option.some.inj hresult
    rw [stateAfter_map]
    exact hP.loads (Session.loads_loadCells s cells)
  | loadProgram deliveries =>
    obtain rfl := Option.some.inj hresult
    rw [stateAfter_map]
    exact hP.loads (Session.loads_loadProgram s deliveries)
  | loadImage path found =>
    obtain rfl := Option.some.inj hresult
    rw [stateAfter_map]
    exact hP.loads (Session.loads_loadImage s path found)
  | step =>
    obtain rfl := Option.some.inj hresult
    rw [stateAfter_map]
    exact hP.step s
  | run fuel =>
    obtain ⟨ended, hended, rfl⟩ := Option.map_eq_some_iff.mp hresult
    have hrun := hP.run hended
    cases ended <;> exact hrun
  | stack | stackTail limit | cell address | slice start length =>
    obtain rfl := Option.some.inj hresult
    exact hP.load s.machine s.machine.memory

/-- What is said of a load, of a step and of steps after steps holds of all operations. -/
theorem performAll (hP : Accounts P) {ops : List Operation} {s' : System δ}
    {answers : List (Except Fault Answer)}
    (hall : Operation.performAll ops s = some (answers, s')) :
    P s.machine (Operation.allSteps ops s) s'.machine := by
  induction ops generalizing s answers with
  | nil =>
    obtain ⟨_, rfl⟩ := Prod.mk.inj (Option.some.inj hall)
    exact hP.load s.machine s.machine.memory
  | cons op rest ih =>
    rw [Operation.performAll] at hall
    rw [Operation.allSteps]
    cases hresult : op.perform s with
    | none =>
      rw [hresult] at hall
      simp at hall
    | some result =>
      rw [hresult] at hall
      obtain ⟨⟨later, t⟩, hrest, heq⟩ := Option.map_eq_some_iff.mp hall
      obtain ⟨_, rfl⟩ := Prod.mk.inj heq
      exact hP.append (hP.perform hresult) (ih hrest)

end Accounts

end CellMachine
