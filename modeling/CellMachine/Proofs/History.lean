import CellMachine.Proofs.Dispatch
import CellMachine.System.Load
import CellMachine.System.Run

/-!
# Histories of a machine

The owner of a machine loads it, steps it, runs it and looks at it, in any order and however the
operations before went. A history is a finite sequence of such operations on a new machine.
`Reached` keeps two numbers along a history: how many times each of the stacks overflowed.

What a run reports is not always what stopped it: a failure to hand out what was emitted comes
first. So there are two ways to count, by the faults that operations return, and by the faults that
the steps of the machine raise.
-/

namespace CellMachine

/-- An operation that the owner of a machine can ask for. -/
inductive Operation where
  | loadCells (cells : List Cell)
  | loadProgram (deliveries : List Delivery)
  | loadImage (path : String) (found : Except IoError (List UInt8))
  | step
  | run (fuel : Nat)
  | stack
  | stackTail (limit : Nat)
  | cell (address : Cell)
  | slice (start length : Nat)

/-- What an operation answers when it goes well. -/
inductive Answer where
  | stored (count : Nat)
  | status (status : Status)
  | ended
  | cells (cells : List Cell)
  | numbered (entries : List (Nat × Cell))
  | cell (value : Option Cell)

/-- The number of overflows of a stack that a fault stands for, which is one or none. -/
def Fault.overflows (stack : StackKind) : Fault → Nat
  | .stackOverflow kind _ => if kind = stack then 1 else 0
  | _ => 0

section Results

variable {ε σ α β : Type}

/-- The state that a result leaves behind. -/
def stateAfter : EStateM.Result ε σ α → σ
  | .ok _ s => s
  | .error _ s => s

/-- What holds of every state that a result may leave behind holds of the one that it does. -/
theorem yields_stateAfter {P : σ → Prop} {result : EStateM.Result ε σ α} :
    Yields result (fun _ s => P s) (fun _ s => P s) ↔ P (stateAfter result) := by
  cases result <;> exact Iff.rfl

/-- The fault that a result stops with. -/
def faultOf? : EStateM.Result ε σ α → Option ε
  | .ok _ _ => none
  | .error fault _ => some fault

end Results

namespace Operation

variable {δ : Type} [Host δ]

/-- Performs an operation. Only a run that takes more than `fuel` steps has no result. -/
def perform (op : Operation) (s : System δ) : Option (EStateM.Result Fault (System δ) Answer) :=
  match op with
  | .loadCells cells => some ((Answer.stored <$> Session.loadCells cells) s)
  | .loadProgram deliveries => some ((Answer.stored <$> Session.loadProgram deliveries) s)
  | .loadImage path found => some ((Answer.stored <$> Session.loadImage path found) s)
  | .step => some ((Answer.status <$> Session.step) s)
  | .run fuel => (Session.run fuel s).map fun
    | .ok _ s => .ok .ended s
    | .error fault s => .error fault s
  | .stack => some (.ok (.cells s.machine.data.entries) s)
  | .stackTail limit => some (.ok (.numbered (s.machine.data.trailing limit)) s)
  | .cell address => some (.ok (.cell (s.machine.memory.get? address)) s)
  | .slice start length => some (.ok (.cells (s.machine.memory.slice start length)) s)

/-- The fault that an operation returns to the owner. -/
def returned? (op : Operation) (s : System δ) : Option Fault :=
  (op.perform s).bind faultOf?

/-- The fault that stops an operation. This is what it returns, except for a run whose last step
stops with a fault and whose output cannot be handed out after that. -/
def raised? (op : Operation) (s : System δ) : Option Fault :=
  match op with
  | .run fuel => (Session.runToHalt fuel s).bind faultOf?
  | op => op.returned? s

end Operation

/-- The number of overflows of a stack that an operation's fault, if it has one, stands for. -/
def overflowsOf (stack : StackKind) (fault? : Option Fault) : Nat :=
  (fault?.map (Fault.overflows stack)).getD 0

section Histories

variable {δ : Type} [Host δ]

/-- The systems that a history leads to, each with the number of overflows of the data stack and of
the return stack in the history. An operation counts for the fault that `counts` finds in it. -/
inductive Reached (counts : Operation → System δ → Option Fault) : System δ → Nat → Nat → Prop
  | new (set : InstructionSet) (host : δ) : Reached counts ⟨{ set }, host⟩ 0 0
  | perform {s : System δ} {data returns : Nat} {op : Operation}
      {result : EStateM.Result Fault (System δ) Answer} (hs : Reached counts s data returns)
      (hresult : op.perform s = some result) :
      Reached counts (stateAfter result) (data + overflowsOf .data (counts op s))
        (returns + overflowsOf .ret (counts op s))

/-- One more operation, by what it comes to and what it counts for. -/
theorem Reached.next {counts : Operation → System δ → Option Fault} {s : System δ}
    {data returns : Nat} {op : Operation} {result : EStateM.Result Fault (System δ) Answer}
    {fault? : Option Fault} (hs : Reached counts s data returns)
    (hresult : op.perform s = some result) (hcounts : counts op s = fault?) :
    Reached counts (stateAfter result) (data + overflowsOf .data fault?)
      (returns + overflowsOf .ret fault?) := by
  subst hcounts
  exact hs.perform hresult

/-- The systems that some history leads to. -/
def Reachable (s : System δ) : Prop :=
  ∃ data returns, Reached Operation.raised? s data returns

/-! ## Loaded machines -/

/-- A new machine with cells loaded. -/
def Machine.loaded (set : InstructionSet) (cells : List Cell) : Machine :=
  { memory := Memory.blank.write 0 cells, set }

/-- The first cell that was loaded is the first to be decoded. -/
theorem Machine.next?_loaded {set : InstructionSet} {cells : List Cell} {op : Opcode}
    (hcell : cells[0]? = some op.code) (hop : set.admits op = true) :
    (loaded set cells).next? = some op := by
  have hget : (loaded set cells).memory.get? (loaded set cells).ip = some op.code :=
    Memory.get?_write Memory.blank (i := 0) hcell (by omega)
  rw [next?, hget, Option.bind_some]
  exact InstructionSet.decode_eq_some_iff.mpr ⟨rfl, hop⟩

/-- Cells that fit in memory are loaded without a word. -/
theorem Session.loadCells_fits (set : InstructionSet) (host : δ) {cells : List Cell}
    (hfits : cells.length ≤ 262144) :
    loadCells cells (⟨{ set }, host⟩ : System δ) =
      .ok cells.length ⟨.loaded set cells, host⟩ := by
  have hroom : Memory.room 0 cells.length = cells.length := Nat.min_eq_left hfits
  have htransfer : Memory.blank.transfer 0 cells =
      ⟨Memory.blank.write 0 cells, cells.length, 0⟩ := by
    simp only [Memory.transfer, hroom, Nat.sub_self]
  change install (Memory.blank.transfer 0 cells) (⟨{ set }, host⟩ : System δ) = _
  rw [htransfer]
  rfl

theorem Operation.perform_loadCells (set : InstructionSet) (host : δ) {cells : List Cell}
    (hfits : cells.length ≤ 262144) :
    (Operation.loadCells cells).perform ⟨{ set }, host⟩ =
      some (.ok (.stored cells.length) ⟨.loaded set cells, host⟩) := by
  rw [perform, map_eq_pure_bind, bind_apply, Session.loadCells_fits set host hfits]
  rfl

/-- A new machine with cells loaded is reached by the load, in whichever way overflows count. -/
theorem Reached.loaded (set : InstructionSet) (host : δ) (cells : List Cell)
    (hfits : cells.length ≤ 262144) :
    Reached Operation.returned? (⟨.loaded set cells, host⟩ : System δ) 0 0 ∧
      Reached Operation.raised? (⟨.loaded set cells, host⟩ : System δ) 0 0 := by
  have hload := Operation.perform_loadCells set host hfits
  have hquiet : (Operation.loadCells cells).returned? (⟨{ set }, host⟩ : System δ) = none := by
    rw [Operation.returned?, hload]
    rfl
  have hquiet' : (Operation.loadCells cells).raised? (⟨{ set }, host⟩ : System δ) = none := hquiet
  exact ⟨(Reached.new set host).next hload hquiet, (Reached.new set host).next hload hquiet'⟩

theorem Reachable.loaded (set : InstructionSet) (host : δ) (cells : List Cell)
    (hfits : cells.length ≤ 262144) : Reachable (⟨.loaded set cells, host⟩ : System δ) :=
  ⟨0, 0, (Reached.loaded set host cells hfits).2⟩

/-! ## Invariants of histories -/

/-- A load ends with the machine it began with, but for its memory, and no load overflows a
stack. -/
def Loads (s : System δ) (result : EStateM.Result Fault (System δ) Nat) : Prop :=
  Yields result (fun _ s' => ∃ memory, s'.machine = { s.machine with memory })
    (fun fault s' => s'.machine = s.machine ∧ ∀ stack, fault.overflows stack = 0)

namespace Session

/-- Memory is put in place before there is any warning. -/
theorem install_apply (s : System δ) (transfer : Memory.Transfer) :
    install transfer s =
      (warn transfer.discarded >>= fun _ => pure transfer.stored)
        { s with machine.memory := transfer.memory } := rfl

theorem loads_install (s : System δ) (transfer : Memory.Transfer) :
    Loads s (install transfer s) := by
  rw [Loads, install_apply, yields_bind, warn, yields_ite]
  exact ⟨fun _ => ⟨_, rfl⟩, fun _ => ⟨_, rfl⟩⟩

theorem loads_loadCells (s : System δ) (cells : List Cell) : Loads s (loadCells cells s) :=
  loads_install s _

theorem loads_loadProgram (s : System δ) (deliveries : List Delivery) :
    Loads s (loadProgram deliveries s) := by
  unfold loadProgram
  cases s.machine.memory.receive 0 deliveries with
  | ok transfer => exact loads_install s transfer
  | error cause => exact ⟨rfl, fun _ => rfl⟩

theorem loads_loadImage (s : System δ) (path : String) (found : Except IoError (List UInt8)) :
    Loads s (loadImage path found s) := by
  unfold loadImage
  cases hload : s.machine.memory.loadImage path found with
  | error fault =>
    cases found with
    | ok image => simp [Memory.loadImage] at hload
    | error cause =>
      simp only [Memory.loadImage, Except.error.injEq] at hload
      subst hload
      exact ⟨rfl, fun _ => rfl⟩
  | ok transfer =>
    have hload := loads_install s transfer
    rw [Loads] at hload ⊢
    rw [yields_bind]
    exact hload.imp (fun _ _ hmachine => hmachine) (fun _ _ hstopped => hstopped)

/-- What every step keeps, a run keeps up to its last step. -/
theorem yields_runToHalt {keeps : Machine → Prop} {stopped : Fault → Machine → Prop}
    (hstep : ∀ s : System δ, keeps s.machine →
      Yields (step s) (fun _ s' => keeps s'.machine) (fun fault s' => stopped fault s'.machine))
    {s : System δ} (h : keeps s.machine) {fuel : Nat}
    {result : EStateM.Result Fault (System δ) Unit} (hrun : runToHalt fuel s = some result) :
    Yields result (fun _ s' => keeps s'.machine) (fun fault s' => stopped fault s'.machine) := by
  induction fuel generalizing s with
  | zero => simp [runToHalt] at hrun
  | succ fuel ih =>
    have hkept := hstep s h
    rw [runToHalt] at hrun
    split at hrun
    · rename_i s' hok
      exact ih (hkept.of_ok hok) hrun
    · rename_i s' hok
      rw [← Option.some.inj hrun]
      exact hkept.of_ok hok
    · rename_i fault s' herror
      rw [← Option.some.inj hrun]
      exact hkept.of_error herror

/-- The end of a run has no part in the machine. -/
theorem machine_settle (result : EStateM.Result Fault (System δ) Unit) :
    (stateAfter (settle result)).machine = (stateAfter result).machine := by
  have hsettle : Yields (settle result)
      (fun _ s' => s'.machine = (stateAfter result).machine)
      (fun _ s' => s'.machine = (stateAfter result).machine) := by
    cases result with
    | ok _ s =>
      change Yields ((onHost Host.flush >>= fun _ => announceHalt) s) _ _
      rw [yields_bind, yields_onHost]
      cases Host.flush s.host <;> exact rfl
    | error fault s =>
      change Yields ((onHost Host.flush >>= fun _ => throw fault) s) _ _
      rw [yields_bind, yields_onHost]
      cases Host.flush s.host <;> exact rfl
  cases hresult : settle result with
  | ok _ s => exact hsettle.of_ok hresult
  | error fault s => exact hsettle.of_error hresult

end Session

section Induction

variable {α β : Type} {inv : Nat → Nat → Machine → Prop} {data returns : Nat}

/-- An invariant of machines and of the numbers of overflows holds of a result, when the overflow
that the result stops with is counted. -/
def Preserves (inv : Nat → Nat → Machine → Prop) (data returns : Nat)
    (result : EStateM.Result Fault (System δ) α) : Prop :=
  Yields result (fun _ s => inv data returns s.machine)
    (fun fault s => inv (data + fault.overflows .data) (returns + fault.overflows .ret) s.machine)

omit [Host δ] in
theorem Preserves.stateAfter {result : EStateM.Result Fault (System δ) α}
    (h : Preserves inv data returns result) :
    inv (data + overflowsOf .data (faultOf? result)) (returns + overflowsOf .ret (faultOf? result))
      (stateAfter result).machine := by
  cases result with
  | ok _ s => exact h
  | error fault s => exact h

omit [Host δ] in
/-- The words that a value is put into do not matter. -/
theorem Preserves.map (f : α → β) {x : Session δ α} {s : System δ}
    (h : Preserves inv data returns (x s)) : Preserves inv data returns ((f <$> x) s) := by
  have hmap : (f <$> x) s = (x >>= fun a => pure (f a)) s := by
    rw [map_eq_pure_bind]
  rw [hmap, Preserves, yields_bind]
  exact h.imp (fun _ _ hdone => hdone) (fun _ _ hstopped => hstopped)

omit [Host δ] in
/-- A load preserves what does not depend on memory. -/
theorem Loads.preserves {s : System δ} {result : EStateM.Result Fault (System δ) Nat}
    (hresult : Loads s result)
    (hload : ∀ m memory, inv data returns m → inv data returns { m with memory })
    (h : inv data returns s.machine) : Preserves inv data returns result := by
  refine hresult.imp (fun _ s' hdone => ?_) (fun fault s' hstopped => ?_)
  · obtain ⟨memory, hmachine⟩ := hdone
    rw [hmachine]
    exact hload _ memory h
  · rw [hstopped.1, hstopped.2, hstopped.2]
    exact h

/-- What holds of a new machine, does not depend on memory, and is preserved by every step, holds
along every history. -/
theorem Reached.induction (inv : Nat → Nat → Machine → Prop) (hnew : ∀ set, inv 0 0 { set })
    (hload : ∀ data returns m memory, inv data returns m → inv data returns { m with memory })
    (hstep : ∀ data returns (s : System δ), inv data returns s.machine →
      Preserves inv data returns (Session.step s))
    {s : System δ} (h : Reached Operation.raised? s data returns) : inv data returns s.machine := by
  induction h with
  | new set host => exact hnew set
  | @perform s data returns op result _ hresult ih =>
    cases op with
    | loadCells cells =>
      obtain rfl := Option.some.inj hresult
      exact (((Session.loads_loadCells s cells).preserves (hload _ _) ih).map _).stateAfter
    | loadProgram deliveries =>
      obtain rfl := Option.some.inj hresult
      exact (((Session.loads_loadProgram s deliveries).preserves (hload _ _) ih).map _).stateAfter
    | loadImage path found =>
      obtain rfl := Option.some.inj hresult
      exact (((Session.loads_loadImage s path found).preserves (hload _ _) ih).map _).stateAfter
    | step =>
      obtain rfl := Option.some.inj hresult
      exact ((hstep data returns s ih).map _).stateAfter
    | run fuel =>
      simp only [Operation.perform, Session.run, Option.map_map, Option.map_eq_some_iff] at hresult
      obtain ⟨stopped, hstopped, rfl⟩ := hresult
      have hpreserves : Preserves inv data returns stopped :=
        Session.yields_runToHalt (hstep data returns) ih hstopped
      have hafter := hpreserves.stateAfter
      have hraised : (Operation.run fuel).raised? s = faultOf? stopped := by
        simp [Operation.raised?, hstopped]
      rw [hraised]
      rw [← Session.machine_settle stopped] at hafter
      cases hsettle : Session.settle stopped <;> simpa [hsettle, stateAfter] using hafter
    | stack | stackTail limit | cell address | slice start length =>
      obtain rfl := Option.some.inj hresult
      exact ih

end Induction

end Histories

end CellMachine
