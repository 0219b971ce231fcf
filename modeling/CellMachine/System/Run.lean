import CellMachine.System.Step

/-!
# Runs

A run is as many steps as it takes the machine to halt or to stop with a fault, and the handing
out of what it emitted. A run that does not end has no answer, however many steps are allowed.
-/

namespace CellMachine.Session

variable {δ : Type} [Host δ]

/-- Steps until the machine has halted or stops with a fault. There is no answer if that takes more
than `fuel` steps. -/
def runToHalt : (fuel : Nat) → System δ → Option (EStateM.Result Fault (System δ) Unit)
  | 0, _ => none
  | fuel + 1, s =>
    match step s with
    | .ok .running s => runToHalt fuel s
    | .ok .halted s => some (.ok () s)
    | .error fault s => some (.error fault s)

/-- Takes note of the end of a run. -/
def announceHalt : Session δ Unit := fun s =>
  note (.halted s.machine.statistics.total s.machine.sp s.machine.rp) s

/-- Ends a run: hands out what was emitted, and reports how the run went. The failure to hand it
out is reported before any other fault. -/
def settle : EStateM.Result Fault (System δ) Unit → EStateM.Result Fault (System δ) Unit
  | .ok _ s => (do onHost Host.flush; announceHalt) s
  | .error fault s => (do onHost Host.flush; throw fault) s

/-- Runs the machine until it has halted or stops with a fault, and hands out what it emitted.
There is no answer if that takes more than `fuel` steps. -/
def run (fuel : Nat) (s : System δ) : Option (EStateM.Result Fault (System δ) Unit) :=
  (runToHalt fuel s).map settle

/-- More fuel keeps an answer. -/
theorem runToHalt_of_le {fuel more : Nat} {s : System δ}
    {result : EStateM.Result Fault (System δ) Unit} (hrun : runToHalt fuel s = some result)
    (hle : fuel ≤ more) : runToHalt more s = some result := by
  induction fuel generalizing more s with
  | zero => simp [runToHalt] at hrun
  | succ fuel ih =>
    obtain ⟨more, rfl⟩ : ∃ k, more = k + 1 := ⟨more - 1, by omega⟩
    rw [runToHalt] at hrun ⊢
    split at hrun
    · exact ih hrun (by omega)
    · exact hrun
    · exact hrun

/-- The answer of a run does not depend on the fuel that it was found with. -/
theorem run_eq_of_run {fuel more : Nat} {s : System δ}
    {first second : EStateM.Result Fault (System δ) Unit} (hfirst : run fuel s = some first)
    (hsecond : run more s = some second) : first = second := by
  obtain ⟨stopped, hstopped, rfl⟩ := Option.map_eq_some_iff.mp hfirst
  obtain ⟨other, hother, rfl⟩ := Option.map_eq_some_iff.mp hsecond
  have hstopped' := runToHalt_of_le hstopped (Nat.le_max_left fuel more)
  rw [runToHalt_of_le hother (Nat.le_max_right fuel more)] at hstopped'
  rw [Option.some.inj hstopped']

end CellMachine.Session
