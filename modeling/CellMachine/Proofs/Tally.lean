import CellMachine.Proofs.Bounds
import CellMachine.Proofs.DeviceProtocol
import CellMachine.Proofs.StackFrame
import CellMachine.Proofs.Unread

/-!
# What the statistics tell

The statistics of a machine are an account of its steps: every step that finds an opcode counts it,
whether or not the instruction then ends well, and every step that ends well raises the high-water
marks to where it has left the stack pointers. Steps that find no opcode leave no trace.

Nothing that a machine does depends on its statistics. Only the log tells of them, at the end of a
run.
-/

namespace CellMachine

/-! ## Counts -/

namespace Statistics

/-- A recorded dispatch raises a sum of counters as often as its own is among them. -/
theorem foldl_count_record (statistics : Statistics) (op : Opcode) (ops : List Opcode)
    (start more : Nat) :
    ops.foldl (fun sum other => sum + (statistics.record op).count other) (start + more) =
      ops.foldl (fun sum other => sum + statistics.count other) start + more + ops.count op := by
  induction ops generalizing start more with
  | nil => rfl
  | cons other ops ih =>
    rw [List.foldl_cons, List.foldl_cons, count_record, List.count_cons]
    by_cases h : op = other
    · rw [if_pos h, if_pos (by simp [h])]
      have hstart : start + more + (statistics.count other + 1) =
          start + statistics.count other + (more + 1) := by omega
      rw [hstart, ih]
      omega
    · rw [if_neg h, if_neg (by simp [Ne.symm h]), Nat.add_right_comm, ih, Nat.add_zero]

/-- A recorded dispatch raises the total by one, because every opcode has one counter. -/
@[simp] theorem total_record (statistics : Statistics) (op : Opcode) :
    (statistics.record op).total = statistics.total + 1 := by
  have honce : Opcode.all.count op = 1 := by
    cases op <;> rfl
  have hsum := foldl_count_record statistics op Opcode.all 0 0
  rwa [honce] at hsum

@[simp] theorem total_checkpoint (statistics : Statistics) (sp rp : Int) :
    (statistics.checkpoint sp rp).total = statistics.total :=
  rfl

end Statistics

section Steps

variable {δ : Type} [Host δ]

namespace System

/-- The machine that a step leaves behind, if it found an opcode and ended well. -/
def passed? (s : System δ) : Option Machine :=
  match s.machine.next?, Session.step s with
  | some _, .ok _ s' => some s'.machine
  | _, _ => none

/-- What a step makes of statistics. -/
def tally (s : System δ) (statistics : Statistics) : Statistics :=
  let counted := match s.machine.next? with
    | some op => statistics.record op
    | none => statistics
  match s.passed? with
  | some m => counted.checkpoint m.sp m.rp
  | none => counted

variable {s : System δ} {statistics : Statistics}

theorem passed?_of_none (hnext : s.machine.next? = none) : s.passed? = none := by
  rw [passed?, hnext]

theorem count_tally (s : System δ) (statistics : Statistics) (op : Opcode) :
    (s.tally statistics).count op =
      statistics.count op + if s.machine.next? = some op then 1 else 0 := by
  rw [tally]
  cases s.machine.next? with
  | none => cases s.passed? <;> simp
  | some other =>
    by_cases h : other = op
    · cases s.passed? <;> simp [h]
    · cases s.passed? <;> simp [h]

theorem total_tally (s : System δ) (statistics : Statistics) :
    (s.tally statistics).total = statistics.total + if s.machine.next?.isSome then 1 else 0 := by
  rw [tally]
  cases s.machine.next? with
  | none => cases s.passed? <;> simp
  | some op => cases s.passed? <;> simp

theorem maxSp_tally (s : System δ) (statistics : Statistics) :
    (s.tally statistics).maxSp = (s.passed?.map Machine.sp).elim statistics.maxSp
      (max statistics.maxSp) := by
  rw [tally]
  cases s.machine.next? <;> cases s.passed? <;> rfl

theorem maxRp_tally (s : System δ) (statistics : Statistics) :
    (s.tally statistics).maxRp = (s.passed?.map Machine.rp).elim statistics.maxRp
      (max statistics.maxRp) := by
  rw [tally]
  cases s.machine.next? <;> cases s.passed? <;> rfl

end System

namespace Session

/-- A step that finds no opcode leaves everything as it is. -/
theorem stateAfter_step_of_none {s : System δ} (hnext : s.machine.next? = none) :
    stateAfter (step s) = s := by
  rw [← yields_stateAfter (P := (· = s)), yields_step]
  refine ⟨fun _ => rfl, fun _ => ⟨fun _ => rfl, fun _ _ _ => rfl, fun op hop => ?_⟩⟩
  rw [hnext] at hop
  simp at hop

/-- The statistics after a step are what the step makes of those before it. -/
theorem statistics_step (s : System δ) :
    (stateAfter (step s)).machine.statistics = s.tally s.machine.statistics := by
  cases hnext : s.machine.next? with
  | none =>
    rw [stateAfter_step_of_none hnext, System.tally, System.passed?_of_none hnext, hnext]
  | some op =>
    have hkept : Yields (step s)
        (fun _ s' => s'.machine.statistics =
          (s.machine.statistics.record op).checkpoint s'.machine.sp s'.machine.rp)
        (fun _ s' => s'.machine.statistics = s.machine.statistics.record op) := by
      rw [yields_step_of_next hnext]
      refine yields_execute_statistics.imp (fun _ s' hdone => ?_) (fun _ _ hstopped => hstopped)
      exact congrArg (Statistics.checkpoint s'.machine.sp s'.machine.rp) hdone
    cases hstep : step s with
    | ok status s' =>
      have hpassed : s.passed? = some s'.machine := by
        rw [System.passed?, hnext, hstep]
      rw [System.tally, hpassed, hnext]
      exact hkept.of_ok hstep
    | error fault s' =>
      have hpassed : s.passed? = none := by
        rw [System.passed?, hnext, hstep]
      rw [System.tally, hpassed, hnext]
      exact hkept.of_error hstep

end Session

/-- The statistics after some steps are what the steps make of those before them. -/
theorem System.accounts_tally : Accounts fun m (steps : List (System δ)) m' =>
    m'.statistics = steps.foldl (fun statistics t => t.tally statistics) m.statistics where
  load _ _ := rfl
  step s := Session.statistics_step s
  append h h' := by rw [h', h, List.foldl_append]

/-! ## What the account of many steps says -/

namespace System

variable (steps : List (System δ)) (statistics : Statistics)

theorem count_foldl_tally (op : Opcode) :
    (steps.foldl (fun statistics t => t.tally statistics) statistics).count op =
      statistics.count op + steps.countP (fun t => t.machine.next? = some op) := by
  induction steps generalizing statistics with
  | nil => rfl
  | cons s steps ih =>
    rw [List.foldl_cons, ih, count_tally, List.countP_cons]
    simp only [decide_eq_true_eq]
    omega

theorem total_foldl_tally :
    (steps.foldl (fun statistics t => t.tally statistics) statistics).total =
      statistics.total + steps.countP (fun t => t.machine.next?.isSome) := by
  induction steps generalizing statistics with
  | nil => rfl
  | cons s steps ih =>
    rw [List.foldl_cons, ih, total_tally, List.countP_cons]
    omega

theorem maxSp_foldl_tally :
    (steps.foldl (fun statistics t => t.tally statistics) statistics).maxSp =
      ((steps.filterMap passed?).map Machine.sp).foldl max statistics.maxSp := by
  induction steps generalizing statistics with
  | nil => rfl
  | cons s steps ih =>
    rw [List.foldl_cons, ih, maxSp_tally, List.filterMap_cons]
    cases s.passed? <;> rfl

theorem maxRp_foldl_tally :
    (steps.foldl (fun statistics t => t.tally statistics) statistics).maxRp =
      ((steps.filterMap passed?).map Machine.rp).foldl max statistics.maxRp := by
  induction steps generalizing statistics with
  | nil => rfl
  | cons s steps ih =>
    rw [List.foldl_cons, ih, maxRp_tally, List.filterMap_cons]
    cases s.passed? <;> rfl

end System

/-! ## Before the first fault -/

/-- No step among those that are made from the given systems stops with a fault. -/
def Quiet (steps : List (System δ)) : Prop :=
  ∀ t ∈ steps, faultOf? (Session.step t) = none

/-- The steps lead to a machine, and the stack pointers lie within their stacks for as long as no
step has stopped with a fault. -/
structure Steady (steps : List (System δ)) (last : Machine) : Prop where
  starts : ∀ before t after, steps = before ++ t :: after → Quiet before → t.machine.Within 0 0
  ends : Quiet steps → last.Within 0 0

namespace Steady

variable {steps : List (System δ)} {m : Machine}

theorem nil (h : m.Within 0 0) : Steady ([] : List (System δ)) m where
  starts before t after heq := by simp at heq
  ends _ := h

theorem append {steps' : List (System δ)} {m' : Machine} (h : Steady steps m)
    (h' : m.Within 0 0 → Steady steps' m') : Steady (steps ++ steps') m' where
  starts before t after heq hquiet := by
    rcases List.append_eq_append_iff.mp heq with ⟨middle, rfl, hlater⟩ | ⟨middle, rfl, hsplit⟩
    · have hfirst : Quiet steps := fun u hu => hquiet u (List.mem_append_left _ hu)
      refine (h' (h.ends hfirst)).starts middle t after hlater fun u hu => ?_
      exact hquiet u (List.mem_append_right _ hu)
    · cases middle with
      | nil =>
        -- The first part ends right before this step.
        rw [List.append_nil] at h
        exact (h' (h.ends hquiet)).starts [] t after hsplit.symm fun u hu => absurd hu (by simp)
      | cons u middle =>
        obtain ⟨rfl, _⟩ := List.cons.inj hsplit
        exact h.starts before t middle rfl hquiet
  ends hquiet := by
    have hfirst : Quiet steps := fun u hu => hquiet u (List.mem_append_left _ hu)
    have hsecond : Quiet steps' := fun u hu => hquiet u (List.mem_append_right _ hu)
    exact (h' (h.ends hfirst)).ends hsecond

theorem step {s : System δ} (h : s.machine.Within 0 0) :
    Steady [s] (stateAfter (Session.step s)).machine where
  starts before t after heq _ := by
    cases before with
    | nil =>
      obtain ⟨rfl, _⟩ := List.cons.inj heq
      exact h
    | cons u before => simp at heq
  ends hquiet := by
    have hbounded := (Session.preserves_step h).stateAfter
    rw [hquiet s List.mem_cons_self] at hbounded
    exact hbounded

/-- What begins within the stacks is steady, whatever the operations are. -/
theorem accounts : Accounts fun m (steps : List (System δ)) m' =>
    m.Within 0 0 → Steady steps m' where
  load _ _ h := nil h
  step _ h := step h
  append h h' hwithin := (h hwithin).append h'

/-- If only the last step may have stopped, every step that ended well has left the stack pointers
within their stacks. -/
theorem within_of_passed (h : Steady steps m) (hquiet : Quiet steps.dropLast) {n : Machine}
    (hn : n ∈ steps.filterMap System.passed?) : n.Within 0 0 := by
  obtain ⟨t, ht, hpassed⟩ := List.mem_filterMap.mp hn
  obtain ⟨before, after, rfl⟩ := List.append_of_mem ht
  have hwithin : t.machine.Within 0 0 := by
    refine h.starts before t after rfl fun u hu => hquiet u ?_
    rw [List.dropLast_append_of_ne_nil (List.cons_ne_nil t after)]
    exact List.mem_append_left _ hu
  have hstep := Session.preserves_step hwithin
  rw [System.passed?] at hpassed
  split at hpassed
  · rename_i s' _ hok
    rw [← Option.some.inj hpassed]
    exact hstep.of_ok hok
  · simp at hpassed

end Steady

/-- A maximum lies below every bound of its parts. -/
theorem foldl_max_le {values : List Int} {first bound : Int} (hfirst : first ≤ bound)
    (hvalues : ∀ value ∈ values, value ≤ bound) : values.foldl max first ≤ bound := by
  induction values generalizing first with
  | nil => exact hfirst
  | cons value values ih =>
    rw [List.foldl_cons]
    apply ih
    · exact Int.max_le.mpr ⟨hfirst, hvalues value List.mem_cons_self⟩
    · intro other hother
      exact hvalues other (List.mem_cons_of_mem value hother)

end Steps

/-! ## The statistics as a whole -/

/-- The ends of two runs may be announced with different numbers of instructions, if it does not
matter what hosts take note of. -/
theorem Session.concur_announceHalt_of_apart {δ : Type} [Host δ] {M : Machine → Machine → Prop}
    {H : δ → δ → Prop} (hH : Host.Apart H) {s t : System δ} (h : Paired M H s t) :
    Concur (Paired M H) (Paired M H) (announceHalt s) (announceHalt t) :=
  ⟨rfl, h.1, hH.notes _ _ h.2⟩

/-- Whatever a new machine is asked to do, its statistics are exact. Every opcode has been counted
as often as a step found it, however the steps ended, and each high-water mark is the highest place
that a step which ended well has left its pointer at. As long as no step but the last has stopped
with a fault, both marks lie within their stacks.

Nothing depends on the statistics: two machines that differ in these alone give the same answers,
make the same calls, and still differ in nothing else after it. -/
theorem statistics_exact_and_unread {δ : Type} [Host δ] (ops : List Operation) :
    (∀ (set : InstructionSet) (host : δ) (answers : List (Except Fault Answer)) (s' : System δ),
      Operation.performAll ops ⟨{ set }, host⟩ = some (answers, s') →
      let steps := Operation.allSteps ops (⟨{ set }, host⟩ : System δ)
      let statistics := s'.machine.statistics
      (∀ op, statistics.count op = steps.countP fun t => t.machine.next? = some op) ∧
        statistics.total = steps.countP (fun t => t.machine.next?.isSome) ∧
        statistics.maxSp = ((steps.filterMap System.passed?).map Machine.sp).foldl max 0 ∧
        statistics.maxRp = ((steps.filterMap System.passed?).map Machine.rp).foldl max 0 ∧
        (Quiet steps.dropLast → statistics.maxSp ≤ 31 ∧ statistics.maxRp ≤ 127)) ∧
      ∀ alike : δ → δ → Prop, Host.Apart alike → ∀ s t : System (Recorder δ),
        s.machine.Recounted t.machine → t.host.calls = s.host.calls →
        alike s.host.host t.host.host →
        Option.Rel (fun first second => second.1 = first.1 ∧
            first.2.machine.Recounted second.2.machine ∧
            second.2.host.calls = first.2.host.calls ∧ alike first.2.host.host second.2.host.host)
          (Operation.performAll ops s) (Operation.performAll ops t) := by
  constructor
  · intro set host answers s' hall steps statistics
    have htally : statistics = steps.foldl (fun statistics t => t.tally statistics) {} :=
      System.accounts_tally.performAll hall
    have hsp : statistics.maxSp =
        ((steps.filterMap System.passed?).map Machine.sp).foldl max 0 := by
      rw [htally, System.maxSp_foldl_tally]
    have hrp : statistics.maxRp =
        ((steps.filterMap System.passed?).map Machine.rp).foldl max 0 := by
      rw [htally, System.maxRp_foldl_tally]
    refine ⟨fun op => ?_, ?_, hsp, hrp, fun hquiet => ?_⟩
    · rw [htally, System.count_foldl_tally, Statistics.count_default, Nat.zero_add]
    · rw [htally, System.total_foldl_tally]
      exact Nat.zero_add _
    · have hsteady : Steady steps s'.machine :=
        Steady.accounts.performAll hall (by simp [Machine.Within])
      rw [hsp, hrp]
      constructor
      · refine foldl_max_le (by decide) fun value hvalue => ?_
        obtain ⟨m, hm, rfl⟩ := List.mem_map.mp hvalue
        exact (hsteady.within_of_passed hquiet hm).1.2
      · refine foldl_max_le (by decide) fun value hvalue => ?_
        obtain ⟨m, hm, rfl⟩ := List.mem_map.mp hvalue
        exact (hsteady.within_of_passed hquiet hm).2.2
  · intro alike halike s t hmachine hcalls hhosts
    have hapart := Recorder.apart halike
    exact Operation.performAll_of_resemblance Machine.resemblance_recounted hapart.toCongruence
      (Session.concur_announceHalt_of_apart hapart) ops ⟨hmachine, hcalls, hhosts⟩

/-- A literal is counted, and it leaves the pointer at 1. A machine that has counted a million steps
before does the same. -/
theorem statistics_exact_and_unread_of_literal :
    (∃ (answers : List (Except Fault Answer)) (s' : System Script),
      Operation.performAll [.loadCells [1, 7], .step] ⟨{ set := .base }, {}⟩ = some (answers, s') ∧
        s'.machine.statistics.count .lit = 1 ∧ s'.machine.statistics.total = 1 ∧
        s'.machine.statistics.maxSp = 1 ∧ s'.machine.statistics.maxRp = 0) ∧
      ∃ (s t : System (Recorder Script)) (first second : List (Except Fault Answer) ×
          System (Recorder Script)),
        s.machine.statistics.count .nop = 0 ∧ t.machine.statistics.count .nop = 1000000 ∧
        Operation.performAll [.loadCells [1, 7], .step] s = some first ∧
        Operation.performAll [.loadCells [1, 7], .step] t = some second ∧
        second.1 = first.1 ∧ first.2.machine.Recounted second.2.machine ∧
        second.2.host.calls = first.2.host.calls := by
  constructor
  · obtain ⟨s, hs⟩ : ∃ s : System Script, s = ⟨.loaded .base [1, 7], {}⟩ := ⟨_, rfl⟩
    obtain ⟨new, hnew⟩ : ∃ new : System Script, new = ⟨{ set := .base }, {}⟩ := ⟨_, rfl⟩
    have hload : (Operation.loadCells [1, 7]).perform new = some (.ok (.stored 2) s) := by
      rw [hs, hnew]
      exact Operation.perform_loadCells .base ({} : Script) (by decide)
    have hstart : s.machine.At [1, 7] 0 0 := by
      rw [hs]
      exact .loaded .base _
    have hnext : s.machine.next? = some .lit := by
      rw [hs]
      exact Machine.next?_loaded rfl rfl
    obtain ⟨s', hok, -, -, hthere⟩ :=
      Session.step_literal_at hstart rfl rfl (by omega) (by omega) (by omega)
    have hsp : s'.machine.sp = 1 := hthere.sp
    have hrp : s'.machine.rp = 0 := hthere.rp
    have hall : Operation.performAll [.loadCells [1, 7], .step] new =
        some ([.ok (.stored 2), .ok (.status .running)], s') := by
      have hlast : (Operation.step).perform s = some (.ok (.status .running) s') := by
        rw [Operation.perform, map_eq_pure_bind, bind_apply, hok]
        rfl
      have hrest : Operation.performAll [.step] s = some ([.ok (.status .running)], s') := by
        rw [Operation.performAll, hlast]
        rfl
      rw [Operation.performAll, hload]
      simp only [stateAfter, hrest]
      rfl
    have hsteps : Operation.allSteps [.loadCells [1, 7], .step] new = [s] := by
      rw [Operation.allSteps, hload]
      rfl
    have hpassed : s.passed? = some s'.machine := by
      rw [System.passed?, hnext, hok]
    rw [hnew] at hall hsteps
    obtain ⟨hcount, htotal, hmaxSp, hmaxRp, _⟩ :=
      (statistics_exact_and_unread _).1 .base ({} : Script) _ _ hall
    rw [hsteps] at hcount htotal hmaxSp hmaxRp
    refine ⟨_, s', hall, ?_, ?_, ?_, ?_⟩
    · simp [hcount, hnext]
    · simp [htotal, hnext]
    · rw [hmaxSp, List.filterMap_cons_some hpassed, List.map_cons, hsp]
      rfl
    · rw [hmaxRp, List.filterMap_cons_some hpassed, List.map_cons, hrp]
      rfl
  · obtain ⟨many, hmany⟩ : ∃ many : Statistics, many.count .nop = 1000000 :=
      ⟨{ counts := Vector.replicate 32 1000000 }, rfl⟩
    have halike : Host.Apart (Eq : Script → Script → Prop) :=
      { Host.congruence_eq with notes := fun _ _ h => h }
    obtain ⟨s, hs⟩ : ∃ s : System (Recorder Script), s = ⟨{ set := .base }, { host := {} }⟩ :=
      ⟨_, rfl⟩
    have hfew : s.machine.statistics.count .nop = 0 := by
      rw [hs]
      exact Statistics.count_default .nop
    have hrelated := (statistics_exact_and_unread [.loadCells [1, 7], .step]).2 Eq halike s
      ⟨{ s.machine with statistics := many }, s.host⟩ ⟨many, rfl⟩ rfl rfl
    rcases rel_cases hrelated with
      ⟨hnone, _⟩ | ⟨first, second, hs, ht, hanswers, hmachine, hcalls, _⟩
    · simp [Operation.performAll, Operation.perform] at hnone
    · exact ⟨s, _, first, second, hfew, hmany, hs, ht, hanswers, hmachine, hcalls⟩

end CellMachine
