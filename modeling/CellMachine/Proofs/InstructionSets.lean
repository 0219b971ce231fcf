import CellMachine.Host.Script
import CellMachine.Proofs.Runs
import CellMachine.Proofs.Unread

/-!
# The two instruction sets

A machine consults its instruction set only when it decodes a cell. So two machines that differ in
nothing else stay side by side until one of them finds a cell that means something to it and
nothing to the other, and for the two sets of this library that is an extension opcode.
-/

namespace CellMachine

/-- The cells that stand for an opcode in the interactive set only. -/
def Opcode.IsExtensionCode (value : Cell) : Prop := value = 90 ∨ value = 91

namespace InstructionSet

open Opcode (IsExtensionCode)

/-- The two sets differ in the meaning of two cells. -/
theorem decode_interactive {value : Cell} (h : ¬IsExtensionCode value) :
    interactive.decode value = base.decode value := by
  apply Option.ext
  intro op
  rw [decode_eq_some_iff, decode_eq_some_iff]
  constructor
  · rintro ⟨rfl, _⟩
    refine ⟨rfl, ?_⟩
    cases op <;> first | rfl | exact absurd (.inl rfl) h | exact absurd (.inr rfl) h
  · rintro ⟨rfl, _⟩
    exact ⟨rfl, rfl⟩

theorem decode_base_of_extension {value : Cell} (h : IsExtensionCode value) :
    base.decode value = none := by
  rcases h with rfl | rfl <;> decide

theorem decode_interactive_of_extension {value : Cell} (h : IsExtensionCode value) :
    interactive.decode value = some .putc ∨ interactive.decode value = some .getc := by
  rcases h with rfl | rfl <;> decide

end InstructionSet

/-- A machine with another instruction set in the place of its own. -/
def Machine.under (m : Machine) (set : InstructionSet) : Machine :=
  { m with set }

/-- A system whose machine has another instruction set in the place of its own. -/
def System.under {δ : Type} (s : System δ) (set : InstructionSet) : System δ :=
  { s with machine := s.machine.under set }

/-! ## Instructions know nothing of the set -/

/-- Two machines that differ only in their instruction set. -/
abbrev Action.Recast (set : InstructionSet) (_ _ : Nat) (m m' : Machine) : Prop := m' = m.under set

/-- No part of a step after the decoding depends on the instruction set. -/
theorem Machine.congruence_recast (set : InstructionSet) : FullCongruence (Action.Recast set) where
  toInstructionCongruence := congruence_refitted (fun _ => set) id
  counted op h := by rw [h]; rfl
  advanced h := by rw [h]; rfl

section Systems

variable {δ : Type} [Host δ] {s : System δ}

namespace Session

/-- A step comes to the same under another set that gives the cell it fetches the same meaning. -/
theorem step_under (s : System δ) (set : InstructionSet)
    (hdecode : ∀ value, s.machine.memory.get? s.machine.ip = some value →
      set.decode value = s.machine.set.decode value) :
    answerOf (step (s.under set)) = answerOf (step s) ∧
      stateAfter (step (s.under set)) = (stateAfter (step s)).under set := by
  have hconcur : Concur (Paired (Action.Recast set 0 0) Eq) (Paired (Action.Recast set 0 0) Eq)
      (step s) (step (s.under set)) := by
    refine concur_step rfl rfl hdecode ⟨rfl, rfl⟩ ⟨rfl, rfl⟩ fun op _ => ?_
    exact concur_dispatch (Machine.congruence_recast set) (Host.congruence_eq.passage op) rfl rfl
  refine ⟨hconcur.answerOf, ?_⟩
  obtain ⟨hmachine, hhost⟩ := hconcur.stateAfter
  change _ = System.mk ((stateAfter (step s)).machine.under set) (stateAfter (step s)).host
  rw [← hmachine, hhost]

/-- No step changes the instruction set. -/
theorem set_stateAfter_step (s : System δ) :
    (stateAfter (step s)).machine.set = s.machine.set := by
  have hsame : stateAfter (step s) = (stateAfter (step s)).under s.machine.set :=
    (step_under s s.machine.set fun _ _ => rfl).2
  rw [hsame]
  rfl

/-- A step that finds a cell without a meaning stops, and leaves everything as it was. -/
theorem step_of_undecoded {value : Cell}
    (hget : s.machine.memory.get? s.machine.ip = some value)
    (hdecode : s.machine.set.decode value = none) :
    step s = .error (.invalidOpcode s.machine.ip value) s := by
  have hrunning : ¬s.machine.hasHalted = true := by
    intro hhalted
    rw [Memory.get?_eq_none_iff.mpr (.inr (Machine.hasHalted_iff.mp hhalted))] at hget
    simp at hget
  simp only [step, if_neg hrunning, hget, hdecode]

/-- An instruction that reads or emits a character stops for other reasons than that it has no
meaning. -/
theorem step_of_extension (hset : s.machine.set = .interactive) {value : Cell}
    (hget : s.machine.memory.get? s.machine.ip = some value)
    (hvalue : Opcode.IsExtensionCode value) :
    Yields (step s) (fun _ _ => True) (fun fault _ => ∀ here code,
      fault ≠ .invalidOpcode here code) := by
  have hnext : s.machine.next? = some .putc ∨ s.machine.next? = some .getc := by
    rw [Machine.next?, hget, Option.bind_some, hset]
    exact InstructionSet.decode_interactive_of_extension hvalue
  rcases hnext with hputc | hgetc
  · rw [yields_step_of_next hputc, execute, yields_emit]
    refine ⟨fun _ => by simp, fun _ _ => ?_, fun _ => by simp⟩
    exact Yields.of_forall (fun _ _ => trivial) (fun _ _ => by simp)
  · rw [yields_step_of_next hgetc, execute, yields_bind, yields_read]
    refine Yields.of_forall (fun _ _ => ?_) (fun _ _ => by simp)
    refine Yields.of_forall (fun character host => ?_) (fun _ _ => by simp)
    rw [yields_liftM, Action.yields_push]
    exact ⟨fun _ => by simp, fun _ _ => trivial, fun _ => by simp⟩

end Session

namespace System

theorem set_after (s : System δ) (n : Nat) : (s.after n).machine.set = s.machine.set := by
  induction n with
  | zero => rfl
  | succ n ih => rw [after, Session.set_stateAfter_step, ih]

/-- Step number `i` gives the same result under both sets, and leaves the same system behind but
for the set. -/
def InStep (s : System δ) (i : Nat) : Prop :=
  answerOf (Session.step ((s.under .interactive).after i)) =
      answerOf (Session.step ((s.under .base).after i)) ∧
    (s.under .interactive).after (i + 1) = ((s.under .base).after (i + 1)).under .interactive

variable {n : Nat}

theorem after_of_inStep (h : ∀ i < n, s.InStep i) :
    (s.under .interactive).after n = ((s.under .base).after n).under .interactive := by
  cases n with
  | zero => rfl
  | succ n => exact (h n (Nat.lt_succ_self n)).2

/-- Two systems that have been in step stay in step where they find no extension opcode. -/
theorem inStep_of_no_extension (h : ∀ i < n, s.InStep i)
    (hcell : ∀ value, ((s.under .base).after n).machine.memory.get?
      ((s.under .base).after n).machine.ip = some value → ¬Opcode.IsExtensionCode value) :
    s.InStep n := by
  have hstep := Session.step_under ((s.under .base).after n) .interactive ?_
  · rw [← after_of_inStep h] at hstep
    exact hstep
  · intro value hget
    rw [set_after]
    exact InstructionSet.decode_interactive (hcell value hget)

/-- An extension opcode means nothing to the system under the base set. -/
theorem step_base_of_extension {value : Cell}
    (hget : ((s.under .base).after n).machine.memory.get?
      ((s.under .base).after n).machine.ip = some value)
    (hvalue : Opcode.IsExtensionCode value) :
    Session.step ((s.under .base).after n) =
      .error (.invalidOpcode ((s.under .base).after n).machine.ip value)
        ((s.under .base).after n) := by
  apply Session.step_of_undecoded hget
  rw [set_after]
  exact InstructionSet.decode_base_of_extension hvalue

/-- Two systems that have been in step part where they find an extension opcode. -/
theorem not_inStep_of_extension (h : ∀ i < n, s.InStep i) {value : Cell}
    (hget : ((s.under .base).after n).machine.memory.get?
      ((s.under .base).after n).machine.ip = some value)
    (hvalue : Opcode.IsExtensionCode value) : ¬s.InStep n := by
  rintro ⟨hanswer, _⟩
  rw [step_base_of_extension hget hvalue, after_of_inStep h] at hanswer
  have hother := Session.step_of_extension (s := ((s.under .base).after n).under .interactive) rfl
    hget hvalue
  cases hresult : Session.step (((s.under .base).after n).under .interactive) with
  | ok status s' =>
    rw [hresult] at hanswer
    simp [answerOf] at hanswer
  | error fault s' =>
    rw [hresult] at hanswer
    exact hother.of_error hresult _ _ (Except.error.inj hanswer)

/-- Two systems are in step as long as the one under the base set stops at no extension opcode. -/
theorem inStep_of_quiet
    (hquiet : ∀ i < n, ∀ here value, faultOf? (Session.step ((s.under .base).after i)) =
      some (.invalidOpcode here value) → ¬Opcode.IsExtensionCode value) {i : Nat} (hi : i < n) :
    s.InStep i := by
  induction i using Nat.strongRecOn with
  | _ i ih =>
    refine inStep_of_no_extension (fun j hj => ih j hj (by omega)) fun value hget hvalue => ?_
    refine hquiet i hi ((s.under .base).after i).machine.ip value ?_ hvalue
    rw [step_base_of_extension hget hvalue, faultOf?]

end System

/-- The interactive set extends the base set and changes nothing else. As long as the system under
the base set stops at no extension opcode, every step gives the same result under both sets and
leaves the same system behind, its host included. The first step that does not is one at which both
systems are still the same and find an extension opcode, at which the system under the base set
stops and stays as it is. -/
theorem interactive_extends_base (s : System δ) :
    (∀ n, (∀ i < n, ∀ here value, faultOf? (Session.step ((s.under .base).after i)) =
        some (.invalidOpcode here value) → ¬Opcode.IsExtensionCode value) →
      ∀ i < n, s.InStep i) ∧
    (∀ n, (∀ i < n, s.InStep i) → (¬s.InStep n ↔
      ∃ value, Opcode.IsExtensionCode value ∧
        ((s.under .base).after n).machine.memory.get? ((s.under .base).after n).machine.ip =
          some value ∧
        (s.under .interactive).after n = ((s.under .base).after n).under .interactive ∧
        Session.step ((s.under .base).after n) =
          .error (.invalidOpcode ((s.under .base).after n).machine.ip value)
            ((s.under .base).after n))) ∧
    ∀ (set : InstructionSet) (value : Cell) (op : Opcode), set.decode value = some op ↔
      value = op.code ∧ (op.isExtension = true → set = .interactive) := by
  refine ⟨fun n hquiet i hi => System.inStep_of_quiet hquiet hi, fun n hsame => ?_,
    fun set value op => ?_⟩
  · constructor
    · intro hparts
      apply Classical.byContradiction
      intro hnone
      apply hparts
      refine System.inStep_of_no_extension hsame fun value hget hvalue => hnone ?_
      exact ⟨value, hvalue, hget, System.after_of_inStep hsame,
        System.step_base_of_extension hget hvalue⟩
    · rintro ⟨value, hvalue, hget, _⟩
      exact System.not_inStep_of_extension hsame hget hvalue
  · rw [InstructionSet.decode_eq_some_iff]
    cases set <;> simp [InstructionSet.admits]

end Systems

/-- A program that reads a character and then emits it as only an interactive machine does. The
first step is the same under both sets, with its calls, and the second one is not. -/
theorem interactive_extends_base_of_echo :
    ∃ s : System (Recorder Script), faultOf? (Session.step (s.under .base)) = none ∧
      s.InStep 0 ∧ (s.after 1).host.calls.length = 2 ∧ ¬s.InStep 1 ∧
      Session.step ((s.under .base).after 1) =
        .error (.invalidOpcode 1 90) ((s.under .base).after 1) := by
  obtain ⟨s, hs⟩ : ∃ s : System (Recorder Script), s =
    ⟨.loaded .base [27, 90], { host := { replies := [.ok 65] } }⟩ := ⟨_, rfl⟩
  have hbase : s.under .base = s := by
    rw [hs]
    rfl
  have hnext : s.machine.next? = some .input := by
    rw [hs]
    exact Machine.next?_loaded rfl rfl
  have hfirst : Yields (Session.step s)
      (fun _ s' => s'.machine.memory = Memory.blank.write 0 [27, 90] ∧ s'.machine.ip = 1 ∧
        s'.host.calls.length = 2) (fun _ _ => False) := by
    rw [Session.yields_step_of_next hnext, hs]
    exact ⟨rfl, rfl, rfl⟩
  obtain ⟨status, s', hok, hmemory, hip, hcalls⟩ := hfirst.exists_ok
  have hafter : s.after 1 = s' := System.after_succ_of_ok (n := 0) hok
  have hget : (s.after 1).machine.memory.get? (s.after 1).machine.ip = some 90 := by
    rw [hafter, hmemory, hip]
    exact Memory.get?_write Memory.blank (i := 1) rfl (by omega)
  obtain ⟨hsame, hparts, _⟩ := interactive_extends_base s
  have hquiet : faultOf? (Session.step s) = none := by
    rw [hok, faultOf?]
  have hinStep : ∀ i < 1, s.InStep i := by
    apply hsame
    intro i hi here value hfault
    obtain rfl : i = 0 := by omega
    rw [hbase, System.after_zero, hquiet] at hfault
    simp at hfault
  have hpart : ¬s.InStep 1 := by
    apply (hparts 1 hinStep).mpr
    refine ⟨90, .inl rfl, ?_, System.after_of_inStep hinStep, ?_⟩
    · rw [hbase]
      exact hget
    · exact System.step_base_of_extension (by rw [hbase]; exact hget) (.inl rfl)
  obtain ⟨value, _, hvalue, _, hstop⟩ := (hparts 1 hinStep).mp hpart
  rw [hbase, hget, Option.some.injEq] at hvalue
  rw [hbase, hafter, hip, ← hvalue] at hstop
  refine ⟨s, ?_, hinStep 0 (by omega), ?_, hpart, ?_⟩
  · rw [hbase]
    exact hquiet
  · rw [hafter]
    exact hcalls
  · rw [hbase, hafter]
    exact hstop

end CellMachine
