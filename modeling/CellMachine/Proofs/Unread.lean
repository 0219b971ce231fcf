import CellMachine.Proofs.Recorder

/-!
# What no instruction reads

An instruction reads memory, the stacks and the address of its machine. It looks neither at the
instruction set nor at the statistics: the first is consulted when a cell is decoded, and the second
are written before and after an instruction, and never read back. So an instruction does the same
whatever stands in these two fields, and it leaves them as they are.
-/

namespace CellMachine

/-- A machine with its instruction set and its statistics replaced. -/
def Machine.refitted (m : Machine) (refit : InstructionSet → InstructionSet)
    (recount : Statistics → Statistics) : Machine :=
  { m with set := refit m.set, statistics := recount m.statistics }

namespace Action

variable {refit : InstructionSet → InstructionSet} {recount : Statistics → Statistics}
  {a r b q : Nat}

/-- The second machine is the first one, with its instruction set and its statistics replaced. -/
abbrev Refitted (refit : InstructionSet → InstructionSet) (recount : Statistics → Statistics)
    (_ _ : Nat) (m m' : Machine) : Prop :=
  m' = m.refitted refit recount

theorem refitted_continueAt (target : Cell) :
    Respects (Refitted refit recount) a r b q (continueAt target) := by
  rintro m _ rfl
  exact ⟨rfl, rfl⟩

theorem refitted_save (here target value : Cell) :
    Respects (Refitted refit recount) a r b q (save here target value) := by
  rintro m _ rfl
  rw [save, save]
  cases Memory.locate? target with
  | some i => exact ⟨rfl, rfl⟩
  | none => exact ⟨rfl, rfl⟩

theorem refitted_peek (here : Cell) (depth : Nat) :
    Respects (Refitted refit recount) a r b q (peek here depth) := by
  rintro m _ rfl
  rw [peek, peek, Machine.refitted]
  cases m.data.slot depth with
  | ok i => exact ⟨rfl, rfl⟩
  | error miss => exact ⟨rfl, rfl⟩

theorem refitted_poke (here : Cell) (depth : Nat) (value : Cell) :
    Respects (Refitted refit recount) a r b q (poke here depth value) := by
  rintro m _ rfl
  rw [poke, poke, Machine.refitted]
  cases m.data.slot depth with
  | ok i => exact ⟨rfl, rfl⟩
  | error miss => exact ⟨rfl, rfl⟩

theorem refitted_raise : Respects (Refitted refit recount) a r b q raise := by
  rintro m _ rfl
  exact ⟨rfl, rfl⟩

theorem refitted_lower : Respects (Refitted refit recount) a r b q lower := by
  rintro m _ rfl
  exact ⟨rfl, rfl⟩

theorem refitted_push (here value : Cell) :
    Respects (Refitted refit recount) a r b q (push here value) :=
  (refitted_raise (b := 0) (q := 0)).bind fun _ => refitted_poke here 0 value

theorem refitted_pointer : Respects (Refitted refit recount) a r b q pointer := by
  rintro m _ rfl
  exact ⟨rfl, rfl⟩

theorem refitted_drop (here : Cell) : Respects (Refitted refit recount) a r b q (drop here) := by
  refine (refitted_pointer (b := 0) (q := 0)).bind fun top =>
    Respects.ite (refitted_continueAt _) ?_
  refine (refitted_poke (b := 0) (q := 0) here 0 0).bind fun _ => ?_
  refine (refitted_lower (b := 0) (q := 0)).bind fun _ => ?_
  exact Respects.ite (refitted_continueAt _) fun m m' h => ⟨rfl, h⟩

theorem refitted_peekReturn (here : Cell) :
    Respects (Refitted refit recount) a r b q (peekReturn here) := by
  rintro m _ rfl
  rw [peekReturn, peekReturn, Machine.refitted]
  cases m.returns.slot 0 with
  | ok i => exact ⟨rfl, rfl⟩
  | error miss => exact ⟨rfl, rfl⟩

theorem refitted_pokeReturn (here value : Cell) :
    Respects (Refitted refit recount) a r b q (pokeReturn here value) := by
  rintro m _ rfl
  rw [pokeReturn, pokeReturn, Machine.refitted]
  cases m.returns.slot 0 with
  | ok i => exact ⟨rfl, rfl⟩
  | error miss => exact ⟨rfl, rfl⟩

theorem refitted_raiseReturn : Respects (Refitted refit recount) a r b q raiseReturn := by
  rintro m _ rfl
  exact ⟨rfl, rfl⟩

theorem refitted_pushReturn (here value : Cell) :
    Respects (Refitted refit recount) a r b q (pushReturn here value) :=
  (refitted_raiseReturn (b := 0) (q := 0)).bind fun _ => refitted_pokeReturn here value

theorem refitted_lowerReturn : Respects (Refitted refit recount) a r b q lowerReturn := by
  rintro m _ rfl
  exact ⟨rfl, rfl⟩

end Action

/-- No part of an instruction depends on the instruction set or on the statistics. -/
theorem Machine.congruence_refitted (refit : InstructionSet → InstructionSet)
    (recount : Statistics → Statistics) :
    InstructionCongruence (Action.Refitted refit recount) where
  fewer h _ _ := h
  ip h := by rw [h, refitted]
  memory h := by rw [h, refitted]
  continueAt := Action.refitted_continueAt
  save := Action.refitted_save
  peek here depth _ := Action.refitted_peek here depth
  poke here depth value _ := Action.refitted_poke here depth value
  push := Action.refitted_push
  drop := Action.refitted_drop
  lower := Action.refitted_lower
  peekReturn := Action.refitted_peekReturn
  pushReturn := Action.refitted_pushReturn
  lowerReturn := Action.refitted_lowerReturn

/-- A union of relations is respected by what respects each of them. -/
theorem Respects.union {α ι : Type} {R : ι → Nat → Nat → Machine → Machine → Prop} {a r b q : Nat}
    {x : Action α} (hx : ∀ i, Respects (R i) a r b q x) :
    Respects (fun a r m m' => ∃ i, R i a r m m') a r b q x := by
  rintro m m' ⟨i, h⟩
  exact (hx i m m' h).imp (fun _ _ hdone => ⟨i, hdone⟩) (fun _ _ hstopped => ⟨i, hstopped⟩)

theorem InstructionCongruence.union {ι : Type} {R : ι → Nat → Nat → Machine → Machine → Prop}
    (hR : ∀ i, InstructionCongruence (R i)) :
    InstructionCongruence fun a r m m' => ∃ i, R i a r m m' where
  fewer := fun ⟨i, h⟩ hoperands hroom => ⟨i, (hR i).fewer h hoperands hroom⟩
  ip := fun ⟨i, h⟩ => (hR i).ip h
  memory := fun ⟨i, h⟩ => (hR i).memory h
  continueAt target := .union fun i => (hR i).continueAt target
  save here target value := .union fun i => (hR i).save here target value
  peek here _ hdeep := .union fun i => (hR i).peek here hdeep
  poke here _ value hdeep := .union fun i => (hR i).poke here value hdeep
  push here value := .union fun i => (hR i).push here value
  drop here := .union fun i => (hR i).drop here
  lower := .union fun i => (hR i).lower
  peekReturn here := .union fun i => (hR i).peekReturn here
  pushReturn here value := .union fun i => (hR i).pushReturn here value
  lowerReturn := .union fun i => (hR i).lowerReturn

namespace Machine

/-- The second machine is the first one, but for its statistics. -/
def Recounted (m m' : Machine) : Prop :=
  ∃ statistics, m' = { m with statistics }

/-- No part of an operation depends on the statistics. -/
theorem resemblance_recounted : Resemblance Recounted where
  toInstructionCongruence := .union fun statistics => congruence_refitted id fun _ => statistics
  counted op := fun ⟨statistics, h⟩ => ⟨statistics.record op, h ▸ rfl⟩
  advanced := fun {_ _ m _} ⟨statistics, h⟩ =>
    ⟨statistics.checkpoint m.advanced.sp m.advanced.rp, h ▸ rfl⟩
  set := fun ⟨_, h⟩ => h ▸ rfl
  install _ := fun ⟨statistics, h⟩ => ⟨statistics, h ▸ rfl⟩
  sp := fun ⟨_, h⟩ => h ▸ rfl
  rp := fun ⟨_, h⟩ => h ▸ rfl
  entries := fun ⟨_, h⟩ => h ▸ rfl

/-- The second machine is the first one, but for the number of dispatches of each opcode. -/
def Miscounted (m m' : Machine) : Prop :=
  ∃ counts, m' = { m with statistics := { m.statistics with counts } }

/-- No part of a step depends on the number of dispatches. -/
theorem congruence_miscounted : FullCongruence fun _ _ => Miscounted where
  toInstructionCongruence := .union fun counts =>
    congruence_refitted id fun statistics => { statistics with counts }
  counted op := fun ⟨counts, h⟩ => ⟨counts.set op.index (counts[op.index] + 1), by rw [h]; rfl⟩
  advanced := fun ⟨counts, h⟩ => ⟨counts, by rw [h]; rfl⟩

end Machine

namespace Session

variable {δ : Type} [Host δ] {here : Cell} {op : Opcode} {m : Machine} {host : δ}

/-- An instruction leaves the statistics as they are. -/
theorem yields_execute_statistics :
    Yields (execute here op ⟨m, host⟩) (fun _ s => s.machine.statistics = m.statistics)
      (fun _ s => s.machine.statistics = m.statistics) := by
  -- A machine whose statistics are replaced by those that it has is the same machine.
  have hsame : Concur _ _ (execute here op ⟨m, host⟩) (execute here op ⟨m, host⟩) :=
    concur_execute here (Machine.congruence_refitted id fun _ => m.statistics)
      (Host.congruence_eq.passage op) rfl rfl
  rcases hsame.cases with ⟨_, s, t, hs, ht, hst⟩ | ⟨_, s, t, hs, ht, hst⟩
  · obtain ⟨_, rfl⟩ := EStateM.Result.ok.inj (hs.symm.trans ht)
    have hkept := congrArg Machine.statistics hst.1
    rw [hs]
    exact hkept
  · obtain ⟨_, rfl⟩ := EStateM.Result.error.inj (hs.symm.trans ht)
    have hkept := congrArg Machine.statistics hst.1
    rw [hs]
    exact hkept

end Session

end CellMachine
