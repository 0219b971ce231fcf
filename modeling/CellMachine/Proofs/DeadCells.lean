import CellMachine.Host.Script
import CellMachine.Proofs.Recorder

/-!
# Dead cells

The cells above a stack pointer keep whatever was left in them. A push moves the pointer first, and
what lies in the cell that it reaches is replaced before anything reads it; when there is no such
cell, there is nothing to read either. So two machines that differ only in dead cells cannot be told
apart by anything that their owner does.
-/

namespace CellMachine

namespace Stack

variable {n : Nat} {s t : Stack n}

/-- Two stacks with the same pointer and the same live cells. -/
structure Twin (s t : Stack n) : Prop where
  /-- The pointers are the same. -/
  top : t.top = s.top
  /-- The cells up to the pointer are the same. -/
  cells (i : Nat) : (i : Int) ≤ s.top → t.cells[i]? = s.cells[i]?

/-- Which cell an operation finds depends on the pointer alone. -/
theorem slot_of_top (h : t.top = s.top) (depth : Nat) : t.slot depth = s.slot depth := by
  simp only [slot, h]

/-- A cell that an operation finds is live. -/
theorem Twin.getElem? (h : Twin s t) {depth : Nat} {i : Fin n} (hslot : s.slot depth = .ok i) :
    t.cells[i.val]? = s.cells[i.val]? := by
  have htop := slot_eq_ok_iff.mp hslot
  exact h.cells i (by omega)

theorem Twin.set (h : Twin s t) (i : Fin n) (value : Cell) :
    Twin (s.set i value) (t.set i value) := by
  constructor
  · exact h.top
  · intro j hj
    rw [Stack.set, Stack.set, Vector.getElem?_set, Vector.getElem?_set, h.cells j hj]

theorem Twin.lower (h : Twin s t) : Twin s.lower t.lower := by
  constructor
  · rw [top_lower, top_lower, h.top]
  · intro i hi
    rw [top_lower] at hi
    exact h.cells i (by omega)

/-- The cell that a push reaches was dead, and it is replaced. -/
theorem Twin.push (h : Twin s t) {i : Fin n} (hslot : s.raise.slot 0 = .ok i) (value : Cell) :
    Twin (s.raise.set i value) (t.raise.set i value) := by
  have hi := slot_eq_ok_iff.mp hslot
  rw [top_raise] at hi
  constructor
  · rw [Stack.set, Stack.set, top_raise, top_raise, h.top]
  · intro j hj
    have htop : (s.raise.set i value).top = s.top + 1 := rfl
    rw [htop] at hj
    rw [Stack.set, Stack.set, Vector.getElem?_set, Vector.getElem?_set, cells_raise, cells_raise]
    by_cases heq : i.val = j
    · rw [if_pos heq, if_pos heq]
    · rw [if_neg heq, if_neg heq]
      exact h.cells j (by omega)

/-- A push that finds no cell brings none to life. -/
theorem Twin.raise (h : Twin s t) {miss : Miss} (hslot : s.raise.slot 0 = .error miss) :
    Twin s.raise t.raise := by
  constructor
  · rw [top_raise, top_raise, h.top]
  · intro i hi
    rw [top_raise] at hi
    by_cases hlive : (i : Int) ≤ s.top
    · exact h.cells i hlive
    · -- The pointer has come to lie on this position, so there is no cell there.
      have hout : ¬i < n := by
        intro hin
        have hfound : s.raise.slot 0 = .ok ⟨i, hin⟩ := by
          rw [slot_eq_ok_iff, top_raise]
          simp only
          omega
        rw [hfound] at hslot
        simp at hslot
      rw [Vector.getElem?_eq_none (by omega), Vector.getElem?_eq_none (by omega)]

theorem Twin.live (h : Twin s t) : t.live = s.live := by
  apply List.ext_getElem?
  intro i
  rw [Stack.live, Stack.live, h.top, List.getElem?_take, List.getElem?_take]
  by_cases hi : i < (s.top + 1).toNat
  · rw [if_pos hi, if_pos hi]
    have hcell := h.cells i (by omega)
    simpa using hcell
  · rw [if_neg hi, if_neg hi]

theorem Twin.entries (h : Twin s t) : t.entries = s.entries := by
  rw [Stack.entries, Stack.entries, h.live]

end Stack

/-- Two machines that differ only in the cells above their stack pointers. -/
structure Machine.Twin (m m' : Machine) : Prop where
  /-- Code and data are the same. -/
  memory : m'.memory = m.memory
  /-- The operands are the same. -/
  data : m.data.Twin m'.data
  /-- The return addresses are the same. -/
  returns : m.returns.Twin m'.returns
  /-- The addresses of the next instruction are the same. -/
  ip : m'.ip = m.ip
  /-- The counters are the same. -/
  statistics : m'.statistics = m.statistics
  /-- The machines accept the same opcodes. -/
  set : m'.set = m.set

namespace Action

variable {a r b q : Nat}

/-- Two machines that differ only in dead cells. -/
abbrev Twins (_ _ : Nat) (m m' : Machine) : Prop := m.Twin m'

theorem twins_continueAt (target : Cell) : Respects Twins a r b q (continueAt target) := by
  intro m m' h
  exact ⟨rfl, { h with ip := rfl }⟩

theorem twins_save (here target value : Cell) :
    Respects Twins a r b q (save here target value) := by
  intro m m' h
  rw [save, save]
  cases Memory.locate? target with
  | some i => exact ⟨rfl, { h with memory := by rw [h.memory] }⟩
  | none => exact ⟨rfl, h⟩

theorem twins_peek (here : Cell) (depth : Nat) : Respects Twins a r b q (peek here depth) := by
  intro m m' h
  rw [peek, peek, Stack.slot_of_top h.data.top]
  cases hslot : m.data.slot depth with
  | ok i =>
    refine ⟨?_, h⟩
    simpa using h.data.getElem? hslot
  | error miss => exact ⟨rfl, h⟩

theorem twins_poke (here : Cell) (depth : Nat) (value : Cell) :
    Respects Twins a r b q (poke here depth value) := by
  intro m m' h
  rw [poke, poke, Stack.slot_of_top h.data.top]
  cases m.data.slot depth with
  | ok i => exact ⟨rfl, { h with data := h.data.set i value }⟩
  | error miss => exact ⟨rfl, h⟩

theorem twins_push (here value : Cell) : Respects Twins a r b q (push here value) := by
  intro m m' h
  have hraise : m'.data.raise.slot 0 = m.data.raise.slot 0 := by
    apply Stack.slot_of_top
    rw [Stack.top_raise, Stack.top_raise, h.data.top]
  change Concur _ _ (poke here 0 value { m with data := m.data.raise })
    (poke here 0 value { m' with data := m'.data.raise })
  rw [poke, poke, hraise]
  cases hslot : m.data.raise.slot 0 with
  | ok i => exact ⟨rfl, { h with data := h.data.push hslot value }⟩
  | error miss => exact ⟨rfl, { h with data := h.data.raise hslot }⟩

theorem twins_lower : Respects Twins a r b q lower := by
  intro m m' h
  exact ⟨rfl, { h with data := h.data.lower }⟩

theorem twins_pointer : Respects Twins a r b q pointer := by
  intro m m' h
  exact ⟨h.data.top, h⟩

theorem twins_drop (here : Cell) : Respects Twins a r b q (drop here) := by
  refine (twins_pointer (b := 0) (q := 0)).bind fun top => Respects.ite (twins_continueAt _) ?_
  refine (twins_poke (b := 0) (q := 0) here 0 0).bind fun _ => ?_
  refine (twins_lower (b := 0) (q := 0)).bind fun _ => ?_
  exact Respects.ite (twins_continueAt _) fun m m' h => ⟨rfl, h⟩

theorem twins_peekReturn (here : Cell) : Respects Twins a r b q (peekReturn here) := by
  intro m m' h
  rw [peekReturn, peekReturn, Stack.slot_of_top h.returns.top]
  cases hslot : m.returns.slot 0 with
  | ok i =>
    refine ⟨?_, h⟩
    simpa using h.returns.getElem? hslot
  | error miss => exact ⟨rfl, h⟩

theorem twins_pushReturn (here value : Cell) :
    Respects Twins a r b q (pushReturn here value) := by
  intro m m' h
  have hraise : m'.returns.raise.slot 0 = m.returns.raise.slot 0 := by
    apply Stack.slot_of_top
    rw [Stack.top_raise, Stack.top_raise, h.returns.top]
  change Concur _ _ (pokeReturn here value { m with returns := m.returns.raise })
    (pokeReturn here value { m' with returns := m'.returns.raise })
  rw [pokeReturn, pokeReturn, hraise]
  cases hslot : m.returns.raise.slot 0 with
  | ok i => exact ⟨rfl, { h with returns := h.returns.push hslot value }⟩
  | error miss => exact ⟨rfl, { h with returns := h.returns.raise hslot }⟩

theorem twins_lowerReturn : Respects Twins a r b q lowerReturn := by
  intro m m' h
  exact ⟨rfl, { h with returns := h.returns.lower }⟩

end Action

/-- No part of an operation tells two machines apart that differ only in dead cells. -/
theorem Machine.likeness_twin : Likeness Twin where
  fewer h _ _ := h
  ip h := h.ip
  memory h := h.memory
  continueAt := Action.twins_continueAt
  save := Action.twins_save
  peek here depth _ := Action.twins_peek here depth
  poke here depth value _ := Action.twins_poke here depth value
  push := Action.twins_push
  drop := Action.twins_drop
  lower := Action.twins_lower
  set h := h.set
  counted op h := { h with
    statistics := by rw [counted, counted, h.statistics] }
  advanced h := { h with
    ip := by rw [advanced, advanced, h.ip]
    statistics := by rw [advanced, advanced, h.statistics, h.data.top, h.returns.top] }
  peekReturn := Action.twins_peekReturn
  pushReturn := Action.twins_pushReturn
  lowerReturn := Action.twins_lowerReturn
  install memory h := { h with memory := rfl }
  sp h := h.data.top
  rp h := h.returns.top
  total h := by rw [h.statistics]
  entries h := h.data.entries

/-- Two systems that differ only in dead cells give the same answers to every sequence of
operations, whatever those before came to. After it their hosts are the same, also hosts that keep a
record of every call, and the systems still differ only in dead cells. -/
theorem dead_cells_unobserved {δ : Type} [Host δ] {s t : System δ}
    (hmachine : s.machine.Twin t.machine) (hhost : s.host = t.host) (ops : List Operation) :
    (Operation.performAll ops s = none ∧ Operation.performAll ops t = none) ∨
      ∃ answers s' t', Operation.performAll ops s = some (answers, s') ∧
        Operation.performAll ops t = some (answers, t') ∧
        s'.machine.Twin t'.machine ∧ s'.host = t'.host ∧
        t'.machine.data.entries = s'.machine.data.entries ∧
        ∀ limit, t'.machine.data.trailing limit = s'.machine.data.trailing limit := by
  have hagree := Operation.performAll_of_alike Machine.likeness_twin Host.congruence_eq ops
    ⟨hmachine, hhost⟩
  rcases rel_cases hagree with hnone | ⟨⟨answers, s'⟩, ⟨answers', t'⟩, hs, ht, rfl, htwin, hsame⟩
  · exact .inl hnone
  · refine .inr ⟨_, s', t', hs, ht, htwin, hsame, htwin.data.entries, fun limit => ?_⟩
    rw [Stack.trailing, Stack.trailing, htwin.data.entries]

/-- A machine whose cells above the pointers are not zero pushes, emits and looks at its stack like
one whose cells are all zero, and makes the same calls. -/
theorem dead_cells_unobserved_of_push :
    ∃ s t : System (Recorder Script), s.machine.Twin t.machine ∧
      t.machine.data.cells ≠ s.machine.data.cells ∧
      t.machine.returns.cells ≠ s.machine.returns.cells ∧
      ∃ answers s' t', Operation.performAll [.step, .stack, .step, .stackTail 2] s =
          some (answers, s') ∧
        Operation.performAll [.step, .stack, .step, .stackTail 2] t = some (answers, t') ∧
        s'.machine.Twin t'.machine ∧ s'.host.calls = t'.host.calls := by
  obtain ⟨s, hs⟩ : ∃ s : System (Recorder Script), s =
    ⟨.loaded .base [1, 7, 28], { host := {} }⟩ := ⟨_, rfl⟩
  obtain ⟨t, ht⟩ : ∃ t : System (Recorder Script), t = ⟨{ Machine.loaded .base [1, 7, 28] with
      data := { cells := (Vector.replicate 32 5).set 0 0 }
      returns := { cells := (Vector.replicate 128 5).set 0 0 } }, { host := {} }⟩ := ⟨_, rfl⟩
  have htwin : s.machine.Twin t.machine := by
    rw [hs, ht]
    refine ⟨rfl, ⟨rfl, fun i hi => ?_⟩, ⟨rfl, fun i hi => ?_⟩, rfl, rfl, rfl⟩
    · obtain rfl : i = 0 := by simpa [Machine.loaded] using hi
      rfl
    · obtain rfl : i = 0 := by simpa [Machine.loaded] using hi
      rfl
  have hhost : s.host = t.host := by
    rw [hs, ht]
  refine ⟨s, t, htwin, ?_, ?_, ?_⟩
  · rw [hs, ht]
    decide
  · rw [hs, ht]
    decide
  · rcases dead_cells_unobserved htwin hhost [.step, .stack, .step, .stackTail 2] with
      ⟨hnone, _⟩ | ⟨answers, s', t', hfirst, hsecond, htwin', hhost', _⟩
    · simp [Operation.performAll, Operation.perform] at hnone
    · exact ⟨answers, s', t', hfirst, hsecond, htwin', by rw [hhost']⟩

end CellMachine
