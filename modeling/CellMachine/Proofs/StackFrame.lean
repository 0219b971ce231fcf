import CellMachine.Host.Script
import CellMachine.Proofs.Recorder
import CellMachine.Proofs.Runs

/-!
# Frames of the data stack

A program that never reaches down to a cell of the data stack, nor to any cell below it, neither
changes these cells nor depends on what and how many they are. Every instruction finds its operands
from the pointer downwards, and the two places where the position of the pointer itself matters, the
floor and the last cell, are out of its reach: the first because the program leaves a cell alone,
the second because there is room.
-/

namespace CellMachine

namespace Stack

variable {n : Nat} {base : Vector Cell n} {k k' : Nat} {s t : Stack n}

/-- Above its cell `k` a stack holds what another one holds above its cell `k'`, and up to its cell
`k` it holds what it held at first. -/
structure Aligned (base : Vector Cell n) (k k' : Nat) (s t : Stack n) : Prop where
  /-- The pointers are equally far above the frame. -/
  top : t.top - k' = s.top - k
  /-- The pointer lies inside the frame. -/
  inside : k ≤ s.top
  /-- The cells of the frame are the same. -/
  cells (i : Nat) : k < i → (i : Int) ≤ s.top → i < n → t.cells[i - k + k']? = s.cells[i]?
  /-- What lies below the frame has not changed. -/
  floor (i : Nat) : i ≤ k → s.cells[i]? = base[i]?

namespace Aligned

/-- Two operations that find a cell of the frame find the same one. -/
theorem slot (h : Aligned base k k' s t) (depth : Nat) (hdepth : k + depth < s.top)
    (hs : s.top < n) (ht : t.top < n) :
    ∃ i i' : Fin n, s.slot depth = .ok i ∧ t.slot depth = .ok i' ∧ k < i.val ∧
      (i : Int) ≤ s.top ∧ i'.val = i - k + k' := by
  have htop := h.top
  refine ⟨⟨(s.top - depth).toNat, by omega⟩, ⟨(t.top - depth).toNat, by omega⟩, ?_, ?_, ?_, ?_, ?_⟩
  · rw [slot_eq_ok_iff]
    simp only
    omega
  · rw [slot_eq_ok_iff]
    simp only
    omega
  · simp only
    omega
  · simp only
    omega
  · simp only
    omega

/-- A write to a cell of the frame. -/
theorem set (h : Aligned base k k' s t) {i i' : Fin n} (hi : k < i.val) (hi' : i'.val = i - k + k')
    (value : Cell) : Aligned base k k' (s.set i value) (t.set i' value) where
  top := h.top
  inside := h.inside
  cells j hj htop hin := by
    rw [Stack.set, Stack.set, Vector.getElem?_set, Vector.getElem?_set, h.cells j hj htop hin]
    by_cases heq : i.val = j
    · rw [if_pos (by omega), if_pos heq]
    · rw [if_neg (by omega), if_neg heq]
  floor j hj := by
    rw [Stack.set, Vector.getElem?_set, if_neg (by omega), h.floor j hj]

theorem lower (h : Aligned base k k' s t) (hdeep : k < s.top) :
    Aligned base k k' s.lower t.lower where
  top := by
    have htop := h.top
    rw [top_lower, top_lower]
    omega
  inside := by
    rw [top_lower]
    omega
  cells j hj hlow := by
    rw [top_lower] at hlow
    exact h.cells j hj (by omega)
  floor := h.floor

/-- A push puts the same value on top of both frames. -/
theorem push (h : Aligned base k k' s t) {i i' : Fin n} (hi : s.raise.slot 0 = .ok i)
    (hi' : t.raise.slot 0 = .ok i') (value : Cell) :
    Aligned base k k' (s.raise.set i value) (t.raise.set i' value) := by
  have htop := h.top
  have hinside := h.inside
  rw [slot_eq_ok_iff, top_raise] at hi hi'
  constructor
  · change t.top + 1 - k' = s.top + 1 - k
    omega
  · change (k : Int) ≤ s.top + 1
    omega
  · intro j hj hle hin
    have hle : (j : Int) ≤ s.top + 1 := hle
    rw [Stack.set, Stack.set, Vector.getElem?_set, Vector.getElem?_set, cells_raise, cells_raise]
    by_cases heq : i.val = j
    · rw [if_pos (by omega), if_pos heq]
    · rw [if_neg (by omega), if_neg heq]
      exact h.cells j hj (by omega) hin
  · intro j hj
    rw [Stack.set, Vector.getElem?_set, if_neg (by omega), cells_raise, h.floor j hj]

end Aligned

end Stack

/-- Two machines whose data stacks are the same above two frames, with operands and free cells. A
machine that needs neither may have its pointer anywhere above. -/
structure Machine.Aligned (base : Vector Cell 32) (k k' a r : Nat) (m m' : Machine) : Prop where
  /-- Code and data are the same. -/
  memory : m'.memory = m.memory
  /-- The return addresses are the same. -/
  returns : m'.returns = m.returns
  /-- The addresses of the next instruction are the same. -/
  ip : m'.ip = m.ip
  /-- The machines accept the same opcodes. -/
  set : m'.set = m.set
  /-- The operands are the same. -/
  data : m.data.Aligned base k k' m'.data
  /-- The operands lie above the frame. -/
  deep : (k : Int) + a ≤ m.data.top
  /-- There are as many free cells. -/
  room : 0 < a + r → m.data.top + r < 32 ∧ m'.data.top + r < 32

/-- Operands and free cells that are not needed do no harm. -/
theorem Machine.Aligned.fewer {base : Vector Cell 32} {k k' a r b q : Nat} {m m' : Machine}
    (h : Aligned base k k' a r m m') (hb : b ≤ a) (hq : q ≤ r) : Aligned base k k' b q m m' := by
  have hdeep := h.deep
  refine { h with deep := by omega, room := fun hsome => ?_ }
  have hroom := h.room (by omega)
  omega

namespace Action

variable {base : Vector Cell 32} {k k' a r : Nat}

theorem aligned_save (here target value : Cell) :
    Respects (Machine.Aligned base k k') a r a r (save here target value) := by
  intro m m' h
  rw [save, save]
  cases Memory.locate? target with
  | some i => exact ⟨rfl, { h with memory := by rw [h.memory] }⟩
  | none => exact ⟨rfl, h.fewer (Nat.zero_le a) (Nat.zero_le r)⟩

theorem aligned_peekReturn (here : Cell) :
    Respects (Machine.Aligned base k k') a r a r (peekReturn here) := by
  intro m m' h
  rw [peekReturn, peekReturn, h.returns]
  cases m.returns.slot 0 with
  | ok i => exact ⟨rfl, h⟩
  | error miss => exact ⟨rfl, h.fewer (Nat.zero_le a) (Nat.zero_le r)⟩

theorem aligned_pushReturn (here value : Cell) :
    Respects (Machine.Aligned base k k') a r a r (pushReturn here value) := by
  intro m m' h
  change Concur _ _ (pokeReturn here value { m with returns := m.returns.raise })
    (pokeReturn here value { m' with returns := m'.returns.raise })
  rw [pokeReturn, pokeReturn, h.returns]
  have hraised : Machine.Aligned base k k' a r { m with returns := m.returns.raise }
      { m' with returns := m.returns.raise } := { h with returns := rfl }
  cases m.returns.raise.slot 0 with
  | ok i => exact ⟨rfl, { hraised with returns := rfl }⟩
  | error miss => exact ⟨rfl, hraised.fewer (Nat.zero_le a) (Nat.zero_le r)⟩

theorem aligned_peek (here : Cell) {depth : Nat} (hdepth : depth < a) :
    Respects (Machine.Aligned base k k') a r a r (peek here depth) := by
  intro m m' h
  have hdeep := h.deep
  obtain ⟨hroom, hroom'⟩ := h.room (by omega)
  obtain ⟨i, i', hslot, hslot', hi, htop, hi'⟩ :=
    h.data.slot depth (by omega) (by omega) (by omega)
  rw [peek, peek, hslot, hslot']
  refine ⟨?_, h⟩
  have hcell := h.data.cells i hi htop i.isLt
  rw [← hi'] at hcell
  simpa using hcell

theorem aligned_poke (here : Cell) {depth : Nat} (value : Cell) (hdepth : depth < a) :
    Respects (Machine.Aligned base k k') a r a r (poke here depth value) := by
  intro m m' h
  have hdeep := h.deep
  obtain ⟨hroom, hroom'⟩ := h.room (by omega)
  obtain ⟨i, i', hslot, hslot', hi, _, hi'⟩ :=
    h.data.slot depth (by omega) (by omega) (by omega)
  rw [poke, poke, hslot, hslot']
  exact ⟨rfl, { h with data := h.data.set hi hi' value }⟩

theorem aligned_push (here value : Cell) :
    Respects (Machine.Aligned base k k') a (r + 1) (a + 1) r (push here value) := by
  intro m m' h
  have htop := h.data.top
  have hinside := h.data.inside
  have hdeep := h.deep
  obtain ⟨hroom, hroom'⟩ := h.room (by omega)
  have hslot : m.data.raise.slot 0 = .ok ⟨(m.data.top + 1).toNat, by omega⟩ := by
    rw [Stack.slot_eq_ok_iff, Stack.top_raise]
    simp only
    omega
  have hslot' : m'.data.raise.slot 0 = .ok ⟨(m'.data.top + 1).toNat, by omega⟩ := by
    rw [Stack.slot_eq_ok_iff, Stack.top_raise]
    simp only
    omega
  change Concur _ _ (poke here 0 value { m with data := m.data.raise })
    (poke here 0 value { m' with data := m'.data.raise })
  rw [poke, poke, hslot, hslot']
  refine ⟨rfl, { h with data := h.data.push hslot hslot' value, deep := ?_, room := fun _ => ?_ }⟩
  · change (k : Int) + (a + 1 : Nat) ≤ m.data.top + 1
    omega
  · change m.data.top + 1 + r < 32 ∧ m'.data.top + 1 + r < 32
    omega

theorem aligned_lower : Respects (Machine.Aligned base k k') (a + 1) r a r lower := by
  intro m m' h
  have hdeep := h.deep
  obtain ⟨hroom, hroom'⟩ := h.room (by omega)
  refine ⟨rfl, { h with data := h.data.lower (by omega), deep := ?_, room := fun _ => ?_ }⟩
  · change (k : Int) + a ≤ m.data.top - 1
    omega
  · change m.data.top - 1 + r < 32 ∧ m'.data.top - 1 + r < 32
    omega

/-- A drop that does not come to the floor is a write and a move. -/
theorem drop_above_floor {here : Cell} {m : Machine} (htop : 0 < m.data.top) :
    drop here m = (poke here 0 0 >>= fun _ => lower) m := by
  change (if m.data.top < 0 then halt else do
    poke here 0 0
    lower
    if m.data.top = 0 then halt) m = _
  rw [if_neg (by omega), if_neg (by omega), bind_pure_unit]

/-- The frame lies above a cell, so that its drops do not come to the floor. -/
theorem aligned_drop (here : Cell) :
    Respects (Machine.Aligned base k k') (a + 1) r a r (drop here) := by
  intro m m' h
  have hdeep := h.deep
  have htop := h.data.top
  rw [drop_above_floor (by omega), drop_above_floor (by omega)]
  exact ((aligned_poke here 0 (Nat.succ_pos a)).bind fun _ => aligned_lower) m m' h

end Action

/-- No part of an instruction depends on where its frame of the data stack lies. -/
theorem Machine.congruence_aligned (base : Vector Cell 32) (k k' : Nat) :
    FullCongruence (Aligned base k k') where
  fewer h := h.fewer
  ip h := h.ip
  memory h := h.memory
  continueAt target m m' h := ⟨rfl, { h with ip := rfl }⟩
  save := Action.aligned_save
  peek := Action.aligned_peek
  poke := Action.aligned_poke
  push := Action.aligned_push
  drop := Action.aligned_drop
  lower := Action.aligned_lower
  counted op h := { h with }
  advanced h := { h with ip := by rw [ip_advanced, ip_advanced, h.ip] }
  peekReturn := Action.aligned_peekReturn
  pushReturn := Action.aligned_pushReturn
  lowerReturn m m' h := ⟨rfl, { h with returns := by rw [h.returns] }⟩

/-! ## What an instruction needs of the data stack -/

theorem Opcode.growth_le_one (op : Opcode) : op.growth ≤ 1 := by
  cases op <;> decide

/-- An opcode that ends well has found its operands, and room for what it adds. -/
structure Opcode.Fits (op : Opcode) (m m' : Machine) : Prop where
  /-- The operands lie in the stack. -/
  found : 0 < op.operands → m.data.top < 32
  /-- A cell has been added. -/
  grown : op.growth = 1 → m.data.top < 31 ∧ m'.data.top = m.data.top + 1

theorem Opcode.Fits.room {op : Opcode} {m m' : Machine} (h : op.Fits m m')
    (hsome : 0 < op.operands + op.growth) : m.data.top + op.growth < 32 := by
  have hsmall := op.growth_le_one
  by_cases hgrown : op.growth = 1
  · have hless := (h.grown hgrown).1
    omega
  · have hless := h.found (by omega)
    omega

namespace Action

variable {α β : Type} {here : Cell}

/-- What ends well has left the data stack as it was. -/
def KeepsData (x : Action α) : Prop :=
  ∀ m, Yields (x m) (fun _ m' => m'.data = m.data) (fun _ _ => True)

/-- What ends well started with the pointer in the stack, or below it. -/
def NeedsTop (x : Action α) : Prop :=
  ∀ m, Yields (x m) (fun _ _ => m.data.top < 32) (fun _ _ => True)

/-- What ends well has added a cell to the data stack. -/
def Grows (x : Action α) : Prop :=
  ∀ m, Yields (x m) (fun _ m' => m.data.top < 31 ∧ m'.data.top = m.data.top + 1) (fun _ _ => True)

theorem KeepsData.needsTop {x : Action α} {f : α → Action β} (hx : KeepsData x)
    (hf : ∀ a, NeedsTop (f a)) : NeedsTop (x >>= f) := by
  intro m
  rw [yields_bind]
  refine (hx m).imp (fun a m' hdata => ?_) (fun _ _ _ => trivial)
  rw [← hdata]
  exact hf a m'

theorem KeepsData.grows {x : Action α} {f : α → Action β} (hx : KeepsData x)
    (hf : ∀ a, Grows (f a)) : Grows (x >>= f) := by
  intro m
  rw [yields_bind]
  refine (hx m).imp (fun a m' hdata => ?_) (fun _ _ _ => trivial)
  rw [← hdata]
  exact hf a m'

theorem NeedsTop.bind {x : Action α} (hx : NeedsTop x) (f : α → Action β) :
    NeedsTop (x >>= f) := by
  intro m
  rw [yields_bind]
  refine (hx m).imp (fun _ _ htop => ?_) (fun _ _ _ => trivial)
  exact .of_forall (fun _ _ => htop) (fun _ _ => trivial)

theorem Grows.bind {x : Action α} {f : α → Action β} (hx : Grows x) (hf : ∀ a, KeepsData (f a)) :
    Grows (x >>= f) := by
  intro m
  rw [yields_bind]
  refine (hx m).imp (fun a m' hgrown => ?_) (fun _ _ _ => trivial)
  refine (hf a m').imp (fun _ m'' hdata => ?_) (fun _ _ _ => trivial)
  rw [hdata]
  exact hgrown

theorem keepsData_peek (depth : Nat) : KeepsData (peek here depth) := by
  intro m
  rw [yields_peek]
  exact ⟨fun _ => trivial, fun _ _ => rfl, fun _ => trivial⟩

theorem keepsData_load (target : Cell) : KeepsData (load here target) := by
  intro m
  rw [yields_load]
  exact ⟨fun _ _ => rfl, fun _ => trivial⟩

theorem keepsData_peekReturn : KeepsData (peekReturn here) := by
  intro m
  rw [yields_peekReturn]
  exact ⟨fun _ => trivial, fun _ _ => rfl, fun _ => trivial⟩

theorem keepsData_pushReturn (value : Cell) : KeepsData (pushReturn here value) := by
  intro m
  rw [yields_pushReturn]
  exact ⟨fun _ => trivial, fun _ _ => rfl, fun _ => trivial⟩

theorem needsTop_peek : NeedsTop (peek here 0) := by
  intro m
  rw [yields_peek]
  refine ⟨fun _ => trivial, fun _ htop => ?_, fun _ => trivial⟩
  simpa using htop

theorem needsTop_drop : NeedsTop (drop here) := by
  intro m
  rw [yields_drop]
  exact ⟨fun hneg => by omega, fun _ htop => htop, fun _ => trivial⟩

theorem grows_push (value : Cell) : Grows (push here value) := by
  intro m
  rw [yields_push]
  refine ⟨fun _ => trivial, fun _ hroom => ⟨by omega, rfl⟩, fun _ => trivial⟩

theorem needsTop_combine {f : Cell → Cell → Cell} : NeedsTop (combine here f) :=
  (keepsData_peek 1).needsTop fun _ => needsTop_peek.bind _

theorem needsTop_remember {f : Unit → Action α} (hf : ∀ u, NeedsTop (f u)) :
    NeedsTop (address >>= fun origin => pushReturn here origin >>= f) := by
  have haddress : KeepsData address := fun m => yields_address.mpr rfl
  exact haddress.needsTop fun origin => (keepsData_pushReturn origin).needsTop hf

theorem grows_literal : Grows (literal here) := by
  have hadvance : KeepsData advance := fun m => yields_advance.mpr rfl
  have haddress : KeepsData address := fun m => yields_address.mpr rfl
  refine hadvance.grows fun _ => haddress.grows fun target => ?_
  exact (keepsData_load target).grows fun value => grows_push value

theorem grows_fromReturns : Grows (fromReturns here) := by
  have hlower : KeepsData lowerReturn := fun m => yields_lowerReturn.mpr rfl
  exact keepsData_peekReturn.grows fun value => (grows_push value).bind fun _ => hlower

end Action

namespace Opcode

variable {op : Opcode} {here : Cell} {x : Action Unit}

theorem fits_of_needsTop (hgrowth : op.growth = 0) (hx : Action.NeedsTop x) (m : Machine) :
    Yields (x m) (fun _ m' => op.Fits m m') (fun _ _ => True) := by
  refine (hx m).imp (fun _ m' htop => ⟨fun _ => htop, fun hgrown => ?_⟩) (fun _ _ _ => trivial)
  omega

theorem fits_of_grows (hx : Action.Grows x) (m : Machine) :
    Yields (x m) (fun _ m' => op.Fits m m') (fun _ _ => True) := by
  refine (hx m).imp (fun _ m' hgrown => ⟨fun _ => ?_, fun _ => hgrown⟩) (fun _ _ _ => trivial)
  omega

theorem fits_of_free (hoperands : op.operands = 0) (hgrowth : op.growth = 0) (m : Machine) :
    Yields (x m) (fun _ m' => op.Fits m m') (fun _ _ => True) := by
  refine .of_forall (fun _ m' => ⟨fun hsome => ?_, fun hgrown => ?_⟩) (fun _ _ => trivial)
  · omega
  · omega

/-- Every opcode that asks nothing of the host finds what it needs, if it ends well. -/
theorem fits_action (hop : op.action? here = some x) (m : Machine) :
    Yields (x m) (fun _ m' => op.Fits m m') (fun _ _ => True) := by
  cases op, x, hop using Opcode.action?_cases with
  | operator op f hf =>
    refine fits_of_needsTop ?_ Action.needsTop_combine m
    cases op <;> first | rfl | simp [operator?] at hf
  | nop | ret | stop => exact fits_of_free rfl rfl m
  | lit => exact fits_of_grows Action.grows_literal m
  | dup =>
    exact fits_of_grows ((Action.keepsData_peek 0).grows fun v => Action.grows_push v) m
  | pop => exact fits_of_grows Action.grows_fromReturns m
  | drop => exact fits_of_needsTop rfl Action.needsTop_drop m
  | swap | push | jump | fetch | store | divmod | zret =>
    exact fits_of_needsTop rfl (Action.needsTop_peek.bind _) m
  | call =>
    exact fits_of_needsTop rfl
      (Action.needsTop_remember fun _ => Action.needsTop_peek.bind _) m
  | ccall =>
    exact fits_of_needsTop rfl
      (Action.needsTop_remember fun _ => (Action.needsTop_peek.bind _).bind _) m

end Opcode

/-- The devices of two hosts that are alike do the same, whatever the hosts take note of. -/
structure Host.Apart {δ : Type} [Host δ] (alike : δ → δ → Prop) : Prop
    extends Host.Congruence alike where
  notes {g h : δ} (event event' : Log.Event) :
    alike g h → alike (Host.note event g) (Host.note event' h)

/-- Two recorders have the same record, and their hosts are alike. -/
def Recorder.Alike {δ : Type} (alike : δ → δ → Prop) (q r : Recorder δ) : Prop :=
  r.calls = q.calls ∧ alike q.host r.host

theorem Recorder.Alike.record {δ α : Type} {alike : δ → δ → Prop} {q r : Recorder δ}
    (h : Alike alike q r) (call : Except IoError α → Call) {use : EStateM IoError δ α}
    (huse : Concur alike alike (use q.host) (use r.host)) :
    Concur (Alike alike) (Alike alike) (record call use q) (record call use r) := by
  rcases huse.cases with ⟨a, g, g', hq, hr, halike⟩ | ⟨cause, g, g', hq, hr, halike⟩
  · simp only [Recorder.record, hq, hr, h.1]
    exact ⟨rfl, rfl, halike⟩
  · simp only [Recorder.record, hq, hr, h.1]
    exact ⟨rfl, rfl, halike⟩

/-- Recorders of hosts that are alike make the same record. -/
theorem Recorder.apart {δ : Type} [Host δ] {alike : δ → δ → Prop} (halike : Host.Apart alike) :
    Host.Apart (Alike alike) where
  read h := h.record Call.read (halike.read h.2)
  put byte h := h.record (Call.put byte) (halike.put byte h.2)
  flush h := h.record Call.flush (halike.flush h.2)
  note event h := ⟨h.1, halike.note event h.2⟩
  notes event event' h := ⟨h.1, halike.notes event event' h.2⟩

/-- The data stack of the second machine is any cells up to cell `k'`, followed by the cells of the
first one above its cell `k`. Otherwise the two are the same machine. -/
structure Machine.Shifted (k k' : Nat) (m m' : Machine) : Prop where
  /-- Code and data are the same. -/
  memory : m'.memory = m.memory
  /-- The return addresses are the same. -/
  returns : m'.returns = m.returns
  /-- The addresses of the next instruction are the same. -/
  ip : m'.ip = m.ip
  /-- The machines accept the same opcodes. -/
  set : m'.set = m.set
  /-- There are as many cells above. -/
  top : m'.data.top = k' + max 0 (m.data.top - k)
  /-- The cells above are the same. -/
  cells (i : Nat) : k < i → (i : Int) ≤ m.data.top → i < 32 →
    m'.data.cells[i - k + k']? = m.data.cells[i]?

namespace Machine

variable {k k' a r : Nat} {base : Vector Cell 32} {m m' : Machine}

/-- A machine is shifted, and what lies below its frame has not changed. -/
def Framed (base : Vector Cell 32) (k k' : Nat) (m m' : Machine) : Prop :=
  m.Shifted k k' m' ∧ ∀ j ≤ k, m.data.cells[j]? = base[j]?

theorem Shifted.aligned (h : m.Shifted k k' m') (hdeep : (k : Int) + a ≤ m.data.top)
    (hroom : 0 < a + r → m.data.top + r < 32 ∧ m'.data.top + r < 32) :
    Aligned m.data.cells k k' a r m m' := by
  have htop := h.top
  exact { h with
    data := ⟨by omega, by omega, h.cells, fun _ _ => rfl⟩
    deep := hdeep
    room := hroom }

theorem Aligned.shifted (h : Aligned base k k' a r m m') : m.Shifted k k' m' := by
  have htop := h.data.top
  have hinside := h.data.inside
  exact { h with top := by omega, cells := h.data.cells }

theorem Shifted.next? (h : m.Shifted k k' m') : m'.next? = m.next? := by
  rw [Machine.next?, Machine.next?, h.memory, h.ip, h.set]

end Machine

namespace Session

variable {δ : Type} [Host δ] {k k' : Nat}

/-- Every instruction finds what it needs, if it ends well. -/
theorem yields_execute_fits {here : Cell} {op : Opcode} {m : Machine} {host : δ} :
    Yields (execute here op ⟨m, host⟩) (fun _ s' => op.Fits m s'.machine) (fun _ _ => True) := by
  have hinput : Yields ((do let value ← read; Action.push here value : Session δ Unit) ⟨m, host⟩)
      (fun _ s' => op.Fits m s'.machine) (fun _ _ => True) := by
    simp only [yields_bind, yields_read, yields_liftM]
    refine .of_forall (fun _ _ => .of_forall (fun _ _ => ?_) fun _ _ => trivial) fun _ _ => trivial
    exact Opcode.fits_of_grows (Action.grows_push _) m
  have hemit : ∀ {done : Unit → System δ → Prop}, (∀ h, m.data.top < 32 → done () ⟨m, h⟩) →
      Yields (emit here ⟨m, host⟩) done (fun _ _ => True) := by
    intro done hdone
    rw [yields_emit]
    refine ⟨fun _ => trivial, fun _ htop => ?_, fun _ => trivial⟩
    exact .of_forall (fun _ h => hdone h htop) fun _ _ => trivial
  cases hop : op.action? here with
  | some x =>
    rw [execute_action hop, yields_liftM]
    exact Opcode.fits_action hop m
  | none =>
    rcases Opcode.action?_eq_none hop with rfl | rfl | rfl | rfl | rfl
    · exact hinput
    · exact hinput
    · rw [execute, yields_bind]
      exact hemit fun h htop => ⟨fun _ => htop, fun hgrown => by simp [Opcode.growth] at hgrown⟩
    · exact hemit fun h htop => ⟨fun _ => htop, fun hgrown => by simp [Opcode.growth] at hgrown⟩
    · constructor
      · simp [Opcode.operands]
      · simp [Opcode.growth]

theorem fits_of_step {s s' : System δ} {op : Opcode} {status : Status}
    (hstep : step s = .ok status s') (hnext : s.machine.next? = some op) :
    op.Fits s.machine s'.machine := by
  have hfits : Yields (step s) (fun _ s' => op.Fits s.machine s'.machine) (fun _ _ => True) := by
    rw [yields_step_of_next hnext]
    refine yields_execute_fits.imp (fun _ t hfits => ⟨hfits.found, hfits.grown⟩) ?_
    exact fun _ _ _ => trivial
  exact hfits.of_ok hstep

/-- A step that ends well above a frame ends well above another one, if there is room. It does the
same there, and it changes nothing below the frame. -/
theorem step_of_shifted {H : δ → δ → Prop} (hH : Host.Congruence H) {s t s' : System δ}
    {status : Status} (hstep : step s = .ok status s')
    (hshifted : s.machine.Shifted k k' t.machine) (hhost : H s.host t.host)
    (hnote : ∀ op, H (s.noted op) (t.noted op))
    (hdeep : ∀ op, s.machine.next? = some op → (k : Int) + op.operands ≤ s.machine.sp)
    (hroom : ∀ op, s.machine.next? = some op → 0 < op.operands + op.growth →
      t.machine.sp + op.growth < 32) :
    ∃ t', step t = .ok status t' ∧ s'.machine.Shifted k k' t'.machine ∧ H s'.host t'.host ∧
      ∀ j ≤ k, s'.machine.data.cells[j]? = s.machine.data.cells[j]? := by
  have hconcur : Concur (Paired (Machine.Framed s.machine.data.cells k k') H) (fun _ _ => True)
      (step s) (step t) := by
    refine concur_step hshifted.ip hshifted.memory (fun _ _ => by rw [hshifted.set])
      ⟨⟨hshifted, fun _ _ => rfl⟩, hhost⟩ trivial fun op hnext => ?_
    have hfits := fits_of_step hstep hnext
    have haligned : Machine.Aligned s.machine.data.cells k k' op.operands op.growth s.machine
        t.machine :=
      hshifted.aligned (hdeep op hnext) fun hsome => ⟨hfits.room hsome, hroom op hnext hsome⟩
    have hnoted := hnote op
    rw [System.noted, System.noted, hshifted.ip] at hnoted
    refine (concur_dispatch (Machine.congruence_aligned s.machine.data.cells k k') (hH.passage op)
      haligned hnoted).imp (fun s' t' hdone => ?_) (fun _ _ _ => trivial)
    exact ⟨⟨hdone.1.shifted, hdone.1.data.floor⟩, hdone.2⟩
  rcases hconcur.cases with ⟨_, _, t', hs, ht, hframed, hhosts⟩ | ⟨_, _, _, hs, _⟩
  · rw [hstep] at hs
    obtain ⟨rfl, rfl⟩ := EStateM.Result.ok.inj hs
    exact ⟨t', ht, hframed.1, hhosts, hframed.2⟩
  · rw [hstep] at hs
    simp at hs

end Session

section Frames

variable {δ : Type} [Host δ] {s : System δ} {n k : Nat}

/-- The steps of a run leave the cells alone that lie below all their operands. -/
theorem floor_of_succeeds (hruns : s.Succeeds n)
    (hdeep : ∀ i < n, ∀ op, (s.after i).machine.next? = some op →
      (k : Int) + op.operands ≤ (s.after i).machine.sp) {i : Nat} (hi : i ≤ n) {j : Nat}
    (hj : j ≤ k) : (s.after i).machine.data.cells[j]? = s.machine.data.cells[j]? := by
  induction i with
  | zero => rfl
  | succ i ih =>
    obtain ⟨status, hstep⟩ := hruns.step hi
    rw [← ih (by omega)]
    cases hnext : (s.after i).machine.next? with
    | none => rw [Session.eq_of_step_of_none hstep hnext]
    | some op =>
      -- The step is the same above its own frame, where there is room because it ends well.
      have htop := hdeep i hi op hnext
      have hself : (s.after i).machine.Shifted k k (s.after i).machine := by
        refine ⟨rfl, rfl, rfl, rfl, ?_, fun l hl _ _ => ?_⟩
        · simp only [Machine.sp] at htop
          omega
        · rw [Nat.sub_add_cancel (by omega)]
      obtain ⟨_, _, _, _, hfloor⟩ := Session.step_of_shifted Host.congruence_eq hstep hself rfl
        (fun _ => rfl) (hdeep i hi) fun op' hop' => (Session.fits_of_step hstep hop').room
      exact hfloor j hj

/-- Two runs above two frames go on side by side: what the first one does, the second one does, and
the frames stay the same. -/
theorem follows_of_shifted {H : δ → δ → Prop} (hH : Host.Apart H) {k' : Nat} {t : System δ}
    (hruns : s.Succeeds n)
    (hdeep : ∀ i < n, ∀ op, (s.after i).machine.next? = some op →
      (k : Int) + op.operands ≤ (s.after i).machine.sp)
    (hshifted : s.machine.Shifted k k' t.machine) (hhost : H s.host t.host)
    (hroom : ∀ i ≤ n, (k' : Int) + ((s.after i).machine.sp - k) ≤ 31) {i : Nat} (hi : i ≤ n) :
    (∀ l < i, ∃ status, Session.step (s.after l) = .ok status (s.after (l + 1)) ∧
      Session.step (t.after l) = .ok status (t.after (l + 1))) ∧
      (s.after i).machine.Shifted k k' (t.after i).machine ∧
      H (s.after i).host (t.after i).host := by
  induction i with
  | zero => exact ⟨fun l hl => absurd hl (Nat.not_lt_zero l), hshifted, hhost⟩
  | succ i ih =>
    obtain ⟨hbefore, hshifted, hhost⟩ := ih (by omega)
    obtain ⟨status, hstep⟩ := hruns.step hi
    have hfree : ∀ op, (s.after i).machine.next? = some op → 0 < op.operands + op.growth →
        (t.after i).machine.sp + op.growth < 32 := by
      intro op hnext hsome
      have htop := hshifted.top
      have hinside := hdeep i hi op hnext
      have hnow := hroom i (by omega)
      have hthen := hroom (i + 1) hi
      have hgrown := (Session.fits_of_step hstep hnext).grown
      have hsmall := op.growth_le_one
      simp only [Machine.sp] at hinside hnow hthen ⊢
      omega
    obtain ⟨t', ht, hshifted', hhost', _⟩ := Session.step_of_shifted hH.toCongruence hstep hshifted
      hhost (fun _ => hH.notes _ _ hhost) (hdeep i hi) hfree
    have hafter : t.after (i + 1) = t' := System.after_succ_of_ok ht
    rw [hafter]
    refine ⟨fun l hl => ?_, hshifted', hhost'⟩
    rcases Nat.lt_succ_iff_lt_or_eq.mp hl with hlt | rfl
    · exact hbefore l hlt
    · rw [hafter]
      exact ⟨status, hstep, ht⟩

end Frames

/-- A run whose steps end well and leave the cells up to cell `k` alone, because all operands lie
above it, does not change these cells. Neither does it depend on them: above any other cells, with
room for what it pushes, every step gives the same status, dispatches the same opcode, makes the
same calls, and leaves the same machine behind but for the cells below. -/
theorem stack_depth_independence {δ : Type} [Host δ] {alike : δ → δ → Prop}
    (halike : Host.Apart alike) {s : System (Recorder δ)} {n k : Nat} (hruns : s.Succeeds n)
    (hdeep : ∀ i < n, ∀ op, (s.after i).machine.next? = some op →
      (k : Int) + op.operands ≤ (s.after i).machine.sp) :
    (∀ i ≤ n, ∀ j ≤ k, (s.after i).machine.data.cells[j]? = s.machine.data.cells[j]?) ∧
      ∀ (k' : Nat) (t : System (Recorder δ)), s.machine.Shifted k k' t.machine →
        t.host.calls = s.host.calls → alike s.host.host t.host.host →
        (∀ i ≤ n, (k' : Int) + ((s.after i).machine.sp - k) ≤ 31) →
        (∀ i < n, ∃ status, Session.step (s.after i) = .ok status (s.after (i + 1)) ∧
          Session.step (t.after i) = .ok status (t.after (i + 1))) ∧
        ∀ i ≤ n, (s.after i).machine.Shifted k k' (t.after i).machine ∧
          (t.after i).machine.next? = (s.after i).machine.next? ∧
          (t.after i).host.calls = (s.after i).host.calls ∧
          alike (s.after i).host.host (t.after i).host.host := by
  constructor
  · intro i hi j hj
    exact floor_of_succeeds hruns hdeep hi hj
  · intro k' t hshifted hcalls hhosts hroom
    have hfollows := fun {i : Nat} (hi : i ≤ n) => follows_of_shifted (Recorder.apart halike) hruns
      hdeep hshifted ⟨hcalls, hhosts⟩ hroom hi
    refine ⟨(hfollows (Nat.le_refl n)).1, fun i hi => ?_⟩
    obtain ⟨_, hshifted', hcalls', hhosts'⟩ := hfollows hi
    exact ⟨hshifted', hshifted'.next?, hcalls', hhosts'⟩

/-- A program that pushes a value and duplicates it does so above one cell and above four. -/
theorem stack_depth_independence_of_duplicate :
    ∃ s t : System (Recorder Script), s.machine.Shifted 0 3 t.machine ∧
      s.machine.data.cells ≠ t.machine.data.cells ∧ s.machine.sp = 0 ∧ (s.after 2).machine.sp = 2 ∧
      t.Succeeds 2 ∧ (s.after 2).machine.Shifted 0 3 (t.after 2).machine ∧
      (t.after 2).host.calls = (s.after 2).host.calls := by
  obtain ⟨s, hs⟩ : ∃ s : System (Recorder Script), s =
    ⟨.loaded .base [1, 7, 2], { host := {} }⟩ := ⟨_, rfl⟩
  obtain ⟨t, ht⟩ : ∃ t : System (Recorder Script), t = ⟨{ Machine.loaded .base [1, 7, 2] with
      data := { cells := Vector.replicate 32 5, top := 3 } }, { host := {} }⟩ := ⟨_, rfl⟩
  have hmemory : s.machine.memory = Memory.blank.write 0 [1, 7, 2] := by
    rw [hs]
    rfl
  have hset : s.machine.set = .base := by
    rw [hs]
    rfl
  have hip : s.machine.ip = 0 := by
    rw [hs]
    rfl
  have hsp : s.machine.data.top = 0 := by
    rw [hs]
    rfl
  have hrp : s.machine.returns.top = 0 := by
    rw [hs]
    rfl
  have hlit : s.machine.next? = some .lit :=
    Machine.next?_of_write (i := 0) hmemory hip rfl (by omega) (hset ▸ rfl)
  have hfirst : Yields (Session.step s)
      (fun _ s' => s'.machine.memory = Memory.blank.write 0 [1, 7, 2] ∧ s'.machine.set = .base ∧
        s'.machine.ip = 2 ∧ s'.machine.data.top = 1) (fun _ _ => False) := by
    have hgrounded : (s.machine.counted .lit).Grounded := by
      constructor <;> simp [hsp, hrp]
    have hvalue : (Memory.blank.write 0 [1, 7, 2]).get? 1 = some 7 :=
      Memory.get?_write Memory.blank (i := 1) rfl (by omega)
    rw [Session.yields_step_of_next hlit]
    refine Session.yields_liftM.mpr ((Action.yields_literal hgrounded).mpr ?_)
    simp [hvalue, hsp, hip, hmemory, hset]
  obtain ⟨_, s', hok, hmemory', hset', hip', hsp'⟩ := hfirst.exists_ok
  have hafter : s.after 1 = s' := System.after_succ_of_ok (n := 0) hok
  have hdup : s'.machine.next? = some .dup :=
    Machine.next?_of_write (i := 2) hmemory' hip' rfl (by omega) (hset' ▸ rfl)
  have hsecond : Yields (Session.step s') (fun _ t => t.machine.data.top = 2)
      (fun _ _ => False) := by
    rw [Session.yields_step_of_next hdup]
    refine Session.yields_liftM.mpr (Action.yields_duplicate.mpr ?_)
    simp [hsp']
  obtain ⟨_, s'', hok', hsp''⟩ := hsecond.exists_ok
  rw [← hafter] at hok' hsp' hdup
  have hend : s.after 2 = s'' := System.after_succ_of_ok hok'
  rw [← hend] at hsp''
  have hruns : s.Succeeds 2 := by
    have hnone : s.Succeeds 0 := fun _ hi => absurd hi (Nat.not_lt_zero _)
    exact (hnone.succ hok).succ hok'
  have hshifted : s.machine.Shifted 0 3 t.machine := by
    rw [hs, ht]
    refine ⟨rfl, rfl, rfl, rfl, rfl, fun i hi hle _ => ?_⟩
    simp only [Machine.loaded] at hle
    omega
  have halike : Host.Apart (Eq : Script → Script → Prop) :=
    { Host.congruence_eq with notes := fun _ _ h => h }
  have hdeep : ∀ i < 2, ∀ op, (s.after i).machine.next? = some op →
      ((0 : Nat) : Int) + op.operands ≤ (s.after i).machine.sp := by
    intro i hi op hop
    obtain rfl | rfl : i = 0 ∨ i = 1 := by omega
    · rw [System.after_zero, hlit, Option.some.injEq] at hop
      subst hop
      exact Int.le_of_eq hsp.symm
    · rw [hdup, Option.some.injEq] at hop
      subst hop
      exact Int.le_of_eq hsp'.symm
  have hroom : ∀ i ≤ 2, ((3 : Nat) : Int) + ((s.after i).machine.sp - (0 : Nat)) ≤ 31 := by
    intro i hi
    obtain rfl | rfl | rfl : i = 0 ∨ i = 1 ∨ i = 2 := by omega
    · simp [Machine.sp, hsp]
    · simp [Machine.sp, hsp']
    · simp [Machine.sp, hsp'']
  obtain ⟨hsteps, hfollows⟩ := (stack_depth_independence halike hruns hdeep).2 3 t hshifted
    (by rw [hs, ht]) (by rw [hs, ht]) hroom
  obtain ⟨hshifted', _, hcalls, _⟩ := hfollows 2 (Nat.le_refl 2)
  refine ⟨s, t, hshifted, ?_, hsp, hsp'', ?_, hshifted', hcalls⟩
  · rw [hs, ht]
    decide
  · intro i hi
    obtain ⟨_, _, hstep⟩ := hsteps i hi
    rw [hstep, faultOf?]

end CellMachine
