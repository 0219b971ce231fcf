import CellMachine.Host.Script
import CellMachine.Proofs.Addresses
import CellMachine.Proofs.Bounds
import CellMachine.Proofs.GuardedMachine

/-!
# The guards hold

No guard of the guarded machine ever fails, as long as the overflows of a stack are too few to take
its pointer out of the range of a cell. The guards of memory and of the inspection of the data stack
hold on any machine. Those of an instruction hold where the stack pointers can move, and the bound
along histories says that they can.
-/

namespace CellMachine

/-- A guarded operation has the result of the operation without guards. -/
def Agrees {σ α : Type} (g : Guarded σ α) (x : EStateM Fault σ α) (s : σ) : Prop :=
  g s = .ok (x s)

namespace Guarded

/-! ## Memory -/

variable {memory : Memory} {address value : Cell}

theorem cut_eq_ok {cells : List Cell} {first last : Nat} (hfirst : first ≤ last)
    (hlast : last ≤ cells.length) :
    cut cells first last = .ok ((cells.drop first).take (last - first)) := by
  rw [cut, if_pos ⟨hfirst, hlast⟩, List.drop_take]

/-- A window lies between two ends that are in order and in memory. -/
theorem window_eq (start length : Nat) :
    window memory start length = .ok (memory.slice start length) := by
  have hlength : memory.cells.toList.length = 262144 := Vector.length_toList
  have hlast : min (min (start + length) largestLength) Memory.size =
      min (start + length) 262144 := by
    simp only [largestLength, Memory.size]
    omega
  rw [window, hlast, cut_eq_ok (by simp only [Memory.size]; omega) (by omega), Memory.slice_eq]
  congr 1
  rcases Nat.le_total start 262144 with hin | hout
  · rw [show min start Memory.size = start from Nat.min_eq_left hin, List.take_eq_take_iff,
      List.length_drop]
    omega
  · rw [show min start Memory.size = 262144 from Nat.min_eq_right hout,
      List.drop_eq_nil_of_le (by omega), List.drop_eq_nil_of_le (by omega), List.take_nil,
      List.take_nil]

theorem cellAt_eq : cellAt memory address = .ok (memory.get? address) := by
  have hneg : address < 0 ↔ address.toInt < 0 := Int32.lt_iff_toInt_lt
  have hclamp : address.toNatClampNeg = address.toInt.toNat := rfl
  have hlength : memory.cells.toList.length = 262144 := Vector.length_toList
  unfold cellAt
  split
  · rw [Memory.get?_eq_none_iff.mpr (.inl ‹_›)]
  · rw [window_eq, Memory.slice_eq, Except.map, List.head?_take, if_neg Nat.one_ne_zero,
      List.head?_drop]
    cases hlocate : Memory.locate? address with
    | some i =>
      have hat := Memory.locate?_eq_some_iff.mp hlocate
      have hi : address.toNatClampNeg = i := by omega
      simp [Memory.get?, hlocate, hi]
    | none =>
      have hnone : memory.get? address = none := by rw [Memory.get?, hlocate, Option.map_none]
      have hout := (Memory.get?_eq_none_iff.mp hnone).resolve_left ‹_›
      have hhigh : 262144 ≤ address.toInt := Int32.le_iff_toInt_le.mp hout
      rw [hnone, List.getElem?_eq_none (by omega)]

theorem replaceCell_eq : replaceCell memory address value = .ok (memory.set? address value) := by
  rw [replaceCell, cellAt_eq, Memory.get?, Memory.set?]
  cases hlocate : Memory.locate? address with
  | none => rfl
  | some i =>
    have hat := Memory.locate?_eq_some_iff.mp hlocate
    have hi : address.toNatClampNeg = i := by
      have hclamp : address.toNatClampNeg = address.toInt.toNat := rfl
      omega
    simp only [Option.map_some, hi, Fin.is_lt, dite_true, Fin.eta]

/-- What does not fit in memory does not matter to a write. -/
theorem write_take (start : Nat) (cells : List Cell) :
    memory.write start (cells.take (Memory.room start cells.length)) =
      memory.write start cells := by
  simp only [Memory.write, Memory.mk.injEq]
  apply Vector.ext
  intro i hi
  rw [Memory.getElem_put, Memory.getElem_put]
  by_cases hstart : start ≤ i
  · rw [if_pos hstart, if_pos hstart]
    have hsize : i < 262144 := hi
    congr 1
    rcases Nat.lt_or_ge (i - start) cells.length with hlt | hge
    · rw [List.getElem?_take_of_lt (by simp only [Memory.room, Memory.size]; omega)]
    · rw [List.getElem?_eq_none hge, List.getElem?_eq_none (by rw [List.length_take]; omega)]
  · rw [if_neg hstart, if_neg hstart]

theorem transfer_eq (cells : List Cell) :
    transfer memory cells = .ok (memory.transfer 0 cells) := by
  have hroom : Memory.room 0 cells.length ≤ cells.length := Nat.min_le_left _ _
  have hcut : cut cells 0 (Memory.room 0 cells.length) =
      .ok (cells.take (Memory.room 0 cells.length)) := cut_eq_ok (Nat.zero_le _) hroom
  simp only [transfer, window_eq, Bind.bind, Except.bind, Memory.length_slice, hcut, if_pos hroom,
    List.length_take, Nat.min_eq_left hroom, write_take]
  rfl

/-! ## The data stack as it is shown -/

theorem entries_eq (s : DataStack) : entries s = .ok s.entries := by
  have hlength : s.cells.toList.length = 32 := Vector.length_toList
  rw [entries, Stack.entries_eq]
  split
  · rw [cut_eq_ok (by omega) (by omega)]
    congr 1
    rw [List.take_eq_take_iff, List.length_drop]
    omega
  · rw [show s.top.toNat = 0 by omega, List.take_zero]

theorem trailing_eq (s : DataStack) (limit : Nat) : trailing s limit = .ok (s.trailing limit) := by
  rw [trailing, entries_eq]
  rfl

/-! ## Stacks -/

theorem inRange_iff {position : Int} :
    inRange position = true ↔ -2147483648 ≤ position ∧ position ≤ 2147483647 := by
  simp [inRange]

section Stacks

variable {n : Nat} {s : Stack n} {depth : Nat}

theorem index_eq (h : inRange (s.top - depth) = true) :
    index s depth = .ok ((s.slot depth).map Fin.val) := by
  rw [index, if_pos h, Stack.slot]
  by_cases hlow : s.top < depth
  · rw [if_pos (show s.top - depth < 0 by omega), if_pos hlow]
    rfl
  · rw [if_neg (show ¬s.top - depth < 0 by omega), if_neg hlow]
    by_cases hhigh : (s.top - depth).toNat < n
    · rw [if_neg (Nat.not_le.mpr hhigh), dif_pos hhigh]
      rfl
    · rw [if_pos (Nat.not_lt.mp hhigh), dif_neg hhigh]
      rfl

theorem valueAt_eq (h : inRange (s.top - depth) = true) :
    valueAt s depth = .ok ((s.slot depth).map fun _ => s.look depth) := by
  rw [valueAt, index_eq h]
  cases hslot : s.slot depth with
  | ok i => simp [Except.map, ← (Stack.slot_spec hslot).1]
  | error miss => rfl

theorem replaceAt_eq (h : inRange (s.top - depth) = true) (value : Cell) :
    replaceAt s depth value = .ok ((s.slot depth).map fun i => s.set i value) := by
  rw [replaceAt, index_eq h]
  cases s.slot depth with
  | ok i => simp [Except.map]
  | error miss => rfl

end Stacks

end Guarded

/-- The stack pointers can both move by one cell and stay in the range of a cell, and a depth of one
can be taken off them. -/
def Machine.Movable (m : Machine) : Prop :=
  (-1 ≤ m.data.top ∧ m.data.top < 2147483647) ∧ (-1 ≤ m.returns.top ∧ m.returns.top < 2147483647)

/-- Too few overflows do not keep the stack pointers from moving. -/
theorem Machine.Within.movable {data returns : Nat} {m : Machine} (h : m.Within data returns)
    (hdata : data < 2147483520) (hreturns : returns < 2147483520) : m.Movable := by
  simp only [Machine.Within, Machine.Movable] at h ⊢
  omega

theorem Machine.Movable.dropped {m : Machine} (h : m.Movable) (htop : 0 ≤ m.data.top) :
    m.dropped.Movable := by
  simp only [Machine.Movable, Machine.data_dropped, Machine.returns_dropped, Stack.top_lower,
    Stack.top_put] at h ⊢
  omega

namespace Agrees

section Monad

variable {σ α β : Type} {g : Guarded σ α} {x : EStateM Fault σ α} {g' : α → Guarded σ β}
  {f : α → EStateM Fault σ β} {s : σ}

/-- What comes after is done on the state that the first part leaves behind. -/
theorem bind (h : Agrees g x s)
    (hnext : Yields (x s) (fun a t => Agrees (g' a) (f a) t) (fun _ _ => True)) :
    Agrees (g >>= g') (x >>= f) s := by
  have hg : (g >>= g') s = match x s with
      | .ok a t => g' a t
      | .error fault t => .ok (.error fault t) := by
    change Guarded.andThen g g' s = _
    rw [Guarded.andThen, h]
    cases x s <;> rfl
  rw [Agrees, hg, bind_apply]
  cases hresult : x s with
  | ok a t => exact hnext.of_ok hresult
  | error fault t => rfl

theorem map (h : Agrees g x s) (f : α → β) : Agrees (f <$> g) (f <$> x) s := by
  rw [map_eq_pure_bind f x]
  change Agrees (g >>= fun a => pure (f a)) _ s
  exact h.bind (.of_forall (fun _ _ => rfl) fun _ _ => trivial)

theorem unguarded (x : EStateM Fault σ α) : Agrees (Guarded.unguarded x) x s :=
  rfl

theorem guarded {holds : σ → Bool} {trap : Trap} (h : holds s = true) :
    Agrees (Guarded.guarded holds trap x) x s := by
  rw [Agrees, Guarded.guarded, if_pos h]

theorem ite {c : Prop} [Decidable c] {g₁ g₂ : Guarded σ α} {x₁ x₂ : EStateM Fault σ α}
    (hpos : c → Agrees g₁ x₁ s) (hneg : ¬c → Agrees g₂ x₂ s) :
    Agrees (if c then g₁ else g₂) (if c then x₁ else x₂) s := by
  by_cases h : c
  · rw [if_pos h, if_pos h]
    exact hpos h
  · rw [if_neg h, if_neg h]
    exact hneg h

end Monad

/-! ## Parts of instructions -/

section Parts

variable {m : Machine} {here value : Cell} {depth : Nat}

theorem peek (h : Guarded.inRange (m.data.top - depth) = true) :
    Agrees (Guarded.peek here depth) (Action.peek here depth) m := by
  rw [Agrees, Guarded.peek, Guarded.valueAt_eq h, Action.peek]
  cases hslot : m.data.slot depth with
  | ok i => simp only [(Stack.slot_spec hslot).1, Except.map]
  | error miss => rfl

theorem poke (h : Guarded.inRange (m.data.top - depth) = true) :
    Agrees (Guarded.poke here depth value) (Action.poke here depth value) m := by
  rw [Agrees, Guarded.poke, Guarded.replaceAt_eq h, Action.poke]
  cases m.data.slot depth <;> rfl

theorem peekReturn (h : Guarded.inRange (m.returns.top - (0 : Nat)) = true) :
    Agrees (Guarded.peekReturn here) (Action.peekReturn here) m := by
  rw [Agrees, Guarded.peekReturn, Guarded.valueAt_eq h, Action.peekReturn]
  cases hslot : m.returns.slot 0 with
  | ok i => simp only [(Stack.slot_spec hslot).1, Except.map]
  | error miss => rfl

theorem pokeReturn (h : Guarded.inRange (m.returns.top - (0 : Nat)) = true) :
    Agrees (Guarded.pokeReturn here value) (Action.pokeReturn here value) m := by
  rw [Agrees, Guarded.pokeReturn, Guarded.replaceAt_eq h, Action.pokeReturn]
  cases m.returns.slot 0 <;> rfl

theorem load {target : Cell} : Agrees (Guarded.load here target) (Action.load here target) m := by
  rw [Agrees, Guarded.load, Guarded.cellAt_eq, Action.load]
  cases m.memory.get? target <;> rfl

theorem save {target : Cell} :
    Agrees (Guarded.save here target value) (Action.save here target value) m := by
  rw [Agrees, Guarded.save, Guarded.replaceCell_eq, Memory.set?, Action.save]
  cases Memory.locate? target <;> rfl

theorem push (h : m.Movable) : Agrees (Guarded.push here value) (Action.push here value) m := by
  have hraise : Agrees Guarded.raise Action.raise m :=
    guarded (Guarded.inRange_iff.mpr (by have := h.1; omega))
  refine hraise.bind ?_
  exact poke (Guarded.inRange_iff.mpr (by rw [Stack.top_raise]; have := h.1; omega))

theorem pushReturn (h : m.Movable) :
    Agrees (Guarded.pushReturn here value) (Action.pushReturn here value) m := by
  have hraise : Agrees Guarded.raiseReturn Action.raiseReturn m :=
    guarded (Guarded.inRange_iff.mpr (by have := h.2; omega))
  refine hraise.bind ?_
  exact pokeReturn (Guarded.inRange_iff.mpr (by rw [Stack.top_raise]; have := h.2; omega))

theorem lower (h : m.Movable) : Agrees Guarded.lower Action.lower m :=
  guarded (Guarded.inRange_iff.mpr (by have := h.1; omega))

theorem lowerReturn (h : m.Movable) : Agrees Guarded.lowerReturn Action.lowerReturn m :=
  guarded (Guarded.inRange_iff.mpr (by have := h.2; omega))

theorem drop (h : m.Movable) : Agrees (Guarded.drop here) (Action.drop here) m := by
  refine (unguarded Action.pointer).bind (ite (fun _ => unguarded _) fun hlow => ?_)
  have hpoke : Agrees (Guarded.poke here 0 0) (Action.poke here 0 0) m :=
    poke (Guarded.inRange_iff.mpr (by have := h.1; omega))
  refine hpoke.bind (Action.yields_poke.mpr ⟨fun _ => trivial, fun _ _ => ?_, fun _ => trivial⟩)
  have hlower : Agrees Guarded.lower Action.lower { m with data := m.data.put 0 0 } := lower h
  refine hlower.bind (ite (fun _ => unguarded _) fun _ => ?_)
  rfl

theorem pop (h : m.Movable) : Agrees (Guarded.pop here) (Action.pop here) m := by
  have hpeek : Agrees (Guarded.peek here 0) (Action.peek here 0) m :=
    peek (Guarded.inRange_iff.mpr (by have := h.1; omega))
  refine hpeek.bind (Action.yields_peek.mpr ⟨fun _ => trivial, fun _ _ => ?_, fun _ => trivial⟩)
  exact (drop h).bind (Action.yields_drop.mpr ⟨fun _ => rfl, fun _ _ => rfl, fun _ => trivial⟩)

end Parts

/-! ## Instructions

A part of an instruction that does not stop it says something about the pointers, and what comes
after it may rely on that. -/

section Instructions

variable {β : Type} {m : Machine} {here value : Cell} {depth : Nat}

section Sequence

variable {g : Cell → Guarded Machine β} {f : Cell → EStateM Fault Machine β}
  {gNext : Unit → Guarded Machine β} {fNext : Unit → EStateM Fault Machine β}

theorem peek_then (h : m.Movable) (hdepth : depth ≤ 1)
    (hnext : (depth : Int) ≤ m.data.top →
      Agrees (g (m.data.look depth)) (f (m.data.look depth)) m) :
    Agrees (Guarded.peek here depth >>= g) (Action.peek here depth >>= f) m := by
  have hpeek : Agrees (Guarded.peek here depth) (Action.peek here depth) m :=
    peek (Guarded.inRange_iff.mpr (by have := h.1; omega))
  exact hpeek.bind
    (Action.yields_peek.mpr ⟨fun _ => trivial, fun hlow _ => hnext hlow, fun _ => trivial⟩)

theorem poke_then (h : m.Movable) (hdepth : depth ≤ 1)
    (hnext : Agrees (gNext ()) (fNext ()) { m with data := m.data.put depth value }) :
    Agrees (Guarded.poke here depth value >>= gNext) (Action.poke here depth value >>= fNext)
      m := by
  have hpoke : Agrees (Guarded.poke here depth value) (Action.poke here depth value) m :=
    poke (Guarded.inRange_iff.mpr (by have := h.1; omega))
  exact hpoke.bind
    (Action.yields_poke.mpr ⟨fun _ => trivial, fun _ _ => hnext, fun _ => trivial⟩)

theorem pop_then (h : m.Movable)
    (hnext : m.dropped.Movable → Agrees (g (m.data.look 0)) (f (m.data.look 0)) m.dropped) :
    Agrees (Guarded.pop here >>= g) (Action.pop here >>= f) m := by
  exact (pop h).bind (Action.yields_pop.mpr
    ⟨fun _ => trivial, fun hlow _ => hnext (h.dropped hlow), fun _ => trivial⟩)

theorem peekReturn_then (h : m.Movable)
    (hnext : Agrees (g (m.returns.look 0)) (f (m.returns.look 0)) m) :
    Agrees (Guarded.peekReturn here >>= g) (Action.peekReturn here >>= f) m := by
  have hpeek : Agrees (Guarded.peekReturn here) (Action.peekReturn here) m :=
    peekReturn (Guarded.inRange_iff.mpr (by have := h.2; omega))
  exact hpeek.bind
    (Action.yields_peekReturn.mpr ⟨fun _ => trivial, fun _ _ => hnext, fun _ => trivial⟩)

theorem pushReturn_then (h : m.Movable)
    (hnext : { m with returns := m.returns.raise.put 0 value }.Movable →
      Agrees (gNext ()) (fNext ()) { m with returns := m.returns.raise.put 0 value }) :
    Agrees (Guarded.pushReturn here value >>= gNext) (Action.pushReturn here value >>= fNext)
      m := by
  refine (pushReturn h).bind
    (Action.yields_pushReturn.mpr ⟨fun _ => trivial, fun _ hroom => hnext ?_, fun _ => trivial⟩)
  simp only [Machine.Movable, Stack.top_put, Stack.top_raise] at h ⊢
  omega

/-- The guard of a division is no part of the division. -/
theorem divisible_then {divisor : Cell} {x : EStateM Fault Machine β} (hdivisor : divisor ≠ 0)
    (hnext : Agrees (gNext ()) x m) : Agrees (Guarded.divisible divisor >>= gNext) x m := by
  have hguard : (divisor != 0) = true := bne_iff_ne.mpr hdivisor
  change Guarded.andThen (Guarded.divisible divisor) gNext m = _
  rw [Guarded.andThen, Guarded.divisible, Guarded.guarded, if_pos hguard]
  exact hnext

end Sequence

theorem literal (h : m.Movable) : Agrees (Guarded.literal here) (Action.literal here) m := by
  refine (unguarded Action.advance).bind ?_
  refine (unguarded Action.address).bind ?_
  refine load.bind (Action.yields_load.mpr ⟨fun v _ => ?_, fun _ => trivial⟩)
  exact push h

theorem duplicate (h : m.Movable) : Agrees (Guarded.duplicate here) (Action.duplicate here) m :=
  peek_then h (by omega) fun _ => push h

theorem exchange (h : m.Movable) : Agrees (Guarded.exchange here) (Action.exchange here) m := by
  refine peek_then h (by omega) fun _ => peek_then h (by omega) fun _ =>
    poke_then h (by omega) (poke ?_)
  exact Guarded.inRange_iff.mpr (by rw [Stack.top_put]; have := h.1; omega)

theorem toReturns (h : m.Movable) : Agrees (Guarded.toReturns here) (Action.toReturns here) m :=
  peek_then h (by omega) fun _ => pushReturn_then h fun hpushed => drop hpushed

theorem fromReturns (h : m.Movable) :
    Agrees (Guarded.fromReturns here) (Action.fromReturns here) m := by
  refine peekReturn_then h ((push h).bind ?_)
  refine Action.yields_push.mpr ⟨fun _ => trivial, fun _ hroom => lowerReturn ?_, fun _ => trivial⟩
  simp only [Machine.Movable, Stack.top_put, Stack.top_raise] at h ⊢
  omega

theorem jump (h : m.Movable) : Agrees (Guarded.jump here) (Action.jump here) m := by
  refine peek_then h (by omega) fun _ => (unguarded (Action.continueAt _)).bind ?_
  exact drop h

theorem call (h : m.Movable) : Agrees (Guarded.call here) (Action.call here) m := by
  refine (unguarded Action.address).bind (pushReturn_then h fun hpushed => ?_)
  refine peek_then hpushed (by omega) fun _ => (unguarded (Action.continueAt _)).bind ?_
  exact drop hpushed

theorem conditionalCall (h : m.Movable) :
    Agrees (Guarded.conditionalCall here) (Action.conditionalCall here) m := by
  refine (unguarded Action.address).bind (pushReturn_then h fun hpushed => ?_)
  refine pop_then hpushed fun hdropped => pop_then hdropped fun _ => ite (fun _ => ?_) fun _ => ?_
  · exact unguarded _
  · rfl

theorem goBack (h : m.Movable) : Agrees (Guarded.goBack here) (Action.goBack here) m := by
  refine peekReturn_then h ((unguarded (Action.continueAt _)).bind ?_)
  exact lowerReturn h

theorem goBackOnZero (h : m.Movable) :
    Agrees (Guarded.goBackOnZero here) (Action.goBackOnZero here) m := by
  refine peek_then h (by omega) fun htop => ite (fun _ => (drop h).bind ?_) fun _ => ?_
  · exact Action.yields_drop.mpr
      ⟨fun hneg => by omega, fun _ _ => goBack (h.dropped htop), fun _ => trivial⟩
  · rfl

theorem combine (h : m.Movable) {op : Cell → Cell → Cell} :
    Agrees (Guarded.combine here op) (Action.combine here op) m := by
  refine peek_then h (by omega) fun _ => peek_then h (by omega) fun _ =>
    poke_then h (by omega) ?_
  exact drop h

theorem divide (h : m.Movable) : Agrees (Guarded.divide here) (Action.divide here) m := by
  refine peek_then h (by omega) fun _ => peek_then h (by omega) fun _ =>
    ite (fun _ => unguarded _) fun hdivisor => ?_
  refine divisible_then hdivisor (poke_then h (by omega) (divisible_then hdivisor (poke ?_)))
  exact Guarded.inRange_iff.mpr (by rw [Stack.top_put]; have := h.1; omega)

theorem fetch (h : m.Movable) : Agrees (Guarded.fetch here) (Action.fetch here) m := by
  refine peek_then h (by omega) fun _ => load.bind (Action.yields_load.mpr ⟨fun v _ => ?_,
    fun _ => trivial⟩)
  exact poke (Guarded.inRange_iff.mpr (by have := h.1; omega))

theorem store (h : m.Movable) : Agrees (Guarded.store here) (Action.store here) m := by
  refine peek_then h (by omega) fun _ => peek_then h (by omega) fun htop => save.bind
    (Action.yields_save.mpr ⟨fun i _ => ?_, fun _ => trivial⟩)
  have hstored : { m with memory := m.memory.set i (m.data.look 1) }.Movable := ⟨h.1, h.2⟩
  refine (drop hstored).bind (Action.yields_drop.mpr
    ⟨fun hneg => ?_, fun hlow _ => drop (hstored.dropped hlow), fun _ => trivial⟩)
  simp only at hneg
  omega

end Instructions

/-! ## Steps, runs and operations -/

section Systems

variable {δ : Type} {m : Machine} {host : δ} {here : Cell} {op : Opcode}

theorem onMachine {α : Type} {g : Guarded Machine α} {x : Action α} (h : Agrees g x m) :
    Agrees (Guarded.onMachine g) (liftM x : Session δ α) ⟨m, host⟩ := by
  change Guarded.onMachine g ⟨m, host⟩ = .ok (Session.onMachine x ⟨m, host⟩)
  rw [Guarded.onMachine, h, Session.onMachine]
  cases x m <;> rfl

variable [Host δ]

theorem emit (h : m.Movable) :
    Agrees (Guarded.emit here) (Session.emit here : Session δ Unit) ⟨m, host⟩ := by
  have hpeek : Agrees (Guarded.peek here 0) (Action.peek here 0) m :=
    peek (Guarded.inRange_iff.mpr (by have := h.1; omega))
  refine hpeek.onMachine.bind (Session.yields_liftM.mpr (Action.yields_peek.mpr
    ⟨fun _ => trivial, fun _ _ => ?_, fun _ => trivial⟩))
  exact unguarded _

theorem input (h : m.Movable) :
    Agrees (do
        let value ← Guarded.unguarded Session.read
        Guarded.onMachine (Guarded.push here value))
      (do let value ← Session.read; Action.push here value : Session δ Unit) ⟨m, host⟩ := by
  refine (unguarded Session.read).bind (Session.yields_read.mpr ?_)
  exact .of_forall (fun _ _ => .of_forall (fun _ _ => (push h).onMachine) fun _ _ => trivial)
    fun _ _ => trivial

theorem output (h : m.Movable) :
    Agrees (do Guarded.emit here; Guarded.onMachine Guarded.lower)
      (do Session.emit here; Action.lower : Session δ Unit) ⟨m, host⟩ := by
  refine (emit h).bind (Session.yields_emit.mpr ⟨fun _ => trivial, fun _ _ => ?_, fun _ => trivial⟩)
  exact .of_forall (fun _ _ => (lower h).onMachine) fun _ _ => trivial

theorem execute (h : m.Movable) :
    Agrees (Guarded.execute here op) (Session.execute here op : Session δ Unit) ⟨m, host⟩ := by
  cases hop : op.operator? with
  | some f =>
    have hguarded : Guarded.execute (δ := δ) here op =
        Guarded.onMachine (Guarded.combine here f) := by
      unfold Guarded.execute
      rw [hop]
    rw [Session.execute_operator (δ := δ) hop, hguarded]
    exact (combine h).onMachine
  | none =>
    cases op with
    | nop | stop | cjump => exact unguarded _
    | lit => exact (literal h).onMachine
    | dup => exact (duplicate h).onMachine
    | drop => exact (drop h).onMachine
    | swap => exact (exchange h).onMachine
    | push => exact (toReturns h).onMachine
    | pop => exact (fromReturns h).onMachine
    | jump => exact (jump h).onMachine
    | call => exact (call h).onMachine
    | ccall => exact (conditionalCall h).onMachine
    | ret => exact (goBack h).onMachine
    | fetch => exact (fetch h).onMachine
    | store => exact (store h).onMachine
    | divmod => exact (divide h).onMachine
    | zret => exact (goBackOnZero h).onMachine
    | input => exact input h
    | getc => exact input h
    | output => exact output h
    | putc => exact emit h
    | _ => simp [Opcode.operator?] at hop

theorem dispatch (h : m.Movable) :
    Agrees (Guarded.dispatch here op) (Session.dispatch here op : Session δ Status) ⟨m, host⟩ := by
  refine (unguarded (Session.announce here op)).bind ?_
  refine (unguarded (liftM (Action.record op))).bind ?_
  have hcounted : (m.counted op).Movable := ⟨h.1, h.2⟩
  refine (execute hcounted).bind ?_
  -- What comes after the instruction has no guards.
  exact .of_forall (fun _ _ => rfl) fun _ _ => trivial

theorem step {s : System δ} (h : s.machine.Movable) : Agrees Guarded.step Session.step s := by
  rw [Agrees, Guarded.step, Session.step, Guarded.cellAt_eq]
  cases s.machine.hasHalted with
  | true => rfl
  | false =>
    cases s.machine.memory.get? s.machine.ip with
    | none => rfl
    | some value =>
      cases hdecode : s.machine.set.decode value with
      | none => simp [hdecode]
      | some op =>
        simp only [hdecode]
        exact dispatch h

/-- A run is guarded if a step is, and steps keep the pointers where they can move. -/
theorem runToHalt {data returns : Nat} (hdata : data < 2147483520) (hreturns : returns < 2147483520)
    {s : System δ} (h : s.machine.Within data returns) (fuel : Nat) :
    Guarded.runToHalt fuel s = .ok (Session.runToHalt fuel s) := by
  induction fuel generalizing s with
  | zero => rfl
  | succ fuel ih =>
    have hstep : Guarded.step s = .ok (Session.step s) := step (h.movable hdata hreturns)
    have hpreserves := Session.preserves_step h
    rw [Guarded.runToHalt, Session.runToHalt, hstep]
    cases hresult : Session.step s with
    | error fault s' => rfl
    | ok status s' =>
      have hwithin : s'.machine.Within data returns := hpreserves.of_ok hresult
      cases status with
      | running => exact ih hwithin
      | halted => rfl

/-- A load is guarded by the ends of memory alone. -/
theorem install (cells : List Cell) (finish : Nat → Session δ Answer) (s : System δ) :
    Guarded.install cells finish s =
      .ok ((Session.install (s.machine.memory.transfer 0 cells) >>= finish) s) := by
  rw [Guarded.install, Guarded.transfer_eq]
  rfl

theorem perform {data returns : Nat} (hdata : data < 2147483520) (hreturns : returns < 2147483520)
    {s : System δ} (h : s.machine.Within data returns) (op : Operation) :
    Guarded.perform op s = .ok (op.perform s) := by
  cases op with
  | loadCells cells =>
    rw [Guarded.perform, install, Operation.perform, map_eq_pure_bind]
    rfl
  | loadProgram deliveries =>
    rw [Guarded.perform, Operation.perform, map_eq_pure_bind, bind_apply, Session.loadProgram,
      Memory.receive]
    cases Delivery.collect deliveries with
    | error cause => rfl
    | ok image =>
      simp only [install, bind_apply]
      rfl
  | loadImage path found =>
    rw [Operation.perform, map_eq_pure_bind, bind_apply, Session.loadImage]
    cases found with
    | error cause => rfl
    | ok image =>
      simp only [Guarded.perform, install, bind_apply, Memory.loadImage]
      cases Session.install (s.machine.memory.transfer 0 (Image.decode image)) s <;> rfl
  | step =>
    have hstep : (Answer.status <$> Guarded.step) s = .ok ((Answer.status <$> Session.step) s) :=
      (step (h.movable hdata hreturns)).map Answer.status
    rw [Guarded.perform, hstep]
    rfl
  | run fuel =>
    rw [Guarded.perform, runToHalt hdata hreturns h]
    rfl
  | stack =>
    rw [Guarded.perform, Guarded.entries_eq]
    rfl
  | stackTail limit =>
    rw [Guarded.perform, Guarded.trailing_eq]
    rfl
  | cell address =>
    rw [Guarded.perform, Guarded.cellAt_eq]
    rfl
  | slice start length =>
    rw [Guarded.perform, Guarded.window_eq]
    rfl

end Systems

end Agrees

/-- As long as the steps of a machine have overflowed each of its stacks fewer than 2147483520
times, the stack pointers lie within their bounds, and whatever is asked of the machine next, no
guard fails. -/
theorem history_never_traps {δ : Type} [Host δ] {s : System δ} {data returns : Nat}
    (h : Reached Operation.raised? s data returns) (hdata : data < 2147483520)
    (hreturns : returns < 2147483520) :
    ((-1 ≤ s.machine.sp ∧ s.machine.sp ≤ 31 + data) ∧
      (-1 ≤ s.machine.rp ∧ s.machine.rp ≤ 127 + returns)) ∧
      ∀ op, Guarded.perform op s = .ok (op.perform s) :=
  ⟨h.within, fun op => Agrees.perform hdata hreturns h.within op⟩

/-! ## A fault that nobody hears of -/

namespace Script

/-- A system that is about to duplicate. -/
theorem next?_duplicate {m : Machine} (hget : m.memory.get? m.ip = some 2) :
    m.next? = some .dup := by
  rw [Machine.next?, hget, Option.bind_some]
  exact InstructionSet.decode_eq_some_iff.mpr ⟨rfl, by cases m.set <;> rfl⟩

/-- A step that duplicates a value goes on at the next address if there is room. -/
theorem step_duplicate {s : System Script} (hget : s.machine.memory.get? s.machine.ip = some 2)
    (hlow : 0 ≤ s.machine.data.top) (hroom : s.machine.data.top < 31)
    (hip : s.machine.ip + 1 < Machine.haltAddress) :
    ∃ s', Session.step s = .ok .running s' ∧ s'.host = s.host ∧
      s'.machine.memory = s.machine.memory ∧ s'.machine.ip = s.machine.ip + 1 ∧
      s'.machine.data.top = s.machine.data.top + 1 := by
  have hstep : Yields (Session.step s)
      (fun status s' => status = .running ∧ s'.host = s.host ∧
        s'.machine.memory = s.machine.memory ∧ s'.machine.ip = s.machine.ip + 1 ∧
        s'.machine.data.top = s.machine.data.top + 1) (fun _ _ => False) := by
    rw [Session.yields_step_of_next (next?_duplicate hget)]
    refine Session.yields_liftM.mpr (Action.yields_duplicate.mpr ⟨fun hneg => ?_, fun _ _ => ?_,
      fun hfull => ?_, fun hover => ?_⟩)
    · simp only [Machine.data_counted] at hneg
      omega
    · refine ⟨?_, rfl, rfl, rfl, rfl⟩
      rw [Machine.status_eq, if_neg]
      exact Int32.not_le.mpr hip
    · simp only [Machine.data_counted] at hfull
      omega
    · simp only [Machine.data_counted] at hover
      omega
  obtain ⟨status, s', hok, rfl, hrest⟩ := hstep.exists_ok
  exact ⟨s', hok, hrest⟩

/-- A step that duplicates a value on a full stack stops, with the pointer past the last cell. -/
theorem step_duplicate_full {s : System Script}
    (hget : s.machine.memory.get? s.machine.ip = some 2) (hfull : s.machine.data.top = 31) :
    ∃ s', Session.step s = .error (.stackOverflow .data s.machine.ip) s' ∧ s'.host = s.host ∧
      s'.machine.data.top = 32 := by
  have hstep : Yields (Session.step s) (fun _ _ => False)
      (fun fault s' => fault = .stackOverflow .data s.machine.ip ∧ s'.host = s.host ∧
        s'.machine.data.top = 32) := by
    rw [Session.yields_step_of_next (next?_duplicate hget)]
    refine Session.yields_liftM.mpr (Action.yields_duplicate.mpr ⟨fun hneg => ?_, fun _ hroom => ?_,
      fun _ => ⟨rfl, rfl, ?_⟩, fun hover => ?_⟩)
    · simp only [Machine.data_counted] at hneg
      omega
    · simp only [Machine.data_counted] at hroom
      omega
    · simp only [Machine.data_counted, Stack.top_raise]
      omega
    · simp only [Machine.data_counted] at hover
      omega
  obtain ⟨fault, s', herror, rfl, hrest⟩ := hstep.exists_error
  exact ⟨s', herror, hrest⟩

/-- Duplicates fill the data stack one after another, and the last one finds no room. -/
theorem runToHalt_duplicates (room : Nat) {s : System Script} (hroom : room ≤ 31)
    (hmemory : ∀ i < 32, s.machine.memory.get? (Int32.ofNat i) = some 2)
    (hip : s.machine.ip = Int32.ofNat (31 - room)) (htop : s.machine.data.top = 31 - room) :
    ∃ s', Session.runToHalt (room + 1) s = some (.error (.stackOverflow .data 31) s') ∧
      s'.host = s.host ∧ s'.machine.data.top = 32 := by
  have hget : s.machine.memory.get? s.machine.ip = some 2 := by
    rw [hip]
    exact hmemory _ (by omega)
  induction room generalizing s with
  | zero =>
    obtain ⟨s', hstep, hhost, htop'⟩ := step_duplicate_full hget (by omega)
    refine ⟨s', ?_, hhost, htop'⟩
    rw [Session.runToHalt, hstep, hip]
    rfl
  | succ room ih =>
    have hnext : ∀ r < 31, Int32.ofNat (31 - (r + 1)) + 1 = Int32.ofNat (31 - r) ∧
        Int32.ofNat (31 - (r + 1)) + 1 < Machine.haltAddress := by decide
    obtain ⟨hsucc, hlt⟩ := hnext room (by omega)
    obtain ⟨s', hstep, hhost, hmemory', hip', htop'⟩ :=
      step_duplicate hget (by omega) (by omega) (by rw [hip]; exact hlt)
    have hget' : s'.machine.memory.get? s'.machine.ip = some 2 := by
      rw [hmemory', hip', hip, hsucc]
      exact hmemory _ (by omega)
    obtain ⟨s'', hrun, hhost', htop''⟩ := ih (s := s') (by omega) (by rw [hmemory']; exact hmemory)
      (by rw [hip', hip, hsucc]) (by omega) hget'
    exact ⟨s'', by rw [Session.runToHalt, hstep]; exact hrun, hhost'.trans hhost, htop''⟩

/-- A run overflows the data stack, and its owner hears of a failed device only. -/
theorem reached_unheard_overflow :
    ∃ s : System Script, s.machine.sp = 32 ∧ Reached Operation.returned? s 0 0 ∧
      Reached Operation.raised? s 1 0 := by
  obtain ⟨s, hs⟩ : ∃ s : System Script,
      s = ⟨.loaded .base (List.replicate 32 2), { failingFlush := some 1 }⟩ := ⟨_, rfl⟩
  have hloaded : Reached Operation.returned? s 0 0 ∧ Reached Operation.raised? s 0 0 :=
    hs ▸ Reached.loaded .base _ _ (by simp)
  have hmemory : ∀ i < 32, s.machine.memory.get? (Int32.ofNat i) = some 2 := by
    intro i hi
    subst hs
    refine Memory.get?_write _ ?_ (by omega)
    simp only [List.getElem?_replicate, if_pos hi]
  have hip : s.machine.ip = 0 := hs ▸ rfl
  have hsp : s.machine.data.top = 0 := hs ▸ rfl
  have hflush : s.host = { failingFlush := some 1 } := hs ▸ rfl
  obtain ⟨⟨m, host⟩, hrun, rfl, htop⟩ := runToHalt_duplicates 31 (by omega) hmemory hip hsp
  have hperform : (Operation.run 32).perform s = some (.error (.io (.reported "flush failed"))
      ⟨m, { failingFlush := some 1, flushes := 1 }⟩) := by
    rw [Operation.perform, Session.run, hrun, hflush]
    rfl
  have hreturned : (Operation.run 32).returned? s = some (.io (.reported "flush failed")) := by
    rw [Operation.returned?, hperform]
    rfl
  have hraised : (Operation.run 32).raised? s = some (.stackOverflow .data 31) := by
    rw [Operation.raised?, hrun]
    rfl
  exact ⟨⟨m, { failingFlush := some 1, flushes := 1 }⟩, htop, hloaded.1.next hperform hreturned,
    hloaded.2.next hperform hraised⟩

end Script

/-- The bound does not hold if only the overflows count that were returned to the owner. -/
theorem returned_overflows_do_not_bound :
    ¬∀ (s : System Script) (data returns : Nat), Reached Operation.returned? s data returns →
      data < 2147483520 → returns < 2147483520 →
      (-1 ≤ s.machine.sp ∧ s.machine.sp ≤ 31 + data) ∧
        (-1 ≤ s.machine.rp ∧ s.machine.rp ≤ 127 + returns) := by
  intro hbound
  obtain ⟨s, htop, hreturned, _⟩ := Script.reached_unheard_overflow
  have hsp := (hbound s 0 0 hreturned (by omega) (by omega)).1.2
  rw [htop] at hsp
  omega

/-- With the overflow counted, the pointer is at its bound and no guard fails. -/
theorem history_never_traps_past_overflow :
    ∃ s : System Script, s.machine.sp = 31 + (1 : Nat) ∧
      ∀ op, Guarded.perform op s = .ok (op.perform s) := by
  obtain ⟨s, htop, _, hraised⟩ := Script.reached_unheard_overflow
  exact ⟨s, htop, (history_never_traps hraised (by omega) (by omega)).2⟩

end CellMachine
