import CellMachine.Host.Script
import CellMachine.Proofs.Concurrence
import CellMachine.Proofs.Runs

/-!
# Calls and returns

Only six instructions touch the return stack. Three put a value there: the two calls put their own
address, and a push puts the top of the data stack. Three take the top value away and use it: a
return, also when it depends on a zero, goes to the address after it, and a pop moves it to the data
stack. All others leave the return stack alone.

A value therefore stays where it was put for as long as the pointer does not come below it, and what
takes it away gets exactly what was put there, however many calls and returns lie in between.
-/

namespace CellMachine

/-- What was put on top of a stack is found there. -/
theorem Stack.look_put {n : Nat} {s : Stack n} (hlow : 0 ≤ s.top) (hhigh : s.top < n)
    (value : Cell) : (s.put 0 value).look 0 = value := by
  have hcell : s.top.toNat < n := by omega
  simp [look, put, hcell]

/-- A push that finds a cell puts its value there and leaves the cells below as they are. -/
theorem Stack.getElem?_push {n : Nat} {s : Stack n} (hroom : s.top + 1 < n) (value : Cell) {i : Nat}
    (hi : (i : Int) ≤ s.top + 1) :
    (s.raise.put 0 value).cells[i]? =
      if (i : Int) = s.top + 1 then some value else s.cells[i]? := by
  rw [put, Vector.getElem?_setIfInBounds, cells_raise, top_raise]
  by_cases htop : (i : Int) = s.top + 1
  · rw [if_pos (by omega), if_pos (by omega), if_pos htop]
  · rw [if_neg (by omega), if_neg htop]

/-- The value that an opcode puts on the return stack, if it puts one there. -/
def Opcode.entry? (op : Opcode) (m : Machine) : Option Cell :=
  match op with
  | .call | .ccall => some m.ip
  | .push => some (m.data.look 0)
  | _ => none

/-- What an opcode that ends well has done to the return stack. -/
inductive ReturnMove (op : Opcode) (m m' : Machine) : Prop
  /-- Nothing at all. -/
  | kept (hreturns : m'.returns = m.returns)
  /-- It put a value on top. -/
  | entered (value : Cell) (hvalue : op.entry? m = some value) (hlow : -1 ≤ m.returns.top)
      (hhigh : m.returns.top < 127) (hreturns : m'.returns = m.returns.raise.put 0 value)
  /-- It took the top away and went to the address after it. -/
  | wentBack (hop : op = .ret ∨ op = .zret ∧ m.data.look 0 = 0) (hip : m'.ip = m.returns.look 0)
      (hlow : 0 ≤ m.returns.top) (hhigh : m.returns.top < 128)
      (hreturns : m'.returns = m.returns.lower)
  /-- It moved the top to the data stack. -/
  | popped (hop : op = .pop) (hsp : m'.data.top = m.data.top + 1)
      (htop : m'.data.look 0 = m.returns.look 0) (hlow : 0 ≤ m.returns.top)
      (hhigh : m.returns.top < 128) (hreturns : m'.returns = m.returns.lower)

namespace Action

variable {α β : Type} {here value : Cell}

/-! ## What leaves the return stack alone -/

/-- An action leaves the return stack as it was. -/
def KeepsReturns (x : Action α) : Prop :=
  ∀ m, Yields (x m) (fun _ m' => m'.returns = m.returns) (fun _ m' => m'.returns = m.returns)

/-- A machine next to itself, with a given return stack. -/
def SameReturns (returns : ReturnStack) (_ _ : Nat) (m m' : Machine) : Prop :=
  m' = m ∧ m.returns = returns

theorem KeepsReturns.respects {returns : ReturnStack} {a r b q : Nat} {x : Action α}
    (hx : KeepsReturns x) : Respects (SameReturns returns) a r b q x := by
  rintro m m' ⟨hsame, hreturns⟩
  have hkept := hx m
  rw [hsame]
  cases hresult : x m with
  | ok v n => exact ⟨rfl, rfl, (hkept.of_ok hresult).trans hreturns⟩
  | error fault n => exact ⟨rfl, rfl, (hkept.of_error hresult).trans hreturns⟩

theorem keepsReturns_of_respects {a r b q : Nat} {x : Action α}
    (hx : ∀ returns, Respects (SameReturns returns) a r b q x) : KeepsReturns x := by
  intro m
  have hsame := hx m.returns m m ⟨rfl, rfl⟩
  rcases hsame.cases with ⟨v, m', _, hresult, _, hkept⟩ | ⟨fault, m', _, hresult, _, hkept⟩
  · rw [hresult]
    exact hkept.2
  · rw [hresult]
    exact hkept.2

/-- The parts of an instruction that do not name the return stack leave it alone, and so do the
instructions that are made of them. -/
theorem congruence_sameReturns (returns : ReturnStack) : Congruence (SameReturns returns) where
  fewer h _ _ := h
  ip h := by rw [h.1]
  memory h := by rw [h.1]
  continueAt _ := KeepsReturns.respects fun m => yields_continueAt.mpr rfl
  save here target value := by
    apply KeepsReturns.respects
    intro m
    rw [yields_save]
    exact ⟨fun _ _ => rfl, fun _ => rfl⟩
  peek := by
    intro _ _ here depth _
    apply KeepsReturns.respects
    intro m
    rw [yields_peek]
    exact ⟨fun _ => rfl, fun _ _ => rfl, fun _ => rfl⟩
  poke := by
    intro _ _ here depth value _
    apply KeepsReturns.respects
    intro m
    rw [yields_poke]
    exact ⟨fun _ => rfl, fun _ _ => rfl, fun _ => rfl⟩
  push here value := by
    apply KeepsReturns.respects
    intro m
    rw [yields_push]
    exact ⟨fun _ => rfl, fun _ _ => rfl, fun _ => rfl⟩
  drop here := by
    apply KeepsReturns.respects
    intro m
    rw [yields_drop]
    exact ⟨fun _ => rfl, fun _ _ => rfl, fun _ => rfl⟩
  lower := KeepsReturns.respects fun m => yields_lower.mpr rfl

/-! ## What moves the return stack -/

/-- What ends well has moved the return stack as its opcode does. -/
def Moves (op : Opcode) (x : Action Unit) : Prop :=
  ∀ m, Yields (x m) (fun _ m' => ReturnMove op m m') (fun _ _ => True)

theorem KeepsReturns.moves {op : Opcode} {x : Action Unit} (hx : KeepsReturns x) : Moves op x := by
  intro m
  exact (hx m).imp (fun _ _ hkept => .kept hkept) (fun _ _ _ => trivial)

/-- An instruction that is made of parts that leave the return stack alone. -/
theorem moves_of_respects {op : Opcode} {a r b q : Nat} {x : Action Unit}
    (hx : ∀ returns, Respects (SameReturns returns) a r b q x) : Moves op x :=
  (keepsReturns_of_respects hx).moves

/-- A value that has been put on the return stack stays there for the rest of the instruction. -/
theorem yields_pushReturn_then {m : Machine} {f : Unit → Action β} (hf : ∀ u, KeepsReturns (f u)) :
    Yields ((pushReturn here value >>= f) m)
      (fun _ m' => -1 ≤ m.returns.top ∧ m.returns.top < 127 ∧
        m'.returns = m.returns.raise.put 0 value) (fun _ _ => True) := by
  rw [yields_bind, yields_pushReturn]
  refine ⟨fun _ => trivial, fun hlow hhigh => ?_, fun _ => trivial⟩
  refine (hf () _).imp (fun _ m' hkept => ?_) (fun _ _ _ => trivial)
  exact ⟨by omega, by omega, hkept⟩

theorem moves_toReturns : Moves .push (toReturns here) := by
  intro m
  rw [toReturns, yields_bind, yields_peek]
  refine ⟨fun _ => trivial, fun _ _ => ?_, fun _ => trivial⟩
  have hdrop : KeepsReturns (drop here) := keepsReturns_of_respects fun returns =>
    (congruence_sameReturns returns).drop (a := 0) (r := 0) here
  refine (yields_pushReturn_then fun _ => hdrop).imp (fun _ m' hmoved => ?_) (fun _ _ _ => trivial)
  obtain ⟨hlow, hhigh, hreturns⟩ := hmoved
  exact .entered _ rfl hlow hhigh hreturns

/-- A call puts its own address on the return stack before it looks for its operands. -/
theorem moves_remember {op : Opcode} {f : Unit → Action Unit} (hop : op = .call ∨ op = .ccall)
    (hf : ∀ u, KeepsReturns (f u)) :
    Moves op (address >>= fun origin => pushReturn here origin >>= f) := by
  intro m
  rw [yields_bind, yields_address]
  refine (yields_pushReturn_then hf).imp (fun _ m' hmoved => ?_) (fun _ _ _ => trivial)
  obtain ⟨hlow, hhigh, hreturns⟩ := hmoved
  refine .entered m.ip ?_ hlow hhigh hreturns
  rcases hop with rfl | rfl <;> rfl

theorem moves_call : Moves .call (call here) := by
  apply moves_remember (.inl rfl)
  intro _
  exact keepsReturns_of_respects fun returns => (congruence_sameReturns returns).jump

theorem moves_conditionalCall : Moves .ccall (conditionalCall here) := by
  apply moves_remember (.inr rfl)
  intro _
  apply keepsReturns_of_respects (a := 2) (r := 0) (b := 0) (q := 0)
  intro returns
  have hR := congruence_sameReturns returns
  refine (hR.pop here).bind fun target => ?_
  refine (hR.pop here).bind fun flag => ?_
  apply Respects.ite
  · exact hR.continueAt (target - 1)
  · exact Respects.pure ()

theorem moves_goBack : Moves .ret (goBack here) := by
  intro m
  rw [yields_goBack]
  exact ⟨fun _ => trivial, fun hlow hhigh => .wentBack (.inl rfl) rfl hlow hhigh rfl,
    fun _ => trivial⟩

theorem moves_goBackOnZero : Moves .zret (goBackOnZero here) := by
  intro m
  rw [yields_goBackOnZero]
  refine ⟨fun _ => trivial, fun _ _ => ⟨fun _ => .kept rfl, fun hzero => ?_⟩, fun _ => trivial⟩
  exact ⟨fun _ => trivial, fun hlow hhigh => .wentBack (.inr ⟨rfl, hzero⟩) rfl hlow hhigh rfl,
    fun _ => trivial⟩

theorem moves_fromReturns : Moves .pop (fromReturns here) := by
  intro m
  simp only [fromReturns, yields_bind, yields_peekReturn, yields_push, yields_lowerReturn]
  refine ⟨fun _ => trivial, fun hlow hhigh => ⟨fun _ => trivial, fun hcell hroom => ?_,
    fun _ => trivial⟩, fun _ => trivial⟩
  exact .popped rfl rfl (Stack.look_put hcell hroom _) hlow hhigh rfl

/-- Every opcode that asks nothing of the host moves the return stack as it should. -/
theorem moves_action {op : Opcode} {x : Action Unit} (hop : op.action? here = some x) :
    Moves op x := by
  cases op, x, hop using Opcode.action?_cases with
  | operator op f =>
    exact moves_of_respects fun returns => (congruence_sameReturns returns).combine
  | nop => exact moves_of_respects (a := 0) (r := 0) fun _ => Respects.pure ()
  | lit => exact moves_of_respects fun returns => (congruence_sameReturns returns).literal
  | dup => exact moves_of_respects fun returns => (congruence_sameReturns returns).duplicate
  | drop =>
    exact moves_of_respects fun returns =>
      (congruence_sameReturns returns).drop (a := 0) (r := 0) here
  | swap => exact moves_of_respects fun returns => (congruence_sameReturns returns).exchange
  | push => exact moves_toReturns
  | pop => exact moves_fromReturns
  | jump => exact moves_of_respects fun returns => (congruence_sameReturns returns).jump
  | call => exact moves_call
  | ccall => exact moves_conditionalCall
  | ret => exact moves_goBack
  | fetch => exact moves_of_respects fun returns => (congruence_sameReturns returns).fetch
  | store => exact moves_of_respects fun returns => (congruence_sameReturns returns).store
  | divmod => exact moves_of_respects fun returns => (congruence_sameReturns returns).divide
  | zret => exact moves_goBackOnZero
  | stop =>
    exact moves_of_respects fun returns =>
      (congruence_sameReturns returns).continueAt (a := 0) (r := 0) Machine.haltAddress

end Action

/-- Whether a dispatch was counted has no part in what the opcode does. -/
theorem ReturnMove.of_counted {op : Opcode} {m m' : Machine} (h : ReturnMove op (m.counted op) m') :
    ReturnMove op m m' := by
  have hentry : op.entry? (m.counted op) = op.entry? m := by
    cases op <;> rfl
  cases h with
  | kept hreturns => exact .kept hreturns
  | entered value hvalue hlow hhigh hreturns =>
    exact .entered value (hentry ▸ hvalue) hlow hhigh hreturns
  | wentBack hop hip hlow hhigh hreturns => exact .wentBack hop hip hlow hhigh hreturns
  | popped hop hsp htop hlow hhigh hreturns => exact .popped hop hsp htop hlow hhigh hreturns

section Steps

variable {δ : Type} [Host δ]

/-- Every instruction that ends well moves the return stack as it should. -/
theorem Session.yields_execute_returnMove {here : Cell} {op : Opcode} {m : Machine} {host : δ} :
    Yields (execute here op ⟨m, host⟩) (fun _ s' => ReturnMove op m s'.machine)
      (fun _ _ => True) := by
  have hinput : Yields ((do let value ← read; Action.push here value : Session δ Unit) ⟨m, host⟩)
      (fun _ s' => ReturnMove op m s'.machine) (fun _ _ => True) := by
    simp only [yields_bind, yields_read, yields_liftM, Action.yields_push]
    refine .of_forall (fun _ _ => .of_forall (fun _ _ => ?_) fun _ _ => trivial) fun _ _ => trivial
    exact ⟨fun _ => trivial, fun _ _ => .kept rfl, fun _ => trivial⟩
  cases hop : op.action? here with
  | some x =>
    rw [execute_action hop, yields_liftM]
    exact Action.moves_action hop m
  | none =>
    rcases Opcode.action?_eq_none hop with rfl | rfl | rfl | rfl | rfl
    · exact hinput
    · exact hinput
    · rw [execute, yields_bind, yields_emit]
      exact ⟨fun _ => trivial, fun _ _ => .of_forall (fun _ _ => .kept rfl) fun _ _ => trivial,
        fun _ => trivial⟩
    · rw [execute, yields_emit]
      exact ⟨fun _ => trivial, fun _ _ => .of_forall (fun _ _ => .kept rfl) fun _ _ => trivial,
        fun _ => trivial⟩
    · exact .kept rfl

/-- A step that ends well leaves a machine that has halted as it is, or moves the return stack as
the opcode does that it finds. -/
theorem returnMove_of_step {s s' : System δ} {status : Status}
    (hstep : Session.step s = .ok status s') :
    s' = s ∨ ∃ op m', s.machine.next? = some op ∧ ReturnMove op s.machine m' ∧
      s'.machine = m'.advanced := by
  cases hnext : s.machine.next? with
  | some op =>
    have hmove : Yields (Session.step s)
        (fun _ s' => ∃ m', ReturnMove op s.machine m' ∧ s'.machine = m'.advanced)
        (fun _ _ => True) := by
      rw [Session.yields_step_of_next hnext]
      refine Session.yields_execute_returnMove.imp (fun _ t hmove => ?_) (fun _ _ _ => trivial)
      exact ⟨t.machine, hmove.of_counted, rfl⟩
    obtain ⟨m', hmove', hmachine⟩ := hmove.of_ok hstep
    exact .inr ⟨op, m', rfl, hmove', hmachine⟩
  | none => exact .inl (Session.eq_of_step_of_none hstep hnext)

/-- A step from a machine whose return stack pointer lies above a cell does not change the cell. -/
theorem returns_below_of_step {s s' : System δ} {status : Status}
    (hstep : Session.step s = .ok status s') {i : Nat} (hi : (i : Int) ≤ s.machine.rp) :
    s'.machine.returns.cells[i]? = s.machine.returns.cells[i]? := by
  rcases returnMove_of_step hstep with rfl | ⟨op, m', _, hmove, hmachine⟩
  · rfl
  · rw [hmachine, Machine.returns_advanced]
    cases hmove with
    | kept hreturns => rw [hreturns]
    | entered value _ _ hhigh hreturns =>
      simp only [Machine.rp] at hi
      rw [hreturns, Stack.getElem?_push (by omega) value (by omega), if_neg (by omega)]
    | wentBack _ _ _ _ hreturns => rw [hreturns, Stack.cells_lower]
    | popped _ _ _ _ _ hreturns => rw [hreturns, Stack.cells_lower]

/-- A step that raises the return stack pointer has put a value on the return stack. -/
theorem entered_of_raised {s s' : System δ} {status : Status}
    (hstep : Session.step s = .ok status s') (hraised : s'.machine.rp = s.machine.rp + 1) :
    ∃ op value, s.machine.next? = some op ∧ op.entry? s.machine = some value ∧
      -1 ≤ s.machine.rp ∧ s.machine.rp < 127 ∧
      s'.machine.returns = s.machine.returns.raise.put 0 value := by
  simp only [Machine.rp] at hraised ⊢
  rcases returnMove_of_step hstep with rfl | ⟨op, m', hnext, hmove, hmachine⟩
  · omega
  · rw [hmachine, Machine.returns_advanced] at hraised
    cases hmove with
    | kept hreturns =>
      rw [hreturns] at hraised
      omega
    | entered value hvalue hlow hhigh hreturns =>
      refine ⟨op, value, hnext, hvalue, hlow, hhigh, ?_⟩
      rw [hmachine, Machine.returns_advanced, hreturns]
    | wentBack _ _ _ _ hreturns | popped _ _ _ _ _ hreturns =>
      rw [hreturns, Stack.top_lower] at hraised
      omega

/-- The machine takes a value off its return stack and uses it: it goes to the address after it, or
it has it on top of its data stack. -/
def Machine.Retrieves (m m' : Machine) (value : Cell) : Prop :=
  (m.next? = some .ret ∨ m.next? = some .zret ∧ m.data.look 0 = 0) ∧ m'.ip = value + 1 ∨
    m.next? = some .pop ∧ m'.sp = m.sp + 1 ∧ m'.data.look 0 = value

/-- A step that lowers the return stack pointer retrieves what lies under it. -/
theorem retrieves_of_lowered {s s' : System δ} {status : Status}
    (hstep : Session.step s = .ok status s') (hlowered : s'.machine.rp < s.machine.rp) :
    s'.machine.rp = s.machine.rp - 1 ∧ 0 ≤ s.machine.rp ∧
      s.machine.Retrieves s'.machine (s.machine.returns.look 0) := by
  simp only [Machine.rp] at hlowered ⊢
  rcases returnMove_of_step hstep with rfl | ⟨op, m', hnext, hmove, hmachine⟩
  · omega
  · rw [hmachine, Machine.returns_advanced] at hlowered ⊢
    cases hmove with
    | kept hreturns =>
      rw [hreturns] at hlowered
      omega
    | entered value _ _ _ hreturns =>
      rw [hreturns, Stack.top_put, Stack.top_raise] at hlowered
      omega
    | wentBack hop hip hlow _ hreturns =>
      rw [hreturns, Stack.top_lower]
      refine ⟨rfl, hlow, .inl ⟨?_, ?_⟩⟩
      · rcases hop with rfl | ⟨rfl, hzero⟩
        · exact .inl hnext
        · exact .inr ⟨hnext, hzero⟩
      · rw [Machine.ip_advanced, hip]
    | popped hop hsp htop hlow _ hreturns =>
      rw [hreturns, Stack.top_lower]
      subst hop
      exact ⟨rfl, hlow, .inr ⟨hnext, hsp, htop⟩⟩

/-- As long as the return stack pointer does not come below a cell, the cell keeps its value. -/
theorem returns_below_of_succeeds {s : System δ} {n : Nat} (hruns : s.Succeeds n) {j : Nat}
    (hinside : ∀ i < n, (j : Int) ≤ (s.after i).machine.rp) :
    (s.after n).machine.returns.cells[j]? = s.machine.returns.cells[j]? := by
  induction n with
  | zero => rfl
  | succ n ih =>
    obtain ⟨status, hstep⟩ := hruns.step (Nat.lt_succ_self n)
    have hbefore := ih (fun i hi => hruns i (by omega)) (fun i hi => hinside i (by omega))
    rw [returns_below_of_step hstep (hinside n (Nat.lt_succ_self n)), hbefore]

end Steps

/-- A run starts with a step that raises the return stack pointer, keeps the pointer up, and ends
with the first step that lowers it again. The first step has put a value on the return stack, the
value and all cells below it stay as they are up to the end, and the last step gets that value and
leaves the pointer where it was at first. -/
theorem return_retrieves_entry {δ : Type} [Host δ] {s : System δ} {n : Nat}
    (hruns : s.Succeeds (n + 1)) (hraised : (s.after 1).machine.rp = s.machine.rp + 1)
    (hinside : ∀ i, 1 ≤ i → i ≤ n → s.machine.rp + 1 ≤ (s.after i).machine.rp)
    (hback : (s.after (n + 1)).machine.rp ≤ s.machine.rp) :
    ∃ op value, s.machine.next? = some op ∧ op.entry? s.machine = some value ∧
      (∀ i, 1 ≤ i → i ≤ n + 1 → ∀ j : Nat, (j : Int) ≤ s.machine.rp + 1 →
        (s.after i).machine.returns.cells[j]? =
          if (j : Int) = s.machine.rp + 1 then some value else s.machine.returns.cells[j]?) ∧
      (s.after n).machine.Retrieves (s.after (n + 1)).machine value ∧
      (s.after (n + 1)).machine.rp = s.machine.rp := by
  have hn : 1 ≤ n := by
    rcases Nat.eq_zero_or_pos n with rfl | hpos
    · rw [Nat.zero_add, hraised] at hback
      omega
    · exact hpos
  obtain ⟨_, hfirst⟩ := hruns.step (Nat.succ_pos n)
  rw [System.after_zero] at hfirst
  obtain ⟨op, value, hnext, hvalue, hlow, hhigh, hreturns⟩ := entered_of_raised hfirst hraised
  -- The cells right after the first step, up to the one that it has written.
  have hentered : ∀ j : Nat, (j : Int) ≤ s.machine.rp + 1 →
      (s.after 1).machine.returns.cells[j]? =
        if (j : Int) = s.machine.rp + 1 then some value else s.machine.returns.cells[j]? := by
    intro j hj
    rw [hreturns]
    exact Stack.getElem?_push (Int.add_lt_add_right hhigh 1) value hj
  have hkept : ∀ i, 1 ≤ i → i ≤ n + 1 → ∀ j : Nat, (j : Int) ≤ s.machine.rp + 1 →
      (s.after i).machine.returns.cells[j]? =
        if (j : Int) = s.machine.rp + 1 then some value else s.machine.returns.cells[j]? := by
    intro i hi hin j hj
    obtain ⟨k, rfl⟩ : ∃ k, i = 1 + k := ⟨i - 1, by omega⟩
    have hrest : (s.after 1).Succeeds k := by
      apply System.Succeeds.rest
      intro l hl
      exact hruns l (by omega)
    rw [← hentered j hj, ← System.after_after]
    apply returns_below_of_succeeds hrest
    intro l hl
    rw [System.after_after]
    exact Int.le_trans hj (hinside (1 + l) (by omega) (by omega))
  obtain ⟨_, hlast⟩ := hruns.step (Nat.lt_succ_self n)
  have hup := hinside n hn (Nat.le_refl n)
  obtain ⟨hlowered, hcell, hretrieves⟩ := retrieves_of_lowered hlast (by omega)
  -- The value under the pointer is the one that the first step has written.
  have hlook : (s.after n).machine.returns.look 0 = value := by
    have hat : (((s.after n).machine.returns.top - (0 : Nat)).toNat : Int) = s.machine.rp + 1 := by
      simp only [Machine.rp] at hlowered hback hup hcell ⊢
      omega
    rw [Stack.look, hkept n hn (Nat.le_succ n) _ (Int.le_of_eq hat), if_pos hat, Option.getD_some]
  rw [hlook] at hretrieves
  exact ⟨op, value, hnext, hvalue, hkept, hretrieves, by omega⟩

/-- A call of the next address, which returns at once, goes on at the address after the call. -/
theorem return_retrieves_entry_of_call :
    ∃ s : System Script, s.machine.next? = some .call ∧ s.Succeeds 2 ∧
      (s.after 1).machine.rp = s.machine.rp + 1 ∧ (s.after 1).machine.next? = some .ret ∧
      (s.after 2).machine.rp = s.machine.rp ∧ (s.after 2).machine.ip = s.machine.ip + 1 := by
  obtain ⟨s, hs⟩ : ∃ s : System Script, s = ⟨{ Machine.loaded .base [8, 10] with
      data := { cells := Vector.replicate 32 1, top := 1 } }, {}⟩ := ⟨_, rfl⟩
  have hmemory : s.machine.memory = Memory.blank.write 0 [8, 10] := by rw [hs]; rfl
  have hset : s.machine.set = .base := by rw [hs]; rfl
  have hip : s.machine.ip = 0 := by rw [hs]; rfl
  have hrp : s.machine.returns.top = 0 := by rw [hs]; rfl
  have hsp : s.machine.data.top = 1 := by rw [hs]
  have htarget : s.machine.data.look 0 = 1 := by rw [hs]; rfl
  have hcall : s.machine.next? = some .call :=
    Machine.next?_of_write (i := 0) hmemory hip rfl (by omega) (hset ▸ rfl)
  have hfirst : Yields (Session.step s)
      (fun _ s' => s'.machine.memory = Memory.blank.write 0 [8, 10] ∧ s'.machine.set = .base ∧
        s'.machine.ip = 1 ∧ s'.machine.returns.top = 1) (fun _ _ => False) := by
    have hgrounded : (s.machine.counted .call).Grounded := by
      constructor <;> simp [hsp, hrp]
    rw [Session.yields_step_of_next hcall]
    refine Session.yields_liftM.mpr ((Action.yields_call hgrounded).mpr ?_)
    simp [hsp, hrp, htarget, hmemory, hset, Machine.ip_dropped, Machine.called]
  obtain ⟨_, s', hok, hmemory', hset', hip', hrp'⟩ := hfirst.exists_ok
  have hafter : s.after 1 = s' := System.after_succ_of_ok (n := 0) hok
  have hreturn : s'.machine.next? = some .ret :=
    Machine.next?_of_write (i := 1) hmemory' hip' rfl (by omega) (hset' ▸ rfl)
  have hsecond : Yields (Session.step s') (fun _ t => t.machine.returns.top = 0)
      (fun _ _ => False) := by
    rw [Session.yields_step_of_next hreturn]
    refine Session.yields_liftM.mpr (Action.yields_goBack.mpr ?_)
    simp [hrp']
  obtain ⟨_, t, hok', hrp''⟩ := hsecond.exists_ok
  rw [← hafter] at hok' hrp' hreturn
  have hend : s.after 2 = t := System.after_succ_of_ok hok'
  have hruns : s.Succeeds 2 := by
    have hnone : s.Succeeds 0 := fun _ hi => absurd hi (Nat.not_lt_zero _)
    exact (hnone.succ hok).succ hok'
  have hraised : (s.after 1).machine.rp = s.machine.rp + 1 := by
    rw [Machine.rp, Machine.rp, hrp', hrp]
    rfl
  obtain ⟨op, value, hnext, hvalue, _, hretrieves, hback⟩ :=
    return_retrieves_entry (n := 1) hruns hraised
      (fun i hlow hhigh => by
        obtain rfl : i = 1 := Nat.le_antisymm hhigh hlow
        exact Int.le_of_eq hraised.symm)
      (Int.le_of_eq (by rw [hend, Machine.rp, Machine.rp, hrp'', hrp]))
  rw [hcall, Option.some.injEq] at hnext
  subst hnext
  obtain rfl : s.machine.ip = value := Option.some.inj hvalue
  refine ⟨s, hcall, hruns, hraised, hreturn, hback, ?_⟩
  rcases hretrieves with ⟨_, hgone⟩ | ⟨hpop, _⟩
  · exact hgone
  · rw [hreturn] at hpop
    simp at hpop

end CellMachine
