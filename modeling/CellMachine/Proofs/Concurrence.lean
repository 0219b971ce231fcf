import CellMachine.Proofs.ListMachine

/-!
# Two machines side by side

Two machines that are alike in some sense give the same values, stop with the same faults, and stay
alike. What this takes is found part by part: a relation between machines that every part of an
instruction respects is respected by every instruction, and by every step, of the machine.

The relation may depend on how many operands are known to be on the data stack and how many cells
are known to be free above them. An instruction starts with as many as its opcode needs, a drop uses
up an operand, and a push a free cell. A relation that needs no such knowledge ignores both numbers.
-/

namespace CellMachine

/-- Two results agree: both give the same value, or both stop with the same fault, and they leave
related states behind. -/
def Concur {ε σ τ α : Type} (done stopped : σ → τ → Prop) (first : EStateM.Result ε σ α)
    (second : EStateM.Result ε τ α) : Prop :=
  Yields first
    (fun a s => Yields second (fun b t => b = a ∧ done s t) fun _ _ => False)
    (fun e s => Yields second (fun _ _ => False) fun f t => f = e ∧ stopped s t)

namespace Concur

variable {ε σ τ α β : Type} {done stopped : σ → τ → Prop} {first : EStateM.Result ε σ α}
  {second : EStateM.Result ε τ α}

/-- What two results that agree have come to. -/
theorem cases (h : Concur done stopped first second) :
    (∃ a s t, first = .ok a s ∧ second = .ok a t ∧ done s t) ∨
      ∃ e s t, first = .error e s ∧ second = .error e t ∧ stopped s t := by
  cases first with
  | ok a s =>
    obtain ⟨b, t, rfl, rfl, hdone⟩ := Yields.exists_ok h
    exact .inl ⟨_, s, t, rfl, rfl, hdone⟩
  | error e s =>
    obtain ⟨f, t, rfl, rfl, hstopped⟩ := Yields.exists_error h
    exact .inr ⟨_, s, t, rfl, rfl, hstopped⟩

theorem imp {done' stopped' : σ → τ → Prop} (h : Concur done stopped first second)
    (hdone : ∀ s t, done s t → done' s t) (hstopped : ∀ s t, stopped s t → stopped' s t) :
    Concur done' stopped' first second := by
  refine Yields.imp h (fun a s hok => ?_) (fun e s herror => ?_)
  · exact hok.imp (fun b t hb => ⟨hb.1, hdone s t hb.2⟩) (fun _ _ hfalse => hfalse)
  · exact herror.imp (fun _ _ hfalse => hfalse) (fun f t hf => ⟨hf.1, hstopped s t hf.2⟩)

/-- What comes after agrees if it agrees from wherever the first parts lead. -/
theorem bind {x : EStateM ε σ α} {y : EStateM ε τ α} {f : α → EStateM ε σ β}
    {g : α → EStateM ε τ β} {s : σ} {t : τ} {done' : σ → τ → Prop}
    (hfirst : Concur done stopped (x s) (y t))
    (hnext : ∀ a s t, done s t → Concur done' stopped (f a s) (g a t)) :
    Concur done' stopped ((x >>= f) s) ((y >>= g) t) := by
  rw [bind_apply, bind_apply]
  rcases hfirst.cases with ⟨a, s', t', hx, hy, hdone⟩ | ⟨e, s', t', hx, hy, hstopped⟩
  · rw [hx, hy]
    exact hnext a s' t' hdone
  · rw [hx, hy]
    exact ⟨rfl, hstopped⟩

/-- The words that a value is put into do not matter. -/
theorem map (f : α → β) {x : EStateM ε σ α} {y : EStateM ε τ α} {s : σ} {t : τ}
    (h : Concur done stopped (x s) (y t)) :
    Concur done stopped ((f <$> x) s) ((f <$> y) t) := by
  rw [map_eq_pure_bind, map_eq_pure_bind]
  exact h.bind fun a s' t' hdone => ⟨rfl, hdone⟩

/-- A result agrees with itself. -/
theorem refl (result : EStateM.Result ε σ α) : Concur Eq Eq result result := by
  cases result with
  | ok a s => exact ⟨rfl, rfl⟩
  | error e s => exact ⟨rfl, rfl⟩

end Concur

/-- How many cells an opcode adds to the data stack. -/
def Opcode.growth : Opcode → Nat
  | lit | dup | pop | input | getc => 1
  | _ => 0

section Parts

variable {α β : Type} {R : Nat → Nat → Machine → Machine → Prop} {a r b q c p : Nat} {here : Cell}

/-- An action that starts with `a` operands and `r` free cells on both machines comes to the same on
both, and ends with `b` operands and `q` free cells. -/
def Respects (R : Nat → Nat → Machine → Machine → Prop) (a r b q : Nat) (x : Action α) : Prop :=
  ∀ m m', R a r m m' → Concur (R b q) (R 0 0) (x m) (x m')

/-- Every part of an instruction respects the relation, those that use the return stack apart. -/
structure Congruence (R : Nat → Nat → Machine → Machine → Prop) : Prop where
  fewer {a r b q : Nat} {m m' : Machine} : R a r m m' → b ≤ a → q ≤ r → R b q m m'
  ip {a r : Nat} {m m' : Machine} : R a r m m' → m'.ip = m.ip
  memory {a r : Nat} {m m' : Machine} : R a r m m' → m'.memory = m.memory
  continueAt {a r : Nat} (target : Cell) : Respects R a r a r (Action.continueAt target)
  save {a r : Nat} (here target value : Cell) : Respects R a r a r (Action.save here target value)
  peek {a r : Nat} (here : Cell) {depth : Nat} :
    depth < a → Respects R a r a r (Action.peek here depth)
  poke {a r : Nat} (here : Cell) {depth : Nat} (value : Cell) :
    depth < a → Respects R a r a r (Action.poke here depth value)
  push {a r : Nat} (here value : Cell) : Respects R a (r + 1) (a + 1) r (Action.push here value)
  drop {a r : Nat} (here : Cell) : Respects R (a + 1) r a r (Action.drop here)
  lower {a r : Nat} : Respects R (a + 1) r a r Action.lower

/-- Every part of an instruction respects the relation. -/
structure InstructionCongruence (R : Nat → Nat → Machine → Machine → Prop) : Prop
    extends Congruence R where
  peekReturn {a r : Nat} (here : Cell) : Respects R a r a r (Action.peekReturn here)
  pushReturn {a r : Nat} (here value : Cell) : Respects R a r a r (Action.pushReturn here value)
  lowerReturn {a r : Nat} : Respects R a r a r Action.lowerReturn

/-- Every part of a step respects the relation. -/
structure FullCongruence (R : Nat → Nat → Machine → Machine → Prop) : Prop
    extends InstructionCongruence R where
  counted {a r : Nat} {m m' : Machine} (op : Opcode) :
    R a r m m' → R a r (m.counted op) (m'.counted op)
  advanced {a r : Nat} {m m' : Machine} : R a r m m' → R a r m.advanced m'.advanced

namespace Respects

theorem bind {x : Action α} {f : α → Action β} (hx : Respects R a r b q x)
    (hf : ∀ v, Respects R b q c p (f v)) : Respects R a r c p (x >>= f) := by
  intro m m' h
  exact (hx m m' h).bind fun v m m' h => hf v m m' h

theorem ite {e : Prop} [Decidable e] {x y : Action α} (hx : Respects R a r b q x)
    (hy : Respects R a r b q y) : Respects R a r b q (if e then x else y) := by
  by_cases he : e
  · rw [if_pos he]
    exact hx
  · rw [if_neg he]
    exact hy

theorem pure (v : α) : Respects R a r a r (pure v) := by
  intro m m' h
  exact ⟨rfl, h⟩

end Respects

namespace Congruence

/-- Operands and free cells that are not needed any more are forgotten. -/
theorem done (hR : Congruence R) {x : Action α} (hx : Respects R a r b q x) :
    Respects R a r 0 0 x := by
  intro m m' h
  refine (hx m m' h).imp (fun m m' hdone => ?_) (fun _ _ hstopped => hstopped)
  exact hR.fewer hdone (Nat.zero_le b) (Nat.zero_le q)

theorem throw (hR : Congruence R) (fault : Fault) :
    Respects R a r b q (throw fault : Action α) := by
  intro m m' h
  exact ⟨rfl, hR.fewer h (Nat.zero_le a) (Nat.zero_le r)⟩

theorem address (hR : Congruence R) : Respects R a r a r Action.address := by
  intro m m' h
  exact ⟨hR.ip h, h⟩

theorem advance (hR : Congruence R) : Respects R a r a r Action.advance := by
  intro m m' h
  have hnext : Action.advance m' = Action.continueAt (m.ip + 1) m' := by
    rw [Action.advance, Action.continueAt, hR.ip h]
  rw [hnext]
  exact hR.continueAt (m.ip + 1) m m' h

theorem load (hR : Congruence R) (here target : Cell) :
    Respects R a r a r (Action.load here target) := by
  intro m m' h
  rw [Action.load, Action.load, hR.memory h]
  cases m.memory.get? target with
  | some v => exact ⟨rfl, h⟩
  | none => exact ⟨rfl, hR.fewer h (Nat.zero_le a) (Nat.zero_le r)⟩

theorem pop (hR : Congruence R) (here : Cell) : Respects R (a + 1) r a r (Action.pop here) := by
  refine (hR.peek here (Nat.zero_lt_succ a)).bind fun v => ?_
  refine (hR.drop here).bind fun _ => ?_
  exact Respects.pure v

/-! ## Instructions that leave the return stack alone -/

theorem literal (hR : Congruence R) : Respects R 0 1 0 0 (Action.literal here) := by
  refine hR.advance.bind fun _ => ?_
  refine hR.address.bind fun target => ?_
  refine (hR.load here target).bind fun v => ?_
  exact hR.done (hR.push here v)

theorem duplicate (hR : Congruence R) : Respects R 1 1 0 0 (Action.duplicate here) := by
  refine (hR.peek here (by omega)).bind fun v => ?_
  exact hR.done (hR.push here v)

theorem exchange (hR : Congruence R) : Respects R 2 0 0 0 (Action.exchange here) := by
  refine (hR.peek here (by omega)).bind fun top => ?_
  refine (hR.peek here (by omega)).bind fun below => ?_
  refine (hR.poke here below (by omega)).bind fun _ => ?_
  exact hR.done (hR.poke here top (by omega))

theorem jump (hR : Congruence R) : Respects R 1 0 0 0 (Action.jump here) := by
  refine (hR.peek here (by omega)).bind fun target => ?_
  refine (hR.continueAt (target - 1)).bind fun _ => ?_
  exact hR.drop here

theorem combine (hR : Congruence R) {f : Cell → Cell → Cell} :
    Respects R 2 0 0 0 (Action.combine here f) := by
  refine (hR.peek here (by omega)).bind fun below => ?_
  refine (hR.peek here (by omega)).bind fun top => ?_
  refine (hR.poke here (f below top) (by omega)).bind fun _ => ?_
  exact hR.done (hR.drop here)

theorem divide (hR : Congruence R) : Respects R 2 0 0 0 (Action.divide here) := by
  refine (hR.peek here (by omega)).bind fun divisor => ?_
  refine (hR.peek here (by omega)).bind fun dividend => ?_
  apply Respects.ite
  · exact hR.throw (.divisionByZero here)
  · refine (hR.poke here (dividend / divisor) (by omega)).bind fun _ => ?_
    exact hR.done (hR.poke here (dividend % divisor) (by omega))

theorem fetch (hR : Congruence R) : Respects R 1 0 0 0 (Action.fetch here) := by
  refine (hR.peek here (by omega)).bind fun target => ?_
  refine (hR.load here target).bind fun v => ?_
  exact hR.done (hR.poke here v (by omega))

theorem store (hR : Congruence R) : Respects R 2 0 0 0 (Action.store here) := by
  refine (hR.peek here (by omega)).bind fun target => ?_
  refine (hR.peek here (by omega)).bind fun v => ?_
  refine (hR.save here target v).bind fun _ => ?_
  refine (hR.drop here).bind fun _ => ?_
  exact hR.drop here

end Congruence

namespace InstructionCongruence

/-! ## Instructions that use the return stack -/

theorem toReturns (hR : InstructionCongruence R) : Respects R 1 0 0 0 (Action.toReturns here) := by
  refine (hR.peek here (by omega)).bind fun v => ?_
  refine (hR.pushReturn here v).bind fun _ => ?_
  exact hR.drop here

theorem fromReturns (hR : InstructionCongruence R) :
    Respects R 0 1 0 0 (Action.fromReturns here) := by
  refine (hR.peekReturn here).bind fun v => ?_
  refine (hR.push here v).bind fun _ => ?_
  exact hR.done hR.lowerReturn

theorem call (hR : InstructionCongruence R) : Respects R 1 0 0 0 (Action.call here) := by
  refine hR.address.bind fun origin => ?_
  refine (hR.pushReturn here origin).bind fun _ => ?_
  exact hR.jump

theorem conditionalCall (hR : InstructionCongruence R) :
    Respects R 2 0 0 0 (Action.conditionalCall here) := by
  refine hR.address.bind fun origin => ?_
  refine (hR.pushReturn here origin).bind fun _ => ?_
  refine (hR.pop here).bind fun target => ?_
  refine (hR.pop here).bind fun flag => ?_
  apply Respects.ite
  · exact hR.continueAt (target - 1)
  · exact Respects.pure ()

theorem goBack (hR : InstructionCongruence R) : Respects R a r a r (Action.goBack here) := by
  refine (hR.peekReturn here).bind fun target => ?_
  refine (hR.continueAt target).bind fun _ => ?_
  exact hR.lowerReturn

theorem goBackOnZero (hR : InstructionCongruence R) :
    Respects R 1 0 0 0 (Action.goBackOnZero here) := by
  refine (hR.peek here (by omega)).bind fun flag => ?_
  apply Respects.ite
  · refine (hR.drop here).bind fun _ => ?_
    exact hR.goBack
  · exact hR.done (Respects.pure ())

/-- An opcode that asks nothing of the host comes to the same on both machines. -/
theorem action (hR : InstructionCongruence R) {op : Opcode} {x : Action Unit}
    (hop : op.action? here = some x) : Respects R op.operands op.growth 0 0 x := by
  cases op, x, hop using Opcode.action?_cases with
  | operator op f hf =>
    cases op <;> first | exact hR.combine | simp [Opcode.operator?] at hf
  | nop => exact Respects.pure ()
  | lit => exact hR.literal
  | dup => exact hR.duplicate
  | drop => exact hR.drop here
  | swap => exact hR.exchange
  | push => exact hR.toReturns
  | pop => exact hR.fromReturns
  | jump => exact hR.jump
  | call => exact hR.call
  | ccall => exact hR.conditionalCall
  | ret => exact hR.goBack
  | fetch => exact hR.fetch
  | store => exact hR.store
  | divmod => exact hR.divide
  | zret => exact hR.goBackOnZero
  | stop => exact hR.continueAt Machine.haltAddress

end InstructionCongruence

end Parts

section Sessions

variable {δ δ' : Type} {H : δ → δ' → Prop}

/-- Every use of a host respects the relation. -/
structure Host.Congruence [Host δ] [Host δ'] (H : δ → δ' → Prop) : Prop where
  read {g : δ} {h : δ'} : H g h → Concur H H (Host.read g) (Host.read h)
  put {g : δ} {h : δ'} (byte : UInt8) : H g h → Concur H H (Host.put byte g) (Host.put byte h)
  flush {g : δ} {h : δ'} : H g h → Concur H H (Host.flush g) (Host.flush h)
  note {g : δ} {h : δ'} (event : Log.Event) : H g h → H (Host.note event g) (Host.note event h)

/-- An opcode that finds two hosts in the relation `K` leaves them in the relation `H`. It may have
both note that it has no meaning yet, or hand out what was emitted, and it uses a device once at
most. -/
structure Host.Passage [Host δ] [Host δ'] (op : Opcode) (K H : δ → δ' → Prop) : Prop where
  weaken {g : δ} {h : δ'} : K g h → H g h
  read {g : δ} {h : δ'} : op.reads = true → K g h → Concur H H (Host.read g) (Host.read h)
  put {g : δ} {h : δ'} (byte : UInt8) : K g h → Concur H H (Host.put byte g) (Host.put byte h)
  flush {g : δ} {h : δ'} : K g h → Concur K H (Host.flush g) (Host.flush h)
  note {g : δ} {h : δ'} (here : Cell) :
    K g h → H (Host.note (.unimplemented here) g) (Host.note (.unimplemented here) h)

theorem Host.Congruence.passage [Host δ] [Host δ'] (hH : Host.Congruence H) (op : Opcode) :
    Host.Passage op H H where
  weaken h := h
  read _ h := hH.read h
  put byte h := hH.put byte h
  flush h := hH.flush h
  note here h := hH.note (.unimplemented here) h

/-- The machines of two systems are related, and so are their hosts. -/
def Paired (M : Machine → Machine → Prop) (H : δ → δ' → Prop) (s : System δ) (t : System δ') :
    Prop :=
  M s.machine t.machine ∧ H s.host t.host

namespace Session

variable {α : Type} {here : Cell} {op : Opcode} {m m' : Machine} {g : δ} {h : δ'}
  {K : δ → δ' → Prop}

theorem concur_liftM {x y : Action α} {done stopped : Machine → Machine → Prop}
    (hxy : Concur done stopped (x m) (y m')) (hhost : H g h) :
    Concur (Paired done H) (Paired stopped H) ((liftM x : Session δ α) ⟨m, g⟩)
      ((liftM y : Session δ' α) ⟨m', h⟩) := by
  change Concur _ _ (onMachine x ⟨m, g⟩) (onMachine y ⟨m', h⟩)
  rcases hxy.cases with ⟨a, n, n', hx, hy, hdone⟩ | ⟨e, n, n', hx, hy, hstopped⟩
  · simp only [onMachine, hx, hy]
    exact ⟨rfl, hdone, hhost⟩
  · simp only [onMachine, hx, hy]
    exact ⟨rfl, hstopped, hhost⟩

theorem concur_onHost {use : EStateM IoError δ α} {use' : EStateM IoError δ' α}
    {M : Machine → Machine → Prop} (hmachine : M m m') (huse : Concur K H (use g) (use' h)) :
    Concur (Paired M K) (Paired M H) (onHost use ⟨m, g⟩) (onHost use' ⟨m', h⟩) := by
  rcases huse.cases with ⟨a, g', h', hg, hh, hhost⟩ | ⟨e, g', h', hg, hh, hhost⟩
  · simp only [onHost, hg, hh]
    exact ⟨rfl, hmachine, hhost⟩
  · simp only [onHost, hg, hh]
    exact ⟨rfl, hmachine, hhost⟩

variable [Host δ] [Host δ'] {R : Nat → Nat → Machine → Machine → Prop} {a r : Nat}

theorem concur_read {M : Machine → Machine → Prop} (hH : Host.Passage op K H)
    (hreads : op.reads = true) (hmachine : M m m') (hhost : K g h) :
    Concur (Paired M H) (Paired M H) (read (δ := δ) ⟨m, g⟩) (read (δ := δ') ⟨m', h⟩) := by
  refine (concur_onHost hmachine (hH.flush hhost)).bind fun _ s t hst => ?_
  exact concur_onHost hst.1 (hH.read hreads hst.2)

theorem concur_emit (hR : InstructionCongruence R) (hH : Host.Passage op K H)
    (hmachine : R (a + 1) r m m') (hhost : K g h) :
    Concur (Paired (R (a + 1) r) H) (Paired (R 0 0) H) (emit here (δ := δ) ⟨m, g⟩)
      (emit here (δ := δ') ⟨m', h⟩) := by
  have hpeek : Concur (Paired (R (a + 1) r) K) (Paired (R 0 0) H)
      ((liftM (Action.peek here 0) : Session δ Cell) ⟨m, g⟩)
      ((liftM (Action.peek here 0) : Session δ' Cell) ⟨m', h⟩) := by
    refine (concur_liftM (hR.peek here (Nat.zero_lt_succ a) m m' hmachine) hhost).imp
      (fun _ _ hdone => hdone) fun s t hstopped => ?_
    exact ⟨hstopped.1, hH.weaken hstopped.2⟩
  refine hpeek.bind fun value s t hst => ?_
  refine (concur_onHost hst.1 (hH.put value.lowByte hst.2)).imp (fun _ _ hdone => hdone) ?_
  intro s t hstopped
  exact ⟨hR.fewer hstopped.1 (Nat.zero_le _) (Nat.zero_le _), hstopped.2⟩

/-- An instruction comes to the same on both systems, if both have its operands and room for what
it adds. -/
theorem concur_execute (here : Cell) (hR : InstructionCongruence R) (hH : Host.Passage op K H)
    (hmachine : R op.operands op.growth m m') (hhost : K g h) :
    Concur (Paired (R 0 0) H) (Paired (R 0 0) H) (execute here op (δ := δ) ⟨m, g⟩)
      (execute here op (δ := δ') ⟨m', h⟩) := by
  have hinput : op.reads = true → R 0 1 m m' →
      Concur (Paired (R 0 0) H) (Paired (R 0 0) H)
        ((do let value ← read; Action.push here value : Session δ Unit) ⟨m, g⟩)
        ((do let value ← read; Action.push here value : Session δ' Unit) ⟨m', h⟩) := by
    intro hreads hroom
    have hread : Concur (Paired (R 0 1) H) (Paired (R 0 0) H) (read ⟨m, g⟩) (read ⟨m', h⟩) := by
      refine (concur_read hH hreads hroom hhost).imp (fun _ _ hdone => hdone)
        fun s t hstopped => ?_
      exact ⟨hR.fewer hstopped.1 (Nat.zero_le 0) (Nat.zero_le 1), hstopped.2⟩
    refine hread.bind fun value s t hst => ?_
    exact concur_liftM (hR.done (hR.push here value) _ _ hst.1) hst.2
  cases hop : op.action? here with
  | some x =>
    rw [execute_action hop, execute_action hop]
    exact concur_liftM (hR.action hop m m' hmachine) (hH.weaken hhost)
  | none =>
    rcases Opcode.action?_eq_none hop with rfl | rfl | rfl | rfl | rfl
    · exact hinput rfl hmachine
    · exact hinput rfl hmachine
    · refine (concur_emit hR hH hmachine hhost).bind fun _ s t hst => ?_
      exact concur_liftM (hR.lower _ _ hst.1) hst.2
    · refine (concur_emit hR hH hmachine hhost).imp (fun s t hdone => ?_) (fun _ _ hstop => hstop)
      exact ⟨hR.fewer hdone.1 (Nat.zero_le _) (Nat.zero_le _), hdone.2⟩
    · exact ⟨rfl, (hR.continueAt Machine.haltAddress m m' hmachine).2, hH.note here hhost⟩

/-- A dispatch comes to the same on both systems if its instruction does, on machines that have
counted it and hosts that have taken note of it. -/
theorem concur_dispatch_of_execute (hR : FullCongruence R)
    (hexecute : Concur (Paired (R 0 0) H) (Paired (R 0 0) H)
      (execute here op
        ⟨m.counted op, Host.note (.dispatched here op m.data.top m.returns.top) g⟩)
      (execute here op
        ⟨m'.counted op, Host.note (.dispatched here op m'.data.top m'.returns.top) h⟩)) :
    Concur (Paired (R 0 0) H) (Paired (R 0 0) H) (dispatch here op (δ := δ) ⟨m, g⟩)
      (dispatch here op (δ := δ') ⟨m', h⟩) := by
  rw [Concur, yields_dispatch]
  refine Yields.imp hexecute (fun _ s hok => ?_) (fun e s herror => ?_)
  · rw [yields_dispatch]
    refine hok.imp (fun _ t hst => ⟨?_, hR.advanced hst.2.1, hst.2.2⟩) (fun _ _ hfalse => hfalse)
    have hhalted : t.machine.advanced.hasHalted = s.machine.advanced.hasHalted := by
      rw [Machine.hasHalted, Machine.hasHalted, hR.ip (hR.advanced hst.2.1)]
    rw [Machine.status, Machine.status, hhalted]
  · rw [yields_dispatch]
    exact herror.imp (fun _ _ hfalse => hfalse) (fun _ _ hst => hst)

/-- A dispatch comes to the same on both systems, once both hosts have taken note of it. -/
theorem concur_dispatch (hR : FullCongruence R) (hH : Host.Passage op K H)
    (hmachine : R op.operands op.growth m m')
    (hhost : K (Host.note (.dispatched here op m.data.top m.returns.top) g)
      (Host.note (.dispatched here op m'.data.top m'.returns.top) h)) :
    Concur (Paired (R 0 0) H) (Paired (R 0 0) H) (dispatch here op (δ := δ) ⟨m, g⟩)
      (dispatch here op (δ := δ') ⟨m', h⟩) :=
  concur_dispatch_of_execute hR
    (concur_execute here hR.toInstructionCongruence hH (hR.counted op hmachine) hhost)

/-- Two systems at the same address of the same memory, to which the cell there means the same, step
alike if they dispatch alike. -/
theorem concur_step {done stopped : System δ → System δ' → Prop} {s : System δ} {t : System δ'}
    (hip : t.machine.ip = s.machine.ip) (hmemory : t.machine.memory = s.machine.memory)
    (hdecode : ∀ value, s.machine.memory.get? s.machine.ip = some value →
      t.machine.set.decode value = s.machine.set.decode value)
    (hdone : done s t) (hstopped : stopped s t)
    (hdispatch : ∀ op, s.machine.next? = some op →
      Concur done stopped (dispatch s.machine.ip op s) (dispatch s.machine.ip op t)) :
    Concur done stopped (step s) (step t) := by
  have hhalted : t.machine.hasHalted = s.machine.hasHalted := by
    rw [Machine.hasHalted, Machine.hasHalted, hip]
  simp only [step, hip, hmemory, hhalted]
  by_cases hend : s.machine.hasHalted = true
  · rw [if_pos hend, if_pos hend]
    exact ⟨rfl, hdone⟩
  · rw [if_neg hend, if_neg hend]
    cases hget : s.machine.memory.get? s.machine.ip with
    | none => exact ⟨rfl, hstopped⟩
    | some value =>
      simp only [hdecode value hget]
      cases hop : s.machine.set.decode value with
      | none => exact ⟨rfl, hstopped⟩
      | some op =>
        apply hdispatch
        rw [Machine.next?, hget, Option.bind_some, hop]

end Session

end Sessions

end CellMachine
