import CellMachine.Proofs.Concurrence
import CellMachine.Proofs.History

/-!
# Operations side by side

The owner of a machine performs one operation after the other, whatever those before came to, and
keeps the answers. Two systems whose machines and hosts are alike, in a sense that every part of
every operation respects, give the same answers and stay alike.
-/

namespace CellMachine

/-- What a result tells the one who asked. -/
def answerOf {ε σ α : Type} : EStateM.Result ε σ α → Except ε α
  | .ok a _ => .ok a
  | .error e _ => .error e

theorem Concur.stateAfter {ε σ τ α : Type} {P : σ → τ → Prop} {first : EStateM.Result ε σ α}
    {second : EStateM.Result ε τ α} (h : Concur P P first second) :
    P (stateAfter first) (CellMachine.stateAfter second) := by
  rcases h.cases with ⟨_, _, _, rfl, rfl, hdone⟩ | ⟨_, _, _, rfl, rfl, hstopped⟩
  · exact hdone
  · exact hstopped

theorem Concur.answerOf {ε σ τ α : Type} {P : σ → τ → Prop} {first : EStateM.Result ε σ α}
    {second : EStateM.Result ε τ α} (h : Concur P P first second) :
    CellMachine.answerOf second = answerOf first := by
  rcases h.cases with ⟨_, _, _, rfl, rfl, _⟩ | ⟨_, _, _, rfl, rfl, _⟩ <;> rfl

/-- Two related options are both nothing, or both something. -/
theorem rel_cases {α β : Type} {R : α → β → Prop} {first : Option α} {second : Option β}
    (h : Option.Rel R first second) :
    (first = none ∧ second = none) ∨ ∃ a b, first = some a ∧ second = some b ∧ R a b := by
  cases h with
  | none => exact .inl ⟨rfl, rfl⟩
  | some hab => exact .inr ⟨_, _, rfl, rfl, hab⟩

/-- Every part of an operation respects a relation between machines, and the owner sees no
difference between the two. -/
structure Machine.Resemblance (M : Machine → Machine → Prop) : Prop
    extends FullCongruence fun _ _ => M where
  set {m m' : Machine} : M m m' → m'.set = m.set
  install {m m' : Machine} (memory : Memory) : M m m' → M { m with memory } { m' with memory }
  sp {m m' : Machine} : M m m' → m'.sp = m.sp
  rp {m m' : Machine} : M m m' → m'.rp = m.rp
  entries {m m' : Machine} : M m m' → m'.data.entries = m.data.entries

/-- The log shows no difference between the two, either. -/
structure Machine.Likeness (M : Machine → Machine → Prop) : Prop
    extends Machine.Resemblance M where
  total {m m' : Machine} : M m m' → m'.statistics.total = m.statistics.total

section Alike

variable {δ δ' : Type} [Host δ] [Host δ'] {M : Machine → Machine → Prop} {H : δ → δ' → Prop}
  {s : System δ} {t : System δ'}

namespace Session

/-- Two systems that are alike step alike. -/
theorem concur_step_of_alike (hM : Machine.Resemblance M) (hH : Host.Congruence H)
    (h : Paired M H s t) : Concur (Paired M H) (Paired M H) (step s) (step t) := by
  obtain ⟨m, g⟩ := s
  obtain ⟨m', g'⟩ := t
  obtain ⟨hmachine, hhost⟩ := h
  refine concur_step (hM.ip (a := 0) (r := 0) hmachine) (hM.memory (a := 0) (r := 0) hmachine)
    (fun _ _ => by rw [hM.set hmachine]) ⟨hmachine, hhost⟩ ⟨hmachine, hhost⟩ fun op _ => ?_
  apply concur_dispatch hM.toFullCongruence (hH.passage op) hmachine
  have hsp : m'.data.top = m.data.top := hM.sp hmachine
  have hrp : m'.returns.top = m.returns.top := hM.rp hmachine
  rw [hsp, hrp]
  exact hH.note _ hhost

/-- Two systems that are in step run alike, for as many steps as it takes. -/
theorem concur_runToHalt {P : System δ → System δ' → Prop}
    (hstep : ∀ s t, P s t → Concur P P (step s) (step t)) (h : P s t) (fuel : Nat) :
    Option.Rel (Concur P P) (runToHalt fuel s) (runToHalt fuel t) := by
  induction fuel generalizing s t with
  | zero => exact .none
  | succ fuel ih =>
    rw [runToHalt, runToHalt]
    rcases (hstep s t h).cases with ⟨status, s', t', hs, ht, hnext⟩ | ⟨e, s', t', hs, ht, hnext⟩
    · rw [hs, ht]
      cases status with
      | running => exact ih hnext
      | halted => exact .some ⟨rfl, hnext⟩
    · rw [hs, ht]
      exact .some ⟨rfl, hnext⟩

theorem concur_announceHalt (hM : Machine.Likeness M)
    (hnote : ∀ {g : δ} {h : δ'} (event : Log.Event), H g h →
      H (Host.note event g) (Host.note event h))
    (h : Paired M H s t) :
    Concur (Paired M H) (Paired M H) (announceHalt s) (announceHalt t) := by
  refine ⟨rfl, h.1, ?_⟩
  rw [hM.total h.1, hM.sp h.1, hM.rp h.1]
  exact hnote _ h.2

variable {K : δ → δ' → Prop}

/-- Two runs that went alike end alike, if what they emitted is handed out alike and the end of both
can be announced. -/
theorem concur_settle
    (hflush : ∀ {g : δ} {h : δ'}, H g h → Concur K K (Host.flush g) (Host.flush h))
    (hhalt : ∀ {s : System δ} {t : System δ'}, Paired M K s t →
      Concur (Paired M K) (Paired M K) (announceHalt s) (announceHalt t))
    {first : EStateM.Result Fault (System δ) Unit} {second : EStateM.Result Fault (System δ') Unit}
    (h : Concur (Paired M H) (Paired M H) first second) :
    Concur (Paired M K) (Paired M K) (settle first) (settle second) := by
  rcases h.cases with ⟨_, s, t, rfl, rfl, hst⟩ | ⟨fault, s, t, rfl, rfl, hst⟩
  · exact (concur_onHost hst.1 (hflush hst.2)).bind fun _ s t hst => hhalt hst
  · exact (concur_onHost hst.1 (hflush hst.2)).bind fun _ s t hst => ⟨rfl, hst⟩

/-- Two systems that resemble each other run alike, and both runs end or neither does. -/
theorem concur_run (hM : Machine.Resemblance M) (hH : Host.Congruence H)
    (hflush : ∀ {g : δ} {h : δ'}, H g h → Concur K K (Host.flush g) (Host.flush h))
    (hhalt : ∀ {s : System δ} {t : System δ'}, Paired M K s t →
      Concur (Paired M K) (Paired M K) (announceHalt s) (announceHalt t))
    (h : Paired M H s t) (fuel : Nat) :
    Option.Rel (Concur (Paired M K) (Paired M K)) (run fuel s) (run fuel t) := by
  have hloop := concur_runToHalt (fun _ _ => concur_step_of_alike hM hH) h fuel
  rw [run, run]
  rcases rel_cases hloop with ⟨hs, ht⟩ | ⟨first, second, hs, ht, hended⟩
  · rw [hs, ht]
    exact .none
  · rw [hs, ht]
    exact .some (concur_settle hflush hhalt hended)

theorem concur_note (hH : Host.Congruence H) (event : Log.Event) (h : Paired M H s t) :
    Concur (Paired M H) (Paired M H) (note event s) (note event t) :=
  ⟨rfl, h.1, hH.note event h.2⟩

theorem concur_install (hM : Machine.Resemblance M) (hH : Host.Congruence H)
    (transfer : Memory.Transfer) (h : Paired M H s t) :
    Concur (Paired M H) (Paired M H) (install transfer s) (install transfer t) := by
  have hmodify : Concur (Paired M H) (Paired M H)
      ((modify fun s => { s with machine.memory := transfer.memory } : Session δ Unit) s)
      ((modify fun t => { t with machine.memory := transfer.memory } : Session δ' Unit) t) :=
    ⟨rfl, hM.install transfer.memory h.1, h.2⟩
  refine hmodify.bind fun _ s t hst => ?_
  have hwarn : Concur (Paired M H) (Paired M H) (warn transfer.discarded s)
      (warn transfer.discarded t) := by
    unfold warn
    by_cases hnone : transfer.discarded = 0
    · rw [if_pos hnone, if_pos hnone]
      exact ⟨rfl, hst⟩
    · rw [if_neg hnone, if_neg hnone]
      exact concur_note hH _ hst
  exact hwarn.bind fun _ s t hst => ⟨rfl, hst⟩

theorem concur_loadProgram (hM : Machine.Resemblance M) (hH : Host.Congruence H)
    (deliveries : List Delivery) (h : Paired M H s t) :
    Concur (Paired M H) (Paired M H) (loadProgram deliveries s) (loadProgram deliveries t) := by
  rw [loadProgram, loadProgram, hM.memory (a := 0) (r := 0) h.1]
  cases s.machine.memory.receive 0 deliveries with
  | ok transfer => exact concur_install hM hH transfer h
  | error cause => exact ⟨rfl, h⟩

theorem concur_loadImage (hM : Machine.Resemblance M) (hH : Host.Congruence H) (path : String)
    (found : Except IoError (List UInt8)) (h : Paired M H s t) :
    Concur (Paired M H) (Paired M H) (loadImage path found s) (loadImage path found t) := by
  rw [loadImage, loadImage, hM.memory (a := 0) (r := 0) h.1]
  cases s.machine.memory.loadImage path found with
  | ok transfer =>
    refine (concur_install hM hH transfer h).bind fun stored s t hst => ?_
    exact (concur_note hH _ hst).bind fun _ s t hst => ⟨rfl, hst⟩
  | error fault => exact ⟨rfl, h⟩

end Session

namespace Operation

/-- Every operation answers alike on two systems that are alike, and leaves them alike. -/
theorem concur_perform (hM : Machine.Resemblance M) (hH : Host.Congruence H)
    (hhalt : ∀ {s : System δ} {t : System δ'}, Paired M H s t →
      Concur (Paired M H) (Paired M H) (Session.announceHalt s) (Session.announceHalt t))
    (op : Operation) (h : Paired M H s t) :
    Option.Rel (Concur (Paired M H) (Paired M H)) (op.perform s) (op.perform t) := by
  have hmemory : t.machine.memory = s.machine.memory := hM.memory (a := 0) (r := 0) h.1
  cases op with
  | loadCells cells =>
    refine .some (Concur.map _ ?_)
    rw [Session.loadCells, Session.loadCells, hmemory]
    exact Session.concur_install hM hH _ h
  | loadProgram deliveries => exact .some ((Session.concur_loadProgram hM hH deliveries h).map _)
  | loadImage path found => exact .some ((Session.concur_loadImage hM hH path found h).map _)
  | step => exact .some ((Session.concur_step_of_alike hM hH h).map _)
  | run fuel =>
    rw [perform, perform]
    rcases rel_cases (Session.concur_run hM hH hH.flush hhalt h fuel) with
      ⟨hs, ht⟩ | ⟨first, second, hs, ht, hended⟩
    · rw [hs, ht]
      exact .none
    · rw [hs, ht]
      rcases hended.cases with ⟨_, s', t', rfl, rfl, hst⟩ | ⟨fault, s', t', rfl, rfl, hst⟩
      · exact .some ⟨rfl, hst⟩
      · exact .some ⟨rfl, hst⟩
  | stack =>
    refine .some ⟨?_, h⟩
    rw [hM.entries h.1]
  | stackTail limit =>
    refine .some ⟨?_, h⟩
    rw [Stack.trailing, Stack.trailing, hM.entries h.1]
  | cell address =>
    refine .some ⟨?_, h⟩
    rw [hmemory]
  | slice start length =>
    refine .some ⟨?_, h⟩
    rw [hmemory]

/-- Performs operations one after the other, whatever they come to, and keeps their answers. There
are none if a run among them does not end. -/
def performAll : List Operation → System δ → Option (List (Except Fault Answer) × System δ)
  | [], s => some ([], s)
  | op :: rest, s =>
    match op.perform s with
    | none => none
    | some result =>
      (performAll rest (stateAfter result)).map fun (answers, s') =>
        (answerOf result :: answers, s')

/-- Two systems that resemble each other answer all operations alike, and still do after them, if
the ends of their runs can be announced. -/
theorem performAll_of_resemblance (hM : Machine.Resemblance M) (hH : Host.Congruence H)
    (hhalt : ∀ {s : System δ} {t : System δ'}, Paired M H s t →
      Concur (Paired M H) (Paired M H) (Session.announceHalt s) (Session.announceHalt t))
    (ops : List Operation) (h : Paired M H s t) :
    Option.Rel (fun first second => second.1 = first.1 ∧ Paired M H first.2 second.2)
      (performAll ops s) (performAll ops t) := by
  induction ops generalizing s t with
  | nil => exact .some ⟨rfl, h⟩
  | cons op rest ih =>
    rw [performAll, performAll]
    rcases rel_cases (concur_perform hM hH hhalt op h) with
      ⟨hs, ht⟩ | ⟨first, second, hs, ht, hconcur⟩
    · rw [hs, ht]
      exact .none
    · rw [hs, ht]
      rcases rel_cases (ih hconcur.stateAfter) with ⟨hs', ht'⟩ | ⟨_, _, hs', ht', hanswers, hst⟩
      · simp only [hs', ht', Option.map_none]
        exact .none
      · simp only [hs', ht', Option.map_some, hanswers, hconcur.answerOf]
        exact .some ⟨rfl, hst⟩

/-- Two systems that are alike answer all operations alike, and are alike after them. -/
theorem performAll_of_alike (hM : Machine.Likeness M) (hH : Host.Congruence H)
    (ops : List Operation) (h : Paired M H s t) :
    Option.Rel (fun first second => second.1 = first.1 ∧ Paired M H first.2 second.2)
      (performAll ops s) (performAll ops t) :=
  performAll_of_resemblance hM.toResemblance hH (Session.concur_announceHalt hM hH.note) ops h

end Operation

end Alike

end CellMachine
