import CellMachine.Proofs.Transcript

/-!
# A host that keeps a record

A recorder stands between a machine and its host. It passes every use of a device on, and keeps a
record of what was asked and what came of it. A machine does on a recorder what it does without one.
-/

namespace CellMachine

/-- A use of a device, with what came of it. -/
inductive Call where
  | read (outcome : Except IoError Cell)
  | put (byte : UInt8) (outcome : Except IoError Unit)
  | flush (outcome : Except IoError Unit)

/-- A host and the calls that were made to it. -/
structure Recorder (δ : Type) where
  /-- The host that the calls are passed on to. -/
  host : δ
  /-- The calls, the earliest first. -/
  calls : List Call := []

namespace Recorder

variable {δ α : Type}

/-- Passes a use of a device on, and keeps a record of it. -/
def record (call : Except IoError α → Call) (use : EStateM IoError δ α) :
    EStateM IoError (Recorder δ) α := fun r =>
  match use r.host with
  | .ok a host => .ok a ⟨host, r.calls ++ [call (.ok a)]⟩
  | .error cause host => .error cause ⟨host, r.calls ++ [call (.error cause)]⟩

instance [Host δ] : Host (Recorder δ) where
  read := record .read Host.read
  put byte := record (.put byte) (Host.put byte)
  flush := record .flush Host.flush
  note event r := { r with host := Host.note event r.host }

/-- A recorded use comes to what the use comes to. -/
theorem concur_record {δ' : Type} {H : δ → δ' → Prop} {r : Recorder δ} {h : δ'}
    {call : Except IoError α → Call} {use : EStateM IoError δ α} {use' : EStateM IoError δ' α}
    (huse : Concur H H (use r.host) (use' h)) :
    Concur (fun r h => H r.host h) (fun r h => H r.host h) (record call use r) (use' h) := by
  rcases huse.cases with ⟨a, g, h', hg, hh, hrelated⟩ | ⟨e, g, h', hg, hh, hrelated⟩
  · simp only [record, hg, hh]
    exact ⟨rfl, hrelated⟩
  · simp only [record, hg, hh]
    exact ⟨rfl, hrelated⟩

variable [Host δ]

/-- Whatever is asked of a host comes to the same through a recorder. -/
theorem congruence_host : Host.Congruence fun (r : Recorder δ) (h : δ) => r.host = h where
  read h := concur_record (h ▸ Concur.refl _)
  put _ h := concur_record (h ▸ Concur.refl _)
  flush h := concur_record (h ▸ Concur.refl _)
  note event h := congrArg (Host.note event) h

end Recorder

/-- Every use of a host comes to the same on the same host. -/
theorem Host.congruence_eq {δ : Type} [Host δ] : Host.Congruence (Eq : δ → δ → Prop) where
  read h := h ▸ Concur.refl _
  put _ h := h ▸ Concur.refl _
  flush h := h ▸ Concur.refl _
  note event h := by rw [h]

/-- What is done to a machine comes to the same on the same machine. -/
theorem Respects.of_eq {α : Type} {a r b q : Nat} {x : Action α} :
    Respects (fun _ _ => Eq) a r b q x := by
  rintro m _ rfl
  exact Concur.refl _

/-- A machine is like itself. -/
theorem Machine.likeness_eq : Likeness Eq where
  fewer h _ _ := h
  ip h := by rw [h]
  memory h := by rw [h]
  continueAt _ := .of_eq
  save _ _ _ := .of_eq
  peek _ _ _ := .of_eq
  poke _ _ _ _ := .of_eq
  push _ _ := .of_eq
  drop _ := .of_eq
  lower := .of_eq
  set h := by rw [h]
  counted op h := by rw [h]
  advanced h := by rw [h]
  peekReturn _ := .of_eq
  pushReturn _ _ := .of_eq
  lowerReturn := .of_eq
  install memory h := by rw [h]
  sp h := by rw [h]
  rp h := by rw [h]
  total h := by rw [h]
  entries h := by rw [h]

/-- A system without its record. -/
def System.erased {δ : Type} (s : System (Recorder δ)) : System δ :=
  ⟨s.machine, s.host.host⟩

/-- The answers to operations are the same with and without a record. -/
theorem Operation.performAll_erased {δ : Type} [Host δ] (ops : List Operation)
    (s : System (Recorder δ)) :
    performAll ops s.erased =
      (performAll ops s).map fun (answers, s') => (answers, s'.erased) := by
  have hagree := performAll_of_alike Machine.likeness_eq Recorder.congruence_host ops
    (s := s) (t := s.erased) ⟨rfl, rfl⟩
  rcases rel_cases hagree with ⟨hs, ht⟩ | ⟨⟨answers, s'⟩, ⟨answers', t'⟩, hs, ht, rfl, hm, hh⟩
  · rw [hs, ht, Option.map_none]
  · obtain ⟨m, h⟩ := t'
    have hend : s'.erased = ⟨m, h⟩ := by
      rw [System.erased, hm, hh]
    rw [ht, hs, Option.map_some]
    simp only [hend]

end CellMachine
