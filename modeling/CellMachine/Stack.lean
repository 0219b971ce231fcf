import CellMachine.Cell

/-!
# Stacks

A stack is a fixed number of cells and a pointer to the topmost of them. The pointer starts at the
floor cell, number 0, which is never pushed to: the first push lands in cell 1. The pointer is not
kept inside the stack. Only a cell that an operation reads or writes has to exist, and an operation
that finds no cell learns on which side of the stack it missed.

There are two views of a stack: `live` is every cell up to the pointer, the floor included, and
`entries` is what has been pushed.
-/

namespace CellMachine

/-- A stack of `n` cells. -/
structure Stack (n : Nat) where
  /-- The cells, the floor first. -/
  cells : Vector Cell n := Vector.replicate n 0
  /-- The position of the topmost cell. -/
  top : Int := 0

namespace Stack

variable {n : Nat}

/-- The side of a stack on which there is no cell. -/
inductive Miss where
  /-- Below the floor. -/
  | underflow
  /-- Past the last cell. -/
  | overflow
  deriving DecidableEq, Repr

/-- The cell that lies `depth` cells below the top. -/
def slot (s : Stack n) (depth : Nat) : Except Miss (Fin n) :=
  if s.top < depth then .error .underflow
  else if h : (s.top - depth).toNat < n then .ok ⟨(s.top - depth).toNat, h⟩
  else .error .overflow

/-- Replaces the value of a cell. -/
def set (s : Stack n) (i : Fin n) (value : Cell) : Stack n :=
  { s with cells := s.cells.set i value i.isLt }

/-- Moves the pointer up by one cell. -/
def raise (s : Stack n) : Stack n :=
  { s with top := s.top + 1 }

/-- Moves the pointer down by one cell. The cell that it leaves keeps its value. -/
def lower (s : Stack n) : Stack n :=
  { s with top := s.top - 1 }

/-- The cells up to the pointer, the floor first. -/
def live (s : Stack n) : List Cell :=
  s.cells.toList.take (s.top + 1).toNat

/-- What has been pushed and not been taken away, the earliest first. -/
def entries (s : Stack n) : List Cell :=
  s.live.tail

/-- The last `limit` entries, each with its position in the stack. -/
def trailing (s : Stack n) (limit : Nat) : List (Nat × Cell) :=
  let numbered := s.entries.zipIdx 1
  (numbered.drop (numbered.length - limit)).map fun (value, i) => (i, value)

/-- A cell exists at a depth exactly when the pointer is that far above it. -/
theorem slot_eq_ok_iff {s : Stack n} {depth : Nat} {i : Fin n} :
    s.slot depth = .ok i ↔ s.top = i + depth := by
  unfold slot
  constructor
  · intro h
    split at h
    · simp at h
    · split at h
      · rw [Except.ok.injEq] at h
        subst h
        simp only
        omega
      · simp at h
  · intro h
    have htoNat : (s.top - depth).toNat = i := by omega
    rw [if_neg (by omega), dif_pos (htoNat ▸ i.isLt)]
    simp only [htoNat]

/-- An operation misses below the floor exactly when the pointer is lower than its depth. -/
theorem slot_eq_underflow_iff {s : Stack n} {depth : Nat} :
    s.slot depth = .error .underflow ↔ s.top < depth := by
  unfold slot
  split
  · simp_all
  · split <;> simp_all

/-- An operation misses past the last cell exactly when the pointer is too high for its depth. -/
theorem slot_eq_overflow_iff {s : Stack n} {depth : Nat} :
    s.slot depth = .error .overflow ↔ (n + depth : Int) ≤ s.top := by
  unfold slot
  split
  · simp
    omega
  · split
    · simp
      omega
    · simp
      omega

/-- The entries are the cells above the floor, up to the pointer. -/
theorem entries_eq (s : Stack n) : s.entries = (s.cells.toList.drop 1).take s.top.toNat := by
  rw [entries, live, ← List.drop_one, List.drop_take]
  congr 1
  omega

end Stack

end CellMachine
