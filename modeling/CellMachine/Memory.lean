import CellMachine.Cell

/-!
# Memory

The memory of the machine is a fixed number of cells, all zero at first. An instruction refers to
a single cell by a cell that holds its address, and learns when the address lies outside memory.
Whole runs of cells are read and written at natural addresses, and the part of a run that lies
past the end of memory is left out.
-/

namespace CellMachine

/-- The number of cells in memory. -/
abbrev Memory.size : Nat := 262144

/-- A store of a fixed number of cells. -/
structure Memory where
  /-- The cells, in the order of their addresses. -/
  cells : Vector Cell Memory.size := Vector.replicate Memory.size 0

namespace Memory

/-- Memory as it is at first: every cell is zero. -/
def blank : Memory := {}

/-- The position that a cell refers to, if it is the address of a cell in memory. -/
def locate? (address : Cell) : Option (Fin size) :=
  if h : 0 ≤ address ∧ address.toNatClampNeg < size then some ⟨address.toNatClampNeg, h.2⟩ else none

/-- The cell at an address, if the address lies in memory. -/
def get? (memory : Memory) (address : Cell) : Option Cell :=
  (locate? address).map fun i => memory.cells[i]

/-- Stores a cell at a position. -/
def set (memory : Memory) (i : Fin size) (value : Cell) : Memory :=
  { memory with cells := memory.cells.set i value i.isLt }

/-- Stores a cell at an address, if the address lies in memory. -/
def set? (memory : Memory) (address value : Cell) : Option Memory :=
  (locate? address).map fun i => memory.set i value

/-- The number of cells of a run of `length` cells from `start` that lie in memory. -/
def room (start length : Nat) : Nat :=
  min length (size - start)

/-- The cells of a run that lie in memory. -/
def slice (memory : Memory) (start length : Nat) : List Cell :=
  (memory.cells.extract start (start + length)).toList

/-- Stores the members of a list at `start` and the addresses after it. -/
def put (cells : Vector Cell size) : (start : Nat) → List Cell → Vector Cell size
  | _, [] => cells
  | start, value :: rest => put (cells.setIfInBounds start value) (start + 1) rest

/-- Stores a run of cells from `start` on. What would fall past the end of memory is discarded:
`room start values.length` cells are stored. -/
def write (memory : Memory) (start : Nat) (values : List Cell) : Memory :=
  { memory with cells := put memory.cells start values }

/-- Stores one value in every cell of a run that lies in memory. -/
def fill (memory : Memory) (start length : Nat) (value : Cell) : Memory :=
  memory.write start (List.replicate (room start length) value)

/-- A cell refers to a position exactly when it is the number of that position. -/
theorem locate?_eq_some_iff {address : Cell} {i : Fin size} :
    locate? address = some i ↔ address.toInt = i := by
  have hnonneg : 0 ≤ address ↔ 0 ≤ address.toInt := Int32.le_iff_toInt_le
  have hclamp : address.toNatClampNeg = address.toInt.toNat := rfl
  unfold locate?
  constructor
  · intro h
    split at h
    · rename_i hin
      rw [Option.some.injEq] at h
      subst h
      have hle := hnonneg.mp hin.1
      simp only
      omega
    · simp at h
  · intro h
    have hi := i.isLt
    have hat : address.toNatClampNeg = i := by omega
    rw [dif_pos ⟨hnonneg.mpr (by omega), by omega⟩]
    simp only [hat]

/-- After a run is stored, a position holds the member of the run that fell on it, or else what it
held before. -/
theorem getElem_put (cells : Vector Cell size) (start : Nat) (values : List Cell) (i : Nat)
    (hi : i < size) :
    (put cells start values)[i] =
      if start ≤ i then values[i - start]?.getD cells[i] else cells[i] := by
  induction values generalizing cells start with
  | nil => simp [put]
  | cons value rest ih =>
    rw [put, ih]
    rcases Nat.lt_trichotomy i start with h | rfl | h
    · rw [if_neg (show ¬start + 1 ≤ i by omega), if_neg (show ¬start ≤ i by omega),
        Vector.getElem_setIfInBounds hi, if_neg (show start ≠ i by omega)]
    · rw [if_neg (show ¬i + 1 ≤ i by omega), if_pos (Nat.le_refl i),
        Vector.getElem_setIfInBounds hi, if_pos rfl, Nat.sub_self]
      rfl
    · rw [if_pos (show start + 1 ≤ i by omega), if_pos (show start ≤ i by omega),
        Vector.getElem_setIfInBounds hi, if_neg (show start ≠ i by omega),
        show i - start = i - (start + 1) + 1 by omega, List.getElem?_cons_succ]

/-- A slice is what stands between its two ends. -/
theorem slice_eq (memory : Memory) (start length : Nat) :
    memory.slice start length = (memory.cells.toList.drop start).take length := by
  rw [slice, Vector.toList_extract, Nat.add_sub_cancel_left]

/-- A slice has as many cells as there is room for. -/
@[simp] theorem length_slice (memory : Memory) (start length : Nat) :
    (memory.slice start length).length = room start length := by
  simp only [slice_eq, List.length_take, List.length_drop, Vector.length_toList, room]

end Memory

end CellMachine
