import CellMachine.Opcode
import CellMachine.Text.Field

/-!
# Runtime statistics

How often each opcode was dispatched and how far the two stack pointers rose. The statistics are
kept for the report only: no instruction reads them back.
-/

namespace CellMachine

/-- The counters of a machine. -/
structure Statistics where
  /-- The number of dispatches of each opcode, in counter order. -/
  counts : Vector Nat 32 := Vector.replicate 32 0
  /-- The highest position that the data stack pointer has had. -/
  maxSp : Int := 0
  /-- The highest position that the return stack pointer has had. -/
  maxRp : Int := 0
  deriving DecidableEq, Repr

namespace Statistics

/-- The statistics of a machine that has done nothing. -/
instance : Inhabited Statistics :=
  ⟨{}⟩

/-- Counts one dispatch of an opcode. -/
def record (op : Opcode) (s : Statistics) : Statistics :=
  { s with counts := s.counts.set op.index (s.counts[op.index] + 1) }

/-- Keeps the high-water marks of the two stack pointers current. -/
def checkpoint (sp rp : Int) (s : Statistics) : Statistics :=
  { s with maxSp := max s.maxSp sp, maxRp := max s.maxRp rp }

/-- The number of dispatches of an opcode. -/
def count (s : Statistics) (op : Opcode) : Nat :=
  s.counts[op.index]

/-- The number of dispatches of all opcodes together. -/
def total (s : Statistics) : Nat :=
  Opcode.all.foldl (fun sum op => sum + s.count op) 0

/-- One line of the report: a label in a field of nine characters and a number. -/
def line (label number : String) : String :=
  Text.padRight 9 label ++ number ++ "\n"

/-- The opcodes that have a line in the report: an extension opcode has one only if it was
used. -/
def listed (s : Statistics) : List Opcode :=
  Opcode.all.filter fun op => !op.isExtension || s.count op != 0

/-- The report on a run. -/
def report (s : Statistics) : String :=
  "Runtime Statistics\n"
    ++ String.join (s.listed.map fun op => line (op.mnemonic ++ ":") (s.count op).repr)
    ++ line "Max sp:" s.maxSp.repr
    ++ line "Max rp:" s.maxRp.repr
    ++ "Total opcodes processed: " ++ s.total.repr ++ "\n"

/-- A machine that has done nothing has dispatched no opcode. -/
@[simp] theorem count_default (op : Opcode) : ({} : Statistics).count op = 0 := by
  simp [count]

/-- A recorded dispatch raises the count of its opcode by one and leaves the others alone. -/
@[simp] theorem count_record (s : Statistics) (op other : Opcode) :
    (s.record op).count other = if op = other then s.count other + 1 else s.count other := by
  by_cases h : op = other
  · subst h
    simp [count, record]
  · have hindex : op.index.val ≠ other.index.val := fun heq =>
      h (Opcode.index_injective (Fin.ext heq))
    simp [count, record, h, hindex]

/-- The high-water marks have no part in the counts. -/
@[simp] theorem count_checkpoint (s : Statistics) (sp rp : Int) (op : Opcode) :
    (s.checkpoint sp rp).count op = s.count op :=
  rfl

end Statistics

end CellMachine
