/-!
# Cells

A cell is the machine's only kind of word: a signed integer of 32 bits. Sums, differences and
products wrap around, a quotient is truncated toward zero, and code, data and addresses are all
cells. This file names the type and the operations on it that the instructions need beyond the
ordinary arithmetic of `Int32`.
-/

namespace CellMachine

/-- A machine word of 32 bits, read as a signed integer. -/
abbrev Cell := Int32

namespace Cell

/-- The cell that stands for a truth value: every bit set for true and no bit set for false. -/
def ofFlag (holds : Bool) : Cell :=
  if holds then -1 else 0

/-- Moves the bits of `n`. A negative count moves them left by its magnitude and any other count
moves them right and keeps the sign. A count that reaches the width of a cell moves every bit of
`n` out, so that only zero, or only the sign, is left. -/
def shift (n count : Cell) : Cell :=
  if count < 0 then
    if count ≤ -32 then 0 else n <<< (-count)
  else
    if 32 ≤ count then ofFlag (n < 0) else n >>> count

/-- The lowest eight bits of a cell, which are what a character device receives. -/
def lowByte (c : Cell) : UInt8 :=
  c.toUInt32.toUInt8

/-- The cell that holds the value of a byte, between 0 and 255. -/
def ofByte (b : UInt8) : Cell :=
  b.toUInt32.toInt32

/-- The decimal notation of a cell, with a minus sign in front of a negative one. -/
def text (c : Cell) : String :=
  c.toInt.repr

end Cell

end CellMachine
