import CellMachine.Machine

/-!
# Addresses

A cell that refers to memory is the number of a position, and the cells that are no addresses are
those below zero and those past the end of memory, where a machine halts.
-/

namespace CellMachine.Memory

/-- A cell that refers to no position is below zero or past the end of memory. -/
theorem locate?_eq_none_iff {address : Cell} :
    locate? address = none ↔ address.toInt < 0 ∨ 262144 ≤ address.toInt := by
  constructor
  · intro hnone
    rcases Int.lt_or_le address.toInt 0 with hlt | hle
    · exact .inl hlt
    · rcases Int.lt_or_le address.toInt 262144 with hin | hout
      · have hlt : address.toInt.toNat < 262144 := by omega
        have hat : address.toInt = (⟨address.toInt.toNat, hlt⟩ : Fin size) := by
          simp only
          omega
        rw [locate?_eq_some_iff.mpr hat] at hnone
        simp at hnone
      · exact .inr hout
  · intro hout
    cases hlocate : locate? address with
    | none => rfl
    | some i =>
      have hat := locate?_eq_some_iff.mp hlocate
      have hlt : i.val < 262144 := i.isLt
      omega

/-- Only the addresses below zero, and those that halt a machine, lie outside memory. -/
theorem get?_eq_none_iff {memory : Memory} {address : Cell} :
    memory.get? address = none ↔ address < 0 ∨ Machine.haltAddress ≤ address := by
  have hneg : address < 0 ↔ address.toInt < 0 := Int32.lt_iff_toInt_lt
  have hhigh : Machine.haltAddress ≤ address ↔ 262144 ≤ address.toInt := Int32.le_iff_toInt_le
  rw [get?, Option.map_eq_none_iff, hneg, hhigh]
  exact locate?_eq_none_iff

/-- A cell that was written from address 0 on is found at the address that is its number. -/
theorem get?_write (memory : Memory) {cells : List Cell} {i : Nat} {value : Cell}
    (hvalue : cells[i]? = some value) (hi : i < 262144) :
    (memory.write 0 cells).get? (Int32.ofNat i) = some value := by
  have hat : (Int32.ofNat i).toInt = (⟨i, hi⟩ : Fin size) := Int32.toInt_ofNat_of_lt (by omega)
  rw [get?, locate?_eq_some_iff.mpr hat, Option.map_some]
  congr 1
  change (put memory.cells 0 cells)[i] = value
  rw [getElem_put, if_pos (Nat.zero_le i), Nat.sub_zero, hvalue, Option.getD_some]

end CellMachine.Memory
