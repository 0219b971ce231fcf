import CellMachine.Memory.Transfer
import CellMachine.Proofs.GuardsHold

/-!
# Histories of a memory

The owner of a memory stores runs of cells, images and single cells in it, and fills runs with one
value. However many such edits are made, and wherever they reach, a memory is nothing but a function
from addresses to values: an address holds what the last edit that reached it left there.

The same edits can be made to a plain array, which knows no more than its cells. There the ends of a
run are found with sums that are cut off at the largest length, the run is cut out between them, and
as many cells have to be put back as were taken. No guard of these ever fails, and the array goes
through the same cells as the memory.
-/

namespace CellMachine

namespace Memory

/-- A change that the owner of a memory can ask for. An image that is received from address 0 on is
a program that is loaded. -/
inductive Edit where
  | write (start : Nat) (values : List Cell)
  | receive (start : Nat) (deliveries : List Delivery)
  | set (address value : Cell)
  | fill (start length : Nat) (value : Cell)

/-- What an edit answers. -/
inductive Reply where
  /-- So many cells were stored. -/
  | stored (count : Nat)
  /-- The image could not be had. -/
  | failed (cause : IoError)
  /-- The address lies outside memory. -/
  | outside

namespace Edit

/-- Makes an edit. -/
def perform (edit : Edit) (memory : Memory) : Reply × Memory :=
  match edit with
  | write start values =>
    let transfer := memory.transfer start values
    (.stored transfer.stored, transfer.memory)
  | receive start deliveries =>
    match memory.receive start deliveries with
    | .ok transfer => (.stored transfer.stored, transfer.memory)
    | .error cause => (.failed cause, memory)
  | set address value =>
    match memory.set? address value with
    | some memory => (.stored 1, memory)
    | none => (.outside, memory)
  | fill start length value => (.stored (room start length), memory.fill start length value)

/-- Makes edits one after the other. -/
def performAll : List Edit → Memory → List Reply × Memory
  | [], memory => ([], memory)
  | edit :: rest, memory =>
    let (reply, memory) := edit.perform memory
    let (replies, memory) := performAll rest memory
    (reply :: replies, memory)

/-- The value that an edit leaves at an address, if it reaches that address. -/
def written? (edit : Edit) (i : Nat) : Option Cell :=
  match edit with
  | write start values => if start ≤ i then values[i - start]? else none
  | receive start deliveries =>
    match Delivery.collect deliveries with
    | .ok image => if start ≤ i then (Image.decode image)[i - start]? else none
    | .error _ => none
  | set address value => if address.toInt = i then some value else none
  | fill start length value => if start ≤ i ∧ i < start + length then some value else none

end Edit

/-- The value that the last edit to reach an address left there. It is zero if no edit did. -/
def lastWritten (edits : List Edit) (i : Nat) : Cell :=
  (edits.reverse.findSome? fun edit => edit.written? i).getD 0

/-! ## What an edit leaves in memory -/

theorem getElem_write (memory : Memory) (start : Nat) (values : List Cell) {i : Nat}
    (hi : i < size) :
    (memory.write start values).cells[i] =
      (if start ≤ i then values[i - start]? else none).getD memory.cells[i] := by
  change (put memory.cells start values)[i] = _
  rw [getElem_put]
  split
  · rfl
  · rfl

theorem set?_of_locate {memory : Memory} {address value : Cell} {i : Fin size}
    (h : locate? address = some i) : memory.set? address value = some (memory.set i value) := by
  rw [set?, h, Option.map_some]

theorem set?_of_outside {memory : Memory} {address value : Cell} (h : locate? address = none) :
    memory.set? address value = none := by
  rw [set?, h, Option.map_none]

/-- An edit leaves its value at the addresses that it reaches and changes no other cell. -/
theorem Edit.getElem_perform (edit : Edit) (memory : Memory) {i : Nat} (hi : i < size) :
    (edit.perform memory).2.cells[i] = (edit.written? i).getD memory.cells[i] := by
  cases edit with
  | write start values => exact getElem_write memory start values hi
  | receive start deliveries =>
    rw [written?]
    cases hcollect : Delivery.collect deliveries with
    | ok image =>
      simp only [perform, Memory.receive, hcollect, Except.map]
      exact getElem_write memory start (Image.decode image) hi
    | error cause =>
      simp only [perform, Memory.receive, hcollect, Except.map]
      rfl
  | set address value =>
    rw [written?]
    cases hlocate : locate? address with
    | some j =>
      have hat := locate?_eq_some_iff.mp hlocate
      simp only [perform, set?_of_locate hlocate, Memory.set, Vector.getElem_set]
      by_cases hij : j.val = i
      · rw [if_pos hij, if_pos (by omega), Option.getD_some]
      · rw [if_neg hij, if_neg (by omega), Option.getD_none]
    | none =>
      have hout := locate?_eq_none_iff.mp hlocate
      have hsize : i < 262144 := hi
      rw [if_neg (by omega), Option.getD_none]
      simp only [perform, set?_of_outside hlocate]
  | fill start length value =>
    rw [written?, perform, Memory.fill, getElem_write memory start _ hi]
    congr 1
    have hsize : i < 262144 := hi
    by_cases hin : start ≤ i ∧ i < start + length
    · rw [if_pos hin, if_pos hin.1, List.getElem?_replicate,
        if_pos (by simp only [room, size]; omega)]
    · rw [if_neg hin]
      split
      · rw [List.getElem?_replicate, if_neg (by simp only [room, size]; omega)]
      · rfl

/-- After any edits an address holds what the last of them to reach it left there, or else what it
held before. -/
theorem Edit.getElem_performAll (edits : List Edit) (memory : Memory) {i : Nat} (hi : i < size) :
    (performAll edits memory).2.cells[i] =
      (edits.reverse.findSome? fun edit => edit.written? i).getD memory.cells[i] := by
  induction edits generalizing memory with
  | nil => rfl
  | cons edit rest ih =>
    change (performAll rest (edit.perform memory).2).2.cells[i] = _
    rw [ih, getElem_perform edit memory hi, List.reverse_cons, List.findSome?_append,
      List.findSome?_singleton]
    cases rest.reverse.findSome? fun edit => edit.written? i with
    | some value => rfl
    | none => rfl

theorem getElem_of_history (edits : List Edit) {i : Nat} (hi : i < size) :
    (Edit.performAll edits blank).2.cells[i] = lastWritten edits i := by
  have hblank : blank.cells[i] = 0 := Vector.getElem_replicate hi
  rw [Edit.getElem_performAll edits blank hi, lastWritten, hblank]

/-! ## What a memory shows -/

/-- A slice of a memory is the part of its values that lies between two ends in memory. -/
theorem slice_eq_map {memory : Memory} {values : Nat → Cell}
    (hvalues : ∀ i (hi : i < size), memory.cells[i] = values i) (start length : Nat) :
    memory.slice start length =
      (List.range' start (min (start + length) size - start)).map values := by
  have hlength : room start length = min (start + length) size - start := by
    simp only [room]
    omega
  apply List.ext_getElem
  · rw [length_slice, List.length_map, List.length_range', hlength]
  · intro i hi hi'
    rw [length_slice, hlength] at hi
    simp only [slice_eq, List.getElem_take, List.getElem_drop, List.getElem_map,
      List.getElem_range', Nat.one_mul, Vector.getElem_toList]
    exact hvalues (start + i) (by omega)

/-- A cell is shown exactly when its address lies in memory. -/
theorem get?_eq_ite {memory : Memory} {values : Nat → Cell}
    (hvalues : ∀ i (hi : i < size), memory.cells[i] = values i) (address : Cell) :
    memory.get? address =
      if 0 ≤ address.toInt ∧ address.toInt < size then some (values address.toInt.toNat)
      else none := by
  rw [get?]
  cases hlocate : locate? address with
  | some i =>
    have hat := locate?_eq_some_iff.mp hlocate
    have hin := i.isLt
    rw [if_pos (by omega), Option.map_some, show address.toInt.toNat = i by omega]
    exact congrArg some (hvalues i i.isLt)
  | none =>
    have hout := locate?_eq_none_iff.mp hlocate
    rw [if_neg (by simp only [size]; omega), Option.map_none]

end Memory

/-! ## Edits of a plain array -/

namespace Guarded

/-- The index of the first cell of a run and that of the first cell after it, both cut off at the
end of an array. -/
def ends (cells : List Cell) (start length : Nat) : Nat × Nat :=
  (min start cells.length, min (min (start + length) largestLength) cells.length)

/-- The part of a run that lies in an array. -/
def run (cells : List Cell) (start length : Nat) : Except Trap (List Cell) :=
  cut cells (ends cells start length).1 (ends cells start length).2

/-- Changes the part of a run that lies in an array, which must keep its length. -/
def changeRun (cells : List Cell) (start length : Nat)
    (change : List Cell → Except Trap (List Cell)) : Except Trap (Nat × List Cell) := do
  let taken ← run cells start length
  let given ← change taken
  if given.length = taken.length then
    return (taken.length,
      cells.take (ends cells start length).1 ++ given ++ cells.drop (ends cells start length).2)
  else throw .index

/-- The cell at an address, if there is one. -/
def cellIn (cells : List Cell) (address : Cell) : Except Trap (Option Cell) :=
  if address < 0 then .ok none else (run cells address.toNatClampNeg 1).map List.head?

/-- Writes as many of the values as there is room for. -/
def writeRun (cells : List Cell) (start : Nat) (values : List Cell) :
    Except Trap (Memory.Reply × List Cell) :=
  (changeRun cells start values.length fun taken => cut values 0 taken.length).map
    fun (count, cells) => (.stored count, cells)

/-- Makes an edit. -/
def edit (cells : List Cell) : Memory.Edit → Except Trap (Memory.Reply × List Cell)
  | .write start values => writeRun cells start values
  | .receive start deliveries =>
    match Delivery.collect deliveries with
    | .ok image => writeRun cells start (Image.decode image)
    | .error cause => .ok (.failed cause, cells)
  | .set address value =>
    if address < 0 then .ok (.outside, cells)
    else
      (changeRun cells address.toNatClampNeg 1 fun taken => .ok (taken.set 0 value)).map fun
        | (0, cells) => (.outside, cells)
        | (count, cells) => (.stored count, cells)
  | .fill start length value =>
    (changeRun cells start length fun taken => .ok (List.replicate taken.length value)).map
      fun (count, cells) => (.stored count, cells)

/-- Makes edits one after the other. -/
def editAll : List Memory.Edit → List Cell → Except Trap (List Memory.Reply × List Cell)
  | [], cells => .ok ([], cells)
  | change :: rest, cells => do
    let (reply, cells) ← edit cells change
    let (replies, cells) ← editAll rest cells
    return (reply :: replies, cells)

/-! ## The guards of a plain array hold -/

variable {memory : Memory} {start length : Nat} {address value : Cell}

theorem run_eq (memory : Memory) (start length : Nat) :
    run memory.cells.toList start length = .ok (memory.slice start length) := by
  have hwindow : run memory.cells.toList start length = window memory start length := by
    simp only [run, ends, window, Vector.length_toList]
  rw [hwindow, window_eq]

theorem cellIn_eq (memory : Memory) (address : Cell) :
    cellIn memory.cells.toList address = .ok (memory.get? address) := by
  have hcell : cellIn memory.cells.toList address = cellAt memory address := by
    simp only [cellIn, cellAt, run_eq, window_eq]
  rw [hcell, cellAt_eq]

/-- The cells of an array after as many others were put in the place of some of them. -/
theorem getElem?_replaced (cells given : List Cell) {first : Nat}
    (hin : first + given.length ≤ cells.length) (i : Nat) :
    (cells.take first ++ given ++ cells.drop (first + given.length))[i]? =
      (if first ≤ i then given[i - first]? else none).or cells[i]? := by
  have hfirst : (cells.take first).length = first := by
    rw [List.length_take, Nat.min_eq_left (by omega)]
  rw [List.append_assoc, List.getElem?_append, List.getElem?_append, hfirst]
  rcases Nat.lt_or_ge i first with hbelow | habove
  · rw [if_pos hbelow, if_neg (by omega), List.getElem?_take_of_lt hbelow, Option.none_or]
  · rw [if_neg (by omega), if_pos habove]
    rcases Nat.lt_or_ge (i - first) given.length with hinside | hafter
    · rw [if_pos hinside, List.getElem?_eq_getElem hinside, Option.some_or]
    · rw [if_neg (by omega), List.getElem?_eq_none hafter, Option.none_or, List.getElem?_drop]
      congr 1
      omega

/-- What is put back in the place of a run is what a write stores. -/
theorem toList_write (memory : Memory) {given : List Cell}
    (hgiven : given.length = Memory.room start length) :
    (memory.write start given).cells.toList =
      memory.cells.toList.take (ends memory.cells.toList start length).1 ++ given ++
        memory.cells.toList.drop (ends memory.cells.toList start length).2 := by
  have hsize : memory.cells.toList.length = 262144 := Vector.length_toList
  simp only [Memory.room, Memory.size] at hgiven
  rcases Nat.le_total start 262144 with hstart | hstart
  · have hends : ends memory.cells.toList start length = (start, start + given.length) := by
      simp only [ends, hsize, largestLength, Prod.mk.injEq]
      omega
    rw [hends]
    apply List.ext_getElem?
    intro i
    rw [getElem?_replaced _ _ (by omega)]
    rcases Nat.lt_or_ge i 262144 with hi | hi
    · rw [Vector.getElem?_toList, Vector.getElem?_toList, Vector.getElem?_eq_getElem hi,
        Vector.getElem?_eq_getElem hi, Memory.getElem_write memory start given hi, Option.or_some]
    · rw [if_pos (by omega), List.getElem?_eq_none (by rw [Vector.length_toList]; exact hi),
        List.getElem?_eq_none (by omega), List.getElem?_eq_none (by omega), Option.none_or]
  · -- A run that starts past the end of memory is empty.
    obtain rfl : given = [] := List.eq_nil_of_length_eq_zero (by omega)
    have hends : ends memory.cells.toList start length = (262144, 262144) := by
      simp only [ends, hsize, largestLength, Prod.mk.injEq]
      omega
    rw [hends, List.append_nil, List.take_append_drop]
    rfl

/-- A change of a run passes its guards if it gives back as many cells as it takes. -/
theorem changeRun_eq (change : List Cell → Except Trap (List Cell)) {given : List Cell}
    (hchange : change (memory.slice start length) = .ok given)
    (hgiven : given.length = Memory.room start length) :
    changeRun memory.cells.toList start length change =
      .ok (Memory.room start length, (memory.write start given).cells.toList) := by
  simp only [changeRun, run_eq, Bind.bind, Except.bind, hchange, Memory.length_slice, if_pos hgiven,
    toList_write memory hgiven]
  rfl

theorem writeRun_eq (memory : Memory) (start : Nat) (values : List Cell) :
    writeRun memory.cells.toList start values =
      .ok (.stored (Memory.room start values.length),
        (memory.write start values).cells.toList) := by
  have hroom : Memory.room start values.length ≤ values.length := Nat.min_le_left _ _
  have hcut : cut values 0 (memory.slice start values.length).length =
      .ok (values.take (Memory.room start values.length)) := by
    rw [Memory.length_slice, cut_eq_ok (Nat.zero_le _) hroom, List.drop_zero, Nat.sub_zero]
  rw [writeRun, changeRun_eq _ hcut (by rw [List.length_take, Nat.min_eq_left hroom]), write_take]
  rfl

theorem write_singleton (memory : Memory) (i : Fin Memory.size) (value : Cell) :
    memory.write i [value] = memory.set i value := by
  simp [Memory.write, Memory.put, Memory.set, Vector.setIfInBounds, Vector.set,
    Array.setIfInBounds]

/-- A single cell is stored through a run of one cell, which is empty outside memory. -/
theorem edit_set_eq (memory : Memory) (address value : Cell) :
    edit memory.cells.toList (.set address value) =
      .ok ((Memory.Edit.perform (.set address value) memory).1,
        (Memory.Edit.perform (.set address value) memory).2.cells.toList) := by
  have hneg : address < 0 ↔ address.toInt < 0 := Int32.lt_iff_toInt_lt
  have hclamp : address.toNatClampNeg = address.toInt.toNat := rfl
  have hlength := memory.length_slice address.toNatClampNeg 1
  rw [edit, Memory.Edit.perform]
  cases hlocate : Memory.locate? address with
  | some i =>
    have hat := Memory.locate?_eq_some_iff.mp hlocate
    have hi : i.val < 262144 := i.isLt
    have hroom : Memory.room address.toNatClampNeg 1 = 1 := by
      simp only [Memory.room, Memory.size, hclamp]
      omega
    obtain ⟨before, hslice⟩ := List.length_eq_one_iff.mp (hlength.trans hroom)
    have hstored : (memory.slice address.toNatClampNeg 1).set 0 value = [value] := by
      rw [hslice, List.set_cons_zero]
    have hchange := changeRun_eq (fun taken => .ok (taken.set 0 value))
      (congrArg Except.ok hstored) (by rw [hroom]; rfl)
    rw [if_neg (by rw [hneg]; omega), hchange, hroom, Memory.set?_of_locate hlocate,
      show address.toNatClampNeg = i by omega, write_singleton]
    rfl
  | none =>
    have hout := Memory.locate?_eq_none_iff.mp hlocate
    rw [Memory.set?_of_outside hlocate]
    by_cases hlow : address < 0
    · rw [if_pos hlow]
    · rw [hneg] at hlow
      have hroom : Memory.room address.toNatClampNeg 1 = 0 := by
        simp only [Memory.room, Memory.size, hclamp]
        omega
      have hslice := List.eq_nil_of_length_eq_zero (hlength.trans hroom)
      have hstored : (memory.slice address.toNatClampNeg 1).set 0 value = [] := by
        rw [hslice, List.set_nil]
      have hchange := changeRun_eq (fun taken => .ok (taken.set 0 value))
        (congrArg Except.ok hstored) (by rw [hroom]; rfl)
      rw [if_neg (by rw [hneg]; exact hlow), hchange, hroom]
      rfl

/-- Every edit of the array of a memory passes its guards, and does to the array what it does to the
memory. -/
theorem edit_eq (memory : Memory) (change : Memory.Edit) :
    edit memory.cells.toList change =
      .ok ((change.perform memory).1, (change.perform memory).2.cells.toList) := by
  cases change with
  | write start values => exact writeRun_eq memory start values
  | receive start deliveries =>
    rw [edit, Memory.Edit.perform, Memory.receive]
    cases Delivery.collect deliveries with
    | ok image => exact writeRun_eq memory start (Image.decode image)
    | error cause => rfl
  | set address value => exact edit_set_eq memory address value
  | fill start length value =>
    have hstored : List.replicate (memory.slice start length).length value =
        List.replicate (Memory.room start length) value := by
      rw [Memory.length_slice]
    have hchange := changeRun_eq (fun taken => .ok (List.replicate taken.length value))
      (congrArg Except.ok hstored) List.length_replicate
    rw [edit, hchange]
    rfl

/-- However many edits are made, no guard fails, and the array goes through the cells of the
memory. -/
theorem editAll_eq (edits : List Memory.Edit) (memory : Memory) :
    editAll edits memory.cells.toList =
      .ok ((Memory.Edit.performAll edits memory).1,
        (Memory.Edit.performAll edits memory).2.cells.toList) := by
  induction edits generalizing memory with
  | nil => rfl
  | cons change rest ih =>
    simp only [editAll, edit_eq, Bind.bind, Except.bind, ih]
    rfl

end Guarded

/-! ## A memory is the function of its values -/

/-- A memory, and the array of its cells, show the values of a function: all of them, and none but
those at the addresses in memory. No guard fails on the way. -/
structure Memory.Shows (memory : Memory) (cells : List Cell) (values : Nat → Cell) : Prop where
  /-- The array is as long as memory. -/
  length : cells.length = size
  /-- Every address holds the value of the function. -/
  cell (i : Nat) : i < size → cells[i]? = some (values i)
  /-- A run shows the values between its ends, the sums being those of unbounded numbers. -/
  slice (start length : Nat) : Guarded.run cells start length = .ok (memory.slice start length) ∧
    memory.slice start length = (List.range' start (min (start + length) size - start)).map values
  /-- A single cell is shown exactly when its address lies in memory. -/
  get (address : Cell) : Guarded.cellIn cells address = .ok (memory.get? address) ∧
    memory.get? address =
      if 0 ≤ address.toInt ∧ address.toInt < size then some (values address.toInt.toNat) else none

namespace Memory

theorem shows_of_getElem {memory : Memory} {values : Nat → Cell}
    (hvalues : ∀ i (hi : i < size), memory.cells[i] = values i) :
    memory.Shows memory.cells.toList values where
  length := Vector.length_toList
  cell i hi := by rw [Vector.getElem?_toList, Vector.getElem?_eq_getElem hi, hvalues i hi]
  slice start length := ⟨Guarded.run_eq memory start length, slice_eq_map hvalues start length⟩
  get address := ⟨Guarded.cellIn_eq memory address, get?_eq_ite hvalues address⟩

variable {memory : Memory} {values : Nat → Cell}

/-- A write stores as many cells as there is room for, and changes no other cell. -/
theorem shows_write (hvalues : ∀ i (hi : i < size), memory.cells[i] = values i) (start : Nat)
    (run : List Cell) :
    (memory.write start run).Shows (memory.write start run).cells.toList fun i =>
      if start ≤ i ∧ i < start + min run.length (size - min start size) then run[i - start]?.getD 0
      else values i := by
  apply shows_of_getElem
  intro i hi
  have hin : i < 262144 := hi
  rw [getElem_write memory start run hi, hvalues i hi]
  simp only [size]
  by_cases hreached : start ≤ i ∧ i < start + min run.length (262144 - min start 262144)
  · rw [if_pos hreached, if_pos hreached.1, List.getElem?_eq_getElem (by omega), Option.getD_some,
      Option.getD_some]
  · rw [if_neg hreached]
    split
    · rw [List.getElem?_eq_none (by omega), Option.getD_none]
    · rfl

/-- A cell that is stored at an address in memory is the only one to change. -/
theorem shows_set (hvalues : ∀ i (hi : i < size), memory.cells[i] = values i) (j : Fin size)
    (value : Cell) :
    (memory.set j value).Shows (memory.set j value).cells.toList fun i =>
      if i = j then value else values i := by
  apply shows_of_getElem
  intro i hi
  simp only [Memory.set, Vector.getElem_set, hvalues i hi, eq_comm]

theorem perform_set_of_inside (memory : Memory) {address : Cell} (value : Cell)
    (hnonneg : 0 ≤ address.toInt) (hlt : address.toInt.toNat < size) :
    (Edit.set address value).perform memory =
      (.stored 1, memory.set ⟨address.toInt.toNat, hlt⟩ value) := by
  have hlocate : locate? address = some ⟨address.toInt.toNat, hlt⟩ := by
    rw [locate?_eq_some_iff]
    simp only
    omega
  rw [Edit.perform, set?_of_locate hlocate]

theorem perform_set_of_outside (memory : Memory) {address : Cell} (value : Cell)
    (hout : ¬(0 ≤ address.toInt ∧ address.toInt < size)) :
    (Edit.set address value).perform memory = (.outside, memory) := by
  have hlocate : locate? address = none := by
    rw [locate?_eq_none_iff]
    simp only [size] at hout
    omega
  rw [Edit.perform, set?_of_outside hlocate]

end Memory

/-- After any history of edits on a blank memory, no guard of the array behind it has failed, its
length is that of memory, and it shows at every address what the last edit to reach it left there.
What comes next is as exact: a write stores, and answers, as many cells as lie between its start and
the end of memory, a single cell is stored exactly when its address lies in memory, and neither
changes any other cell. -/
theorem memory_shows_last_written (edits : List Memory.Edit) :
    ∃ replies cells memory,
      Guarded.editAll edits (List.replicate Memory.size 0) = .ok (replies, cells) ∧
      Memory.Edit.performAll edits .blank = (replies, memory) ∧
      memory.Shows cells (Memory.lastWritten edits) ∧
      (∀ start values, ∃ cells' memory',
        Guarded.edit cells (.write start values) =
          .ok (.stored (min values.length (Memory.size - min start Memory.size)), cells') ∧
        Memory.Edit.perform (.write start values) memory =
          (.stored (min values.length (Memory.size - min start Memory.size)), memory') ∧
        memory'.Shows cells' fun i =>
          if start ≤ i ∧ i < start + min values.length (Memory.size - min start Memory.size) then
            values[i - start]?.getD 0
          else Memory.lastWritten edits i) ∧
      (∀ address value : Cell, 0 ≤ address.toInt ∧ address.toInt < Memory.size → ∃ cells' memory',
        Guarded.edit cells (.set address value) = .ok (.stored 1, cells') ∧
        Memory.Edit.perform (.set address value) memory = (.stored 1, memory') ∧
        memory'.Shows cells' fun i =>
          if i = address.toInt.toNat then value else Memory.lastWritten edits i) ∧
      (∀ address value : Cell, ¬(0 ≤ address.toInt ∧ address.toInt < Memory.size) →
        Guarded.edit cells (.set address value) = .ok (.outside, cells) ∧
        Memory.Edit.perform (.set address value) memory = (.outside, memory)) := by
  obtain ⟨memory, hmemory⟩ : ∃ memory, (Memory.Edit.performAll edits .blank).2 = memory := ⟨_, rfl⟩
  have hvalues : ∀ i (hi : i < Memory.size), memory.cells[i] = Memory.lastWritten edits i := by
    subst hmemory
    exact fun i hi => Memory.getElem_of_history edits hi
  have hguards : Guarded.editAll edits (List.replicate Memory.size 0) =
      .ok ((Memory.Edit.performAll edits .blank).1, memory.cells.toList) := by
    rw [← hmemory, ← Guarded.editAll_eq edits .blank, Memory.blank, Vector.toList_replicate]
  refine ⟨_, _, memory, hguards, by rw [← hmemory], Memory.shows_of_getElem hvalues,
    fun start values => ?_, fun address value hin => ?_, fun address value hout => ?_⟩
  · have hroom : Memory.room start values.length =
        min values.length (Memory.size - min start Memory.size) := by
      simp only [Memory.room]
      omega
    refine ⟨_, _, ?_, ?_, Memory.shows_write hvalues start values⟩
    · rw [← hroom]
      exact Guarded.writeRun_eq memory start values
    · rw [← hroom]
      rfl
  · have hlt : address.toInt.toNat < Memory.size := by omega
    have hperform := memory.perform_set_of_inside value hin.1 hlt
    refine ⟨_, _, ?_, hperform, Memory.shows_set hvalues _ value⟩
    rw [Guarded.edit_eq, hperform]
  · rw [Guarded.edit_eq, memory.perform_set_of_outside value hout]
    exact ⟨rfl, rfl⟩

end CellMachine
