import CellMachine.Proofs.Outcome

/-!
# The contents of a stack

The contents of a stack are its live cells as a list, the topmost first, so that what an operation
does to the cells near the pointer is done to the head of the list. A stack whose pointer lies
between the cell below the floor and the last cell is contained, and for such a stack the
operations of the machine are operations on the list.
-/

namespace CellMachine.Stack

variable {n : Nat} {s : Stack n}

/-- The live cells, the topmost first. -/
def contents (s : Stack n) : List Cell :=
  s.live.reverse

/-- The pointer lies on a cell or right below the floor. -/
structure Contained (s : Stack n) : Prop where
  /-- At most one cell below the floor. -/
  low : -1 ≤ s.top
  /-- At most on the last cell. -/
  high : s.top < n

instance (s : Stack n) : Decidable s.Contained :=
  decidable_of_iff (-1 ≤ s.top ∧ s.top < n) ⟨fun h => ⟨h.1, h.2⟩, fun h => ⟨h.low, h.high⟩⟩

theorem Contained.lower (h : s.Contained) (htop : 0 ≤ s.top) : s.lower.Contained := by
  have hhigh := h.high
  exact ⟨by rw [top_lower]; omega, by rw [top_lower]; omega⟩

theorem Contained.push (h : s.Contained) (hroom : s.top + 1 < n) (value : Cell) :
    (s.raise.put 0 value).Contained := by
  have hlow := h.low
  exact ⟨by rw [top_put, top_raise]; omega, by rw [top_put, top_raise]; omega⟩

/-- The pointer is the number of live cells, less the floor. -/
theorem Contained.length_contents (h : s.Contained) : (s.contents.length : Int) = s.top + 1 := by
  have hlow := h.low
  have hhigh := h.high
  simp only [contents, live, List.length_reverse, List.length_take, Vector.length_toList]
  omega

/-- A position in the contents is a depth in the stack. -/
theorem Contained.getElem?_contents (h : s.Contained) (depth : Nat) :
    s.contents[depth]? =
      if (depth : Int) ≤ s.top then s.cells[(s.top - depth).toNat]? else none := by
  have hlow := h.low
  have hhigh := h.high
  have hlength : (s.cells.toList.take (s.top + 1).toNat).length = (s.top + 1).toNat := by
    rw [List.length_take, Vector.length_toList]
    omega
  split
  · rw [contents, live, List.getElem?_reverse (by omega), hlength,
      List.getElem?_take_of_lt (by omega),
      show (s.top + 1).toNat - 1 - depth = (s.top - depth).toNat by omega]
    simp
  · rw [List.getElem?_eq_none]
    have := h.length_contents
    omega

/-- What lies at a depth is what the contents have there. -/
theorem Contained.look_of_getElem? (h : s.Contained) (depth : Nat) {value : Cell}
    (hvalue : s.contents[depth]? = some value) : s.look depth = value := by
  rw [h.getElem?_contents] at hvalue
  split at hvalue
  · rw [look, hvalue, Option.getD_some]
  · simp at hvalue

/-- A write at a depth replaces a member of the contents. -/
theorem Contained.contents_put (h : s.Contained) (depth : Nat) (hdepth : (depth : Int) ≤ s.top)
    (value : Cell) : (s.put depth value).contents = s.contents.set depth value := by
  have hput : (s.put depth value).Contained := ⟨h.low, h.high⟩
  have hlength := h.length_contents
  have hhigh := h.high
  apply List.ext_getElem?
  intro i
  rw [hput.getElem?_contents, List.getElem?_set, h.getElem?_contents, top_put]
  by_cases hi : (i : Int) ≤ s.top
  · rw [if_pos hi, if_pos hi, put, Vector.getElem?_setIfInBounds]
    by_cases heq : depth = i
    · subst heq
      rw [if_pos rfl, if_pos rfl, if_pos (by omega), if_pos (by omega)]
    · rw [if_neg (by omega), if_neg heq]
  · rw [if_neg hi, if_neg hi, if_neg (by omega)]

/-- A pointer that moves down leaves the topmost of the contents out. -/
theorem Contained.contents_lower (h : s.Contained) (htop : 0 ≤ s.top) :
    s.lower.contents = s.contents.tail := by
  apply List.ext_getElem?
  intro i
  rw [(h.lower htop).getElem?_contents, List.getElem?_tail, h.getElem?_contents, top_lower,
    cells_lower]
  by_cases hi : (i : Int) ≤ s.top - 1
  · rw [if_pos hi, if_pos (by omega), show (s.top - 1 - i).toNat = (s.top - (i + 1 : Nat)).toNat by
      omega]
  · rw [if_neg hi, if_neg (by omega)]

/-- A push puts a value in front of the contents. -/
theorem Contained.contents_push (h : s.Contained) (hroom : s.top + 1 < n) (value : Cell) :
    (s.raise.put 0 value).contents = value :: s.contents := by
  have hlow := h.low
  apply List.ext_getElem?
  intro i
  rw [(h.push hroom value).getElem?_contents, top_put, top_raise, put,
    Vector.getElem?_setIfInBounds, top_raise]
  cases i with
  | zero =>
    rw [if_pos (by omega), if_pos (by omega), if_pos (by omega), List.getElem?_cons_zero]
  | succ i =>
    rw [List.getElem?_cons_succ, h.getElem?_contents]
    by_cases hi : (i : Int) ≤ s.top
    · rw [if_pos (by omega), if_neg (by omega), if_pos hi, cells_raise,
        show (s.top + 1 - (i + 1 : Nat)).toNat = (s.top - i).toNat by omega]
    · rw [if_neg (by omega), if_neg hi]

/-- A drop takes the topmost of the contents away. -/
theorem Contained.contents_drop (h : s.Contained) (htop : 0 ≤ s.top) :
    (s.put 0 0).lower.contents = s.contents.tail := by
  have hput : (s.put 0 0).Contained := ⟨h.low, h.high⟩
  have hcontents := h.contents_put 0 (by omega) 0
  rw [hput.contents_lower (by rw [top_put]; omega), hcontents]
  cases s.contents with
  | nil => rfl
  | cons top rest => rfl

/-- A stack is empty, has its floor only, or has two values to work on. -/
theorem Contained.cases (h : s.Contained) :
    (s.top = -1 ∧ s.contents = []) ∨ (s.top = 0 ∧ s.contents = [s.look 0]) ∨
      (1 ≤ s.top ∧ ∃ rest, s.contents = s.look 0 :: s.look 1 :: rest) := by
  have hlength := h.length_contents
  match hcontents : s.contents with
  | [] =>
    rw [hcontents, List.length_nil] at hlength
    exact .inl ⟨by omega, rfl⟩
  | [top] =>
    rw [hcontents, List.length_singleton] at hlength
    have hlook := h.look_of_getElem? 0 (by rw [hcontents]; rfl)
    exact .inr (.inl ⟨by omega, by rw [hlook]⟩)
  | top :: below :: rest =>
    rw [hcontents, List.length_cons, List.length_cons] at hlength
    have htop := h.look_of_getElem? 0 (by rw [hcontents]; rfl)
    have hbelow := h.look_of_getElem? 1 (by rw [hcontents]; rfl)
    exact .inr (.inr ⟨by omega, rest, by rw [htop, hbelow]⟩)

/-- Below the floor there are no contents. -/
theorem Contained.eq_nil (h : s.Contained) (htop : s.top < 0) : s.contents = [] := by
  rcases h.cases with ⟨_, hcontents⟩ | ⟨hzero, _⟩ | ⟨hone, _⟩
  · exact hcontents
  · omega
  · omega

/-- With at most the floor left there is no second value. -/
theorem Contained.short (h : s.Contained) (htop : s.top < 1) :
    s.contents = [] ∨ s.contents = [s.look 0] := by
  rcases h.cases with ⟨_, hcontents⟩ | ⟨_, hcontents⟩ | ⟨hone, _⟩
  · exact .inl hcontents
  · exact .inr hcontents
  · omega

/-- From the floor on there is a value on top. -/
theorem Contained.eq_cons (h : s.Contained) (htop : 0 ≤ s.top) :
    ∃ rest, s.contents = s.look 0 :: rest := by
  rcases h.cases with ⟨hneg, _⟩ | ⟨_, hcontents⟩ | ⟨_, rest, hcontents⟩
  · omega
  · exact ⟨[], hcontents⟩
  · exact ⟨s.look 1 :: rest, hcontents⟩

/-- Above the floor there are two values. -/
theorem Contained.eq_cons_cons (h : s.Contained) (htop : 1 ≤ s.top) :
    ∃ rest, s.contents = s.look 0 :: s.look 1 :: rest := by
  rcases h.cases with ⟨hneg, _⟩ | ⟨hzero, _⟩ | ⟨_, hcontents⟩
  · omega
  · omega
  · exact hcontents

end CellMachine.Stack
