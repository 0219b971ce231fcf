import CellMachine.Command.Profile
import CellMachine.Proofs.ReportReading

/-!
# Lines that show the stack

The commands print the stack in one line, with the positions of the entries or without. A line is a
row of words with spaces between them, and a number has no space in it. So the words can be told
apart, and both lines can be read back.

`ShowsNumbered` and `ShowsPlain` say how the lines are laid out, character by character.
-/

namespace CellMachine

namespace Stack

variable {n : Nat}

/-- The pointer says how many entries there are, as far as there are cells above the floor. -/
theorem length_entries (s : Stack n) : (s.entries.length : Int) = max 0 (min s.top (n - 1)) := by
  rw [entries_eq, List.length_take, List.length_drop, Vector.length_toList]
  omega

/-- The first entry lies right above the floor. -/
theorem getElem?_entries {s : Stack n} {i : Nat} (hi : i < s.entries.length) :
    s.entries[i]? = s.cells[i + 1]? := by
  have hcut : i < s.top.toNat := by
    rw [entries_eq, List.length_take] at hi
    omega
  rw [entries_eq, List.getElem?_take_of_lt hcut, List.getElem?_drop, Vector.getElem?_toList,
    Nat.add_comm]

/-- The entries are the cells above the floor, in the order of their positions. -/
theorem map_some_entries (s : Stack n) :
    s.entries.map some = (List.Ico 1 (s.entries.length + 1)).map fun i => s.cells[i]? := by
  apply List.ext_getElem
  · simp
  · intro i hi _
    rw [List.length_map] at hi
    simp only [List.getElem_map, List.Ico, List.getElem_range']
    rw [← List.getElem?_eq_getElem hi, getElem?_entries hi]
    congr 1
    omega

theorem length_trailing (s : Stack n) (limit : Nat) :
    (s.trailing limit).length = min limit s.entries.length := by
  simp only [trailing, List.length_map, List.length_drop, List.length_zipIdx]
  omega

/-- The last entries are the cells at the last positions, each with its position. -/
theorem map_some_trailing (s : Stack n) (limit : Nat) :
    (s.trailing limit).map (Prod.map id some) =
      (List.Ico (max 1 (s.entries.length + 1 - limit)) (s.entries.length + 1)).map
        fun i => (i, s.cells[i]?) := by
  apply List.ext_getElem
  · rw [List.length_map, length_trailing, List.length_map, List.Ico.length]
    omega
  · intro k hk _
    rw [List.length_map, length_trailing] at hk
    have hposition : s.entries.length - limit + k < s.entries.length := by omega
    have hstart : max 1 (s.entries.length + 1 - limit) + 1 * k =
        s.entries.length - limit + k + 1 := by omega
    simp only [trailing, List.getElem_map, List.getElem_drop, List.getElem_zipIdx,
      List.length_zipIdx, List.Ico, List.getElem_range', Prod.map_apply, id_eq, hstart]
    rw [← List.getElem?_eq_getElem hposition, getElem?_entries hposition, Nat.add_comm 1]

/-- Fewer of the last entries are the last of more of them. -/
theorem trailing_suffix (s : Stack n) {few many : Nat} (h : few ≤ many) :
    s.trailing few <:+ s.trailing many := by
  apply List.IsSuffix.map
  exact List.drop_suffix_drop_left _ (by omega)

/-- A limit that reaches the number of cells above the floor leaves no entry out. -/
theorem map_snd_trailing (s : Stack n) {limit : Nat} (hlimit : n ≤ limit + 1) :
    (s.trailing limit).map Prod.snd = s.entries := by
  have hlength := s.length_entries
  have hnone : (s.entries.zipIdx 1).length - limit = 0 := by
    rw [List.length_zipIdx]
    omega
  rw [trailing, hnone, List.drop_zero, List.map_map]
  exact List.zipIdx_map_fst 1 s.entries

end Stack

/-! ## Words -/

namespace Text

/-- The words of a text: what stands between its spaces. -/
def wordsOf (text : List Char) : List (List Char) :=
  (text.splitOn ' ').filter fun word => !word.isEmpty

theorem wordsOf_space_cons (rest : List Char) : wordsOf (' ' :: rest) = wordsOf rest := by
  have hsplit : (' ' :: rest).splitOn ' ' = [] :: rest.splitOn ' ' :=
    List.splitOn_append_cons_self_of_not_mem List.not_mem_nil rest
  rw [wordsOf, hsplit, wordsOf]
  rfl

/-- The first word of a text ends at a space, and there may be blanks in front of it. -/
theorem wordsOf_word (blanks : Nat) {word : List Char} (hspace : ' ' ∉ word) (hword : word ≠ [])
    (rest : List Char) :
    wordsOf (List.replicate blanks ' ' ++ (word ++ ' ' :: rest)) = word :: wordsOf rest := by
  induction blanks with
  | zero =>
    rw [List.replicate_zero, List.nil_append, wordsOf,
      List.splitOn_append_cons_self_of_not_mem hspace, List.filter_cons_of_pos, wordsOf]
    simpa using hword
  | succ blanks ih => rw [List.replicate_succ, List.cons_append, wordsOf_space_cons, ih]

/-- What is printed after whole lines is a line of its own, and the last one. -/
theorem getLast?_linesOf {before line : String}
    (hbefore : before = "" ∨ ∃ start, before = start ++ "\n") (hline : '\n' ∉ line.toList) :
    (linesOf (before ++ line ++ "\n")).getLast? = some line.toList := by
  have hsplit : (line.toList ++ ['\n']).splitOn '\n' = [line.toList, []] :=
    List.splitOn_append_cons_self_of_not_mem hline []
  have hlines : ∃ lines, (before ++ line ++ "\n").toList.splitOn '\n' =
      lines ++ [line.toList] ++ [[]] := by
    rcases hbefore with rfl | ⟨start, rfl⟩
    · refine ⟨[], ?_⟩
      rw [String.empty_append, String.toList_append]
      exact hsplit
    · refine ⟨start.toList.splitOn '\n', ?_⟩
      have hsplits := List.splitOn_append_cons_self (a := '\n') start.toList (line.toList ++ ['\n'])
      rw [hsplit] at hsplits
      simpa [String.toList_append] using hsplits
  obtain ⟨lines, hlines⟩ := hlines
  rw [linesOf, hlines, List.dropLast_concat, List.getLast?_concat]

end Text

namespace Cell

/-- Reads the decimal notation of a cell. -/
def ofText? (text : List Char) : Option Cell :=
  (String.ofList text).toInt?.map Int32.ofInt

@[simp] theorem ofText?_text (c : Cell) : ofText? c.text.toList = some c := by
  rw [ofText?, String.ofList_toList, text, Int.toInt?_repr, Option.map_some, Int32.ofInt_toInt]

theorem text_ne_nil (c : Cell) : c.text.toList ≠ [] := by
  rw [text]
  cases c.toInt with
  | ofNat k => simp [Int.repr]
  | negSucc k => simp [Int.repr]

theorem no_space_text (c : Cell) : ' ' ∉ c.text.toList :=
  Text.not_mem_repr (by decide) (by decide) c.toInt

end Cell

/-! ## Reading the lines -/

namespace Command

/-- Reads cells that stand one after the other. -/
def plainCells? (line : String) : Option (List Cell) :=
  (Text.wordsOf line.toList).mapM Cell.ofText?

/-- Reads words in pairs: a position with a mark behind it, and the value there. -/
def numberedPairs? : List (List Char) → Option (List (Nat × Cell))
  | [] => some []
  | [_] => none
  | position :: value :: rest => do
    let i ← (String.ofList position.dropLast).toNat?
    let v ← Cell.ofText? value
    let more ← numberedPairs? rest
    return (i, v) :: more

/-- Reads cells that stand behind their positions. -/
def numberedCells? (line : String) : Option (List Cell) :=
  (numberedPairs? (Text.wordsOf line.toList)).map (List.map Prod.snd)

/-- Each entry has a space behind it. -/
theorem toList_plainLine (stack : DataStack) :
    (plainLine stack).toList =
      stack.entries.flatMap fun value => value.toInt.repr.toList ++ [' '] := by
  rw [plainLine, String.toList_join, List.flatMap_map]
  simp only [String.toList_append]
  rfl

theorem wordsOf_plainLine (stack : DataStack) :
    Text.wordsOf (plainLine stack).toList = stack.entries.map fun value => value.text.toList := by
  rw [toList_plainLine]
  induction stack.entries with
  | nil => rfl
  | cons value values ih =>
    have hword := Text.wordsOf_word 0 value.no_space_text value.text_ne_nil
    rw [List.flatMap_cons, List.append_assoc, List.map_cons, ← ih]
    exact hword _

/-- A plain line is read as the entries of the stack. -/
theorem plainCells?_plainLine (stack : DataStack) :
    plainCells? (plainLine stack) = some stack.entries := by
  rw [plainCells?, wordsOf_plainLine]
  induction stack.entries with
  | nil => rfl
  | cons value values ih => simp [List.mapM_cons, ih]

/-- Each of the last hundred entries has its position in front of it, in a field of eight
characters. -/
theorem toList_numberedLine (stack : DataStack) :
    (numberedLine stack).toList = (stack.trailing 100).flatMap fun (i, value) =>
      List.replicate (8 - i.repr.length) ' ' ++ i.repr.toList ++ [':', ' '] ++
        value.toInt.repr.toList ++ [' '] := by
  have hmark : ": ".toList = [':', ' '] ∧ " ".toList = [' '] := by decide
  rw [numberedLine, String.toList_join, List.flatMap_map]
  simp only [String.toList_append, Text.toList_padLeft, Cell.text, hmark]
  rfl

theorem wordsOf_numberedLine (stack : DataStack) :
    Text.wordsOf (numberedLine stack).toList =
      (stack.trailing shownEntries).flatMap
        fun entry => [entry.1.repr.toList ++ [':'], entry.2.text.toList] := by
  rw [toList_numberedLine, ← shownEntries]
  induction stack.trailing shownEntries with
  | nil => rfl
  | cons entry entries ih =>
    obtain ⟨i, value⟩ := entry
    have hposition : ' ' ∉ i.repr.toList ++ [':'] := by
      have hdigits : ' ' ∉ i.repr.toList := Text.not_mem_repr (by decide) (by decide) (i : Int)
      simpa using hdigits
    have hfirst := Text.wordsOf_word (8 - i.repr.length) hposition (by simp)
    have hsecond := Text.wordsOf_word 0 value.no_space_text value.text_ne_nil
    have hentry (rest : List Char) :
        List.replicate (8 - i.repr.length) ' ' ++ i.repr.toList ++ [':', ' '] ++
            value.toInt.repr.toList ++ [' '] ++ rest =
          List.replicate (8 - i.repr.length) ' ' ++ (i.repr.toList ++ [':'] ++
            ' ' :: (List.replicate 0 ' ' ++ (value.text.toList ++ ' ' :: rest))) := by
      simp [Cell.text]
    rw [List.flatMap_cons, List.flatMap_cons, ← ih, List.cons_append, List.singleton_append, hentry,
      hfirst, hsecond]

theorem numberedPairs?_words (entries : List (Nat × Cell)) :
    numberedPairs? (entries.flatMap
      fun entry => [entry.1.repr.toList ++ [':'], entry.2.text.toList]) = some entries := by
  induction entries with
  | nil => rfl
  | cons entry entries ih =>
    rw [List.flatMap_cons, List.cons_append, List.singleton_append, numberedPairs?, ih,
      List.dropLast_concat, String.ofList_toList, Nat.toNat?_repr, Cell.ofText?_text]
    rfl

/-- A numbered line is read as the entries of the stack. -/
theorem numberedCells?_numberedLine (stack : DataStack) :
    numberedCells? (numberedLine stack) = some stack.entries := by
  rw [numberedCells?, wordsOf_numberedLine, numberedPairs?_words, Option.map_some,
    stack.map_snd_trailing (by decide)]

/-- A line that shows a stack without positions. -/
structure ShowsPlain (stack : DataStack) (line : String) : Prop where
  /-- The values stand one after the other, each with a space behind it. -/
  layout : line.toList = stack.entries.flatMap fun value => value.toInt.repr.toList ++ [' ']
  /-- They can be read back. -/
  reads : plainCells? line = some stack.entries

theorem showsPlain_plainLine (stack : DataStack) : ShowsPlain stack (plainLine stack) :=
  ⟨toList_plainLine stack, plainCells?_plainLine stack⟩

/-- A line that shows a stack with positions. -/
structure ShowsNumbered (stack : DataStack) (line : String) : Prop where
  /-- The last hundred entries stand one after the other, each behind its position, which is at the
  right end of eight characters, a colon and a space, and with a space behind it. -/
  layout : line.toList = (stack.trailing 100).flatMap fun (i, value) =>
    List.replicate (8 - i.repr.length) ' ' ++ i.repr.toList ++ [':', ' '] ++
      value.toInt.repr.toList ++ [' ']
  /-- All entries can be read back. -/
  reads : numberedCells? line = some stack.entries

theorem showsNumbered_numberedLine (stack : DataStack) :
    ShowsNumbered stack (numberedLine stack) :=
  ⟨toList_numberedLine stack, numberedCells?_numberedLine stack⟩

theorem no_newline_plainLine (stack : DataStack) : '\n' ∉ (plainLine stack).toList := by
  rw [toList_plainLine, List.mem_flatMap]
  rintro ⟨value, -, hmem⟩
  simp [Log.no_newline_repr value.toInt] at hmem

theorem no_newline_numberedLine (stack : DataStack) : '\n' ∉ (numberedLine stack).toList := by
  rw [toList_numberedLine, List.mem_flatMap]
  rintro ⟨⟨i, value⟩, -, hmem⟩
  have hposition : '\n' ∉ i.repr.toList := Log.no_newline_repr i
  simp [-Nat.toList_repr, Log.no_newline_repr value.toInt, hposition] at hmem

/-- A line that shows the entries of a stack, and a reader of such lines. -/
structure Legible (line : DataStack → String) (read : String → Option (List Cell)) : Prop where
  /-- The line is read as the entries. -/
  reads : ∀ stack, read (line stack) = some stack.entries
  /-- Nothing but the entries has a part in the line. -/
  congr : ∀ {stack other}, stack.entries = other.entries → line stack = line other
  /-- The line is one line. -/
  no_newline : ∀ stack, '\n' ∉ (line stack).toList

theorem Legible.eq_iff {line : DataStack → String} {read : String → Option (List Cell)}
    (h : Legible line read) (stack other : DataStack) :
    line stack = line other ↔ stack.entries = other.entries := by
  refine ⟨fun hline => ?_, h.congr⟩
  apply Option.some.inj
  rw [← h.reads stack, hline, h.reads other]

theorem legible_numberedLine : Legible numberedLine numberedCells? where
  reads := numberedCells?_numberedLine
  congr heq := by rw [numberedLine, numberedLine, Stack.trailing, Stack.trailing, heq]
  no_newline := no_newline_numberedLine

theorem legible_plainLine : Legible plainLine plainCells? where
  reads := plainCells?_plainLine
  congr heq := by rw [plainLine, plainLine, heq]
  no_newline := no_newline_plainLine

end Command

end CellMachine
