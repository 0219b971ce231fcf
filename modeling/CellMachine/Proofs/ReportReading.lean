import CellMachine.Proofs.LogText
import CellMachine.Statistics
import Mathlib

/-!
# Reading a report

A report on a run is a list of lines, and a line is a label and a number. The labels that a report
may have can be told apart by the nine characters that a line begins with, so that a line says which
label it has, and the report can be read back. An extension opcode that was not used has no line;
to read it gives zero.
-/

namespace CellMachine

namespace Text

/-- The lines of a text, without the newlines that end them. -/
def linesOf (text : String) : List (List Char) :=
  (text.toList.splitOn '\n').dropLast

theorem splitOn_flatMap_newline {lines : List (List Char)} (hlines : ∀ line ∈ lines, '\n' ∉ line) :
    (lines.flatMap (· ++ ['\n'])).splitOn '\n' = lines ++ [[]] := by
  induction lines with
  | nil => rfl
  | cons line lines ih =>
    rw [List.forall_mem_cons] at hlines
    rw [List.flatMap_cons, List.append_assoc, List.singleton_append,
      List.splitOn_append_cons_self_of_not_mem hlines.1, ih hlines.2, List.cons_append]

/-- Lines that have no newline inside are read back one by one. -/
theorem linesOf_eq {text : String} {lines : List (List Char)}
    (htext : text.toList = lines.flatMap (· ++ ['\n'])) (hlines : ∀ line ∈ lines, '\n' ∉ line) :
    linesOf text = lines := by
  rw [linesOf, htext, splitOn_flatMap_newline hlines, List.dropLast_concat]

/-- A field is at least as wide as it should be. -/
theorem le_length_padRight (width : Nat) (text : String) :
    width ≤ (padRight width text).toList.length := by
  simp only [padRight, Field.render, Field.cut, spaces, String.toList_append, String.toList_ofList,
    List.length_append, List.length_replicate, String.length_toList]
  omega

end Text

/-- The label of the line of an opcode. -/
def Opcode.label (op : Opcode) : String :=
  op.mnemonic ++ ":"

namespace Report

/-- The labels that a report may have, in the order of their lines. -/
def labels : List String :=
  "Runtime Statistics" :: Opcode.all.map Opcode.label ++
    ["Max sp:", "Max rp:", "Total opcodes processed: "]

/-- What a line begins with that has a given label. -/
def opening (label : String) : List Char :=
  (Text.padRight 9 label).toList

/-- The label of a line, and what is written after it. -/
def entry? (line : List Char) : Option (String × String) :=
  (labels.find? fun label => (opening label).isPrefixOf line).map fun label =>
    (label, String.ofList (line.drop (opening label).length))

/-- All labels of a text that have a line, each with what is written after it. -/
def entries (text : String) : List (String × String) :=
  (Text.linesOf text).filterMap entry?

/-- No two labels begin with the same nine characters. -/
theorem nodup_openings : (labels.map fun label => (opening label).take 9).Nodup := by
  decide +kernel

theorem nodup_labels : labels.Nodup :=
  nodup_openings.of_map

theorem no_newline_opening {label : String} (hlabel : label ∈ labels) : '\n' ∉ opening label := by
  have hlabels : ∀ label ∈ labels, '\n' ∉ label.toList := by decide +kernel
  exact Text.not_mem_padRight 9 (hlabels label hlabel) (by decide)

/-- A line that begins with two labels has one label. -/
theorem eq_of_opening_isPrefix {label other : String} {rest : List Char} (hlabel : label ∈ labels)
    (hother : other ∈ labels) (hbegins : opening other <+: opening label ++ rest) :
    other = label := by
  apply List.inj_on_of_nodup_map nodup_openings hother hlabel
  have hlength : 9 ≤ (opening label).length := Text.le_length_padRight 9 label
  have hlength' : 9 ≤ (opening other).length := Text.le_length_padRight 9 other
  obtain ⟨more, hmore⟩ := hbegins
  have htake := congrArg (List.take 9) hmore
  rwa [List.take_append_of_le_length hlength', List.take_append_of_le_length hlength] at htake

/-- The label of a line is found again, and so is what was written after it. -/
theorem entry?_opening_append {label : String} (hlabel : label ∈ labels) (number : String) :
    entry? (opening label ++ number.toList) = some (label, number) := by
  unfold entry?
  cases hfind : labels.find? fun other =>
      (opening other).isPrefixOf (opening label ++ number.toList) with
  | none =>
    have hmiss := List.find?_eq_none.mp hfind label hlabel
    rw [List.isPrefixOf_iff_prefix] at hmiss
    exact absurd (List.prefix_append _ _) hmiss
  | some other =>
    have hbegins := List.find?_some hfind
    rw [List.isPrefixOf_iff_prefix] at hbegins
    obtain rfl := eq_of_opening_isPrefix hlabel (List.mem_of_find?_eq_some hfind) hbegins
    rw [Option.map_some, List.drop_left, String.ofList_toList]

end Report

namespace Statistics

/-- The labels of a report, each with the number that is written after it. -/
def entries (s : Statistics) : List (String × String) :=
  ("Runtime Statistics", "") :: s.listed.map (fun op => (op.label, (s.count op).repr)) ++
    [("Max sp:", s.maxSp.repr), ("Max rp:", s.maxRp.repr),
      ("Total opcodes processed: ", s.total.repr)]

/-- A report is the lines of its labels and numbers. -/
theorem report_eq_join (s : Statistics) :
    s.report = String.join (s.entries.map fun entry => line entry.1 entry.2) := by
  have htitle : line "Runtime Statistics" "" = "Runtime Statistics\n" := by decide +kernel
  have hlong : Text.padRight 9 "Total opcodes processed: " = "Total opcodes processed: " := by
    decide +kernel
  have htotal (number : String) : line "Total opcodes processed: " number =
      "Total opcodes processed: " ++ number ++ "\n" := by rw [line, hlong]
  -- The label of the total is wider than its field, so that its line is a line like the others.
  unfold report entries
  simp only [List.cons_append, List.map_cons, List.map_append, List.map_map, List.map_nil,
    String.join_cons, String.join_append, String.join_nil, htitle, htotal, String.append_assoc,
    String.append_empty, Function.comp_def, Opcode.label]

theorem toList_line (label number : String) :
    (line label number).toList = Report.opening label ++ number.toList ++ ['\n'] := by
  rw [line, String.toList_append, String.toList_append]
  rfl

theorem toList_report (s : Statistics) :
    s.report.toList =
      (s.entries.map fun entry => Report.opening entry.1 ++ entry.2.toList).flatMap
        (· ++ ['\n']) := by
  rw [report_eq_join, String.toList_join, List.flatMap_map, List.flatMap_map]
  simp only [toList_line]

theorem listed_sublist (s : Statistics) : s.listed.Sublist Opcode.all :=
  List.filter_sublist

/-- The labels of a report are some of those that it may have, each of them once. -/
theorem labels_entries_sublist (s : Statistics) :
    (s.entries.map Prod.fst).Sublist Report.labels := by
  have hopcodes : (s.listed.map fun op => op.label).Sublist (Opcode.all.map Opcode.label) :=
    s.listed_sublist.map _
  simp only [entries, Report.labels, List.map_cons, List.map_append, List.map_map, List.cons_append,
    List.map_nil]
  exact (hopcodes.append (List.Sublist.refl _)).cons_cons _

theorem no_newline_entries {s : Statistics} {label number : String}
    (hentry : (label, number) ∈ s.entries) : '\n' ∉ number.toList := by
  simp only [entries, List.cons_append, List.mem_cons, List.mem_append, List.mem_map,
    Prod.mk.injEq, List.not_mem_nil, or_false] at hentry
  rcases hentry with ⟨-, rfl⟩ | ⟨op, -, -, rfl⟩ | ⟨-, rfl⟩ | ⟨-, rfl⟩ | ⟨-, rfl⟩
  · decide
  · exact Log.no_newline_repr (s.count op)
  · exact Log.no_newline_repr s.maxSp
  · exact Log.no_newline_repr s.maxRp
  · exact Log.no_newline_repr s.total

/-- What was written in a report is found in it. -/
theorem entries_report (s : Statistics) : Report.entries s.report = s.entries := by
  have hlabels : ∀ entry ∈ s.entries, entry.1 ∈ Report.labels := by
    intro entry hentry
    exact s.labels_entries_sublist.subset (List.mem_map_of_mem hentry)
  rw [Report.entries, Text.linesOf_eq s.toList_report]
  · rw [List.filterMap_map]
    calc s.entries.filterMap _ = s.entries.filterMap some := ?_
      _ = s.entries := List.filterMap_some
    apply List.filterMap_congr
    rintro ⟨label, number⟩ hentry
    exact Report.entry?_opening_append (hlabels _ hentry) number
  · intro line hline
    obtain ⟨⟨label, number⟩, hentry, rfl⟩ := List.mem_map.mp hline
    rw [List.mem_append, not_or]
    exact ⟨Report.no_newline_opening (hlabels _ hentry), no_newline_entries hentry⟩

end Statistics

/-! ## What a report says -/

/-- In a list of pairs that have different first parts, a first part is found with its second. -/
theorem lookup_of_mem {α β : Type} [BEq α] [LawfulBEq α] {pairs : List (α × β)} {key : α}
    {value : β} (hnodup : (pairs.map Prod.fst).Nodup) (hmem : (key, value) ∈ pairs) :
    pairs.lookup key = some value := by
  induction pairs with
  | nil => simp at hmem
  | cons pair pairs ih =>
    rw [List.map_cons, List.nodup_cons] at hnodup
    rw [List.lookup_cons]
    rcases List.mem_cons.mp hmem with rfl | hlater
    · simp
    · have hne : key ≠ pair.1 := by
        intro heq
        apply hnodup.1
        rw [← heq]
        exact List.mem_map_of_mem hlater
      rw [beq_false_of_ne hne]
      exact ih hnodup.2 hlater

/-- What a report says: the counts that it has a line for, and the three other numbers. -/
structure Reading where
  /-- The opcodes that have a line, each with the number on it. -/
  counts : List (Opcode × Nat)
  /-- The highest position of the data stack pointer. -/
  maxSp : Int
  /-- The highest position of the return stack pointer. -/
  maxRp : Int
  /-- The number of all dispatches. -/
  total : Nat
  deriving DecidableEq, Repr

namespace Reading

/-- The number of dispatches of an opcode. An opcode that has no line was not dispatched. -/
def count (r : Reading) (op : Opcode) : Nat :=
  (r.counts.lookup op).getD 0

/-- Reads a report. -/
def ofReport? (text : String) : Option Reading := do
  let entries := Report.entries text
  let maxSp ← (entries.lookup "Max sp:").bind String.toInt?
  let maxRp ← (entries.lookup "Max rp:").bind String.toInt?
  let total ← (entries.lookup "Total opcodes processed: ").bind String.toNat?
  let counts := Opcode.all.filterMap fun op =>
    ((entries.lookup op.label).bind String.toNat?).map fun number => (op, number)
  return { counts, maxSp, maxRp, total }

end Reading

namespace Statistics

/-- What the report on a run should say. -/
def reading (s : Statistics) : Reading where
  counts := s.listed.map fun op => (op, s.count op)
  maxSp := s.maxSp
  maxRp := s.maxRp
  total := s.total

theorem mem_listed {s : Statistics} {op : Opcode} :
    op ∈ s.listed ↔ op.isExtension = false ∨ s.count op ≠ 0 := by
  simp [listed, Opcode.mem_all]

theorem nodup_entries (s : Statistics) : (s.entries.map Prod.fst).Nodup :=
  Report.nodup_labels.sublist s.labels_entries_sublist

/-- The label of an opcode is no other label, and only its own. -/
theorem mem_listed_of_label {s : Statistics} {op : Opcode} {number : String}
    (hentry : (op.label, number) ∈ s.entries) : op ∈ s.listed := by
  have hnodup := Report.nodup_labels
  unfold Report.labels at hnodup
  rw [List.cons_append, List.nodup_cons, List.nodup_append] at hnodup
  obtain ⟨htitle, hopcodes, -, hrest⟩ := hnodup
  have hlabel : op.label ∈ Opcode.all.map Opcode.label := List.mem_map_of_mem op.mem_all
  unfold entries at hentry
  rw [List.cons_append, List.mem_cons, List.mem_append] at hentry
  -- All labels differ, which rules out the title and the last three lines.
  rcases hentry with heq | hlisted | hlast
  · rw [Prod.mk.injEq] at heq
    rw [← heq.1] at htitle
    exact absurd (List.mem_append_left _ hlabel) htitle
  · obtain ⟨other, hother, heq⟩ := List.mem_map.mp hlisted
    rw [Prod.mk.injEq] at heq
    obtain rfl := List.inj_on_of_nodup_map hopcodes other.mem_all op.mem_all heq.1
    exact hother
  · have hlabel' : op.label ∈ ["Max sp:", "Max rp:", "Total opcodes processed: "] :=
      List.mem_map_of_mem (f := Prod.fst) hlast
    exact absurd rfl (hrest op.label hlabel op.label hlabel')

/-- The number after the label of an opcode, if the opcode has a line. -/
theorem lookup_label (s : Statistics) (op : Opcode) :
    s.entries.lookup op.label = if op ∈ s.listed then some (s.count op).repr else none := by
  by_cases hlisted : op ∈ s.listed
  · rw [if_pos hlisted]
    apply lookup_of_mem s.nodup_entries
    unfold entries
    apply List.mem_append_left
    exact List.mem_cons_of_mem _ (List.mem_map_of_mem hlisted)
  · rw [if_neg hlisted, List.lookup_eq_none_iff]
    rintro ⟨label, number⟩ hentry
    rw [bne_iff_ne]
    rintro rfl
    exact hlisted (mem_listed_of_label hentry)

/-- A report is read as what it should say. -/
theorem ofReport?_report (s : Statistics) : Reading.ofReport? s.report = some s.reading := by
  have hsp : s.entries.lookup "Max sp:" = some s.maxSp.repr :=
    lookup_of_mem s.nodup_entries (by simp [entries])
  have hrp : s.entries.lookup "Max rp:" = some s.maxRp.repr :=
    lookup_of_mem s.nodup_entries (by simp [entries])
  have htotal : s.entries.lookup "Total opcodes processed: " = some s.total.repr :=
    lookup_of_mem s.nodup_entries (by simp [entries])
  have hcounts : (Opcode.all.filterMap fun op =>
      ((s.entries.lookup op.label).bind String.toNat?).map fun number => (op, number)) =
        s.listed.map fun op => (op, s.count op) := by
    rw [← List.filterMap_eq_map, listed, List.filterMap_filter]
    apply List.filterMap_congr
    intro op hop
    have hlisted : op ∈ s.listed ↔ (!op.isExtension || s.count op != 0) = true := by
      rw [listed, List.mem_filter]
      exact and_iff_right hop
    rw [lookup_label]
    simp only [hlisted]
    split
    · simp [Nat.toNat?_repr]
    · rfl
  unfold Reading.ofReport?
  simp only [entries_report, hsp, hrp, htotal, hcounts, Option.bind_some, Int.toInt?_repr,
    Nat.toNat?_repr]
  rfl

/-- An opcode without a line was not used, so that every count is found. -/
theorem count_reading (s : Statistics) (op : Opcode) : s.reading.count op = s.count op := by
  unfold Reading.count reading
  by_cases hlisted : op ∈ s.listed
  · have hnodup : ((s.listed.map fun op => (op, s.count op)).map Prod.fst).Nodup := by
      have hall : Opcode.all.Nodup := by decide
      simpa [Function.comp_def] using hall.sublist s.listed_sublist
    rw [lookup_of_mem hnodup (List.mem_map_of_mem hlisted), Option.getD_some]
  · have hnone : (s.listed.map fun op => (op, s.count op)).lookup op = none := by
      rw [List.lookup_eq_none_iff]
      intro pair hpair
      obtain ⟨other, hother, rfl⟩ := List.mem_map.mp hpair
      rw [bne_iff_ne]
      rintro rfl
      exact hlisted hother
    rw [mem_listed, not_or, not_not] at hlisted
    rw [hnone, Option.getD_none, hlisted.2]

/-- The opcodes that have no line add nothing to a sum of counts. -/
theorem foldl_count_eq_sum (s : Statistics) (ops : List Opcode) (start : Nat) :
    ops.foldl (fun sum op => sum + s.count op) start =
      start + ((ops.filter fun op => !op.isExtension || s.count op != 0).map s.count).sum := by
  induction ops generalizing start with
  | nil => rfl
  | cons op ops ih =>
    rw [List.foldl_cons, ih, List.filter_cons]
    by_cases hlisted : (!op.isExtension || s.count op != 0) = true
    · rw [if_pos hlisted, List.map_cons, List.sum_cons, Nat.add_assoc]
    · have hzero : s.count op = 0 := by
        rw [Bool.or_eq_true, not_or] at hlisted
        simpa using hlisted.2
      rw [if_neg hlisted, hzero, Nat.add_zero]

theorem total_reading (s : Statistics) :
    s.reading.total = (s.reading.counts.map Prod.snd).sum := by
  have hsum := s.foldl_count_eq_sum Opcode.all 0
  rw [Nat.zero_add] at hsum
  unfold reading
  rw [total, hsum, List.map_map]
  rfl

/-- Statistics are their counts and the two marks. -/
theorem eq_of_count {s t : Statistics} (hcount : ∀ op, s.count op = t.count op)
    (hsp : s.maxSp = t.maxSp) (hrp : s.maxRp = t.maxRp) : s = t := by
  have hindex : ∀ i : Fin 32, ∃ op ∈ Opcode.all, op.index = i := by decide
  have hcounts : s.counts = t.counts := by
    apply Vector.ext
    intro i hi
    obtain ⟨op, -, hop⟩ := hindex ⟨i, hi⟩
    have hval : op.index.val = i := congrArg Fin.val hop
    subst hval
    exact hcount op
  cases s
  cases t
  simp only at hcounts hsp hrp
  rw [hcounts, hsp, hrp]

end Statistics

/-- A report loses nothing. It can be read: every count is found in it, where an opcode without a
line was not used, and so are the two marks and the total, which is the sum of the counts that it
has lines for. So two runs have the same report exactly if they have the same statistics. -/
theorem report_loses_nothing :
    (∀ s : Statistics, ∃ r, Reading.ofReport? s.report = some r ∧
      (∀ op, r.count op = s.count op) ∧ r.maxSp = s.maxSp ∧ r.maxRp = s.maxRp ∧
      r.total = s.total ∧ r.total = (r.counts.map Prod.snd).sum ∧
      r.counts = s.listed.map fun op => (op, s.count op)) ∧
    ∀ s t : Statistics, s.report = t.report ↔ s = t := by
  constructor
  · intro s
    exact ⟨s.reading, s.ofReport?_report, s.count_reading, rfl, rfl, rfl, s.total_reading, rfl⟩
  · intro s t
    constructor
    · intro hreport
      have hreading : s.reading = t.reading := by
        apply Option.some.inj
        rw [← s.ofReport?_report, hreport, t.ofReport?_report]
      apply Statistics.eq_of_count
      · intro op
        rw [← s.count_reading, hreading, t.count_reading]
      · exact congrArg Reading.maxSp hreading
      · exact congrArg Reading.maxRp hreading
    · rintro rfl
      rfl

end CellMachine
