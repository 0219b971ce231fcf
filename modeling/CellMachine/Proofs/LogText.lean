import CellMachine.Log
import Mathlib.Data.List.Chain

/-!
# The text of the log

A journal keeps the events that its threshold admits, and its text is their lines, one after the
other. The line of an event shows its level, the part of the program that it comes from and its
wording. Every line of that text can be told from a line that somebody else writes to the same
stream: it opens with a bracket, or it goes on with the text of an event and is set in.
-/

namespace CellMachine

namespace Text

variable {c : Char} {text : String} (width : Nat)

theorem not_mem_padRight (h : c ∉ text.toList) (hspace : c ≠ ' ') :
    c ∉ (padRight width text).toList := by
  simp [padRight, Field.render, Field.cut, spaces, h, hspace]

/-- A text at the right end of a field has the missing spaces in front of it. -/
theorem toList_padLeft (text : String) :
    (padLeft width text).toList =
      List.replicate (width - text.length) ' ' ++ text.toList := by
  simp [padLeft, Field.render, Field.cut, spaces]

theorem not_mem_padLeft (h : c ∉ text.toList) (hspace : c ≠ ' ') :
    c ∉ (padLeft width text).toList := by
  simp [toList_padLeft, h, hspace]

/-- A number is written with digits and a minus sign. -/
theorem not_mem_repr (hdigit : c.isDigit = false) (hminus : c ≠ '-') (n : Int) :
    c ∉ n.repr.toList := by
  have hdigits (k : Nat) : c ∉ k.repr.toList := by
    rw [Nat.toList_repr]
    intro hmem
    rw [Nat.isDigit_of_mem_toDigits (by decide) (by decide) hmem] at hdigit
    simp at hdigit
  cases n with
  | ofNat k => exact hdigits k
  | negSucc k =>
    rw [Int.repr, String.toList_append, List.mem_append, not_or]
    exact ⟨by simpa using hminus, hdigits _⟩

end Text

namespace Log

/-- The lines that tell of events. -/
def lines (events : List Event) : String :=
  String.join (events.map Event.line)

theorem lines_cons (event : Event) (events : List Event) :
    lines (event :: events) = event.line ++ lines events := by
  rw [lines, List.map_cons, String.join_cons, lines]

/-- A journal reads as the lines of its entries. -/
theorem Journal.text_eq_lines (journal : Journal) :
    journal.text = lines journal.entries.toList := by
  have hfold (events : List Event) (before : String) :
      events.foldl (fun text event => text ++ event.line) before = before ++ lines events := by
    induction events generalizing before with
    | nil => exact String.append_empty.symm
    | cons event events ih => rw [List.foldl_cons, ih, lines_cons, String.append_assoc]
  rw [text, ← Array.foldl_toList, hfold, String.empty_append]

/-- The events among the given ones that a threshold admits. -/
def Level.admitted (threshold : Level) (events : List Event) : List Event :=
  events.filter fun event => threshold.admits event.level

theorem Journal.entries_note (event : Event) (journal : Journal) :
    (journal.note event).entries.toList =
      journal.entries.toList ++ journal.threshold.admitted [event] := by
  rw [note, Level.admitted]
  by_cases h : journal.threshold.admits event.level = true
  · simp [h]
  · simp [h]

theorem Journal.threshold_note (event : Event) (journal : Journal) :
    (journal.note event).threshold = journal.threshold := by
  rw [note]
  split <;> rfl

/-- What a threshold admits of what a more generous one has admitted is what it admits of all. -/
theorem Level.admitted_admitted {threshold generous : Level}
    (hle : threshold.ctorIdx ≤ generous.ctorIdx) (events : List Event) :
    threshold.admitted (generous.admitted events) = threshold.admitted events := by
  rw [admitted, admitted, List.filter_filter, admitted]
  refine List.filter_congr fun event _ => ?_
  simp only [admits, ← Bool.decide_and, decide_eq_decide]
  omega

/-- Every event is admitted by the last level. -/
theorem Level.admitted_trace (events : List Event) : trace.admitted events = events := by
  rw [admitted, List.filter_eq_self]
  intro event _
  cases event <;> rfl

/-! ## What a line shows -/

/-- A number is written in one line. -/
theorem no_newline_repr (n : Int) : '\n' ∉ n.repr.toList :=
  Text.not_mem_repr (by decide) (by decide) n

namespace Event

/-- The beginning of the line of an event: its level, in a field of five characters, and the part of
the program that it comes from. -/
def heading : Event → String
  | discarded _ => "[WARN  ngb::memory] "
  | loaded .. => "[DEBUG ngb::memory] "
  | dispatched .. => "[TRACE ngb::interpreter] "
  | unimplemented _ => "[ERROR ngb::interpreter] "
  | halted .. => "[DEBUG ngb::interpreter] "
  | rawMode | ignoredKey _ => "[DEBUG ngb::input] "

/-- The line of an event shows its level, its origin and its text. -/
theorem line_eq (event : Event) : event.line = event.heading ++ indented event.text ++ "\n" := by
  have hheading :
      "[" ++ Text.padRight 5 event.level.name ++ " " ++ event.origin ++ "] " = event.heading := by
    cases event <;> rw [level, origin, heading] <;> decide
  rw [line, hheading]

theorem toList_line (event : Event) :
    event.line.toList = event.heading.toList ++ (indented event.text).toList ++ ['\n'] := by
  rw [line_eq, String.toList_append, String.toList_append]
  rfl

theorem head?_heading (event : Event) : event.heading.toList.head? = some '[' := by
  cases event <;> rw [heading] <;> decide

theorem no_newline_heading (event : Event) : '\n' ∉ event.heading.toList := by
  cases event <;> rw [heading] <;> decide

/-- A text is set in part by part. -/
theorem indented_append (first second : String) :
    indented (first ++ second) = indented first ++ indented second := by
  rw [indented, String.toList_append, List.flatMap_append, String.ofList_append, indented, indented]

/-- A text of one line stays as it is. -/
theorem indented_of_no_newline {text : String} (h : '\n' ∉ text.toList) :
    indented text = text := by
  have hkept : text.toList.flatMap (fun c => if c = '\n' then "\n    ".toList else [c]) =
      text.toList.flatMap fun c => [c] := by
    refine List.flatMap_congr fun c hc => ?_
    rw [if_neg]
    rintro rfl
    exact h hc
  rw [indented, hkept, List.flatMap_singleton', String.ofList_toList]

theorem line_of_no_newline {event : Event} (h : '\n' ∉ event.text.toList) :
    event.line = event.heading ++ event.text ++ "\n" := by
  rw [line_eq, indented_of_no_newline h]

/-- The line of a dispatch shows the address of the instruction, its name and the positions of both
stack pointers. -/
theorem line_dispatched (address : Cell) (op : Opcode) (sp rp : Int) :
    (dispatched address op sp rp).line =
      "[TRACE ngb::interpreter] " ++ Text.padLeft 6 address.text ++ ": "
        ++ Text.padRight 6 op.mnemonic ++ " sp " ++ sp.repr ++ " rp " ++ rp.repr ++ "\n" := by
  have htext : (dispatched address op sp rp).text = Text.padLeft 6 address.text ++ ": "
      ++ Text.padRight 6 op.mnemonic ++ " " ++ ("sp " ++ sp.repr ++ " rp " ++ rp.repr) := rfl
  have hline : '\n' ∉ (dispatched address op sp rp).text.toList := by
    have haddress : '\n' ∉ address.text.toList := no_newline_repr address.toInt
    have hname : '\n' ∉ op.mnemonic.toList := by
      cases op <;> decide
    simp only [htext, String.toList_append, List.mem_append, not_or]
    exact ⟨⟨⟨⟨Text.not_mem_padLeft 6 haddress (by decide), by decide⟩,
      Text.not_mem_padRight 6 hname (by decide)⟩, by decide⟩, ⟨⟨by decide, no_newline_repr sp⟩,
      by decide⟩, no_newline_repr rp⟩
  rw [line_of_no_newline hline, heading, htext]
  simp only [String.append_assoc]
  rfl

/-- The warning that an image was too large says how many cells were discarded. -/
theorem line_discarded (count : Nat) :
    (discarded count).line =
      "[WARN  ngb::memory] image too large: " ++ count.repr ++
        " cells past the end of memory discarded\n" := by
  have htext : (discarded count).text =
      "image too large: " ++ count.repr ++ " cells past the end of memory discarded" := rfl
  have hline : '\n' ∉ (discarded count).text.toList := by
    have hcount : '\n' ∉ count.repr.toList := no_newline_repr count
    simp only [htext, String.toList_append, List.mem_append, not_or]
    exact ⟨⟨by decide, hcount⟩, by decide⟩
  have hopening : "[WARN  ngb::memory] " ++ "image too large: " =
      "[WARN  ngb::memory] image too large: " := rfl
  have hend : " cells past the end of memory discarded" ++ "\n" =
      " cells past the end of memory discarded\n" := by decide
  rw [line_of_no_newline hline, heading, htext, ← hopening, ← hend]
  simp only [String.append_assoc]

/-- The line of a key that stands for no character names the key. -/
theorem line_ignoredKey (key : String) :
    (ignoredKey key).line =
      "[DEBUG ngb::input] ignoring unmapped key " ++ indented key ++ "\n" := by
  have htext : (ignoredKey key).text = "ignoring unmapped key " ++ key := rfl
  have hbefore : indented "ignoring unmapped key " = "ignoring unmapped key " :=
    indented_of_no_newline (by decide)
  have hopening : "[DEBUG ngb::input] " ++ "ignoring unmapped key " =
      "[DEBUG ngb::input] ignoring unmapped key " := by decide
  rw [line_eq, heading, htext, indented_append, hbefore, ← hopening]
  simp only [String.append_assoc]

end Event

/-! ## Where lines begin -/

/-- What follows the end of a line opens with a bracket or is set in. -/
def Continues (text : List Char) : Prop :=
  text.IsChain fun a b => a = '\n' → b = '[' ∨ b = ' '

theorem continues_of_no_newline {text : List Char} (h : '\n' ∉ text) : Continues text := by
  induction text with
  | nil => exact .nil
  | cons c text ih =>
    refine List.isChain_cons.mpr ⟨fun _ _ hc => ?_, ih fun hmem => h (List.mem_cons_of_mem c hmem)⟩
    exact absurd (hc ▸ List.mem_cons_self) h

/-- A part of a text that does not end a line may be followed by anything. -/
theorem Continues.append {first second : List Char} (hfirst : Continues first)
    (hsecond : Continues second) (hinside : first.getLast? ≠ some '\n') :
    Continues (first ++ second) := by
  refine List.isChain_append.mpr ⟨hfirst, hsecond, fun a ha _ _ hnewline => ?_⟩
  exact absurd (hnewline ▸ ha) hinside

namespace Event

/-- The text of an event does not end the line that it stands in. -/
theorem continues_indented (text : String) : Continues ((indented text).toList ++ ['\n']) := by
  rw [indented, String.toList_ofList]
  induction text.toList with
  | nil => exact .singleton _
  | cons c rest ih =>
    rw [List.flatMap_cons, List.append_assoc]
    by_cases hc : c = '\n'
    · have hbreak : Continues "\n    ".toList := by
        unfold Continues
        decide
      rw [if_pos hc]
      exact hbreak.append ih (by decide)
    · rw [if_neg hc]
      exact Continues.append (.singleton c) ih (by simpa using hc)

theorem continues_line (event : Event) : Continues event.line.toList := by
  rw [toList_line, List.append_assoc]
  refine (continues_of_no_newline event.no_newline_heading).append (continues_indented event.text)
    fun hlast => ?_
  exact event.no_newline_heading (List.mem_of_getLast? hlast)

end Event

theorem toList_lines_cons (event : Event) (events : List Event) :
    (lines (event :: events)).toList = event.line.toList ++ (lines events).toList := by
  rw [lines_cons, String.toList_append]

theorem head?_lines {events : List Event} {c : Char} (h : (lines events).toList.head? = some c) :
    c = '[' := by
  cases events with
  | nil => simp [lines] at h
  | cons event events =>
    rw [toList_lines_cons, Event.toList_line, List.append_assoc, List.append_assoc,
      List.head?_append, event.head?_heading] at h
    exact (Option.some.inj h).symm

theorem continues_lines (events : List Event) : Continues (lines events).toList := by
  induction events with
  | nil => exact .nil
  | cons event events ih =>
    rw [toList_lines_cons]
    refine List.isChain_append.mpr ⟨event.continues_line, ih, fun _ _ c hc _ => ?_⟩
    exact .inl (head?_lines hc)

/-- Every line of the log opens with a bracket or is set in. -/
theorem opens_of_lines {events : List Event} {before after : List Char} {c : Char}
    (h : (lines events).toList = before ++ c :: after)
    (hstart : before = [] ∨ before.getLast? = some '\n') : c = '[' ∨ c = ' ' := by
  rcases hstart with rfl | hlast
  · left
    have hhead : (lines events).toList.head? = some c := by
      rw [h]
      rfl
    exact head?_lines hhead
  · have hchain := continues_lines events
    rw [h] at hchain
    exact (List.isChain_append.mp hchain).2.2 _ hlast c rfl rfl

/-- The log ends with the end of a line, unless it is empty. -/
theorem lines_ended (events : List Event) :
    lines events = "" ∨ ∃ before, lines events = before ++ "\n" := by
  induction events with
  | nil => exact .inl rfl
  | cons event events ih =>
    rw [lines_cons]
    rcases ih with hnone | ⟨before, hbefore⟩
    · rw [hnone, String.append_empty]
      exact .inr ⟨_, rfl⟩
    · rw [hbefore, ← String.append_assoc]
      exact .inr ⟨_, rfl⟩

end Log

end CellMachine
