import CellMachine.Command.Batch
import CellMachine.Command.Interactive
import CellMachine.Proofs.Contents
import CellMachine.Proofs.Overflow
import CellMachine.Proofs.StackLines

/-!
# Showing the stack

The owner of a machine sees its data stack as the list of the entries above the floor, or as the
last of them with their positions. A pointer below the floor shows nothing and a pointer past the
last cell shows every cell above the floor, so that both views say what the cells hold wherever the
pointer has gone. The lines that the commands print say the same.
-/

namespace CellMachine

/-! ## Programs that fill the stack -/

namespace Stack

variable {n : Nat}

/-- A push that has room adds an entry at the end. -/
theorem entries_push {s : Stack n} (hlow : 0 ≤ s.top) (hroom : s.top + 1 < n) (value : Cell) :
    (s.raise.put 0 value).entries = s.entries ++ [value] := by
  have hcontained : s.Contained := ⟨by omega, by omega⟩
  have hlive : (s.raise.put 0 value).live = s.live ++ [value] := by
    have hcontents := hcontained.contents_push hroom value
    rwa [contents, contents, List.reverse_eq_iff, List.reverse_cons, List.reverse_reverse]
      at hcontents
  have hfloor : s.live ≠ [] := by
    have hlength := hcontained.length_contents
    rw [contents, List.length_reverse] at hlength
    apply List.ne_nil_of_length_pos
    omega
  rw [entries, hlive, List.tail_append_of_ne_nil hfloor, entries]

end Stack

/-- The program that pushes values one after the other. -/
def pushing (values : List Cell) : List Cell :=
  values.flatMap fun value => [Opcode.lit.code, value]

theorem length_pushing (values : List Cell) : (pushing values).length = 2 * values.length := by
  simp [pushing, Nat.mul_comm]

theorem getElem?_pushing {values : List Cell} {k : Nat} {value : Cell}
    (hvalue : values[k]? = some value) :
    (pushing values)[2 * k]? = some Opcode.lit.code ∧
      (pushing values)[2 * k + 1]? = some value := by
  induction values generalizing k with
  | nil => simp at hvalue
  | cons first values ih =>
    cases k with
    | zero =>
      rw [List.getElem?_cons_zero, Option.some.injEq] at hvalue
      subst hvalue
      exact ⟨rfl, rfl⟩
    | succ k =>
      rw [List.getElem?_cons_succ] at hvalue
      exact ih hvalue

/-- A machine that has pushed the first `k` values. -/
structure Machine.Pushed (values : List Cell) (k : Nat) (m : Machine) : Prop where
  memory : m.memory = Memory.blank.write 0 (pushing values)
  set : m.set = .base
  ip : m.ip = Int32.ofNat (2 * k)
  sp : m.data.top = k
  rp : m.returns.top = 0
  entries : m.data.entries = values.take k

/-- A step pushes the next value. -/
theorem Machine.Pushed.step {s : System Script} {values : List Cell} {k : Nat}
    (h : s.machine.Pushed values k) (hk : k < values.length) (hroom : values.length ≤ 31) :
    (stateAfter (Session.step s)).machine.Pushed values (k + 1) := by
  obtain ⟨hcode, hoperand⟩ := getElem?_pushing (List.getElem?_eq_getElem hk)
  have hthere : s.machine.At (pushing values) (2 * k) k := ⟨h.memory, h.ip, h.sp, h.rp⟩
  obtain ⟨s', hstep, hmachine, -, hnext⟩ :=
    Session.step_literal_at hthere hcode hoperand (by omega) (by omega) (by omega)
  have hentries : s'.machine.data.entries = values.take (k + 1) := by
    have hsp := h.sp
    rw [hmachine]
    change (s.machine.data.raise.put 0 values[k]).entries = _
    rw [Stack.entries_push (by omega) (by omega), h.entries, List.take_succ_eq_append_getElem hk]
  have hset : s'.machine.set = .base := by
    rw [hmachine]
    exact h.set
  rw [hstep]
  exact ⟨hnext.memory, hset, hnext.ip, hnext.sp, hnext.rp, hentries⟩

/-- Every list that fits on the stack is left there by some program. -/
theorem reachable_entries {values : List Cell} (hroom : values.length ≤ 31) :
    ∃ s : System Script, Reachable s ∧ s.machine.data.entries = values := by
  have hpushed : ∀ k ≤ values.length, ∃ s : System Script, Reachable s ∧
      s.machine.Pushed values k := by
    intro k hk
    induction k with
    | zero =>
      refine ⟨⟨.loaded .base (pushing values), {}⟩, ?_, ⟨rfl, rfl, rfl, rfl, rfl, rfl⟩⟩
      apply Reachable.loaded
      rw [length_pushing]
      omega
    | succ k ih =>
      obtain ⟨s, hreachable, hs⟩ := ih (by omega)
      exact ⟨_, hreachable.step, hs.step hk hroom⟩
  obtain ⟨s, hreachable, hs⟩ := hpushed values.length (Nat.le_refl _)
  exact ⟨s, hreachable, by rw [hs.entries, List.take_length]⟩

/-! ## The views of the stack -/

namespace Command

/-- The report on a run, if there is one, ends with the end of a line. -/
theorem Profile.report_ended (options : Options) (m : Machine) :
    report options m = "" ∨ ∃ start, report options m = start ++ "\n" := by
  unfold report
  split
  · exact .inr ⟨_, rfl⟩
  · exact .inl rfl

/-- The last line that a command prints shows the stack. -/
theorem Legible.getLast?_linesOf_close {profile : Profile} {read : String → Option (List Cell)}
    (h : Legible profile.stackLine read) (options : Options) (m : Machine) :
    (Text.linesOf (profile.close options m (.ok ())).output).getLast? =
      some (profile.stackLine m.data).toList :=
  Text.getLast?_linesOf (Profile.report_ended options m) (h.no_newline m.data)

/-- What is shown of a data stack is what is there, wherever the pointer is. The entries are the
cells above the floor up to the pointer or to the last cell, and the last of them are shown with the
positions where they lie; a higher limit only adds to the front, and a limit of 31 is enough for
all. The line that a command prints last can be read back as the entries, so that two stacks have
the same line exactly if they have the same entries, and every list that fits on the stack is left
there by a program. -/
theorem stack_shown_faithfully :
    (∀ m : Machine, ∃ d : Nat, (d : Int) = max 0 (min m.sp 31) ∧
      m.data.entries.map some = (List.Ico 1 (d + 1)).map (fun i => m.data.cells[i]?) ∧
      (∀ limit, (m.data.trailing limit).map (Prod.map id some) =
        (List.Ico (max 1 (d + 1 - limit)) (d + 1)).map fun i => (i, m.data.cells[i]?)) ∧
      (∀ few many, few ≤ many → m.data.trailing few <:+ m.data.trailing many) ∧
      ∀ limit, 31 ≤ limit → (m.data.trailing limit).map Prod.snd = m.data.entries) ∧
    (∀ stack : DataStack, numberedCells? (Profile.batch.stackLine stack) = some stack.entries ∧
      plainCells? (Profile.interactive.stackLine stack) = some stack.entries) ∧
    (∀ profile ∈ [Profile.batch, Profile.interactive],
      (∀ stack other : DataStack,
        profile.stackLine stack = profile.stackLine other ↔ stack.entries = other.entries) ∧
      ∀ (options : Options) (m : Machine),
        (Text.linesOf (profile.close options m (.ok ())).output).getLast? =
          some (profile.stackLine m.data).toList) ∧
    ∀ values : List Cell, values.length ≤ 31 →
      ∃ s : System Script, Reachable s ∧ s.machine.data.entries = values := by
  have hbatch : Legible Profile.batch.stackLine numberedCells? := legible_numberedLine
  have hinteractive : Legible Profile.interactive.stackLine plainCells? := legible_plainLine
  refine ⟨fun m => ?_, fun stack => ?_, fun profile hprofile => ?_, fun values => reachable_entries⟩
  · exact ⟨m.data.entries.length, m.data.length_entries, m.data.map_some_entries,
      m.data.map_some_trailing, fun _ _ => m.data.trailing_suffix,
      fun _ hlimit => m.data.map_snd_trailing (Nat.succ_le_succ hlimit)⟩
  · exact ⟨hbatch.reads stack, hinteractive.reads stack⟩
  · obtain ⟨read, hread⟩ : ∃ read, Legible profile.stackLine read := by
      rcases List.mem_pair.mp hprofile with rfl | rfl
      · exact ⟨_, hbatch⟩
      · exact ⟨_, hinteractive⟩
    exact ⟨hread.eq_iff, hread.getLast?_linesOf_close⟩

/-- The pointer reaches both ends: past the last cell every cell above the floor is shown, and below
the floor nothing is. Two values are not taken for one whose digits are theirs. -/
theorem stack_shown_faithfully_past_both_ends :
    (∃ s : System Script, Reachable s ∧ s.machine.sp = 32 ∧
      s.machine.data.entries.map some =
        (List.Ico 1 32).map (fun i => s.machine.data.cells[i]?) ∧
      (s.machine.data.trailing 100).map Prod.snd = s.machine.data.entries) ∧
    (∃ s : System Script, Reachable s ∧ s.machine.sp = -1 ∧ s.machine.data.entries.map some = [] ∧
      s.machine.data.trailing 3 <:+ s.machine.data.trailing 100) ∧
    ∃ s t : System Script, Reachable s ∧ Reachable t ∧ s.machine.data.entries = [1, 2] ∧
      t.machine.data.entries = [12] ∧
      Profile.interactive.stackLine s.machine.data ≠ Profile.interactive.stackLine t.machine.data ∧
      Profile.batch.stackLine s.machine.data ≠ Profile.batch.stackLine t.machine.data := by
  obtain ⟨hviews, -, hlines, hvalues⟩ := stack_shown_faithfully
  refine ⟨?_, ?_, ?_⟩
  · obtain ⟨s, htop, -, hreached⟩ := Script.reached_unheard_overflow
    obtain ⟨d, hd, hentries, -, -, hwhole⟩ := hviews s.machine
    obtain rfl : d = 31 := by omega
    exact ⟨s, ⟨_, _, hreached⟩, htop, hentries, hwhole 100 (by decide)⟩
  · obtain ⟨s, hreachable, hempty, -⟩ := reachable_rp 0
    obtain ⟨d, hd, hentries, -, hsuffix, -⟩ := hviews s.machine
    obtain rfl : d = 0 := by
      rw [Machine.sp, hempty.sp] at hd
      omega
    exact ⟨s, hreachable, hempty.sp, hentries, hsuffix 3 100 (by decide)⟩
  · obtain ⟨s, hs, hfirst⟩ := hvalues [1, 2] (by decide)
    obtain ⟨t, ht, hsecond⟩ := hvalues [12] (by decide)
    have hdiffer : s.machine.data.entries ≠ t.machine.data.entries := by
      rw [hfirst, hsecond]
      decide
    refine ⟨s, t, hs, ht, hfirst, hsecond, fun heq => hdiffer ?_, fun heq => hdiffer ?_⟩
    · exact ((hlines Profile.interactive (by simp)).1 _ _).mp heq
    · exact ((hlines Profile.batch (by simp)).1 _ _).mp heq

end Command

end CellMachine
