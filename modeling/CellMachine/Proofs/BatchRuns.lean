import CellMachine.Command.Batch
import CellMachine.Host.Buffer
import CellMachine.Proofs.Commands
import CellMachine.Proofs.Runs

/-!
# The batch command and its machine

The batch command is the base machine with the standard streams for its devices. Bytes that it emits
wait for a while, but none is lost and none is overtaken: what was handed over and what still waits
are together what a machine in memory has emitted, and at the end of a run, however it ends, nothing
waits any more. The closing words of the command come after that.
-/

namespace CellMachine

/-- A console reads what a buffer reads, and has emitted what the buffer has emitted, whether or not
it was handed over. -/
structure Buffer.Mirrored (b : Buffer) (c : Console) : Prop where
  input : c.input = .ok b.input
  room : c.streams.full = false
  output : c.streams.written ++ c.streams.waiting = b.output

/-- Every use of a console whose output takes what it is given comes to what it comes to in
memory. -/
theorem Buffer.congruence_mirrored : Host.Congruence Mirrored where
  read {b c} h := by
    change Concur Mirrored Mirrored (Buffer.read b) (Console.read c)
    rw [Buffer.read, Console.read, h.input]
    cases b.input with
    | nil => exact ⟨rfl, h⟩
    | cons byte rest => exact ⟨rfl, { h with input := rfl }⟩
  put {b c} byte h := by
    obtain ⟨written, waiting, hput, houtput⟩ := Streams.put_of_room h.room byte
    change Concur Mirrored Mirrored (Buffer.put byte b) (Console.onStreams (Streams.put byte) c)
    rw [Buffer.put, Console.onStreams, hput]
    refine ⟨rfl, h.input, h.room, ?_⟩
    rw [houtput, h.output]
  flush {b c} h := by
    change Concur Mirrored Mirrored (.ok () b) (Console.onStreams Streams.flush c)
    rw [Console.onStreams, Streams.flush_of_room h.room]
    refine ⟨rfl, h.input, h.room, ?_⟩
    rw [Array.append_empty, h.output]
  note event h := { h with }

/-- A console has handed over what a buffer has emitted. -/
structure Buffer.Delivered (b : Buffer) (c : Console) : Prop where
  room : c.streams.full = false
  output : c.streams.written = b.output

theorem Buffer.Mirrored.delivered_flush {b : Buffer} {c : Console} (h : b.Mirrored c) :
    Concur Delivered Delivered (Host.flush b) (Host.flush c) := by
  change Concur Delivered Delivered (.ok () b) (Console.onStreams Streams.flush c)
  rw [Console.onStreams, Streams.flush_of_room h.room]
  exact ⟨rfl, h.room, h.output⟩

/-! ## Two programs in memory -/

/-- A program that emits the floor, and then has nothing to add, stops with a fault. -/
theorem run_of_short :
    ∃ u : System Buffer, Session.run 2 ⟨.loaded .base [28, 17], { input := [] }⟩ =
        some (.error (.stackUnderflow .data 1) u) ∧ u.host.output = #[0] := by
  obtain ⟨s, hs⟩ : ∃ s : System Buffer, s = ⟨.loaded .base [28, 17], { input := [] }⟩ := ⟨_, rfl⟩
  have hstart : s.machine.At [28, 17] 0 0 := by
    rw [hs]
    exact .loaded .base _
  have hput : Host.put (s.machine.data.look 0).lowByte (s.noted .output) =
      .ok () ({ input := [], output := #[0] } : Buffer) := by
    rw [hs]
    rfl
  obtain ⟨t, hemit, hmachine, hhost, hthere⟩ :=
    Session.step_output_at hstart rfl (by omega) (by omega) (by omega) hput
  have hnext : t.machine.next? = some .add := by
    refine hthere.next? rfl (by omega) ?_
    rw [hmachine, hs]
    rfl
  have hshort : Yields (Session.step t) (fun _ _ => False)
      (fun fault u => fault = .stackUnderflow .data 1 ∧ u.host = t.host) := by
    have htop : t.machine.data.top = -1 := hthere.sp
    rw [Session.yields_step_of_next hnext, hthere.ip]
    refine Session.yields_liftM.mpr (Action.yields_combine.mpr ?_)
    refine ⟨fun _ => ⟨rfl, rfl⟩, ?_, ?_⟩
    · simp [htop]
    · simp [htop]
  obtain ⟨_, u, hstop, rfl, hkept⟩ := hshort.exists_error
  refine ⟨u, ?_, ?_⟩
  · rw [← hs, Session.run_of_running hemit, Session.run_of_fault hstop]
    rfl
  · rw [hkept, hhost]

/-- A program that emits a value and leaves two others on the stack ends well. -/
theorem run_of_values :
    ∃ u : System Buffer, Session.run 5
        ⟨.loaded .base [1, 72, 28, 1, -7, 1, 12, 26], { input := [] }⟩ = some (.ok () u) ∧
      u.host.output = #[72] ∧ u.machine.data.trailing 100 = [(1, -7), (2, 12)] ∧
      u.machine.statistics.count .lit = 3 ∧ u.machine.statistics.total = 5 ∧
      u.machine.statistics.maxSp = 2 := by
  obtain ⟨s, hs⟩ : ∃ s : System Buffer,
    s = ⟨.loaded .base [1, 72, 28, 1, -7, 1, 12, 26], { input := [] }⟩ := ⟨_, rfl⟩
  have h : s.machine.At [1, 72, 28, 1, -7, 1, 12, 26] 0 0 := by
    rw [hs]
    exact .loaded .base _
  obtain ⟨s₁, hstep₁, hmachine₁, hhost₁, h₁⟩ :=
    Session.step_literal_at h rfl rfl (by omega) (by omega) (by omega)
  have hput : Host.put (s₁.machine.data.look 0).lowByte (s₁.noted .output) =
      .ok () ({ input := [], output := #[72] } : Buffer) := by
    rw [System.noted, hmachine₁, hhost₁, hs]
    rfl
  obtain ⟨s₂, hstep₂, hmachine₂, hhost₂, h₂⟩ :=
    Session.step_output_at h₁ rfl (by omega) (by omega) (by omega) hput
  obtain ⟨s₃, hstep₃, hmachine₃, hhost₃, h₃⟩ :=
    Session.step_literal_at h₂ rfl rfl (by omega) (by omega) (by omega)
  obtain ⟨s₄, hstep₄, hmachine₄, hhost₄, h₄⟩ :=
    Session.step_literal_at h₃ rfl rfl (by omega) (by omega) (by omega)
  have hstop := Session.step_stop_at h₄ rfl (by omega)
  have hmachine : s₄.machine =
      ((s.machine.afterLiteral 72).afterOutput.afterLiteral (-7)).afterLiteral 12 := by
    rw [hmachine₄, hmachine₃, hmachine₂, hmachine₁]
  have hhost : s₄.host = { input := [], output := #[72] } := hhost₄.trans (hhost₃.trans hhost₂)
  refine ⟨⟨s₄.machine.afterStop, s₄.host⟩, ?_, congrArg Buffer.output hhost, ?_⟩
  · rw [← hs, Session.run_of_running hstep₁, Session.run_of_running hstep₂,
      Session.run_of_running hstep₃, Session.run_of_running hstep₄, Session.run_of_halted hstop]
    rfl
  · simp only [hmachine, hs]
    decide

/-! ## The command -/

namespace Command

/-- A buffer takes no notes, so that a load from a file does to its machine what a load of the cells
does. -/
theorem loadImage_buffer {s s' : System Buffer} {image : List UInt8} {stored : Nat}
    (hload : Session.loadCells (Image.decode image) s = .ok stored s') (path : String) :
    Session.loadImage path (.ok image) s = .ok stored s' := by
  have hquiet (memory : Memory) (events : List Log.Event) :
      s.afterLoad memory events = ⟨{ s.machine with memory }, s.host⟩ := by
    have hnotes : events.foldl (fun host event => Host.note event host) s.host = s.host :=
      List.foldlRecOn (motive := fun host => host = s.host) events _ rfl fun _ h _ _ => h
    rw [System.afterLoad, hnotes]
  rw [Session.loadImage_of_loadCells (Session.loadCells_eq s _), hquiet]
  rw [Session.loadCells_eq, hquiet] at hload
  exact hload

/-- The console that the batch command starts with. -/
def Surroundings.console (world : Surroundings) (options : Options)
    (input : Except IoError (List UInt8)) : Console where
  input
  streams := world.streams options

theorem batch_of_parse {world : Surroundings} {options : Options}
    (hoptions : Options.parse world.arguments = .ok options) (fuel : Nat)
    (input : Except IoError (List UInt8)) :
    batch fuel world input = (Profile.batch.execute fuel options
      (world.files.read (Profile.batch.imagePath options)) (world.console options input)).map
        fun (s, closing) => .ok (.ofClosing s.host.streams closing) := by
  rw [batch, hoptions]
  rfl

/-- The batch command runs the base machine. It has an answer if the machine, with the cells of the
image and the bytes of the standard input in memory, stops within as many steps, and then it leaves
what the machine has emitted, the report if it is asked for, and the stack, each of the last hundred
entries behind its position, if all went well. The exit status is 0 if all went well and 1
otherwise, and only in the second case there is a complaint. If the image cannot be read nothing is
run, whatever the number of steps, and nothing but the complaint is written. -/
theorem batch_agrees_with_machine {world : Surroundings} {options : Options}
    (hoptions : Options.parse world.arguments = .ok options) (hroom : world.fullOutput = false)
    (fuel : Nat) (input : List UInt8) :
    (∀ (image : List UInt8) (stored : Nat) (s : System Buffer),
      world.files.read (Profile.batch.imagePath options) = .ok image →
      Session.loadCells (Image.decode image) ⟨{ set := .base }, { input }⟩ = .ok stored s →
      Option.Rel (fun result answer => ∃ exit, answer = .ok exit ∧
          Leaves "ngb" ShowsNumbered world.arguments (stateAfter result).machine
            (stateAfter result).host.output exit (answerOf result))
        (Session.run fuel s) (batch fuel world (.ok input))) ∧
      ∀ cause, world.files.read (Profile.batch.imagePath options) = .error cause →
        batch fuel world (.ok input) = some (.ok
          { status := 1
            output := #[]
            errors := "ngb: " ++ (Fault.load (Profile.batch.imagePath options) cause).message
              ++ "\n" }) := by
  rw [batch_of_parse hoptions]
  constructor
  · intro image stored s hfile hload
    have hmirrored : Buffer.Mirrored { input } (world.console options (.ok input)) :=
      ⟨rfl, hroom, rfl⟩
    have hexecute := Profile.concur_execute .batch fuel options Buffer.congruence_mirrored
      Buffer.Mirrored.delivered_flush (fun _ h => ⟨h.room, h.output⟩) hmirrored image
    rw [Profile.execute_of_loaded (loadImage_buffer hload _)] at hexecute
    rw [hfile]
    rcases rel_cases hexecute with ⟨hnone, ht⟩ | ⟨_, ⟨t, closing⟩, hsome, ht, hclosing, _, hhost⟩
    · rw [Option.map_eq_none_iff.mp hnone, ht]
      exact .none
    · obtain ⟨result, hrun, rfl⟩ := Option.map_eq_some_iff.mp hsome
      rw [hrun, ht]
      refine .some ⟨_, rfl, ?_⟩
      simp only at hclosing hhost ⊢
      rw [hclosing, ← hhost.output]
      have hshows : ∀ stack, ShowsNumbered stack (Profile.batch.stackLine stack) :=
        showsNumbered_numberedLine
      exact Profile.leaves_close hshows rfl (by decide) (by decide) hoptions hhost.room _ _
  · intro cause hfile
    rw [hfile, Profile.execute_of_missing]
    refine congrArg (fun exit => some (Except.ok exit)) ?_
    rw [Exit.ofClosing_of_room hroom]
    rfl

/-- Two programs emit a byte. One then stops with a fault: the byte is written, and the fault is
complained of. The other ends well with two values on its stack: after the byte comes the report
that is asked for, and then the values behind their positions. -/
theorem batch_agrees_with_machine_on_both_ends :
    (∃ (world : Surroundings) (exit : Exit), world.arguments = ["a"] ∧
      world.files.read "a" = .ok (Image.encode [28, 17]) ∧
      batch 2 world (.ok []) = some (.ok exit) ∧ exit.status = 1 ∧ exit.output = #[0] ∧
      Complains "ngb" exit.errors "data stack underflow at 1") ∧
    ∃ (world : Surroundings) (exit : Exit) (report : String) (r : Reading),
      world.arguments = ["--stats", "a"] ∧
      world.files.read "a" = .ok (Image.encode [1, 72, 28, 1, -7, 1, 12, 26]) ∧
      batch 5 world (.ok []) = some (.ok exit) ∧ exit.status = 0 ∧
      exit.output = #[72] ++ (report ++ "       1: -7        2: 12 " ++ "\n").toUTF8.data ∧
      Reading.ofReport? report = some r ∧ r.count .lit = 3 ∧ r.total = 5 ∧ r.maxSp = 2 ∧
      ∀ message, ¬ Complains "ngb" exit.errors message := by
  have hload {cells : List Cell} (hfits : cells.length ≤ 262144) :
      Session.loadCells (Image.decode (Image.encode cells)) ⟨{ set := .base }, { input := [] }⟩ =
        .ok cells.length (⟨.loaded .base cells, { input := [] }⟩ : System Buffer) := by
    have hshort : ([] : List UInt8).length < 4 := by decide
    rw [← List.append_nil (Image.encode cells), Image.decode_encode_append cells hshort]
    exact Session.loadCells_fits .base _ hfits
  constructor
  · have hfile := Surroundings.read_alone ["a"] (Image.encode [28, 17])
    have hoptions : Options.parse (Surroundings.alone ["a"] (Image.encode [28, 17])).arguments =
        .ok { image := some "a" } := rfl
    obtain ⟨u, hrun, houtput⟩ := run_of_short
    have hagree := (batch_agrees_with_machine hoptions rfl 2 []).1 _ _ _ hfile (hload (by decide))
    rw [hrun] at hagree
    rcases rel_cases hagree with ⟨hnone, _⟩ | ⟨_, _, hsome, hbatch, exit, rfl, hleaves⟩
    · simp at hnone
    · obtain rfl := Option.some.inj hsome
      obtain ⟨hstatus, ⟨report, hreport, hwritten⟩, hcomplains⟩ := hleaves
      rw [hreport.unasked (by decide), stateAfter, houtput] at hwritten
      exact ⟨_, exit, rfl, hfile, hbatch, hstatus, hwritten, hcomplains⟩
  · have hfile :=
      Surroundings.read_alone ["--stats", "a"] (Image.encode [1, 72, 28, 1, -7, 1, 12, 26])
    have hoptions : Options.parse (Surroundings.alone ["--stats", "a"]
        (Image.encode [1, 72, 28, 1, -7, 1, 12, 26])).arguments =
          .ok { image := some "a", statistics := true } := rfl
    obtain ⟨u, hrun, houtput, hentries, hliterals, htotal, hmaxSp⟩ := run_of_values
    have hagree := (batch_agrees_with_machine hoptions rfl 5 []).1 _ _ _ hfile (hload (by decide))
    rw [hrun] at hagree
    rcases rel_cases hagree with ⟨hnone, _⟩ | ⟨_, _, hsome, hbatch, exit, rfl, hleaves⟩
    · simp at hnone
    · obtain rfl := Option.some.inj hsome
      obtain ⟨hstatus, ⟨report, line, hreport, hline, hwritten⟩, hsilent⟩ := hleaves
      have hshown : line = "       1: -7        2: 12 " := by
        apply String.toList_inj.mp
        rw [hline.layout, stateAfter, hentries]
        decide
      have hreads := (hreport.asked (by decide)).2
      rw [stateAfter, houtput, hshown] at hwritten
      refine ⟨_, exit, report, _, rfl, hfile, hbatch, hstatus, hwritten, hreads, ?_, htotal, hmaxSp,
        hsilent⟩
      rw [stateAfter, Statistics.count_reading, hliterals]

end Command

end CellMachine
