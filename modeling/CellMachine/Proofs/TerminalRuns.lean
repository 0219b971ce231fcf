import CellMachine.Command.Interactive
import CellMachine.Host.Script
import CellMachine.Proofs.Commands
import CellMachine.Proofs.Runs
import CellMachine.Proofs.StepLists

/-!
# The interactive command and its machine

The interactive command is the interactive machine with a terminal for its devices. What the machine
reads are the keys that stand for a character, in their order. Nothing else that happens at the
terminal has any part in it, except that a key which stands for no character leaves a line in the
log when the machine, waiting for a character, meets it.
-/

namespace CellMachine

/-! ## Keys -/

namespace Key

theorem toInt_cell_char (c : Char) : (char c).cell.toInt = c.toNat := by
  have hlt : c.toNat < 0x110000 := by
    rcases c.valid with hlow | ⟨_, hhigh⟩
    · exact Nat.lt_trans hlow (by decide)
    · exact hhigh
  exact Int32.toInt_ofNat_of_lt (by omega)

/-- Control keeps the five lowest bits of a character. -/
theorem cell_control_eq_and (c : Char) :
    (control c).cell = Int32.ofNat c.toLower.toNat &&& 0x1f := by
  refine Int32.toBitVec_inj.mp (BitVec.eq_of_toNat_eq ?_)
  rw [cell, Int32.toBitVec_and, Int32.toBitVec_ofNat', Int32.toBitVec_ofNat', BitVec.toNat_and,
    BitVec.toNat_ofNat, BitVec.toNat_ofNat]
  change _ = _ &&& (2 ^ 5 - 1)
  rw [Nat.and_two_pow_sub_one_eq_mod]
  omega

theorem cell_control_bounds (c : Char) : 0 ≤ (control c).cell ∧ (control c).cell ≤ 31 := by
  have hlt : c.toLower.toNat % 32 < 32 := Nat.mod_lt _ (by decide)
  have hcell : (control c).cell.toInt = (c.toLower.toNat % 32 : Nat) :=
    Int32.toInt_ofNat_of_lt (by omega)
  rw [Int32.le_iff_toInt_le, Int32.le_iff_toInt_le, hcell]
  change 0 ≤ _ ∧ _ ≤ (31 : Int)
  omega

end Key

/-! ## What happens at a terminal -/

namespace TerminalEvent

/-- The cell that a machine reads for an event, if the event stands for a character. -/
def cell? : TerminalEvent → Option Cell
  | .key pressed => some pressed.cell
  | .special _ | .other => none

/-- What the log tells of an event that is met while the machine waits for a character. -/
def remark? : TerminalEvent → Option Log.Event
  | .special pressed => some (.ignoredKey pressed.name)
  | .key _ | .other => none

/-- The cells that a machine can read at a terminal. -/
def cells (events : List TerminalEvent) : List Cell :=
  events.filterMap cell?

/-- What the log tells of events that were met. -/
def remarks (events : List TerminalEvent) : List Log.Event :=
  events.filterMap remark?

/-- Events end with a key that stands for a character, or there are none. -/
def EndWithKey (events : List TerminalEvent) : Prop :=
  events = [] ∨ ∃ before pressed, events = before ++ [.key pressed]

/-- The next cell to be read is that of the first key that stands for a character. -/
theorem exists_of_cells_eq_cons {events : List TerminalEvent} {value : Cell} {later : List Cell}
    (h : cells events = value :: later) :
    ∃ passed pressed rest, events = passed ++ .key pressed :: rest ∧
      (∀ event ∈ passed, event.cell? = none) ∧ value = pressed.cell ∧ later = cells rest := by
  obtain ⟨passed, event, rest, hsplit, hpassed, hvalue, hlater⟩ := List.filterMap_eq_cons_iff.mp h
  cases event with
  | key pressed =>
    exact ⟨passed, pressed, rest, hsplit, hpassed, (Option.some.inj hvalue).symm, hlater.symm⟩
  | special _ | other => simp [cell?] at hvalue

end TerminalEvent

namespace Log

/-- Whether an event tells of a key that stands for no character. -/
def Event.isRemark : Event → Bool
  | ignoredKey _ => true
  | _ => false

namespace Journal

/-- What a journal tells of keys that stand for no character. -/
def remarks (journal : Journal) : List Event :=
  journal.entries.toList.filter Event.isRemark

/-- A journal after events were noted in it one after the other. -/
def noteAll (events : List Event) (journal : Journal) : Journal :=
  events.foldl (fun journal event => journal.note event) journal

theorem threshold_noteAll (events : List Event) (journal : Journal) :
    (journal.noteAll events).threshold = journal.threshold := by
  induction events generalizing journal with
  | nil => rfl
  | cons event events ih => exact (ih (journal.note event)).trans (threshold_note event journal)

theorem entries_noteAll (events : List Event) (journal : Journal) :
    (journal.noteAll events).entries.toList =
      journal.entries.toList ++ journal.threshold.admitted events := by
  induction events generalizing journal with
  | nil => exact (List.append_nil _).symm
  | cons event events ih =>
    have hsplit : journal.threshold.admitted (event :: events) =
        journal.threshold.admitted [event] ++ journal.threshold.admitted events :=
      List.filter_append [event] events
    change ((journal.note event).noteAll events).entries.toList = _
    rw [ih, entries_note, threshold_note, hsplit, List.append_assoc]

/-- What is no remark is not told among the remarks. -/
theorem remarks_note {event : Event} (h : event.isRemark = false) (journal : Journal) :
    (journal.note event).remarks = journal.remarks := by
  have hnone : (journal.threshold.admitted [event]).filter Event.isRemark = [] := by
    refine List.filter_eq_nil_iff.mpr fun other hother => ?_
    rw [List.mem_singleton.mp (List.mem_of_mem_filter hother), h]
    exact Bool.false_ne_true
  rw [remarks, entries_note, List.filter_append, hnone, List.append_nil, remarks]

/-- All remarks are admitted, or none. -/
theorem remarks_noteAll (events : List TerminalEvent) (journal : Journal) :
    (journal.noteAll (TerminalEvent.remarks events)).remarks = journal.remarks ++
      if journal.threshold.admits .debug then TerminalEvent.remarks events else [] := by
  have hremark : ∀ event ∈ TerminalEvent.remarks events,
      event.isRemark = true ∧ event.level = .debug := by
    intro event hevent
    obtain ⟨met, -, hmet⟩ := List.mem_filterMap.mp hevent
    cases met with
    | special pressed =>
      obtain rfl := Option.some.inj hmet
      exact ⟨rfl, rfl⟩
    | key _ | other => simp [TerminalEvent.remark?] at hmet
  have hadmitted : journal.threshold.admitted (TerminalEvent.remarks events) =
      if journal.threshold.admits .debug then TerminalEvent.remarks events else [] := by
    rw [Level.admitted]
    split
    · rename_i hdebug
      exact List.filter_eq_self.mpr fun event hevent => by rw [(hremark event hevent).2, hdebug]
    · rename_i hdebug
      exact List.filter_eq_nil_iff.mpr fun event hevent => by rwa [(hremark event hevent).2]
  rw [remarks, entries_noteAll, List.filter_append, hadmitted, remarks]
  congr 1
  split
  · exact List.filter_eq_self.mpr fun event hevent => (hremark event hevent).1
  · rfl

end Journal

end Log

/-- A read passes over all that stands for no character, and the log tells of it. -/
theorem Terminal.readFrom_append {passed : List TerminalEvent}
    (hpassed : ∀ event ∈ passed, event.cell? = none) (pressed : Key) (rest : List TerminalEvent)
    (streams : Streams) :
    readFrom streams (passed ++ .key pressed :: rest) = .ok pressed.cell ⟨rest, { streams with
      journal := streams.journal.noteAll (TerminalEvent.remarks passed) }⟩ := by
  induction passed generalizing streams with
  | nil => rfl
  | cons event passed ih =>
    have hrest : ∀ event ∈ passed, event.cell? = none := fun event hevent =>
      hpassed event (List.mem_cons_of_mem _ hevent)
    cases event with
    | key _ => simpa [TerminalEvent.cell?] using hpassed _ List.mem_cons_self
    | special special => exact ih hrest (streams.note (.ignoredKey special.name))
    | other => exact ih hrest streams

/-! ## A terminal and a script -/

/-- The byte that was emitted, if it was one. -/
def Emission.byte? : Emission → Option UInt8
  | byte value => some value
  | flush => none

/-- The bytes that were emitted. -/
def Script.bytes (script : Script) : Array UInt8 :=
  script.emissions.filterMap Emission.byte?

/-- A terminal has come as far as a script whose replies are the keys that stand for a character. Of
the events that there were, some have been met, and there are enough keys left for a number of
reads. -/
structure Terminal.Follows (threshold : Log.Level) (events : List TerminalEvent) (reads : Nat)
    (script : Script) (t : Terminal) : Prop where
  /-- The script has the keys to come for its replies. -/
  replies : script.replies = (TerminalEvent.cells t.events).map .ok
  /-- There are enough of them. -/
  enough : reads ≤ script.replies.length
  /-- No use of the script fails. -/
  works : script.failingPut = none ∧ script.failingFlush = none
  /-- The output takes what it is given. -/
  room : t.streams.full = false
  /-- What was emitted is written, and nothing waits. -/
  written : t.streams.written = script.bytes ∧ t.streams.waiting = #[]
  /-- The log keeps its threshold. -/
  admitting : t.streams.journal.threshold = threshold
  /-- If the log admits so much detail, it tells of the events that were met up to the last key, and
  of no others. -/
  met : ∃ met, events = met ++ t.events ∧ TerminalEvent.EndWithKey met ∧
    t.streams.journal.remarks =
      if threshold.admits .debug then TerminalEvent.remarks met else []

namespace Terminal.Follows

variable {threshold : Log.Level} {events : List TerminalEvent} {n : Nat} {script : Script}
  {t : Terminal}

theorem fewer (h : t.Follows threshold events n script) {k : Nat} (hk : k ≤ n) :
    t.Follows threshold events k script :=
  { h with enough := Nat.le_trans hk h.enough }

/-- What is no remark may be noted. -/
theorem note (h : t.Follows threshold events n script) {event : Log.Event}
    (hevent : event.isRemark = false) :
    (Host.note event t).Follows threshold events n (Host.note event script) := by
  refine { h with admitting := ?_, met := ?_ }
  · change (t.streams.journal.note event).threshold = threshold
    rw [Log.Journal.threshold_note, h.admitting]
  · obtain ⟨met, hevents, hend, hremarks⟩ := h.met
    refine ⟨met, hevents, hend, ?_⟩
    change (t.streams.journal.note event).remarks = _
    rw [Log.Journal.remarks_note hevent, hremarks]

/-- A read gives the next key that stands for a character, and one key fewer is left. -/
theorem read (h : t.Follows threshold events (n + 1) script) :
    Concur (Follows threshold events n) (Follows threshold events n) (Host.read script)
      (Host.read t) := by
  obtain ⟨met, hevents, -, hremarks⟩ := h.met
  have henough := h.enough
  rw [h.replies, List.length_map] at henough
  obtain ⟨value, later, hcells⟩ :=
    List.exists_cons_of_length_pos (l := TerminalEvent.cells t.events) (by omega)
  obtain ⟨passed, pressed, rest, hsplit, hpassed, rfl, rfl⟩ :=
    TerminalEvent.exists_of_cells_eq_cons hcells
  have hread : Host.read t = .ok pressed.cell ⟨rest, { t.streams with
      journal := t.streams.journal.noteAll (TerminalEvent.remarks passed) }⟩ := by
    change readFrom t.streams t.events = _
    rw [hsplit, readFrom_append hpassed]
  have hreply : Host.read script = .ok pressed.cell
      { script with replies := (TerminalEvent.cells rest).map .ok } := by
    change Script.read script = _
    rw [Script.read, h.replies, hcells, List.map_cons]
  rw [hread, hreply]
  refine ⟨rfl, { h with replies := rfl, enough := ?_, admitting := ?_, met := ?_ }⟩
  · rw [hcells, List.length_cons] at henough
    rw [List.length_map]
    exact Nat.le_of_succ_le_succ henough
  · rw [Log.Journal.threshold_noteAll, h.admitting]
  · refine ⟨met ++ passed ++ [.key pressed], ?_, .inr ⟨_, _, rfl⟩, ?_⟩
    · rw [hevents, hsplit, List.append_assoc, List.append_assoc, List.singleton_append]
    · have hsame : TerminalEvent.remarks (met ++ passed ++ [.key pressed]) =
          TerminalEvent.remarks met ++ TerminalEvent.remarks passed := by
        rw [TerminalEvent.remarks, List.filterMap_append, List.filterMap_append]
        exact List.append_nil _
      rw [Log.Journal.remarks_noteAll, hremarks, h.admitting, hsame]
      split <;> rfl

/-- A byte is written at once. -/
theorem put (h : t.Follows threshold events n script) (byte : UInt8) :
    Concur (Follows threshold events n) (Follows threshold events n) (Host.put byte script)
      (Host.put byte t) := by
  obtain ⟨written, waiting, hput, houtput⟩ := Streams.put_of_room h.room byte
  have hwritten : Host.put byte t =
      .ok () ⟨t.events, { t.streams with written := written ++ waiting, waiting := #[] }⟩ := by
    change Terminal.put byte t = _
    have hflush : (do Streams.put byte; Streams.flush) t.streams =
        .ok () { t.streams with written := written ++ waiting, waiting := #[] } := by
      rw [bind_apply, hput]
      exact Streams.flush_of_room h.room
    rw [Terminal.put, hflush]
  have hemitted : Host.put byte script = .ok ()
      { script with puts := script.puts + 1, emissions := script.emissions.push (.byte byte) } := by
    change Script.put byte script = _
    rw [Script.put, if_neg (by simp [h.works.1])]
  rw [hwritten, hemitted]
  refine ⟨rfl, { h with written := ⟨?_, rfl⟩ }⟩
  change written ++ waiting = (script.emissions.push (.byte byte)).filterMap Emission.byte?
  rw [houtput, h.written.1, h.written.2, Array.append_empty, Script.bytes]
  exact (Array.filterMap_push_some (f := Emission.byte?) rfl (Array.size_push _)).symm

/-- There is nothing to hand out. -/
theorem flush (h : t.Follows threshold events n script) :
    Concur (Follows threshold events n) (Follows threshold events n) (Host.flush script)
      (Host.flush t) := by
  have hflushed : Host.flush script = .ok ()
      { script with flushes := script.flushes + 1, emissions := script.emissions.push .flush } := by
    change Script.flush script = _
    rw [Script.flush, if_neg (by simp [h.works.2])]
  rw [hflushed]
  refine ⟨rfl, { h with written := ⟨?_, h.written.2⟩ }⟩
  change t.streams.written = (script.emissions.push .flush).filterMap Emission.byte?
  rw [h.written.1, Script.bytes]
  exact (Array.filterMap_push_none rfl (Array.size_push _)).symm

/-- An opcode uses up a key if it reads. -/
theorem passage (op : Opcode) :
    Host.Passage op (Follows threshold events (n + if op.reads then 1 else 0))
      (Follows threshold events n) where
  weaken h := h.fewer (Nat.le_add_right _ _)
  read hreads h := by
    rw [if_pos hreads] at h
    exact h.read
  put byte h := (h.fewer (Nat.le_add_right _ _)).put byte
  flush h := h.flush.imp (fun _ _ hdone => hdone) fun _ _ hstopped =>
    hstopped.fewer (Nat.le_add_right _ _)
  note _ h := (h.fewer (Nat.le_add_right _ _)).note rfl

end Terminal.Follows

/-! ## Runs -/

/-- Whether the next step of a system reads a character. -/
def System.asks {δ : Type} (s : System δ) : Bool :=
  s.machine.next?.any Opcode.reads

namespace Session

variable {threshold : Log.Level} {events : List TerminalEvent} {s : System Script}
  {t : System Terminal}

/-- A step uses up a key if it reads. -/
theorem follows_step {n : Nat}
    (h : Paired Eq (Terminal.Follows threshold events (n + if s.asks then 1 else 0)) s t) :
    Concur (Paired Eq (Terminal.Follows threshold events n))
      (Paired Eq (Terminal.Follows threshold events n)) (step s) (step t) := by
  obtain ⟨m, script⟩ := s
  obtain ⟨_, terminal⟩ := t
  obtain ⟨rfl, hhost⟩ := h
  have hkept : Paired Eq (Terminal.Follows threshold events n) ⟨m, script⟩ ⟨m, terminal⟩ :=
    ⟨rfl, hhost.fewer (Nat.le_add_right _ _)⟩
  refine concur_step rfl rfl (fun _ _ => rfl) hkept hkept fun op hnext => ?_
  have hasks : System.asks ⟨m, script⟩ = op.reads := by
    rw [System.asks, hnext, Option.any_some]
  rw [hasks] at hhost
  exact concur_dispatch (R := fun _ _ => Eq) Machine.likeness_eq.toFullCongruence
    (Terminal.Follows.passage op) rfl (hhost.note rfl)

/-- A terminal with a key for every step that reads leads a machine to where a script leads it. -/
theorem follows_runToHalt {fuel : Nat}
    (h : Paired Eq (Terminal.Follows threshold events ((stepsToHalt fuel s).countP System.asks))
      s t) :
    Option.Rel (Concur (Paired Eq (Terminal.Follows threshold events 0))
      (Paired Eq (Terminal.Follows threshold events 0))) (runToHalt fuel s) (runToHalt fuel t) := by
  induction fuel generalizing s t with
  | zero => exact .none
  | succ fuel ih =>
    rw [stepsToHalt, List.countP_cons] at h
    rw [runToHalt, runToHalt]
    rcases (follows_step h).cases with ⟨status, s', t', hs, ht, hnext⟩ | ⟨e, s', t', hs, ht, hnext⟩
    · rw [hs] at hnext ⊢
      rw [ht]
      cases status with
      | running => exact ih hnext
      | halted => exact .some ⟨rfl, hnext⟩
    · rw [hs] at hnext ⊢
      rw [ht]
      exact .some ⟨rfl, hnext⟩

/-- The end of a run hands out nothing more, and the log tells of no key then. -/
theorem follows_run {fuel : Nat}
    (h : Paired Eq (Terminal.Follows threshold events ((stepsToHalt fuel s).countP System.asks))
      s t) :
    Option.Rel (Concur (Paired Eq (Terminal.Follows threshold events 0))
      (Paired Eq (Terminal.Follows threshold events 0))) (run fuel s) (run fuel t) := by
  rw [run, run]
  rcases rel_cases (follows_runToHalt h) with ⟨hs, ht⟩ | ⟨first, second, hs, ht, hended⟩
  · rw [hs, ht]
    exact .none
  · rw [hs, ht]
    refine .some (concur_settle (fun hhost => hhost.flush) (fun {s t} hst => ?_) hended)
    obtain ⟨m, script⟩ := s
    obtain ⟨_, terminal⟩ := t
    obtain ⟨rfl, hhost⟩ := hst
    exact ⟨rfl, rfl, hhost.note rfl⟩

/-- An image is loaded alike, and the log tells of no key meanwhile. -/
theorem follows_loadImage {n stored : Nat} {m : Machine} {script : Script} {terminal : Terminal}
    (h : terminal.Follows threshold events n script) {image : List UInt8}
    (hload : loadCells (Image.decode image) ⟨m, script⟩ = .ok stored s) (path : String) :
    ∃ t, loadImage path (.ok image) ⟨m, terminal⟩ = .ok stored t ∧
      Paired Eq (Terminal.Follows threshold events n) s t := by
  have hnotes (noted : List Log.Event) :
      noted.foldl (fun host event => Host.note event host) script = script :=
    List.foldlRecOn (motive := fun host => host = script) noted _ rfl fun _ h _ _ => h
  rw [loadCells_eq] at hload
  obtain ⟨rfl, rfl⟩ := EStateM.Result.ok.inj hload
  refine ⟨_, loadImage_of_loadCells (loadCells_eq _ _), rfl, ?_⟩
  change Terminal.Follows threshold events n (List.foldl _ script _) (List.foldl _ terminal _)
  rw [hnotes]
  refine List.foldlRecOn _ _ h fun terminal h event hevent => ?_
  refine h.note ?_
  rcases List.mem_append.mp hevent with hwarning | hloaded
  · rw [Log.warnings] at hwarning
    split at hwarning
    · rw [List.mem_singleton.mp hwarning]
      rfl
    · exact absurd hwarning List.not_mem_nil
  · rw [List.mem_singleton.mp hloaded]
    rfl

end Session

namespace Command

/-- The terminal that the interactive command starts with. -/
def Surroundings.terminal (world : Surroundings) (options : Options)
    (events : List TerminalEvent) : Terminal where
  events
  streams := (world.streams options).note .rawMode

theorem interactive_of_parse {world : Surroundings} {options : Options}
    (hoptions : Options.parse world.arguments = .ok options) (fuel : Nat)
    (events : List TerminalEvent) :
    interactive fuel world (some events) = (Profile.interactive.execute fuel options
      (world.files.read (Profile.interactive.imagePath options))
      (world.terminal options events)).map
        fun (s, closing) => .ok (.ofClosing s.host.streams closing) := by
  rw [interactive, hoptions]
  rfl

theorem Surroundings.follows_terminal {world : Surroundings} (hroom : world.fullOutput = false)
    (options : Options) {events : List TerminalEvent} {n : Nat}
    (henough : n ≤ (TerminalEvent.cells events).length) :
    (world.terminal options events).Follows (Profile.threshold options world.logLevel) events n
      { replies := (TerminalEvent.cells events).map .ok } := by
  have hstart : Terminal.Follows (Profile.threshold options world.logLevel) events n
      { replies := (TerminalEvent.cells events).map .ok } ⟨events, world.streams options⟩ :=
    { replies := rfl
      enough := by rwa [List.length_map]
      works := ⟨rfl, rfl⟩
      room := hroom
      written := ⟨rfl, rfl⟩
      admitting := rfl
      met := ⟨[], rfl, .inl rfl, (ite_self _).symm⟩ }
  exact hstart.note rfl

/-- The interactive command runs the interactive machine on the keys that stand for a character. If
there are as many of them as there are steps that read, the command has an answer exactly if that
machine, with the cells of the image in memory, stops within as many steps. Its own machine has then
come to the same, and it leaves what was emitted, the report if it is asked for, and the values of
the stack if all went well. The log has one line for every other key that was met, with the name of
the key, and none for anything else that happened at the terminal. If the image cannot be read
nothing is run, whatever the number of steps, and nothing but the log and the complaint is
written. -/
theorem interactive_agrees_with_machine {world : Surroundings} {options : Options}
    (hoptions : Options.parse world.arguments = .ok options) (hroom : world.fullOutput = false)
    (fuel : Nat) (events : List TerminalEvent) :
    (∀ (image : List UInt8) (stored : Nat) (s : System Script),
      world.files.read (Profile.interactive.imagePath options) = .ok image →
      Session.loadCells (Image.decode image)
        ⟨{ set := .interactive }, { replies := (TerminalEvent.cells events).map .ok }⟩ =
          .ok stored s →
      (Session.stepsToHalt fuel s).countP System.asks ≤ (TerminalEvent.cells events).length →
      Option.Rel (fun result answer => ∃ exit t,
          answer = .ok exit ∧
          Leaves "ngita" ShowsPlain world.arguments (stateAfter result).machine
            (stateAfter result).host.bytes exit (answerOf result) ∧
          Profile.interactive.execute fuel options (.ok image) (world.terminal options events) =
            some (t, Profile.interactive.close options (stateAfter result).machine
              (answerOf result)) ∧
          t.machine = (stateAfter result).machine ∧
          t.host.Follows (Profile.threshold options world.logLevel) events 0
            (stateAfter result).host ∧
          exit.errors = Log.lines t.host.streams.journal.entries.toList ++
            (Profile.interactive.close options t.machine (answerOf result)).complaint)
        (Session.run fuel s) (interactive fuel world (some events))) ∧
      (∀ cause, world.files.read (Profile.interactive.imagePath options) = .error cause →
        interactive fuel world (some events) = some (.ok
          { status := 1
            output := #[]
            errors :=
              Log.lines ((Profile.threshold options world.logLevel).admitted [.rawMode]) ++
                ("ngita: " ++ (Fault.load (Profile.interactive.imagePath options) cause).message
                  ++ "\n") })) ∧
      (∀ key, (Log.Event.ignoredKey key).line =
        "[DEBUG ngb::input] ignoring unmapped key " ++ Log.Event.indented key ++ "\n") ∧
      (∀ c, (Key.control c).cell = Int32.ofNat c.toLower.toNat &&& 0x1f ∧
        0 ≤ (Key.control c).cell ∧ (Key.control c).cell ≤ 31) ∧
      (∀ c, (Key.char c).cell.toInt = c.toNat) ∧
      Key.enter.cell = 10 ∧ Key.tab.cell = 9 ∧ Key.backspace.cell = 127 ∧
      Key.escape.cell = 27 := by
  rw [interactive_of_parse hoptions]
  refine ⟨?_, ?_, Log.Event.line_ignoredKey, ?_, ?_, rfl, rfl, rfl, rfl⟩
  · intro image stored s hfile hload henough
    obtain ⟨t, hloaded, hst⟩ := Session.follows_loadImage
      (Surroundings.follows_terminal hroom options henough) hload
      (Profile.interactive.imagePath options)
    have hexecute : Profile.interactive.execute fuel options (.ok image)
        (world.terminal options events) = _ := Profile.execute_of_loaded hloaded
    rw [hfile, hexecute]
    rcases rel_cases (Session.follows_run hst) with
      ⟨hs, ht⟩ | ⟨first, second, hs, ht, hended⟩
    · rw [hs, ht]
      exact .none
    · obtain ⟨hmachine, hhost⟩ := hended.stateAfter
      have hanswer := hended.answerOf
      rw [hs, ht]
      refine .some ⟨_, stateAfter second, rfl, ?_, ?_, hmachine.symm, hhost, ?_⟩
      · rw [hanswer, ← hmachine, ← hhost.written.1]
        have hshows : ∀ stack, ShowsPlain stack (Profile.interactive.stackLine stack) :=
          showsPlain_plainLine
        exact Profile.leaves_close hshows rfl (by decide) (by decide) hoptions hhost.room _ _
      · rw [Option.map_some, hanswer, hmachine]
      · rw [hanswer, Exit.ofClosing_of_room hhost.room]
  · intro cause hfile
    rw [hfile, Profile.execute_of_missing]
    refine congrArg (fun exit => some (Except.ok exit)) ?_
    have hlog : (world.terminal options events).streams.journal.entries.toList =
        (Profile.threshold options world.logLevel).admitted [.rawMode] :=
      Log.Journal.entries_note .rawMode _
    rw [Exit.ofClosing_of_room hroom, hlog]
    rfl
  · exact fun c => ⟨Key.cell_control_eq_and c, Key.cell_control_bounds c⟩
  · exact Key.toInt_cell_char

/-- A program reads a character and halts, at a terminal where a key that stands for none is pressed
first. -/
theorem interactive_agrees_with_machine_on_control :
    ∃ (world : Surroundings) (exit : Exit) (log : List Log.Event),
      world.arguments = ["-vv", "a"] ∧
      world.files.read "a" = .ok [91, 0, 0, 0, 26, 0, 0, 0] ∧
      interactive 2 world (some [.special .up, .other, .key (.control 'C')]) = some (.ok exit) ∧
      exit.status = 0 ∧ exit.output = "3 \n".toUTF8.data ∧ exit.errors = Log.lines log ∧
      log.filter Log.Event.isRemark = [.ignoredKey "Up"] := by
  obtain ⟨world, hworld⟩ : ∃ world,
      world = Surroundings.alone ["-vv", "a"] [91, 0, 0, 0, 26, 0, 0, 0] := ⟨_, rfl⟩
  have harguments : world.arguments = ["-vv", "a"] := by
    rw [hworld, Surroundings.alone]
  have hfile : world.files.read "a" = .ok [91, 0, 0, 0, 26, 0, 0, 0] := by
    rw [hworld]
    exact FileSystem.read_alone _
  have hoptions : Options.parse world.arguments = .ok { image := some "a", verbosity := 2 } := by
    rw [harguments]
    rfl
  obtain ⟨events, hevents⟩ : ∃ events : List TerminalEvent,
      events = [.special .up, .other, .key (.control 'C')] := ⟨_, rfl⟩
  have hkeys : TerminalEvent.cells events = [3] := by
    rw [hevents]
    decide
  obtain ⟨s, hs⟩ : ∃ s : System Script,
      s = ⟨.loaded .interactive [91, 26], { replies := [.ok 3] }⟩ := ⟨_, rfl⟩
  have hload : Session.loadCells (Image.decode [91, 0, 0, 0, 26, 0, 0, 0])
      ⟨{ set := .interactive }, { replies := (TerminalEvent.cells events).map .ok }⟩ =
        .ok 2 s := by
    have hcells : Image.decode [91, 0, 0, 0, 26, 0, 0, 0] = [91, 26] := by
      decide
    rw [hs, hcells, hkeys]
    exact Session.loadCells_fits .interactive _ (by decide)
  have hstart : s.machine.At [91, 26] 0 0 := by
    rw [hs]
    exact .loaded .interactive _
  have hdata : s.machine.data = {} := by
    rw [hs]
    rfl
  have hhost : s.host = { replies := [.ok 3] } := by
    rw [hs]
  have hnext : s.machine.next? = some .getc := by
    refine hstart.next? rfl (by omega) ?_
    rw [hs]
    rfl
  have hfirst : Yields (Session.step s)
      (fun status t => status = t.machine.status ∧ t.machine.At [91, 26] 1 1 ∧
        t.machine.data = ({} : DataStack).raise.put 0 3 ∧
        t.host = { flushes := 1, emissions := #[.flush] }) (fun _ _ => False) := by
    rw [Session.yields_step_of_next hnext]
    simp only [Session.execute, yields_bind, Session.yields_read]
    rw [hhost]
    change Yields ((liftM (Action.push s.machine.ip 3) : Session Script Unit)
      ⟨s.machine.counted .getc, { flushes := 1, emissions := #[.flush] }⟩) _ _
    rw [Session.yields_liftM, Action.yields_push]
    have htop : (s.machine.counted .getc).data.top = 0 := hstart.sp
    refine ⟨by omega, fun _ _ => ⟨trivial, ⟨hstart.memory, ?_, ?_, hstart.rp⟩, ?_, rfl⟩, by omega⟩
    · change s.machine.ip + 1 = 1
      rw [hstart.ip]
      rfl
    · exact congrArg (· + 1) htop
    · change s.machine.data.raise.put 0 3 = _
      rw [hdata]
  obtain ⟨_, t, hstep, rfl, hthere, hdata', hhost'⟩ := hfirst.exists_ok
  rw [hthere.status (by omega)] at hstep
  have hnext' : t.machine.next? = some .stop := by
    refine hthere.next? rfl (by omega) ?_
    cases t.machine.set <;> rfl
  obtain ⟨u, hstep', hdata'', hhost''⟩ : ∃ u, Session.step t = .ok .halted u ∧
      u.machine.data = t.machine.data ∧ u.host = t.host :=
    ⟨_, Session.step_stop hnext', rfl, rfl⟩
  have hrun : Session.run 2 s = some (Session.settle (.ok () u)) := by
    rw [Session.run_of_running hstep, Session.run_of_halted hstep']
  have henough : (Session.stepsToHalt 2 s).countP System.asks ≤
      (TerminalEvent.cells events).length := by
    rw [hkeys]
    simp [Session.stepsToHalt, hstep, hstep', System.asks, hnext, hnext', Opcode.reads]
  have hended : Session.settle (.ok () u) = .ok ()
      ⟨u.machine, { flushes := 2, emissions := #[.flush, .flush] }⟩ := by
    obtain ⟨m, script⟩ := u
    obtain rfl : script = _ := hhost''.trans hhost'
    rfl
  have hroom : world.fullOutput = false := by
    rw [hworld, Surroundings.alone]
  have hagree := (interactive_agrees_with_machine hoptions hroom 2 events).1 _ _ s hfile hload
    henough
  rw [hrun, hended] at hagree
  rcases rel_cases hagree with ⟨hnone, _⟩ |
    ⟨_, _, hsome, hinteractive, exit, v, rfl, hleaves, _, _, hfollows, herrors⟩
  · simp at hnone
  · obtain rfl := Option.some.inj hsome
    obtain ⟨hstatus, ⟨report, line, hreport, hline, hwritten⟩, _⟩ := hleaves
    obtain ⟨met, hmet, hend, hremarks⟩ := hfollows.met
    have hnone : report = "" := by
      apply hreport.unasked
      rw [harguments]
      decide
    have hshown : line = "3 " := by
      apply String.toList_inj.mp
      rw [hline.layout, stateAfter, hdata'', hdata']
      decide
    refine ⟨world, exit, _, harguments, hfile, hevents ▸ hinteractive, hstatus, ?_,
      herrors.trans (String.append_empty), ?_⟩
    · rw [hwritten, hnone, hshown]
      rfl
    · have hdebug : (Profile.threshold { image := some "a", verbosity := 2 }
          world.logLevel).admits .debug = true := by
        rw [hworld]
        rfl
      change v.host.streams.journal.remarks = _
      rw [hremarks, if_pos hdebug]
      rcases hend with rfl | ⟨before, pressed, rfl⟩
      · have hnone : TerminalEvent.cells v.host.events = [] :=
          List.map_eq_nil_iff.mp hfollows.replies.symm
        rw [← List.nil_append v.host.events, ← hmet, hkeys] at hnone
        simp at hnone
      · rw [hevents] at hmet
        obtain ⟨rfl, rfl, -⟩ : before = [.special .up, .other] ∧ pressed = .control 'C' ∧
            v.host.events = [] := by
          simpa [List.cons_eq_append_iff] using hmet
        rfl

end Command

end CellMachine
