import CellMachine.Proofs.BatchRuns
import CellMachine.Proofs.Tally

/-!
# How much the log tells

The log of a command looks on. How much of it is let through makes no difference to what the command
writes to its standard output, to its exit status, or to what it complains of, and a log that tells
less is a log that tells more with lines left out.

A log that lets everything through has one line for each instruction that was dispatched, in order,
with the state in which the instruction found the machine. So there are as many as the statistics
count.
-/

namespace CellMachine

/-! ## Two logs of one run -/

/-- The second streams are the first ones, whose journal keeps every event, with a journal that
keeps the events that a threshold admits. -/
structure Streams.Quieter (threshold : Log.Level) (s t : Streams) : Prop where
  full : t.full = s.full
  waiting : t.waiting = s.waiting
  written : t.written = s.written
  everything : s.journal.threshold = .trace
  admits : t.journal.threshold = threshold
  entries : t.journal.entries.toList = threshold.admitted s.journal.entries.toList

namespace Streams

variable {threshold : Log.Level} {s t : Streams}

theorem Quieter.flush (h : Quieter threshold s t) :
    Concur (Quieter threshold) (Quieter threshold) (Streams.flush s) (Streams.flush t) := by
  rw [Streams.flush, Streams.flush, h.waiting, h.full]
  split
  · exact ⟨rfl, h⟩
  · split
    · exact ⟨rfl, h⟩
    · exact ⟨rfl, { h with full := rfl, waiting := rfl, written := by rw [h.written] }⟩

theorem Quieter.put (h : Quieter threshold s t) (byte : UInt8) :
    Concur (Quieter threshold) (Quieter threshold) (Streams.put byte s) (Streams.put byte t) := by
  have hroom : Concur (Quieter threshold) (Quieter threshold) (makeRoom s) (makeRoom t) := by
    rw [makeRoom, makeRoom, h.waiting]
    split
    · exact h.flush
    · exact ⟨rfl, h⟩
  exact hroom.bind fun _ s t h => ⟨rfl, { h with waiting := congrArg (·.push byte) h.waiting }⟩

theorem Quieter.note (h : Quieter threshold s t) (event : Log.Event) :
    Quieter threshold (s.note event) (t.note event) := by
  refine { h with everything := ?_, admits := ?_, entries := ?_ }
  · exact (s.journal.threshold_note event).trans h.everything
  · exact (t.journal.threshold_note event).trans h.admits
  · rw [Streams.note, Streams.note, Log.Journal.entries_note, Log.Journal.entries_note, h.entries,
      h.admits, h.everything, Log.Level.admitted_trace]
    exact (List.filter_append _ _).symm

end Streams

/-- Two consoles read the same, and one of them has the quieter streams. -/
def Console.Quieter (threshold : Log.Level) (c d : Console) : Prop :=
  d.input = c.input ∧ c.streams.Quieter threshold d.streams

theorem Console.concur_onStreams {α : Type} {threshold : Log.Level} {c d : Console}
    (hinput : d.input = c.input) {use : EStateM IoError Streams α}
    (huse : Concur (Streams.Quieter threshold) (Streams.Quieter threshold) (use c.streams)
      (use d.streams)) :
    Concur (Quieter threshold) (Quieter threshold) (onStreams use c) (onStreams use d) := by
  rw [onStreams, onStreams]
  rcases huse.cases with ⟨a, s, t, hs, ht, hst⟩ | ⟨e, s, t, hs, ht, hst⟩
  · rw [hs, ht]
    exact ⟨rfl, hinput, hst⟩
  · rw [hs, ht]
    exact ⟨rfl, hinput, hst⟩

/-- No use of a console depends on what its journal keeps. -/
theorem Console.congruence_quieter (threshold : Log.Level) :
    Host.Congruence (Quieter threshold) where
  read {c d} h := by
    change Concur (Quieter threshold) (Quieter threshold) (Console.read c) (Console.read d)
    rw [Console.read, Console.read, h.1]
    split
    · exact ⟨rfl, h⟩
    · exact ⟨rfl, rfl, h.2⟩
    · exact ⟨rfl, h⟩
  put byte h := concur_onStreams h.1 (h.2.put byte)
  flush h := concur_onStreams h.1 h.2.flush
  note event h := ⟨h.1, h.2.note event⟩

/-! ## A log of every dispatch -/

/-- What is said of a host stays true when an instruction uses it. -/
structure Host.Keeps {δ : Type} [Host δ] (P : δ → Prop) : Prop where
  read {g : δ} : P g → P (stateAfter (Host.read g))
  put {g : δ} (byte : UInt8) : P g → P (stateAfter (Host.put byte g))
  flush {g : δ} : P g → P (stateAfter (Host.flush g))
  unimplemented {g : δ} (here : Cell) : P g → P (Host.note (.unimplemented here) g)

theorem Host.Keeps.execute {δ : Type} [Host δ] {P : δ → Prop} (hP : Host.Keeps P) (here : Cell)
    (op : Opcode) (m : Machine) (host : δ) (hhost : P host) :
    P (stateAfter (Session.execute here op ⟨m, host⟩)).host := by
  -- A host is compared with itself, and what is said of it is carried along.
  have hsame {α : Type} {result : EStateM.Result IoError δ α} (h : P (stateAfter result)) :
      Concur (fun g h => h = g ∧ P g) (fun g h => h = g ∧ P g) result result := by
    cases result with
    | ok a g => exact ⟨rfl, rfl, h⟩
    | error e g => exact ⟨rfl, rfl, h⟩
  have hpassage : Host.Passage op (fun g h : δ => h = g ∧ P g) (fun g h : δ => h = g ∧ P g) :=
    { weaken := fun h => h
      read := fun {_ _} _ ⟨heq, h⟩ => by rw [heq]; exact hsame (hP.read h)
      put := fun {_ _} byte ⟨heq, h⟩ => by rw [heq]; exact hsame (hP.put byte h)
      flush := fun {_ _} ⟨heq, h⟩ => by rw [heq]; exact hsame (hP.flush h)
      note := fun here ⟨heq, h⟩ => ⟨by rw [heq], hP.unimplemented here h⟩ }
  have hexecute := Session.concur_execute here Machine.likeness_eq.toInstructionCongruence hpassage
    (m := m) rfl ⟨rfl, hhost⟩
  exact hexecute.stateAfter.2.2

/-- A journal keeps every event, and these are the dispatches among its entries. -/
def Log.Journal.Traces (journal : Log.Journal) (dispatches : List Log.Event) : Prop :=
  journal.threshold = .trace ∧
    journal.entries.toList.filter (fun event => event.level = .trace) = dispatches

theorem Log.Journal.Traces.note {journal : Log.Journal} {dispatches : List Log.Event}
    (h : journal.Traces dispatches) (event : Log.Event) :
    (journal.note event).Traces
      (dispatches ++ [event].filter fun event => event.level = .trace) := by
  refine ⟨(journal.threshold_note event).trans h.1, ?_⟩
  rw [entries_note, h.1, Level.admitted_trace, List.filter_append, h.2]

/-- An event of another level is no dispatch. -/
theorem Log.Journal.Traces.pass {journal : Log.Journal} {dispatches : List Log.Event}
    (h : journal.Traces dispatches) {event : Log.Event} (hlevel : event.level ≠ .trace) :
    (journal.note event).Traces dispatches := by
  have hnoted := h.note event
  rw [List.filter_cons_of_neg (by simpa using hlevel), List.filter_nil, List.append_nil] at hnoted
  exact hnoted

namespace Streams

theorem journal_flush (s : Streams) : (stateAfter (flush s)).journal = s.journal := by
  rw [flush]
  split
  · rfl
  · split <;> rfl

theorem journal_put (byte : UInt8) (s : Streams) :
    (stateAfter (put byte s)).journal = s.journal := by
  have hroom : (stateAfter (makeRoom s)).journal = s.journal := by
    rw [makeRoom]
    split
    · exact s.journal_flush
    · rfl
  rw [put, bind_apply]
  cases h : makeRoom s with
  | ok a t =>
    rw [h] at hroom
    exact hroom
  | error e t =>
    rw [h] at hroom
    exact hroom

end Streams

namespace Console

theorem streams_onStreams {α : Type} (use : EStateM IoError Streams α) (c : Console) :
    (stateAfter (onStreams use c)).streams = stateAfter (use c.streams) := by
  rw [onStreams]
  cases use c.streams <;> rfl

theorem streams_read (c : Console) : (stateAfter (read c)).streams = c.streams := by
  rw [read]
  split <;> rfl

/-- No instruction enters a dispatch in the journal of its console. -/
theorem keeps_traces (dispatches : List Log.Event) :
    Host.Keeps fun c : Console => c.streams.journal.Traces dispatches where
  read {c} h := by
    change (stateAfter (Console.read c)).streams.journal.Traces dispatches
    rw [streams_read]
    exact h
  put {c} byte h := by
    change (stateAfter (onStreams (Streams.put byte) c)).streams.journal.Traces dispatches
    rw [streams_onStreams, Streams.journal_put]
    exact h
  flush {c} h := by
    change (stateAfter (onStreams Streams.flush c)).streams.journal.Traces dispatches
    rw [streams_onStreams, Streams.journal_flush]
    exact h
  unimplemented here h := h.pass (by simp [Log.Event.level])

end Console

/-- What is noted before a step, if the step finds an opcode: the address, the opcode and the two
stack pointers, as the instruction finds them. -/
def System.dispatch? {δ : Type} (s : System δ) : Option Log.Event :=
  s.machine.next?.map fun op => .dispatched s.machine.ip op s.machine.sp s.machine.rp

namespace Session

variable {s : System Console} {dispatches : List Log.Event}

/-- A step enters its dispatch in the journal, whether or not the instruction then ends well. -/
theorem traces_step (h : s.host.streams.journal.Traces dispatches) :
    (stateAfter (step s)).host.streams.journal.Traces (dispatches ++ s.dispatch?.toList) := by
  cases hnext : s.machine.next? with
  | none =>
    rw [stateAfter_step_of_none hnext, System.dispatch?, hnext, Option.map_none, Option.toList_none,
      List.append_nil]
    exact h
  | some op =>
    rw [System.dispatch?, hnext, Option.map_some, Option.toList_some]
    have hnoted := h.note (.dispatched s.machine.ip op s.machine.sp s.machine.rp)
    have hexecute := (Console.keeps_traces _).execute s.machine.ip op (s.machine.counted op)
      (Host.note (.dispatched s.machine.ip op s.machine.sp s.machine.rp) s.host) hnoted
    rw [← yields_stateAfter (P := fun t : System Console => t.host.streams.journal.Traces _),
      yields_step_of_next hnext]
    exact yields_stateAfter.mpr hexecute

/-- The steps of a run enter their dispatches in the journal, one after the other. -/
theorem traces_runToHalt {fuel : Nat} {loop : EStateM.Result Fault (System Console) Unit}
    (hrun : runToHalt fuel s = some loop) (h : s.host.streams.journal.Traces dispatches) :
    (stateAfter loop).host.streams.journal.Traces
      (dispatches ++ (stepsToHalt fuel s).filterMap System.dispatch?) := by
  refine stepsToHalt_induction (P := fun s steps t => ∀ dispatches,
    s.host.streams.journal.Traces dispatches →
      t.host.streams.journal.Traces (dispatches ++ steps.filterMap System.dispatch?))
    (fun s dispatches h => ?_) (fun {s t u steps steps'} hfirst hsecond dispatches h => ?_) hrun
    dispatches h
  · have hone : [s].filterMap System.dispatch? = s.dispatch?.toList := by
      rw [List.filterMap_cons]
      cases s.dispatch? <;> rfl
    rw [hone]
    exact traces_step h
  · rw [List.filterMap_append, ← List.append_assoc]
    exact hsecond _ (hfirst dispatches h)

/-- No load enters a dispatch in the journal. -/
theorem traces_loadImage (h : s.host.streams.journal.Traces dispatches) (path : String)
    (found : Except IoError (List UInt8)) :
    (stateAfter (loadImage path found s)).host.streams.journal.Traces dispatches := by
  cases found with
  | ok image =>
    rw [loadImage_of_loadCells (loadCells_eq s _)]
    refine List.foldlRecOn (motive := fun c : Console => c.streams.journal.Traces dispatches) _ _ h
      fun c h event hevent => h.pass ?_
    rcases List.mem_append.mp hevent with hwarning | hloaded
    · rw [Log.level_of_mem_warnings hwarning]
      decide
    · rw [List.mem_singleton.mp hloaded]
      simp [Log.Event.level]
  | error cause => exact h

/-- The end of a run is no dispatch. -/
theorem traces_settle {loop : EStateM.Result Fault (System Console) Unit}
    (h : (stateAfter loop).host.streams.journal.Traces dispatches) :
    (stateAfter (settle loop)).host.streams.journal.Traces dispatches := by
  have hend (s : System Console) (last : Session Console Unit)
      (hlast : ∀ t, t.host.streams.journal.Traces dispatches →
        (stateAfter (last t)).host.streams.journal.Traces dispatches)
      (h : s.host.streams.journal.Traces dispatches) :
      (stateAfter ((onHost Host.flush >>= fun _ => last) s)).host.streams.journal.Traces
        dispatches := by
    rw [← yields_stateAfter (P := fun t : System Console => t.host.streams.journal.Traces _),
      yields_bind, yields_onHost]
    refine (yields_stateAfter.mpr ((Console.keeps_traces dispatches).flush h)).imp
      (fun _ host hkept => ?_) (fun _ _ hkept => hkept)
    exact yields_stateAfter.mpr (hlast ⟨s.machine, host⟩ hkept)
  cases loop with
  | ok u s => exact hend s announceHalt (fun t h => h.pass (by simp [Log.Event.level])) h
  | error fault s => exact hend s (throw fault) (fun _ h => h) h

end Session

/-- There are as many dispatches as the statistics count. -/
theorem System.length_dispatches {δ : Type} [Host δ] {s : System δ} {fuel : Nat}
    {result : EStateM.Result Fault (System δ) Unit} (hnew : s.machine.statistics = {})
    (hrun : Session.run fuel s = some result) :
    ((Session.stepsToHalt fuel s).filterMap dispatch?).length =
      (stateAfter result).machine.statistics.total := by
  have htally := System.accounts_tally.run hrun
  have hzero : ({} : Statistics).total = 0 := by
    decide
  rw [htally, total_foldl_tally, hnew, hzero, Nat.zero_add, List.length_filterMap_eq_countP]
  congr 1
  funext t
  rw [dispatch?, Option.isSome_map]

namespace Command

/-! ## Commands that differ in their logs -/

/-- The threshold of the log of a command. -/
def Surroundings.threshold (world : Surroundings) : Log.Level :=
  match Options.parse world.arguments with
  | .ok options => Profile.threshold options world.logLevel
  | .error _ => .off

theorem Surroundings.threshold_of_parse {world : Surroundings} {options : Options}
    (hoptions : Options.parse world.arguments = .ok options) :
    world.threshold = Profile.threshold options world.logLevel := by
  rw [threshold, hoptions]

/-- The system that the batch command has loaded its image into, if it has found one. -/
def Surroundings.loaded? (world : Surroundings) (input : Except IoError (List UInt8)) :
    Option (System Console) :=
  match Options.parse world.arguments with
  | .ok options =>
    match Session.loadImage (Profile.batch.imagePath options)
      (world.files.read (Profile.batch.imagePath options))
      ⟨{ set := .base }, world.console options input⟩ with
    | .ok _ s => some s
    | .error _ _ => none
  | .error _ => none

/-- The systems that the steps of the batch command are made from. -/
def Surroundings.steps (world : Surroundings) (fuel : Nat)
    (input : Except IoError (List UInt8)) : List (System Console) :=
  (world.loaded? input).elim [] (Session.stepsToHalt fuel)

/-- What a command writes to its standard error after its log. -/
def Exit.complaintAfter (full : Bool) (closing : Closing) : String :=
  if full ∧ closing.output ≠ "" then
    "failed printing to stdout: " ++ IoError.noSpace.message ++ "\n"
  else closing.complaint

theorem Exit.errors_ofClosing (streams : Streams) (closing : Closing) :
    (ofClosing streams closing).errors =
      Log.lines streams.journal.entries.toList ++ complaintAfter streams.full closing := by
  rw [ofClosing, complaintAfter]
  split
  · rw [Log.Journal.text_eq_lines]
    simp only [String.append_assoc]
  · rw [Log.Journal.text_eq_lines]

/-- A command ends as if its log had kept every event, but for the lines that its threshold leaves
out. -/
structure Exit.Abridges (threshold : Log.Level) (streams : Streams) (closing : Closing)
    (exit : Exit) : Prop where
  output : exit.output = (ofClosing streams closing).output
  status : exit.status = (ofClosing streams closing).status
  errors : exit.errors = Log.lines (threshold.admitted streams.journal.entries.toList) ++
    complaintAfter streams.full closing

theorem Exit.abridges_ofClosing {threshold : Log.Level} {s t : Streams}
    (h : s.Quieter threshold t) (closing : Closing) :
    Abridges threshold s closing (ofClosing t closing) := by
  have hparts : (ofClosing t closing).output = (ofClosing s closing).output ∧
      (ofClosing t closing).status = (ofClosing s closing).status := by
    rw [ofClosing, ofClosing, h.full, h.written]
    split
    · exact ⟨rfl, rfl⟩
    · exact ⟨rfl, rfl⟩
  refine ⟨hparts.1, hparts.2, ?_⟩
  rw [errors_ofClosing, h.entries, h.full]

/-- The console with a journal that keeps every event. -/
def Surroundings.loudConsole (world : Surroundings) (input : Except IoError (List UInt8)) :
    Console where
  input
  streams := { full := world.fullOutput, journal := { threshold := .trace } }

theorem batch_abridges {world : Surroundings} {options : Options}
    (hoptions : Options.parse world.arguments = .ok options) (fuel : Nat)
    (input : Except IoError (List UInt8)) :
    Option.Rel (fun full answer => ∃ exit, answer = .ok exit ∧
        Exit.Abridges world.threshold full.1.host.streams full.2 exit)
      (Profile.batch.execute fuel options (world.files.read (Profile.batch.imagePath options))
        (world.loudConsole input))
      (batch fuel world input) := by
  have hquieter : Console.Quieter world.threshold (world.loudConsole input)
      (world.console options input) := by
    refine ⟨rfl, rfl, rfl, rfl, rfl, ?_, rfl⟩
    rw [Surroundings.threshold_of_parse hoptions]
    rfl
  rw [batch_of_parse hoptions]
  cases world.files.read (Profile.batch.imagePath options) with
  | ok image =>
    have hH := Console.congruence_quieter world.threshold
    have hexecute := Profile.concur_execute .batch fuel options hH hH.flush hH.note hquieter image
    rcases rel_cases hexecute with ⟨hs, ht⟩ | ⟨first, second, hs, ht, hclosing, hst⟩
    · rw [hs, ht]
      exact .none
    · rw [hs, ht]
      refine .some ⟨_, rfl, ?_⟩
      rw [hclosing]
      exact Exit.abridges_ofClosing hst.2.2 first.2
  | error cause =>
    rw [Profile.execute_of_missing, Profile.execute_of_missing]
    exact .some ⟨_, rfl, Exit.abridges_ofClosing hquieter.2 _⟩

/-- What a command writes after its log goes with its exit status: nothing if all went well, a
complaint, or that the output does not take what is printed. -/
def Profile.Farewell (profile : Profile) (status : Nat) (complaint : String) : Prop :=
  (status = 0 ∧ complaint = "") ∨
    (status = 1 ∧ ∃ message, complaint = profile.complaint message) ∨
    (status = Exit.brokenOutput ∧
      complaint = "failed printing to stdout: " ++ IoError.noSpace.message ++ "\n")

theorem Profile.farewell_execute {δ : Type} [Host δ] {profile : Profile} {fuel : Nat}
    {options : Options} {found : Except IoError (List UInt8)} {host : δ} {s : System δ}
    {closing : Closing} (h : profile.execute fuel options found host = some (s, closing))
    (streams : Streams) :
    profile.Farewell (Exit.ofClosing streams closing).status
      (Exit.complaintAfter streams.full closing) := by
  have hclosing : (closing.status = 0 ∧ closing.complaint = "") ∨
      (closing.status = 1 ∧ ∃ message, closing.complaint = profile.complaint message) := by
    rw [execute] at h
    split at h
    · obtain ⟨_, rfl⟩ := Prod.mk.inj (Option.some.inj h)
      exact .inr ⟨rfl, _, rfl⟩
    · split at h
      · simp at h
      · obtain ⟨_, rfl⟩ := Prod.mk.inj (Option.some.inj h)
        exact .inl ⟨rfl, rfl⟩
      · obtain ⟨_, rfl⟩ := Prod.mk.inj (Option.some.inj h)
        exact .inr ⟨rfl, _, rfl⟩
  rw [Exit.ofClosing, Exit.complaintAfter]
  split
  · exact .inr (.inr ⟨rfl, rfl⟩)
  · rcases hclosing with hwell | hfault
    · exact .inl hwell
    · exact .inr (.inl hfault)

/-- The detail that is asked for has no part in how an image is run. -/
theorem Profile.execute_congr {δ : Type} [Host δ] {profile : Profile} {options options' : Options}
    (himage : options'.image = options.image)
    (hstatistics : options'.statistics = options.statistics) (fuel : Nat)
    (found : Except IoError (List UInt8)) (host : δ) :
    profile.execute fuel options' found host = profile.execute fuel options found host := by
  have hreport : report options' = report options := by
    funext machine
    rw [report, report, hstatistics]
  have hclose : profile.close options' = profile.close options := by
    funext machine answer
    cases answer with
    | ok u => rw [close, close, hreport]
    | error fault => rw [close, close, hreport]
  have hpath : profile.imagePath options' = profile.imagePath options := by
    rw [imagePath, imagePath, himage]
  rw [execute, execute, hpath, hclose]

/-- A batch command whose log keeps every event has entered its dispatches, and no others, in the
order of its steps. -/
theorem Surroundings.traces_execute {world : Surroundings} {options : Options}
    (hoptions : Options.parse world.arguments = .ok options) (hall : world.threshold = .trace)
    {fuel : Nat} {input : Except IoError (List UInt8)} {s : System Console} {closing : Closing}
    (h : Profile.batch.execute fuel options
      (world.files.read (Profile.batch.imagePath options)) (world.loudConsole input) =
        some (s, closing)) :
    s.host.streams.journal.Traces ((world.steps fuel input).filterMap System.dispatch?) := by
  have hconsole : world.console options input = world.loudConsole input := by
    rw [console, streams, ← threshold_of_parse hoptions, hall, loudConsole]
  have hnew : (world.loudConsole input).streams.journal.Traces [] := ⟨rfl, rfl⟩
  have hload := Session.traces_loadImage (s := ⟨{ set := .base }, world.loudConsole input⟩) hnew
    (Profile.batch.imagePath options) (world.files.read (Profile.batch.imagePath options))
  rw [steps, loaded?, hoptions]
  simp only [hconsole]
  split
  · rename_i stored t ht
    rw [ht] at hload
    rw [Profile.execute_of_loaded ht] at h
    obtain ⟨result, hrun, hends⟩ := Option.map_eq_some_iff.mp h
    obtain ⟨rfl, _⟩ := Prod.mk.inj hends
    obtain ⟨loop, hloop, rfl⟩ := Option.map_eq_some_iff.mp hrun
    exact Session.traces_settle (Session.traces_runToHalt hloop hload)
  · rename_i fault t ht
    rw [ht] at hload
    rw [Profile.execute_of_unloaded ht] at h
    obtain ⟨rfl, _⟩ := Prod.mk.inj (Option.some.inj h)
    exact hload

/-- The new machine of a batch command has counted nothing. -/
theorem Surroundings.statistics_loaded {world : Surroundings}
    {input : Except IoError (List UInt8)} {s : System Console} (h : world.loaded? input = some s) :
    s.machine.statistics = {} := by
  rw [loaded?] at h
  split at h
  · rename_i options _
    have hloads := Session.loads_loadImage ⟨{ set := .base }, world.console options input⟩
      (Profile.batch.imagePath options) (world.files.read (Profile.batch.imagePath options))
    split at h
    · rename_i stored t hload
      obtain rfl := Option.some.inj h
      obtain ⟨memory, hmachine⟩ := Yields.of_ok hloads hload
      rw [hmachine]
    · simp at h
  · simp at h

/-- Two commands end alike, and one of them has left lines out of its log: of the events that the
other one has lines for, it has lines for those that its threshold admits. -/
structure Exit.Quieter (threshold : Log.Level) (log : List Log.Event) (exit exit' : Exit) :
    Prop where
  output : exit'.output = exit.output
  status : exit'.status = exit.status
  errors : ∃ complaint, Profile.batch.Farewell exit.status complaint ∧
    exit.errors = Log.lines (threshold.admitted log) ++ complaint ∧
    exit'.errors = Log.lines log ++ complaint

/-- Two batch commands that are asked for the same, detail apart, run the same and end alike. One
that tells everything has told of its dispatches. -/
theorem batch_quieter {world world' : Surroundings} {options options' : Options}
    (hparse : Options.parse world.arguments = .ok options)
    (hparse' : Options.parse world'.arguments = .ok options')
    (himage : options'.image = options.image)
    (hstatistics : options'.statistics = options.statistics)
    (hfiles : world'.files = world.files) (houtput : world'.fullOutput = world.fullOutput)
    (hless : world.threshold.ctorIdx ≤ world'.threshold.ctorIdx) (fuel : Nat)
    (input : Except IoError (List UInt8)) :
    Option.Rel (fun answer answer' => ∃ exit exit' log, answer = .ok exit ∧ answer' = .ok exit' ∧
        Exit.Quieter world.threshold log exit exit' ∧
        (world'.threshold = .trace → log.filter (fun event => event.level = .trace) =
          (world'.steps fuel input).filterMap System.dispatch?))
      (batch fuel world input) (batch fuel world' input) := by
  have hpath : Profile.batch.imagePath options' = Profile.batch.imagePath options := by
    rw [Profile.imagePath, Profile.imagePath, himage]
  have hloud : world'.loudConsole input = world.loudConsole input := by
    rw [Surroundings.loudConsole, Surroundings.loudConsole, houtput]
  have hsame : Profile.batch.execute fuel options'
      (world'.files.read (Profile.batch.imagePath options')) (world'.loudConsole input) =
        Profile.batch.execute fuel options
          (world.files.read (Profile.batch.imagePath options)) (world.loudConsole input) := by
    rw [Profile.execute_congr himage hstatistics, hfiles, hpath, hloud]
  -- Both commands abridge one run, whose log keeps every event.
  have hfirst := batch_abridges hparse fuel input
  have hsecond := batch_abridges hparse' fuel input
  rw [hsame] at hsecond
  rcases rel_cases hfirst with ⟨hrun, hanswer⟩ | ⟨⟨s, closing⟩, _, hrun, hanswer, exit, rfl, h⟩
  · rw [hrun] at hsecond
    rcases rel_cases hsecond with ⟨_, hanswer'⟩ | ⟨_, _, hsome, _⟩
    · rw [hanswer, hanswer']
      exact .none
    · simp at hsome
  · rw [hrun] at hsecond
    rcases rel_cases hsecond with ⟨hnone, _⟩ | ⟨_, _, hsome, hanswer', exit', rfl, h'⟩
    · simp at hnone
    · obtain rfl := Option.some.inj hsome
      rw [hanswer, hanswer']
      refine .some ⟨exit, exit', _, rfl, rfl, ⟨?_, ?_, _, ?_, ?_, h'.errors⟩, fun hall => ?_⟩
      · rw [h'.output, h.output]
      · rw [h'.status, h.status]
      · rw [h.status]
        exact Profile.farewell_execute hrun _
      · rw [h.errors, Log.Level.admitted_admitted hless]
      · rw [hall, Log.Level.admitted_trace]
        exact (Surroundings.traces_execute hparse' hall (hsame.trans hrun)).2

/-- Two batch commands that differ in how much detail is asked for, by flags or by the surroundings,
make the same mistake or end alike, and the one that tells less leaves out the lines of those events
that it does not admit. If everything is told, there is one line for each instruction that was
dispatched, in their order. It shows the state in which the instruction found the machine, and there
are as many such lines as the statistics count. -/
theorem logging_observational {world world' : Surroundings}
    (harguments : Options.withoutDetail world'.arguments = Options.withoutDetail world.arguments)
    (hfiles : world'.files = world.files) (houtput : world'.fullOutput = world.fullOutput)
    (hless : world.threshold.ctorIdx ≤ world'.threshold.ctorIdx) (fuel : Nat)
    (input : Except IoError (List UInt8)) :
    Option.Rel (fun answer answer' =>
        (∃ error, answer = .error error ∧ answer' = .error error) ∨
          ∃ exit exit' log, answer = .ok exit ∧ answer' = .ok exit' ∧
            Exit.Quieter world.threshold log exit exit' ∧
            (world'.threshold = .trace →
              log.filter (fun event => event.level = .trace) =
                (world'.steps fuel input).filterMap System.dispatch? ∧
              ∀ s result, world'.loaded? input = some s → Session.run fuel s = some result →
                (log.filter fun event => event.level = .trace).length =
                  (stateAfter result).machine.statistics.total))
      (batch fuel world input) (batch fuel world' input) ∧
    ∀ (address : Cell) (op : Opcode) (sp rp : Int),
      (Log.Event.dispatched address op sp rp).line =
        "[TRACE ngb::interpreter] " ++ Text.padLeft 6 address.text ++ ": "
          ++ Text.padRight 6 op.mnemonic ++ " sp " ++ sp.repr ++ " rp " ++ rp.repr ++ "\n" := by
  refine ⟨?_, Log.Event.line_dispatched⟩
  rcases Options.parse_of_withoutDetail_eq harguments with
    ⟨stop, hparse, hparse'⟩ | ⟨options, options', hparse, hparse', himage, hstatistics⟩
  · have hnone : world'.loaded? input = none := by
      rw [Surroundings.loaded?, hparse']
    rw [batch, batch, hparse, hparse']
    cases stop with
    | usage error => exact .some (.inl ⟨error, rfl, rfl⟩)
    | help | version =>
      refine .some (.inr ⟨_, _, [], rfl, rfl, ⟨?_, rfl, "", .inl ⟨rfl, rfl⟩, rfl, rfl⟩,
        fun _ => ?_⟩)
      · rw [houtput]
      · rw [Surroundings.steps, hnone]
        exact ⟨rfl, fun _ _ hloaded => by simp at hloaded⟩
  · rcases rel_cases (batch_quieter hparse hparse' himage hstatistics hfiles houtput hless fuel
      input) with ⟨hs, ht⟩ | ⟨_, _, hs, ht, exit, exit', log, rfl, rfl, hquieter, htrace⟩
    · rw [hs, ht]
      exact .none
    · rw [hs, ht]
      refine .some (.inr ⟨exit, exit', log, rfl, rfl, hquieter, fun hall => ⟨htrace hall, ?_⟩⟩)
      intro s result hloaded hended
      rw [htrace hall, Surroundings.steps, hloaded]
      exact System.length_dispatches (Surroundings.statistics_loaded hloaded) hended

/-- An instruction that stops with a fault has its line in a log that tells everything, and a
command that tells less writes the same. -/
theorem logging_observational_on_fault :
    ∃ (world world' : Surroundings) (exit exit' : Exit) (log : List Log.Event),
      world.arguments = ["a"] ∧ world'.arguments = ["-vvv", "a"] ∧
      world.files.read "a" = .ok [17, 0, 0, 0] ∧
      batch 1 world (.ok []) = some (.ok exit) ∧ batch 1 world' (.ok []) = some (.ok exit') ∧
      Exit.Quieter .warn log exit exit' ∧
      log.filter (fun event => event.level = .trace) = [.dispatched 0 .add 0 0] := by
  obtain ⟨files, hfiles⟩ : ∃ files : FileSystem, files =
    { root := .directory [("a", .file [17, 0, 0, 0])], workingDirectory := [] } := ⟨_, rfl⟩
  have hfile : files.read "a" = .ok [17, 0, 0, 0] := by
    rw [hfiles]
    exact FileSystem.read_alone _
  obtain ⟨world, hworld⟩ : ∃ world : Surroundings, world = { arguments := ["a"], files } := ⟨_, rfl⟩
  obtain ⟨world', hworld'⟩ : ∃ world' : Surroundings,
    world' = { arguments := ["-vvv", "a"], files } := ⟨_, rfl⟩
  have hquiet : world.threshold = .warn := by
    rw [hworld]
    rfl
  have hloud : world'.threshold = .trace := by
    rw [hworld']
    rfl
  have harguments : Options.withoutDetail world'.arguments =
      Options.withoutDetail world.arguments := by
    rw [hworld, hworld']
    rfl
  have hparse : Options.parse world'.arguments = .ok { image := some "a", verbosity := 3 } := by
    rw [hworld']
    rfl
  have hfound : world'.files.read
      (Profile.batch.imagePath { image := some "a", verbosity := 3 }) = .ok [17, 0, 0, 0] := by
    rw [hworld']
    exact hfile
  obtain ⟨s, hs⟩ : ∃ s : System Console, s = System.afterLoad
      ⟨{ set := .base }, world'.console { image := some "a", verbosity := 3 } (.ok [])⟩
      (Memory.blank.write 0 [17]) [.loaded 1 "a"] := ⟨_, rfl⟩
  have hload : Session.loadImage "a" (.ok [17, 0, 0, 0])
      ⟨{ set := .base }, world'.console { image := some "a", verbosity := 3 } (.ok [])⟩ =
        .ok 1 s := by
    rw [hs]
    exact Session.loadImage_of_loadCells (Session.loadCells_eq _ _)
  have hmachine : s.machine = .loaded .base [17] := by
    rw [hs]
    rfl
  have hloaded : world'.loaded? (.ok []) = some s := by
    rw [Surroundings.loaded?, hparse]
    simp only [hfound]
    exact congrArg (fun loaded => match loaded with
      | EStateM.Result.ok _ s => some s
      | .error _ _ => none) hload
  have hnext : s.machine.next? = some .add := by
    rw [hmachine]
    exact Machine.next?_loaded rfl rfl
  have hstep : Yields (Session.step s) (fun _ _ => False) (fun _ _ => True) := by
    have htop : s.machine.data.top = 0 := by
      rw [hmachine]
      rfl
    rw [Session.yields_step_of_next hnext]
    refine Session.yields_liftM.mpr (Action.yields_combine.mpr ?_)
    simp [htop]
  obtain ⟨fault, t, hstop, _⟩ := hstep.exists_error
  have hrun : Session.run 1 s = some (Session.settle (.error fault t)) :=
    Session.run_of_fault hstop 0
  have hbatch : ∃ exit, batch 1 world' (.ok []) = some (.ok exit) := by
    have hexecute : Profile.batch.execute 1 { image := some "a", verbosity := 3 }
        (.ok [17, 0, 0, 0]) (world'.console { image := some "a", verbosity := 3 } (.ok [])) = _ :=
      Profile.execute_of_loaded hload
    rw [batch_of_parse hparse, hfound, hexecute, hrun]
    exact ⟨_, rfl⟩
  obtain ⟨exit', hexit'⟩ := hbatch
  have hagree := (logging_observational harguments (by rw [hworld, hworld'])
    (by rw [hworld, hworld']) (by rw [hquiet, hloud]; decide) 1 (.ok [])).1
  rw [hexit'] at hagree
  rcases rel_cases hagree with
    ⟨_, hnone⟩ | ⟨_, _, hexit, hsome, ⟨_, _, rfl⟩ | ⟨exit, _, log, rfl, rfl, hquieter, htrace⟩⟩
  · simp at hnone
  · simp at hsome
  · obtain rfl := Except.ok.inj (Option.some.inj hsome)
    rw [hquiet] at hquieter
    refine ⟨world, world', exit, exit', log, by rw [hworld], by rw [hworld'], by rw [hworld, hfile],
      hexit, hexit', hquieter, ?_⟩
    have hdispatch : s.dispatch? = some (.dispatched 0 .add 0 0) := by
      rw [System.dispatch?, hnext, hmachine]
      rfl
    rw [(htrace hloud).1, Surroundings.steps, hloaded, Option.elim_some, Session.stepsToHalt, hstop,
      List.filterMap_cons_some hdispatch]
    rfl

end Command

end CellMachine
