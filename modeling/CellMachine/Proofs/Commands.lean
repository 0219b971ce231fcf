import CellMachine.Command.Exit
import CellMachine.Proofs.Arguments
import CellMachine.Proofs.Loading
import CellMachine.Proofs.Recorder
import CellMachine.Proofs.StackLines

/-!
# What commands do

A command loads its image, runs it, and says a few closing words. On two hosts that are alike it
does the same, and it has the same to say. Where the output takes what it is given, the trace that a
command leaves is what its machine wrote and its closing words after it, and the line by which it
complains can be told from every line of the log.
-/

namespace CellMachine

/-! ## An output that takes what it is given -/

namespace Streams

variable {s : Streams}

/-- What waits is handed over behind what was handed over before. -/
theorem flush_of_room (hroom : s.full = false) :
    flush s = .ok () { s with written := s.written ++ s.waiting, waiting := #[] } := by
  rw [flush]
  split
  · rename_i hnone
    have hwaiting : s.waiting = #[] := Array.isEmpty_iff.mp hnone
    rw [hwaiting, Array.append_empty, ← hwaiting]
  · rw [if_neg (by simp [hroom])]

/-- A byte comes last, whether or not others are handed over to make room for it. -/
theorem put_of_room (hroom : s.full = false) (byte : UInt8) :
    ∃ written waiting, put byte s = .ok () { s with written, waiting } ∧
      written ++ waiting = (s.written ++ s.waiting).push byte := by
  by_cases hcrowded : capacity ≤ s.waiting.size
  · rw [put, bind_apply, makeRoom, if_pos hcrowded, flush_of_room hroom]
    exact ⟨_, _, rfl, by simp⟩
  · rw [put, bind_apply, makeRoom, if_neg hcrowded]
    exact ⟨_, _, rfl, by simp⟩

end Streams

/-! ## Running an image -/

/-- The only file in the directory where a command was started is found under its name. -/
theorem FileSystem.read_alone (bytes : List UInt8) :
    read { root := .directory [("a", .file bytes)], workingDirectory := [] } "a" = .ok bytes := by
  have hparts : "a".splitOn "/" = ["a"] := by
    rw [String.splitOn, if_neg (by decide), String.splitOnAux, if_neg (by decide),
      if_neg (by decide), String.splitOnAux, if_pos (by decide)]
    decide
  rw [read, if_neg (by simp), if_neg (by decide), if_neg (by decide)]
  simp only [components, hparts]
  rw [if_neg (by simp)]
  rfl

namespace Command

/-- Surroundings with a single file. -/
def Surroundings.alone (arguments : List String) (bytes : List UInt8) : Surroundings where
  arguments
  files := { root := .directory [("a", .file bytes)], workingDirectory := [] }

theorem Surroundings.read_alone (arguments : List String) (bytes : List UInt8) :
    (alone arguments bytes).files.read "a" = .ok bytes :=
  FileSystem.read_alone bytes

namespace Profile

variable {δ δ' : Type} [Host δ] [Host δ'] {profile : Profile} {fuel : Nat} {options : Options}

/-- The closing words depend on what a run has come to and on the machine that it has left. -/
theorem execute_of_loaded {found : Except IoError (List UInt8)} {host : δ} {stored : Nat}
    {s : System δ} (hload : Session.loadImage (profile.imagePath options) found
      ⟨{ set := profile.set }, host⟩ = .ok stored s) :
    profile.execute fuel options found host = (Session.run fuel s).map fun result =>
      (stateAfter result,
        profile.close options (stateAfter result).machine (answerOf result)) := by
  rw [execute, hload]
  cases hrun : Session.run fuel s with
  | none => simp only [hrun, Option.map_none]
  | some result => cases result <;> simp only [hrun, Option.map_some] <;> rfl

/-- An image that cannot be loaded is not run, and nothing is reported. -/
theorem execute_of_unloaded {found : Except IoError (List UInt8)} {host : δ} {fault : Fault}
    {s : System δ} (hload : Session.loadImage (profile.imagePath options) found
      ⟨{ set := profile.set }, host⟩ = .error fault s) :
    profile.execute fuel options found host = some (s, profile.giveUp fault.message) := by
  rw [execute, hload]

theorem execute_of_missing (cause : IoError) (host : δ) :
    profile.execute fuel options (.error cause) host =
      some (⟨{ set := profile.set }, host⟩,
        profile.giveUp (Fault.load (profile.imagePath options) cause).message) :=
  execute_of_unloaded rfl

/-- On two hosts that are alike an image is run alike, and there is the same to say about it. How
alike they are afterwards depends on how what was emitted is handed out. -/
theorem concur_execute (profile : Profile) (fuel : Nat) (options : Options)
    {H K : δ → δ' → Prop} (hH : Host.Congruence H)
    (hflush : ∀ {g : δ} {h : δ'}, H g h → Concur K K (Host.flush g) (Host.flush h))
    (hnote : ∀ {g : δ} {h : δ'} (event : Log.Event), K g h →
      K (Host.note event g) (Host.note event h))
    {g : δ} {h : δ'} (hhosts : H g h) (image : List UInt8) :
    Option.Rel (fun first second => second.2 = first.2 ∧ Paired Eq K first.1 second.1)
      (profile.execute fuel options (.ok image) g)
      (profile.execute fuel options (.ok image) h) := by
  have hload := Session.concur_loadImage Machine.likeness_eq.toResemblance hH
    (profile.imagePath options) (.ok image) (s := ⟨{ set := profile.set }, g⟩)
    (t := ⟨{ set := profile.set }, h⟩) ⟨rfl, hhosts⟩
  rw [Session.loadImage_of_loadCells (Session.loadCells_eq _ _)] at hload
  rcases hload.cases with ⟨stored, s, t, hs, ht, hst⟩ | ⟨fault, s, t, hs, _⟩
  · rw [← Session.loadImage_of_loadCells (Session.loadCells_eq _ _)] at hs
    rw [execute_of_loaded hs, execute_of_loaded ht]
    rcases rel_cases (Session.concur_run Machine.likeness_eq.toResemblance hH hflush
      (Session.concur_announceHalt Machine.likeness_eq hnote) hst fuel) with
      ⟨hs, ht⟩ | ⟨first, second, hs, ht, hended⟩
    · rw [hs, ht]
      exact .none
    · rw [hs, ht]
      refine .some ⟨?_, hended.stateAfter⟩
      change profile.close options _ (answerOf second) = profile.close options _ (answerOf first)
      rw [hended.answerOf, hended.stateAfter.1]
  · simp at hs

end Profile

/-! ## The trace of a command -/

/-- The streams that a command starts with. -/
def Surroundings.streams (world : Surroundings) (options : Options) : Streams where
  full := world.fullOutput
  journal := { threshold := Profile.threshold options world.logLevel }

/-- An output that takes what it is given has the closing words after what was written. -/
theorem Exit.ofClosing_of_room {streams : Streams} (hroom : streams.full = false)
    (closing : Closing) :
    ofClosing streams closing =
      { status := closing.status
        output := streams.written ++ closing.output.toUTF8.data
        errors := Log.lines streams.journal.entries.toList ++ closing.complaint } := by
  rw [ofClosing, if_neg (by simp [hroom]), hroom, Log.Journal.text_eq_lines]
  rfl

/-- The errors end with the line by which a command complains: its name, a colon and the message.
Nothing of another line stands in front of it, and nothing comes after it. -/
def Complains (name errors message : String) : Prop :=
  ∃ before, errors = before ++ (name ++ ": " ++ message ++ "\n") ∧
    (before = "" ∨ ∃ earlier, before = earlier ++ "\n")

theorem complains_after_lines (name : String) (events : List Log.Event) (message : String) :
    Complains name (Log.lines events ++ (name ++ ": " ++ message ++ "\n")) message :=
  ⟨Log.lines events, rfl, Log.lines_ended events⟩

/-- The log never reads like a complaint of a command whose name begins with a letter, not even if
the path of the image has several lines. -/
theorem not_complains_lines {name : String} {c : Char} {rest : List Char}
    (hname : name.toList = c :: rest) (hbracket : c ≠ '[') (hspace : c ≠ ' ')
    (events : List Log.Event) (message : String) :
    ¬ Complains name (Log.lines events) message := by
  rintro ⟨before, hlines, hstart⟩
  have hchars : (Log.lines events).toList =
      before.toList ++ c :: (rest ++ (": " ++ message ++ "\n").toList) := by
    rw [hlines, String.toList_append, String.append_assoc, String.append_assoc,
      String.toList_append, hname, List.cons_append, String.append_assoc]
  have hopens : c = '[' ∨ c = ' ' := by
    refine Log.opens_of_lines hchars ?_
    rcases hstart with rfl | ⟨earlier, rfl⟩
    · exact .inl rfl
    · right
      rw [String.toList_append]
      exact List.getLast?_concat
  rcases hopens with h | h
  · exact hbracket h
  · exact hspace h

/-- A text that reports on a run, if a flag asks for it. -/
structure Reports (arguments : List String) (statistics : Statistics) (text : String) : Prop where
  /-- With the flag it is the report of the machine, which can be read back. -/
  asked : "--stats" ∈ arguments.takeWhile (· ≠ "--") →
    text = statistics.report ∧ Reading.ofReport? text = some statistics.reading
  /-- Without the flag there is none. -/
  unasked : "--stats" ∉ arguments.takeWhile (· ≠ "--") → text = ""

theorem Profile.reports_report {arguments : List String} {options : Options}
    (hoptions : Options.parse arguments = .ok options) (machine : Machine) :
    Reports arguments machine.statistics (report options machine) := by
  have hstatistics := Options.statistics_parse hoptions
  constructor
  · intro hasked
    rw [report, if_pos (hstatistics.mpr hasked)]
    exact ⟨rfl, machine.statistics.ofReport?_report⟩
  · intro hunasked
    rw [report, if_neg fun h => hunasked (hstatistics.mp h)]

/-- The trace that a command leaves after a run, on a machine that has emitted some bytes, by what
the run has come to. The statistics are reported after a fault, too. Only a run that ended well
shows its stack, and only a fault is complained of. -/
def Leaves (name : String) (Shows : DataStack → String → Prop) (arguments : List String)
    (machine : Machine) (emitted : Array UInt8) (exit : Exit) : Except Fault Unit → Prop
  | .ok _ =>
    exit.status = 0 ∧
      (∃ report line, Reports arguments machine.statistics report ∧ Shows machine.data line ∧
        exit.output = emitted ++ (report ++ line ++ "\n").toUTF8.data) ∧
      ∀ message, ¬ Complains name exit.errors message
  | .error fault =>
    exit.status = 1 ∧
      (∃ report, Reports arguments machine.statistics report ∧
        exit.output = emitted ++ report.toUTF8.data) ∧
      Complains name exit.errors fault.message

/-- The closing words after a run make the trace that the command leaves. -/
theorem Profile.leaves_close {profile : Profile} {Shows : DataStack → String → Prop}
    (hshows : ∀ stack, Shows stack (profile.stackLine stack)) {c : Char} {rest : List Char}
    (hname : profile.name.toList = c :: rest) (hbracket : c ≠ '[') (hspace : c ≠ ' ')
    {arguments : List String} {options : Options} (hoptions : Options.parse arguments = .ok options)
    {streams : Streams} (hroom : streams.full = false) (machine : Machine)
    (answer : Except Fault Unit) :
    Leaves profile.name Shows arguments machine streams.written
      (.ofClosing streams (profile.close options machine answer)) answer := by
  have hreport := reports_report hoptions machine
  rw [Exit.ofClosing_of_room hroom]
  cases answer with
  | ok u =>
    refine ⟨rfl, ⟨_, _, hreport, hshows machine.data, rfl⟩, fun message => ?_⟩
    rw [close, String.append_empty]
    exact not_complains_lines hname hbracket hspace _ message
  | error fault =>
    exact ⟨rfl, ⟨_, hreport, rfl⟩, complains_after_lines profile.name _ fault.message⟩

end Command

end CellMachine
