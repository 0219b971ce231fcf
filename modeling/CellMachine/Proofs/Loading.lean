import CellMachine.FileSystem
import CellMachine.Host.Console
import CellMachine.Host.Script
import CellMachine.Proofs.LogText
import CellMachine.Proofs.MemoryHistory
import CellMachine.System.Load

/-!
# Loading

A program is loaded as cells, from a reader that delivers the bytes of an image, or from a file that
holds them. The three ways end alike: as many cells as memory has room for stand at its beginning,
and nothing else of the machine has changed.

How a reader cuts the bytes into pieces, and how often it is interrupted, does not matter: a cell
whose bytes arrive in different pieces is put together all the same. A reader that fails, however
much it has delivered, leaves everything as it was.
-/

namespace CellMachine

/-! ## Images and their bytes -/

namespace Image

theorem length_encode (cells : List Cell) : (encode cells).length = 4 * cells.length := by
  induction cells with
  | nil => rfl
  | cons c cells ih =>
    rw [encode, List.flatMap_cons, List.length_append, List.length_cons, ← encode, ih]
    change 4 + _ = _
    omega

/-- The first cells of an image are its first bytes, four to a cell. -/
theorem encode_take (cells : List Cell) (count : Nat) :
    encode (cells.take count) = (encode cells).take (4 * count) := by
  rcases Nat.le_total count cells.length with hcount | hcount
  · have hsplit : encode cells = encode (cells.take count) ++ encode (cells.drop count) := by
      simp only [encode, ← List.flatMap_append, List.take_append_drop]
    have hlength : (encode (cells.take count)).length = 4 * count := by
      rw [length_encode, List.length_take, Nat.min_eq_left hcount]
    rw [hsplit, ← hlength, List.take_left]
  · rw [List.take_of_length_le hcount, List.take_of_length_le (by rw [length_encode]; omega)]

/-- Four bytes are recovered from the cell that they hold. -/
theorem bytes_cell (b₀ b₁ b₂ b₃ : UInt8) : bytes (cell b₀ b₁ b₂ b₃) = [b₀, b₁, b₂, b₃] := by
  have h₀ := b₀.toNat_lt
  have h₁ := b₁.toNat_lt
  have h₂ := b₂.toNat_lt
  have h₃ := b₃.toNat_lt
  have hnumber : (cell b₀ b₁ b₂ b₃).toUInt32.toNat =
      b₀.toNat + 256 * b₁.toNat + 65536 * b₂.toNat + 16777216 * b₃.toNat := by
    rw [cell, UInt32.toUInt32_toInt32,
      UInt32.toNat_ofNat_of_lt' (by simp only [UInt32.size]; omega)]
  simp only [bytes, hnumber, List.cons.injEq, ← UInt8.toNat_inj, UInt8.toNat_ofNat', and_true]
  omega

/-- Every sequence of bytes is an image of some cells, with fewer than four bytes after it. -/
theorem exists_eq_encode_append (image : List UInt8) :
    ∃ cells tail, image = encode cells ++ tail ∧ tail.length < 4 := by
  match image with
  | b₀ :: b₁ :: b₂ :: b₃ :: rest =>
    obtain ⟨cells, tail, hrest, htail⟩ := exists_eq_encode_append rest
    refine ⟨cell b₀ b₁ b₂ b₃ :: cells, tail, ?_, htail⟩
    rw [encode, List.flatMap_cons, bytes_cell, ← encode, hrest]
    rfl
  | [] | [_] | [_, _] | [_, _, _] => exact ⟨[], _, rfl, by simp⟩

end Image

/-! ## Readers -/

namespace Delivery

/-- Reads that hand out some bytes: in pieces that are not empty, with any number of interruptions
among them. -/
inductive HandsOut : List Delivery → List UInt8 → Prop where
  | nothing : HandsOut [] []
  | piece {chunk : List UInt8} {reads : List Delivery} {image : List UInt8} :
    chunk ≠ [] → HandsOut reads image → HandsOut (.bytes chunk :: reads) (chunk ++ image)
  | interrupted {reads : List Delivery} {image : List UInt8} :
    HandsOut reads image → HandsOut (.interrupted :: reads) image

/-- A reader is at its end: it says so, or it has nothing further to say. -/
def AtEnd (reads : List Delivery) : Prop :=
  reads = [] ∨ ∃ more, reads = .bytes [] :: more

variable {reads rest : List Delivery} {image : List UInt8}

/-- What reads hand out is appended in order, and interruptions leave no trace. -/
theorem HandsOut.collectOnto_append (h : HandsOut reads image) (rest : List Delivery)
    (done : Array UInt8) :
    collectOnto done (reads ++ rest) = collectOnto (done ++ image) rest := by
  induction h generalizing done with
  | nothing => rw [List.nil_append, Array.appendList_nil]
  | @piece chunk reads image hchunk _ ih =>
    cases chunk with
    | nil => exact absurd rfl hchunk
    | cons byte chunk =>
      have hdone : done ++ (byte :: chunk) ++ image = done ++ (byte :: chunk ++ image) := by
        rw [← Array.toList_inj]
        simp only [Array.toList_appendList, List.append_assoc]
      rw [List.cons_append, collectOnto, ih, hdone]
      exact List.cons_ne_nil byte chunk
  | interrupted _ ih => rw [List.cons_append, collectOnto, ih]

theorem AtEnd.collectOnto_eq (h : AtEnd rest) (done : Array UInt8) :
    collectOnto done rest = .ok done := by
  obtain rfl | ⟨more, rfl⟩ := h
  · rfl
  · rfl

/-- A reader that comes to its end has delivered what it handed out. -/
theorem HandsOut.collect_atEnd (h : HandsOut reads image) (hend : AtEnd rest) :
    collect (reads ++ rest) = .ok image := by
  rw [collect, h.collectOnto_append, hend.collectOnto_eq, Except.map, List.toArray_appendList,
    List.nil_append]

/-- A reader that fails has delivered nothing. -/
theorem HandsOut.collect_failed (h : HandsOut reads image) (cause : IoError)
    (rest : List Delivery) : collect (reads ++ .failed cause :: rest) = .error cause := by
  rw [collect, h.collectOnto_append]
  rfl

end Delivery

/-! ## Loads -/

namespace Memory

variable (memory : Memory) (cells : List Cell)

/-- After a load an address holds the cell that was loaded there, or else what it held before. -/
theorem getElem?_write_zero {i : Nat} (hi : i < size) :
    (memory.write 0 cells).cells[i]? = cells[i]?.or memory.cells[i]? := by
  rw [Vector.getElem?_eq_getElem hi, Vector.getElem?_eq_getElem hi, getElem_write memory 0 cells hi,
    if_pos (Nat.zero_le i), Nat.sub_zero, Option.or_some]

/-- The addresses after the cells that a load stores keep what they held. -/
theorem getElem?_write_of_le {i : Nat} (hi : min cells.length size ≤ i) :
    (memory.write 0 cells).cells[i]? = memory.cells[i]? := by
  rcases Nat.lt_or_ge i size with hin | hout
  · rw [getElem?_write_zero memory cells hin, List.getElem?_eq_none (by omega), Option.none_or]
  · rw [Vector.getElem?_eq_none hout, Vector.getElem?_eq_none hout]

/-- What a load stores is found at the beginning of memory. -/
theorem slice_write :
    (memory.write 0 cells).slice 0 (min cells.length size) =
      cells.take (min cells.length size) := by
  apply List.ext_getElem?
  intro i
  rw [slice_eq, List.drop_zero, List.getElem?_take, List.getElem?_take, Vector.getElem?_toList]
  split
  · rw [getElem?_write_zero memory cells (by omega), List.getElem?_eq_getElem (by omega),
      Option.some_or]
  · rfl

end Memory

variable {δ : Type} [Host δ]

/-- A system after its memory was replaced and its host took note of some events. -/
def System.afterLoad (s : System δ) (memory : Memory) (events : List Log.Event) : System δ where
  machine := { s.machine with memory }
  host := events.foldl (fun host event => Host.note event host) s.host

/-- The warnings of a load of so many cells: one if not all of them fit. -/
def Log.warnings (count : Nat) : List Log.Event :=
  if Memory.size < count then [.discarded (count - Memory.size)] else []

theorem Log.level_of_mem_warnings {count : Nat} {event : Log.Event}
    (h : event ∈ Log.warnings count) : event.level = .warn := by
  rw [warnings] at h
  split at h
  · rw [List.mem_singleton.mp h, Event.level]
  · exact absurd h List.not_mem_nil

/-- The log says how many cells did not fit, if there were any. -/
theorem Log.lines_warnings (count : Nat) :
    lines (warnings count) = if Memory.size < count then
      "[WARN  ngb::memory] image too large: " ++ (count - Memory.size).repr ++
        " cells past the end of memory discarded\n" else "" := by
  rw [warnings]
  split
  · rw [lines_cons, Event.line_discarded, lines, List.map_nil, String.join_nil, String.append_empty]
  · rw [lines, List.map_nil, String.join_nil]

namespace Session

theorem loadCells_eq (s : System δ) (cells : List Cell) :
    loadCells cells s = .ok (min cells.length Memory.size)
      (s.afterLoad (s.machine.memory.write 0 cells) (Log.warnings cells.length)) := by
  have hstored : Memory.room 0 cells.length = min cells.length Memory.size := rfl
  simp only [loadCells, install_apply, Memory.transfer, hstored, Log.warnings, warn]
  by_cases hexcess : Memory.size < cells.length
  · rw [if_pos hexcess, if_neg (by omega), Nat.min_eq_right (Nat.le_of_lt hexcess)]
    rfl
  · rw [if_neg hexcess, if_pos (by omega)]
    rfl

/-- A reader that comes to its end loads the cells of the image that it delivered. -/
theorem loadProgram_of_collect {deliveries : List Delivery} {image : List UInt8}
    (h : Delivery.collect deliveries = .ok image) (s : System δ) :
    loadProgram deliveries s = loadCells (Image.decode image) s := by
  rw [loadProgram, Memory.receive, h]
  rfl

/-- A file loads the cells of the image in it, and the host takes note of the file last. -/
theorem loadImage_of_loadCells {path : String} {image : List UInt8} {s : System δ} {stored : Nat}
    {memory : Memory} {events : List Log.Event}
    (h : loadCells (Image.decode image) s = .ok stored (s.afterLoad memory events)) :
    loadImage path (.ok image) s =
      .ok stored (s.afterLoad memory (events ++ [.loaded stored path])) := by
  have hload : loadImage path (.ok image) s =
      (loadCells (Image.decode image) >>= fun stored => do
        note (.loaded stored path)
        return stored) s := rfl
  rw [hload, bind_apply, h, System.afterLoad, System.afterLoad, List.foldl_append]
  rfl

theorem loadProgram_of_failed {deliveries : List Delivery} {cause : IoError}
    (h : Delivery.collect deliveries = .error cause) (s : System δ) :
    loadProgram deliveries s = .error (.io cause) s := by
  rw [loadProgram, Memory.receive, h]
  rfl

end Session

namespace Memory.Edit

variable {deliveries : List Delivery}

/-- An image that was delivered is written like the cells in it. -/
theorem perform_receive {image : List UInt8} (h : Delivery.collect deliveries = .ok image)
    (start : Nat) (memory : Memory) :
    (receive start deliveries).perform memory =
      (write start (Image.decode image)).perform memory := by
  simp only [perform, Memory.receive, h, Except.map]

theorem perform_receive_of_failed {cause : IoError}
    (h : Delivery.collect deliveries = .error cause) (start : Nat) (memory : Memory) :
    (receive start deliveries).perform memory = (.failed cause, memory) := by
  simp only [perform, Memory.receive, h, Except.map]

end Memory.Edit

/-! ## The ways to load agree -/

/-- The three ways to load some cells store as many of them as memory has room for, at its
beginning, and change nothing else of the machine. Bytes after the last whole cell do not matter,
the bytes of the cells that were stored can be read back, and there is a warning exactly when cells
were discarded, with a line in the log that says how many. -/
theorem loading_paths_agree (s : System δ) (cells : List Cell) :
    ∃ stored memory warnings,
      stored = min cells.length Memory.size ∧
      (∀ i, i < stored → memory.cells[i]? = cells[i]?) ∧
      (∀ i, stored ≤ i → memory.cells[i]? = s.machine.memory.cells[i]?) ∧
      (s.machine.memory = .blank →
        ∀ i, stored ≤ i → i < Memory.size → memory.cells[i]? = some 0) ∧
      (warnings = if Memory.size < cells.length then
        [.discarded (cells.length - Memory.size)] else []) ∧
      (∀ event ∈ warnings, event.level = .warn) ∧
      (Log.lines warnings = if Memory.size < cells.length then
        "[WARN  ngb::memory] image too large: " ++ (cells.length - Memory.size).repr ++
          " cells past the end of memory discarded\n" else "") ∧
      Session.loadCells cells s = .ok stored (s.afterLoad memory warnings) ∧
      ∀ tail : List UInt8, tail.length < 4 →
        (∀ reads stop, Delivery.HandsOut reads (Image.encode cells ++ tail) →
          Delivery.AtEnd stop →
          Session.loadProgram (reads ++ stop) s = .ok stored (s.afterLoad memory warnings)) ∧
        (∀ (files : FileSystem) (path : String),
          files.read path = .ok (Image.encode cells ++ tail) →
          Session.loadImage path (files.read path) s =
            .ok stored (s.afterLoad memory (warnings ++ [.loaded stored path]))) ∧
        Image.encode (memory.slice 0 stored) =
          (Image.encode cells ++ tail).take (4 * stored) := by
  have hkept (i : Nat) (hi : min cells.length Memory.size ≤ i) :=
    Memory.getElem?_write_of_le s.machine.memory cells hi
  refine ⟨_, s.machine.memory.write 0 cells, _, rfl, fun i hi => ?_, hkept,
    fun hblank i hi hin => ?_, rfl, fun _ => Log.level_of_mem_warnings, Log.lines_warnings _,
    Session.loadCells_eq s cells, fun tail htail => ?_⟩
  · rw [Memory.getElem?_write_zero _ cells (by omega), List.getElem?_eq_getElem (by omega),
      Option.some_or]
  · rw [hkept i hi, hblank, Memory.blank, Vector.getElem?_eq_getElem hin,
      Vector.getElem_replicate hin]
  · have hdecode := Image.decode_encode_append cells htail
    refine ⟨fun reads stop hreads hstop => ?_, fun files path hfile => ?_, ?_⟩
    · rw [Session.loadProgram_of_collect (hreads.collect_atEnd hstop), hdecode]
      exact Session.loadCells_eq s cells
    · rw [hfile]
      apply Session.loadImage_of_loadCells
      rw [hdecode]
      exact Session.loadCells_eq s cells
    · have hlength := Image.length_encode cells
      rw [Memory.slice_write, Image.encode_take, List.take_append_of_le_length (by omega)]

/-- More cells than memory has room for, all of them negative, with a byte after them: memory is
filled to its last address, and a log that takes warnings has the one warning. -/
theorem loading_paths_agree_of_excess :
    ∃ (s s' : System Console) (image : List UInt8),
      image = Image.encode (List.replicate 262146 (-2)) ++ [7] ∧
      Session.loadProgram [.interrupted, .bytes image] s = .ok 262144 s' ∧
      s'.machine.memory.cells[262143]? = some (-2 : Cell) ∧
      s'.host.streams.journal.entries = #[.discarded 2] := by
  obtain ⟨image, himage⟩ : ∃ image, image = Image.encode (List.replicate 262146 (-2)) ++ [7] :=
    ⟨_, rfl⟩
  obtain ⟨stored, memory, warnings, hstored, hcells, _, _, hwarnings, _, _, _, hload⟩ :=
    loading_paths_agree
      (⟨{ set := .base }, ⟨.ok [], { journal := { threshold := .warn } }⟩⟩ : System Console)
      (List.replicate 262146 (-2))
  rw [List.length_replicate] at hstored hwarnings
  obtain rfl : stored = 262144 := hstored
  obtain rfl : warnings = [.discarded 2] := hwarnings
  have hreads : Delivery.HandsOut [.interrupted, .bytes image] image := by
    have hpiece : Delivery.HandsOut [.bytes image] (image ++ []) :=
      .piece (by rw [himage]; exact List.append_ne_nil_of_right_ne_nil _ (by decide)) .nothing
    rw [List.append_nil] at hpiece
    exact .interrupted hpiece
  have hprogram := (hload [7] (by decide)).1
  rw [← himage] at hprogram
  refine ⟨_, _, image, himage, hprogram [.interrupted, .bytes image] [] hreads (.inl rfl), ?_, rfl⟩
  have hlast := hcells 262143 (by omega)
  rw [List.getElem?_replicate, if_pos (by omega)] at hlast
  exact hlast

/-! ## The schedule of a reader does not matter -/

/-- The way in which a reader hands out an image does not matter: in one piece or in many, with
interruptions or without, it stores the cells whose bytes the image is made of. A reader that fails
after it has handed out anything changes nothing. -/
theorem reader_schedule_irrelevant {reads : List Delivery} {image : List UInt8}
    (hreads : Delivery.HandsOut reads image) :
    (∃ cells tail, image = Image.encode cells ++ tail ∧ tail.length < 4 ∧
      ∀ stop, Delivery.AtEnd stop →
        (∀ start memory,
          (Memory.Edit.receive start (reads ++ stop)).perform memory =
            (Memory.Edit.receive start [.bytes image]).perform memory ∧
          (Memory.Edit.receive start (reads ++ stop)).perform memory =
            (Memory.Edit.write start cells).perform memory) ∧
        ∀ s : System δ,
          Session.loadProgram (reads ++ stop) s = Session.loadProgram [.bytes image] s ∧
          Session.loadProgram (reads ++ stop) s = Session.loadCells cells s) ∧
    ∀ cause rest,
      (∀ start memory,
        (Memory.Edit.receive start (reads ++ .failed cause :: rest)).perform memory =
          (.failed cause, memory)) ∧
      ∀ s : System δ,
        Session.loadProgram (reads ++ .failed cause :: rest) s = .error (.io cause) s := by
  obtain ⟨cells, tail, rfl, htail⟩ := Image.exists_eq_encode_append image
  have hdecode := Image.decode_encode_append cells htail
  have hwhole := Delivery.collect_singleton (Image.encode cells ++ tail)
  refine ⟨⟨cells, tail, rfl, htail, fun stop hstop => ?_⟩, fun cause rest => ?_⟩
  · have hpieces := hreads.collect_atEnd hstop
    refine ⟨fun start memory => ?_, fun s => ?_⟩
    · rw [Memory.Edit.perform_receive hpieces, Memory.Edit.perform_receive hwhole, hdecode]
      exact ⟨rfl, rfl⟩
    · rw [Session.loadProgram_of_collect hpieces, Session.loadProgram_of_collect hwhole, hdecode]
      exact ⟨rfl, rfl⟩
  · have hfailed := hreads.collect_failed cause rest
    exact ⟨Memory.Edit.perform_receive_of_failed hfailed,
      Session.loadProgram_of_failed hfailed⟩

/-- A cell arrives in two pieces with an interruption between them, and the next one in the piece
that ends the first. -/
theorem reader_schedule_irrelevant_of_split_cell :
    ∃ (reads : List Delivery) (s : System Script),
      reads = [.bytes [254], .interrupted, .bytes [255, 255, 255, 7, 0], .bytes [0, 0, 9]] ∧
      Delivery.HandsOut reads [254, 255, 255, 255, 7, 0, 0, 0, 9] ∧
      Session.loadProgram (reads ++ [.bytes []]) s = Session.loadCells [-2, 7] s ∧
      Session.loadProgram (reads ++ [.failed .noSpace]) s = .error (.io .noSpace) s := by
  have hreads : Delivery.HandsOut
      [.bytes [254], .interrupted, .bytes [255, 255, 255, 7, 0], .bytes [0, 0, 9]]
      [254, 255, 255, 255, 7, 0, 0, 0, 9] :=
    .piece (by decide) (.interrupted (.piece (by decide) (.piece (by decide) .nothing)))
  obtain ⟨⟨cells, tail, himage, htail, hload⟩, hfailed⟩ :=
    reader_schedule_irrelevant (δ := Script) hreads
  have hcells : cells = [-2, 7] := by
    rw [← Image.decode_encode_append cells htail, ← himage]
    decide
  refine ⟨_, ⟨{ set := .base }, {}⟩, rfl, hreads, ?_, (hfailed .noSpace []).2 _⟩
  rw [((hload [.bytes []] (.inr ⟨[], rfl⟩)).2 _).2, hcells]

end CellMachine
