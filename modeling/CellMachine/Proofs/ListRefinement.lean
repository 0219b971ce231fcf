import CellMachine.Host.Script
import CellMachine.Proofs.ListMachine
import CellMachine.System.Run

/-!
# The machine as a list machine

The stacks of a machine, seen as the lists of their live cells, behave as the stacks of the list
machine. Each instruction is followed on the lists, one after another, by its rule and by the shape
of the contents of the data stack; a step follows from its instruction, and a run from its steps by
induction on their number.
-/

namespace CellMachine

namespace Machine

variable {m : Machine}

/-- Both stack pointers lie on a cell or right below the floor. -/
structure Contained (m : Machine) : Prop where
  /-- The data stack pointer. -/
  data : m.data.Contained
  /-- The return stack pointer. -/
  returns : m.returns.Contained

instance (m : Machine) : Decidable m.Contained :=
  decidable_of_iff (m.data.Contained ∧ m.returns.Contained)
    ⟨fun h => ⟨h.1, h.2⟩, fun h => ⟨h.data, h.returns⟩⟩

/-- Pointers that are contained are grounded. -/
theorem Contained.grounded (h : m.Contained) : m.Grounded :=
  ⟨h.data.low, h.returns.low⟩

/-- The machine with the contents of its stacks in their place. -/
def lists (m : Machine) : ListMachine :=
  ⟨m.memory, m.data.contents, m.returns.contents, m.ip, m.set⟩

@[simp] theorem data_lists (m : Machine) : m.lists.data = m.data.contents :=
  rfl

@[simp] theorem returns_lists (m : Machine) : m.lists.returns = m.returns.contents :=
  rfl

@[simp] theorem ip_lists (m : Machine) : m.lists.ip = m.ip :=
  rfl

@[simp] theorem memory_lists (m : Machine) : m.lists.memory = m.memory :=
  rfl

@[simp] theorem set_lists (m : Machine) : m.lists.set = m.set :=
  rfl

/-- A push of a value that has room is a push on the list. -/
theorem Contained.push (h : m.Contained) (here value : Cell) (hroom : m.data.top < 31) :
    { m with data := m.data.raise.put 0 value }.Contained ∧
      m.lists.push here value = .ok { m with data := m.data.raise.put 0 value }.lists := by
  have hlength := h.data.length_contents
  have hcell : m.data.top + 1 < 32 := by omega
  have hlt : m.lists.data.length < 32 := by rw [data_lists]; omega
  refine ⟨⟨h.data.push hcell value, h.returns⟩, ?_⟩
  rw [ListMachine.push, if_pos hlt]
  simp only [lists, h.data.contents_push hcell]

/-- A push of a value that has no room fails on the list. -/
theorem Contained.push_full (h : m.Contained) (here value : Cell) (hfull : 31 ≤ m.data.top) :
    m.lists.push here value = .error (.stackOverflow .data here) := by
  have hlength := h.data.length_contents
  have hge : ¬m.lists.data.length < 32 := by rw [data_lists]; omega
  rw [ListMachine.push, if_neg hge]

/-- An address that has room is remembered on the list. -/
theorem Contained.remember (h : m.Contained) (here value : Cell) (hroom : m.returns.top < 127) :
    { m with returns := m.returns.raise.put 0 value }.Contained ∧
      m.lists.remember here value =
        .ok { m with returns := m.returns.raise.put 0 value }.lists := by
  have hlength := h.returns.length_contents
  have hcell : m.returns.top + 1 < 128 := by omega
  have hlt : m.lists.returns.length < 128 := by rw [returns_lists]; omega
  refine ⟨⟨h.data, h.returns.push hcell value⟩, ?_⟩
  rw [ListMachine.remember, if_pos hlt]
  simp only [lists, h.returns.contents_push hcell]

/-- An address that has no room fails to be remembered on the list. -/
theorem Contained.remember_full (h : m.Contained) (here value : Cell)
    (hfull : 127 ≤ m.returns.top) :
    m.lists.remember here value = .error (.stackOverflow .ret here) := by
  have hlength := h.returns.length_contents
  have hge : ¬m.lists.returns.length < 128 := by rw [returns_lists]; omega
  rw [ListMachine.remember, if_neg hge]

/-- A drop keeps the rest of the list. -/
theorem Contained.dropped (h : m.Contained) (htop : 0 ≤ m.data.top) :
    m.dropped.Contained ∧ m.dropped.lists = m.lists.keep m.data.contents.tail := by
  have hlength := h.data.length_contents
  have hcleared : (m.data.put 0 0).Contained := ⟨h.data.low, h.data.high⟩
  have hempty : m.data.contents.tail.isEmpty = true ↔ m.data.top = 0 := by
    rw [List.isEmpty_iff_length_eq_zero, List.length_tail]
    omega
  refine ⟨⟨hcleared.lower htop, h.returns⟩, ?_⟩
  simp only [lists, ListMachine.keep, data_dropped, returns_dropped, memory_dropped, set_dropped,
    ip_dropped, h.data.contents_drop htop, hempty]

/-- Two drops in a row keep what is left after both. -/
theorem Contained.dropped_dropped (h : m.Contained) (htop : 1 ≤ m.data.top) :
    m.dropped.dropped.Contained ∧
      m.dropped.dropped.lists = m.lists.keep m.data.contents.tail.tail := by
  obtain ⟨hfirst, hkept⟩ := h.dropped (show 0 ≤ m.data.top by omega)
  obtain ⟨hsecond, hkept'⟩ := hfirst.dropped (show 0 ≤ m.dropped.data.top by
    rw [data_dropped, Stack.top_lower, Stack.top_put]; omega)
  have hdata : m.dropped.data.contents = m.data.contents.tail :=
    h.data.contents_drop (by omega)
  obtain ⟨rest, hcontents⟩ := h.data.eq_cons_cons htop
  refine ⟨hsecond, ?_⟩
  rw [hkept', hkept, hdata, hcontents]
  rfl

theorem Contained.lowerReturn (h : m.Contained) (htop : 0 ≤ m.returns.top) :
    { m with returns := m.returns.lower }.Contained :=
  ⟨h.data, h.returns.lower htop⟩

/-- A return that finds an address takes it off the list. -/
theorem Contained.goBack (h : m.Contained) (here : Cell) (htop : 0 ≤ m.returns.top) :
    { m with ip := m.returns.look 0, returns := m.returns.lower }.Contained ∧
      m.lists.goBack here =
        .ok { m with ip := m.returns.look 0, returns := m.returns.lower }.lists := by
  obtain ⟨rest, hcontents⟩ := h.returns.eq_cons htop
  refine ⟨⟨h.data, h.returns.lower htop⟩, ?_⟩
  simp only [lists, ListMachine.goBack, h.returns.contents_lower htop, hcontents, List.tail_cons]

/-- A return that finds no address fails on the list. -/
theorem Contained.goBack_empty (h : m.Contained) (here : Cell) (htop : m.returns.top < 0) :
    m.lists.goBack here = .error (.stackUnderflow .ret here) := by
  simp only [lists, ListMachine.goBack, h.returns.eq_nil htop]

end Machine

/-- An instruction does to a machine what the list machine says of its lists. -/
def Follows (result : EStateM.Result Fault Machine Unit) (expected : Except Fault ListMachine) :
    Prop :=
  Yields result (fun _ m => m.Contained ∧ expected = .ok m.lists)
    (fun fault _ => expected = .error fault)

namespace Action

open ListMachine (execute)

variable {m : Machine} {here : Cell}

theorem follows_literal (h : m.Contained) :
    Follows (literal here m) (execute here m.lists .lit) := by
  rw [Follows, yields_literal h.grounded]
  have hexec : ∀ value, m.memory.get? (m.ip + 1) = some value →
      execute here m.lists .lit = { m with ip := m.ip + 1 }.lists.push here value := by
    intro value hsome
    simp only [execute, Opcode.operator?, Machine.memory_lists, Machine.ip_lists, hsome]
    rfl
  have hmoved : { m with ip := m.ip + 1 }.Contained := ⟨h.data, h.returns⟩
  refine ⟨fun hnone => ?_, fun value hsome => ⟨fun hroom => ?_, fun hfull => ?_⟩⟩
  · simp only [execute, Opcode.operator?, Machine.memory_lists, Machine.ip_lists, hnone]
  · rw [hexec value hsome]
    exact hmoved.push here value hroom
  · rw [hexec value hsome]
    exact hmoved.push_full here value hfull

theorem follows_duplicate (h : m.Contained) :
    Follows (duplicate here m) (execute here m.lists .dup) := by
  rw [Follows, yields_duplicate]
  have hhigh := h.data.high
  have hexec : 0 ≤ m.data.top →
      execute here m.lists .dup = m.lists.push here (m.data.look 0) := by
    intro htop
    obtain ⟨rest, hdata⟩ := h.data.eq_cons htop
    simp [execute, Opcode.operator?, hdata]
  refine ⟨fun hlow => ?_, fun hlow hroom => ?_, fun hfull => ?_, fun hover => by omega⟩
  · simp [execute, Opcode.operator?, h.data.eq_nil hlow]
  · rw [hexec hlow]
    exact h.push here _ hroom
  · rw [hexec (by omega)]
    exact h.push_full here _ (by omega)

theorem follows_drop (h : m.Contained) :
    Follows (drop here m) (execute here m.lists .drop) := by
  rw [Follows, yields_drop]
  have hhigh := h.data.high
  refine ⟨fun hlow => ⟨⟨h.data, h.returns⟩, ?_⟩, fun hlow _ => ?_, fun hover => by omega⟩
  · simp [execute, Opcode.operator?, ListMachine.keep, Machine.lists, h.data.eq_nil hlow]
  · have hdropped := h.dropped hlow
    refine ⟨hdropped.1, ?_⟩
    rw [hdropped.2]
    rfl

theorem follows_exchange (h : m.Contained) :
    Follows (exchange here m) (execute here m.lists .swap) := by
  rw [Follows, yields_exchange]
  have hhigh := h.data.high
  refine ⟨fun hlow => ?_, fun hlow _ => ⟨⟨⟨h.data.low, hhigh⟩, h.returns⟩, ?_⟩,
    fun hover => by omega⟩
  · rcases h.data.short hlow with hdata | hdata <;> simp [execute, Opcode.operator?, hdata]
  · obtain ⟨rest, hdata⟩ := h.data.eq_cons_cons hlow
    have hput : (m.data.put 0 (m.data.look 1)).Contained := ⟨h.data.low, hhigh⟩
    simp [execute, Opcode.operator?, Machine.lists, hdata, hput.contents_put 1 hlow,
      h.data.contents_put 0 (show 0 ≤ m.data.top by omega)]

theorem follows_toReturns (h : m.Contained) :
    Follows (toReturns here m) (execute here m.lists .push) := by
  rw [Follows, yields_toReturns h.grounded]
  have hhigh := h.data.high
  have hexec : 0 ≤ m.data.top → execute here m.lists .push =
      (m.lists.remember here (m.data.look 0)).map (ListMachine.keep m.data.contents.tail) := by
    intro htop
    obtain ⟨rest, hdata⟩ := h.data.eq_cons htop
    simp [execute, Opcode.operator?, hdata]
  refine ⟨fun hlow => ?_, fun hlow _ => ⟨fun hroom => ?_, fun hfull => ?_⟩, fun hover => by omega⟩
  · simp [execute, Opcode.operator?, h.data.eq_nil hlow]
  · obtain ⟨hremembered, hlists⟩ := h.remember here (m.data.look 0) hroom
    obtain ⟨hdropped, hkept⟩ := hremembered.dropped hlow
    refine ⟨hdropped, ?_⟩
    rw [hexec hlow, hlists, hkept]
    rfl
  · rw [hexec hlow, h.remember_full here _ hfull]
    rfl

theorem follows_fromReturns (h : m.Contained) :
    Follows (fromReturns here m) (execute here m.lists .pop) := by
  rw [Follows, yields_fromReturns h.grounded]
  have hhigh := h.returns.high
  have hexec : 0 ≤ m.returns.top →
      execute here m.lists .pop =
        { m with returns := m.returns.lower }.lists.push here (m.returns.look 0) := by
    intro htop
    obtain ⟨rest, hreturns⟩ := h.returns.eq_cons htop
    simp [execute, Opcode.operator?, Machine.lists, h.returns.contents_lower htop, hreturns]
  refine ⟨fun hlow => ?_, fun hlow _ => ⟨fun hroom => ?_, fun hfull => ?_⟩, fun hover => by omega⟩
  · simp [execute, Opcode.operator?, h.returns.eq_nil hlow]
  · rw [hexec hlow]
    exact (h.lowerReturn hlow).push here _ hroom
  · rw [hexec hlow]
    exact (h.lowerReturn hlow).push_full here _ hfull

theorem follows_jump (h : m.Contained) :
    Follows (jump here m) (execute here m.lists .jump) := by
  rw [Follows, yields_jump]
  have hhigh := h.data.high
  refine ⟨fun hlow => ?_, fun hlow _ => ?_, fun hover => by omega⟩
  · simp [execute, Opcode.operator?, h.data.eq_nil hlow]
  · obtain ⟨rest, hdata⟩ := h.data.eq_cons hlow
    have hmoved : { m with ip := m.data.look 0 - 1 }.Contained := ⟨h.data, h.returns⟩
    obtain ⟨hdropped, hkept⟩ := hmoved.dropped hlow
    refine ⟨hdropped, ?_⟩
    rw [hkept]
    simp [execute, Opcode.operator?, Machine.lists, hdata]

/-- What a call does after it has remembered its address. -/
theorem execute_call (hroom : m.returns.top < 127) (h : m.Contained) :
    execute here m.lists .call =
      match m.data.contents with
      | target :: rest => .ok ({ m.called with ip := target - 1 }.lists.keep rest)
      | [] => .error (.stackUnderflow .data here) := by
  have hremember : m.lists.remember here m.lists.ip = .ok m.called.lists :=
    (h.remember here m.ip hroom).2
  simp only [execute, Opcode.operator?, hremember, Bind.bind, Except.bind]
  rfl

theorem follows_call (h : m.Contained) :
    Follows (call here m) (execute here m.lists .call) := by
  rw [Follows, yields_call h.grounded]
  have hhigh := h.data.high
  refine ⟨fun hfull => ?_, fun hroom => ⟨fun hlow => ?_, fun hlow _ => ?_, fun hover => by omega⟩⟩
  · have hremember : m.lists.remember here m.lists.ip = _ := h.remember_full here m.ip hfull
    simp only [execute, Opcode.operator?, hremember, Bind.bind, Except.bind]
  · rw [execute_call hroom h, h.data.eq_nil hlow]
  · have hcalled : m.called.Contained := (h.remember here m.ip hroom).1
    have hmoved : { m.called with ip := m.data.look 0 - 1 }.Contained :=
      ⟨hcalled.data, hcalled.returns⟩
    obtain ⟨hdropped, hkept⟩ := hmoved.dropped hlow
    obtain ⟨rest, hdata⟩ := h.data.eq_cons hlow
    refine ⟨hdropped, ?_⟩
    rw [execute_call hroom h, hkept, hdata]
    simp only [Machine.called, hdata, List.tail_cons]

/-- What a conditional call does after it has remembered its address. -/
theorem execute_conditionalCall (hroom : m.returns.top < 127) (h : m.Contained) :
    execute here m.lists .ccall =
      match m.data.contents with
      | target :: flag :: rest =>
        .ok (if flag = 0 then m.called.lists.keep rest
          else { m.called.lists with data := rest, ip := target - 1 })
      | _ => .error (.stackUnderflow .data here) := by
  have hremember : m.lists.remember here m.lists.ip = .ok m.called.lists :=
    (h.remember here m.ip hroom).2
  simp only [execute, Opcode.operator?, hremember, Bind.bind, Except.bind]
  rfl

theorem follows_conditionalCall (h : m.Contained) :
    Follows (conditionalCall here m) (execute here m.lists .ccall) := by
  rw [Follows, yields_conditionalCall h.grounded]
  have hhigh := h.data.high
  refine ⟨fun hfull => ?_, fun hroom => ⟨fun hlow => ?_, fun hlow => ?_, fun hlow _ => ?_,
    fun hover => by omega⟩⟩
  · have hremember : m.lists.remember here m.lists.ip = _ := h.remember_full here m.ip hfull
    simp only [execute, Opcode.operator?, hremember, Bind.bind, Except.bind]
  · rw [execute_conditionalCall hroom h, h.data.eq_nil hlow]
  · rcases h.data.short (by omega) with hdata | hdata <;>
      rw [execute_conditionalCall hroom h, hdata]
  · have hcalled : m.called.Contained := (h.remember here m.ip hroom).1
    obtain ⟨hdropped, hkept⟩ := hcalled.dropped_dropped hlow
    obtain ⟨rest, hdata⟩ := h.data.eq_cons_cons hlow
    rw [Machine.data_called, hdata, List.tail_cons, List.tail_cons] at hkept
    rw [execute_conditionalCall hroom h, hdata]
    refine ⟨fun hflag => ⟨hdropped, ?_⟩, fun hflag => ⟨⟨hdropped.data, hdropped.returns⟩, ?_⟩⟩
    · simp only [if_pos hflag, hkept]
    · simp only [if_neg hflag]
      change _ = Except.ok { m.called.dropped.dropped.lists with ip := m.data.look 0 - 1 }
      rw [hkept]
      rfl

theorem follows_goBack (h : m.Contained) :
    Follows (goBack here m) (execute here m.lists .ret) := by
  rw [Follows, yields_goBack]
  have hhigh := h.returns.high
  exact ⟨fun hlow => h.goBack_empty here hlow, fun hlow _ => h.goBack here hlow,
    fun hover => by omega⟩

theorem follows_goBackOnZero (h : m.Contained) :
    Follows (goBackOnZero here m) (execute here m.lists .zret) := by
  rw [Follows, yields_goBackOnZero]
  have hhigh := h.data.high
  have hreturns := h.returns.high
  have hexec : 0 ≤ m.data.top → execute here m.lists .zret =
      if m.data.look 0 = 0 then { m.lists with data := m.data.contents.tail }.goBack here
      else .ok m.lists := by
    intro htop
    obtain ⟨rest, hdata⟩ := h.data.eq_cons htop
    simp [execute, Opcode.operator?, hdata]
  refine ⟨fun hlow => ?_, fun hlow _ => ⟨fun hflag => ⟨h, ?_⟩, fun hflag => ?_⟩,
    fun hover => by omega⟩
  · simp [execute, Opcode.operator?, h.data.eq_nil hlow]
  · rw [hexec hlow, if_neg hflag]
  · -- The return stack alone decides how the instruction goes on, and a drop leaves it as it is.
    obtain ⟨hdropped, hkept⟩ := h.dropped hlow
    have hback : { m.lists with data := m.data.contents.tail }.goBack here =
        m.dropped.lists.goBack here := by
      rw [hkept]
      rfl
    rw [hexec hlow, if_pos hflag, hback]
    exact ⟨fun hempty => hdropped.goBack_empty here hempty,
      fun hfound _ => hdropped.goBack here hfound, fun hover => by omega⟩

theorem follows_combine (h : m.Contained) {op : Opcode} {f : Cell → Cell → Cell}
    (hop : op.operator? = some f) :
    Follows (combine here f m) (execute here m.lists op) := by
  rw [Follows, yields_combine]
  have hhigh := h.data.high
  refine ⟨fun hlow => ?_, fun hlow _ => ?_, fun hover => by omega⟩
  · rcases h.data.short hlow with hdata | hdata <;> simp [execute, hop, hdata]
  · obtain ⟨rest, hdata⟩ := h.data.eq_cons_cons hlow
    have hput : { m with data := m.data.put 1 (f (m.data.look 1) (m.data.look 0)) }.Contained :=
      ⟨⟨h.data.low, hhigh⟩, h.returns⟩
    obtain ⟨hdropped, hkept⟩ := hput.dropped (show 0 ≤ m.data.top by omega)
    refine ⟨hdropped, ?_⟩
    rw [hkept, h.data.contents_put 1 hlow, hdata]
    simp [execute, hop, hdata, ListMachine.keep, Machine.lists]

theorem follows_divide (h : m.Contained) :
    Follows (divide here m) (execute here m.lists .divmod) := by
  rw [Follows, yields_divide]
  have hhigh := h.data.high
  refine ⟨fun hlow => ?_, fun hlow _ => ⟨fun hzero => ?_, fun hzero => ?_⟩, fun hover => by omega⟩
  · rcases h.data.short hlow with hdata | hdata <;> simp [execute, Opcode.operator?, hdata]
  · obtain ⟨rest, hdata⟩ := h.data.eq_cons_cons hlow
    simp [execute, Opcode.operator?, hdata, hzero]
  · obtain ⟨rest, hdata⟩ := h.data.eq_cons_cons hlow
    have hput : (m.data.put 0 (m.data.look 1 / m.data.look 0)).Contained := ⟨h.data.low, hhigh⟩
    refine ⟨⟨⟨h.data.low, hhigh⟩, h.returns⟩, ?_⟩
    simp [execute, Opcode.operator?, Machine.lists, hdata, hzero,
      hput.contents_put 1 hlow,
      h.data.contents_put 0 (show 0 ≤ m.data.top by omega)]

theorem follows_fetch (h : m.Contained) :
    Follows (fetch here m) (execute here m.lists .fetch) := by
  rw [Follows, yields_fetch]
  have hhigh := h.data.high
  refine ⟨fun hlow => ?_, fun hlow _ => ⟨fun hnone => ?_, fun value hsome => ?_⟩,
    fun hover => by omega⟩
  · simp [execute, Opcode.operator?, h.data.eq_nil hlow]
  · obtain ⟨rest, hdata⟩ := h.data.eq_cons hlow
    simp [execute, Opcode.operator?, hdata, hnone]
  · obtain ⟨rest, hdata⟩ := h.data.eq_cons hlow
    refine ⟨⟨⟨h.data.low, hhigh⟩, h.returns⟩, ?_⟩
    simp [execute, Opcode.operator?, Machine.lists, hdata, hsome,
      h.data.contents_put 0 (show 0 ≤ m.data.top by omega)]

theorem follows_store (h : m.Contained) :
    Follows (store here m) (execute here m.lists .store) := by
  rw [Follows, yields_store]
  have hhigh := h.data.high
  refine ⟨fun hlow => ?_, fun hlow _ => ⟨fun hnone => ?_, fun i hsome => ?_⟩,
    fun hover => by omega⟩
  · rcases h.data.short hlow with hdata | hdata <;> simp [execute, Opcode.operator?, hdata]
  · obtain ⟨rest, hdata⟩ := h.data.eq_cons_cons hlow
    simp [execute, Opcode.operator?, hdata, Memory.set?, hnone]
  · have hstored : { m with memory := m.memory.set i (m.data.look 1) }.Contained :=
      ⟨h.data, h.returns⟩
    obtain ⟨hdropped, hkept⟩ := hstored.dropped_dropped hlow
    obtain ⟨rest, hdata⟩ := h.data.eq_cons_cons hlow
    have hstore : m.memory.set? (m.data.look 0) (m.data.look 1) =
        some (m.memory.set i (m.data.look 1)) := by rw [Memory.set?, hsome, Option.map_some]
    refine ⟨hdropped, ?_⟩
    rw [hkept]
    simp only [execute, Opcode.operator?, Machine.data_lists, Machine.memory_lists, hdata, hstore,
      List.tail_cons]
    rfl

end Action

namespace Session

variable {δ : Type} [Host δ] {m : Machine} {host : δ} {here : Cell} {op : Opcode}

/-- A result of a session, seen on the lists. -/
def observe {α : Type} :
    EStateM.Result Fault (System δ) α → Except Fault (α × ListMachine) × δ
  | .ok a s => (.ok (a, s.machine.lists), s.host)
  | .error fault s => (.error fault, s.host)

/-- A session does to a system what the list machine says of its lists and its host. -/
def Tracks (result : EStateM.Result Fault (System δ) Unit)
    (expected : Except Fault ListMachine × δ) : Prop :=
  Yields result (fun _ s => s.machine.Contained ∧ expected = (.ok s.machine.lists, s.host))
    (fun fault s => expected = (.error fault, s.host))

omit [Host δ] in
/-- An instruction that needs no device leaves the host as it is. -/
theorem tracks_liftM {x : Action Unit} {expected : Except Fault ListMachine}
    (hx : Follows (x m) expected) :
    Tracks ((liftM x : Session δ Unit) ⟨m, host⟩) (expected, host) := by
  rw [Tracks, yields_liftM]
  exact hx.imp (fun _ _ hdone => ⟨hdone.1, by rw [hdone.2]⟩) (fun _ _ hstopped => by rw [hstopped])

/-- Reading a character asks the devices for the same as receiving one. -/
theorem yields_read_iff {done : Cell → System δ → Prop} {stopped : Fault → System δ → Prop} :
    Yields (read ⟨m, host⟩) done stopped ↔
      Yields (ListMachine.receive host) (fun c h => done c ⟨m, h⟩)
        (fun cause h => stopped (.io cause) ⟨m, h⟩) := by
  rw [yields_read, ListMachine.receive, yields_bind]

theorem tracks_input (h : m.Contained) :
    Tracks ((do let value ← read; Action.push here value : Session δ Unit) ⟨m, host⟩)
      (m.lists.perform here .input host) := by
  rw [Tracks, yields_bind, yields_read_iff, ListMachine.perform]
  cases ListMachine.receive host with
  | error cause rest => exact rfl
  | ok value rest =>
    have hlow := h.data.low
    change Yields ((liftM (Action.push here value) : Session δ Unit) ⟨m, rest⟩) _ _
    rw [yields_liftM, Action.yields_push]
    refine ⟨fun hneg => by omega, fun _ hroom => ?_, fun hfull => ?_⟩
    · obtain ⟨hpushed, hlists⟩ := h.push here value (by omega)
      exact ⟨hpushed, by simp only [hlists]⟩
    · simp only [h.push_full here value (by omega)]

theorem tracks_emit (h : m.Contained) :
    Tracks (emit here ⟨m, host⟩) (m.lists.emit here host) := by
  rw [Tracks, yields_emit]
  have hhigh := h.data.high
  refine ⟨fun hlow => ?_, fun hlow _ => ?_, fun hover => by omega⟩
  · simp only [ListMachine.emit, Machine.data_lists, h.data.eq_nil hlow]
  · obtain ⟨rest, hdata⟩ := h.data.eq_cons hlow
    simp only [ListMachine.emit, Machine.data_lists, hdata]
    cases Host.put (m.data.look 0).lowByte host with
    | ok _ rest => exact ⟨h, rfl⟩
    | error cause rest => exact rfl

theorem tracks_output (h : m.Contained) :
    Tracks ((do emit here; Action.lower : Session δ Unit) ⟨m, host⟩)
      (m.lists.perform here .output host) := by
  have hhigh := h.data.high
  rw [Tracks, yields_bind, yields_emit]
  refine ⟨fun hlow => ?_, fun hlow _ => ?_, fun hover => by omega⟩
  · simp only [ListMachine.perform, ListMachine.emit, Machine.data_lists, h.data.eq_nil hlow]
    rfl
  · obtain ⟨rest, hdata⟩ := h.data.eq_cons hlow
    simp only [ListMachine.perform, ListMachine.emit, Machine.data_lists, hdata]
    cases Host.put (m.data.look 0).lowByte host with
    | error cause rest => exact rfl
    | ok _ rest =>
      refine ⟨⟨h.data.lower hlow, h.returns⟩, ?_⟩
      simp only [Except.map, Machine.lists, h.data.contents_lower hlow]

/-- Every instruction does to a system what the list machine says. -/
theorem tracks_execute (h : m.Contained) :
    Tracks (execute here op ⟨m, host⟩) (m.lists.perform here op host) := by
  cases hop : op.operator? with
  | some f =>
    have hperform : m.lists.perform here op host = (m.lists.execute here op, host) := by
      cases op <;> first | rfl | simp [Opcode.operator?] at hop
    rw [execute_operator (δ := δ) hop, hperform]
    exact tracks_liftM (Action.follows_combine h hop)
  | none =>
    cases op with
    | nop => exact ⟨h, rfl⟩
    | lit => exact tracks_liftM (Action.follows_literal h)
    | dup => exact tracks_liftM (Action.follows_duplicate h)
    | drop => exact tracks_liftM (Action.follows_drop h)
    | swap => exact tracks_liftM (Action.follows_exchange h)
    | push => exact tracks_liftM (Action.follows_toReturns h)
    | pop => exact tracks_liftM (Action.follows_fromReturns h)
    | jump => exact tracks_liftM (Action.follows_jump h)
    | call => exact tracks_liftM (Action.follows_call h)
    | ccall => exact tracks_liftM (Action.follows_conditionalCall h)
    | ret => exact tracks_liftM (Action.follows_goBack h)
    | fetch => exact tracks_liftM (Action.follows_fetch h)
    | store => exact tracks_liftM (Action.follows_store h)
    | divmod => exact tracks_liftM (Action.follows_divide h)
    | zret => exact tracks_liftM (Action.follows_goBackOnZero h)
    | stop => exact ⟨⟨h.data, h.returns⟩, rfl⟩
    | input => exact tracks_input h
    | getc => exact tracks_input h
    | output => exact tracks_output h
    | putc => exact tracks_emit h
    | cjump => exact ⟨⟨h.data, h.returns⟩, rfl⟩
    | _ => simp [Opcode.operator?] at hop

/-- A dispatch is announced in the same words. -/
theorem announce_lists (h : m.Contained) :
    m.lists.announce op host = Host.note (.dispatched m.ip op m.data.top m.returns.top) host := by
  have hdata := h.data.length_contents
  have hreturns := h.returns.length_contents
  have hsp : (m.lists.data.length : Int) - 1 = m.data.top := by rw [Machine.data_lists]; omega
  have hrp : (m.lists.returns.length : Int) - 1 = m.returns.top := by
    rw [Machine.returns_lists]; omega
  rw [ListMachine.announce, hsp, hrp]
  rfl

/-- The step of a system is the step of its lists. -/
theorem yields_step_lists {s : System δ} (h : s.machine.Contained) :
    Yields (step s)
      (fun status s' => s'.machine.Contained ∧
        s.machine.lists.step s.host = (.ok (status, s'.machine.lists), s'.host))
      (fun fault s' => s.machine.lists.step s.host = (.error fault, s'.host)) := by
  rw [yields_step]
  refine ⟨fun hhalted => ⟨h, ?_⟩, fun hrunning => ⟨fun hnone => ?_, fun value hsome hdecode => ?_,
    fun op hnext => ?_⟩⟩
  · exact ListMachine.step_of_halted (Machine.hasHalted_iff.mp hhalted)
  · have hip : ¬Machine.haltAddress ≤ s.machine.ip := by
      rw [← Machine.hasHalted_iff, hrunning]
      exact Bool.false_ne_true
    exact ListMachine.step_of_lt (l := s.machine.lists)
      ((Memory.get?_eq_none_iff.mp hnone).resolve_right hip)
  · rw [ListMachine.step_of_get? (l := s.machine.lists) hsome, Machine.set_lists, hdecode]
    rfl
  · obtain ⟨value, hsome, hdecode⟩ := Option.bind_eq_some_iff.mp hnext
    have hcounted : (s.machine.counted op).Contained := ⟨h.data, h.returns⟩
    have hexecute : Tracks
        (execute s.machine.ip op ⟨s.machine.counted op, s.machine.lists.announce op s.host⟩)
        (s.machine.lists.perform s.machine.ip op (s.machine.lists.announce op s.host)) :=
      tracks_execute hcounted
    rw [yields_dispatch, ← announce_lists h,
      ListMachine.step_of_get? (l := s.machine.lists) hsome, Machine.set_lists, hdecode]
    refine hexecute.imp (fun _ s' hdone => ⟨⟨hdone.1.data, hdone.1.returns⟩, ?_⟩)
      (fun fault s' hstopped => ?_)
    · simp only [Machine.ip_lists, hdone.2, Machine.status_eq]
      rfl
    · simp only [Machine.ip_lists, hstopped]
      rfl

/-- A run of a system is a run of its lists, step by step. -/
theorem observe_runToHalt {s : System δ} (h : s.machine.Contained) (fuel : Nat) :
    (runToHalt fuel s).map observe = s.machine.lists.run s.host fuel := by
  induction fuel generalizing s with
  | zero => rfl
  | succ fuel ih =>
    have hstep := yields_step_lists h
    rw [runToHalt, ListMachine.run]
    cases hresult : step s with
    | ok status s' =>
      obtain ⟨hcontained, hlists⟩ := hstep.of_ok hresult
      rw [hlists]
      cases status with
      | running => exact ih hcontained
      | halted => rfl
    | error fault s' =>
      rw [hstep.of_error hresult]
      rfl

end Session

end CellMachine
