import CellMachine.Cell

/-!
# Opcodes

The thirty-two operations of the machine, the numbers that stand for them in an image, their
mnemonics, and the two instruction sets that decide which of them a machine accepts.

The opcodes are declared in counter order: the thirty base opcodes, whose image numbers are 0 to
29, and then the two extension opcodes for a terminal, whose image numbers are 90 and 91.
-/

namespace CellMachine

/-- An operation of the machine. -/
inductive Opcode where
  | nop
  | lit
  | dup
  | drop
  | swap
  | push
  | pop
  | jump
  | call
  | ccall
  | ret
  | eq
  | neq
  | lt
  | gt
  | fetch
  | store
  | add
  | sub
  | mul
  | divmod
  | and
  | or
  | xor
  | shift
  | zret
  | stop
  | input
  | output
  | cjump
  | putc
  | getc
  deriving DecidableEq, Repr, Inhabited

/-- Which opcodes a machine accepts. -/
inductive InstructionSet where
  /-- The thirty base opcodes. -/
  | base
  /-- The base opcodes and the two that talk to a terminal. -/
  | interactive
  deriving DecidableEq, Repr

namespace Opcode

/-- Every opcode once, in counter order. -/
def all : List Opcode :=
  [nop, lit, dup, drop, swap, push, pop, jump, call, ccall, ret, eq, neq, lt, gt, fetch, store,
    add, sub, mul, divmod, and, or, xor, shift, zret, stop, input, output, cjump, putc, getc]

/-- The position of an opcode in counter order. -/
def index (op : Opcode) : Fin 32 :=
  ⟨op.ctorIdx, by cases op <;> decide⟩

/-- The opcodes that only the interactive instruction set has. -/
def isExtension : Opcode → Bool
  | putc | getc => true
  | _ => false

/-- The number that stands for an opcode in an image. -/
def code : Opcode → Cell
  | putc => 90
  | getc => 91
  | op => Int32.ofNat op.index

/-- The name of an opcode in reports and in the log. -/
def mnemonic : Opcode → String
  | nop => "NOP"
  | lit => "LIT"
  | dup => "DUP"
  | drop => "DROP"
  | swap => "SWAP"
  | push => "PUSH"
  | pop => "POP"
  | jump => "JUMP"
  | call => "CALL"
  | ccall => "CCALL"
  | ret => "RETURN"
  | eq => "EQ"
  | neq => "NEQ"
  | lt => "LT"
  | gt => "GT"
  | fetch => "FETCH"
  | store => "STORE"
  | add => "ADD"
  | sub => "SUB"
  | mul => "MUL"
  | divmod => "DIVMOD"
  | and => "AND"
  | or => "OR"
  | xor => "XOR"
  | shift => "SHIFT"
  | zret => "ZRET"
  | stop => "END"
  | input => "IN"
  | output => "OUT"
  | cjump => "CJUMP"
  | putc => "PUTC"
  | getc => "GETC"

/-- The opcode that has a given mnemonic. -/
def ofMnemonic? (name : String) : Option Opcode :=
  all.find? fun op => op.mnemonic == name

end Opcode

/-- Whether an opcode belongs to an instruction set. -/
def InstructionSet.admits : InstructionSet → Opcode → Bool
  | base, op => !op.isExtension
  | interactive, _ => true

/-- The opcode of an instruction set that a cell stands for, if it stands for one. -/
def InstructionSet.decode (set : InstructionSet) (value : Cell) : Option Opcode :=
  Opcode.all.find? fun op => op.code == value && set.admits op

namespace Opcode

/-- The list of all opcodes is complete. -/
theorem mem_all (op : Opcode) : op ∈ all := by
  cases op <;> decide

/-- The list of all opcodes is in counter order. -/
theorem getElem?_all (op : Opcode) : all[op.index.val]? = some op := by
  cases op <;> rfl

/-- Two opcodes with the same position are the same opcode. -/
theorem index_injective {a b : Opcode} (h : a.index = b.index) : a = b := by
  have hget := getElem?_all a
  rw [h, getElem?_all b] at hget
  exact (Option.some.inj hget).symm

/-- Two opcodes with the same image number are the same opcode. -/
theorem code_injective {a b : Opcode} (h : a.code = b.code) : a = b := by
  revert h
  cases a <;> cases b <;> decide

end Opcode

/-- A cell stands for an opcode exactly when it is the number of that opcode and the opcode is in
the set. -/
theorem InstructionSet.decode_eq_some_iff {set : InstructionSet} {value : Cell} {op : Opcode} :
    set.decode value = some op ↔ value = op.code ∧ set.admits op = true := by
  constructor
  · intro h
    have hfound := List.find?_some h
    simp only [Bool.and_eq_true, beq_iff_eq] at hfound
    exact ⟨hfound.1.symm, hfound.2⟩
  · rintro ⟨rfl, hop⟩
    cases h : set.decode op.code with
    | none =>
      have hmiss := List.find?_eq_none.mp h op (Opcode.mem_all op)
      simp [hop] at hmiss
    | some found =>
      have hfound := List.find?_some h
      simp only [Bool.and_eq_true, beq_iff_eq] at hfound
      rw [Opcode.code_injective hfound.1]

end CellMachine
