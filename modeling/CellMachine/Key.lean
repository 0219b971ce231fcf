import CellMachine.Cell

/-!
# Keys

What happens at a terminal. Some keys stand for a character, and the machine reads it as a cell:
the character that a terminal without any editing would have sent. Other keys stand for nothing
that the machine could read, but have names for the log.
-/

namespace CellMachine

/-- A key that stands for a character. -/
inductive Key where
  /-- A character, on its own or together with Shift or Alt. -/
  | char (c : Char)
  /-- A character together with Control. -/
  | control (c : Char)
  | enter
  | tab
  | backspace
  | escape
  deriving DecidableEq, Repr

namespace Key

/-- The key that a terminal reports for a character pressed together with Control. Two of these
are also keys of their own. -/
def ofControl : Char → Key
  | 'i' => tab
  | 'm' => enter
  | c => control c

/-- The cell that the machine reads for a key. Control keeps the five lowest bits of a
character. -/
def cell : Key → Cell
  | char c => Int32.ofNat c.toNat
  | control c => Int32.ofNat (c.toLower.toNat % 32)
  | enter => 10
  | tab => 9
  | backspace => 127
  | escape => 27

end Key

/-- A key that stands for no character. -/
inductive SpecialKey where
  | up
  | down
  | left
  | right
  | home
  | endKey
  | pageUp
  | pageDown
  | backTab
  | delete
  | insert
  /-- A function key. -/
  | function (number : Nat)
  /-- A key that only some keyboards have, by its name. -/
  | rare (name : String)
  deriving DecidableEq, Repr

/-- The name of a key in the log. -/
def SpecialKey.name : SpecialKey → String
  | up => "Up"
  | down => "Down"
  | left => "Left"
  | right => "Right"
  | home => "Home"
  | endKey => "End"
  | pageUp => "PageUp"
  | pageDown => "PageDown"
  | backTab => "BackTab"
  | delete => "Delete"
  | insert => "Insert"
  | function number => "F(" ++ number.repr ++ ")"
  | rare name => name

/-- Something that happens at a terminal. -/
inductive TerminalEvent where
  /-- A key that stands for a character was pressed. -/
  | key (key : Key)
  /-- A key that stands for no character was pressed. -/
  | special (key : SpecialKey)
  /-- The mouse was moved, the window changed its size, or the like. -/
  | other
  deriving DecidableEq, Repr

end CellMachine
