/-!
# Text in fields

Reports and log lines place short texts in fields of a fixed width. A field may first cut its
text to a number of characters, and it fills what is missing to its width with spaces. A text
that is longer than the field is wide is written whole.
-/

namespace CellMachine.Text

/-- The side of a field on which its text stands. -/
inductive Alignment where
  | left
  | right
  | center
  deriving DecidableEq, Repr

/-- The rule by which a text is placed. -/
structure Field where
  /-- Where the text stands. -/
  alignment : Alignment
  /-- The least number of characters that are written. -/
  width : Nat := 0
  /-- The largest number of characters of the text that are kept, if there is a limit. -/
  precision : Option Nat := none
  deriving DecidableEq, Repr

/-- A text of `n` spaces. -/
def spaces (n : Nat) : String :=
  String.ofList (List.replicate n ' ')

namespace Field

/-- The part of a text that a field keeps. -/
def cut (field : Field) (text : String) : String :=
  match field.precision with
  | none => text
  | some limit => String.ofList (text.toList.take limit)

/-- A text as it stands in a field. Of an odd number of spaces around a centred text, the right
side has one more. -/
def render (field : Field) (text : String) : String :=
  let kept := field.cut text
  let gap := field.width - kept.length
  match field.alignment with
  | .left => kept ++ spaces gap
  | .right => spaces gap ++ kept
  | .center => spaces (gap / 2) ++ kept ++ spaces (gap - gap / 2)

end Field

/-- A text at the left end of a field. -/
def padRight (width : Nat) (text : String) : String :=
  { alignment := .left, width : Field }.render text

/-- A text at the right end of a field. -/
def padLeft (width : Nat) (text : String) : String :=
  { alignment := .right, width : Field }.render text

end CellMachine.Text
