import CellMachine.Fault

/-!
# Deliveries

A reader hands out the bytes of a file or a pipe piece by piece. It may be interrupted between
two pieces, which is no failure: the read is repeated. It reports the end of its bytes by a piece
of no bytes, or by having nothing further to say.
-/

namespace CellMachine

/-- What one read from a reader gives. -/
inductive Delivery where
  /-- The next bytes. No bytes at all mean that the end is reached. -/
  | bytes (chunk : List UInt8)
  /-- The read was interrupted and has to be repeated. -/
  | interrupted
  /-- The read failed for good. -/
  | failed (cause : IoError)
  deriving DecidableEq, Repr

namespace Delivery

/-- Appends what a reader delivers to the bytes that arrived before. -/
def collectOnto (done : Array UInt8) : List Delivery → Except IoError (Array UInt8)
  | [] => .ok done
  | .bytes [] :: _ => .ok done
  | .bytes chunk :: rest => collectOnto (done ++ chunk) rest
  | .interrupted :: rest => collectOnto done rest
  | .failed cause :: _ => .error cause

/-- All bytes that a reader delivers before its end, or the reason why it failed. -/
def collect (deliveries : List Delivery) : Except IoError (List UInt8) :=
  (collectOnto #[] deliveries).map (·.toList)

/-- Bytes that arrive in one piece arrive whole. -/
@[simp] theorem collect_singleton (chunk : List UInt8) : collect [.bytes chunk] = .ok chunk := by
  cases chunk with
  | nil => rfl
  | cons b rest => simp [collect, collectOnto, Except.map]

end Delivery

end CellMachine
