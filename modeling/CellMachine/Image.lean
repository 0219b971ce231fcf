import CellMachine.Cell

/-!
# Images

An image is a sequence of bytes that holds cells one after another, four bytes to a cell with the
least significant byte first. Cell number `n` of an image belongs at address `n`. Bytes after the
last whole cell are no part of the image.
-/

namespace CellMachine.Image

/-- The four bytes of a cell, the least significant first. -/
def bytes (c : Cell) : List UInt8 :=
  let n := c.toUInt32.toNat
  [UInt8.ofNat n, UInt8.ofNat (n / 256), UInt8.ofNat (n / 65536), UInt8.ofNat (n / 16777216)]

/-- The cell that four bytes hold, the least significant first. -/
def cell (b₀ b₁ b₂ b₃ : UInt8) : Cell :=
  (UInt32.ofNat
    (b₀.toNat + 256 * b₁.toNat + 65536 * b₂.toNat + 16777216 * b₃.toNat)).toInt32

/-- The bytes of an image that holds the given cells. -/
def encode (cells : List Cell) : List UInt8 :=
  cells.flatMap bytes

/-- Appends the cells of an image to those that were decoded before. -/
def decodeOnto (done : Array Cell) : List UInt8 → Array Cell
  | b₀ :: b₁ :: b₂ :: b₃ :: rest => decodeOnto (done.push (cell b₀ b₁ b₂ b₃)) rest
  | _ => done

/-- The cells of an image. -/
def decode (image : List UInt8) : List Cell :=
  (decodeOnto #[] image).toList

/-- Decoding goes on from what was decoded before. -/
theorem decodeOnto_eq_append (image : List UInt8) (done : Array Cell) :
    decodeOnto done image = done ++ decodeOnto #[] image := by
  match image with
  | b₀ :: b₁ :: b₂ :: b₃ :: rest =>
    rw [decodeOnto, decodeOnto_eq_append rest, decodeOnto, decodeOnto_eq_append rest (#[].push _)]
    simp
  | [] | [_] | [_, _] | [_, _, _] => simp [decodeOnto]

/-- A cell is recovered from its four bytes. -/
theorem cell_bytes (n : UInt32) :
    cell (UInt8.ofNat n.toNat) (UInt8.ofNat (n.toNat / 256)) (UInt8.ofNat (n.toNat / 65536))
      (UInt8.ofNat (n.toNat / 16777216)) = n.toInt32 := by
  have hn := n.toNat_lt
  unfold cell
  congr 1
  rw [← UInt32.toNat_inj]
  simp only [UInt32.toNat_ofNat', UInt8.toNat_ofNat']
  omega

/-- The first cell of an image is what its first four bytes hold. -/
@[simp] theorem decode_bytes_append (c : Cell) (rest : List UInt8) :
    decode (bytes c ++ rest) = c :: decode rest := by
  simp only [bytes, List.cons_append, List.nil_append, decode, decodeOnto, cell_bytes,
    Int32.toInt32_toUInt32]
  rw [decodeOnto_eq_append]
  simp

/-- An image gives back the cells that it was made from, and up to three bytes after them do not
matter. -/
theorem decode_encode_append (cells : List Cell) {tail : List UInt8} (htail : tail.length < 4) :
    decode (encode cells ++ tail) = cells := by
  induction cells with
  | nil =>
    match tail, htail with
    | [], _ | [_], _ | [_, _], _ | [_, _, _], _ => rfl
  | cons c cells ih =>
    rw [encode, List.flatMap_cons, List.append_assoc, decode_bytes_append]
    exact congrArg _ ih

end CellMachine.Image
