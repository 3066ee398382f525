import DeskLink.Transfer.Receive

/-!
# `DeskLink.Proofs.Transfer.File`: the partial file under its writes

Where blocks start and end, and what `setLength` and `overwrite` leave of
a file. A cut keeps the blocks before it (`blockOf_take`), and a write
keeps the blocks that end before it (`blockOf_overwrite`).
-/

set_option autoImplicit false

namespace DeskLink.Transfer

variable {i n total offset : Nat} {bytes new : Bytes}

/-! ### Blocks -/

theorem blockEnd_eq (total i : Nat) : blockEnd total i = blockStart total (i + 1) := rfl

theorem blockStart_le_total (total i : Nat) : blockStart total i ≤ total := min_le_right _ _

theorem blockStart_le_mul (total i : Nat) : blockStart total i ≤ blockBytes * i := min_le_left _ _

theorem blockStart_mono (total : Nat) {j : Nat} (h : i ≤ j) :
    blockStart total i ≤ blockStart total j :=
  min_le_min_right total (Nat.mul_le_mul_left blockBytes h)

@[simp] theorem blockStart_zero (total : Nat) : blockStart total 0 = 0 := by
  simp [blockStart]

/-- A block starts at its index when the file reaches past its start. -/
theorem blockStart_eq_mul (hlo : blockStart total i ≤ n) (hn : n < total) :
    blockStart total i = blockBytes * i := by
  unfold blockStart at hlo ⊢
  omega

/-- All blocks together are the file. -/
theorem blockStart_blocksFor (total : Nat) : blockStart total (blocksFor total) = total := by
  have h : total ≤ blockBytes * blocksFor total := by
    unfold blocksFor blockBytes
    omega
  exact min_eq_right h

/-- The start of a block is before its end. -/
theorem lt_blockEnd (hn : n ≤ blockBytes * i) (htotal : n < total) : n < blockEnd total i := by
  have hlt : blockBytes * i < blockBytes * (i + 1) :=
    Nat.mul_lt_mul_of_pos_left (Nat.lt_succ_self i) blockBytes_pos
  exact lt_min (lt_of_le_of_lt hn hlt) htotal

/-- A block of the file starts inside it. -/
theorem mul_lt_of_lt_blocksFor (h : i < blocksFor total) : blockBytes * i < total := by
  have hle : i + 1 ≤ (total + blockBytes - 1) / blockBytes := h
  have hmul := (Nat.le_div_iff_mul_le blockBytes_pos).mp hle
  have hpos := blockBytes_pos
  rw [Nat.succ_mul, Nat.mul_comm] at hmul
  omega

/-- Blocks of the file end one after the other. -/
theorem blockEnd_lt {j : Nat} (hij : i < j) (hj : blockBytes * j < total) :
    blockEnd total i < blockEnd total j := by
  have hle : blockBytes * (i + 1) ≤ blockBytes * j := Nat.mul_le_mul_left blockBytes hij
  exact lt_of_le_of_lt ((min_le_left _ _).trans hle) (lt_blockEnd (le_refl _) hj)

/-- An offset inside the block after the `i` first ones is in block `i`. -/
theorem offset_div (hlo : blockBytes * i ≤ n) (hhi : n < blockEnd total i) :
    n / blockBytes = i := by
  have hhi' : n < blockBytes * (i + 1) := lt_of_lt_of_le hhi (min_le_left _ _)
  rw [Nat.mul_comm] at hlo hhi'
  exact Nat.div_eq_of_lt_le hlo hhi'

/-! ### Cuts and writes -/

theorem setLength_of_le (h : n ≤ bytes.length) : setLength bytes n = bytes.take n := by
  simp [setLength, Nat.sub_eq_zero_of_le h]

theorem overwrite_eq (h : offset ≤ bytes.length) : overwrite bytes offset new
      = bytes.take offset ++ new ++ bytes.drop (offset + new.length) := by
  rw [overwrite, setLength_of_le h]

theorem overwrite_length (h : offset ≤ bytes.length) :
    (overwrite bytes offset new).length = max bytes.length (offset + new.length) := by
  rw [overwrite_eq h]
  simp only [List.length_append, List.length_take, List.length_drop]
  omega

/-- A write keeps what is before it. -/
theorem take_overwrite (h : offset ≤ bytes.length) (hn : n ≤ offset) :
    (overwrite bytes offset new).take n = bytes.take n := by
  rw [overwrite_eq h, List.append_assoc, List.take_append_of_le_length, List.take_take,
    min_eq_left hn]
  rw [List.length_take]
  omega

/-- Up to its end, a write is what it wrote. -/
theorem take_overwrite_end (h : offset ≤ bytes.length) :
    (overwrite bytes offset new).take (offset + new.length) = bytes.take offset ++ new := by
  rw [overwrite_eq h]
  have hlen : (bytes.take offset ++ new).length = offset + new.length := by
    rw [List.length_append, List.length_take, min_eq_left h]
  rw [← hlen]
  exact List.take_left

theorem blockOf_take (h : blockEnd total i ≤ n) :
    blockOf (bytes.take n) total i = blockOf bytes total i := by
  rw [blockOf, blockOf, List.take_take, min_eq_left h]

theorem blockOf_overwrite (h : offset ≤ bytes.length) (hi : blockEnd total i ≤ offset) :
    blockOf (overwrite bytes offset new) total i = blockOf bytes total i := by
  rw [blockOf, blockOf, take_overwrite h hi]

/-! ### A file under a list of operations -/

def FileOp.after (bytes : Bytes) : FileOp → Bytes
  | .setLen n => setLength bytes n
  | .writeAt offset new => overwrite bytes offset new

/-- The file after `ops`. -/
def fileAfter (bytes : Bytes) (ops : List (FileOp × List Hash)) : Bytes :=
  ops.foldl (fun b op => op.1.after b) bytes

@[simp] theorem fileAfter_nil (bytes : Bytes) : fileAfter bytes [] = bytes := rfl

@[simp] theorem fileAfter_cons (bytes : Bytes) (op : FileOp × List Hash)
    (ops : List (FileOp × List Hash)) :
    fileAfter bytes (op :: ops) = fileAfter (op.1.after bytes) ops := rfl

end DeskLink.Transfer
