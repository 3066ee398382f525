import DeskLink.Transfer.Outgoing
import DeskLink.Proofs.Transfer.File
import DeskLink.Proofs.Transfer.Wire
import DeskLink.Lib.Run

/-!
# `DeskLink.Proofs.Transfer.Outgoing`: the frames of a send are the file's

A `Cut` is a file and how it is cut into frames. `Cut.frameAt` is its frame
at an offset, and `Cut.framesFrom` its frames from there to the end, read
off the file alone; `Cut.framesFrom_spec` is what they are.

`Outgoing.Sound` is the invariant of a send: where it is in the file, the
hashes of the blocks before, and what the hasher was fed of the block in
progress. In a sound send `nextFrame` is the frame of the cut
(`Sound.nextFrame`), and every step keeps it sound (`Sound.step`).

* `send_reproduces`: from every state of every run the rest of the frames
  are the file's, and so they are after going back to any block.
-/

set_option autoImplicit false

namespace DeskLink.Transfer

open Wire (frameHeaderBytes blockTrailerBytes frameBytesProven payloadCapacity slice)

/-! ### A file, cut into frames -/

/-- A file and how it is sent. -/
structure Cut where
  file : Bytes
  file_le : file.length ≤ maxTransferBytes
  frameMax : Nat
  room : frameHeaderBytes + blockTrailerBytes < frameMax
  frameMax_le : frameMax ≤ frameBytesProven
  transfer : Vector UInt8 16
  pass : UInt8

namespace Cut

variable (sha : Bytes → Hash) (c : Cut)

/-- Where the block at `offset` ends. -/
def stop (offset : Nat) : Nat := blockEnd c.file.length (offset / blockBytes)

/-- How much of the file the frame at `offset` carries. -/
def piece (offset : Nat) : Nat := min (payloadCapacity c.frameMax) (c.stop offset - offset)

variable {c} {offset : Nat}

theorem stop_le (c : Cut) (offset : Nat) : c.stop offset ≤ c.file.length := min_le_right _ _

theorem lt_stop (h : offset < c.file.length) : offset < c.stop offset := by
  have hlt : offset < blockBytes * (offset / blockBytes + 1) := Nat.lt_mul_div_succ offset blockBytes_pos
  exact lt_min hlt h

theorem capacity_pos (c : Cut) : 0 < payloadCapacity c.frameMax := by
  have hroom := c.room
  unfold payloadCapacity
  omega

theorem piece_pos (h : offset < c.file.length) : 0 < c.piece offset := by
  have hstop := lt_stop h
  have hcapacity := c.capacity_pos
  unfold piece
  omega

theorem add_piece_le (h : offset < c.file.length) : offset + c.piece offset ≤ c.stop offset := by
  have hstop := lt_stop h
  unfold piece
  omega

theorem add_piece_le_length (h : offset < c.file.length) :
    offset + c.piece offset ≤ c.file.length := (add_piece_le h).trans (c.stop_le offset)

theorem piece_le (c : Cut) (offset : Nat) :
    c.piece offset + frameHeaderBytes + blockTrailerBytes ≤ c.frameMax := by
  have hroom := c.room
  unfold piece payloadCapacity
  omega

theorem piece_small (c : Cut) (offset : Nat) : c.piece offset < 2 ^ 32 := by
  have hle := c.piece_le offset
  have hmax := c.frameMax_le
  unfold frameBytesProven at hmax
  omega

theorem toNat_piece (c : Cut) (offset : Nat) :
    (UInt32.ofNat (c.piece offset)).toNat = c.piece offset := by
  rw [UInt32.toNat_ofNat', Nat.mod_eq_of_lt (c.piece_small offset)]

/-- The frame of the file at `offset`. -/
def frameAt (c : Cut) (offset : Nat) (h : offset < c.file.length) : Wire.Frame where
  header :=
    { lastOfBlock := offset + c.piece offset == c.stop offset
      pass := c.pass
      transfer := c.transfer
      blockIndex := UInt32.ofNat (offset / blockBytes)
      offset := UInt64.ofNat offset
      length := UInt32.ofNat (c.piece offset) }
  payload := slice c.file offset (c.piece offset)
  trailer :=
    if (offset + c.piece offset == c.stop offset) = true then
      some (sha (blockOf c.file c.file.length (offset / blockBytes)))
    else none
  length_eq := by
    show (slice c.file offset (c.piece offset)).length = (UInt32.ofNat (c.piece offset)).toNat
    rw [Wire.length_slice (add_piece_le_length h), toNat_piece]
  length_pos := by
    rw [Wire.length_slice (add_piece_le_length h)]
    exact piece_pos h
  trailer_eq := by
    show _ = (offset + c.piece offset == c.stop offset)
    cases (offset + c.piece offset == c.stop offset) <;> rfl

/-- The frames of the file from `offset` to its end. -/
def framesFrom (c : Cut) (offset : Nat) : List Wire.Frame :=
  if h : offset < c.file.length then
    c.frameAt sha offset h :: c.framesFrom (offset + c.piece offset)
  else []
termination_by c.file.length - offset
decreasing_by
  have := piece_pos h
  omega

theorem framesFrom_of_lt (h : offset < c.file.length) :
    c.framesFrom sha offset
      = c.frameAt sha offset h :: c.framesFrom sha (offset + c.piece offset) := by
  rw [framesFrom, dif_pos h]

theorem framesFrom_end : c.framesFrom sha c.file.length = [] := by
  rw [framesFrom, dif_neg (Nat.lt_irrefl _)]

/-- Each frame starts where the one before ended, and the last ends at
`total`. -/
def Contiguous (total : Nat) : Nat → List Wire.Frame → Prop
  | offset, [] => offset = total
  | offset, f :: frames =>
    f.header.offset.toNat = offset ∧ Contiguous total (offset + f.payload.length) frames

/-- A frame of a file: parsed, in place, within the limit, and the last of
its block exactly when it ends a block or the file. -/
structure FrameOf (c : Cut) (f : Wire.Frame) : Prop where
  parsed : Wire.parseFrame f.bytes = .ok f
  checked : f.header.check c.file.length = .ok ()
  fits : f.bytes.length ≤ c.frameMax
  payload : f.payload = slice c.file f.header.offset.toNat f.payload.length
  last : f.header.lastOfBlock = true ↔
    (f.header.offset.toNat + f.payload.length) % blockBytes = 0
      ∨ f.header.offset.toNat + f.payload.length = c.file.length
  trailer : f.header.lastOfBlock = true →
    f.trailer = some (sha (blockOf c.file c.file.length f.header.blockIndex.toNat))

theorem toNat_offset (h : offset < c.file.length) : (UInt64.ofNat offset).toNat = offset := by
  have hle := c.file_le
  unfold maxTransferBytes at hle
  rw [UInt64.toNat_ofNat', Nat.mod_eq_of_lt (by omega)]

theorem toNat_block (h : offset < c.file.length) :
    (UInt32.ofNat (offset / blockBytes)).toNat = offset / blockBytes := by
  have hle := c.file_le
  have hdiv : offset / blockBytes ≤ offset / 1048576 := by
    unfold blockBytes
    exact le_refl _
  unfold maxTransferBytes at hle
  rw [UInt32.toNat_ofNat', Nat.mod_eq_of_lt (by omega)]

/-- A frame ends at its block's end exactly when it ends a block or the
file. -/
theorem ends_iff (h : offset < c.file.length) :
    offset + c.piece offset = c.stop offset ↔
      (offset + c.piece offset) % blockBytes = 0 ∨ offset + c.piece offset = c.file.length := by
  have hpos := piece_pos h
  have hle := add_piece_le h
  have hlength := add_piece_le_length h
  have hstart : blockBytes * (offset / blockBytes) ≤ offset := Nat.mul_div_le offset blockBytes
  constructor
  · intro heq
    rcases Nat.le_total (blockBytes * (offset / blockBytes + 1)) c.file.length with hin | hout
    · left
      rw [heq, stop, blockEnd, min_eq_left hin]
      exact Nat.mul_mod_right ..
    · right
      rw [heq, stop, blockEnd, min_eq_right hout]
  · rintro (hmod | hend)
    · -- The next multiple of `blockBytes` after `offset` is where its block ends.
      obtain ⟨k, hk⟩ := Nat.dvd_of_mod_eq_zero hmod
      have hlt : blockBytes * (offset / blockBytes) < blockBytes * k := by omega
      have hstep : blockBytes * (offset / blockBytes + 1) ≤ blockBytes * k :=
        Nat.mul_le_mul_left blockBytes (Nat.lt_of_mul_lt_mul_left hlt)
      have hstop : c.stop offset ≤ blockBytes * (offset / blockBytes + 1) := min_le_left _ _
      omega
    · have hstop := c.stop_le offset
      omega

theorem bytes_frameAt (h : offset < c.file.length) :
    (c.frameAt sha offset h).bytes
      = (c.frameAt sha offset h).header.write ++ (slice c.file offset (c.piece offset)
        ++ if (offset + c.piece offset == c.stop offset) = true then
            (sha (blockOf c.file c.file.length (offset / blockBytes))).toList
          else []) := by
  unfold Wire.Frame.bytes
  congr 2
  show ((if (offset + c.piece offset == c.stop offset) = true then some _ else none).map _).getD []
    = _
  split <;> rfl

theorem frameAt_frameOf (h : offset < c.file.length) : FrameOf sha c (c.frameAt sha offset h) where
  parsed := Wire.parseFrame_bytes _
  checked := by
    have hle := c.file_le
    unfold maxTransferBytes at hle
    have hend := add_piece_le_length h
    have hpos := piece_pos h
    rw [Wire.check_ok_iff]
    constructor
    · show (UInt64.ofNat offset).toNat + (UInt32.ofNat (c.piece offset)).toNat < 2 ^ 64
      rw [toNat_offset h, toNat_piece]
      omega
    · show (UInt32.ofNat (c.piece offset)).toNat ≠ 0
      rw [toNat_piece]
      omega
    · show (UInt64.ofNat offset).toNat < _
      rw [toNat_offset h]
      exact h
    · show (UInt32.ofNat (offset / blockBytes)).toNat = (UInt64.ofNat offset).toNat / blockBytes
      rw [toNat_block h, toNat_offset h]
    · show (UInt64.ofNat offset).toNat + (UInt32.ofNat (c.piece offset)).toNat
        ≤ blockEnd _ (UInt32.ofNat (offset / blockBytes)).toNat
      rw [toNat_offset h, toNat_piece, toNat_block h]
      exact add_piece_le h
    · show (offset + c.piece offset == c.stop offset) = decide ((UInt64.ofNat offset).toNat
        + (UInt32.ofNat (c.piece offset)).toNat
          = blockEnd _ (UInt32.ofNat (offset / blockBytes)).toNat)
      rw [toNat_offset h, toNat_piece, toNat_block h]
      rfl
  fits := by
    have hle := c.piece_le offset
    have htrailer : Wire.trailerBytes (c.frameAt sha offset h).header ≤ blockTrailerBytes := by
      unfold Wire.trailerBytes
      split
      · exact le_refl _
      · exact Nat.zero_le _
    rw [Wire.Frame.length_bytes]
    show _ + (UInt32.ofNat (c.piece offset)).toNat + _ ≤ _
    rw [toNat_piece]
    omega
  payload := by
    show slice c.file offset (c.piece offset) = slice c.file (UInt64.ofNat offset).toNat
      (slice c.file offset (c.piece offset)).length
    rw [toNat_offset h, Wire.length_slice (add_piece_le_length h)]
  last := by
    show (offset + c.piece offset == c.stop offset) = true ↔ ((UInt64.ofNat offset).toNat
      + (slice c.file offset (c.piece offset)).length) % blockBytes = 0
      ∨ (UInt64.ofNat offset).toNat + (slice c.file offset (c.piece offset)).length = _
    rw [toNat_offset h, Wire.length_slice (add_piece_le_length h), beq_iff_eq]
    exact ends_iff h
  trailer := by
    intro hlast
    show (if (offset + c.piece offset == c.stop offset) = true then _ else none)
      = some (sha (blockOf _ _ (UInt32.ofNat (offset / blockBytes)).toNat))
    rw [toNat_block h]
    exact if_pos hlast

/-- The frames from `offset` are the file's: each is a frame of it, they
follow each other to the end, and carry what is left of the file. -/
theorem framesFrom_spec (h : offset ≤ c.file.length) :
    (∀ f ∈ c.framesFrom sha offset, FrameOf sha c f) ∧
      Contiguous c.file.length offset (c.framesFrom sha offset) ∧
      (c.framesFrom sha offset).flatMap (·.payload) = c.file.drop offset := by
  -- Down the bytes that are left.
  obtain ⟨left, hleft⟩ : ∃ left, c.file.length - offset = left := ⟨_, rfl⟩
  induction left using Nat.strong_induction_on generalizing offset with
  | _ left ih =>
    rcases Nat.lt_or_ge offset c.file.length with hlt | hge
    · have hpos := piece_pos hlt
      have hend := add_piece_le_length hlt
      have hlength : (slice c.file offset (c.piece offset)).length = c.piece offset :=
        Wire.length_slice hend
      obtain ⟨hframes, hchain, hpayload⟩ := ih _ (by omega) hend rfl
      rw [framesFrom_of_lt sha hlt]
      refine ⟨?_, ⟨toNat_offset hlt, ?_⟩, ?_⟩
      · intro f hf
        rcases List.mem_cons.mp hf with rfl | hf
        · exact frameAt_frameOf sha hlt
        · exact hframes f hf
      · show Contiguous _ (offset + (slice c.file offset (c.piece offset)).length) _
        rw [hlength]
        exact hchain
      · rw [List.flatMap_cons, hpayload]
        show (c.file.drop offset).take (c.piece offset) ++ _ = _
        rw [← List.drop_drop, List.take_append_drop]
    · have heq : offset = c.file.length := le_antisymm h hge
      subst heq
      rw [framesFrom_end]
      exact ⟨fun f hf => absurd hf List.not_mem_nil, rfl, by simp⟩

end Cut

/-! ### A send in its file -/

variable {sha : Bytes → Hash} {idBytes : String → Vector UInt8 16}

/-- The source, while it is the offered file. -/
def Source.of (file : Bytes) : Source where
  stat := .ok ()
  read offset length :=
    if offset + length ≤ file.length then .ok (slice file offset length) else .error .changed

/-- The hashes of the first `count` blocks of the file. -/
def blockHashes (sha : Bytes → Hash) (file : Bytes) (count : Nat) : List Hash :=
  (List.range count).map (fun i => sha (blockOf file file.length i))

@[simp] theorem length_blockHashes (file : Bytes) (count : Nat) :
    (blockHashes sha file count).length = count := by
  simp [blockHashes]

theorem take_blockHashes (file : Bytes) {i count : Nat} (h : i ≤ count) :
    (blockHashes sha file count).take i = blockHashes sha file i := by
  unfold blockHashes
  rw [← List.map_take, List.take_range, min_eq_left h]

theorem blockHashes_succ (file : Bytes) (count : Nat) :
    blockHashes sha file (count + 1)
      = blockHashes sha file count ++ [sha (blockOf file file.length count)] := by
  unfold blockHashes
  rw [List.range_succ, List.map_append]
  rfl

namespace Outgoing

/-- Where a send is: past `blocks` blocks, in the next one or at the end. -/
def At (total blocks offset : Nat) : Prop :=
  (blockBytes * blocks ≤ offset ∧ offset < blockEnd total blocks)
    ∨ (offset = total ∧ blocks = blocksFor total)

/-- The invariant of a send of `file`. -/
structure Sound (sha : Bytes → Hash) (file : Bytes) (o : Outgoing) : Prop where
  total : o.total = file.length
  /-- It has the hashes of the blocks before where it is. -/
  hashes : o.hashes = blockHashes sha file o.hashes.length
  place : At file.length o.hashes.length o.nextOffset
  /-- Inside a block, the hasher was fed what came before of it. -/
  fed : blockBytes * o.hashes.length < o.nextOffset → o.nextOffset < file.length →
    o.hasher = some (slice file (blockBytes * o.hashes.length)
      (o.nextOffset - blockBytes * o.hashes.length))
  acked : o.acked ≤ o.hashes.length
  /-- A prefix check has hashed blocks of the file, and has more to hash. -/
  verify : ∀ v, o.verify = some v → v.hashes = blockHashes sha file v.hashes.length
    ∧ v.hashes.length < v.upto ∧ v.upto ≤ blocksFor file.length
  room : frameHeaderBytes + blockTrailerBytes < o.frameMax
  frameMax_le : o.frameMax ≤ frameBytesProven

variable {file : Bytes} {o o' : Outgoing} {blocks : Nat}

theorem At.le {total offset : Nat} (h : At total blocks offset) :
    offset ≤ total ∧ blocks ≤ blocksFor total := by
  rcases h with ⟨hlo, hhi⟩ | ⟨rfl, rfl⟩
  · have hlt : offset < total := lt_of_lt_of_le hhi (min_le_right _ _)
    refine ⟨le_of_lt hlt, ?_⟩
    -- A block that starts inside the file is one of its blocks.
    by_contra hmore
    have hstart := blockStart_mono total (Nat.le_of_lt (not_le.mp hmore))
    have hmul := blockStart_le_mul total blocks
    rw [blockStart_blocksFor] at hstart
    omega
  · exact ⟨le_refl _, le_refl _⟩

/-- After `blocks` blocks of the file a send is at their end. -/
theorem at_blockStart {total : Nat} (h : blocks ≤ blocksFor total) :
    At total blocks (blockStart total blocks) := by
  rcases Nat.lt_or_ge blocks (blocksFor total) with hlt | hge
  · left
    have hin := mul_lt_of_lt_blocksFor hlt
    rw [blockStart, min_eq_left (le_of_lt hin)]
    exact ⟨le_refl _, lt_blockEnd (le_refl _) hin⟩
  · right
    have heq : blocks = blocksFor total := le_antisymm h hge
    subst heq
    exact ⟨blockStart_blocksFor total, rfl⟩

theorem blockStart_eq (total blocks : Nat) : min (blocks * blockBytes) total = blockStart total blocks := by
  rw [blockStart, Nat.mul_comm]

/-- At the end of its last whole block a send is sound. -/
theorem sound_boundary (htotal : o.total = file.length)
    (hhashes : o.hashes = blockHashes sha file blocks) (hblocks : blocks ≤ blocksFor file.length)
    (hplace : o.nextOffset = blockStart file.length blocks) (hacked : o.acked ≤ blocks)
    (hverify : ∀ v, o.verify = some v → v.hashes = blockHashes sha file v.hashes.length
      ∧ v.hashes.length < v.upto ∧ v.upto ≤ blocksFor file.length)
    (hroom : frameHeaderBytes + blockTrailerBytes < o.frameMax)
    (hmax : o.frameMax ≤ frameBytesProven) : o.Sound sha file := by
  have hlength : o.hashes.length = blocks := by rw [hhashes, length_blockHashes]
  constructor
  · exact htotal
  · rw [hlength]
    exact hhashes
  · rw [hlength, hplace]
    exact at_blockStart hblocks
  · intro hin
    have hle := blockStart_le_mul file.length blocks
    rw [hlength, hplace] at hin
    omega
  · rw [hlength]
    exact hacked
  · exact hverify
  · exact hroom
  · exact hmax

theorem Sound.beginAt (h : o.Sound sha file) (hblocks : blocks ≤ o.hashes.length) (pass : UInt8) :
    (o.beginAt blocks pass).Sound sha file := by
  have hle := h.place.le.2
  apply @sound_boundary sha file (o.beginAt blocks pass) blocks h.total
  · show o.hashes.take blocks = _
    rw [h.hashes, take_blockHashes file hblocks]
  · omega
  · show min (blocks * blockBytes) o.total = _
    rw [h.total, blockStart_eq]
  · exact le_refl blocks
  · intro v hv
    cases hv
  · exact h.room
  · exact h.frameMax_le

theorem Sound.rewindTo (h : o.Sound sha file) (hblocks : blocks ≤ o.hashes.length) (pass : UInt8) :
    (o.rewindTo blocks pass).Sound sha file := by
  have hle := h.place.le.2
  apply @sound_boundary sha file (o.rewindTo blocks pass) blocks h.total
  · show o.hashes.take blocks = _
    rw [h.hashes, take_blockHashes file hblocks]
  · omega
  · show min (blocks * blockBytes) o.total = _
    rw [h.total, blockStart_eq]
  · exact min_le_right _ _
  · exact h.verify
  · exact h.room
  · exact h.frameMax_le

/-- How a sound send cuts the file. -/
def cut (idBytes : String → Vector UInt8 16) (hfile : file.length ≤ maxTransferBytes)
    (h : o.Sound sha file) : Cut where
  file := file
  file_le := hfile
  frameMax := o.frameMax
  room := h.room
  frameMax_le := h.frameMax_le
  transfer := idBytes o.id
  pass := o.pass

/-- Inside the file a send is in the block after those it hashed. -/
theorem Sound.inside (h : o.Sound sha file) (hlt : o.nextOffset < file.length) :
    blockBytes * o.hashes.length ≤ o.nextOffset ∧
      o.nextOffset < blockEnd file.length o.hashes.length ∧
      o.nextOffset / blockBytes = o.hashes.length := by
  rcases h.place with ⟨hlo, hhi⟩ | ⟨hend, -⟩
  · exact ⟨hlo, hhi, offset_div hlo hhi⟩
  · omega

/-- What the hasher of the next frame was fed. -/
theorem Sound.hasher (h : o.Sound sha file) (hlt : o.nextOffset < file.length) :
    (if o.nextOffset % blockBytes = 0 then some [] else o.hasher)
      = some (slice file (blockBytes * o.hashes.length)
        (o.nextOffset - blockBytes * o.hashes.length)) := by
  obtain ⟨hlo, -, hdiv⟩ := h.inside hlt
  have hmod := Nat.div_add_mod o.nextOffset blockBytes
  rw [hdiv] at hmod
  split
  · rename_i hzero
    have hfrom : o.nextOffset - blockBytes * o.hashes.length = 0 := by omega
    rw [hfrom]
    simp [slice]
  · exact h.fed (by omega) hlt

/-- At the end of the file a send has all its hashes. -/
theorem Sound.atEnd (h : o.Sound sha file) (hend : o.nextOffset = file.length) :
    o.hashes = blockHashes sha file (blocksFor file.length) := by
  have hcount : o.hashes.length = blocksFor file.length := by
    rcases h.place with ⟨-, hhi⟩ | ⟨-, hcount⟩
    · have hle : blockEnd file.length o.hashes.length ≤ file.length := min_le_right _ _
      omega
    · exact hcount
  rw [h.hashes, hcount]

/-- A frame in the middle of a block: the hasher was fed it too. -/
theorem Sound.middle (h : o.Sound sha file) {length : Nat}
    (hend : o.nextOffset + length < blockEnd file.length o.hashes.length)
    (hlt : o.nextOffset < file.length) :
    Sound sha file { o with
      hasher := some (slice file (blockBytes * o.hashes.length)
        (o.nextOffset + length - blockBytes * o.hashes.length))
      nextOffset := o.nextOffset + length } := by
  obtain ⟨hlo, -, -⟩ := h.inside hlt
  exact
    { h with
      place := Or.inl ⟨Nat.le_add_right_of_le hlo, hend⟩
      fed := fun _ _ => rfl }

/-- A frame that ends a block: it is hashed. -/
theorem Sound.last (h : o.Sound sha file) (hlt : o.nextOffset < file.length) :
    Sound sha file { o with
      hasher := none
      hashes := o.hashes ++ [sha (blockOf file file.length o.hashes.length)]
      nextOffset := blockEnd file.length o.hashes.length } := by
  obtain ⟨hlo, -, -⟩ := h.inside hlt
  have hin : blockBytes * o.hashes.length < file.length := by omega
  have hmore : o.hashes.length + 1 ≤ blocksFor file.length := by
    by_contra hnone
    have heq : o.hashes.length = blocksFor file.length := by
      have := h.place.le.2
      omega
    have hstart := blockStart_blocksFor file.length
    have hmul := blockStart_le_mul file.length (blocksFor file.length)
    rw [heq] at hin
    omega
  apply @sound_boundary sha file { o with
      hasher := none
      hashes := o.hashes ++ [sha (blockOf file file.length o.hashes.length)]
      nextOffset := blockEnd file.length o.hashes.length } (o.hashes.length + 1) h.total
  · rw [blockHashes_succ, ← h.hashes]
  · exact hmore
  · rfl
  · have := h.acked
    show o.acked ≤ o.hashes.length + 1
    omega
  · exact h.verify
  · exact h.room
  · exact h.frameMax_le

/-- The next frame of a sound send is the file's, and leaves it sound. -/
theorem Sound.nextFrame (h : o.Sound sha file) (hfile : file.length ≤ maxTransferBytes)
    (idBytes : String → Vector UInt8 16) (hlt : o.nextOffset < file.length) :
    ∃ o', o.nextFrame sha idBytes (Source.of file)
        = (.ok ((cut idBytes hfile h).frameAt sha o.nextOffset hlt).bytes, o') ∧
      o'.Sound sha file ∧
      o'.nextOffset = o.nextOffset + (cut idBytes hfile h).piece o.nextOffset ∧
      o'.frameMax = o.frameMax ∧ o'.pass = o.pass ∧ o'.id = o.id ∧
      (o'.nextOffset - 1) / blockBytes = o.hashes.length ∧
      o'.hashes.take o.hashes.length = o.hashes ∧ o'.acked = o.acked := by
  obtain ⟨hlo, hhi, hdiv⟩ := h.inside hlt
  have hpos := Cut.piece_pos (c := cut idBytes hfile h) hlt
  have hle := Cut.add_piece_le (c := cut idBytes hfile h) hlt
  have hstop : (cut idBytes hfile h).stop o.nextOffset = blockEnd file.length o.hashes.length := by
    rw [Cut.stop, hdiv]
    rfl
  have hcode : min ((o.nextOffset / blockBytes + 1) * blockBytes) o.total
      = (cut idBytes hfile h).stop o.nextOffset := by
    rw [h.total, Nat.mul_comm]
    rfl
  have hheader : ∀ fed, ({ o with hasher := fed } : Outgoing).nextHeader idBytes
      = ((cut idBytes hfile h).frameAt sha o.nextOffset hlt).header := by
    intro fed
    unfold nextHeader
    simp only [hcode]
    rfl
  have hread : (Source.of file).read o.nextOffset ((cut idBytes hfile h).piece o.nextOffset)
      = .ok (slice file o.nextOffset ((cut idBytes hfile h).piece o.nextOffset)) :=
    if_pos (Cut.add_piece_le_length (c := cut idBytes hfile h) hlt)
  have hstat : (if o.nextOffset % blockBytes = 0 then (Source.of file).stat else .ok ()) = .ok () := by
    split <;> rfl
  -- Whether the block is fresh or not, the hasher was fed what came before.
  have hfed : (if o.nextOffset % blockBytes = 0 then { o with hasher := some [] } else o)
      = { o with hasher := some (slice file (blockBytes * o.hashes.length)
          (o.nextOffset - blockBytes * o.hashes.length)) } := by
    have hhasher := h.hasher hlt
    split at hhasher
    · rename_i hfresh
      rw [if_pos hfresh, hhasher]
    · rename_i hfresh
      rw [if_neg hfresh, ← hhasher]
  have hmore : slice file (blockBytes * o.hashes.length) (o.nextOffset - blockBytes * o.hashes.length)
        ++ slice file o.nextOffset ((cut idBytes hfile h).piece o.nextOffset)
      = slice file (blockBytes * o.hashes.length)
        (o.nextOffset + (cut idBytes hfile h).piece o.nextOffset - blockBytes * o.hashes.length) := by
    have hsplit := Wire.slice_slice file (blockBytes * o.hashes.length)
      (o.nextOffset - blockBytes * o.hashes.length) ((cut idBytes hfile h).piece o.nextOffset)
    rw [show blockBytes * o.hashes.length + (o.nextOffset - blockBytes * o.hashes.length)
      = o.nextOffset by omega] at hsplit
    rw [← hsplit]
    congr 1
    omega
  have hpiece : min (payloadCapacity o.frameMax) ((cut idBytes hfile h).stop o.nextOffset
      - o.nextOffset) = (cut idBytes hfile h).piece o.nextOffset := rfl
  unfold Outgoing.nextFrame
  have hblock : slice file (blockBytes * o.hashes.length)
      (blockEnd file.length o.hashes.length - blockBytes * o.hashes.length)
        = blockOf file file.length o.hashes.length := by
    unfold slice blockOf
    rw [List.drop_take]
  simp only [hstat, hfed, hcode, hpiece, hread, hheader, hmore, Option.map_some, Option.getD_some]
  by_cases hlast : o.nextOffset + (cut idBytes hfile h).piece o.nextOffset
      = (cut idBytes hfile h).stop o.nextOffset
  · have hflag : (o.nextOffset + (cut idBytes hfile h).piece o.nextOffset
        == (cut idBytes hfile h).stop o.nextOffset) = true := beq_iff_eq.mpr hlast
    have hbytes : ((cut idBytes hfile h).frameAt sha o.nextOffset hlt).header.write
          ++ slice file o.nextOffset ((cut idBytes hfile h).piece o.nextOffset)
          ++ (sha (blockOf file file.length o.hashes.length)).toList
        = ((cut idBytes hfile h).frameAt sha o.nextOffset hlt).bytes := by
      have hframe := Cut.bytes_frameAt sha (c := cut idBytes hfile h) hlt
      rw [if_pos hflag] at hframe
      rw [List.append_assoc, ← hdiv]
      exact hframe.symm
    rw [if_pos hflag, hlast, hstop, hblock, hbytes]
    refine ⟨_, rfl, h.last hlt, rfl, rfl, rfl, rfl, ?_, List.take_left, rfl⟩
    have hlower : blockBytes * o.hashes.length ≤ blockEnd file.length o.hashes.length - 1 := by omega
    have hupper : blockEnd file.length o.hashes.length - 1 < blockEnd file.length o.hashes.length := by
      omega
    exact offset_div hlower hupper
  · have hflag : ¬(o.nextOffset + (cut idBytes hfile h).piece o.nextOffset
        == (cut idBytes hfile h).stop o.nextOffset) = true := fun hon => hlast (beq_iff_eq.mp hon)
    have hbytes : ((cut idBytes hfile h).frameAt sha o.nextOffset hlt).header.write
          ++ slice file o.nextOffset ((cut idBytes hfile h).piece o.nextOffset)
        = ((cut idBytes hfile h).frameAt sha o.nextOffset hlt).bytes := by
      have hframe := Cut.bytes_frameAt sha (c := cut idBytes hfile h) hlt
      rw [if_neg hflag, List.append_nil] at hframe
      exact hframe.symm
    rw [if_neg hflag, hbytes]
    have hbefore : o.nextOffset + (cut idBytes hfile h).piece o.nextOffset
        < blockEnd file.length o.hashes.length := hstop ▸ lt_of_le_of_ne hle hlast
    have hlower : blockBytes * o.hashes.length
        ≤ o.nextOffset + (cut idBytes hfile h).piece o.nextOffset - 1 := by omega
    have hupper : o.nextOffset + (cut idBytes hfile h).piece o.nextOffset - 1
        < blockEnd file.length o.hashes.length := by omega
    exact ⟨_, rfl, h.middle hbefore hlt, rfl, rfl, rfl, rfl, offset_div hlower hupper,
      List.take_length, rfl⟩

theorem cut_congr {h : o.Sound sha file} {h' : o'.Sound sha file}
    (hfile : file.length ≤ maxTransferBytes) (hmax : o'.frameMax = o.frameMax)
    (hpass : o'.pass = o.pass) (hid : o'.id = o.id) :
    cut idBytes hfile h' = cut idBytes hfile h := by
  unfold cut
  simp only [hmax, hpass, hid]

/-- Left alone, a sound send sends the rest of the file. -/
theorem Sound.sendFrames (hfile : file.length ≤ maxTransferBytes) (fuel : Nat) {o : Outgoing}
    (h : o.Sound sha file) (hfuel : file.length - o.nextOffset ≤ fuel) :
    (o.sendFrames sha idBytes (Source.of file) fuel).1
        = ((cut idBytes hfile h).framesFrom sha o.nextOffset).map Wire.Frame.bytes ∧
      (o.sendFrames sha idBytes (Source.of file) fuel).2.nextOffset = file.length ∧
      (o.sendFrames sha idBytes (Source.of file) fuel).2.hashes
        = blockHashes sha file (blocksFor file.length) := by
  -- On the fuel: a frame takes some of what is left.
  induction fuel generalizing o with
  | zero =>
    have hle := h.place.le.1
    have hend : o.nextOffset = file.length := by omega
    have hframes := Cut.framesFrom_end sha (c := cut idBytes hfile h)
    refine ⟨?_, hend, h.atEnd hend⟩
    rw [hend]
    show [] = List.map _ ((cut idBytes hfile h).framesFrom sha (cut idBytes hfile h).file.length)
    rw [hframes]
    rfl
  | succ fuel ih =>
    rcases Nat.lt_or_ge o.nextOffset file.length with hlt | hge
    · obtain ⟨o', hframe, hsound, hoffset, hmax, hpass, hid, -⟩ := h.nextFrame hfile idBytes hlt
      have hpos := Cut.piece_pos (c := cut idBytes hfile h) hlt
      obtain ⟨hframes, hend, hhashes⟩ := ih hsound (by omega)
      have htotal : o.nextOffset < o.total := h.total ▸ hlt
      unfold Outgoing.sendFrames
      rw [if_pos htotal, hframe]
      simp only
      refine ⟨?_, hend, hhashes⟩
      rw [hframes, cut_congr hfile hmax hpass hid (h := h), hoffset]
      exact (congrArg (List.map Wire.Frame.bytes)
        (Cut.framesFrom_of_lt sha (c := cut idBytes hfile h) hlt)).symm
    · have hend : o.nextOffset = file.length := le_antisymm h.place.le.1 hge
      have htotal : ¬o.nextOffset < o.total := by
        rw [h.total]
        omega
      have hframes := Cut.framesFrom_end sha (c := cut idBytes hfile h)
      unfold Outgoing.sendFrames
      rw [if_neg htotal]
      refine ⟨?_, hend, h.atEnd hend⟩
      show [] = List.map _ ((cut idBytes hfile h).framesFrom sha o.nextOffset)
      rw [hend]
      show [] = List.map _ ((cut idBytes hfile h).framesFrom sha (cut idBytes hfile h).file.length)
      rw [hframes]
      rfl

/-! ### Steps -/

theorem Sound.restartFrom (h : o.Sound sha file) {expect : Hash} {passOk passBad : UInt8}
    (heq : o.restartFrom sha blocks expect passOk passBad = .ok o') : o'.Sound sha file := by
  unfold Outgoing.restartFrom at heq
  split at heq
  · cases heq
  rename_i hin
  split at heq
  · cases heq
    exact h.beginAt (Nat.zero_le _) _
  split at heq
  · rename_i hheld
    cases heq
    apply h.beginAt
    split
    · exact hheld
    · exact Nat.zero_le _
  · rename_i hnone _
    cases heq
    unfold blocksTotal at hin
    rw [h.total] at hin
    refine { h with verify := ?_ }
    intro v hv
    cases hv
    exact ⟨rfl, Nat.pos_of_ne_zero hnone, not_lt.mp hin⟩

/-- A block of the file, as a prefix check reads it. -/
theorem read_block (file : Bytes) {i : Nat} (h : i < blocksFor file.length) :
    (Source.of file).read (i * blockBytes) (min blockBytes (file.length - i * blockBytes))
      = .ok (blockOf file file.length i) := by
  have hin := mul_lt_of_lt_blocksFor h
  have hmul : i * blockBytes = blockBytes * i := Nat.mul_comm ..
  have hsize : min blockBytes (file.length - i * blockBytes)
      = blockEnd file.length i - blockBytes * i := by
    rw [blockEnd, Nat.mul_succ, hmul]
    omega
  have hend : blockEnd file.length i ≤ file.length := min_le_right _ _
  have hstart : blockBytes * i ≤ blockEnd file.length i := le_of_lt (lt_blockEnd (le_refl _) hin)
  show (if _ then _ else _) = _
  rw [hsize, hmul, if_pos (by omega)]
  unfold slice blockOf
  rw [List.drop_take]

/-- The blocks read again are the file's: the send goes on after them. -/
theorem Sound.verified (h : o.Sound sha file) {count : Nat} (hcount : count ≤ blocksFor file.length)
    (pass : UInt8) :
    (({ o with hashes := blockHashes sha file count } : Outgoing).beginAt count pass).Sound sha file := by
  apply @sound_boundary sha file
    (({ o with hashes := blockHashes sha file count } : Outgoing).beginAt count pass) count h.total
  · show (blockHashes sha file count).take count = _
    exact take_blockHashes file (le_refl _)
  · exact hcount
  · show min (count * blockBytes) o.total = _
    rw [h.total, blockStart_eq]
  · exact le_refl count
  · intro v hv
    cases hv
  · exact h.room
  · exact h.frameMax_le

theorem Sound.verifying (h : o.Sound sha file) {v : Verify} {count : Nat} (hless : count < v.upto)
    (hupto : v.upto ≤ blocksFor file.length) :
    Sound sha file { o with verify := some { v with hashes := blockHashes sha file count } } := by
  refine { h with verify := ?_ }
  intro v' hv'
  rw [← Option.some.inj hv']
  show blockHashes sha file count = blockHashes sha file (blockHashes sha file count).length
    ∧ (blockHashes sha file count).length < v.upto ∧ _
  rw [length_blockHashes]
  exact ⟨rfl, hless, hupto⟩

theorem verifyStep_of_read {source : Source} {v : Verify} {block : Bytes}
    (hv : o.verify = some v)
    (hstat : (if v.hashes.length = 0 then source.stat else .ok ()) = .ok ())
    (hread : source.read (v.hashes.length * blockBytes)
      (min blockBytes (o.total - v.hashes.length * blockBytes)) = .ok block) :
    o.verifyStep sha source
      = if (v.hashes ++ [sha block]).length = v.upto then
          if hashOfHashes sha (v.hashes ++ [sha block]) = v.expect then
            .ok (({ o with hashes := v.hashes ++ [sha block] } : Outgoing).beginAt
              (v.hashes ++ [sha block]).length v.passOk)
          else .ok (o.beginAt 0 v.passBad)
        else .ok { o with verify := some { v with hashes := v.hashes ++ [sha block] } } := by
  unfold Outgoing.verifyStep
  simp only [hv, hstat, hread]

theorem Sound.verifyStep (h : o.Sound sha file) (heq : o.verifyStep sha (Source.of file) = .ok o') :
    o'.Sound sha file := by
  cases hv : o.verify with
  | none =>
    unfold Outgoing.verifyStep at heq
    rw [hv] at heq
    cases heq
    exact h
  | some v =>
    obtain ⟨hhashes, hless, hupto⟩ := h.verify v hv
    have hstat : (if v.hashes.length = 0 then (Source.of file).stat else .ok ()) = .ok () := by
      split <;> rfl
    have hnext : v.hashes ++ [sha (blockOf file file.length v.hashes.length)]
        = blockHashes sha file (v.hashes.length + 1) := by
      rw [blockHashes_succ, ← hhashes]
    have hread : (Source.of file).read (v.hashes.length * blockBytes)
        (min blockBytes (o.total - v.hashes.length * blockBytes))
          = .ok (blockOf file file.length v.hashes.length) := by
      have hin : v.hashes.length < blocksFor file.length := lt_of_lt_of_le hless hupto
      rw [h.total]
      exact read_block file hin
    rw [verifyStep_of_read hv hstat hread, hnext, length_blockHashes] at heq
    by_cases hdone : v.hashes.length + 1 = v.upto
    · rw [if_pos hdone] at heq
      by_cases hright : hashOfHashes sha (blockHashes sha file (v.hashes.length + 1)) = v.expect
      · rw [if_pos hright] at heq
        have hcount : v.hashes.length + 1 ≤ blocksFor file.length := by omega
        cases heq
        exact h.verified hcount v.passOk
      · rw [if_neg hright] at heq
        cases heq
        exact h.beginAt (Nat.zero_le _) v.passBad
    · rw [if_neg hdone] at heq
      have hmore : v.hashes.length + 1 < v.upto := by omega
      cases heq
      exact h.verifying hmore hupto

theorem Sound.fallBack (h : o.Sound sha file) {verified : Option Nat}
    (hverified : ∀ block, verified = some block → block ≤ o.hashes.length) :
    (o.fallBack verified).1.Sound sha file := by
  have hfrom : verified.getD o.acked ≤ o.hashes.length := by
    cases verified with
    | none => exact h.acked
    | some block => exact hverified block rfl
  unfold Outgoing.fallBack
  split
  · exact h
  · have hback := h.beginAt hfrom (nextPass o.pass)
    show (if _ then _ else _ : Outgoing).Sound sha file
    split
    · exact { hback with }
    · exact hback

theorem Sound.leaveLane (h : o.Sound sha file) {verified : Option Nat}
    (hverified : ∀ block, verified = some block → block ≤ o.hashes.length) :
    (o.leaveLane verified).1.Sound sha file := by
  have hoff : Sound sha file { o with lane := .off } := { h with }
  exact hoff.fallBack hverified

theorem Sound.releaseLane (h : o.Sound sha file) : o.releaseLane.1.Sound sha file := by
  have hoff : Sound sha file { o with lane := .off } := { h with }
  unfold Outgoing.releaseLane
  split
  · exact h
  · show (if _ then _ else _ : Outgoing × List Told).1.Sound sha file
    split
    · exact hoff.fallBack (fun block hblock => by cases hblock)
    · exact hoff

theorem Sound.onPosition (h : o.Sound sha file) (block : Nat) (pass : UInt8) :
    (o.onPosition block pass).Sound sha file := by
  unfold Outgoing.onPosition
  split
  · exact h
  split
  · exact h
  · rename_i hat
    have hclear : Sound sha file { o with laneAwait := none } := { h with }
    have hin : block ≤ o.hashes.length := not_lt.mp (fun hout => hat (Or.inr (Or.inr hout)))
    exact hclear.beginAt hin pass

theorem Sound.sized (h : o.Sound sha file) {m : Accept} (hm : m.admitted = true) :
    (o.sized m).Sound sha file := by
  refine { h with room := ?_, frameMax_le := min_le_left _ _ }
  show frameHeaderBytes + blockTrailerBytes < min frameBytesProven _
  cases hsize : m.maxFrameBytes with
  | none => decide
  | some size =>
    unfold Accept.admitted at hm
    simp only [hsize, Option.all_some, Bool.and_eq_true, decide_eq_true_eq] at hm
    exact lt_min (by decide) (by simpa using hm.1)

theorem Sound.takeLane (h : o.Sound sha file) (m : Accept) : (o.takeLane m).Sound sha file := by
  unfold Outgoing.takeLane
  by_cases hup : o.lane = .up
  · simp only [if_pos hup]
    split <;> exact { h with }
  · simp only [if_neg hup]
    split
    · exact { h with }
    · exact h

theorem Sound.onAccept (h : o.Sound sha file) {m : Accept} (hm : m.admitted = true)
    (heq : o.onAccept sha m = .ok o') : o'.Sound sha file := by
  have hsized := h.sized hm
  unfold Outgoing.onAccept at heq
  split at heq
  · cases heq
    exact h
  split at heq
  · rename_i blocks expect _ _
    cases hrestart : (o.sized m).restartFrom sha blocks expect o.pass (nextPass o.pass) with
    | error ending =>
      rw [hrestart] at heq
      cases heq
    | ok next =>
      rw [hrestart] at heq
      cases heq
      exact (hsized.restartFrom hrestart).takeLane m
  · cases heq
    exact hsized

theorem Sound.onBlockAck (h : o.Sound sha file) {block : Nat} {hash : Hash}
    (heq : o.onBlockAck block hash = .ok o') : o'.Sound sha file := by
  unfold Outgoing.onBlockAck at heq
  split at heq
  · cases heq
    exact h
  · rename_i ours hours
    have hin : block < o.hashes.length := (List.getElem?_eq_some_iff.mp hours).1
    have hcounted : Sound sha file { o with rewinds := o.rewinds + 1 } := { h with }
    split at heq
    · simp only at heq
      split at heq
      · cases heq
      · cases heq
        exact hcounted.rewindTo (le_of_lt hin) _
    · cases heq
      exact { h with acked := max_le h.acked hin }

theorem Sound.onBlockNack (h : o.Sound sha file) {block : Nat} {pass : UInt8} {reason : NackReason}
    {r : Outgoing × List Told} (heq : o.onBlockNack block pass reason = .ok r) :
    r.1.Sound sha file := by
  have hcounted : ∀ nacks, Sound sha file { o with laneNacks := nacks } := fun nacks => { h with }
  have hrewinds : Sound sha file { o with rewinds := o.rewinds + 1 } := { h with }
  unfold Outgoing.onBlockNack at heq
  split at heq
  · split at heq
    · cases heq
      exact h
    rename_i hin
    split at heq
    · cases heq
      refine h.leaveLane (fun b hb => ?_)
      cases hb
      omega
    · cases heq
      exact h.onPosition block pass
  split at heq
  · rename_i hlane
    simp only at heq
    split at heq
    · cases heq
      exact (hcounted 0).leaveLane (fun b hb => by cases hb)
    · cases heq
      exact (hcounted (o.laneNacks + 1)).rewindTo hlane.2 pass
  · simp only at heq
    split at heq
    · cases heq
    · rename_i hin
      have hat : block ≤ o.hashes.length := not_lt.mp (fun hout => hin (Or.inr hout))
      cases heq
      exact hrewinds.rewindTo hat pass

theorem Sound.onPeerPause (h : o.Sound sha file) (why : String) :
    (o.onPeerPause why).1.Sound sha file := by
  have hpaused : Sound sha file
      (if why ≠ reasonNoProgress then { o with peerPause := some why } else o) := by
    split
    · exact { h with }
    · exact h
  unfold Outgoing.onPeerPause
  simp only
  split
  · exact hpaused.releaseLane
  · exact hpaused

theorem Sound.onPeerResume (h : o.Sound sha file) {point : Option (Nat × Hash × UInt8)}
    (heq : o.onPeerResume sha point = .ok o') : o'.Sound sha file := by
  have hclear : Sound sha file { o with peerPause := none } := { h with }
  unfold Outgoing.onPeerResume at heq
  cases point with
  | none =>
    cases heq
    exact hclear
  | some p => exact hclear.restartFrom heq

theorem Sound.finishAcknowledged (h : o.Sound sha file) {source : Source}
    {r : Outgoing × List Told} (heq : o.finishAcknowledged sha source = .ok r) :
    r.1.Sound sha file := by
  unfold Outgoing.finishAcknowledged at heq
  split at heq
  · cases heq
    exact h
  split at heq
  · cases heq
  · cases heq
    exact { h with }

/-- The frame just built could not be sent: the send is at the start of its
block again. -/
theorem Sound.rollbackBlock (h : o.Sound sha file) (hlt : o.nextOffset < file.length)
    (hsound : o'.Sound sha file) (hblock : (o'.nextOffset - 1) / blockBytes = o.hashes.length)
    (hhashes : o'.hashes.take o.hashes.length = o.hashes) (hacked : o'.acked = o.acked) :
    o'.rollbackBlock.Sound sha file ∧
      o'.rollbackBlock.nextOffset = blockStart file.length o.hashes.length := by
  obtain ⟨hlo, -, -⟩ := h.inside hlt
  have hstart : (o'.nextOffset - 1) / blockBytes * blockBytes
      = blockStart file.length o.hashes.length := by
    rw [hblock, blockStart, Nat.mul_comm]
    omega
  refine ⟨@sound_boundary sha file o'.rollbackBlock o.hashes.length hsound.total ?_ h.place.le.2
    hstart ?_ hsound.verify hsound.room hsound.frameMax_le, hstart⟩
  · show o'.hashes.take ((o'.nextOffset - 1) / blockBytes) = _
    rw [hblock, hhashes]
    exact h.hashes
  · show o'.acked ≤ _
    rw [hacked]
    exact h.acked

theorem ok_of_toOption {ε α : Type} {x : Except ε α} {a : α} (h : x.toOption = some a) :
    x = .ok a := by
  cases x with
  | error e => cases h
  | ok b =>
    cases h
    rfl

theorem Sound.lt_of_canSend (h : o.Sound sha file) (hsend : o.canSend = true) :
    o.nextOffset < file.length := by
  unfold canSend at hsend
  simp only [Bool.and_eq_true, decide_eq_true_eq] at hsend
  rw [← h.total]
  exact hsend.1.2

/-- Every step of a send keeps it sound. -/
theorem Sound.step (h : o.Sound sha file) (hfile : file.length ≤ maxTransferBytes) {op : SendOp}
    (heq : o.step sha idBytes (Source.of file) op = some o') : o'.Sound sha file := by
  cases op with
  | offer way =>
    simp only [Outgoing.step] at heq
    split at heq
    · cases heq
      exact { h with }
    · cases heq
  | accept m =>
    simp only [Outgoing.step] at heq
    split at heq
    · rename_i hm
      exact h.onAccept hm (ok_of_toOption heq)
    · cases heq
  | pause why =>
    cases heq
    exact h.onPeerPause why
  | resume point => exact h.onPeerResume (ok_of_toOption heq)
  | ack block hash => exact h.onBlockAck (ok_of_toOption heq)
  | nack block pass reason =>
    obtain ⟨r, hr, rfl⟩ := Option.map_eq_some_iff.mp heq
    exact h.onBlockNack (ok_of_toOption hr)
  | frame =>
    simp only [Outgoing.step] at heq
    split at heq
    · rename_i hsend
      obtain ⟨next, hframe, hsound, -⟩ := h.nextFrame hfile idBytes (h.lt_of_canSend hsend)
      rw [hframe] at heq
      cases heq
      exact hsound
    · cases heq
  | unsent =>
    simp only [Outgoing.step] at heq
    split at heq
    · rename_i hsend
      have hlt := h.lt_of_canSend hsend
      obtain ⟨next, hframe, hsound, -, -, -, -, hblock, hhashes, hacked⟩ :=
        h.nextFrame hfile idBytes hlt
      rw [hframe] at heq
      cases heq
      exact (h.rollbackBlock hlt hsound hblock hhashes hacked).1
    · cases heq
  | verify =>
    simp only [Outgoing.step] at heq
    split at heq
    · exact h.verifyStep (ok_of_toOption heq)
    · cases heq
  | finish =>
    obtain ⟨r, hr, rfl⟩ := Option.map_eq_some_iff.mp heq
    exact h.finishAcknowledged (ok_of_toOption hr)
  | requeue retryAt =>
    cases heq
    exact { h with }
  | dial | laneUp | laneOff =>
    simp only [Outgoing.step] at heq
    split at heq
    · cases heq
      exact { h with }
    · cases heq
  | laneLost =>
    simp only [Outgoing.step] at heq
    split at heq
    · cases heq
      exact h.leaveLane (fun block hblock => by cases hblock)
    · cases heq
  | awaitOver =>
    cases heq
    exact { h with }

/-! ### Runs -/

/-- A send that was just recorded. -/
def start (id token : String) (folder : Option FolderRef) (seq total : Nat) : Outgoing :=
  { id, token, total, folder, seq }

theorem sound_start (id token : String) (folder : Option FolderRef) (seq : Nat) :
    (start id token folder seq file.length).Sound sha file := by
  apply @sound_boundary sha file (start id token folder seq file.length) 0 rfl rfl
    (Nat.zero_le _)
  · show 0 = min (blockBytes * 0) file.length
    omega
  · exact le_refl 0
  · intro v hv
    cases hv
  · show frameHeaderBytes + blockTrailerBytes < frameBytesProven
    decide
  · exact le_refl frameBytesProven

/-- Every state of every run is sound. -/
theorem sound_of_run (hfile : file.length ≤ maxTransferBytes) {id token : String}
    {folder : Option FolderRef} {seq : Nat} {ops : List SendOp}
    (hrun : Lib.runFrom (Outgoing.step sha idBytes (Source.of file))
      (start id token folder seq file.length) ops = some o) : o.Sound sha file :=
  Lib.runFrom_invariant (I := Sound sha file) (fun _ _ _ h hstep => h.step hfile hstep)
    (sound_start id token folder seq) hrun

/-- From `offset` on, the frames that go out are those of the file, cut as
this send cuts it. -/
def Reproduces (sha : Bytes → Hash) (idBytes : String → Vector UInt8 16) (file : Bytes)
    (o : Outgoing) (offset : Nat) : Prop :=
  ∃ c : Cut, c.file = file ∧ c.frameMax = o.frameMax ∧ c.transfer = idBytes o.id ∧ c.pass = o.pass ∧
    (∀ fuel, file.length - offset ≤ fuel →
      (o.sendFrames sha idBytes (Source.of file) fuel).1
          = (c.framesFrom sha offset).map Wire.Frame.bytes ∧
        (o.sendFrames sha idBytes (Source.of file) fuel).2.nextOffset = file.length ∧
        (o.sendFrames sha idBytes (Source.of file) fuel).2.hashes
          = blockHashes sha file (blocksFor file.length)) ∧
    (∀ f ∈ c.framesFrom sha offset, Cut.FrameOf sha c f) ∧
    Cut.Contiguous file.length offset (c.framesFrom sha offset) ∧
    (c.framesFrom sha offset).flatMap (·.payload) = file.drop offset

theorem Sound.reproduces (h : o.Sound sha file) (hfile : file.length ≤ maxTransferBytes)
    {offset : Nat} (hoffset : o.nextOffset = offset) : o.Reproduces sha idBytes file offset := by
  subst hoffset
  have hspec := Cut.framesFrom_spec sha (c := cut idBytes hfile h) h.place.le.1
  exact ⟨cut idBytes hfile h, rfl, rfl, rfl, rfl, fun fuel hfuel => h.sendFrames hfile fuel hfuel,
    hspec⟩

/-- The frames of a send reproduce its file: from every state of every run,
after going back to any block it hashed or read again, and after the frame it
just built was taken back. -/
theorem send_reproduces (hfile : file.length ≤ maxTransferBytes) {id token : String}
    {folder : Option FolderRef} {seq : Nat} {ops : List SendOp}
    (hrun : Lib.runFrom (Outgoing.step sha idBytes (Source.of file))
      (start id token folder seq file.length) ops = some o) :
    o.Reproduces sha idBytes file o.nextOffset ∧
      (∀ blocks ≤ o.hashes.length, ∀ pass,
        (o.beginAt blocks pass).Reproduces sha idBytes file (blockStart file.length blocks) ∧
          (o.rewindTo blocks pass).Reproduces sha idBytes file (blockStart file.length blocks)) ∧
      (∀ blocks ≤ blocksFor file.length, ∀ pass,
        (({ o with hashes := blockHashes sha file blocks } : Outgoing).beginAt blocks
          pass).Reproduces sha idBytes file (blockStart file.length blocks)) ∧
      ∀ frame o', o.nextOffset < o.total →
        o.nextFrame sha idBytes (Source.of file) = (.ok frame, o') →
          o'.rollbackBlock.Reproduces sha idBytes file
            (blockStart file.length (o.nextOffset / blockBytes)) := by
  have h := sound_of_run hfile hrun
  have hstart : ∀ blocks, min (blocks * blockBytes) o.total = blockStart file.length blocks := by
    intro blocks
    rw [h.total, blockStart_eq]
  refine ⟨h.reproduces hfile rfl, ?_, ?_, ?_⟩
  · intro blocks hblocks pass
    exact ⟨(h.beginAt hblocks pass).reproduces hfile (hstart blocks),
      (h.rewindTo hblocks pass).reproduces hfile (hstart blocks)⟩
  · intro blocks hblocks pass
    exact (h.verified hblocks pass).reproduces hfile (hstart blocks)
  · intro frame o' hlt hframe
    rw [h.total] at hlt
    obtain ⟨-, -, hblock⟩ := h.inside hlt
    obtain ⟨next, hnext, hsound, -, -, -, -, hback, hhashes, hacked⟩ := h.nextFrame hfile idBytes hlt
    rw [hnext] at hframe
    cases hframe
    obtain ⟨hrolled, hoffset⟩ := h.rollbackBlock hlt hsound hback hhashes hacked
    rw [hblock]
    exact hrolled.reproduces hfile hoffset

/-! ### A lane that fails -/

/-- Every block hashes alike. -/
def constSha : Bytes → Hash := fun _ => Vector.replicate 32 7

/-- The send at the start of its file, with frames of 28 bytes of it. -/
def atStart (lane : LaneTx) (pass : UInt8) (laneAwait : Option UInt8) : Outgoing :=
  { start "id" "token" none 0 laneMinFileBytes with
    state := .sending, frameMax := 100, laneOffered := true, lane, pass, laneAwait }

/-- A lane comes up and carries a frame. Then it fails, the receiver says where it is, and the
data channel carries that frame again, under the next pass. -/
def laneOps : List SendOp :=
  [.offer true, .accept ⟨some 100, some 0, some (Vector.replicate 32 7), true⟩, .dial, .laneUp,
    .frame, .laneLost, .nack 0 1 .lane, .frame]

theorem atStart_frame {file : Bytes} (hlength : file.length = laneMinFileBytes) {lane : LaneTx}
    (hlane : lane ≠ .pending ∧ lane ≠ .dialing) (pass : UInt8) :
    (atStart lane pass none).step constSha (fun _ => Vector.replicate 16 1) (Source.of file) .frame
      = some { atStart lane pass none with nextOffset := 28, hasher := some (slice file 0 28) } := by
  have hsend : (atStart lane pass none).canSend = true := by
    simp [canSend, atStart, start, isHeld, hlane, laneMinFileBytes, unackedMax]
  simp only [Outgoing.step]
  rw [if_pos hsend]
  simp [nextFrame, atStart, start, Source.of, hlength, laneMinFileBytes, Wire.payloadCapacity,
    Wire.frameHeaderBytes, Wire.blockTrailerBytes, blockBytes]

/-- The offer is accepted, and the lane dialed comes up before the first frame. -/
theorem lane_up (file : Bytes) :
    Lib.runFrom (Outgoing.step constSha (fun _ => Vector.replicate 16 1) (Source.of file))
      (start "id" "token" none 0 laneMinFileBytes) (laneOps.take 4) = some (atStart .up 0 none) := by
  have hoffer : Outgoing.step constSha (fun _ => Vector.replicate 16 1) (Source.of file)
      (start "id" "token" none 0 laneMinFileBytes) (.offer true)
        = some { (start "id" "token" none 0 laneMinFileBytes) with
            state := .offered, laneOffered := true } := by
    simp [Outgoing.step, start, offerMessage, laneMinFileBytes]
  have haccept : Outgoing.step constSha (fun _ => Vector.replicate 16 1) (Source.of file)
      { (start "id" "token" none 0 laneMinFileBytes) with state := .offered, laneOffered := true }
      (.accept ⟨some 100, some 0, some (Vector.replicate 32 7), true⟩)
        = some (atStart .pending 0 none) := by
    simp [Outgoing.step, start, Accept.admitted, onAccept, sized, restartFrom, hashOfHashes,
      constSha, takeLane, beginAt, atStart, Except.map, Except.toOption, laneMinFileBytes,
      Wire.frameBytesProven, Wire.frameHeaderBytes, Wire.blockTrailerBytes]
  have hdial : Outgoing.step constSha (fun _ => Vector.replicate 16 1) (Source.of file)
      (atStart .pending 0 none) .dial = some (atStart .dialing 0 none) := by
    simp [Outgoing.step, atStart, start]
  have hcome : Outgoing.step constSha (fun _ => Vector.replicate 16 1) (Source.of file)
      (atStart .dialing 0 none) .laneUp = some (atStart .up 0 none) := by
    simp [Outgoing.step, atStart, start]
  simp only [laneOps, List.take_succ_cons, List.take_zero, Lib.runFrom, hoffer, haccept, hdial,
    hcome, Option.bind_some]

theorem lane_lost (file : Bytes) :
    Outgoing.step constSha (fun _ => Vector.replicate 16 1) (Source.of file)
      { atStart .up 0 none with nextOffset := 28, hasher := some (slice file 0 28) } .laneLost
        = some (atStart .off 1 (some 1)) := by
  simp [Outgoing.step, leaveLane, fallBack, beginAt, atStart, start, nextPass]

theorem lane_run {file : Bytes} (hlength : file.length = laneMinFileBytes) :
    Lib.runFrom (Outgoing.step constSha (fun _ => Vector.replicate 16 1) (Source.of file))
        (start "id" "token" none 0 laneMinFileBytes) laneOps
      = some { atStart .off 1 none with nextOffset := 28, hasher := some (slice file 0 28) } := by
  have hsays : Outgoing.step constSha (fun _ => Vector.replicate 16 1) (Source.of file)
      (atStart .off 1 (some 1)) (.nack 0 1 .lane) = some (atStart .off 1 none) := by
    simp [Outgoing.step, onBlockNack, onLane, onPosition, beginAt, atStart, start, Except.toOption]
  show Lib.runFrom _ _ (laneOps.take 4 ++ [.frame, .laneLost, .nack 0 1 .lane, .frame]) = _
  rw [Lib.runFrom_append, lane_up, Option.bind_some, Lib.runFrom,
    atStart_frame hlength ⟨by decide, by decide⟩, Option.bind_some, Lib.runFrom, lane_lost,
    Option.bind_some, Lib.runFrom, hsays, Option.bind_some, Lib.runFrom,
    atStart_frame hlength ⟨by decide, by decide⟩, Option.bind_some]
  rfl

/-- From there the frames of 28 bytes are those of a file of eight blocks; and after the first
block was read again they are those of the other seven. -/
theorem send_reproduces_lane :
    let file : Bytes := List.replicate laneMinFileBytes 0
    ∃ o, Lib.runFrom (Outgoing.step constSha (fun _ => Vector.replicate 16 1) (Source.of file))
        (start "id" "token" none 0 file.length) laneOps = some o ∧ o.pass = 1 ∧
      o.Reproduces constSha (fun _ => Vector.replicate 16 1) file 28 ∧
      (({ o with hashes := blockHashes constSha file 1 } : Outgoing).beginAt 1 5).Reproduces constSha
        (fun _ => Vector.replicate 16 1) file (blockStart file.length 1) := by
  intro file
  have hlength : file.length = laneMinFileBytes := List.length_replicate
  have hfile : file.length ≤ maxTransferBytes := by
    rw [hlength]
    decide
  have hrun := lane_run hlength
  rw [← hlength] at hrun
  have hblock : 1 ≤ blocksFor file.length := by
    rw [hlength]
    simp [blocksFor, laneMinFileBytes, blockBytes]
  obtain ⟨hhere, -, hagain, -⟩ := send_reproduces hfile hrun
  exact ⟨_, hrun, rfl, hhere, hagain 1 hblock 5⟩

end Outgoing

end DeskLink.Transfer
