import DeskLink.Proofs.Transfer.File

/-!
# `DeskLink.Proofs.Transfer.Incoming`: the receiver stays in step with its file

`Sound` ties an open transfer to the bytes of its partial file: every hash
it holds is the hash of that block of the file, the hasher has been fed
the block in progress up to `nextOffset`, and the file reaches past the
verified blocks by less than a block.

* `takeFrame_cases` says once what the end of `on_frame` can do.
* `onFrame_sound`: a frame keeps `Sound`, whatever it carries and however
  the system answers.
* `onFrame_writes`: a frame writes only past the blocks verified when it
  writes, and those are among the blocks verified before it came.
-/

set_option autoImplicit false

namespace DeskLink.Transfer

variable (sha : Bytes → Hash)

/-- The hashes are those of the first blocks of `bytes`, all there. -/
structure Backed (total : Nat) (hashes : List Hash) (bytes : Bytes) : Prop where
  holds : blockStart total hashes.length ≤ bytes.length
  hash_eq : ∀ i (hi : i < hashes.length), hashes[i] = sha (blockOf bytes total i)

/-- The receiver and the bytes of its partial file are in step. -/
structure Sound (x : Incoming) (bytes : Bytes) : Prop where
  backed : Backed sha x.total x.hashes bytes
  offset_lo : blockStart x.total x.verified ≤ x.nextOffset
  offset_hi : x.nextOffset ≤ bytes.length
  length_le : bytes.length ≤ x.total
  /-- Past the verified blocks there is less than a block. -/
  short : bytes.length ≤ blockStart x.total x.verified ∨
    bytes.length < blockEnd x.total x.verified
  fed : x.hasher.getD [] = (bytes.take x.nextOffset).drop (blockBytes * x.verified)

variable {sha} {bytes : Bytes} {x y : Incoming} {f : Frame} {io : Io} {r : Incoming.Result}
variable {i : Nat} {hash : Hash}

/-- A cut at a block keeps the blocks before it. -/
theorem Backed.take {total : Nat} {hashes : List Hash} (h : Backed sha total hashes bytes)
    {blocks : Nat} (hb : blocks ≤ hashes.length) :
    Backed sha total (hashes.take blocks) (setLength bytes (blockStart total blocks)) := by
  have hle : blockStart total blocks ≤ bytes.length := (blockStart_mono total hb).trans h.holds
  have hlen : (hashes.take blocks).length = blocks := by rw [List.length_take, min_eq_left hb]
  rw [setLength_of_le hle]
  refine ⟨?_, ?_⟩
  · rw [hlen, List.length_take, min_eq_left hle]
  · intro i hi
    rw [hlen] at hi
    have hend : blockEnd total i ≤ blockStart total blocks := blockStart_mono total hi
    rw [blockOf_take hend, List.getElem_take]
    exact h.hash_eq i (by omega)

/-- Nothing of the file past the verified blocks, and no block begun. -/
theorem sound_at_boundary (h : Backed sha x.total x.hashes bytes)
    (hoff : x.nextOffset = blockStart x.total x.verified) (hfed : x.hasher = none)
    (hlen : bytes.length ≤ x.total) (hshort : bytes.length ≤ blockStart x.total x.verified ∨
      bytes.length < blockEnd x.total x.verified) : Sound sha x bytes where
  backed := h
  offset_lo := hoff.ge
  offset_hi := hoff ▸ h.holds
  length_le := hlen
  short := hshort
  fed := by
    rw [hfed, hoff]
    symm
    apply List.drop_eq_nil_of_le
    rw [List.length_take]
    exact (min_le_left _ _).trans (blockStart_le_mul _ _)

/-- `restart_at` leaves the receiver in step with the file it cut. -/
theorem restartAt_sound (h : Backed sha x.total x.hashes bytes) (blocks : Nat) (pass : UInt8) :
    Sound sha (x.restartAt blocks pass) (setLength bytes (x.keepAt blocks)) := by
  have hb : min blocks x.verified ≤ x.hashes.length := min_le_right _ _
  have hle : blockStart x.total (min blocks x.verified) ≤ bytes.length :=
    (blockStart_mono x.total hb).trans h.holds
  have hv : (x.restartAt blocks pass).verified = min blocks x.verified := by
    simp only [Incoming.verified, Incoming.restartAt, List.length_take]
    exact min_eq_left hb
  have hlen : (setLength bytes (x.keepAt blocks)).length = x.keepAt blocks := by
    rw [Incoming.keepAt, setLength_of_le hle, List.length_take, min_eq_left hle]
  refine sound_at_boundary (h.take hb) ?_ rfl ?_ (Or.inl ?_)
  · rw [hv]
    rfl
  · rw [hlen]
    exact blockStart_le_total _ _
  · rw [hlen, hv]
    exact le_refl _

/-! ### What never changes -/

/-- What a transfer is: no method changes it. -/
structure Ident where
  id : String
  deviceId : String
  filename : String
  total : Nat
  folder : Option FolderRef
  contentSha256 : Option String
  file : Nat

def Incoming.ident (x : Incoming) : Ident :=
  ⟨x.id, x.deviceId, x.filename, x.total, x.folder, x.contentSha256, x.file⟩

@[simp] theorem restartAt_ident (x : Incoming) (blocks : Nat) (pass : UInt8) :
    (x.restartAt blocks pass).ident = x.ident := rfl

/-- `y` is `x` but for flags that say nothing of the file. -/
structure FlagsOnly (y x : Incoming) : Prop where
  ident : y.ident = x.ident
  nextOffset : y.nextOffset = x.nextOffset
  hashes : y.hashes = x.hashes
  hasher : y.hasher = x.hasher

/-- A receiver that differs in its flags alone is as sound. -/
theorem Sound.congr (h : Sound sha x bytes) (hy : FlagsOnly y x) : Sound sha y bytes := by
  have htotal : y.total = x.total := congrArg Ident.total hy.ident
  have hv : y.verified = x.verified := congrArg List.length hy.hashes
  refine ⟨?_, ?_, ?_, ?_, ?_, ?_⟩
  · rw [htotal, hy.hashes]
    exact h.backed
  · rw [htotal, hv, hy.nextOffset]
    exact h.offset_lo
  · rw [hy.nextOffset]
    exact h.offset_hi
  · rw [htotal]
    exact h.length_le
  · rw [htotal, hv]
    exact h.short
  · rw [hy.hasher, hy.nextOffset, hv]
    exact h.fed

/-! ### The end of `on_frame` -/

/-- The receiver after the whole frame was written and fed. -/
def fedWith (x : Incoming) (f : Frame) : Incoming :=
  { x with
    hasher := some (x.hasher.getD [] ++ f.payload)
    nextOffset := x.nextOffset + f.header.length }

/-- What `takeFrame` can come to. A write is at `nextOffset`. -/
inductive Took (sha : Bytes → Hash) (x : Incoming) (f : Frame) (io : Io) :
    Incoming.Result → Prop
  /-- Dropped as a duplicate, or out of order. -/
  | nothing (ending : Option Ending) : Took sha x f io { incoming := x, ending := ending }
  /-- The disk is full; part of the payload landed. -/
  | full (bytes : Bytes) (r : Incoming.Result) : f.header.offset = x.nextOffset →
      bytes.length < f.payload.length → r = x.pauseForStorage io →
      Took sha x f io { r with ops := (.writeAt x.nextOffset bytes, x.hashes) :: r.ops }
  /-- The write failed; part of the payload landed. -/
  | failed (bytes : Bytes) (ending : Ending) : f.header.offset = x.nextOffset →
      bytes.length < f.payload.length →
      Took sha x f io
        { incoming := x, ops := [(.writeAt x.nextOffset bytes, x.hashes)], ending := some ending }
  /-- Written, and the transfer ends. -/
  | ended (y : Incoming) (ending : Ending) : f.header.offset = x.nextOffset →
      io.write = .whole →
      Took sha x f io
        { incoming := y
          ops := [(.writeAt x.nextOffset f.payload, x.hashes)]
          ending := some ending }
  /-- Written, inside a block. -/
  | wrote : f.header.offset = x.nextOffset → io.write = .whole → f.header.lastOfBlock = false →
      Took sha x f io
        { incoming := fedWith x f, ops := [(.writeAt x.nextOffset f.payload, x.hashes)] }
  /-- Written, and the block is verified. -/
  | verified : f.header.offset = x.nextOffset → io.write = .whole →
      f.header.lastOfBlock = true →
      Took sha x f io
        { incoming := { fedWith x f with
            hasher := none
            hashes := x.hashes ++ [sha (x.hasher.getD [] ++ f.payload)] }
          ops := [(.writeAt x.nextOffset f.payload, x.hashes)]
          replies := [.blockAck f.header.blockIndex (sha (x.hasher.getD [] ++ f.payload))] }
  /-- Written, and the block is refused. -/
  | refused (y : Incoming) (replies : List Reply) : f.header.offset = x.nextOffset →
      io.write = .whole → f.header.lastOfBlock = true → y.ident = x.ident → y.hashes = x.hashes →
      (∀ b h, Reply.blockAck b h ∉ replies) →
      Took sha x f io
        { incoming := y.restartAt y.verified (nextPass y.pass)
          ops := [(.writeAt x.nextOffset f.payload, x.hashes),
            (.setLen (y.keepAt y.verified), x.hashes)]
          replies := replies }

theorem landedBytes_length {payload : Bytes} (hpos : 0 < payload.length) (landed : Nat) :
    (Incoming.landedBytes payload landed).length < payload.length := by
  simp only [Incoming.landedBytes, List.length_take]
  omega

/-- `finishBlock` on the receiver fed with the frame. -/
theorem finishBlock_took (x : Incoming) (f : Frame) (io : Io)
    (hoff : f.header.offset = x.nextOffset) (hwhole : io.write = .whole)
    (hlast : f.header.lastOfBlock = true) :
    Took sha x f io
      { (fedWith x f).finishBlock sha io f with
        ops := (.writeAt x.nextOffset f.payload, x.hashes)
          :: ((fedWith x f).finishBlock sha io f).ops } := by
  unfold Incoming.finishBlock fedWith
  simp only []
  split
  · exact .verified hoff hwhole hlast
  · split
    · exact .ended _ _ hoff hwhole
    · split
      · exact .ended _ _ hoff hwhole
      · exact .refused { fedWith x f with hasher := none, rewinds := x.rewinds + 1 }
          [.blockNack f.header.blockIndex (nextPass x.pass) .hashMismatch] hoff hwhole hlast
          rfl rfl
          (by simp)

theorem takeFrame_cases (x : Incoming) (f : Frame) (io : Io) (hpos : 0 < f.header.length) :
    Took sha x f io (x.takeFrame sha io f) := by
  have hpay : 0 < f.payload.length := f.length_eq ▸ hpos
  unfold Incoming.takeFrame
  simp only []
  split
  · exact .nothing none
  · split
    · exact .nothing _
    · have hoff : f.header.offset = x.nextOffset := by omega
      rw [hoff]
      split
      · exact .full _ _ hoff (landedBytes_length hpay _) rfl
      · exact .failed _ _ hoff (landedBytes_length hpay _)
      · rename_i hwhole
        split
        · exact .ended _ _ hoff hwhole
        · split
          · rename_i hlast
            exact finishBlock_took x f io hoff hwhole hlast
          · rename_i hlast
            exact .wrote hoff hwhole (by simpa using hlast)

/-! ### A frame where the next one starts -/

theorem check_iff (h : FrameHeader) (total : Nat) :
    h.check total = true ↔
      h.offset + h.length < 2 ^ 64 ∧ h.length ≠ 0 ∧ h.offset < total ∧
      h.blockIndex = h.offset / blockBytes ∧
      h.offset + h.length ≤ blockEnd total h.blockIndex ∧
      (h.lastOfBlock = true ↔ h.offset + h.length = blockEnd total h.blockIndex) := by
  have hlast : (h.lastOfBlock == decide (h.offset + h.length = blockEnd total h.blockIndex)) = true ↔
      (h.lastOfBlock = true ↔ h.offset + h.length = blockEnd total h.blockIndex) := by
    rw [beq_iff_eq, Bool.eq_iff_iff, decide_eq_true_iff]
  simp only [FrameHeader.check, Bool.and_eq_true, decide_eq_true_iff, beq_iff_eq, hlast,
    and_assoc]

/-- A frame that fits the file and starts where the next one must: it is in
the block after the verified ones. -/
structure Next (x : Incoming) (f : Frame) : Prop where
  pos : 0 < f.payload.length
  start : blockStart x.total x.verified = blockBytes * x.verified
  index : f.header.blockIndex = x.verified
  fits : x.nextOffset + f.payload.length ≤ blockEnd x.total x.verified
  last : f.header.lastOfBlock = true ↔
    x.nextOffset + f.payload.length = blockEnd x.total x.verified

theorem Sound.next (h : Sound sha x bytes) (hcheck : f.header.check x.total = true)
    (hoff : f.header.offset = x.nextOffset) : Next x f := by
  obtain ⟨-, hlen, htotal, hindex, hfits, hlast⟩ := (check_iff _ _).mp hcheck
  rw [hoff] at htotal hindex hfits hlast
  have hstart := blockStart_eq_mul h.offset_lo htotal
  have hlo : blockBytes * x.verified ≤ x.nextOffset := hstart ▸ h.offset_lo
  have hhi : x.nextOffset < blockEnd x.total x.verified := by
    rcases h.short with hshort | hshort
    · have hle : x.nextOffset ≤ blockBytes * x.verified := by
        rw [← hstart]
        exact h.offset_hi.trans hshort
      exact lt_blockEnd hle htotal
    · exact lt_of_le_of_lt h.offset_hi hshort
  rw [offset_div hlo hhi] at hindex
  rw [hindex] at hfits hlast
  rw [← f.length_eq] at hfits hlast hlen
  exact ⟨Nat.pos_of_ne_zero hlen, hstart, hindex, hfits, hlast⟩

/-- A write at `nextOffset` keeps the verified blocks. -/
theorem Sound.backed_overwrite (h : Sound sha x bytes) (new : Bytes)
    : Backed sha x.total x.hashes (overwrite bytes x.nextOffset new) where
  holds := by
    rw [overwrite_length h.offset_hi]
    exact h.backed.holds.trans (le_max_left _ _)
  hash_eq i hi := by
    have hend : blockEnd x.total i ≤ x.nextOffset :=
      (blockStart_mono x.total hi).trans h.offset_lo
    rw [blockOf_overwrite h.offset_hi hend]
    exact h.backed.hash_eq i hi

/-- Before the end of its block the file is short of the block. -/
theorem Next.lt_end (hnext : Next x f) (h : Sound sha x bytes)
    : bytes.length < blockEnd x.total x.verified := by
  rcases h.short with hshort | hshort
  · have hlt := hnext.fits
    have hpos := hnext.pos
    have hlo := h.offset_lo
    omega
  · exact hshort

/-- After a write shorter than the rest of the block, with the receiver
back at the last verified block. -/
theorem Sound.backOff {new : Bytes} (h : Sound sha x bytes) (hnext : Next x f)
    (hnew : new.length < f.payload.length) (htotal : y.total = x.total)
    (hhashes : y.hashes = x.hashes) (hoff : y.nextOffset = blockStart x.total x.verified)
    (hfed : y.hasher = none) : Sound sha y (overwrite bytes x.nextOffset new) := by
  have hv : y.verified = x.verified := congrArg List.length hhashes
  have hlt : (overwrite bytes x.nextOffset new).length < blockEnd x.total x.verified := by
    rw [overwrite_length h.offset_hi]
    have hfits := hnext.fits
    exact max_lt (hnext.lt_end h) (by omega)
  refine sound_at_boundary ?_ ?_ hfed ?_ (Or.inr ?_)
  · rw [htotal, hhashes]
    exact h.backed_overwrite new
  · rw [hoff, htotal, hv]
  · rw [htotal]
    exact hlt.le.trans (blockStart_le_total _ _)
  · rw [htotal, hv]
    exact hlt

/-- After the whole frame was written, the hasher has been fed with it. -/
theorem Sound.fed_overwrite (h : Sound sha x bytes) (hnext : Next x f) :
    x.hasher.getD [] ++ f.payload =
      ((overwrite bytes x.nextOffset f.payload).take (x.nextOffset + f.payload.length)).drop
        (blockBytes * x.verified) := by
  have hlo : blockBytes * x.verified ≤ (bytes.take x.nextOffset).length := by
    rw [List.length_take, min_eq_left h.offset_hi, ← hnext.start]
    exact h.offset_lo
  rw [take_overwrite_end h.offset_hi, List.drop_append_of_le_length hlo, h.fed]

theorem Sound.wrote (h : Sound sha x bytes) (hnext : Next x f)
    (hlast : f.header.lastOfBlock = false) :
    Sound sha (fedWith x f) (overwrite bytes x.nextOffset f.payload) := by
  have hlt : x.nextOffset + f.payload.length < blockEnd x.total x.verified := by
    refine lt_of_le_of_ne hnext.fits (fun heq => ?_)
    rw [hnext.last.mpr heq] at hlast
    cases hlast
  have hlen : (overwrite bytes x.nextOffset f.payload).length < blockEnd x.total x.verified := by
    rw [overwrite_length h.offset_hi]
    exact max_lt (hnext.lt_end h) hlt
  exact {
    backed := h.backed_overwrite _
    offset_lo := h.offset_lo.trans (Nat.le_add_right _ _)
    offset_hi := by
      rw [overwrite_length h.offset_hi]
      exact (f.length_eq ▸ le_max_right _ _)
    length_le := hlen.le.trans (blockStart_le_total _ _)
    short := Or.inr hlen
    fed := by
      show x.hasher.getD [] ++ f.payload = _
      rw [h.fed_overwrite hnext, f.length_eq]
      rfl }

/-- The last frame of a block landed whole: the file holds the block that
was hashed. -/
theorem Sound.verified (h : Sound sha x bytes) (hnext : Next x f)
    (hlast : f.header.lastOfBlock = true) : Sound sha
      { fedWith x f with
        hasher := none
        hashes := x.hashes ++ [sha (x.hasher.getD [] ++ f.payload)] }
      (overwrite bytes x.nextOffset f.payload) := by
  have hend := hnext.last.mp hlast
  have hlen : (overwrite bytes x.nextOffset f.payload).length = blockEnd x.total x.verified := by
    rw [overwrite_length h.offset_hi, hend]
    exact max_eq_right (hnext.lt_end h).le
  generalize hhash : sha (x.hasher.getD [] ++ f.payload) = hash
  have hv : (x.hashes ++ [hash]).length = x.verified + 1 := by
    rw [List.length_append]
    rfl
  refine sound_at_boundary ⟨?_, ?_⟩ ?_ rfl ?_ (Or.inl ?_)
  · show blockStart x.total (x.hashes ++ [hash]).length ≤ _
    rw [hv, ← blockEnd_eq, hlen]
  · intro i hi
    show (x.hashes ++ [hash])[i] = _
    rcases Nat.lt_or_ge i x.hashes.length with hold | hnew
    · rw [List.getElem_append_left hold]
      exact (h.backed_overwrite _).hash_eq i hold
    · have hi' : i = x.verified := by
        have : i < x.verified + 1 := hv ▸ hi
        have : x.verified ≤ i := hnew
        omega
      subst hi'
      rw [List.getElem_append_right hnew]
      simp only [Incoming.verified, Nat.sub_self, List.getElem_cons_zero]
      rw [← hhash, h.fed_overwrite hnext, hend]
      rfl
  · show x.nextOffset + f.header.length = blockStart x.total (x.hashes ++ [hash]).length
    rw [hv, ← f.length_eq, hend]
    rfl
  · rw [hlen]
    exact blockStart_le_total _ _
  · show _ ≤ blockStart x.total (x.hashes ++ [hash]).length
    rw [hlen, hv]
    exact le_refl _

/-- The end of `on_frame` keeps the receiver in step. -/
theorem Took.sound (h : Sound sha x bytes) (hcheck : f.header.check x.total = true)
    (htook : Took sha x f io r) (hopen : r.ending = none)
    : Sound sha r.incoming (fileAfter bytes r.ops) := by
  cases htook with
  | nothing ending => exact h
  | full new r hoff hnew hr =>
    subst hr
    have hnext := h.next hcheck hoff
    have hback : Sound sha (x.pauseForStorage io).incoming (overwrite bytes x.nextOffset new) :=
      h.backOff hnext hnew rfl rfl rfl rfl
    cases hcut : io.pauseSetLen with
    | false =>
      simpa [Incoming.pauseForStorage, hcut, FileOp.after] using hback
    | true =>
      -- The cut goes to the end of the verified blocks.
      have hcutAt : Sound sha (x.pauseForStorage io).incoming
          (setLength (overwrite bytes x.nextOffset new) (blockStart x.total x.verified)) := by
        have hb := (h.backed_overwrite new).take (le_refl x.hashes.length)
        rw [List.take_length] at hb
        have hlen : (setLength (overwrite bytes x.nextOffset new)
            (blockStart x.total x.verified)).length = blockStart x.total x.verified := by
          have hle : blockStart x.total x.verified ≤ (overwrite bytes x.nextOffset new).length :=
            (h.backed_overwrite new).holds
          rw [setLength_of_le hle, List.length_take, min_eq_left hle]
        refine sound_at_boundary hb rfl rfl ?_ (Or.inl ?_)
        · rw [hlen]
          exact blockStart_le_total _ _
        · rw [hlen]
          exact le_refl _
      simpa [Incoming.pauseForStorage, hcut, FileOp.after] using hcutAt
  | failed new ending hoff hnew => cases hopen
  | ended y ending hoff hwhole => cases hopen
  | wrote hoff hwhole hlast => exact h.wrote (h.next hcheck hoff) hlast
  | verified hoff hwhole hlast => exact h.verified (h.next hcheck hoff) hlast
  | refused y replies hoff hwhole hlast hident hhashes _ =>
    have htotal : y.total = x.total := congrArg Ident.total hident
    have hb : Backed sha y.total y.hashes (overwrite bytes x.nextOffset f.payload) := by
      rw [htotal, hhashes]
      exact h.backed_overwrite _
    have hcut := restartAt_sound hb y.verified (nextPass y.pass)
    simp only [fileAfter_cons, fileAfter_nil, FileOp.after]
    exact hcut

theorem Took.ident (htook : Took sha x f io r) (hopen : r.ending = none)
    : r.incoming.ident = x.ident := by
  cases htook with
  | full new r hoff hnew hr =>
    subst hr
    rfl
  | failed new ending hoff hnew => cases hopen
  | ended y ending hoff hwhole => cases hopen
  | refused y replies hoff hwhole hlast hident hhashes _ => exact hident
  | _ => rfl

/-- Where an operation on the file begins. -/
def FileOp.start : FileOp → Nat
  | .setLen n => n
  | .writeAt offset _ => offset

/-- What the end of `on_frame` does to the file begins past the blocks
verified then. -/
theorem Took.writes (h : Sound sha x bytes) (htook : Took sha x f io r) :
    ∀ op ∈ r.ops, op.2 = x.hashes ∧ blockStart x.total x.verified ≤ op.1.start := by
  have hwrite : ∀ new : Bytes, (FileOp.writeAt x.nextOffset new, x.hashes).2 = x.hashes ∧
      blockStart x.total x.verified ≤ (FileOp.writeAt x.nextOffset new).start :=
    fun new => ⟨rfl, h.offset_lo⟩
  cases htook with
  | nothing ending => simp
  | full new r hoff hnew hr =>
    subst hr
    intro op hop
    rcases List.mem_cons.mp hop with rfl | hop
    · exact hwrite new
    · simp only [Incoming.pauseForStorage] at hop
      split at hop
      · rw [List.mem_singleton.mp hop]
        exact ⟨rfl, le_refl _⟩
      · cases hop
  | failed new ending hoff hnew =>
    intro op hop
    rw [List.mem_singleton.mp hop]
    exact hwrite new
  | refused y replies hoff hwhole hlast hident hhashes _ =>
    intro op hop
    rcases List.mem_cons.mp hop with rfl | hop
    · exact hwrite f.payload
    · have htotal : y.total = x.total := congrArg Ident.total hident
      have hv : y.verified = x.verified := congrArg List.length hhashes
      rw [List.mem_singleton.mp hop]
      refine ⟨rfl, ?_⟩
      show _ ≤ y.keepAt y.verified
      rw [Incoming.keepAt, min_self, htotal, hv]
  | _ =>
    intro op hop
    rw [List.mem_singleton.mp hop]
    exact hwrite f.payload

theorem getElem?_of_prefix {α : Type} {l₁ l₂ : List α} (h : l₁ <+: l₂) {a : α}
    (hi : l₁[i]? = some a) : l₂[i]? = some a := by
  obtain ⟨hlt, rfl⟩ := List.getElem?_eq_some_iff.mp hi
  rw [h.getElem hlt, List.getElem?_eq_getElem]

/-- An acknowledgement carries the hash the receiver now holds. -/
theorem Took.acks (h : Sound sha x bytes) (hcheck : f.header.check x.total = true)
    (htook : Took sha x f io r) {b : Nat} (hack : Reply.blockAck b hash ∈ r.replies) :
    r.incoming.hashes[b]? = some hash := by
  cases htook with
  | full new r hoff hnew hr =>
    subst hr
    simp [Incoming.pauseForStorage] at hack
  | refused y replies hoff hwhole hlast hident hhashes hno => exact absurd hack (hno b hash)
  | verified hoff hwhole hlast =>
    have hindex := (h.next hcheck hoff).index
    simp only [List.mem_singleton, Reply.blockAck.injEq] at hack
    obtain ⟨rfl, rfl⟩ := hack
    rw [hindex]
    simp [Incoming.verified]
  | _ => cases hack

/-! ### A whole frame -/

/-- What `on_frame` does: nothing, or the end of `on_frame` from a receiver
that differs in its flags alone, or from one restarted at a block. -/
inductive FrameCase (sha : Bytes → Hash) (x : Incoming) (f : Frame) (io : Io) :
    Incoming.Result → Prop
  | nothing (ending : Option Ending) : FrameCase sha x f io { incoming := x, ending := ending }
  | followed (y : Incoming) (r : Incoming.Result) : f.header.check x.total = true →
      x.paused ≠ some .storage → x.startOf f.header = .follow y → FlagsOnly y x →
      Took sha y f io r → FrameCase sha x f io r
  | restarted (block : Nat) (r : Incoming.Result) : f.header.check x.total = true →
      x.paused ≠ some .storage → x.startOf f.header = .restart block → io.setLen = true →
      Took sha (x.restartAt block f.header.pass) f io r →
      FrameCase sha x f io
        { r with ops := (.setLen (x.keepAt block), x.hashes.take (min block x.verified)) :: r.ops }

/-- The stream is followed with the flags cleared, or as it is. -/
theorem startOf_follow {h : FrameHeader} (hstart : x.startOf h = .follow y) : FlagsOnly y x := by
  unfold Incoming.startOf at hstart
  split at hstart
  · split at hstart
    · cases hstart
    · split at hstart
      · cases hstart
      · split at hstart
        · cases hstart
        · rw [← Incoming.Start.follow.inj hstart]
          exact ⟨rfl, rfl, rfl, rfl⟩
  · split at hstart
    · split at hstart <;> cases hstart
    · rw [← Incoming.Start.follow.inj hstart]
      exact ⟨rfl, rfl, rfl, rfl⟩

theorem onFrame_cases (x : Incoming) (f : Frame) (io : Io) :
    FrameCase sha x f io (x.onFrame sha io f) := by
  unfold Incoming.onFrame
  split
  · exact .nothing none
  · rename_i hcheck
    have hcheck' : f.header.check x.total = true := by simpa using hcheck
    have hpos : 0 < f.header.length :=
      Nat.pos_of_ne_zero ((check_iff _ _).mp hcheck').2.1
    split
    · exact .nothing none
    · rename_i hpaused
      cases hstart : x.startOf f.header with
      | dropped => exact .nothing none
      | restart block =>
        simp only []
        split
        · exact .nothing _
        · rename_i hcut
          exact .restarted block _ hcheck' hpaused hstart (by simpa using hcut)
            (takeFrame_cases _ f io hpos)
      | follow y =>
        exact .followed y _ hcheck' hpaused hstart (startOf_follow hstart)
          (takeFrame_cases y f io hpos)

/-- A frame keeps the receiver in step with its file. -/
theorem onFrame_sound (h : Sound sha x bytes) (hopen : (x.onFrame sha io f).ending = none) :
    Sound sha (x.onFrame sha io f).incoming (fileAfter bytes (x.onFrame sha io f).ops) := by
  generalize hr : x.onFrame sha io f = r at hopen ⊢
  have hcase : FrameCase sha x f io r := hr ▸ onFrame_cases x f io
  cases hcase with
  | nothing ending => exact h
  | followed y r hcheck hpaused hstart hy htook =>
    have htotal : y.total = x.total := congrArg Ident.total hy.ident
    exact htook.sound (h.congr hy) (htotal ▸ hcheck) hopen
  | restarted block r hcheck hpaused hstart hcut htook =>
    have hsound := htook.sound (restartAt_sound h.backed block f.header.pass) hcheck hopen
    exact hsound

theorem onFrame_ident (hopen : (x.onFrame sha io f).ending = none) :
    (x.onFrame sha io f).incoming.ident = x.ident := by
  generalize hr : x.onFrame sha io f = r at hopen ⊢
  have hcase : FrameCase sha x f io r := hr ▸ onFrame_cases x f io
  cases hcase with
  | nothing ending => rfl
  | followed y r hcheck hpaused hstart hy htook =>
    rw [htook.ident hopen, hy.ident]
  | restarted block r hcheck hpaused hstart hcut htook =>
    exact htook.ident hopen

/-- The hashes held when a frame writes: those held before it came, or
those a `restart_at` left. -/
def HeldAt (x : Incoming) (h : FrameHeader) (hashes : List Hash) : Prop :=
  hashes = x.hashes ∨
    ∃ block, x.startOf h = .restart block ∧ hashes = (x.restartAt block h.pass).hashes

/-- What a frame does to the file begins past the blocks verified when it
does it. -/
theorem onFrame_writes (h : Sound sha x bytes) (f : Frame) (io : Io)
    : ∀ op ∈ (x.onFrame sha io f).ops,
      HeldAt x f.header op.2 ∧ blockStart x.total op.2.length ≤ op.1.start := by
  generalize hr : x.onFrame sha io f = r
  have hcase : FrameCase sha x f io r := hr ▸ onFrame_cases x f io
  cases hcase with
  | nothing ending => simp
  | followed y r hcheck hpaused hstart hy htook =>
    intro op hop
    obtain ⟨hheld, hstart⟩ := htook.writes (h.congr hy) op hop
    have htotal : y.total = x.total := congrArg Ident.total hy.ident
    rw [hheld, hy.hashes]
    rw [Incoming.verified, htotal, hy.hashes] at hstart
    exact ⟨Or.inl rfl, hstart⟩
  | restarted block r hcheck hpaused hstart hcut htook =>
    have hlen : (x.hashes.take (min block x.verified)).length = min block x.verified := by
      rw [List.length_take]
      exact min_eq_left (min_le_right _ _)
    intro op hop
    rcases List.mem_cons.mp hop with rfl | hop
    · refine ⟨Or.inr ⟨block, hstart, rfl⟩, ?_⟩
      show blockStart x.total (x.hashes.take (min block x.verified)).length ≤ x.keepAt block
      rw [hlen]
      exact le_refl _
    · obtain ⟨hheld, hlo⟩ := htook.writes
        (restartAt_sound h.backed block f.header.pass) op hop
      rw [hheld]
      exact ⟨Or.inr ⟨block, hstart, rfl⟩, hlo⟩

/-- An acknowledgement carries the hash the receiver now holds. -/
theorem onFrame_acks (h : Sound sha x bytes) {b : Nat}
    (hack : Reply.blockAck b hash ∈ (x.onFrame sha io f).replies) :
    (x.onFrame sha io f).incoming.hashes[b]? = some hash := by
  generalize hr : x.onFrame sha io f = r at hack ⊢
  have hcase : FrameCase sha x f io r := hr ▸ onFrame_cases x f io
  cases hcase with
  | nothing ending => cases hack
  | followed y r hcheck hpaused hstart hy htook =>
    have htotal : y.total = x.total := congrArg Ident.total hy.ident
    exact htook.acks (h.congr hy) (htotal ▸ hcheck) hack
  | restarted block r hcheck hpaused hstart hcut htook =>
    exact htook.acks (restartAt_sound h.backed block f.header.pass) hcheck hack

/-- A hash held after a frame was held before it or is acknowledged. -/
theorem Took.hashes (h : Sound sha x bytes) (hcheck : f.header.check x.total = true)
    (htook : Took sha x f io r) (hopen : r.ending = none)
    (hhash : r.incoming.hashes[i]? = some hash) :
    x.hashes[i]? = some hash ∨ Reply.blockAck i hash ∈ r.replies := by
  cases htook with
  | nothing ending => exact Or.inl hhash
  | full new r hoff hnew hr =>
    subst hr
    exact Or.inl hhash
  | failed new ending hoff hnew => cases hopen
  | ended y ending hoff hwhole => cases hopen
  | wrote hoff hwhole hlast => exact Or.inl hhash
  | verified hoff hwhole hlast =>
    have hindex := (h.next hcheck hoff).index
    simp only [List.getElem?_append] at hhash
    split at hhash
    · exact Or.inl hhash
    · rename_i hi
      obtain ⟨hlt, rfl⟩ := List.getElem?_eq_some_iff.mp hhash
      have heq : i = f.header.blockIndex := by
        rw [hindex, Incoming.verified]
        simp only [List.length_singleton] at hlt
        omega
      right
      simp [heq]
  | refused y replies hoff hwhole hlast hident hhashes hno =>
    left
    simp only [Incoming.restartAt, hhashes] at hhash
    exact getElem?_of_prefix (List.take_prefix _ _) hhash

theorem onFrame_hashes (h : Sound sha x bytes) (hopen : (x.onFrame sha io f).ending = none)
    (hhash : (x.onFrame sha io f).incoming.hashes[i]? = some hash) :
    x.hashes[i]? = some hash ∨ Reply.blockAck i hash ∈ (x.onFrame sha io f).replies := by
  generalize hr : x.onFrame sha io f = r at hopen hhash ⊢
  have hcase : FrameCase sha x f io r := hr ▸ onFrame_cases x f io
  cases hcase with
  | nothing ending => exact Or.inl hhash
  | followed y r hcheck hpaused hstart hy htook =>
    have htotal : y.total = x.total := congrArg Ident.total hy.ident
    rw [← hy.hashes]
    exact htook.hashes (h.congr hy) (htotal ▸ hcheck) hopen hhash
  | restarted block r hcheck hpaused hstart hcut htook =>
    refine (htook.hashes (restartAt_sound h.backed block f.header.pass) hcheck hopen hhash).imp
      (fun hin => ?_) id
    exact getElem?_of_prefix (List.take_prefix _ _) hin

theorem restartAndResume_sound (h : Sound sha x bytes)
    (hopen : (x.restartAndResume sha io).ending = none) :
    Sound sha (x.restartAndResume sha io).incoming
      (fileAfter bytes (x.restartAndResume sha io).ops) := by
  unfold Incoming.restartAndResume at hopen ⊢
  split
  · rename_i hfail
    rw [if_pos hfail] at hopen
    cases hopen
  · exact (restartAt_sound h.backed x.verified (nextPass x.pass)).congr ⟨rfl, rfl, rfl, rfl⟩

end DeskLink.Transfer
