import DeskLink.Proofs.Transfer.Store

/-!
# `DeskLink.Proofs.Transfer.Receive`: the receiving engine keeps its word

`Kept m d`: every open transfer of `m` is in step with its file, and every
record is honest. A restart leaves the record with hashes of blocks that
are written again, so this takes frames that agree with the record
(`Agrees`).

Each event is one of a few kinds: the open transfer changes what it is up
to (`ran_update`), its record is saved (`Ran.record`), it closes
(`ran_close`), or a new one is opened (`beginIncoming_ran`). For each,
`Ran` says that `Kept` holds after it, and that the disk is `Safe` after
each of its writes. So a record that is saved only in part does no harm.
-/

set_option autoImplicit false

namespace DeskLink.Transfer

variable (sha : Bytes → Hash)

structure Kept (m : KeyMap Incoming) (d : Disk) : Prop where
  linked : Linked m d
  sound : ∀ (k : String) (x : Incoming), m[k]? = some x → Sound sha x (d.content x.file)
  honest : ∀ k, HonestAt sha d k

/-- A disk from which every record can be resumed. -/
def Safe (d : Disk) : Prop := Named d ∧ ∀ k, HonestAt sha d k

/-- After the writes `ops` the transfers `m` are kept. -/
structure Ran (d : Disk) (ops : List DiskOp) (m : KeyMap Incoming) : Prop where
  kept : Kept sha m (Lib.applyAll Disk.after d ops)
  along : Lib.AllAlong Disk.after (Safe sha) d ops

variable {sha} {m m' : KeyMap Incoming} {d : Disk} {k : String} {x y : Incoming} {ops : List DiskOp}
variable {f : Frame} {file : Nat} {io : Io} {r : Incoming.Result}

theorem Kept.safe (h : Kept sha m d) : Safe sha d := ⟨h.linked.toNamed, h.honest⟩

/-- Writes that keep the open transfers as they are. -/
theorem ran_of_along (h : Lib.AllAlong Disk.after (Kept sha m) d ops) : Ran sha d ops m :=
  ⟨h.last, h.imp (fun _ => Kept.safe)⟩

/-! ### Writes one after the other -/

theorem Kept.ran (h : Kept sha m d) : Ran sha d [] m := ran_of_along h

theorem Ran.append {rest : List DiskOp} (h : Ran sha d ops m)
    (h' : Ran sha (Lib.applyAll Disk.after d ops) rest m') : Ran sha d (ops ++ rest) m' := by
  refine ⟨?_, Lib.allAlong_append.mpr ⟨h.along, h'.along⟩⟩
  rw [Lib.applyAll_append]
  exact h'.kept

/-- With a transfer less open, what was kept is kept. -/
theorem Ran.erase (h : Ran sha d ops m) (k : String) : Ran sha d ops (m.erase k) := by
  have hsub : ∀ (j : String) (z : Incoming), (m.erase k)[j]? = some z → m[j]? = some z := by
    intro j z hz
    rw [getElem?_keyErase] at hz
    split at hz
    · cases hz
    · exact hz
  exact ⟨⟨h.kept.linked.sub hsub, fun j z hz => h.kept.sound j z (hsub j z hz), h.kept.honest⟩,
    h.along⟩

/-! ### Writes about one open transfer -/

/-- An open file is not under another name. -/
theorem Linked.part_ne (h : Linked m d) (hx : m[k]? = some x) {j : String} (hj : j ≠ k) :
    d.part j ≠ some x.file := fun hpart => hj (h.openName j k x hx hpart)

/-- The other records stay honest. -/
theorem Kept.others (h : Kept sha m d) (hx : m[k]? = some x) (hops : ∀ op ∈ ops, OpOn x.file k op)
    (hown : Lib.AllAlong Disk.after (HonestAt sha · k) d ops) :
    Lib.AllAlong Disk.after (Safe sha) d ops := by
  refine ((elsewhere_along hops).and hown).imp ?_
  rintro t ⟨helse, hk⟩
  refine ⟨helse.named h.linked.toNamed, ?_⟩
  intro j
  by_cases hj : j = k
  · exact hj ▸ hk
  · exact helse.honest hj (h.linked.part_ne hx hj) (h.honest j)

/-- The open transfer changes what it is up to. -/
theorem ran_update (h : Kept sha m d) (hx : m[k]? = some x) (hops : ∀ op ∈ ops, OpOn x.file k op)
    (hident : y.ident = x.ident) (hm : Updates m m' k y)
    (hsound : Sound sha y ((Lib.applyAll Disk.after d ops).content x.file))
    (hrecord : ∀ c, (Lib.applyAll Disk.after d ops).checkpoint k = some c → RecordOf y c)
    (hown : Lib.AllAlong Disk.after (HonestAt sha · k) d ops) : Ran sha d ops m' := by
  have helse : Elsewhere x.file k d (Lib.applyAll Disk.after d ops) := (elsewhere_along hops).last
  have halong := h.others hx hops hown
  refine ⟨⟨?_, ?_, halong.last.2⟩, halong⟩
  · refine helse.linked (h.linked.update hx hident hm) ?_
    intro z c hz hc
    rw [hm, if_pos rfl] at hz
    cases hz
    exact hrecord c hc
  · intro j z hz
    rw [hm] at hz
    split at hz
    · cases hz
      have hfile : y.file = x.file := congrArg Ident.file hident
      rw [hfile]
      exact hsound
    · rename_i hj
      have hne : z.file ≠ x.file := by
        intro heq
        exact hj (h.linked.openInj j k z x hz hx heq).symm
      rw [helse.content z.file hne]
      exact h.sound j z hz

/-- The open transfer closes, with an honest record. -/
theorem ran_close (h : Kept sha m d) (hx : m[k]? = some x) (hops : ∀ op ∈ ops, OpOn x.file k op)
    (hown : Lib.AllAlong Disk.after (HonestAt sha · k) d ops) : Ran sha d ops (m.erase k) := by
  have helse : Elsewhere x.file k d (Lib.applyAll Disk.after d ops) := (elsewhere_along hops).last
  have hsub : ∀ (j : String) (z : Incoming), (m.erase k)[j]? = some z → j ≠ k ∧ m[j]? = some z := by
    intro j z hz
    rw [getElem?_keyErase] at hz
    split at hz
    · cases hz
    · rename_i hj
      exact ⟨Ne.symm hj, hz⟩
  have halong := h.others hx hops hown
  refine ⟨⟨?_, ?_, halong.last.2⟩, halong⟩
  · refine helse.linked (h.linked.sub (fun j z hz => (hsub j z hz).2)) ?_
    intro z c hz
    exact absurd rfl (hsub k z hz).1
  · intro j z hz
    obtain ⟨hj, hz⟩ := hsub j z hz
    have hne : z.file ≠ x.file := fun heq => hj (h.linked.openInj j k z x hz hx heq)
    rw [helse.content z.file hne]
    exact h.sound j z hz

/-- Writes about an open transfer that leave its file alone. -/
theorem Kept.elsewhere (h : Kept sha m d) (hx : m[k]? = some x) {op : DiskOp}
    (hop : OpOn x.file k op) (hcontent : (d.after op).content x.file = d.content x.file)
    (hk : HonestAt sha (d.after op) k)
    (hrecord : ∀ c, (d.after op).checkpoint k = some c → RecordOf x c) :
    Kept sha m (d.after op) := by
  have helse := hop.elsewhere d
  refine ⟨helse.linked h.linked ?_, ?_, ?_⟩
  · intro z c hz hc
    obtain rfl := Option.some.inj (hx.symm.trans hz)
    exact hrecord c hc
  · intro j z hz
    have hsame : (d.after op).content z.file = d.content z.file := by
      by_cases hfile : z.file = x.file
      · rw [hfile]
        exact hcontent
      · exact helse.content z.file hfile
    rw [hsame]
    exact h.sound j z hz
  · intro j
    by_cases hj : j = k
    · exact hj ▸ hk
    · exact helse.honest hj (h.linked.part_ne hx hj) (h.honest j)

/-! ### The writes of one transfer -/

theorem fileWrites_opOn (file : Nat) (k : String) (ops : List (FileOp × List Hash)) :
    ∀ op ∈ Engine.fileWrites file ops, OpOn file k op := by
  intro op hop
  obtain ⟨⟨fop, hs⟩, -, rfl⟩ := List.mem_map.mp hop
  cases fop with
  | setLen n => exact .setLen n
  | writeAt offset bytes => exact .writeAt offset bytes

theorem removeReceive_opOn (file : Nat) (k : String) :
    ∀ op ∈ removeReceive k, OpOn file k op := by
  intro op hop
  simp only [removeReceive, List.mem_cons, List.not_mem_nil, or_false] at hop
  rcases hop with rfl | rfl | rfl
  · exact .removePart
  · exact .removeBlocks
  · exact .removeCheckpoint

/-- The writes to a file change nothing but the file. -/
theorem applyAll_fileWrites (d : Disk) (file : Nat) (ops : List (FileOp × List Hash)) :
    Lib.applyAll Disk.after d (Engine.fileWrites file ops)
      = { d with content := Function.update d.content file (fileAfter (d.content file) ops) } := by
  induction ops generalizing d with
  | nil => simp [Engine.fileWrites]
  | cons op ops ih =>
    obtain ⟨fop, hs⟩ := op
    cases fop with
    | setLen n =>
      show Lib.applyAll Disk.after (d.after (.setLen file n)) (Engine.fileWrites file ops) = _
      rw [ih]
      simp [Disk.after, FileOp.after]
    | writeAt offset bytes =>
      show Lib.applyAll Disk.after (d.after (.writeAt file offset bytes))
        (Engine.fileWrites file ops) = _
      rw [ih]
      simp [Disk.after, FileOp.after]

/-- Nothing is claimed of a file that is not there. -/
theorem honestAt_of_noPart (h : d.part k = none) : HonestAt sha d k := by
  intro c file _ hpart
  rw [h] at hpart
  cases hpart

theorem honestAt_of_noCheckpoint (h : d.checkpoint k = none) : HonestAt sha d k := by
  intro c file hc
  rw [h] at hc
  cases hc

/-- A cut leaves the record honest: the blocks it loses are not there. -/
theorem honestAt_setLen (h : HonestAt sha d k) {n : Nat} (hn : n ≤ (d.content file).length) :
    HonestAt sha (d.after (.setLen file n)) k := by
  intro c f hc hf i hash hi hin hhash hend
  by_cases hfile : f = file
  · subst hfile
    simp only [Disk.after, Function.update_self] at hend ⊢
    rw [setLength_of_le hn] at hend ⊢
    rw [List.length_take, le_min_iff] at hend
    rw [blockOf_take hend.1]
    exact h c f hc hf i hash hi hin hhash hend.2
  · simp only [Disk.after, Function.update_of_ne hfile] at hend ⊢
    exact h c f hc hf i hash hi hin hhash hend

/-- Removing a transfer's files, part first, leaves an honest record. -/
theorem honest_removeReceive (h : HonestAt sha d k) :
    Lib.AllAlong Disk.after (HonestAt sha · k) d (removeReceive k) := by
  have hgone : ∀ t : Disk, t.part k = none → HonestAt sha t k := fun t ht => honestAt_of_noPart ht
  refine ⟨h, hgone _ ?_, hgone _ ?_, hgone _ ?_⟩ <;> simp [Disk.after]

/-- The record of a transfer whose hashes its file backs. -/
theorem honestAt_backed {hashes : List Hash} {total : Nat}
    (hb : Backed sha total hashes (d.content file)) (hblocks : d.blocks k = some hashes)
    (hpart : ∀ f, d.part k = some f → f = file)
    (htotal : ∀ c, d.checkpoint k = some c → c.totalSize = total) : HonestAt sha d k := by
  intro c f hc hf i hash hi hin hhash hend
  obtain rfl := hpart f hf
  rw [hblocks, Option.getD_some] at hhash
  obtain ⟨hlt, rfl⟩ := List.getElem?_eq_some_iff.mp hhash
  rw [htotal c hc]
  exact hb.hash_eq i hlt

theorem Saved.made_prefix (saved : Saved) (writes : List DiskOp) : saved.made writes <+: writes := by
  cases saved with
  | whole => exact List.prefix_refl _
  | failed renames words => exact List.take_prefix _ _

/-- Saving the record of an open transfer, also between its two writes. -/
theorem kept_saveReceive (h : Kept sha m d) (hx : m[k]? = some x) (hident : y.ident = x.ident)
    (hhashes : y.hashes = x.hashes) :
    Lib.AllAlong Disk.after (Kept sha m) d (saveReceive y.record y.hashes) := by
  obtain rfl : y.id = k := (congrArg Ident.id hident).trans (h.linked.id_eq k x hx)
  have hbacked : Backed sha x.total y.hashes (d.content x.file) := hhashes ▸ (h.sound _ x hx).backed
  have hrecord : ∀ c, d.checkpoint y.id = some c → RecordOf x c :=
    fun c hc => h.linked.record y.id x c hx hc
  have hnew : RecordOf x y.record := RecordOf.congr ⟨rfl, rfl, rfl, rfl⟩ hident.symm
  have hblocks : Kept sha m (d.after (.putBlocks y.id y.hashes)) := by
    refine h.elsewhere hx (.putBlocks _) rfl ?_ hrecord
    refine honestAt_backed hbacked ?_ (fun f hf => h.linked.ownFile y.id x f hx hf)
      (fun c hc => (hrecord c hc).totalSize)
    exact Function.update_self ..
  have hput : ∀ c, Function.update d.checkpoint y.id (some y.record) y.id = some c →
      RecordOf x c := by
    intro c hc
    rw [Function.update_self, Option.some.injEq] at hc
    exact hc ▸ hnew
  refine ⟨h, hblocks, hblocks.elsewhere hx (.putCheckpoint _) rfl ?_ hput⟩
  refine honestAt_backed hbacked ?_ (fun f hf => h.linked.ownFile y.id x f hx hf)
    (fun c hc => (hput c hc).totalSize)
  exact Function.update_self ..

/-- The record of an open transfer is saved, or as much of it as goes
through. -/
theorem Ran.record (h : Ran sha d ops m) (hx : m[k]? = some x) (hident : y.ident = x.ident)
    (hhashes : y.hashes = x.hashes) (saved : Saved) :
    Ran sha d (ops ++ y.checkpointWrites saved) m :=
  h.append (ran_of_along (Lib.AllAlong.of_prefix (kept_saveReceive h.kept hx hident hhashes)
    (saved.made_prefix _)))

/-! ### Frames and the record -/

/-- The block a frame completes when it is taken, and the bytes of it. -/
def Incoming.completes (x : Incoming) (io : Io) (f : Frame) : Option (Nat × Bytes) :=
  let ends (y : Incoming) :=
    if f.header.offset = y.nextOffset ∧ f.header.lastOfBlock = true ∧ io.write = .whole then
      some (y.verified, y.hasher.getD [] ++ f.payload)
    else none
  if !f.header.check x.total || x.paused = some .storage then none
  else
    match x.startOf f.header with
    | .dropped => none
    | .follow y => ends y
    | .restart block => if io.setLen then ends (x.restartAt block f.header.pass) else none

/-- A block the record on the disk still lists is completed with the bytes
its hash was made of. -/
def Agrees (sha : Bytes → Hash) (d : Disk) (x : Incoming) (io : Io) (f : Frame) : Prop :=
  ∀ block bytes, x.completes io f = some (block, bytes) → ∀ c hash,
    d.checkpoint x.id = some c → block < c.blocksDone →
    ((d.blocks x.id).getD [])[block]? = some hash → hash = sha bytes

instance (sha : Bytes → Hash) (d : Disk) (x : Incoming) (io : Io) (f : Frame) :
    Decidable (Agrees sha d x io f) :=
  decidable_of_iff (∀ done ∈ x.completes io f, ∀ c ∈ d.checkpoint x.id, done.1 < c.blocksDone →
      ∀ hash ∈ ((d.blocks x.id).getD [])[done.1]?, hash = sha done.2) (by
    constructor
    · intro h block bytes hdone c hash hc hlt hhash
      exact h (block, bytes) hdone c hc hlt hash hhash
    · intro h done hdone c hc hlt hash hhash
      exact h done.1 done.2 hdone c hash hc hlt hhash)

/-- What a write must be for the record to stay honest: short of the end of
the block, or what the record says of the block. -/
def WriteAgrees (sha : Bytes → Hash) (d : Disk) (k : String) (x : Incoming) (f : Frame)
    (new : Bytes) : Prop :=
  new.length < f.payload.length ∨ (new = f.payload ∧ (f.header.lastOfBlock = true →
    ∀ c hash, d.checkpoint k = some c → x.verified < c.blocksDone →
      ((d.blocks k).getD [])[x.verified]? = some hash →
      hash = sha (x.hasher.getD [] ++ f.payload)))

theorem honestAt_write {new : Bytes} (hs : Sound sha x (d.content x.file)) (hnext : Next x f)
    (h : HonestAt sha d k) (hpart : ∀ n, d.part k = some n → n = x.file)
    (htotal : ∀ c, d.checkpoint k = some c → c.totalSize = x.total)
    (hnew : WriteAgrees sha d k x f new) :
    HonestAt sha (d.after (.writeAt x.file x.nextOffset new)) k := by
  intro c n hc hn i hash hi hin hhash hend
  obtain rfl := hpart n hn
  have hc' : d.checkpoint k = some c := hc
  rw [htotal c hc'] at hin hend ⊢
  simp only [Disk.after, Function.update_self] at hend ⊢
  rw [overwrite_length hs.offset_hi, le_max_iff] at hend
  have hshort := hnext.lt_end hs
  have hfits := hnext.fits
  rcases Nat.lt_trichotomy i x.verified with hlt | heq | hgt
  · -- A verified block: it ends before the write.
    have hend' : blockEnd x.total i ≤ x.nextOffset :=
      (blockStart_mono x.total hlt).trans hs.offset_lo
    rw [blockOf_overwrite hs.offset_hi hend']
    have := h c x.file hc' hn i hash hi (htotal c hc' ▸ hin) hhash
      (htotal c hc' ▸ hend'.trans hs.offset_hi)
    rwa [htotal c hc'] at this
  · -- The block in progress: it is there only when the whole of it was written.
    subst heq
    rcases hend with hend | hend
    · omega
    · rcases hnew with hless | ⟨rfl, hagree⟩
      · omega
      · have hwhole : x.nextOffset + f.payload.length = blockEnd x.total x.verified := by omega
        rw [hagree (hnext.last.mpr hwhole) c hash hc' hi hhash, hs.fed_overwrite hnext, hwhole]
        rfl
  · -- A later block is not there.
    have hlater := blockEnd_lt hgt hin
    have hnewlen : new.length ≤ f.payload.length := by
      rcases hnew with hless | ⟨rfl, -⟩
      · exact hless.le
      · exact le_refl _
    omega

/-- The writes of a frame leave the record honest at each point. -/
theorem Took.honest (hs : Sound sha x (d.content x.file)) (hcheck : f.header.check x.total = true)
    (htook : Took sha x f io r) (h : HonestAt sha d k) (hpart : ∀ n, d.part k = some n → n = x.file)
    (htotal : ∀ c, d.checkpoint k = some c → c.totalSize = x.total)
    (hagree : f.header.offset = x.nextOffset → io.write = .whole →
      WriteAgrees sha d k x f f.payload) :
    Lib.AllAlong Disk.after (HonestAt sha · k) d (Engine.fileWrites x.file r.ops) := by
  -- After the write, a cut to the verified blocks.
  have hcut : ∀ new, HonestAt sha (d.after (.writeAt x.file x.nextOffset new)) k →
      HonestAt sha ((d.after (.writeAt x.file x.nextOffset new)).after
        (.setLen x.file (blockStart x.total x.verified))) k := by
    intro new hw
    refine honestAt_setLen hw ?_
    simp only [Disk.after, Function.update_self]
    exact (hs.backed_overwrite new).holds
  cases htook with
  | nothing ending => exact h
  | full new r hoff hnew hr =>
    subst hr
    have hw := honestAt_write hs (hs.next hcheck hoff) h hpart htotal (Or.inl hnew)
    cases hset : io.pauseSetLen with
    | false => simpa [Engine.fileWrites, Incoming.pauseForStorage, hset] using ⟨h, hw⟩
    | true =>
      simpa [Engine.fileWrites, Incoming.pauseForStorage, hset] using ⟨h, hw, hcut new hw⟩
  | failed new ending hoff hnew =>
    exact ⟨h, honestAt_write hs (hs.next hcheck hoff) h hpart htotal (Or.inl hnew)⟩
  | refused y replies hoff hwhole hlast hident hhashes _ =>
    have hw := honestAt_write hs (hs.next hcheck hoff) h hpart htotal (hagree hoff hwhole)
    have hkeep : y.keepAt y.verified = blockStart x.total x.verified := by
      have hyt : y.total = x.total := congrArg Ident.total hident
      have hyv : y.verified = x.verified := congrArg List.length hhashes
      rw [Incoming.keepAt, min_self, hyt, hyv]
    refine ⟨h, hw, ?_⟩
    rw [hkeep]
    exact hcut _ hw
  | ended y ending hoff hwhole =>
    exact ⟨h, honestAt_write hs (hs.next hcheck hoff) h hpart htotal (hagree hoff hwhole)⟩
  | wrote hoff hwhole hlast =>
    exact ⟨h, honestAt_write hs (hs.next hcheck hoff) h hpart htotal (hagree hoff hwhole)⟩
  | verified hoff hwhole hlast =>
    exact ⟨h, honestAt_write hs (hs.next hcheck hoff) h hpart htotal (hagree hoff hwhole)⟩

/-- A frame that agrees with the record leaves it honest at each point. -/
theorem onFrame_honest (hs : Sound sha x (d.content x.file)) (h : HonestAt sha d x.id)
    (hpart : ∀ n, d.part x.id = some n → n = x.file)
    (htotal : ∀ c, d.checkpoint x.id = some c → c.totalSize = x.total)
    (hagree : Agrees sha d x io f) : Lib.AllAlong Disk.after (HonestAt sha · x.id) d
      (Engine.fileWrites x.file (x.onFrame sha io f).ops) := by
  generalize hr : x.onFrame sha io f = r
  have hcase : FrameCase sha x f io r := hr ▸ onFrame_cases x f io
  cases hcase with
  | nothing ending => exact h
  | followed y r hcheck hpaused hstart hy htook =>
    have hyfile : y.file = x.file := congrArg Ident.file hy.ident
    have hytotal : y.total = x.total := congrArg Ident.total hy.ident
    have hys : Sound sha y (d.content y.file) := by
      rw [hyfile]
      exact hs.congr hy
    rw [← hyfile]
    refine htook.honest hys (hytotal ▸ hcheck) h (hyfile ▸ hpart) (hytotal ▸ htotal) ?_
    intro hoffy hwhole
    refine Or.inr ⟨rfl, ?_⟩
    intro hlast c hash hc hlt hhash
    refine hagree y.verified _ ?_ c hash hc hlt hhash
    simp [Incoming.completes, hcheck, hpaused, hstart, hoffy, hlast, hwhole]
  | restarted block r hcheck hpaused hstart hcut htook =>
    have hle : x.keepAt block ≤ (d.content x.file).length :=
      (blockStart_mono x.total (min_le_right _ _)).trans hs.backed.holds
    have hcutAt : HonestAt sha (d.after (.setLen x.file (x.keepAt block))) x.id :=
      honestAt_setLen h hle
    have hrs : Sound sha (x.restartAt block f.header.pass)
        ((d.after (.setLen x.file (x.keepAt block))).content x.file) := by
      simp only [Disk.after, Function.update_self]
      exact restartAt_sound hs.backed block f.header.pass
    have hafter : Lib.AllAlong Disk.after (HonestAt sha · x.id)
        (d.after (.setLen x.file (x.keepAt block)))
        (Engine.fileWrites (x.restartAt block f.header.pass).file r.ops) := by
      refine htook.honest hrs hcheck hcutAt hpart htotal ?_
      intro hoffy hwhole
      refine Or.inr ⟨rfl, ?_⟩
      intro hlast c hash hc hlt hhash
      refine hagree (x.restartAt block f.header.pass).verified _ ?_ c hash hc hlt hhash
      simp [Incoming.completes, hcheck, hpaused, hstart, hcut, hoffy, hlast, hwhole]
    exact ⟨h, hafter⟩

/-! ### The events of an open transfer -/

/-- A method of an open transfer that leaves it in step. -/
theorem ran_settle (h : Kept sha m d) (hx : m[k]? = some x) (hident : r.incoming.ident = x.ident)
    (hsound : Sound sha r.incoming (fileAfter (d.content x.file) r.ops))
    (hown : Lib.AllAlong Disk.after (HonestAt sha · k) d (Engine.fileWrites x.file r.ops))
    (hm : Updates m m' k r.incoming) : Ran sha d
      (Engine.fileWrites x.file r.ops ++ (r.checkpoint.map r.incoming.checkpointWrites).getD [])
      m' := by
  have hran : Ran sha d (Engine.fileWrites x.file r.ops) m' := by
    refine ran_update h hx (fileWrites_opOn x.file k _) hident hm ?_ ?_ hown
    · rw [applyAll_fileWrites]
      simpa only [Function.update_self] using hsound
    · intro c hc
      rw [applyAll_fileWrites] at hc
      exact (h.linked.record k x c hx hc).congr hident
  cases r.checkpoint with
  | none => simpa using hran
  | some saved => exact hran.record ((hm k).trans (if_pos rfl)) rfl rfl saved

/-- A transfer ends, with its files. -/
theorem ran_end (h : Kept sha m d) (hx : m[k]? = some x) (fops : List (FileOp × List Hash))
    (hown : Lib.AllAlong Disk.after (HonestAt sha · k) d (Engine.fileWrites x.file fops)) :
    Ran sha d (Engine.fileWrites x.file fops ++ removeReceive k) (m.erase k) := by
  refine ran_close h hx ?_ (Lib.allAlong_append.mpr ⟨hown, honest_removeReceive hown.last⟩)
  intro op hop
  rcases List.mem_append.mp hop with hop | hop
  · exact fileWrites_opOn x.file k _ op hop
  · exact removeReceive_opOn x.file k op hop

/-- A transfer closes, and its record is saved; its partial file may be
gone. -/
theorem ran_checkpointed (h : Kept sha m d) (hx : m[k]? = some x) (gone : Bool) (saved : Saved) :
    Ran sha d ((if gone then [.removePart k] else []) ++ x.checkpointWrites saved) (m.erase k) := by
  have hpre : Ran sha d (if gone then [.removePart k] else []) m := by
    cases gone with
    | false => exact h.ran
    | true =>
      refine ran_of_along ⟨h, h.elsewhere hx .removePart rfl ?_ (fun c => h.linked.record k x c hx)⟩
      exact honestAt_of_noPart (Function.update_self ..)
  exact (hpre.record hx rfl rfl saved).erase k

end DeskLink.Transfer
