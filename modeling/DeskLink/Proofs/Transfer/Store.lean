import DeskLink.Proofs.Transfer.Incoming

/-!
# `DeskLink.Proofs.Transfer.Store`: records that tell the truth

`HonestAt d k`: every hash the record of `k` lists, for a block the
partial file of `k` holds, is the hash of that block. `Linked m d` ties
the open transfers `m` to the disk: no two names lead to one file, an open
file has no name but its own, and the record of an open transfer is of
that transfer.

* `Loaded.backed`: what `load_receive` returns of an honest record.
* `OpOn file k`: a write to `file` or to the record of `k`. Such writes
  leave every other record and file as they were (`Elsewhere`).
-/

set_option autoImplicit false

namespace DeskLink.Transfer

variable (sha : Bytes → Hash)

/-- The record of `k` lists the hashes of the blocks its file holds. -/
def HonestAt (d : Disk) (k : String) : Prop :=
  ∀ c file, d.checkpoint k = some c → d.part k = some file → ∀ i h, i < c.blocksDone →
    blockBytes * i < c.totalSize → ((d.blocks k).getD [])[i]? = some h →
    blockEnd c.totalSize i ≤ (d.content file).length →
    h = sha (blockOf (d.content file) c.totalSize i)

/-- The file of a folder, whatever its time. -/
def FolderRef.place (folder : FolderRef) : String × String := (folder.folder, folder.relpath)

/-- The record `c` is of the transfer `x`. -/
structure RecordOf (x : Incoming) (c : ReceiveCheckpoint) : Prop where
  deviceId : c.deviceId = x.deviceId
  totalSize : c.totalSize = x.total
  folder : c.folder.map FolderRef.place = x.folder.map FolderRef.place
  contentSha256 : c.contentSha256 = x.contentSha256

/-- The names on the disk lead to files of their own. -/
structure Named (d : Disk) : Prop where
  old : ∀ k file, d.part k = some file → file < d.nextFile
  inj : ∀ j k file, d.part j = some file → d.part k = some file → j = k

/-- The open transfers and the disk. -/
structure Linked (m : KeyMap Incoming) (d : Disk) : Prop extends Named d where
  id_eq : ∀ (k : String) (x : Incoming), m[k]? = some x → x.id = k
  openOld : ∀ (k : String) (x : Incoming), m[k]? = some x → x.file < d.nextFile
  openInj : ∀ (j k : String) (x y : Incoming), m[j]? = some x → m[k]? = some y → x.file = y.file → j = k
  /-- An open file has no name but its own. -/
  openName : ∀ (j k : String) (x : Incoming), m[k]? = some x → d.part j = some x.file → j = k
  /-- Its own name leads nowhere else. -/
  ownFile : ∀ (k : String) (x : Incoming) (file : Nat), m[k]? = some x → d.part k = some file → file = x.file
  record : ∀ (k : String) (x : Incoming) (c : ReceiveCheckpoint), m[k]? = some x →
    d.checkpoint k = some c → RecordOf x c

variable {sha} {d d' : Disk} {file : Nat} {k j : String} {m m' : KeyMap Incoming}
variable {c : ReceiveCheckpoint} {x y : Incoming}

/-! ### Reading a record -/

theorem heldBlocks_le (total length blocks : Nat) : heldBlocks total length blocks ≤ blocks := by
  induction blocks with
  | zero => exact le_refl _
  | succ blocks ih =>
    unfold heldBlocks
    split
    · exact le_refl _
    · exact ih.trans (Nat.le_succ _)

/-- The partial file holds the blocks that are counted. -/
theorem blockStart_heldBlocks (total length blocks : Nat) :
    blockStart total (heldBlocks total length blocks) ≤ length := by
  induction blocks with
  | zero => simp [heldBlocks]
  | succ blocks ih =>
    unfold heldBlocks
    split
    · rename_i h
      exact h
    · exact ih

/-- A record of a file that is not there claims nothing. -/
theorem heldBlocks_zero_length {total blocks : Nat} (h : blocks ≤ blocksFor total) :
    heldBlocks total 0 blocks = 0 := by
  have hstart := blockStart_heldBlocks total 0 blocks
  have hle := heldBlocks_le total 0 blocks
  by_contra hne
  have hpos : 0 < heldBlocks total 0 blocks := Nat.pos_of_ne_zero hne
  have hone : blockStart total 1 ≤ 0 := (blockStart_mono total hpos).trans hstart
  have htotal : total = 0 := by
    have := blockBytes_pos
    unfold blockStart at hone
    omega
  have hnone : blocksFor total = 0 := by
    have := blockBytes_pos
    rw [blocksFor, htotal]
    exact Nat.div_eq_of_lt (by omega)
  omega

/-- What `load_receive` returns for `k`: the record as it is on the disk,
lowered to the blocks the file holds. -/
structure Loaded (d : Disk) (k : String) (c : ReceiveCheckpoint) (hashes : List Hash) : Prop where
  stored : ∃ c₀, d.checkpoint k = some c₀ ∧ c = { c₀ with blocksDone := hashes.length } ∧
    hashes <+: (d.blocks k).getD [] ∧ hashes.length ≤ c₀.blocksDone
  holds : blockStart c.totalSize hashes.length ≤ d.partLength k
  sane : c.transferId = k ∧ c.totalSize ≤ maxTransferBytes ∧
    c.blocksDone ≤ blocksFor c.totalSize
  noPart : d.part k = none → hashes = []

theorem loadReceive_cases (j : Journal) (k : String) :
    (loadReceive j k = (j, none) ∧ j.disk.checkpoint k = none) ∨
    (∃ c hashes, loadReceive j k = (j, some (c, hashes)) ∧ Loaded j.disk k c hashes) ∨
    loadReceive j k = (j.write (removeReceive k), none) := by
  unfold loadReceive
  cases hc : j.disk.checkpoint k with
  | none => exact Or.inl ⟨rfl, rfl⟩
  | some c =>
    simp only []
    split
    · rename_i hsane
      right; left
      generalize hn : min c.blocksDone ((j.disk.blocks k).getD []).length = n
      generalize hheld : heldBlocks c.totalSize (j.disk.partLength k) n = held
      have hle : held ≤ n := hheld ▸ heldBlocks_le _ _ _
      have hlen : (((j.disk.blocks k).getD []).take held).length = held := by
        rw [List.length_take]
        omega
      simp only [ReceiveCheckpoint.isConsistent, Bool.and_eq_true, beq_iff_eq,
        decide_eq_true_iff] at hsane
      refine ⟨_, _, rfl, ?_, ?_, ?_, ?_⟩
      · exact ⟨c, hc, by rw [hlen], List.take_prefix _ _, by rw [hlen]; omega⟩
      · rw [hlen, ← hheld]
        exact blockStart_heldBlocks _ _ _
      · have hsmall : held ≤ blocksFor c.totalSize := by omega
        exact ⟨hsane.1.1, hsane.1.2, hsmall⟩
      · intro hpart
        have hzero : j.disk.partLength k = 0 := by rw [Disk.partLength, hpart]; rfl
        rw [hzero, heldBlocks_zero_length (by omega)] at hheld
        rw [← hheld]
        rfl
    · exact Or.inr (Or.inr rfl)

/-- The hashes `load_receive` returns of an honest record are those of the
blocks of the partial file. -/
theorem Loaded.backed {hashes : List Hash} (h : Loaded d k c hashes) (hhonest : HonestAt sha d k)
    (hpart : d.part k = some file) : Backed sha c.totalSize hashes (d.content file) := by
  obtain ⟨c₀, hc₀, rfl, hhashes, hle⟩ := h.stored
  have hlen : blockStart c₀.totalSize hashes.length ≤ (d.content file).length := by
    have := h.holds
    rwa [Disk.partLength, hpart] at this
  refine ⟨hlen, ?_⟩
  intro i hi
  have hi' : ((d.blocks k).getD [])[i]? = some hashes[i] := List.prefix_iff_getElem?.mp hhashes i hi
  have hend : blockEnd c₀.totalSize i ≤ (d.content file).length :=
    (blockStart_mono c₀.totalSize hi).trans hlen
  have hin : blockBytes * i < c₀.totalSize :=
    mul_lt_of_lt_blocksFor (lt_of_lt_of_le hi h.sane.2.2)
  exact hhonest c₀ file hc₀ hpart i _ (by omega) hin hi' hend

/-! ### Writes about one transfer -/

/-- A write to `file`, or to a name of `k` (never a new one). -/
inductive OpOn (file : Nat) (k : String) : DiskOp → Prop
  | setLen (n : Nat) : OpOn file k (.setLen file n)
  | writeAt (offset : Nat) (bytes : Bytes) : OpOn file k (.writeAt file offset bytes)
  | removePart : OpOn file k (.removePart k)
  | putBlocks (hashes : List Hash) : OpOn file k (.putBlocks k hashes)
  | removeBlocks : OpOn file k (.removeBlocks k)
  | putCheckpoint (c : ReceiveCheckpoint) : OpOn file k (.putCheckpoint k c)
  | removeCheckpoint : OpOn file k (.removeCheckpoint k)

/-- `d'` is `d` but for `file` and the names of `k`. -/
structure Elsewhere (file : Nat) (k : String) (d d' : Disk) : Prop where
  content : ∀ f, f ≠ file → d'.content f = d.content f
  nextFile : d'.nextFile = d.nextFile
  part : ∀ j, j ≠ k → d'.part j = d.part j
  ownPart : d'.part k = d.part k ∨ d'.part k = none
  blocks : ∀ j, j ≠ k → d'.blocks j = d.blocks j
  checkpoint : ∀ j, j ≠ k → d'.checkpoint j = d.checkpoint j

theorem Elsewhere.refl (file : Nat) (k : String) (d : Disk) : Elsewhere file k d d :=
  ⟨fun _ _ => rfl, rfl, fun _ _ => rfl, Or.inl rfl, fun _ _ => rfl, fun _ _ => rfl⟩

theorem Elsewhere.trans {a b c : Disk} (h : Elsewhere file k a b) (h' : Elsewhere file k b c) :
    Elsewhere file k a c where
  content f hf := (h'.content f hf).trans (h.content f hf)
  nextFile := h'.nextFile.trans h.nextFile
  part j hj := (h'.part j hj).trans (h.part j hj)
  ownPart := by
    rcases h'.ownPart with h' | h'
    · rw [h']
      exact h.ownPart
    · exact Or.inr h'
  blocks j hj := (h'.blocks j hj).trans (h.blocks j hj)
  checkpoint j hj := (h'.checkpoint j hj).trans (h.checkpoint j hj)

theorem OpOn.elsewhere {op : DiskOp} (h : OpOn file k op) (d : Disk) :
    Elsewhere file k d (d.after op) := by
  have hrefl := Elsewhere.refl file k d
  cases h with
  | setLen n => exact { hrefl with content := fun f hf => Function.update_of_ne hf _ _ }
  | writeAt offset bytes =>
    exact { hrefl with content := fun f hf => Function.update_of_ne hf _ _ }
  | removePart =>
    exact { hrefl with
      part := fun j hj => Function.update_of_ne hj _ _
      ownPart := Or.inr (Function.update_self ..) }
  | putBlocks hashes => exact { hrefl with blocks := fun j hj => Function.update_of_ne hj _ _ }
  | removeBlocks => exact { hrefl with blocks := fun j hj => Function.update_of_ne hj _ _ }
  | putCheckpoint c =>
    exact { hrefl with checkpoint := fun j hj => Function.update_of_ne hj _ _ }
  | removeCheckpoint =>
    exact { hrefl with checkpoint := fun j hj => Function.update_of_ne hj _ _ }

/-- The writes of one transfer leave the rest alone at each point. -/
theorem elsewhere_along {ops : List DiskOp} (hops : ∀ op ∈ ops, OpOn file k op) :
    Lib.AllAlong Disk.after (Elsewhere file k d) d ops :=
  Lib.allAlong_of_forall (Elsewhere.refl file k d)
    (fun op hop t ht => ht.trans ((hops op hop).elsewhere t))

theorem Elsewhere.honest (h : Elsewhere file k d d') (hj : j ≠ k) (hfile : d.part j ≠ some file)
    (hhonest : HonestAt sha d j) : HonestAt sha d' j := by
  intro c f hc hf i hash hi hin hhash hend
  rw [h.checkpoint j hj] at hc
  rw [h.part j hj] at hf
  rw [h.blocks j hj] at hhash
  have hne : f ≠ file := by
    rintro rfl
    exact hfile hf
  rw [h.content f hne] at hend ⊢
  exact hhonest c f hc hf i hash hi hin hhash hend

/-- No name leads to a file it did not lead to. -/
theorem Elsewhere.part_of (h : Elsewhere file k d d') {f : Nat} (hf : d'.part j = some f) :
    d.part j = some f := by
  by_cases hj : j = k
  · subst hj
    rcases h.ownPart with heq | hnone
    · rwa [heq] at hf
    · rw [hnone] at hf
      cases hf
  · rwa [h.part j hj] at hf

theorem Elsewhere.named (h : Elsewhere file k d d') (hnamed : Named d) : Named d' := by
  refine ⟨?_, ?_⟩
  · intro j f hf
    rw [h.nextFile]
    exact hnamed.old j f (h.part_of hf)
  · intro j l f hj hl
    exact hnamed.inj j l f (h.part_of hj) (h.part_of hl)

/-- Writes about `k` keep the links, when the record of `k` stays that of
its transfer. -/
theorem Elsewhere.linked (h : Elsewhere file k d d') (hlinked : Linked m d)
    (hrecord : ∀ x c, m[k]? = some x → d'.checkpoint k = some c → RecordOf x c) :
    Linked m d' := by
  refine ⟨h.named hlinked.toNamed, hlinked.id_eq, ?_, hlinked.openInj, ?_, ?_, ?_⟩
  · intro j x hx
    rw [h.nextFile]
    exact hlinked.openOld j x hx
  · intro j l x hx hf
    exact hlinked.openName j l x hx (h.part_of hf)
  · intro j x f hx hf
    exact hlinked.ownFile j x f hx (h.part_of hf)
  · intro j x c hx hc
    by_cases hj : j = k
    · subst hj
      exact hrecord x c hx hc
    · rw [h.checkpoint j hj] at hc
      exact hlinked.record j x c hx hc

/-! ### Open and closed -/

theorem RecordOf.congr (h : RecordOf x c) (hident : y.ident = x.ident) : RecordOf y c :=
  ⟨h.deviceId.trans (congrArg Ident.deviceId hident).symm,
    h.totalSize.trans (congrArg Ident.total hident).symm,
    h.folder.trans (congrArg (·.folder.map FolderRef.place) hident).symm,
    h.contentSha256.trans (congrArg Ident.contentSha256 hident).symm⟩

/-- `m'` is `m` but for what the transfer `k` is up to. -/
def Updates (m m' : KeyMap Incoming) (k : String) (y : Incoming) : Prop :=
  ∀ j : String, m'[j]? = if k = j then some y else m[j]?

theorem updates_insert (m : KeyMap Incoming) (k : String) (y : Incoming) :
    Updates m (m.insert k y) k y := fun j => getElem?_keyInsert m k j y

/-- Changing what the transfer `k` is up to keeps the links. -/
theorem Linked.update (h : Linked m d) (hx : m[k]? = some x) (hident : y.ident = x.ident)
    (hm : Updates m m' k y) : Linked m' d := by
  -- What is open under a key has the file of what was open there.
  have hwas : ∀ (j : String) (z : Incoming), m'[j]? = some z →
      ∃ z₀ : Incoming, m[j]? = some z₀ ∧ z.ident = z₀.ident := by
    intro j z hz
    rw [hm] at hz
    split at hz
    · rename_i hj
      subst hj
      cases hz
      exact ⟨x, hx, hident⟩
    · exact ⟨z, hz, rfl⟩
  refine ⟨h.toNamed, ?_, ?_, ?_, ?_, ?_, ?_⟩
  · intro j z hz
    obtain ⟨z₀, hz₀, hi⟩ := hwas j z hz
    exact (congrArg Ident.id hi).trans (h.id_eq j z₀ hz₀)
  · intro j z hz
    obtain ⟨z₀, hz₀, hi⟩ := hwas j z hz
    have : z.file = z₀.file := congrArg Ident.file hi
    rw [this]
    exact h.openOld j z₀ hz₀
  · intro j l z u hz hu hzu
    obtain ⟨z₀, hz₀, hiz⟩ := hwas j z hz
    obtain ⟨u₀, hu₀, hiu⟩ := hwas l u hu
    have hz' : z.file = z₀.file := congrArg Ident.file hiz
    have hu' : u.file = u₀.file := congrArg Ident.file hiu
    exact h.openInj j l z₀ u₀ hz₀ hu₀ (hz'.symm.trans (hzu.trans hu'))
  · intro j l z hz hf
    obtain ⟨z₀, hz₀, hi⟩ := hwas l z hz
    have : z.file = z₀.file := congrArg Ident.file hi
    exact h.openName j l z₀ hz₀ (this ▸ hf)
  · intro j z f hz hf
    obtain ⟨z₀, hz₀, hi⟩ := hwas j z hz
    have : z.file = z₀.file := congrArg Ident.file hi
    rw [this]
    exact h.ownFile j z₀ f hz₀ hf
  · intro j z c hz hc
    obtain ⟨z₀, hz₀, hi⟩ := hwas j z hz
    exact (h.record j z₀ c hz₀ hc).congr hi

/-- With fewer transfers open, the links hold. -/
theorem Linked.sub (h : Linked m d)
    (hsub : ∀ (k : String) (x : Incoming), m'[k]? = some x → m[k]? = some x) : Linked m' d :=
  { toNamed := h.toNamed
    id_eq := fun k x hx => h.id_eq k x (hsub k x hx)
    openOld := fun k x hx => h.openOld k x (hsub k x hx)
    openInj := fun j k x y hx hy => h.openInj j k x y (hsub j x hx) (hsub k y hy)
    openName := fun j k x hx => h.openName j k x (hsub k x hx)
    ownFile := fun k x f hx => h.ownFile k x f (hsub k x hx)
    record := fun k x c hx => h.record k x c (hsub k x hx) }

end DeskLink.Transfer
