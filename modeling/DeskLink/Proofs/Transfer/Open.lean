import DeskLink.Proofs.Transfer.Receive

/-!
# `DeskLink.Proofs.Transfer.Open`: a transfer is opened

`begin_incoming` reads what the store holds, may carry on the partial file
of another id (`adopt_bucket_partial`), and opens the file.
`beginIncoming_ran` proves that all of it keeps the records honest, and
that the transfer it opens is in step with its file: the hashes it starts
with are those `load_receive` returned.

A partial file that is carried on belongs to no open transfer. The
transfers open on the same folder file were closed before
(`staleFor`), and the record of any other names another file.
-/

set_option autoImplicit false

namespace DeskLink.Transfer

variable {sha : Bytes → Hash} {m m' : KeyMap Incoming} {d t : Disk} {k old peer : String}
variable {file total : Nat} {y : Incoming} {hashes : List Hash} {j : Journal} {o : Offer}

theorem Journal.write_nil (j : Journal) : j.write [] = j := by
  simp [Journal.write]

theorem Journal.write_write (j : Journal) (ops rest : List DiskOp) :
    (j.write ops).write rest = j.write (ops ++ rest) := by
  simp [Journal.write, Lib.applyAll_append]

/-- Removing the files of any transfer, open or not. -/
theorem ran_remove (h : Kept sha m d) (k : String) : Ran sha d (removeReceive k) m := by
  -- The writes touch no file at all, so none with a name or open.
  have hon := removeReceive_opOn d.nextFile k
  have helse : Elsewhere d.nextFile k d (Lib.applyAll Disk.after d (removeReceive k)) :=
    (elsewhere_along hon).last
  have hname : ∀ j, d.part j ≠ some d.nextFile := fun j hj =>
    lt_irrefl _ (h.linked.old j d.nextFile hj)
  have halong : Lib.AllAlong Disk.after (Safe sha) d (removeReceive k) := by
    refine ((elsewhere_along hon).and (honest_removeReceive (h.honest k))).imp ?_
    rintro t ⟨ht, hk⟩
    refine ⟨ht.named h.linked.toNamed, ?_⟩
    intro j
    by_cases hjk : j = k
    · exact hjk ▸ hk
    · exact ht.honest hjk (hname j) (h.honest j)
  refine ⟨⟨?_, ?_, halong.last.2⟩, halong⟩
  · refine helse.linked h.linked ?_
    intro x c _ hc
    simp [removeReceive, Disk.after] at hc
  · intro j x hx
    rw [helse.content x.file (h.linked.openOld j x hx).ne]
    exact h.sound j x hx

/-- A file that is nobody's. -/
structure Unclaimed (m : KeyMap Incoming) (d : Disk) (k : String) (file : Nat) : Prop where
  closed : m[k]? = none
  old : file < d.nextFile
  notOpen : ∀ (j : String) (x : Incoming), m[j]? = some x → x.file ≠ file
  name : ∀ j, d.part j = some file → j = k
  own : ∀ f, d.part k = some f → f = file

/-- A transfer is opened on a file that is nobody's. -/
theorem ran_open (h : Kept sha m d) (hfile : Unclaimed m d k file) {ops : List DiskOp}
    (hops : ∀ op ∈ ops, OpOn file k op) (hid : y.id = k) (hyfile : y.file = file)
    (hsound : Sound sha y ((Lib.applyAll Disk.after d ops).content file))
    (hrecord : ∀ c, (Lib.applyAll Disk.after d ops).checkpoint k = some c → RecordOf y c)
    (hown : Lib.AllAlong Disk.after (HonestAt sha · k) d ops) (hm : Updates m m' k y) :
    Ran sha d ops m' := by
  have helse : Elsewhere file k d (Lib.applyAll Disk.after d ops) := (elsewhere_along hops).last
  have hne : ∀ j, j ≠ k → d.part j ≠ some file := fun j hj hp => hj (hfile.name j hp)
  have hwas : ∀ (j : String) (z : Incoming), m'[j]? = some z →
      (j = k ∧ z = y) ∨ (j ≠ k ∧ m[j]? = some z) := by
    intro j z hz
    rw [hm] at hz
    split at hz
    · rename_i hj
      cases hz
      exact Or.inl ⟨hj.symm, rfl⟩
    · rename_i hj
      exact Or.inr ⟨Ne.symm hj, hz⟩
  have halong : Lib.AllAlong Disk.after (Safe sha) d ops := by
    refine ((elsewhere_along hops).and hown).imp ?_
    rintro t ⟨ht, hk⟩
    refine ⟨ht.named h.linked.toNamed, ?_⟩
    intro j
    by_cases hjk : j = k
    · exact hjk ▸ hk
    · exact ht.honest hjk (hne j hjk) (h.honest j)
  refine ⟨⟨⟨helse.named h.linked.toNamed, ?_, ?_, ?_, ?_, ?_, ?_⟩, ?_, halong.last.2⟩, halong⟩
  · intro j z hz
    rcases hwas j z hz with ⟨rfl, rfl⟩ | ⟨-, hz⟩
    · exact hid
    · exact h.linked.id_eq j z hz
  · intro j z hz
    rw [helse.nextFile]
    rcases hwas j z hz with ⟨rfl, rfl⟩ | ⟨-, hz⟩
    · rw [hyfile]
      exact hfile.old
    · exact h.linked.openOld j z hz
  · intro j l z u hz hu hzu
    rcases hwas j z hz with ⟨rfl, rfl⟩ | ⟨-, hz⟩ <;>
      rcases hwas l u hu with ⟨rfl, rfl⟩ | ⟨-, hu⟩
    · rfl
    · exact absurd (hzu.symm.trans hyfile) (hfile.notOpen l u hu)
    · exact absurd (hzu.trans hyfile) (hfile.notOpen j z hz)
    · exact h.linked.openInj j l z u hz hu hzu
  · intro j l z hz hp
    rcases hwas l z hz with ⟨rfl, rfl⟩ | ⟨-, hz⟩
    · exact hfile.name j (hyfile ▸ helse.part_of hp)
    · exact h.linked.openName j l z hz (helse.part_of hp)
  · intro j z f hz hp
    rcases hwas j z hz with ⟨rfl, rfl⟩ | ⟨-, hz⟩
    · rw [hyfile]
      exact hfile.own f (helse.part_of hp)
    · exact h.linked.ownFile j z f hz (helse.part_of hp)
  · intro j z c hz hc
    rcases hwas j z hz with ⟨rfl, rfl⟩ | ⟨hj, hz⟩
    · exact hrecord c hc
    · rw [helse.checkpoint j hj] at hc
      exact h.linked.record j z c hz hc
  · intro j z hz
    rcases hwas j z hz with ⟨rfl, rfl⟩ | ⟨-, hz⟩
    · rw [hyfile]
      exact hsound
    · rw [helse.content z.file (hfile.notOpen j z hz)]
      exact h.sound j z hz

/-! ### Carrying on the partial file of another id -/

/-- `t` is `d` with the partial file of `old` under `k`; the records of
the two may differ. -/
structure Moved (old k : String) (file : Nat) (d t : Disk) : Prop where
  content : t.content = d.content
  nextFile : t.nextFile = d.nextFile
  part : t.part = Function.update (Function.update d.part k (some file)) old none
  blocks : ∀ j, j ≠ old → j ≠ k → t.blocks j = d.blocks j
  checkpoint : ∀ j, j ≠ old → j ≠ k → t.checkpoint j = d.checkpoint j

theorem Moved.part_of (h : Moved old k file d t) {j : String} {f : Nat} (hf : t.part j = some f) :
    j ≠ old ∧ ((j = k ∧ f = file) ∨ (j ≠ k ∧ d.part j = some f)) := by
  rw [h.part] at hf
  by_cases hj : j = old
  · subst hj
    rw [Function.update_self] at hf
    cases hf
  · rw [Function.update_of_ne hj] at hf
    refine ⟨hj, ?_⟩
    by_cases hjk : j = k
    · subst hjk
      rw [Function.update_self] at hf
      exact Or.inl ⟨rfl, (Option.some.inj hf).symm⟩
    · rw [Function.update_of_ne hjk] at hf
      exact Or.inr ⟨hjk, hf⟩

theorem Moved.named (h : Moved old k file d t) (hnamed : Named d) (hold : d.part old = some file) :
    Named t := by
  refine ⟨?_, ?_⟩
  · intro j f hf
    rw [h.nextFile]
    rcases (h.part_of hf).2 with ⟨-, rfl⟩ | ⟨-, hf⟩
    · exact hnamed.old old f hold
    · exact hnamed.old j f hf
  · intro j l f hj hl
    obtain ⟨hjo, hj⟩ := h.part_of hj
    obtain ⟨hlo, hl⟩ := h.part_of hl
    rcases hj with ⟨rfl, rfl⟩ | ⟨-, hj⟩ <;> rcases hl with ⟨rfl, hf⟩ | ⟨-, hl⟩
    · rfl
    · exact absurd (hnamed.inj l old f hl hold) hlo
    · subst hf
      exact absurd (hnamed.inj j old f hj hold) hjo
    · exact hnamed.inj j l f hj hl

/-- Every record but that of `k` is as honest as before. -/
theorem Moved.honest (h : Moved old k file d t) {j : String} (hjk : j ≠ k)
    (hhonest : HonestAt sha d j) : HonestAt sha t j := by
  by_cases hj : j = old
  · refine honestAt_of_noPart ?_
    rw [h.part, hj, Function.update_self]
  · intro c f hc hf i hash hi hin hhash hend
    rw [h.checkpoint j hj hjk] at hc
    rw [h.blocks j hj hjk] at hhash
    rw [h.content] at hend ⊢
    rcases (h.part_of hf).2 with ⟨hk, -⟩ | ⟨-, hf⟩
    · exact absurd hk hjk
    · exact hhonest c f hc hf i hash hi hin hhash hend

theorem Moved.kept (h : Moved old k file d t) (hkept : Kept sha m d) (hold : d.part old = some file)
    (holdClosed : m[old]? = none) (hclosed : m[k]? = none) (hk : HonestAt sha t k) :
    Kept sha m t := by
  have hl := hkept.linked
  have hne : ∀ (j : String) (x : Incoming), m[j]? = some x → j ≠ old ∧ j ≠ k := by
    intro j x hx
    constructor
    · rintro rfl
      rw [holdClosed] at hx
      cases hx
    · rintro rfl
      rw [hclosed] at hx
      cases hx
  refine ⟨⟨h.named hl.toNamed hold, hl.id_eq, ?_, hl.openInj, ?_, ?_, ?_⟩, ?_, ?_⟩
  · intro j x hx
    rw [h.nextFile]
    exact hl.openOld j x hx
  · intro j l x hx hp
    rcases (h.part_of hp).2 with ⟨-, hf⟩ | ⟨-, hp⟩
    · -- The moved file is not open.
      exact absurd (hl.openName old l x hx (hf ▸ hold)).symm (hne l x hx).1
    · exact hl.openName j l x hx hp
  · intro j x f hx hp
    rcases (h.part_of hp).2 with ⟨hjk, -⟩ | ⟨-, hp⟩
    · exact absurd hjk (hne j x hx).2
    · exact hl.ownFile j x f hx hp
  · intro j x c hx hc
    rw [h.checkpoint j (hne j x hx).1 (hne j x hx).2] at hc
    exact hl.record j x c hx hc
  · intro j x hx
    rw [h.content]
    exact hkept.sound j x hx
  · intro j
    by_cases hjk : j = k
    · exact hjk ▸ hk
    · exact h.honest hjk (hkept.honest j)

/-- Carrying on the partial file of `old`, which is not open. It may break
off when the record is saved. -/
theorem ran_adopt (h : Kept sha m d) {r : BucketRequest} (saved : Saved) {held : ReceiveCheckpoint}
    (hne : old ≠ r.id) (hclosed : m[r.id]? = none) (holdClosed : m[old]? = none)
    (hnone : d.checkpoint r.id = none) (hold : d.part old = some file)
    (hloaded : Loaded d old held hashes) :
    Ran sha d (adoptWrites r saved old held hashes) m := by
  have hbacked : Backed sha held.totalSize hashes (d.content file) :=
    hloaded.backed (h.honest old) hold
  generalize hc : r.moved held = c
  have htotal : c.totalSize = held.totalSize := by
    rw [← hc]
    rfl
  have hprefix : adoptWrites r saved old held hashes <+:
      [.renamePart old r.id, .putBlocks r.id hashes, .putCheckpoint r.id c, .removeBlocks old,
        .removeCheckpoint old] := by
    rw [← hc]
    cases saved with
    | whole => exact List.prefix_refl _
    | failed renames words =>
      simp only [adoptWrites, reduceCtorEq, if_false, List.append_nil]
      refine List.cons_prefix_cons.mpr ⟨rfl, (Saved.made_prefix _ _).trans ?_⟩
      exact ⟨[.removeBlocks old, .removeCheckpoint old], rfl⟩
  refine ran_of_along (Lib.AllAlong.of_prefix ?_ hprefix)
  have hmoved₁ : Moved old r.id file d (d.after (.renamePart old r.id)) := by
    refine ⟨rfl, rfl, ?_, fun _ _ _ => rfl, fun _ _ _ => rfl⟩
    rw [← hold]
    rfl
  -- The records of the two ids are free, so the next writes change nothing here.
  have hblocks : ∀ (t : Disk) (j : String) (v : Option (List Hash)), Moved old r.id file d t →
      j = old ∨ j = r.id →
      Moved old r.id file d { t with blocks := Function.update t.blocks j v } := by
    rintro t j v ht (rfl | rfl)
    · exact { ht with blocks := fun l hl hl' =>
        (Function.update_of_ne hl _ _).trans (ht.blocks l hl hl') }
    · exact { ht with blocks := fun l hl hl' =>
        (Function.update_of_ne hl' _ _).trans (ht.blocks l hl hl') }
  have hcheckpoint : ∀ (t : Disk) (j : String) (v : Option ReceiveCheckpoint),
      Moved old r.id file d t → j = old ∨ j = r.id →
      Moved old r.id file d { t with checkpoint := Function.update t.checkpoint j v } := by
    rintro t j v ht (rfl | rfl)
    · exact { ht with checkpoint := fun l hl hl' =>
        (Function.update_of_ne hl _ _).trans (ht.checkpoint l hl hl') }
    · exact { ht with checkpoint := fun l hl hl' =>
        (Function.update_of_ne hl' _ _).trans (ht.checkpoint l hl hl') }
  have hmoved₂ := hblocks _ r.id (some hashes) hmoved₁ (Or.inr rfl)
  have hmoved₃ := hcheckpoint _ r.id (some c) hmoved₂ (Or.inr rfl)
  have hmoved₄ := hblocks _ old none hmoved₃ (Or.inl rfl)
  have hmoved₅ := hcheckpoint _ old none hmoved₄ (Or.inl rfl)
  -- Before the checkpoint is there nothing is claimed; then it is true.
  have hbacks : ∀ t : Disk, Moved old r.id file d t → t.blocks r.id = some hashes →
      t.checkpoint r.id = some c → HonestAt sha t r.id := by
    intro t ht hb hcp
    have hbacked' : Backed sha held.totalSize hashes (t.content file) := by
      rw [ht.content]
      exact hbacked
    refine honestAt_backed hbacked' hb ?_ ?_
    · intro f hf
      rcases (ht.part_of hf).2 with ⟨-, hf⟩ | ⟨hk, -⟩
      · exact hf
      · exact absurd rfl hk
    · intro c' hc'
      rw [hcp] at hc'
      rw [← Option.some.inj hc', htotal]
  have hkept : ∀ t : Disk, Moved old r.id file d t → HonestAt sha t r.id → Kept sha m t :=
    fun t ht hk => ht.kept h hold holdClosed hclosed hk
  refine ⟨h, hkept _ hmoved₁ (honestAt_of_noCheckpoint hnone),
    hkept _ hmoved₂ (honestAt_of_noCheckpoint hnone), hkept _ hmoved₃ (hbacks _ hmoved₃ ?_ ?_),
    hkept _ hmoved₄ (hbacks _ hmoved₄ ?_ ?_), hkept _ hmoved₅ (hbacks _ hmoved₅ ?_ ?_)⟩ <;>
    simp [Disk.after, Ne.symm hne]

/-- Reading a record keeps the store, and says what it read. -/
theorem loadReceive_ran (h : Kept sha m j.disk) (k : String) :
    ∃ ops, (loadReceive j k).1 = j.write ops ∧ Ran sha j.disk ops m ∧
      (∀ op ∈ ops, OpOn j.disk.nextFile k op) ∧
      (∀ held, (loadReceive j k).2 = some held → ops = [] ∧ Loaded j.disk k held.1 held.2) ∧
      ((loadReceive j k).2 = none → (loadReceive j k).1.disk.checkpoint k = none) := by
  rcases loadReceive_cases j k with ⟨hload, hnone⟩ | ⟨c, hashes, hload, hloaded⟩ | hload
  · rw [hload]
    refine ⟨[], j.write_nil.symm, h.ran, by simp, by simp, fun _ => hnone⟩
  · rw [hload]
    refine ⟨[], j.write_nil.symm, h.ran, by simp, ?_, by simp⟩
    intro held hheld
    cases hheld
    exact ⟨rfl, hloaded⟩
  · rw [hload]
    refine ⟨removeReceive k, rfl, ran_remove h k, removeReceive_opOn _ k, by simp, ?_⟩
    intro _
    simp [Journal.write, removeReceive, Disk.after]

/-- No open transfer is of the folder file the request asks for. -/
def NoneOpenFor (m : KeyMap Incoming) (r : BucketRequest) : Prop :=
  ∀ (k : String) (x : Incoming), m[k]? = some x →
    Engine.sameOpenFile r.deviceId r.folder r.contentSha256 r.total x = false

/-- A record of the file asked for is of no open transfer. -/
theorem not_open_of_same {r : BucketRequest} (hopen : NoneOpenFor m r) (hl : Linked m d)
    {held : ReceiveCheckpoint} (hloaded : Loaded d old held hashes)
    (hplace : r.samePlace held = true) (hsame : r.sameFile held = true) : m[old]? = none := by
  cases hx : m[old]? with
  | none => rfl
  | some x =>
    obtain ⟨c, hc, rfl, -, -⟩ := hloaded.stored
    have hrec := hl.record old x c hx hc
    have hno := hopen old x hx
    have hanyPlace : ∀ folder : Option FolderRef,
        folder.any (fun known => known.folder == r.folder.folder
            && known.relpath == r.folder.relpath)
          = (folder.map FolderRef.place).any (· == r.folder.place) := by
      rintro (_ | folder) <;> rfl
    simp only [BucketRequest.samePlace, BucketRequest.sameFile, hanyPlace, hrec.deviceId,
      hrec.folder, hrec.contentSha256, hrec.totalSize] at hplace hsame
    rw [← hanyPlace] at hplace
    simp only [Bool.and_eq_true] at hplace hsame
    rw [Engine.sameOpenFile, hplace.1, hplace.2, hsame.1, hsame.2] at hno
    cases hno

/-- One directory entry keeps the store. Until something is adopted there
is no checkpoint under the new id. -/
theorem adoptEntry_ran {r : BucketRequest} (saved : Saved) {j : Journal} {adopted : Bool}
    {old : String} (h : Kept sha m j.disk) (hclosed : m[r.id]? = none) (hopen : NoneOpenFor m r)
    (hnone : adopted = false → j.disk.checkpoint r.id = none) :
    ∃ ops, (adoptEntry r saved j adopted old).1 = j.write ops ∧ Ran sha j.disk ops m ∧
      ((adoptEntry r saved j adopted old).2 = .ok false →
        (adoptEntry r saved j adopted old).1.disk.checkpoint r.id = none) := by
  unfold adoptEntry
  split
  · exact ⟨[], (Journal.write_nil _).symm, h.ran, fun heq => hnone (Except.ok.inj heq)⟩
  · rename_i hne
    obtain ⟨ops, hwrite, hran, hon, hsome, -⟩ := loadReceive_ran h old
    -- Writes about `old` leave the new id without a checkpoint.
    have hkeeps : ∀ writes : List DiskOp, (∀ op ∈ writes, OpOn j.disk.nextFile old op) →
        adopted = false → (j.write writes).disk.checkpoint r.id = none := by
      intro writes hwrites hfalse
      have helse : Elsewhere _ old j.disk (j.write writes).disk := (elsewhere_along hwrites).last
      rw [helse.checkpoint r.id (Ne.symm hne)]
      exact hnone hfalse
    split
    · rename_i j' hload
      obtain rfl : j' = j.write ops := by rw [← hwrite, hload]
      exact ⟨ops, rfl, hran, fun heq => hkeeps ops hon (Except.ok.inj heq)⟩
    · rename_i j' held hashes hload
      obtain ⟨rfl, hloaded⟩ := hsome (held, hashes) (by rw [hload])
      obtain rfl : j' = j := by rw [← j.write_nil, ← hwrite, hload]
      split
      · exact ⟨[], (Journal.write_nil _).symm, h.ran, fun heq => hnone (Except.ok.inj heq)⟩
      · rename_i hplace
        split
        · exact ⟨_, rfl, ran_remove h old,
            fun heq => hkeeps _ (removeReceive_opOn _ old) (Except.ok.inj heq)⟩
        · rename_i hsame
          split
          · exact ⟨[], (Journal.write_nil _).symm, h.ran, fun heq => by cases heq⟩
          · rename_i hpart
            simp only [Bool.or_eq_true, Bool.not_eq_true', not_or, Bool.not_eq_false,
              Bool.not_eq_true] at hplace hsame
            obtain ⟨file, hfile⟩ : ∃ file, j'.disk.part old = some file := by
              cases hp : j'.disk.part old with
              | none => simp [hp] at hpart
              | some file => exact ⟨file, rfl⟩
            have holdClosed := not_open_of_same hopen h.linked hloaded hplace hsame.1
            refine ⟨_, rfl, ran_adopt h saved hne hclosed holdClosed (hnone hsame.2) hfile hloaded,
              ?_⟩
            intro heq
            cases saved <;> cases heq

theorem adoptBucketPartial_ran {r : BucketRequest} (saved : Saved) (hclosed : m[r.id]? = none)
    (hopen : NoneOpenFor m r) (entries : List String) :
    ∀ {j : Journal} {adopted : Bool}, Kept sha m j.disk →
      (adopted = false → j.disk.checkpoint r.id = none) →
      ∃ ops, (adoptBucketPartial r saved j adopted entries).1 = j.write ops ∧
        Ran sha j.disk ops m := by
  induction entries with
  | nil =>
    intro j adopted h _
    exact ⟨[], (Journal.write_nil _).symm, h.ran⟩
  | cons old rest ih =>
    intro j adopted h hnone
    obtain ⟨ops, hwrite, hran, hnone'⟩ := @adoptEntry_ran _ _ r saved j adopted old h hclosed hopen
      hnone
    unfold adoptBucketPartial
    split
    · rename_i j' words hentry
      rw [hentry] at hwrite
      exact ⟨ops, hwrite, hran⟩
    · rename_i j' adopted' hentry
      rw [hentry] at hwrite hnone'
      obtain rfl : j' = j.write ops := hwrite
      obtain ⟨ops', hwrite', hran'⟩ := ih hran.kept (fun heq => hnone' (congrArg Except.ok heq))
      exact ⟨ops ++ ops', hwrite'.trans (Journal.write_write ..), hran.append hran'⟩

/-! ### What is held, and the file that is opened -/

/-- The request of a folder offer. -/
def Offer.request (o : Offer) (peer : String) (folder : FolderRef) (contentSha : String)
    (total : Nat) : BucketRequest :=
  ⟨o.id, o.token, peer, folder, contentSha, total, o.mtime.getD 0⟩

/-- No open transfer is of the folder file the offer asks for. -/
def NoneOpen (m : KeyMap Incoming) (peer : String) (o : Offer) (total : Nat) : Prop :=
  ∀ folder contentSha, o.folder = some folder → o.contentSha256 = some contentSha →
    NoneOpenFor m (o.request peer folder contentSha total)

theorem heldFor_ran {env : OfferEnv} (h : Kept sha m j.disk) (hclosed : m[o.id]? = none)
    (hopen : NoneOpen m peer o total) :
    ∃ ops, (Engine.heldFor peer o total env j).1 = j.write ops ∧ Ran sha j.disk ops m ∧
      ∀ held, (Engine.heldFor peer o total env j).2 = .ok (some held) →
        Loaded (j.write ops).disk o.id held.1 held.2 := by
  obtain ⟨ops, hwrite, hran, -, hsome, hgone⟩ := loadReceive_ran h o.id
  rcases hload : loadReceive j o.id with ⟨j', held⟩
  rw [hload] at hwrite hsome hgone
  simp only at hwrite hsome hgone
  subst hwrite
  have hplain : ∀ held', held = some held' → Loaded (j.write ops).disk o.id held'.1 held'.2 := by
    intro held' heq
    obtain ⟨rfl, hloaded⟩ := hsome held' heq
    rw [Journal.write_nil]
    exact hloaded
  cases held with
  | some held =>
    have heq : Engine.heldFor peer o total env j = (j.write ops, .ok (some held)) := by
      unfold Engine.heldFor
      rw [hload]
    rw [heq]
    refine ⟨ops, rfl, hran, ?_⟩
    intro held' hheld
    cases hheld
    exact hplain held rfl
  | none =>
    cases hfolder : o.folder with
    | none =>
      have heq : Engine.heldFor peer o total env j = (j.write ops, .ok none) := by
        unfold Engine.heldFor
        rw [hload, hfolder]
      rw [heq]
      refine ⟨ops, rfl, hran, ?_⟩
      intro held' hheld
      cases hheld
    | some folder =>
      cases hsha : o.contentSha256 with
      | none =>
        have heq : Engine.heldFor peer o total env j = (j.write ops, .ok none) := by
          unfold Engine.heldFor
          rw [hload, hfolder, hsha]
        rw [heq]
        refine ⟨ops, rfl, hran, ?_⟩
        intro held' hheld
        cases hheld
      | some contentSha =>
        -- A folder file may take over what another transfer left.
        obtain ⟨more, hmore, hran'⟩ := @adoptBucketPartial_ran _ _
          (o.request peer folder contentSha total) env.adopts hclosed
          (hopen folder contentSha hfolder hsha) env.entries (j.write ops) false hran.kept
          (fun _ => hgone rfl)
        rcases hadopt : adoptBucketPartial (o.request peer folder contentSha total) env.adopts
          (j.write ops) false env.entries with ⟨j', adopted⟩
        rw [hadopt] at hmore
        simp only [Journal.write_write] at hmore
        subst hmore
        have hboth := hran.append hran'
        have hfor : Engine.heldFor peer o total env j =
            match adopted with
            | .error words => (j.write (ops ++ more), .error words)
            | .ok false => (j.write (ops ++ more), .ok none)
            | .ok true =>
              ((loadReceive (j.write (ops ++ more)) o.id).1,
                .ok (loadReceive (j.write (ops ++ more)) o.id).2) := by
          unfold Engine.heldFor
          rw [hload, hfolder, hsha]
          simp only
          unfold Offer.request at hadopt
          rw [hadopt]
          rcases adopted with words | (_ | _) <;> rfl
        rw [hfor]
        rcases adopted with words | (_ | _)
        · refine ⟨ops ++ more, rfl, hboth, ?_⟩
          intro held' hheld
          cases hheld
        · refine ⟨ops ++ more, rfl, hboth, ?_⟩
          intro held' hheld
          cases hheld
        · obtain ⟨last, hlast, hran'', -, hsome', -⟩ := loadReceive_ran hboth.kept o.id
            (j := j.write (ops ++ more))
          refine ⟨(ops ++ more) ++ last, ?_, hboth.append hran'', ?_⟩
          · exact hlast.trans (Journal.write_write _ _ _)
          · intro held' hheld
            obtain ⟨rfl, hloaded⟩ := hsome' held' (by simpa using hheld)
            rw [List.append_nil]
            exact hloaded

/-- A new file under a name that has no record. -/
theorem ran_create (h : Kept sha m d) (hclosed : m[k]? = none)
    (hnone : d.checkpoint k = none) : Ran sha d [.createPart k] m ∧
      Unclaimed m (d.after (.createPart k)) k d.nextFile := by
  have hl := h.linked
  have hpart : ∀ j f, (d.after (.createPart k)).part j = some f →
      (j = k ∧ f = d.nextFile) ∨ (j ≠ k ∧ d.part j = some f) := by
    intro j f hf
    by_cases hj : j = k
    · subst hj
      simp only [Disk.after, Function.update_self] at hf
      exact Or.inl ⟨rfl, (Option.some.inj hf).symm⟩
    · simp only [Disk.after, Function.update_of_ne hj] at hf
      exact Or.inr ⟨hj, hf⟩
  have hcontent : ∀ f, f < d.nextFile → (d.after (.createPart k)).content f = d.content f :=
    fun f hf => Function.update_of_ne hf.ne _ _
  have hnew : ∀ (j : String) (x : Incoming), m[j]? = some x → x.file ≠ d.nextFile :=
    fun j x hx => (hl.openOld j x hx).ne
  have hhonest : ∀ j, (j = k ∨ HonestAt sha d j) → HonestAt sha (d.after (.createPart k)) j := by
    intro j hj c f hc hf i hash hi hin hhash hend
    rcases hpart j f hf with ⟨rfl, -⟩ | ⟨hjk, hf⟩
    · have hc' : d.checkpoint j = some c := hc
      rw [hnone] at hc'
      cases hc'
    · rw [hcontent f (hl.old j f hf)] at hend ⊢
      rcases hj with hj | hj
      · exact absurd hj hjk
      · exact hj c f hc hf i hash hi hin hhash hend
  have hnamed : Named (d.after (.createPart k)) := by
    refine ⟨?_, ?_⟩
    · intro j f hf
      rcases hpart j f hf with ⟨-, rfl⟩ | ⟨-, hf⟩
      · exact Nat.lt_succ_self _
      · exact (hl.old j f hf).trans (Nat.lt_succ_self _)
    · intro j l f hj hl'
      rcases hpart j f hj with ⟨hjk, hjf⟩ | ⟨-, hj'⟩ <;>
        rcases hpart l f hl' with ⟨hlk, hlf⟩ | ⟨-, hl''⟩
      · exact hjk.trans hlk.symm
      · exact absurd (hl.old l f hl'') (hjf ▸ lt_irrefl _)
      · exact absurd (hl.old j f hj') (hlf ▸ lt_irrefl _)
      · exact hl.inj j l f hj' hl''
  refine ⟨ran_of_along ⟨h, ⟨hnamed, hl.id_eq, ?_, hl.openInj, ?_, ?_, hl.record⟩, ?_,
    fun j => hhonest j (Or.inr (h.honest j))⟩, ?_⟩
  · intro j x hx
    exact (hl.openOld j x hx).trans (Nat.lt_succ_self _)
  · intro j l x hx hp
    rcases hpart j _ hp with ⟨-, hf⟩ | ⟨-, hp⟩
    · exact absurd hf (hnew l x hx)
    · exact hl.openName j l x hx hp
  · intro j x f hx hp
    rcases hpart j f hp with ⟨rfl, -⟩ | ⟨-, hp⟩
    · rw [hclosed] at hx
      cases hx
    · exact hl.ownFile j x f hx hp
  · intro j x hx
    rw [hcontent x.file (hl.openOld j x hx)]
    exact h.sound j x hx
  · refine ⟨hclosed, Nat.lt_succ_self _, hnew, ?_, ?_⟩
    · intro j hp
      rcases hpart j _ hp with ⟨hj, -⟩ | ⟨-, hp⟩
      · exact hj
      · exact absurd (hl.old j _ hp) (lt_irrefl _)
    · intro f hp
      rcases hpart k f hp with ⟨-, hf⟩ | ⟨hk, -⟩
      · exact hf
      · exact absurd rfl hk

/-- The name of a closed transfer leads to a file that is nobody's. -/
theorem Linked.unclaimed (h : Linked m d) (hclosed : m[k]? = none) (hpart : d.part k = some file) :
    Unclaimed m d k file where
  closed := hclosed
  old := h.old k file hpart
  notOpen j x hx hf := by
    have hj : k = j := h.openName k j x hx (hf ▸ hpart)
    rw [← hj, hclosed] at hx
    cases hx
  name j hj := h.inj j k file hj hpart
  own f hf := Option.some.inj (hf.symm.trans hpart)

/-- A transfer is opened on what the store holds of it: the file is cut to
the blocks the record vouches for. -/
theorem ran_resume (h : Kept sha m d) (hclosed : m[k]? = none) {c : ReceiveCheckpoint}
    (hl : Loaded d k c hashes) (hpart : d.part k = some file) {x : Incoming} (hid : x.id = k)
    (hfile : x.file = file) (hrecord : RecordOf x c) (hhashes : x.hashes = hashes)
    (hoff : x.nextOffset = blockStart c.totalSize hashes.length) (hhasher : x.hasher = none)
    (hy : FlagsOnly y x) (hm : Updates m m' k y) (saved : Saved) :
    Ran sha d (.setLen file x.nextOffset :: x.checkpointWrites saved) m' := by
  subst hhashes
  have htotal := hrecord.totalSize.symm
  have hbacked : Backed sha c.totalSize x.hashes (d.content file) := hl.backed (h.honest k) hpart
  have hcut := hbacked.take (le_refl x.hashes.length)
  rw [List.take_length] at hcut
  have hlen : (setLength (d.content file) (blockStart c.totalSize x.hashes.length)).length
      = blockStart c.totalSize x.hashes.length := by
    rw [setLength_of_le hbacked.holds, List.length_take, min_eq_left hbacked.holds]
  have hsound : Sound sha x
      (setLength (d.content file) (blockStart c.totalSize x.hashes.length)) := by
    refine sound_at_boundary (htotal ▸ hcut) (htotal ▸ hoff) hhasher ?_ (Or.inl ?_)
    · rw [hlen, htotal]
      exact blockStart_le_total _ _
    · rw [hlen, htotal]
      exact le_refl _
  have hopen : Ran sha d [.setLen file x.nextOffset] m' := by
    refine ran_open h (h.linked.unclaimed hclosed hpart) ?_ ((congrArg Ident.id hy.ident).trans hid)
      ((congrArg Ident.file hy.ident).trans hfile) ?_ ?_ ?_ hm
    · intro op hop
      rw [List.mem_singleton.mp hop]
      exact .setLen _
    · simp only [Lib.applyAll_cons, Lib.applyAll_nil, Disk.after, Function.update_self, hoff]
      exact hsound.congr hy
    · -- The record there is the one it was opened on, as it was saved.
      intro c' hc'
      obtain ⟨c₀, hc₀, hcc, -, -⟩ := hl.stored
      have hc' : d.checkpoint k = some c' := hc'
      obtain rfl := Option.some.inj (hc₀.symm.trans hc')
      subst hcc
      exact RecordOf.congr ⟨hrecord.deviceId, hrecord.totalSize, hrecord.folder,
        hrecord.contentSha256⟩ hy.ident
    · exact ⟨h.honest k, honestAt_setLen (h.honest k) (hoff ▸ hbacked.holds)⟩
  exact hopen.record ((hm k).trans (if_pos rfl)) hy.ident.symm hy.hashes.symm saved

/-- A transfer is opened on a new file. -/
theorem ran_fresh (h : Kept sha m d) (hclosed : m[k]? = none) (hnone : d.checkpoint k = none)
    {x : Incoming} (hid : x.id = k) (hfile : x.file = d.nextFile) (hhashes : x.hashes = [])
    (hoff : x.nextOffset = 0) (hhasher : x.hasher = none) (hy : FlagsOnly y x)
    (hm : Updates m m' k y) (saved : Saved) :
    Ran sha d (.createPart k :: x.checkpointWrites saved) m' := by
  obtain ⟨hcreate, hun⟩ := ran_create h hclosed hnone
  have hempty : (d.after (.createPart k)).content d.nextFile = [] := Function.update_self ..
  have hnil : Backed sha x.total x.hashes [] := by
    rw [hhashes]
    exact ⟨by simp, by simp⟩
  have hsound : Sound sha x [] := by
    refine sound_at_boundary hnil ?_ hhasher (by simp) (Or.inl (by simp))
    rw [hoff, Incoming.verified, hhashes]
    simp
  have hnone' : (d.after (.createPart k)).checkpoint k = none := hnone
  have hopen : Ran sha (d.after (.createPart k)) [] m' := by
    have hhonest : Lib.AllAlong Disk.after (HonestAt sha · k) (d.after (.createPart k)) [] :=
      honestAt_of_noCheckpoint hnone'
    refine ran_open hcreate.kept hun (by simp) ((congrArg Ident.id hy.ident).trans hid)
      ((congrArg Ident.file hy.ident).trans hfile) ?_ ?_ hhonest hm
    · show Sound sha y ((d.after (.createPart k)).content d.nextFile)
      rw [hempty]
      exact hsound.congr hy
    · intro c hc
      cases hnone'.symm.trans hc
  exact (hcreate.append hopen).record ((hm k).trans (if_pos rfl)) hy.ident.symm hy.hashes.symm saved

/-- What `begin_incoming` opens on a held record is of it. -/
theorem opened_carriedOn {filename : String} {c : ReceiveCheckpoint}
    (h : Engine.resumes peer o filename total c = true) (hashes : List Hash) (mtime : Int)
    (file : Nat) :
    (Engine.opened total (Engine.carriedOn o c) hashes mtime file).id = c.transferId ∧
    (Engine.opened total (Engine.carriedOn o c) hashes mtime file).nextOffset
      = blockStart c.totalSize c.blocksDone ∧
    RecordOf (Engine.opened total (Engine.carriedOn o c) hashes mtime file) c := by
  unfold Engine.resumes at h
  unfold Engine.opened Engine.carriedOn
  cases hnew : o.folder with
  | none =>
    cases hold : c.folder with
    | none =>
      simp only [hnew, hold, Bool.and_eq_true, beq_iff_eq] at h
      exact ⟨rfl, congrArg (blockStart · c.blocksDone) h.1.1.2.symm, rfl, h.1.1.2, rfl, rfl⟩
    | some old => simp [hnew, hold] at h
  | some new =>
    cases hold : c.folder with
    | none => simp [hnew, hold] at h
    | some old =>
      simp only [hnew, hold, Bool.and_eq_true, beq_iff_eq] at h
      obtain ⟨⟨⟨⟨-, htotal⟩, hfolder⟩, hrelpath⟩, -⟩ := h
      refine ⟨rfl, congrArg (blockStart · c.blocksDone) htotal.symm, rfl, htotal, ?_, rfl⟩
      rw [hold]
      exact congrArg some (Prod.ext hfolder.symm hrelpath.symm)

/-- `begin_incoming` keeps the store; a transfer it opens is in step. -/
theorem beginIncoming_ran {filename : String} {env : OfferEnv} (h : Kept sha m j.disk)
    (hclosed : m[o.id]? = none) (hopen : NoneOpen m peer o total) :
    ∃ ops, (Engine.beginIncoming peer o filename total env j).1 = j.write ops ∧
      ((∃ words, (Engine.beginIncoming peer o filename total env j).2 = .error words) →
        Ran sha j.disk ops m) ∧
      ∀ x, (Engine.beginIncoming peer o filename total env j).2 = .ok x →
        ∀ (y : Incoming) (m' : KeyMap Incoming), FlagsOnly y x → Updates m m' o.id y →
          Ran sha j.disk ops m' := by
  obtain ⟨ops, hwrite, hran, hloaded⟩ := heldFor_ran h hclosed hopen
  unfold Engine.beginIncoming
  rcases hheld : Engine.heldFor peer o total env j with ⟨j₁, held⟩
  rw [hheld] at hwrite hloaded
  simp only at hwrite hloaded
  subst hwrite
  cases held with
  | error words => exact ⟨ops, rfl, fun _ => hran, by simp⟩
  | ok held =>
    simp only
    split
    · rename_i c hashes hfilter
      obtain ⟨hheldEq, hresumes⟩ := Option.filter_eq_some_iff.mp hfilter
      have hl : Loaded (j.write ops).disk o.id c hashes :=
        hloaded (c, hashes) (by rw [hheldEq])
      split
      · exact ⟨ops, rfl, fun _ => hran, by simp⟩
      · rename_i file hpart
        split
        · exact ⟨ops, rfl, fun _ => hran, by simp⟩
        · obtain ⟨hid, hoff, hrecord⟩ :=
            opened_carriedOn hresumes hashes (o.mtime.getD 0) file
          have hdone : c.blocksDone = hashes.length := by
            obtain ⟨c₀, -, hcc, -, -⟩ := hl.stored
            rw [hcc]
          refine ⟨_, Journal.write_write _ _ _, by simp, ?_⟩
          intro x hx y m' hy hm
          rw [← Except.ok.inj hx] at hy
          refine hran.append (ran_resume hran.kept hclosed hl hpart (hid.trans hl.sane.1) rfl
            hrecord rfl (hdone ▸ hoff) rfl ?_ hm env.record)
          exact ⟨hy.ident, hy.nextOffset, hy.hashes, hy.hasher⟩
    · have hremoved := hran.append (ran_remove hran.kept o.id)
      rw [Journal.write_write]
      split
      · exact ⟨_, rfl, fun _ => hremoved, by simp⟩
      · refine ⟨_, Journal.write_write _ _ _, by simp, ?_⟩
        intro x hx y m' hy hm
        rw [← Except.ok.inj hx] at hy
        have hnone : (j.write (ops ++ removeReceive o.id)).disk.checkpoint o.id = none := by
          rw [← Journal.write_write]
          simp [Journal.write, removeReceive, Disk.after]
        refine hremoved.append (ran_fresh hremoved.kept hclosed hnone rfl rfl rfl ?_ rfl ?_ hm
          env.record)
        · show blockStart total 0 = 0
          simp
        · exact ⟨hy.ident, hy.nextOffset, hy.hashes, hy.hasher⟩

end DeskLink.Transfer
