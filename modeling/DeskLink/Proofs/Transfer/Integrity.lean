import DeskLink.Lib.Run
import DeskLink.Proofs.Transfer.Open

/-!
# `DeskLink.Proofs.Transfer.Integrity`: what is published was received

`handle_ran` says that every event, a message of any content or a part of
a tick, keeps the open transfers in step with their files (`Kept`), when a
frame agrees with the saved record (`AgreesWith`). From it
`receiver_integrity` follows for every run of such events: a transfer that
reaches `finish_incoming` has a file of the size offered, the hash of each
block is the hash that was recorded, and the hash over those is the one in
the sender's `done`. An acknowledgement carries the hash that is recorded,
and a write begins past the blocks verified when it is made.

`restart_at` forgets hashes, and the saved record still lists them. When
the blocks come again with other bytes and the next record cannot be
saved, the transfer is carried on later with the hashes of the old bytes,
and the file is published (`stale_record_published`).
-/

set_option autoImplicit false

namespace DeskLink.Transfer

variable {sha : Bytes → Hash} {m : KeyMap Incoming} {x : Incoming} {e : Engine} {L : List Incoming}
variable {o : Offer}

/-! ### Closing what an offer replaces -/

theorem erase_foldl_some {j : String} {z : Incoming}
    (h : (L.foldl (fun m x => m.erase x.id) m)[j]? = some z) :
    m[j]? = some z ∧ ∀ x ∈ L, x.id ≠ j := by
  induction L generalizing m with
  | nil => exact ⟨h, by simp⟩
  | cons x L ih =>
    obtain ⟨hz, hrest⟩ := ih h
    rw [getElem?_keyErase] at hz
    split at hz
    · cases hz
    · rename_i hne
      refine ⟨hz, ?_⟩
      intro y hy
      rcases List.mem_cons.mp hy with rfl | hy
      · exact hne
      · exact hrest y hy

/-- The transfers of `L` are checkpointed and closed, one after the other. -/
theorem ran_closeAll (saved : String → Saved) : ∀ {m : KeyMap Incoming} {d : Disk}, Kept sha m d →
      L.Pairwise (fun x y => x.id ≠ y.id) → (∀ x ∈ L, m[x.id]? = some x) →
      Ran sha d (L.flatMap (fun x => x.checkpointWrites (saved x.id)))
        (L.foldl (fun m x => m.erase x.id) m) := by
  induction L with
  | nil =>
    intro m d h _ _
    exact h.ran
  | cons x L ih =>
    intro m d h hdistinct hopen
    rw [List.pairwise_cons] at hdistinct
    have hclose : Ran sha d (x.checkpointWrites (saved x.id)) (m.erase x.id) :=
      ran_checkpointed h (hopen x (List.mem_cons_self ..)) false (saved x.id)
    refine hclose.append (ih hclose.kept hdistinct.2 ?_)
    intro y hy
    rw [getElem?_keyErase, if_neg (hdistinct.1 y hy)]
    exact hopen y (List.mem_cons_of_mem _ hy)

theorem mem_values (hid : ∀ (k : String) (x : Incoming),
    m[k]? = some x → x.id = k) : x ∈ m.toList.map (·.2) ↔ m[x.id]? = some x := by
  constructor
  · intro h
    obtain ⟨⟨k, y⟩, hmem, rfl⟩ := List.mem_map.mp h
    have hk := Std.ExtTreeMap.mem_toList_iff_getElem?_eq_some.mp hmem
    rw [hid k y hk]
    exact hk
  · intro h
    exact List.mem_map.mpr ⟨(x.id, x), Std.ExtTreeMap.mem_toList_iff_getElem?_eq_some.mpr h, rfl⟩

theorem values_distinct (hid : ∀ (k : String) (x : Incoming),
    m[k]? = some x → x.id = k) : (m.toList.map (·.2)).Pairwise (fun x y => x.id ≠ y.id) := by
  rw [List.pairwise_map]
  refine (Std.ExtTreeMap.distinct_keys_toList (t := m)).imp_of_mem ?_
  intro a b ha hb hab heq
  have hak := hid a.1 a.2 (Std.ExtTreeMap.mem_toList_iff_getElem?_eq_some.mp ha)
  have hbk := hid b.1 b.2 (Std.ExtTreeMap.mem_toList_iff_getElem?_eq_some.mp hb)
  exact hab (by rw [← hak, ← hbk, heq]; exact Std.ReflCmp.compare_self)

/-- What an offer replaces is closed with honest records, and no transfer
of the folder file it asks for is open then. -/
theorem ran_closeStale (h : Kept sha e.incoming e.disk) (saved : String → Saved) (total : Nat)
    (hclosed : e.incoming[o.id]? = none) :
    Ran sha e.disk (e.closeStale saved (e.staleFor o total)).2
        (e.closeStale saved (e.staleFor o total)).1 ∧
      (e.closeStale saved (e.staleFor o total)).1[o.id]? = none ∧
      NoneOpen (e.closeStale saved (e.staleFor o total)).1 e.peer o total := by
  have hid := h.linked.id_eq
  have hsub : ∀ x ∈ e.staleFor o total, e.incoming[x.id]? = some x := by
    intro x hx
    unfold Engine.staleFor at hx
    split at hx
    · exact (mem_values hid).mp (List.mem_filter.mp hx).1
    · cases hx
  have hdistinct : (e.staleFor o total).Pairwise (fun x y => x.id ≠ y.id) := by
    unfold Engine.staleFor
    split
    · exact (values_distinct hid).filter _
    · exact List.Pairwise.nil
  refine ⟨ran_closeAll saved h hdistinct hsub, ?_, ?_⟩
  · cases hz : (e.closeStale saved (e.staleFor o total)).1[o.id]? with
    | none => rfl
    | some z =>
      have := (erase_foldl_some hz).1
      rw [hclosed] at this
      cases this
  · intro folder contentSha hfolder hsha k x hx
    obtain ⟨hopen, hnot⟩ := erase_foldl_some hx
    have hxk := hid k x hopen
    cases hsame : Engine.sameOpenFile (o.request e.peer folder contentSha total).deviceId
        (o.request e.peer folder contentSha total).folder
        (o.request e.peer folder contentSha total).contentSha256
        (o.request e.peer folder contentSha total).total x with
    | false => rfl
    | true =>
      -- It would have been closed.
      have hne : x.id ≠ o.id := by
        intro heq
        rw [← hxk, heq, hclosed] at hopen
        cases hopen
      have hmem : x ∈ e.staleFor o total := by
        unfold Engine.staleFor
        rw [hfolder, hsha]
        refine List.mem_filter.mpr ⟨(mem_values hid).mpr (hxk.symm ▸ hopen), ?_⟩
        simp only [Bool.and_eq_true, bne_iff_ne]
        exact ⟨hne, hsame⟩
      exact absurd hxk (hnot x hmem)

/-! ### Every event -/

/-- What an event left: its writes, and the transfers kept after them. -/
def Engine.Good (sha : Bytes → Hash) (e : Engine) (h : Handled) : Prop :=
  ∃ ops, h.journal = Journal.write ⟨e.disk, []⟩ ops ∧ Ran sha e.disk ops h.incoming

/-- The frame of an event agrees with the record of its transfer. -/
def AgreesWith (sha : Bytes → Hash) (e : Engine) : Event → Prop
  | .frame f io => ∀ x, e.incoming[f.header.transfer]? = some x → Agrees sha e.disk x io f
  | _ => True

instance (sha : Bytes → Hash) (e : Engine) (event : Event) : Decidable (AgreesWith sha e event) :=
  match event with
  | .frame f io =>
    inferInstanceAs (Decidable (∀ x ∈ e.incoming[f.header.transfer]?, Agrees sha e.disk x io f))
  | .offer .. | .done .. | .laneOpened .. | .laneLost .. | .laneSwitch .. | .dropped ..
  | .cancelled .. | .overflowed .. | .backlogged .. | .drained .. | .storageFreed ..
  | .checkpointDue .. | .shutDown .. => .isTrue trivial

section Events
variable {e : Engine} {k : String} {x y : Incoming}

theorem good_unchanged (h : Kept sha e.incoming e.disk) : e.Good sha e.unchanged :=
  ⟨[], (Journal.write_nil _).symm, h.ran⟩

/-- A method of an open transfer: it goes on in step, or it ends. -/
theorem good_settle (h : Kept sha e.incoming e.disk) (hx : e.incoming[x.id]? = some x)
    {r : Incoming.Result} (hident : r.ending = none → r.incoming.ident = x.ident)
    (hsound : r.ending = none →
      Sound sha r.incoming (fileAfter (e.disk.content x.file) r.ops))
    (hown : Lib.AllAlong Disk.after (HonestAt sha · x.id) e.disk
      (Engine.fileWrites x.file r.ops)) : e.Good sha (e.settle x r) := by
  unfold Engine.settle
  cases hend : r.ending with
  | some ending => exact ⟨_, rfl, ran_end h hx r.ops hown⟩
  | none =>
    refine ⟨_, rfl, ran_settle h hx (hident hend) (hsound hend) hown ?_⟩
    exact updates_insert _ _ _

/-- The partial file is cut to verified blocks, and the transfer goes on. -/
theorem good_cut (h : Kept sha e.incoming e.disk) (hx : e.incoming[x.id]? = some x) (blocks : Nat)
    (pass : UInt8) {z : Incoming} (hzident : z.ident = x.ident) (hzhashes : z.hashes = x.hashes)
    (hy : FlagsOnly y (z.restartAt blocks pass)) :
    Ran sha e.disk [.setLen x.file (x.keepAt blocks)] (e.incoming.insert x.id y) := by
  have hs := h.sound x.id x hx
  have hle : x.keepAt blocks ≤ (e.disk.content x.file).length :=
    (blockStart_mono x.total (min_le_right _ _)).trans hs.backed.holds
  have hkeep : z.keepAt blocks = x.keepAt blocks := by
    have htotal : z.total = x.total := congrArg Ident.total hzident
    rw [Incoming.keepAt, Incoming.keepAt, Incoming.verified, Incoming.verified, htotal, hzhashes]
  have hbacked : Backed sha z.total z.hashes (e.disk.content x.file) := by
    have htotal : z.total = x.total := congrArg Ident.total hzident
    rw [htotal, hzhashes]
    exact hs.backed
  have hident : y.ident = x.ident := hy.ident.trans hzident
  refine ran_update h hx ?_ hident (updates_insert _ _ _) ?_ ?_ ?_
  · intro op hop
    rw [List.mem_singleton.mp hop]
    exact .setLen _
  · show Sound sha y ((e.disk.after (.setLen x.file (x.keepAt blocks))).content x.file)
    simp only [Disk.after, Function.update_self]
    rw [← hkeep]
    exact (restartAt_sound hbacked blocks pass).congr hy
  · intro c hc
    exact (h.linked.record x.id x c hx hc).congr hident
  · exact ⟨h.honest x.id, honestAt_setLen (h.honest x.id) hle⟩

/-- Flags of an open transfer change, and nothing is written. -/
theorem good_flags (h : Kept sha e.incoming e.disk) (hx : e.incoming[x.id]? = some x)
    (hy : FlagsOnly y x) : Ran sha e.disk [] (e.incoming.insert x.id y) := by
  refine ran_update h hx (by simp) hy.ident (updates_insert _ _ _) ?_ ?_ ?_
  · exact (h.sound x.id x hx).congr hy
  · intro c hc
    exact (h.linked.record x.id x c hx hc).congr hy.ident
  · exact h.honest x.id

theorem good_discard (h : Kept sha e.incoming e.disk) (hx : e.incoming[x.id]? = some x) :
    Ran sha e.disk (removeReceive x.id) (e.incoming.erase x.id) :=
  ran_end h hx [] (h.honest x.id)

theorem good_offeredAgain (h : Kept sha e.incoming e.disk)
    (hx : e.incoming[x.id]? = some x) {o : Offer} (hid : o.id = x.id) (filename : String)
    (total : Nat) (env : OfferEnv) : e.Good sha (e.offeredAgain sha o filename total env x) := by
  unfold Engine.offeredAgain
  split
  · exact good_unchanged h
  · rw [hid]
    cases hset : env.setLen with
    | true => exact ⟨_, rfl, good_cut h hx x.verified x.pass rfl rfl ⟨rfl, rfl, rfl, rfl⟩⟩
    | false => exact ⟨_, rfl, good_flags h hx ⟨rfl, rfl, rfl, rfl⟩⟩

theorem good_onOffer (h : Kept sha e.incoming e.disk) (o : Offer) (env : OfferEnv) :
    e.Good sha (e.onOffer sha o env) := by
  unfold Engine.onOffer
  split
  · rename_i filename total hfilename htotal
    split
    · exact good_unchanged h
    · split
      · exact good_unchanged h
      · split
        · exact good_unchanged h
        · cases hopen : e.incoming[o.id]? with
          | some x =>
            have hid : x.id = o.id := h.linked.id_eq o.id x hopen
            exact good_offeredAgain h (hid ▸ hopen) hid.symm filename total env
          | none =>
            obtain ⟨hstale, hclosed, hnone⟩ := ran_closeStale h env.stale total hopen
            generalize hclose : e.closeStale env.stale (e.staleFor o total) = closed at hstale hclosed hnone
            obtain ⟨m, writes⟩ := closed
            simp only at hstale hclosed hnone ⊢
            split
            · exact ⟨writes, rfl, hstale⟩
            · obtain ⟨ops, hwrite, hfail, hok⟩ := beginIncoming_ran
                (j := Journal.write ⟨e.disk, []⟩ writes) hstale.kept hclosed hnone
              split
              · rename_i j words hbegin
                rw [hbegin] at hwrite hfail
                refine ⟨writes ++ ops, ?_, hstale.append (hfail ⟨words, rfl⟩)⟩
                rw [← Journal.write_write]
                exact hwrite
              · rename_i j x hbegin
                rw [hbegin] at hwrite hok
                refine ⟨writes ++ ops, ?_, hstale.append (hok x rfl _ _ ?_ (updates_insert _ _ _))⟩
                · rw [← Journal.write_write]
                  exact hwrite
                · exact ⟨rfl, rfl, rfl, rfl⟩
  · exact good_unchanged h

theorem good_finishIncoming (h : Kept sha e.incoming e.disk)
    (hx : e.incoming[x.id]? = some x) (io : Io) (place : Placed) :
    e.Good sha (e.finishIncoming sha x io place) := by
  cases place with
  | placed => exact ⟨_, rfl, good_discard h hx⟩
  | failed words partGone => exact ⟨_, rfl, ran_checkpointed h hx partGone io.record⟩

theorem good_onDone (h : Kept sha e.incoming e.disk) (msg : Done) (io : Io) (place : Placed) :
    e.Good sha (e.onDone sha msg io place) := by
  unfold Engine.onDone
  split
  · exact good_unchanged h
  · rename_i x hopen
    have hid : x.id = msg.id := h.linked.id_eq msg.id x hopen
    have hx : e.incoming[x.id]? = some x := hid ▸ hopen
    split
    · exact good_unchanged h
    · split
      · exact ⟨_, rfl, good_discard h hx⟩
      · split
        · exact good_finishIncoming h hx io place
        · split
          · exact ⟨_, rfl, good_discard h hx⟩
          · split
            · exact ⟨_, rfl, good_discard h hx⟩
            · exact ⟨_, rfl, good_cut h hx 0 (nextPass x.pass)
                (z := { x with wholeResends := x.wholeResends + 1 }) rfl rfl ⟨rfl, rfl, rfl, rfl⟩⟩

theorem good_restartAndResume (h : Kept sha e.incoming e.disk)
    (hx : e.incoming[x.id]? = some x) (io : Io) :
    e.Good sha (e.settle x (x.restartAndResume sha io)) := by
  have hs := h.sound x.id x hx
  refine good_settle h hx ?_ (restartAndResume_sound hs) ?_
  · intro _
    unfold Incoming.restartAndResume
    split <;> rfl
  · have hhon := h.honest x.id
    have hle : x.keepAt x.verified ≤ (e.disk.content x.file).length :=
      (blockStart_mono x.total (min_le_right _ _)).trans hs.backed.holds
    unfold Incoming.restartAndResume
    split
    · exact hhon
    · exact ⟨hhon, honestAt_setLen hhon hle⟩

/-- Every event keeps the open transfers in step with their files. -/
theorem handle_ran (h : Kept sha e.incoming e.disk) (event : Event)
    (hagree : AgreesWith sha e event) : e.Good sha (e.handle sha event) := by
  -- An event of one transfer does nothing when the transfer is not open.
  have hwith : ∀ (id : String) (f : Incoming → Handled),
      (∀ x, e.incoming[id]? = some x → x.id = id → e.incoming[x.id]? = some x →
        e.Good sha (f x)) → e.Good sha (e.withOpen id f) := by
    intro id f hf
    unfold Engine.withOpen
    split
    · exact good_unchanged h
    · rename_i x hopen
      have hid : x.id = id := h.linked.id_eq id x hopen
      exact hf x hopen hid (hid ▸ hopen)
  cases event with
  | offer o env => exact good_onOffer h o env
  | done msg io place => exact good_onDone h msg io place
  | frame f io =>
    refine hwith _ _ (fun x hopen hid hx => ?_)
    have hs := h.sound x.id x hx
    refine good_settle h hx onFrame_ident (onFrame_sound hs) ?_
    refine onFrame_honest hs (h.honest x.id) ?_ ?_ (hagree x hopen)
    · intro n hn
      exact h.linked.ownFile x.id x n hx hn
    · intro c hc
      exact (h.linked.record x.id x c hx hc).totalSize
  | laneOpened id startBlock pass serial io =>
    refine hwith _ _ (fun x hopen hid hx => ?_)
    unfold Engine.laneOpened
    split
    · exact good_unchanged h
    · exact ⟨_, rfl, good_cut h hx startBlock pass rfl rfl ⟨rfl, rfl, rfl, rfl⟩⟩
  | laneLost id serial =>
    refine hwith _ _ (fun x hopen hid hx => ?_)
    unfold Engine.laneLost
    split
    · exact ⟨_, (Journal.write_nil _).symm, good_flags h hx ⟨rfl, rfl, rfl, rfl⟩⟩
    · exact good_unchanged h
  | laneSwitch id token tcp startBlock pass io =>
    refine hwith _ _ (fun x hopen hid hx => ?_)
    unfold Engine.onLaneSwitch
    split
    · exact good_unchanged h
    · split
      · exact good_unchanged h
      · split
        · exact good_unchanged h
        · exact ⟨_, rfl, good_cut h hx x.verified pass rfl rfl ⟨rfl, rfl, rfl, rfl⟩⟩
  | dropped id token =>
    refine hwith _ _ (fun x hopen hid hx => ?_)
    split
    · exact ⟨_, rfl, good_discard h hx⟩
    · exact good_unchanged h
  | cancelled id =>
    refine hwith _ _ (fun x hopen hid hx => ?_)
    exact ⟨_, rfl, good_discard h hx⟩
  | overflowed id io =>
    refine hwith _ _ (fun x hopen hid hx => ?_)
    split
    · exact good_unchanged h
    · exact good_restartAndResume h hx io
  | backlogged id =>
    refine hwith _ _ (fun x hopen hid hx => ?_)
    split
    · exact ⟨_, (Journal.write_nil _).symm, good_flags h hx ⟨rfl, rfl, rfl, rfl⟩⟩
    · exact good_unchanged h
  | drained id io =>
    refine hwith _ _ (fun x hopen hid hx => ?_)
    split
    · exact good_restartAndResume h hx io
    · exact good_unchanged h
  | storageFreed id io =>
    refine hwith _ _ (fun x hopen hid hx => ?_)
    split
    · exact good_restartAndResume h hx io
    · exact good_unchanged h
  | checkpointDue id saved =>
    refine hwith _ _ (fun x hopen hid hx => ⟨_, rfl, ?_⟩)
    refine (good_flags h hx (y := x.checkpointed saved) ⟨rfl, rfl, rfl, rfl⟩).record
      ((getElem?_keyInsert ..).trans (if_pos rfl)) rfl rfl saved
  | shutDown id saved =>
    exact hwith _ _ (fun x hopen hid hx => ⟨_, rfl, ran_checkpointed h hx false saved⟩)

end Events

variable {j : Journal} {peer : String} {ops : List DiskOp}

/-! ### Runs -/

def Engine.step (sha : Bytes → Hash) (e : Engine) (event : Event) : Option Engine :=
  some (e.next sha event)

/-- Nothing is open and nothing is on the disk. -/
theorem kept_new (peer : String) :
    Kept sha ({ peer := peer } : Engine).incoming ({ peer := peer } : Engine).disk := by
  have hnone : ∀ k : String, ({ peer := peer } : Engine).incoming[k]? = none := by
    intro k
    exact Std.ExtTreeMap.getElem?_empty
  refine ⟨⟨⟨by simp, by simp⟩, ?_, ?_, ?_, ?_, ?_, ?_⟩, ?_, fun k => honestAt_of_noPart rfl⟩ <;>
    · intros
      simp_all

theorem next_kept (h : Kept sha e.incoming e.disk) (event : Event)
    (hagree : AgreesWith sha e event) :
    Kept sha (e.next sha event).incoming (e.next sha event).disk := by
  obtain ⟨ops, hjournal, hran⟩ := handle_ran h event hagree
  show Kept sha (e.handle sha event).incoming (e.handle sha event).journal.disk
  rw [hjournal]
  exact hran.kept

theorem run_kept {events : List Event}
    (hmeet : Lib.StepsMeet (Engine.step sha) (AgreesWith sha) { peer := peer } events)
    (hrun : Lib.runFrom (Engine.step sha) { peer := peer } events = some e) :
    Kept sha e.incoming e.disk := by
  refine Lib.runFrom_invariant_of_steps (I := fun e => Kept sha e.incoming e.disk) ?_
    (kept_new peer) hmeet hrun
  intro e event e' h hagree hstep
  cases hstep
  exact next_kept h event hagree

/-! ### What an event that is no frame leaves alone -/

/-- No bytes are written into a file. -/
def Quiet (ops : List DiskOp) : Prop :=
  ∀ file offset bytes, DiskOp.writeAt file offset bytes ∉ ops

theorem Quiet.write (h : Quiet j.ops) (hops : Quiet ops) : Quiet (j.write ops).ops := by
  intro file offset bytes hmem
  exact (List.mem_append.mp hmem).elim (h file offset bytes) (hops file offset bytes)

theorem Saved.quiet {writes : List DiskOp} (h : Quiet writes) (saved : Saved) :
    Quiet (saved.made writes) :=
  fun file offset bytes hmem => h file offset bytes ((saved.made_prefix writes).subset hmem)

theorem quiet_saveReceive (c : ReceiveCheckpoint) (hashes : List Hash) :
    Quiet (saveReceive c hashes) := by
  simp [Quiet, saveReceive]

theorem quiet_checkpointWrites (x : Incoming) (saved : Saved) : Quiet (x.checkpointWrites saved) :=
  saved.quiet (quiet_saveReceive _ _)

theorem quiet_cons {op : DiskOp} (hop : ∀ file offset bytes, op ≠ .writeAt file offset bytes)
    (hops : Quiet ops) : Quiet (op :: ops) := by
  intro file offset bytes hmem
  exact (List.mem_cons.mp hmem).elim (fun heq => hop _ _ _ heq.symm) (hops file offset bytes)

theorem quiet_removeReceive (id : String) : Quiet (removeReceive id) := by
  simp [Quiet, removeReceive]

theorem quiet_loadReceive (h : Quiet j.ops) (id : String) : Quiet (loadReceive j id).1.ops := by
  unfold loadReceive
  split
  · exact h
  · split
    · exact h
    · exact h.write (quiet_removeReceive id)

theorem quiet_adoptWrites (r : BucketRequest) (saved : Saved) (old : String)
    (held : ReceiveCheckpoint) (hashes : List Hash) :
    Quiet (adoptWrites r saved old held hashes) := by
  intro file offset bytes hmem
  rcases List.mem_cons.mp hmem with heq | hmem
  · cases heq
  · rcases List.mem_append.mp hmem with hmem | hmem
    · exact saved.quiet (quiet_saveReceive _ _) file offset bytes hmem
    · split at hmem <;> simp at hmem

theorem quiet_adoptEntry {r : BucketRequest} {saved : Saved} {adopted : Bool} (h : Quiet j.ops)
    (old : String) : Quiet (adoptEntry r saved j adopted old).1.ops := by
  unfold adoptEntry
  have hload := quiet_loadReceive h old
  split
  · exact h
  · split
    · rename_i heq
      rw [heq] at hload
      exact hload
    · rename_i heq
      rw [heq] at hload
      split
      · exact hload
      · split
        · exact hload.write (quiet_removeReceive old)
        · split
          · exact hload
          · exact hload.write (quiet_adoptWrites _ _ _ _ _)

theorem quiet_adoptBucketPartial {r : BucketRequest} {saved : Saved} (entries : List String) :
    ∀ {j : Journal} {adopted : Bool}, Quiet j.ops →
      Quiet (adoptBucketPartial r saved j adopted entries).1.ops := by
  induction entries with
  | nil =>
    intro j adopted h
    exact h
  | cons old rest ih =>
    intro j adopted h
    have hentry : Quiet (adoptEntry r saved j adopted old).1.ops := quiet_adoptEntry h old
    unfold adoptBucketPartial
    split
    · rename_i heq
      rw [heq] at hentry
      exact hentry
    · rename_i heq
      rw [heq] at hentry
      exact ih hentry

theorem quiet_heldFor {total : Nat} {env : OfferEnv} (h : Quiet j.ops) :
    Quiet (Engine.heldFor peer o total env j).1.ops := by
  have hload := quiet_loadReceive h o.id
  unfold Engine.heldFor
  split
  · rename_i j' folder contentSha hj hfolder hsha
    rw [hj] at hload
    have hadopt := @quiet_adoptBucketPartial ⟨o.id, o.token, peer, folder, contentSha, total,
      o.mtime.getD 0⟩ env.adopts env.entries j' false hload
    simp only
    split
    · rename_i heq
      rw [heq] at hadopt
      exact hadopt
    · rename_i heq
      rw [heq] at hadopt
      exact hadopt
    · rename_i heq
      rw [heq] at hadopt
      exact quiet_loadReceive hadopt o.id
  · rename_i j' held _ _ hj _
    rw [hj] at hload
    exact hload

theorem quiet_beginIncoming {peer : String} {o : Offer} {filename : String} {total : Nat}
    {env : OfferEnv} {j : Journal} (h : Quiet j.ops) :
    Quiet (Engine.beginIncoming peer o filename total env j).1.ops := by
  have hheld : Quiet (Engine.heldFor peer o total env j).1.ops := quiet_heldFor h
  unfold Engine.beginIncoming
  split
  · rename_i heq
    rw [heq] at hheld
    exact hheld
  · rename_i heq
    rw [heq] at hheld
    split
    · split
      · exact hheld
      · split
        · exact hheld
        · exact hheld.write (quiet_cons (by simp) (quiet_checkpointWrites _ _))
    · have hremoved := hheld.write (quiet_removeReceive o.id)
      simp only
      split
      · exact hremoved
      · exact hremoved.write (quiet_cons (by simp) (quiet_checkpointWrites _ _))

/-- What an event that is no frame comes to: no bytes are written, no block
is acknowledged, and a transfer holds no hash it did not hold, unless it is
one that is accepted with all it holds. -/
structure Plain (sha : Bytes → Hash) (e : Engine) (h : Handled) : Prop where
  quiet : Quiet h.journal.ops
  noAck : ∀ id block hash, (id, Reply.blockAck block hash) ∉ h.replies
  hashes : ∀ (id : String) (y : Incoming), h.incoming[id]? = some y →
    (∃ x, e.incoming[id]? = some x ∧ y.hashes <+: x.hashes) ∨
      (id, Reply.accept y.verified (hashOfHashes sha y.hashes)) ∈ h.replies

section Plain
variable {e : Engine} {x : Incoming} {replies : List (String × Reply)} {d : Disk}
variable {ops : List DiskOp} {id : String}

theorem plain_unchanged : Plain sha e e.unchanged :=
  ⟨by simp [Quiet, Engine.unchanged], by simp [Engine.unchanged],
    fun _ y hy => Or.inl ⟨y, hy, List.prefix_refl _⟩⟩

/-- The open transfer `x` goes on as `y`, with no more hashes. -/
theorem plain_update (hx : e.incoming[x.id]? = some x) {y : Incoming} (hy : y.hashes <+: x.hashes)
    (hops : Quiet ops) (hreplies : ∀ id block hash, (id, Reply.blockAck block hash) ∉ replies) :
    Plain sha e ⟨e.incoming.insert x.id y, ⟨d, ops⟩, replies, none⟩ := by
  refine ⟨hops, hreplies, ?_⟩
  intro id z hz
  rw [getElem?_keyInsert] at hz
  left
  split at hz
  · rename_i heq
    cases hz
    exact ⟨x, heq ▸ hx, hy⟩
  · exact ⟨z, hz, List.prefix_refl _⟩

/-- The open transfer `x` is not open any more. -/
theorem plain_erase {finished : Option Incoming} (hops : Quiet ops)
    (hreplies : ∀ id block hash, (id, Reply.blockAck block hash) ∉ replies) :
    Plain sha e ⟨e.incoming.erase id, ⟨d, ops⟩, replies, finished⟩ := by
  refine ⟨hops, hreplies, ?_⟩
  intro j z hz
  rw [getElem?_keyErase] at hz
  split at hz
  · cases hz
  · exact Or.inl ⟨z, hz, List.prefix_refl _⟩

theorem plain_discard (hreplies : ∀ id block hash, (id, Reply.blockAck block hash) ∉ replies) :
    Plain sha e (e.discard x replies) :=
  plain_erase (quiet_removeReceive x.id) hreplies

theorem plain_endIncoming (ending : Ending) : Plain sha e (e.endIncoming x [] ending) := by
  refine plain_erase (quiet_removeReceive x.id) ?_
  intro id block hash
  split <;> simp

theorem plain_restartAndResume (hx : e.incoming[x.id]? = some x) (io : Io) :
    Plain sha e (e.settle x (x.restartAndResume sha io)) := by
  unfold Incoming.restartAndResume
  split
  · exact plain_endIncoming _
  · exact plain_update hx (List.take_prefix _ _) (by simp [Quiet, Engine.fileWrites]) (by simp)

theorem plain_refuse {code : Code} {message : Option String} {m : KeyMap Incoming} {j : Journal}
    (hsub : ∀ (k : String) (z : Incoming), m[k]? = some z →
      e.incoming[k]? = some z) (hj : Quiet j.ops) :
    Plain sha e (Engine.refuse m j id code message) :=
  ⟨hj, by simp [Engine.refuse], fun k y hy => Or.inl ⟨y, hsub k y hy, List.prefix_refl _⟩⟩

theorem plain_onOffer (hid : ∀ (k : String) (x : Incoming), e.incoming[k]? = some x → x.id = k)
    (o : Offer) (env : OfferEnv) : Plain sha e (e.onOffer sha o env) := by
  have hrefuse : ∀ code message, Plain sha e
      (Engine.refuse e.incoming ⟨e.disk, []⟩ o.id code message) := by
    intro code message
    exact plain_refuse (fun _ _ h => h) (by simp [Quiet])
  unfold Engine.onOffer
  split
  · rename_i filename total hfilename htotal
    split
    · exact hrefuse _ _
    · split
      · exact hrefuse _ _
      · split
        · exact hrefuse _ _
        · cases hopen : e.incoming[o.id]? with
          | some x =>
            have hxid := hid o.id x hopen
            show Plain sha e (e.offeredAgain sha o filename total env x)
            unfold Engine.offeredAgain
            split
            · exact hrefuse _ _
            · rw [← hxid] at hopen ⊢
              refine plain_update hopen ?_ ?_ (by simp [Incoming.acceptMessage])
              · show (if env.setLen then x.restartAt x.verified x.pass else x).hashes <+: x.hashes
                split
                · exact List.take_prefix _ _
                · exact List.prefix_refl _
              · show Quiet ([] ++ _)
                split <;> simp [Quiet]
          | none =>
            simp only
            have hsub : ∀ (k : String) (z : Incoming),
                (e.closeStale env.stale (e.staleFor o total)).1[k]? = some z → e.incoming[k]? = some z :=
              fun k z hz => (erase_foldl_some hz).1
            have hquiet : Quiet (Journal.write ⟨e.disk, []⟩
                (e.closeStale env.stale (e.staleFor o total)).2).ops := by
              intro file offset bytes hmem
              obtain ⟨y, -, hop⟩ := List.mem_flatMap.mp hmem
              exact quiet_checkpointWrites y (env.stale y.id) file offset bytes hop
            generalize e.closeStale env.stale (e.staleFor o total) = closed at hsub hquiet
            obtain ⟨m, writes⟩ := closed
            simp only at hsub hquiet ⊢
            split
            · exact plain_refuse hsub hquiet
            · have hbegin := @quiet_beginIncoming e.peer o filename total env _ hquiet
              split
              · rename_i j words hj
                rw [hj] at hbegin
                exact plain_refuse hsub hbegin
              · rename_i j x hj
                rw [hj] at hbegin
                refine ⟨hbegin, by simp [Incoming.acceptMessage], ?_⟩
                intro k z hz
                rw [getElem?_keyInsert] at hz
                split at hz
                · rename_i hk
                  cases hz
                  right
                  subst hk
                  simp [Incoming.acceptMessage, Incoming.prefixHash, Incoming.verified,
                    Incoming.accepting]
                · exact Or.inl ⟨z, hsub k z hz, List.prefix_refl _⟩
  · exact hrefuse _ _

theorem plain_onDone (hid : ∀ (k : String) (x : Incoming), e.incoming[k]? = some x → x.id = k)
    (m : Done) (io : Io) (place : Placed) : Plain sha e (e.onDone sha m io place) := by
  unfold Engine.onDone
  split
  · exact plain_unchanged
  · rename_i x hopen
    have hx : e.incoming[x.id]? = some x := (hid m.id x hopen).symm ▸ hopen
    split
    · exact plain_unchanged
    · split
      · exact plain_endIncoming _
      · split
        · cases place with
          | placed => exact plain_erase (quiet_removeReceive x.id) (by simp)
          | failed words partGone =>
            refine plain_erase ?_ (by simp)
            cases partGone with
            | true => exact quiet_cons (by simp) (quiet_checkpointWrites _ _)
            | false => exact quiet_checkpointWrites _ _
        · split
          · exact plain_endIncoming _
          · split
            · exact plain_endIncoming _
            · exact plain_update hx (List.take_prefix _ _) (by simp [Quiet]) (by simp)

theorem plain_checkpoint (hx : e.incoming[x.id]? = some x) (saved : Saved) (stays : Bool) :
    Plain sha e (e.checkpoint x saved stays) := by
  cases stays with
  | true => exact plain_update hx (List.prefix_refl _) (quiet_checkpointWrites _ _) (by simp)
  | false => exact plain_erase (quiet_checkpointWrites _ _) (by simp)

/-- What is not a frame writes no block. -/
theorem handle_plain (hid : ∀ (k : String) (x : Incoming), e.incoming[k]? = some x → x.id = k)
    {event : Event} (hno : ∀ f io, event ≠ .frame f io) :
    Plain sha e (e.handle sha event) := by
  have hwith : ∀ (id : String) (f : Incoming → Handled),
      (∀ x, x.id = id → e.incoming[x.id]? = some x → Plain sha e (f x)) →
      Plain sha e (e.withOpen id f) := by
    intro id f hf
    unfold Engine.withOpen
    split
    · exact plain_unchanged
    · rename_i x hopen
      have hxid : x.id = id := hid id x hopen
      exact hf x hxid (hxid ▸ hopen)
  have hcut : ∀ {n m : Nat}, Quiet [DiskOp.setLen n m] := by simp [Quiet]
  cases event with
  | offer o env => exact plain_onOffer hid o env
  | frame f io => exact absurd rfl (hno f io)
  | done m io place => exact plain_onDone hid m io place
  | laneOpened id startBlock pass serial io =>
    refine hwith _ _ (fun x hxid hx => ?_)
    unfold Engine.laneOpened
    split
    · exact plain_unchanged
    · exact plain_update hx (List.take_prefix _ _) hcut (by simp)
  | laneLost id serial =>
    refine hwith _ _ (fun x hxid hx => ?_)
    unfold Engine.laneLost
    split
    · exact plain_update hx (List.prefix_refl _) (by simp [Quiet]) (by simp)
    · exact plain_unchanged
  | laneSwitch id token tcp startBlock pass io =>
    refine hwith _ _ (fun x hxid hx => ?_)
    unfold Engine.onLaneSwitch
    split
    · exact plain_unchanged
    · split
      · exact plain_unchanged
      · split
        · exact plain_unchanged
        · refine plain_update hx (List.take_prefix _ _) hcut ?_
          intro id block hash
          split <;> simp
  | dropped id token =>
    refine hwith _ _ (fun x hxid hx => ?_)
    split
    · exact plain_discard (by simp)
    · exact plain_unchanged
  | cancelled id => exact hwith _ _ (fun x hxid hx => plain_discard (by simp))
  | overflowed id io =>
    refine hwith _ _ (fun x hxid hx => ?_)
    split
    · exact plain_unchanged
    · exact plain_restartAndResume hx io
  | backlogged id =>
    refine hwith _ _ (fun x hxid hx => ?_)
    split
    · exact plain_update hx (List.prefix_refl _) (by simp [Quiet]) (by simp)
    · exact plain_unchanged
  | drained id io =>
    refine hwith _ _ (fun x hxid hx => ?_)
    split
    · exact plain_restartAndResume hx io
    · exact plain_unchanged
  | storageFreed id io =>
    refine hwith _ _ (fun x hxid hx => ?_)
    split
    · exact plain_restartAndResume hx io
    · exact plain_unchanged
  | checkpointDue id saved => exact hwith _ _ (fun x hxid hx => plain_checkpoint hx saved true)
  | shutDown id saved => exact hwith _ _ (fun x hxid hx => plain_checkpoint hx saved false)

end Plain

/-! ### What is published -/

/-- Only a `done` hands a transfer to `finish_incoming`. -/
theorem handle_unfinished {event : Event} (hno : ∀ m io place, event ≠ .done m io place) :
    (e.handle sha event).finished = none := by
  have hsettle : ∀ (x : Incoming) (r : Incoming.Result), (e.settle x r).finished = none := by
    intro x r
    unfold Engine.settle
    split <;> rfl
  have hwith : ∀ (id : String) (f : Incoming → Handled), (∀ x, (f x).finished = none) →
      (e.withOpen id f).finished = none := by
    intro id f hf
    unfold Engine.withOpen
    split
    · rfl
    · exact hf _
  cases event with
  | offer o env =>
    show (e.onOffer sha o env).finished = none
    unfold Engine.onOffer
    split
    · split
      · rfl
      · split
        · rfl
        · split
          · rfl
          · split
            · unfold Engine.offeredAgain
              split <;> rfl
            · simp only
              split
              · rfl
              · split <;> rfl
    · rfl
  | done m io place => exact absurd rfl (hno m io place)
  | frame f io => exact hwith _ _ (fun x => hsettle x _)
  | laneOpened id startBlock pass serial io =>
    refine hwith _ _ (fun x => ?_)
    unfold Engine.laneOpened
    split <;> rfl
  | laneLost id serial =>
    refine hwith _ _ (fun x => ?_)
    unfold Engine.laneLost
    split <;> rfl
  | laneSwitch id token tcp startBlock pass io =>
    refine hwith _ _ (fun x => ?_)
    unfold Engine.onLaneSwitch
    split
    · rfl
    · split
      · rfl
      · split <;> rfl
  | dropped id token =>
    refine hwith _ _ (fun x => ?_)
    split <;> rfl
  | cancelled id => exact hwith _ _ (fun x => rfl)
  | backlogged id =>
    refine hwith _ _ (fun x => ?_)
    split <;> rfl
  | overflowed id io =>
    refine hwith _ _ (fun x => ?_)
    split
    · rfl
    · exact hsettle x _
  | drained id io =>
    refine hwith _ _ (fun x => ?_)
    split
    · exact hsettle x _
    · rfl
  | storageFreed id io =>
    refine hwith _ _ (fun x => ?_)
    split
    · exact hsettle x _
    · rfl
  | checkpointDue id saved => exact hwith _ _ (fun x => rfl)
  | shutDown id saved => exact hwith _ _ (fun x => rfl)

/-- A `done` that finishes: every block is verified, and it has the hash
over them. -/
theorem onDone_finished {m : Done} {io : Io} {place : Placed}
    (h : (e.onDone sha m io place).finished = some x) :
    e.incoming[m.id]? = some x ∧ x.verified = x.blocksTotal ∧
      m.fileHash = some (hashOfHashes sha x.hashes) := by
  unfold Engine.onDone at h
  split at h
  · cases h
  · rename_i y hopen
    split at h
    · cases h
    · split at h
      · cases h
      · rename_i hall
        split at h
        · rename_i hhash
          have hxy : y = x := by
            cases place with
            | placed => exact Option.some.inj h
            | failed words partGone => exact Option.some.inj h
          subst hxy
          exact ⟨hopen, (not_not.mp hall).2.2, hhash⟩
        · split at h
          · cases h
          · split at h <;> cases h

/-- The partial file of `x` is the whole file, each block with the hash
recorded for it. -/
structure WholeFile (sha : Bytes → Hash) (x : Incoming) (bytes : Bytes) : Prop where
  length_eq : bytes.length = x.total
  verified_eq : x.verified = blocksFor x.total
  hash_eq : ∀ i (hi : i < x.hashes.length), x.hashes[i] = sha (blockOf bytes x.total i)

theorem Sound.wholeFile {bytes : Bytes} (h : Sound sha x bytes)
    (hall : x.verified = x.blocksTotal) : WholeFile sha x bytes := by
  refine ⟨?_, hall, h.backed.hash_eq⟩
  have hend : blockStart x.total x.verified = x.total := by
    rw [hall]
    exact blockStart_blocksFor x.total
  have hholds : blockStart x.total x.verified ≤ bytes.length := h.backed.holds
  have := h.length_le
  omega

/-- The write of a frame that reaches the file of the open transfer `x`. -/
structure FrameWrite (sha : Bytes → Hash) (x : Incoming) (f : Frame) (io : Io) (offset : Nat)
    (bytes : Bytes) (hashes : List Hash) : Prop where
  made : (FileOp.writeAt offset bytes, hashes) ∈ (x.onFrame sha io f).ops
  held : HeldAt x f.header hashes
  past : blockStart x.total hashes.length ≤ offset

/-- What a frame of an open transfer comes to. -/
theorem handle_frame (h : Kept sha e.incoming e.disk) {f : Frame} (io : Io)
    (hopen : e.incoming[f.header.transfer]? = some x) :
    (∀ id block hash, (id, Reply.blockAck block hash) ∈ (e.handle sha (.frame f io)).replies →
      ∃ y, (e.handle sha (.frame f io)).incoming[id]? = some y ∧ y.hashes[block]? = some hash) ∧
    (∀ (id : String) y, (e.handle sha (.frame f io)).incoming[id]? = some y → ∀ i hash,
      y.hashes[i]? = some hash → (∃ z, e.incoming[id]? = some z ∧ z.hashes[i]? = some hash) ∨
        (id, Reply.blockAck i hash) ∈ (e.handle sha (.frame f io)).replies) ∧
    ∀ file offset bytes, DiskOp.writeAt file offset bytes
        ∈ (e.handle sha (.frame f io)).journal.ops →
      x.file = file ∧ ∃ hashes, FrameWrite sha x f io offset bytes hashes := by
  have hid := h.linked.id_eq _ _ hopen
  have hs := h.sound _ _ hopen
  have hhandle : e.handle sha (.frame f io) = e.settle x (x.onFrame sha io f) := by
    show e.withOpen _ _ = _
    rw [Engine.withOpen, hopen]
  rw [hhandle]
  -- A write of the frame, among the others of the event.
  have hwrite : ∀ rest file offset bytes, Quiet rest → DiskOp.writeAt file offset bytes
      ∈ Engine.fileWrites x.file (x.onFrame sha io f).ops ++ rest →
      x.file = file ∧ ∃ hashes, FrameWrite sha x f io offset bytes hashes := by
    intro rest file offset bytes hrest hmem
    rcases List.mem_append.mp hmem with hmem | hmem
    · obtain ⟨⟨op, hashes⟩, hop, heq⟩ := List.mem_map.mp hmem
      cases op with
      | setLen n => cases heq
      | writeAt o b =>
        simp only [DiskOp.writeAt.injEq] at heq
        obtain ⟨hfile, rfl, rfl⟩ := heq
        obtain ⟨hheld, hpast⟩ := onFrame_writes hs f io _ hop
        exact ⟨hfile, hashes, hop, hheld, hpast⟩
    · exact absurd hmem (hrest file offset bytes)
  unfold Engine.settle
  cases hend : (x.onFrame sha io f).ending with
  | some ending =>
    refine ⟨?_, ?_, ?_⟩
    · intro id block hash hmem
      simp only [Engine.endIncoming] at hmem
      split at hmem <;> simp at hmem
    · intro id y hy i hash hhash
      left
      simp only [Engine.endIncoming, getElem?_keyErase] at hy
      split at hy
      · cases hy
      · exact ⟨y, hy, hhash⟩
    · intro file offset bytes hmem
      exact hwrite _ file offset bytes (quiet_removeReceive x.id) hmem
  | none =>
    refine ⟨?_, ?_, ?_⟩
    · intro id block hash hmem
      obtain ⟨reply, hreply, heq⟩ := List.mem_map.mp hmem
      simp only [Prod.mk.injEq] at heq
      obtain ⟨rfl, rfl⟩ := heq
      refine ⟨_, ?_, onFrame_acks hs hreply⟩
      simp only [getElem?_keyInsert, if_pos]
    · intro id y hy i hash hhash
      simp only [getElem?_keyInsert] at hy
      split at hy
      · rename_i heq
        cases hy
        subst heq
        refine (onFrame_hashes hs hend hhash).imp ?_ ?_
        · intro hin
          exact ⟨x, hid ▸ hopen, hin⟩
        · intro hack
          exact List.mem_map.mpr ⟨_, hack, rfl⟩
      · exact Or.inl ⟨y, hy, hhash⟩
    · intro file offset bytes hmem
      refine hwrite _ file offset bytes ?_ hmem
      cases (x.onFrame sha io f).checkpoint with
      | none => simp [Quiet]
      | some saved => exact quiet_checkpointWrites _ _

/-- After any events whose frames agree with the saved records, the next
event

* hands a transfer to `finish_incoming` only with the whole of its file on
  the disk, each block with the hash recorded for it, and on a `done` with
  the hash over those;
* acknowledges a block only with the hash it records for it, and records
  no hash but those acknowledged, one by one or in an `accept`;
* writes only into the file of one open transfer, for a frame of it, past
  the blocks whose hashes are held then. These are the hashes held before
  the frame, less those that a `restart_at` forgot. -/
theorem receiver_integrity (sha : Bytes → Hash) (peer : String) (events : List Event) (e : Engine)
    (hmeet : Lib.StepsMeet (Engine.step sha) (AgreesWith sha) { peer := peer } events)
    (hrun : Lib.runFrom (Engine.step sha) { peer := peer } events = some e) (event : Event) :
    let h := e.handle sha event
    (∀ x, h.finished = some x → WholeFile sha x (e.disk.content x.file) ∧
      ∃ m io place, event = .done m io place ∧ e.incoming[m.id]? = some x ∧
        m.fileHash = some (hashOfHashes sha x.hashes)) ∧
    (∀ id block hash, (id, Reply.blockAck block hash) ∈ h.replies →
      ∃ y, h.incoming[id]? = some y ∧ y.hashes[block]? = some hash) ∧
    (∀ (id : String) y, h.incoming[id]? = some y → ∀ i hash, y.hashes[i]? = some hash →
      (∃ z, e.incoming[id]? = some z ∧ z.hashes[i]? = some hash) ∨
        (id, Reply.blockAck i hash) ∈ h.replies ∨
        (id, Reply.accept y.verified (hashOfHashes sha y.hashes)) ∈ h.replies) ∧
    (∀ file offset bytes, DiskOp.writeAt file offset bytes ∈ h.journal.ops →
      ∃ f io x, event = .frame f io ∧ e.incoming[f.header.transfer]? = some x ∧ x.file = file ∧
        (∀ (id : String) y, e.incoming[id]? = some y → y.file = file → y = x) ∧
        ∃ hashes, FrameWrite sha x f io offset bytes hashes) := by
  intro h
  have hkept := run_kept hmeet hrun
  have hid := hkept.linked.id_eq
  refine ⟨?_, ?_⟩
  · intro x hfin
    cases event with
    | done m io place =>
      obtain ⟨hopen, hall, hhash⟩ := onDone_finished hfin
      exact ⟨(hkept.sound _ _ hopen).wholeFile hall, m, io, place, rfl, hopen, hhash⟩
    | _ =>
      rw [show h.finished = none from handle_unfinished (by simp)] at hfin
      cases hfin
  -- A frame of an open transfer; any other event is `Plain`.
  by_cases hframe : ∃ f io x, event = .frame f io ∧ e.incoming[f.header.transfer]? = some x
  · obtain ⟨f, io, x, rfl, hopen⟩ := hframe
    obtain ⟨hacks, hhashes, hwrites⟩ := handle_frame hkept io hopen
    refine ⟨hacks, ?_, ?_⟩
    · intro id y hy i hash hhash
      exact (hhashes id y hy i hash hhash).imp_right Or.inl
    · intro file offset bytes hmem
      obtain ⟨hfile, hwrote⟩ := hwrites file offset bytes hmem
      refine ⟨f, io, x, rfl, hopen, hfile, ?_, hwrote⟩
      intro id y hy hyfile
      obtain rfl := hkept.linked.openInj id _ y x hy hopen (hyfile.trans hfile.symm)
      exact Option.some.inj (hy.symm.trans hopen)
  · have hplain : Plain sha e h := by
      cases event with
      | frame f io =>
        have hnone : e.incoming[f.header.transfer]? = none := by
          cases hopen : e.incoming[f.header.transfer]? with
          | none => rfl
          | some x => exact absurd ⟨f, io, x, rfl, hopen⟩ hframe
        have hsame : h = e.unchanged := by
          show e.withOpen _ _ = _
          rw [Engine.withOpen, hnone]
        rw [hsame]
        exact plain_unchanged
      | _ => exact handle_plain hid (by simp)
    refine ⟨?_, ?_, ?_⟩
    · intro id block hash hmem
      exact absurd hmem (hplain.noAck id block hash)
    · intro id y hy i hash hhash
      rcases hplain.hashes id y hy with ⟨z, hz, hprefix⟩ | haccept
      · exact Or.inl ⟨z, hz, getElem?_of_prefix hprefix hhash⟩
      · exact Or.inr (Or.inr haccept)
    · intro file offset bytes hmem
      exact absurd hmem (hplain.quiet file offset bytes)

/-! ### A stale record -/

/-- SHA-256 of nothing, of `abc` and of `xyz`. -/
def sampleSha (bytes : Bytes) : Hash :=
  if bytes = [] then
    #v[227, 176, 196, 66, 152, 252, 28, 20, 154, 251, 244, 200, 153, 111, 185, 36,
      39, 174, 65, 228, 100, 155, 147, 76, 164, 149, 153, 27, 120, 82, 184, 85]
  else if bytes = [97, 98, 99] then
    #v[186, 120, 22, 191, 143, 1, 207, 234, 65, 65, 64, 222, 93, 174, 34, 35,
      176, 3, 97, 163, 150, 23, 122, 156, 180, 16, 255, 97, 242, 0, 21, 173]
  else if bytes = [120, 121, 122] then
    #v[54, 8, 188, 161, 228, 78, 166, 196, 210, 104, 235, 109, 176, 34, 96, 38,
      152, 146, 192, 180, 43, 134, 187, 241, 231, 122, 111, 161, 108, 60, 146, 130]
  else Vector.replicate 32 0

/-- A file of three bytes is offered. -/
def sampleOffer : Offer where
  id := "t"
  token := "k"
  filename := some "f"
  total := some 3
  mtime := some 0
  folder := none
  contentSha256 := none
  lane := false

/-- The three bytes, as the one frame of the one block. -/
def sampleFrame (pass a b c : UInt8) : Frame where
  header := ⟨true, pass, "t", 0, 0, 3⟩
  payload := [a, b, c]
  trailer := some (sampleSha [a, b, c])
  length_eq := rfl
  trailer_eq := rfl

/-- The sender says that it has sent `abc`. -/
def sampleDone : Event :=
  .done ⟨"t", "k", some 1, some 3, some (hashOfHashes sampleSha [sampleSha [97, 98, 99]])⟩ {}
    .placed

/-- The block arrives and is recorded, the sender's next pass sends it
again, and the engine ends with no room for the record. The transfer is
offered again. -/
def resentBlock (again : Frame) : List Event :=
  [.offer sampleOffer {}, .frame (sampleFrame 0 97 98 99) {}, .checkpointDue "t" .whole,
    .frame again {}, .shutDown "t" (.failed 0 "No space left on device"), .offer sampleOffer {}]

/-- The transfer that the `done` hands over, and what is in its file. -/
def published (events : List Event) : Option (Nat × List Hash × Bytes) :=
  (Lib.runFrom (Engine.step sampleSha) { peer := "p" } events).bind (fun e =>
    (e.handle sampleSha sampleDone).finished.map (fun x =>
      (x.total, x.hashes, e.disk.content x.file)))

/-- The same bytes come again. -/
theorem receiver_integrity_resent :
    ∃ e x, Lib.runFrom (Engine.step sampleSha) { peer := "p" }
        (resentBlock (sampleFrame 1 97 98 99)) = some e ∧
      (e.handle sampleSha sampleDone).finished = some x ∧
        WholeFile sampleSha x (e.disk.content x.file) := by
  have hmeet : Lib.StepsMeet (Engine.step sampleSha) (AgreesWith sampleSha) { peer := "p" }
      (resentBlock (sampleFrame 1 97 98 99)) := by
    decide +kernel
  have hpublished : (published (resentBlock (sampleFrame 1 97 98 99))).isSome = true := by
    decide +kernel
  obtain ⟨e, hrun, hfinished⟩ := Option.bind_eq_some_iff.mp (Option.some_get hpublished).symm
  obtain ⟨x, hx, -⟩ := Option.map_eq_some_iff.mp hfinished
  exact ⟨e, x, hrun, hx, ((receiver_integrity sampleSha "p" _ e hmeet hrun sampleDone).1 x hx).1⟩

/-- Other bytes come: the file has `xyz`, and is published under the hash
of `abc`. -/
theorem stale_record_published : ¬ ∀ (events : List Event) (e : Engine),
    Lib.runFrom (Engine.step sampleSha) { peer := "p" } events = some e →
      ∀ x, (e.handle sampleSha sampleDone).finished = some x →
        WholeFile sampleSha x (e.disk.content x.file) := by
  intro h
  have hpublished : published (resentBlock (sampleFrame 1 120 121 122))
      = some (3, [sampleSha [97, 98, 99]], [120, 121, 122]) := by
    decide +kernel
  obtain ⟨e, hrun, hfinished⟩ := Option.bind_eq_some_iff.mp hpublished
  obtain ⟨x, hx, heq⟩ := Option.map_eq_some_iff.mp hfinished
  obtain ⟨htotal, heq⟩ := Prod.mk.inj heq
  obtain ⟨hhashes, hcontent⟩ := Prod.mk.inj heq
  have hhash := (h _ e hrun x hx).hash_eq 0 (by simp [hhashes])
  simp only [htotal, hhashes, hcontent, List.getElem_cons_zero] at hhash
  exact absurd hhash (by decide +kernel)

end DeskLink.Transfer
