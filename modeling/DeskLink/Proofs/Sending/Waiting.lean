import DeskLink.Sending.Waiting

/-!
# `DeskLink.Proofs.Sending.Waiting`: a waiting file is kept once

While a flush holds files, the queue does not know of them: the same file can be
chosen again, the phone can be unpaired, and a restart forgets them. Putting the
refused files back checks nothing, and neither does moving files to another id.
`Desk.Careful` is that none of this happens in a step. A file that was moved keeps
the identity of the phone it was chosen for, and a restart drops it while the
phone it was moved to is paired. `RemembersMoved` is that this does not happen.

`waiting_kept_once`: in every run of such steps the queue is within its bound and
holds no file twice, a file leaves it only for a reason, and what was taken off
it is not handed to a sender any more.
-/

set_option autoImplicit false

namespace DeskLink.Sending

variable {disk : String → OnDisk} {desk : Desk} {file : Waiting} {op : QueueOp}

/-- The files a flush holds. -/
def Desk.held (desk : Desk) : List Waiting :=
  match desk.flush with
  | some flush => flush.go ++ flush.refused
  | none => []

/-- The file is in the queue, or in a flush that took it. -/
def Desk.Has (desk : Desk) (file : Waiting) : Prop := file ∈ desk.waiting ∨ file ∈ desk.held

structure Desk.Sound (disk : String → OnDisk) (desk : Desk) : Prop where
  saved : desk.saved = desk.waiting
  keys : (desk.waiting.map Waiting.key).Nodup
  cap : desk.waiting.length ≤ maxWaitingFiles
  same : ∀ file ∈ desk.waiting, file.isSame disk = true
  heldSame : ∀ file ∈ desk.held, file.isSame disk = true
  heldKeys : (desk.held.map Waiting.key).Nodup

/-- The step does not meet a flush that holds what it is about, and makes no file
wait twice. -/
def Desk.Careful (desk : Desk) : QueueOp → Prop
  | .removeWaitingFile deviceId path =>
    ∀ file ∈ desk.held, ¬ (file.deviceId = deviceId ∧ file.path = path)
  | .clearWaiting deviceId | .forgetWaiting deviceId =>
    ∀ file ∈ desk.held, file.deviceId ≠ deviceId
  | .moveWaiting oldId newId =>
    oldId ≠ newId → ∀ file ∈ desk.waiting, file.deviceId = oldId →
      ∀ other ∈ desk.waiting, (file.moved oldId newId).key ≠ other.key
  | .putBack =>
    ∀ refused, desk.flush = some ⟨[], refused⟩ →
      refused.length + desk.waiting.length ≤ maxWaitingFiles ∧
        ∀ file ∈ refused, ∀ other ∈ desk.waiting, file.key ≠ other.key
  | .restart _ _ => desk.held = []
  | _ => True

/-- The files a step moves to another id, as they are then. -/
def Desk.movedBy (desk : Desk) : QueueOp → List Waiting
  | .moveWaiting oldId newId =>
    if oldId = newId then []
    else (desk.waiting.filter (Waiting.isFor oldId)).map (Waiting.moved oldId newId)
  | _ => []

/-- The files that were moved to another id in a run. -/
def Desk.movedIn (disk : String → OnDisk) : Desk → List QueueOp → List Waiting
  | _, [] => []
  | desk, op :: ops => desk.movedBy op ++ Desk.movedIn disk (desk.after disk op) ops

/-- A restart after the steps `before` drops no fresh file that was moved to an
id whose phone is paired. -/
def RemembersMoved (disk : String → OnDisk) (before : List QueueOp) : QueueOp → Prop
  | .restart now identity =>
    ∀ file ∈ (Desk.run disk before).waiting, file ∈ Desk.movedIn disk {} before →
      file.isFresh now = true → identity file.deviceId ≠ none → file.isPaired identity = true
  | _ => True

/-! ### One step keeps the queue sound -/

/-- A queue with fewer files. -/
theorem Desk.Sound.shrink (h : desk.Sound disk) {kept : List Waiting}
    (hkept : kept.Sublist desk.waiting) : (desk.refreshLocked kept).Sound disk where
  saved := rfl
  keys := h.keys.sublist (hkept.map _)
  cap := hkept.length_le.trans h.cap
  same file hfile := h.same file (hkept.subset hfile)
  heldSame := h.heldSame
  heldKeys := h.heldKeys

theorem waitForPhone_sound (h : desk.Sound disk) (deviceId phone identity path : String)
    (now : Nat) : (desk.waitForPhone disk deviceId phone identity path now).1.Sound disk := by
  unfold Desk.waitForPhone
  cases hpath : disk path with
  | missing => exact h
  | folder => exact h
  | file size mtimeNs =>
    dsimp only
    split
    · exact h
    · rename_i hnew
      split
      · exact h
      · rename_i hroom
        refine ⟨rfl, ?_, ?_, ?_, h.heldSame, h.heldKeys⟩
        · show ((desk.waiting ++ [_]).map Waiting.key).Nodup
          rw [List.map_append, List.nodup_append]
          refine ⟨h.keys, by simp, fun key hkey key' hkey' heq => hnew ?_⟩
          obtain ⟨other, hother, rfl⟩ := List.mem_map.mp hkey
          rw [List.map_singleton, List.mem_singleton] at hkey'
          rw [List.any_eq_true]
          exact ⟨other, hother, by rw [heq, hkey']; exact decide_eq_true rfl⟩
        · show (desk.waiting ++ [_]).length ≤ maxWaitingFiles
          rw [List.length_append, List.length_singleton]
          omega
        · intro file hfile
          obtain hfile | hfile := List.mem_append.mp hfile
          · exact h.same file hfile
          · rw [List.mem_singleton.mp hfile]
            unfold Waiting.isSame
            exact decide_eq_true hpath

theorem moved_key_inj {oldId newId : String} {file other : Waiting}
    (h : (file.moved oldId newId).key = (other.moved oldId newId).key)
    (hboth : file.deviceId = oldId ↔ other.deviceId = oldId) : file.key = other.key := by
  unfold Waiting.moved at h
  by_cases hfile : file.deviceId = oldId
  · have hother := hboth.mp hfile
    rw [if_pos hfile, if_pos hother] at h
    simp only [Waiting.key, Prod.mk.injEq] at h ⊢
    exact ⟨hfile.trans hother.symm, h.2⟩
  · rw [if_neg hfile, if_neg (fun hother => hfile (hboth.mpr hother))] at h
    exact h

theorem moved_isSame (oldId newId : String) (file : Waiting) :
    (file.moved oldId newId).isSame disk = file.isSame disk := by
  unfold Waiting.moved
  split <;> rfl

theorem moveWaiting_sound (h : desk.Sound disk) {oldId newId : String}
    (hcareful : desk.Careful (.moveWaiting oldId newId)) :
    (desk.moveWaiting oldId newId).Sound disk := by
  refine ⟨rfl, ?_, ?_, ?_, h.heldSame, h.heldKeys⟩
  · show ((desk.waiting.map (Waiting.moved oldId newId)).map Waiting.key).Nodup
    by_cases hid : oldId = newId
    · -- Nothing changes.
      have hsame : desk.waiting.map (Waiting.moved oldId newId) = desk.waiting := by
        refine (List.map_congr_left (fun file _ => ?_)).trans (List.map_id _)
        unfold Waiting.moved
        split
        · rename_i hfile
          rw [← hid, ← hfile]
          rfl
        · rfl
      rw [hsame]
      exact h.keys
    · rw [List.map_map]
      refine List.Nodup.map_on (fun file hfile other hother heq => ?_) (h.keys.of_map _)
      have heq : (file.moved oldId newId).key = (other.moved oldId newId).key := heq
      have hkeys : file.key = other.key := by
        by_cases hboth : file.deviceId = oldId ↔ other.deviceId = oldId
        · exact moved_key_inj heq hboth
        · -- One moves onto the other.
          exfalso
          by_cases hold : file.deviceId = oldId
          · have hnot : ¬ other.deviceId = oldId := fun hother => hboth ⟨fun _ => hother, fun _ => hold⟩
            have hstays : other.moved oldId newId = other := if_neg hnot
            rw [hstays] at heq
            exact hcareful hid file hfile hold other hother heq
          · have hmoves : other.deviceId = oldId := by
              by_contra hnot
              exact hboth ⟨fun h => absurd h hold, fun h => absurd h hnot⟩
            have hstays : file.moved oldId newId = file := if_neg hold
            rw [hstays] at heq
            exact hcareful hid other hother hmoves file hfile heq.symm
      exact List.inj_on_of_nodup_map h.keys hfile hother hkeys
  · show (desk.waiting.map _).length ≤ maxWaitingFiles
    rw [List.length_map]
    exact h.cap
  · intro file hfile
    obtain ⟨before, hbefore, rfl⟩ := List.mem_map.mp hfile
    rw [moved_isSame]
    exact h.same before hbefore

/-- What a flush takes and what stays. -/
theorem takeWaiting_sound (h : desk.Sound disk) (ready : List String) :
    ({ (desk.takeWaiting ready).1 with
      flush := some ⟨(desk.takeWaiting ready).2.filter (Waiting.isSame disk), []⟩ } : Desk).Sound
        disk := by
  unfold Desk.takeWaiting
  dsimp only
  split
  · refine ⟨h.saved, h.keys, h.cap, h.same, ?_, ?_⟩ <;> simp [Desk.held]
  · have hgo : (desk.waiting.filter (fun file => ready.contains file.deviceId)).Sublist
        desk.waiting := List.filter_sublist
    have hheld : ((desk.waiting.filter (fun file => ready.contains file.deviceId)).filter
        (Waiting.isSame disk)).Sublist desk.waiting := List.filter_sublist.trans hgo
    have hstay : (desk.refreshLocked
        (desk.waiting.filter (fun file => !ready.contains file.deviceId))).Sound disk :=
      h.shrink List.filter_sublist
    refine ⟨rfl, hstay.keys, hstay.cap, hstay.same, fun file hfile => ?_, ?_⟩
    · have hfile : file ∈ _ ++ ([] : List Waiting) := hfile
      rw [List.append_nil] at hfile
      exact h.same file (hheld.subset hfile)
    · show ((_ ++ ([] : List Waiting)).map Waiting.key).Nodup
      rw [List.append_nil]
      exact h.keys.sublist (hheld.map _)

theorem offer_sound (h : desk.Sound disk) (accepted : Bool) :
    (desk.offerNext accepted).Sound disk := by
  unfold Desk.offerNext
  split
  · rename_i file go refused hflush
    have hheld : desk.held = file :: (go ++ refused) := by
      unfold Desk.held
      rw [hflush]
      rfl
    have hkeys := h.heldKeys
    have hsame := h.heldSame
    rw [hheld] at hkeys hsame
    refine ⟨h.saved, h.keys, h.cap, h.same, ?_, ?_⟩
    · intro other hother
      refine hsame other ?_
      have hother : other ∈ go ++ (if accepted then refused else refused ++ [file]) := hother
      cases accepted with
      | true => exact List.mem_cons_of_mem _ hother
      | false =>
        simp only [Bool.false_eq_true, if_false, List.mem_append, List.mem_cons] at hother ⊢
        tauto
    · show ((go ++ (if accepted then refused else refused ++ [file])).map Waiting.key).Nodup
      cases accepted with
      | true => exact (List.nodup_cons.mp hkeys).2
      | false =>
        -- The file goes to the end of what is held.
        have hperm : (go ++ (refused ++ [file])).Perm (file :: (go ++ refused)) := by
          rw [← List.append_assoc]
          exact List.perm_append_singleton file (go ++ refused)
        exact (hperm.map Waiting.key).nodup_iff.mpr hkeys
  · exact h

theorem putBack_sound (h : desk.Sound disk) (hcareful : desk.Careful .putBack) :
    desk.endFlush.Sound disk := by
  unfold Desk.endFlush
  split
  · rename_i refused hflush
    obtain ⟨hcap, hnew⟩ := hcareful refused hflush
    have hheld : desk.held = refused := by
      unfold Desk.held
      rw [hflush]
      rfl
    have hkeys := h.heldKeys
    have hsame := h.heldSame
    rw [hheld] at hkeys hsame
    unfold Desk.putBack
    split
    · refine ⟨h.saved, h.keys, h.cap, h.same, ?_, ?_⟩ <;> simp [Desk.held]
    · refine ⟨rfl, ?_, ?_, ?_, by simp [Desk.held], by simp [Desk.held]⟩
      · show ((refused ++ desk.waiting).map Waiting.key).Nodup
        rw [List.map_append, List.nodup_append]
        refine ⟨hkeys, h.keys, fun key hkey key' hkey' heq => ?_⟩
        obtain ⟨file, hfile, rfl⟩ := List.mem_map.mp hkey
        obtain ⟨other, hother, rfl⟩ := List.mem_map.mp hkey'
        exact hnew file hfile other hother heq
      · show (refused ++ desk.waiting).length ≤ maxWaitingFiles
        rw [List.length_append]
        exact hcap
      · intro file hfile
        obtain hfile | hfile := List.mem_append.mp hfile
        · exact hsame file hfile
        · exact h.same file hfile
  · exact h

theorem restoreFrom_sound (h : desk.Sound disk) (now : Nat) (identity : String → Option String) :
    (desk.restoreFrom now identity).Sound disk := by
  have hsublist : ((((desk.saved.filter (Waiting.isFresh now)).take maxWaitingFiles).filter
      (Waiting.isPaired identity)).take maxWaitingFiles).Sublist desk.waiting := by
    rw [h.saved]
    exact (List.take_sublist _ _).trans (List.filter_sublist.trans
      ((List.take_sublist _ _).trans List.filter_sublist))
  have hshrunk := h.shrink hsublist
  exact ⟨rfl, hshrunk.keys, hshrunk.cap, hshrunk.same, by simp [Desk.held, Desk.restoreFrom,
    Desk.refreshLocked], by simp [Desk.held, Desk.restoreFrom, Desk.refreshLocked]⟩

theorem after_sound (h : desk.Sound disk) (hcareful : desk.Careful op) :
    (desk.after disk op).Sound disk := by
  cases op with
  | waitForPhone deviceId phone identity path now =>
    exact waitForPhone_sound h deviceId phone identity path now
  | removeWaitingFile deviceId path =>
    show (desk.removeWaitingFile deviceId path).1.Sound disk
    unfold Desk.removeWaitingFile
    dsimp only
    split
    · exact h.shrink List.filter_sublist
    · exact h
  | clearWaiting deviceId => exact h.shrink List.filter_sublist
  | forgetWaiting deviceId => exact h.shrink List.filter_sublist
  | moveWaiting oldId newId => exact moveWaiting_sound h hcareful
  | expireWaiting now =>
    show (desk.expireWaiting now).Sound disk
    unfold Desk.expireWaiting
    dsimp only
    split
    · exact h.shrink List.filter_sublist
    · exact h
  | take ready =>
    show (desk.startFlush disk ready).Sound disk
    unfold Desk.startFlush
    split
    · exact h
    · exact takeWaiting_sound h ready
  | offer accepted => exact offer_sound h accepted
  | putBack => exact putBack_sound h hcareful
  | restart now identity => exact restoreFrom_sound h now identity

/-! ### How a file leaves -/

/-- The step takes the file off the queue, and may. At a restart the phone is
not paired any more, or the file was chosen for one with another certificate. -/
def QueueOp.Drops (moved : Prop) (file : Waiting) : QueueOp → Prop
  | .removeWaitingFile deviceId path => file.deviceId = deviceId ∧ file.path = path
  | .clearWaiting deviceId | .forgetWaiting deviceId => file.deviceId = deviceId
  | .expireWaiting now => file.isFresh now = false
  | .restart now identity =>
    file.isFresh now = false ∨ identity file.deviceId = none ∨
      ¬ moved ∧ file.isPaired identity = false
  | _ => False

/-- What has become of a file: it is there still, under the id its phone has now;
or it was handed to a sender, or dropped for a reason. -/
def Desk.Accounts (moved : Prop) (desk : Desk) (op : QueueOp) (desk' : Desk) (file : Waiting) :
    Prop :=
  desk'.Has file ∨
    (∃ oldId newId, op = .moveWaiting oldId newId ∧ desk'.Has (file.moved oldId newId)) ∨
    desk.hands op = some file ∨ op.Drops moved file

variable {moved : Prop} {deviceId path : String}

/-- A queue that is filtered keeps what passes. -/
theorem accounts_filter {p : Waiting → Bool} (hfile : desk.Has file)
    (hdrops : p file = false → op.Drops moved file) :
    desk.Accounts moved op (desk.refreshLocked (desk.waiting.filter p)) file := by
  obtain hfile | hfile := hfile
  · cases hp : p file with
    | true => exact .inl (.inl (List.mem_filter.mpr ⟨hfile, hp⟩))
    | false => exact .inr (.inr (.inr (hdrops hp)))
  · exact .inl (.inr hfile)

theorem startFlush_has (h : desk.Sound disk) (ready : List String) (hfile : desk.Has file) :
    (desk.startFlush disk ready).Has file := by
  unfold Desk.startFlush
  split
  · exact hfile
  · rename_i hflush
    have hwaiting : file ∈ desk.waiting := by
      unfold Desk.Has Desk.held at hfile
      rw [hflush] at hfile
      simpa using hfile
    unfold Desk.takeWaiting
    dsimp only
    split
    · exact .inl hwaiting
    · cases hready : ready.contains file.deviceId with
      | false => exact .inl (List.mem_filter.mpr ⟨hwaiting, by rw [hready]; rfl⟩)
      | true =>
        refine .inr (List.mem_append_left _ (List.mem_filter.mpr ⟨?_, h.same file hwaiting⟩))
        exact List.mem_filter.mpr ⟨hwaiting, hready⟩

theorem offerNext_accounts (accepted : Bool) (hfile : desk.Has file) :
    desk.Accounts moved (.offer accepted) (desk.offerNext accepted) file := by
  unfold Desk.offerNext
  split
  · rename_i first go refused hflush
    obtain hfile | hfile := hfile
    · exact .inl (.inl hfile)
    · unfold Desk.held at hfile
      rw [hflush] at hfile
      have hfile : file ∈ first :: (go ++ refused) := hfile
      obtain rfl | hfile := List.mem_cons.mp hfile
      · cases accepted with
        | true =>
          refine .inr (.inr (.inl ?_))
          unfold Desk.hands
          rw [hflush]
          rfl
        | false => exact .inl (.inr (by simp [Desk.held]))
      · refine .inl (.inr ?_)
        show file ∈ go ++ (if accepted then refused else refused ++ [first])
        obtain hgo | hrefused := List.mem_append.mp hfile
        · exact List.mem_append_left _ hgo
        · refine List.mem_append_right _ ?_
          split
          · exact hrefused
          · exact List.mem_append_left _ hrefused
  · exact .inl hfile

theorem endFlush_has (hfile : desk.Has file) : desk.endFlush.Has file := by
  unfold Desk.endFlush
  split
  · rename_i refused hflush
    have hfile : file ∈ refused ++ desk.waiting := by
      unfold Desk.Has Desk.held at hfile
      rw [hflush] at hfile
      exact List.mem_append.mpr hfile.symm
    refine .inl ?_
    unfold Desk.putBack
    split
    · rename_i hnone
      rw [List.isEmpty_iff.mp hnone] at hfile
      exact hfile
    · exact hfile
  · exact hfile

theorem restoreFrom_accounts (h : desk.Sound disk) (hflush : desk.held = []) (now : Nat)
    (identity : String → Option String) (hfile : desk.Has file)
    (hmoved : file ∈ desk.waiting → moved → file.isFresh now = true →
      identity file.deviceId ≠ none → file.isPaired identity = true) :
    desk.Accounts moved (.restart now identity) (desk.restoreFrom now identity) file := by
  have hwaiting : file ∈ desk.waiting := by
    unfold Desk.Has at hfile
    rw [hflush] at hfile
    simpa using hfile
  -- The bound cuts nothing off.
  have hloaded : (desk.saved.filter (Waiting.isFresh now)).take maxWaitingFiles
      = desk.waiting.filter (Waiting.isFresh now) := by
    rw [h.saved, List.take_of_length_le]
    exact List.filter_sublist.length_le.trans h.cap
  have hrestored : (desk.restoreFrom now identity).waiting
      = (desk.waiting.filter (Waiting.isFresh now)).filter (Waiting.isPaired identity) := by
    show List.take maxWaitingFiles (List.filter (Waiting.isPaired identity) (List.take _ _)) = _
    rw [hloaded, List.take_of_length_le]
    exact (List.filter_sublist.trans List.filter_sublist).length_le.trans h.cap
  cases hfresh : file.isFresh now with
  | false => exact .inr (.inr (.inr (.inl hfresh)))
  | true =>
    cases hpaired : file.isPaired identity with
    | false =>
      refine .inr (.inr (.inr (.inr ?_)))
      by_cases hnone : identity file.deviceId = none
      · exact .inl hnone
      · refine .inr ⟨fun hin => ?_, hpaired⟩
        rw [hmoved hwaiting hin hfresh hnone] at hpaired
        cases hpaired
    | true =>
      refine .inl (.inl ?_)
      rw [hrestored]
      exact List.mem_filter.mpr ⟨List.mem_filter.mpr ⟨hwaiting, hfresh⟩, hpaired⟩

/-- A file that waits is accounted for after the call. -/
theorem after_accounts (h : desk.Sound disk) (hcareful : desk.Careful op) (hfile : desk.Has file)
    (hmoved : ∀ now identity, op = .restart now identity → file ∈ desk.waiting → moved →
      file.isFresh now = true → identity file.deviceId ≠ none → file.isPaired identity = true) :
    desk.Accounts moved op (desk.after disk op) file := by
  cases op with
  | waitForPhone deviceId phone identity path now =>
    refine .inl ?_
    show (desk.waitForPhone disk deviceId phone identity path now).1.Has file
    unfold Desk.waitForPhone
    split
    · exact hfile
    · exact hfile
    · dsimp only
      split
      · exact hfile
      · split
        · exact hfile
        · exact hfile.imp_left (fun hwaiting => List.mem_append_left _ hwaiting)
  | removeWaitingFile deviceId path =>
    show desk.Accounts _ _ (desk.removeWaitingFile deviceId path).1 file
    unfold Desk.removeWaitingFile
    dsimp only
    split
    · refine accounts_filter hfile (fun hp => ?_)
      simp only [Waiting.isFor, Bool.not_eq_false', Bool.and_eq_true, decide_eq_true_eq] at hp
      exact hp
    · exact .inl hfile
  | clearWaiting deviceId | forgetWaiting deviceId =>
    refine accounts_filter hfile (fun hp => ?_)
    simp only [Waiting.isFor, Bool.not_eq_false', decide_eq_true_eq] at hp
    exact hp
  | moveWaiting oldId newId =>
    obtain hwaiting | hheld := hfile
    · exact .inr (.inl ⟨oldId, newId, rfl, .inl (List.mem_map_of_mem hwaiting)⟩)
    · exact .inl (.inr hheld)
  | expireWaiting now =>
    show desk.Accounts _ _ (desk.expireWaiting now) file
    unfold Desk.expireWaiting
    dsimp only
    split
    · exact accounts_filter hfile (fun hp => hp)
    · exact .inl hfile
  | take ready => exact .inl (startFlush_has h ready hfile)
  | offer accepted => exact offerNext_accounts accepted hfile
  | putBack => exact .inl (endFlush_has hfile)
  | restart now identity =>
    exact restoreFrom_accounts h hcareful now identity hfile (hmoved now identity rfl)

/-! ### What was taken off stays off -/

/-- The step takes the path off, for this phone. -/
def QueueOp.TakesOff (deviceId path : String) : QueueOp → Prop
  | .removeWaitingFile deviceId' path' => deviceId' = deviceId ∧ path' = path
  | .clearWaiting deviceId' | .forgetWaiting deviceId' => deviceId' = deviceId
  | _ => False

/-- The step chooses the path for this phone, or gives this phone another one's
files, with the path among them. -/
def Desk.Brings (desk : Desk) (deviceId path : String) : QueueOp → Prop
  | .waitForPhone deviceId' _ _ path' _ => deviceId' = deviceId ∧ path' = path
  | .moveWaiting oldId newId =>
    newId = deviceId ∧ ∃ file ∈ desk.waiting, file.deviceId = oldId ∧ file.path = path
  | _ => False

/-- What waits was waiting, or came with the call. -/
theorem has_before (h : desk.Sound disk) (hfile : (desk.after disk op).Has file) :
    desk.Has file ∨ desk.Brings file.deviceId file.path op := by
  have hfilter (p : Waiting → Bool)
      (hfile : (desk.refreshLocked (desk.waiting.filter p)).Has file) : desk.Has file :=
    hfile.imp_left (fun hwaiting => (List.mem_filter.mp hwaiting).1)
  cases op with
  | waitForPhone deviceId phone identity path now =>
    have hfile : (desk.waitForPhone disk deviceId phone identity path now).1.Has file := hfile
    unfold Desk.waitForPhone at hfile
    split at hfile
    · exact .inl hfile
    · exact .inl hfile
    · dsimp only at hfile
      split at hfile
      · exact .inl hfile
      · split at hfile
        · exact .inl hfile
        · obtain hwaiting | hheld := hfile
          · obtain hwaiting | hnew := List.mem_append.mp hwaiting
            · exact .inl (.inl hwaiting)
            · rw [List.mem_singleton.mp hnew]
              exact .inr ⟨rfl, rfl⟩
          · exact .inl (.inr hheld)
  | removeWaitingFile deviceId path =>
    have hfile : (desk.removeWaitingFile deviceId path).1.Has file := hfile
    unfold Desk.removeWaitingFile at hfile
    dsimp only at hfile
    split at hfile
    · exact .inl (hfilter _ hfile)
    · exact .inl hfile
  | clearWaiting deviceId | forgetWaiting deviceId => exact .inl (hfilter _ hfile)
  | moveWaiting oldId newId =>
    obtain hwaiting | hheld := hfile
    · obtain ⟨before, hbefore, rfl⟩ := List.mem_map.mp hwaiting
      by_cases hold : before.deviceId = oldId
      · have hmoved : before.moved oldId newId = { before with deviceId := newId } := if_pos hold
        rw [hmoved]
        exact .inr ⟨rfl, before, hbefore, hold, rfl⟩
      · have hstays : before.moved oldId newId = before := if_neg hold
        rw [hstays]
        exact .inl (.inl hbefore)
    · exact .inl (.inr hheld)
  | expireWaiting now =>
    have hfile : (desk.expireWaiting now).Has file := hfile
    unfold Desk.expireWaiting at hfile
    dsimp only at hfile
    split at hfile
    · exact .inl (hfilter _ hfile)
    · exact .inl hfile
  | take ready =>
    have hfile : (desk.startFlush disk ready).Has file := hfile
    unfold Desk.startFlush at hfile
    split at hfile
    · exact .inl hfile
    · unfold Desk.takeWaiting at hfile
      dsimp only at hfile
      -- What the flush takes was in the queue.
      refine .inl (.inl ?_)
      split at hfile
      · obtain hwaiting | hheld := hfile
        · exact hwaiting
        · simp [Desk.held] at hheld
      · obtain hwaiting | hheld := hfile
        · exact (List.mem_filter.mp hwaiting).1
        · have hheld : file ∈ _ ++ ([] : List Waiting) := hheld
          rw [List.append_nil] at hheld
          exact (List.mem_filter.mp (List.mem_filter.mp hheld).1).1
  | offer accepted =>
    have hfile : (desk.offerNext accepted).Has file := hfile
    unfold Desk.offerNext at hfile
    split at hfile
    · rename_i first go refused hflush
      refine .inl (hfile.imp_right (fun hheld => ?_))
      have hheld : file ∈ go ++ (if accepted then refused else refused ++ [first]) := hheld
      unfold Desk.held
      rw [hflush]
      show file ∈ first :: (go ++ refused)
      cases accepted with
      | true => exact List.mem_cons_of_mem _ hheld
      | false =>
        simp only [Bool.false_eq_true, if_false, List.mem_append, List.mem_cons] at hheld ⊢
        tauto
    · exact .inl hfile
  | putBack =>
    have hfile : desk.endFlush.Has file := hfile
    unfold Desk.endFlush at hfile
    split at hfile
    · rename_i refused hflush
      obtain hwaiting | hheld := hfile
      · unfold Desk.putBack at hwaiting
        -- What is put back was held.
        refine .inl ?_
        unfold Desk.Has Desk.held
        rw [hflush]
        split at hwaiting
        · exact .inl hwaiting
        · exact (List.mem_append.mp hwaiting).symm
      · simp [Desk.held] at hheld
    · exact .inl hfile
  | restart now identity =>
    obtain hwaiting | hheld := hfile
    · -- The saved queue is the queue in memory.
      have hsaved : file ∈ desk.saved := (List.mem_filter.mp (List.mem_of_mem_take
        (List.mem_filter.mp (List.mem_of_mem_take hwaiting)).1)).1
      rw [h.saved] at hsaved
      exact .inl (.inl hsaved)
    · have hheld : file ∈ ([] : List Waiting) := hheld
      simp at hheld

/-- Nothing of the path is left for the phone, in the queue or in a flush. -/
def Desk.Free (deviceId path : String) (desk : Desk) : Prop :=
  ∀ file, desk.Has file → ¬ (file.deviceId = deviceId ∧ file.path = path)

theorem takesOff_free (hcareful : desk.Careful op) (htakes : op.TakesOff deviceId path) :
    (desk.after disk op).Free deviceId path := by
  have hforget (hheld : ∀ file ∈ desk.held, file.deviceId ≠ deviceId) :
      (desk.forgetWaiting deviceId).Free deviceId path := by
    rintro file (hwaiting | hflush) ⟨hdevice, -⟩
    · have hp := (List.mem_filter.mp hwaiting).2
      simp [Waiting.isFor, hdevice] at hp
    · exact hheld file hflush hdevice
  cases op with
  | removeWaitingFile deviceId' path' =>
    obtain ⟨rfl, rfl⟩ := htakes
    show (desk.removeWaitingFile deviceId' path').1.Free deviceId' path'
    unfold Desk.removeWaitingFile
    dsimp only
    split
    · rintro file (hwaiting | hflush) hnamed
      · have hp := (List.mem_filter.mp hwaiting).2
        simp [Waiting.isFor, hnamed] at hp
      · exact hcareful file hflush hnamed
    · rename_i hsame
      rintro file (hwaiting | hflush) hnamed
      · -- Nothing was filtered out, so it was not there.
        rw [not_not] at hsame
        have hall := List.filter_sublist.eq_of_length hsame
        rw [List.filter_eq_self] at hall
        have hp := hall file hwaiting
        simp [Waiting.isFor, hnamed] at hp
      · exact hcareful file hflush hnamed
  | clearWaiting deviceId' =>
    obtain rfl := htakes
    exact hforget hcareful
  | forgetWaiting deviceId' =>
    obtain rfl := htakes
    exact hforget hcareful
  | _ => exact htakes.elim

theorem hands_has (h : desk.hands op = some file) : desk.Has file := by
  unfold Desk.hands at h
  split at h
  · obtain ⟨flush, hflush, hhead⟩ := Option.bind_eq_some_iff.mp h
    refine .inr ?_
    unfold Desk.held
    rw [hflush]
    exact List.mem_append_left _ (List.mem_of_mem_head? hhead)
  · cases h

/-- A file that is accepted waits. -/
theorem waitForPhone_ok {phone identity : String} {now : Nat}
    (h : (desk.waitForPhone disk deviceId phone identity path now).2 = .ok ()) :
    ∃ file ∈ (desk.waitForPhone disk deviceId phone identity path now).1.waiting,
      file.deviceId = deviceId ∧ file.path = path ∧ disk path = .file file.size file.mtimeNs := by
  unfold Desk.waitForPhone at h ⊢
  cases hpath : disk path with
  | missing =>
    rw [hpath] at h
    cases h
  | folder =>
    rw [hpath] at h
    cases h
  | file size mtimeNs =>
    rw [hpath] at h
    dsimp only at h ⊢
    split
    · rename_i hany
      obtain ⟨other, hother, hkey⟩ := List.any_eq_true.mp hany
      simp only [Waiting.key, decide_eq_true_eq, Prod.mk.injEq] at hkey
      obtain ⟨rfl, rfl, rfl, rfl⟩ := hkey
      exact ⟨other, hother, rfl, rfl, rfl⟩
    · rename_i hnew
      rw [if_neg hnew] at h
      split
      · rename_i hfull
        rw [if_pos hfull] at h
        cases h
      · exact ⟨_, List.mem_append_right _ (List.mem_singleton_self _), rfl, rfl, rfl⟩

/-! ### Whole runs -/

theorem sound_new : ({} : Desk).Sound disk where
  saved := rfl
  keys := List.nodup_nil
  cap := Nat.zero_le _
  same := by simp
  heldSame := by simp [Desk.held]
  heldKeys := by simp [Desk.held]

theorem run_sound {ops : List QueueOp}
    (hmeets : Lib.Alongside (Desk.after disk) Desk.Careful {} ops) :
    (Desk.run disk ops).Sound disk :=
  hmeets.invariant (fun _ _ h hcareful => after_sound h hcareful) sound_new

theorem run_snoc (ops : List QueueOp) (op : QueueOp) :
    Desk.run disk (ops ++ [op]) = (Desk.run disk ops).after disk op := by
  unfold Desk.run
  rw [Lib.applyAll_append]
  rfl

/-- After a step that takes a path off, nothing of it is there until a step
brings it. -/
theorem run_free {before : List QueueOp} (htakes : op.TakesOff deviceId path)
    (between : List QueueOp)
    (hmeets : Lib.Alongside (Desk.after disk) Desk.Careful {} (before ++ op :: between))
    (hbrings : ∀ early bring late, between = early ++ bring :: late →
      ¬ (Desk.run disk (before ++ op :: early)).Brings deviceId path bring) :
    (Desk.run disk (before ++ op :: between)).Free deviceId path := by
  induction between using List.reverseRecOn with
  | nil =>
    rw [run_snoc]
    rw [Lib.alongside_append] at hmeets
    exact takesOff_free hmeets.2.1 htakes
  | append_singleton between last ih =>
    rw [← List.cons_append, ← List.append_assoc] at hmeets ⊢
    rw [Lib.alongside_append] at hmeets
    have hfree := ih hmeets.1 (fun early bring late heq => hbrings early bring (late ++ [last])
      (by rw [heq, List.append_assoc, List.cons_append]))
    rw [run_snoc]
    intro file hfile hnamed
    obtain hbefore | hbrought := has_before (run_sound hmeets.1) hfile
    · exact hfree file hbefore hnamed
    · rw [hnamed.1, hnamed.2] at hbrought
      exact hbrings between last [] rfl hbrought

theorem applyAll_snoc (before ops : List QueueOp) :
    Lib.applyAll (fun before op => before ++ [op]) before ops = before ++ ops := by
  induction ops generalizing before with
  | nil => exact (List.append_nil _).symm
  | cons op ops ih => exact (ih _).trans (List.append_cons before op ops).symm

/-- In every run in which no step meets a flush that holds what it is about,
nothing is put back or moved onto itself, and no restart drops a file that was
moved to a phone still paired: the queue is within its bound and holds no file
twice; a file that was accepted is in it; a file leaves it only by being handed to
a sender or dropped for a reason; and what was taken off is handed to a sender
only after it was brought again. -/
theorem waiting_kept_once (disk : String → OnDisk) (ops : List QueueOp)
    (hmeets : Lib.Alongside (Desk.after disk) Desk.Careful {} ops)
    (hmoved : Lib.Alongside (fun before op => before ++ [op]) (RemembersMoved disk) [] ops) :
    (Desk.run disk ops).waiting.length ≤ maxWaitingFiles ∧
    ((Desk.run disk ops).waiting.map Waiting.key).Nodup ∧
    (∀ before deviceId phone identity path now rest,
      ops = before ++ QueueOp.waitForPhone deviceId phone identity path now :: rest →
      ((Desk.run disk before).waitForPhone disk deviceId phone identity path now).2 = .ok () →
      ∃ file ∈ (Desk.run disk
          (before ++ [QueueOp.waitForPhone deviceId phone identity path now])).waiting,
        file.deviceId = deviceId ∧ file.path = path ∧
          disk path = .file file.size file.mtimeNs) ∧
    (∀ before op rest, ops = before ++ op :: rest → ∀ file, (Desk.run disk before).Has file →
      (Desk.run disk before).Accounts (file ∈ Desk.movedIn disk {} before) op
        (Desk.run disk (before ++ [op])) file) ∧
    ∀ before op between hand rest file, ops = before ++ op :: between ++ hand :: rest →
      op.TakesOff file.deviceId file.path →
      (Desk.run disk (before ++ op :: between)).hands hand = some file →
      ∃ early bring late, between = early ++ bring :: late ∧
        (Desk.run disk (before ++ op :: early)).Brings file.deviceId file.path bring := by
  have hsound := run_sound hmeets
  refine ⟨hsound.cap, hsound.keys, ?_, ?_, ?_⟩
  · intro before deviceId phone identity path now rest _ hok
    rw [run_snoc]
    exact waitForPhone_ok hok
  · rintro before op rest rfl file hfile
    rw [Lib.alongside_append] at hmeets hmoved
    have hremembers := hmoved.2.1
    rw [applyAll_snoc, List.nil_append] at hremembers
    rw [run_snoc]
    refine after_accounts (run_sound hmeets.1) hmeets.2.1 hfile ?_
    rintro now identity rfl hwaiting hin
    exact hremembers file hwaiting hin
  · rintro before op between hand rest file rfl htakes hhands
    rw [Lib.alongside_append] at hmeets
    by_contra hnone
    have hfree := run_free htakes between hmeets.1
      (fun early bring late heq hbrings => hnone ⟨early, bring, late, heq, hbrings⟩)
    exact hfree file (hands_has hhands) ⟨rfl, rfl⟩

/-- One file, and nothing else. -/
def oneFile (path : String) : OnDisk := if path = "/photo" then .file 8 1 else .missing

/-- The file waits for the phone, and a flush takes it. -/
def takenOps : List QueueOp :=
  [.waitForPhone "p" "Pixel" "A" "/photo" 100, .take ["p"]]

/-- The file waits for the phone, which then comes back under another id. -/
def movedOps : List QueueOp :=
  [.waitForPhone "p" "Pixel" "A" "/photo" 100, .moveWaiting "p" "q"]

def photo : Waiting :=
  { deviceId := "p", phone := "Pixel", path := "/photo", size := 8, mtimeNs := 1, queuedAt := 100
    identity := "A" }

def photoAtQ : Waiting := { photo with deviceId := "q" }

/-- The file is refused and put back, and waits on after a restart; then it is
moved to the phone's new id and taken again. -/
def putBackOps : List QueueOp :=
  takenOps ++ [QueueOp.offer false, .putBack, .restart 101 (fun _ => some "A"),
    .moveWaiting "p" "q", .take ["q"]]

/-- It is handed to a sender. -/
theorem waiting_kept_once_takenOps :
    (Desk.run oneFile putBackOps).Has photoAtQ ∧
      (Desk.run oneFile putBackOps).Accounts (photoAtQ ∈ Desk.movedIn oneFile {} putBackOps)
        (.offer true) (Desk.run oneFile (putBackOps ++ [QueueOp.offer true])) photoAtQ := by
  have hmeets : Lib.Alongside (Desk.after oneFile) Desk.Careful {}
      (putBackOps ++ [QueueOp.offer true]) := by
    refine ⟨trivial, trivial, trivial, ?_, rfl, ?_, trivial, trivial, trivial⟩
    · intro refused hflush
      have hrefused : refused = [photo] := by
        have hflush' : (some ⟨[], [photo]⟩ : Option Flush) = some ⟨[], refused⟩ := hflush
        cases hflush'
        rfl
      subst hrefused
      decide +kernel
    · have hmoves : ∀ file ∈ [photo], file.deviceId = "p" →
          ∀ other ∈ [photo], (file.moved "p" "q").key ≠ other.key := by
        decide
      exact fun _ => hmoves
  have hmoved : Lib.Alongside (fun before op => before ++ [op]) (RemembersMoved oneFile) []
      (putBackOps ++ [QueueOp.offer true]) := by
    refine ⟨trivial, trivial, trivial, trivial, ?_, trivial, trivial, trivial, trivial⟩
    show ∀ file ∈ [photo], file ∈ ([] : List Waiting) → _
    simp
  have hkept := waiting_kept_once oneFile _ hmeets hmoved
  have hhas : (Desk.run oneFile putBackOps).Has photoAtQ := .inr (by decide +kernel)
  exact ⟨hhas, hkept.2.2.2.1 putBackOps (.offer true) [] rfl photoAtQ hhas⟩

/-- While a flush holds the file: the phone is unpaired, and the file is handed to
a sender all the same; it is chosen again, and waits twice; and a restart forgets
it. A restart also drops it after it was moved to a phone that is paired. -/
theorem waiting_lost_and_doubled :
    (Desk.run oneFile (takenOps ++ [QueueOp.forgetWaiting "p", .offer false, .putBack,
        .take ["p"]])).hands (.offer true) = some photo ∧
      ¬ ((Desk.run oneFile (takenOps ++ [QueueOp.waitForPhone "p" "Pixel" "A" "/photo" 101,
          .offer false, .putBack])).waiting.map Waiting.key).Nodup ∧
      ((Desk.run oneFile takenOps).Has photo ∧
        ¬ (Desk.run oneFile takenOps).Accounts (photo ∈ Desk.movedIn oneFile {} takenOps)
          (.restart 101 (fun _ => some "A"))
          (Desk.run oneFile (takenOps ++ [QueueOp.restart 101 (fun _ => some "A")])) photo) ∧
      (Desk.run oneFile movedOps).Has photoAtQ ∧
        ¬ (Desk.run oneFile movedOps).Accounts (photoAtQ ∈ Desk.movedIn oneFile {} movedOps)
          (.restart 101 (fun _ => some "B"))
          (Desk.run oneFile (movedOps ++ [QueueOp.restart 101 (fun _ => some "B")])) photoAtQ := by
  refine ⟨by decide +kernel, by decide +kernel, ⟨.inr (by decide +kernel), ?_⟩,
    .inl (by decide +kernel), ?_⟩
  · rintro ((hwaiting | hheld) | ⟨_, _, hop, _⟩ | hhands | hfresh | hpaired | ⟨_, hpaired⟩)
    · exact absurd hwaiting (by decide +kernel)
    · exact absurd hheld (by decide +kernel)
    · cases hop
    · cases hhands
    · exact absurd hfresh (by decide +kernel)
    · cases hpaired
    · exact absurd hpaired (by decide +kernel)
  · have hmoved : photoAtQ ∈ Desk.movedIn oneFile {} movedOps := by decide +kernel
    rintro ((hwaiting | hheld) | ⟨_, _, hop, _⟩ | hhands | hfresh | hpaired | ⟨hnot, _⟩)
    · exact absurd hwaiting (by decide +kernel)
    · exact absurd hheld (by decide +kernel)
    · cases hop
    · cases hhands
    · exact absurd hfresh (by decide +kernel)
    · cases hpaired
    · exact hnot hmoved

end DeskLink.Sending
