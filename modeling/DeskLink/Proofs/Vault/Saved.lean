import DeskLink.Vault.Pending

/-!
# `DeskLink.Proofs.Vault.Saved`: saved files keep their latest contents

The latest contents of a file are in the queue, else in what is left of the
batch, else on disk: `VaultState.current`. A step for another path leaves them
where they are or moves them on (`step_current`).

Two steps go wrong while the batch that is being written still holds the path:
a `seal_later` that finds the queue full writes the file at once, and the batch
then writes its older contents over it; and a file that is removed comes back
when the batch is written. `VaultState.Undisturbed` is that a step is not one of
these. `saved_files_kept` is what every run of such steps keeps, and
`older_contents_come_back` a run of each other kind.
-/

set_option autoImplicit false

namespace DeskLink.Vault

variable {vault vault' : VaultState} {path : String} {op : VaultOp} {batch : Pending}
variable {holder : Holder} {write : Write} {call : Nat} {last : Option Write}
variable {mayLeave : Write → Prop} {before middle : List VaultOp} {files : KeyMap Write}

/-! ### Where the latest contents are -/

def VaultState.queued (vault : VaultState) (path : String) : Option Write :=
  (vault.pending.getD {})[path]?

/-- What the batch and the disk have of a file. -/
def VaultState.taken (vault : VaultState) (path : String) : Option Write :=
  vault.batch[path]?.or vault.files[path]?

/-- The latest contents of a file that were not cancelled. -/
def VaultState.current (vault : VaultState) (path : String) : Option Write :=
  (vault.queued path).or (vault.taken path)

/-- The step is a call for the path. -/
def VaultOp.isFor (path : String) : VaultOp → Bool
  | .sealLater path' _ | .cancelPending path' | .remove path' => path' = path
  | _ => false

theorem isEmpty_getElem? (h : batch.isEmpty = true) : batch[path]? = none := by
  rw [Std.ExtTreeMap.isEmpty_iff] at h
  rw [h]
  simp

/-- A file that is written moves from the batch to the disk. -/
theorem write_taken {path' : String} (hwriting : vault.writing = some (holder, some batch))
    (hwrite : batch[path']? = some write) : VaultState.taken
      { vault with
        files := vault.files.insert path' write
        writing := some (holder, some (batch.erase path')) } path = vault.taken path := by
  have hbefore : vault.batch = batch := by
    unfold VaultState.batch
    rw [hwriting]
    rfl
  show (batch.erase path')[path]?.or (vault.files.insert path' write)[path]? = _
  unfold VaultState.taken
  rw [hbefore, getElem?_keyErase, getElem?_keyInsert]
  by_cases heq : path' = path
  · subst heq
    rw [hwrite]
    simp
  · simp [heq]

/-- The end of a batch leaves nothing behind. -/
theorem unlock_taken (hwriting : vault.writing = some (holder, some batch))
    (hempty : batch.isEmpty = true) :
    VaultState.taken { vault with writing := none } path = vault.taken path := by
  have hbefore : vault.batch = batch := by
    unfold VaultState.batch
    rw [hwriting]
    rfl
  show ((none : Option Write).or vault.files[path]?) = _
  unfold VaultState.taken
  rw [hbefore, isEmpty_getElem? hempty]

/-- Whoever locks `WRITING` has no batch yet. -/
theorem lock_taken (hfree : vault.writing = none) {ready : Bool} {flushes : List Nat} :
    VaultState.taken { vault with ready, flushes, writing := some (holder, none) } path
      = vault.taken path := by
  have hbefore : vault.batch = {} := by
    unfold VaultState.batch
    rw [hfree]
    rfl
  unfold VaultState.taken
  rw [hbefore]
  rfl

/-- What `seal_later` does: the file is queued, or written at once if the queue
is full. -/
theorem sealLater_cases (path' : String) (write : Write) :
    ((vault.sealLater path' write).queued path
        = (if path' = path then some write else vault.queued path) ∧
      (vault.sealLater path' write).taken path = vault.taken path) ∨
    (maxPendingWrites ≤ (vault.pending.getD {}).size ∧ vault.queued path' = none ∧
      (vault.sealLater path' write).queued path = vault.queued path ∧
      (vault.sealLater path' write).taken path = vault.batch[path]?.or
        (if path' = path then some write else vault.files[path]?)) := by
  unfold VaultState.sealLater
  dsimp only
  split
  · rename_i hfull
    right
    refine ⟨hfull.1, ?_, rfl, ?_⟩
    · have hthere : path' ∉ vault.pending.getD {} := by simpa using hfull.2
      exact Std.ExtTreeMap.getElem?_eq_none hthere
    · show vault.batch[path]?.or (vault.files.insert path' write)[path]? = _
      rw [getElem?_keyInsert]
  · left
    refine ⟨?_, rfl⟩
    show ((vault.pending.getD {}).insert path' write)[path]? = _
    rw [getElem?_keyInsert]
    rfl

/-- What a step that is not a call for the path does: the contents stay where
they are, or the queue becomes the batch. -/
theorem step_cases (hother : op.isFor path = false) (hstep : vault.step op = some vault') :
    (vault'.queued path = vault.queued path ∧ vault'.taken path = vault.taken path) ∨
      (vault'.queued path = none ∧ vault'.taken path = vault.current path) := by
  cases op with
  | sealLater path' write =>
    have hne : path' ≠ path := by simpa [VaultOp.isFor] using hother
    simp only [VaultState.step, Option.ite_none_left_eq_some, Option.some.injEq] at hstep
    obtain ⟨-, rfl⟩ := hstep
    left
    obtain ⟨hqueued, htaken⟩ | ⟨-, -, hqueued, htaken⟩ :=
      @sealLater_cases vault path path' write
    · exact ⟨hqueued.trans (if_neg hne), htaken⟩
    · rw [if_neg hne] at htaken
      exact ⟨hqueued, htaken⟩
  | take =>
    simp only [VaultState.step] at hstep
    split at hstep
    · rename_i holder hwriting
      cases hstep
      right
      refine ⟨by simp [VaultState.take, VaultState.queued], ?_⟩
      have hbatch : vault.batch = {} := by
        unfold VaultState.batch
        rw [hwriting]
        rfl
      show (vault.pending.getD {})[path]?.or vault.files[path]? = _
      unfold VaultState.current VaultState.taken
      rw [hbatch]
      simp [VaultState.queued]
    · cases hstep
  | write path' =>
    simp only [VaultState.step] at hstep
    split at hstep
    · rename_i holder batch hwriting
      split at hstep
      · rename_i write hwrite
        cases hstep
        exact .inl ⟨rfl, write_taken hwriting hwrite⟩
      · cases hstep
    · cases hstep
  | unlock =>
    simp only [VaultState.step] at hstep
    split at hstep
    · rename_i batch hwriting
      simp only [Option.ite_none_right_eq_some, Option.some.injEq] at hstep
      obtain ⟨hempty, rfl⟩ := hstep
      exact .inl ⟨rfl, unlock_taken hwriting hempty⟩
    · cases hstep
  | flushReturns call =>
    simp only [VaultState.step] at hstep
    split at hstep
    · rename_i holder batch hwriting
      simp only [Option.ite_none_right_eq_some, Option.some.injEq] at hstep
      obtain ⟨⟨-, hempty⟩, rfl⟩ := hstep
      exact .inl ⟨rfl, unlock_taken hwriting hempty⟩
    · cases hstep
  | cancelPending path' =>
    have hne : path' ≠ path := by simpa [VaultOp.isFor] using hother
    simp only [VaultState.step, Option.ite_none_left_eq_some, Option.some.injEq] at hstep
    obtain ⟨-, rfl⟩ := hstep
    refine .inl ⟨?_, rfl⟩
    unfold VaultState.queued VaultState.cancelPending
    cases vault.pending with
    | none => rfl
    | some pending =>
      show (pending.erase path')[path]? = pending[path]?
      rw [getElem?_keyErase, if_neg hne]
  | remove path' =>
    have hne : path' ≠ path := by simpa [VaultOp.isFor] using hother
    simp only [VaultState.step, Option.ite_none_right_eq_some, Option.some.injEq] at hstep
    obtain ⟨-, rfl⟩ := hstep
    refine .inl ⟨rfl, ?_⟩
    show vault.batch[path]?.or (vault.files.erase path')[path]? = _
    rw [getElem?_keyErase, if_neg hne]
    rfl
  | lockWriter =>
    simp only [VaultState.step, Option.ite_none_right_eq_some, Option.some.injEq] at hstep
    obtain ⟨⟨-, hfree⟩, rfl⟩ := hstep
    exact .inl ⟨rfl, lock_taken hfree⟩
  | lockFlush call =>
    simp only [VaultState.step, Option.ite_none_right_eq_some, Option.some.injEq] at hstep
    obtain ⟨⟨-, hfree⟩, rfl⟩ := hstep
    exact .inl ⟨rfl, lock_taken hfree⟩
  | wake =>
    simp only [VaultState.step, Option.ite_none_left_eq_some, Option.some.injEq] at hstep
    obtain ⟨-, rfl⟩ := hstep
    exact .inl ⟨rfl, rfl⟩
  | receive =>
    simp only [VaultState.step, Option.ite_none_right_eq_some, Option.some.injEq] at hstep
    obtain ⟨-, rfl⟩ := hstep
    exact .inl ⟨rfl, rfl⟩
  | flushCalled call =>
    simp only [VaultState.step, Option.ite_none_left_eq_some, Option.some.injEq] at hstep
    obtain ⟨-, rfl⟩ := hstep
    exact .inl ⟨rfl, rfl⟩

/-- Such a step moves the latest contents on, and loses nothing. -/
theorem step_current (hother : op.isFor path = false) (hstep : vault.step op = some vault') :
    vault'.current path = vault.current path := by
  unfold VaultState.current
  obtain ⟨hqueued, htaken⟩ | ⟨hqueued, htaken⟩ := step_cases hother hstep
  · rw [hqueued, htaken]
  · rw [hqueued, htaken, Option.none_or]
    rfl

/-! ### The queue -/

/-- What a step does to the queue and to the deletions under way. -/
theorem step_pending (hstep : vault.step op = some vault') :
    (∃ path write, op = .sealLater path write ∧ path ∉ vault.deleting ∧
      vault' = vault.sealLater path write) ∨
    (∃ path, op = .cancelPending path ∧ vault' = vault.cancelPending path) ∨
    ((vault'.pending = vault.pending ∨ vault'.pending = none) ∧
      ∀ path ∈ vault'.deleting, path ∈ vault.deleting) := by
  cases op with
  | sealLater path write =>
    simp only [VaultState.step, Option.ite_none_left_eq_some, Option.some.injEq] at hstep
    exact .inl ⟨path, write, rfl, hstep.1, hstep.2.symm⟩
  | cancelPending path =>
    simp only [VaultState.step, Option.ite_none_left_eq_some, Option.some.injEq] at hstep
    exact .inr (.inl ⟨path, rfl, hstep.2.symm⟩)
  | remove path =>
    simp only [VaultState.step, Option.ite_none_right_eq_some, Option.some.injEq] at hstep
    obtain ⟨-, rfl⟩ := hstep
    exact .inr (.inr ⟨.inl rfl, fun _ hpath => List.mem_of_mem_erase hpath⟩)
  | take =>
    simp only [VaultState.step] at hstep
    split at hstep
    · cases hstep
      exact .inr (.inr ⟨.inr rfl, fun _ hpath => hpath⟩)
    · cases hstep
  | write path =>
    simp only [VaultState.step] at hstep
    split at hstep
    · split at hstep
      · cases hstep
        exact .inr (.inr ⟨.inl rfl, fun _ hpath => hpath⟩)
      · cases hstep
    · cases hstep
  | unlock | flushReturns _ =>
    simp only [VaultState.step] at hstep
    split at hstep
    · simp only [Option.ite_none_right_eq_some, Option.some.injEq] at hstep
      obtain ⟨-, rfl⟩ := hstep
      exact .inr (.inr ⟨.inl rfl, fun _ hpath => hpath⟩)
    · cases hstep
  | wake | receive | lockWriter | lockFlush _ | flushCalled _ =>
    simp only [VaultState.step, Option.ite_none_left_eq_some, Option.ite_none_right_eq_some,
      Option.some.injEq] at hstep
    obtain ⟨-, rfl⟩ := hstep
    exact .inr (.inr ⟨.inl rfl, fun _ hpath => hpath⟩)

/-- What is being deleted is not queued. -/
def VaultState.Cancelled (vault : VaultState) : Prop :=
  ∀ path ∈ vault.deleting, vault.queued path = none

theorem queued_cancelPending (path' : String) :
    (vault.cancelPending path').queued path
      = if path' = path then none else vault.queued path := by
  unfold VaultState.queued VaultState.cancelPending
  cases vault.pending with
  | none => simp
  | some pending => exact getElem?_keyErase pending path' path

theorem step_cancelled (h : vault.Cancelled) (hstep : vault.step op = some vault') :
    vault'.Cancelled := by
  intro path hpath
  obtain ⟨path', write, -, hfree, rfl⟩ | ⟨path', -, rfl⟩ | ⟨hpending, hdeleting⟩ :=
    step_pending hstep
  · -- Nothing is sealed for a path that is being deleted.
    have hthere : path ∈ vault.deleting := by
      unfold VaultState.sealLater at hpath
      dsimp only at hpath
      split at hpath <;> exact hpath
    have hne : path' ≠ path := fun heq => hfree (heq ▸ hthere)
    obtain ⟨hqueued, -⟩ | ⟨-, -, hqueued, -⟩ := @sealLater_cases vault path path' write
    · rw [hqueued, if_neg hne]
      exact h path hthere
    · exact hqueued.trans (h path hthere)
  · rw [queued_cancelPending]
    split
    · rfl
    · rename_i hne
      have hpath : path ∈ path' :: vault.deleting := hpath
      rcases List.mem_cons.mp hpath with heq | hthere
      · exact absurd heq.symm hne
      · exact h path hthere
  · obtain hsame | hnone := hpending
    · unfold VaultState.queued
      rw [hsame]
      exact h path (hdeleting path hpath)
    · unfold VaultState.queued
      rw [hnone]
      simp

theorem step_size (h : (vault.pending.getD {}).size ≤ maxPendingWrites)
    (hstep : vault.step op = some vault') : (vault'.pending.getD {}).size ≤ maxPendingWrites := by
  obtain ⟨path, write, -, -, rfl⟩ | ⟨path, -, rfl⟩ | ⟨hsame | hnone, -⟩ := step_pending hstep
  · unfold VaultState.sealLater
    dsimp only
    split
    · exact h
    · rename_i hroom
      show ((vault.pending.getD {}).insert path write).size ≤ _
      rw [Std.ExtTreeMap.size_insert]
      split
      · exact h
      · rename_i hnew
        by_contra hfull
        exact hroom ⟨by omega, by simpa using hnew⟩
  · cases hpending : vault.pending with
    | none => simp [VaultState.cancelPending, hpending]
    | some pending =>
      rw [hpending] at h
      simp only [VaultState.cancelPending, hpending, Option.map_some, Option.getD_some]
      exact Std.ExtTreeMap.size_erase_le.trans h
  · rw [hsame]
    exact h
  · rw [hnone]
    simp

/-! ### Calls for the path -/

/-- The step leaves a batch that still holds its path alone: nothing is written
past it, and no file is removed under it. -/
def VaultState.Undisturbed (vault : VaultState) : VaultOp → Prop
  | .sealLater path _ =>
    maxPendingWrites ≤ (vault.pending.getD {}).size ∧ vault.queued path = none →
      vault.batch[path]? = none
  | .remove path => vault.batch[path]? = none
  | _ => True

instance decidableUndisturbed (vault : VaultState) : ∀ op, Decidable (vault.Undisturbed op)
  | .sealLater path _ =>
    inferInstanceAs (Decidable (maxPendingWrites ≤ (vault.pending.getD {}).size ∧
      vault.queued path = none → vault.batch[path]? = none))
  | .remove path => inferInstanceAs (Decidable (vault.batch[path]? = none))
  | .wake | .receive | .lockWriter | .flushCalled _ | .lockFlush _ | .take | .write _ | .unlock
  | .flushReturns _ | .cancelPending _ => .isTrue trivial

/-- The latest contents are `write`, and no deletion is under way. -/
structure VaultState.Latest (vault : VaultState) (path : String) (write : Write) : Prop where
  current : vault.current path = some write
  kept : path ∉ vault.deleting

theorem sealLater_latest (hkept : path ∉ vault.deleting)
    (hmeets : vault.Undisturbed (.sealLater path write)) :
    (vault.sealLater path write).Latest path write ∧
      ((vault.sealLater path write).taken path = vault.taken path ∨
        (vault.sealLater path write).taken path = some write) := by
  have hdeleting : path ∉ (vault.sealLater path write).deleting := by
    unfold VaultState.sealLater
    dsimp only
    split <;> exact hkept
  obtain ⟨hqueued, htaken⟩ | ⟨hfull, hnone, hqueued, htaken⟩ := @sealLater_cases vault path path write
  · rw [if_pos rfl] at hqueued
    refine ⟨⟨?_, hdeleting⟩, .inl htaken⟩
    unfold VaultState.current
    rw [hqueued]
    rfl
  · -- It is written at once, and no batch holds older contents.
    rw [if_pos rfl, hmeets ⟨hfull, hnone⟩, Option.none_or] at htaken
    refine ⟨⟨?_, hdeleting⟩, .inr htaken⟩
    unfold VaultState.current
    rw [hqueued, hnone, htaken]
    rfl

/-- A file that is not being deleted is not removed, so the calls for its path
are `seal_later` and `cancel_pending`. -/
theorem isFor_eq_false (hkept : path ∉ vault.deleting)
    (hseal : ∀ write, op ≠ .sealLater path write) (hcancel : op ≠ .cancelPending path)
    (hstep : vault.step op = some vault') : op.isFor path = false := by
  cases op with
  | sealLater path' write =>
    have hne : path' ≠ path := fun heq => hseal write (by rw [heq])
    simp [VaultOp.isFor, hne]
  | cancelPending path' =>
    have hne : path' ≠ path := fun heq => hcancel (by rw [heq])
    simp [VaultOp.isFor, hne]
  | remove path' =>
    have hne : path' ≠ path := by
      rintro rfl
      simp only [VaultState.step, if_neg hkept] at hstep
      cases hstep
    simp [VaultOp.isFor, hne]
  | _ => rfl

/-- A step that seals nothing for the path and does not delete it keeps the
latest contents. -/
theorem step_latest (h : vault.Latest path write) (hseal : ∀ write', op ≠ .sealLater path write')
    (hcancel : op ≠ .cancelPending path) (hstep : vault.step op = some vault') :
    vault'.Latest path write := by
  have hother := isFor_eq_false h.kept hseal hcancel hstep
  refine ⟨(step_current hother hstep).trans h.current, fun hdeleting => h.kept ?_⟩
  obtain ⟨path', write', -, -, rfl⟩ | ⟨path', rfl, rfl⟩ | ⟨-, hsub⟩ := step_pending hstep
  · unfold VaultState.sealLater at hdeleting
    dsimp only at hdeleting
    split at hdeleting <;> exact hdeleting
  · have hdeleting : path ∈ path' :: vault.deleting := hdeleting
    rcases List.mem_cons.mp hdeleting with heq | hthere
    · exact absurd (by rw [heq]) hcancel
    · exact hthere
  · exact hsub path hdeleting

/-- The latest contents for the path that were sealed and not deleted since. -/
def noteSealed (path : String) (last : Option Write) : VaultOp → Option Write
  | .sealLater path' write => if path' = path then some write else last
  | .cancelPending path' => if path' = path then none else last
  | _ => last

def lastSealed (path : String) (ops : List VaultOp) : Option Write :=
  ops.foldl (noteSealed path) none

theorem step_noteSealed (h : ∀ write, last = some write →
      vault.Latest path write) (hmeets : vault.Undisturbed op) (hstep : vault.step op = some vault')
    (hlast : noteSealed path last op = some write) : vault'.Latest path write := by
  by_cases hseal : ∃ write', op = .sealLater path write'
  · obtain ⟨write', rfl⟩ := hseal
    simp only [noteSealed, if_true, Option.some.injEq] at hlast
    subst hlast
    simp only [VaultState.step, Option.ite_none_left_eq_some, Option.some.injEq] at hstep
    obtain ⟨hkept, rfl⟩ := hstep
    exact (sealLater_latest hkept hmeets).1
  by_cases hcancel : op = .cancelPending path
  · subst hcancel
    simp [noteSealed] at hlast
  have hsame : noteSealed path last op = last := by
    cases op with
    | sealLater path' write' =>
      exact if_neg (fun heq => hseal ⟨write', by rw [heq]⟩)
    | cancelPending path' => exact if_neg (fun heq => hcancel (by rw [heq]))
    | _ => rfl
  rw [hsame] at hlast
  exact step_latest (h write hlast) (fun write' heq => hseal ⟨write', heq⟩) hcancel hstep

/-- Along a run of undisturbed steps the latest contents are where they should
be. -/
theorem run_latest {ops : List VaultOp} (h : ∀ write, last = some write → vault.Latest path write)
    (hmeets : Lib.StepsMeet VaultState.step VaultState.Undisturbed vault ops)
    (hrun : Lib.runFrom VaultState.step vault ops = some vault')
    (hlast : ops.foldl (noteSealed path) last = some write) : vault'.Latest path write := by
  induction ops generalizing vault last with
  | nil =>
    cases hrun
    exact h write hlast
  | cons op ops ih =>
    obtain ⟨m, hstep, hrest⟩ := Lib.runFrom_cons_eq_some.mp hrun
    exact ih (fun write' hlast' => step_noteSealed h hmeets.1 hstep hlast') (hmeets.2 m hstep)
      hrest hlast

/-! ### Removed files -/

theorem current_eq_none : vault.current path = none ↔
    vault.queued path = none ∧ vault.batch[path]? = none ∧ vault.files[path]? = none := by
  unfold VaultState.current VaultState.taken
  rw [Option.or_eq_none_iff, Option.or_eq_none_iff]

/-- The file is removed, and nothing holds it any longer. -/
theorem remove_current (hcancelled : vault.Cancelled) (hmeets : vault.Undisturbed (.remove path))
    (hstep : vault.step (.remove path) = some vault') : vault'.current path = none := by
  simp only [VaultState.step, Option.ite_none_right_eq_some, Option.some.injEq] at hstep
  obtain ⟨hdeleting, rfl⟩ := hstep
  refine current_eq_none.mpr ⟨hcancelled path hdeleting, hmeets, ?_⟩
  show (vault.files.erase path)[path]? = none
  rw [getElem?_keyErase, if_pos rfl]

/-- What nothing holds stays absent until it is sealed. -/
theorem step_gone (h : vault.current path = none) (hseal : ∀ write, op ≠ .sealLater path write)
    (hstep : vault.step op = some vault') : vault'.current path = none := by
  obtain ⟨hqueued, hbatch, hfile⟩ := current_eq_none.mp h
  by_cases hother : op.isFor path = false
  · rw [step_current hother hstep]
    exact h
  cases op with
  | sealLater path' write =>
    have heq : path' = path := by simpa [VaultOp.isFor] using hother
    exact absurd (by rw [heq]) (hseal write)
  | cancelPending path' =>
    simp only [VaultState.step, Option.ite_none_left_eq_some, Option.some.injEq] at hstep
    obtain ⟨-, rfl⟩ := hstep
    refine current_eq_none.mpr ⟨?_, hbatch, hfile⟩
    rw [queued_cancelPending]
    split
    · rfl
    · exact hqueued
  | remove path' =>
    simp only [VaultState.step, Option.ite_none_right_eq_some, Option.some.injEq] at hstep
    obtain ⟨-, rfl⟩ := hstep
    refine current_eq_none.mpr ⟨hqueued, hbatch, ?_⟩
    show (vault.files.erase path')[path]? = none
    rw [getElem?_keyErase]
    split
    · rfl
    · exact hfile
  | _ => exact absurd rfl hother

/-! ### Flush -/

/-- What a call of `flush` keeps until it returns: the file's latest contents
are among those that it may leave, and so is what its batch holds. -/
structure VaultState.Flushing (vault : VaultState) (call : Nat) (path : String)
    (mayLeave : Write → Prop) : Prop where
  latest : ∃ write, vault.Latest path write ∧ mayLeave write
  batch : ∀ batch, vault.writing = some (.flush call, some batch) →
    ∃ write, vault.taken path = some write ∧ mayLeave write

/-- Who holds `WRITING` after a step that is no return. -/
theorem step_writing {batch' : Pending} (hstep : vault.step op = some vault')
    (hwriting : vault'.writing = some (.flush call, some batch')) :
    (∃ batch, vault.writing = some (.flush call, some batch)) ∨
      (op = .take ∧ vault.writing = some (.flush call, none)) := by
  cases op with
  | sealLater path write =>
    simp only [VaultState.step, Option.ite_none_left_eq_some, Option.some.injEq] at hstep
    obtain ⟨-, rfl⟩ := hstep
    refine .inl ⟨batch', ?_⟩
    unfold VaultState.sealLater at hwriting
    dsimp only at hwriting
    split at hwriting <;> exact hwriting
  | take =>
    simp only [VaultState.step] at hstep
    split at hstep
    · rename_i holder hbefore
      cases hstep
      simp only [VaultState.take, Option.some.injEq, Prod.mk.injEq] at hwriting
      rw [hwriting.1] at hbefore
      exact .inr ⟨rfl, hbefore⟩
    · cases hstep
  | write path =>
    simp only [VaultState.step] at hstep
    split at hstep
    · rename_i holder batch hbefore
      split at hstep
      · cases hstep
        simp only [Option.some.injEq, Prod.mk.injEq] at hwriting
        rw [hwriting.1] at hbefore
        exact .inl ⟨batch, hbefore⟩
      · cases hstep
    · cases hstep
  | unlock | flushReturns _ =>
    simp only [VaultState.step] at hstep
    split at hstep
    · simp only [Option.ite_none_right_eq_some, Option.some.injEq] at hstep
      obtain ⟨-, rfl⟩ := hstep
      cases hwriting
    · cases hstep
  | wake | receive | flushCalled _ | cancelPending _ | remove _ =>
    simp only [VaultState.step, Option.ite_none_left_eq_some, Option.ite_none_right_eq_some,
      Option.some.injEq] at hstep
    obtain ⟨-, rfl⟩ := hstep
    exact .inl ⟨batch', hwriting⟩
  | lockWriter | lockFlush _ =>
    simp only [VaultState.step, Option.ite_none_right_eq_some, Option.some.injEq] at hstep
    obtain ⟨-, rfl⟩ := hstep
    simp at hwriting

theorem step_flushing (h : vault.Flushing call path mayLeave) (hmeets : vault.Undisturbed op)
    (hseal : ∀ write, op = .sealLater path write → mayLeave write)
    (hcancel : op ≠ .cancelPending path) (hstep : vault.step op = some vault') :
    vault'.Flushing call path mayLeave := by
  obtain ⟨⟨write, hlatest, hmay⟩, hbatch⟩ := h
  by_cases hsealed : ∃ write', op = .sealLater path write'
  · obtain ⟨write', rfl⟩ := hsealed
    have hwriting := @step_writing vault vault' (.sealLater path write') call
    simp only [VaultState.step, Option.ite_none_left_eq_some, Option.some.injEq] at hstep
    obtain ⟨hkept, rfl⟩ := hstep
    obtain ⟨hlatest', htaken⟩ := sealLater_latest hkept hmeets
    refine ⟨⟨write', hlatest', hseal write' rfl⟩, fun batch' hwriting' => ?_⟩
    obtain hsame | hnew := htaken
    · rw [hsame]
      obtain ⟨batch, hbefore⟩ | ⟨htake, -⟩ := hwriting (by simp [VaultState.step, hkept]) hwriting'
      · exact hbatch batch hbefore
      · cases htake
    · exact ⟨write', hnew, hseal write' rfl⟩
  · have hlatest' := step_latest hlatest (fun write' heq => hsealed ⟨write', heq⟩) hcancel hstep
    refine ⟨⟨write, hlatest', hmay⟩, fun batch' hwriting' => ?_⟩
    have hother := isFor_eq_false hlatest.kept (fun write' heq => hsealed ⟨write', heq⟩) hcancel hstep
    obtain ⟨-, htaken⟩ | ⟨-, htaken⟩ := step_cases hother hstep
    · rw [htaken]
      obtain ⟨batch, hbefore⟩ | ⟨rfl, hbefore⟩ := step_writing hstep hwriting'
      · exact hbatch batch hbefore
      · -- The batch is the queue: nothing newer is left behind.
        simp only [VaultState.step, hbefore, Option.some.injEq] at hstep
        have hcurrent := hlatest'.current
        have hempty : vault'.queued path = none := by
          rw [← hstep]
          simp [VaultState.queued, VaultState.take]
        unfold VaultState.current at hcurrent
        rw [hempty, Option.none_or, htaken] at hcurrent
        exact ⟨write, hcurrent, hmay⟩
    · exact ⟨write, htaken.trans hlatest.current, hmay⟩

/-- At its return nothing is left of the batch of a `flush`. -/
theorem flushReturns_files (h : vault.Flushing call path mayLeave)
    (hstep : vault.step (.flushReturns call) = some vault') :
    ∃ write, vault'.files[path]? = some write ∧ mayLeave write := by
  simp only [VaultState.step] at hstep
  split at hstep
  · rename_i holder batch hwriting
    simp only [Option.ite_none_right_eq_some, Option.some.injEq] at hstep
    obtain ⟨⟨rfl, hempty⟩, rfl⟩ := hstep
    obtain ⟨write, htaken, hmay⟩ := h.batch batch hwriting
    rw [← unlock_taken hwriting hempty] at htaken
    exact ⟨write, htaken, hmay⟩
  · cases hstep

/-! ### Runs -/

/-- What the files of the paths are at some start. -/
def VaultState.start (files : KeyMap Write) : VaultState := { files }

/-- A `flush` from its call to its return. -/
theorem run_flush (hrun : Lib.runFrom VaultState.step (VaultState.start files)
      (before ++ VaultOp.flushCalled call :: (middle ++ [VaultOp.flushReturns call])) = some vault)
    (hmeets : Lib.StepsMeet VaultState.step VaultState.Undisturbed (VaultState.start files)
      (before ++ VaultOp.flushCalled call :: (middle ++ [VaultOp.flushReturns call])))
    (hcancel : .cancelPending path ∉ middle) (hlast : lastSealed path before = some write) :
    ∃ left, vault.files[path]? = some left ∧ (left = write ∨ .sealLater path left ∈ middle) := by
  obtain ⟨called, hbefore, hrest⟩ := Lib.runFrom_append_eq_some.mp hrun
  obtain ⟨hmeetsBefore, hmeetsRest⟩ := hmeets.of_append
  obtain ⟨waiting, hcalled, hrest⟩ := Lib.runFrom_cons_eq_some.mp hrest
  obtain ⟨returning, hmiddle, hreturn⟩ := Lib.runFrom_append_eq_some.mp hrest
  obtain ⟨hmeetsMiddle, -⟩ := ((hmeetsRest called hbefore).2 waiting hcalled).of_append
  have hlatest : called.Latest path write :=
    run_latest (fun _ h => by cases h) hmeetsBefore hbefore hlast
  -- The call itself holds nothing yet.
  have hwaiting : waiting.Flushing call path
      (fun left => left = write ∨ .sealLater path left ∈ middle) := by
    refine ⟨⟨write, ?_, .inl rfl⟩, fun batch hwriting => ?_⟩
    · exact step_latest hlatest (fun _ h => by cases h) (fun h => by cases h) hcalled
    · simp only [VaultState.step, Option.ite_none_left_eq_some, not_or, Option.some.injEq]
        at hcalled
      obtain ⟨⟨-, hfree⟩, rfl⟩ := hcalled
      have hwriting : called.writing = some (.flush call, some batch) := hwriting
      exact absurd (by rw [hwriting]; rfl) hfree
  have hreturning := Lib.runFrom_invariant_of_steps
    (fun s op s' h hop hstep => step_flushing h hop.2 hop.1.1 hop.1.2 hstep) hwaiting
    (hmeetsMiddle.and_forall (P := fun op =>
      (∀ left, op = .sealLater path left → left = write ∨ .sealLater path left ∈ middle) ∧
        op ≠ .cancelPending path) (fun op hop => ⟨fun left heq => .inr (heq ▸ hop),
          fun heq => hcancel (heq ▸ hop)⟩)) hmiddle
  obtain ⟨last, hlastStep, hend⟩ := Lib.runFrom_cons_eq_some.mp hreturn
  cases hend
  exact flushReturns_files hreturning hlastStep

theorem run_removed (hrun : Lib.runFrom VaultState.step (VaultState.start files)
      (before ++ .remove path :: middle) = some vault)
    (hmeets : Lib.StepsMeet VaultState.step VaultState.Undisturbed (VaultState.start files)
      (before ++ .remove path :: middle)) (hseal : ∀ write, .sealLater path write ∉ middle) :
    vault.files[path]? = none := by
  obtain ⟨deleting, hbefore, hrest⟩ := Lib.runFrom_append_eq_some.mp hrun
  obtain ⟨removed, hremove, hmiddle⟩ := Lib.runFrom_cons_eq_some.mp hrest
  obtain ⟨-, hmeetsRest⟩ := hmeets.of_append
  obtain ⟨hmeetsRemove, hmeetsMiddle⟩ := hmeetsRest deleting hbefore
  have hcancelled : deleting.Cancelled := by
    refine Lib.runFrom_invariant (fun _ _ _ h hstep => step_cancelled h hstep) ?_ hbefore
    intro path hpath
    cases hpath
  have hgone := Lib.runFrom_invariant_of_steps
    (I := fun vault => vault.current path = none)
    (fun s op s' h hop hstep => step_gone h hop.1 hstep)
    (remove_current hcancelled hmeetsRemove hremove)
    ((hmeetsMiddle removed hremove).and_forall (P := fun op =>
      ∀ write, op ≠ .sealLater path write) (fun op hop write heq => hseal write (heq ▸ hop)))
    hmiddle
  exact (current_eq_none.mp hgone).2.2

/-- In every run whose steps leave the batches alone: when a `flush` returns,
each file that was sealed before it was called, and not deleted since, holds the
contents last sealed for it before the call, or ones sealed for it since; a file
that was removed is absent until it is sealed again; and the queue is bounded. -/
theorem saved_files_kept (files : KeyMap Write) (ops : List VaultOp) (vault : VaultState)
    (hrun : Lib.runFrom VaultState.step (VaultState.start files) ops = some vault)
    (hmeets : Lib.StepsMeet VaultState.step VaultState.Undisturbed (VaultState.start files) ops) :
    (∀ before call middle path write,
      ops = before ++ VaultOp.flushCalled call :: (middle ++ [VaultOp.flushReturns call]) →
      .cancelPending path ∉ middle → lastSealed path before = some write →
      ∃ left, vault.files[path]? = some left ∧ (left = write ∨ .sealLater path left ∈ middle)) ∧
    (∀ before middle path, ops = before ++ VaultOp.remove path :: middle →
      (∀ write, .sealLater path write ∉ middle) → vault.files[path]? = none) ∧
    (vault.pending.getD {}).size ≤ maxPendingWrites := by
  refine ⟨?_, ?_, ?_⟩
  · rintro before call middle path write rfl hcancel hlast
    exact run_flush hrun hmeets hcancel hlast
  · rintro before middle path rfl hseal
    exact run_removed hrun hmeets hseal
  · exact Lib.runFrom_invariant (I := fun vault => (vault.pending.getD {}).size ≤ maxPendingWrites)
      (fun _ _ _ h hstep => step_size h hstep) (by simp [VaultState.start]) hrun

/-- Contents of a note. -/
def noteWrite (plain : List UInt8) : Write := { dir := "vault", aad := [], plain }

/-- A file is saved by the writer thread and once more by `flush`, and another
is deleted. -/
def savedRun : List VaultOp :=
  [.sealLater "a" (noteWrite [1]), .wake, .receive, .lockWriter, .take,
    .sealLater "a" (noteWrite [2]), .wake, .write "a", .sealLater "b" (noteWrite [3]), .unlock,
    .cancelPending "b", .remove "b", .flushCalled 0, .lockFlush 0, .take, .write "a",
    .flushReturns 0]

/-- The last write is left, and the deleted file is gone. -/
theorem saved_files_kept_savedRun : ∃ vault,
    Lib.runFrom VaultState.step (VaultState.start {}) savedRun = some vault ∧
      Lib.StepsMeet VaultState.step VaultState.Undisturbed (VaultState.start {}) savedRun ∧
      (∃ left, vault.files["a"]? = some left ∧ (left = noteWrite [2] ∨
        VaultOp.sealLater "a" left ∈ [.lockFlush 0, .take, .write "a"])) ∧
      vault.files["b"]? = none := by
  have hmeets : Lib.StepsMeet VaultState.step VaultState.Undisturbed (VaultState.start {})
      savedRun := by decide +kernel
  cases hrun : Lib.runFrom VaultState.step (VaultState.start {}) savedRun with
  | none =>
    have hsome : (Lib.runFrom VaultState.step (VaultState.start {}) savedRun).isSome := by
      decide +kernel
    rw [hrun] at hsome
    cases hsome
  | some vault =>
    obtain ⟨hflush, hremoved, -⟩ := saved_files_kept {} savedRun vault hrun hmeets
    refine ⟨vault, rfl, hmeets, ?_, ?_⟩
    · exact hflush (savedRun.take 12) 0 [.lockFlush 0, .take, .write "a"] "a" (noteWrite [2])
        (by decide +kernel) (by decide) (by decide +kernel)
    · exact hremoved (savedRun.take 11) (savedRun.drop 12) "b" (by decide +kernel) (by
        intro write hwrite
        simp [savedRun] at hwrite)

/-- Other files, as many as the queue holds. -/
def otherPaths : List String := (List.range maxPendingWrites).map (fun n => toString n)

/-- A file is sealed, taken by the writer thread, and sealed again while the
queue is full: after a `flush` it holds the older contents. And a file that is
removed while the writer thread holds it comes back. -/
theorem older_contents_come_back :
    ((Lib.runFrom VaultState.step (VaultState.start {})
      ([VaultOp.sealLater "a" (noteWrite [1]), .wake, .receive, .lockWriter, .take]
        ++ otherPaths.map (fun path => VaultOp.sealLater path (noteWrite [0]))
        ++ [VaultOp.sealLater "a" (noteWrite [2]), .flushCalled 0, .write "a", .unlock,
          .lockFlush 0, .take]
        ++ otherPaths.map VaultOp.write ++ [VaultOp.flushReturns 0])).map
      (fun vault => vault.files["a"]?)) = some (some (noteWrite [1])) ∧
    ((Lib.runFrom VaultState.step (VaultState.start {})
      [.sealLater "b" (noteWrite [1]), .wake, .receive, .lockWriter, .take, .cancelPending "b",
        .remove "b", .write "b"]).map
      (fun vault => vault.files["b"]?)) = some (some (noteWrite [1])) := by
  constructor <;> decide +kernel

end DeskLink.Vault
