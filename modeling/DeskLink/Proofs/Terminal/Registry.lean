import DeskLink.Terminal.Registry

/-!
# `DeskLink.Proofs.Terminal.Registry`: what the registry keeps

`Kept registry n attached` is the invariant of the registry: of its
sessions there are `n` at most, each has an owner and only they have one,
only they have a writer, and the caps hold. Attachments live in the
bridges, so who is attached to what is a parameter: a writer is attached.

There is one lemma per operation. An operation that takes an attachment
away takes the lease away with it, and its lemma says so: `Kept.forget`,
`Kept.releaseTerminalWriter` and `Kept.releaseWriter` hold for any `attached`
that loses no more than that.
-/

set_option autoImplicit false

namespace DeskLink.Terminal

variable {P : Type} {vt : Vt100 P}

structure TerminalRegistry.Kept (registry : TerminalRegistry) (n : Nat)
    (attached : String → Nat → Prop) : Prop where
  lt : ∀ id ∈ registry.sessions, id < n
  owned : ∀ id, id ∈ registry.sessions ↔ ∃ owner, registry.owners[id]? = some owner
  listed : ∀ id device, registry.writers[id]? = some device → id ∈ registry.sessions
  leased : ∀ id device, registry.writers[id]? = some device → attached device id
  cap : registry.sessions.size ≤ maxSessions
  deviceCap : ∀ owner, countValues registry.owners owner ≤ maxSessionsPerDevice

namespace TerminalRegistry

variable {registry : TerminalRegistry} {n id : Nat} {attached attached' : String → Nat → Prop}
variable {all : Sessions P} {device : String}

theorem kept_new : Kept {} 0 attached where
  lt := by simp
  owned := by simp
  listed := by simp
  leased := by simp
  cap := by simp
  deviceCap := by
    intro owner
    have hnone : (∅ : IdMap String).filter (fun _ value => value = owner) = ∅ := by
      apply Std.ExtTreeMap.ext_getElem?
      simp
    show ((∅ : IdMap String).filter _).size ≤ _
    rw [hnone]
    simp

/-- More sessions were started, and no writer lost its attachment. -/
theorem Kept.mono (h : registry.Kept n attached) {m : Nat} (hm : n ≤ m)
    (hattached : ∀ id device, registry.writers[id]? = some device → attached device id →
      attached' device id) : registry.Kept m attached' :=
  { h with
    lt := fun id hid => Nat.lt_of_lt_of_le (h.lt id hid) hm
    leased := fun id device hwriter => hattached id device hwriter (h.leased id device hwriter) }

theorem Kept.forget (h : registry.Kept n attached) (id : Nat)
    (hattached : ∀ id' device, id' ≠ id → attached device id' → attached' device id') :
    (registry.forget id).Kept n attached' where
  lt id' hid' := h.lt id' (by
    have : id' ∈ registry.sessions.erase id := hid'
    rw [Std.ExtTreeSet.mem_erase] at this
    exact this.2)
  owned id' := by
    show id' ∈ registry.sessions.erase id ↔ ∃ owner, (registry.owners.erase id)[id']? = _
    rw [Std.ExtTreeSet.mem_erase, h.owned, getElem?_idErase]
    by_cases heq : id = id' <;> simp [heq]
  listed id' device hwriter := by
    have hwriter : (registry.writers.erase id)[id']? = some device := hwriter
    show id' ∈ registry.sessions.erase id
    rw [getElem?_idErase] at hwriter
    by_cases heq : id = id'
    · simp [heq] at hwriter
    · rw [if_neg heq] at hwriter
      rw [Std.ExtTreeSet.mem_erase]
      exact ⟨by simpa using heq, h.listed id' device hwriter⟩
  leased id' device hwriter := by
    have hwriter : (registry.writers.erase id)[id']? = some device := hwriter
    rw [getElem?_idErase] at hwriter
    by_cases heq : id = id'
    · simp [heq] at hwriter
    · rw [if_neg heq] at hwriter
      exact hattached id' device (fun hid => heq hid.symm) (h.leased id' device hwriter)
  cap := by
    refine Nat.le_trans ?_ h.cap
    exact Std.ExtTreeSet.size_erase_le
  deviceCap owner := Nat.le_trans (countValues_erase_le ..) (h.deviceCap owner)

theorem Kept.forgetAll (h : registry.Kept n attached) (ids : List Nat) :
    (ids.foldl TerminalRegistry.forget registry).Kept n attached := by
  induction ids generalizing registry with
  | nil => exact h
  | cons id ids ih => exact ih (h.forget id (fun _ _ _ hattached => hattached))

theorem Kept.reap (h : registry.Kept n attached) (all : Sessions P) :
    (registry.reap all).Kept n attached := h.forgetAll _

/-- A session is created, or none is. -/
theorem Kept.createIn (h : registry.Kept all.length attached) (owner : String) (rows cols : Nat)
    (spawned : Except String Unit) :
    (registry.createIn vt all owner rows cols spawned).1.Kept
      (registry.createIn vt all owner rows cols spawned).2.1.length attached := by
  have hreaped := h.reap all
  unfold TerminalRegistry.createIn
  by_cases hfull : maxSessions ≤ (registry.reap all).sessions.size
  · rw [if_pos hfull]
    exact hreaped
  rw [if_neg hfull]
  by_cases hmany : maxSessionsPerDevice ≤ countValues (registry.reap all).owners owner
  · rw [if_pos hmany]
    exact hreaped
  rw [if_neg hmany]
  cases spawned with
  | error message => exact hreaped
  | ok _ =>
    -- The new name is the number of sessions, so nothing is known by it yet.
    have hfresh : (registry.reap all).owners[all.length]? = none := by
      rw [Option.eq_none_iff_forall_ne_some]
      intro someone hsome
      exact Nat.lt_irrefl _ (hreaped.lt _ ((hreaped.owned _).mpr ⟨someone, hsome⟩))
    have hmem (id : Nat) : id ∈ (registry.reap all).sessions.insert all.length ↔
        all.length = id ∨ id ∈ (registry.reap all).sessions := by
      rw [Std.ExtTreeSet.mem_insert, Nat.compare_eq_eq]
    exact {
      lt := by
        intro id hid
        rw [List.length_append, List.length_singleton]
        obtain hid | hid := (hmem id).mp hid
        · omega
        · exact Nat.lt_succ_of_lt (hreaped.lt id hid)
      owned := by
        intro id
        show id ∈ (registry.reap all).sessions.insert all.length ↔
          ∃ someone, ((registry.reap all).owners.insert all.length owner)[id]? = some someone
        rw [hmem, hreaped.owned, getElem?_idInsert]
        by_cases heq : all.length = id <;> simp [heq]
      listed := fun id device hwriter => (hmem id).mpr (.inr (hreaped.listed id device hwriter))
      leased := hreaped.leased
      cap := by
        show ((registry.reap all).sessions.insert all.length).size ≤ maxSessions
        have := Std.ExtTreeSet.size_insert_le (t := (registry.reap all).sessions)
          (k := all.length)
        omega
      deviceCap := by
        intro someone
        show countValues ((registry.reap all).owners.insert all.length owner) someone ≤ _
        by_cases heq : owner = someone
        · subst heq
          have := countValues_insert_self_le (registry.reap all).owners all.length owner
          omega
        · rw [countValues_insert_ne _ heq hfresh]
          exact hreaped.deviceCap someone }

theorem Kept.claimWriter (h : registry.Kept n attached) (hattached : attached device id) :
    (registry.claimWriter id device).1.Kept n attached := by
  unfold TerminalRegistry.claimWriter
  by_cases hlisted : id ∈ registry.sessions
  · rw [if_neg (not_not_intro hlisted)]
    split
    · exact h
    · exact {
        h with
        listed := by
          intro id' device' hwriter
          have hwriter : (registry.writers.insert id device)[id']? = some device' := hwriter
          rw [getElem?_idInsert] at hwriter
          by_cases heq : id = id'
          · exact heq ▸ hlisted
          · rw [if_neg heq] at hwriter
            exact h.listed id' device' hwriter
        leased := by
          intro id' device' hwriter
          have hwriter : (registry.writers.insert id device)[id']? = some device' := hwriter
          rw [getElem?_idInsert] at hwriter
          by_cases heq : id = id'
          · rw [if_pos heq, Option.some.injEq] at hwriter
            rw [← hwriter, ← heq]
            exact hattached
          · rw [if_neg heq] at hwriter
            exact h.leased id' device' hwriter }
  · rw [if_pos hlisted]
    exact h

/-- Whoever may type is the writer from then on. -/
theorem claimWriter_writer (hmay : (registry.claimWriter id device).2 = true) :
    (registry.claimWriter id device).1.writers[id]? = some device := by
  unfold TerminalRegistry.claimWriter at hmay ⊢
  split
  · rename_i hlisted
    rw [if_pos hlisted] at hmay
    cases hmay
  · rename_i hlisted
    rw [if_neg hlisted] at hmay
    split
    · rename_i hother
      rw [if_pos hother] at hmay
      cases hmay
    · simp

/-- The lease goes with the attachment. -/
theorem Kept.releaseTerminalWriter (h : registry.Kept n attached)
    (hattached : ∀ id' device', ¬ (id' = id ∧ device' = device) → attached device' id' →
      attached' device' id') : (registry.releaseTerminalWriter id device).Kept n attached' := by
  unfold TerminalRegistry.releaseTerminalWriter
  by_cases hwriter : registry.isWriter id device = true
  · rw [if_pos hwriter]
    have hholder : registry.writers[id]? = some device := of_decide_eq_true hwriter
    have hrest (id' : Nat) (device' : String)
        (hleft : (registry.writers.erase id)[id']? = some device') :
        registry.writers[id']? = some device' ∧ id ≠ id' := by
      rw [getElem?_idErase] at hleft
      by_cases heq : id = id'
      · simp [heq] at hleft
      · rw [if_neg heq] at hleft
        exact ⟨hleft, heq⟩
    exact {
      h with
      listed := fun id' device' hleft => h.listed id' device' (hrest id' device' hleft).1
      leased := by
        intro id' device' hleft
        obtain ⟨hleft, hne⟩ := hrest id' device' hleft
        exact hattached id' device' (fun hboth => hne hboth.1.symm) (h.leased id' device' hleft) }
  · rw [if_neg hwriter]
    refine h.mono le_rfl (fun id' device' hleft hthere => ?_)
    refine hattached id' device' (fun hboth => hwriter ?_) hthere
    obtain ⟨rfl, rfl⟩ := hboth
    exact decide_eq_true hleft

theorem writers_releaseWriter {holder : String} :
    (registry.releaseWriter device).writers[id]? = some holder ↔
      registry.writers[id]? = some holder ∧ holder ≠ device := by
  show (registry.writers.filter _)[id]? = _ ↔ _
  rw [getElem?_idFilter, Option.filter_eq_some_iff]
  simp

/-- All leases of a device go with all its attachments. -/
theorem Kept.releaseWriter (h : registry.Kept n attached)
    (hattached : ∀ id device', device' ≠ device → attached device' id → attached' device' id) :
    (registry.releaseWriter device).Kept n attached' :=
  { h with
    listed := fun id device' hwriter => h.listed id device' (writers_releaseWriter.mp hwriter).1
    leased := by
      intro id device' hwriter
      obtain ⟨hwriter, hne⟩ := writers_releaseWriter.mp hwriter
      exact hattached id device' hne (h.leased id device' hwriter) }

end TerminalRegistry

end DeskLink.Terminal
