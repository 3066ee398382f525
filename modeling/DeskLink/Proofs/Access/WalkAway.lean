import DeskLink.Access.WalkAway
import DeskLink.Lib.Since

/-!
# `DeskLink.Proofs.Access.WalkAway`: a lock is earned, warned and given once

`look_cases` lists what a look can do. `Held` says what a phone's flags tell of the log:
an armed phone was ready and is gone since (`Gone`), a count began at a look and
nothing stopped it (`Counting`), a warning stands (`Warned`), and after a lock the phone
is done. Every operation keeps it, so a lock has all of that behind it.

A warning that a reset took back is cleared by the next look, but for a look that finds
the lock switched off: it removes the phone and answers nothing (`Forgotten`).
`walk_away_lock` says that no other look leaves a warning up.
-/

set_option autoImplicit false

namespace DeskLink.WalkAway

open Lib (Since since_snoc not_since_nil)

variable {now : Nat} {seen : Seen} {id other : String} {e : Entry} {p : Phone}

/-! ### What a look does -/

/-- The ways a look at a phone ends. -/
inductive LookCase (p : Phone) (seen : Seen) (now : Nat) : Phone × Option Step → Prop
  | pending (h : p.clearPending = true) :
    LookCase p seen now ({ p with clearPending := false }, some .clearWarning)
  | back (hpending : p.clearPending = false) (h : seen.reachable = true) :
    LookCase p seen now ({ armed := p.armed || seen.ready }, clears p)
  | unwatched (hpending : p.clearPending = false) (hgone : seen.reachable = false)
      (h : p.armed = false ∨ p.done = true) : LookCase p seen now (p, none)
  | offline (hpending : p.clearPending = false) (hgone : seen.reachable = false)
      (hnetwork : seen.networkUp = false) :
    LookCase p seen now ({ p with awaySince := none, warnedAt := none }, clears p)
  | counts (hpending : p.clearPending = false) (hgone : seen.reachable = false)
      (hnetwork : seen.networkUp = true) :
    LookCase p seen now ({ p with awaySince := some (p.awaySince.getD now) }, none)
  | warns (hpending : p.clearPending = false) (hgone : seen.reachable = false)
      (hwatched : p.armed = true ∧ p.done = false) (hnetwork : seen.networkUp = true) :
    LookCase p seen now
      ({ p with awaySince := some (p.awaySince.getD now), warnedAt := some now }, some .warn)
  | restarts (hpending : p.clearPending = false) (hgone : seen.reachable = false)
      (hnetwork : seen.networkUp = true) :
    LookCase p seen now ({ p with awaySince := some now, warnedAt := none }, some .clearWarning)
  | locks (hpending : p.clearPending = false) (hgone : seen.reachable = false)
      (hwatched : p.armed = true ∧ p.done = false) (hnetwork : seen.networkUp = true)
      (since : Nat) (hsince : p.awaySince = some since) (hlong : since + seen.lockAfter ≤ now)
      (warned : Nat) (hwarned : p.warnedAt = some warned) (hwarn : warned + warnFor ≤ now) :
    LookCase p seen now
      ({ p with awaySince := some since, warnedAt := none, done := true }, some .lock)

theorem lockAfter_pos (seen : Seen) : 0 < seen.lockAfter := by
  unfold Seen.lockAfter
  split <;> decide

theorem count_cases (idle : Bool) (hpending : p.clearPending = false)
    (hgone : seen.reachable = false) (hwatched : p.armed = true ∧ p.done = false)
    (hnetwork : seen.networkUp = true) : LookCase p seen now (p.count seen now idle) := by
  have hlock := lockAfter_pos seen
  have hcounts : LookCase p seen now _ := LookCase.counts hpending hgone hnetwork
  unfold Phone.count
  simp only
  split
  · rename_i hwarned
    split
    · split
      · exact hcounts
      · exact .warns hpending hgone hwatched hnetwork
    · exact hcounts
  · rename_i warned hwarned
    split
    · rename_i hlong
      split
      · exact .restarts hpending hgone hnetwork
      · cases hsince : p.awaySince with
        | none =>
          -- A count that begins at this look has no time behind it.
          rw [hsince, Option.getD_none] at hlong
          omega
        | some since =>
          have hwarn : 0 < warnFor := by decide
          rw [hsince, Option.getD_some] at hlong
          exact .locks hpending hgone hwatched hnetwork since hsince (by omega) warned hwarned
            (by omega)
    · exact hcounts

theorem look_cases (p : Phone) (seen : Seen) (now : Nat) (idle : Bool) :
    LookCase p seen now (p.look seen now idle) := by
  unfold Phone.look
  split
  · rename_i hpending
    exact .pending hpending
  · rename_i hpending
    rw [Bool.not_eq_true] at hpending
    split
    · rename_i hback
      exact .back hpending hback
    · rename_i hgone
      rw [Bool.not_eq_true] at hgone
      split
      · rename_i hwatched
        rw [Bool.or_eq_true, Bool.not_eq_true'] at hwatched
        exact .unwatched hpending hgone hwatched
      · rename_i hwatched
        rw [Bool.not_eq_true, Bool.or_eq_false_iff, Bool.not_eq_false'] at hwatched
        split
        · rename_i hnetwork
          rw [Bool.not_eq_true'] at hnetwork
          exact .offline hpending hgone hnetwork
        · rename_i hnetwork
          rw [Bool.not_eq_true', Bool.not_eq_false] at hnetwork
          exact count_cases idle hpending hgone hwatched hnetwork

/-! ### One phone of the watch -/

/-- What is kept of a phone. -/
def Watch.phone (watch : Watch) (id : String) : Phone := (watch[id]?).getD {}

theorem phone_enabled (watch : Watch) {id : String} {seen : Seen} (now : Nat) (idle : Bool)
    (h : seen.enabled = true) :
    (watch.observeWhenIdle id seen now idle).1.phone id = ((watch.phone id).look seen now idle).1 ∧
      (watch.observeWhenIdle id seen now idle).2 = ((watch.phone id).look seen now idle).2 := by
  unfold Watch.observeWhenIdle Watch.phone
  rw [h]
  simp

theorem phone_disabled (watch : Watch) (now : Nat) (idle : Bool) (h : seen.enabled = false) :
    (watch.observeWhenIdle id seen now idle).1.phone id = {} ∧
      (watch.observeWhenIdle id seen now idle).2 = clears (watch.phone id) := by
  unfold Watch.observeWhenIdle Watch.phone
  rw [h]
  cases watch[id]? with
  | none => simp [clears]
  | some p => simp

theorem phone_other (watch : Watch) (seen : Seen) (now : Nat) (idle : Bool) (h : other ≠ id) :
    (watch.observeWhenIdle other seen now idle).1.phone id = watch.phone id := by
  unfold Watch.observeWhenIdle Watch.phone
  split <;> simp [h]

theorem phone_cancel (watch : Watch) (id : String) : (watch.cancel id).1.phone id =
    if (watch.phone id).warnedAt.isSome then
      { watch.phone id with warnedAt := none, done := true }
    else watch.phone id := by
  unfold Watch.cancel Watch.phone
  cases hget : watch[id]? with
  | none => simp [hget]
  | some p => cases hwarned : p.warnedAt <;> simp [Option.filter, hget, hwarned]

theorem phone_cancel_other (watch : Watch) (h : other ≠ id) :
    (watch.cancel other).1.phone id = watch.phone id := by
  unfold Watch.cancel Watch.phone
  split <;> simp [h]

theorem phone_reset (watch : Watch) (id : String) : watch.reset.phone id =
    { watch.phone id with
      clearPending := (watch.phone id).clearPending || (watch.phone id).warnedAt.isSome,
      warnedAt := none, awaySince := none } := by
  unfold Watch.reset Watch.phone
  rw [Std.ExtTreeMap.getElem?_map]
  cases watch[id]? <;> rfl

/-! ### What the log says of a phone -/

/-- A look at the phone that found `P`. -/
def LookOf (id : String) (P : Seen → Prop) (e : Entry) : Prop :=
  ∃ seen now idle, e.1 = .look id seen now idle ∧ P seen

/-- If it is a look at the phone, it found `P`. -/
def Finds (id : String) (P : Seen → Prop) (e : Entry) : Prop :=
  ∀ seen now idle, e.1 = .look id seen now idle → P seen

/-- A look found the phone ready, and the lock was on ever since. -/
def HadReady (id : String) : List Entry → Prop :=
  Since (fun _ e => LookOf id (fun s => s.enabled = true ∧ s.reachable = true ∧ s.ready = true) e)
    (Finds id (fun s => s.enabled = true))

/-- A look found the phone in reach, when it had been ready, and none since did. -/
def Gone (id : String) : List Entry → Prop :=
  Since (fun past e => LookOf id (fun s => s.reachable = true) e ∧ HadReady id (past ++ [e]))
    (Finds id (fun s => s.enabled = true ∧ s.reachable = false))

/-- From a look at `t` on the network was up, without a reset. -/
def Counting (id : String) (t : Nat) : List Entry → Prop :=
  Since (fun _ e => ∃ seen idle, e.1 = .look id seen t idle ∧ seen.networkUp = true)
    (fun e => e.1 ≠ .reset ∧ Finds id (fun s => s.networkUp = true) e)

/-- The look is not one that ends a warning. -/
def LeavesUp (id : String) (e : Entry) : Prop :=
  ∀ seen now idle, e.1 = .look id seen now idle → e.2 ≠ some .clearWarning ∧ e.2 ≠ some .lock

def WarnsAt (id : String) (t : Nat) (e : Entry) : Prop :=
  e.2 = some .warn ∧ ∃ seen idle, e.1 = .look id seen t idle

/-- A warning of time `t` stands: nothing ended it, and there was no reset. -/
def Warned (id : String) (t : Nat) : List Entry → Prop :=
  Since (fun _ e => WarnsAt id t e) (fun e => e.1 ≠ .reset ∧ e.1 ≠ .cancel id ∧ LeavesUp id e)

/-- A warning is up: a Warn without a ClearWarning, a Lock or a cancel after it. -/
def Shows (id : String) : List Entry → Prop :=
  Since (fun _ e => ∃ t, WarnsAt id t e) (fun e => e.1 ≠ .cancel id ∧ LeavesUp id e)

def LocksPhone (id : String) (e : Entry) : Prop :=
  e.2 = some .lock ∧ ∃ seen now idle, e.1 = .look id seen now idle

/-- A lock was given, and no look found the phone in reach since. -/
def Locked (id : String) : List Entry → Prop :=
  Since (fun _ e => LocksPhone id e) (Finds id (fun s => s.reachable = false))

/-- What is kept of a phone, and what the log says of it. -/
structure Held (id : String) (p : Phone) (log : List Entry) : Prop where
  gone : p.armed = true → Gone id log
  ready : p.armed = true → HadReady id log
  counting : p.armed = true → p.done = false → ∀ t, p.awaySince = some t → Counting id t log
  warned : ∀ t, p.warnedAt = some t → Warned id t log
  warning : p.warnedAt ≠ none → p.armed = true ∧ p.done = false ∧ p.clearPending = false
  pending : p.clearPending = true → p.awaySince = none
  locked : Locked id log → p.armed = false ∨ p.done = true

theorem Held.new (id : String) (log : List Entry) : Held id {} log where
  gone h := by cases h
  ready h := by cases h
  counting h := by cases h
  warned t h := by cases h
  warning h := absurd rfl h
  pending _ := rfl
  locked _ := .inl rfl

theorem finds_of_not {P : Seen → Prop} (h : ∀ seen now idle, e.1 ≠ .look id seen now idle) :
    Finds id P e :=
  fun seen now idle heq => absurd heq (h seen now idle)

theorem locked_of_snoc {log : List Entry} (hlock : ¬LocksPhone id e) (h : Locked id (log ++ [e])) :
    Locked id log :=
  (since_snoc.mp h).elim (fun hlocks => absurd hlocks hlock) And.left

variable {id : String} {p : Phone} {log : List Entry}

/-- What is not about the phone changes nothing. -/
theorem Held.elsewhere (h : Held id p log) (hlook : ∀ seen now idle, e.1 ≠ .look id seen now idle)
    (hcancel : e.1 ≠ .cancel id) (hreset : e.1 ≠ .reset) : Held id p (log ++ [e]) where
  gone harmed := (h.gone harmed).go (finds_of_not hlook)
  ready harmed := (h.ready harmed).go (finds_of_not hlook)
  counting harmed hdone t ht := (h.counting harmed hdone t ht).go ⟨hreset, finds_of_not hlook⟩
  warned t ht := (h.warned t ht).go
    ⟨hreset, hcancel, fun seen now idle heq => absurd heq (hlook seen now idle)⟩
  warning := h.warning
  pending := h.pending
  locked hlocked := h.locked (locked_of_snoc
    (fun hlocks => hlocks.2.elim (fun seen ⟨now, idle, heq⟩ => hlook seen now idle heq)) hlocked)

theorem Held.reset (h : Held id p log) :
    Held id { p with clearPending := p.clearPending || p.warnedAt.isSome, warnedAt := none,
                     awaySince := none } (log ++ [(.reset, none)]) where
  gone harmed := (h.gone harmed).go (finds_of_not (fun _ _ _ heq => by cases heq))
  ready harmed := (h.ready harmed).go (finds_of_not (fun _ _ _ heq => by cases heq))
  counting _ _ t ht := by cases ht
  warned t ht := by cases ht
  warning hne := absurd rfl hne
  pending _ := rfl
  locked hlocked := h.locked (locked_of_snoc (fun hlocks => by cases hlocks.1) hlocked)

theorem Held.cancel (h : Held id p log) :
    Held id (if p.warnedAt.isSome then { p with warnedAt := none, done := true } else p)
      (log ++ [(.cancel id, none)]) := by
  have hfinds (P : Seen → Prop) : Finds id P (WatchOp.cancel id, none) :=
    finds_of_not (fun _ _ _ heq => by cases heq)
  have hlocked (hlocked : Locked id (log ++ [(.cancel id, none)])) : Locked id log :=
    locked_of_snoc (fun hlocks => by cases hlocks.1) hlocked
  split
  · exact { gone := fun harmed => (h.gone harmed).go (hfinds _)
            ready := fun harmed => (h.ready harmed).go (hfinds _)
            counting := fun _ hdone => by cases hdone
            warned := fun t ht => by cases ht
            warning := fun hne => absurd rfl hne
            pending := h.pending
            locked := fun _ => .inr rfl }
  · rename_i hnone
    rw [Bool.not_eq_true, Option.isSome_eq_false_iff, Option.isNone_iff_eq_none] at hnone
    exact { gone := fun harmed => (h.gone harmed).go (hfinds _)
            ready := fun harmed => (h.ready harmed).go (hfinds _)
            counting := fun harmed hdone t ht =>
              (h.counting harmed hdone t ht).go ⟨fun heq => (by cases heq), hfinds _⟩
            warned := fun t ht => by
              rw [hnone] at ht
              cases ht
            warning := fun hne => absurd hnone hne
            pending := h.pending
            locked := fun hl => h.locked (hlocked hl) }

/-! ### A look -/

section Look

variable {seen : Seen} {now : Nat} {idle : Bool} {step : Option Step}

theorem Held.ready_after (h : Held id p log) (henabled : seen.enabled = true)
    (harmed : p.armed = true ∨ seen.reachable = true ∧ seen.ready = true) :
    HadReady id (log ++ [(.look id seen now idle, step)]) := by
  obtain harmed | ⟨hreachable, hready⟩ := harmed
  · refine (h.ready harmed).go (fun seen' now' idle' heq => ?_)
    cases heq
    exact henabled
  · exact Since.start ⟨seen, now, idle, rfl, henabled, hreachable, hready⟩

theorem Held.gone_after (h : Held id p log) (henabled : seen.enabled = true)
    (harmed : p.armed = true ∨ seen.reachable = true ∧ seen.ready = true) :
    Gone id (log ++ [(.look id seen now idle, step)]) := by
  cases hreachable : seen.reachable with
  | true =>
    exact Since.start ⟨⟨seen, now, idle, rfl, hreachable⟩, h.ready_after henabled harmed⟩
  | false =>
    have harmed : p.armed = true := harmed.resolve_right (fun hback => by
      rw [hreachable] at hback
      cases hback.1)
    refine (h.gone harmed).go (fun seen' now' idle' heq => ?_)
    cases heq
    exact ⟨henabled, hreachable⟩

/-- A look at a phone out of reach that does not lock leaves it done, if it was. -/
theorem Held.locked_after (h : Held id p log) (hstep : step ≠ some .lock)
    (hlocked : Locked id (log ++ [(.look id seen now idle, step)])) :
    (p.armed = false ∨ p.done = true) ∧ seen.reachable = false := by
  obtain hlocks | ⟨hbefore, hfinds⟩ := since_snoc.mp hlocked
  · exact absurd hlocks.1 hstep
  · exact ⟨h.locked hbefore, hfinds seen now idle rfl⟩

/-- A count goes on, or begins at this look. -/
theorem Held.counting_since (h : Held id p log) (hnetwork : seen.networkUp = true)
    (harmed : p.armed = true) (hdone : p.done = false) (t : Nat)
    (ht : some (p.awaySince.getD now) = some t) :
    Counting id t (log ++ [(.look id seen now idle, step)]) := by
  cases hsince : p.awaySince with
  | none =>
    rw [hsince] at ht
    cases ht
    exact Since.start ⟨seen, idle, rfl, hnetwork⟩
  | some since =>
    rw [hsince] at ht
    cases ht
    refine (h.counting harmed hdone since hsince).go ⟨fun heq => (by cases heq), ?_⟩
    intro seen' now' idle' heq
    cases heq
    exact hnetwork

/-- One look, by its cases. -/
theorem Held.look (h : Held id p log) (henabled : seen.enabled = true) {p' : Phone}
    (hcase : LookCase p seen now (p', step)) :
    Held id p' (log ++ [(.look id seen now idle, step)]) := by
  cases hcase with
  | pending hpending =>
    have hwarned : p.warnedAt = none := by
      by_contra hne
      rw [(h.warning hne).2.2] at hpending
      cases hpending
    exact { gone := fun harmed => h.gone_after henabled (.inl harmed)
            ready := fun harmed => h.ready_after henabled (.inl harmed)
            counting := fun _ _ t ht => by
              rw [h.pending hpending] at ht
              cases ht
            warned := fun t ht => by
              rw [hwarned] at ht
              cases ht
            warning := fun hne => absurd hwarned hne
            pending := fun hfalse => by cases hfalse
            locked := fun hl => (h.locked_after (by simp) hl).1 }
  | back hpending hback =>
    have harmed (ha : (p.armed || seen.ready) = true) :
        p.armed = true ∨ seen.reachable = true ∧ seen.ready = true := by
      rw [Bool.or_eq_true] at ha
      exact ha.imp_right (fun hready => ⟨hback, hready⟩)
    exact { gone := fun ha => h.gone_after henabled (harmed ha)
            ready := fun ha => h.ready_after henabled (harmed ha)
            counting := fun _ _ t ht => by cases ht
            warned := fun t ht => by cases ht
            warning := fun hne => absurd rfl hne
            pending := fun _ => rfl
            locked := fun hl => by
              have hgone := (h.locked_after (by unfold clears; split <;> simp) hl).2
              rw [hback] at hgone
              cases hgone }
  | unwatched hpending hgone hnot =>
    have hwarned : p.warnedAt = none := by
      by_contra hne
      obtain ⟨harmed, hdone, -⟩ := h.warning hne
      rw [harmed, hdone] at hnot
      simp at hnot
    exact { gone := fun harmed => h.gone_after henabled (.inl harmed)
            ready := fun harmed => h.ready_after henabled (.inl harmed)
            counting := fun harmed hdone => by
              rw [harmed, hdone] at hnot
              simp at hnot
            warned := fun t ht => by
              rw [hwarned] at ht
              cases ht
            warning := fun hne => absurd hwarned hne
            pending := fun hp => h.pending hp
            locked := fun hl => (h.locked_after (by simp) hl).1 }
  | offline hpending hgone hnetwork =>
    exact { gone := fun harmed => h.gone_after henabled (.inl harmed)
            ready := fun harmed => h.ready_after henabled (.inl harmed)
            counting := fun _ _ t ht => by cases ht
            warned := fun t ht => by cases ht
            warning := fun hne => absurd rfl hne
            pending := fun _ => rfl
            locked := fun hl =>
              (h.locked_after (by unfold clears; split <;> simp) hl).1 }
  | counts hpending hgone hnetwork =>
    exact { gone := fun harmed => h.gone_after henabled (.inl harmed)
            ready := fun harmed => h.ready_after henabled (.inl harmed)
            counting := h.counting_since hnetwork
            warned := fun t ht => by
              refine (h.warned t ht).go ⟨fun heq => (by cases heq), fun heq => (by cases heq), ?_⟩
              intro _ _ _ _
              exact ⟨fun heq => (by cases heq), fun heq => (by cases heq)⟩
            warning := h.warning
            pending := fun hp => by
              rw [hpending] at hp
              cases hp
            locked := fun hl => (h.locked_after (by simp) hl).1 }
  | warns hpending hgone hwatched hnetwork =>
    exact { gone := fun harmed => h.gone_after henabled (.inl harmed)
            ready := fun harmed => h.ready_after henabled (.inl harmed)
            counting := h.counting_since hnetwork
            warned := fun t ht => by
              cases ht
              exact Since.start ⟨rfl, seen, idle, rfl⟩
            warning := fun _ => ⟨hwatched.1, hwatched.2, hpending⟩
            pending := fun hp => by
              rw [hpending] at hp
              cases hp
            locked := fun hl => (h.locked_after (by simp) hl).1 }
  | restarts hpending hgone hnetwork =>
    exact { gone := fun harmed => h.gone_after henabled (.inl harmed)
            ready := fun harmed => h.ready_after henabled (.inl harmed)
            counting := fun _ _ t ht => by
              cases ht
              exact Since.start ⟨seen, idle, rfl, hnetwork⟩
            warned := fun t ht => by cases ht
            warning := fun hne => absurd rfl hne
            pending := fun hp => by
              rw [hpending] at hp
              cases hp
            locked := fun hl => (h.locked_after (by simp) hl).1 }
  | locks hpending hgone hwatched hnetwork since hsince hlong warned hwarned hwarn =>
    exact { gone := fun harmed => h.gone_after henabled (.inl harmed)
            ready := fun harmed => h.ready_after henabled (.inl harmed)
            counting := fun _ hdone => by cases hdone
            warned := fun t ht => by cases ht
            warning := fun hne => absurd rfl hne
            pending := fun hp => by
              rw [hpending] at hp
              cases hp
            locked := fun _ => .inr rfl }

end Look

variable {idle : Bool} {past : List WatchOp} {w : Watching}

/-! ### Runs -/

theorem run_snoc (ops : List WatchOp) (op : WatchOp) : run (ops ++ [op]) = (run ops).after op := by
  rw [run, List.foldl_append]
  rfl

theorem Held.after (w : Watching) (h : Held id (w.watch.phone id) w.log) (op : WatchOp) :
    Held id ((w.after op).watch.phone id) (w.after op).log := by
  cases op with
  | look other seen now idle =>
    show Held id ((w.watch.observeWhenIdle other seen now idle).1.phone id) (w.log ++ [(_, _)])
    by_cases hid : other = id
    · subst hid
      cases henabled : seen.enabled with
      | true =>
        obtain ⟨hphone, hstep⟩ := @phone_enabled w.watch other _ now idle henabled
        rw [hphone]
        exact h.look henabled (look_cases _ seen now idle)
      | false =>
        rw [(phone_disabled w.watch now idle henabled).1]
        exact .new other _
    · rw [phone_other w.watch seen now idle hid]
      refine h.elsewhere (fun _ _ _ heq => ?_) (fun heq => by cases heq) (fun heq => by cases heq)
      cases heq
      exact hid rfl
  | cancel other =>
    show Held id ((w.watch.cancel other).1.phone id) (w.log ++ [(.cancel other, none)])
    by_cases hid : other = id
    · subst hid
      rw [phone_cancel]
      exact h.cancel
    · rw [phone_cancel_other w.watch hid]
      refine h.elsewhere (fun _ _ _ heq => by cases heq) (fun heq => ?_) (fun heq => by cases heq)
      cases heq
      exact hid rfl
  | reset =>
    show Held id (w.watch.reset.phone id) (w.log ++ [(.reset, none)])
    rw [phone_reset]
    exact h.reset

theorem run_held (ops : List WatchOp) (id : String) :
    Held id ((run ops).watch.phone id) (run ops).log := by
  induction ops using List.reverseRecOn with
  | nil => exact .new id _
  | append_singleton past op ih =>
    rw [run_snoc]
    exact ih.after _ op

/-! ### Locks -/

/-- What a look answers after these operations. -/
def answer (past : List WatchOp) (id : String) (seen : Seen) (now : Nat) (idle : Bool) :
    Option Step := ((run past).watch.observeWhenIdle id seen now idle).2

/-- What a lock has behind it. -/
structure Earned (id : String) (log : List Entry) (seen : Seen) (now : Nat) : Prop where
  found : seen.enabled = true ∧ seen.reachable = false ∧ seen.networkUp = true
  gone : Gone id log
  warned : ∃ t, Warned id t log ∧ t + warnFor ≤ now
  counted : ∃ t, Counting id t log ∧ t + seen.lockAfter ≤ now
  /-- It is the first one of this absence. -/
  once : ¬Locked id log

theorem lock_earned (h : answer past id seen now idle = some .lock) :
    Earned id (run past).log seen now := by
  have hheld := run_held past id
  unfold answer at h
  cases henabled : seen.enabled with
  | false =>
    rw [(phone_disabled _ now idle henabled).2] at h
    unfold clears at h
    split at h <;> cases h
  | true =>
    rw [(phone_enabled _ now idle henabled).2] at h
    have hcase := look_cases ((run past).watch.phone id) seen now idle
    generalize ((run past).watch.phone id).look seen now idle = result at hcase h
    cases hcase with
    | locks _ hgone hwatched hnetwork since hsince hlong warned hwarned hwarn =>
      exact { found := ⟨henabled, hgone, hnetwork⟩
              gone := hheld.gone hwatched.1
              warned := ⟨warned, hheld.warned warned hwarned, hwarn⟩
              counted := ⟨since, hheld.counting hwatched.1 hwatched.2 since hsince, hlong⟩
              once := fun hlocked => by
                have hnot := hheld.locked hlocked
                rw [hwatched.1, hwatched.2] at hnot
                simp at hnot }
    | back =>
      simp only [clears] at h
      split at h <;> cases h
    | offline =>
      simp only [clears] at h
      split at h <;> cases h
    | pending => cases h
    | unwatched => cases h
    | counts => cases h
    | warns => cases h
    | restarts => cases h

/-! ### Warnings that show -/

/-- A warning that shows is taken down by the look, or the phone is still away and
nothing took the warning back. -/
def Answered (id : String) (past : List WatchOp) (seen : Seen) (now : Nat) (idle : Bool) : Prop :=
  Shows id (run past).log → answer past id seen now idle = some .clearWarning ∨
    (seen.enabled = true ∧ seen.reachable = false ∧ seen.networkUp = true ∧
      ∃ t, Warned id t (run past).log)

/-- A reset took a warning that shows back, and the next look finds the lock switched
off. -/
def Forgotten (id : String) (past : List WatchOp) (seen : Seen) : Prop :=
  Shows id (run past).log ∧ ((run past).watch.phone id).clearPending = true ∧
    seen.enabled = false

/-- A warning that shows is known. -/
def Known (id : String) (w : Watching) : Prop :=
  Shows id w.log → (w.watch.phone id).clearPending = true ∨ (w.watch.phone id).warnedAt ≠ none

theorem clears_of_warned (h : p.warnedAt ≠ none) : clears p = some .clearWarning := by
  rw [clears, if_pos (Option.isSome_iff_ne_none.mpr h)]

theorem not_leavesUp {step : Option Step} (h : step = some .clearWarning ∨ step = some .lock) :
    ¬LeavesUp id (.look id seen now idle, step) := by
  intro hleaves
  have hboth := hleaves seen now idle rfl
  exact h.elim hboth.1 hboth.2

/-- An entry that gives no warning: what shows, showed before. -/
theorem shows_before (hwarn : e.2 ≠ some .warn) (h : Shows id (log ++ [e])) :
    Shows id log ∧ e.1 ≠ .cancel id ∧ LeavesUp id e :=
  (since_snoc.mp h).resolve_left (fun ⟨_, hwarns⟩ => hwarn hwarns.1)

theorem Known.look (h : Known id w)
    (hnot : ¬(Shows id w.log ∧ (w.watch.phone id).clearPending = true ∧ seen.enabled = false)) :
    Known id (w.after (.look id seen now idle)) := by
  show Shows id (w.log ++
      [(.look id seen now idle, (w.watch.observeWhenIdle id seen now idle).2)]) →
    ((w.watch.observeWhenIdle id seen now idle).1.phone id).clearPending = true ∨
      ((w.watch.observeWhenIdle id seen now idle).1.phone id).warnedAt ≠ none
  cases henabled : seen.enabled with
  | false =>
    intro hshows
    rw [(phone_disabled w.watch now idle henabled).2] at hshows
    obtain ⟨hbefore, -, hleaves⟩ := shows_before (by unfold clears; split <;> simp) hshows
    obtain hpending | hwarned := h hbefore
    · exact absurd ⟨hbefore, hpending, henabled⟩ hnot
    · exact absurd hleaves (not_leavesUp (.inl (clears_of_warned hwarned)))
  | true =>
    obtain ⟨hphone, hstep⟩ := @phone_enabled w.watch id _ now idle henabled
    rw [hphone, hstep]
    have hcase := look_cases (w.watch.phone id) seen now idle
    generalize (w.watch.phone id).look seen now idle = result at hcase ⊢
    intro hshows
    cases hcase with
    | pending =>
      exact absurd (shows_before (by simp) hshows).2.2 (not_leavesUp (.inl rfl))
    | back hpending =>
      obtain ⟨hbefore, -, hleaves⟩ := shows_before (by simp only [clears]; split <;> simp) hshows
      obtain hpending' | hwarned := h hbefore
      · rw [hpending] at hpending'
        cases hpending'
      · exact absurd hleaves (not_leavesUp (.inl (clears_of_warned hwarned)))
    | unwatched => exact h (shows_before (by simp) hshows).1
    | offline hpending =>
      obtain ⟨hbefore, -, hleaves⟩ := shows_before (by simp only [clears]; split <;> simp) hshows
      obtain hpending' | hwarned := h hbefore
      · exact .inl hpending'
      · exact absurd hleaves (not_leavesUp (.inl (clears_of_warned hwarned)))
    | counts => exact h (shows_before (by simp) hshows).1
    | warns => exact .inr (by simp)
    | restarts => exact absurd (shows_before (by simp) hshows).2.2 (not_leavesUp (.inl rfl))
    | locks => exact absurd (shows_before (by simp) hshows).2.2 (not_leavesUp (.inr rfl))

theorem Known.after (h : Known id w) (op : WatchOp)
    (hnot : ∀ seen now idle, op = .look id seen now idle →
      ¬(Shows id w.log ∧ (w.watch.phone id).clearPending = true ∧ seen.enabled = false)) :
    Known id (w.after op) := by
  cases op with
  | look other seen now idle =>
    by_cases hid : other = id
    · subst hid
      exact h.look (hnot seen now idle rfl)
    · have hphone : (w.after (.look other seen now idle)).watch.phone id = w.watch.phone id :=
        phone_other w.watch seen now idle hid
      intro hshows
      rw [hphone]
      obtain ⟨t, hwarns⟩ | ⟨hbefore, -⟩ := since_snoc.mp hshows
      · obtain ⟨-, _, _, heq⟩ := hwarns
        cases heq
        exact absurd rfl hid
      · exact h hbefore
  | cancel other =>
    intro hshows
    obtain ⟨hbefore, hcancel, -⟩ := shows_before (by simp) hshows
    have hid : other ≠ id := fun heq => hcancel (by rw [heq])
    have hphone : (w.after (.cancel other)).watch.phone id = w.watch.phone id :=
      phone_cancel_other w.watch hid
    rw [hphone]
    exact h hbefore
  | reset =>
    intro hshows
    have hphone := phone_reset w.watch id
    obtain hpending | hwarned := h (shows_before (by simp) hshows).1
    · left
      show (w.watch.reset.phone id).clearPending = true
      rw [hphone, hpending, Bool.true_or]
    · left
      show (w.watch.reset.phone id).clearPending = true
      rw [hphone, Option.isSome_iff_ne_none.mpr hwarned, Bool.or_true]

theorem Known.answered (h : Known id (run past)) (seen : Seen) (now : Nat) (idle : Bool) :
    Answered id past seen now idle ↔ ¬Forgotten id past seen := by
  have hheld := run_held past id
  unfold Answered answer
  constructor
  · rintro hanswered ⟨hshows, hpending, hdisabled⟩
    have hwarned : ((run past).watch.phone id).warnedAt = none := by
      by_contra hne
      rw [(hheld.warning hne).2.2] at hpending
      cases hpending
    obtain hclear | ⟨henabled, -⟩ := hanswered hshows
    · rw [(phone_disabled _ now idle hdisabled).2, clears, hwarned] at hclear
      cases hclear
    · rw [hdisabled] at henabled
      cases henabled
  · intro hnot hshows
    have hknown := h hshows
    cases henabled : seen.enabled with
    | false =>
      rw [(phone_disabled _ now idle henabled).2]
      refine .inl (clears_of_warned (hknown.resolve_left (fun hpending => ?_)))
      exact hnot ⟨hshows, hpending, henabled⟩
    | true =>
      rw [(phone_enabled _ now idle henabled).2]
      have hcase := look_cases ((run past).watch.phone id) seen now idle
      generalize ((run past).watch.phone id).look seen now idle = result at hcase ⊢
      -- Past a pending clearing, the warning is one that stands.
      have hstands (hpending : ((run past).watch.phone id).clearPending = false) :
          ((run past).watch.phone id).warnedAt ≠ none ∧ ∃ t, Warned id t (run past).log := by
        have hwarned := hknown.resolve_left (by simp [hpending])
        obtain ⟨t, ht⟩ := Option.ne_none_iff_exists'.mp hwarned
        exact ⟨hwarned, t, hheld.warned t ht⟩
      cases hcase with
      | pending => exact .inl rfl
      | back hpending => exact .inl (clears_of_warned (hstands hpending).1)
      | unwatched hpending _ hwatched =>
        obtain ⟨harmed, hdone, -⟩ := hheld.warning (hstands hpending).1
        rw [harmed, hdone] at hwatched
        simp at hwatched
      | offline hpending => exact .inl (clears_of_warned (hstands hpending).1)
      | counts hpending hgone hnetwork =>
        exact .inr ⟨rfl, hgone, hnetwork, (hstands hpending).2⟩
      | warns hpending hgone _ hnetwork =>
        exact .inr ⟨rfl, hgone, hnetwork, (hstands hpending).2⟩
      | restarts => exact .inl rfl
      | locks hpending hgone _ hnetwork =>
        exact .inr ⟨rfl, hgone, hnetwork, (hstands hpending).2⟩

/-- In every run of looks, cancels and resets: each lock is earned and the first of its
absence, and every look answers to a warning that shows exactly if no look forgets
one. -/
theorem walk_away_lock (id : String) (ops : List WatchOp) :
    (∀ past seen now idle, past ++ [WatchOp.look id seen now idle] <+: ops →
        answer past id seen now idle = some .lock → Earned id (run past).log seen now) ∧
      ((∀ past seen now idle, past ++ [WatchOp.look id seen now idle] <+: ops →
          Answered id past seen now idle) ↔
        ∀ past seen now idle, past ++ [WatchOp.look id seen now idle] <+: ops →
          ¬Forgotten id past seen) := by
  refine ⟨fun past seen now idle _ h => lock_earned h, ?_⟩
  -- As long as no look forgot a warning, one that shows is known.
  have hknown (C : List WatchOp → Seen → Nat → Bool → Prop)
      (hC : ∀ past seen now idle, Known id (run past) → C past seen now idle →
        ¬Forgotten id past seen)
      (h : ∀ past seen now idle, past ++ [WatchOp.look id seen now idle] <+: ops → C past seen now idle) :
      ∀ past, past <+: ops → Known id (run past) := by
    intro past
    induction past using List.reverseRecOn with
    | nil => exact fun _ hshows => absurd hshows not_since_nil
    | append_singleton past op ih =>
      intro hprefix
      have hbefore := ih ((List.prefix_append past [op]).trans hprefix)
      rw [run_snoc]
      refine hbefore.after op (fun seen now idle heq => ?_)
      rw [heq] at hprefix
      exact hC past seen now idle hbefore (h past seen now idle hprefix)
  constructor
  · intro hall past seen now idle hprefix
    have hpast := hknown (Answered id)
      (fun past seen now idle hk ha => (hk.answered seen now idle).mp ha) hall past
      ((List.prefix_append past _).trans hprefix)
    exact (hpast.answered seen now idle).mp (hall past seen now idle hprefix)
  · intro hall past seen now idle hprefix
    have hpast := hknown (fun past seen _ _ => ¬Forgotten id past seen)
      (fun _ _ _ _ _ hnot => hnot) hall past ((List.prefix_append past _).trans hprefix)
    exact (hpast.answered seen now idle).mpr (hall past seen now idle hprefix)

/-- A phone that is here, and one that is away. -/
def here : Seen := ⟨true, true, true, false, true⟩
def away : Seen := ⟨true, false, false, false, true⟩

/-- A warning, and then the network changes. -/
def warnedAndReset : List WatchOp :=
  [.look "phone" here 0 true, .look "phone" away (5 * second) true,
    .look "phone" away (60 * second) true, .reset]

/-- The lock is switched off before the next look: the warning stays up. -/
theorem switched_off_after_reset : ∃ (past : List WatchOp) (seen : Seen) (now : Nat) (idle : Bool),
    ¬Answered "phone" past seen now idle := by
  refine ⟨warnedAndReset, { away with enabled := false }, 62 * second, true, fun h => ?_⟩
  have hlog : (run warnedAndReset).log = [(.look "phone" here 0 true, none),
      (.look "phone" away (5 * second) true, none),
      (.look "phone" away (60 * second) true, some .warn), (.reset, none)] := by decide +kernel
  have hshows : Shows "phone" (run warnedAndReset).log := by
    rw [hlog]
    refine ⟨[_, _], _, [_], rfl, ⟨60 * second, rfl, away, true, rfl⟩, ?_⟩
    intro e he
    rw [List.mem_singleton.mp he]
    exact ⟨fun heq => (by cases heq), fun _ _ _ heq => (by cases heq)⟩
  have hnone : answer warnedAndReset "phone" { away with enabled := false } (62 * second) true
      = none := by decide +kernel
  obtain hclear | ⟨henabled, -⟩ := h hshows
  · rw [hnone] at hclear
    cases hclear
  · cases henabled

end DeskLink.WalkAway
