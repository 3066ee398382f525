import DeskLink.Access.SessionLock
import DeskLink.Lib.Unwind

/-!
# `DeskLink.Proofs.Access.Attempts`: how often a password may be guessed

`Ledger` is what happened to one device, kept beside the lock: the wrong
passwords that were hashed since the last success, lockout by lockout, and
the sessions the password was proved on. `Held` ties it to the entry of the
device in the lock. There are two phases. Before a lockout, a wrong password
that was hashed was counted or is still being hashed, and both together are
five at most. From the first lockout on, one password at a time is hashed,
and a wrong one starts the next lockout.

A success starts the entry of the device afresh, with no guess in flight.
`Watched.Alone` says that there was none.

* `held_ask`, `held_refuse`, `held_unlock`, `held_again`, `held_count`,
  `held_lockOut`: one call each.
* `after_tallied`: one step of any handler.
* `attempts_bounded`: the run.
* `attempts_unbounded`: what happens otherwise.
-/

set_option autoImplicit false

namespace DeskLink.Access

variable {hashing : Hashing}

/-! ### The ledger of a device -/

structure Lockout where
  started : Nat
  length : Nat
  /-- The wrong passwords that were hashed since it started. -/
  hashed : List String := []
deriving DecidableEq, Repr

structure Ledger where
  /-- The wrong passwords that were hashed since the last success, before a
  lockout. -/
  free : List String := []
  /-- The lockouts since the last success, the last one first. -/
  lockouts : List Lockout := []
  /-- When the lockouts of all times end. -/
  ends : List Nat := []
  /-- The sessions that the password was proved on, with nothing forgotten
  since it was offered. -/
  proved : List Nat := []
deriving DecidableEq, Repr

namespace Ledger

variable (ledger : Ledger)

/-- A wrong password is hashed. -/
def hash (password : String) : Ledger :=
  match ledger.lockouts with
  | [] => { ledger with free := password :: ledger.free }
  | last :: rest =>
    { ledger with lockouts := { last with hashed := password :: last.hashed } :: rest }

/-- A success. -/
def succeed (session : Nat) (kept : Bool) : Ledger :=
  { ledger with
    free := []
    lockouts := []
    proved := if kept then session :: ledger.proved else ledger.proved }

/-- A lockout starts. -/
def lockOut (now ends : Nat) : Ledger :=
  { ledger with
    lockouts := { started := now, length := ends - now } :: ledger.lockouts
    ends := ends :: ledger.ends }

/-- What is proved is forgotten. -/
def forget : Ledger := { ledger with proved := [] }

end Ledger

/-- The end of the lockout that started with this failure, if one did. -/
def newLockout (before after : DeviceState) : Option Nat :=
  if before.failures < after.failures then after.lockedUntil else none

/-- The ledger after an answer. -/
def Ledger.answered (ledger : Ledger) (guess : Guess) (kept : Bool) (now : Nat)
    (before after : DeviceState) : Except String Unit → Ledger
  | .ok () => ledger.succeed guess.session kept
  | .error _ => match newLockout before after with
    | some ends => ledger.lockOut now ends
    | none => ledger

structure Watched where
  guessing : Guessing := {}
  /-- What is being hashed, and whether nothing was forgotten of its device
  since it was offered. -/
  kept : List (Guess × Bool) := []
  ledger : String → Ledger := fun _ => {}

variable (hashing) in
def Watched.after (w : Watched) (act : Act) : Watched where
  guessing := w.guessing.after hashing act
  kept := match act with
    | .begin stored deviceId session offered =>
      w.kept ++ ((guessOf hashing stored deviceId session offered
        (w.guessing.begin hashing stored deviceId session offered).2).map (·, true)).toList
    | .finish i => w.kept.eraseIdx i
    | .forgetUnlock deviceId =>
      w.kept.map (fun (guess, kept) => (guess, kept && guess.deviceId ≠ deviceId))
    | .relockAll => w.kept.map (fun (guess, _) => (guess, false))
    | .wait _ => w.kept
  ledger := match act with
    | .begin stored deviceId session offered =>
      match guessOf hashing stored deviceId session offered
          (w.guessing.begin hashing stored deviceId session offered).2 with
      | some guess => if guess.correct then w.ledger
          else Function.update w.ledger deviceId ((w.ledger deviceId).hash guess.offered)
      | none => w.ledger
    | .finish i => match w.guessing.asked[i]? with
      | some guess =>
        let answer := w.guessing.answer hashing i guess
        Function.update w.ledger guess.deviceId
          ((w.ledger guess.deviceId).answered guess (w.kept[i]?.any Prod.snd) w.guessing.now
            (w.guessing.lock.state guess.deviceId) (answer.1.lock.state guess.deviceId) answer.2)
      | none => w.ledger
    | .forgetUnlock deviceId => Function.update w.ledger deviceId (w.ledger deviceId).forget
    | .relockAll => fun deviceId => (w.ledger deviceId).forget
    | .wait _ => w.ledger

/-- The answer is one that unlocks the device. -/
def Guessing.unlocks (w : Guessing) (guess : Guess) : Prop :=
  guess.correct = true ∧ guess.epoch = w.lock.epoch ∧
    (w.lock.state guess.deviceId).lockedOut w.now = false

/-- An answer that unlocks a device comes when no other guess of the device
is being hashed. -/
def Watched.Alone (w : Watched) : Act → Prop
  | .finish i => ∀ guess ∈ w.guessing.asked[i]?, w.guessing.unlocks guess →
      ∀ other ∈ w.guessing.asked.eraseIdx i, other.deviceId ≠ guess.deviceId
  | _ => True

instance (w : Guessing) (guess : Guess) : Decidable (w.unlocks guess) :=
  inferInstanceAs (Decidable (_ ∧ _ ∧ _))

instance (w : Watched) : (act : Act) → Decidable (w.Alone act)
  | .finish i => inferInstanceAs (Decidable (∀ guess ∈ w.guessing.asked[i]?,
      w.guessing.unlocks guess → ∀ other ∈ w.guessing.asked.eraseIdx i,
        other.deviceId ≠ guess.deviceId))
  | .begin .. | .forgetUnlock _ | .relockAll | .wait _ => .isTrue trivial

/-! ### What a call can do -/

section
variable (lock : SessionLock)

@[simp] theorem state_setState (deviceId other : String) (state : DeviceState) :
    (lock.setState deviceId state).state other
      = if deviceId = other then state else lock.state other := by
  unfold SessionLock.setState SessionLock.state
  rw [getElem?_keyInsert]
  split <;> rfl

@[simp] theorem epoch_setState (deviceId : String) (state : DeviceState) :
    (lock.setState deviceId state).epoch = lock.epoch := rfl

theorem setState_same (deviceId other : String) :
    (lock.setState deviceId (lock.state deviceId)).state other = lock.state other := by
  rw [state_setState]
  split
  · rename_i h
    rw [h]
  · rfl

variable (hashing) in
/-- A `begin` changes no entry, or lets a guess be hashed. -/
theorem begin_cases (stored : Option PasswordHash) (deviceId : String) (session : Nat)
    (offered : Option String) (now : Nat) :
    ((lock.begin hashing stored deviceId session offered now).1.epoch = lock.epoch ∧
      (∀ other, (lock.begin hashing stored deviceId session offered now).1.state other
        = lock.state other) ∧
      (((lock.begin hashing stored deviceId session offered now).2 = .allowed ∧
        (stored ≠ none → (lock.state deviceId).unlockedSession = some session)) ∨
       ∃ reason, (lock.begin hashing stored deviceId session offered now).2 = .denied reason)) ∨
    ∃ password, offered = some password ∧
      (lock.state deviceId).lockedOut now = false ∧
      (lock.state deviceId).lastWrong ≠ some (hashing.digest password) ∧
      (lock.state deviceId).inFlight < max (freeAttempts - (lock.state deviceId).failures) 1 ∧
      lock.begin hashing stored deviceId session offered now =
        (lock.setState deviceId
          { lock.state deviceId with inFlight := (lock.state deviceId).inFlight + 1 },
        .verify lock.epoch) := by
  unfold SessionLock.begin
  by_cases hstored : stored = none
  · rw [if_pos hstored]
    exact .inl ⟨rfl, fun _ => rfl, .inl ⟨rfl, fun h => absurd hstored h⟩⟩
  rw [if_neg hstored]
  have hsame := setState_same lock deviceId
  by_cases hunlocked : (lock.state deviceId).unlockedSession = some session
  · simp only [if_pos hunlocked]
    exact .inl ⟨rfl, hsame, .inl ⟨trivial, fun _ => hunlocked⟩⟩
  simp only [if_neg hunlocked]
  cases hlocked : (lock.state deviceId).lockedUntil.filter (fun ends => now < ends) with
  | some ends => exact .inl ⟨rfl, hsame, .inr ⟨_, rfl⟩⟩
  | none =>
    cases offered with
    | none => exact .inl ⟨rfl, hsame, .inr ⟨_, rfl⟩⟩
    | some password =>
      simp only
      split
      · exact .inl ⟨rfl, hsame, .inr ⟨_, rfl⟩⟩
      · split
        · exact .inl ⟨rfl, hsame, .inr ⟨_, rfl⟩⟩
        · split
          · exact .inl ⟨rfl, hsame, .inr ⟨_, rfl⟩⟩
          · refine .inr ⟨password, rfl, ?_, by assumption, by omega, rfl⟩
            unfold DeviceState.lockedOut
            cases hends : (lock.state deviceId).lockedUntil with
            | none => rfl
            | some ends => simpa [hends, Option.filter] using hlocked

variable (hashing) in
/-- An answer that is right is refused, or unlocks; a wrong one is the one
counted last, or is counted, and may start a lockout. -/
theorem finish_cases (guess : Guess) (now : Nat) {state : DeviceState}
    (hstate : state = { lock.state guess.deviceId with
      inFlight := (lock.state guess.deviceId).inFlight - 1 }) :
    (guess.correct = true ∧
      ¬(guess.epoch = lock.epoch ∧ (lock.state guess.deviceId).lockedOut now = false) ∧
      ∃ e, lock.finish hashing guess.deviceId guess.session guess.offered guess.correct
        guess.epoch now = (lock.setState guess.deviceId state, .error e)) ∨
    (guess.correct = true ∧ guess.epoch = lock.epoch ∧
      (lock.state guess.deviceId).lockedOut now = false ∧
      lock.finish hashing guess.deviceId guess.session guess.offered guess.correct
        guess.epoch now
        = (lock.setState guess.deviceId { unlockedSession := some guess.session }, .ok ())) ∨
    guess.correct = false ∧
      ∃ e, lock.finish hashing guess.deviceId guess.session guess.offered guess.correct
          guess.epoch now
          = (lock.setState guess.deviceId (state.fail (hashing.digest guess.offered) now).1,
            .error e) := by
  subst hstate
  unfold SessionLock.finish
  cases hcorrect : guess.correct with
  | true =>
    simp only [if_true]
    split
    · rename_i hrefused
      refine .inl ⟨trivial, ?_, _, rfl⟩
      rintro ⟨hepoch, hunlocked⟩
      have hunlocked' : (lock.state guess.deviceId).lockedOut now = true :=
        hrefused.resolve_left (by simp [hepoch])
      rw [hunlocked] at hunlocked'
      cases hunlocked'
    · rename_i hunlocks
      have hepoch : guess.epoch = lock.epoch := by
        by_contra hchanged
        exact hunlocks (.inl (decide_eq_true hchanged))
      have hunlocked : (lock.state guess.deviceId).lockedOut now = false := by
        by_contra hlocked
        exact hunlocks (.inr (Bool.of_not_eq_false hlocked))
      exact .inr (.inl ⟨trivial, hepoch, hunlocked, rfl⟩)
  | false =>
    refine .inr (.inr ⟨rfl, ?_⟩)
    simp only [Bool.false_eq_true, if_false, DeviceState.fail]
    split
    · exact ⟨_, rfl⟩
    · split
      · exact ⟨_, rfl⟩
      · exact ⟨_, rfl⟩

theorem state_forgetUnlock (deviceId other : String) :
    (lock.forgetUnlock deviceId).state other = if deviceId = other
      then { lock.state other with unlockedSession := none, lastWrong := none }
      else lock.state other := by
  unfold SessionLock.forgetUnlock SessionLock.state
  rw [Std.ExtTreeMap.getElem?_modify]
  by_cases hsame : deviceId = other
  · simp only [hsame, Std.compare_self, if_true]
    cases lock.devices[other]? <;> rfl
  · have hcompare : compare deviceId other ≠ .eq := by
      rwa [ne_eq, Std.compare_eq_iff_eq]
    rw [if_neg hcompare, if_neg hsame]

theorem state_relockAll (other : String) :
    lock.relockAll.state other
      = { lock.state other with unlockedSession := none, lastWrong := none } := by
  unfold SessionLock.relockAll SessionLock.state
  rw [Std.ExtTreeMap.getElem?_map]
  cases lock.devices[other]? <;> rfl

end

/-! ### The entry of a device and its ledger -/

/-- Before a lockout: what was hashed was counted, or is being hashed. -/
structure Free (hashing : Hashing) (offers : Set String) (state : DeviceState) (ledger : Ledger)
    (asked : List Guess) : Prop where
  failures : state.failures < freeAttempts
  lockedUntil : state.lockedUntil = none
  spent : state.failures + asked.length ≤ freeAttempts
  counted : ∃ counted : Finset String, counted.card ≤ state.failures ∧
    (∀ password ∈ ledger.free, password ∈ counted ∨
      ∃ guess ∈ asked, guess.correct = false ∧ guess.offered = password) ∧
    ∀ wrong, state.lastWrong = some wrong →
      ∃ password ∈ counted, password ∈ offers ∧ hashing.digest password = wrong

/-- From the first lockout on: one guess at a time, and a wrong one starts
the next lockout. -/
structure Locked (hashing : Hashing) (now : Nat) (state : DeviceState) (ledger : Ledger)
    (last : Lockout) (rest : List Lockout) (asked : List Guess) : Prop where
  failures : freeAttempts ≤ state.failures
  single : asked.length ≤ 1
  idle : 0 < asked.length → ∀ ends, state.lockedUntil = some ends → ends ≤ now
  free : ledger.free.toFinset.card ≤ freeAttempts
  hashed : last.hashed.length = asked.countP (fun guess => !guess.correct)
  other : ∀ guess ∈ asked, state.lastWrong ≠ some (hashing.digest guess.offered)
  earlier : ∀ lockout ∈ rest, lockout.hashed.length ≤ 1
  length : last.length = lockoutOf state.failures
  grows : (last :: rest).Pairwise (fun later earlier => earlier.length ≤ later.length)

structure Held (hashing : Hashing) (offers : Set String) (now : Nat) (state : DeviceState)
    (ledger : Ledger) (asked : List Guess) : Prop where
  inFlight : state.inFlight = asked.length
  offered : ∀ guess ∈ asked, guess.offered ∈ offers
  ends : ∀ ends ∈ ledger.ends, ends ≤ now ∨ ∃ held, state.lockedUntil = some held ∧ ends ≤ held
  proved : ∀ session, state.unlockedSession = some session → session ∈ ledger.proved
  phase : match ledger.lockouts with
    | [] => Free hashing offers state ledger asked
    | last :: rest => Locked hashing now state ledger last rest asked

section
variable {offers : Set String} {now : Nat} {state : DeviceState} {ledger : Ledger}
  {asked : List Guess} {guess : Guess}

theorem not_lockedOut (h : state.lockedOut now = false) (ends : Nat)
    (hends : state.lockedUntil = some ends) : ends ≤ now := by
  simpa [DeviceState.lockedOut, hends] using h

theorem Locked.alone {last : Lockout} {rest : List Lockout}
    (h : Locked hashing now state ledger last rest (guess :: asked)) : asked = [] := by
  have hsingle := h.single
  rw [List.length_cons] at hsingle
  exact List.length_eq_zero_iff.mp (by omega)

theorem held_new : Held hashing offers now {} {} [] where
  inFlight := rfl
  offered := nofun
  ends := nofun
  proved := nofun
  phase := ⟨by decide, rfl, by decide, ∅, by simp, nofun, nofun⟩

theorem Held.perm {asked' : List Guess} (h : Held hashing offers now state ledger asked)
    (hperm : asked.Perm asked') : Held hashing offers now state ledger asked' where
  inFlight := h.inFlight.trans hperm.length_eq
  offered guess hguess := h.offered guess (hperm.mem_iff.mpr hguess)
  ends := h.ends
  proved := h.proved
  phase := by
    have hphase := h.phase
    cases hlockouts : ledger.lockouts with
    | nil =>
      rw [hlockouts] at hphase
      obtain ⟨counted, hcard, hfree, hlast⟩ := hphase.counted
      refine ⟨hphase.failures, hphase.lockedUntil, ?_, counted, hcard, ?_, hlast⟩
      · rw [← hperm.length_eq]
        exact hphase.spent
      · intro password hpassword
        refine (hfree password hpassword).imp_right ?_
        rintro ⟨guess, hguess, hwrong⟩
        exact ⟨guess, hperm.mem_iff.mp hguess, hwrong⟩
    | cons last rest =>
      rw [hlockouts] at hphase
      refine ⟨hphase.failures, ?_, ?_, hphase.free, ?_, ?_, hphase.earlier, hphase.length,
        hphase.grows⟩
      · rw [← hperm.length_eq]
        exact hphase.single
      · rw [← hperm.length_eq]
        exact hphase.idle
      · rw [← hperm.countP_eq]
        exact hphase.hashed
      · intro guess hguess
        exact hphase.other guess (hperm.mem_iff.mpr hguess)

/-- A guess is let through. -/
theorem held_ask (h : Held hashing offers now state ledger asked)
    (hunlocked : state.lockedOut now = false)
    (hother : state.lastWrong ≠ some (hashing.digest guess.offered))
    (hroom : state.inFlight < max (freeAttempts - state.failures) 1)
    (hoffered : guess.offered ∈ offers) :
    Held hashing offers now { state with inFlight := state.inFlight + 1 }
      (if guess.correct then ledger else ledger.hash guess.offered) (guess :: asked) := by
  have hinFlight := h.inFlight
  have hphase := h.phase
  unfold Ledger.hash
  refine ⟨by simp [hinFlight], List.forall_mem_cons.mpr ⟨hoffered, h.offered⟩, ?_, ?_, ?_⟩
  · repeat' split
    all_goals exact h.ends
  · repeat' split
    all_goals exact h.proved
  cases hlockouts : ledger.lockouts with
  | nil =>
    rw [hlockouts] at hphase
    have hfailures := hphase.failures
    obtain ⟨counted, hcard, hfree, hlast⟩ := hphase.counted
    have hspent : state.failures + (guess :: asked).length ≤ freeAttempts := by
      rw [List.length_cons]
      omega
    have hfree := fun password hpassword => (hfree password hpassword).imp_right
      (Exists.imp fun _ => And.imp_left (List.mem_cons_of_mem guess))
    cases hcorrect : guess.correct with
    | true =>
      simp only [if_true, hlockouts]
      exact ⟨hfailures, hphase.lockedUntil, hspent, counted, hcard, hfree, hlast⟩
    | false =>
      simp only [Bool.false_eq_true, if_false]
      exact ⟨hfailures, hphase.lockedUntil, hspent, counted, hcard, List.forall_mem_cons.mpr
        ⟨.inr ⟨guess, List.mem_cons_self .., hcorrect, rfl⟩, hfree⟩, hlast⟩
  | cons last rest =>
    rw [hlockouts] at hphase
    have hfailures := hphase.failures
    -- With no free attempt left, a guess is let through only alone.
    have hlength : asked.length = 0 := by omega
    obtain rfl := List.length_eq_zero_iff.mp hlength
    cases hcorrect : guess.correct with
    | true =>
      simp only [if_true, hlockouts]
      exact ⟨hfailures, le_rfl, fun _ => not_lockedOut hunlocked, hphase.free,
        by simpa [hcorrect] using hphase.hashed, by simpa using hother, hphase.earlier,
        hphase.length, hphase.grows⟩
    | false =>
      simp only [Bool.false_eq_true, if_false]
      exact ⟨hfailures, le_rfl, fun _ => not_lockedOut hunlocked, hphase.free,
        by simpa [hcorrect] using hphase.hashed, by simpa using hother, hphase.earlier,
        hphase.length, by simpa using hphase.grows⟩

/-- A right answer is refused. -/
theorem held_refuse (h : Held hashing offers now state ledger (guess :: asked))
    (hcorrect : guess.correct = true) :
    Held hashing offers now { state with inFlight := state.inFlight - 1 } ledger asked := by
  have hinFlight := h.inFlight
  have hphase := h.phase
  refine ⟨by simp [hinFlight], (List.forall_mem_cons.mp h.offered).2, h.ends, h.proved, ?_⟩
  cases hlockouts : ledger.lockouts with
  | nil =>
    rw [hlockouts] at hphase
    have hspent := hphase.spent
    obtain ⟨counted, hcard, hfree, hlast⟩ := hphase.counted
    refine ⟨hphase.failures, hphase.lockedUntil, ?_, counted, hcard, ?_, hlast⟩
    · show state.failures + asked.length ≤ freeAttempts
      rw [List.length_cons] at hspent
      omega
    · intro password hpassword
      refine (hfree password hpassword).imp_right ?_
      rintro ⟨other, hmem, hwrong, heq⟩
      rcases List.mem_cons.mp hmem with rfl | hmem
      · rw [hcorrect] at hwrong
        cases hwrong
      · exact ⟨other, hmem, hwrong, heq⟩
  | cons last rest =>
    rw [hlockouts] at hphase
    obtain rfl := hphase.alone
    refine ⟨hphase.failures, by simp, nofun, hphase.free, ?_, nofun, hphase.earlier,
      hphase.length, hphase.grows⟩
    simpa [hcorrect] using hphase.hashed

/-- An answer unlocks the device, and no other guess is in flight. -/
theorem held_unlock (h : Held hashing offers now state ledger [guess])
    (hunlocked : state.lockedOut now = false) (session : Nat) :
    Held hashing offers now { unlockedSession := some session } (ledger.succeed session true)
      [] where
  inFlight := rfl
  offered := nofun
  ends ends hends := by
    rcases h.ends ends hends with hpast | ⟨held, hheld, hle⟩
    · exact .inl hpast
    · have hpast := not_lockedOut hunlocked held hheld
      exact .inl (by omega)
  proved s hs := by
    cases hs
    exact List.mem_cons_self ..
  phase := by
    refine ⟨?_, rfl, ?_, ∅, by simp, nofun, nofun⟩
    · show 0 < freeAttempts
      decide
    · show 0 + 0 ≤ freeAttempts
      decide

/-- No two of the passwords that are offered have one digest. -/
def Apart (hashing : Hashing) (offers : Set String) : Prop :=
  ∀ p ∈ offers, ∀ q ∈ offers, hashing.digest p = hashing.digest q → p = q

/-- Before five failures there was no lockout. -/
theorem Held.unlocked (h : Held hashing offers now state ledger asked)
    (hleft : state.failures < freeAttempts) : state.lockedUntil = none := by
  have hphase := h.phase
  cases hlockouts : ledger.lockouts with
  | nil =>
    rw [hlockouts] at hphase
    exact hphase.lockedUntil
  | cons last rest =>
    rw [hlockouts] at hphase
    have hfailures := hphase.failures
    omega

/-- A wrong answer is the one counted last. -/
theorem held_again (h : Held hashing offers now state ledger (guess :: asked))
    (hapart : Apart hashing offers)
    (hlast : state.lastWrong = some (hashing.digest guess.offered)) :
    Held hashing offers now { state with inFlight := state.inFlight - 1 } ledger asked := by
  have hinFlight := h.inFlight
  have hphase := h.phase
  obtain ⟨hoffered, hrest⟩ := List.forall_mem_cons.mp h.offered
  refine ⟨by simp [hinFlight], hrest, h.ends, h.proved, ?_⟩
  cases hlockouts : ledger.lockouts with
  | nil =>
    rw [hlockouts] at hphase
    have hspent := hphase.spent
    obtain ⟨counted, hcard, hfree, hcounted⟩ := hphase.counted
    refine ⟨hphase.failures, hphase.lockedUntil, ?_, counted, hcard, ?_, hcounted⟩
    · show state.failures + asked.length ≤ freeAttempts
      rw [List.length_cons] at hspent
      omega
    · intro password hpassword
      rcases hfree password hpassword with hmem | ⟨other, hmem, hwrong, rfl⟩
      · exact .inl hmem
      · rcases List.mem_cons.mp hmem with rfl | hmem
        · -- The password with this digest is the one that was counted.
          obtain ⟨password', hcounted', hoffered', hdigest⟩ := hcounted _ hlast
          obtain rfl := hapart password' hoffered' _ hoffered hdigest
          exact .inl hcounted'
        · exact .inr ⟨other, hmem, hwrong, rfl⟩
  | cons last rest =>
    rw [hlockouts] at hphase
    exact absurd hlast (hphase.other guess (List.mem_cons_self ..))

/-- A wrong answer is counted, and there are free attempts left. -/
theorem held_count (h : Held hashing offers now state ledger (guess :: asked))
    (hleft : state.failures + 1 < freeAttempts) :
    Held hashing offers now
      { state with
        inFlight := state.inFlight - 1
        lastWrong := some (hashing.digest guess.offered)
        failures := state.failures + 1 } ledger asked := by
  have hinFlight := h.inFlight
  have hphase := h.phase
  obtain ⟨hoffered, hrest⟩ := List.forall_mem_cons.mp h.offered
  refine ⟨by simp [hinFlight], hrest, h.ends, h.proved, ?_⟩
  cases hlockouts : ledger.lockouts with
  | nil =>
    rw [hlockouts] at hphase
    have hspent := hphase.spent
    obtain ⟨counted, hcard, hfree, -⟩ := hphase.counted
    refine ⟨hleft, hphase.lockedUntil, ?_, insert guess.offered counted, ?_, ?_, ?_⟩
    · show state.failures + 1 + asked.length ≤ freeAttempts
      rw [List.length_cons] at hspent
      omega
    · exact (Finset.card_insert_le _ _).trans (Nat.succ_le_succ hcard)
    · intro password hpassword
      rcases hfree password hpassword with hmem | ⟨other, hmem, hwrong, rfl⟩
      · exact .inl (Finset.mem_insert_of_mem hmem)
      · rcases List.mem_cons.mp hmem with rfl | hmem
        · exact .inl (Finset.mem_insert_self _ _)
        · exact .inr ⟨other, hmem, hwrong, rfl⟩
    · intro wrong hwrong
      cases hwrong
      exact ⟨guess.offered, Finset.mem_insert_self _ _, hoffered, rfl⟩
  | cons last rest =>
    rw [hlockouts] at hphase
    have hfailures := hphase.failures
    omega

theorem lockoutOf_mono {m n : Nat} (h : m ≤ n) : lockoutOf m ≤ lockoutOf n := by
  unfold lockoutOf
  have hdoublings : min (m - freeAttempts) 6 ≤ min (n - freeAttempts) 6 := by omega
  exact min_le_min_right _ (Nat.mul_le_mul_left _ (Nat.pow_le_pow_right (by decide) hdoublings))

/-- While a guess is in flight, no lockout runs. -/
theorem Held.past (h : Held hashing offers now state ledger (guess :: asked)) :
    ∀ ends ∈ ledger.ends, ends ≤ now := by
  intro ends hends
  have hphase := h.phase
  rcases h.ends ends hends with hpast | ⟨held, hheld, hle⟩
  · exact hpast
  · cases hlockouts : ledger.lockouts with
    | nil =>
      rw [hlockouts] at hphase
      rw [hphase.lockedUntil] at hheld
      cases hheld
    | cons last rest =>
      rw [hlockouts] at hphase
      have hpast := hphase.idle (by simp) held hheld
      omega

/-- A wrong answer is counted, and a lockout starts. -/
theorem held_lockOut (h : Held hashing offers now state ledger (guess :: asked))
    (hwrong : guess.correct = false) (hspent : freeAttempts ≤ state.failures + 1) :
    Held hashing offers now
      { state with
        inFlight := state.inFlight - 1
        lastWrong := some (hashing.digest guess.offered)
        failures := state.failures + 1
        lockedUntil := some (now + lockoutOf (state.failures + 1)) }
      (ledger.lockOut now (now + lockoutOf (state.failures + 1))) asked := by
  have hinFlight := h.inFlight
  have hphase := h.phase
  obtain ⟨hoffered, hrest⟩ := List.forall_mem_cons.mp h.offered
  have hlength : now + lockoutOf (state.failures + 1) - now = lockoutOf (state.failures + 1) := by
    omega
  have hends : ∀ ends ∈ (ledger.lockOut now (now + lockoutOf (state.failures + 1))).ends,
      ends ≤ now ∨ ∃ held, some (now + lockoutOf (state.failures + 1)) = some held ∧
        ends ≤ held :=
    List.forall_mem_cons.mpr
      ⟨.inr ⟨_, rfl, le_rfl⟩, fun ends hmem => .inl (h.past ends hmem)⟩
  cases hlockouts : ledger.lockouts with
  | nil =>
    rw [hlockouts] at hphase
    have hasked : asked.length = 0 := by
      have hall := hphase.spent
      have hfailures := hphase.failures
      rw [List.length_cons] at hall
      omega
    obtain rfl := List.length_eq_zero_iff.mp hasked
    obtain ⟨counted, hcard, hfree, -⟩ := hphase.counted
    refine ⟨by simp [hinFlight], hrest, hends, h.proved, ?_⟩
    simp only [Ledger.lockOut, hlockouts, hlength]
    refine ⟨hspent, by simp, nofun, ?_, rfl, nofun, nofun, rfl, by simp⟩
    have hsubset : ledger.free.toFinset ⊆ insert guess.offered counted := by
      intro password hpassword
      rcases hfree password (List.mem_toFinset.mp hpassword) with hmem | ⟨other, hmem, -, rfl⟩
      · exact Finset.mem_insert_of_mem hmem
      · obtain rfl := List.mem_singleton.mp hmem
        exact Finset.mem_insert_self _ _
    have hinsert := Finset.card_insert_le guess.offered counted
    have hfree := Finset.card_le_card hsubset
    have hfailures := hphase.failures
    show ledger.free.toFinset.card ≤ freeAttempts
    omega
  | cons last rest =>
    rw [hlockouts] at hphase
    obtain rfl := hphase.alone
    have hlonger : last.length ≤ lockoutOf (state.failures + 1) := by
      rw [hphase.length]
      exact lockoutOf_mono (by omega)
    refine ⟨by simp [hinFlight], hrest, hends, h.proved, ?_⟩
    simp only [Ledger.lockOut, hlockouts, hlength]
    refine ⟨hspent, by simp, nofun, hphase.free, rfl, nofun, ?_, rfl, ?_⟩
    · refine List.forall_mem_cons.mpr ⟨?_, hphase.earlier⟩
      rw [hphase.hashed]
      exact (List.countP_le_length).trans hphase.single
    · refine List.Pairwise.cons (List.forall_mem_cons.mpr ⟨hlonger, ?_⟩) hphase.grows
      intro earlier hearlier
      exact (List.rel_of_pairwise_cons hphase.grows hearlier).trans hlonger

/-- A wrong answer. -/
theorem held_fail (h : Held hashing offers now state ledger (guess :: asked))
    (hapart : Apart hashing offers) (hwrong : guess.correct = false) {state' : DeviceState}
    (hstate' : state' = { state with inFlight := state.inFlight - 1 }) (e : String) (kept : Bool) :
    Held hashing offers now (state'.fail (hashing.digest guess.offered) now).1
      (ledger.answered guess kept now state (state'.fail (hashing.digest guess.offered) now).1
        (.error e)) asked := by
  subst hstate'
  by_cases hlast : state.lastWrong = some (hashing.digest guess.offered)
  · have hfail : (({ state with inFlight := state.inFlight - 1 } : DeviceState).fail
        (hashing.digest guess.offered) now).1
        = { state with inFlight := state.inFlight - 1 } := by
      simp only [DeviceState.fail, if_pos hlast]
    have hnone : newLockout state { state with inFlight := state.inFlight - 1 } = none :=
      if_neg (Nat.lt_irrefl _)
    rw [hfail]
    simp only [Ledger.answered, hnone]
    exact held_again h hapart hlast
  · by_cases hspent : freeAttempts ≤ state.failures + 1
    · have hfail : (({ state with inFlight := state.inFlight - 1 } : DeviceState).fail
          (hashing.digest guess.offered) now).1
          = { state with
              inFlight := state.inFlight - 1
              lastWrong := some (hashing.digest guess.offered)
              failures := state.failures + 1
              lockedUntil := some (now + lockoutOf (state.failures + 1)) } := by
        simp only [DeviceState.fail, if_neg hlast, if_pos hspent]
      rw [hfail]
      simp only [Ledger.answered, newLockout, if_pos (Nat.lt_succ_self state.failures)]
      exact held_lockOut h hwrong hspent
    · have hfail : (({ state with inFlight := state.inFlight - 1 } : DeviceState).fail
          (hashing.digest guess.offered) now).1
          = { state with
              inFlight := state.inFlight - 1
              lastWrong := some (hashing.digest guess.offered)
              failures := state.failures + 1 } := by
        simp only [DeviceState.fail, if_neg hlast, if_neg hspent]
      have hnone : state.lockedUntil = none := h.unlocked (by omega)
      have hcount := held_count h (Nat.lt_of_not_le hspent)
      rw [hfail]
      simp only [Ledger.answered, newLockout, if_pos (Nat.lt_succ_self state.failures), hnone]
      rw [hnone] at hcount
      exact hcount

theorem held_forget (h : Held hashing offers now state ledger asked) :
    Held hashing offers now { state with unlockedSession := none, lastWrong := none }
      ledger.forget asked := by
  have hphase := h.phase
  refine ⟨h.inFlight, h.offered, h.ends, nofun, ?_⟩
  simp only [Ledger.forget]
  cases hlockouts : ledger.lockouts with
  | nil =>
    rw [hlockouts] at hphase
    obtain ⟨counted, hcard, hfree, -⟩ := hphase.counted
    exact ⟨hphase.failures, hphase.lockedUntil, hphase.spent, counted, hcard, hfree, nofun⟩
  | cons last rest =>
    rw [hlockouts] at hphase
    exact ⟨hphase.failures, hphase.single, hphase.idle, hphase.free, hphase.hashed, nofun,
      hphase.earlier, hphase.length, hphase.grows⟩

theorem held_wait (h : Held hashing offers now state ledger asked) (elapsed : Nat) :
    Held hashing offers (now + elapsed) state ledger asked := by
  have hphase := h.phase
  refine ⟨h.inFlight, h.offered, ?_, h.proved, ?_⟩
  · intro ends hends
    rcases h.ends ends hends with hpast | hheld
    · exact .inl (by omega)
    · exact .inr hheld
  cases hlockouts : ledger.lockouts with
  | nil =>
    rw [hlockouts] at hphase
    exact hphase
  | cons last rest =>
    rw [hlockouts] at hphase
    refine ⟨hphase.failures, hphase.single, ?_, hphase.free, hphase.hashed, hphase.other,
      hphase.earlier, hphase.length, hphase.grows⟩
    intro hasked ends hends
    have hpast := hphase.idle hasked ends hends
    omega

end

/-! ### One step -/

/-- The guesses of a device. -/
def Guessing.askedOf (w : Guessing) (deviceId : String) : List Guess :=
  w.asked.filter (fun guess => guess.deviceId = deviceId)

structure Watched.Tallied (hashing : Hashing) (offers : Set String) (w : Watched) : Prop where
  held : ∀ deviceId, Held hashing offers w.guessing.now (w.guessing.lock.state deviceId)
    (w.ledger deviceId) (w.guessing.askedOf deviceId)
  kept : w.kept.map Prod.fst = w.guessing.asked
  /-- A guess of the present epoch has seen nothing forgotten. -/
  epoch : ∀ entry ∈ w.kept, entry.1.epoch ≤ w.guessing.lock.epoch ∧
    (entry.1.epoch = w.guessing.lock.epoch → entry.2 = true)

/-- The passwords that the steps offer. -/
def offersOf (acts : List Act) : List String :=
  acts.filterMap (fun
    | .begin _ _ _ offered => offered
    | _ => none)

/-- The step offers one of these passwords, or none. -/
def Act.Offers (offers : Set String) : Act → Prop
  | .begin _ _ _ offered => ∀ password ∈ offered, password ∈ offers
  | _ => True

section
variable {offers : Set String} {w : Watched} {guess : Guess} {i : Nat}

/-- A password is offered: it is refused, or goes to be hashed. -/
theorem begin_tallied (h : w.Tallied hashing offers) (stored : Option PasswordHash)
    (deviceId : String) (session : Nat) (offered : Option String)
    (hoffers : ∀ password ∈ offered, password ∈ offers) :
    (w.after hashing (.begin stored deviceId session offered)).Tallied hashing offers := by
  rcases begin_cases hashing w.guessing.lock stored deviceId session offered w.guessing.now
    with ⟨hepoch, hsame, hanswer⟩ | ⟨password, rfl, hunlocked, hother, hroom, heq⟩
  · have hnone : guessOf hashing stored deviceId session offered
        (w.guessing.begin hashing stored deviceId session offered).2 = none := by
      show guessOf hashing stored deviceId session offered
        (w.guessing.lock.begin hashing stored deviceId session offered w.guessing.now).2 = none
      rcases hanswer with ⟨hallowed, -⟩ | ⟨reason, hdenied⟩
      · rw [hallowed]
        rfl
      · rw [hdenied]
        rfl
    have hasked : (w.guessing.after hashing (.begin stored deviceId session offered)).asked
        = w.guessing.asked := by
      show w.guessing.asked ++ (guessOf hashing stored deviceId session offered
        (w.guessing.begin hashing stored deviceId session offered).2).toList = _
      rw [hnone]
      exact List.append_nil _
    refine ⟨fun other => ?_, ?_, ?_⟩
    · show Held hashing offers w.guessing.now _ _ _
      simp only [Watched.after, hnone, Guessing.askedOf, hasked]
      have hstate : (w.guessing.after hashing (.begin stored deviceId session offered)).lock.state
          other = w.guessing.lock.state other := hsame other
      rw [hstate]
      exact h.held other
    · simp only [Watched.after, hnone, hasked]
      simpa using h.kept
    · have hepoch' : (w.guessing.after hashing (.begin stored deviceId session offered)).lock.epoch
          = w.guessing.lock.epoch := hepoch
      simp only [Watched.after, hnone, hepoch']
      simpa using h.epoch
  · -- The guess is let through.
    let guess : Guess :=
      { deviceId, session, offered := password, epoch := w.guessing.lock.epoch
        correct := isCorrect hashing stored password }
    have hbegun : (w.guessing.begin hashing stored deviceId session (some password)).2
        = .verify w.guessing.lock.epoch := by
      show (w.guessing.lock.begin hashing stored deviceId session (some password)
        w.guessing.now).2 = _
      rw [heq]
    have hguess : guessOf hashing stored deviceId session (some password)
        (w.guessing.begin hashing stored deviceId session (some password)).2 = some guess := by
      rw [hbegun]
      rfl
    have hasked : (w.guessing.after hashing (.begin stored deviceId session (some password))).asked
        = w.guessing.asked ++ [guess] := by
      show w.guessing.asked ++ (guessOf hashing stored deviceId session (some password)
        (w.guessing.begin hashing stored deviceId session (some password)).2).toList = _
      rw [hguess]
      rfl
    have hlock : (w.guessing.after hashing (.begin stored deviceId session (some password))).lock
        = w.guessing.lock.setState deviceId { w.guessing.lock.state deviceId with
          inFlight := (w.guessing.lock.state deviceId).inFlight + 1 } := by
      show (w.guessing.lock.begin hashing stored deviceId session (some password)
        w.guessing.now).1 = _
      rw [heq]
    refine ⟨fun other => ?_, ?_, ?_⟩
    · show Held hashing offers w.guessing.now _ _ _
      simp only [Watched.after, hguess, Guessing.askedOf, hasked, hlock, state_setState]
      by_cases hdevice : deviceId = other
      · subst hdevice
        have hperm : (guess :: w.guessing.askedOf deviceId).Perm
            ((w.guessing.asked ++ [guess]).filter (fun g => g.deviceId = deviceId)) := by
          rw [List.filter_append]
          have hself : [guess].filter (fun g => g.deviceId = deviceId) = [guess] :=
            List.filter_cons_of_pos (decide_eq_true rfl)
          rw [hself]
          exact (List.perm_append_singleton _ _).symm
        refine Held.perm ?_ hperm
        have hoffered : guess.offered ∈ offers := hoffers password rfl
        rw [if_pos rfl, ite_apply, Function.update_self]
        exact held_ask (h.held deviceId) hunlocked hother hroom hoffered
      · have hself : [guess].filter (fun g => g.deviceId = other) = [] :=
          List.filter_cons_of_neg (by simpa using hdevice)
        rw [if_neg hdevice, List.filter_append, hself, List.append_nil, ite_apply,
          Function.update_of_ne (Ne.symm hdevice), ite_self]
        exact h.held other
    · simp only [Watched.after, hguess, hasked]
      simpa using h.kept
    · simp only [Watched.after, hguess, hlock, epoch_setState]
      intro entry hentry
      rcases List.mem_append.mp hentry with hold | hnew
      · exact h.epoch entry hold
      · obtain rfl := List.mem_singleton.mp hnew
        exact ⟨le_rfl, fun _ => rfl⟩

/-- The guess that is answered, and the others. -/
theorem perm_eraseIdx {asked : List Guess} (hguess : asked[i]? = some guess) :
    asked.Perm (guess :: asked.eraseIdx i) := by
  obtain ⟨hlt, rfl⟩ := List.getElem?_eq_some_iff.mp hguess
  exact (List.getElem_cons_eraseIdx_perm hlt).symm

/-- An answer that leaves the entry of its device held. -/
theorem answered_tallied (h : w.Tallied hashing offers) (hguess : w.guessing.asked[i]? = some guess)
    {state : DeviceState} {result : Except String Unit}
    (heq : w.guessing.lock.finish hashing guess.deviceId guess.session guess.offered guess.correct
      guess.epoch w.guessing.now = (w.guessing.lock.setState guess.deviceId state, result))
    (hheld : Held hashing offers w.guessing.now state
      ((w.ledger guess.deviceId).answered guess (w.kept[i]?.any Prod.snd) w.guessing.now
        (w.guessing.lock.state guess.deviceId) state result)
      ((w.guessing.asked.eraseIdx i).filter (fun g => g.deviceId = guess.deviceId))) :
    (w.after hashing (.finish i)).Tallied hashing offers := by
  have hanswer : w.guessing.answer hashing i guess
      = ({ w.guessing with
            lock := w.guessing.lock.setState guess.deviceId state
            asked := w.guessing.asked.eraseIdx i }, result) := by
    unfold Guessing.answer
    rw [heq]
  have hafter : w.guessing.after hashing (.finish i)
      = { w.guessing with
          lock := w.guessing.lock.setState guess.deviceId state
          asked := w.guessing.asked.eraseIdx i } := by
    simp only [Guessing.after, hguess, hanswer]
  refine ⟨fun other => ?_, ?_, ?_⟩
  · simp only [Watched.after, hafter, hguess, hanswer, Guessing.askedOf, state_setState]
    by_cases hdevice : guess.deviceId = other
    · subst hdevice
      rw [if_pos rfl, if_pos trivial, Function.update_self]
      exact hheld
    · -- The guesses of another device stay.
      have hfilter : (w.guessing.asked.eraseIdx i).filter (fun g => g.deviceId = other)
          |>.Perm (w.guessing.askedOf other) := by
        have hperm := (perm_eraseIdx hguess).filter (fun g => g.deviceId = other)
        rw [List.filter_cons_of_neg (by simpa using hdevice)] at hperm
        exact hperm.symm
      rw [if_neg hdevice, Function.update_of_ne (Ne.symm hdevice)]
      exact (h.held other).perm hfilter.symm
  · simp only [Watched.after, hafter]
    rw [← List.eraseIdx_map, h.kept]
  · simp only [Watched.after, hafter, epoch_setState]
    intro entry hentry
    exact h.epoch entry (List.mem_of_mem_eraseIdx hentry)

theorem finish_tallied (h : w.Tallied hashing offers) (hapart : Apart hashing offers) (i : Nat)
    (halone : w.Alone (.finish i)) : (w.after hashing (.finish i)).Tallied hashing offers := by
  cases hguess : w.guessing.asked[i]? with
  | none =>
    have hlength : w.kept.length ≤ i := by
      rw [← List.length_map Prod.fst, h.kept]
      exact List.getElem?_eq_none_iff.mp hguess
    have hsame : w.after hashing (.finish i) = w := by
      simp only [Watched.after, Guessing.after, hguess, List.eraseIdx_of_length_le hlength]
    rw [hsame]
    exact h
  | some guess =>
    have hperm := (perm_eraseIdx hguess).filter (fun g => g.deviceId = guess.deviceId)
    rw [List.filter_cons_of_pos (by simp)] at hperm
    have hheld := (h.held guess.deviceId).perm hperm
    rcases finish_cases hashing w.guessing.lock guess w.guessing.now rfl with
      ⟨hcorrect, -, e, heq⟩ | ⟨hcorrect, hepoch, hunlocked, heq⟩ | ⟨hwrong, e, heq⟩
    · refine answered_tallied h hguess heq ?_
      have hnone : newLockout (w.guessing.lock.state guess.deviceId)
          { w.guessing.lock.state guess.deviceId with
            inFlight := (w.guessing.lock.state guess.deviceId).inFlight - 1 } = none :=
        if_neg (Nat.lt_irrefl _)
      simp only [Ledger.answered, hnone]
      exact held_refuse hheld hcorrect
    · refine answered_tallied h hguess heq ?_
      have hnil : (w.guessing.asked.eraseIdx i).filter (fun g => g.deviceId = guess.deviceId)
          = [] := by
        rw [List.filter_eq_nil_iff]
        intro other hother hdevice
        exact halone guess hguess ⟨hcorrect, hepoch, hunlocked⟩ other hother
          (of_decide_eq_true hdevice)
      -- Nothing was forgotten since a guess of the present epoch.
      have hkept : (w.kept[i]?.any Prod.snd) = true := by
        have hfst : (w.kept.map Prod.fst)[i]? = some guess := by
          rw [h.kept]
          exact hguess
        rw [List.getElem?_map] at hfst
        obtain ⟨entry, hentry, rfl⟩ := Option.map_eq_some_iff.mp hfst
        rw [hentry]
        exact (h.epoch entry (List.mem_of_getElem? hentry)).2 hepoch
      rw [hnil] at hheld ⊢
      rw [hkept]
      exact held_unlock hheld hunlocked guess.session
    · exact answered_tallied h hguess heq (held_fail hheld hapart hwrong rfl e _)

/-- What is forgotten starts an epoch that no guess is of. -/
theorem Watched.Tallied.forgotten (h : w.Tallied hashing offers) (kept : Guess × Bool → Bool) :
    (w.kept.map (fun entry => (entry.1, kept entry))).map Prod.fst = w.guessing.asked ∧
    ∀ entry ∈ w.kept.map (fun entry => (entry.1, kept entry)),
      entry.1.epoch ≤ w.guessing.lock.epoch + 1 ∧
      (entry.1.epoch = w.guessing.lock.epoch + 1 → entry.2 = true) := by
  refine ⟨by rw [← h.kept, List.map_map]; rfl, fun entry hentry => ?_⟩
  obtain ⟨old, hold, rfl⟩ := List.mem_map.mp hentry
  have hle := (h.epoch old hold).1
  exact ⟨by dsimp only; omega, fun hepoch => by dsimp only at hepoch; omega⟩

theorem forget_tallied (h : w.Tallied hashing offers) (deviceId : String) :
    (w.after hashing (.forgetUnlock deviceId)).Tallied hashing offers := by
  refine ⟨fun other => ?_, (h.forgotten _).1, (h.forgotten _).2⟩
  · show Held hashing offers w.guessing.now ((w.guessing.lock.forgetUnlock deviceId).state other)
      (Function.update w.ledger deviceId (w.ledger deviceId).forget other)
      (w.guessing.askedOf other)
    rw [state_forgetUnlock]
    by_cases hdevice : deviceId = other
    · subst hdevice
      rw [if_pos rfl, Function.update_self]
      exact held_forget (h.held deviceId)
    · rw [if_neg hdevice, Function.update_of_ne (Ne.symm hdevice)]
      exact h.held other

theorem relock_tallied (h : w.Tallied hashing offers) :
    (w.after hashing .relockAll).Tallied hashing offers := by
  refine ⟨fun other => ?_, (h.forgotten _).1, (h.forgotten _).2⟩
  · show Held hashing offers w.guessing.now (w.guessing.lock.relockAll.state other)
      (w.ledger other).forget (w.guessing.askedOf other)
    rw [state_relockAll]
    exact held_forget (h.held other)

/-- One step of any handler. -/
theorem after_tallied (h : w.Tallied hashing offers) (hapart : Apart hashing offers) {act : Act}
    (hoffers : act.Offers offers) (halone : w.Alone act) :
    (w.after hashing act).Tallied hashing offers := by
  cases act with
  | begin stored deviceId session offered =>
    exact begin_tallied h stored deviceId session offered hoffers
  | finish i => exact finish_tallied h hapart i halone
  | forgetUnlock deviceId => exact forget_tallied h deviceId
  | relockAll => exact relock_tallied h
  | wait elapsed => exact ⟨fun other => held_wait (h.held other) elapsed, h.kept, h.epoch⟩

end

variable {acts : List Act} {offers : Set String}

/-! ### The run -/

variable (hashing) in
/-- The lock, and the ledgers of the devices, after the steps. -/
def guessed (acts : List Act) : Watched := Lib.applyAll (Watched.after hashing) {} acts

theorem offers_of_mem : ∀ act ∈ acts, act.Offers { p | p ∈ offersOf acts } := by
  intro act hact
  cases act with
  | begin stored deviceId session offered =>
    intro password hpassword
    exact List.mem_filterMap.mpr ⟨_, hact, hpassword⟩
  | _ => trivial

theorem guessed_tallied (hapart : Apart hashing offers) {w : Watched} (h : w.Tallied hashing offers)
    (hoffers : ∀ act ∈ acts, act.Offers offers)
    (halone : Lib.Alongside (Watched.after hashing) Watched.Alone w acts) :
    (Lib.applyAll (Watched.after hashing) w acts).Tallied hashing offers := by
  induction acts generalizing w with
  | nil => exact h
  | cons act acts ih =>
    obtain ⟨hact, hacts⟩ := List.forall_mem_cons.mp hoffers
    exact ih (after_tallied h hapart hact halone.1) hacts halone.2

/-- What the tally of a device says of the passwords that were tried. -/
theorem Held.bounded {now : Nat} {state : DeviceState} {ledger : Ledger} {asked : List Guess}
    (h : Held hashing offers now state ledger asked) : ledger.free.toFinset.card ≤ freeAttempts ∧
    (∀ lockout ∈ ledger.lockouts, lockout.hashed.length ≤ 1) ∧
    ledger.lockouts.Pairwise (fun later earlier => earlier.length ≤ later.length) := by
  have hphase := h.phase
  cases hlockouts : ledger.lockouts with
  | nil =>
    rw [hlockouts] at hphase
    refine ⟨?_, nofun, .nil⟩
    obtain ⟨counted, hcard, hfree, -⟩ := hphase.counted
    have hsubset : ledger.free.toFinset ⊆ counted ∪ (asked.map Guess.offered).toFinset := by
      intro password hpassword
      rcases hfree password (List.mem_toFinset.mp hpassword) with hmem | ⟨guess, hmem, -, rfl⟩
      · exact Finset.mem_union_left _ hmem
      · exact Finset.mem_union_right _
          (List.mem_toFinset.mpr (List.mem_map_of_mem hmem))
    calc ledger.free.toFinset.card
        ≤ (counted ∪ (asked.map Guess.offered).toFinset).card := Finset.card_le_card hsubset
      _ ≤ counted.card + (asked.map Guess.offered).toFinset.card := Finset.card_union_le _ _
      _ ≤ state.failures + asked.length := by
        have hasked := List.toFinset_card_le (asked.map Guess.offered)
        rw [List.length_map] at hasked
        omega
      _ ≤ freeAttempts := hphase.spent
  | cons last rest =>
    rw [hlockouts] at hphase
    refine ⟨hphase.free, List.forall_mem_cons.mpr ⟨?_, hphase.earlier⟩, hphase.grows⟩
    rw [hphase.hashed]
    exact (List.countP_le_length).trans hphase.single

/-- The guesses at a session password are bounded. Take any steps of any
number of handlers, where a success finds no other guess of its device in
flight, and no two of the passwords that are offered have one digest. Then
`inFlight` is the number of guesses of the device that are being hashed;
five different wrong passwords at most were hashed between a success and the
first lockout after it, and one at most in the time of each lockout and
after it; no lockout is shorter than the one before it; while any lockout
runs, no guess is let through; and a session is allowed only when the
password was proved for it, with nothing forgotten since it was offered. -/
theorem attempts_bounded (acts : List Act)
    (hapart : Apart hashing { p | p ∈ offersOf acts })
    (halone : Lib.Alongside (Watched.after hashing) Watched.Alone {} acts) (deviceId : String) :
    ((guessed hashing acts).guessing.lock.state deviceId).inFlight
      = ((guessed hashing acts).guessing.askedOf deviceId).length ∧
    ((guessed hashing acts).ledger deviceId).free.toFinset.card ≤ freeAttempts ∧
    (∀ lockout ∈ ((guessed hashing acts).ledger deviceId).lockouts, lockout.hashed.length ≤ 1) ∧
    ((guessed hashing acts).ledger deviceId).lockouts.Pairwise
      (fun later earlier => earlier.length ≤ later.length) ∧
    (∀ stored session offered,
      (∃ ends ∈ ((guessed hashing acts).ledger deviceId).ends,
        (guessed hashing acts).guessing.now < ends) →
      ∀ epoch, ((guessed hashing acts).guessing.begin hashing stored deviceId session offered).2
        ≠ .verify epoch) ∧
    ∀ stored session offered, stored ≠ none →
      ((guessed hashing acts).guessing.begin hashing stored deviceId session offered).2 = .allowed ∨
        (guessed hashing acts).guessing.lock.isUnlocked stored deviceId session = true →
      session ∈ ((guessed hashing acts).ledger deviceId).proved := by
  have hstart : Watched.Tallied hashing { p | p ∈ offersOf acts } {} :=
    ⟨fun _ => held_new, rfl, nofun⟩
  have h := (guessed_tallied hapart hstart offers_of_mem halone).held deviceId
  refine ⟨h.inFlight, h.bounded.1, h.bounded.2.1, h.bounded.2.2, ?_, ?_⟩
  · rintro stored session offered ⟨ends, hends, hruns⟩ epoch hverify
    rcases begin_cases hashing (guessed hashing acts).guessing.lock stored deviceId session offered
      (guessed hashing acts).guessing.now with ⟨-, -, ⟨hallowed, -⟩ | ⟨reason, hdenied⟩⟩ |
      ⟨password, -, hunlocked, -⟩
    · cases hallowed.symm.trans hverify
    · cases hdenied.symm.trans hverify
    · rcases h.ends ends hends with hpast | ⟨held, hheld, hle⟩
      · exact absurd hpast (Nat.not_le_of_lt hruns)
      · have hpast := not_lockedOut hunlocked held hheld
        omega
  · intro stored session offered hstored hgranted
    refine h.proved session ?_
    rcases hgranted with hallowed | hunlocked
    · rcases begin_cases hashing (guessed hashing acts).guessing.lock stored deviceId session
        offered (guessed hashing acts).guessing.now with
        ⟨-, -, ⟨-, hsession⟩ | ⟨reason, hdenied⟩⟩ | ⟨password, -, -, -, -, heq⟩
      · exact hsession hstored
      · cases hdenied.symm.trans hallowed
      · cases (congrArg Prod.snd heq).symm.trans hallowed
    · unfold SessionLock.isUnlocked at hunlocked
      exact (of_decide_eq_true hunlocked).resolve_left hstored

/-- The thirty-two bytes of a hash that is written as a number. -/
def hashBytes (n : Nat) : List UInt8 :=
  (List.range 32).map (fun i => UInt8.ofNat (n / 256 ^ (31 - i)))

/-- SHA-256, and PBKDF2 with the salt and the iterations of `secret`, for a
few passwords. -/
def fewPasswords : Hashing where
  digest password := hashBytes <| (List.lookup password
   [("secret", 0x2bb80d537b1da3e38bd30361aa855686bde0eacd7162fef6a25fe97bf527a25b),
    ("w1", 0x60c5590f72eef292f9545afc28bf63ca91d2016a0a288f90f9a32f89d3fffcaf),
    ("w2", 0x06f8faea3b5f697691b6d063a07ba4ffaf1ece9a1d473c588565231cdc8e59cc),
    ("w3", 0x55eae50b75e2b2990f2c18be84ca079727a85f61b839c3359249801fe1ab9e9c),
    ("w4", 0x879cc67a846b570c4241f1880f79e6ed1646abd9eca44882782cb6c8c568ab53),
    ("w5", 0xbb349f269976d971294e3cdd5847b128917eb85d2834cc5320a5142f8cc579b8),
    ("w6", 0xd5bc18f5978282108f1624cfa41f49fc760594ac57056432c1aa28df5f51b686)]).getD 0
  derive password _ _ := (List.lookup password
   [("secret", 0xe1425a806504db7cd49d47b42099ed586bb9e85c365955b9e4d09e985a65dfbc),
    ("w1", 0xe6be296aa698943102215ef7045a70581cceaa5f8be9c788f4cc2ffc84f420bc),
    ("w2", 0x1282e361ac08b0411b51319ae0a2e1058069ae68e440d89a8a8ee8d1c36f8565),
    ("w3", 0xcd8d940148e08c21bc3d937488bf8dbc4289f5f5ae91adc9148b68731ef5a14b),
    ("w4", 0xed5d3038510a3cbb41837f5f4db0014ab9e2cd8c36f2068bb688ffc15ddca433),
    ("w5", 0xb9c649cf3857d4f278a2ccab6feb1a06cbed329efcd2b0f6e5e3a1a3dbdc5850),
    ("w6", 0xafd01b474d6cc5ea89e1186888ba7a2c7259e48cc2b08d0d856c9eb36c8e180f)]).map hashBytes

/-- The password is "secret". -/
def secret : PasswordHash :=
  { salt := "BwcHBwcHBwcHBwcHBwcHBw=="
    hash := "4UJagGUE23zUnUe0IJntWGu56Fw2WVW55NCemFpl37w="
    iterations := 1000 }

/-- The phone offers a password. -/
def offer (session : Nat) (password : String) : Act :=
  .begin (some secret) "phone" session (some password)

/-- A wrong password, and then the right one. -/
def wrongThenRight : List Act := [offer 1 "w1", .finish 0, offer 1 "secret", .finish 0]

/-- The right password, after a wrong one, opens the session. -/
theorem attempts_bounded_wrongThenRight :
    Apart fewPasswords { p | p ∈ offersOf wrongThenRight } ∧
    Lib.Alongside (Watched.after fewPasswords) Watched.Alone {} wrongThenRight ∧
    ((guessed fewPasswords wrongThenRight).guessing.begin fewPasswords (some secret) "phone" 1
      none).2 = .allowed ∧
    1 ∈ ((guessed fewPasswords wrongThenRight).ledger "phone").proved := by
  have hapart : Apart fewPasswords { p | p ∈ offersOf wrongThenRight } := by
    show ∀ p ∈ offersOf wrongThenRight, ∀ q ∈ offersOf wrongThenRight,
      fewPasswords.digest p = fewPasswords.digest q → p = q
    decide +kernel
  have halone : Lib.Alongside (Watched.after fewPasswords) Watched.Alone {} wrongThenRight := by
    decide +kernel
  have hallowed : ((guessed fewPasswords wrongThenRight).guessing.begin fewPasswords (some secret)
      "phone" 1 none).2 = .allowed := by
    decide +kernel
  exact ⟨hapart, halone, hallowed,
    (attempts_bounded wrongThenRight hapart halone "phone").2.2.2.2.2 (some secret) 1 none nofun
      (.inl hallowed)⟩

/-- Two passwords are hashed at once, and the right one is answered first;
then five more are offered on the other connection. -/
def rightThenWrong : List Act :=
  [offer 2 "w1", offer 1 "secret", .finish 1] ++
    ["w2", "w3", "w4", "w5", "w6"].map (offer 2)

/-- A success forgets the guess that is still in flight. After it
`inFlight` is zero with one password being hashed, five more are let through,
and six different wrong passwords are hashed before the lockout. -/
theorem attempts_unbounded :
    ((guessed fewPasswords (rightThenWrong.take 3)).guessing.lock.state "phone").inFlight = 0 ∧
    ((guessed fewPasswords (rightThenWrong.take 3)).guessing.askedOf "phone").length = 1 ∧
    ((guessed fewPasswords rightThenWrong).guessing.lock.state "phone").inFlight = 5 ∧
    ((guessed fewPasswords rightThenWrong).guessing.askedOf "phone").map Guess.offered
      = ["w1", "w2", "w3", "w4", "w5", "w6"] ∧
    ((guessed fewPasswords rightThenWrong).guessing.lock.state "phone").lockedUntil = none := by
  decide +kernel

end DeskLink.Access
