import Mathlib.Tactic

/-!
# `DeskLink.Lib.Run`: runs of a partial step function

A transition system is a function `step : σ → α → Option σ`: action `a`
takes the state `s` to `step s a`, or is not enabled there. `runFrom`
plays a list of actions.

* `runFrom_invariant`: what every step keeps, every run keeps; and what every step
  by an action of the run keeps (`runFrom_invariant_of_mem`).
* `StepsMeet`: every step of a run meets a condition, read in the state
  before it. `runFrom_invariant_of_steps` keeps an invariant along such a
  run.
* `Always`: every state of a run has a property. `always_iff_stepsMeet`: where a step
  keeps the property just when it meets a condition, so does a run.
* `stepsMeet_congr`: two conditions on the steps of a run that come to the same.
* `runFrom_length_le`: a run along which a measure falls is short.
-/

set_option autoImplicit false

namespace DeskLink.Lib

variable {σ α : Type*} {step : σ → α → Option σ}
variable {a : α} {actions first rest : List α} {s s' : σ} {I P : σ → Prop} {C : σ → α → Prop}

/-- The state after `actions`, when each is enabled in its turn. -/
def runFrom (step : σ → α → Option σ) : σ → List α → Option σ
  | s, [] => some s
  | s, a :: actions => (step s a).bind (fun s' => runFrom step s' actions)

theorem runFrom_cons_eq_some : runFrom step s (a :: actions) = some s' ↔
      ∃ m, step s a = some m ∧ runFrom step m actions = some s' := by
  simp [runFrom, Option.bind_eq_some_iff]

theorem runFrom_append : runFrom step s (first ++ rest)
      = (runFrom step s first).bind (fun m => runFrom step m rest) := by
  induction first generalizing s with
  | nil => rfl
  | cons a first ih =>
    simp only [List.cons_append, runFrom]
    cases step s a with
    | none => rfl
    | some m => exact ih

/-- Every step of the run from `s` meets `C`, read in the state before
the step. -/
def StepsMeet (step : σ → α → Option σ) (C : σ → α → Prop) : σ → List α → Prop
  | _, [] => True
  | s, a :: actions => C s a ∧ ∀ m, step s a = some m → StepsMeet step C m actions

instance StepsMeet.decidable (step : σ → α → Option σ) (C : σ → α → Prop)
    [∀ s a, Decidable (C s a)] :
    ∀ (s : σ) (actions : List α), Decidable (StepsMeet step C s actions)
  | _, [] => .isTrue trivial
  | s, a :: actions =>
    match h : step s a with
    | none =>
      decidable_of_iff (C s a) (by simp [StepsMeet, h])
    | some m =>
      have := StepsMeet.decidable step C m actions
      decidable_of_iff (C s a ∧ StepsMeet step C m actions) (by simp [StepsMeet, h])

/-- Actions that meet a condition in every state make a run that does. -/
theorem stepsMeet_of_forall (h : ∀ a ∈ actions, ∀ s, C s a) : StepsMeet step C s actions := by
  induction actions generalizing s with
  | nil => trivial
  | cons a actions ih =>
    exact ⟨h a List.mem_cons_self s,
      fun _ _ => ih (fun b hb => h b (List.mem_cons_of_mem a hb))⟩

theorem StepsMeet.and_forall {P : α → Prop} (h : StepsMeet step C s actions)
    (hP : ∀ a ∈ actions, P a) : StepsMeet step (fun s a => P a ∧ C s a) s actions := by
  induction actions generalizing s with
  | nil => trivial
  | cons a actions ih =>
    refine ⟨⟨hP a (List.mem_cons_self ..), h.1⟩, ?_⟩
    intro m hm
    exact ih (h.2 m hm) (fun b hb => hP b (List.mem_cons_of_mem _ hb))

/-- The parts of a run meet what the whole meets. -/
theorem StepsMeet.of_append (h : StepsMeet step C s (first ++ rest)) : StepsMeet step C s first ∧
      ∀ m, runFrom step s first = some m → StepsMeet step C m rest := by
  induction first generalizing s with
  | nil =>
    refine ⟨trivial, fun m hm => ?_⟩
    cases hm
    exact h
  | cons a first ih =>
    refine ⟨⟨h.1, fun m hm => (ih (h.2 m hm)).1⟩, fun m hm => ?_⟩
    obtain ⟨next, hnext, hrest⟩ := runFrom_cons_eq_some.mp hm
    exact (ih (h.2 next hnext)).2 m hrest

theorem runFrom_append_eq_some : runFrom step s (first ++ rest) = some s' ↔
      ∃ m, runFrom step s first = some m ∧ runFrom step m rest = some s' := by
  rw [runFrom_append, Option.bind_eq_some_iff]

/-- What every step that meets `C` keeps, every run of such steps keeps. -/
theorem runFrom_invariant_of_steps (hstep : ∀ s a s', I s → C s a → step s a = some s' → I s') :
    ∀ {actions : List α} {s s' : σ}, I s → StepsMeet step C s actions →
      runFrom step s actions = some s' → I s' := by
  intro actions
  induction actions with
  | nil =>
    intro s s' hs _ h
    cases h
    exact hs
  | cons a actions ih =>
    intro s s' hs hC h
    obtain ⟨m, hm, hrest⟩ := runFrom_cons_eq_some.mp h
    exact ih (hstep s a m hs hC.1 hm) (hC.2 m hm) hrest

/-- What every step keeps, every run keeps. -/
theorem runFrom_invariant (hstep : ∀ s a s', I s → step s a = some s' → I s') {actions : List α}
    {s s' : σ} (hs : I s) (h : runFrom step s actions = some s') : I s' :=
  runFrom_invariant_of_steps (C := fun _ _ => True) (fun t a m ht _ => hstep t a m ht) hs
    (stepsMeet_of_forall (fun _ _ _ => trivial)) h

/-- What every step by an action of the run keeps, the run keeps. -/
theorem runFrom_invariant_of_mem {actions : List α} {s s' : σ}
    (hstep : ∀ s a s', a ∈ actions → I s → step s a = some s' → I s') (hs : I s)
    (h : runFrom step s actions = some s') : I s' :=
  runFrom_invariant_of_steps (C := fun _ a => a ∈ actions)
    (fun t a m ht ha => hstep t a m ha ht) hs (stepsMeet_of_forall (fun _ ha _ => ha)) h

/-- Every state of the run from `s` has `P`. -/
def Always (step : σ → α → Option σ) (P : σ → Prop) (s : σ) (actions : List α) : Prop :=
  ∀ past s', past <+: actions → runFrom step s past = some s' → P s'

theorem always_nil : Always step P s [] ↔ P s := by
  constructor
  · intro h
    exact h [] s List.nil_prefix rfl
  · intro hs past s' hpast hrun
    rw [List.prefix_nil.mp hpast] at hrun
    cases hrun
    exact hs

theorem always_cons (hstep : step s a = some s') :
    Always step P s (a :: actions) ↔ P s ∧ Always step P s' actions := by
  constructor
  · intro h
    refine ⟨h [] s List.nil_prefix rfl, fun past m hpast hrun => ?_⟩
    exact h (a :: past) m ((List.prefix_cons_inj a).mpr hpast)
      (runFrom_cons_eq_some.mpr ⟨s', hstep, hrun⟩)
  · rintro ⟨hs, hrest⟩ past m hpast hrun
    obtain rfl | ⟨past, rfl, hmore⟩ := List.prefix_cons_iff.mp hpast
    · cases hrun
      exact hs
    · obtain ⟨m', hm', hrun⟩ := runFrom_cons_eq_some.mp hrun
      rw [hstep] at hm'
      cases hm'
      exact hrest past m hmore hrun

theorem always_cons_of_none (hstep : step s a = none) : Always step P s (a :: actions) ↔ P s := by
  refine ⟨fun h => h [] s List.nil_prefix rfl, fun hs past s' hpast hrun => ?_⟩
  obtain rfl | ⟨past, rfl, -⟩ := List.prefix_cons_iff.mp hpast
  · cases hrun
    exact hs
  · obtain ⟨m, hm, -⟩ := runFrom_cons_eq_some.mp hrun
    rw [hstep] at hm
    cases hm

instance Always.decidable (step : σ → α → Option σ) (P : σ → Prop) [DecidablePred P] :
    ∀ (s : σ) (actions : List α), Decidable (Always step P s actions)
  | s, [] => decidable_of_iff (P s) always_nil.symm
  | s, a :: actions =>
    match h : step s a with
    | none => decidable_of_iff (P s) (always_cons_of_none h).symm
    | some m =>
      have := Always.decidable step P m actions
      decidable_of_iff (P s ∧ Always step P m actions) (always_cons h).symm

/-- Every step of the run meets what every state before it has. -/
theorem StepsMeet.and_always (h : StepsMeet step C s actions) (hall : Always step P s actions) :
    StepsMeet step (fun s a => C s a ∧ P s) s actions := by
  induction actions generalizing s with
  | nil => trivial
  | cons a actions ih =>
    refine ⟨⟨h.1, hall [] s List.nil_prefix rfl⟩, fun m hm => ?_⟩
    exact ih (h.2 m hm) ((always_cons hm).mp hall).2

/-- Where a step keeps `P` just when it meets `C`, a run has `P` throughout just when
all its steps meet `C`. -/
theorem always_iff_stepsMeet (hI : ∀ s a s', I s → step s a = some s' → I s')
    (hP : ∀ s a s', I s → P s → step s a = some s' → (P s' ↔ C s a)) :
    ∀ {actions : List α} {s s' : σ}, I s → P s → runFrom step s actions = some s' →
      (Always step P s actions ↔ StepsMeet step C s actions) := by
  intro actions
  induction actions with
  | nil =>
    intro s s' _ hs _
    exact always_nil.trans (iff_true_intro hs)
  | cons a actions ih =>
    intro s s' hIs hs h
    obtain ⟨m, hm, hrest⟩ := runFrom_cons_eq_some.mp h
    have hmeets : StepsMeet step C s (a :: actions) ↔ C s a ∧ StepsMeet step C m actions := by
      refine and_congr_right (fun _ => ⟨fun h => h m hm, fun h m' hm' => ?_⟩)
      rw [hm] at hm'
      cases hm'
      exact h
    rw [always_cons hm, hmeets]
    constructor
    · rintro ⟨-, hall⟩
      have hPm : P m := hall [] m List.nil_prefix rfl
      exact ⟨(hP s a m hIs hs hm).mp hPm, (ih (hI s a m hIs hm) hPm hrest).mp hall⟩
    · rintro ⟨hC, hall⟩
      have hPm : P m := (hP s a m hIs hs hm).mpr hC
      exact ⟨hs, (ih (hI s a m hIs hm) hPm hrest).mpr hall⟩

/-- Conditions that come to the same along an invariant do so along a run. -/
theorem stepsMeet_congr {D : σ → α → Prop} (hI : ∀ s a s', I s → step s a = some s' → I s')
    (h : ∀ s a, I s → (C s a ↔ D s a)) : ∀ {actions : List α} {s : σ}, I s →
      (StepsMeet step C s actions ↔ StepsMeet step D s actions) := by
  intro actions
  induction actions with
  | nil =>
    intro s _
    exact Iff.rfl
  | cons a actions ih =>
    intro s hs
    refine and_congr (h s a hs) (forall₂_congr (fun m hm => ?_))
    exact ih (hI s a m hs hm)

/-- A run is no longer than a measure that every step lowers. -/
theorem runFrom_length_le (measure : σ → Nat)
    (hstep : ∀ s a s', I s → step s a = some s' → I s' ∧ measure s' < measure s) :
    ∀ {actions : List α} {s s' : σ}, I s → runFrom step s actions = some s' →
      actions.length + measure s' ≤ measure s := by
  intro actions
  induction actions with
  | nil =>
    intro s s' _ h
    cases h
    simp
  | cons a actions ih =>
    intro s s' hs h
    obtain ⟨m, hm, hrest⟩ := runFrom_cons_eq_some.mp h
    obtain ⟨hIm, hlt⟩ := hstep s a m hs hm
    have := ih hIm hrest
    simp only [List.length_cons]
    omega

end DeskLink.Lib
