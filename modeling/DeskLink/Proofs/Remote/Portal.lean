import DeskLink.Lib.Run
import DeskLink.Proofs.Remote.Input
import DeskLink.Remote.Portal

/-!
# `DeskLink.Proofs.Remote.Portal`: nothing stays pressed

`Share.due` is what will be pressed once the queue is worked off. `Share.Lets` says of a step
that it loses no release: a packet that is dropped would have let go of nothing that is due, a
call that fails leaves nothing pressed that its own action or the actions behind it would have
let go of, and the calls that let go of held input succeed.

`nothing_stays_pressed`: in every run of such steps the worker knows of everything that is
pressed, nothing is pressed when it has ended or has looked while the phone does not control,
and with an empty queue nothing is pressed that the phone has let go of.
-/

set_option autoImplicit false

namespace DeskLink.Remote

open Lib (runFrom StepsMeet)

variable {held pressed : Finset Held}

/-! ### A batch -/

theorem heldAfter_append (held : Finset Held) (first rest : List PortalInputAction) :
    heldAfter held (first ++ rest) = heldAfter (heldAfter held first) rest := by
  rw [heldAfter, List.flatMap_append, pressAll_append, heldAfter, heldAfter]

theorem heldAfter_mono {more : Finset Held} (h : held ⊆ more) (actions : List PortalInputAction) :
    heldAfter held actions ⊆ heldAfter more actions :=
  pressAll_mono h _

/-- Merging motion changes nothing that is held. -/
theorem heldAfter_mergeMotion (held : Finset Held) (merged : List PortalInputAction)
    (action : PortalInputAction) :
    heldAfter held (mergeMotion merged action) = heldAfter held (merged ++ [action]) := by
  rcases mergeMotion_cases merged action with ⟨before, last, motion, rfl, hmotion, heq⟩ | ⟨_, heq⟩
  · have hstill : last.calls = [.motion] ∧ action.calls = [.motion] ∧
        motion.calls = [.motion] := by
      cases last <;> cases action <;> cases hmotion <;> exact ⟨rfl, rfl, rfl⟩
    rw [heq, List.append_assoc, heldAfter_append, heldAfter_append held before]
    simp [heldAfter, hstill, pressAll, PortalCall.press]
  · rw [heq]

theorem heldAfter_coalesceMotion (held : Finset Held) (actions : List PortalInputAction) :
    heldAfter held (coalesceMotion actions) = heldAfter held actions :=
  foldl_mergeMotion (fun merged rest action => by
    rw [heldAfter_append, heldAfter_mergeMotion, ← heldAfter_append]) actions []

/-- The calls are those that were made and those that were not. -/
theorem answered_append (answers : List Bool) (calls : List PortalCall) :
    (answered answers calls).1 ++ (answered answers calls).2 = calls := by
  induction calls generalizing answers with
  | nil => cases answers <;> rfl
  | cons call calls ih =>
    cases answers with
    | nil =>
      have hrest := ih [].tail
      simp only [answered, List.cons_append, hrest]
    | cons answer answers =>
      cases answer with
      | false => rfl
      | true =>
        have hrest := ih (true :: answers).tail
        simp only [answered, List.cons_append, hrest]

/-- A batch goes on behind an action that is applied, and ends at one that fails. -/
theorem applyAll_cons (isOpen : Bool) (pressed held : Finset Held) (answers : List Bool)
    (action : PortalInputAction) (actions : List PortalInputAction) :
    ∃ done left, done ++ left = action.calls ∧ (isOpen = false → done = []) ∧
      ((left = [] ∧ applyAll isOpen pressed held answers (action :: actions)
          = applyAll isOpen (pressAll pressed done) (remember held action)
            (answers.drop action.calls.length) actions) ∨
        (left ≠ [] ∧ applyAll isOpen pressed held answers (action :: actions)
          = { pressed := pressAll pressed done, held, broken := left, skipped := actions,
              failed := true })) := by
  refine ⟨(attempt isOpen answers action).1, (attempt isOpen answers action).2,
    answered_append _ _, ?_, ?_⟩
  · rintro rfl
    unfold attempt
    cases action.calls <;> rfl
  · by_cases hleft : (attempt isOpen answers action).2 = []
    · refine .inl ⟨hleft, ?_⟩
      simp only [applyAll, hleft, List.isEmpty_nil, ↓reduceIte]
    · refine .inr ⟨hleft, ?_⟩
      simp only [applyAll]
      rw [if_neg (fun hempty => hleft (List.isEmpty_iff.mp hempty))]

/-- What was applied, the rest of the action that failed and the actions behind it are the
whole batch. -/
theorem applyAll_whole (isOpen : Bool) (pressed held : Finset Held) (answers : List Bool)
    (actions : List PortalInputAction) :
    heldAfter (pressAll (applyAll isOpen pressed held answers actions).pressed
        (applyAll isOpen pressed held answers actions).broken)
        (applyAll isOpen pressed held answers actions).skipped
      = heldAfter pressed actions := by
  induction actions generalizing pressed held answers with
  | nil => rfl
  | cons action actions ih =>
    obtain ⟨done, left, hcalls, -, ⟨rfl, heq⟩ | ⟨_, heq⟩⟩ :=
      applyAll_cons isOpen pressed held answers action actions
    · rw [List.append_nil] at hcalls
      rw [heq, ih, hcalls, heldAfter, heldAfter, List.flatMap_cons, pressAll_append]
    · rw [heq, ← pressAll_append, hcalls, heldAfter, heldAfter, List.flatMap_cons,
        pressAll_append]

/-- What an action presses is remembered, once it is applied. -/
theorem pressAll_remember (h : pressed ⊆ held) (action : PortalInputAction) :
    pressAll pressed action.calls ⊆ remember held action := by
  cases action with
  | relativeMotion | absoluteMotion | normalizedMotion | scroll => exact h
  | button evdevCode isPressed =>
    cases isPressed with
    | true => exact Finset.insert_subset_insert _ h
    | false => exact Finset.erase_subset_erase _ h
  | key keysym isPressed =>
    cases isPressed with
    | true => exact Finset.insert_subset_insert _ h
    | false => exact Finset.erase_subset_erase _ h
  | typeText text modifiers => exact (pressAll_typeText text modifiers pressed).trans h

/-- An action that fails has pressed nothing that is not remembered, where its rest would let
go of nothing. -/
theorem broken_remembered (h : pressed ⊆ held) {action : PortalInputAction}
    {done left : List PortalCall} (hcalls : done ++ left = action.calls) (hleft : left ≠ [])
    (hkeeps : pressAll pressed done ⊆ pressAll (pressAll pressed done) left) :
    pressAll pressed done ⊆ held := by
  -- Of an action that is one call, nothing was done.
  have hone : ∀ call : PortalCall, action.calls = [call] → pressAll pressed done ⊆ held := by
    intro call hcall
    rw [hcall] at hcalls
    rcases List.append_eq_singleton_iff.mp hcalls with ⟨hdone, _⟩ | ⟨_, hnil⟩
    · rw [hdone]
      exact h
    · exact absurd hnil hleft
  cases action with
  | typeText text modifiers =>
    -- The whole of it would hold down nothing new, and what was done holds down no more.
    rw [← pressAll_append, hcalls] at hkeeps
    exact (hkeeps.trans (pressAll_typeText text modifiers pressed)).trans h
  | relativeMotion | absoluteMotion | normalizedMotion | scroll | button | key =>
    exact hone _ rfl

/-- What a batch leaves pressed is remembered. -/
theorem applyAll_held {isOpen : Bool} (h : pressed ⊆ held) {answers : List Bool}
    {actions : List PortalInputAction}
    (hkeeps : (applyAll isOpen pressed held answers actions).failed = true →
      (applyAll isOpen pressed held answers actions).pressed
        ⊆ pressAll (applyAll isOpen pressed held answers actions).pressed
          (applyAll isOpen pressed held answers actions).broken) :
    (applyAll isOpen pressed held answers actions).pressed
      ⊆ (applyAll isOpen pressed held answers actions).held := by
  induction actions generalizing pressed held answers with
  | nil => exact h
  | cons action actions ih =>
    obtain ⟨done, left, hcalls, -, ⟨rfl, heq⟩ | ⟨hleft, heq⟩⟩ :=
      applyAll_cons isOpen pressed held answers action actions
    · rw [heq] at hkeeps ⊢
      rw [List.append_nil] at hcalls
      exact ih (hcalls ▸ pressAll_remember h action) hkeeps
    · rw [heq] at hkeeps ⊢
      exact broken_remembered h hcalls hleft (hkeeps rfl)

/-- Through a closed session nothing is pressed. -/
theorem applyAll_closed (held : Finset Held) (answers : List Bool)
    (actions : List PortalInputAction) :
    (applyAll false ∅ held answers actions).pressed = ∅ := by
  induction actions generalizing held answers with
  | nil => rfl
  | cons action actions ih =>
    obtain ⟨done, left, -, hdone, ⟨_, heq⟩ | ⟨_, heq⟩⟩ :=
      applyAll_cons false ∅ held answers action actions
    · rw [heq, hdone rfl]
      exact ih _ _
    · rw [heq, hdone rfl]
      rfl

/-! ### The queue -/

/-- The input that waits. -/
def queued : List DesktopPortalCommand → List PortalInputAction
  | [] => []
  | .input actions :: queue => actions ++ queued queue
  | .switchScreen :: queue | .stop _ :: queue => queued queue

theorem queued_append (first rest : List DesktopPortalCommand) :
    queued (first ++ rest) = queued first ++ queued rest := by
  induction first with
  | nil => rfl
  | cons command first ih =>
    cases command with
    | input actions => simp [queued, ih]
    | switchScreen => exact ih
    | stop reason => exact ih

/-- What is taken and what is left is what waited. -/
theorem queued_drain (more : Nat) (queue : List DesktopPortalCommand) :
    (drain more queue).actions ++ queued (drain more queue).queue = queued queue := by
  induction more generalizing queue with
  | zero => rfl
  | succ more ih =>
    cases queue with
    | nil => rfl
    | cons command queue =>
      cases command with
      | input actions =>
        have hrest := ih queue
        simp only [drain, queued, List.append_assoc, hrest]
      | switchScreen => exact ih queue
      | stop reason => rfl

namespace Share

variable {letGo : Held → Bool} {s : Share} {actions : List PortalInputAction}
variable {queue : List DesktopPortalCommand} {answers : List Bool} {more : Nat}

/-- What will be pressed once the queue is worked off. -/
def due (s : Share) : Finset Held := heldAfter s.pressed (queued s.queue)

/-- What a turn takes with its first packet. -/
def taken (s : Share) (actions : List PortalInputAction) (more : Nat) : List PortalInputAction :=
  actions ++ (drain more s.queue.tail).actions

/-- The turn loses no release: what a failing call leaves pressed, the rest of its action and
the actions behind it would not have let go of, and what is let go of afterwards is. -/
structure LetsTurn (s : Share) (actions : List PortalInputAction) (more : Nat)
    (answers : List Bool) (letGo : Held → Bool) : Prop where
  broken : (s.batch (s.taken actions more) answers).pressed
    ⊆ pressAll (s.batch (s.taken actions more) answers).pressed
      (s.batch (s.taken actions more) answers).broken
  skipped : (s.batch (s.taken actions more) answers).pressed
    ⊆ heldAfter (pressAll (s.batch (s.taken actions more) answers).pressed
      (s.batch (s.taken actions more) answers).broken)
        (s.batch (s.taken actions more) answers).skipped
  letsGo : s.controlling = false ∨ (drain more s.queue.tail).stopped = true →
    ∀ key ∈ (s.batch (s.taken actions more) answers).pressed, letGo key = true

/-- The step loses no release. -/
def Lets (s : Share) : ShareStep → Prop
  | .dispatch actions allowed =>
    -- A packet that is dropped would have let go of nothing.
    s.running = true → ¬(allowed = true ∧ s.queue.length < portalQueue) →
      s.due ⊆ heldAfter s.due actions
  | .turn more answers letGo =>
    match s.queue with
    | .input actions :: _ => s.LetsTurn actions more answers letGo
    | .stop _ :: _ => ∀ key ∈ s.pressed, letGo key = true
    | .switchScreen :: _ | [] => True
  | .timeout letGo => s.controlling = false → ∀ key ∈ s.pressed, letGo key = true
  | .leave letGo => ∀ key ∈ s.pressed, letGo key = true
  | .switchScreen | .stop _ | .lease _ | .close => True

instance (s : Share) (actions : List PortalInputAction) (more : Nat) (answers : List Bool)
    (letGo : Held → Bool) : Decidable (s.LetsTurn actions more answers letGo) :=
  decidable_of_iff (_ ∧ _ ∧ _) ⟨fun h => ⟨h.1, h.2.1, h.2.2⟩, fun h => ⟨h.1, h.2, h.3⟩⟩

instance (s : Share) : (shareStep : ShareStep) → Decidable (s.Lets shareStep)
  | .dispatch actions allowed =>
    inferInstanceAs (Decidable (s.running = true →
      ¬(allowed = true ∧ s.queue.length < portalQueue) → s.due ⊆ heldAfter s.due actions))
  | .turn more answers letGo =>
    match h : s.queue with
    | .input actions :: _ =>
      decidable_of_iff (s.LetsTurn actions more answers letGo) (by simp only [Lets, h])
    | .stop _ :: _ =>
      decidable_of_iff (∀ key ∈ s.pressed, letGo key = true) (by simp only [Lets, h])
    | .switchScreen :: _ => .isTrue (by simp only [Lets, h])
    | [] => .isTrue (by simp only [Lets, h])
  | .timeout letGo =>
    inferInstanceAs (Decidable (s.controlling = false → ∀ key ∈ s.pressed, letGo key = true))
  | .leave letGo => inferInstanceAs (Decidable (∀ key ∈ s.pressed, letGo key = true))
  | .switchScreen | .stop _ | .lease _ | .close => .isTrue trivial

/-! ### The invariant -/

structure Sound (s : Share) : Prop where
  /-- The worker knows of everything that is pressed. -/
  held : s.pressed ⊆ s.held
  closed : s.isOpen = false → s.pressed = ∅
  ended : s.running = false → s.pressed = ∅ ∧ s.queue = []
  /-- What will be pressed is what the phone has not let go of. -/
  due : s.due ⊆ s.sent

/-- Letting go of what is held leaves nothing pressed. -/
theorem release_pressed (h : s.pressed ⊆ s.held) (hlets : ∀ key ∈ s.pressed, letGo key = true) :
    (s.release letGo).pressed = ∅ := by
  refine Finset.filter_eq_empty_iff.mpr ?_
  intro key hkey
  rw [not_not]
  exact ⟨h hkey, hlets key hkey⟩

theorem releaseIdle_pressed (h : s.pressed ⊆ s.held) (hcontrolling : s.controlling = false)
    (hlets : ∀ key ∈ s.pressed, letGo key = true) : (s.releaseIdle letGo).pressed = ∅ := by
  unfold releaseIdle
  split
  · exact release_pressed h hlets
  · rename_i hnot
    rw [not_and_or, Finset.not_nonempty_iff_eq_empty] at hnot
    rcases hnot with hnone | hcontrols
    · exact Finset.subset_empty.mp (hnone ▸ h)
    · exact absurd hcontrolling hcontrols

/-- Looking at held input presses nothing, and forgets nothing that stays pressed. -/
theorem releaseIdle_sound (hs : s.Sound) (hrunning : s.running = true)
    (hlets : s.controlling = false → ∀ key ∈ s.pressed, letGo key = true) :
    (s.releaseIdle letGo).Sound := by
  by_cases hidle : s.held.Nonempty ∧ s.controlling = false
  · have hnone : (s.release letGo).pressed = ∅ := release_pressed hs.held (hlets hidle.2)
    have heq : s.releaseIdle letGo = s.release letGo := if_pos hidle
    rw [heq]
    refine ⟨?_, fun _ => hnone, ?_, ?_⟩
    · rw [hnone]
      exact Finset.empty_subset _
    · intro hended
      exact absurd (hrunning.symm.trans hended) Bool.noConfusion
    · refine subset_trans ?_ hs.due
      show heldAfter (s.release letGo).pressed _ ⊆ _
      rw [hnone]
      exact heldAfter_mono (Finset.empty_subset _) _
  · have heq : s.releaseIdle letGo = s := if_neg hidle
    rw [heq]
    exact hs

theorem finish_sound {s : Share} (h : s.pressed ⊆ s.held) {letGo : Held → Bool}
    (hlets : ∀ key ∈ s.pressed, letGo key = true) : (s.finish letGo).Sound := by
  have hnone : (s.finish letGo).pressed = ∅ := release_pressed h hlets
  refine ⟨?_, fun _ => hnone, fun _ => ⟨hnone, rfl⟩, ?_⟩
  · rw [hnone]
    exact Finset.empty_subset _
  · show heldAfter (s.finish letGo).pressed [] ⊆ _
    rw [hnone]
    exact Finset.empty_subset _

/-! ### Steps -/

theorem dispatch_sound (hs : s.Sound) {allowed : Bool}
    (hlets : s.Lets (.dispatch actions allowed)) : (s.dispatch actions allowed).Sound := by
  unfold dispatch
  split
  · rename_i hrunning
    refine ⟨hs.held, hs.closed, fun hended => absurd hended (by simp [hrunning]), ?_⟩
    by_cases hroom : allowed = true ∧ s.queue.length < portalQueue
    · show heldAfter s.pressed (queued (if _ then _ else _)) ⊆ heldAfter s.sent actions
      rw [if_pos hroom, queued_append, heldAfter_append]
      have hlast : queued [DesktopPortalCommand.input actions] = actions := List.append_nil _
      rw [hlast]
      exact heldAfter_mono hs.due actions
    · show heldAfter s.pressed (queued (if _ then _ else _)) ⊆ heldAfter s.sent actions
      rw [if_neg hroom]
      exact (hlets hrunning hroom).trans (heldAfter_mono hs.due actions)
  · exact hs

/-- A command that is no input changes nothing that is due. -/
theorem post_sound (hs : s.Sound) {command : DesktopPortalCommand}
    (hcommand : queued [command] = []) : (s.post command).Sound := by
  refine ⟨hs.held, hs.closed, fun hended => ⟨(hs.ended hended).1, ?_⟩, ?_⟩
  · have hended' : s.running = false := hended
    show (if _ then _ else _) = _
    rw [if_neg (fun h => Bool.noConfusion (h.1.symm.trans hended'))]
    exact (hs.ended hended').2
  · show heldAfter s.pressed (queued (if _ then _ else _)) ⊆ s.sent
    split
    · rw [queued_append, hcommand, List.append_nil]
      exact hs.due
    · exact hs.due

/-- The input of a turn and what is left of the queue. -/
theorem due_taken (hqueue : s.queue = .input actions :: queue) (more : Nat) :
    s.due = heldAfter (heldAfter s.pressed (s.taken actions more))
      (queued (drain more s.queue.tail).queue) := by
  rw [due, taken, ← heldAfter_append, hqueue, List.tail_cons, List.append_assoc, queued_drain,
    queued]

/-- The batch of a turn, applied. -/
theorem applied_sound (hs : s.Sound) (hrunning : s.running = true)
    (hqueue : s.queue = .input actions :: queue) (hlets : s.LetsTurn actions more answers letGo) :
    ({ s with queue := (drain more s.queue.tail).queue }.applied (s.taken actions more)
      answers).Sound := by
  refine ⟨applyAll_held hs.held (fun _ => hlets.broken), ?_, ?_, ?_⟩
  · intro hclosed
    show (applyAll s.isOpen s.pressed s.held answers _).pressed = ∅
    rw [show s.isOpen = false from hclosed, hs.closed hclosed]
    exact applyAll_closed _ _ _
  · intro hended
    exact absurd (hrunning.symm.trans hended) Bool.noConfusion
  · refine subset_trans ?_ hs.due
    rw [due_taken hqueue more]
    refine heldAfter_mono (hlets.skipped.trans ?_) _
    unfold batch
    rw [applyAll_whole, heldAfter_coalesceMotion]

theorem releaseIdle_controlling (s : Share) (letGo : Held → Bool) :
    (s.releaseIdle letGo).controlling = s.controlling := by
  unfold releaseIdle
  split <;> rfl

theorem releaseIdle_subset (s : Share) (letGo : Held → Bool) :
    (s.releaseIdle letGo).pressed ⊆ s.pressed := by
  unfold releaseIdle
  split
  · exact Finset.filter_subset _ _
  · exact subset_rfl

/-- The step looks at what is held: it takes input, or nothing came. -/
def Looks (s : Share) : ShareStep → Prop
  | .turn .. => ∃ actions queue, s.queue = .input actions :: queue
  | .timeout _ => True
  | .dispatch .. | .switchScreen | .stop _ | .lease _ | .close | .leave _ => False

/-- The share after the batch of a turn. -/
def worked (s : Share) (actions : List PortalInputAction) (more : Nat) (answers : List Bool) :
    Share :=
  { s with queue := (drain more s.queue.tail).queue }.applied (s.taken actions more) answers

/-- How a turn that takes input ends: the session is closed, a stop was taken, or neither. -/
theorem serve_cases (s : Share) (actions : List PortalInputAction) (more : Nat)
    (answers : List Bool) (letGo : Held → Bool) :
    (s.isOpen = false ∧ s.serve actions more answers letGo
        = (s.worked actions more answers).finish letGo) ∨
      ((drain more s.queue.tail).stopped = true ∧ s.serve actions more answers letGo
        = ((s.worked actions more answers).releaseIdle letGo).finish letGo) ∨
      s.serve actions more answers letGo = (s.worked actions more answers).releaseIdle letGo := by
  by_cases hclosed : (s.batch (s.taken actions more) answers).failed = true ∧ s.isOpen = false
  · exact .inl ⟨hclosed.2, if_pos hclosed⟩
  · have hserve : s.serve actions more answers letGo =
        if (drain more s.queue.tail).stopped = true then
          ((s.worked actions more answers).releaseIdle letGo).finish letGo
        else (s.worked actions more answers).releaseIdle letGo := if_neg hclosed
    by_cases hstopped : (drain more s.queue.tail).stopped = true
    · exact .inr (.inl ⟨hstopped, hserve.trans (if_pos hstopped)⟩)
    · exact .inr (.inr (hserve.trans (if_neg hstopped)))

theorem serve_controlling (s : Share) (actions : List PortalInputAction) (more : Nat)
    (answers : List Bool) (letGo : Held → Bool) :
    (s.serve actions more answers letGo).controlling = s.controlling := by
  rcases serve_cases s actions more answers letGo with ⟨_, heq⟩ | ⟨_, heq⟩ | heq
  · rw [heq]
    rfl
  · rw [heq]
    exact releaseIdle_controlling _ _
  · rw [heq]
    exact releaseIdle_controlling _ _

theorem serve_sound (hs : s.Sound) (hrunning : s.running = true)
    (hqueue : s.queue = .input actions :: queue) (hlets : s.Lets (.turn more answers letGo)) :
    (s.serve actions more answers letGo).Sound ∧
      (s.controlling = false → (s.serve actions more answers letGo).pressed = ∅) := by
  have hturn : s.LetsTurn actions more answers letGo := by
    simp only [Lets, hqueue] at hlets
    exact hlets
  have hgo := hturn.letsGo
  have hworked : (s.worked actions more answers).Sound :=
    applied_sound hs hrunning hqueue hturn
  rcases serve_cases s actions more answers letGo with
    ⟨hclosed, heq⟩ | ⟨hstopped, heq⟩ | heq
  · rw [heq]
    have hnone : (s.worked actions more answers).pressed = ∅ := hworked.closed hclosed
    have hfinished := @finish_sound _ hworked.held letGo (by
      rw [hnone]
      exact nofun)
    exact ⟨hfinished, fun _ => (hfinished.ended rfl).1⟩
  · rw [heq]
    have hidle := releaseIdle_sound hworked hrunning (fun _ => hgo (.inr hstopped))
    have hfinished := finish_sound hidle.held
      (fun key hkey => hgo (.inr hstopped) key (releaseIdle_subset _ _ hkey))
    exact ⟨hfinished, fun _ => (hfinished.ended rfl).1⟩
  · rw [heq]
    exact ⟨releaseIdle_sound hworked hrunning (fun hcontrolling => hgo (.inl hcontrolling)),
      fun hcontrolling => releaseIdle_pressed hworked.held hcontrolling (hgo (.inl hcontrolling))⟩

/-- Every step that loses no release keeps the invariant, and one that looks at what is held
leaves nothing pressed of a phone that does not control. -/
theorem step_sound {s' : Share} {shareStep : ShareStep} (hs : s.Sound) (hlets : s.Lets shareStep)
    (hstep : s.step shareStep = some s') :
    s'.Sound ∧ (s.Looks shareStep → s'.controlling = false → s'.pressed = ∅) := by
  cases shareStep with
  | dispatch actions allowed =>
    cases hstep
    exact ⟨dispatch_sound hs hlets, nofun⟩
  | switchScreen | stop =>
    cases hstep
    exact ⟨post_sound hs rfl, nofun⟩
  | lease controlling =>
    cases hstep
    exact ⟨⟨hs.held, hs.closed, hs.ended, hs.due⟩, nofun⟩
  | close =>
    cases hstep
    refine ⟨⟨Finset.empty_subset _, fun _ => rfl, fun hended => ⟨rfl, (hs.ended hended).2⟩, ?_⟩,
      nofun⟩
    exact (heldAfter_mono (Finset.empty_subset _) _).trans hs.due
  | turn more answers letGo =>
    simp only [step] at hstep
    split at hstep
    · rename_i actions queue hrunning hqueue
      cases hstep
      obtain ⟨hsound, hnone⟩ := serve_sound hs hrunning hqueue hlets
      refine ⟨hsound, fun _ hcontrolling => hnone ?_⟩
      rw [serve_controlling] at hcontrolling
      exact hcontrolling
    · rename_i queue hrunning hqueue
      cases hstep
      refine ⟨⟨hs.held, hs.closed, ?_, ?_⟩, ?_⟩
      · intro hended
        exact absurd (hrunning.symm.trans hended) Bool.noConfusion
      · have hdue := hs.due
        rw [due, hqueue] at hdue
        exact hdue
      · rintro ⟨actions, rest, hlooks⟩
        rw [hqueue] at hlooks
        cases hlooks
    · rename_i reason queue hrunning hqueue
      cases hstep
      simp only [Lets, hqueue] at hlets
      have hfinished : ({ s with queue }.finish letGo).Sound := finish_sound hs.held hlets
      exact ⟨hfinished, fun _ _ => (hfinished.ended rfl).1⟩
    · cases hstep
  | timeout letGo =>
    simp only [step] at hstep
    split at hstep
    · rename_i hidle
      split at hstep
      · cases hstep
        refine ⟨releaseIdle_sound hs hidle.1 hlets, fun _ hcontrolling => ?_⟩
        rw [releaseIdle_controlling] at hcontrolling
        exact releaseIdle_pressed hs.held hcontrolling (hlets hcontrolling)
      · rename_i hclosed
        cases hstep
        have hnone : s.pressed = ∅ := hs.closed (by simpa using hclosed)
        have hfinished := @finish_sound _ hs.held letGo (by
          rw [hnone]
          exact nofun)
        exact ⟨hfinished, fun _ _ => (hfinished.ended rfl).1⟩
    · cases hstep
  | leave letGo =>
    simp only [step] at hstep
    split at hstep
    · cases hstep
      have hfinished := finish_sound hs.held hlets
      exact ⟨hfinished, nofun⟩
    · cases hstep

theorem sound_init : Sound {} where
  held := subset_rfl
  closed := fun _ => rfl
  ended := nofun
  due := subset_rfl

end Share

/-- In every run that loses no release: the worker knows of everything that is pressed; nothing
is pressed once the worker has ended, or after it looked at what is held of a phone that does not
control; and nothing is pressed, once the queue is empty, that the phone has let go of. -/
theorem nothing_stays_pressed {steps : List ShareStep} {s : Share}
    (hlets : StepsMeet Share.step Share.Lets {} steps)
    (hrun : runFrom Share.step {} steps = some s) :
    s.pressed ⊆ s.held ∧ (s.running = false → s.pressed = ∅) ∧
      (s.queue = [] → s.pressed ⊆ s.sent) ∧
      ∀ past last before, steps = past ++ [last] → runFrom Share.step {} past = some before →
        before.Looks last → s.controlling = false → s.pressed = ∅ := by
  have hrunSound : ∀ {steps : List ShareStep} {s : Share},
      StepsMeet Share.step Share.Lets {} steps → runFrom Share.step {} steps = some s → s.Sound :=
    Lib.runFrom_invariant_of_steps (fun _ _ _ h hmeets hstep => (Share.step_sound h hmeets hstep).1)
      Share.sound_init
  have hs := hrunSound hlets hrun
  refine ⟨hs.held, fun hended => (hs.ended hended).1, ?_, ?_⟩
  · intro hempty
    have hdue := hs.due
    rw [Share.due, hempty] at hdue
    exact hdue
  · rintro past last before rfl hbefore hlooks
    obtain ⟨hpast, hlast⟩ := hlets.of_append
    obtain ⟨s', hs', hrest⟩ := Lib.runFrom_append_eq_some.mp hrun
    rw [hbefore, Option.some.injEq] at hs'
    subst hs'
    obtain ⟨s', hstep, hend⟩ := Lib.runFrom_cons_eq_some.mp hrest
    cases hend
    exact (Share.step_sound (hrunSound hpast hbefore) (hlast before hbefore).1 hstep).2 hlooks

/-- The left button is held, moved and let go; the first move is lost to a failing call. -/
def dragged : List ShareStep :=
  [.lease true, .dispatch [.button 0x110 true] true, .turn 0 [] (fun _ => true),
    .dispatch [.relativeMotion 1 1] true, .turn 0 [false] (fun _ => true),
    .dispatch [.relativeMotion 2 1, .button 0x110 false] true, .lease false,
    .turn 5 [] (fun _ => true)]

/-- The button is up again when the run ends. -/
theorem nothing_stays_pressed_dragged : ∃ s, runFrom Share.step {} dragged = some s ∧
    s.pressed ⊆ s.held ∧ (s.running = false → s.pressed = ∅) ∧
      (s.queue = [] → s.pressed ⊆ s.sent) ∧
      ∀ past last before, dragged = past ++ [last] → runFrom Share.step {} past = some before →
        before.Looks last → s.controlling = false → s.pressed = ∅ := by
  have hlets : StepsMeet Share.step Share.Lets {} dragged := by decide +kernel
  obtain ⟨s, hrun⟩ := Option.isSome_iff_exists.mp
    (by decide +kernel : (runFrom Share.step {} dragged).isSome = true)
  exact ⟨s, hrun, nothing_stays_pressed hlets hrun⟩

/-- The release is dropped by the rate, and the button stays pressed. -/
example : (runFrom Share.step {}
    [.lease true, .dispatch [.button 0x110 true] true, .dispatch [.button 0x110 false] false,
      .turn 0 [] (fun _ => true)]).any
      (fun s => s.queue.isEmpty && decide ((false, 0x110) ∈ s.pressed \ s.sent)) = true := by
  decide +kernel

end DeskLink.Remote
