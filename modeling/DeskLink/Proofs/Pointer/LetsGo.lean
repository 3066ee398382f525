import DeskLink.Proofs.Pointer.Watch

/-!
# `DeskLink.Proofs.Pointer.LetsGo`: the pointer always comes back

`Supers` says that the state machine knows of a Super key that is down: of one pressed
before the phone accepted, from what it holds. A Super press that finds no room among
the held input is forgotten when the phone accepts, and the release of one Super key
forgets the other; `World.Careful` says that a call is none of these.

`glide_lets_go`: in every careful run all that is asked for is allowed, and Esc with a
Super key down ends the glide.
-/

set_option autoImplicit false

namespace DeskLink.Pointer

variable {watch : Watch} {glide : Glide} {now : Nat} {keys : Keys}
variable {captured : Captured} {world : World}

/-! ### The Super keys that are down -/

/-- The state machine knows of a Super key that is down. -/
def Supers (watch : Watch) (glide : Glide) : Prop :=
  glide.active.isSome = true → watch.superDown = true →
    glide.mods.metaKey = true ∧
      (glide.entering.isSome = true → glide.held.foldl metaStep false = true)

theorem see_supers (watch : Watch) (out : Out) :
    (watch.see out).leftSuper = watch.leftSuper ∧
      (watch.see out).rightSuper = watch.rightSuper := by
  unfold Watch.see
  split <;> exact ⟨rfl, rfl⟩

theorem seen_superDown (watch : Watch) (outs : List Out) :
    (Lib.applyAll Watch.see watch outs).superDown = watch.superDown := by
  induction outs generalizing watch with
  | nil => rfl
  | cons out outs ih =>
    rw [Lib.applyAll_cons, ih]
    unfold Watch.superDown
    rw [(see_supers watch out).1, (see_supers watch out).2]

theorem Supers.over (hover : glide.active = none) : Supers watch glide := by
  intro hactive
  rw [hover] at hactive
  cases hactive

theorem called_superDown (watch : Watch) (code : Nat) (pressed : Bool) :
    (watch.called (.input (.key code pressed) keys now)).superDown =
      ((if code = 125 then pressed else watch.leftSuper) ||
        if code = 126 then pressed else watch.rightSuper) := rfl

/-- An input that leaves a Super key down leaves the modifier held. -/
theorem metaStep_held {held : Bool} (hcareful : world.Careful (.input captured keys now))
    (hdown : (world.watch.called (.input captured keys now)).superDown = true)
    (hheld : world.watch.superDown = true → held = true) : metaStep held captured = true := by
  cases captured with
  | key code pressed =>
    rw [called_superDown] at hdown
    unfold metaStep
    dsimp only
    split
    · rename_i hsuper
      cases pressed with
      | true => rfl
      | false =>
        -- The other key is not down, so none is.
        obtain ⟨hright, hleft⟩ := hcareful
        obtain rfl | rfl := hsuper
        · simp [hright rfl] at hdown
        · simp [hleft rfl] at hdown
    · rename_i hother
      rw [if_neg (fun h => hother (.inl h)), if_neg (fun h => hother (.inr h))] at hdown
      exact hheld hdown
  | _ => exact hheld hdown

/-- Input that is held is remembered, unless there is no room; and then it is no Super
press. -/
theorem keep_held {kept : Glide} (hcareful : world.Careful (.input captured keys now))
    (hentering : world.glide.entering.isSome = true) (hkept : kept.held = world.glide.held)
    (hdown : (world.watch.called (.input captured keys now)).superDown = true)
    (hheld : world.watch.superDown = true → world.glide.held.foldl metaStep false = true) :
    (kept.keep captured).held.foldl metaStep false = true := by
  unfold Glide.keep
  split
  · show (kept.held ++ [captured]).foldl metaStep false = true
    rw [List.foldl_append, hkept]
    exact metaStep_held hcareful hdown hheld
  · rename_i hfull
    show kept.held.foldl metaStep false = true
    rw [hkept] at hfull ⊢
    refine hheld ?_
    cases captured with
    | key code pressed =>
      rw [called_superDown] at hdown
      by_cases hsuper : code = 125 ∨ code = 126
      · cases pressed with
        | true =>
          exact absurd (hcareful hsuper (Option.isSome_iff_ne_none.mp hentering)) hfull
        | false =>
          obtain ⟨hright, hleft⟩ := hcareful
          obtain rfl | rfl := hsuper
          · simp [hright rfl] at hdown
          · simp [hleft rfl] at hdown
      · rw [if_neg (fun h => hsuper (.inl h)), if_neg (fun h => hsuper (.inr h))] at hdown
        exact hdown
    | _ => exact hdown

theorem keep_frame (glide : Glide) (captured : Captured) :
    (glide.keep captured).mods = glide.mods := by
  unfold Glide.keep
  split <;> rfl

theorem hold_supers (h : Supers world.watch world.glide)
    (hactive : world.glide.active.isSome = true) (hentering : world.glide.entering.isSome = true)
    (hcareful : world.Careful (.input captured keys now)) :
    Supers (world.watch.called (.input captured keys now)) (world.glide.hold captured).1 := by
  have hmeta (hdown : world.watch.superDown = true) : world.glide.mods.metaKey = true :=
    (h hactive hdown).1
  have hheld (hdown : world.watch.superDown = true) :
      world.glide.held.foldl metaStep false = true := (h hactive hdown).2 hentering
  unfold Glide.hold
  split
  · rename_i code pressed
    dsimp only
    split
    · exact Supers.over (takeBack_over _).1
    · intro _ hdown
      refine ⟨?_, fun _ => keep_held hcareful hentering rfl hdown hheld⟩
      rw [keep_frame, update_metaKey]
      exact metaStep_held hcareful hdown hmeta
  · rename_i hkey
    intro _ hdown
    refine ⟨?_, fun _ => keep_held hcareful hentering rfl hdown hheld⟩
    rw [keep_frame]
    have hstep := metaStep_held hcareful hdown hmeta
    cases captured with
    | key code pressed => exact absurd rfl (hkey code pressed)
    | _ => exact hstep

theorem input_supers (h : Supers world.watch world.glide)
    (hcareful : world.Careful (.input captured keys now)) :
    Supers (world.watch.called (.input captured keys now))
      (world.glide.input captured keys now).1 := by
  cases hactive : world.glide.active with
  | none =>
    refine Supers.over ?_
    unfold Glide.input
    rw [if_pos (by rw [hactive]; rfl)]
    exact (early_frame world.glide captured now).1.trans hactive
  | some activation =>
    have hsome : world.glide.active.isSome = true := by rw [hactive]; rfl
    cases hentering : world.glide.entering with
    | some since =>
      have hhold := hold_supers h hsome (by rw [hentering]; rfl) hcareful
      unfold Glide.input
      rw [if_neg (by simp [hactive]), if_pos (by rw [hentering]; rfl)]
      exact hhold
    | none =>
      have hreplaying : Replaying world.glide.mods.metaKey world.glide :=
        ⟨hentering, .inr ⟨hsome, rfl⟩⟩
      have hafter := @input_replaying world.glide now keys _ hreplaying captured
      obtain hover | hon := hafter.on
      · exact Supers.over hover.1
      · intro _ hdown
        refine ⟨?_, fun hsome' => ?_⟩
        · rw [hon.2]
          exact metaStep_held hcareful hdown (fun hbefore => (h hsome hbefore).1)
        · rw [hafter.entering] at hsome'
          cases hsome'

theorem refused_over (glide : Glide) (now : Nat) (tellPhone : Bool) :
    (glide.refused now tellPhone).1.active = none := by
  unfold Glide.refused
  dsimp only
  split
  · rename_i hnone
    exact hnone
  · rfl

theorem tick_supers {seen : Watch} (h : Supers watch glide)
    (hdown : seen.superDown = watch.superDown) : Supers seen (glide.tick now).1 := by
  cases hentering : glide.entering with
  | some since =>
    unfold Glide.tick
    rw [hentering]
    dsimp only
    split
    · exact Supers.over (refused_over glide now true)
    · intro hactive hsuper
      exact h hactive (hdown.symm.trans hsuper)
  | none =>
    obtain ⟨hsame, hnone, hmods⟩ := @tick_frame glide now hentering
    intro hactive hsuper
    rw [hsame] at hactive
    rw [hmods, hnone]
    exact ⟨(h hactive (hdown.symm.trans hsuper)).1, by simp⟩

/-- What the phone accepts late it learns from what was held. -/
theorem accepted_supers {seen : Watch} (h : Supers watch glide) (htracks : Tracks watch glide)
    (hdown : seen.superDown = watch.superDown) :
    Supers seen (glide.accepted keys now).1 := by
  unfold Glide.accepted
  split
  · intro hactive hsuper
    exact h hactive (hdown.symm.trans hsuper)
  · rename_i hentering
    have hsome : glide.entering.isSome = true := by
      simpa [Option.isSome_iff_ne_none] using hentering
    have hactive := htracks.entering hsome
    have hfirst : Replaying false
        { glide with entering := none, told := false, mods := {}, held := [] } :=
      ⟨rfl, .inr ⟨hactive, rfl⟩⟩
    have hreplayed := @inputs_replaying _ now keys false hfirst glide.held
    obtain ⟨hsame, hsame', hmods⟩ := flushMotion_frame
      (({ glide with entering := none, told := false, mods := {}, held := [] } : Glide).inputs keys
        now glide.held).1 now
    intro hactive' hsuper
    obtain hover | hon := hreplayed.on
    · have hnone := hsame.trans hover.1
      rw [show (_ : Option Nat) = none from hnone] at hactive'
      cases hactive'
    · refine ⟨?_, fun hsome' => ?_⟩
      · show (Glide.flushMotion _ now).1.mods.metaKey = true
        rw [hmods, hon.2]
        exact (h hactive (hdown.symm.trans hsuper)).2 hsome
      · have hnone := hsame'.trans hreplayed.entering
        rw [show (_ : Option Nat) = none from hnone] at hsome'
        cases hsome'

theorem call_supers (h : Supers world.watch world.glide) (htracks : Tracks world.watch world.glide)
    {call : Call} (hcareful : world.Careful call) :
    Supers (world.watch.called call) (world.glide.call call).1 := by
  cases call with
  | activated activation cursor keys now =>
    intro _ hdown
    cases hdown
  | input captured keys now => exact input_supers h hcareful
  | tick now => exact tick_supers h rfl
  | accepted keys now => exact accepted_supers h htracks rfl
  | phoneReleased dx dy now =>
    refine Supers.over ?_
    show (Glide.phoneReleased _ dx dy now).1.active = none
    unfold Glide.phoneReleased
    dsimp only
    split
    · exact refused_over _ now false
    · split
      · rename_i hnone
        exact hnone
      · rfl
  | disallowed now =>
    refine Supers.over ?_
    show (Glide.disallowed _ now).1.active = none
    unfold Glide.disallowed
    split
    · exact refused_over _ now false
    · exact (takeBack_over _).1
  | takeBack => exact Supers.over (takeBack_over _).1
  | deactivated =>
    refine Supers.over ?_
    show (Glide.deactivated _).1.active = none
    unfold Glide.deactivated
    dsimp only
    split
    · rename_i hnone
      exact hnone
    · rfl

/-! ### Whole runs -/

/-- Esc with the Super modifier held ends the glide. -/
theorem escape_over (hactive : glide.active.isSome = true) (hmeta : glide.mods.metaKey = true) :
    (glide.input (.key keyEsc true) keys now).1.active = none := by
  have hupdate (mods : Mods) : mods.update keyEsc true = (mods, false) := rfl
  unfold Glide.input
  rw [if_neg (by simpa using Option.isSome_iff_ne_none.mp hactive)]
  split
  · unfold Glide.hold
    simp only [hupdate, hmeta]
    exact (takeBack_over _).1
  · obtain ⟨-, -, hmods⟩ := flushMotion_frame glide now
    dsimp only
    unfold Glide.act
    simp only [hupdate, hmods, hmeta]
    exact (takeBack_over _).1

structure World.Sound (world : World) : Prop where
  tracks : Tracks world.watch world.glide
  supers : Supers world.watch world.glide

theorem World.Sound.after (h : world.Sound) {call : Call} (htime : world.InTime call)
    (hcareful : world.Careful call) : (world.after call).Sound := by
  refine ⟨(call_follows h.tracks htime hcareful).tracks, ?_⟩
  intro hactive hdown
  rw [World.after, seen_superDown] at hdown
  exact call_supers h.supers h.tracks hcareful hactive hdown

theorem World.sound_new (barrier : Barrier) : World.Sound { glide := .new barrier } :=
  ⟨tracks_over rfl rfl rfl rfl rfl rfl rfl, Supers.over rfl⟩

theorem World.run_sound {barrier : Barrier} {calls : List Call}
    (hmeets : Lib.Alongside World.after (fun world call => world.InTime call ∧ world.Careful call)
      { glide := .new barrier } calls) : (World.run barrier calls).Sound :=
  hmeets.invariant (fun _ _ h hmeets => h.after hmeets.1 hmeets.2) (World.sound_new barrier)

/-- In every run in which time does not run back and each call is careful: everything a
call asks for is allowed, one thing after the other; and Esc, given while a glide is on
and a Super key pressed since its activation is down, ends the glide. -/
theorem glide_lets_go (barrier : Barrier) (calls : List Call)
    (hmeets : Lib.Alongside World.after (fun world call => world.InTime call ∧ world.Careful call)
      { glide := .new barrier } calls) :
    ∀ before call rest, calls = before ++ call :: rest →
      Lib.Alongside Watch.see Watch.Allows ((World.run barrier before).watch.called call)
          ((World.run barrier before).glide.call call).2 ∧
        ∀ keys now, call = .input (.key keyEsc true) keys now →
          (World.run barrier before).watch.gliding = true →
          (World.run barrier before).watch.superDown = true →
          (World.run barrier (before ++ [call])).watch.gliding = false := by
  intro before call rest hcalls
  subst hcalls
  rw [Lib.alongside_append] at hmeets
  obtain ⟨hbefore, ⟨htime, hcareful⟩, -⟩ := hmeets
  have hsound := World.run_sound hbefore
  have hfollows := call_follows hsound.tracks htime hcareful
  refine ⟨hfollows.fine, ?_⟩
  intro keys now hcall hgliding hdown
  subst hcall
  have hactive : (World.run barrier before).glide.active.isSome = true :=
    hsound.tracks.gliding.symm.trans hgliding
  have hover := @escape_over _ now keys hactive (hsound.supers hactive hdown).1
  have hlast : World.run barrier (before ++ [.input (.key keyEsc true) keys now]) =
      (World.run barrier before).after (.input (.key keyEsc true) keys now) := by
    unfold World.run
    rw [Lib.applyAll_append]
    rfl
  rw [hlast]
  exact hfollows.tracks.gliding.trans (congrArg Option.isSome hover)

def rightEdge : Barrier := { edge := .right, x1 := 100, y1 := 0, zone := ⟨0, 0, 100, 50⟩ }

/-- No key types anything. -/
def noKeys : Keys := fun _ _ => none

/-- The pointer crosses, and the phone accepts it. -/
def acceptedCalls : List Call :=
  [.activated 7 (100, 20) noKeys 1000, .accepted noKeys 1010]

/-- A Super key goes down, and then Esc. -/
theorem glide_lets_go_acceptedCalls :
    (World.run rightEdge (acceptedCalls ++ [Call.input (.key 125 true) noKeys 1020])).watch.gliding =
        true ∧
      (World.run rightEdge (acceptedCalls ++ [Call.input (.key 125 true) noKeys 1020] ++
        [Call.input (.key keyEsc true) noKeys 1030])).watch.gliding = false := by
  have hmeets : Lib.Alongside World.after
      (fun world call => world.InTime call ∧ world.Careful call) { glide := .new rightEdge }
      (acceptedCalls ++ [Call.input (.key 125 true) noKeys 1020] ++
        [Call.input (.key keyEsc true) noKeys 1030]) := by
    refine ⟨⟨Nat.zero_le _, trivial⟩, ⟨?_, trivial⟩, ⟨?_, ?_⟩, ⟨?_, ?_⟩, trivial⟩
    · show (1000 : Nat) ≤ 1010
      decide
    · show (1010 : Nat) ≤ 1020
      decide
    · exact fun _ hentering => absurd rfl hentering
    · show (1020 : Nat) ≤ 1030
      decide
    · exact fun _ hentering => absurd rfl hentering
  have hlets := glide_lets_go rightEdge _ hmeets
    (acceptedCalls ++ [Call.input (.key 125 true) noKeys 1020])
    (.input (.key keyEsc true) noKeys 1030) [] rfl
  exact ⟨by decide +kernel, hlets.2 noKeys 1030 rfl (by decide +kernel) (by decide +kernel)⟩

/-- Motion that waits when the phone hands the pointer back is sent after the glide. -/
def leftoverCalls : List Call :=
  acceptedCalls ++ [Call.input (.motion (some 5) (some 0)) noKeys 1020,
    .input (.motion (some 3) (some 0)) noKeys 1021, .phoneReleased 0 0 1022]

/-- Both Super keys go down, and one goes up. -/
def bothSupers : List Call :=
  acceptedCalls ++ [Call.input (.key 125 true) noKeys 1020, .input (.key 126 true) noKeys 1021,
    .input (.key 126 false) noKeys 1022]

/-- A Super key goes down when the held input is full, and then the phone accepts. -/
def fullHeld : List Call :=
  .activated 7 (100, 20) noKeys 1000 ::
    List.replicate heldMax (.input (.locked 0) noKeys 1001) ++
      [.input (.key 125 true) noKeys 1002, .accepted noKeys 1003]

/-- Motion streams after the glide, and Esc with a Super key down does not end one. -/
theorem glide_leaks :
    ((World.run rightEdge leftoverCalls).watch.gliding = false ∧
      ((World.run rightEdge leftoverCalls).glide.call (.tick 1030)).2 = [.send (.motion 3 0)]) ∧
    ((World.run rightEdge bothSupers).watch.superDown = true ∧
      (World.run rightEdge (bothSupers ++ [.input (.key keyEsc true) noKeys 1030])).watch.gliding =
        true) ∧
    ((World.run rightEdge fullHeld).watch.superDown = true ∧
      (World.run rightEdge (fullHeld ++ [.input (.key keyEsc true) noKeys 1030])).watch.gliding =
        true) := by
  decide +kernel

end DeskLink.Pointer
