import DeskLink.Pointer.Glide

/-!
# `DeskLink.Proofs.Pointer.Watch`: what may be asked for, and that nothing else is

`Watch` is what someone sees who reads the worker's calls and what the state machine
asks for: whether a glide is on and accepted, the latest activation, whether a held
button was let go, and which Super keys are down. `Watch.Allows` is what may be asked
for. `Tracks` says that the watch agrees with the state machine, and each function of
the state machine `Follows`: all that it asks for is allowed, and the watch agrees
after it. `call_follows` says so of every call.

Motion that waits when a glide ends is not cleared, so it goes out with a later `tick`.
`World.Careful` says that none does. Its other two parts are about the Super keys, and
`Proofs.Pointer.LetsGo` needs them.
-/

set_option autoImplicit false

namespace DeskLink.Pointer

/-! ### What is seen -/

/-- The packet is motion, a click, a scroll or a key. -/
def Packet.streams : Packet → Bool
  | .motion _ _ | .click _ | .scroll _ _ | .key _ _ _ _ _ => true
  | .enter _ _ _ _ | .takenBack => false

structure Watch where
  gliding : Bool := false
  /-- The phone accepted the glide that is on. -/
  accepted : Bool := false
  /-- The latest activation. -/
  activation : Option Nat := none
  /-- The last of the holds and releases sent is a hold. -/
  holding : Bool := false
  /-- The activations that the call in progress released. -/
  released : List Nat := []
  deactivating : Bool := false
  /-- The Super keys pressed since the latest activation and not released. -/
  leftSuper : Bool := false
  rightSuper : Bool := false
  clock : Nat := 0
deriving DecidableEq, Repr

namespace Watch

variable (watch : Watch)

def see : Out → Watch
  | .send (.click .singlehold) => { watch with holding := true }
  | .send (.click .singlerelease) => { watch with holding := false }
  | .release activation _ _ => { watch with released := watch.released ++ [activation] }
  | .gliding on => { watch with gliding := on, accepted := false }
  | _ => watch

/-- What may be asked for. Nothing streams but on a glide that the phone accepted.
Glides start and end in turn; one that ends has let the button go, and has released
the latest activation, and nothing else, in the same call. -/
def Allows : Out → Prop
  | .send packet => packet.streams = true → watch.gliding = true ∧ watch.accepted = true
  | .gliding on => on = !watch.gliding ∧ (on = false → watch.holding = false ∧
      (watch.deactivating = true ∨ watch.released = watch.activation.toList))
  | .release _ _ _ => watch.released = []
  | .clipboard | .refused => True

def superKey (code : Nat) (pressed : Bool) : Watch :=
  { watch with
    leftSuper := if code = 125 then pressed else watch.leftSuper
    rightSuper := if code = 126 then pressed else watch.rightSuper }

/-- A call is made. -/
def called (call : Call) : Watch :=
  let watch := { watch with released := [], deactivating := false }
  match call with
  | .activated activation _ _ now =>
    { watch with
      activation := some activation, leftSuper := false, rightSuper := false, clock := now }
  | .input captured _ now =>
    match captured with
    | .key code pressed => { watch.superKey code pressed with clock := now }
    | _ => { watch with clock := now }
  | .accepted _ now => { watch with accepted := watch.gliding, clock := now }
  | .tick now | .phoneReleased _ _ now | .disallowed now => { watch with clock := now }
  | .takeBack => watch
  | .deactivated => { watch with deactivating := true }

def superDown : Bool := watch.leftSuper || watch.rightSuper

end Watch

structure World where
  glide : Glide
  watch : Watch := {}

namespace World

variable (world : World)

def after (call : Call) : World :=
  { glide := (world.glide.call call).1
    watch := Lib.applyAll Watch.see (world.watch.called call) (world.glide.call call).2 }

def run (barrier : Barrier) (calls : List Call) : World :=
  Lib.applyAll after { glide := .new barrier } calls

/-- Time does not run back. -/
def InTime : Call → Prop
  | .activated _ _ _ now | .input _ _ now | .tick now | .accepted _ now | .phoneReleased _ _ now
  | .disallowed now => world.watch.clock ≤ now
  | .takeBack | .deactivated => True

/-- No tick finds motion of a glide that ended; while the phone has not accepted, no
Super press comes when the held input is full; and no Super key is released while the
other one is down. -/
def Careful : Call → Prop
  | .tick _ => world.glide.active = none → world.glide.motion = (0, 0)
  | .input (.key code true) _ _ => code = 125 ∨ code = 126 → world.glide.entering ≠ none →
      world.glide.held.length < heldMax
  | .input (.key code false) _ _ => (code = 125 → world.watch.rightSuper = false) ∧
      (code = 126 → world.watch.leftSuper = false)
  | _ => True

end World

/-! ### The watch follows the state machine -/

structure Tracks (watch : Watch) (glide : Glide) : Prop where
  gliding : watch.gliding = glide.active.isSome
  accepted : watch.accepted = (glide.active.isSome && glide.entering.isNone)
  holding : watch.holding = glide.leftDown
  left : glide.leftDown = true → glide.active.isSome = true ∧ glide.entering = none
  entering : glide.entering.isSome = true → glide.active.isSome = true
  activation : ∀ activation, glide.active = some activation → watch.activation = some activation
  released : glide.active.isSome = true → watch.released = []
  needed : glide.acceptNeeded = true
  backoff : glide.active.isSome = true → ∀ until', glide.backoffUntil = some until' →
    until' ≤ watch.clock

/-- All that is asked for is allowed, and the watch follows. -/
structure Follows (watch : Watch) (after : Glide × List Out) : Prop where
  fine : Lib.Alongside Watch.see Watch.Allows watch after.2
  tracks : Tracks (Lib.applyAll Watch.see watch after.2) after.1

variable {watch seen : Watch} {glide other : Glide} {now : Nat} {keys : Keys}

theorem Tracks.follows (h : Tracks watch glide) : Follows watch (glide, []) := ⟨trivial, h⟩

theorem Follows.andThen {first : Glide × List Out} {outs : List Out}
    (h : Follows watch first)
    (hnext : Follows (Lib.applyAll Watch.see watch first.2) (glide, outs)) :
    Follows watch (glide, first.2 ++ outs) := by
  constructor
  · rw [Lib.alongside_append]
    exact ⟨h.fine, hnext.fine⟩
  · rw [Lib.applyAll_append]
    exact hnext.tracks

/-- Something streams while the glide is on and accepted. -/
theorem Tracks.streams (h : Tracks watch glide) (hactive : glide.active.isSome = true)
    (hentering : glide.entering = none) : watch.gliding = true ∧ watch.accepted = true := by
  rw [h.gliding, h.accepted, hactive, hentering]
  exact ⟨rfl, rfl⟩

/-- The rest of the state machine is not seen. -/
theorem Tracks.frame (h : Tracks watch glide) (hactive : other.active = glide.active)
    (hentering : other.entering = glide.entering) (hleft : other.leftDown = glide.leftDown)
    (hneeded : other.acceptNeeded = glide.acceptNeeded)
    (hbackoff : other.backoffUntil = glide.backoffUntil) : Tracks watch other := by
  constructor
  · rw [hactive]; exact h.gliding
  · rw [hactive, hentering]; exact h.accepted
  · rw [hleft]; exact h.holding
  · rw [hactive, hentering, hleft]; exact h.left
  · rw [hactive, hentering]; exact h.entering
  · rw [hactive]; exact h.activation
  · rw [hactive]; exact h.released
  · rw [hneeded]; exact h.needed
  · rw [hactive, hbackoff]; exact h.backoff

theorem flushMotion_follows (h : Tracks watch glide)
    (hon : glide.motion = (0, 0) ∨ glide.active.isSome = true ∧ glide.entering = none) :
    Follows watch (glide.flushMotion now) := by
  unfold Glide.flushMotion
  dsimp only
  split
  · refine Tracks.follows ?_
    exact h.frame rfl rfl rfl rfl rfl
  · rename_i hmotion
    have hmotion : ¬ (glide.motion.1 = 0 ∧ glide.motion.2 = 0) := hmotion
    have hon := hon.resolve_left (fun hzero => hmotion (by rw [hzero]; exact ⟨rfl, rfl⟩))
    exact ⟨⟨fun _ => h.streams hon.1 hon.2, trivial⟩, h.frame rfl rfl rfl rfl rfl⟩

/-! ### The ways out -/

/-- No glide is on, and nothing is held. -/
theorem tracks_over (hgliding : watch.gliding = false) (haccepted : watch.accepted = false)
    (hholding : watch.holding = false) (hactive : glide.active = none)
    (hentering : glide.entering = none) (hleft : glide.leftDown = false)
    (hneeded : glide.acceptNeeded = true) : Tracks watch glide := by
  constructor <;> simp_all

/-- Once the button is let go, the packets of a way out may be sent. -/
theorem letGo_follows (h : Tracks watch glide) (hactive : glide.active.isSome = true)
    {outs : List Out} (hrest : ∀ seen : Watch, seen.gliding = true → seen.holding = false →
      seen.released = [] → seen.activation = watch.activation →
      seen.deactivating = watch.deactivating →
      Follows seen (other, outs)) :
    Follows watch (other, glide.letGo.2 ++ outs) := by
  unfold Glide.letGo
  cases hleft : glide.leftDown with
  | false =>
    exact hrest watch (h.gliding.trans hactive) (h.holding.trans hleft) (h.released hactive) rfl rfl
  | true =>
    have hrest := hrest { watch with holding := false } (h.gliding.trans hactive) rfl
      (h.released hactive) rfl rfl
    exact ⟨⟨fun _ => h.streams hactive (h.left hleft).2, hrest.fine⟩, hrest.tracks⟩

/-- Where no glide is on, none is entering and no button is held. -/
theorem Tracks.none_on (h : Tracks watch glide) (hnone : glide.active = none) :
    watch.gliding = false ∧ watch.accepted = false ∧ watch.holding = false ∧
      glide.entering = none ∧ glide.leftDown = false := by
  have hfree : glide.leftDown = false := by
    cases hdown : glide.leftDown with
    | false => rfl
    | true =>
      have hsome := (h.left hdown).1
      rw [hnone] at hsome
      cases hsome
  have hentering : glide.entering = none := by
    cases hentering : glide.entering with
    | none => rfl
    | some since =>
      have hsome := h.entering (by rw [hentering]; rfl)
      rw [hnone] at hsome
      cases hsome
  refine ⟨?_, ?_, h.holding.trans hfree, hentering, hfree⟩
  · rw [h.gliding, hnone]; rfl
  · rw [h.accepted, hnone]; rfl

theorem Tracks.idle (h : Tracks watch glide) (hnone : glide.active = none)
    (hactive : other.active = none) (hentering : other.entering = none)
    (hleft : other.leftDown = glide.leftDown) (hneeded : other.acceptNeeded = glide.acceptNeeded) :
    Follows watch (other, []) := by
  obtain ⟨hgliding, haccepted, hholding, -, hfree⟩ := h.none_on hnone
  exact Tracks.follows (tracks_over hgliding haccepted hholding hactive hentering
    (hleft.trans hfree) (hneeded.trans h.needed))

theorem takeBack_follows (h : Tracks watch glide) : Follows watch glide.takeBack := by
  unfold Glide.takeBack
  dsimp only
  split
  · rename_i hnone
    exact h.idle hnone hnone rfl rfl rfl
  · rename_i activation hactive
    have hlatest := h.activation activation hactive
    refine letGo_follows h (by rw [hactive]; rfl) ?_
    intro seen hgliding hholding hreleased hactivation _
    refine ⟨⟨by simp [Watch.Allows, Packet.streams], hreleased, ⟨?_, ?_⟩, trivial⟩, ?_⟩
    · simp [Watch.see, hgliding]
    · intro _
      exact ⟨hholding, .inr (by simp [Watch.see, hreleased, hactivation, hlatest])⟩
    · apply tracks_over
      all_goals first | rfl | exact hholding | exact h.needed

theorem deactivated_follows (h : Tracks watch glide) (hdeactivating : watch.deactivating = true) :
    Follows watch glide.deactivated := by
  unfold Glide.deactivated
  dsimp only
  split
  · rename_i hnone
    exact h.idle hnone hnone rfl rfl rfl
  · rename_i activation hactive
    refine letGo_follows h (by rw [show glide.active = some activation from hactive]; rfl) ?_
    intro seen hgliding hholding _ _ hdeactivating'
    refine ⟨⟨by simp [Watch.Allows, Packet.streams], ⟨?_, ?_⟩, trivial⟩, ?_⟩
    · simp [Watch.see, hgliding]
    · exact fun _ => ⟨hholding, .inl (hdeactivating'.trans hdeactivating)⟩
    · apply tracks_over
      all_goals first | rfl | exact hholding | exact h.needed

/-- A refusal comes before anything streamed, so no button is held. -/
theorem refused_follows (h : Tracks watch glide) (hentering : glide.entering.isSome = true)
    (tellPhone : Bool) : Follows watch (glide.refused now tellPhone) := by
  have hfree : glide.leftDown = false := by
    cases hdown : glide.leftDown with
    | false => rfl
    | true =>
      rw [(h.left hdown).2] at hentering
      cases hentering
  have hsome := h.entering hentering
  unfold Glide.refused
  dsimp only
  split
  · rename_i hnone
    rw [show glide.active = none from hnone] at hsome
    cases hsome
  · rename_i activation hactive
    have hlatest := h.activation activation hactive
    have hreleased := h.released hsome
    have hgliding := h.gliding.trans hsome
    have hholding := h.holding.trans hfree
    have hended : Follows watch
        ({ glide with
            active := none, pending := [], motion := (0, 0), entering := none, held := []
            backoffUntil := some (now + refusedBackoff), told := true },
          [.release activation (glide.barrier.inside glide.crossed.1 glide.crossed.2).1
            (glide.barrier.inside glide.crossed.1 glide.crossed.2).2, .gliding false]) := by
      refine ⟨⟨hreleased, ⟨?_, ?_⟩, trivial⟩, ?_⟩
      · simp [Watch.see, hgliding]
      · intro _
        exact ⟨hholding, .inr (by simp [Watch.see, hreleased, hlatest])⟩
      · apply tracks_over
        all_goals first | rfl | exact hholding | exact hfree | exact h.needed
    -- Before it the phone may be told, and after it the person.
    have htold : Follows watch (glide, if tellPhone then [.send .takenBack] else []) := by
      cases tellPhone with
      | false => exact h.follows
      | true => exact ⟨⟨by simp [Watch.Allows, Packet.streams], trivial⟩, h⟩
    have hsame : Lib.applyAll Watch.see watch (if tellPhone then [.send .takenBack] else []) =
        watch := by
      cases tellPhone <;> rfl
    have hboth := htold.andThen (by rw [hsame]; exact hended)
    refine hboth.andThen ?_
    cases glide.told with
    | true => exact hboth.tracks.follows
    | false => exact ⟨⟨trivial, trivial⟩, hboth.tracks⟩

theorem phoneReleased_follows (h : Tracks watch glide) (dx dy : Rat) :
    Follows watch (glide.phoneReleased dx dy now) := by
  unfold Glide.phoneReleased
  dsimp only
  split
  · rename_i hentering
    have hcleared : Tracks watch { glide with pending := [] } := h.frame rfl rfl rfl rfl rfl
    exact refused_follows hcleared hentering false
  · rename_i hentering
    split
    · rename_i hnone
      exact h.idle hnone hnone (by simpa using hentering) rfl rfl
    · rename_i activation hactive
      have hlatest := h.activation activation hactive
      refine letGo_follows h (by rw [show glide.active = some activation from hactive]; rfl) ?_
      intro seen hgliding hholding hreleased hactivation _
      refine ⟨⟨hreleased, ⟨?_, ?_⟩, trivial⟩, ?_⟩
      · simp [Watch.see, hgliding]
      · intro _
        exact ⟨hholding, .inr (by simp [Watch.see, hreleased, hactivation, hlatest])⟩
      · have hnone : glide.entering = none := by simpa using hentering
        apply tracks_over
        all_goals first | rfl | exact hholding | exact hnone | exact h.needed

theorem disallowed_follows (h : Tracks watch glide) : Follows watch (glide.disallowed now) := by
  unfold Glide.disallowed
  split
  · rename_i hentering
    exact refused_follows h hentering false
  · exact takeBack_follows h

theorem tick_follows (h : Tracks watch glide)
    (hmotion : glide.active = none → glide.motion = (0, 0)) :
    Follows watch (glide.tick now) := by
  unfold Glide.tick
  split
  · rename_i since hentering
    split
    · exact refused_follows h (by rw [hentering]; rfl) true
    · exact h.follows
  · rename_i hentering
    split
    · refine flushMotion_follows h ?_
      cases hactive : glide.active with
      | none => exact .inl (hmotion hactive)
      | some activation => exact .inr ⟨rfl, hentering⟩
    · exact h.follows

/-! ### Input -/

theorem early_tracks (h : Tracks watch glide) (captured : Captured) :
    Tracks watch (glide.early captured now) := by
  unfold Glide.early
  split
  · exact h
  · exact h
  · split
    · exact h.frame rfl rfl rfl rfl rfl
    · exact h.frame rfl rfl rfl rfl rfl

theorem keep_tracks (h : Tracks watch glide) (captured : Captured) :
    Tracks watch (glide.keep captured) := by
  unfold Glide.keep
  split
  · exact h.frame rfl rfl rfl rfl rfl
  · exact h.frame rfl rfl rfl rfl rfl

theorem hold_follows (h : Tracks watch glide) (captured : Captured) :
    Follows watch (glide.hold captured) := by
  unfold Glide.hold
  split
  · rename_i code pressed
    have hupdated : Tracks watch { glide with mods := (glide.mods.update code pressed).1 } :=
      h.frame rfl rfl rfl rfl rfl
    dsimp only
    split
    · exact takeBack_follows hupdated
    · exact (keep_tracks hupdated _).follows
  · exact (keep_tracks h captured).follows

/-- One packet streams. -/
theorem stream_follows (h : Tracks watch glide) (hactive : glide.active.isSome = true)
    (hentering : glide.entering = none) {packet : Packet}
    (hclick : ∀ click, packet = .click click → click ≠ .singlehold ∧ click ≠ .singlerelease) :
    Follows watch (glide, [.send packet]) := by
  refine ⟨⟨fun _ => h.streams hactive hentering, trivial⟩, ?_⟩
  have hsee : watch.see (.send packet) = watch := by
    cases packet with
    | click click =>
      obtain ⟨hhold, hrelease⟩ := hclick click rfl
      cases click <;> simp_all [Watch.see]
    | _ => rfl
  show Tracks (watch.see (.send packet)) glide
  rw [hsee]
  exact h

theorem clickOf_cases {code : Nat} {pressed : Bool} {click : Click}
    (hclick : Glide.clickOf code pressed = some click) :
    (code = btnLeft ∧ click = if pressed then .singlehold else .singlerelease) ∨
      (code ≠ btnLeft ∧ click ≠ .singlehold ∧ click ≠ .singlerelease) := by
  unfold Glide.clickOf at hclick
  split at hclick
  · rename_i hleft
    cases hclick
    exact .inl ⟨hleft, rfl⟩
  · rename_i hleft
    refine .inr ⟨hleft, ?_⟩
    repeat' split at hclick
    all_goals cases hclick <;> simp

/-- The left button goes down or up on the phone. -/
theorem left_follows (h : Tracks watch glide) (hactive : glide.active.isSome = true)
    (hentering : glide.entering = none) (pressed : Bool) :
    Follows watch ({ glide with leftDown := pressed },
      [.send (.click (if pressed then .singlehold else .singlerelease))]) := by
  refine ⟨⟨fun _ => h.streams hactive hentering, trivial⟩, ?_⟩
  have hsee : watch.see (.send (.click (if pressed then .singlehold else .singlerelease))) =
      { watch with holding := pressed } := by
    cases pressed <;> rfl
  show Tracks (watch.see (.send (.click (if pressed then .singlehold else .singlerelease)))) _
  rw [hsee]
  exact ⟨h.gliding, h.accepted, rfl, fun _ => ⟨hactive, hentering⟩, h.entering, h.activation,
    h.released, h.needed, h.backoff⟩

theorem keyPacket_ne_click {key : Key} {mods : Mods} {packet : Packet} {click : Click}
    (hpacket : keyPacket key mods = some packet) : packet ≠ .click click := by
  unfold keyPacket at hpacket
  obtain ⟨typed, -, rfl⟩ := Option.map_eq_some_iff.mp hpacket
  simp

theorem act_follows (h : Tracks watch glide) (hactive : glide.active.isSome = true)
    (hentering : glide.entering = none) (captured : Captured) :
    Follows watch (glide.act captured keys) := by
  unfold Glide.act
  split
  · rename_i code pressed
    split
    · exact h.follows
    · rename_i click hclick
      obtain ⟨rfl, rfl⟩ | ⟨hleft, hother⟩ := clickOf_cases hclick
      · rw [if_pos rfl]
        exact left_follows h hactive hentering pressed
      · rw [if_neg hleft]
        refine stream_follows h hactive hentering ?_
        intro other heq
        cases heq
        exact hother
  · exact stream_follows h hactive hentering (by simp)
  · exact stream_follows h hactive hentering (by simp)
  · refine Tracks.follows ?_
    exact h.frame rfl rfl rfl rfl rfl
  · rename_i code pressed
    have hupdated : Tracks watch { glide with mods := (glide.mods.update code pressed).1 } :=
      h.frame rfl rfl rfl rfl rfl
    dsimp only
    split
    · exact hupdated.follows
    · split
      · exact takeBack_follows hupdated
      · cases hpacket : ((keys code (glide.mods.update code pressed).1).bind
            (fun key => keyPacket key (glide.mods.update code pressed).1)) with
        | none => exact hupdated.follows
        | some packet =>
          obtain ⟨key, -, hkey⟩ := Option.bind_eq_some_iff.mp hpacket
          refine stream_follows hupdated hactive hentering ?_
          exact fun click heq => absurd heq (keyPacket_ne_click hkey)
  · exact h.follows

theorem flushMotion_frame (glide : Glide) (now : Nat) :
    (glide.flushMotion now).1.active = glide.active ∧
      (glide.flushMotion now).1.entering = glide.entering ∧
      (glide.flushMotion now).1.mods = glide.mods := by
  unfold Glide.flushMotion
  dsimp only
  split <;> exact ⟨rfl, rfl, rfl⟩

theorem input_follows (h : Tracks watch glide) (captured : Captured) :
    Follows watch (glide.input captured keys now) := by
  unfold Glide.input
  split
  · exact (early_tracks h captured).follows
  · rename_i hactive
    have hactive : glide.active ≠ none := by simpa using hactive
    have hsome : glide.active.isSome = true := Option.isSome_iff_ne_none.mpr hactive
    split
    · exact hold_follows h captured
    · rename_i hentering
      have hentering : glide.entering = none := by simpa using hentering
      split
      · dsimp only
        split
        · refine tick_follows (h.frame rfl rfl rfl rfl rfl) ?_
          exact fun hnone => absurd hnone hactive
        · exact tick_follows h (fun hnone => absurd hnone hactive)
      · have hflushed := @flushMotion_follows watch glide now h (.inr ⟨hsome, hentering⟩)
        obtain ⟨hsame, hsame', -⟩ := flushMotion_frame glide now
        refine hflushed.andThen ?_
        refine act_follows hflushed.tracks ?_ (hsame'.trans hentering) captured
        rw [hsame]
        exact hsome

theorem inputs_follows (h : Tracks watch glide) (captured : List Captured) :
    Follows watch (glide.inputs keys now captured) := by
  induction captured generalizing watch glide with
  | nil => exact h.follows
  | cons first rest ih =>
    have hfirst := @input_follows watch glide now keys h first
    exact hfirst.andThen (ih hfirst.tracks)

/-! ### The Super keys -/

/-- What an input makes of the Super modifier. -/
def metaStep (held : Bool) : Captured → Bool
  | .key code pressed => if code = 125 ∨ code = 126 then pressed else held
  | _ => held

theorem update_metaKey (mods : Mods) (code : Nat) (pressed : Bool) :
    (mods.update code pressed).1.metaKey = metaStep mods.metaKey (.key code pressed) := by
  unfold Mods.update metaStep
  dsimp only
  split_ifs <;> first | rfl | omega

theorem takeBack_over (glide : Glide) :
    glide.takeBack.1.active = none ∧ glide.takeBack.1.entering = none ∧
      glide.takeBack.1.motion = glide.motion := by
  unfold Glide.takeBack
  dsimp only
  split
  · rename_i hnone
    exact ⟨hnone, rfl, rfl⟩
  · exact ⟨rfl, rfl, rfl⟩

/-- While what was held goes out: the glide is on and the Super modifier is `held`, or
the glide is over and no motion waits. -/
structure Replaying (held : Bool) (glide : Glide) : Prop where
  entering : glide.entering = none
  on : (glide.active = none ∧ glide.motion = (0, 0)) ∨
    (glide.active.isSome = true ∧ glide.mods.metaKey = held)

theorem flushMotion_motion (glide : Glide) (now : Nat) :
    (glide.flushMotion now).1.motion = (0, 0) := by
  unfold Glide.flushMotion
  dsimp only
  split <;> rfl

theorem act_replaying {held : Bool} (hentering : glide.entering = none)
    (hactive : glide.active.isSome = true) (hmotion : glide.motion = (0, 0))
    (hmeta : glide.mods.metaKey = held) (captured : Captured) :
    Replaying (metaStep held captured) (glide.act captured keys).1 := by
  unfold Glide.act
  split
  · split
    · exact ⟨hentering, .inr ⟨hactive, hmeta⟩⟩
    · exact ⟨hentering, .inr ⟨hactive, hmeta⟩⟩
  · exact ⟨hentering, .inr ⟨hactive, hmeta⟩⟩
  · exact ⟨hentering, .inr ⟨hactive, hmeta⟩⟩
  · exact ⟨hentering, .inr ⟨hactive, hmeta⟩⟩
  · rename_i code pressed
    have hupdated : (glide.mods.update code pressed).1.metaKey = metaStep held (.key code pressed) := by
      rw [update_metaKey, hmeta]
    dsimp only
    split
    · exact ⟨hentering, .inr ⟨hactive, hupdated⟩⟩
    · split
      · obtain ⟨hover, hentering', hmotion'⟩ :=
          takeBack_over { glide with mods := (glide.mods.update code pressed).1 }
        exact ⟨hentering', .inl ⟨hover, hmotion'.trans hmotion⟩⟩
      · exact ⟨hentering, .inr ⟨hactive, hupdated⟩⟩
  · rename_i hbutton hscroll hdiscrete hlocked hkey
    have hstep : metaStep held captured = held := by
      cases captured with
      | key code pressed => exact absurd rfl (hkey code pressed)
      | _ => rfl
    rw [hstep]
    exact ⟨hentering, .inr ⟨hactive, hmeta⟩⟩

theorem early_frame (glide : Glide) (captured : Captured) (now : Nat) :
    (glide.early captured now).active = glide.active ∧
      (glide.early captured now).entering = glide.entering ∧
      (glide.early captured now).motion = glide.motion := by
  unfold Glide.early
  split
  · exact ⟨rfl, rfl, rfl⟩
  · exact ⟨rfl, rfl, rfl⟩
  · split <;> exact ⟨rfl, rfl, rfl⟩

theorem tick_frame (hentering : glide.entering = none) :
    (glide.tick now).1.active = glide.active ∧ (glide.tick now).1.entering = none ∧
      (glide.tick now).1.mods = glide.mods := by
  unfold Glide.tick
  rw [hentering]
  dsimp only
  split
  · obtain ⟨hactive, hsame, hmods⟩ := flushMotion_frame glide now
    exact ⟨hactive, hsame.trans hentering, hmods⟩
  · exact ⟨rfl, hentering, rfl⟩

theorem input_replaying {held : Bool} (h : Replaying held glide) (captured : Captured) :
    Replaying (metaStep held captured) (glide.input captured keys now).1 := by
  obtain ⟨hentering, hover | hon⟩ := h
  · -- The glide is over: the input waits for the next one.
    obtain ⟨hactive, hsame, hmotion⟩ := early_frame glide captured now
    unfold Glide.input
    rw [if_pos (by rw [hover.1]; rfl)]
    exact ⟨hsame.trans hentering, .inl ⟨hactive.trans hover.1, hmotion.trans hover.2⟩⟩
  · obtain ⟨hactive, hmeta⟩ := hon
    unfold Glide.input
    rw [if_neg (by simpa using Option.isSome_iff_ne_none.mp hactive),
      if_neg (by simp [hentering])]
    split
    · dsimp only
      split
      · obtain ⟨hsame, hsame', hmods⟩ := @tick_frame
          { glide with motion := (glide.motion.1 + _, glide.motion.2 + _) } now hentering
        exact ⟨hsame', .inr ⟨by rw [hsame]; exact hactive, by rw [hmods]; exact hmeta⟩⟩
      · obtain ⟨hsame, hsame', hmods⟩ := @tick_frame glide now hentering
        exact ⟨hsame', .inr ⟨by rw [hsame]; exact hactive, by rw [hmods]; exact hmeta⟩⟩
    · obtain ⟨hsame, hsame', hmods⟩ := flushMotion_frame glide now
      refine act_replaying (hsame'.trans hentering) ?_ (flushMotion_motion glide now) ?_ captured
      · rw [hsame]
        exact hactive
      · rw [hmods]
        exact hmeta

theorem inputs_replaying {held : Bool} (h : Replaying held glide) (captured : List Captured) :
    Replaying (captured.foldl metaStep held) (glide.inputs keys now captured).1 := by
  induction captured generalizing held glide with
  | nil => exact h
  | cons first rest ih => exact ih (input_replaying h first)

/-! ### The calls -/

/-- The phone accepts a glide that waits, and what was held goes out. -/
theorem accepted_follows (h : Tracks watch glide) :
    Follows { watch with accepted := watch.gliding } (glide.accepted keys now) := by
  unfold Glide.accepted
  split
  · rename_i hnone
    refine Tracks.follows ⟨h.gliding, ?_, h.holding, h.left, h.entering, h.activation, h.released,
      h.needed, h.backoff⟩
    rw [hnone, Bool.and_true]
    exact h.gliding
  · rename_i hentering
    have hactive := h.entering (by simpa [Option.isSome_iff_ne_none] using hentering)
    have hstart : Tracks { watch with accepted := watch.gliding }
        { glide with entering := none, told := false, mods := {}, held := [] } := by
      refine ⟨h.gliding, ?_, h.holding, fun hleft => ⟨hactive, rfl⟩, by simp, h.activation,
        h.released, h.needed, h.backoff⟩
      show watch.gliding = (glide.active.isSome && true)
      rw [Bool.and_true]
      exact h.gliding
    have hreplayed := @inputs_follows _ _ now keys hstart glide.held
    have hfirst : Replaying false
        { glide with entering := none, told := false, mods := {}, held := [] } :=
      ⟨rfl, .inr ⟨hactive, rfl⟩⟩
    have hover := @inputs_replaying _ now keys false hfirst glide.held
    refine hreplayed.andThen (flushMotion_follows hreplayed.tracks ?_)
    obtain hover' | hon := hover.on
    · exact .inl hover'.2
    · exact .inr ⟨hon.1, hover.entering⟩

/-- The state machine when a glide starts, or when one that is on is activated again. -/
def entered (glide : Glide) (activation : Nat) (cursor : Rat × Rat) (now : Nat) : Glide :=
  { glide with
    active := some activation, crossed := cursor, mods := {}, motion := (0, 0), held := []
    entering := if glide.acceptNeeded && (glide.active.isNone || glide.entering.isSome) then
      some now else none
    pending := [] }

/-- What is asked for first. -/
def opening (glide : Glide) (cursor : Rat × Rat) : List Out :=
  .send (glide.barrier.enterPacket cursor) ::
    if glide.active.isNone then [.gliding true, .clipboard] else []

theorem entered_tracks (h : Tracks watch glide) {activation : Nat} (cursor : Rat × Rat)
    (hgliding : seen.gliding = true) (haccepted : seen.accepted = watch.accepted)
    (hholding : seen.holding = watch.holding) (hactivation : seen.activation = some activation)
    (hreleased : seen.released = [])
    (hbackoff : ∀ until', glide.backoffUntil = some until' → until' ≤ seen.clock) :
    Tracks seen (entered glide activation cursor now) where
  gliding := hgliding
  accepted := by
    rw [haccepted, h.accepted]
    simp only [entered, h.needed]
    cases glide.active <;> cases glide.entering <;> rfl
  holding := hholding.trans h.holding
  left := by
    intro hleft
    obtain ⟨hactive, hentering⟩ := h.left hleft
    refine ⟨rfl, ?_⟩
    simp [entered, hentering, Option.isSome_iff_ne_none.mp hactive]
  entering := fun _ => rfl
  activation := by
    intro latest hlatest
    cases hlatest
    exact hactivation
  released := fun _ => hreleased
  needed := h.needed
  backoff := fun _ => hbackoff

/-- Gliding starts when none is on, and then waits for the phone. -/
theorem opening_follows (h : Tracks watch glide) {seen : Watch} {activation : Nat}
    (cursor : Rat × Rat) (hgliding : seen.gliding = watch.gliding)
    (haccepted : seen.accepted = watch.accepted) (hholding : seen.holding = watch.holding)
    (hactivation : seen.activation = some activation) (hreleased : seen.released = [])
    (hbackoff : ∀ until', glide.backoffUntil = some until' → until' ≤ seen.clock) :
    Follows seen (entered glide activation cursor now, opening glide cursor) := by
  have henter : (glide.barrier.enterPacket cursor).streams = false := by
    unfold Barrier.enterPacket
    dsimp only
    split <;> rfl
  have hsee : seen.see (.send (glide.barrier.enterPacket cursor)) = seen := by
    unfold Barrier.enterPacket
    dsimp only
    split <;> rfl
  have hallowed : seen.Allows (.send (glide.barrier.enterPacket cursor)) := by
    intro hstreams
    exact absurd (henter.symm.trans hstreams) (by simp)
  unfold opening
  cases hactive : glide.active with
  | none =>
    have hoff : watch.gliding = false := by rw [h.gliding, hactive]; rfl
    have haccepted' : watch.accepted = false := by rw [h.accepted, hactive]; rfl
    refine ⟨⟨hallowed, ?_⟩, ?_⟩
    · rw [hsee]
      exact ⟨⟨by rw [hgliding, hoff]; rfl, by simp⟩, trivial, trivial⟩
    · show Tracks (Lib.applyAll Watch.see (seen.see _) [.gliding true, .clipboard]) _
      rw [hsee]
      refine entered_tracks h cursor ?_ ?_ ?_ ?_ ?_ ?_
      · rfl
      · exact haccepted'.symm
      · exact hholding
      · exact hactivation
      · exact hreleased
      · exact hbackoff
  | some before =>
    have hon : watch.gliding = true := by rw [h.gliding, hactive]; rfl
    refine ⟨⟨hallowed, trivial⟩, ?_⟩
    show Tracks (seen.see _) _
    rw [hsee]
    exact entered_tracks h cursor (hgliding.trans hon) haccepted hholding hactivation hreleased
      hbackoff

theorem activated_follows (h : Tracks watch glide) {activation : Nat} {cursor : Rat × Rat}
    (hgliding : seen.gliding = watch.gliding) (haccepted : seen.accepted = watch.accepted)
    (hholding : seen.holding = watch.holding) (hactivation : seen.activation = some activation)
    (hreleased : seen.released = []) (hclock : watch.clock ≤ now) (hnow : seen.clock = now) :
    Follows seen (glide.activated activation cursor keys now) := by
  unfold Glide.activated
  split
  · rename_i hback
    -- A glide that is on started after the refusal, so none is on.
    obtain ⟨until', huntil, hlt⟩ := (Option.any_eq_true _ _).mp hback
    have hlt : now < until' := by simpa using hlt
    have hnone : glide.active = none := by
      by_contra hactive
      have hle := h.backoff (Option.isSome_iff_ne_none.mpr hactive) until' huntil
      omega
    obtain ⟨hoff, hoff', hfree, hentering, hleft⟩ := h.none_on hnone
    refine ⟨⟨hreleased, trivial⟩, tracks_over ?_ ?_ ?_ hnone hentering hleft h.needed⟩
    · exact hgliding.trans hoff
    · exact haccepted.trans hoff'
    · exact hholding.trans hfree
  · rename_i hback
    have hbackoff (until' : Nat) (huntil : glide.backoffUntil = some until') :
        until' ≤ seen.clock := by
      rw [huntil] at hback
      simp at hback
      omega
    have hopened := @opening_follows watch glide now h seen activation cursor hgliding haccepted
      hholding hactivation hreleased hbackoff
    have hinputs := @inputs_follows _ _ now keys hopened.tracks
      ((glide.pending.filter (fun early => now - early.1 ≤ pendingFresh)).map Prod.snd)
    exact hopened.andThen hinputs

/-- Another watch that saw the same of the glide. -/
theorem Tracks.rewatch (h : Tracks watch glide) (hgliding : seen.gliding = watch.gliding)
    (haccepted : seen.accepted = watch.accepted) (hholding : seen.holding = watch.holding)
    (hactivation : seen.activation = watch.activation) (hreleased : seen.released = [])
    (hclock : watch.clock ≤ seen.clock) : Tracks seen glide where
  gliding := hgliding.trans h.gliding
  accepted := haccepted.trans h.accepted
  holding := hholding.trans h.holding
  left := h.left
  entering := h.entering
  activation := fun activation hactive => hactivation.trans (h.activation activation hactive)
  released := fun _ => hreleased
  needed := h.needed
  backoff := fun hactive until' huntil => Nat.le_trans (h.backoff hactive until' huntil) hclock

/-- All that a call asks for is allowed. -/
theorem call_follows {world : World} (h : Tracks world.watch world.glide) {call : Call}
    (htime : world.InTime call) (hcareful : world.Careful call) :
    Follows (world.watch.called call) (world.glide.call call) := by
  cases call with
  | activated activation cursor keys now =>
    exact activated_follows h rfl rfl rfl rfl rfl htime rfl
  | input captured keys now =>
    refine input_follows ?_ captured
    cases captured with
    | key code pressed => exact h.rewatch rfl rfl rfl rfl rfl htime
    | _ => exact h.rewatch rfl rfl rfl rfl rfl htime
  | tick now =>
    refine tick_follows ?_ hcareful
    exact h.rewatch rfl rfl rfl rfl rfl htime
  | accepted keys now =>
    have hcalled : Tracks { world.watch with released := [], deactivating := false, clock := now }
        world.glide := h.rewatch rfl rfl rfl rfl rfl htime
    exact accepted_follows hcalled
  | phoneReleased dx dy now =>
    refine phoneReleased_follows ?_ dx dy
    exact h.rewatch rfl rfl rfl rfl rfl htime
  | disallowed now =>
    refine disallowed_follows ?_
    exact h.rewatch rfl rfl rfl rfl rfl htime
  | takeBack =>
    refine takeBack_follows ?_
    exact h.rewatch rfl rfl rfl rfl rfl (Nat.le_refl _)
  | deactivated =>
    refine deactivated_follows ?_ rfl
    exact h.rewatch rfl rfl rfl rfl rfl (Nat.le_refl _)

end DeskLink.Pointer
