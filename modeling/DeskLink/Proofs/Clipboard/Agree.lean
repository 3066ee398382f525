import DeskLink.Clipboard.Share

/-!
# `DeskLink.Proofs.Clipboard.Agree`: the clipboards agree, and nothing echoes

The poll takes a text that is what a phone placed last for the phone's. That is
wrong of a text that is copied here after another one was sent: it is not sent,
and the phone keeps the other one. `World.Fresh` is that no such copy is made.

`clipboards_agree`: in every run in which the clipboard behaves as
`World.Assumed` says and every copy is fresh, no poll sends a text that a phone
placed, and every poll that is late enough finds on the clipboard the text that
was last exchanged.
-/

set_option autoImplicit false

namespace DeskLink.Clipboard

variable {memory memory' : Memory} {text : String} {now : Nat}

/-! ### One poll -/

/-- What a poll that finds `text` does. -/
structure Polled (memory : Memory) (text : String) (now : Nat) (memory' : Memory)
    (sent : Option String) : Prop where
  last : memory'.last = memory.last
  remoteAt : memory'.remoteAt = memory.remoteAt
  examined : ∀ t seen, memory'.examined = some (t, seen) →
    t = text ∧ (memory.examined = some (t, seen) ∨ seen = now)
  silent : sent = none → memory'.sent = memory.sent ∧
    (text = "" ∨ memory.last = text ∨ memory.sent = some text ∨
      ∃ seen, memory'.examined = some (text, seen) ∧ superseded seen memory.remoteAt = true)
  speaks : ∀ t, sent = some t → t = text ∧ memory'.sent = some text ∧ text ≠ "" ∧
    memory.last ≠ text ∧
    ∃ seen, memory'.examined = some (text, seen) ∧ superseded seen memory.remoteAt = false

theorem forgetExamined_examined {t : String} {seen : Nat} :
    (memory.forgetExamined text).examined = some (t, seen) ↔
      t = text ∧ memory.examined = some (t, seen) := by
  show memory.examined.filter _ = some (t, seen) ↔ _
  rw [Option.filter_eq_some_iff, decide_eq_true_eq]
  exact and_comm

/-- The poll has examined the text, now or before. -/
theorem examine_examined (hmatches : ∀ t seen, memory.examined = some (t, seen) → t = text) :
    ∃ seen, (memory.examine text now).examined = some (text, seen) ∧
      (memory.examined = some (text, seen) ∨ seen = now) := by
  unfold Memory.examine
  cases hexamined : memory.examined with
  | some examined =>
    obtain ⟨t, seen⟩ := examined
    obtain rfl := hmatches t seen hexamined
    exact ⟨seen, hexamined, .inl rfl⟩
  | none =>
    refine ⟨now, ?_, .inr rfl⟩
    simp

theorem examine_frame :
    (memory.examine text now).last = memory.last ∧
      (memory.examine text now).sent = memory.sent ∧
      (memory.examine text now).remoteAt = memory.remoteAt := by
  unfold Memory.examine
  split
  · exact ⟨rfl, rfl, rfl⟩
  · dsimp only
    split <;> exact ⟨rfl, rfl, rfl⟩

/-- What a poll does, by what it finds. -/
theorem poll_polled (memory : Memory) (text : String) (now : Nat) :
    Polled memory text now (memory.poll text now).1 (memory.poll text now).2 := by
  unfold Memory.poll
  dsimp only
  generalize hlooked : ({ memory with current := some text } : Memory).forgetExamined text = looked
  have hexamined {t : String} {seen : Nat} : looked.examined = some (t, seen) ↔
      t = text ∧ memory.examined = some (t, seen) := by
    rw [← hlooked]
    exact forgetExamined_examined
  have hframe : looked.last = memory.last ∧ looked.sent = memory.sent ∧
      looked.remoteAt = memory.remoteAt := by
    rw [← hlooked]
    exact ⟨rfl, rfl, rfl⟩
  split
  · rename_i hempty
    exact ⟨hframe.1, hframe.2.2, fun t seen h => ⟨(hexamined.mp h).1, .inl (hexamined.mp h).2⟩,
      fun _ => ⟨hframe.2.1, .inl hempty⟩, (by simp)⟩
  · rename_i hempty
    split
    · rename_i hlast
      exact ⟨hframe.1, hframe.2.2, (by simp),
        fun _ => ⟨hframe.2.1, .inr (.inl (hframe.1.symm.trans hlast))⟩, (by simp)⟩
    · rename_i hlast
      obtain ⟨seen, hseen, hwhen⟩ := @examine_examined looked text now
        (fun t seen h => (hexamined.mp h).1)
      obtain ⟨hlast', hsent', hremote'⟩ := @examine_frame looked text now
      have hbefore : memory.examined = some (text, seen) ∨ seen = now :=
        hwhen.imp_left (fun h => (hexamined.mp h).2)
      have hall (t : String) (seen' : Nat)
          (h : (looked.examine text now).examined = some (t, seen')) :
          t = text ∧ (memory.examined = some (t, seen') ∨ seen' = now) := by
        rw [hseen] at h
        cases h
        exact ⟨rfl, hbefore⟩
      have hany : ((looked.examine text now).examined.any
          (fun seen => superseded seen.2 (looked.examine text now).remoteAt)) =
          superseded seen memory.remoteAt := by
        rw [hseen, Option.any_some, hremote', hframe.2.2]
      rw [hany]
      split
      · rename_i hsuperseded
        exact ⟨hlast'.trans hframe.1, hremote'.trans hframe.2.2, hall,
          fun _ => ⟨hsent'.trans hframe.2.1, .inr (.inr (.inr ⟨seen, hseen, hsuperseded⟩))⟩,
          (by simp)⟩
      · rename_i hnew
        split
        · rename_i hsent
          rw [hsent', hframe.2.1] at hsent
          exact ⟨hlast'.trans hframe.1, hremote'.trans hframe.2.2, hall,
            fun _ => ⟨hsent'.trans hframe.2.1, .inr (.inr (.inl hsent))⟩, (by simp)⟩
        · refine ⟨hlast'.trans hframe.1, hremote'.trans hframe.2.2, hall,
            fun h => (by cases h), fun t ht => ?_⟩
          cases ht
          exact ⟨rfl, rfl, hempty, fun h => hlast (hframe.1.trans h), seen, hseen,
            by simpa using hnew⟩

/-! ### A phone's packet -/

/-- A packet is placed, or nothing is remembered of it. -/
theorem clipboardFromPhoneAt_cases (packet : Packet) :
    memory.clipboardFromPhoneAt packet now =
        (memory.setClipboardTextFromRemote packet.content now, .placed) ∨
      (memory.clipboardFromPhoneAt packet now).2 ≠ .placed := by
  unfold Memory.clipboardFromPhoneAt
  dsimp only
  split
  · split
    · exact .inr (by simp)
    · split
      · exact .inr (by simp)
      · exact .inl rfl
  · split
    · exact .inr (by simp)
    · split
      · exact .inr (by simp)
      · exact .inl rfl

namespace World

/-! ### What is taken for granted, and the invariant -/

/-- How the clipboard and the clock behave. A phone's copy lands before `settleMs`
are over. What is copied here is no empty text, it is copied `settleMs` after the
latest packet, and every change before it was seen by a poll. -/
def Assumed (world : World) (event : Event × Nat) : Prop :=
  (0 < event.2 ∧ world.clock ≤ event.2) ∧
    (world.landing ≠ none → event.2 < world.memory.remoteAt + settleMs) ∧
    ∀ text, event.1 = .copy text → text ≠ "" ∧
      (world.packetAt = 0 ∨ world.packetAt + settleMs ≤ event.2) ∧
      (text ≠ world.clipboard → world.unseen = false)

/-- The text a phone placed last is not copied here after another one was sent. -/
def Fresh (world : World) (event : Event × Nat) : Prop :=
  ∀ text, event.1 = .copy text → text = world.memory.last → world.memory.sent = none

/-- A text seen at `seen` is none that a phone's copy replaced. -/
def Newer (world : World) (seen : Nat) : Prop :=
  world.memory.remoteAt = 0 ∨ world.memory.remoteAt + settleMs ≤ seen

structure Sound (world : World) : Prop where
  remote_le : world.memory.remoteAt ≤ world.packetAt
  packet_le : world.packetAt ≤ world.clock
  seen_le : ∀ t seen, world.memory.examined = some (t, seen) → seen ≤ world.clock
  landing : ∀ content, world.landing = some content →
    world.memory.last = content ∧ world.memory.sent = none ∧ world.memory.remoteAt ≠ 0
  -- What a phone placed is remembered as such.
  placed : world.landing = none → world.byPhone = true →
    world.clipboard = world.memory.last ∧ world.memory.sent = none ∧ world.memory.remoteAt ≠ 0
  sent : ∀ t, world.memory.sent = some t → world.exchanged = some t
  accepted : world.memory.sent = none →
    world.exchanged = if world.memory.remoteAt = 0 then none else some world.memory.last
  nothing : world.memory.remoteAt = 0 → world.memory.last = ""
  again : world.byPhone = false → world.clipboard = world.memory.last → world.clipboard ≠ "" →
    world.memory.sent = none
  -- What was copied here came after what a phone placed.
  copied : world.landing = none → world.byPhone = false → world.clipboard ≠ world.memory.last →
    world.clipboard ≠ "" → world.Newer world.clock ∧
      ∀ seen, world.memory.examined = some (world.clipboard, seen) → world.Newer seen
  empty : world.byPhone = false → world.clipboard = "" →
    world.memory.sent = none ∧ (world.landing = none → world.memory.remoteAt = 0)
  seen : world.unseen = false →
    ∀ t seen, world.memory.examined = some (t, seen) → t = world.clipboard

theorem sound_init : Sound {} where
  remote_le := Nat.le_refl _
  packet_le := Nat.le_refl _
  seen_le := by simp
  landing := by simp
  placed := by simp
  sent := by simp
  accepted := by simp
  nothing := by simp
  again := by simp
  copied := by simp
  empty := by simp
  seen := by simp

variable {world : World}

/-! ### Each event keeps the invariant -/

theorem Sound.wait (h : Sound world) (hclock : world.clock ≤ now) :
    Sound { world with clock := now } where
  remote_le := h.remote_le
  packet_le := Nat.le_trans h.packet_le hclock
  seen_le := fun t seen hseen => Nat.le_trans (h.seen_le t seen hseen) hclock
  landing := h.landing
  placed := h.placed
  sent := h.sent
  accepted := h.accepted
  nothing := h.nothing
  again := h.again
  copied := by
    intro hlanding hphone hlast hempty
    obtain ⟨hnewer, hseen⟩ := h.copied hlanding hphone hlast hempty
    exact ⟨hnewer.imp_right (fun hle => Nat.le_trans hle hclock), hseen⟩
  empty := h.empty
  seen := h.seen

/-- A clipboard that has not changed since the last poll holds what was examined. -/
theorem Sound.seen_setClipboard (h : Sound world)
    (hseen : (world.unseen || decide (text ≠ world.clipboard)) = false) (t : String) (seen : Nat)
    (hexamined : world.memory.examined = some (t, seen)) : t = text := by
  obtain ⟨hbefore, hsame⟩ := Bool.or_eq_false_iff.mp hseen
  have hsame : text = world.clipboard := by simpa using hsame
  exact (h.seen hbefore t seen hexamined).trans hsame.symm

/-- A copy is made here, and no phone's copy is on its way. -/
theorem Sound.copy (h : Sound world) (hempty : text ≠ "") (hlanding : world.landing = none)
    (hlate : world.Newer world.clock)
    (hunseen : text ≠ world.clipboard → world.unseen = false)
    (hfresh : text = world.memory.last → world.memory.sent = none) :
    Sound (world.setClipboard text false) where
  remote_le := h.remote_le
  packet_le := h.packet_le
  seen_le := h.seen_le
  landing := h.landing
  placed := by simp [setClipboard]
  sent := h.sent
  accepted := h.accepted
  nothing := h.nothing
  again := fun _ hlast _ => hfresh hlast
  copied := by
    intro _ _ hlast _
    refine ⟨hlate, ?_⟩
    intro seen hseen
    have hseen : world.memory.examined = some (text, seen) := hseen
    have hlast : text ≠ world.memory.last := hlast
    by_cases hsame : text = world.clipboard
    · -- The text was there, and a phone cannot have put it there.
      subst hsame
      cases hphone : world.byPhone with
      | true => exact absurd (h.placed hlanding hphone).1 hlast
      | false => exact (h.copied hlanding hphone hlast hempty).2 seen hseen
    · exact absurd (h.seen (hunseen hsame) text seen hseen) hsame
  empty := fun _ hnone => absurd hnone hempty
  seen := h.seen_setClipboard

theorem Sound.receive (h : Sound world) (hpos : 0 < world.clock) (packet : Packet) :
    Sound (world.receive packet world.clock) := by
  have hpacket := Nat.le_trans h.remote_le h.packet_le
  have hplaced := @clipboardFromPhoneAt_cases world.memory world.clock packet
  unfold World.receive
  dsimp only
  split
  · rename_i hisPlaced
    have hplaced := hplaced.resolve_right (fun hne => hne hisPlaced)
    rw [hplaced]
    have hremote : world.clock ≠ 0 := Nat.pos_iff_ne_zero.mp hpos
    exact
      { remote_le := Nat.le_refl _
        packet_le := Nat.le_refl _
        seen_le := h.seen_le
        landing := by
          intro content hcontent
          cases hcontent
          exact ⟨rfl, rfl, hremote⟩
        placed := by simp [accept]
        sent := by simp [accept, Memory.setClipboardTextFromRemote]
        accepted := by
          intro _
          show some packet.content = if world.clock = 0 then none else some packet.content
          rw [if_neg hremote]
        nothing := fun hzero => absurd hzero hremote
        again := fun _ _ _ => rfl
        copied := by simp [accept]
        empty := fun _ _ => ⟨rfl, by simp [accept]⟩
        seen := h.seen }
  · exact { h with remote_le := hpacket, packet_le := Nat.le_refl _ }

/-- The phone's copy lands. -/
theorem Sound.land {content : String} (h : Sound world) (hlanding : world.landing = some content) :
    Sound { world.setClipboard content true with landing := none } := by
  obtain ⟨hlast, hsent, hremote⟩ := h.landing content hlanding
  exact
    { remote_le := h.remote_le
      packet_le := h.packet_le
      seen_le := h.seen_le
      landing := by simp
      placed := fun _ _ => ⟨hlast.symm, hsent, hremote⟩
      sent := h.sent
      accepted := h.accepted
      nothing := h.nothing
      again := by simp [setClipboard]
      copied := by simp [setClipboard]
      empty := by simp [setClipboard]
      seen := h.seen_setClipboard }

theorem not_superseded {remoteMs seenMs : Nat} :
    superseded seenMs remoteMs = false ↔ remoteMs = 0 ∨ remoteMs + settleMs ≤ seenMs := by
  unfold superseded
  rw [Bool.and_eq_false_iff, decide_eq_false_iff_not, decide_eq_false_iff_not, not_not, Nat.not_lt]

/-- A text that the poll examined is newer than what the phone placed, or its copy
is on its way. -/
theorem Sound.examined_newer (h : Sound world) (hphone : world.byPhone = false)
    (hlanding : world.landing = none) (hempty : world.clipboard ≠ "")
    (hlast : world.memory.last ≠ world.clipboard) {seen : Nat}
    (hseen : world.memory.examined = some (world.clipboard, seen) ∨ seen = world.clock) :
    world.Newer seen := by
  obtain ⟨hnewer, hbefore⟩ := h.copied hlanding hphone (fun heq => hlast heq.symm) hempty
  cases hseen with
  | inl hseen => exact hbefore seen hseen
  | inr hnow => exact hnow ▸ hnewer

/-- What the poll of this moment does. -/
theorem polled (world : World) : Polled world.memory world.clipboard world.clock
    (world.memory.poll world.clipboard world.clock).1 (world.sends world.clock) :=
  poll_polled _ _ _

/-- Only what was copied here is sent, and only when no phone's copy is on its
way. -/
theorem Sound.sends_own (h : Sound world)
    (hsettles : world.landing ≠ none → world.clock < world.memory.remoteAt + settleMs)
    {sent : String} (hsends : world.sends world.clock = some sent) :
    world.landing = none ∧ world.byPhone = false := by
  obtain ⟨-, -, -, hlast, seen, hexamined, hnew⟩ := world.polled.speaks sent hsends
  have hseen : seen ≤ world.clock := by
    obtain ⟨-, hbefore | hnow⟩ := world.polled.examined _ seen hexamined
    · exact h.seen_le _ seen hbefore
    · exact Nat.le_of_eq hnow
  have hlanding : world.landing = none := by
    by_contra hsome
    obtain ⟨content, hcontent⟩ := Option.ne_none_iff_exists'.mp hsome
    have hremote := (h.landing content hcontent).2.2
    have hnewer := (not_superseded.mp hnew).resolve_left hremote
    have hearly := hsettles hsome
    omega
  refine ⟨hlanding, ?_⟩
  cases hphone : world.byPhone with
  | false => rfl
  | true => exact absurd (h.placed hlanding hphone).1.symm hlast

/-- The clipboard is looked at. -/
theorem Sound.look (h : Sound world)
    (hsettles : world.landing ≠ none → world.clock < world.memory.remoteAt + settleMs) :
    Sound (world.look world.clock) := by
  have hpolled := world.polled
  have hown := @Sound.sends_own world h hsettles
  unfold World.look
  generalize (world.memory.poll world.clipboard world.clock).1 = polled at hpolled ⊢
  generalize world.sends world.clock = sends at hpolled hown ⊢
  have hseen_le (t : String) (seen : Nat) (hseen : polled.examined = some (t, seen)) :
      seen ≤ world.clock := by
    obtain ⟨-, hbefore | hnow⟩ := hpolled.examined t seen hseen
    · exact h.seen_le t seen hbefore
    · exact Nat.le_of_eq hnow
  have hcopied : world.landing = none → world.byPhone = false → world.clipboard ≠ polled.last →
      world.clipboard ≠ "" → (polled.remoteAt = 0 ∨ polled.remoteAt + settleMs ≤ world.clock) ∧
        ∀ seen, polled.examined = some (world.clipboard, seen) →
          polled.remoteAt = 0 ∨ polled.remoteAt + settleMs ≤ seen := by
    rw [hpolled.last, hpolled.remoteAt]
    intro hlanding hphone hlast hempty
    refine ⟨(h.copied hlanding hphone hlast hempty).1, fun seen hseen => ?_⟩
    exact h.examined_newer hphone hlanding hempty (fun heq => hlast heq.symm)
      (hpolled.examined _ seen hseen).2
  cases sends with
  | none =>
    have hsent := (hpolled.silent rfl).1
    exact
      { remote_le := hpolled.remoteAt ▸ h.remote_le
        packet_le := h.packet_le
        seen_le := hseen_le
        landing := by
          show ∀ content, _ → polled.last = content ∧ polled.sent = none ∧ polled.remoteAt ≠ 0
          rw [hpolled.last, hpolled.remoteAt, hsent]
          exact h.landing
        placed := by
          show _ → _ → _ = polled.last ∧ polled.sent = none ∧ polled.remoteAt ≠ 0
          rw [hpolled.last, hpolled.remoteAt, hsent]
          exact h.placed
        sent := by
          show ∀ t, polled.sent = some t → _
          rw [hsent]
          exact h.sent
        accepted := by
          show polled.sent = none → _ = if polled.remoteAt = 0 then none else some polled.last
          rw [hpolled.last, hpolled.remoteAt, hsent]
          exact h.accepted
        nothing := by
          show polled.remoteAt = 0 → polled.last = ""
          rw [hpolled.last, hpolled.remoteAt]
          exact h.nothing
        again := by
          show _ → _ = polled.last → _ → polled.sent = none
          rw [hpolled.last, hsent]
          exact h.again
        copied := hcopied
        empty := by
          show _ → _ → polled.sent = none ∧ (_ → polled.remoteAt = 0)
          rw [hpolled.remoteAt, hsent]
          exact h.empty
        seen := fun _ t seen hseen => (hpolled.examined t seen hseen).1 }
  | some sent =>
    obtain ⟨hlanding, hphone⟩ := hown rfl
    obtain ⟨rfl, hsent, hempty, hlast, -⟩ := hpolled.speaks sent rfl
    exact
      { remote_le := hpolled.remoteAt ▸ h.remote_le
        packet_le := h.packet_le
        seen_le := hseen_le
        landing := fun content hcontent => absurd (hlanding.symm.trans hcontent) (by simp)
        placed := fun _ hbyPhone => absurd (hphone.symm.trans hbyPhone) (by simp)
        sent := fun t ht => (hsent.symm.trans ht)
        accepted := fun hnone => absurd (hsent.symm.trans hnone) (by simp)
        nothing := by
          show polled.remoteAt = 0 → polled.last = ""
          rw [hpolled.last, hpolled.remoteAt]
          exact h.nothing
        again := fun _ heq _ => absurd (hpolled.last.symm.trans heq.symm) hlast
        copied := hcopied
        empty := fun _ hnone => absurd hnone hempty
        seen := fun _ t seen hseen => (hpolled.examined t seen hseen).1 }

/-- A copy made here finds no phone's copy on its way. -/
theorem Sound.settled (h : Sound world)
    (hsettles : world.landing ≠ none → now < world.memory.remoteAt + settleMs)
    (hlate : world.packetAt = 0 ∨ world.packetAt + settleMs ≤ now) :
    world.landing = none ∧ world.Newer now := by
  have hremote := h.remote_le
  constructor
  · by_contra hsome
    obtain ⟨content, hcontent⟩ := Option.ne_none_iff_exists'.mp hsome
    have hpos := (h.landing content hcontent).2.2
    have hearly := hsettles hsome
    omega
  · show world.memory.remoteAt = 0 ∨ world.memory.remoteAt + settleMs ≤ now
    omega

theorem Sound.after (h : Sound world) {event : Event × Nat} (hassumed : world.Assumed event)
    (hfresh : world.Fresh event) : Sound (world.after event) := by
  obtain ⟨⟨hpos, hclock⟩, hsettles, hcopy⟩ := hassumed
  have hwait := h.wait hclock
  obtain ⟨event, now⟩ := event
  cases event with
  | copy text =>
    obtain ⟨hempty, hlate, hunseen⟩ := hcopy text rfl
    obtain ⟨hlanding, hnewer⟩ := h.settled hsettles hlate
    exact hwait.copy hempty hlanding hnewer hunseen (hfresh text rfl)
  | packet packet => exact hwait.receive hpos packet
  | land =>
    simp only [World.after]
    split
    · rename_i content hlanding
      exact hwait.land hlanding
    · exact hwait
  | poll => exact hwait.look hsettles

/-! ### Whole runs -/

/-- A poll made late enough leaves on the clipboard what was last exchanged. -/
theorem Sound.poll_agrees (h : Sound world)
    (hsettles : world.landing ≠ none → world.clock < world.memory.remoteAt + settleMs)
    (hlate : world.packetAt = 0 ∨ world.packetAt + settleMs ≤ world.clock) :
    (world.look world.clock).exchanged = some world.clipboard ∨
      (world.clipboard = "" ∧ (world.look world.clock).exchanged = none) := by
  obtain ⟨hlanding, hnewer⟩ := h.settled hsettles hlate
  have hpolled := world.polled
  show (world.sends world.clock).or world.exchanged = _ ∨ _ ∧
    (world.sends world.clock).or world.exchanged = _
  generalize world.sends world.clock = sends at hpolled ⊢
  cases sends with
  | some sent =>
    obtain ⟨rfl, -⟩ := hpolled.speaks sent rfl
    exact .inl rfl
  | none =>
    rw [Option.none_or]
    have haccepted (hsent : world.memory.sent = none) (hremote : world.memory.remoteAt ≠ 0) :
        world.exchanged = some world.memory.last := by
      rw [h.accepted hsent, if_neg hremote]
    cases hphone : world.byPhone with
    | true =>
      obtain ⟨hlast, hsent, hremote⟩ := h.placed hlanding hphone
      exact .inl ((haccepted hsent hremote).trans (congrArg some hlast.symm))
    | false =>
      by_cases hempty : world.clipboard = ""
      · obtain ⟨hsent, hremote⟩ := h.empty hphone hempty
        exact .inr ⟨hempty, by rw [h.accepted hsent, if_pos (hremote hlanding)]⟩
      · left
        have hagain (hlast : world.memory.last = world.clipboard) :
            world.exchanged = some world.clipboard := by
          have hremote : world.memory.remoteAt ≠ 0 :=
            fun hzero => hempty (hlast.symm.trans (h.nothing hzero))
          rw [haccepted (h.again hphone hlast.symm hempty) hremote, hlast]
        -- Why the poll was silent.
        obtain ⟨-, hnone | hlast | hsent | ⟨seen, hexamined, hsuperseded⟩⟩ := hpolled.silent rfl
        · exact absurd hnone hempty
        · exact hagain hlast
        · exact h.sent _ hsent
        · by_cases hlast : world.memory.last = world.clipboard
          · exact hagain hlast
          · have hold := h.examined_newer hphone hlanding hempty hlast
              (hpolled.examined _ seen hexamined).2
            rw [not_superseded.mpr hold] at hsuperseded
            cases hsuperseded

/-- Every run keeps the invariant. -/
theorem run_sound {events : List (Event × Nat)}
    (hmeets : Lib.Alongside World.after
      (fun world event => world.Assumed event ∧ world.Fresh event) {} events) :
    Sound (World.run events) :=
  hmeets.invariant (fun _ _ h hmeets => h.after hmeets.1 hmeets.2) sound_init

end World

/-- In every run in which the clipboard behaves as assumed and every copy made here
is fresh: no poll sends a text that a phone's packet put on the clipboard; and
after every poll made `settleMs` after the latest packet, the text on the clipboard
is the one last exchanged, or it is empty and none was exchanged. -/
theorem clipboards_agree (events : List (Event × Nat))
    (hmeets : Lib.Alongside World.after
      (fun world event => world.Assumed event ∧ world.Fresh event) {} events) :
    ∀ before now rest, events = before ++ (Event.poll, now) :: rest →
      ((World.run before).byPhone = true → (World.run before).sends now = none) ∧
      ((World.run before).packetAt = 0 ∨ (World.run before).packetAt + settleMs ≤ now →
        ((World.run (before ++ [(Event.poll, now)])).exchanged =
            some (World.run (before ++ [(Event.poll, now)])).clipboard ∨
          (World.run (before ++ [(Event.poll, now)])).clipboard = "" ∧
            (World.run (before ++ [(Event.poll, now)])).exchanged = none)) := by
  intro before now rest hevents
  subst hevents
  rw [Lib.alongside_append] at hmeets
  obtain ⟨hbefore, ⟨⟨⟨-, hclock⟩, hsettles, -⟩, -⟩, -⟩ := hmeets
  have hsound := (World.run_sound hbefore).wait hclock
  constructor
  · intro hphone
    cases hsends : (World.run before).sends now with
    | none => rfl
    | some sent =>
      have hown := hsound.sends_own hsettles hsends
      exact absurd (hphone.symm.trans hown.2) (by simp)
  · intro hlate
    have hlast : World.run (before ++ [(Event.poll, now)]) =
        World.look { World.run before with clock := now } now := by
      unfold World.run
      rw [Lib.applyAll_append]
      rfl
    rw [hlast]
    exact hsound.poll_agrees hsettles hlate

/-- A phone's copy lands and is polled, and another text is copied here. -/
def sharedEvents : List (Event × Nat) :=
  [(.packet ⟨"X", none, none⟩, 1), (.land, 2), (.poll, 3), (.copy "A", 2000), (.poll, 2001)]

/-- The second poll sends what was copied here. -/
theorem clipboards_agree_sharedEvents :
    (World.run sharedEvents).exchanged = some (World.run sharedEvents).clipboard ∧
      (World.run (sharedEvents.take 2)).sends 3 = none := by
  have hmeets : Lib.Alongside World.after
      (fun world event => world.Assumed event ∧ world.Fresh event) {} sharedEvents := by
    unfold sharedEvents World.Assumed World.Fresh
    simp only [Lib.Alongside]
    refine ⟨⟨⟨by decide, ?_, ?_⟩, ?_⟩, ⟨⟨by decide, ?_, ?_⟩, ?_⟩, ⟨⟨by decide, ?_, ?_⟩, ?_⟩,
      ⟨⟨by decide, ?_, ?_⟩, ?_⟩, ⟨⟨by decide, ?_, ?_⟩, ?_⟩, trivial⟩
    all_goals first
      | decide
      | (intro text htext; cases htext <;> decide)
  have hagree := clipboards_agree sharedEvents hmeets
  constructor
  · exact ((hagree (sharedEvents.take 4) 2001 [] rfl).2 (by decide)).resolve_right (by decide)
  · exact (hagree (sharedEvents.take 2) 3 (sharedEvents.drop 3) rfl).1 (by decide)

/-- The phone's text is copied here after another one was sent. It is not sent, and
the phone keeps the other one. -/
theorem copy_not_shared :
    Lib.Alongside World.after World.Assumed {}
        (sharedEvents ++ [(Event.copy "X", 3000), (.poll, 5000)]) ∧
      (World.run (sharedEvents ++ [(Event.copy "X", 3000), (.poll, 5000)])).clipboard = "X" ∧
      (World.run (sharedEvents ++ [(Event.copy "X", 3000), (.poll, 5000)])).exchanged = some "A" := by
  refine ⟨?_, by decide, by decide⟩
  unfold sharedEvents World.Assumed
  simp only [Lib.Alongside, List.cons_append, List.nil_append]
  refine ⟨⟨by decide, ?_, ?_⟩, ⟨by decide, ?_, ?_⟩, ⟨by decide, ?_, ?_⟩, ⟨by decide, ?_, ?_⟩,
    ⟨by decide, ?_, ?_⟩, ⟨by decide, ?_, ?_⟩, ⟨by decide, ?_, ?_⟩, trivial⟩
  all_goals first
    | decide
    | (intro text htext; cases htext <;> decide)

end DeskLink.Clipboard
