import DeskLink.Lib.Unwind
import DeskLink.Proofs.Session.Sections

/-!
# `DeskLink.Proofs.Session.Compared`: trust on a key that was compared

An acceptance with a key compares it with the key of the current link, then
looks up the binding again, moves the pairing and writes the trust. The
comparison and the move are different sections, and the move does not
compare again. So what a section in between does to the device counts:
`World.Undisturbed` says that it leaves the current link and the timestamp
as they are.

* `run_compared`: one section of the acceptance.
* `after_compared`: one move.
* `trusted_compared`: the run.
* `trusted_unseen`: what happens otherwise.
-/

set_option autoImplicit false

namespace DeskLink.Session

open DeskLink.Pairing (PairState PairingHandler Packet)

/-! ### The key of a device -/

/-- What the verification key of a device is computed from: the identity of
its current link, and the timestamp of its negotiation. -/
def World.face (w : World) (d : String) : Option ((String × List UInt8 × List UInt8) × Int) :=
  w.manager.sessions[d]?.bind (fun s =>
    (s.activeLink.bind (fun link => w.manager.links[link]?)).map (fun link =>
      (link.identity, s.pairing.timestamp)))

def World.stamp (w : World) (d : String) : Option Int :=
  w.manager.sessions[d]?.map (·.pairing.timestamp)

/-- The key of the link is `shown`, with this timestamp. -/
def World.KeyIs (sha256 : List UInt8 → List UInt8) (w : World) (link : Nat) (timestamp : Int)
    (shown : String) : Prop :=
  ∃ l, w.manager.links[link]? = some l ∧ l.verificationKey sha256 timestamp = shown

/-- The key that the user compared, of an acceptance with one. -/
def Command.key : Command → Option String
  | .accept shown => shown
  | .request => none

/-- The device of an acceptance that compared a key and has not looked up
the binding to move. -/
def Task.seeking : Task → Option String
  | .seek d command => if command.key.isSome then some d else none
  | _ => none

/-- The binding of an acceptance that compared a key and has not moved the
pairing. -/
def Task.applying : Task → Option SessionBinding
  | .apply b command => if command.key.isSome then some b else none
  | _ => none

/-- Between the comparison and the move of an acceptance with a key: the
device has the link and the timestamp it had, or has no link; and once the
binding is looked up, the timestamp it had for as long as the binding is
current. -/
def Task.Undisturbed (w w' : World) (task : Task) : Prop :=
  (∀ d ∈ task.seeking, w'.face d = none ∨ w'.face d = w.face d) ∧
    ∀ b ∈ task.applying, w'.manager.isCurrent b = true →
      w'.stamp b.deviceId = w.stamp b.deviceId

instance (w w' : World) (task : Task) : Decidable (task.Undisturbed w w') :=
  instDecidableAnd

/-- The move disturbs no acceptance. -/
def World.Undisturbed (sha256 : List UInt8 → List UInt8) (w : World) (move : Move) : Prop :=
  ∀ task ∈ w.tasks, task.Undisturbed w (w.after sha256 move)

instance (sha256 : List UInt8 → List UInt8) (w : World) (move : Move) :
    Decidable (w.Undisturbed sha256 move) :=
  List.decidableBAll _ _

/-! ### What an acceptance holds -/

section
variable (sha256 : List UInt8 → List UInt8)

/-- The key of an acceptance on its way is the one of what it will trust. -/
def Task.Compared (w : World) : Task → Prop
  | .seek d command => ∀ shown ∈ command.key, ∀ f ∈ w.face d,
      Pairing.verificationKey sha256 f.1.2.1 f.1.2.2 f.2 = shown
  | .apply b command => ∀ shown ∈ command.key, b.cancellation < w.manager.tokens ∧
      (w.manager.isCurrent b = true → ∀ timestamp ∈ w.stamp b.deviceId,
        w.KeyIs sha256 b.link timestamp shown)
  | .send b command _ _ timestamp | .persistTrust b command _ _ timestamp =>
    ∀ shown ∈ command.key, w.KeyIs sha256 b.link timestamp shown
  | _ => True

structure World.Compared (w : World) : Prop where
  grounded : Grounded w.manager
  tasks : ∀ task ∈ w.tasks, task.Compared sha256 w
  granted : ∀ g ∈ w.granted, g.link.verificationKey sha256 g.timestamp = g.shown

end

section
variable {sha256 : List UInt8 → List UInt8} {w w' : World} {c : Choice} {task t : Task}
variable {b : SessionBinding} {timestamp : Int} {shown : String} {command : Command}
variable {snapshot : PairingHandler} {state : PairState} {move : Move}

/-- The face of a device with a current binding. -/
theorem face_of_current (h : w.manager.isCurrent b = true) {link : SessionLink}
    (hlink : w.manager.links[b.link]? = some link)
    (htimestamp : w.stamp b.deviceId = some timestamp) :
    w.face b.deviceId = some (link.identity, timestamp) := by
  obtain ⟨s, hs, -, -, hactive, -⟩ := isCurrent_holds h
  unfold World.stamp at htimestamp
  unfold World.face
  rw [hs] at htimestamp ⊢
  obtain rfl := Option.some.inj htimestamp
  show (s.activeLink.bind _).map _ = _
  rw [hactive]
  show (w.manager.links[b.link]?).map _ = _
  rw [hlink]
  rfl

theorem World.KeyIs.mono {link : Nat} (h : w.KeyIs sha256 link timestamp shown)
    (hlinks : SameLinks w.manager w'.manager) : w'.KeyIs sha256 link timestamp shown := by
  obtain ⟨l, hl, hkey⟩ := h
  obtain ⟨l', hl', hsame⟩ := Option.map_eq_some_iff.mp (hlinks link l hl)
  refine ⟨l', hl', ?_⟩
  rw [← hkey]
  -- The key is computed from the identity alone.
  show Pairing.verificationKey sha256 l'.identity.2.1 l'.identity.2.2 timestamp = _
  rw [hsame]
  rfl

/-! ### One section of the acceptance -/

theorem compare_compared (h : ((Task.compare b shown).run sha256 w c).2 = some t) :
    t.Compared sha256 ((Task.compare b shown).run sha256 w c).1 := by
  simp only [Task.run] at h ⊢
  split at h
  · rename_i timestamp link hok hlink
    split at h
    · rename_i hkey
      obtain rfl := Option.some.inj h
      obtain ⟨s, hs, hcurrent, rfl⟩ := withSession_ok hok
      intro shown' hshown f hf
      obtain rfl := Option.some.inj hshown
      have hstamp : w.stamp b.deviceId = some s.pairing.timestamp := by rw [World.stamp, hs]; rfl
      have hface := face_of_current hcurrent hlink hstamp
      obtain rfl := Option.some.inj (hface.symm.trans hf)
      exact hkey
    · cases h
  · cases h

theorem seek_compared {d : String} (hw : Grounded w.manager)
    (hcompared : (Task.seek d command).Compared sha256 w)
    (h : ((Task.seek d command).run sha256 w c).2 = some t) :
    t.Compared sha256 ((Task.seek d command).run sha256 w c).1 := by
  simp only [Task.run] at h ⊢
  obtain ⟨b, hb, rfl⟩ := Option.map_eq_some_iff.mp h
  obtain ⟨rfl, hcurrent⟩ := currentBinding_cases hw hb
  show Task.Compared sha256 w (.apply b command)
  intro shown hshown
  refine ⟨current_made hw hcurrent, fun _ timestamp htimestamp => ?_⟩
  obtain ⟨link, hlink⟩ := current_link hw hcurrent
  have hface := face_of_current hcurrent hlink htimestamp
  exact ⟨link, hlink, hcompared shown hshown (link.identity, timestamp) hface⟩

/-- An acceptance does not restamp the negotiation. -/
theorem applyCommand_accept {now : Int} {s : DeviceSession} (hshown : command.key = some shown)
    (h : (applyCommand command now s).2 = some (snapshot, state, timestamp)) :
    timestamp = s.pairing.timestamp := by
  cases command with
  | request => cases hshown
  | accept key =>
    unfold applyCommand Command.build PairingHandler.acceptPacket at h
    simp only at h
    split at h
    · cases h
    · rename_i heq
      split at heq
      · cases heq
      · cases heq
        cases h
        rfl

theorem apply_compared (hcompared : (Task.apply b command).Compared sha256 w)
    (h : ((Task.apply b command).run sha256 w c).2 = some t) :
    t.Compared sha256 ((Task.apply b command).run sha256 w c).1 := by
  simp only [Task.run] at h ⊢
  split at h
  · rename_i snapshot state timestamp hok
    obtain rfl := Option.some.inj h
    obtain ⟨s, hs, hcurrent, hresult⟩ := withSession_ok hok
    intro shown hshown
    obtain rfl := applyCommand_accept hshown hresult
    have hstamp : w.stamp b.deviceId = some s.pairing.timestamp := by rw [World.stamp, hs]; rfl
    refine ((hcompared shown hshown).2 hcurrent _ hstamp).mono ?_
    exact sameLinks_of_eq (withSession_links w.manager b _)
  · cases h
  · cases h

theorem send_compared (hcompared : (Task.send b command snapshot state timestamp).Compared sha256 w)
    (h : ((Task.send b command snapshot state timestamp).run sha256 w c).2 = some t) :
    t.Compared sha256 ((Task.send b command snapshot state timestamp).run sha256 w c).1 := by
  simp only [Task.run] at h ⊢
  split at h
  · split at h
    · obtain rfl := Option.some.inj h
      exact hcompared
    · cases h
  · obtain rfl := Option.some.inj h
    trivial

theorem op_compared (op : Op) : op.task.Compared sha256 w := by
  cases op with
  | acceptPair d shown =>
    cases shown with
    | none => exact fun shown hshown => nomatch hshown
    | some shown => trivial
  | sendPairRequest d => exact fun shown hshown => nomatch hshown
  | _ => trivial

/-- What a section leads to. -/
theorem run_compared (hw : Grounded w.manager) (hcompared : task.Compared sha256 w)
    (h : (task.run sha256 w c).2 = some t) : t.Compared sha256 (task.run sha256 w c).1 := by
  cases task with
  | compare b shown => exact compare_compared h
  | seek d command => exact seek_compared hw hcompared h
  | apply b command => exact apply_compared hcompared h
  | send b command snapshot state timestamp => exact send_compared hcompared h
  | check d shown =>
    obtain ⟨b, -, rfl⟩ := Option.map_eq_some_iff.mp h
    trivial
  | _ =>
    -- No other section comes to one of an acceptance.
    simp only [Task.run] at h ⊢
    repeat' split at h
    all_goals cases h
    all_goals trivial

/-! ### One move -/

theorem undisturbed_compared {task : Task} (hw : Grounded w.manager) (hmem : task ∈ w.tasks)
    (hcompared : task.Compared sha256 w) (h : w.Undisturbed sha256 move) :
    task.Compared sha256 (w.after sha256 move) := by
  have hshift := world_shift sha256 w move
  have hquiet := h task hmem
  cases task with
  | seek d command =>
    intro shown hshown f hf
    have hsome : command.key.isSome = true := by rw [hshown]; rfl
    rcases hquiet.1 d (by simp [Task.seeking, hsome]) with hnone | hsame
    · rw [hnone] at hf
      cases hf
    · rw [hsame] at hf
      exact hcompared shown hshown f hf
  | apply b command =>
    intro shown hshown
    have hsome : command.key.isSome = true := by rw [hshown]; rfl
    obtain ⟨hmade, hkey⟩ := hcompared shown hshown
    refine ⟨Nat.lt_of_lt_of_le hmade hshift.step.tokens_le, fun hcurrent timestamp htimestamp => ?_⟩
    rw [hquiet.2 b (by simp [Task.applying, hsome]) hcurrent] at htimestamp
    exact (hkey (hshift.current_back hw hmade hcurrent) timestamp htimestamp).mono hshift.links
  | send b command snapshot state timestamp =>
    exact fun shown hshown => (hcompared shown hshown).mono hshift.links
  | persistTrust b command snapshot state timestamp =>
    exact fun shown hshown => (hcompared shown hshown).mono hshift.links
  | _ => trivial

/-- Trust is granted by an acceptance alone. -/
theorem run_granted (hcompared : task.Compared sha256 w) {g : Granted}
    (hg : g ∈ (task.run sha256 w c).1.granted) :
    g ∈ w.granted ∨ g.link.verificationKey sha256 g.timestamp = g.shown := by
  cases task with
  | persistTrust b command snapshot state timestamp =>
    simp only [Task.run] at hg
    split at hg
    · rcases List.mem_append.mp hg with hmem | hnew
      · exact .inl hmem
      · split at hnew
        · rename_i shown link hlink
          obtain rfl := List.mem_singleton.mp hnew
          obtain ⟨l, hl, hkey⟩ := hcompared shown rfl
          obtain rfl := Option.some.inj (hl.symm.trans hlink)
          exact .inr hkey
        · cases hnew
    · exact .inl hg
  | trust b =>
    simp only [Task.run, World.trustDevice] at hg
    repeat' split at hg
    all_goals exact .inl hg
  | _ =>
    simp only [Task.run] at hg
    repeat' split at hg
    all_goals exact .inl hg

/-- One move. -/
theorem after_compared (h : w.Compared sha256) (hquiet : w.Undisturbed sha256 move) :
    (w.after sha256 move).Compared sha256 where
  grounded := (world_shift sha256 w move).grounded h.grounded
  tasks t ht := by
    rcases task_cases sha256 w ht with hmem | ⟨op, rfl, rfl⟩ | ⟨i, c, task, rfl, htask, hnext⟩
    · exact undisturbed_compared h.grounded hmem (h.tasks t hmem) hquiet
    · exact op_compared op
    · have hcompared := h.tasks task (List.mem_of_getElem? htask)
      have hafter := run_compared h.grounded hcompared hnext
      simp only [World.after, htask]
      exact hafter
  granted g hg := by
    cases move with
    | start op => exact h.granted g hg
    | advance i c =>
      simp only [World.after] at hg
      cases htask : w.tasks[i]? with
      | none =>
        rw [htask] at hg
        exact h.granted g hg
      | some task =>
        rw [htask] at hg
        exact (run_granted (h.tasks task (List.mem_of_getElem? htask)) hg).elim (h.granted g) id
    | call call =>
      simp only [World.after] at hg
      split at hg <;> exact h.granted g hg

end

/-! ### The run -/

/-- Nobody is trusted on a key they did not compare. Start with any trust
store, and let links arrive, pair packets come in, users ask, accept, reject
and unpair, and negotiations expire, one section at a time and in any order.
While no section disturbs an acceptance between its comparison and its move,
whatever an acceptance with a key led to trust is the link whose key, with
the timestamp of the negotiation, is the one that was shown. -/
theorem trusted_compared (sha256 : List UInt8 → List UInt8) (trust : KeyMap String)
    (moves : List Move)
    (hquiet : Lib.Alongside (World.after sha256) (World.Undisturbed sha256) { trust } moves) :
    ∀ g ∈ (Lib.applyAll (World.after sha256) { trust } moves).granted,
      g.link.verificationKey sha256 g.timestamp = g.shown := by
  have hstart : World.Compared sha256 { trust } :=
    ⟨empty_grounded, (fun task h => nomatch h), (fun g h => nomatch h)⟩
  exact (hquiet.invariant (fun w move h hC => after_compared h hC) hstart).granted

/-- SHA-256, where the runs below use it. -/
def digests (input : List UInt8) : List UInt8 :=
  if input = [2, 1, 49, 48, 48] then
    [132, 183, 241, 81, 66, 126, 218, 51, 21, 133, 156, 113, 55, 70, 15, 65,
      155, 10, 64, 56, 64, 17, 112, 112, 212, 231, 180, 137, 247, 214, 41, 217]
  else if input = [3, 1, 49, 48, 48] then
    [48, 247, 38, 230, 20, 69, 201, 249, 136, 79, 59, 11, 135, 234, 232, 137,
      32, 189, 215, 133, 235, 235, 104, 248, 244, 6, 20, 253, 50, 236, 47, 231]
  else []

/-- The `n` next sections of the task `i`, at the time 100. -/
def sections (i n : Nat) : List Move := List.replicate n (.advance i { nowSecs := 100 })

/-- A link of the device `d` arrives, asks to be paired, and is told from
other links by its public key and its certificate. -/
def asks (d pem : String) (key : UInt8) (task n : Nat) : List Move :=
  .start (.link d { certificatePem := pem, localPublicDer := [1], remotePublicDer := [key] } false)
    :: sections task 5
    ++ .start (.pairPacket ⟨d, 1, n + 1, n, n⟩ { pair := some true, timestamp := some 100 } false)
    :: sections task 2

/-- The phone asks, and the user accepts the key on the screen. -/
def honest : List Move :=
  asks "phone" "phone's" 2 0 0 ++ .start (.acceptPair "phone" (some "647377")) :: sections 0 6

/-- The key that is trusted is the one on the screen. -/
theorem trusted_compared_honest :
    (Lib.applyAll (World.after digests) {} honest).granted.map (·.link.certificatePem)
        = ["phone's"] ∧
      ∀ g ∈ (Lib.applyAll (World.after digests) {} honest).granted,
        g.link.verificationKey digests g.timestamp = g.shown :=
  ⟨by decide +kernel, trusted_compared digests ∅ honest (by decide +kernel)⟩

/-- After the comparison a thief links as the phone and asks. -/
def swapped : List Move :=
  asks "phone" "phone's" 2 0 0 ++ .start (.acceptPair "phone" (some "647377")) :: sections 0 2
    ++ asks "phone" "thief's" 3 1 1 ++ sections 0 4

/-- The thief's certificate is trusted on the key of the phone. -/
theorem trusted_unseen :
    (Lib.applyAll (World.after digests) {} swapped).trust["phone"]? = some "thief's" ∧
    ∃ g ∈ (Lib.applyAll (World.after digests) {} swapped).granted,
      g.link.certificatePem = "thief's" ∧ g.shown = "647377" ∧
        g.link.verificationKey digests g.timestamp ≠ g.shown := by
  refine ⟨by decide +kernel, ?_⟩
  have hgranted : (Lib.applyAll (World.after digests) {} swapped).granted.any (fun g =>
      g.link.certificatePem = "thief's" ∧ g.shown = "647377" ∧
        g.link.verificationKey digests g.timestamp ≠ g.shown) = true := by decide +kernel
  obtain ⟨g, hg, h⟩ := List.any_eq_true.mp hgranted
  exact ⟨g, hg, of_decide_eq_true h⟩

end DeskLink.Session
