import DeskLink.Lib.Unwind
import DeskLink.Proofs.RelayLink.Honest
import DeskLink.Proofs.RelayLink.Steps

/-!
# `DeskLink.Proofs.RelayLink.Nonce`: no number twice under one key

`Derived role nonce keys` says that an end which drew `nonce` derived the
keys with it. Keys of different nonces differ (`derived_inj`), so the
keys of a new session are under none of the frames before. `Steady` is what
every call keeps: the frames under one key are numbered from one, and what
was delivered under one key has rising numbers.

* `after_steady`: one call.
* `run_steady`: a run.
* `nonce_unique`: the numbers of every session, while none has sealed all
  that its counter can count.
-/

set_option autoImplicit false

namespace DeskLink.RelayLink

variable {P : Primitives}
variable {keys k k' : LinkKeys P} {mine : Ephemeral P} {role : Role} {l : PeerLink P}
  {message : Message} {random : Except String (Ephemeral P)} {signed : String} {n n' : Bytes}
  {j : Journal P}

/-! ### Keys and nonces -/

/-- The nonces in the order of the roles. -/
def saltOf (role : Role) (mine peer : Bytes) : Bytes :=
  match role with
  | .initiator => mine ++ peer
  | .responder => peer ++ mine

/-- The halves as the role uses them. -/
def halves (role : Role) (okm : P.Key × P.Key) : LinkKeys P :=
  match role with
  | .initiator => ⟨okm.1, okm.2⟩
  | .responder => ⟨okm.2, okm.1⟩

/-- An end that drew `nonce` derived `keys` with it. -/
def Derived (role : Role) (nonce : Bytes) (keys : LinkKeys P) : Prop :=
  ∃ (peer : Bytes) (secret : P.Secret) (info : String) (okm : P.Key × P.Key),
    P.hkdf (saltOf role nonce peer) secret info = .ok okm ∧ keys = halves role okm

theorem deriveKeys_ok {peerPublic : Bytes} {fpI fpR : String} {nonceI nonceR : Bytes}
    (h : deriveKeys P mine peerPublic role fpI fpR nonceI nonceR = .ok keys) :
    ∃ secret okm, P.agree mine.key peerPublic = .ok secret ∧
      P.hkdf (nonceI ++ nonceR) secret (context ++ " keys\n" ++ fpI ++ "\n" ++ fpR) = .ok okm ∧
      keys = halves role okm := by
  unfold deriveKeys at h
  obtain ⟨secret, hsecret, h⟩ := except_bind_ok h
  obtain ⟨okm, hokm, h⟩ := except_bind_ok h
  refine ⟨secret, okm, hsecret, hokm, ?_⟩
  cases role <;> cases h <;> rfl

theorem answerH1_derived {identity : String} {h2 : Message}
    (h : l.answerH1 message random = .ok (keys, signed, identity, h2)) :
    ∃ mine, random = .ok mine ∧ Derived .responder mine.nonce keys := by
  obtain ⟨mine, peerEph, peerNonce, hmine, hkeys, -⟩ := answerH1_ok h
  obtain ⟨secret, okm, -, hokm, hhalves⟩ := deriveKeys_ok hkeys
  exact ⟨mine, hmine, peerNonce, secret, _, okm, hokm, hhalves⟩

theorem acceptH2_derived {identity : String} {fin : Message}
    (h : l.acceptH2 mine message = .ok (keys, signed, identity, fin)) :
    Derived .initiator mine.nonce keys := by
  obtain ⟨peerEph, peerNonce, sig, -, -, hkeys, -⟩ := acceptH2_ok h
  obtain ⟨secret, okm, -, hokm, hhalves⟩ := deriveKeys_ok hkeys
  exact ⟨peerNonce, secret, _, okm, hokm, hhalves⟩

theorem saltOf_inj {peer peer' : Bytes} (hlen : n.length = n'.length)
    (h : saltOf role n peer = saltOf role n' peer') : n = n' := by
  cases role with
  | initiator => exact (List.append_inj h hlen).1
  | responder => exact (List.append_inj' h hlen).2

/-- Two sessions of one end with a key in common drew the same nonce. -/
theorem derived_inj (hideal : Ideal P) (hlen : n.length = n'.length) (h : Derived role n k)
    (h' : Derived role n' k') (hkey : k.send = k'.send ∨ k.receive = k'.receive) : n = n' := by
  obtain ⟨peer, secret, info, okm, hokm, rfl⟩ := h
  obtain ⟨peer', secret', info', okm', hokm', rfl⟩ := h'
  cases role with
  | initiator =>
    exact saltOf_inj hlen (hkey.elim (hideal.first_inj hokm hokm' · |>.1)
      (hideal.second_inj hokm hokm' · |>.1))
  | responder =>
    exact saltOf_inj hlen (hkey.elim (hideal.second_inj hokm hokm' · |>.1)
      (hideal.first_inj hokm hokm' · |>.1))

/-- No end sends under a key it receives under. -/
theorem derived_send_ne_receive (hideal : Ideal P) (h : Derived role n k)
    (h' : Derived role n' k') : k.send ≠ k'.receive := by
  obtain ⟨peer, secret, info, okm, hokm, rfl⟩ := h
  obtain ⟨peer', secret', info', okm', hokm', rfl⟩ := h'
  cases role with
  | initiator => exact hideal.halves_ne hokm hokm'
  | responder => exact (hideal.halves_ne hokm' hokm).symm

/-! ### What every call keeps -/

/-- Nothing was opened, sealed or delivered under these keys. -/
structure Unused (j : Journal P) (keys : LinkKeys P) : Prop where
  opened : ∀ s ∈ j.opened, s.keys.send ≠ keys.send
  sealed : ∀ f ∈ j.sealed, f.key ≠ keys.send
  delivered : ∀ f ∈ j.delivered, f.key ≠ keys.receive

/-- The frames under `key`. -/
def under (key : P.Key) (frames : List (Frame P)) : List (Frame P) :=
  frames.filter (fun f => f.key = key)

/-- What the state of the link says about its counters and its keys. -/
def Ready (j : Journal P) : Prop :=
  match j.link.state with
  | .idle => True
  | .awaitingH2 mine => j.link.sendSeq = 0 ∧ j.link.receiveSeq = 0 ∧ mine ∈ j.drawn ∧
      ∀ keys, Derived j.link.role mine.nonce keys → Unused j keys
  | .awaitingFin keys _ _ => j.link.sendSeq = 0 ∧ j.link.receiveSeq = 0 ∧
      (∃ e ∈ j.drawn, Derived j.link.role e.nonce keys) ∧ Unused j keys
  | .established keys => (∃ e ∈ j.drawn, Derived j.link.role e.nonce keys) ∧
      (under keys.send j.sealed).length = j.link.sendSeq.toNat ∧
      ∀ f ∈ j.delivered, f.key = keys.receive → f.seq ≤ j.link.receiveSeq

structure Steady (j : Journal P) : Prop where
  numbered : ∀ key, (under key j.sealed).map (fun f => f.seq.toNat)
    = List.range' 1 (under key j.sealed).length
  rising : ∀ key, ((under key j.delivered).map (·.seq)).Pairwise (· < ·)
  sessions : ∀ s ∈ j.opened, ∃ e ∈ j.drawn, Derived j.link.role e.nonce s.keys
  names : (j.opened.map (·.keys.send)).Nodup
  sent : ∀ f ∈ j.sealed, ∃ e ∈ j.drawn, ∃ keys, Derived j.link.role e.nonce keys ∧ f.key = keys.send
  got : ∀ f ∈ j.delivered, ∃ e ∈ j.drawn, ∃ keys,
    Derived j.link.role e.nonce keys ∧ f.key = keys.receive
  ready : Ready j

/-- Keys derived with a nonce that was not drawn before are unused. -/
theorem Steady.unused (hideal : Ideal P) (h : Steady j)
    (hfresh : ∀ e ∈ j.drawn, e.nonce ≠ mine.nonce) (hkeys : Derived j.link.role mine.nonce keys) :
    Unused j keys where
  opened s hs heq := by
    obtain ⟨e, he, hderived⟩ := h.sessions s hs
    exact hfresh e he (derived_inj hideal (by rw [e.nonce_length, mine.nonce_length])
      hderived hkeys (.inl heq))
  sealed f hf heq := by
    obtain ⟨e, he, k, hderived, hkey⟩ := h.sent f hf
    exact hfresh e he (derived_inj hideal (by rw [e.nonce_length, mine.nonce_length])
      hderived hkeys (.inl (hkey.symm.trans heq)))
  delivered f hf heq := by
    obtain ⟨e, he, k, hderived, hkey⟩ := h.got f hf
    exact hfresh e he (derived_inj hideal (by rw [e.nonce_length, mine.nonce_length])
      hderived hkeys (.inr (hkey.symm.trans heq)))

/-- The frames under a key nothing was sealed with. -/
theorem under_eq_nil {key : P.Key} {frames : List (Frame P)} (h : ∀ f ∈ frames, f.key ≠ key) :
    under key frames = [] := by
  rw [under, List.filter_eq_nil_iff]
  intro f hf
  simpa using h f hf

theorem under_append (key : P.Key) (a b : List (Frame P)) :
    under key (a ++ b) = under key a ++ under key b := List.filter_append ..

theorem under_single (key : P.Key) (f : Frame P) :
    under key [f] = if f.key = key then [f] else [] := by
  by_cases h : f.key = key <;> simp [under, h]

/-- Nothing opened, sealed or delivered: only the state is to be looked at. -/
theorem Steady.quiet {j' : Journal P} (h : Steady j) (hrole : j'.link.role = j.link.role)
    (hdrawn : j.drawn ⊆ j'.drawn) (hopened : j'.opened = j.opened) (hsealed : j'.sealed = j.sealed)
    (hdelivered : j'.delivered = j.delivered) (hready : Ready j') : Steady j' where
  numbered := hsealed ▸ h.numbered
  rising := hdelivered ▸ h.rising
  names := hopened ▸ h.names
  sessions s hs := by
    rw [hopened] at hs
    obtain ⟨e, he, hderived⟩ := h.sessions s hs
    exact ⟨e, hdrawn he, hrole ▸ hderived⟩
  sent f hf := by
    rw [hsealed] at hf
    obtain ⟨e, he, keys, hderived, hkey⟩ := h.sent f hf
    exact ⟨e, hdrawn he, keys, hrole ▸ hderived, hkey⟩
  got f hf := by
    rw [hdelivered] at hf
    obtain ⟨e, he, keys, hderived, hkey⟩ := h.got f hf
    exact ⟨e, hdrawn he, keys, hrole ▸ hderived, hkey⟩
  ready := hready

/-- More was drawn, and nothing else happened. -/
theorem Ready.drawn (h : Ready j) (more : List (Ephemeral P)) (signed : List (Session P)) :
    Ready { j with drawn := j.drawn ++ more, signed := signed } := by
  unfold Ready at h ⊢
  cases hstate : j.link.state with
  | idle => trivial
  | awaitingH2 mine =>
    rw [hstate] at h
    obtain ⟨hsend, hreceive, hmine, hunused⟩ := h
    refine ⟨hsend, hreceive, List.mem_append_left _ hmine, ?_⟩
    intro keys hkeys
    have hold := hunused keys hkeys
    exact ⟨hold.opened, hold.sealed, hold.delivered⟩
  | awaitingFin keys signed' identity =>
    rw [hstate] at h
    obtain ⟨hsend, hreceive, ⟨e, he, hderived⟩, hunused⟩ := h
    exact ⟨hsend, hreceive, ⟨e, List.mem_append_left _ he, hderived⟩,
      hunused.opened, hunused.sealed, hunused.delivered⟩
  | established keys =>
    rw [hstate] at h
    obtain ⟨⟨e, he, hderived⟩, hsend, hreceive⟩ := h
    exact ⟨⟨e, List.mem_append_left _ he, hderived⟩, hsend, hreceive⟩

/-- The generator gives nonces that were not drawn before. -/
def FreshFor (j : Journal P) (c : Call P) : Prop :=
  ∀ mine ∈ c.drawn, ∀ e ∈ j.drawn, e.nonce ≠ mine.nonce

/-- The counter of the session can count one more packet. -/
def Room (j : Journal P) : Call P → Prop
  | .sealPacket _ => j.link.sendSeq.toNat + 1 < 2 ^ 64
  | .start _ | .receive .. | .reset => True

theorem start_steady (hideal : Ideal P) (h : Steady j) (hfresh : FreshFor j (.start random)) :
    Steady (j.after (.start random)) := by
  rcases start_cases j.link random with heq | ⟨mine, hrole, rfl, heq⟩
  · refine h.quiet ?_ (List.subset_append_left _ _) rfl rfl rfl ?_
    · simp only [Journal.after, heq]
      rfl
    · simp only [Ready, Journal.after, heq]
      trivial
  · refine h.quiet ?_ (List.subset_append_left _ _) rfl rfl rfl ?_
    · simp only [Journal.after, heq]
      rfl
    · have hmem : mine ∈ Call.drawn (.start (.ok mine)) := List.mem_singleton_self _
      simp only [Ready, Journal.after, heq]
      refine ⟨rfl, rfl, List.mem_append_right _ hmem, ?_⟩
      intro keys hkeys
      have hunused := h.unused hideal (hfresh mine hmem) hkeys
      exact ⟨hunused.opened, hunused.sealed, hunused.delivered⟩

/-- A packet sealed in an open session. -/
theorem sealPacket_after (hideal : Ideal P) {j : Journal P} {keys : LinkKeys P}
    (hstate : j.link.state = .established keys) (plaintext : Bytes) :
    j.after (.sealPacket plaintext) = { j with
      link := { j.link with sendSeq := j.link.sendSeq + 1 }
      sealed := j.sealed ++ [⟨keys.send, j.link.sendSeq + 1, plaintext⟩] } := by
  obtain ⟨⟨sealed, tag⟩, hencrypt⟩ :=
    hideal.encrypt_ok keys.send (iv (j.link.sendSeq + 1)) dataAad plaintext
  have hseal : cryptoSeal P keys.send (j.link.sendSeq + 1) plaintext
      = .ok (Lib.Base64.encode (sealed ++ tag)) := by
    rw [cryptoSeal, hencrypt]
    rfl
  have hpacket : j.link.sealPacket plaintext = ({ j.link with sendSeq := j.link.sendSeq + 1 },
      .ok { k := some "d", seq := some (j.link.sendSeq + 1),
            ct := some (Lib.Base64.encode (sealed ++ tag)) }) := by
    simp only [PeerLink.sealPacket, hstate, hseal]
    rfl
  simp only [Journal.after, PeerLink.frames, hstate, hpacket]

theorem sealPacket_steady (hideal : Ideal P) (h : Steady j) {plaintext : Bytes}
    (hroom : Room j (.sealPacket plaintext)) : Steady (j.after (.sealPacket plaintext)) := by
  have hnothing : (j.link.sealPacket plaintext).1 = j.link → j.link.frames plaintext = [] →
      Steady (j.after (.sealPacket plaintext)) := by
    intro hlink hframes
    have hsame : j.after (.sealPacket plaintext) = j := by
      simp only [Journal.after, hlink, hframes, List.append_nil]
    rw [hsame]
    exact h
  cases hstate : j.link.state with
  | idle =>
    exact hnothing (by simp [PeerLink.sealPacket, hstate]) (by simp [PeerLink.frames, hstate])
  | awaitingH2 mine =>
    exact hnothing (by simp [PeerLink.sealPacket, hstate]) (by simp [PeerLink.frames, hstate])
  | awaitingFin keys signed identity =>
    exact hnothing (by simp [PeerLink.sealPacket, hstate]) (by simp [PeerLink.frames, hstate])
  | established keys =>
    have hready := h.ready
    unfold Ready at hready
    rw [hstate] at hready
    obtain ⟨hderived, hcount, hdelivered⟩ := hready
    have hnext : (j.link.sendSeq + 1).toNat = j.link.sendSeq.toNat + 1 := by
      have hroom' : j.link.sendSeq.toNat + 1 < 2 ^ 64 := hroom
      rw [UInt64.toNat_add, UInt64.toNat_one, Nat.mod_eq_of_lt hroom']
    rw [sealPacket_after hideal hstate]
    refine ⟨?_, h.rising, h.sessions, h.names, ?_, h.got, ?_⟩
    · -- The frames under the session's key are as many as it counted.
      intro key
      show (under key (j.sealed ++ _)).map _ = List.range' 1 (under key (j.sealed ++ _)).length
      rw [under_append, under_single]
      split
      · rename_i hkey
        have hkey' : keys.send = key := hkey
        subst hkey'
        rw [List.map_append, h.numbered, List.length_append, hcount, List.map_singleton,
          List.length_singleton, List.range'_1_concat, hnext, Nat.add_comm]
      · rw [List.append_nil]
        exact h.numbered key
    · intro f hf
      rcases List.mem_append.mp hf with hold | hnew
      · exact h.sent f hold
      · rw [List.mem_singleton.mp hnew]
        obtain ⟨e, he, hkeys⟩ := hderived
        exact ⟨e, he, keys, hkeys, rfl⟩
    · simp only [Ready, hstate]
      refine ⟨hderived, ?_, hdelivered⟩
      rw [under_append, under_single, if_pos rfl, List.length_append, hcount, hnext]
      rfl

/-- A session opens with keys that nothing was done under, and counters at
zero. -/
theorem Steady.open (h : Steady j) {drawn : List (Ephemeral P)} {signedLog : List (Session P)}
    (hl : l = { j.link with state := .established keys }) (hsend : j.link.sendSeq = 0)
    (hderived : ∃ e ∈ j.drawn, Derived j.link.role e.nonce keys) (hunused : Unused j keys) :
    Steady { j with
      link := l
      drawn := j.drawn ++ drawn
      signed := signedLog
      opened := j.opened ++ [⟨signed, keys⟩] } := by
  subst hl
  obtain ⟨e, he, hkeys⟩ := hderived
  have hmono : ∀ {e : Ephemeral P}, e ∈ j.drawn → e ∈ j.drawn ++ drawn :=
    fun he => List.mem_append_left _ he
  refine ⟨h.numbered, h.rising, ?_, ?_, ?_, ?_, ?_⟩
  · intro s hs
    rcases List.mem_append.mp hs with hold | hnew
    · obtain ⟨e', he', hderived⟩ := h.sessions s hold
      exact ⟨e', hmono he', hderived⟩
    · rw [List.mem_singleton.mp hnew]
      exact ⟨e, hmono he, hkeys⟩
  · show ((j.opened ++ [Session.mk signed keys]).map (·.keys.send)).Nodup
    rw [List.map_append, List.nodup_append]
    refine ⟨h.names, List.nodup_singleton _, ?_⟩
    intro a ha b hb
    obtain ⟨s, hs, rfl⟩ := List.mem_map.mp ha
    rw [List.mem_singleton.mp hb]
    exact hunused.opened s hs
  · intro f hf
    obtain ⟨e', he', k, hderived, hkey⟩ := h.sent f hf
    exact ⟨e', hmono he', k, hderived, hkey⟩
  · intro f hf
    obtain ⟨e', he', k, hderived, hkey⟩ := h.got f hf
    exact ⟨e', hmono he', k, hderived, hkey⟩
  · refine ⟨⟨e, hmono he, hkeys⟩, ?_, ?_⟩
    · show (under keys.send j.sealed).length = j.link.sendSeq.toNat
      rw [under_eq_nil hunused.sealed, hsend]
      rfl
    · intro f hf hkey
      exact absurd hkey (hunused.delivered f hf)

/-- A packet is delivered under the receive key, above the last number. -/
theorem Steady.deliver (h : Steady j) {seq : UInt64} {plaintext : Bytes}
    {drawn : List (Ephemeral P)} (hstate : j.link.state = .established keys)
    (hseq : j.link.receiveSeq < seq) :
    Steady { j with
      link := { j.link with receiveSeq := seq }
      drawn := j.drawn ++ drawn
      delivered := j.delivered ++ [⟨keys.receive, seq, plaintext⟩] } := by
  have hready := h.ready
  unfold Ready at hready
  rw [hstate] at hready
  obtain ⟨⟨e, he, hkeys⟩, hcount, hdelivered⟩ := hready
  have hmono : ∀ {e : Ephemeral P}, e ∈ j.drawn → e ∈ j.drawn ++ drawn :=
    fun he => List.mem_append_left _ he
  refine ⟨h.numbered, ?_, ?_, h.names, ?_, ?_, ?_⟩
  · intro key
    show ((under key (j.delivered ++ _)).map (·.seq)).Pairwise (· < ·)
    rw [under_append, under_single]
    split
    · rename_i hkey
      have hkey' : keys.receive = key := hkey
      subst hkey'
      rw [List.map_append, List.pairwise_append]
      refine ⟨h.rising _, List.pairwise_singleton _ _, ?_⟩
      intro a ha b hb
      obtain ⟨f, hf, rfl⟩ := List.mem_map.mp ha
      rw [List.mem_singleton.mp hb]
      obtain ⟨hmem, hkey⟩ := List.mem_filter.mp hf
      exact UInt64.lt_of_le_of_lt (hdelivered f hmem (by simpa using hkey)) hseq
    · rw [List.append_nil]
      exact h.rising key
  · intro s hs
    obtain ⟨e', he', hderived⟩ := h.sessions s hs
    exact ⟨e', hmono he', hderived⟩
  · intro f hf
    obtain ⟨e', he', k, hderived, hkey⟩ := h.sent f hf
    exact ⟨e', hmono he', k, hderived, hkey⟩
  · intro f hf
    rcases List.mem_append.mp hf with hold | hnew
    · obtain ⟨e', he', k, hderived, hkey⟩ := h.got f hold
      exact ⟨e', hmono he', k, hderived, hkey⟩
    · rw [List.mem_singleton.mp hnew]
      exact ⟨e, hmono he, keys, hkeys, rfl⟩
  · simp only [Ready, hstate]
    refine ⟨⟨e, hmono he, hkeys⟩, hcount, ?_⟩
    intro f hf hkey
    rcases List.mem_append.mp hf with hold | hnew
    · exact UInt64.le_of_lt (UInt64.lt_of_le_of_lt (hdelivered f hold hkey) hseq)
    · rw [List.mem_singleton.mp hnew]
      exact UInt64.le_refl _

theorem receive_steady (hideal : Ideal P) (h : Steady j)
    (hfresh : FreshFor j (.receive message random)) :
    Steady (j.after (.receive message random)) := by
  have hcases := receive_cases j.link message random
  simp only [Journal.after]
  generalize (j.link.receive message random).1 = l' at hcases ⊢
  generalize j.link.notes message random = notes at hcases ⊢
  have hready := h.ready
  unfold Ready at hready
  cases hcases with
  | ignored =>
    simp only [List.append_nil]
    exact h.quiet rfl (List.subset_append_left _ _) rfl rfl rfl (h.ready.drawn _ _)
  | idled =>
    simp only [List.append_nil]
    exact h.quiet rfl (List.subset_append_left _ _) rfl rfl rfl trivial
  | forgotten =>
    simp only [List.append_nil]
    exact h.quiet rfl (List.subset_append_left _ _) rfl rfl rfl trivial
  | started mine hrole hdrawn =>
    subst hdrawn
    have hmem : mine ∈ Call.drawn (.receive message (.ok mine)) := List.mem_singleton_self _
    simp only [List.append_nil]
    refine h.quiet rfl (List.subset_append_left _ _) rfl rfl rfl ?_
    refine ⟨rfl, rfl, List.mem_append_right _ hmem, ?_⟩
    intro keys hkeys
    have hunused := h.unused hideal (hfresh mine hmem) hkeys
    exact ⟨hunused.opened, hunused.sealed, hunused.delivered⟩
  | answered keys signed identity h2 hrole hanswer =>
    obtain ⟨mine, rfl, hderived⟩ := answerH1_derived hanswer
    have hmem : mine ∈ Call.drawn (.receive message (.ok mine)) := List.mem_singleton_self _
    have hunused := h.unused hideal (hfresh mine hmem) (hrole ▸ hderived)
    simp only [List.append_nil]
    refine h.quiet rfl (List.subset_append_left _ _) rfl rfl rfl ?_
    exact ⟨rfl, rfl, ⟨mine, List.mem_append_right _ hmem, hrole ▸ hderived⟩,
      hunused.opened, hunused.sealed, hunused.delivered⟩
  | accepted mine keys signed identity fin hrole hstate haccept =>
    rw [hstate] at hready
    obtain ⟨hsend, -, hmine, hunused⟩ := hready
    have hderived : Derived j.link.role mine.nonce keys := hrole ▸ acceptH2_derived haccept
    simp only [List.append_nil]
    exact h.open rfl hsend ⟨mine, hmine, hderived⟩ (hunused keys hderived)
  | finished keys signed identity hrole hstate haccept =>
    rw [hstate] at hready
    obtain ⟨hsend, -, hderived, hunused⟩ := hready
    simp only [List.append_nil]
    exact h.open rfl hsend hderived hunused
  | delivered keys seq plaintext hstate hopen =>
    simp only [List.append_nil]
    exact h.deliver hstate (openData_ok hopen).1

/-- One call keeps the numbers in order. -/
theorem after_steady (hideal : Ideal P) (h : Steady j) {c : Call P} (hfresh : FreshFor j c)
    (hroom : Room j c) : Steady (j.after c) := by
  cases c with
  | start random => exact start_steady hideal h hfresh
  | receive message random => exact receive_steady hideal h hfresh
  | sealPacket plaintext => exact sealPacket_steady hideal h hroom
  | reset => exact h.quiet rfl (List.Subset.refl _) rfl rfl rfl trivial

theorem new_steady (ids : Identities P) : Steady ({ link := .new ids } : Journal P) where
  numbered key := rfl
  rising key := List.Pairwise.nil
  sessions s hs := by cases hs
  names := List.nodup_nil
  sent f hf := by cases hf
  got f hf := by cases hf
  ready := trivial

/-- What a call draws is what the journal says it drew. -/
theorem after_drawn (j : Journal P) (c : Call P) : (j.after c).drawn = j.drawn ++ c.drawn := by
  cases c with
  | start random => rfl
  | receive message random => rfl
  | sealPacket plaintext => exact (List.append_nil _).symm
  | reset => exact (List.append_nil _).symm

/-- A run in which every nonce is fresh and no counter is full. -/
theorem run_steady (hideal : Ideal P) (h : Steady j) {calls : List (Call P)}
    (hfresh : ((j.drawn ++ calls.flatMap Call.drawn).map (·.nonce)).Nodup)
    (hroom : Lib.Alongside Journal.after Room j calls) : Steady (j.run calls) := by
  induction calls generalizing j with
  | nil => exact h
  | cons c calls ih =>
    have hnew : FreshFor j c := by
      intro mine hmine e he heq
      rw [List.flatMap_cons, List.map_append, List.nodup_append] at hfresh
      refine hfresh.2.2 e.nonce (List.mem_map_of_mem he) mine.nonce ?_ heq
      exact List.mem_map_of_mem (List.mem_append_left _ hmine)
    have hrest : (((j.after c).drawn ++ calls.flatMap Call.drawn).map (·.nonce)).Nodup := by
      rw [after_drawn, List.append_assoc]
      exact hfresh
    exact ih (after_steady hideal h hnew hroom.1) hrest hroom.2

/-- Numbers that do not repeat under any one key. -/
theorem nodup_of_under {frames : List (Frame P)}
    (h : ∀ key, ((under key frames).map (fun f => f.seq.toNat)).Nodup) :
    (frames.map (fun f => (f.key, f.seq))).Nodup := by
  induction frames with
  | nil => exact List.nodup_nil
  | cons f frames ih =>
    have hcons : ∀ key, under key (f :: frames) = under key [f] ++ under key frames :=
      fun key => under_append key [f] frames
    rw [List.map_cons, List.nodup_cons]
    constructor
    · intro hmem
      obtain ⟨g, hg, heq⟩ := List.mem_map.mp hmem
      obtain ⟨hkey, hseq⟩ := Prod.mk.inj heq
      have hnodup := h f.key
      rw [hcons, under_single, if_pos rfl, List.singleton_append, List.map_cons,
        List.nodup_cons] at hnodup
      refine hnodup.1 (List.mem_map.mpr ⟨g, ?_, by rw [hseq]⟩)
      exact List.mem_filter.mpr ⟨hg, by simpa using hkey⟩
    · refine ih ?_
      intro key
      have hnodup := h key
      rw [hcons, List.map_append] at hnodup
      exact (List.nodup_append.mp hnodup).2.1

/-! ### Every session -/

/-- The frames a link sealed do not share a key and a number; the two
directions of a session do not share a key, and with it no nonce; and the
frames of every session are numbered from one without a gap. So it is
after all calls, with any messages, in which the nonces drawn are fresh
and no session seals more packets than its counter counts. -/
theorem nonce_unique (hideal : Ideal P) (ids : Identities P) (calls : List (Call P))
    (hfresh : ((calls.flatMap Call.drawn).map (·.nonce)).Nodup)
    (hroom : Lib.Alongside Journal.after Room { link := .new ids } calls) :
    ((Journal.run { link := .new ids } calls).sealed.map (fun f => (f.key, f.seq))).Nodup ∧
    (∀ s ∈ (Journal.run { link := .new ids } calls).opened, ∀ i i' : UInt64,
      (s.keys.send, iv i) ≠ (s.keys.receive, iv i')) ∧
    ∀ key, (under key (Journal.run { link := .new ids } calls).sealed).map (fun f => f.seq.toNat)
      = List.range' 1 (under key (Journal.run { link := .new ids } calls).sealed).length := by
  have hsteady := run_steady hideal (new_steady ids) hfresh hroom
  refine ⟨nodup_of_under ?_, ?_, hsteady.numbered⟩
  · intro key
    rw [hsteady.numbered key]
    exact List.nodup_range'
  · intro s hs i i' heq
    obtain ⟨e, -, hderived⟩ := hsteady.sessions s hs
    exact derived_send_ne_receive hideal hderived hderived (Prod.mk.inj heq).1

/-- `n` packets sealed one after the other. -/
theorem sealPacket_many (hideal : Ideal P) {j : Journal P} {keys : LinkKeys P}
    (hstate : j.link.state = .established keys) (plaintext : Bytes) (n : Nat) :
    j.run (List.replicate n (.sealPacket plaintext)) = { j with
      link := { j.link with sendSeq := j.link.sendSeq + UInt64.ofNat n }
      sealed := j.sealed ++ (List.range n).map
        (fun i => ⟨keys.send, j.link.sendSeq + UInt64.ofNat (i + 1), plaintext⟩) } := by
  induction n with
  | zero => simp [Journal.run]
  | succ n ih =>
    have hnext : j.link.sendSeq + UInt64.ofNat n + 1 = j.link.sendSeq + UInt64.ofNat (n + 1) := by
      rw [UInt64.add_assoc, UInt64.ofNat_add]
      rfl
    rw [List.replicate_succ', Journal.run, List.foldl_append]
    show (j.run (List.replicate n (.sealPacket plaintext))).after (.sealPacket plaintext) = _
    generalize j.run (List.replicate n (.sealPacket plaintext)) = k at ih ⊢
    have hk : k.link.state = .established keys := by
      rw [ih]
      exact hstate
    rw [sealPacket_after hideal hk, ih]
    simp only [hnext, List.range_succ, List.map_append, List.map_cons, List.map_nil,
      List.append_assoc]

/-- A counter that is far from its end has room for `n` packets. -/
theorem room_many (hideal : Ideal P) (hstate : j.link.state = .established keys) (plaintext : Bytes)
    {n : Nat} (hn : j.link.sendSeq.toNat + n < 2 ^ 64) :
    Lib.Alongside Journal.after Room j (List.replicate n (.sealPacket plaintext)) := by
  induction n generalizing j with
  | zero => trivial
  | succ n ih =>
    have hroom : j.link.sendSeq.toNat + 1 < 2 ^ 64 := by omega
    refine ⟨hroom, ?_⟩
    have hafter := sealPacket_after hideal hstate plaintext
    refine ih ?_ ?_
    · rw [hafter]
      exact hstate
    · rw [hafter]
      show (j.link.sendSeq + 1).toNat + n < 2 ^ 64
      rw [UInt64.toNat_add, UInt64.toNat_one, Nat.mod_eq_of_lt hroom]
      omega

/-- A handshake of the initiator, and `n` packets sealed. -/
def symbolicCalls (n : Nat) : List (Call symbolic) :=
  symbolicHandshake 1 2 ++ List.replicate n (.sealPacket [])

theorem symbolicCalls_drawn (n : Nat) :
    (symbolicCalls n).flatMap Call.drawn = [symbolicEphemeral 1] := by
  rw [symbolicCalls, List.flatMap_append]
  simp [symbolicHandshake, Call.drawn]

/-- Two packets of one session have two nonces. -/
theorem nonce_unique_handshake :
    ((Journal.run { link := .new (symbolicPair.ids .initiator) } (symbolicCalls 2)).sealed.map
      (fun f => (f.key, f.seq))).Nodup := by
  have hroom : Lib.Alongside Journal.after Room { link := .new (symbolicPair.ids .initiator) }
      (symbolicCalls 2) := by
    refine Lib.alongside_append.mpr ⟨⟨trivial, trivial, trivial⟩, ?_⟩
    have hopen := symbolic_opens 1 2
    rw [Journal.run] at hopen
    rw [Lib.applyAll, hopen]
    exact room_many symbolic_ideal rfl [] (by decide)
  have hfresh : (((symbolicCalls 2).flatMap Call.drawn).map (·.nonce)).Nodup := by
    rw [symbolicCalls_drawn]
    exact List.nodup_singleton _
  have hall := nonce_unique symbolic_ideal (symbolicPair.ids .initiator) (symbolicCalls 2) hfresh hroom
  exact hall.1

/-- After more packets than the counter can tell apart, the first number
has come again. -/
theorem repeats_of_lt {n : Nat} (hn : 2 ^ 64 < n) :
    ¬((Journal.run { link := .new (symbolicPair.ids .initiator) }
      (symbolicCalls n)).sealed.map (fun f => (f.key, f.seq))).Nodup := by
  intro hnodup
  have hopen := symbolic_opens 1 2
  rw [Journal.run] at hopen
  rw [symbolicCalls, Journal.run, List.foldl_append, hopen] at hnodup
  generalize hsession : Session.mk (honestText symbolicPair (symbolicEphemeral 1)
    (symbolicEphemeral 2)) (symbolicKeys 1 2) = session at hnodup
  have hmany := @sealPacket_many _ symbolic_ideal (openJournal symbolicPair .initiator
    (symbolicEphemeral 1) session) session.keys rfl [] n
  rw [Journal.run] at hmany
  rw [hmany] at hnodup
  simp only [openJournal, List.nil_append, List.map_map] at hnodup
  -- The bound stays a variable, so that nothing is counted out.
  generalize hm : 2 ^ 64 = m at hn
  have hwrap : UInt64.ofNat (0 + 1) = UInt64.ofNat (m + 1) := by
    rw [← hm]
    decide +kernel
  have hinj := List.inj_on_of_nodup_map hnodup
  have hsame := hinj (List.mem_range.mpr (Nat.zero_lt_of_lt hn)) (List.mem_range.mpr hn)
    (by simp only [Function.comp_apply, hwrap])
  omega

/-- The counter is a `u64` that is counted up without a check: a session
that seals more packets than it can tell apart uses its numbers again. -/
theorem nonce_repeats :
    Ideal symbolic ∧ (((symbolicCalls (2 ^ 64 + 1)).flatMap Call.drawn).map (·.nonce)).Nodup ∧
    ¬((Journal.run { link := .new (symbolicPair.ids .initiator) }
      (symbolicCalls (2 ^ 64 + 1))).sealed.map (fun f => (f.key, f.seq))).Nodup := by
  refine ⟨symbolic_ideal, ?_, ?_⟩
  · rw [symbolicCalls_drawn]
    exact List.nodup_singleton _
  · exact repeats_of_lt (Nat.lt_succ_self _)

end DeskLink.RelayLink
