import DeskLink.RelayLink.World

/-!
# `DeskLink.Proofs.RelayLink.Steps`: what a call can do

`receive_cases` and `start_cases` list everything that a message and a
start can do to a link, with what it noted (`Received`). `answerH1_ok`,
`acceptH2_ok`, `acceptFin_ok` and `openData_ok` say what a step of the
handshake that succeeds has checked.
-/

set_option autoImplicit false

namespace DeskLink.RelayLink

variable {P : Primitives} {l : PeerLink P} {message : Message}
variable {random : Except String (Ephemeral P)} {identity signed : String} {keys : LinkKeys P}

/-- From a computation that succeeded, its first part. -/
theorem except_bind_ok {α β : Type} {x : Except String α} {f : α → Except String β} {b : β}
    (h : (x >>= f) = .ok b) : ∃ a, x = .ok a ∧ f a = .ok b := by
  cases x with
  | error e => cases h
  | ok a => exact ⟨a, rfl, h⟩

/-! ### Steps of the handshake -/

/-- An `h1` that is answered: a new ephemeral, the keys derived with it and
the transcript that names it. -/
theorem answerH1_ok {h2 : Message}
    (h : l.answerH1 message random = .ok (keys, signed, identity, h2)) :
    ∃ (mine : Ephemeral P) (peerEph peerNonce : Bytes), random = .ok mine ∧
      deriveKeys P mine peerEph .responder l.ids.peerFp l.ids.localFp peerNonce mine.nonce
        = .ok keys ∧
      signed = transcript P ⟨l.ids.peerFp, l.ids.localFp, peerEph, mine.public, peerNonce,
        mine.nonce, identity, l.ids.localIdentity⟩ := by
  unfold PeerLink.answerH1 at h
  obtain ⟨-, -, h⟩ := except_bind_ok h
  obtain ⟨peerEph, -, h⟩ := except_bind_ok h
  obtain ⟨peerNonce, -, h⟩ := except_bind_ok h
  obtain ⟨identity', -, h⟩ := except_bind_ok h
  obtain ⟨mine, hmine, h⟩ := except_bind_ok h
  obtain ⟨keys', hkeys, h⟩ := except_bind_ok h
  obtain ⟨sig, -, h⟩ := except_bind_ok h
  cases h
  exact ⟨mine, peerEph, peerNonce, hmine, hkeys, rfl⟩

/-- An `h2` that is accepted: the other end's signature over the transcript
that names the ephemeral of this handshake, and the keys derived with it. -/
theorem acceptH2_ok {mine : Ephemeral P} {fin : Message}
    (h : l.acceptH2 mine message = .ok (keys, signed, identity, fin)) :
    ∃ (peerEph peerNonce : Bytes) (sig : String), message.sig = some sig ∧
      verify P l.ids.peerKey .responder signed sig = true ∧
      deriveKeys P mine peerEph .initiator l.ids.localFp l.ids.peerFp mine.nonce peerNonce
        = .ok keys ∧
      signed = transcript P ⟨l.ids.localFp, l.ids.peerFp, mine.public, peerEph, mine.nonce,
        peerNonce, l.ids.localIdentity, identity⟩ := by
  unfold PeerLink.acceptH2 at h
  obtain ⟨-, -, h⟩ := except_bind_ok h
  obtain ⟨peerEph, -, h⟩ := except_bind_ok h
  obtain ⟨peerNonce, -, h⟩ := except_bind_ok h
  obtain ⟨identity', -, h⟩ := except_bind_ok h
  obtain ⟨sig, hsig, h⟩ := except_bind_ok h
  split at h
  · cases h
  · rename_i hverify
    obtain ⟨keys', hkeys, h⟩ := except_bind_ok h
    obtain ⟨fin', -, h⟩ := except_bind_ok h
    cases h
    refine ⟨peerEph, peerNonce, sig, ?_, by simpa using hverify, hkeys, rfl⟩
    unfold Message.text at hsig
    split at hsig
    · rename_i value hvalue
      rw [hvalue, ← Except.ok.inj hsig]
    · cases hsig

theorem acceptFin_ok (h : l.acceptFin signed message = .ok ()) :
    ∃ sig, message.sig = some sig ∧ verify P l.ids.peerKey .initiator signed sig = true := by
  unfold PeerLink.acceptFin at h
  obtain ⟨sig, hsig, h⟩ := except_bind_ok h
  split at h
  · cases h
  · rename_i hverify
    refine ⟨sig, ?_, by simpa using hverify⟩
    unfold Message.text at hsig
    split at hsig
    · rename_i value hvalue
      rw [hvalue, ← Except.ok.inj hsig]
    · cases hsig

/-- A packet that is opened has a number above the last. -/
theorem openData_ok {seq : UInt64} {plaintext : Bytes}
    (h : l.openData keys message = .ok (seq, plaintext)) :
    l.receiveSeq < seq ∧ ∃ ct, message.ct = some ct ∧
      cryptoOpen P keys.receive seq ct = .ok plaintext := by
  unfold PeerLink.openData at h
  split at h
  · cases h
  · split at h
    · cases h
    · rename_i hseq
      obtain ⟨ct, hct, h⟩ := except_bind_ok h
      obtain ⟨plaintext', hopen, h⟩ := except_bind_ok h
      cases h
      refine ⟨UInt64.not_le.mp hseq, ct, ?_, hopen⟩
      unfold Message.text at hct
      split at hct
      · rename_i value hvalue
        rw [hvalue, ← Except.ok.inj hct]
      · cases hct

/-! ### Calls -/

/-- What a message can do to a link: the link after it and what is noted. -/
inductive Received (l : PeerLink P) (message : Message) (random : Except String (Ephemeral P)) :
    PeerLink P → Notes P → Prop
  /-- Nothing. -/
  | ignored : Received l message random l {}
  /-- The session is over. -/
  | idled : Received l message random { l with state := .idle } {}
  /-- The session is over, and the counters start again. -/
  | forgotten : Received l message random l.reset {}
  | started (mine : Ephemeral P) (hrole : l.role = .initiator) (hdrawn : random = .ok mine) :
      Received l message random { l.reset with state := .awaitingH2 mine } {}
  | answered (keys : LinkKeys P) (signed identity : String) (h2 : Message)
      (hrole : l.role = .responder)
      (hanswer : l.reset.answerH1 message random = .ok (keys, signed, identity, h2)) :
      Received l message random { l.reset with state := .awaitingFin keys signed identity }
        { signed := [⟨signed, keys⟩] }
  | accepted (mine : Ephemeral P) (keys : LinkKeys P) (signed identity : String) (fin : Message)
      (hrole : l.role = .initiator) (hstate : l.state = .awaitingH2 mine)
      (haccept : PeerLink.acceptH2 { l with state := .idle } mine message
        = .ok (keys, signed, identity, fin)) :
      Received l message random { l with state := .established keys }
        { signed := [⟨signed, keys⟩], opened := [⟨signed, keys⟩] }
  | finished (keys : LinkKeys P) (signed identity : String) (hrole : l.role = .responder)
      (hstate : l.state = .awaitingFin keys signed identity)
      (haccept : PeerLink.acceptFin { l with state := .idle } signed message = .ok ()) :
      Received l message random { l with state := .established keys }
        { opened := [⟨signed, keys⟩] }
  | delivered (keys : LinkKeys P) (seq : UInt64) (plaintext : Bytes)
      (hstate : l.state = .established keys)
      (hopen : l.openData keys message = .ok (seq, plaintext)) :
      Received l message random { l with receiveSeq := seq }
        { delivered := [⟨keys.receive, seq, plaintext⟩] }

/-- A start forgets the session; the initiator draws an ephemeral. -/
theorem start_cases (l : PeerLink P) (random : Except String (Ephemeral P)) :
    (l.start random).1 = l.reset ∨
      ∃ mine, l.role = .initiator ∧ random = .ok mine ∧
        (l.start random).1 = { l.reset with state := .awaitingH2 mine } := by
  cases hr : l.role with
  | responder => exact Or.inl (by simp [PeerLink.start, PeerLink.reset, hr])
  | initiator =>
    cases random with
    | error e => exact Or.inl (by simp [PeerLink.start, PeerLink.reset, hr])
    | ok mine => exact Or.inr ⟨mine, rfl, rfl, by simp [PeerLink.start, PeerLink.reset, hr]⟩

/-- What a message from the relay does. -/
theorem receive_cases (l : PeerLink P) (message : Message) (random : Except String (Ephemeral P)) :
    Received l message random (l.receive message random).1 (l.notes message random) := by
  -- A start on a kick.
  have hstart : Received l message random (l.start random).1 {} := by
    rcases start_cases l random with heq | ⟨mine, hrole, hdrawn, heq⟩
    · rw [heq]
      exact .forgotten
    · rw [heq]
      exact .started mine hrole hdrawn
  obtain ⟨ids, role, state, sendSeq, receiveSeq⟩ := l
  unfold PeerLink.receive PeerLink.notes
  generalize message.k.getD "" = kind
  simp only
  split
  · -- kick
    cases state with
    | awaitingH2 mine => exact .ignored
    | idle => exact hstart
    | awaitingFin keys signed identity => exact hstart
    | established keys => exact hstart
  · -- h1
    simp only [PeerLink.onH1]
    split
    · rename_i e hanswer
      rw [hanswer]
      exact .forgotten
    · rename_i keys signed identity h2 hanswer
      rw [hanswer]
      exact .answered keys signed identity h2 rfl hanswer
  · -- h2
    cases state with
    | awaitingH2 mine =>
      simp only [PeerLink.onH2]
      split
      · rename_i e haccept
        rw [haccept]
        exact .idled
      · rename_i keys signed identity fin haccept
        rw [haccept]
        exact .accepted mine keys signed identity fin rfl rfl haccept
    | idle => exact .idled
    | awaitingFin keys signed identity => exact .idled
    | established keys => exact .idled
  · -- fin
    cases state with
    | awaitingFin keys signed identity =>
      simp only [PeerLink.onFin]
      split
      · rename_i e haccept
        rw [haccept]
        exact .idled
      · rename_i haccept
        rw [haccept]
        exact .finished keys signed identity rfl rfl haccept
    | idle => exact .idled
    | awaitingH2 mine => exact .idled
    | established keys => exact .idled
  · -- d
    cases state with
    | established keys =>
      simp only [PeerLink.onData]
      split
      · rename_i e hopen
        rw [hopen]
        exact .ignored
      · rename_i seq plaintext hopen
        rw [hopen]
        exact .delivered keys seq plaintext rfl hopen
    | idle => exact .ignored
    | awaitingH2 mine => exact .ignored
    | awaitingFin keys signed identity => exact .ignored
  · -- Anything else is refused.
    rename_i hd _ hh1 hh2 hfin
    split
    · exact (hh1 rfl rfl).elim
    · exact (hh2 rfl rfl).elim
    · exact (hfin rfl rfl).elim
    · exact (hd rfl).elim
    · exact .ignored

end DeskLink.RelayLink
