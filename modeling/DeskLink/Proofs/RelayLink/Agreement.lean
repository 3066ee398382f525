import DeskLink.Lib.Text
import DeskLink.Proofs.RelayLink.Nonce

/-!
# `DeskLink.Proofs.RelayLink.Agreement`: a hostile relay

`Made ids r drawn s` says how the end `r` came to sign the session `s`: with
an ephemeral of its own, the transcript that names it, and the keys derived
with it. Two ends that signed the same transcript have the same keys
crosswise (`made_crosswise`), because the transcript can be read back
(`transcript_inj`).

`Agreed` is what every action keeps, whatever the relay builds.

* `after_agreed`: one action.
* `link_agreement`: the run.
-/

set_option autoImplicit false

namespace DeskLink.RelayLink

variable {P : Primitives} {r : Role} {ids : Pairing P} {s s' : Session P} {j : Journal P}
variable {keys : LinkKeys P} {message : Message} {signed identity : String} {w : World P} {m : Nat}
variable {drawn : List (Ephemeral P)} {l : PeerLink P} {random : Except String (Ephemeral P)}
variable {seq : UInt64} {actions : List (Role × Call P)}

/-! ### Reading back what was signed and sealed -/

theorem label_append_inj {r' : Role} {t t' : String} (h : r.label ++ t = r'.label ++ t') :
    r = r' ∧ t = t' := by
  have hlist : r.label.toList ++ t.toList = r'.label.toList ++ t'.toList := by
    rw [← String.toList_append, ← String.toList_append, h]
  cases r <;> cases r'
  · exact ⟨rfl, String.toList_inj.mp (List.append_cancel_left hlist)⟩
  · exact absurd (List.cons.inj hlist).1 (by decide)
  · exact absurd (List.cons.inj hlist).1 (by decide)
  · exact ⟨rfl, String.toList_inj.mp (List.append_cancel_left hlist)⟩

/-- A line that is the base64 of something is read back. -/
theorem line_inj {a b : Bytes} {t u : List Char}
    (h : (Lib.Base64.encode a).toList ++ '\n' :: t = (Lib.Base64.encode b).toList ++ '\n' :: u) :
    a = b ∧ t = u := by
  obtain ⟨hline, hrest⟩ := Lib.append_cons_inj_first (Lib.Base64.newline_not_mem_encode a)
    (Lib.Base64.newline_not_mem_encode b) h
  exact ⟨Lib.Base64.encode_inj (String.toList_inj.mp hline), hrest⟩

/-- A text and the line after it. -/
theorem toList_line (s t : String) : (s ++ "\n" ++ t).toList = s.toList ++ '\n' :: t.toList := by
  rw [String.toList_append, String.toList_append, List.append_assoc]
  rfl

/-- The ephemerals and nonces in a transcript of two given devices. -/
theorem transcript_inj {fpI fpR : String} {x x' y y' m m' n n' : Bytes} {i i' k k' : String}
    (h : transcript P ⟨fpI, fpR, x, y, m, n, i, k⟩ = transcript P ⟨fpI, fpR, x', y', m', n', i', k'⟩) :
    x = x' ∧ y = y' ∧ m = m' ∧ n = n' := by
  have hlist := congrArg String.toList h
  unfold transcript at hlist
  simp only [toList_line, List.append_assoc, List.cons_append] at hlist
  obtain ⟨-, hfps⟩ := List.cons.inj (List.append_cancel_left hlist)
  obtain ⟨-, hfps⟩ := List.cons.inj (List.append_cancel_left hfps)
  obtain ⟨-, hlines⟩ := List.cons.inj (List.append_cancel_left hfps)
  obtain ⟨hx, hlines⟩ := line_inj hlines
  obtain ⟨hy, hlines⟩ := line_inj hlines
  obtain ⟨hm, hlines⟩ := line_inj hlines
  obtain ⟨hn, -⟩ := line_inj hlines
  exact ⟨hx, hy, hm, hn⟩

/-- One more byte of two numbers is the same. -/
theorem shift_eq {a b s : Nat} (hhigh : a / 2 ^ (s + 8) = b / 2 ^ (s + 8))
    (hbyte : a / 2 ^ s % 2 ^ 8 = b / 2 ^ s % 2 ^ 8) : a / 2 ^ s = b / 2 ^ s := by
  rw [Nat.pow_add, ← Nat.div_div_eq_div_mul, ← Nat.div_div_eq_div_mul] at hhigh
  omega

/-- A number is read back from its initialisation vector. -/
theorem iv_inj {a b : UInt64} (h : iv a = iv b) : a = b := by
  have hmap := List.map_inj_left.mp (List.append_cancel_left h)
  have hbyte : ∀ s ∈ [56, 48, 40, 32, 24, 16, 8, 0],
      a.toNat / 2 ^ s % 2 ^ 8 = b.toNat / 2 ^ s % 2 ^ 8 := by
    intro s hs
    exact congrArg UInt8.toNat (hmap s hs)
  have h64 : a.toNat / 2 ^ 64 = b.toNat / 2 ^ 64 := by
    rw [Nat.div_eq_of_lt a.toNat_lt, Nat.div_eq_of_lt b.toNat_lt]
  -- From the high byte to the low one.
  have h56 := shift_eq h64 (hbyte 56 (by decide))
  have h48 := shift_eq h56 (hbyte 48 (by decide))
  have h40 := shift_eq h48 (hbyte 40 (by decide))
  have h32 := shift_eq h40 (hbyte 32 (by decide))
  have h24 := shift_eq h32 (hbyte 24 (by decide))
  have h16 := shift_eq h24 (hbyte 16 (by decide))
  have h8 := shift_eq h16 (hbyte 8 (by decide))
  have h0 := shift_eq h8 (hbyte 0 (by decide))
  rw [Nat.pow_zero, Nat.div_one, Nat.div_one] at h0
  exact UInt64.toNat_inj.mp h0

/-! ### How a session came to be signed -/

/-- The transcript of a session of the end `r`: its own parts and the
peer's. -/
def roleText (ids : Pairing P) (r : Role) (mine : Ephemeral P) (peerEph peerNonce : Bytes)
    (identityI identityR : String) : String :=
  match r with
  | .initiator => transcript P ⟨(ids.ids .initiator).localFp, (ids.ids .responder).localFp,
      mine.public, peerEph, mine.nonce, peerNonce, identityI, identityR⟩
  | .responder => transcript P ⟨(ids.ids .initiator).localFp, (ids.ids .responder).localFp,
      peerEph, mine.public, peerNonce, mine.nonce, identityI, identityR⟩

/-- The end `r` signed `s` with an ephemeral it drew. -/
def Made (ids : Pairing P) (r : Role) (drawn : List (Ephemeral P)) (s : Session P) : Prop :=
  ∃ mine ∈ drawn, ∃ (peerEph peerNonce : Bytes) (identityI identityR : String)
    (secret : P.Secret) (okm : P.Key × P.Key),
    s.transcript = roleText ids r mine peerEph peerNonce identityI identityR ∧
    P.agree mine.key peerEph = .ok secret ∧
    P.hkdf (saltOf r mine.nonce peerNonce) secret (context ++ " keys\n"
      ++ (ids.ids .initiator).localFp ++ "\n" ++ (ids.ids .responder).localFp) = .ok okm ∧
    s.keys = halves r okm

theorem Made.mono {more : List (Ephemeral P)} (h : Made ids r drawn s) (hsub : drawn ⊆ more) :
    Made ids r more s := by
  obtain ⟨mine, hmine, hrest⟩ := h
  exact ⟨mine, hsub hmine, hrest⟩

/-- Two ends that signed the same transcript agreed on one secret, from
ephemerals of their own, and use its keys crosswise. -/
theorem made_crosswise (hideal : Ideal P) {drawn' : List (Ephemeral P)}
    (h : Made ids .initiator drawn s) (h' : Made ids .responder drawn' s')
    (heq : s'.transcript = s.transcript) :
    s'.keys = s.keys.swap ∧ ∃ e ∈ drawn, ∃ e' ∈ drawn', ∃ secret salt info okm,
      P.agree e.key e'.public = .ok secret ∧ P.hkdf salt secret info = .ok okm ∧
        s.keys = ⟨okm.1, okm.2⟩ := by
  obtain ⟨e, he, peerEph, peerNonce, i, k, secret, okm, htext, hagree, hokm, hkeys⟩ := h
  obtain ⟨e', he', peerEph', peerNonce', i', k', secret', okm', htext', hagree', hokm', hkeys'⟩ := h'
  rw [htext, htext'] at heq
  obtain ⟨rfl, hpublic, rfl, hnonce⟩ := transcript_inj heq
  -- Each end used the other's ephemeral.
  have hsecret : secret' = secret := by
    have hcomm := hideal.agree_comm e'.key e.key
    rw [← hpublic] at hagree
    have hsame : P.agree e'.key e.public = P.agree e.key e'.public := hcomm
    rw [hagree', hagree] at hsame
    exact Except.ok.inj hsame
  subst hsecret
  have hsalt : saltOf .responder e'.nonce e.nonce = saltOf .initiator e.nonce peerNonce := by
    rw [← hnonce]
    rfl
  rw [hsalt, hokm] at hokm'
  obtain rfl := Except.ok.inj hokm'
  refine ⟨?_, e, he, e', he', secret', _, _, okm, ?_, hokm, hkeys⟩
  · rw [hkeys, hkeys']
    rfl
  · rw [← hpublic] at hagree
    exact hagree

/-! ### What every action keeps -/

/-- What the journal of the end `r` says, beside the journal of the other
end: whatever it signed it made; it waits for the proof of a session it
signed; it opened sessions that the other end signed too; and it delivered
frames of the other end. -/
structure Kept (ids : Pairing P) (r : Role) (j peer : Journal P) : Prop where
  ids_eq : j.link.ids = ids.ids r
  role_eq : j.link.role = r
  steady : Steady j
  made : ∀ s ∈ j.signed, Made ids r j.drawn s
  waiting : ∀ keys signed identity, j.link.state = .awaitingFin keys signed identity →
    ⟨signed, keys⟩ ∈ j.signed
  opened : ∀ s ∈ j.opened, s ∈ j.signed ∧ ∃ s' ∈ peer.signed, s'.transcript = s.transcript
  current : ∀ keys, j.link.state = .established keys → ∃ s ∈ j.opened, s.keys = keys
  delivered : ∀ f ∈ j.delivered, f ∈ peer.sealed

/-- Both ends' journals are in order. -/
def Agreed (ids : Pairing P) (w : World P) : Prop := ∀ r, Kept ids r (w r) (w r.other)

theorem Role.other_ne (r : Role) : r.other ≠ r := by cases r <;> decide

/-- The other end's journal only grows. -/
theorem Kept.peer {peer peer' : Journal P} (h : Kept ids r j peer)
    (hsigned : peer.signed ⊆ peer'.signed) (hsealed : peer.sealed ⊆ peer'.sealed) :
    Kept ids r j peer' where
  ids_eq := h.ids_eq
  role_eq := h.role_eq
  steady := h.steady
  made := h.made
  waiting := h.waiting
  opened s hs := by
    obtain ⟨hmine, s', hs', heq⟩ := h.opened s hs
    exact ⟨hmine, s', hsigned hs', heq⟩
  current := h.current
  delivered f hf := hsealed (h.delivered f hf)

/-- Nothing was signed, opened or delivered, and no session is new. -/
theorem Kept.quiet {j' peer : Journal P} (h : Kept ids r j peer) (hids : j'.link.ids = j.link.ids)
    (hrole : j'.link.role = j.link.role) (hsteady : Steady j') (hdrawn : j.drawn ⊆ j'.drawn)
    (hsigned : j'.signed = j.signed) (hopened : j'.opened = j.opened)
    (hdelivered : j'.delivered = j.delivered)
    (hstate : j'.link.state = j.link.state ∨ j'.link.state = .idle ∨
      ∃ mine, j'.link.state = .awaitingH2 mine) : Kept ids r j' peer where
  ids_eq := hids.trans h.ids_eq
  role_eq := hrole.trans h.role_eq
  steady := hsteady
  made s hs := (h.made s (hsigned ▸ hs)).mono hdrawn
  waiting keys signed identity hs := by
    rcases hstate with hsame | hidle | ⟨mine, hmine⟩
    · exact hsigned ▸ h.waiting keys signed identity (hsame.symm.trans hs)
    · exact absurd (hidle.symm.trans hs) (by simp)
    · exact absurd (hmine.symm.trans hs) (by simp)
  opened s hs := hsigned ▸ h.opened s (hopened ▸ hs)
  current keys hs := by
    rcases hstate with hsame | hidle | ⟨mine, hmine⟩
    · exact hopened ▸ h.current keys (hsame.symm.trans hs)
    · exact absurd (hidle.symm.trans hs) (by simp)
    · exact absurd (hmine.symm.trans hs) (by simp)
  delivered f hf := h.delivered f (hdelivered ▸ hf)

theorem answerH1_made (hids : l.ids = ids.ids .responder) {h2 : Message}
    (h : l.answerH1 message random = .ok (keys, signed, identity, h2)) :
    ∃ mine, random = .ok mine ∧ Made ids .responder [mine] ⟨signed, keys⟩ := by
  obtain ⟨mine, peerEph, peerNonce, hmine, hkeys, htext⟩ := answerH1_ok h
  have hfp : (ids.ids .responder).peerFp = (ids.ids .initiator).localFp := ids.fps .responder
  rw [hids, hfp] at hkeys htext
  obtain ⟨secret, okm, hagree, hokm, hhalves⟩ := deriveKeys_ok hkeys
  exact ⟨mine, hmine, mine, List.mem_singleton_self _, peerEph, peerNonce, identity, _, secret, okm,
    htext, hagree, hokm, hhalves⟩

theorem acceptH2_made (hids : l.ids = ids.ids .initiator) {mine : Ephemeral P} {fin : Message}
    (h : l.acceptH2 mine message = .ok (keys, signed, identity, fin)) :
    Made ids .initiator [mine] ⟨signed, keys⟩ := by
  obtain ⟨peerEph, peerNonce, sig, -, -, hkeys, htext⟩ := acceptH2_ok h
  have hfp : (ids.ids .initiator).peerFp = (ids.ids .responder).localFp := ids.fps .initiator
  rw [hids, hfp] at hkeys htext
  obtain ⟨secret, okm, hagree, hokm, hhalves⟩ := deriveKeys_ok hkeys
  exact ⟨mine, List.mem_singleton_self _, peerEph, peerNonce, _, identity, secret, okm, htext,
    hagree, hokm, hhalves⟩

/-- A signature that the relay hands over is the other end's. -/
theorem World.CanBuild.verified (h : w.CanBuild r message) {sig : String}
    (hsig : message.sig = some sig) {role : Role}
    (hverify : verify P (w r).link.ids.peerKey role signed sig = true) :
    ∃ s' ∈ (w r.other).signed, s'.transcript = signed := by
  unfold verify at hverify
  split at hverify
  · cases hverify
  · rename_i bytes hbytes
    obtain ⟨s', hs', htext⟩ := h.signature sig hsig bytes hbytes _ hverify
    exact ⟨s', hs', (label_append_inj htext).2.symm⟩

/-- A session that both ends signed: its keys are the two ends'. -/
theorem Agreed.guards (hideal : Ideal P) (h : Agreed ids w) (hs : s ∈ (w r).signed)
    (hs' : s' ∈ (w r.other).signed) (heq : s'.transcript = s.transcript) :
    s'.keys = s.keys.swap ∧ w.Guards s.keys.receive := by
  have hmade := (h r).made s hs
  have hmade' := (h r.other).made s' hs'
  cases r with
  | initiator =>
    obtain ⟨hswap, e, he, e', he', secret, salt, info, okm, hagree, hokm, hkeys⟩ :=
      made_crosswise hideal hmade hmade' heq
    refine ⟨hswap, .initiator, .responder, e, he, e', he', secret, salt, info, okm, hagree, hokm, ?_⟩
    rw [hkeys]
    exact Or.inr rfl
  | responder =>
    obtain ⟨hswap, e, he, e', he', secret, salt, info, okm, hagree, hokm, hkeys⟩ :=
      made_crosswise hideal hmade' hmade heq.symm
    have hback : s'.keys = s.keys.swap := by
      rw [hswap]
      rfl
    refine ⟨hback, .initiator, .responder, e, he, e', he', secret, salt, info, okm, hagree, hokm, ?_⟩
    rw [hswap, hkeys]
    exact Or.inl rfl

/-- A packet that opens is the other end's: the relay cannot seal, and no
end sends under the key it receives under. -/
theorem Agreed.opens (hideal : Ideal P) (h : Agreed ids w) (hbuild : w.CanBuild r message)
    (hstate : (w r).link.state = .established keys) {ct : String} (hct : message.ct = some ct)
    {plaintext : Bytes} (hopen : cryptoOpen P keys.receive seq ct = .ok plaintext) :
    ⟨keys.receive, seq, plaintext⟩ ∈ (w r.other).sealed := by
  obtain ⟨s, hs, rfl⟩ := (h r).current keys hstate
  obtain ⟨hmine, s', hs', heq⟩ := (h r).opened s hs
  obtain ⟨-, hguards⟩ := h.guards hideal hmine hs' heq
  obtain ⟨r', f, hf, hkey, hiv, htext⟩ :=
    hbuild.sealed ct hct s.keys.receive seq plaintext hguards hopen
  have hframe : f = ⟨s.keys.receive, seq, plaintext⟩ := by
    obtain ⟨k, n, p⟩ := f
    obtain rfl : k = s.keys.receive := hkey
    obtain rfl : n = seq := iv_inj hiv
    obtain rfl : p = plaintext := htext
    rfl
  rw [hframe] at hf
  by_cases hr : r' = r
  · -- Not one of its own.
    subst hr
    obtain ⟨e, he, hderived⟩ := (h r').steady.sessions s hs
    obtain ⟨e', he', keys', hderived', hsend⟩ := (h r').steady.sent _ hf
    exact absurd hsend.symm (derived_send_ne_receive hideal hderived' hderived)
  · have hother : r' = r.other := by
      cases r <;> cases r' <;> simp_all [Role.other]
    exact hother ▸ hf

/-- One message, whatever the relay built. -/
theorem receive_kept (hideal : Ideal P) (h : Agreed ids w) (hbuild : w.CanBuild r message)
    (hfresh : FreshFor (w r) (.receive message random)) :
    Kept ids r ((w r).after (.receive message random)) (w r.other) := by
  have hj := h r
  have hsteady := receive_steady hideal hj.steady hfresh
  have hcases := receive_cases (w r).link message random
  have hdrawn : (w r).drawn ⊆ (w r).drawn ++ Call.drawn (.receive message random) :=
    List.subset_append_left _ _
  simp only [Journal.after] at hsteady ⊢
  generalize ((w r).link.receive message random).1 = l' at hcases hsteady ⊢
  generalize (w r).link.notes message random = notes at hcases hsteady ⊢
  cases hcases with
  | ignored =>
    exact hj.quiet rfl rfl hsteady hdrawn (List.append_nil _) (List.append_nil _)
      (List.append_nil _) (Or.inl rfl)
  | idled =>
    exact hj.quiet rfl rfl hsteady hdrawn (List.append_nil _) (List.append_nil _)
      (List.append_nil _) (Or.inr (Or.inl rfl))
  | forgotten =>
    exact hj.quiet rfl rfl hsteady hdrawn (List.append_nil _) (List.append_nil _)
      (List.append_nil _) (Or.inr (Or.inl rfl))
  | started mine hrole hrandom =>
    exact hj.quiet rfl rfl hsteady hdrawn (List.append_nil _) (List.append_nil _)
      (List.append_nil _) (Or.inr (Or.inr ⟨mine, rfl⟩))
  | answered keys signed identity h2 hrole hanswer =>
    have hr : r = .responder := hj.role_eq.symm.trans hrole
    have hids : (w r).link.reset.ids = ids.ids .responder := hr ▸ hj.ids_eq
    obtain ⟨mine, rfl, hmade⟩ := answerH1_made hids hanswer
    simp only [List.append_nil] at hsteady ⊢
    refine ⟨hj.ids_eq, hj.role_eq, hsteady, ?_, ?_, ?_, ?_, hj.delivered⟩
    · intro s hs
      rcases List.mem_append.mp hs with hold | hnew
      · exact (hj.made s hold).mono hdrawn
      · rw [List.mem_singleton.mp hnew, hr]
        exact hmade.mono (List.subset_append_right _ _)
    · intro keys' signed' identity' hs
      cases hs
      exact List.mem_append_right _ (List.mem_singleton_self _)
    · intro s hs
      obtain ⟨hmine, hpeer⟩ := hj.opened s hs
      exact ⟨List.mem_append_left _ hmine, hpeer⟩
    · intro keys' hs
      cases hs
  | accepted mine keys signed identity fin hrole hstate haccept =>
    have hr : r = .initiator := hj.role_eq.symm.trans hrole
    have hids : (w r).link.ids = ids.ids .initiator := hr ▸ hj.ids_eq
    have hmade := acceptH2_made (l := { (w r).link with state := .idle }) hids haccept
    obtain ⟨peerEph, peerNonce, sig, hsig, hverify, -, -⟩ := acceptH2_ok haccept
    have hpeer := hbuild.verified hsig hverify
    -- The ephemeral was drawn when the handshake was begun.
    have hmine : mine ∈ (w r).drawn := by
      have hready := hj.steady.ready
      unfold Ready at hready
      rw [hstate] at hready
      exact hready.2.2.1
    simp only [List.append_nil] at hsteady ⊢
    refine ⟨hj.ids_eq, hj.role_eq, hsteady, ?_, ?_, ?_, ?_, hj.delivered⟩
    · intro s hs
      rcases List.mem_append.mp hs with hold | hnew
      · exact (hj.made s hold).mono hdrawn
      · rw [List.mem_singleton.mp hnew, hr]
        refine hmade.mono ?_
        intro e he
        rw [List.mem_singleton.mp he, ← hr]
        exact hdrawn hmine
    · intro keys' signed' identity' hs
      cases hs
    · intro s hs
      rcases List.mem_append.mp hs with hold | hnew
      · obtain ⟨hsigned, hpeer⟩ := hj.opened s hold
        exact ⟨List.mem_append_left _ hsigned, hpeer⟩
      · rw [List.mem_singleton.mp hnew]
        exact ⟨List.mem_append_right _ (List.mem_singleton_self _), hpeer⟩
    · intro keys' hs
      cases hs
      exact ⟨⟨signed, keys⟩, List.mem_append_right _ (List.mem_singleton_self _), rfl⟩
  | finished keys signed identity hrole hstate haccept =>
    obtain ⟨sig, hsig, hverify⟩ := acceptFin_ok haccept
    have hpeer := hbuild.verified hsig hverify
    have hwaiting := hj.waiting keys signed identity hstate
    simp only [List.append_nil] at hsteady ⊢
    refine ⟨hj.ids_eq, hj.role_eq, hsteady, ?_, ?_, ?_, ?_, hj.delivered⟩
    · intro s hs
      exact (hj.made s hs).mono hdrawn
    · intro keys' signed' identity' hs
      cases hs
    · intro s hs
      rcases List.mem_append.mp hs with hold | hnew
      · exact hj.opened s hold
      · rw [List.mem_singleton.mp hnew]
        exact ⟨hwaiting, hpeer⟩
    · intro keys' hs
      cases hs
      exact ⟨⟨signed, keys⟩, List.mem_append_right _ (List.mem_singleton_self _), rfl⟩
  | delivered keys seq plaintext hstate hopen =>
    obtain ⟨-, ct, hct, hct'⟩ := openData_ok hopen
    have hframe := h.opens hideal hbuild hstate hct hct'
    simp only [List.append_nil] at hsteady ⊢
    refine ⟨hj.ids_eq, hj.role_eq, hsteady, ?_, hj.waiting, hj.opened, hj.current, ?_⟩
    · intro s hs
      exact (hj.made s hs).mono hdrawn
    · intro f hf
      rcases List.mem_append.mp hf with hold | hnew
      · exact hj.delivered f hold
      · rw [List.mem_singleton.mp hnew]
        exact hframe

/-- What happens at one end. -/
theorem after_kept (hideal : Ideal P) (h : Agreed ids w) {c : Call P} (hallowed : w.Allows (r, c))
    (hfresh : FreshFor (w r) c) (hroom : Room (w r) c) :
    Kept ids r ((w r).after c) (w r.other) := by
  have hj := h r
  have hsteady := after_steady hideal hj.steady hfresh hroom
  cases c with
  | start random =>
    rcases start_cases (w r).link random with heq | ⟨mine, hrole, hrandom, heq⟩
    · have hlink : ((w r).after (.start random)).link = (w r).link.reset := heq
      exact hj.quiet (by rw [hlink]; rfl) (by rw [hlink]; rfl) hsteady (List.subset_append_left _ _)
        rfl rfl rfl (Or.inr (Or.inl (by rw [hlink]; rfl)))
    · have hlink : ((w r).after (.start random)).link
          = { (w r).link.reset with state := .awaitingH2 mine } := heq
      exact hj.quiet (by rw [hlink]; rfl) (by rw [hlink]; rfl) hsteady (List.subset_append_left _ _)
        rfl rfl rfl (Or.inr (Or.inr ⟨mine, by rw [hlink]⟩))
  | receive message random => exact receive_kept hideal h hallowed hfresh
  | sealPacket plaintext =>
    have hlink : ((w r).link.sealPacket plaintext).1.ids = (w r).link.ids ∧
        ((w r).link.sealPacket plaintext).1.role = (w r).link.role ∧
        ((w r).link.sealPacket plaintext).1.state = (w r).link.state := by
      unfold PeerLink.sealPacket
      split <;> exact ⟨rfl, rfl, rfl⟩
    exact hj.quiet hlink.1 hlink.2.1 hsteady (List.Subset.refl _) rfl rfl rfl (Or.inl hlink.2.2)
  | reset => exact hj.quiet rfl rfl hsteady (List.Subset.refl _) rfl rfl rfl (Or.inr (Or.inl rfl))

/-- A journal only grows. -/
theorem after_grows (j : Journal P) (c : Call P) :
    j.signed ⊆ (j.after c).signed ∧ j.sealed ⊆ (j.after c).sealed := by
  cases c with
  | start random => exact ⟨List.Subset.refl _, List.Subset.refl _⟩
  | receive message random => exact ⟨List.subset_append_left _ _, List.Subset.refl _⟩
  | sealPacket plaintext => exact ⟨List.Subset.refl _, List.subset_append_left _ _⟩
  | reset => exact ⟨List.Subset.refl _, List.Subset.refl _⟩

/-- One action. -/
theorem after_agreed (hideal : Ideal P) (h : Agreed ids w) {action : Role × Call P}
    (hallowed : w.Allows action) (hfresh : FreshFor (w action.1) action.2)
    (hroom : Room (w action.1) action.2) : Agreed ids (w.after action) := by
  obtain ⟨r, c⟩ := action
  have hkept := after_kept hideal h hallowed hfresh hroom
  obtain ⟨hsigned, hsealed⟩ := after_grows (w r) c
  have hself : w.after (r, c) r = (w r).after c := Function.update_self ..
  have hother : ∀ r', r' ≠ r → w.after (r, c) r' = w r' := fun r' hr' => Function.update_of_ne hr' ..
  intro r'
  by_cases hr : r' = r
  · subst hr
    rw [hself, hother _ (Role.other_ne r')]
    exact hkept
  · have hr' : r'.other = r := by cases r <;> cases r' <;> simp_all [Role.other]
    have hold := h r'
    rw [hr'] at hold
    rw [hother r' hr, hr', hself]
    exact hold.peer hsigned hsealed

/-! ### Runs -/

theorem world_agreed (ids : Pairing P) : Agreed ids ids.world := by
  intro r
  refine ⟨rfl, new_role ids r, new_steady _, ?_, ?_, ?_, ?_, ?_⟩
  · intro s hs
    cases hs
  · intro keys signed identity hs
    cases hs
  · intro s hs
    cases hs
  · intro keys hs
    cases hs
  · intro f hf
    cases hf

/-- The ephemerals that the end `r` draws. -/
def drawnBy (r : Role) (actions : List (Role × Call P)) : List (Ephemeral P) :=
  (actions.filter (fun a => a.1 = r)).flatMap (fun a => a.2.drawn)

theorem run_agreed (hideal : Ideal P) (h : Agreed ids w)
    (hallowed : Lib.Alongside World.after World.Allows w actions)
    (hfresh : ∀ r, (((w r).drawn ++ drawnBy r actions).map (·.nonce)).Nodup)
    (hroom : Lib.Alongside World.after (fun w a => Room (w a.1) a.2) w actions) :
    Agreed ids (Lib.applyAll World.after w actions) := by
  induction actions generalizing w with
  | nil => exact h
  | cons action actions ih =>
    have hnew : FreshFor (w action.1) action.2 := by
      intro mine hmine e he heq
      have hnodup := hfresh action.1
      rw [List.map_append, List.nodup_append] at hnodup
      refine hnodup.2.2 e.nonce (List.mem_map_of_mem he) mine.nonce ?_ heq
      refine List.mem_map_of_mem (List.mem_flatMap.mpr ⟨action, ?_, hmine⟩)
      exact List.mem_filter.mpr ⟨List.mem_cons_self .., by simp⟩
    have hrest : ∀ r, (((w.after action r).drawn ++ drawnBy r actions).map (·.nonce)).Nodup := by
      intro r
      have hnodup := hfresh r
      by_cases hr : action.1 = r
      · subst hr
        have hself : w.after action action.1 = (w action.1).after action.2 :=
          Function.update_self ..
        rw [drawnBy, List.filter_cons_of_pos (by simp), List.flatMap_cons] at hnodup
        rw [hself, after_drawn, List.append_assoc]
        exact hnodup
      · have hother : w.after action r = w r := Function.update_of_ne (Ne.symm hr) ..
        rw [drawnBy, List.filter_cons_of_neg (by simpa using hr)] at hnodup
        rw [hother]
        exact hnodup
    exact ih (after_agreed hideal h hallowed.1 hnew hroom.1) hallowed.2 hrest hroom.2

/-- Frames with rising numbers that are all among frames with rising
numbers come in their order. -/
theorem sublist_of_rising {a b : List (Frame P)} (ha : (a.map (·.seq)).Pairwise (· < ·))
    (hb : (b.map (·.seq)).Pairwise (· < ·)) (hsub : a ⊆ b) : a.Sublist b := by
  have hanti : Std.Antisymm (fun f g : Frame P => f.seq < g.seq) :=
    ⟨fun f g h h' => absurd h' (UInt64.lt_asymm h)⟩
  rw [List.pairwise_map] at ha hb
  have hnodup : a.Nodup := by
    refine ha.imp ?_
    rintro f g h rfl
    exact UInt64.lt_irrefl _ h
  exact List.sublist_of_subperm_of_pairwise (List.subperm_of_subset hnodup hsub) ha hb

/-- Numbers from one on rise. -/
theorem Steady.sealed_rising (h : Steady j) (key : P.Key) :
    ((under key j.sealed).map (·.seq)).Pairwise (· < ·) := by
  have hnumbers : ((under key j.sealed).map (fun f => f.seq.toNat)).Pairwise (· < ·) := by
    rw [h.numbered key]
    exact List.pairwise_lt_range'
  rw [List.pairwise_map] at hnumbers ⊢
  exact hnumbers.imp (fun hlt => UInt64.lt_iff_toNat_lt.mpr hlt)

/-- Two ends agree, whatever the relay does that cannot forge. After every
run in which each end draws fresh nonces and no session seals more packets
than its counter counts: for every session that an end opened, the other
end signed the same transcript in its own role, and derived the same two
keys crosswise; the session of the end is the only one of its send key, and
while the end is established it is in a session it opened; and what the end
delivered in the session is, in order, part of what the other end sealed
in it. -/
theorem link_agreement (hideal : Ideal P) (ids : Pairing P) (actions : List (Role × Call P))
    (hallowed : Lib.Alongside World.after World.Allows ids.world actions)
    (hfresh : ∀ r, ((drawnBy r actions).map (·.nonce)).Nodup)
    (hroom : Lib.Alongside World.after (fun w a => Room (w a.1) a.2) ids.world actions) (r : Role) :
    (∀ s ∈ (Lib.applyAll World.after ids.world actions r).opened,
      ∃ s' ∈ (Lib.applyAll World.after ids.world actions r.other).signed,
        s'.transcript = s.transcript ∧ s'.keys = s.keys.swap) ∧
    ((Lib.applyAll World.after ids.world actions r).opened.map (·.keys.send)).Nodup ∧
    (∀ keys, (Lib.applyAll World.after ids.world actions r).link.state = .established keys →
      ∃ s ∈ (Lib.applyAll World.after ids.world actions r).opened, s.keys = keys) ∧
    ∀ s ∈ (Lib.applyAll World.after ids.world actions r).opened,
      ((under s.keys.receive (Lib.applyAll World.after ids.world actions r).delivered).map
        (·.plaintext)).Sublist
      ((under s.keys.receive (Lib.applyAll World.after ids.world actions r.other).sealed).map
        (·.plaintext)) := by
  have hagreed := run_agreed hideal (world_agreed ids) hallowed hfresh hroom
  generalize Lib.applyAll World.after ids.world actions = w at hagreed ⊢
  refine ⟨?_, (hagreed r).steady.names, (hagreed r).current, ?_⟩
  · intro s hs
    obtain ⟨hmine, s', hs', heq⟩ := (hagreed r).opened s hs
    exact ⟨s', hs', heq, (hagreed.guards hideal hmine hs' heq).1⟩
  · intro s hs
    refine List.Sublist.map _ (sublist_of_rising ((hagreed r).steady.rising _)
      ((hagreed r.other).steady.sealed_rising _) ?_)
    intro f hf
    obtain ⟨hmem, hkey⟩ := List.mem_filter.mp hf
    exact List.mem_filter.mpr ⟨(hagreed r).delivered f hmem, hkey⟩

/-! ### A run with symbolic primitives -/

/-- Each end sees its own calls. -/
theorem applyAll_world (w : World P) (actions : List (Role × Call P)) (r : Role) :
    Lib.applyAll World.after w actions r
      = (w r).run ((actions.filter (fun a => a.1 = r)).map (·.2)) := by
  induction actions generalizing w with
  | nil => rfl
  | cons action actions ih =>
    rw [Lib.applyAll_cons, ih]
    by_cases hr : action.1 = r
    · subst hr
      have hself : w.after action action.1 = (w action.1).after action.2 := Function.update_self ..
      rw [List.filter_cons_of_pos (by simp), hself]
      rfl
    · have hother : w.after action r = w r := Function.update_of_ne (Ne.symm hr) ..
      rw [List.filter_cons_of_neg (by simpa using hr), hother]

/-- A handshake between the phone and the desktop. -/
def symbolicShake : List (Role × Call symbolic) :=
  [(.initiator, .start (.ok (symbolicEphemeral 1))),
    (.responder, .receive (honestH1 symbolicPair (symbolicEphemeral 1)) (.ok (symbolicEphemeral 2))),
    (.initiator, .receive (honestH2 symbolicPair (symbolicEphemeral 2) (symbolicSig .responder 1 2))
      (.error "")),
    (.responder, .receive (honestFin (symbolicSig .initiator 1 2)) (.error ""))]

/-- The session that it opens, as the end `r` uses it. -/
def symbolicSession (r : Role) : Session symbolic where
  transcript := honestText symbolicPair (symbolicEphemeral 1) (symbolicEphemeral 2)
  keys := match r with
    | .initiator => symbolicKeys 1 2
    | .responder => (symbolicKeys 1 2).swap

theorem symbolic_answers :
    Journal.run { link := .new (symbolicPair.ids .responder) } [.receive
        (honestH1 symbolicPair (symbolicEphemeral 1)) (.ok (symbolicEphemeral 2))]
      = answeredJournal symbolicPair (symbolicEphemeral 2) (symbolicSession .responder) :=
  responder_answers symbolicPair_honest rfl rfl (symbolicSig_sign .responder 1 2)

theorem symbolicShake_world : Lib.applyAll World.after symbolicPair.world symbolicShake
    = fun r => openJournal symbolicPair r (match r with
      | .initiator => symbolicEphemeral 1
      | .responder => symbolicEphemeral 2) (symbolicSession r) := by
  funext r
  rw [applyAll_world]
  cases r with
  | initiator => exact symbolic_opens 1 2
  | responder =>
    show (Journal.run { link := .new (symbolicPair.ids .responder) } [.receive
      (honestH1 symbolicPair (symbolicEphemeral 1)) (.ok (symbolicEphemeral 2))]).after
        (.receive (honestFin (symbolicSig .initiator 1 2)) (.error "")) = _
    rw [symbolic_answers]
    exact responder_opens (symbolicSig_verify .initiator 1 2)

/-- A message without a signature and without a packet. -/
theorem canBuild_plain (hsig : message.sig = none) (hct : message.ct = none) :
    w.CanBuild r message where
  signature sig hs := by
    rw [hsig] at hs
    cases hs
  sealed ct hs := by
    rw [hct] at hs
    cases hs

/-- A message with a signature that the other end made. -/
theorem canBuild_signed {w : World symbolic} (hsig : message.sig = some (symbolicSig r.other 1 2))
    (hct : message.ct = none) (hsigned : symbolicSession r.other ∈ (w r.other).signed) :
    w.CanBuild r message where
  signature sig hs bytes hbytes text htext := by
    rw [hsig] at hs
    obtain rfl := Option.some.inj hs
    refine ⟨symbolicSession r.other, hsigned, ?_⟩
    rw [Option.mem_def, symbolicSig.eq_def, Lib.Base64.decode_encode] at hbytes
    obtain rfl := Option.some.inj hbytes
    exact symbolic_proved htext
  sealed ct hs := by
    rw [hct] at hs
    cases hs

/-- A packet that the other end sealed. -/
theorem canBuild_sealed {w : World symbolic} {r r' : Role} {key plaintext : Bytes} {seq : UInt64}
    (hsealed : (⟨key, seq, plaintext⟩ : Frame symbolic) ∈ (w r').sealed) :
    w.CanBuild r (symbolicData key seq plaintext) where
  signature sig hs := by cases hs
  sealed ct hs key' seq' plaintext' _ hopen := by
    obtain rfl := Option.some.inj hs
    obtain ⟨rfl, hiv, rfl⟩ := symbolic_opens_iff.mp hopen
    exact ⟨r', _, hsealed, rfl, hiv.symm, rfl⟩

theorem symbolicShake_allowed :
    Lib.Alongside World.after World.Allows symbolicPair.world symbolicShake := by
  refine ⟨trivial, canBuild_plain rfl rfl, canBuild_signed rfl rfl ?_, canBuild_signed rfl rfl ?_,
    trivial⟩
  · -- The responder signed when it answered.
    show symbolicSession .responder ∈ (Journal.run { link := .new (symbolicPair.ids .responder) }
      [.receive (honestH1 symbolicPair (symbolicEphemeral 1)) (.ok (symbolicEphemeral 2))]).signed
    rw [symbolic_answers]
    exact List.mem_singleton_self _
  · show symbolicSession .initiator ∈ (Journal.run { link := .new (symbolicPair.ids .initiator) }
      (symbolicHandshake 1 2)).signed
    rw [symbolic_opens]
    exact List.mem_singleton_self _

/-- A packet with a number above the last is delivered. -/
theorem symbolicData_delivered {j : Journal symbolic} {keys : LinkKeys symbolic}
    (hstate : j.link.state = .established keys) (hseq : j.link.receiveSeq < seq) (plaintext : Bytes)
    : j.after (.receive (symbolicData keys.receive seq plaintext) (.error "")) = { j with
      link := { j.link with receiveSeq := seq }
      delivered := j.delivered ++ [⟨keys.receive, seq, plaintext⟩] } := by
  have hopen : cryptoOpen symbolic keys.receive seq (Lib.Base64.encode
      (code keys.receive ++ plaintext ++ ([0, 0, 0, 0] ++ iv seq))) = .ok plaintext :=
    symbolic_opens_iff.mpr ⟨rfl, rfl, rfl⟩
  have hdata : j.link.openData keys (symbolicData keys.receive seq plaintext)
      = .ok (seq, plaintext) := by
    simp only [PeerLink.openData, symbolicData, Message.text, bind, Except.bind]
    rw [if_neg (UInt64.not_le.mpr hseq), hopen]
    rfl
  have hkind : (symbolicData keys.receive seq plaintext).k.getD "" = "d" := rfl
  simp only [Journal.after, PeerLink.receive, PeerLink.notes, PeerLink.onData, hkind, hstate, hdata,
    Call.drawn, List.append_nil]

/-- A handshake, a packet sealed by the phone, and delivered to the
desktop. -/
def symbolicTalk : List (Role × Call symbolic) :=
  symbolicShake ++ [(.initiator, .sealPacket [7]),
    (.responder, .receive (symbolicData (symbolicKeys 1 2).send 1 [7]) (.error ""))]

/-- The one packet that is delivered is the one that was sealed. -/
theorem link_agreement_talk :
    ((under (symbolicSession .responder).keys.receive (Lib.applyAll World.after symbolicPair.world
        symbolicTalk .responder).delivered).map (·.plaintext)).Sublist
      ((under (symbolicSession .responder).keys.receive (Lib.applyAll World.after symbolicPair.world
        symbolicTalk Role.responder.other).sealed).map (·.plaintext)) := by
  have hseal := @sealPacket_after _ symbolic_ideal (openJournal symbolicPair .initiator
    (symbolicEphemeral 1) (symbolicSession .initiator)) (symbolicKeys 1 2) rfl [7]
  have hallowed : Lib.Alongside World.after World.Allows symbolicPair.world symbolicTalk := by
    refine Lib.alongside_append.mpr ⟨symbolicShake_allowed, ?_⟩
    rw [symbolicShake_world]
    refine ⟨trivial, @canBuild_sealed _ _ .initiator _ _ _ ?_, trivial⟩
    show _ ∈ ((openJournal symbolicPair .initiator (symbolicEphemeral 1)
      (symbolicSession .initiator)).after (.sealPacket [7])).sealed
    rw [hseal]
    exact List.mem_singleton_self _
  have hfresh : ∀ r, ((drawnBy r symbolicTalk).map (·.nonce)).Nodup := by
    intro r
    cases r with
    | initiator => exact List.nodup_singleton _
    | responder => exact List.nodup_singleton _
  have hroom : Lib.Alongside World.after (fun w a => Room (w a.1) a.2) symbolicPair.world
      symbolicTalk := by
    refine Lib.alongside_append.mpr ⟨⟨trivial, trivial, trivial, trivial, trivial⟩, ?_⟩
    rw [symbolicShake_world]
    refine ⟨?_, trivial, trivial⟩
    show (0 : UInt64).toNat + 1 < 2 ^ 64
    decide
  have hopened : symbolicSession .responder
      ∈ (Lib.applyAll World.after symbolicPair.world symbolicTalk .responder).opened := by
    rw [symbolicTalk, Lib.applyAll_append, symbolicShake_world, applyAll_world]
    show symbolicSession .responder ∈ ((openJournal symbolicPair .responder (symbolicEphemeral 2)
      (symbolicSession .responder)).after
        (.receive (symbolicData (symbolicSession .responder).keys.receive 1 [7]) (.error ""))).opened
    rw [symbolicData_delivered rfl (by decide)]
    exact List.mem_singleton_self _
  exact (link_agreement symbolic_ideal symbolicPair symbolicTalk hallowed hfresh hroom
    .responder).2.2.2 _ hopened

/-- The phone seals `m` packets and one more. -/
def symbolicSeals (m : Nat) : List (Call symbolic) :=
  List.replicate m (.sealPacket [2]) ++ [.sealPacket [3]]

/-- The relay hands over the last of them first. -/
def symbolicSwapped (m : Nat) : List (Role × Call symbolic) :=
  symbolicShake ++ ((symbolicSeals m).map (fun c => (Role.initiator, c))
    ++ [(.responder, .receive (symbolicData (symbolicSession .responder).keys.receive 1 [3])
        (.error "")),
      (.responder, .receive (symbolicData (symbolicSession .responder).keys.receive 2 [2])
        (.error ""))])

/-- The frames that the phone seals. -/
theorem symbolicSeals_sealed (m : Nat) {j : Journal symbolic} {keys : LinkKeys symbolic}
    (hstate : j.link.state = .established keys) (hseq : j.link.sendSeq = 0) (hnone : j.sealed = []) :
    (j.run (symbolicSeals m)).sealed
      = (List.range m).map (fun i => ⟨keys.send, 0 + UInt64.ofNat (i + 1), [2]⟩)
        ++ [⟨keys.send, 0 + UInt64.ofNat m + 1, [3]⟩] := by
  have hmany := sealPacket_many symbolic_ideal hstate [2] m
  rw [hnone, hseq, List.nil_append] at hmany
  generalize hj' : j.run (List.replicate m (.sealPacket [2])) = j' at hmany
  have hstate' : j'.link.state = .established keys := by
    rw [hmany]
    exact hstate
  have hlast := sealPacket_after symbolic_ideal hstate' [3]
  have hrun : j.run (symbolicSeals m) = j'.after (.sealPacket [3]) := by
    rw [Journal.run] at hj'
    rw [symbolicSeals, Journal.run, List.foldl_append, hj']
    rfl
  rw [hrun, hlast, hmany]

/-- Sealing is always allowed. -/
theorem alongside_seals (h : ∀ a ∈ actions, ∃ plaintext, a.2 = .sealPacket plaintext) :
    Lib.Alongside World.after World.Allows w actions := by
  induction actions generalizing w with
  | nil => trivial
  | cons action actions ih =>
    refine ⟨?_, ih (fun a ha => h a (List.mem_cons_of_mem _ ha))⟩
    obtain ⟨plaintext, hc⟩ := h action (List.mem_cons_self ..)
    unfold World.Allows
    rw [hc]
    trivial

theorem symbolicSeals_seal {c : Call symbolic} (hc : c ∈ symbolicSeals m) :
    ∃ plaintext, c = .sealPacket plaintext := by
  rcases List.mem_append.mp hc with hc | hc
  · exact ⟨_, List.eq_of_mem_replicate hc⟩
  · exact ⟨_, List.mem_singleton.mp hc⟩

/-- The calls of the end `r` among actions of the end `r'`. -/
theorem calls_map (r r' : Role) (calls : List (Call symbolic)) :
    ((calls.map (fun c => (r', c))).filter (fun a => a.1 = r)).map (·.2)
      = if r' = r then calls else [] := by
  induction calls with
  | nil => split <;> rfl
  | cons c calls ih =>
    by_cases hr : r' = r
    · rw [if_pos hr] at ih ⊢
      rw [List.map_cons, List.filter_cons_of_pos (by simpa using hr), List.map_cons, ih]
    · rw [if_neg hr] at ih ⊢
      rw [List.map_cons, List.filter_cons_of_neg (by simpa using hr), ih]

/-- The world in which the phone has sealed all its packets. -/
def symbolicSent (m : Nat) : World symbolic :=
  Lib.applyAll World.after (Lib.applyAll World.after symbolicPair.world symbolicShake)
    ((symbolicSeals m).map (fun c => (Role.initiator, c)))

theorem symbolicSent_responder (m : Nat) : symbolicSent m .responder
    = openJournal symbolicPair .responder (symbolicEphemeral 2) (symbolicSession .responder) := by
  rw [symbolicSent, symbolicShake_world, applyAll_world, calls_map, if_neg (by decide)]
  rfl

theorem symbolicSent_initiator (m : Nat) : (symbolicSent m .initiator).sealed
    = (List.range m).map (fun i =>
        ⟨(symbolicSession .responder).keys.receive, 0 + UInt64.ofNat (i + 1), [2]⟩)
      ++ [⟨(symbolicSession .responder).keys.receive, 0 + UInt64.ofNat m + 1, [3]⟩] := by
  rw [symbolicSent, symbolicShake_world, applyAll_world, calls_map, if_pos rfl]
  exact @symbolicSeals_sealed m (openJournal symbolicPair .initiator (symbolicEphemeral 1)
    (symbolicSession .initiator)) (symbolicKeys 1 2) rfl rfl rfl

/-- Sealing draws no ephemeral. -/
theorem drawnBy_swapped (m : Nat) (r : Role) :
    drawnBy r (symbolicSwapped m) = drawnBy r symbolicShake := by
  have hseals : (((symbolicSeals m).map (fun c => (Role.initiator, c))).filter
      (fun a => a.1 = r)).flatMap (fun a => a.2.drawn) = [] := by
    rw [List.flatMap_eq_nil_iff]
    intro a ha
    obtain ⟨c, hc, rfl⟩ := List.mem_map.mp (List.mem_filter.mp ha).1
    obtain ⟨plaintext, rfl⟩ := symbolicSeals_seal hc
    rfl
  unfold symbolicSwapped
  rw [drawnBy, List.filter_append, List.filter_append, List.flatMap_append, List.flatMap_append,
    hseals, List.nil_append]
  cases r with
  | initiator => rfl
  | responder => rfl

/-- What the relay hands over is allowed: the counter has come round. -/
theorem symbolicSwapped_allowed (hm : m = 2 ^ 64) :
    Lib.Alongside World.after World.Allows symbolicPair.world (symbolicSwapped m) := by
  have hround : 0 + UInt64.ofNat m + 1 = 1 := by
    rw [hm]
    rfl
  have hmany : 1 < m := by
    rw [hm]
    exact Nat.one_lt_two_pow (by decide)
  have hfirst : (⟨(symbolicSession .responder).keys.receive, 1, [3]⟩ : Frame symbolic)
      ∈ (symbolicSent m .initiator).sealed := by
    rw [symbolicSent_initiator, hround]
    exact List.mem_append_right _ (List.mem_singleton_self _)
  have hsecond : (⟨(symbolicSession .responder).keys.receive, 2, [2]⟩ : Frame symbolic)
      ∈ (symbolicSent m .initiator).sealed := by
    rw [symbolicSent_initiator]
    exact List.mem_append_left _ (List.mem_map.mpr ⟨1, List.mem_range.mpr hmany, rfl⟩)
  refine Lib.alongside_append.mpr ⟨symbolicShake_allowed, Lib.alongside_append.mpr ⟨?_, ?_⟩⟩
  · refine alongside_seals (fun a ha => ?_)
    obtain ⟨c, hc, rfl⟩ := List.mem_map.mp ha
    exact symbolicSeals_seal hc
  · refine ⟨@canBuild_sealed _ _ .initiator _ _ _ hfirst,
      @canBuild_sealed _ _ .initiator _ _ _ ?_, trivial⟩
    show _ ∈ (Function.update (symbolicSent m) Role.responder _ Role.initiator).sealed
    rw [Function.update_of_ne (by decide)]
    exact hsecond

/-- What the desktop delivers. -/
theorem symbolicSwapped_responder (m : Nat) :
    Lib.applyAll World.after symbolicPair.world (symbolicSwapped m) .responder
      = { openJournal symbolicPair .responder (symbolicEphemeral 2) (symbolicSession .responder) with
          link := { (openJournal symbolicPair .responder (symbolicEphemeral 2)
            (symbolicSession .responder)).link with receiveSeq := 2 }
          delivered := [⟨(symbolicSession .responder).keys.receive, 1, [3]⟩,
            ⟨(symbolicSession .responder).keys.receive, 2, [2]⟩] } := by
  rw [symbolicSwapped, Lib.applyAll_append, Lib.applyAll_append, applyAll_world]
  show ((symbolicSent m .responder).after
    (.receive (symbolicData (symbolicSession .responder).keys.receive 1 [3]) (.error ""))).after
      (.receive (symbolicData (symbolicSession .responder).keys.receive 2 [2]) (.error "")) = _
  have hzero : (openJournal symbolicPair .responder (symbolicEphemeral 2)
      (symbolicSession .responder)).link.receiveSeq < 1 := by decide
  rw [symbolicSent_responder, symbolicData_delivered rfl hzero,
    symbolicData_delivered rfl (show (1 : UInt64) < 2 by decide)]
  rfl

/-- What the phone sealed. -/
theorem symbolicSwapped_initiator (m : Nat) :
    Lib.applyAll World.after symbolicPair.world (symbolicSwapped m) .initiator
      = symbolicSent m .initiator := by
  rw [symbolicSwapped, Lib.applyAll_append, Lib.applyAll_append, applyAll_world]
  rfl

/-- The order of packets is lost with the numbers: when the counter has
come round, the relay can hand over the last packet as the first, and an
earlier one after it. -/
theorem order_lost :
    Ideal symbolic ∧
    Lib.Alongside World.after World.Allows symbolicPair.world (symbolicSwapped (2 ^ 64)) ∧
    (∀ r, ((drawnBy r (symbolicSwapped (2 ^ 64))).map (·.nonce)).Nodup) ∧
    ∃ s ∈ (Lib.applyAll World.after symbolicPair.world (symbolicSwapped (2 ^ 64))
        .responder).opened,
      ¬((under s.keys.receive (Lib.applyAll World.after symbolicPair.world
          (symbolicSwapped (2 ^ 64)) .responder).delivered).map (·.plaintext)).Sublist
        ((under s.keys.receive (Lib.applyAll World.after symbolicPair.world
          (symbolicSwapped (2 ^ 64)) Role.responder.other).sealed).map (·.plaintext)) := by
  -- From here on nothing may count up to the number.
  generalize hm : 2 ^ 64 = m
  refine ⟨symbolic_ideal, symbolicSwapped_allowed hm.symm, ?_, symbolicSession .responder, ?_, ?_⟩
  · intro r
    rw [drawnBy_swapped]
    cases r with
    | initiator => exact List.nodup_singleton _
    | responder => exact List.nodup_singleton _
  · rw [symbolicSwapped_responder]
    exact List.mem_singleton_self _
  · have hdelivered : ((under (symbolicSession .responder).keys.receive (Lib.applyAll World.after
        symbolicPair.world (symbolicSwapped m) .responder).delivered).map (·.plaintext))
          = [[3], [2]] := by
      rw [symbolicSwapped_responder]
      simp [under]
    have hsealed : ((under (symbolicSession .responder).keys.receive (Lib.applyAll World.after
        symbolicPair.world (symbolicSwapped m) Role.responder.other).sealed).map (·.plaintext))
          = List.replicate m [2] ++ [[3]] := by
      show ((under _ (Lib.applyAll World.after symbolicPair.world (symbolicSwapped m)
        .initiator).sealed).map _) = _
      rw [symbolicSwapped_initiator, symbolicSent_initiator, under,
        List.filter_eq_self.mpr (by
          simp only [List.mem_append, List.mem_map, List.mem_singleton]
          rintro f (⟨i, -, rfl⟩ | rfl) <;> exact decide_eq_true rfl)]
      simp [Function.comp_def, List.map_const']
    rw [hdelivered, hsealed]
    intro hsub
    -- `[3]` is the last, so nothing is left for `[2]`.
    obtain ⟨a, b, hab, ha, hb⟩ := List.sublist_append_iff.mp hsub
    cases a with
    | nil =>
      have hlength := hb.length_le
      rw [List.nil_append] at hab
      rw [← hab] at hlength
      exact absurd hlength (by decide)
    | cons x a =>
      have hx := List.eq_of_mem_replicate (ha.subset (List.mem_cons_self ..))
      rw [List.cons_append] at hab
      exact absurd ((List.cons.inj hab).1.trans hx) (by decide)

end DeskLink.RelayLink
