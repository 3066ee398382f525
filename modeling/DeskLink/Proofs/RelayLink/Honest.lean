import DeskLink.RelayLink.World

/-!
# `DeskLink.Proofs.RelayLink.Honest`: a handshake that nobody disturbs

Every message of the handshake is handed over as it was sent
(`honestH1`, `honestH2`, `honestFin`).

* `initiator_opens`, `responder_answers` and `responder_opens`: it opens a
  session at both ends, with the same keys crosswise.
* `symbolic`: primitives in which a key is the text of what it was derived
  from, and a signature or a sealed packet the text of what went into it.
  They are ideal (`symbolic_ideal`).
-/

set_option autoImplicit false

namespace DeskLink.RelayLink

open Lib (Base64.encode Base64.decode)

variable {P : Primitives}

/-- Each end signs what the other end verifies, and names itself. -/
structure Pairing.Honest (ids : Pairing P) : Prop where
  signs : ∀ (r : Role) (text : String), ∃ sig, P.signText (ids.ids r).localKey text = .ok sig ∧
    P.verifyText (ids.ids r.other).peerKey text sig = true
  names : ∀ r : Role, P.deviceId (ids.ids r).localIdentity = .ok (ids.ids r.other).peerDeviceId

section Handshake

variable (ids : Pairing P) (e e' : Ephemeral P) {l : PeerLink P}

/-- What both ends sign. -/
def honestText : String :=
  transcript P ⟨(ids.ids .initiator).localFp, (ids.ids .responder).localFp, e.public, e'.public,
    e.nonce, e'.nonce, (ids.ids .initiator).localIdentity, (ids.ids .responder).localIdentity⟩

def honestH1 : Message :=
  { k := some "h1", lv := some linkVersion, eph := some (Base64.encode e.public),
    nonce := some (Base64.encode e.nonce), identity := some (ids.ids .initiator).localIdentity }

def honestH2 (sig : String) : Message :=
  { k := some "h2", lv := some linkVersion, eph := some (Base64.encode e'.public),
    nonce := some (Base64.encode e'.nonce), identity := some (ids.ids .responder).localIdentity,
    sig := some sig }

def honestFin (sig : String) : Message := { k := some "fin", sig := some sig }

/-- What each end checks of the other's identity. -/
theorem Pairing.Honest.checks {ids : Pairing P} (h : ids.Honest) {r : Role} (hl : l.ids = ids.ids r)
    {message : Message} (hidentity : message.identity = some (ids.ids r.other).localIdentity) :
    l.checkedIdentity message = .ok (ids.ids r.other).localIdentity := by
  have hother : r.other.other = r := by cases r <;> rfl
  have hname := h.names r.other
  rw [hother] at hname
  unfold PeerLink.checkedIdentity
  rw [hidentity, hl]
  simp only [Message.text, bind, Except.bind, hname, ne_eq, not_true_eq_false, if_false]

theorem bytes_encode (b : Bytes) (key : String) :
    Message.bytes (some (Base64.encode b)) key = .ok b := by
  simp only [Message.bytes, Message.text, bind, Except.bind, Lib.Base64.decode_encode]

variable {ids e e'} {secret : P.Secret} {okm : P.Key × P.Key} {sig sig' : String}

/-- The journal of an end whose session is open. -/
def openJournal (ids : Pairing P) (r : Role) (e : Ephemeral P) (session : Session P) : Journal P where
  link := { PeerLink.new (ids.ids r) with state := .established session.keys }
  drawn := [e]
  signed := [session]
  opened := [session]

theorem new_eq (ids : Pairing P) (r : Role) :
    PeerLink.new (ids.ids r) = { ids := ids.ids r, role := r } := by
  cases r with
  | initiator => rw [PeerLink.new, ids.order, if_pos rfl]
  | responder => rw [PeerLink.new, ids.order', if_neg Bool.false_ne_true]

theorem new_role (ids : Pairing P) (r : Role) : (PeerLink.new (ids.ids r)).role = r := by
  rw [new_eq]

/-- The journal of a responder that answered an `h1`. -/
def answeredJournal (ids : Pairing P) (e : Ephemeral P) (session : Session P) : Journal P where
  link := { PeerLink.new (ids.ids .responder) with
    state := .awaitingFin session.keys session.transcript (ids.ids .initiator).localIdentity }
  drawn := [e]
  signed := [session]

section
variable (h : ids.Honest)
variable (hokm : P.hkdf (e.nonce ++ e'.nonce) secret (context ++ " keys\n" ++ (ids.ids .initiator).localFp ++ "\n" ++ (ids.ids .responder).localFp) = .ok okm)
include h hokm

/-- The responder answers an honest `h1`. -/
theorem answerH1_honest (hl : l.ids = ids.ids .responder)
    (hagree : P.agree e'.key e.public = .ok secret)
    (hsig : sign P (ids.ids .responder).localKey .responder (honestText ids e e') = .ok sig) :
    l.answerH1 (honestH1 ids e) (.ok e') = .ok (⟨okm.2, okm.1⟩, honestText ids e e',
      (ids.ids .initiator).localIdentity, honestH2 ids e' sig) := by
  have hfp : (ids.ids .responder).peerFp = (ids.ids .initiator).localFp := ids.fps .responder
  have hidentity : l.checkedIdentity (honestH1 ids e) = .ok (ids.ids .initiator).localIdentity :=
    h.checks hl rfl
  unfold PeerLink.answerH1
  rw [hidentity, hl, hfp]
  simp only [honestH1, checkVersion, if_true, bytes_encode, bind, Except.bind, deriveKeys, hagree,
    hokm, pure, Except.pure]
  have hsig' : sign P (ids.ids .responder).localKey .responder (transcript P
      ⟨(ids.ids .initiator).localFp, (ids.ids .responder).localFp, e.public, e'.public, e.nonce,
        e'.nonce, (ids.ids .initiator).localIdentity, (ids.ids .responder).localIdentity⟩)
      = .ok sig := hsig
  rw [hsig']
  rfl

/-- The initiator accepts the honest `h2`. -/
theorem acceptH2_honest (hl : l.ids = ids.ids .initiator)
    (hagree : P.agree e.key e'.public = .ok secret)
    (hverify : verify P (ids.ids .initiator).peerKey .responder (honestText ids e e') sig = true)
    (hsig' : sign P (ids.ids .initiator).localKey .initiator (honestText ids e e') = .ok sig') :
    l.acceptH2 e (honestH2 ids e' sig) = .ok (⟨okm.1, okm.2⟩, honestText ids e e',
      (ids.ids .responder).localIdentity, honestFin sig') := by
  have hfp : (ids.ids .initiator).peerFp = (ids.ids .responder).localFp := ids.fps .initiator
  have hidentity : l.checkedIdentity (honestH2 ids e' sig)
      = .ok (ids.ids .responder).localIdentity := h.checks hl rfl
  have htext : transcript P ⟨(ids.ids .initiator).localFp, (ids.ids .responder).localFp, e.public,
      e'.public, e.nonce, e'.nonce, (ids.ids .initiator).localIdentity,
      (ids.ids .responder).localIdentity⟩ = honestText ids e e' := rfl
  unfold PeerLink.acceptH2
  rw [hidentity, hl, hfp]
  simp only [honestH2, checkVersion, if_true, bytes_encode, Message.text, bind, Except.bind, htext,
    hverify, hsig', Bool.not_true, Bool.false_eq_true, if_false, deriveKeys, hagree, hokm, pure,
    Except.pure]
  rfl

/-- What the initiator does in an honest handshake. -/
theorem initiator_opens (hagree : P.agree e.key e'.public = .ok secret)
    (hverify : verify P (ids.ids .initiator).peerKey .responder (honestText ids e e') sig = true)
    (hsig' : sign P (ids.ids .initiator).localKey .initiator (honestText ids e e') = .ok sig') :
    Journal.run { link := .new (ids.ids .initiator) }
        [.start (.ok e), .receive (honestH2 ids e' sig) (.error "")]
      = openJournal ids .initiator e ⟨honestText ids e e', ⟨okm.1, okm.2⟩⟩ := by
  have haccept : ∀ l : PeerLink P, l.ids = ids.ids .initiator →
      l.acceptH2 e (honestH2 ids e' sig) = .ok (⟨okm.1, okm.2⟩, honestText ids e e',
        (ids.ids .responder).localIdentity, honestFin sig') :=
    fun l hl => acceptH2_honest h hokm hl hagree hverify hsig'
  have hkind : (honestH2 ids e' sig).k.getD "" = "h2" := rfl
  simp only [Journal.run, List.foldl_cons, List.foldl_nil, Journal.after, PeerLink.start,
    PeerLink.reset, PeerLink.receive, PeerLink.notes, PeerLink.onH2, openJournal, new_eq,
    Call.drawn, hkind, haccept]
  rfl

/-- The responder answers the `h1` of an honest handshake. -/
theorem responder_answers (hagree : P.agree e'.key e.public = .ok secret)
    (hsig : sign P (ids.ids .responder).localKey .responder (honestText ids e e') = .ok sig) :
    Journal.run { link := .new (ids.ids .responder) } [.receive (honestH1 ids e) (.ok e')]
      = answeredJournal ids e' ⟨honestText ids e e', ⟨okm.2, okm.1⟩⟩ := by
  have hanswer : ∀ l : PeerLink P, l.ids = ids.ids .responder →
      l.answerH1 (honestH1 ids e) (.ok e') = .ok (⟨okm.2, okm.1⟩, honestText ids e e',
        (ids.ids .initiator).localIdentity, honestH2 ids e' sig) :=
    fun l hl => answerH1_honest h hokm hl hagree hsig
  have hkind : (honestH1 ids e).k.getD "" = "h1" := rfl
  simp only [Journal.run, List.foldl_cons, List.foldl_nil, Journal.after, PeerLink.receive,
    PeerLink.notes, PeerLink.onH1, PeerLink.reset, answeredJournal, new_eq, Call.drawn, hkind,
    hanswer]
  rfl

end

/-- The responder opens the session on the honest `fin`. -/
theorem responder_opens {session : Session P} (hverify : verify P
      (ids.ids .responder).peerKey .initiator session.transcript sig' = true) :
    (answeredJournal ids e' session).after (.receive (honestFin sig') (.error ""))
      = openJournal ids .responder e' session := by
  have haccept : ∀ l : PeerLink P, l.ids = ids.ids .responder →
      l.acceptFin session.transcript (honestFin sig') = .ok () := by
    intro l hl
    simp only [PeerLink.acceptFin, honestFin, Message.text, bind, Except.bind, hl, hverify,
      Bool.not_true, Bool.false_eq_true, if_false]
  have hkind : (honestFin sig').k.getD "" = "fin" := rfl
  simp only [answeredJournal, openJournal, new_eq, Journal.after, PeerLink.receive, PeerLink.notes,
    PeerLink.onFin, Call.drawn, hkind, haccept]
  rfl

end Handshake

/-! ### Symbolic primitives -/

/-- Bytes with an end: no code is the beginning of another. -/
def code (bytes : Bytes) : Bytes := bytes.flatMap (fun b => [1, b]) ++ [0]

theorem code_append_inj {a b x y : Bytes} (h : code a ++ x = code b ++ y) : a = b ∧ x = y := by
  induction a generalizing b with
  | nil =>
    cases b with
    | nil => exact ⟨rfl, (List.cons.inj h).2⟩
    | cons d b => exact absurd (List.cons.inj h).1 (by decide)
  | cons c a ih =>
    cases b with
    | nil => exact absurd (List.cons.inj h).1 (by decide)
    | cons d b =>
      have htail := List.cons.inj (List.cons.inj h).2
      obtain ⟨rfl, rfl⟩ := ih htail.2
      exact ⟨by rw [htail.1], rfl⟩

theorem code_inj {a b : Bytes} (h : code a = code b) : a = b := by
  have happend : code a ++ [] = code b ++ [] := by rw [h]
  exact (code_append_inj happend).1

/-- The UTF-8 bytes of a text. -/
def bytesOf (text : String) : Bytes := text.toByteArray.data.toList

theorem bytesOf_inj {a b : String} (h : bytesOf a = bytesOf b) : a = b :=
  String.toByteArray_inj.mp (ByteArray.ext (Array.toList_inj.mp h))

/-- The text of what two keys are derived from. -/
def okmText (salt : Bytes) (secret : UInt8 × UInt8) (info : String) : Bytes :=
  code salt ++ secret.1 :: secret.2 :: code (bytesOf info)

theorem okmText_inj {salt salt' : Bytes} {secret secret' : UInt8 × UInt8} {info info' : String}
    (h : okmText salt secret info = okmText salt' secret' info') :
    salt = salt' ∧ secret = secret' ∧ info = info' := by
  obtain ⟨hsalt, hrest⟩ := code_append_inj h
  obtain ⟨hfirst, hrest⟩ := List.cons.inj hrest
  obtain ⟨hsecond, hrest⟩ := List.cons.inj hrest
  exact ⟨hsalt, Prod.ext hfirst hsecond, bytesOf_inj (code_inj hrest)⟩

/-- Primitives made of texts. -/
def symbolic : Primitives where
  Scalar := UInt8
  Secret := UInt8 × UInt8
  Key := Bytes
  SigningKey := UInt8
  VerifyKey := UInt8
  decKey := inferInstance
  publicOf scalar := [scalar]
  agree scalar point :=
    match point with
    | [other] => .ok (if scalar ≤ other then (scalar, other) else (other, scalar))
    | _ => .error "Invalid relay link key"
  hkdf salt secret info := .ok (0 :: okmText salt secret info, 1 :: okmText salt secret info)
  sha256 := bytesOf
  signText key text := .ok (key :: bytesOf text)
  verifyText key text sig := decide (sig = key :: bytesOf text)
  encrypt key iv _ plaintext := .ok (code key ++ plaintext, [0, 0, 0, 0] ++ iv)
  decrypt key iv _ sealed tag :=
    if tag = [0, 0, 0, 0] ++ iv ∧ code key <+: sealed then some (sealed.drop (code key).length)
    else none
  deviceId := .ok

theorem symbolic_ideal : Ideal symbolic where
  agree_comm := fun (a b : UInt8) => by
    show Except.ok (if a ≤ b then (a, b) else (b, a)) = Except.ok (if b ≤ a then (b, a) else (a, b))
    by_cases hab : a ≤ b
    · by_cases hba : b ≤ a
      · rw [UInt8.le_antisymm hab hba]
      · rw [if_pos hab, if_neg hba]
    · have hba : b ≤ a := (UInt8.le_total a b).resolve_left hab
      rw [if_neg hab, if_pos hba]
  first_inj h h' heq := by
    cases h
    cases h'
    exact okmText_inj (List.cons.inj heq).2
  second_inj h h' heq := by
    cases h
    cases h'
    exact okmText_inj (List.cons.inj heq).2
  halves_ne h h' heq := by
    cases h
    cases h'
    exact absurd (List.cons.inj heq).1 (by decide)
  encrypt_ok key iv aad plaintext := ⟨_, rfl⟩

theorem symbolic_verifyText (key : UInt8) (text : String) :
    symbolic.verifyText key text (key :: bytesOf text) = true := decide_eq_true rfl

/-- A phone and a desktop that are paired. -/
def symbolicPair : Pairing symbolic where
  ids r :=
    match r with
    | .initiator => ⟨"AAA", "ZZZ", (1 : UInt8), "phone", (2 : UInt8), "desktop"⟩
    | .responder => ⟨"ZZZ", "AAA", (2 : UInt8), "desktop", (1 : UInt8), "phone"⟩
  fps r := by cases r <;> rfl
  order := by decide
  order' := by decide

theorem symbolicPair_honest : symbolicPair.Honest where
  signs r text := by
    cases r with
    | initiator => exact ⟨_, rfl, symbolic_verifyText 1 text⟩
    | responder => exact ⟨_, rfl, symbolic_verifyText 2 text⟩
  names r := by cases r <;> rfl

/-- The ephemeral with scalar `n` and `n` for a nonce. -/
def symbolicEphemeral (n : UInt8) : Ephemeral symbolic := ⟨n, List.replicate 32 n, List.length_replicate⟩

/-- The signature of the end `r` under the handshake of two ephemerals. -/
def symbolicSig (r : Role) (m n : UInt8) : String :=
  Base64.encode ((match r with | .initiator => 1 | .responder => 2) :: bytesOf (r.label
    ++ honestText symbolicPair (symbolicEphemeral m) (symbolicEphemeral n)))

/-- A text that an honest signature proves is the text that was signed. -/
theorem symbolic_proved {key key' : UInt8} {text text' : String}
    (h : symbolic.verifyText key' text' (key :: bytesOf text) = true) : text' = text := by
  have heq : key :: bytesOf text = key' :: bytesOf text' := of_decide_eq_true h
  exact (bytesOf_inj (List.cons.inj heq).2).symm

/-- A packet as the relay carries it. -/
def symbolicData (key : Bytes) (seq : UInt64) (plaintext : Bytes) : Message :=
  { k := some "d", seq := some seq,
    ct := some (Base64.encode (code key ++ plaintext ++ ([0, 0, 0, 0] ++ iv seq))) }

theorem symbolic_opens_iff {key key' plaintext plaintext' : Bytes} {seq seq' : UInt64} :
    cryptoOpen symbolic key' seq' (Base64.encode (code key ++ plaintext ++ ([0, 0, 0, 0] ++ iv seq)))
        = .ok plaintext' ↔ key' = key ∧ iv seq' = iv seq ∧ plaintext' = plaintext := by
  have htag : ([0, 0, 0, 0] ++ iv seq : Bytes).length = tagBytes := rfl
  have hlen : (code key ++ plaintext ++ ([0, 0, 0, 0] ++ iv seq)).length
      = (code key ++ plaintext).length + tagBytes := by
    rw [List.length_append, htag]
  have htake : (code key ++ plaintext ++ ([0, 0, 0, 0] ++ iv seq)).take
      ((code key ++ plaintext).length + tagBytes - tagBytes) = code key ++ plaintext := by
    rw [Nat.add_sub_cancel, List.take_left]
  have hdrop : (code key ++ plaintext ++ ([0, 0, 0, 0] ++ iv seq)).drop
      ((code key ++ plaintext).length + tagBytes - tagBytes) = [0, 0, 0, 0] ++ iv seq := by
    rw [Nat.add_sub_cancel, List.drop_left]
  have hdecrypt : symbolic.decrypt key' (iv seq') dataAad (code key ++ plaintext)
      ([0, 0, 0, 0] ++ iv seq) = if key' = key ∧ iv seq' = iv seq then some plaintext else none := by
    show (if ([0, 0, 0, 0] ++ iv seq : Bytes) = [0, 0, 0, 0] ++ iv seq' ∧
      code key' <+: code key ++ plaintext then
        some ((code key ++ plaintext).drop (code key').length) else none) = _
    by_cases hkey : key' = key
    · subst hkey
      by_cases hiv : iv seq' = iv seq
      · rw [if_pos ⟨by rw [hiv], List.prefix_append _ _⟩, if_pos ⟨rfl, hiv⟩, List.drop_left]
      · rw [if_neg (fun h => hiv (List.append_cancel_left h.1).symm), if_neg (fun h => hiv h.2)]
    · rw [if_neg, if_neg (fun h => hkey h.1)]
      rintro ⟨-, rest, hrest⟩
      exact hkey (code_append_inj hrest).1
  unfold cryptoOpen
  rw [Lib.Base64.decode_encode]
  simp only [hlen, htake, hdrop, hdecrypt]
  rw [if_neg (by omega)]
  by_cases hboth : key' = key ∧ iv seq' = iv seq
  · rw [if_pos hboth]
    simp only [Except.ok.injEq, hboth, true_and]
    exact eq_comm
  · rw [if_neg hboth]
    simp only [reduceCtorEq, false_iff]
    exact fun h => hboth ⟨h.1, h.2.1⟩

/-- The keys of that handshake, as the initiator uses them. -/
def symbolicKeys (m n : UInt8) : LinkKeys symbolic :=
  let text := okmText (List.replicate 32 m ++ List.replicate 32 n) (if m ≤ n then (m, n) else (n, m))
    (context ++ " keys\n" ++ "AAA" ++ "\n" ++ "ZZZ")
  ⟨0 :: text, 1 :: text⟩

theorem symbolicSig_sign (r : Role) (m n : UInt8) :
    sign symbolic (symbolicPair.ids r).localKey r
      (honestText symbolicPair (symbolicEphemeral m) (symbolicEphemeral n))
        = .ok (symbolicSig r m n) := by
  cases r <;> rfl

theorem symbolicSig_verify (r : Role) (m n : UInt8) :
    verify symbolic (symbolicPair.ids r.other).peerKey r
      (honestText symbolicPair (symbolicEphemeral m) (symbolicEphemeral n)) (symbolicSig r m n)
        = true := by
  unfold verify symbolicSig
  rw [Lib.Base64.decode_encode]
  cases r with
  | initiator => exact symbolic_verifyText 1 _
  | responder => exact symbolic_verifyText 2 _

/-- The calls of the initiator in a handshake. -/
def symbolicHandshake (m n : UInt8) : List (Call symbolic) :=
  [.start (.ok (symbolicEphemeral m)),
    .receive (honestH2 symbolicPair (symbolicEphemeral n) (symbolicSig .responder m n)) (.error "")]

theorem symbolic_opens (m n : UInt8) :
    Journal.run { link := .new (symbolicPair.ids .initiator) } (symbolicHandshake m n)
      = openJournal symbolicPair .initiator (symbolicEphemeral m)
        ⟨honestText symbolicPair (symbolicEphemeral m) (symbolicEphemeral n), symbolicKeys m n⟩ :=
  initiator_opens symbolicPair_honest rfl rfl (symbolicSig_verify .responder m n)
    (symbolicSig_sign .initiator m n)

end DeskLink.RelayLink
