import DeskLink.Lib.Base64Url
import DeskLink.Proofs.RelayLink.Agreement
import DeskLink.Proofs.RelayLink.Hex
import DeskLink.Proofs.RelayLink.Honest
import DeskLink.Session.Signaling

/-!
# `DeskLink.Proofs.Session.Signed`: signed bytes determine what is acted on

`canonicalBytes_inj` is about the signaling messages: their signed bytes determine
the header and what is read of the payload. `transcript_canonical_inj` is about the
authentication's transcript, and `link_transcript_inj` about the transcript of a
relay link. `fromNetworkPacket_toNetworkPacket` is the round trip of a message through
a packet. `signed_determines` puts them together.
-/

set_option autoImplicit false

namespace DeskLink.Signaling

open Lib (utf8Bytes sizedAll jsonString)

/-! ### Packets -/

theorem get_insert (map : Map) (key a : String) (value : Value) :
    Map.get (Map.insert map key value) a = if a = key then some value else Map.get map a := by
  have hcons : ∀ (k : String) (v : Value) (rest : Map),
      Map.get ((k, v) :: rest) a = if a = k then some v else Map.get rest a := by
    intro k v rest
    unfold Map.get
    rw [List.lookup_cons]
    by_cases h : a = k
    · simp [h]
    · have hbeq : (a == k) = false := by simpa using h
      simp [h, hbeq]
  induction map with
  | nil => simp only [Map.insert, hcons]
  | cons entry map ih =>
    obtain ⟨k, v⟩ := entry
    unfold Map.insert
    by_cases hkey : key = k
    · subst key
      rw [if_pos rfl, hcons, hcons]
      split <;> rfl
    · rw [if_neg hkey]
      split
      · rw [hcons]
      · rw [hcons, hcons, ih]
        by_cases ha : a = k
        · have hne : a ≠ key := fun h => hkey (h.symm.trans ha)
          rw [if_pos ha, if_pos ha, if_neg hne]
        · rw [if_neg ha, if_neg ha]

@[simp] theorem asI64_ofI64 (n : Int64) : (Number.ofI64 n).asI64 = some n := by
  unfold Number.ofI64
  split
  · rfl
  · rename_i hnot
    have hpos : 0 ≤ n.toInt := by
      by_contra hneg
      exact hnot (Int64.lt_iff_toInt_lt.mpr (by simpa using hneg))
    have hlt := n.toInt_lt
    have hnat : (UInt64.ofNat n.toInt.toNat).toNat = n.toInt.toNat := by
      rw [UInt64.toNat_ofNat', Nat.mod_eq_of_lt]
      omega
    have hcast : ((n.toInt.toNat : Nat) : Int) = n.toInt := Int.toNat_of_nonneg hpos
    rw [Number.asI64, hnat, if_pos (by omega), hcast, Int64.ofInt_toInt]

@[simp] theorem parse_wireName (t : SignalingMessageType) :
    SignalingMessageType.parse t.wireName = .ok t := by
  cases t <;> rfl

/-- Each kind of message has its own name. -/
theorem wireName_inj {t u : SignalingMessageType} (h : t.wireName = u.wireName) : t = u := by
  have hparse := parse_wireName t
  rw [h, parse_wireName] at hparse
  exact (Except.ok.inj hparse).symm

namespace WebRtcSignalingMessage

variable {α β : Type} {i : Int64} {message m m' : WebRtcSignalingMessage} {text : String}
  {bytes : List UInt8}

@[simp] theorem ok_bind (a : α) (f : α → Except String β) : (Except.ok a >>= f) = f a := rfl

@[simp] theorem error_bind (e : String) (f : α → Except String β) :
    ((Except.error e : Except String α) >>= f) = .error e := rfl

/-- A message is read back from its packet. -/
theorem fromNetworkPacket_toNetworkPacket (message : WebRtcSignalingMessage) (now : Int64) :
    fromNetworkPacket (message.toNetworkPacket now) = .ok message := by
  simp [fromNetworkPacket, toNetworkPacket, NetworkPacket.set, get_insert, orError, Value.asI64,
    Value.asStr, Value.asObject]

/-! ### Signaling messages -/

/-- An index that is a 64-bit integer: whether it is not negative, and what it is
then, follows from the integer. -/
theorem asU64_of_asI64 {n : Number} (h : n.asI64 = some i) :
    n.asU64 = if 0 ≤ i.toInt then some (UInt64.ofNat i.toInt.toNat) else none := by
  cases n with
  | posInt n =>
    simp only [Number.asI64] at h
    split at h
    · rename_i hlt
      rw [Option.some.injEq] at h
      have hint : i.toInt = n.toNat := by
        rw [← h, Int64.toInt_ofInt_of_le (by omega) (by omega)]
      rw [if_pos (by omega), hint, Int.toNat_natCast, UInt64.ofNat_toNat]
      rfl
    · cases h
  | negInt n hneg =>
    cases h
    have hlt : i.toInt < 0 := by simpa using Int64.lt_iff_toInt_lt.mp hneg
    rw [if_neg (by omega)]
    rfl
  | float bits => cases h

theorem asU64_bind_of_asI64 {value : Option Value} (h : value.bind Value.asI64 = some i) :
    value.bind Value.asU64 = if 0 ≤ i.toInt then some (UInt64.ofNat i.toInt.toNat) else none := by
  cases value with
  | none => cases h
  | some value =>
    cases value with
    | number n => exact asU64_of_asI64 h
    | null | bool | string | array | object => cases h

theorem requiredString_ok {key : String} {maximum : Nat}
    (h : message.requiredString key maximum = .ok text) :
    (Map.get message.payload key).bind Value.asStr = some text := by
  unfold requiredString at h
  cases hvalue : (Map.get message.payload key).bind Value.asStr with
  | none => simp [hvalue] at h
  | some value =>
    simp only [hvalue] at h
    split at h
    · cases h
    · rw [Except.ok.injEq] at h
      rw [h]

/-- What a payload's text says of what is read. -/
theorem canonicalPayload_cases (h : message.canonicalPayload = .ok text) :
    ((message.messageType = .offer ∨ message.messageType = .answer) ∧
        ∃ sdp, text = "sdp=" ++ sdp ∧ message.payloadUse = .ok (.description sdp)) ∨
      (message.messageType = .iceCandidate ∧ ∃ (index : Int64) (candidate : String),
        text = "sdpMLineIndex=" ++ (toString index.toInt ++ ("\ncandidate=" ++ candidate)) ∧
        message.payloadUse = (do
          let line ← orError "Missing DeskLink WebRTC ICE m-line index"
            ((if 0 ≤ index.toInt then some (UInt64.ofNat index.toInt.toNat) else none).bind
              (fun value => if value.toNat < 2 ^ 32 then some value.toUInt32 else none))
          return .candidate line candidate)) ∨
      (message.messageType ≠ .offer ∧ message.messageType ≠ .answer ∧
        message.messageType ≠ .iceCandidate ∧ message.payloadUse = .ok .nothing) := by
  have hsdp : (message.messageType = .offer ∨ message.messageType = .answer) →
      (message.requiredString "sdp" maxSdpBytes >>= fun sdp => Except.ok ("sdp=" ++ sdp))
        = .ok text →
      ∃ sdp, text = "sdp=" ++ sdp ∧ message.payloadUse = .ok (.description sdp) := by
    intro htype hok
    cases hrequired : message.requiredString "sdp" maxSdpBytes with
    | error e => simp [hrequired] at hok
    | ok sdp =>
      rw [hrequired, ok_bind, Except.ok.injEq] at hok
      refine ⟨sdp, hok.symm, ?_⟩
      rcases htype with htype | htype <;>
        simp only [payloadUse, htype, requiredString_ok hrequired, orError, ok_bind] <;> rfl
  cases htype : message.messageType with
  | offer =>
    left
    simp only [canonicalPayload, htype] at h
    exact ⟨.inl rfl, hsdp (.inl htype) h⟩
  | answer =>
    left
    simp only [canonicalPayload, htype] at h
    exact ⟨.inr rfl, hsdp (.inr htype) h⟩
  | iceCandidate =>
    right; left
    refine ⟨rfl, ?_⟩
    simp only [canonicalPayload, htype] at h
    cases hindex : (Map.get message.payload "sdpMLineIndex").bind Value.asI64 with
    | none => simp [hindex, orError] at h
    | some index =>
      cases hrequired : message.requiredString "candidate" maxCandidateBytes with
      | error e => simp [hindex, orError, hrequired] at h
      | ok candidate =>
        simp only [hindex, orError, hrequired, ok_bind] at h
        refine ⟨index, candidate, (Except.ok.inj h).symm, ?_⟩
        simp only [payloadUse, htype, asU64_bind_of_asI64 hindex, requiredString_ok hrequired,
          orError, ok_bind]
  | endOfCandidates | iceRestart | restartRequest | close =>
    right; right
    refine ⟨by simp, by simp, by simp, ?_⟩
    simp only [payloadUse, htype]
    rfl

/-- A number before a text that starts with a mark. -/
theorem number_append_inj {m k : Int} {l rest r s : String} {c : Char} (hc : c ≠ '-')
    (hdigit : c.isDigit = false) (hl : l = String.singleton c ++ rest)
    (h : toString m ++ (l ++ r) = toString k ++ (l ++ s)) : m = k ∧ r = s := by
  rw [hl, String.append_assoc, String.append_assoc] at h
  obtain ⟨hnumber, hrest⟩ := Lib.decimal_append_inj hc hdigit h
  exact ⟨hnumber, (String.append_right_inj rest).mp hrest⟩

/-- The same text of the payload of two messages of one type. -/
theorem payloadUse_inj (htype : m.messageType = m'.messageType) (h : m.canonicalPayload = .ok text)
    (h' : m'.canonicalPayload = .ok text) : m.payloadUse = m'.payloadUse := by
  rcases canonicalPayload_cases h with ⟨hsdp, sdp, htext, huse⟩ |
    ⟨hice, index, candidate, htext, huse⟩ | ⟨hoffer, hanswer, hcandidate, huse⟩
  · rcases canonicalPayload_cases h' with ⟨_, sdp', htext', huse'⟩ | ⟨hice', _⟩ |
      ⟨hoffer, hanswer, _⟩
    · rw [huse, huse']
      rw [htext] at htext'
      rw [(String.append_right_inj _).mp htext']
    · rw [htype, hice'] at hsdp
      rcases hsdp with hsdp | hsdp <;> cases hsdp
    · rw [htype] at hsdp
      exact (hsdp.elim hoffer hanswer).elim
  · rcases canonicalPayload_cases h' with ⟨hsdp', _⟩ | ⟨_, index', candidate', htext', huse'⟩ |
      ⟨_, _, hcandidate, _⟩
    · rw [← htype, hice] at hsdp'
      rcases hsdp' with hsdp' | hsdp' <;> cases hsdp'
    · rw [htext] at htext'
      have htail := (String.append_right_inj _).mp htext'
      obtain ⟨hindex, hrest⟩ := number_append_inj (c := '\n') (by decide) (by decide)
        (show "\ncandidate=" = String.singleton '\n' ++ "candidate=" from rfl) htail
      rw [huse, huse', Int64.toInt_inj.mp hindex, hrest]
    · rw [htype] at hice
      exact absurd hice hcandidate
  · rcases canonicalPayload_cases h' with ⟨hsdp', _⟩ | ⟨hice', _⟩ | ⟨_, _, _, huse'⟩
    · rw [← htype] at hsdp'
      exact (hsdp'.elim hoffer hanswer).elim
    · rw [← htype] at hice'
      exact absurd hice' hcandidate
    · rw [huse, huse']

/-- The texts that are signed. -/
def signedTexts (m : WebRtcSignalingMessage) (payload : String) : List String :=
  [toString m.signalingVersion.toInt, m.requestId, m.sessionAttemptId, m.fromDeviceId,
    m.toDeviceId, toString m.timestamp.toInt, m.messageType.wireName, payload]

theorem canonicalBytes_ok (h : m.canonicalBytes = .ok bytes) :
    ∃ payload, m.canonicalPayload = .ok payload ∧
      bytes = utf8Bytes (sizedAll (m.signedTexts payload)) := by
  unfold canonicalBytes at h
  cases hpayload : m.canonicalPayload with
  | error e => simp [hpayload] at h
  | ok payload =>
    rw [hpayload, ok_bind] at h
    exact ⟨payload, rfl, (Except.ok.inj h).symm⟩

/-- What two messages have in common when they are signed alike: the header, and what
is read of the payload. -/
structure SameSigned (m m' : WebRtcSignalingMessage) : Prop where
  signalingVersion : m.signalingVersion = m'.signalingVersion
  requestId : m.requestId = m'.requestId
  sessionAttemptId : m.sessionAttemptId = m'.sessionAttemptId
  fromDeviceId : m.fromDeviceId = m'.fromDeviceId
  toDeviceId : m.toDeviceId = m'.toDeviceId
  timestamp : m.timestamp = m'.timestamp
  messageType : m.messageType = m'.messageType
  payloadUse : m.payloadUse = m'.payloadUse

/-- The signed bytes of a message determine its header and what is read of its
payload. -/
theorem canonicalBytes_inj (h : m.canonicalBytes = .ok bytes) (h' : m'.canonicalBytes = .ok bytes) :
    SameSigned m m' := by
  obtain ⟨payload, hpayload, hbytes⟩ := canonicalBytes_ok h
  obtain ⟨payload', hpayload', hbytes'⟩ := canonicalBytes_ok h'
  have htexts := Lib.utf8Bytes_inj (hbytes.symm.trans hbytes')
  have hvalues := Lib.sizedAll_inj (by simp only [signedTexts, List.length_cons]) htexts
  simp only [signedTexts, List.cons.injEq, and_true] at hvalues
  obtain ⟨hversion, hrequest, hattempt, hfrom, hto, htimestamp, hname, hlast⟩ := hvalues
  subst hlast
  have htype := wireName_inj hname
  exact
    { signalingVersion := Int64.toInt_inj.mp (Lib.toString_int_inj hversion)
      requestId := hrequest
      sessionAttemptId := hattempt
      fromDeviceId := hfrom
      toDeviceId := hto
      timestamp := Int64.toInt_inj.mp (Lib.toString_int_inj htimestamp)
      messageType := htype
      payloadUse := payloadUse_inj htype hpayload hpayload' }

end WebRtcSignalingMessage

/-! ### The authentication's transcript -/

open WebRtcSignalingMessage (number_append_inj)

/-- A number of 64 bits before a text that starts with a comma. -/
theorem u64_append_inj {m k : UInt64} {l rest r s : String} (hl : l = String.singleton ',' ++ rest)
    (h : toString m.toNat ++ (l ++ r) = toString k.toNat ++ (l ++ s)) : m = k ∧ r = s := by
  have hcast : ∀ n : Nat, toString n = toString (n : Int) := fun _ => rfl
  rw [hcast, hcast] at h
  obtain ⟨hnumber, hrest⟩ := number_append_inj (by decide) (by decide) hl h
  exact ⟨UInt64.toNat_inj.mp (Int.ofNat.inj hnumber), hrest⟩

/-- The signed bytes of a transcript determine all of it. -/
theorem transcript_canonical_inj {t t' : AuthenticationTranscript}
    (h : t.canonicalBytes = t'.canonicalBytes) : t = t' := by
  have h := Lib.utf8Bytes_inj h
  have hnext : ∀ {l r s : String}, l ++ r = l ++ s → r = s :=
    fun heq => (String.append_right_inj _).mp heq
  obtain ⟨hattempt, h⟩ := Lib.jsonString_append_inj (hnext h)
  obtain ⟨hinitiator, h⟩ := Lib.jsonString_append_inj (hnext h)
  obtain ⟨hresponder, h⟩ := Lib.jsonString_append_inj (hnext h)
  obtain ⟨hsession, h⟩ := u64_append_inj
    (show ",\"connectionGeneration\":" = String.singleton ',' ++ "\"connectionGeneration\":" from rfl)
    (hnext h)
  obtain ⟨hgeneration, h⟩ := u64_append_inj
    (show ",\"initiatorNonce\":" = String.singleton ',' ++ "\"initiatorNonce\":" from rfl) h
  obtain ⟨hinitiatorNonce, h⟩ := Lib.jsonString_append_inj h
  obtain ⟨hresponderNonce, h⟩ := Lib.jsonString_append_inj (hnext h)
  obtain ⟨hoffer, h⟩ := Lib.jsonString_append_inj (hnext h)
  obtain ⟨hanswer, h⟩ := Lib.jsonString_append_inj (hnext h)
  obtain ⟨hinitiatorFp, h⟩ := Lib.jsonString_append_inj (hnext h)
  obtain ⟨hresponderFp, h⟩ := Lib.jsonString_append_inj (hnext h)
  obtain ⟨hversion, h⟩ := number_append_inj (c := ',') (by decide) (by decide)
    (show ",\"timestamp\":" = String.singleton ',' ++ "\"timestamp\":" from rfl) (hnext h)
  have htimestamp := Lib.toString_int_inj ((String.append_left_inj _).mp h)
  cases t
  cases t'
  simp only [AuthenticationTranscript.mk.injEq]
  exact ⟨hattempt, hinitiator, hresponder, hsession, hgeneration, hinitiatorNonce, hresponderNonce,
    hoffer, hanswer, hinitiatorFp, hresponderFp, Int64.toInt_inj.mp hversion,
    Int64.toInt_inj.mp htimestamp⟩

/-! ### The transcript of a relay link -/

open RelayLink (Primitives Transcript Role toList_line line_inj)

/-- A relay address: the hash of a certificate, as the URL-safe alphabet has it. -/
def IsFingerprint (fp : String) : Prop := ∃ digest, fp = Lib.Base64.encodeUrl digest

theorem IsFingerprint.newline {fp : String} (h : IsFingerprint fp) : '\n' ∉ fp.toList := by
  obtain ⟨digest, rfl⟩ := h
  exact Lib.Base64.newline_not_mem_encodeUrl digest

/-- The identities of two transcripts hash apart, side by side. -/
def HashedApart (P : Primitives) (t t' : Transcript) : Prop :=
  (P.sha256 t.identityInitiator = P.sha256 t'.identityInitiator →
      t.identityInitiator = t'.identityInitiator) ∧
    (P.sha256 t.identityResponder = P.sha256 t'.identityResponder →
      t.identityResponder = t'.identityResponder)

/-- The bytes of a relay link's transcript determine all of it. -/
theorem link_transcript_inj {P : Primitives} {t t' : Transcript} (hhash : HashedApart P t t')
    (hinitiator : IsFingerprint t.fpInitiator)
    (hinitiator' : IsFingerprint t'.fpInitiator) (hresponder : IsFingerprint t.fpResponder)
    (hresponder' : IsFingerprint t'.fpResponder)
    (h : utf8Bytes (RelayLink.transcript P t) = utf8Bytes (RelayLink.transcript P t')) : t = t' := by
  have hlist := congrArg String.toList (Lib.utf8Bytes_inj h)
  unfold RelayLink.transcript at hlist
  simp only [toList_line, List.append_assoc, List.cons_append] at hlist
  obtain ⟨-, hlist⟩ := List.cons.inj (List.append_cancel_left hlist)
  obtain ⟨hfpI, hlist⟩ := Lib.append_cons_inj_first hinitiator.newline hinitiator'.newline hlist
  obtain ⟨hfpR, hlist⟩ := Lib.append_cons_inj_first hresponder.newline hresponder'.newline hlist
  obtain ⟨hephI, hlist⟩ := line_inj hlist
  obtain ⟨hephR, hlist⟩ := line_inj hlist
  obtain ⟨hnonceI, hlist⟩ := line_inj hlist
  obtain ⟨hnonceR, hlist⟩ := line_inj hlist
  obtain ⟨hidI, hidR⟩ := Lib.append_cons_inj_first (RelayLink.newline_not_mem_hex _)
    (RelayLink.newline_not_mem_hex _) hlist
  have hidentityI := hhash.1 (RelayLink.hex_inj (String.toList_inj.mp hidI))
  have hidentityR := hhash.2 (RelayLink.hex_inj (String.toList_inj.mp hidR))
  cases t
  cases t'
  simp only [Transcript.mk.injEq]
  exact ⟨String.toList_inj.mp hfpI, String.toList_inj.mp hfpR, hephI, hephR, hnonceI, hnonceR,
    hidentityI, hidentityR⟩

/-- What a side of a relay link signs. -/
def linkSigned (P : Primitives) (role : Role) (t : Transcript) : List UInt8 :=
  utf8Bytes (role.label ++ RelayLink.transcript P t)

/-- What a responder signs is nothing an initiator signs. -/
theorem linkSigned_ne (P : Primitives) (t t' : Transcript) :
    linkSigned P .responder t ≠ linkSigned P .initiator t' := by
  intro h
  obtain ⟨hrole, -⟩ := RelayLink.label_append_inj (Lib.utf8Bytes_inj h)
  cases hrole

/-! ### Everything that is signed -/

/-- Signed bytes determine what is acted on: the header and what is read of the
payload of a signaling message, a transcript of the authentication, and a transcript
of a relay link whose identities hash apart, and its sides never sign the same. A
signaling message is read back from its packet. -/
theorem signed_determines (P : Primitives) :
    (∀ (m m' : WebRtcSignalingMessage) (bytes : List UInt8), m.canonicalBytes = .ok bytes →
        m'.canonicalBytes = .ok bytes → WebRtcSignalingMessage.SameSigned m m') ∧
      (∀ t t' : AuthenticationTranscript, t.canonicalBytes = t'.canonicalBytes → t = t') ∧
      (∀ t t' : Transcript, IsFingerprint t.fpInitiator → IsFingerprint t'.fpInitiator →
        IsFingerprint t.fpResponder → IsFingerprint t'.fpResponder → HashedApart P t t' →
        utf8Bytes (RelayLink.transcript P t) = utf8Bytes (RelayLink.transcript P t') → t = t') ∧
      (∀ t t' : Transcript, linkSigned P .responder t ≠ linkSigned P .initiator t') ∧
      ∀ (m : WebRtcSignalingMessage) (now : Int64),
        WebRtcSignalingMessage.fromNetworkPacket (m.toNetworkPacket now) = .ok m :=
  ⟨fun _ _ _ h h' => WebRtcSignalingMessage.canonicalBytes_inj h h',
    fun _ _ h => transcript_canonical_inj h,
    fun _ _ hI hI' hR hR' hhash h => link_transcript_inj hhash hI hI' hR hR' h,
    linkSigned_ne P, WebRtcSignalingMessage.fromNetworkPacket_toNetworkPacket⟩

/-- An offer, with one more entry in its payload that nobody reads. -/
def offerWith (extra : Map) : WebRtcSignalingMessage :=
  { signalingVersion := 1, requestId := "r", sessionAttemptId := "a", fromDeviceId := "desk",
    toDeviceId := "phone", timestamp := 100, messageType := .offer,
    payload := ("sdp", .string "v=0") :: extra, signature := "" }

/-- What the desk and a phone sign of a session, with this answer. -/
def sessionWith (answer : String) : AuthenticationTranscript where
  sessionAttemptId := "a"
  initiatorDeviceId := "desk"
  responderDeviceId := "phone"
  sessionId := 7
  connectionGeneration := 1
  initiatorNonce := "n"
  responderNonce := "m"
  offerSha256 := "o"
  answerSha256 := answer
  initiatorDtlsFingerprint := "d"
  responderDtlsFingerprint := "p"
  protocolVersion := 1
  timestamp := 100

/-- A relay link of the desk, with a responder of this identity. -/
def linkWith (identity : String) : Transcript :=
  { fpInitiator := Lib.Base64.encodeUrl [1], fpResponder := Lib.Base64.encodeUrl [2]
    ephInitiator := [3], ephResponder := [4], nonceInitiator := [5], nonceResponder := [6]
    identityInitiator := "desk", identityResponder := identity }

/-- The SHA-256 of three identities. -/
def identityDigest (identity : String) : List UInt8 :=
  if identity = "desk" then
    [73, 190, 65, 122, 215, 64, 128, 160, 3, 27, 99, 107, 68, 207, 194, 111,
      221, 0, 101, 73, 45, 108, 211, 176, 51, 150, 12, 68, 20, 149, 92, 247]
  else if identity = "phone" then
    [69, 86, 157, 165, 127, 75, 123, 244, 114, 215, 168, 100, 239, 71, 129, 69,
      28, 174, 99, 131, 254, 233, 251, 10, 228, 12, 89, 170, 28, 228, 117, 183]
  else if identity = "stranger" then
    [138, 202, 79, 54, 119, 79, 130, 166, 124, 80, 124, 185, 201, 102, 121, 72,
      46, 44, 199, 103, 242, 211, 133, 2, 38, 149, 87, 165, 102, 176, 146, 251]
  else []

def hashing : Primitives := { RelayLink.symbolic with sha256 := identityDigest }

/-- Two offers are signed alike and acted on alike; another answer, and another identity, are
not signed alike. -/
theorem signed_determines_offer :
    WebRtcSignalingMessage.SameSigned (offerWith []) (offerWith [("x", .null)]) ∧
      (sessionWith "x").canonicalBytes ≠ (sessionWith "y").canonicalBytes ∧
      utf8Bytes (RelayLink.transcript hashing (linkWith "phone"))
        ≠ utf8Bytes (RelayLink.transcript hashing (linkWith "stranger")) ∧
      WebRtcSignalingMessage.fromNetworkPacket ((offerWith []).toNetworkPacket 7)
        = .ok (offerWith []) := by
  obtain ⟨hmessages, hsessions, hlinks, _, hpacket⟩ := signed_determines hashing
  refine ⟨hmessages _ _ _ rfl rfl, fun h => ?_, fun h => ?_, hpacket _ 7⟩
  · exact absurd (congrArg AuthenticationTranscript.answerSha256 (hsessions _ _ h)) (by decide)
  · have hapart : HashedApart hashing (linkWith "phone") (linkWith "stranger") :=
      ⟨fun _ => rfl, fun heq => absurd heq (by decide)⟩
    have hsame := hlinks _ _ ⟨_, rfl⟩ ⟨_, rfl⟩ ⟨_, rfl⟩ ⟨_, rfl⟩ hapart h
    exact absurd (congrArg Transcript.identityResponder hsame) (by decide)

end DeskLink.Signaling
