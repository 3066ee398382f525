import DeskLink.Lib.Text
import DeskLink.Lib.Utf8
import DeskLink.Pairing.Qr
import DeskLink.Proofs.RelayLink.Hex

/-!
# `DeskLink.Proofs.Pairing.Qr`: a code pairs once, and one device cannot burn it

`verify_cases` says what a proof can do to the live code: be accepted, count as
wrong, find the code run out, or change nothing. `Since` is what is then known of
the code since it was started, and every call that does not end it keeps it
(`Since.keep`, `Since.count`). From it come who is accepted (`proved`) and that the
code stays usable (`still_live`). `QrLaws` is the result for every sequence of calls, and
`qr_laws` its proof.
-/

set_option autoImplicit false

namespace DeskLink.Pairing

open RelayLink (Bytes hex)

variable {d d' p p' : String}

/-- The MAC does not fail, and no two inputs have the same. -/
structure IdealMac (P : QrPrimitives) : Prop where
  ok : ∀ key message, ∃ mac, P.hmac key message = .ok mac
  inj : ∀ {key key' : Bytes32} {message message' : String} {mac : Bytes},
    P.hmac key message = .ok mac → P.hmac key' message' = .ok mac →
    key = key' ∧ message = message'

/-! ### What a proof is over -/

theorem toList_field (s t : String) : (s ++ "\n" ++ t).toList = s.toList ++ '\n' :: t.toList := by
  rw [String.toList_append, String.toList_append, List.append_assoc]
  rfl

/-- The message determines the fingerprints, and the two ids up to newlines in
them. -/
theorem proofMessage_inj {df df' pf pf' : Bytes32}
    (h : proofMessage d p df pf = proofMessage d' p' df' pf') :
    df = df' ∧ pf = pf' ∧ d ++ "\n" ++ p = d' ++ "\n" ++ p' := by
  have hlist := congrArg String.toList h
  unfold proofMessage at hlist
  rw [toList_field _ (hex pf.toList), toList_field _ (hex pf'.toList)] at hlist
  obtain ⟨hlist, hpf⟩ := Lib.append_cons_inj (RelayLink.newline_not_mem_hex _)
    (RelayLink.newline_not_mem_hex _) hlist
  rw [toList_field _ (hex df.toList), toList_field _ (hex df'.toList)] at hlist
  obtain ⟨hids, hdf⟩ := Lib.append_cons_inj (RelayLink.newline_not_mem_hex _)
    (RelayLink.newline_not_mem_hex _) hlist
  have hof : ∀ {a b : Bytes32}, (hex a.toList).toList = (hex b.toList).toList → a = b := by
    intro a b hab
    exact Vector.toList_inj.mp (RelayLink.hex_inj (String.toList_inj.mp hab))
  refine ⟨hof hdf, hof hpf, ?_⟩
  have hsplit : ∀ a b : String, macLabel ++ "\n" ++ a ++ "\n" ++ b = macLabel ++ "\n" ++ (a ++ "\n" ++ b) := by
    intro a b
    simp only [String.append_assoc]
  rw [hsplit, hsplit, toList_field _ (d ++ "\n" ++ p), toList_field _ (d' ++ "\n" ++ p')] at hids
  exact String.toList_inj.mp (List.cons.inj (List.append_cancel_left hids)).2

/-- Ids without a newline are determined as well. -/
theorem ids_inj (hd : '\n' ∉ d.toList) (hd' : '\n' ∉ d'.toList)
    (h : d ++ "\n" ++ p = d' ++ "\n" ++ p') : d = d' ∧ p = p' := by
  have hlist := congrArg String.toList h
  rw [toList_field, toList_field] at hlist
  obtain ⟨hfirst, hsecond⟩ := Lib.append_cons_inj_first hd hd' hlist
  exact ⟨String.toList_inj.mp hfirst, String.toList_inj.mp hsecond⟩

/-! ### One call -/

namespace Qr

variable {P : QrPrimitives} {qr : Qr} {now : Nat}

/-- What a proof does: it is accepted and consumes the live code, it is wrong and
counts, it finds that the code has run out, or it is refused and changes nothing of
the live code. -/
theorem verify_cases (qr : Qr) (now : Nat) (hideal : IdealMac P) (d p : String) (df pf : Bytes32) (mac : String) :
    (∃ live received, qr.pending = some live ∧ decodeMac mac = some received ∧
        now < live.expiresAt ∧ proof P live.secret d p df pf = .ok received ∧
        qr.verify P now d p df pf mac = ({ qr with pending := none }, .ok ())) ∨
      (∃ live, qr.pending = some live ∧ live.failures pf < maxFailures ∧
        (∀ received, decodeMac mac = some received →
          proof P live.secret d p df pf ≠ .ok received) ∧
        qr.verify P now d p df pf mac =
          ({ qr with pending :=
              if maxTotalFailures ≤ (live.count pf).totalFailures then none
              else some (live.count pf) }, .error invalidProof)) ∨
      (∃ live, qr.pending = some live ∧ live.expiresAt ≤ now ∧
        (qr.verify P now d p df pf mac).1.pending = none ∧
        (qr.verify P now d p df pf mac).1.generation = qr.generation ∧
        (qr.verify P now d p df pf mac).2 = .error expiredCode) ∨
      ((qr.verify P now d p df pf mac).1.pending = qr.pending ∧
        (qr.verify P now d p df pf mac).1.generation = qr.generation ∧
        (qr.verify P now d p df pf mac).2 ≠ .ok () ∧
        (qr.verify P now d p df pf mac).2 ≠ .error invalidProof ∧
        (∀ received, decodeMac mac = some received → ∀ live, qr.pending = some live →
          now < live.expiresAt → live.failures pf < maxFailures →
          proof P live.secret d p df pf ≠ .ok received)) := by
  unfold verify
  cases hmac : decodeMac mac with
  | none =>
    right; right; right
    exact ⟨rfl, rfl, by simp, by simp [malformed, invalidProof], fun _ h => (by cases h)⟩
  | some received =>
    simp only
    cases hpending : qr.pending with
    | none =>
      right; right; right
      simp only
      split
      · exact ⟨hpending, rfl, by simp [scanExpired], by simp [scanExpired, expiredCode, invalidProof],
          fun _ _ _ h => (by cases h)⟩
      · exact ⟨hpending, rfl, by simp, by simp [notActive, invalidProof], fun _ _ _ h => (by cases h)⟩
    | some live =>
      simp only
      by_cases hexpired : live.expiresAt ≤ now
      · right; right; left
        rw [if_pos hexpired]
        exact ⟨live, rfl, hexpired, rfl, rfl, rfl⟩
      rw [if_neg hexpired]
      by_cases hmany : maxFailures ≤ live.failures pf
      · right; right; right
        rw [if_pos hmany]
        refine ⟨hpending, rfl, by simp, by simp [tooMany, invalidProof], ?_⟩
        intro _ _ other hother _ hfew
        cases hother
        omega
      rw [if_neg hmany]
      obtain ⟨expected, hexpected⟩ := hideal.ok live.secret (proofMessage d p df pf)
      have hproof : proof P live.secret d p df pf = .ok expected := hexpected
      simp only [hproof]
      by_cases hright : received = expected
      · left
        rw [if_pos hright]
        exact ⟨live, received, rfl, rfl, Nat.not_le.mp hexpired, by rw [hproof, hright], rfl⟩
      rw [if_neg hright]
      have hwrong : proof P live.secret d p df pf ≠ .ok received := by
        rw [hproof]
        intro heq
        exact hright (Except.ok.inj heq).symm
      by_cases hretired : qr.matchesRetired P received d p df pf = true
      · right; right; right
        rw [if_pos hretired]
        refine ⟨hpending, rfl, by simp [scanExpired],
          by simp [scanExpired, expiredCode, invalidProof], ?_⟩
        intro other hother _ hlive _ _
        cases hother
        cases hlive
        exact hwrong
      · right; left
        rw [if_neg hretired]
        refine ⟨live, rfl, Nat.not_le.mp hmany, ?_, rfl⟩
        intro other hother
        cases hother
        exact hwrong

/-- The secret of the code that a call's proof is accepted for. -/
def accepted (P : QrPrimitives) (qr : Qr) (now : Nat) : QrCall → Option Bytes32
  | .verify d p df pf mac =>
    match (qr.verify P now d p df pf mac).2 with
    | .ok () => qr.pending.map (·.secret)
    | .error _ => none
  | _ => none

/-- The fingerprint under which a call presents a wrong proof. -/
def wrong (P : QrPrimitives) (qr : Qr) (now : Nat) : QrCall → Option Bytes32
  | .verify d p df pf mac =>
    match (qr.verify P now d p df pf mac).2 with
    | .ok () => none
    | .error e => if e = invalidProof then some pf else none
  | _ => none

/-- What `f` finds in each of the calls. -/
def collect (P : QrPrimitives) (f : Qr → Nat → QrCall → Option Bytes32) :
    Qr → List (Nat × QrCall) → List Bytes32
  | _, [] => []
  | qr, call :: calls => (f qr call.1 call.2).toList ++ collect P f (qr.step P call.1 call.2) calls

theorem after_append (qr : Qr) (calls more : List (Nat × QrCall)) :
    qr.after P (calls ++ more) = (qr.after P calls).after P more := List.foldl_append

@[simp] theorem after_singleton (qr : Qr) (call : Nat × QrCall) :
    qr.after P [call] = qr.step P call.1 call.2 := rfl

theorem collect_append (f : Qr → Nat → QrCall → Option Bytes32) (qr : Qr)
    (calls more : List (Nat × QrCall)) :
    collect P f qr (calls ++ more) = collect P f qr calls ++ collect P f (qr.after P calls) more := by
  induction calls generalizing qr with
  | nil => rfl
  | cons call calls ih =>
    simp only [List.cons_append, collect, ih, List.append_assoc]
    rfl

theorem collect_singleton (f : Qr → Nat → QrCall → Option Bytes32) (qr : Qr)
    (call : Nat × QrCall) : collect P f qr [call] = (f qr call.1 call.2).toList := by
  simp [collect]

end Qr

/-- The call starts a code with the secret. -/
def QrCall.Starts (P : QrPrimitives) (secret : Bytes32) : QrCall → Prop
  | .start s _ der _ _ _ => s = secret ∧ ∃ fp, P.sha256 der = .ok fp
  | _ => False

/-- The call withdraws a code or starts another. -/
def QrCall.Ends (P : QrPrimitives) (call : QrCall) : Prop :=
  call = .cancel ∨ ∃ secret, call.Starts P secret

namespace Qr

variable {P : QrPrimitives} {qr : Qr} {now started g : Nat} {secret pf : Bytes32}
variable {live code : Pending} {call : Nat × QrCall} {calls : List (Nat × QrCall)} {d : String}

/-- New addresses change at most the text. -/
theorem refreshAddresses_cases (qr : Qr) (now : Nat) (host : Option String)
    (addresses : List Ipv4) (port : Nat) :
    (qr.refreshAddresses now host addresses port).1 = qr ∨
      ∃ live uri, qr.pending = some live ∧
        (qr.refreshAddresses now host addresses port).1
          = { qr with pending := some { live with uri } } := by
  unfold refreshAddresses
  cases qr.pending with
  | none => exact .inl rfl
  | some live =>
    simp only
    split
    · split
      · exact .inl rfl
      · exact .inr ⟨live, _, rfl, rfl⟩
    · exact .inl rfl

/-- What a call does to the live code: a new one is started, the code goes, a wrong
proof counts, or the code stays as it is but for its text. -/
theorem step_cases (qr : Qr) (now : Nat) (hideal : IdealMac P) (call : QrCall) :
    (∃ secret code, call.Starts P secret ∧ (qr.step P now call).pending = some code ∧
        code.secret = secret ∧ code.expiresAt = now + lifetime ∧ code.failures = (fun _ => 0) ∧
        code.totalFailures = 0 ∧ code.generation = (qr.step P now call).generation ∧
        (qr.step P now call).generation = qr.generation + 1 ∧
        accepted P qr now call = none ∧ wrong P qr now call = none) ∨
      ((qr.step P now call).pending = none ∧ qr.generation ≤ (qr.step P now call).generation ∧
        -- It is withdrawn, used, found to have run out, or burned.
        ((call = .cancel ∧ accepted P qr now call = none) ∨
          (∃ live, qr.pending = some live ∧ accepted P qr now call = some live.secret) ∨
          (∃ live, qr.pending = some live ∧ live.expiresAt ≤ now ∧
            accepted P qr now call = none) ∨
          (∃ live pf, qr.pending = some live ∧ live.failures pf < maxFailures ∧
            maxTotalFailures ≤ live.totalFailures + 1 ∧ accepted P qr now call = none ∧
            wrong P qr now call = some pf))) ∨
      (∃ live pf, qr.pending = some live ∧ live.failures pf < maxFailures ∧
        (live.count pf).totalFailures < maxTotalFailures ∧
        (qr.step P now call).pending = some (live.count pf) ∧
        (qr.step P now call).generation = qr.generation ∧ ¬call.Ends P ∧
        accepted P qr now call = none ∧ wrong P qr now call = some pf) ∨
      ((∃ retext : Pending → String, (qr.step P now call).pending
          = qr.pending.map (fun live => { live with uri := retext live })) ∧
        (qr.step P now call).generation = qr.generation ∧
        ¬call.Ends P ∧
        accepted P qr now call = none ∧ wrong P qr now call = none) := by
  have hsame : qr.pending = qr.pending.map (fun live => { live with uri := live.uri }) := by
    cases qr.pending <;> rfl
  cases call with
  | start secret d der host addresses port =>
    cases hfp : P.sha256 der with
    | error e =>
      right; right; right
      have hstep : qr.step P now (.start secret d der host addresses port) = qr := by
        simp [step, start, hfp]
      refine ⟨⟨(·.uri), by rw [hstep]; exact hsame⟩, by rw [hstep], ?_, rfl, rfl⟩
      simp [QrCall.Ends, QrCall.Starts, hfp]
    | ok fp =>
      left
      have hgen : qr.retireLive.generation = qr.generation := by
        unfold retireLive
        split <;> rfl
      refine ⟨secret, _, ⟨rfl, fp, hfp⟩, by simp only [step, start, hfp]; rfl, rfl, rfl, rfl, rfl,
        ?_, ?_, rfl, rfl⟩
      · simp only [step, start, hfp]
      · simp only [step, start, hfp, nextGeneration, hgen]
  | refreshAddresses host addresses port =>
    right; right; right
    have hnot : ¬(QrCall.refreshAddresses host addresses port).Ends P := by
      simp [QrCall.Ends, QrCall.Starts]
    simp only [step]
    rcases refreshAddresses_cases qr now host addresses port with heq | ⟨live, uri, hlive, heq⟩
    · rw [heq]
      exact ⟨⟨(·.uri), hsame⟩, rfl, hnot, rfl, rfl⟩
    · rw [heq, hlive]
      exact ⟨⟨fun _ => uri, rfl⟩, rfl, hnot, rfl, rfl⟩
  | cancel =>
    right; left
    refine ⟨rfl, ?_, .inl ⟨rfl, rfl⟩⟩
    simp only [step, cancel, nextGeneration, retireLive]
    split
    · exact Nat.le_succ _
    · exact Nat.le_succ _
  | verify d p df pf mac =>
    have hnot : ¬(QrCall.verify d p df pf mac).Ends P := by simp [QrCall.Ends, QrCall.Starts]
    obtain ⟨live, received, hpending, _, _, _, heq⟩ | ⟨live, hpending, hfew, _, heq⟩ |
      ⟨live, hpending, hout, hgone, hgen, herror⟩ | ⟨hkeep, hgen, hrefused, hwrong, _⟩ :=
      verify_cases qr now hideal d p df pf mac
    · right; left
      simp only [step, accepted, heq, hpending]
      exact ⟨trivial, le_refl _, .inr (.inl ⟨live, rfl, rfl⟩)⟩
    · by_cases hburned : maxTotalFailures ≤ (live.count pf).totalFailures
      · right; left
        refine ⟨?_, ?_, .inr (.inr (.inr ⟨live, pf, hpending, hfew, hburned, ?_, ?_⟩))⟩
        · simp only [step, heq, if_pos hburned]
        · simp only [step, heq, le_refl]
        · simp only [accepted, heq]
        · simp only [wrong, heq, if_pos]
      · right; right; left
        refine ⟨live, pf, hpending, hfew, Nat.not_le.mp hburned, ?_, ?_, hnot, ?_, ?_⟩
        · simp only [step, heq, if_neg hburned]
        · simp only [step, heq]
        · simp only [accepted, heq]
        · simp only [wrong, heq, if_pos]
    · right; left
      refine ⟨hgone, hgen.ge, .inr (.inr (.inl ⟨live, hpending, hout, ?_⟩))⟩
      simp only [accepted, herror]
    · right; right; right
      refine ⟨⟨(·.uri), by simp only [step, hkeep]; exact hsame⟩, hgen, hnot, ?_, ?_⟩
      · simp only [accepted]
        split
        · rename_i hok
          exact absurd hok hrefused
        · rfl
      · simp only [wrong]
        split
        · rfl
        · rename_i e herror
          rw [if_neg]
          intro heq
          exact hwrong (heq ▸ herror)
  | takeExpiredNotice | liveGeneration =>
    right; right; right
    exact ⟨⟨(·.uri), hsame⟩, rfl, by simp [QrCall.Ends, QrCall.Starts], rfl, rfl⟩

/-! ### The code since it was started -/

/-- What is known of the live code when `calls` came after it was started, in the
state `qr`: none of them ended it, no proof was accepted, and its counters count the
wrong ones. -/
structure Since (P : QrPrimitives) (secret : Bytes32) (started : Nat) (qr : Qr)
    (calls : List (Nat × QrCall)) (live : Pending) : Prop where
  secret : live.secret = secret
  expires : live.expiresAt = started + lifetime
  quiet : ∀ call ∈ calls, ¬call.2.Ends P
  unused : collect P (accepted P) qr calls = []
  counts : ∀ fp, live.failures fp = (collect P (wrong P) qr calls).count fp
  total : live.totalFailures = (collect P (wrong P) qr calls).length
  few : ∀ fp, live.failures fp ≤ maxFailures

/-- A code that was just started. -/
theorem Since.new (hsecret : code.secret = secret) (hexpires : code.expiresAt = started + lifetime)
    (hfailures : code.failures = fun _ => 0) (htotal : code.totalFailures = 0) :
    Since P secret started qr [] code where
  secret := hsecret
  expires := hexpires
  quiet := by simp
  unused := rfl
  counts := by simp [hfailures, collect]
  total := by simp [htotal, collect]
  few := by simp [hfailures]

/-- A call that nothing was accepted or counted in changes at most the text. -/
theorem Since.keep (h : Since P secret started qr calls live) {uri : String}
    (hquiet : ¬call.2.Ends P) (haccepted : accepted P (qr.after P calls) call.1 call.2 = none)
    (hwrong : wrong P (qr.after P calls) call.1 call.2 = none) :
    Since P secret started qr (calls ++ [call]) { live with uri } where
  secret := h.secret
  expires := h.expires
  quiet := by
    intro other hother
    rcases List.mem_append.mp hother with hold | hnew
    · exact h.quiet other hold
    · rw [List.mem_singleton.mp hnew]
      exact hquiet
  unused := by simp [collect_append, collect_singleton, h.unused, haccepted]
  counts := by
    intro fp
    simpa [collect_append, collect_singleton, hwrong] using h.counts fp
  total := by simpa [collect_append, collect_singleton, hwrong] using h.total
  few := h.few

/-- A wrong proof counts once, for all and for the fingerprint it came under. -/
theorem Since.count (h : Since P secret started qr calls live) (hquiet : ¬call.2.Ends P)
    (hfew : live.failures pf < maxFailures)
    (haccepted : accepted P (qr.after P calls) call.1 call.2 = none)
    (hwrong : wrong P (qr.after P calls) call.1 call.2 = some pf) :
    Since P secret started qr (calls ++ [call]) (live.count pf) where
  secret := h.secret
  expires := h.expires
  quiet := by
    intro other hother
    rcases List.mem_append.mp hother with hold | hnew
    · exact h.quiet other hold
    · rw [List.mem_singleton.mp hnew]
      exact hquiet
  unused := by simp [collect_append, collect_singleton, h.unused, haccepted]
  counts := by
    intro fp
    have hmax : maxFailures = 3 := rfl
    simp only [collect_append, collect_singleton, hwrong, Option.toList_some, List.count_append,
      Pending.count]
    by_cases heq : fp = pf
    · subst fp
      rw [Function.update_self, List.count_singleton_self, ← h.counts]
      omega
    · rw [Function.update_of_ne heq, List.count_singleton, h.counts]
      simp [Ne.symm heq]
  total := by
    simp [collect_append, collect_singleton, hwrong, Pending.count, h.total]
  few := by
    intro fp
    have hmax : maxFailures = 3 := rfl
    simp only [Pending.count]
    by_cases heq : fp = pf
    · subst fp
      rw [Function.update_self]
      omega
    · rw [Function.update_of_ne heq]
      exact h.few fp

/-- A live code is the latest that was started, and what came after it is known. -/
theorem pending_since (hideal : IdealMac P) (calls : List (Nat × QrCall))
    (h : (after P {} calls).pending = some live) :
    ∃ early started call secret since, calls = early ++ (started, call) :: since ∧
      call.Starts P secret ∧
      Since P secret started (after P {} (early ++ [(started, call)])) since live := by
  induction calls using List.reverseRecOn generalizing live with
  | nil => cases h
  | append_singleton calls call ih =>
    rw [after_append, after_singleton] at h
    obtain ⟨secret, code, hstarts, hcode, hsecret, hexpires, hfailures, htotal, _⟩ | ⟨hgone, _⟩ |
      ⟨old, pf, hold, hfew, _, hcounted, _, hquiet, haccepted, hwrong⟩ |
      ⟨⟨retext, hkept⟩, _, hquiet, haccepted, hwrong⟩ :=
      step_cases (after P {} calls) call.1 hideal call.2
    · rw [hcode] at h
      cases h
      exact ⟨calls, call.1, call.2, secret, [], rfl, hstarts,
        .new hsecret hexpires hfailures htotal⟩
    · rw [hgone] at h
      cases h
    · rw [hcounted] at h
      cases h
      obtain ⟨early, started, first, secret, since, rfl, hstarts, hsince⟩ := ih hold
      have hafter : (after P {} (early ++ [(started, first)])).after P since
          = after P {} (early ++ (started, first) :: since) := by
        rw [← after_append, List.append_assoc]
        rfl
      refine ⟨early, started, first, secret, since ++ [call], by simp, hstarts, ?_⟩
      exact hsince.count hquiet hfew (by rw [hafter]; exact haccepted) (by rw [hafter]; exact hwrong)
    · rw [hkept] at h
      cases hold : (after P {} calls).pending with
      | none => simp [hold] at h
      | some old =>
        rw [hold, Option.map_some, Option.some.injEq] at h
        subst live
        obtain ⟨early, started, first, secret, since, rfl, hstarts, hsince⟩ := ih hold
        have hafter : (after P {} (early ++ [(started, first)])).after P since
            = after P {} (early ++ (started, first) :: since) := by
          rw [← after_append, List.append_assoc]
          rfl
        refine ⟨early, started, first, secret, since ++ [call], by simp, hstarts, ?_⟩
        exact hsince.keep hquiet (by rw [hafter]; exact haccepted) (by rw [hafter]; exact hwrong)

/-- Wrong proofs of fewer than ten other devices, three at most of each, and two at
most of the device itself, are fewer than thirty. -/
theorem length_lt_of_few {proofs : List Bytes32} {fp : Bytes32}
    (heach : ∀ a, proofs.count a ≤ 3) (hown : proofs.count fp < 3)
    (hothers : (proofs.filter (· ≠ fp)).toFinset.card < 10) : proofs.length < 30 := by
  have hsplit : proofs.length = proofs.count fp + (proofs.filter (· ≠ fp)).length := by
    have := List.length_eq_countP_add_countP (l := proofs) (· == fp)
    rw [List.count, this, ← List.countP_eq_length_filter]
    congr 1
    apply List.countP_congr
    intro a _
    simp
  have hle : (proofs.filter (· ≠ fp)).length ≤ (proofs.filter (· ≠ fp)).toFinset.card * 3 := by
    rw [← List.sum_toFinset_count_eq_length, ← smul_eq_mul]
    apply Finset.sum_le_card_nsmul
    intro a _
    have heach := (List.filter_sublist (p := (· ≠ fp))).count_le a |>.trans (heach a)
    convert heach
  omega

/-- A code that was started, and not withdrawn, replaced or used, is live until it
runs out, also for a device that presented two wrong proofs while fewer than ten
others presented wrong ones. -/
theorem still_live (hideal : IdealMac P) (hcode : qr.pending = some code)
    (hnew : Since P secret started qr [] code) (since : List (Nat × QrCall))
    (hquiet : ∀ call ∈ since, ¬call.2.Ends P) (hunused : collect P (accepted P) qr since = [])
    (htimes : ∀ call ∈ since, call.1 ≤ now) (hnow : now < started + lifetime)
    (hown : (collect P (wrong P) qr since).count pf < maxFailures)
    (hothers : ((collect P (wrong P) qr since).filter (· ≠ pf)).toFinset.card < 10) :
    ∃ live, (qr.after P since).pending = some live ∧ Since P secret started qr since live := by
  induction since using List.reverseRecOn with
  | nil => exact ⟨code, hcode, hnew⟩
  | append_singleton since call ih =>
    have hproofs : collect P (wrong P) qr (since ++ [call]) = collect P (wrong P) qr since
        ++ (wrong P (qr.after P since) call.1 call.2).toList := by
      rw [collect_append, collect_singleton]
    rw [collect_append, collect_singleton, List.append_eq_nil_iff] at hunused
    have hsub : (collect P (wrong P) qr since).Sublist (collect P (wrong P) qr (since ++ [call])) := by
      rw [hproofs]
      exact List.sublist_append_left _ _
    obtain ⟨live, hlive, hsince⟩ := ih (fun c hc => hquiet c (List.mem_append_left _ hc)) hunused.1
      (fun c hc => htimes c (List.mem_append_left _ hc))
      ((hsub.count_le pf).trans_lt hown)
      ((Finset.card_le_card (fun a ha => List.mem_toFinset.mpr
        ((hsub.filter _).subset (List.mem_toFinset.mp ha)))).trans_lt hothers)
    have hlast := hquiet call (by simp)
    have hnone : accepted P (qr.after P since) call.1 call.2 = none := by
      cases haccepted : accepted P (qr.after P since) call.1 call.2 with
      | none => rfl
      | some s => simp [haccepted] at hunused
    rw [after_append, after_singleton]
    obtain ⟨secret', code', hstarts, _⟩ | ⟨_, _, hcause⟩ |
      ⟨old, fp, hold, hfew, _, hcounted, _, _, _, hwrong⟩ | ⟨⟨retext, hkept⟩, _, _, _, hwrong⟩ :=
      step_cases (qr.after P since) call.1 hideal call.2
    · exact absurd (.inr ⟨secret', hstarts⟩) hlast
    · exfalso
      rcases hcause with ⟨hcancel, _⟩ | ⟨_, _, hsome⟩ | ⟨old, hold, hout, _⟩ |
        ⟨old, fp, hold, hfew, hburned, _, hwrong⟩
      · exact hlast (.inl hcancel)
      · rw [hnone] at hsome
        cases hsome
      · -- It has not run out.
        rw [hlive] at hold
        cases hold
        have := htimes call (by simp)
        rw [hsince.expires] at hout
        omega
      · -- Too few wrong proofs were presented to burn it.
        rw [hlive] at hold
        cases hold
        have hcounted := hsince.count hlast hfew hnone hwrong
        have hlt : (collect P (wrong P) qr (since ++ [call])).length < 30 :=
          length_lt_of_few (fun a => (hcounted.counts a).symm.trans_le (hcounted.few a)) hown hothers
        have htotal := hcounted.total
        have hthirty : maxTotalFailures = 30 := rfl
        simp only [Pending.count] at htotal
        omega
    · rw [hlive] at hold
      cases hold
      exact ⟨_, hcounted, hsince.count hlast hfew hnone hwrong⟩
    · refine ⟨{ live with uri := retext live }, by rw [hkept, hlive]; rfl, ?_⟩
      exact hsince.keep hlast hnone hwrong

/-! ### A secret is accepted once -/

/-- The secret of a call that starts a code. -/
def startSecret : QrCall → Option Bytes32
  | .start secret _ _ _ _ _ => some secret
  | _ => none

/-- The secrets of all the codes, in the order they were made. -/
def secrets (calls : List (Nat × QrCall)) : List Bytes32 :=
  calls.filterMap (fun call => startSecret call.2)

theorem secrets_append (calls more : List (Nat × QrCall)) :
    secrets (calls ++ more) = secrets calls ++ secrets more := List.filterMap_append

theorem startSecret_of_starts {call : QrCall} (h : call.Starts P secret) :
    startSecret call = some secret := by
  cases call with
  | start s d der host addresses port => rw [startSecret, h.1]
  | refreshAddresses | cancel | verify | takeExpiredNotice | liveGeneration => exact h.elim

/-- What was accepted so far, against the secrets so far and the live code. -/
structure Used (P : QrPrimitives) (calls : List (Nat × QrCall)) : Prop where
  known : ∀ secret ∈ collect P (accepted P) {} calls, secret ∈ secrets calls
  once : (collect P (accepted P) {} calls).Nodup
  live : ∀ live, (after P {} calls).pending = some live →
    live.secret ∈ secrets calls ∧ live.secret ∉ collect P (accepted P) {} calls

theorem used (hideal : IdealMac P) (calls : List (Nat × QrCall)) (hfresh : (secrets calls).Nodup) :
    Used P calls := by
  induction calls using List.reverseRecOn with
  | nil => exact ⟨by simp [collect], .nil, fun _ h => (by cases h)⟩
  | append_singleton calls call ih =>
    have hsecrets : secrets (calls ++ [call]) = secrets calls ++ secrets [call] := secrets_append _ _
    rw [hsecrets, List.nodup_append] at hfresh
    obtain ⟨hknown, honce, hlive⟩ := ih hfresh.1
    have hin : ∀ {secret}, secret ∈ secrets calls → secret ∈ secrets (calls ++ [call]) := by
      intro secret h
      rw [hsecrets]
      exact List.mem_append_left _ h
    have hcollect : collect P (accepted P) {} (calls ++ [call]) = collect P (accepted P) {} calls
        ++ (accepted P (after P {} calls) call.1 call.2).toList := by
      rw [collect_append, collect_singleton]
    have hafter : after P {} (calls ++ [call]) = (after P {} calls).step P call.1 call.2 := by
      rw [after_append, after_singleton]
    -- A call that nothing is accepted in adds nothing to what was.
    have hquiet (haccepted : accepted P (after P {} calls) call.1 call.2 = none)
        (hlive' : ∀ live, ((after P {} calls).step P call.1 call.2).pending = some live →
          live.secret ∈ secrets (calls ++ [call]) ∧
          live.secret ∉ collect P (accepted P) {} calls) : Used P (calls ++ [call]) := by
      rw [haccepted, Option.toList_none, List.append_nil] at hcollect
      refine ⟨?_, by rw [hcollect]; exact honce, ?_⟩
      · rw [hcollect]
        exact fun s h => hin (hknown s h)
      · rw [hafter, hcollect]
        exact hlive'
    obtain ⟨secret, code, hstarts, hcode, hsecret, _, _, _, _, _, haccepted, _⟩ |
      ⟨hgone, _, hcause⟩ | ⟨old, pf, hold, _, _, hcounted, _, _, haccepted, _⟩ |
      ⟨⟨retext, hkept⟩, _, _, haccepted, _⟩ :=
      step_cases (after P {} calls) call.1 hideal call.2
    · refine hquiet haccepted (fun live h => ?_)
      rw [hcode, Option.some.injEq] at h
      subst live
      rw [hsecret, hsecrets]
      have hnew : secret ∈ secrets [call] := by simp [secrets, startSecret_of_starts hstarts]
      refine ⟨List.mem_append_right _ hnew, ?_⟩
      intro h
      exact hfresh.2.2 secret (hknown secret h) secret hnew rfl
    · have hnone (live : Pending) (h : ((after P {} calls).step P call.1 call.2).pending = some live) :
          False := by
        rw [hgone] at h
        cases h
      have hsame (haccepted : accepted P (after P {} calls) call.1 call.2 = none) :
          Used P (calls ++ [call]) := hquiet haccepted (fun live h => (hnone live h).elim)
      rcases hcause with ⟨_, haccepted⟩ | ⟨live, hpending, haccepted⟩ | ⟨_, _, _, haccepted⟩ |
        ⟨_, _, _, _, _, haccepted, _⟩
      · exact hsame haccepted
      · -- The live code's secret joins those that were accepted.
        obtain ⟨hlisted, hnew⟩ := hlive live hpending
        rw [haccepted, Option.toList_some] at hcollect
        refine ⟨?_, ?_, fun live h => (hnone live (hafter ▸ h)).elim⟩
        · rw [hcollect]
          intro s hs
          rcases List.mem_append.mp hs with hold | hlast
          · exact hin (hknown s hold)
          · rw [List.mem_singleton.mp hlast]
            exact hin hlisted
        · rw [hcollect, List.nodup_append_comm]
          exact List.nodup_cons.mpr ⟨hnew, honce⟩
      · exact hsame haccepted
      · exact hsame haccepted
    · refine hquiet haccepted (fun live h => ?_)
      rw [hcounted, Option.some.injEq] at h
      subst live
      exact ⟨hin (hlive old hold).1, (hlive old hold).2⟩
    · refine hquiet haccepted (fun live h => ?_)
      rw [hkept] at h
      cases hold : (after P {} calls).pending with
      | none => simp [hold] at h
      | some old =>
        rw [hold, Option.map_some, Option.some.injEq] at h
        subst live
        exact ⟨hin (hlive old hold).1, (hlive old hold).2⟩

/-! ### Generations -/

/-- The generation was given out, and its code, if it is still there, has run out. -/
structure Past (qr : Qr) (now g : Nat) : Prop where
  given : g ≤ qr.generation
  out : ∀ live, qr.pending = some live → live.generation = g → live.expiresAt ≤ now

/-- The generation of the live code is at least `g`, and so is the counter. -/
structure Floor (qr : Qr) (g : Nat) : Prop where
  given : g ≤ qr.generation
  least : ∀ live, qr.pending = some live → g ≤ live.generation

theorem generation_step (hideal : IdealMac P) (qr : Qr) (now : Nat) (call : QrCall) :
    qr.generation ≤ (qr.step P now call).generation ∧
      ∀ live, (qr.step P now call).pending = some live →
        (live.generation = qr.generation + 1 ∧
            (qr.step P now call).generation = qr.generation + 1) ∨
          ∃ old, qr.pending = some old ∧ live.generation = old.generation ∧
            live.expiresAt = old.expiresAt := by
  obtain ⟨secret, code, _, hcode, _, _, _, _, hgen, hnext, _⟩ | ⟨hgone, hle, _⟩ |
    ⟨old, pf, hold, _, _, hcounted, hgen, _⟩ | ⟨⟨retext, hkept⟩, hgen, _⟩ :=
    step_cases qr now hideal call
  · refine ⟨by omega, ?_⟩
    intro live h
    rw [hcode, Option.some.injEq] at h
    subst live
    exact .inl ⟨by omega, hnext⟩
  · refine ⟨hle, ?_⟩
    intro live h
    rw [hgone] at h
    cases h
  · refine ⟨hgen.ge, ?_⟩
    intro live h
    rw [hcounted, Option.some.injEq] at h
    subst live
    exact .inr ⟨old, hold, rfl, rfl⟩
  · refine ⟨hgen.ge, ?_⟩
    intro live h
    rw [hkept] at h
    cases hold : qr.pending with
    | none => simp [hold] at h
    | some old =>
      rw [hold, Option.map_some, Option.some.injEq] at h
      subst live
      exact .inr ⟨old, rfl, rfl, rfl⟩

theorem Past.later {later : Nat} (h : Past qr now g) (hle : now ≤ later) : Past qr later g :=
  ⟨h.given, fun live hlive hg => (h.out live hlive hg).trans hle⟩

theorem Past.after (hideal : IdealMac P) (h : Past qr now g) (calls : List (Nat × QrCall)) :
    Past (qr.after P calls) now g := by
  induction calls using List.reverseRecOn with
  | nil => exact h
  | append_singleton calls call ih =>
    rw [after_append, after_singleton]
    obtain ⟨hle, hlive⟩ := generation_step hideal (qr.after P calls) call.1 call.2
    refine ⟨ih.given.trans hle, ?_⟩
    intro live hpending hg
    rcases hlive live hpending with ⟨hnew, _⟩ | ⟨old, hold, hgen, hexpires⟩
    · have := ih.given
      omega
    · rw [hexpires]
      exact ih.out old hold (hgen ▸ hg)

theorem Floor.after (hideal : IdealMac P) (h : Floor qr g) (calls : List (Nat × QrCall)) :
    Floor (qr.after P calls) g := by
  induction calls using List.reverseRecOn with
  | nil => exact h
  | append_singleton calls call ih =>
    rw [after_append, after_singleton]
    obtain ⟨hle, hlive⟩ := generation_step hideal (qr.after P calls) call.1 call.2
    refine ⟨ih.given.trans hle, ?_⟩
    intro live hpending
    rcases hlive live hpending with ⟨hnew, _⟩ | ⟨old, hold, hgen, _⟩
    · have := ih.given
      omega
    · rw [hgen]
      exact ih.least old hold

/-- A live code's generation was given out. -/
theorem generation_le (hideal : IdealMac P) (calls : List (Nat × QrCall))
    (h : (after P {} calls).pending = some live) :
    live.generation ≤ (after P {} calls).generation := by
  induction calls using List.reverseRecOn generalizing live with
  | nil => cases h
  | append_singleton calls call ih =>
    rw [after_append, after_singleton] at h ⊢
    obtain ⟨hle, hlive⟩ := generation_step hideal (after P {} calls) call.1 call.2
    rcases hlive live h with ⟨hnew, hgen⟩ | ⟨old, hold, hgen, _⟩
    · omega
    · rw [hgen]
      exact (ih hold).trans hle

theorem liveGeneration_eq_some : qr.liveGeneration now = some g ↔
    ∃ live, qr.pending = some live ∧ now < live.expiresAt ∧ live.generation = g := by
  unfold liveGeneration
  cases qr.pending with
  | none => simp
  | some live => simp [Option.filter, and_comm]

/-- Once another generation is live, or none, a generation is not live again, and the
live ones rise. -/
theorem generation_gone (hideal : IdealMac P) (past between more : List (Nat × QrCall))
    {t₁ t₂ t₃ : Nat} (h₁ : (after P {} past).liveGeneration t₁ = some g) (h₂₃ : t₂ ≤ t₃)
    (h₂ : (after P {} (past ++ between)).liveGeneration t₂ ≠ some g) :
    (after P {} (past ++ between ++ more)).liveGeneration t₃ ≠ some g ∧
      ∀ g', (after P {} (past ++ between)).liveGeneration t₂ = some g' → g < g' := by
  obtain ⟨live, hlive, _, hgen⟩ := liveGeneration_eq_some.mp h₁
  have hgiven : g ≤ (after P {} past).generation := hgen ▸ generation_le hideal past hlive
  have hfloor : Floor (after P {} (past ++ between)) g := by
    rw [after_append]
    apply Floor.after hideal
    refine ⟨hgiven, ?_⟩
    intro other hother
    rw [hlive, Option.some.injEq] at hother
    subst other
    exact hgen.ge
  constructor
  · have hpast : Past (after P {} (past ++ between)) t₂ g := by
      refine ⟨hfloor.given, ?_⟩
      intro other hother hg
      by_contra hnot
      exact h₂ (liveGeneration_eq_some.mpr ⟨other, hother, Nat.not_le.mp hnot, hg⟩)
    have hlast := (hpast.after hideal more).later h₂₃
    rw [← after_append] at hlast
    intro hagain
    obtain ⟨other, hother, hbefore, hg⟩ := liveGeneration_eq_some.mp hagain
    have := hlast.out other hother hg
    omega
  · intro g' h'
    obtain ⟨other, hother, _, hg⟩ := liveGeneration_eq_some.mp h'
    have hle := hfloor.least other hother
    have hne : g ≠ g' := fun heq => h₂ (heq ▸ h')
    omega

/-! ### Every sequence of calls -/

/-- A proof that the desk accepts after `before`: the code of its secret is the latest
that was started, was not withdrawn or used since and has not run out, and the proof
was made with its secret over the ids and the fingerprints of the call. -/
structure Proved (P : QrPrimitives) (before : List (Nat × QrCall)) (now : Nat) (d p : String)
    (df pf : Bytes32) (mac : String) : Prop where
  started : ∃ early started call secret since, before = early ++ (started, call) :: since ∧
    call.Starts P secret ∧ (∀ other ∈ since, ¬other.2.Ends P) ∧
    collect P (accepted P) (after P {} (early ++ [(started, call)])) since = [] ∧
    now < started + lifetime ∧
    accepted P (after P {} before) now (.verify d p df pf mac) = some secret ∧
    ∃ received, decodeMac mac = some received ∧ proof P secret d p df pf = .ok received ∧
      -- No other secret makes it, and none makes it over anything else.
      ∀ secret' d' p' df' pf', proof P secret' d' p' df' pf' = .ok received →
        secret' = secret ∧ df' = df ∧ pf' = pf ∧ d' ++ "\n" ++ p' = d ++ "\n" ++ p ∧
          ('\n' ∉ d'.toList → '\n' ∉ d.toList → d' = d ∧ p' = p)

theorem proved (hideal : IdealMac P) {before : List (Nat × QrCall)} {p : String} {df : Bytes32}
    {mac : String} (h : ((after P {} before).verify P now d p df pf mac).2 = .ok ()) :
    Proved P before now d p df pf mac := by
  obtain ⟨live, received, hlive, hmac, hbefore, hproof, heq⟩ | ⟨_, _, _, _, heq⟩ |
    ⟨_, _, _, _, _, herror⟩ | ⟨_, _, hrefused, _⟩ :=
    verify_cases (after P {} before) now hideal d p df pf mac
  · obtain ⟨early, started, call, secret, since, hsplit, hstarts, hsince⟩ :=
      pending_since hideal before hlive
    rw [hsince.secret] at hproof
    rw [hsince.expires] at hbefore
    refine ⟨early, started, call, secret, since, hsplit, hstarts, hsince.quiet, hsince.unused,
      hbefore, ?_, received, hmac, hproof, ?_⟩
    · simp only [accepted, heq, hlive, Option.map_some, hsince.secret]
    · intro secret' d' p' df' pf' hother
      obtain ⟨hsecret, hmessage⟩ := hideal.inj hother hproof
      obtain ⟨hdf, hpf, hids⟩ := proofMessage_inj hmessage
      exact ⟨hsecret, hdf, hpf, hids, fun hd' hd => ids_inj hd' hd hids⟩
  · rw [heq] at h
    cases h
  · rw [herror] at h
    cases h
  · exact absurd h hrefused

/-- What holds of QR pairing over a sequence of calls. -/
structure QrLaws (P : QrPrimitives) (calls : List (Nat × QrCall)) : Prop where
  /-- No secret is accepted twice. -/
  once : (collect P (accepted P) {} calls).Nodup
  /-- What is accepted was proved. -/
  proved : ∀ before now d p df pf mac rest, calls = before ++ (now, .verify d p df pf mac) :: rest →
    ((after P {} before).verify P now d p df pf mac).2 = .ok () →
    Proved P before now d p df pf mac
  /-- A live code accepts its proof, also from a device that presented two wrong
  proofs, while the wrong proofs since it was started came from fewer than ten other
  devices. -/
  usable : ∀ early started call secret since now d p df pf mac received,
    calls = early ++ (started, call) :: since → call.Starts P secret →
    (∀ other ∈ since, ¬other.2.Ends P) →
    collect P (accepted P) (after P {} (early ++ [(started, call)])) since = [] →
    (∀ other ∈ since, other.1 ≤ now) → now < started + lifetime →
    (collect P (wrong P) (after P {} (early ++ [(started, call)])) since).count pf < maxFailures →
    ((collect P (wrong P) (after P {} (early ++ [(started, call)])) since).filter
      (· ≠ pf)).toFinset.card < 10 →
    proof P secret d p df pf = .ok received → decodeMac mac = some received →
    ((after P {} calls).verify P now d p df pf mac).2 = .ok ()
  /-- New addresses change the text of the live code and nothing else. -/
  refreshed : ∀ now host addresses port,
    ((after P {} calls).refreshAddresses now host addresses port).1 = after P {} calls ∨
      ∃ live uri, (after P {} calls).pending = some live ∧
        ((after P {} calls).refreshAddresses now host addresses port).1
          = { after P {} calls with pending := some { live with uri } }
  /-- A generation that is live no more is never live again; those after it are
  greater. -/
  generations : ∀ past between more, past ++ between ++ more = calls → ∀ t₁ t₂ t₃ g,
    t₁ ≤ t₂ → t₂ ≤ t₃ → (after P {} past).liveGeneration t₁ = some g →
    (after P {} (past ++ between)).liveGeneration t₂ ≠ some g →
    (after P {} calls).liveGeneration t₃ ≠ some g ∧
      ∀ g', (after P {} (past ++ between)).liveGeneration t₂ = some g' → g < g'
  /-- The proof of a packet is checked with the fingerprint of the certificate that the
  link presented. -/
  link : ∀ now d der phoneId phonePem mac,
    ((after P {} calls).checkQrProof P now d der phoneId phonePem mac).2 = .ok () →
    ∃ phoneDer df pf, P.toDer phonePem = .ok phoneDer ∧ P.sha256 der = .ok df ∧
      P.sha256 phoneDer = .ok pf ∧
      (after P {} calls).checkQrProof P now d der phoneId phonePem mac
        = (after P {} calls).verify P now d phoneId df pf (mac.getD "")

theorem checkQrProof_ok {der : Bytes} {phoneId phonePem : String} {mac : Option String}
    (h : (qr.checkQrProof P now d der phoneId phonePem mac).2 = .ok ()) :
    ∃ phoneDer df pf, P.toDer phonePem = .ok phoneDer ∧ P.sha256 der = .ok df ∧
      P.sha256 phoneDer = .ok pf ∧
      qr.checkQrProof P now d der phoneId phonePem mac
        = qr.verify P now d phoneId df pf (mac.getD "") := by
  unfold checkQrProof at h ⊢
  cases hpem : P.toDer phonePem with
  | error e => simp [hpem] at h
  | ok phoneDer =>
    cases hdf : P.sha256 der with
    | error e => simp [hpem, hdf] at h
    | ok df =>
      cases hpf : P.sha256 phoneDer with
      | error e => simp [hpem, hdf, hpf] at h
      | ok pf => exact ⟨phoneDer, df, pf, rfl, rfl, hpf, by simp [hpf]⟩

/-- For every sequence of calls with fresh secrets: a code pairs at most once, while
it is live and for its own proof; no device burns it for another, nor do fewer than
ten; new addresses leave it as it is; and generations do not come back. -/
theorem qr_laws (hideal : IdealMac P) (calls : List (Nat × QrCall))
    (hfresh : (secrets calls).Nodup) : QrLaws P calls where
  once := (used hideal calls hfresh).once
  proved := fun before now d p df pf mac rest _ h => Qr.proved hideal h
  usable := by
    intro early started call secret since now d p df pf mac received hcalls hstarts hquiet hunused
      htimes hnow hown hothers hproof hmac
    have hfirst : ∃ code, (after P {} (early ++ [(started, call)])).pending = some code ∧
        Since P secret started (after P {} (early ++ [(started, call)])) [] code := by
      rw [after_append, after_singleton]
      cases call with
      | start s desktopId der host addresses port =>
        obtain ⟨rfl, fp, hfp⟩ := hstarts
        simp only [step, start, hfp]
        exact ⟨_, rfl, .new rfl rfl rfl rfl⟩
      | refreshAddresses | cancel | verify | takeExpiredNotice | liveGeneration =>
        exact hstarts.elim
    obtain ⟨code, hcode, hnew⟩ := hfirst
    obtain ⟨live, hlive, hsince⟩ := still_live hideal hcode hnew since hquiet hunused
      htimes hnow hown hothers
    have hafter : (after P {} (early ++ [(started, call)])).after P since = after P {} calls := by
      rw [hcalls, ← after_append, List.append_assoc]
      rfl
    rw [hafter] at hlive
    have hbefore : now < live.expiresAt := by
      rw [hsince.expires]
      exact hnow
    have hfew : live.failures pf < maxFailures := by
      rw [hsince.counts]
      exact hown
    have hright : proof P live.secret d p df pf = .ok received := by
      rw [hsince.secret]
      exact hproof
    obtain ⟨_, _, _, _, _, _, heq⟩ | ⟨other, hother, _, hwrong, _⟩ | ⟨other, hother, hout, _⟩ |
      ⟨_, _, _, _, hwrong⟩ := verify_cases (after P {} calls) now hideal d p df pf mac
    · rw [heq]
    · rw [hlive, Option.some.injEq] at hother
      subst other
      exact absurd hright (hwrong received hmac)
    · rw [hlive, Option.some.injEq] at hother
      subst other
      omega
    · exact absurd hright (hwrong received hmac live hlive hbefore hfew)
  refreshed := refreshAddresses_cases (after P {} calls)
  generations := by
    rintro past between more rfl t₁ t₂ t₃ g _ h₂₃ h₁ h₂
    exact generation_gone hideal past between more h₁ h₂₃ h₂
  link := fun now d der phoneId phonePem mac h => checkQrProof_ok h

end Qr

/-! ### A run -/

/-- A MAC that shows its inputs. -/
def symbolicMac : QrPrimitives where
  sha256 der := .ok (Vector.replicate 32 (der.headD 0))
  hmac key message := .ok (key.toList ++ Lib.utf8Bytes message)
  toDer pem := .ok (Lib.utf8Bytes pem)

theorem symbolicMac_ideal : IdealMac symbolicMac where
  ok key message := ⟨_, rfl⟩
  inj := by
    intro key key' message message' mac h h'
    have heq : key.toList ++ Lib.utf8Bytes message = key'.toList ++ Lib.utf8Bytes message' :=
      (Except.ok.inj h).trans (Except.ok.inj h').symm
    obtain ⟨hkey, hmessage⟩ := List.append_inj heq (by simp)
    exact ⟨Vector.toList_inj.mp hkey, Lib.utf8Bytes_inj hmessage⟩

/-- A code, and a stranger's wrong proof. -/
def strangerRun : List (Nat × QrCall) :=
  [(0, .start (Vector.replicate 32 5) "desk" [1] none [] 1716),
    (1, .verify "desk" "stranger" (Vector.replicate 32 1) (Vector.replicate 32 7) "AAAA")]

/-- The phone still pairs. -/
theorem qr_laws_stranger : Qr.QrLaws symbolicMac strangerRun ∧
    ((Qr.after symbolicMac {} strangerRun).verify symbolicMac 2 "desk" "phone"
      (Vector.replicate 32 1) (Vector.replicate 32 2)
      (Lib.Base64.encodeUrl ((Vector.replicate 32 (5 : UInt8)).toList ++ Lib.utf8Bytes
        (proofMessage "desk" "phone" (Vector.replicate 32 1) (Vector.replicate 32 2))))).2
      = .ok () := by
  have hlaws := Qr.qr_laws symbolicMac_ideal strangerRun (by decide)
  refine ⟨hlaws, ?_⟩
  refine hlaws.usable [] 0 _ (Vector.replicate 32 5) _ 2 _ _ _ _ _ _ rfl ⟨rfl, _, rfl⟩ ?_ ?_ ?_ ?_ ?_
    ?_ rfl ?_
  · rintro other hother (h | ⟨secret, h⟩)
    · rw [List.mem_singleton.mp hother] at h
      cases h
    · rw [List.mem_singleton.mp hother] at h
      exact h
  · decide +kernel
  · decide
  · decide
  · decide +kernel
  · decide +kernel
  · rw [decodeMac, Lib.Base64.encodeUrl, String.toList_ofList]
    decide +kernel

end DeskLink.Pairing
