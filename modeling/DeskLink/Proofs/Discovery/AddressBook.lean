import DeskLink.Discovery.AddressBook

/-!
# `DeskLink.Proofs.Discovery.AddressBook`: unverified addresses displace nothing

A call changes the list of one phone at a time, so a phone's list is a fold of the calls
(`list_after`). `Kept` is what holds of every list that is reached.

`verified_after` is one call, seen by the verified addresses alone: a candidate call
leaves them as they are, and every other call does to them what it does to a list that
never had a candidate. `verified_run` is a whole run. `waits_after` and `waits_run` are
the backoff of an address that stays listed.
-/

set_option autoImplicit false

namespace DeskLink.Discovery

open Relay (IpAddr)

variable {f : Address → Address} {ip : IpAddr} {l : List Address} {known : Address} {d : String}
variable {failures : Nat} {retryAt : Option Nat} {later past : List BookCall}

/-! ### Lists of addresses -/

abbrev verifiedOf (l : List Address) : List Address := l.filter (·.verified)

theorem trimFrom_sublist (v4 v6 : Nat) (l : List Address) : (trimFrom v4 v6 l).Sublist l := by
  induction l generalizing v4 v6 with
  | nil => exact .slnil
  | cons known l ih =>
    rw [trimFrom]
    split
    · exact (ih v4 v6).cons_cons known
    · split
      · split
        · exact (ih (v4 + 1) v6).cons_cons known
        · exact (ih (v4 + 1) v6).cons known
      · split
        · exact (ih v4 (v6 + 1)).cons_cons known
        · exact (ih v4 (v6 + 1)).cons known

theorem verified_trimFrom (v4 v6 : Nat) (l : List Address) :
    verifiedOf (trimFrom v4 v6 l) = trimFrom v4 v6 (verifiedOf l) := by
  induction l generalizing v4 v6 with
  | nil => rfl
  | cons known l ih =>
    cases hverified : known.verified with
    | false => simp only [trimFrom, hverified, List.filter_cons, Bool.not_false, if_true, ih,
        Bool.false_eq_true, if_false]
    | true =>
      have hsplit : verifiedOf (known :: l) = known :: verifiedOf l := by
        simp [verifiedOf, hverified]
      rw [hsplit, trimFrom, trimFrom]
      simp only [hverified, Bool.not_true, Bool.false_eq_true, if_false]
      split
      · split
        · rw [← ih]
          simp [verifiedOf, hverified]
        · exact ih (v4 + 1) v6
      · split
        · rw [← ih]
          simp [verifiedOf, hverified]
        · exact ih v4 (v6 + 1)

/-- Each family counts up to its own bound. -/
theorem countP_trimFrom (v4 v6 : Nat) (l : List Address) :
    (trimFrom v4 v6 l).countP (fun known => known.verified && isIpv4 known.ip)
        ≤ maxAddresses - v4 ∧
      (trimFrom v4 v6 l).countP (fun known => known.verified && !isIpv4 known.ip) ≤ 1 - v6 := by
  induction l generalizing v4 v6 with
  | nil => exact ⟨Nat.zero_le _, Nat.zero_le _⟩
  | cons known l ih =>
    have hsame := ih v4 v6
    have hv4 := ih (v4 + 1) v6
    have hv6 := ih v4 (v6 + 1)
    rw [trimFrom]
    split
    · rename_i hverified
      rw [Bool.not_eq_true'] at hverified
      simpa [List.countP_cons, hverified] using hsame
    · split
      · rename_i hipv4
        split <;> grind
      · rename_i hipv6
        split <;> grind

abbrev unverifiedCount (l : List Address) : Nat := l.countP (fun known => !known.verified)

theorem trimCandidates_spec (fuel : Nat) (l : List Address)
    (hfuel : unverifiedCount l ≤ fuel + maxCandidates) :
    (trimCandidates fuel l).Sublist l ∧ verifiedOf (trimCandidates fuel l) = verifiedOf l ∧
      unverifiedCount (trimCandidates fuel l) ≤ maxCandidates := by
  induction fuel generalizing l with
  | zero => exact ⟨List.Sublist.refl l, rfl, by rw [Nat.zero_add] at hfuel; exact hfuel⟩
  | succ fuel ih =>
    rw [trimCandidates]
    split
    · rename_i hmany
      have hany : ∃ known ∈ l, (!known.verified) = true := List.countP_pos_iff.mp (by omega)
      have hsplit : ∃ a before after, (!a.verified) = true ∧ l = before ++ a :: after ∧
          l.eraseP (fun known => !known.verified) = before ++ after := by
        obtain ⟨known, hknown, hunverified⟩ := hany
        obtain ⟨a, before, after, -, ha, hl, herase⟩ :=
          @List.exists_of_eraseP _ (fun known : Address => !known.verified) l known hknown hunverified
        exact ⟨a, before, after, ha, hl, herase⟩
      obtain ⟨a, before, after, ha, hl, herase⟩ := hsplit
      have hcount : unverifiedCount l = unverifiedCount (l.eraseP (fun known => !known.verified)) + 1 := by
        rw [herase, hl]
        simp only [unverifiedCount, List.countP_append, List.countP_cons, ha, if_true]
        omega
      have hverified : verifiedOf (l.eraseP (fun known => !known.verified)) = verifiedOf l := by
        rw [herase, hl]
        simp only [verifiedOf, List.filter_append]
        rw [List.filter_cons_of_neg (by simpa using ha)]
      obtain ⟨hsub, hsame, hfew⟩ := ih (l := l.eraseP (fun known => !known.verified)) (by omega)
      exact ⟨hsub.trans List.eraseP_sublist, hsame.trans hverified, hfew⟩
    · rename_i hfew
      exact ⟨List.Sublist.refl l, rfl, Nat.le_of_not_lt hfew⟩

theorem updateIp_absent (h : ip ∉ l.map (·.ip)) : updateIp ip f l = l := by
  induction l with
  | nil => rfl
  | cons known l ih =>
    rw [List.map_cons, List.mem_cons, not_or] at h
    rw [updateIp, if_neg (Ne.symm h.1), ih h.2]

theorem updateIp_self (h : ∀ known ∈ l, known.ip = ip → f known = known) : updateIp ip f l = l := by
  induction l with
  | nil => rfl
  | cons known l ih =>
    rw [updateIp]
    split
    · rename_i heq
      rw [h known List.mem_cons_self heq]
    · rw [ih (fun other hother => h other (List.mem_cons_of_mem _ hother))]

/-- Where addresses differ, an update is a change of each. -/
theorem updateIp_eq_map (hnodup : (l.map (·.ip)).Nodup) :
    updateIp ip f l = l.map (fun known => if known.ip = ip then f known else known) := by
  induction l with
  | nil => rfl
  | cons known l ih =>
    rw [List.map_cons, List.nodup_cons] at hnodup
    rw [updateIp, List.map_cons, ← ih hnodup.2]
    split
    · rename_i heq
      rw [updateIp_absent (heq ▸ hnodup.1)]
    · rfl

theorem verified_map (hf : ∀ known, (f known).verified = known.verified) (l : List Address) :
    verifiedOf (l.map f) = (verifiedOf l).map f := by
  rw [verifiedOf, List.filter_map]
  congr 1
  exact List.filter_congr (fun known _ => hf known)

theorem verified_updateIp (hf : ∀ known, (f known).verified = known.verified)
    (hnodup : (l.map (·.ip)).Nodup) :
    verifiedOf (updateIp ip f l) = updateIp ip f (verifiedOf l) := by
  rw [updateIp_eq_map hnodup, updateIp_eq_map (hnodup.sublist (List.filter_sublist.map _))]
  apply verified_map
  intro known
  split
  · exact hf known
  · rfl

theorem eq_of_ip (hnodup : (l.map (·.ip)).Nodup) {a b : Address} (ha : a ∈ l) (hb : b ∈ l)
    (h : a.ip = b.ip) : a = b := List.inj_on_of_nodup_map hnodup ha hb h

/-! ### What holds of every list -/

/-- The addresses of a phone differ and are usable, and there are not too many. -/
structure Kept (l : List Address) : Prop where
  nodup : (l.map (·.ip)).Nodup
  usable : ∀ known ∈ l, unusable known.ip = false
  v4 : l.countP (fun known => known.verified && isIpv4 known.ip) ≤ maxAddresses
  v6 : l.countP (fun known => known.verified && !isIpv4 known.ip) ≤ 1
  candidates : unverifiedCount l ≤ maxCandidates

theorem kept_nil : Kept [] :=
  ⟨List.nodup_nil, fun _ h => absurd h List.not_mem_nil, Nat.zero_le _, Nat.zero_le _, Nat.zero_le _⟩

/-- A list made of a kept one by trimming what is verified. -/
theorem kept_trim (hnodup : (l.map (·.ip)).Nodup) (husable : ∀ known ∈ l, unusable known.ip = false)
    (hcandidates : unverifiedCount l ≤ maxCandidates) : Kept (trimVerified l) where
  nodup := hnodup.sublist ((trimFrom_sublist 0 0 l).map _)
  usable known h := husable known ((trimFrom_sublist 0 0 l).subset h)
  v4 := (countP_trimFrom 0 0 l).1
  v6 := (countP_trimFrom 0 0 l).2
  candidates := ((trimFrom_sublist 0 0 l).countP_le).trans hcandidates

theorem not_any_ip (h : (l.any (fun known => known.ip = ip)) = false) : ip ∉ l.map (·.ip) := by
  intro hmem
  obtain ⟨known, hknown, hip⟩ := List.mem_map.mp hmem
  have hnone := List.any_eq_false.mp h known hknown
  exact hnone (decide_eq_true hip)

theorem nodup_snoc {verified : Bool} (hnodup : (l.map (·.ip)).Nodup) (habsent : ip ∉ l.map (·.ip)) :
    ((l ++ [Address.new ip verified]).map (·.ip)).Nodup := by
  rw [List.map_append, List.nodup_append]
  refine ⟨hnodup, List.nodup_singleton _, fun a ha b hb heq => habsent ?_⟩
  rw [List.map_singleton, List.mem_singleton] at hb
  rw [heq, hb] at ha
  exact ha

theorem Kept.seenAt (h : Kept l) (hip : unusable ip = false) : Kept (seenAt ip l) := by
  apply kept_trim
  · rw [List.map_cons, List.nodup_cons]
    refine ⟨fun hmem => ?_, h.nodup.sublist (List.filter_sublist.map _)⟩
    obtain ⟨known, hknown, heq⟩ := List.mem_map.mp hmem
    have hne := (List.mem_filter.mp hknown).2
    rw [decide_eq_true_eq] at hne
    exact hne heq
  · intro known hknown
    obtain rfl | hold := List.mem_cons.mp hknown
    · exact hip
    · exact h.usable known (List.mem_of_mem_filter hold)
  · rw [unverifiedCount, List.countP_cons_of_neg (by simp [Address.new])]
    exact (List.filter_sublist.countP_le).trans h.candidates

theorem Kept.rememberedAt (h : Kept l) (hip : unusable ip = false) : Kept (rememberedAt ip l) := by
  unfold Discovery.rememberedAt
  cases hany : l.any (fun known => known.ip = ip) with
  | true =>
    rw [if_pos rfl, updateIp_eq_map h.nodup]
    have hip' (known : Address) : (if known.ip = ip then { known with verified := true }
        else known).ip = known.ip := by
      split <;> rfl
    apply kept_trim
    · rw [List.map_map]
      exact (List.map_congr_left (fun known _ => hip' known)) ▸ h.nodup
    · intro known hknown
      obtain ⟨old, hold, rfl⟩ := List.mem_map.mp hknown
      rw [hip']
      exact h.usable old hold
    · rw [unverifiedCount, List.countP_map]
      refine le_trans (List.countP_mono_left (fun known _ hunverified => ?_)) h.candidates
      simp only [Function.comp] at hunverified
      split at hunverified
      · cases hunverified
      · exact hunverified
  | false =>
    rw [if_neg Bool.false_ne_true]
    apply kept_trim
    · exact nodup_snoc h.nodup (not_any_ip hany)
    · intro known hknown
      obtain hold | hnew := List.mem_append.mp hknown
      · exact h.usable known hold
      · rw [List.mem_singleton.mp hnew]
        exact hip
    · have hcandidates := h.candidates
      simpa [unverifiedCount, Address.new] using hcandidates

/-- A change that is neither of an address nor of whether it is verified. -/
theorem Kept.map (h : Kept l) (hip : ∀ known, (f known).ip = known.ip)
    (hverified : ∀ known, (f known).verified = known.verified) : Kept (l.map f) where
  nodup := by
    have hips : (l.map f).map (·.ip) = l.map (·.ip) := by
      rw [List.map_map]
      exact List.map_congr_left (fun known _ => hip known)
    rw [hips]
    exact h.nodup
  usable known hknown := by
    obtain ⟨old, hold, rfl⟩ := List.mem_map.mp hknown
    rw [hip]
    exact h.usable old hold
  v4 := by
    rw [List.countP_map]
    exact (List.countP_congr (fun known _ => by simp [hip, hverified])).le.trans h.v4
  v6 := by
    rw [List.countP_map]
    exact (List.countP_congr (fun known _ => by simp [hip, hverified])).le.trans h.v6
  candidates := by
    rw [unverifiedCount, List.countP_map]
    exact (List.countP_congr (fun known _ => by simp [hverified])).le.trans h.candidates

theorem Kept.updateIp (h : Kept l) (ip : IpAddr) (hip : ∀ known, (f known).ip = known.ip)
    (hverified : ∀ known, (f known).verified = known.verified) : Kept (updateIp ip f l) := by
  rw [updateIp_eq_map h.nodup]
  apply h.map
  · intro known
    split
    · exact hip known
    · rfl
  · intro known
    split
    · exact hverified known
    · rfl

theorem Kept.candidateAt (h : Kept l) (hip : unusable ip = false) : Kept (candidateAt ip l) := by
  unfold Discovery.candidateAt
  cases hany : l.any (fun known => known.ip = ip) with
  | true => exact h
  | false =>
    have hcandidates := h.candidates
    have hcount : unverifiedCount (l ++ [.new ip false]) = unverifiedCount l + 1 := by
      simp [unverifiedCount, Address.new]
    obtain ⟨hsub, hverified, hfew⟩ := trimCandidates_spec (l.length + 1)
      (l ++ [.new ip false]) (by omega)
    have hkind (q : Address → Bool) :
        (trimCandidates (l.length + 1) (l ++ [.new ip false])).countP
          (fun known => known.verified && q known) = l.countP (fun known => known.verified && q known) := by
      have hsplit (list : List Address) : list.countP (fun known => known.verified && q known)
          = (verifiedOf list).countP q := by
        rw [verifiedOf, List.countP_filter]
        exact List.countP_congr (fun known _ => by rw [Bool.and_comm])
      rw [hsplit, hsplit, hverified, verifiedOf, List.filter_append]
      simp [Address.new]
    exact { nodup := (nodup_snoc h.nodup (not_any_ip hany)).sublist (hsub.map _)
            usable := fun known hknown => by
              obtain hold | hnew := List.mem_append.mp (hsub.subset hknown)
              · exact h.usable known hold
              · rw [List.mem_singleton.mp hnew]
                exact hip
            v4 := (hkind (fun known => isIpv4 known.ip)).le.trans h.v4
            v6 := (hkind (fun known => !isIpv4 known.ip)).le.trans h.v6
            candidates := hfew }

/-! ### One call, seen by one phone -/

/-- What a call makes of a phone's list. -/
def phoneAfter (d : String) (l : List Address) : BookCall → List Address
  | .seen other ip | .worked other ip =>
    if other = d ∧ unusable ip = false then seenAt ip l else l
  | .candidate other ip => if other = d ∧ unusable ip = false then candidateAt ip l else l
  | .remembered other ip => if other = d ∧ unusable ip = false then rememberedAt ip l else l
  | .failed other ip now => if other = d then updateIp ip (fun known => known.fail now) l else l
  | .wake only => if only.all (· = d) then l.map Address.wake else l
  | .forget other => if other = d then [] else l
  | .beaconTargets other now => if other = d then l.map (fun known => known.beacon now) else l

theorem list_insert (book : AddressBook) (other d : String) (l : List Address) :
    AddressBook.list (book.insert other l) d = if other = d then l else book.list d := by
  unfold AddressBook.list
  rw [getElem?_keyInsert]
  split <;> rfl

theorem list_enter (book : AddressBook) (other d : String) (ip : IpAddr)
    (f : List Address → List Address) : (book.enter other ip f).list d =
      if other = d ∧ unusable ip = false then f (book.list d) else book.list d := by
  unfold AddressBook.enter
  cases unusable ip with
  | true => simp
  | false =>
    rw [if_neg Bool.false_ne_true, list_insert]
    by_cases hd : other = d
    · simp [hd]
    · simp [hd]

/-- Each phone has its list by itself. -/
theorem list_after (book : AddressBook) (call : BookCall) (d : String) :
    (book.after call).list d = phoneAfter d (book.list d) call := by
  cases call with
  | seen other ip => exact list_enter book other d ip _
  | candidate other ip => exact list_enter book other d ip _
  | remembered other ip => exact list_enter book other d ip _
  | worked other ip => exact list_enter book other d ip _
  | failed other ip now =>
    show (book.failed other ip now).list d = _
    unfold AddressBook.failed phoneAfter
    cases hget : book[other]? with
    | none =>
      by_cases hd : other = d
      · have hnil : book.list d = [] := by rw [AddressBook.list, ← hd, hget, Option.getD_none]
        simp [hd, hnil, updateIp]
      · simp [hd]
    | some l =>
      rw [list_insert]
      by_cases hd : other = d
      · have hlist : book.list d = l := by rw [AddressBook.list, ← hd, hget, Option.getD_some]
        simp [hd, hlist]
      · simp [hd]
  | wake only =>
    show (book.wake only).list d = _
    unfold AddressBook.wake AddressBook.list phoneAfter
    rw [Std.ExtTreeMap.getElem?_map]
    cases book[d]? with
    | none => simp
    | some l => simp
  | forget other =>
    show AddressBook.list (book.erase other) d = _
    simp only [AddressBook.list, phoneAfter]
    rw [getElem?_keyErase]
    split <;> rfl
  | beaconTargets other now =>
    show ((book.beaconTargets other now).1).list d = _
    unfold AddressBook.beaconTargets phoneAfter
    cases hget : book[other]? with
    | none =>
      by_cases hd : other = d
      · have hnil : book.list d = [] := by rw [AddressBook.list, ← hd, hget, Option.getD_none]
        simp [hd, hnil]
      · simp [hd]
    | some l =>
      simp only
      rw [list_insert]
      by_cases hd : other = d
      · have hlist : book.list d = l := by rw [AddressBook.list, ← hd, hget, Option.getD_some]
        simp [hd, hlist]
      · simp [hd]

theorem bookAfter_snoc (calls : List BookCall) (call : BookCall) :
    bookAfter (calls ++ [call]) = (bookAfter calls).after call := by
  rw [bookAfter, List.foldl_append]
  rfl

theorem fail_ip (known : Address) (now : Nat) :
    (known.fail now).ip = known.ip ∧ (known.fail now).verified = known.verified := ⟨rfl, rfl⟩

theorem wake_ip (known : Address) :
    known.wake.ip = known.ip ∧ known.wake.verified = known.verified := ⟨rfl, rfl⟩

theorem beacon_ip (known : Address) (now : Nat) :
    (known.beacon now).ip = known.ip ∧ (known.beacon now).verified = known.verified ∧
      (known.beacon now).failures = known.failures ∧
      (known.beacon now).retryAt = known.retryAt := by
  unfold Address.beacon
  split
  · exact ⟨rfl, rfl, rfl, rfl⟩
  · exact ⟨rfl, rfl, rfl, rfl⟩

theorem Kept.after (h : Kept l) (d : String) (call : BookCall) : Kept (phoneAfter d l call) := by
  cases call with
  | seen other ip =>
    rw [phoneAfter]
    split
    · rename_i hd
      exact h.seenAt hd.2
    · exact h
  | worked other ip =>
    rw [phoneAfter]
    split
    · rename_i hd
      exact h.seenAt hd.2
    · exact h
  | candidate other ip =>
    rw [phoneAfter]
    split
    · rename_i hd
      exact h.candidateAt hd.2
    · exact h
  | remembered other ip =>
    rw [phoneAfter]
    split
    · rename_i hd
      exact h.rememberedAt hd.2
    · exact h
  | failed other ip now =>
    rw [phoneAfter]
    split
    · exact h.updateIp ip (fun known => (fail_ip known now).1) (fun known => (fail_ip known now).2)
    · exact h
  | wake only =>
    rw [phoneAfter]
    split
    · exact h.map (fun known => (wake_ip known).1) (fun known => (wake_ip known).2)
    · exact h
  | forget other =>
    rw [phoneAfter]
    split
    · exact kept_nil
    · exact h
  | beaconTargets other now =>
    rw [phoneAfter]
    split
    · exact h.map (fun known => (beacon_ip known now).1) (fun known => (beacon_ip known now).2.1)
    · exact h

theorem kept_bookAfter (calls : List BookCall) (d : String) : Kept ((bookAfter calls).list d) := by
  induction calls using List.reverseRecOn with
  | nil => exact kept_nil
  | append_singleton past call ih =>
    rw [bookAfter_snoc, list_after]
    exact ih.after d call

/-! ### What the verified addresses see of a call -/

theorem verified_seenAt (ip : IpAddr) (l : List Address) :
    verifiedOf (seenAt ip l) = seenAt ip (verifiedOf l) := by
  unfold seenAt trimVerified
  rw [verified_trimFrom, verifiedOf, List.filter_cons_of_pos rfl, List.filter_filter,
    List.filter_filter]
  simp only [Bool.and_comm]

theorem verified_candidateAt (h : Kept l) (ip : IpAddr) :
    verifiedOf (candidateAt ip l) = verifiedOf l := by
  unfold candidateAt
  split
  · rfl
  · have hcandidates := h.candidates
    have hcount : unverifiedCount (l ++ [.new ip false]) = unverifiedCount l + 1 := by
      simp [unverifiedCount, Address.new]
    obtain ⟨-, hverified, -⟩ := trimCandidates_spec (l.length + 1)
      (l ++ [.new ip false]) (by omega)
    rw [hverified, verifiedOf, List.filter_append]
    simp [Address.new]

/-- An address that is remembered where nobody claimed it without proof. -/
theorem verified_rememberedAt (hip : ∀ known ∈ l, known.ip = ip → known.verified = true) :
    verifiedOf (rememberedAt ip l) = rememberedAt ip (verifiedOf l) := by
  have hself (list : List Address) (hlist : ∀ known ∈ list, known.ip = ip → known.verified = true) :
      updateIp ip (fun known => { known with verified := true }) list = list :=
    updateIp_self (fun known hknown heq => by rw [← hlist known hknown heq])
  have hany : (verifiedOf l).any (fun known => known.ip = ip) = l.any (fun known => known.ip = ip) := by
    rw [Bool.eq_iff_iff, List.any_eq_true, List.any_eq_true]
    constructor
    · rintro ⟨known, hknown, heq⟩
      exact ⟨known, List.mem_of_mem_filter hknown, heq⟩
    · rintro ⟨known, hknown, heq⟩
      exact ⟨known, List.mem_filter.mpr ⟨hknown, hip known hknown (of_decide_eq_true heq)⟩, heq⟩
  unfold rememberedAt trimVerified
  rw [verified_trimFrom, hany]
  split
  · rw [hself l hip, hself _ (fun known hknown => hip known (List.mem_of_mem_filter hknown))]
  · rw [verifiedOf, List.filter_append]
    rfl

/-- Every call but a candidate one does to the verified addresses what it does to a list
that has nothing else; a candidate call does nothing to them. -/
theorem verified_after (h : Kept l) (d : String) (call : BookCall)
    (hclaimed : ∀ known ∈ l, known.verified = false → ¬call.verifies d known.ip) :
    verifiedOf (phoneAfter d l call) =
      if call.isCandidate then verifiedOf l else phoneAfter d (verifiedOf l) call := by
  cases call with
  | seen other ip =>
    simp only [BookCall.isCandidate, Bool.false_eq_true, if_false, phoneAfter]
    split
    · exact verified_seenAt ip l
    · rfl
  | worked other ip =>
    simp only [BookCall.isCandidate, Bool.false_eq_true, if_false, phoneAfter]
    split
    · exact verified_seenAt ip l
    · rfl
  | candidate other ip =>
    simp only [BookCall.isCandidate, if_true, phoneAfter]
    split
    · exact verified_candidateAt h ip
    · rfl
  | remembered other ip =>
    simp only [BookCall.isCandidate, Bool.false_eq_true, if_false, phoneAfter]
    split
    · rename_i hd
      apply verified_rememberedAt
      intro known hknown heq
      by_contra hunverified
      rw [Bool.not_eq_true] at hunverified
      exact hclaimed known hknown hunverified (.inr (.inr (by rw [hd.1, heq])))
    · rfl
  | failed other ip now =>
    simp only [BookCall.isCandidate, Bool.false_eq_true, if_false, phoneAfter]
    split
    · exact verified_updateIp (fun known => (fail_ip known now).2) h.nodup
    · rfl
  | wake only =>
    simp only [BookCall.isCandidate, Bool.false_eq_true, if_false, phoneAfter]
    split
    · exact verified_map (fun known => (wake_ip known).2) l
    · rfl
  | forget other =>
    simp only [BookCall.isCandidate, Bool.false_eq_true, if_false, phoneAfter]
    split
    · rfl
    · rfl
  | beaconTargets other now =>
    simp only [BookCall.isCandidate, Bool.false_eq_true, if_false, phoneAfter]
    split
    · exact verified_map (fun known => (beacon_ip known now).2.1) l
    · rfl

/-! ### Where an address comes from -/

theorem mem_seenAt (h : known ∈ seenAt ip l) :
    known = .new ip true ∨ known ∈ l ∧ known.ip ≠ ip := by
  have hmem : known ∈ Address.new ip true :: l.filter (fun known => known.ip ≠ ip) :=
    (trimFrom_sublist 0 0 _).subset h
  obtain heq | hold := List.mem_cons.mp hmem
  · exact .inl heq
  · obtain ⟨hmem, hne⟩ := List.mem_filter.mp hold
    exact .inr ⟨hmem, of_decide_eq_true hne⟩

theorem mem_candidateAt (hkept : Kept l) (h : known ∈ candidateAt ip l) :
    known ∈ l ∨ known = .new ip false ∧ ip ∉ l.map (·.ip) := by
  unfold candidateAt at h
  cases hany : l.any (fun known => known.ip = ip) with
  | true =>
    rw [if_pos hany] at h
    exact .inl h
  | false =>
    rw [if_neg (by simp [hany])] at h
    have hcandidates := hkept.candidates
    have hcount : unverifiedCount (l ++ [.new ip false]) = unverifiedCount l + 1 := by
      simp [unverifiedCount, Address.new]
    have hsub := (trimCandidates_spec (l.length + 1) (l ++ [.new ip false])
      (by omega)).1
    obtain hold | hnew := List.mem_append.mp (hsub.subset h)
    · exact .inl hold
    · exact .inr ⟨List.mem_singleton.mp hnew, not_any_ip hany⟩

theorem mem_rememberedAt (hkept : Kept l) (h : known ∈ rememberedAt ip l) :
    known = .new ip true ∧ ip ∉ l.map (·.ip) ∨
      ∃ old ∈ l, known = if old.ip = ip then { old with verified := true } else old := by
  have hmem := (trimFrom_sublist 0 0 _).subset h
  cases hany : l.any (fun known => known.ip = ip) with
  | true =>
    rw [hany, if_pos rfl, updateIp_eq_map hkept.nodup] at hmem
    obtain ⟨old, hold, heq⟩ := List.mem_map.mp hmem
    exact .inr ⟨old, hold, heq.symm⟩
  | false =>
    rw [hany, if_neg Bool.false_ne_true] at hmem
    obtain hold | hnew := List.mem_append.mp hmem
    · refine .inr ⟨known, hold, ?_⟩
      have hne : known.ip ≠ ip := fun heq =>
        not_any_ip hany (List.mem_map.mpr ⟨known, hold, heq⟩)
      rw [if_neg hne]
    · exact .inl ⟨List.mem_singleton.mp hnew, not_any_ip hany⟩

/-- An unverified address was there before, or this call claims it. -/
theorem claimed_after (hkept : Kept l) {call : BookCall} (h : known ∈ phoneAfter d l call)
    (hunverified : known.verified = false) :
    (∃ old ∈ l, old.verified = false ∧ old.ip = known.ip) ∨ call = .candidate d known.ip := by
  have hsame (hmem : known ∈ l) : ∃ old ∈ l, old.verified = false ∧ old.ip = known.ip :=
    ⟨known, hmem, hunverified, rfl⟩
  have hseen {ip : IpAddr} (hmem : known ∈ seenAt ip l) :
      ∃ old ∈ l, old.verified = false ∧ old.ip = known.ip := by
    obtain rfl | ⟨hold, -⟩ := mem_seenAt hmem
    · cases hunverified
    · exact hsame hold
  have hmap {f : Address → Address} (hip : ∀ a, (f a).ip = a.ip)
      (hverified : ∀ a, (f a).verified = a.verified) (hmem : known ∈ l.map f) :
      ∃ old ∈ l, old.verified = false ∧ old.ip = known.ip := by
    obtain ⟨old, hold, rfl⟩ := List.mem_map.mp hmem
    exact ⟨old, hold, by rw [← hverified, hunverified], (hip old).symm⟩
  cases call with
  | seen other ip =>
    rw [phoneAfter] at h
    split at h
    · exact .inl (hseen h)
    · exact .inl (hsame h)
  | worked other ip =>
    rw [phoneAfter] at h
    split at h
    · exact .inl (hseen h)
    · exact .inl (hsame h)
  | candidate other ip =>
    rw [phoneAfter] at h
    split at h
    · rename_i hd
      obtain hold | ⟨rfl, -⟩ := mem_candidateAt hkept h
      · exact .inl (hsame hold)
      · exact .inr (by rw [hd.1]; rfl)
    · exact .inl (hsame h)
  | remembered other ip =>
    rw [phoneAfter] at h
    split at h
    · obtain ⟨rfl, -⟩ | ⟨old, hold, rfl⟩ := mem_rememberedAt hkept h
      · cases hunverified
      · split at hunverified
        · cases hunverified
        · rename_i hne
          rw [if_neg hne]
          exact .inl ⟨old, hold, hunverified, rfl⟩
    · exact .inl (hsame h)
  | failed other ip now =>
    rw [phoneAfter] at h
    split at h
    · rw [updateIp_eq_map hkept.nodup] at h
      refine .inl (hmap (fun a => ?_) (fun a => ?_) h)
      · split <;> rfl
      · split <;> rfl
    · exact .inl (hsame h)
  | wake only =>
    rw [phoneAfter] at h
    split at h
    · exact .inl (hmap (fun a => (wake_ip a).1) (fun a => (wake_ip a).2) h)
    · exact .inl (hsame h)
  | forget other =>
    rw [phoneAfter] at h
    split at h
    · cases h
    · exact .inl (hsame h)
  | beaconTargets other now =>
    rw [phoneAfter] at h
    split at h
    · exact .inl (hmap (fun a => (beacon_ip a now).1) (fun a => (beacon_ip a now).2.1) h)
    · exact .inl (hsame h)

/-! ### Runs with and without claims -/

/-- Every candidate call is for an address that no call verifies. -/
def OnlyClaims (calls : List BookCall) : Prop :=
  ∀ d ip, BookCall.candidate d ip ∈ calls → ∀ call ∈ calls, ¬call.verifies d ip

/-- The verified addresses of a run are the addresses of the run without its candidate
calls, and every other address was claimed. -/
theorem verified_run {calls : List BookCall} (h : OnlyClaims calls) (d : String) :
    verifiedOf ((bookAfter calls).list d)
        = (bookAfter (calls.filter (fun call => !call.isCandidate))).list d ∧
      ∀ known ∈ (bookAfter calls).list d, known.verified = false →
        BookCall.candidate d known.ip ∈ calls := by
  induction calls using List.reverseRecOn with
  | nil => exact ⟨rfl, fun known hknown => by cases hknown⟩
  | append_singleton past call ih =>
    have hpast : OnlyClaims past := fun d ip hmem other hother =>
      h d ip (List.mem_append_left _ hmem) other (List.mem_append_left _ hother)
    obtain ⟨hverified, hclaimed⟩ := ih hpast
    have hkept := kept_bookAfter past d
    have hafter := verified_after hkept d call (fun known hknown hunverified =>
      h d known.ip (List.mem_append_left _ (hclaimed known hknown hunverified)) call (by simp))
    rw [bookAfter_snoc, list_after]
    constructor
    · rw [hafter, List.filter_append]
      cases hcandidate : call.isCandidate with
      | true => simp [hcandidate, hverified]
      | false =>
        rw [if_neg Bool.false_ne_true, hverified]
        simp only [List.filter_cons, hcandidate, Bool.not_false, if_true, List.filter_nil]
        rw [bookAfter_snoc, list_after]
    · intro known hknown hunverified
      obtain ⟨old, hold, hunverified', heq⟩ | heq := claimed_after hkept hknown hunverified
      · rw [← heq]
        exact List.mem_append_left _ (hclaimed old hold hunverified')
      · rw [← heq]
        simp

/-! ### Backoff -/

theorem addressBackoff_one : addressBackoff 1 = firstAddressBackoff := by decide

/-- The wait doubles with each failure up to its maximum. -/
theorem addressBackoff_succ (n : Nat) :
    addressBackoff (n + 2) = min (2 * addressBackoff (n + 1)) maxAddressBackoff := by
  have hfirst : firstAddressBackoff = 3000000000 := rfl
  have hmax : maxAddressBackoff = 300000000000 := rfl
  unfold addressBackoff
  rw [hfirst, hmax, show n + 2 - 1 = n + 1 by omega, show n + 1 - 1 = n by omega]
  by_cases hn : n < 10
  · rw [Nat.min_eq_left (by omega : n + 1 ≤ 10), Nat.min_eq_left (by omega : n ≤ 10), pow_succ]
    omega
  · rw [Nat.min_eq_right (by omega : 10 ≤ n + 1), Nat.min_eq_right (by omega : 10 ≤ n)]
    norm_num

/-- The address is listed with so many failures and may be dialled from then on. -/
def Waits (l : List Address) (ip : IpAddr) (failures : Nat) (retryAt : Option Nat) : Prop :=
  ∃ known ∈ l, known.ip = ip ∧ known.failures = failures ∧ known.retryAt = retryAt

/-- Failures and waiting time of an address that stays listed, after a call that does
not refresh it. -/
theorem waits_after {l : List Address} (hkept : Kept l) {d : String} {ip : IpAddr}
    {call : BookCall} (hrefresh : call.refreshes d ip = false)
    (hlisted : ip ∈ (phoneAfter d l call).map (·.ip)) {failures : Nat} {retryAt : Option Nat}
    (h : Waits l ip failures retryAt) :
    Waits (phoneAfter d l call) ip
      (if (call.failureOf d ip).isSome then saturatingSucc failures else failures)
      (match call.failureOf d ip with
        | some now => some (now + addressBackoff (saturatingSucc failures))
        | none => retryAt) := by
  obtain ⟨known, hknown, hip, hfailures, hretry⟩ := h
  obtain ⟨x, hx, hxip⟩ := List.mem_map.mp hlisted
  have hsame : Waits l ip failures retryAt := ⟨known, hknown, hip, hfailures, hretry⟩
  -- An address of the old list that is listed under this IP is the old one.
  have hold (old : Address) (hmem : old ∈ l) (heq : old.ip = ip) : old = known :=
    eq_of_ip hkept.nodup hmem hknown (heq.trans hip.symm)
  cases call with
  | seen other otherIp | worked other otherIp =>
    simp only [BookCall.failureOf, Option.isSome_none, Bool.false_eq_true, if_false]
    rw [phoneAfter] at hx ⊢
    split at hx
    · rename_i hd
      rw [if_pos hd]
      obtain rfl | ⟨hmem, -⟩ := mem_seenAt hx
      · have hother : otherIp = ip := hxip
        simp [BookCall.refreshes, hd.1, hother] at hrefresh
      · rw [hold x hmem hxip] at hx
        exact ⟨known, hx, hip, hfailures, hretry⟩
    · rename_i hd
      rw [if_neg hd]
      exact hsame
  | candidate other otherIp =>
    simp only [BookCall.failureOf, Option.isSome_none, Bool.false_eq_true, if_false]
    rw [phoneAfter] at hx ⊢
    split at hx
    · rename_i hd
      rw [if_pos hd]
      obtain hmem | ⟨rfl, habsent⟩ := mem_candidateAt hkept hx
      · rw [hold x hmem hxip] at hx
        exact ⟨known, hx, hip, hfailures, hretry⟩
      · have hother : otherIp = ip := hxip
        exact absurd (List.mem_map.mpr ⟨known, hknown, hip.trans hother.symm⟩) habsent
    · rename_i hd
      rw [if_neg hd]
      exact hsame
  | remembered other otherIp =>
    simp only [BookCall.failureOf, Option.isSome_none, Bool.false_eq_true, if_false]
    rw [phoneAfter] at hx ⊢
    split at hx
    · rename_i hd
      rw [if_pos hd]
      obtain ⟨rfl, habsent⟩ | ⟨old, hmem, heq⟩ := mem_rememberedAt hkept hx
      · have hother : otherIp = ip := hxip
        exact absurd (List.mem_map.mpr ⟨known, hknown, hip.trans hother.symm⟩) habsent
      · have hfields : x.ip = old.ip ∧ x.failures = old.failures ∧ x.retryAt = old.retryAt := by
          rw [heq]
          split
          · exact ⟨rfl, rfl, rfl⟩
          · exact ⟨rfl, rfl, rfl⟩
        have hknown' := hold old hmem (hfields.1.symm.trans hxip)
        rw [hknown', hfailures, hretry] at hfields
        exact ⟨x, hx, hxip, hfields.2⟩
    · rename_i hd
      rw [if_neg hd]
      exact hsame
  | failed other otherIp now =>
    by_cases hd : other = d ∧ otherIp = ip
    · have hfailure : (BookCall.failed other otherIp now).failureOf d ip = some now := if_pos hd
      simp only [hfailure, Option.isSome_some, if_true]
      rw [phoneAfter, if_pos hd.1, updateIp_eq_map hkept.nodup]
      refine ⟨known.fail now, List.mem_map.mpr ⟨known, hknown, ?_⟩, hip, ?_, ?_⟩
      · rw [if_pos (hip.trans hd.2.symm)]
      · rw [← hfailures]
        rfl
      · rw [← hfailures]
        rfl
    · have hfailure : (BookCall.failed other otherIp now).failureOf d ip = none := if_neg hd
      simp only [hfailure, Option.isSome_none, Bool.false_eq_true, if_false]
      rw [phoneAfter]
      split
      · rename_i hd'
        rw [updateIp_eq_map hkept.nodup]
        refine ⟨known, List.mem_map.mpr ⟨known, hknown, ?_⟩, hip, hfailures, hretry⟩
        rw [if_neg (fun heq => hd ⟨hd', heq.symm.trans hip⟩)]
      · exact hsame
  | wake only =>
    have hnot : only.all (· = d) = false := hrefresh
    rw [phoneAfter, hnot]
    exact hsame
  | forget other =>
    rw [phoneAfter] at hx ⊢
    split at hx
    · cases hx
    · rename_i hd
      rw [if_neg hd]
      exact hsame
  | beaconTargets other now =>
    rw [phoneAfter]
    split
    · obtain ⟨hip', -, hfailures', hretry'⟩ := beacon_ip known now
      exact ⟨known.beacon now, List.mem_map.mpr ⟨known, hknown, rfl⟩, hip'.trans hip,
        hfailures'.trans hfailures, hretry'.trans hretry⟩
    · exact hsame

/-- The times at which dials to the address failed. -/
def failureTimes (d : String) (ip : IpAddr) (calls : List BookCall) : List Nat :=
  calls.filterMap (BookCall.failureOf d ip)

/-- Failures of a `u32` counter. -/
def failuresAfter (count : Nat) (times : List Nat) : Nat :=
  times.foldl (fun count _ => saturatingSucc count) count

/-- While an address stays listed and nothing refreshes it, its failures are counted,
and the last one says when it is due again. -/
theorem waits_run (h : Waits ((bookAfter past).list d) ip failures retryAt)
    (hrefresh : ∀ call ∈ later, call.refreshes d ip = false) (hlisted : ∀ part, part <+: later →
      ip ∈ ((bookAfter (past ++ part)).list d).map (·.ip)) :
    Waits ((bookAfter (past ++ later)).list d) ip (failuresAfter failures (failureTimes d ip later))
      (match (failureTimes d ip later).getLast? with
        | some last => some (last +
            addressBackoff (failuresAfter failures (failureTimes d ip later)))
        | none => retryAt) := by
  induction later using List.reverseRecOn with
  | nil =>
    rw [List.append_nil]
    exact h
  | append_singleton part call ih =>
    have hbefore := ih (fun c hc => hrefresh c (List.mem_append_left _ hc))
      (fun part' hpart' => hlisted part' (hpart'.trans (List.prefix_append part [call])))
    have hnow := hlisted (part ++ [call]) (List.prefix_refl _)
    rw [← List.append_assoc, bookAfter_snoc, list_after] at hnow ⊢
    have hstep := waits_after (kept_bookAfter (past ++ part) d) (hrefresh call (by simp)) hnow hbefore
    have htimes : failureTimes d ip (part ++ [call])
        = failureTimes d ip part ++ (call.failureOf d ip).toList := by
      rw [failureTimes, List.filterMap_append]
      cases hfailure : call.failureOf d ip with
      | none => simp [failureTimes, hfailure]
      | some now => simp [failureTimes, hfailure]
    rw [htimes]
    cases hfailure : call.failureOf d ip with
    | none =>
      rw [hfailure] at hstep
      simpa using hstep
    | some now =>
      rw [hfailure] at hstep
      simp only [Option.isSome_some, if_true] at hstep
      simpa [failuresAfter] using hstep

theorem mem_due {book : AddressBook} (hkept : Kept (book.list d))
    (h : Waits (book.list d) ip failures retryAt) (now : Nat) :
    ip ∈ book.due d now ↔ retryAt.all (· ≤ now) = true := by
  obtain ⟨known, hknown, hip, -, hretry⟩ := h
  unfold AddressBook.due
  rw [List.mem_map]
  constructor
  · rintro ⟨x, hx, hxip⟩
    obtain ⟨hmem, hdue⟩ := List.mem_filter.mp hx
    rw [eq_of_ip hkept.nodup hmem hknown (hxip.trans hip.symm), hretry] at hdue
    exact hdue
  · intro hdue
    exact ⟨known, List.mem_filter.mpr ⟨hknown, by rw [hretry]; exact hdue⟩, hip⟩

/-- After a failure of an address that stays listed and is not refreshed, it is due
again when the wait for its failures is over, counted from the last one. -/
theorem due_run {now : Nat} (h : Waits ((bookAfter past).list d) ip failures retryAt)
    (hrefresh : ∀ call ∈ later, call.refreshes d ip = false) (hlisted : ∀ part, part <+: later →
      ip ∈ ((bookAfter (past ++ .failed d ip now :: part)).list d).map (·.ip)) (t : Nat) :
    ip ∈ (bookAfter (past ++ .failed d ip now :: later)).due d t ↔
      ((failureTimes d ip later).getLast?.getD now) +
        addressBackoff (failuresAfter (saturatingSucc failures) (failureTimes d ip later)) ≤ t := by
  have hassoc (part : List BookCall) :
      past ++ .failed d ip now :: part = (past ++ [.failed d ip now]) ++ part := by simp
  have hlisted' : ∀ part, part <+: later →
      ip ∈ ((bookAfter ((past ++ [.failed d ip now]) ++ part)).list d).map (·.ip) := by
    intro part hpart
    rw [← hassoc]
    exact hlisted part hpart
  rw [hassoc]
  have hfailure : (BookCall.failed d ip now).failureOf d ip = some now := if_pos ⟨rfl, rfl⟩
  have hfirst : Waits ((bookAfter (past ++ [.failed d ip now])).list d) ip (saturatingSucc failures)
      (some (now + addressBackoff (saturatingSucc failures))) := by
    have hnow := hlisted' [] List.nil_prefix
    rw [List.append_nil, bookAfter_snoc, list_after] at hnow
    have hstep := @waits_after _ (kept_bookAfter past d) _ _ (.failed d ip now) rfl hnow _ _ h
    rw [hfailure] at hstep
    rw [bookAfter_snoc, list_after]
    exact hstep
  have hrun := waits_run hfirst hrefresh hlisted'
  rw [mem_due (kept_bookAfter _ d) hrun]
  cases hlast : (failureTimes d ip later).getLast? with
  | none =>
    rw [List.getLast?_eq_none_iff] at hlast
    simp [hlast, failuresAfter]
  | some last => simp

/-! ### The address book -/

/-- In every run, candidate calls for addresses that are never verified change nothing
about the verified addresses: the same run without them has the same, in the same order
and with the same failures and times. Every phone's list is kept. An address that stays
listed waits out its failures, and the wait doubles up to its maximum. -/
theorem address_book (calls : List BookCall) (d : String) :
    (OnlyClaims calls → verifiedOf ((bookAfter calls).list d)
        = (bookAfter (calls.filter (fun call => !call.isCandidate))).list d) ∧
      Kept ((bookAfter calls).list d) ∧
      (addressBackoff 1 = firstAddressBackoff ∧
        ∀ n, addressBackoff (n + 2) = min (2 * addressBackoff (n + 1)) maxAddressBackoff) ∧
      ∀ past ip now later failures retryAt, calls = past ++ .failed d ip now :: later →
        Waits ((bookAfter past).list d) ip failures retryAt →
        (∀ call ∈ later, call.refreshes d ip = false) →
        (∀ part, part <+: later →
          ip ∈ ((bookAfter (past ++ .failed d ip now :: part)).list d).map (·.ip)) →
        ∀ t, ip ∈ (bookAfter calls).due d t ↔
          ((failureTimes d ip later).getLast?.getD now) + addressBackoff
            (failuresAfter (saturatingSucc failures) (failureTimes d ip later)) ≤ t := by
  refine ⟨fun h => (verified_run h d).1, kept_bookAfter calls d,
    ⟨addressBackoff_one, addressBackoff_succ⟩, ?_⟩
  intro past ip now later failures retryAt heq hwaits hrefresh hlisted t
  rw [heq]
  exact due_run hwaits hrefresh hlisted t

end DeskLink.Discovery
