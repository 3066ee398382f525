import DeskLink.Access.Unlock

/-!
# `DeskLink.Proofs.Access.Unlock`: a nonce unlocks once

`Held calls issued` says what the table holds of the calls so far: each
entry was issued and not forgotten since, and one that is not spent is its
device's latest and was never presented. Every call keeps it
(`Held.after`), and `unlock_once` is what follows for an approval that
succeeds. `Bounded` is the size of the table for each device.
-/

set_option autoImplicit false

namespace DeskLink.Access.Unlock

variable {issued : List Issued} {calls : List UnlockCall} {d nonce : String} {entry : Issued}
variable {now : Nat} {call : UnlockCall}

/-! ### What one call does to the table -/

/-- The loop that makes room only takes entries away. -/
theorem makeRoom_sublist (deviceId : String) (fuel : Nat) (issued : List Issued) :
    (makeRoom deviceId fuel issued).Sublist issued := by
  induction fuel generalizing issued with
  | zero => exact List.Sublist.refl _
  | succ fuel ih =>
    simp only [makeRoom]
    split
    · exact (ih _).trans List.eraseP_sublist
    · exact List.Sublist.refl _

/-- It takes them until there is room. -/
theorem countP_makeRoom (deviceId : String) (fuel : Nat) (issued : List Issued)
    (hfuel : issued.length ≤ fuel) :
    (makeRoom deviceId fuel issued).countP (Issued.isOf deviceId) < maxNoncesPerDevice := by
  induction fuel generalizing issued with
  | zero =>
    have hnil : issued = [] := List.length_eq_zero_iff.mp (Nat.le_zero.mp hfuel)
    subst hnil
    exact (by decide : 0 < maxNoncesPerDevice)
  | succ fuel ih =>
    simp only [makeRoom]
    split
    · rename_i hfull
      -- One of the device's entries is there to be taken.
      have hpos : 0 < issued.countP (Issued.isOf deviceId) := Nat.lt_of_lt_of_le (by decide) hfull
      obtain ⟨entry, hentry, hof⟩ := List.countP_pos_iff.mp hpos
      have hlength := List.length_eraseP_of_mem hentry hof
      have hsome := List.length_pos_of_mem hentry
      exact ih _ (by omega)
    · omega

theorem mem_issue (h : entry ∈ issue issued d nonce now) : entry = ⟨nonce, d, now, false⟩ ∨
      entry ∈ issued ∧ (entry.used = true ∨ entry.deviceId ≠ d) := by
  unfold issue at h
  obtain hold | hnew := List.mem_append.mp h
  · have hkept := (makeRoom_sublist d _ _).subset hold
    obtain ⟨hmem, hkeep⟩ := List.mem_filter.mp hkept
    right
    refine ⟨hmem, ?_⟩
    simpa [Issued.isOf] using (Bool.and_eq_true_iff.mp hkeep).2
  · exact .inl (List.mem_singleton.mp hnew)

theorem nonces_issue_sublist (issued : List Issued) (d nonce : String) (now : Nat) :
    ((issue issued d nonce now).map Issued.nonce).Sublist (issued.map Issued.nonce ++ [nonce]) := by
  unfold issue
  rw [List.map_append]
  exact List.Sublist.append (((makeRoom_sublist d _ _).trans List.filter_sublist).map _)
    (List.Sublist.refl _)

theorem mem_forget : entry ∈ forget issued d ↔ entry ∈ issued ∧ entry.deviceId ≠ d := by
  simp [forget, Issued.isOf]

theorem nonces_spend (nonce : String) (issued : List Issued) :
    (spend nonce issued).map Issued.nonce = issued.map Issued.nonce := by
  induction issued with
  | nil => rfl
  | cons entry rest ih =>
    simp only [spend]
    split
    · rfl
    · rw [List.map_cons, List.map_cons, ih]

/-- A spent table: the entry with the nonce is spent, the others stay. -/
theorem mem_spend (hnodup : (issued.map Issued.nonce).Nodup) (h : entry ∈ spend nonce issued) :
    ∃ old ∈ issued, entry.nonce = old.nonce ∧ entry.deviceId = old.deviceId ∧
      entry.issuedAt = old.issuedAt ∧
      (entry.used = false → old.used = false ∧ entry.nonce ≠ nonce) := by
  induction issued with
  | nil => cases h
  | cons first rest ih =>
    rw [List.map_cons, List.nodup_cons] at hnodup
    simp only [spend] at h
    split at h
    · rename_i hfirst
      obtain rfl | hrest := List.mem_cons.mp h
      · exact ⟨first, List.mem_cons_self, rfl, rfl, rfl, fun hno => (by cases hno)⟩
      · refine ⟨entry, List.mem_cons_of_mem _ hrest, rfl, rfl, rfl, fun hno => ⟨hno, ?_⟩⟩
        intro heq
        exact hnodup.1 (hfirst ▸ heq ▸ List.mem_map_of_mem hrest)
    · rename_i hfirst
      obtain rfl | hrest := List.mem_cons.mp h
      · exact ⟨entry, List.mem_cons_self, rfl, rfl, rfl, fun hno => ⟨hno, hfirst⟩⟩
      · obtain ⟨old, hold, hsame⟩ := ih hnodup.2 hrest
        exact ⟨old, List.mem_cons_of_mem _ hold, hsame⟩

/-- What an approval does: it is refused before a nonce is looked at, or the
nonce is not one to spend, or the entry is spent and its checks decide. -/
theorem check_cases (issued : List Issued) (deviceId : String) (nonce : Option String) (now : Nat)
    (conditions : Conditions) :
    ((check issued deviceId nonce now conditions).1 = issued ∧
        (check issued deviceId nonce now conditions).2 ≠ .ok () ∧
        (conditions.allowed = true → ∀ n entry, nonce = some n → entry ∈ issued → entry.nonce = n →
          (issued.map Issued.nonce).Nodup → n ≠ "" → entry.used = true)) ∨
      ∃ n entry, nonce = some n ∧ n ≠ "" ∧ entry ∈ issued ∧ entry.nonce = n ∧
        entry.used = false ∧ conditions.allowed = true ∧
        (check issued deviceId nonce now conditions).1 = spend n issued ∧
        ((check issued deviceId nonce now conditions).2 = .ok () →
          entry.deviceId = deviceId ∧ now - entry.issuedAt < nonceLifetime ∧
            mayOffer conditions = .ok ()) := by
  unfold check
  cases hallowed : conditions.allowed with
  | false => exact .inl ⟨rfl, fun h => (by cases h), fun h => (by cases h)⟩
  | true =>
    rw [if_neg (by simp)]
    cases hnonce : nonce.filter (fun nonce => nonce != "") with
    | none =>
      refine .inl ⟨rfl, fun h => (by cases h), fun _ n entry hn _ _ _ hne => ?_⟩
      rw [hn, Option.filter_some] at hnonce
      simp [hne] at hnonce
    | some n =>
      have hsome : nonce = some n := (Option.filter_eq_some_iff.mp hnonce).1
      have hne : n ≠ "" := by simpa using (Option.filter_eq_some_iff.mp hnonce).2
      simp only
      cases hfind : issued.find? (fun entry => entry.nonce == n) with
      | none =>
        refine .inl ⟨rfl, fun h => (by cases h), fun _ m entry hm hmem hentry _ _ => ?_⟩
        have hsame : m = n := Option.some.inj (hm.symm.trans hsome)
        have hno := List.find?_eq_none.mp hfind entry hmem
        exact absurd (hentry.trans hsame) (by simpa using hno)
      | some entry =>
        have hmem := List.mem_of_find?_eq_some hfind
        have hentry : entry.nonce = n := by simpa using List.find?_some hfind
        cases hused : entry.used with
        | true =>
          refine .inl ⟨by simp [hused], by simp [hused], fun _ m other hm hother hnonce' hnodup _ => ?_⟩
          have hsame : other.nonce = entry.nonce := by
            rw [hnonce', hentry]
            exact Option.some.inj (hm.symm.trans hsome)
          rw [List.inj_on_of_nodup_map hnodup hother hmem hsame]
          exact hused
        | false =>
          refine .inr ⟨n, entry, hsome, hne, hmem, hentry, hused, trivial, by simp [hused], ?_⟩
          simp only [hused, Bool.false_eq_true, if_false]
          intro hok
          split at hok
          · cases hok
          · rename_i hdevice
            split at hok
            · cases hok
            · rename_i hyoung
              exact ⟨not_not.mp hdevice, Nat.lt_of_not_le hyoung, hok⟩

/-! ### What the table holds -/

/-- A call presents the nonce while the preference is on. -/
def Presents (nonce : String) (call : UnlockCall) : Prop :=
  ∃ deviceId now conditions, call = .approve deviceId (some nonce) now conditions ∧
    conditions.allowed = true

/-- No call of `calls` offers the device another nonce. -/
def NoOffer (deviceId : String) (calls : List UnlockCall) : Prop :=
  ∀ nonce now, .issue deviceId nonce now ∉ calls

/-- An entry was issued and not forgotten since; if it is not spent, it is
the device's latest, and its nonce was never presented. -/
structure Entered (calls : List UnlockCall) (entry : Issued) : Prop where
  issued : ∃ first later, calls = first ++ .issue entry.deviceId entry.nonce entry.issuedAt :: later ∧
    .forget entry.deviceId ∉ later ∧ (entry.used = false → NoOffer entry.deviceId later)
  unpresented : entry.used = false → entry.nonce ≠ "" → ∀ call ∈ calls, ¬Presents entry.nonce call

/-- What the table holds of the calls so far. -/
structure Held (calls : List UnlockCall) (issued : List Issued) : Prop where
  entered : ∀ entry ∈ issued, Entered calls entry
  nodup : (issued.map Issued.nonce).Nodup

/-- The nonce of an entry is one of the calls'. -/
theorem Entered.seen (h : Entered calls entry) :
    ∃ call ∈ calls, call.nonce? = some entry.nonce := by
  obtain ⟨first, later, hcalls, -⟩ := h.issued
  refine ⟨.issue entry.deviceId entry.nonce entry.issuedAt, ?_, rfl⟩
  rw [hcalls]
  exact List.mem_append_right _ List.mem_cons_self

/-- A call that neither forgets the entry, nor replaces it, nor presents its
nonce leaves what is known of it. -/
theorem Entered.snoc (h : Entered calls entry) (hforget : call ≠ .forget entry.deviceId)
    (hoffer : entry.used = false → ∀ nonce now, call ≠ .issue entry.deviceId nonce now)
    (hpresent : entry.used = false → entry.nonce ≠ "" → ¬Presents entry.nonce call) :
    Entered (calls ++ [call]) entry where
  issued := by
    obtain ⟨first, later, hcalls, hkept, hlatest⟩ := h.issued
    refine ⟨first, later ++ [call], by rw [hcalls, List.append_assoc]; rfl, ?_, ?_⟩
    · intro hmem
      obtain hold | hnew := List.mem_append.mp hmem
      · exact hkept hold
      · exact hforget (List.mem_singleton.mp hnew).symm
    · intro hunspent nonce now hmem
      obtain hold | hnew := List.mem_append.mp hmem
      · exact hlatest hunspent nonce now hold
      · exact hoffer hunspent nonce now (List.mem_singleton.mp hnew).symm
  unpresented hunspent hne other hmem := by
    obtain hold | hnew := List.mem_append.mp hmem
    · exact h.unpresented hunspent hne other hold
    · rw [List.mem_singleton.mp hnew]
      exact hpresent hunspent hne

/-- The same entry spent. -/
theorem Entered.spent {old : Issued} (h : Entered calls old) (hnonce : entry.nonce = old.nonce)
    (hdevice : entry.deviceId = old.deviceId) (hat : entry.issuedAt = old.issuedAt)
    (hused : entry.used = false → old.used = false) : Entered calls entry where
  issued := by
    obtain ⟨first, later, hcalls, hkept, hlatest⟩ := h.issued
    rw [hdevice, hnonce, hat]
    exact ⟨first, later, hcalls, hkept, fun hno => hlatest (hused hno)⟩
  unpresented hno := by
    rw [hnonce]
    exact h.unpresented (hused hno)

theorem Held.issue (h : Held calls issued) (hfresh : ∀ call ∈ calls, call.nonce? ≠ some nonce) :
    Held (calls ++ [.issue d nonce now]) (issue issued d nonce now) where
  entered entry hentry := by
    obtain rfl | ⟨hold, hkeep⟩ := mem_issue hentry
    · exact {
        issued := ⟨calls, [], rfl, List.not_mem_nil, fun _ _ _ => List.not_mem_nil⟩
        unpresented := by
          rintro - - call hmem ⟨deviceId, time, conditions, rfl, -⟩
          obtain hbefore | hnew := List.mem_append.mp hmem
          · exact hfresh _ hbefore rfl
          · cases List.mem_singleton.mp hnew }
    · refine (h.entered entry hold).snoc (fun heq => (by cases heq)) ?_ ?_
      · intro hunspent other time heq
        cases hkeep with
        | inl hused => rw [hunspent] at hused; cases hused
        | inr hother =>
          cases heq
          exact hother rfl
      · rintro - - ⟨deviceId, time, conditions, heq, -⟩
        cases heq
  nodup := by
    refine List.Nodup.sublist (nonces_issue_sublist issued d nonce now) ?_
    rw [List.nodup_append]
    refine ⟨h.nodup, List.nodup_singleton nonce, fun a ha b hb heq => ?_⟩
    -- An entry's nonce is an earlier call's, so it is another one.
    obtain ⟨entry, hentry, rfl⟩ := List.mem_map.mp ha
    obtain ⟨call, hcall, hseen⟩ := (h.entered entry hentry).seen
    rw [heq, List.mem_singleton.mp hb] at hseen
    exact hfresh call hcall hseen

theorem Held.forget (h : Held calls issued) : Held (calls ++ [.forget d]) (forget issued d) where
  entered entry hentry := by
    obtain ⟨hold, hother⟩ := mem_forget.mp hentry
    refine (h.entered entry hold).snoc (fun heq => ?_) (fun _ _ _ heq => (by cases heq)) ?_
    · cases heq
      exact hother rfl
    · rintro - - ⟨deviceId, time, conditions, heq, -⟩
      cases heq
  nodup := h.nodup.sublist (List.filter_sublist.map _)

theorem Held.approve (h : Held calls issued) (nonce : Option String) (now : Nat)
    (conditions : Conditions) :
    Held (calls ++ [.approve d nonce now conditions]) (check issued d nonce now conditions).1 := by
  have hkept {entry : Issued} (hentry : Entered calls entry)
      (hpresent : entry.used = false → entry.nonce ≠ "" →
        ¬Presents entry.nonce (.approve d nonce now conditions)) :
      Entered (calls ++ [.approve d nonce now conditions]) entry :=
    hentry.snoc (fun heq => (by cases heq)) (fun _ _ _ heq => (by cases heq)) hpresent
  obtain ⟨hsame, -, hspent⟩ | ⟨n, found, hn, -, -, -, -, -, hspend, -⟩ :=
    check_cases issued d nonce now conditions
  · rw [hsame]
    refine ⟨fun entry hentry => hkept (h.entered entry hentry) ?_, h.nodup⟩
    rintro hunspent hne ⟨deviceId, time, others, heq, hallowed⟩
    cases heq
    have hused := hspent hallowed entry.nonce entry rfl hentry rfl h.nodup hne
    rw [hunspent] at hused
    cases hused
  · rw [hspend]
    refine ⟨fun entry hentry => ?_, by rw [nonces_spend]; exact h.nodup⟩
    obtain ⟨old, hold, hnonce, hdevice, hat, hunspent⟩ := mem_spend h.nodup hentry
    refine hkept ((h.entered old hold).spent hnonce hdevice hat (fun hno => (hunspent hno).1)) ?_
    rintro hno - ⟨deviceId, time, others, heq, -⟩
    -- The nonce that was presented is the one that was spent.
    cases heq
    exact (hunspent hno).2 (Option.some.inj hn)

theorem issuedAfter_snoc (calls : List UnlockCall) (call : UnlockCall) :
    issuedAfter (calls ++ [call]) = afterUnlockCall (issuedAfter calls) call := by
  simp [issuedAfter]

theorem FreshNonces.init (h : FreshNonces (calls ++ [call])) : FreshNonces calls := by
  intro before rest deviceId nonce now hcalls
  exact h before (rest ++ [call]) deviceId nonce now (by rw [hcalls, List.append_assoc]; rfl)

theorem held_run (hfresh : FreshNonces calls) :
    Held calls (issuedAfter calls) := by
  induction calls using List.reverseRecOn with
  | nil => exact ⟨fun entry hentry => (by cases hentry), List.nodup_nil⟩
  | append_singleton calls call ih =>
    have h := ih hfresh.init
    rw [issuedAfter_snoc]
    cases call with
    | issue deviceId nonce now =>
      exact h.issue (hfresh calls [] deviceId nonce now rfl)
    | approve deviceId nonce now conditions => exact h.approve nonce now conditions
    | forget deviceId => exact h.forget

/-! ### How many entries a device has -/

/-- An entry that is not spent. -/
def Issued.isLive (deviceId : String) (entry : Issued) : Bool :=
  entry.isOf deviceId && !entry.used

/-- A device has one entry that is not spent, and few in all. -/
def Bounded (issued : List Issued) : Prop :=
  ∀ deviceId, issued.countP (Issued.isLive deviceId) ≤ 1 ∧
    issued.countP (Issued.isOf deviceId) ≤ maxNoncesPerDevice

theorem Bounded.sublist {kept : List Issued} (h : Bounded issued) (hkept : kept.Sublist issued) :
    Bounded kept :=
  fun deviceId => ⟨Nat.le_trans (hkept.countP_le) (h deviceId).1,
    Nat.le_trans (hkept.countP_le) (h deviceId).2⟩

theorem countP_spend_le (p : Issued → Bool) (nonce : String) (issued : List Issued)
    (hp : ∀ entry, p { entry with used := true } = true → p entry = true) :
    (spend nonce issued).countP p ≤ issued.countP p := by
  induction issued with
  | nil => exact Nat.le_refl 0
  | cons entry rest ih =>
    simp only [spend]
    split
    · rw [List.countP_cons, List.countP_cons]
      have hentry := hp entry
      cases hnew : p { entry with used := true } with
      | false => simp
      | true => simp [hentry hnew]
    · rw [List.countP_cons, List.countP_cons]
      omega

theorem Bounded.issue (h : Bounded issued) (nonce : String) (now : Nat) :
    Bounded (issue issued d nonce now) := by
  intro deviceId
  simp only [Unlock.issue]
  generalize hkept : issued.filter (fun old =>
    decide (now - old.issuedAt < nonceLifetime * 2) && (old.used || !old.isOf d)) = kept
  have hroom := makeRoom_sublist d kept.length kept
  by_cases hd : deviceId = d
  · subst hd
    -- What was not spent is gone, and there is room for one.
    have hnone : (makeRoom deviceId kept.length kept).countP (Issued.isLive deviceId) = 0 := by
      rw [List.countP_eq_zero]
      intro entry hentry
      have hmem := hroom.subset hentry
      rw [← hkept, List.mem_filter] at hmem
      have hkeep := (Bool.and_eq_true_iff.mp hmem.2).2
      simp only [Issued.isLive]
      cases hof : entry.isOf deviceId <;> simp_all
    have hfew := countP_makeRoom deviceId kept.length kept (Nat.le_refl _)
    constructor
    · rw [List.countP_append, hnone, Nat.zero_add]
      exact List.countP_le_length
    · rw [List.countP_append, List.countP_singleton]
      simp only [Issued.isOf, beq_self_eq_true, if_true]
      exact hfew
  · have hold : Bounded (makeRoom d kept.length kept) :=
      h.sublist (hroom.trans (hkept ▸ List.filter_sublist))
    have hother : Issued.isOf deviceId ⟨nonce, d, now, false⟩ = false := by
      simp [Issued.isOf, Ne.symm hd]
    rw [List.countP_append, List.countP_append, List.countP_singleton, List.countP_singleton]
    simp only [Issued.isLive, hother]
    exact hold deviceId

theorem bounded_after (h : Bounded issued) (call : UnlockCall) :
    Bounded (afterUnlockCall issued call) := by
  cases call with
  | issue deviceId nonce now => exact h.issue nonce now
  | forget deviceId => exact h.sublist List.filter_sublist
  | approve deviceId nonce now conditions =>
    show Bounded (check issued deviceId nonce now conditions).1
    obtain ⟨hsame, -⟩ | ⟨n, -, -, -, -, -, -, -, hspend, -⟩ :=
      check_cases issued deviceId nonce now conditions
    · rw [hsame]
      exact h
    · rw [hspend]
      intro other
      constructor
      · refine Nat.le_trans (countP_spend_le _ n issued ?_) (h other).1
        intro entry hlive
        simp [Issued.isLive] at hlive
      · exact Nat.le_trans (countP_spend_le _ n issued (fun _ hof => hof)) (h other).2

theorem bounded_run (calls : List UnlockCall) : Bounded (issuedAfter calls) := by
  induction calls using List.reverseRecOn with
  | nil => exact fun _ => ⟨Nat.zero_le _, Nat.zero_le _⟩
  | append_singleton calls call ih =>
    rw [issuedAfter_snoc]
    exact bounded_after ih call

/-! ### The approval that succeeds -/

theorem mayOffer_ok {conditions : Conditions} (h : mayOffer conditions = .ok ()) :
    conditions.allowed = true ∧ conditions.ready = true ∧ conditions.isLocal = true ∧
      conditions.locked = true := by
  obtain ⟨allowed, locked, isLocal, ready⟩ := conditions
  cases allowed <;> cases ready <;> cases isLocal <;> cases locked <;> first
    | exact ⟨rfl, rfl, rfl, rfl⟩
    | cases h

/-- After any calls, an approval succeeds only with a nonce that was never
presented while the preference was on, that is the latest issued to this
device with nothing forgotten since, that is young enough, and while every
condition holds. No device has more than one entry that is not spent, or
more than a few in all. -/
theorem unlock_once (calls : List UnlockCall) (hfresh : FreshNonces calls) :
    (∀ (deviceId : String) (nonce : Option String) (now : Nat) (conditions : Conditions),
      (check (issuedAfter calls) deviceId nonce now conditions).2 = .ok () →
      ∃ n time first later, nonce = some n ∧
        (∀ call ∈ calls, ¬Presents n call) ∧
        calls = first ++ .issue deviceId n time :: later ∧
        NoOffer deviceId later ∧ .forget deviceId ∉ later ∧
        now - time < nonceLifetime ∧
        conditions.allowed = true ∧ conditions.ready = true ∧ conditions.isLocal = true ∧
        conditions.locked = true) ∧
    ∀ deviceId, (issuedAfter calls).countP (Issued.isLive deviceId) ≤ 1 ∧
      (issuedAfter calls).countP (Issued.isOf deviceId) ≤ maxNoncesPerDevice := by
  refine ⟨fun deviceId nonce now conditions hok => ?_, bounded_run calls⟩
  obtain ⟨-, hno, -⟩ | ⟨n, entry, hn, hne, hmem, hnonce, hunspent, -, -, hchecks⟩ :=
    check_cases (issuedAfter calls) deviceId nonce now conditions
  · exact absurd hok hno
  · have hentry := (held_run hfresh).entered entry hmem
    obtain ⟨hdevice, hyoung, hoffer⟩ := hchecks hok
    obtain ⟨first, later, hcalls, hforget, hlatest⟩ := hentry.issued
    rw [hdevice, hnonce] at hcalls
    rw [hdevice] at hforget
    refine ⟨n, entry.issuedAt, first, later, hn, ?_, hcalls, ?_, hforget, hyoung, mayOffer_ok hoffer⟩
    · exact hnonce ▸ hentry.unpresented hunspent (hnonce ▸ hne)
    · exact hdevice ▸ hlatest hunspent

/-- A phone asks twice and answers with the second nonce. -/
theorem unlock_once_second :
    (check (issuedAfter [.issue "phone" "n1" 0, .issue "phone" "n2" 5]) "phone" (some "n2") 7
        ⟨true, true, true, true⟩).2 = .ok () ∧
      ∃ n time first later, some "n2" = some n ∧
        (∀ call ∈ [UnlockCall.issue "phone" "n1" 0, .issue "phone" "n2" 5], ¬Presents n call) ∧
        [UnlockCall.issue "phone" "n1" 0, .issue "phone" "n2" 5]
          = first ++ .issue "phone" n time :: later ∧
        NoOffer "phone" later ∧ .forget "phone" ∉ later ∧ 7 - time < nonceLifetime := by
  have hok : (check (issuedAfter [.issue "phone" "n1" 0, .issue "phone" "n2" 5]) "phone"
      (some "n2") 7 ⟨true, true, true, true⟩).2 = .ok () := by decide +kernel
  have hfresh : FreshNonces [.issue "phone" "n1" 0, .issue "phone" "n2" 5] := by
    intro before rest deviceId nonce now hcalls call hcall
    cases before with
    | nil => cases hcall
    | cons first before =>
      obtain ⟨rfl, htail⟩ := List.cons.inj hcalls
      cases before with
      | nil =>
        cases htail
        cases List.mem_singleton.mp hcall
        decide
      | cons second before =>
        obtain ⟨-, htail⟩ := List.cons.inj htail
        simp at htail
  obtain ⟨n, time, first, later, hn, hunpresented, hcalls, hoffer, hforget, hyoung, -⟩ :=
    (unlock_once _ hfresh).1 "phone" (some "n2") 7 ⟨true, true, true, true⟩ hok
  exact ⟨hok, n, time, first, later, hn, hunpresented, hcalls, hoffer, hforget, hyoung⟩

end DeskLink.Access.Unlock
