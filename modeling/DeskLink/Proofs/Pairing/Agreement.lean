import DeskLink.Lib.Unwind
import DeskLink.Pairing.World

/-!
# `DeskLink.Proofs.Pairing.Agreement`: two honest ends

A `View` is what a handler decides by: its state and its timestamp.
`View.drain` is the view once everything on its way has arrived. Two ends
are `Settled` when their drained views match: both apart, one asking and
the other asked with the same timestamp, or both paired with the same
timestamp. Every action that is `Timely` keeps this.

* `after_settled`: one action.
* `pairing_agrees`: the run.
* `stale_acceptance`: a run with an action that is not timely, after which
  one end is paired with a timestamp nobody accepted.
-/

set_option autoImplicit false

namespace DeskLink.Pairing

variable {first : Bool} {m : Mail} {mail : List Mail} {sender' : PairState}

/-! ### Views -/

structure View where
  state : PairState
  timestamp : Int
deriving DecidableEq, Repr

def PairingHandler.view (h : PairingHandler) : View := ⟨h.state, h.timestamp⟩

def View.receive (first : Bool) (v : View) : Mail → View
  | .refusal => { v with state := .notPaired }
  | .acceptance _ => if v.state = .requested then { v with state := .paired } else v
  | .request timestamp =>
    match v.state with
    | .notPaired => ⟨.requestedByPeer, timestamp⟩
    | .requested => if first then v else ⟨.requestedByPeer, timestamp⟩
    | .requestedByPeer | .paired => v

def View.drain (first : Bool) (v : View) (mail : List Mail) : View :=
  mail.foldl (View.receive first) v

theorem View.drain_snoc (first : Bool) (v : View) (mail : List Mail) (m : Mail) :
    v.drain first (mail ++ [m]) = (v.drain first mail).receive first m := List.foldl_append

theorem View.drain_append (first : Bool) (v : View) (mail rest : List Mail) :
    v.drain first (mail ++ rest) = (v.drain first mail).drain first rest := List.foldl_append

variable {v : View}

/-- Only a request makes an end that is asked. -/
theorem View.receive_asked (h : (v.receive first m).state = .requestedByPeer) :
    m.isRequest = true ∨ v.state = .requestedByPeer := by
  cases m with
  | request => exact .inl rfl
  | refusal => cases h
  | acceptance =>
    refine .inr ?_
    simp only [View.receive] at h
    split at h
    · cases h
    · exact h

/-- Nothing that arrives makes an end ask. -/
theorem View.receive_requested (h : (v.receive first m).state = .requested) :
    v.state = .requested := by
  cases m with
  | refusal => cases h
  | acceptance =>
    simp only [View.receive] at h
    split at h
    · cases h
    · exact h
  | request =>
    simp only [View.receive] at h
    split at h
    · cases h
    · assumption
    · exact h
    · exact h

/-- Without a request nothing happens to an end that is not paired. -/
theorem View.drain_notPaired (hv : v.state = .notPaired) (hmail : ∀ m ∈ mail, m.isRequest = false) :
    v.drain first mail = v := by
  induction mail with
  | nil => rfl
  | cons m mail ih =>
    have hm : v.receive first m = v := by
      cases m with
      | request => cases hmail _ (List.mem_cons_self ..)
      | refusal => exact congrArg (View.mk · v.timestamp) hv.symm
      | acceptance => exact if_neg (by rw [hv]; decide)
    show (v.receive first m).drain first mail = v
    rw [hm]
    exact ih (fun m hm => hmail m (List.mem_cons_of_mem _ hm))

/-- A refusal with no request behind it has the last word. -/
theorem View.drain_refused (v : View) (hmem : .refusal ∈ mail)
    (hlast : ∀ before behind, mail = before ++ .refusal :: behind →
      ∀ m ∈ behind, m.isRequest = false) : (v.drain first mail).state = .notPaired := by
  obtain ⟨before, behind, rfl⟩ := List.append_of_mem hmem
  rw [View.drain_append]
  show (View.drain first { v.drain first before with state := .notPaired } behind).state = _
  rw [View.drain_notPaired rfl (hlast before behind rfl)]

/-- Without a refusal an end that is being asked or is paired stays so. -/
theorem View.drain_stays (hv : v.state = .requestedByPeer ∨ v.state = .paired)
    (hmail : .refusal ∉ mail) : v.drain first mail = v := by
  induction mail with
  | nil => rfl
  | cons m mail ih =>
    have hm : v.receive first m = v := by
      cases m with
      | refusal => exact absurd (List.mem_cons_self ..) hmail
      | acceptance => exact if_neg (by rcases hv with hv | hv <;> rw [hv] <;> decide)
      | request => rcases hv with hv | hv <;> simp only [View.receive, hv]
    show (v.receive first m).drain first mail = v
    rw [hm]
    exact ih (fun h => hmail (List.mem_cons_of_mem _ h))

/-- Withdrawn requests leave an end that is not paired as it is. -/
theorem View.drain_withdrawn (h : withdrawn mail = true)
    (hv : v.state = .notPaired ∨ .refusal ∈ mail) : (v.drain first mail).state = .notPaired := by
  induction mail generalizing v with
  | nil =>
    rcases hv with hv | hv
    · exact hv
    · cases hv
  | cons m mail ih =>
    obtain ⟨hm, hrest⟩ := Bool.and_eq_true_iff.mp h
    refine ih hrest ?_
    rcases Bool.or_eq_true_iff.mp hm with hm | hm
    · -- Not a request: a refusal settles it here, an acceptance changes nothing.
      cases m with
      | request => cases hm
      | refusal => exact .inl rfl
      | acceptance =>
        rcases hv with hv | hv
        · refine .inl ?_
          show (if v.state = .requested then _ else v).state = _
          rw [hv, if_neg (by decide)]
          exact hv
        · exact .inr ((List.mem_cons.mp hv).resolve_left (by simp))
    · exact .inr (List.contains_iff_mem.mp hm)

/-- Without a refusal an end that asks is not sent back, and the leader is
not asked. -/
theorem View.drain_asking {first : Bool} {v : View} {mail : List Mail}
    (hv : v.state = .requested) (hmail : .refusal ∉ mail) :
    v.drain first mail = v ∨ v.drain first mail = { v with state := .paired } ∨
      first = false ∧ (v.drain first mail).state = .requestedByPeer := by
  induction mail with
  | nil => exact .inl rfl
  | cons m mail ih =>
    have hrest : .refusal ∉ mail := fun h => hmail (List.mem_cons_of_mem _ h)
    rw [show v.drain first (m :: mail) = (v.receive first m).drain first mail from rfl]
    cases m with
    | refusal => exact absurd (List.mem_cons_self ..) hmail
    | acceptance shown =>
      rw [show v.receive first (.acceptance shown) = { v with state := .paired } from if_pos hv]
      exact .inr (.inl (View.drain_stays (.inr rfl) hrest))
    | request timestamp =>
      have hreceive : v.receive first (.request timestamp)
          = if first then v else ⟨.requestedByPeer, timestamp⟩ := by simp only [View.receive, hv]
      rw [hreceive]
      cases first with
      | true => exact ih hrest
      | false =>
        refine .inr (.inr ⟨rfl, ?_⟩)
        rw [if_neg (by decide), View.drain_stays (.inl rfl) hrest]

/-- Requests alone pair nobody. -/
theorem requests_not_paired {first : Bool} {v : View} {mail : List Mail}
    (hv : v.state ≠ .paired) (hmail : ∀ m ∈ mail, m.isRequest = true) :
    (v.drain first mail).state ≠ .paired := by
  induction mail generalizing v with
  | nil => exact hv
  | cons m mail ih =>
    refine ih ?_ (fun m hm => hmail m (List.mem_cons_of_mem _ hm))
    cases m with
    | acceptance => cases hmail _ (List.mem_cons_self ..)
    | refusal => cases hmail _ (List.mem_cons_self ..)
    | request timestamp =>
      simp only [View.receive]
      split
      · nofun
      · split
        · exact hv
        · nofun
      · exact hv
      · exact hv

/-! ### Two ends that settle -/

/-- What two ends come to once everything has arrived. -/
inductive Match : View → View → Prop where
  | apart (s t : Int) : Match ⟨.notPaired, s⟩ ⟨.notPaired, t⟩
  | asks (t : Int) : Match ⟨.requested, t⟩ ⟨.requestedByPeer, t⟩
  | asked (t : Int) : Match ⟨.requestedByPeer, t⟩ ⟨.requested, t⟩
  | joined (t : Int) : Match ⟨.paired, t⟩ ⟨.paired, t⟩

theorem Match.symm {a b : View} (h : Match a b) : Match b a := by
  cases h with
  | apart s t => exact .apart t s
  | asks t => exact .asked t
  | asked t => exact .asks t
  | joined t => exact .joined t

/-- An acceptance that pairs an end was given with that end's timestamp. -/
def Answered (first : Bool) : View → List Mail → Prop
  | _, [] => True
  | v, m :: mail =>
    (v.state = .requested → ∀ shown, m = .acceptance shown → shown = v.timestamp) ∧
      Answered first (v.receive first m) mail

theorem answered_snoc : Answered first v (mail ++ [m]) ↔ Answered first v mail ∧
      ((v.drain first mail).state = .requested →
        ∀ shown, m = .acceptance shown → shown = (v.drain first mail).timestamp) := by
  induction mail generalizing v with
  | nil => simp [Answered, View.drain]
  | cons head mail ih =>
    show _ ∧ Answered first (v.receive first head) (mail ++ [m]) ↔ _
    rw [ih]
    exact and_assoc.symm

theorem answered_of_ne (hv : v.state ≠ .requested) (mail : List Mail) : Answered first v mail := by
  induction mail generalizing v with
  | nil => trivial
  | cons m mail ih =>
    exact ⟨fun h => absurd h hv, ih (fun h => hv (View.receive_requested h))⟩

theorem answered_of_requests (v : View) (hmail : ∀ m ∈ mail, m.isRequest = true) :
    Answered first v mail := by
  induction mail generalizing v with
  | nil => trivial
  | cons m mail ih =>
    refine ⟨?_, ih _ (fun m hm => hmail m (List.mem_cons_of_mem _ hm))⟩
    rintro - shown rfl
    cases hmail _ (List.mem_cons_self ..)

/-- A refusal with a later request behind it, or with its sender asking
again, meets no other negotiation: no earlier request comes before it, and
the end that receives it is not being asked. -/
def Orderly (sender receiver : PairState) (mail : List Mail) : Prop :=
  ∀ before behind, mail = before ++ .refusal :: behind →
    ((∃ m ∈ behind, m.isRequest = true) ∨ sender = .requested) →
    (∀ m ∈ before, m.isRequest = false) ∧ receiver ≠ .requestedByPeer

/-- The ends with the views `a` and `b`, and what is on its way to each. -/
structure Settled (first : Bool) (a : View) (mail : List Mail) (b : View) (mail' : List Mail) :
    Prop where
  matched : Match (a.drain first mail) (b.drain (!first) mail')
  answered : Answered first a mail
  answered' : Answered (!first) b mail'
  orderly : Orderly b.state a.state mail
  orderly' : Orderly a.state b.state mail'

theorem Settled.symm {a b : View} {mail' : List Mail} (h : Settled first a mail b mail') :
    Settled (!first) b mail' a mail where
  matched := by
    rw [Bool.not_not]
    exact h.matched.symm
  answered := h.answered'
  answered' := by
    rw [Bool.not_not]
    exact h.answered
  orderly := h.orderly'
  orderly' := h.orderly

/-- The split of a list with one more packet at its end. -/
theorem snoc_split {before behind : List Mail} (h : mail ++ [m] = before ++ .refusal :: behind) :
    (∃ rest, behind = rest ++ [m] ∧ mail = before ++ .refusal :: rest) ∨
      behind = [] ∧ m = .refusal ∧ mail = before := by
  rcases List.eq_nil_or_concat behind with rfl | ⟨rest, last, rfl⟩
  · obtain ⟨hmail, hm⟩ := List.append_inj' h rfl
    exact .inr ⟨rfl, (List.cons.inj hm).1, hmail⟩
  · refine .inl ⟨rest, ?_⟩
    rw [List.concat_eq_append, ← List.cons_append, ← List.append_assoc] at h
    obtain ⟨hmail, hm⟩ := List.append_inj' h rfl
    rw [List.concat_eq_append, (List.cons.inj hm).1]
    exact ⟨rfl, hmail⟩

/-- An acceptance behind it changes nothing for a refusal. -/
theorem Orderly.accept {sender receiver : PairState} (h : Orderly sender receiver mail)
    (hsender : sender' ≠ .requested) (shown : Int) :
    Orderly sender' receiver (mail ++ [.acceptance shown]) := by
  intro before behind hsplit hbehind
  rcases snoc_split hsplit with ⟨rest, rfl, hmail⟩ | ⟨-, hm, -⟩
  · refine h before rest hmail (.inl ?_)
    obtain ⟨m, hm, hrequest⟩ := hbehind.resolve_right hsender
    rcases List.mem_append.mp hm with hm | hm
    · exact ⟨m, hm, hrequest⟩
    · rw [List.mem_singleton.mp hm] at hrequest
      cases hrequest
  · cases hm

theorem Orderly.refuse {sender receiver : PairState} (h : Orderly sender receiver mail)
    (hsender : sender' ≠ .requested) : Orderly sender' receiver (mail ++ [.refusal]) := by
  intro before behind hsplit hbehind
  obtain ⟨m, hm, hrequest⟩ := hbehind.resolve_right hsender
  rcases snoc_split hsplit with ⟨rest, rfl, hmail⟩ | ⟨rfl, -, -⟩
  · refine h before rest hmail (.inl ?_)
    rcases List.mem_append.mp hm with hm | hm
    · exact ⟨m, hm, hrequest⟩
    · rw [List.mem_singleton.mp hm] at hrequest
      cases hrequest
  · cases hm

/-- The state of the sender counts only while it asks. -/
theorem Orderly.sender {sender receiver : PairState} (h : Orderly sender receiver mail)
    (hsender : sender' = .requested → sender = .requested) : Orderly sender' receiver mail := by
  intro before behind hsplit hbehind
  exact h before behind hsplit (hbehind.imp_right hsender)

theorem Orderly.receiver {sender receiver receiver' : PairState} (h : Orderly sender receiver mail)
    (hreceiver : receiver' ≠ .requestedByPeer) : Orderly sender receiver' mail := by
  intro before behind hsplit hbehind
  exact ⟨(h before behind hsplit hbehind).1, hreceiver⟩

section
variable {first : Bool} {a b : View} {mail mail' : List Mail} {t : Int}

/-- A new request. -/
theorem Settled.ask {s : Int} (h : Settled first ⟨.notPaired, s⟩ mail b mail')
    (hmail : ∀ m ∈ mail, m.isRequest = true) (hmail' : .refusal ∈ mail' →
      (∀ m ∈ mail', m.isRequest = false) ∧ b.state ≠ .requestedByPeer) :
    Settled first ⟨.requested, t⟩ mail b (mail' ++ [.request t]) where
  matched := by
    have hmatch := h.matched
    rw [View.drain_snoc]
    cases mail with
    | nil =>
      -- Nothing is on its way: the other end comes to be asked.
      generalize b.drain (!first) mail' = after at hmatch ⊢
      cases hmatch with
      | apart => exact .asks t
    | cons m rest =>
      -- Requests cross: the leader's stands.
      cases m with
      | acceptance => cases hmail _ (List.mem_cons_self ..)
      | refusal => cases hmail _ (List.mem_cons_self ..)
      | request timestamp =>
        have hrest : .refusal ∉ rest := fun hr => by cases hmail _ (List.mem_cons_of_mem _ hr)
        have hasked : View.drain first ⟨.notPaired, s⟩ (.request timestamp :: rest)
            = ⟨.requestedByPeer, timestamp⟩ := View.drain_stays (.inl rfl) hrest
        rw [hasked] at hmatch
        generalize b.drain (!first) mail' = after at hmatch ⊢
        cases hmatch with
        | asked =>
          cases first with
          | true =>
            have hstays : View.drain true ⟨.requested, t⟩ (.request timestamp :: rest)
                = ⟨.requested, t⟩ := by
              refine (View.drain_asking rfl ?_).resolve_right ?_
              · rintro (- | ⟨-, hr⟩)
                exact hrest hr
              · rintro (hpaired | ⟨hfirst, -⟩)
                · exact @requests_not_paired true ⟨.requested, t⟩ _ (by nofun) hmail
                    (congrArg View.state hpaired)
                · cases hfirst
            rw [hstays]
            exact .asks t
          | false =>
            have hadopts : View.drain false ⟨.requested, t⟩ (.request timestamp :: rest)
                = ⟨.requestedByPeer, timestamp⟩ := View.drain_stays (.inl rfl) hrest
            rw [hadopts]
            exact .asked timestamp
  answered := answered_of_requests _ hmail
  answered' := by
    refine answered_snoc.mpr ⟨h.answered', ?_⟩
    rintro - shown hm
    cases hm
  orderly := by
    intro before behind hsplit
    have hmem : Mail.refusal ∈ mail := by
      rw [hsplit]
      exact List.mem_append_right _ (List.mem_cons_self ..)
    cases hmail _ hmem
  orderly' := by
    intro before behind hsplit _
    rcases snoc_split hsplit with ⟨rest, rfl, hmail'⟩ | ⟨-, hm, -⟩
    · subst hmail'
      obtain ⟨hnone, hb⟩ := hmail' (List.mem_append_right _ (List.mem_cons_self ..))
      exact ⟨fun m hm => hnone m (List.mem_append_left _ hm), hb⟩
    · cases hm

/-- A request made again. -/
theorem Settled.askAgain (h : Settled first ⟨.requested, t⟩ mail b mail')
    (hmail : .refusal ∉ mail) : Settled first ⟨.requested, t⟩ mail b (mail' ++ [.request t]) where
  matched := by
    have hmatch := h.matched
    rw [View.drain_snoc]
    rcases @View.drain_asking first ⟨.requested, t⟩ mail rfl hmail with hdrain | hdrain | ⟨rfl, hdrain⟩
    · rw [hdrain] at hmatch ⊢
      generalize b.drain (!first) mail' = after at hmatch ⊢
      cases hmatch with
      | asks => exact .asks t
    · rw [hdrain] at hmatch ⊢
      generalize b.drain (!first) mail' = after at hmatch ⊢
      cases hmatch with
      | joined => exact .joined t
    · -- The leader waits for an answer and ignores the request.
      generalize View.drain false ⟨.requested, t⟩ mail = before at hmatch hdrain ⊢
      generalize b.drain (!false) mail' = after at hmatch ⊢
      cases hmatch with
      | asked => exact .asked _
      | apart => cases hdrain
      | asks => cases hdrain
      | joined => cases hdrain
  answered := h.answered
  answered' := by
    refine answered_snoc.mpr ⟨h.answered', ?_⟩
    rintro - shown hm
    cases hm
  orderly := h.orderly
  orderly' := by
    intro before behind hsplit _
    rcases snoc_split hsplit with ⟨rest, rfl, hmail'⟩ | ⟨-, hm, -⟩
    · exact h.orderly' before rest hmail' (.inr rfl)
    · cases hm

/-- A refusal, or an expiry. -/
theorem Settled.refuse (h : Settled first a mail b mail') (hmail : withdrawn mail = true) :
    Settled first ⟨.notPaired, a.timestamp⟩ mail b (mail' ++ [.refusal]) where
  matched := by
    rw [View.drain_snoc]
    have hstate : (View.drain first ⟨.notPaired, a.timestamp⟩ mail).state = .notPaired :=
      View.drain_withdrawn hmail (.inl rfl)
    generalize View.drain first ⟨.notPaired, a.timestamp⟩ mail = before at hstate ⊢
    obtain ⟨state, t⟩ := before
    obtain rfl : state = .notPaired := hstate
    exact .apart t _
  answered := answered_of_ne (by nofun) mail
  answered' := by
    refine answered_snoc.mpr ⟨h.answered', ?_⟩
    rintro - shown hm
    cases hm
  orderly := h.orderly.receiver (by nofun)
  orderly' := h.orderly'.refuse (by nofun)

/-- The ends an acceptance reaches when no request is behind a refusal on
its way to the end that accepts. -/
theorem Settled.reply (h : Settled first a mail b mail')
    (ha : a.state = .requestedByPeer ∨ a.state = .paired)
    (hlast : ∀ before behind, mail = before ++ .refusal :: behind →
      ∀ m ∈ behind, m.isRequest = false) (ht : t = a.timestamp) :
    Settled first ⟨.paired, t⟩ mail b (mail' ++ [.acceptance t]) := by
  subst ht
  have hmatch := h.matched
  by_cases hmem : .refusal ∈ mail
  · -- The refusal has the last word on both sides.
    have hboth : ∀ v : View, (v.drain first mail).state = .notPaired :=
      fun v => View.drain_refused v hmem hlast
    have hother : ∃ s, b.drain (!first) mail' = ⟨.notPaired, s⟩ := by
      have hstate := hboth a
      generalize a.drain first mail = before at hmatch hstate
      generalize b.drain (!first) mail' = after at hmatch ⊢
      cases hmatch with
      | apart s t => exact ⟨t, rfl⟩
      | asks => cases hstate
      | asked => cases hstate
      | joined => cases hstate
    obtain ⟨s, hs⟩ := hother
    refine ⟨?_, answered_of_ne (by nofun) mail, answered_snoc.mpr ⟨h.answered', ?_⟩,
      h.orderly.receiver (by nofun), h.orderly'.accept (by nofun) _⟩
    · rw [View.drain_snoc, hs]
      have hstate := hboth ⟨.paired, a.timestamp⟩
      generalize View.drain first ⟨.paired, a.timestamp⟩ mail = before at hstate ⊢
      obtain ⟨state, t⟩ := before
      obtain rfl : state = .notPaired := hstate
      exact .apart t s
    · rw [hs]
      rintro ⟨⟩
  · have hstays : View.drain first ⟨.paired, a.timestamp⟩ mail = ⟨.paired, a.timestamp⟩ :=
      View.drain_stays (.inr rfl) hmem
    rw [View.drain_stays ha hmem] at hmatch
    refine ⟨?_, answered_of_ne (by nofun) mail, answered_snoc.mpr ⟨h.answered', ?_⟩,
      h.orderly.receiver (by nofun), h.orderly'.accept (by nofun) _⟩
    · rw [hstays, View.drain_snoc]
      generalize b.drain (!first) mail' = after at hmatch ⊢
      cases hmatch with
      | apart => rcases ha with ha | ha <;> cases ha
      | asks => rcases ha with ha | ha <;> cases ha
      | asked => exact .joined _
      | joined => exact .joined _
    · generalize b.drain (!first) mail' = after at hmatch ⊢
      rintro hafter shown ⟨⟩
      cases hmatch with
      | apart => cases hafter
      | asks => cases hafter
      | asked => rfl
      | joined => cases hafter

/-- A user accepts. -/
theorem Settled.accept (h : Settled first ⟨.requestedByPeer, t⟩ mail b mail') :
    Settled first ⟨.paired, t⟩ mail b (mail' ++ [.acceptance t]) := by
  refine h.reply (.inl rfl) ?_ rfl
  intro before behind hsplit m hm
  by_contra hrequest
  have hbehind : ∃ m ∈ behind, m.isRequest = true := ⟨m, hm, by simpa using hrequest⟩
  exact (h.orderly before behind hsplit (.inl hbehind)).2 rfl

/-- The oldest packet arrives, and nothing is sent back. -/
theorem Settled.take {m : Mail} (h : Settled first a (m :: mail) b mail') :
    Settled first (a.receive first m) mail b mail' where
  matched := h.matched
  answered := h.answered.2
  answered' := h.answered'
  orderly := by
    intro before behind hsplit hbehind
    obtain ⟨hbefore, ha⟩ := h.orderly (m :: before) behind (by rw [hsplit]; rfl) hbehind
    refine ⟨fun m' hm' => hbefore m' (List.mem_cons_of_mem _ hm'), fun hasked => ?_⟩
    rcases View.receive_asked hasked with hm | hstate
    · rw [hbefore m (List.mem_cons_self ..)] at hm
      cases hm
    · exact ha hstate
  orderly' := h.orderly'.sender View.receive_requested

/-- A request arrives at an end that is paired, which confirms again. -/
theorem Settled.confirm {s : Int} (h : Settled first ⟨.paired, t⟩ (.request s :: mail) b mail') :
    Settled first ⟨.paired, t⟩ mail b (mail' ++ [.acceptance t]) := by
  have htaken : Settled first ⟨.paired, t⟩ mail b mail' := h.take
  refine htaken.reply (.inr rfl) ?_ rfl
  intro before behind hsplit m hm
  by_contra hrequest
  -- The request that arrives came before the refusal.
  have hbehind : ∃ m ∈ behind, m.isRequest = true := ⟨m, hm, by simpa using hrequest⟩
  have hbefore := (h.orderly (.request s :: before) behind (by rw [hsplit]; rfl) (.inl hbehind)).1
  cases hbefore _ (List.mem_cons_self ..)

end

variable {now : Int} {w : World} {x : Side} {e : End} {sent : Sent}

/-! ### The handlers -/

/-- A packet that arrives does to the view what it says. -/
theorem receive_view (h : PairingHandler) (sent : Sent) (first : Bool)
    (hclock : ∀ timestamp ∈ sent.packet.timestamp,
      PairingHandler.timestampIsPlausible timestamp now = true) :
    (h.receive sent.packet first now).view = h.view.receive first sent.mail := by
  obtain ⟨⟨pair, timestamp⟩, shown⟩ := sent
  obtain ⟨state, time, deadline⟩ := h
  by_cases hpair : pair = some true
  · subst hpair
    cases timestamp with
    | none => cases state <;> rfl
    | some timestamp =>
      have hplausible := hclock timestamp rfl
      cases state with
      | notPaired => simp [PairingHandler.receive, PairingHandler.view, View.receive, Sent.mail,
          hplausible]
      | requested => cases first <;> simp [PairingHandler.receive, PairingHandler.view,
          View.receive, Sent.mail, hplausible]
      | requestedByPeer => rfl
      | paired => rfl
  · simp [PairingHandler.receive, PairingHandler.view, View.receive, Sent.mail, hpair]

/-- The packets sent back: a confirmation, to a request that arrives at an
end that is paired. -/
theorem replies_eq (h : PairingHandler) (sent : Sent) (first : Bool)
    (hclock : ∀ timestamp ∈ sent.packet.timestamp,
      PairingHandler.timestampIsPlausible timestamp now = true) :
    (handlePairPacket h sent.packet first now).2
      = if h.state = .paired ∧ sent.mail.isRequest = true then [{ pair := some true }] else [] := by
  obtain ⟨⟨pair, timestamp⟩, shown⟩ := sent
  obtain ⟨state, time, deadline⟩ := h
  by_cases hpair : pair = some true
  · subst hpair
    cases timestamp with
    | none =>
      cases state <;> simp [handlePairPacket, requestRefusedForClock, needsPairReconfirmation,
        Sent.mail, Mail.isRequest]
    | some timestamp =>
      have hplausible := hclock timestamp rfl
      cases state <;> simp [handlePairPacket, requestRefusedForClock, needsPairReconfirmation,
        PairingHandler.receive, Sent.mail, Mail.isRequest, hplausible]
  · simp [handlePairPacket, requestRefusedForClock, needsPairReconfirmation, Sent.mail,
      Mail.isRequest, hpair]

/-! ### The world -/

theorem Side.other_other (x : Side) : x.other.other = x := by cases x <;> rfl

theorem Side.other_ne (x : Side) : x.other ≠ x := by cases x <;> decide

theorem Side.other_goesFirst (x : Side) : x.other.goesFirst = !x.goesFirst := by cases x <;> rfl

theorem Side.eq_or (x y : Side) : y = x ∨ y = x.other := by cases x <;> cases y <;> decide

/-- The view from `x`. -/
def World.SettledAt (w : World) (x : Side) : Prop :=
  Settled x.goesFirst (w x).handler.view (w.mailTo x) (w x.other).handler.view (w.mailTo x.other)

theorem World.SettledAt.all (h : w.SettledAt x) (y : Side) : w.SettledAt y := by
  rcases Side.eq_or x y with rfl | rfl
  · exact h
  · have hsymm := h.symm
    unfold World.SettledAt
    rw [Side.other_other, Side.other_goesFirst]
    exact hsymm

/-- What the end `x` makes of itself alone. -/
theorem settledAt_update
    (h : Settled x.goesFirst e.handler.view (w.mailTo x) (w x.other).handler.view
      (e.outbox.map Sent.mail)) : World.SettledAt (Function.update w x e) x := by
  have hself : Function.update w x e x = e := Function.update_self ..
  have hother : Function.update w x e x.other = w x.other :=
    Function.update_of_ne (Side.other_ne x) ..
  unfold World.SettledAt World.mailTo
  rw [Side.other_other, hself, hother]
  exact h

theorem mailTo_other (w : World) (x : Side) :
    w.mailTo x.other = (w x).outbox.map Sent.mail := by
  unfold World.mailTo
  rw [Side.other_other]

/-- The mail of an end after it sent some packets. -/
theorem send_mail (e : End) (packets : List Packet) :
    (e.send packets).outbox.map Sent.mail = e.outbox.map Sent.mail
      ++ packets.map (fun packet => Sent.mail ⟨packet, e.handler.timestamp⟩) := by
  rw [End.send, List.map_append, List.map_map]
  rfl

theorem accept_settled (h : w.SettledAt x) : World.SettledAt (w.after (.accept x)) x := by
  show World.SettledAt (Function.update w x (w x).accept) x
  refine settledAt_update ?_
  unfold World.SettledAt at h
  rw [mailTo_other] at h
  generalize w.mailTo x = mail at h ⊢
  generalize (w x.other).handler.view = b at h ⊢
  generalize w x = e at h ⊢
  obtain ⟨⟨state, timestamp, deadline⟩, outbox, accepted, joined⟩ := e
  cases state with
  | requestedByPeer =>
    show Settled x.goesFirst ⟨.paired, timestamp⟩ mail b ((End.send _ _).outbox.map Sent.mail)
    rw [send_mail]
    exact h.accept
  | notPaired => exact h
  | requested => exact h
  | paired => exact h

theorem request_settled (h : w.SettledAt x) (htimely : w.Timely (.request x now)) :
    World.SettledAt (w.after (.request x now)) x := by
  show World.SettledAt (Function.update w x ((w x).request now)) x
  refine settledAt_update ?_
  unfold World.SettledAt at h
  simp only [World.Timely] at htimely
  rw [mailTo_other] at h htimely
  generalize w.mailTo x = mail at h htimely ⊢
  generalize w x.other = peer at h htimely ⊢
  generalize w x = e at h htimely ⊢
  obtain ⟨⟨state, timestamp, deadline⟩, outbox, accepted, joined⟩ := e
  cases state with
  | requestedByPeer =>
    show Settled x.goesFirst ⟨.paired, timestamp⟩ mail _ ((End.send _ _).outbox.map Sent.mail)
    rw [send_mail]
    exact h.accept
  | notPaired =>
    show Settled x.goesFirst ⟨.requested, now⟩ mail _ ((End.send _ _).outbox.map Sent.mail)
    rw [send_mail]
    exact h.ask htimely.1 htimely.2
  | requested =>
    show Settled x.goesFirst ⟨.requested, timestamp⟩ mail _ ((End.send _ _).outbox.map Sent.mail)
    rw [send_mail]
    exact h.askAgain htimely
  | paired => exact h

theorem reject_settled (h : w.SettledAt x) (htimely : w.Timely (.reject x)) :
    World.SettledAt (w.after (.reject x)) x := by
  show World.SettledAt (Function.update w x (w x).reject) x
  refine settledAt_update ?_
  unfold World.SettledAt at h
  rw [mailTo_other] at h
  rw [End.reject, send_mail]
  exact h.refuse htimely

/-- A negotiation that expires is one that is refused. -/
theorem expire_cases (e : End) (now : Int) :
    (e.handler.expireIfDue now).2 = false ∧ (e.expire now).handler.view = e.handler.view ∧
        (e.expire now).outbox = e.outbox ∨
      (e.handler.expireIfDue now).2 = true ∧ e.expire now = e.reject := by
  obtain ⟨⟨state, timestamp, deadline⟩, outbox, accepted, joined⟩ := e
  cases deadline with
  | none => exact .inl ⟨rfl, rfl, rfl⟩
  | some deadline =>
    by_cases hdue : now < deadline
    · refine .inl ?_
      simp [End.expire, PairingHandler.expireIfDue, hdue]
    · cases state <;> simp [End.expire, End.reject, PairingHandler.expireIfDue,
        PairingHandler.rejectPacket, PairingHandler.view, hdue]

theorem expire_settled (h : w.SettledAt x) (htimely : w.Timely (.expire x now)) :
    World.SettledAt (w.after (.expire x now)) x := by
  show World.SettledAt (Function.update w x ((w x).expire now)) x
  rcases expire_cases (w x) now with ⟨-, hview, hbox⟩ | ⟨hdue, heq⟩
  · refine settledAt_update ?_
    rw [hview, hbox, ← mailTo_other]
    exact h
  · rw [heq]
    exact reject_settled h (htimely hdue)

theorem after_deliver_nil (h : (w x.other).outbox = []) (now : Int) :
    w.after (.deliver x now) = w := by
  simp only [World.after, h]

theorem after_deliver_cons {rest : List Sent} (h : (w x.other).outbox = sent :: rest) (now : Int) :
    w.after (.deliver x now) = Function.update (Function.update w x.other
      { w x.other with outbox := rest }) x ((w x).receive x.goesFirst now sent) := by
  simp only [World.after, h]

/-- A message arrives. -/
theorem deliver_settled (h : w.SettledAt x) (hstep : w.InStep (.deliver x now)) :
    World.SettledAt (w.after (.deliver x now)) x := by
  simp only [World.InStep] at hstep
  cases hbox : (w x.other).outbox with
  | nil =>
    rw [after_deliver_nil hbox]
    exact h
  | cons sent rest =>
    rw [after_deliver_cons hbox]
    have hclock := hstep sent (by rw [hbox]; rfl)
    refine settledAt_update ?_
    have hother : Function.update w x.other { w x.other with outbox := rest } x.other
        = { w x.other with outbox := rest } := Function.update_self ..
    unfold World.SettledAt at h
    rw [mailTo_other, World.mailTo, hbox, List.map_cons] at h
    rw [World.mailTo, hother, End.receive, send_mail, replies_eq _ _ _ hclock]
    show Settled _ ((w x).handler.receive sent.packet x.goesFirst now).view _ _ _
    rw [receive_view _ _ _ hclock]
    generalize (w x.other).handler.view = b at h ⊢
    generalize (w x).outbox.map Sent.mail = mail' at h ⊢
    -- Only a request that finds an end paired is answered.
    by_cases hreply : (w x).handler.state = .paired ∧ sent.mail.isRequest = true
    · rw [if_pos hreply]
      obtain ⟨hpaired, hrequest⟩ := hreply
      obtain ⟨time, hmail⟩ : ∃ time, sent.mail = .request time := by
        cases hm : sent.mail with
        | request time => exact ⟨time, rfl⟩
        | acceptance => rw [hm] at hrequest; cases hrequest
        | refusal => rw [hm] at hrequest; cases hrequest
      have hview : (w x).handler.view = ⟨.paired, (w x).handler.timestamp⟩ :=
        congrArg (View.mk · _) hpaired
      have hkept : (handlePairPacket (w x).handler sent.packet x.goesFirst now).1.timestamp
          = (w x).handler.timestamp := by
        show ((w x).handler.receive sent.packet x.goesFirst now).view.timestamp = _
        rw [receive_view _ _ _ hclock, hview, hmail]
        rfl
      rw [hview, hmail] at h ⊢
      rw [List.map_singleton, hkept]
      exact h.confirm
    · rw [if_neg hreply, List.map_nil, List.append_nil]
      exact h.take

/-- One action. -/
theorem after_settled {action : Action} (h : ∀ x, w.SettledAt x) (hstep : w.InStep action)
    (htimely : w.Timely action) (x : Side) : World.SettledAt (w.after action) x := by
  cases action with
  | request y now => exact (request_settled (h y) htimely).all x
  | accept y => exact (accept_settled (h y)).all x
  | reject y => exact (reject_settled (h y) htimely).all x
  | expire y now => exact (expire_settled (h y) htimely).all x
  | deliver y now => exact (deliver_settled (h y) hstep).all x

theorem start_settled (x : Side) : World.start.SettledAt x where
  matched := .apart 0 0
  answered := trivial
  answered' := trivial
  orderly before behind h := by cases before <;> cases h
  orderly' before behind h := by cases before <;> cases h

/-! ### What the users did -/

/-- An end that is paired, or that has an acceptance on its way. -/
def End.Vouches (e : End) : Prop :=
  e.handler.state = .paired ∨ ∃ sent ∈ e.outbox, ∃ shown, sent.mail = .acceptance shown

/-- Nobody vouches before a user accepted. -/
def World.Vouched (w : World) : Prop := ∀ x, (w x).Vouches → ∃ y, (w y).accepted = true

theorem End.Vouches.send {packets : List Packet} (h : (e.send packets).Vouches) :
    e.Vouches ∨ ∃ packet ∈ packets, packet.pair = some true ∧ packet.timestamp = none := by
  rcases h with h | ⟨sent, hmem, shown, hmail⟩
  · exact .inl (.inl h)
  · rcases List.mem_append.mp hmem with hmem | hmem
    · exact .inl (.inr ⟨sent, hmem, shown, hmail⟩)
    · obtain ⟨packet, hpacket, rfl⟩ := List.mem_map.mp hmem
      refine .inr ⟨packet, hpacket, ?_⟩
      unfold Sent.mail at hmail
      split at hmail
      · split at hmail
        · cases hmail
        · exact ⟨‹_›, ‹_›⟩
      · cases hmail

/-- What a user does, or a clock. -/
theorem own_vouches {e' : End} (h : (∃ now, e' = e.request now) ∨ e' = e.accept ∨ e' = e.reject ∨
    ∃ now, e' = e.expire now) : (e'.Vouches → e.Vouches ∨ e'.accepted = true) ∧
      (e.accepted = true → e'.accepted = true) := by
  have hreject : ∀ e : End, (e.reject.Vouches → e.Vouches ∨ e.reject.accepted = true) ∧
      (e.accepted = true → e.reject.accepted = true) := by
    refine fun e => ⟨fun hv => ?_, fun ha => ha⟩
    rcases hv.send with (hpaired | hmem) | ⟨packet, hpacket, hpair, -⟩
    · cases hpaired
    · exact .inl (.inr hmem)
    · rw [List.mem_singleton.mp hpacket] at hpair
      cases hpair
  rcases h with ⟨now, rfl⟩ | rfl | rfl | ⟨now, rfl⟩
  · obtain ⟨⟨state, timestamp, deadline⟩, outbox, accepted, joined⟩ := e
    cases state with
    | requestedByPeer => exact ⟨fun _ => .inr (Bool.or_true _), fun _ => Bool.or_true _⟩
    | paired => exact ⟨.inl, id⟩
    | notPaired =>
      refine ⟨fun hv => .inl ?_, fun ha => Bool.or_eq_true_iff.mpr (.inl ha)⟩
      rcases hv.send with (hpaired | hmem) | ⟨packet, hpacket, -, htime⟩
      · cases hpaired
      · exact .inr hmem
      · rw [List.mem_singleton.mp hpacket] at htime
        cases htime
    | requested =>
      refine ⟨fun hv => .inl ?_, fun ha => Bool.or_eq_true_iff.mpr (.inl ha)⟩
      rcases hv.send with (hpaired | hmem) | ⟨packet, hpacket, -, htime⟩
      · cases hpaired
      · exact .inr hmem
      · rw [List.mem_singleton.mp hpacket] at htime
        cases htime
  · obtain ⟨⟨state, timestamp, deadline⟩, outbox, accepted, joined⟩ := e
    cases state with
    | requestedByPeer => exact ⟨fun _ => .inr rfl, fun _ => rfl⟩
    | paired => exact ⟨.inl, id⟩
    | notPaired => exact ⟨.inl, id⟩
    | requested => exact ⟨.inl, id⟩
  · exact hreject e
  · rcases expire_cases e now with ⟨hquiet, hview, hbox⟩ | ⟨-, heq⟩
    · have hstate : (e.expire now).handler.state = e.handler.state := congrArg View.state hview
      have haccepted : (e.expire now).accepted = e.accepted := by
        unfold End.expire
        split <;> rfl
      unfold End.Vouches
      rw [hstate, hbox, haccepted]
      exact ⟨.inl, id⟩
    · rw [heq]
      exact hreject e

theorem update_vouched (h : w.Vouched)
    (he : e.Vouches → (∃ y, (w y).accepted = true) ∨ e.accepted = true)
    (haccepted : (w x).accepted = true → e.accepted = true) :
    World.Vouched (Function.update w x e) := by
  have hmono : (∃ y, (w y).accepted = true) → ∃ y, (Function.update w x e y).accepted = true := by
    rintro ⟨y, hy⟩
    by_cases hyx : y = x
    · subst hyx
      exact ⟨y, by rw [Function.update_self]; exact haccepted hy⟩
    · exact ⟨y, by rw [Function.update_of_ne hyx]; exact hy⟩
  intro y hy
  by_cases hyx : y = x
  · subst hyx
    rw [Function.update_self] at hy
    rcases he hy with hw | ha
    · exact hmono hw
    · exact ⟨y, by rw [Function.update_self]; exact ha⟩
  · rw [Function.update_of_ne hyx] at hy
    exact hmono (h y hy)

/-- Only an acceptance, which somebody vouches for, pairs an end that was
not; and only an end that was paired confirms. -/
theorem receive_vouches (h : (e.receive first now sent).Vouches) :
    e.Vouches ∨ ∃ shown, sent.mail = .acceptance shown := by
  have hpaired : (e.handler.receive sent.packet first now).state = .paired →
      e.handler.state = .paired ∨ ∃ shown, sent.mail = .acceptance shown := by
    intro hstate
    unfold PairingHandler.receive at hstate
    unfold Sent.mail
    split at hstate
    · rename_i hpair
      rw [if_pos hpair]
      split at hstate
      · split at hstate
        · rename_i htime
          exact .inr ⟨sent.shown, by rw [htime]⟩
        · split at hstate
          · cases hstate
          · exact .inl hstate
      · exact .inl hstate
      · split at hstate
        · cases hstate
        · split at hstate <;> cases hstate
      · exact .inl hstate
    · cases hstate
  rcases h.send with (hstate | hmem) | ⟨packet, hpacket, hpair, htime⟩
  · exact (hpaired hstate).imp_left .inl
  · exact .inl (.inr hmem)
  · refine .inl (.inl ?_)
    rcases List.mem_append.mp hpacket with hmem | hmem
    · split at hmem
      · rw [List.mem_singleton.mp hmem] at hpair
        cases hpair
      · cases hmem
    · split at hmem
      · rename_i hconfirm
        exact (of_decide_eq_true hconfirm).1
      · cases hmem

theorem after_vouched (h : w.Vouched) (action : Action) : (w.after action).Vouched := by
  cases action with
  | request x now =>
    obtain ⟨hv, ha⟩ := own_vouches (.inl ⟨now, rfl⟩)
    exact update_vouched h (fun he => (hv he).imp_left (h x)) ha
  | accept x =>
    obtain ⟨hv, ha⟩ := own_vouches (.inr (.inl rfl))
    exact update_vouched h (fun he => (hv he).imp_left (h x)) ha
  | reject x =>
    obtain ⟨hv, ha⟩ := own_vouches (.inr (.inr (.inl rfl)))
    exact update_vouched h (fun he => (hv he).imp_left (h x)) ha
  | expire x now =>
    obtain ⟨hv, ha⟩ := own_vouches (.inr (.inr (.inr ⟨now, rfl⟩)))
    exact update_vouched h (fun he => (hv he).imp_left (h x)) ha
  | deliver x now =>
    cases hbox : (w x.other).outbox with
    | nil =>
      rw [after_deliver_nil hbox]
      exact h
    | cons sent rest =>
      rw [after_deliver_cons hbox]
      have hsent : (w x.other).Vouches → ∃ y, (w y).accepted = true := h x.other
      have hrest : World.Vouched (Function.update w x.other { w x.other with outbox := rest }) := by
        refine update_vouched h (fun hv => .inl (hsent ?_)) id
        refine hv.imp_right ?_
        rintro ⟨s, hs, hmail⟩
        exact ⟨s, by rw [hbox]; exact List.mem_cons_of_mem _ hs, hmail⟩
      have hmono : (∃ y, (w y).accepted = true) → ∃ y,
          (Function.update w x.other { w x.other with outbox := rest } y).accepted = true := by
        rintro ⟨y, hy⟩
        refine ⟨y, ?_⟩
        by_cases hyx : y = x.other
        · subst hyx
          rw [Function.update_self]
          exact hy
        · rw [Function.update_of_ne hyx]
          exact hy
      refine update_vouched hrest (fun hv => .inl (hmono ?_)) ?_
      · rcases receive_vouches hv with hv | ⟨shown, hmail⟩
        · exact h x hv
        · exact hsent (.inr ⟨sent, by rw [hbox]; exact List.mem_cons_self .., shown, hmail⟩)
      · rw [Function.update_of_ne (Side.other_ne x).symm]
        exact id

/-! ### The answers that were taken up -/

/-- An answer that pairs an end was given with its timestamp. -/
theorem receive_compared (h : ∀ times ∈ e.joined, times.2 = times.1)
    (hanswer : e.handler.state = .requested →
      ∀ shown, sent.mail = .acceptance shown → shown = e.handler.timestamp) :
    ∀ times ∈ (e.receive first now sent).joined, times.2 = times.1 := by
  intro times htimes
  change times ∈ (if e.handler.state = .requested ∧
    (e.handler.receive sent.packet first now).state = .paired
    then e.joined ++ [(e.handler.timestamp, sent.shown)] else e.joined) at htimes
  split at htimes
  · rename_i hpairs
    rcases List.mem_append.mp htimes with htimes | htimes
    · exact h times htimes
    · rw [List.mem_singleton.mp htimes]
      refine hanswer hpairs.1 sent.shown ?_
      -- Of what an end that asks receives, only an acceptance pairs it.
      have hstate := hpairs.2
      unfold PairingHandler.receive at hstate
      unfold Sent.mail
      split at hstate
      · rename_i hpair
        rw [if_pos hpair]
        simp only [hpairs.1] at hstate
        split at hstate
        · rename_i htime
          rw [htime]
        · split at hstate
          · cases hstate
          · rw [hpairs.1] at hstate
            cases hstate
      · cases hstate
  · exact h times htimes

def World.Compared (w : World) : Prop := ∀ x, ∀ times ∈ (w x).joined, times.2 = times.1

theorem update_compared (h : w.Compared) (he : ∀ times ∈ e.joined, times.2 = times.1) :
    World.Compared (Function.update w x e) := by
  intro y
  by_cases hyx : y = x
  · subst hyx
    rw [Function.update_self]
    exact he
  · rw [Function.update_of_ne hyx]
    exact h y

/-- What a user does, or a clock, takes up no answer. -/
theorem own_joined {e' : End} (h : (∃ now, e' = e.request now) ∨ e' = e.accept ∨ e' = e.reject ∨
    ∃ now, e' = e.expire now) : e'.joined = e.joined := by
  rcases h with ⟨now, rfl⟩ | rfl | rfl | ⟨now, rfl⟩
  · unfold End.request
    split <;> rfl
  · unfold End.accept
    split <;> rfl
  · rfl
  · unfold End.expire
    split <;> rfl

theorem after_compared (h : w.Compared) (hsettled : ∀ x, w.SettledAt x) (action : Action) :
    (w.after action).Compared := by
  cases action with
  | request x now =>
    refine update_compared h ?_
    rw [own_joined (.inl ⟨now, rfl⟩)]
    exact h x
  | accept x =>
    refine update_compared h ?_
    rw [own_joined (.inr (.inl rfl))]
    exact h x
  | reject x => exact update_compared h (h x)
  | expire x now =>
    refine update_compared h ?_
    rw [own_joined (.inr (.inr (.inr ⟨now, rfl⟩)))]
    exact h x
  | deliver x now =>
    cases hbox : (w x.other).outbox with
    | nil =>
      rw [after_deliver_nil hbox]
      exact h
    | cons sent rest =>
      rw [after_deliver_cons hbox]
      refine update_compared (update_compared h (h x.other)) (receive_compared (h x) ?_)
      have hanswered := (hsettled x).answered
      rw [World.mailTo, hbox] at hanswered
      exact hanswered.1

/-! ### The run -/

theorem run_settled {actions : List Action} (h : ∀ x, w.SettledAt x) (hvouched : w.Vouched)
    (hcompared : w.Compared) (hsteps : Lib.Alongside World.after World.InStep w actions)
    (htimely : Lib.Alongside World.after World.Timely w actions) :
    (∀ x, World.SettledAt (Lib.applyAll World.after w actions) x) ∧
      (Lib.applyAll World.after w actions).Vouched ∧
      (Lib.applyAll World.after w actions).Compared := by
  induction actions generalizing w with
  | nil => exact ⟨h, hvouched, hcompared⟩
  | cons action actions ih =>
    exact ih (after_settled h hsteps.1 htimely.1) (after_vouched hvouched action)
      (after_compared hcompared h action) hsteps.2 htimely.2

/-- Two honest ends agree on the pairing. Start two handlers that are not
paired, and let users ask, accept and reject, negotiations expire and
packets arrive, in any order, with clocks within the allowed difference.
While every action is timely: nobody is paired before a user accepted; an
end whose request was answered had the timestamp of the end that answered;
and when nothing is on its way, both are paired or neither is. -/
theorem pairing_agrees (actions : List Action)
    (hsteps : Lib.Alongside World.after World.InStep World.start actions)
    (htimely : Lib.Alongside World.after World.Timely World.start actions) :
    (Lib.applyAll World.after World.start actions).Agrees := by
  have hvouched : World.start.Vouched := by
    rintro x (hstate | ⟨sent, hmem, -⟩)
    · cases hstate
    · cases hmem
  have hcompared : World.start.Compared := by
    intro x times htimes
    cases htimes
  obtain ⟨hsettled, hvouched, hcompared⟩ :=
    run_settled start_settled hvouched hcompared hsteps htimely
  generalize Lib.applyAll World.after World.start actions = w at hsettled hvouched hcompared
  refine ⟨fun x hx => hvouched x (.inl hx), hcompared, fun hempty x hx => ?_⟩
  -- Nothing is on its way, so the drained views are the views.
  have hmatch := (hsettled x).matched
  rw [World.mailTo, mailTo_other, hempty x.other, hempty x] at hmatch
  change Match (w x).handler.view (w x.other).handler.view at hmatch
  have hview : (w x).handler.view.state = .paired := hx
  show (w x.other).handler.view.state = .paired
  generalize (w x).handler.view = a at hmatch hview
  generalize (w x.other).handler.view = b at hmatch ⊢
  cases hmatch with
  | apart => cases hview
  | asks => cases hview
  | asked => cases hview
  | joined => rfl

/-- Requests cross, and the follower accepts the leader's. -/
def crossing : List Action :=
  [.request .leader 100, .request .follower 101, .deliver .leader 102, .deliver .follower 102,
    .accept .follower, .deliver .leader 103]

/-- Both ends are paired, and agree. -/
theorem pairing_agrees_crossing :
    (Lib.applyAll World.after World.start crossing .leader).handler.state = .paired ∧
      (Lib.applyAll World.after World.start crossing).Agrees := by
  exact ⟨by decide, pairing_agrees crossing (by decide) (by decide)⟩

/-- The leader asks, gives up after thirty seconds while the acceptance is
on its way, and asks again. -/
def crossedAcceptance : List Action :=
  [.request .leader 100, .deliver .follower 101, .accept .follower, .expire .leader 130,
    .request .leader 131, .deliver .leader 132, .deliver .follower 133, .deliver .follower 134]

/-- The acceptance of the first request answers the second. The leader is
paired with a timestamp that nobody accepted; and then nothing is on its
way, and the other end is being asked. -/
theorem stale_acceptance :
    Lib.Alongside World.after World.InStep World.start crossedAcceptance ∧
    ¬(∀ x, ∀ times ∈ (Lib.applyAll World.after World.start crossedAcceptance x).joined,
      times.2 = times.1) ∧
    (∀ x, (Lib.applyAll World.after World.start crossedAcceptance x).outbox = []) ∧
    (Lib.applyAll World.after World.start crossedAcceptance .leader).handler.state = .paired ∧
    (Lib.applyAll World.after World.start crossedAcceptance .follower).handler.state
      = .requestedByPeer := by
  refine ⟨by decide, ?_, ?_, by decide, by decide⟩
  · intro h
    exact absurd (h .leader (131, 100) (by decide)) (by decide)
  · intro x
    cases x <;> decide

end DeskLink.Pairing
