import DeskLink.Lib.Unwind
import DeskLink.Proofs.Relay.Presence

/-!
# `DeskLink.Proofs.Relay.Probe`: a stranger cannot be seen

`a` and `b` are never mutual. `Alike a b h h'` says that two hubs differ
in what is `b`'s, and in the outboxes of third devices, only. Every call
of `b` keeps a hub alike to itself (`hidden_alike`), and every other call
keeps two hubs alike (`shared_alike`), so two runs that differ in the calls
of `b` show `a` the same (`probe_blind`).

A connection belongs to one device: `owner`.
-/

set_option autoImplicit false

namespace DeskLink.Relay

variable {α : Type} {size : ServerMessage α → Nat} {walk : Iteration} {owner : Nat → String}
variable {a b fp : String} {h h' : Hub α} {conn : Nat} {o : Outbox α} {c : Call α}

/-- A connection is registered, read and hung up by its owner only. -/
def Call.Owned (owner : Nat → String) : Call α → Prop
  | .register fp conn | .tryRecv fp conn | .hangUp fp conn => owner conn = fp
  | .unregister .. | .setAllow .. | .forward .. | .canTurn .. => True

/-- Each device is on a connection of its own. -/
def Placed (owner : Nat → String) (h : Hub α) : Prop :=
  ∀ (d : String) (p : Peer), h.peers[d]? = some p → owner p.conn = d

/-- Two hubs that `a` cannot tell apart, whatever `b` did. -/
structure Alike (owner : Nat → String) (a b : String) (h h' : Hub α) : Prop where
  peers : ∀ d, d ≠ b → h.peers[d]? = h'.peers[d]?
  outboxes : ∀ conn, owner conn = a → h.outboxes conn = h'.outboxes conn
  dropped : ∀ conn, owner conn ≠ b → (h.outboxes conn).dropped = (h'.outboxes conn).dropped

theorem alike_refl (h : Hub α) : Alike owner a b h h :=
  ⟨fun _ _ => rfl, fun _ _ => rfl, fun _ _ => rfl⟩

theorem Alike.symm (hl : Alike owner a b h h') : Alike owner a b h' h :=
  ⟨fun d hd => (hl.peers d hd).symm, fun c hc => (hl.outboxes c hc).symm,
    fun c hc => (hl.dropped c hc).symm⟩

theorem Alike.trans {h'' : Hub α} (hl : Alike owner a b h h') (hl' : Alike owner a b h' h'') :
    Alike owner a b h h'' :=
  ⟨fun d hd => (hl.peers d hd).trans (hl'.peers d hd),
    fun c hc => (hl.outboxes c hc).trans (hl'.outboxes c hc),
    fun c hc => (hl.dropped c hc).trans (hl'.dropped c hc)⟩

/-! ### What reaches the outboxes of `a` -/

/-- The outbox after `notices` were put in. -/
def hear (size : ServerMessage α → Nat) (o : Outbox α) (notices : List Notice) : Outbox α :=
  notices.foldl (fun o n => (o.push size (.presence n.about n.online) false).1) o

@[simp] theorem push_dropped (o : Outbox α) (message : ServerMessage α) (bounded : Bool) :
    (o.push size message bounded).1.dropped = o.dropped := by
  unfold Outbox.push
  simp only
  split
  · rfl
  · split <;> rfl

/-- An outbox of `a` gets the notices for `a`, while it is the current one. -/
theorem announce_outbox (hplaced : Placed owner h) (hconn : owner conn = a)
    (notices : List Notice) : (announce size h notices).outboxes conn =
      if (h.peers[a]?).map Peer.conn = some conn then
        hear size (h.outboxes conn) (notices.filter (fun n => n.dest = a))
      else h.outboxes conn := by
  induction notices generalizing h with
  | nil => simp [announce, hear]
  | cons n notices ih =>
    have hplaced' : Placed owner (h.presence size n.dest n.about n.online) := by
      intro d p hp
      rw [presence_peers] at hp
      exact hplaced d p hp
    show (announce size (h.presence size n.dest n.about n.online) notices).outboxes conn = _
    rw [ih hplaced', presence_peers]
    cases hn : h.peers[n.dest]? with
    | none =>
      have hsame : h.presence size n.dest n.about n.online = h := by rw [Hub.presence, hn]
      rw [hsame]
      by_cases hdest : n.dest = a
      · rw [← hdest, hn]
        simp
      · rw [List.filter_cons_of_neg (by simpa using hdest)]
    | some q =>
      rw [presence_outbox hn]
      by_cases hdest : n.dest = a
      · rw [List.filter_cons_of_pos (by simpa using hdest), ← hdest, hn]
        by_cases hq : q.conn = conn
        · simp [hq, hear]
        · simp [hq, Ne.symm hq]
      · have hq : conn ≠ q.conn := by
          rintro rfl
          exact hdest ((hplaced _ q hn).symm.trans hconn)
        rw [List.filter_cons_of_neg (by simpa using hdest), if_neg hq]

theorem announce_dropped (h : Hub α) (notices : List Notice) (conn : Nat) :
    ((announce size h notices).outboxes conn).dropped = (h.outboxes conn).dropped := by
  induction notices generalizing h with
  | nil => rfl
  | cons n notices ih =>
    show ((announce size (h.presence size n.dest n.about n.online) notices).outboxes conn).dropped = _
    rw [ih]
    cases hn : h.peers[n.dest]? with
    | none => rw [Hub.presence, hn]
    | some q =>
      rw [presence_outbox hn]
      split
      · rename_i hconn
        rw [push_dropped, hconn]
      · rfl

/-- Two loops that say the same to `a` keep two hubs alike. -/
theorem Alike.announce (hl : Alike owner a b h h') (hab : a ≠ b) (hplaced : Placed owner h)
    (hplaced' : Placed owner h') {notices notices' : List Notice}
    (hsame : notices.filter (fun n => n.dest = a) = notices'.filter (fun n => n.dest = a)) :
    Alike owner a b (announce size h notices) (announce size h' notices') where
  peers d hd := by
    rw [announce_peers, announce_peers]
    exact hl.peers d hd
  outboxes conn hconn := by
    rw [announce_outbox hplaced hconn, announce_outbox hplaced' hconn, hsame, hl.peers a hab,
      hl.outboxes conn hconn]
  dropped conn hconn := by
    rw [announce_dropped, announce_dropped]
    exact hl.dropped conn hconn

/-- A loop that says nothing to `a`. -/
theorem announce_alike (hab : a ≠ b) (hplaced : Placed owner h) {notices : List Notice}
    (hnone : notices.filter (fun n => n.dest = a) = []) :
    Alike owner a b h (announce size h notices) := by
  have halike : Alike owner a b (announce size h []) (announce size h notices) :=
    (alike_refl h).announce hab hplaced hplaced hnone.symm
  exact halike

theorem Alike.setOutbox (hl : Alike owner a b h h') {o' : Outbox α}
    (howner : owner conn = a → o = o') (hdropped : owner conn ≠ b → o.dropped = o'.dropped) :
    Alike owner a b (h.setOutbox conn o) (h'.setOutbox conn o') where
  peers := hl.peers
  outboxes c hc := by
    simp only [Hub.setOutbox, Function.update_apply]
    split
    · rename_i heq
      exact howner (heq ▸ hc)
    · exact hl.outboxes c hc
  dropped c hc := by
    simp only [Hub.setOutbox, Function.update_apply]
    split
    · rename_i heq
      exact hdropped (heq ▸ hc)
    · exact hl.dropped c hc

/-- An outbox that is not `a`'s is none of its business. -/
theorem setOutbox_alike (howner : owner conn ≠ a)
    (hdropped : owner conn ≠ b → o.dropped = (h.outboxes conn).dropped) :
    Alike owner a b h (h.setOutbox conn o) := by
  have hself : h.setOutbox conn (h.outboxes conn) = h := by
    simp [Hub.setOutbox]
  have halike : Alike owner a b (h.setOutbox conn (h.outboxes conn)) (h.setOutbox conn o) :=
    (alike_refl h).setOutbox (fun hc => absurd hc howner) (fun hc => (hdropped hc).symm)
  rw [hself] at halike
  exact halike

/-! ### Mutual devices of two hubs -/

theorem Alike.isMutual (hl : Alike owner a b h h') {x y : String} (hx : x ≠ b) (hy : y ≠ b) :
    h'.isMutual x y = h.isMutual x y :=
  isMutual_congr (hl.peers x hx).symm (hl.peers y hy).symm

/-- `a` sees the same mutual devices: `b` is none in either. -/
theorem Alike.isMutual_own (hl : Alike owner a b h h') (hab : a ≠ b)
    (hno : h.isMutual a b = false) (hno' : h'.isMutual a b = false) (y : String) :
    h'.isMutual a y = h.isMutual a y := by
  by_cases hy : y = b
  · rw [hy, hno, hno']
  · exact hl.isMutual hab hy

theorem Alike.mutualPeers_own (hl : Alike owner a b h h') (hab : a ≠ b)
    (hno : h.isMutual a b = false) (hno' : h'.isMutual a b = false) :
    h'.mutualPeers a = h.mutualPeers a := by
  unfold Hub.mutualPeers
  rw [hl.peers a hab]
  simp only [hl.isMutual_own hab hno hno']

/-- How often `x` stands among the mutual devices of `fp`. -/
theorem count_mutualPeers (h : Hub α) (fp x : String) :
    (h.mutualPeers fp).count x
      = if h.isMutual fp x then ((h.peers[fp]?).map (fun p => p.allow.count x)).getD 0 else 0 := by
  unfold Hub.mutualPeers
  cases h.peers[fp]? with
  | none => simp
  | some p =>
    show (p.allow.filter (h.isMutual fp ·)).count x = _
    by_cases hm : h.isMutual fp x = true
    · rw [if_pos hm, List.count_filter hm]
      rfl
    · rw [if_neg hm]
      refine List.count_eq_zero_of_not_mem ?_
      intro hmem
      exact hm (List.mem_filter.mp hmem).2

theorem Alike.count_mutualPeers (hl : Alike owner a b h h') {x : String} (hfp : fp ≠ b)
    (hx : x ≠ b) : (h'.mutualPeers fp).count x = (h.mutualPeers fp).count x := by
  rw [Relay.count_mutualPeers, Relay.count_mutualPeers, hl.isMutual hfp hx, hl.peers fp hfp]

/-- What `remove` says to `a`. -/
theorem goneNotices_own (fp : String) (peers : List String) :
    (goneNotices walk fp peers).filter (fun n => n.dest = a)
      = List.replicate (peers.count a) ⟨a, fp, false⟩ := by
  have hfilter : (walk.order peers).filter (fun x => x = a) = List.replicate (peers.count a) a := by
    rw [List.filter_eq, (walk.perm peers).count_eq]
  have hcomp : ((fun n : Notice => decide (n.dest = a)) ∘ fun peer => ⟨peer, fp, false⟩)
      = fun x : String => decide (x = a) := rfl
  rw [goneNotices, List.filter_map, hcomp, hfilter, List.map_replicate]

/-- What `set_allow` of another device says to `a`. -/
theorem allowNotices_own (hfp : fp ≠ a) (before after : List String) :
    (allowNotices walk fp before after).filter (fun n => n.dest = a)
      = List.replicate (if a ∈ before then 0 else after.count a) ⟨a, fp, true⟩
        ++ List.replicate (if a ∈ after then 0 else before.count a) ⟨a, fp, false⟩ := by
  have hpairs : ∀ (l : List String) (online : Bool),
      (l.flatMap (fun y => [Notice.mk fp y online, ⟨y, fp, online⟩])).filter (fun n => n.dest = a)
        = List.replicate (l.count a) ⟨a, fp, online⟩ := by
    intro l online
    induction l with
    | nil => rfl
    | cons y l ih =>
      rw [List.flatMap_cons, List.filter_append, ih]
      by_cases hy : y = a
      · subst hy
        simp [hfp, List.replicate_succ]
      · simp [hfp, hy]
  have hcount : ∀ l l' : List String,
      ((walk.order l).filter (fun x => !l'.contains x)).count a = if a ∈ l' then 0 else l.count a := by
    intro l l'
    split
    · rename_i hin
      refine List.count_eq_zero_of_not_mem ?_
      intro hmem
      simp [hin] at hmem
    · rename_i hout
      rw [List.count_filter (by simpa using hout), (walk.perm l).count_eq]
  rw [allowNotices, List.filter_append, hpairs, hpairs, hcount, hcount]

/-! ### Connections stay their owners' -/

theorem Placed.of_peers (hplaced : Placed owner h)
    (hsub : ∀ (d : String) (q : Peer), h'.peers[d]? = some q →
      (∃ p, h.peers[d]? = some p ∧ p.conn = q.conn) ∨ owner q.conn = d) : Placed owner h' := by
  intro d q hq
  rcases hsub d q hq with ⟨p, hp, hconn⟩ | hown
  · rw [← hconn]
    exact hplaced d p hp
  · exact hown

theorem remove_placed (hplaced : Placed owner h) (fp : String) :
    Placed owner (h.remove size walk fp) := by
  refine hplaced.of_peers ?_
  intro d q hq
  rw [remove_eq] at hq
  simp only [getElem?_keyErase] at hq
  split at hq
  · cases hq
  · exact Or.inl ⟨q, hq, rfl⟩

theorem withAllow_placed (hplaced : Placed owner h) {peer : Peer} (hpeer : h.peers[fp]? = some peer)
    (fps : List String) : Placed owner (withAllow h fp peer fps) := by
  refine hplaced.of_peers ?_
  intro d q hq
  simp only [withAllow, getElem?_keyInsert] at hq
  split at hq
  · rename_i hfp
    subst hfp
    rw [← Option.some.inj hq]
    exact Or.inl ⟨peer, hpeer, rfl⟩
  · exact Or.inl ⟨q, hq, rfl⟩

/-- The hub that `register` puts the new entry into. -/
def replaced (size : ServerMessage α → Nat) (walk : Iteration) (h : Hub α) (fp : String) : Hub α :=
  match h.peers[fp]? with
  | none => h
  | some old => (h.setOutbox old.conn ((h.outboxes old.conn).close closeReplaced
      "replaced by a newer connection")).remove size walk fp

theorem register_eq (h : Hub α) (fp : String) (conn : Nat) :
    h.register size walk fp conn =
      { replaced size walk h fp with
        peers := (replaced size walk h fp).peers.insert fp ⟨conn, []⟩ } := rfl

theorem replaced_placed (hplaced : Placed owner h) (fp : String) :
    Placed owner (replaced size walk h fp) := by
  unfold replaced
  split
  · exact hplaced
  · exact remove_placed (h := h.setOutbox _ _) hplaced fp

theorem after_placed (hplaced : Placed owner h) (hown : c.Owned owner) :
    Placed owner (h.after size walk c) := by
  cases c with
  | register fp conn =>
    refine (@replaced_placed _ size walk _ _ hplaced fp).of_peers ?_
    intro d q hq
    simp only [Hub.after, register_eq, getElem?_keyInsert] at hq
    split at hq
    · rename_i hfp
      subst hfp
      rw [← Option.some.inj hq]
      exact Or.inr hown
    · exact Or.inl ⟨q, hq, rfl⟩
  | unregister fp conn =>
    show Placed owner (h.unregister size walk fp conn)
    unfold Hub.unregister
    split
    · exact remove_placed hplaced fp
    · exact hplaced
  | setAllow fp conn fps =>
    show Placed owner (h.setAllow size walk fp conn fps)
    cases hcurrent : h.current fp conn with
    | none =>
      rw [Hub.setAllow, hcurrent]
      exact hplaced
    | some peer =>
      rw [setAllow_eq hcurrent]
      intro d p hp
      rw [announce_peers] at hp
      exact withAllow_placed hplaced (current_some hcurrent).1 fps d p hp
  | forward source conn dest data =>
    show Placed owner (h.forward size source conn dest data).1
    rcases @forward_cases _ size h source conn dest data with heq | ⟨target, -, -, heq⟩
    · rw [heq]
      exact hplaced
    · rw [heq]
      exact hplaced
  | canTurn source conn peer => exact hplaced
  | tryRecv fp conn => exact hplaced
  | hangUp fp conn => exact hplaced

/-! ### Calls of other devices -/

theorem Alike.erase (hl : Alike owner a b h h') (fp : String) :
    Alike owner a b { h with peers := h.peers.erase fp } { h' with peers := h'.peers.erase fp } where
  peers d hd := by
    simp only [getElem?_keyErase]
    rw [hl.peers d hd]
  outboxes := hl.outboxes
  dropped := hl.dropped

theorem Alike.insert (hl : Alike owner a b h h') (fp : String) (peer : Peer) :
    Alike owner a b { h with peers := h.peers.insert fp peer }
      { h' with peers := h'.peers.insert fp peer } where
  peers d hd := by
    simp only [getElem?_keyInsert]
    rw [hl.peers d hd]
  outboxes := hl.outboxes
  dropped := hl.dropped

theorem Alike.remove (hl : Alike owner a b h h') (hab : a ≠ b) (hplaced : Placed owner h)
    (hplaced' : Placed owner h') (hfp : fp ≠ b) :
    Alike owner a b (h.remove size walk fp) (h'.remove size walk fp) := by
  have hsame : (goneNotices walk fp (h.mutualPeers fp)).filter (fun n => n.dest = a)
      = (goneNotices walk fp (h'.mutualPeers fp)).filter (fun n => n.dest = a) := by
    rw [goneNotices_own, goneNotices_own, hl.count_mutualPeers hfp hab]
  have htold : Alike owner a b (Relay.announce size h (goneNotices walk fp (h.mutualPeers fp)))
      (Relay.announce size h' (goneNotices walk fp (h'.mutualPeers fp))) :=
    hl.announce hab hplaced hplaced' hsame
  have halike := htold.erase fp
  rw [announce_peers, announce_peers] at halike
  rw [remove_eq, remove_eq]
  exact halike

theorem Alike.current (hl : Alike owner a b h h') (hfp : fp ≠ b) (conn : Nat) :
    h'.current fp conn = h.current fp conn := by
  unfold Hub.current
  rw [hl.peers fp hfp]

theorem Alike.register (hl : Alike owner a b h h') (hab : a ≠ b) (hplaced : Placed owner h)
    (hplaced' : Placed owner h') (hfp : fp ≠ b) (conn : Nat) :
    Alike owner a b (h.register size walk fp conn) (h'.register size walk fp conn) := by
  rw [register_eq, register_eq]
  refine Alike.insert ?_ fp ⟨conn, []⟩
  unfold replaced
  rw [← hl.peers fp hfp]
  cases hold : h.peers[fp]? with
  | none => exact hl
  | some old =>
    have hclose : Alike owner a b
        (h.setOutbox old.conn ((h.outboxes old.conn).close closeReplaced
          "replaced by a newer connection"))
        (h'.setOutbox old.conn ((h'.outboxes old.conn).close closeReplaced
          "replaced by a newer connection")) := by
      refine hl.setOutbox ?_ ?_
      · intro howner
        rw [hl.outboxes old.conn howner]
      · intro howner
        exact hl.dropped old.conn howner
    exact hclose.remove hab hplaced hplaced' hfp

theorem Alike.setAllow (hl : Alike owner a b h h') (hab : a ≠ b) (hplaced : Placed owner h)
    (hplaced' : Placed owner h') (hfp : fp ≠ b) (conn : Nat) (fps : List String)
    (hno : h.isMutual a b = false) (hno' : h'.isMutual a b = false)
    (hafter : (h.setAllow size walk fp conn fps).isMutual a b = false)
    (hafter' : (h'.setAllow size walk fp conn fps).isMutual a b = false) :
    Alike owner a b (h.setAllow size walk fp conn fps) (h'.setAllow size walk fp conn fps) := by
  cases hcurrent : h.current fp conn with
  | none =>
    rw [Hub.setAllow, Hub.setAllow, hl.current hfp, hcurrent]
    exact hl
  | some peer =>
    have hcurrent' : h'.current fp conn = some peer := by rw [hl.current hfp, hcurrent]
    rw [setAllow_eq hcurrent] at hafter ⊢
    rw [setAllow_eq hcurrent'] at hafter' ⊢
    have hwith : Alike owner a b (withAllow h fp peer fps) (withAllow h' fp peer fps) :=
      hl.insert fp _
    have hplacedW := withAllow_placed hplaced (current_some hcurrent).1 fps
    have hplacedW' := withAllow_placed hplaced' (current_some hcurrent').1 fps
    -- Telling does not make anyone mutual.
    have hnoW : (withAllow h fp peer fps).isMutual a b = false := by
      rw [← hafter]
      exact (isMutual_congr (by rw [announce_peers]) (by rw [announce_peers])).symm
    have hnoW' : (withAllow h' fp peer fps).isMutual a b = false := by
      rw [← hafter']
      exact (isMutual_congr (by rw [announce_peers]) (by rw [announce_peers])).symm
    refine hwith.announce hab hplacedW hplacedW' ?_
    by_cases hown : fp = a
    · subst hown
      rw [hl.mutualPeers_own hab hno hno', hwith.mutualPeers_own hab hnoW hnoW']
    · have hmem : ∀ {g g' : Hub α}, Alike owner a b g g' →
          (a ∈ g'.mutualPeers fp ↔ a ∈ g.mutualPeers fp) := by
        intro g g' hg
        rw [mem_mutualPeers, mem_mutualPeers, hg.isMutual hfp hab]
      rw [allowNotices_own hown, allowNotices_own hown, hl.count_mutualPeers hfp hab,
        hwith.count_mutualPeers hfp hab]
      simp only [hmem hl, hmem hwith]

/-- `forward` of a device that is not `b`. -/
theorem Alike.forward (hl : Alike owner a b h h') (hab : a ≠ b) (hplaced : Placed owner h)
    (hplaced' : Placed owner h') {source : String} (hsource : source ≠ b) (conn : Nat)
    (dest : String) (data : α) :
    Alike owner a b (h.forward size source conn dest data).1
      (h'.forward size source conn dest data).1 := by
  -- A push to a device other than `a` is no matter.
  have hother : ∀ (g : Hub α), Placed owner g → dest ≠ a →
      Alike owner a b g (g.forward size source conn dest data).1 := by
    intro g hg hdest
    rcases @forward_cases _ size g source conn dest data with heq | ⟨target, htarget, -, heq⟩
    · rw [heq]
      exact alike_refl g
    · rw [heq]
      refine setOutbox_alike ?_ (fun _ => push_dropped _ _ _)
      rw [hg dest target htarget]
      exact hdest
  by_cases hdest : dest = a
  · subst hdest
    unfold Hub.forward
    rw [hl.current hsource, ← hl.peers dest hab, hl.isMutual hsource hab]
    cases hcurrent : h.current source conn with
    | none => exact hl
    | some sender =>
      simp only
      split
      · exact hl
      · cases htarget : h.peers[dest]? with
        | none => exact hl
        | some target =>
          simp only
          split
          · exact hl
          · have howner : owner target.conn = dest := hplaced dest target htarget
            rw [← hl.outboxes target.conn howner]
            exact hl.setOutbox (fun _ => rfl) (fun _ => rfl)
  · exact ((hother h hplaced hdest).symm.trans hl).trans (hother h' hplaced' hdest)

/-- Room for what `a` forwards: the queue of the device it names does not
pass the first bound. -/
def Roomy (size : ServerMessage α → Nat) (a : String) (h : Hub α) : Call α → Prop
  | .forward source _ dest data => ∀ target ∈ h.peers[dest]?, source = a →
      h.isMutual a dest = true →
      (h.outboxes target.conn).queued + size (.msg a data) ≤ maxQueuedBytes
  | .register .. | .unregister .. | .setAllow .. | .canTurn .. | .tryRecv .. | .hangUp .. => True

instance Roomy.decidable (size : ServerMessage α → Nat) (a : String) (h : Hub α) :
    ∀ c, Decidable (Roomy size a h c)
  | .forward source _ dest data => inferInstanceAs (Decidable (∀ target ∈ h.peers[dest]?, source = a →
      h.isMutual a dest = true →
      (h.outboxes target.conn).queued + size (.msg a data) ≤ maxQueuedBytes))
  | .register .. | .unregister .. | .setAllow .. | .canTurn .. | .tryRecv .. | .hangUp .. =>
    .isTrue trivial

instance Call.Owned.decidable (owner : Nat → String) : ∀ c : Call α, Decidable (c.Owned owner)
  | .register fp conn | .tryRecv fp conn | .hangUp fp conn =>
    inferInstanceAs (Decidable (owner conn = fp))
  | .unregister .. | .setAllow .. | .forward .. | .canTurn .. => .isTrue trivial

/-- With room, `push` fails only for a receiver that is gone. -/
theorem push_roomy {message : ServerMessage α} (hroom : o.queued + size message ≤ maxQueuedBytes) :
    (o.push size message true).2 = !o.dropped := by
  unfold Outbox.push
  have hfirst : ¬maxQueuedBytes < o.queued + size message := by omega
  have hsecond : ¬maxQueuedBytes + controlHeadroom < o.queued + size message := by omega
  simp only [Bool.true_and, decide_eq_true_eq, if_neg hfirst, if_neg hsecond]

/-- What `forward` answers: not mutual reads as offline, whether the device
is there or not. -/
theorem forward_result (h : Hub α) (source : String) (conn : Nat) (dest : String) (data : α) :
    (h.forward size source conn dest data).2 =
      match h.current source conn with
      | none => .error .offline
      | some sender =>
        if sender.allow.contains dest then
          if h.isMutual source dest then
            match h.peers[dest]? with
            | none => .error .offline
            | some target =>
              if ((h.outboxes target.conn).push size (.msg source data) true).2 then .ok ()
              else .error .offline
          else .error .offline
        else .error .notAllowed := by
  unfold Hub.forward
  cases h.current source conn with
  | none => rfl
  | some sender =>
    by_cases hallow : dest ∈ sender.allow
    · cases h.peers[dest]? with
      | none => simp [hallow]
      | some target => cases hm : h.isMutual source dest <;> simp [hallow]
    · simp [hallow]

/-- What `a` is answered, in either hub. -/
theorem Alike.forward_answer (hl : Alike owner a b h h') (hab : a ≠ b) (hplaced : Placed owner h)
    (hno : h.isMutual a b = false) (hno' : h'.isMutual a b = false) {dest : String} {data : α}
    (hroom : Roomy size a h (.forward a conn dest data))
    (hroom' : Roomy size a h' (.forward a conn dest data)) :
    (h.forward size a conn dest data).2 = (h'.forward size a conn dest data).2 := by
  have hmutual := hl.isMutual_own hab hno hno' dest
  rw [forward_result, forward_result, hl.current hab, hmutual]
  cases hm : h.isMutual a dest with
  | false =>
    simp only [Bool.false_eq_true, if_false]
  | true =>
    -- The device named is not `b`, so both hubs know the same of it.
    have hdest : dest ≠ b := by
      rintro rfl
      rw [hno] at hm
      cases hm
    rw [← hl.peers dest hdest]
    cases htarget : h.peers[dest]? with
    | none => rfl
    | some target =>
      have hpush := push_roomy (hroom target htarget rfl hm)
      have hpush' := push_roomy
        (hroom' target ((hl.peers dest hdest).symm.trans htarget) rfl (hmutual.trans hm))
      have hdropped : (h.outboxes target.conn).dropped = (h'.outboxes target.conn).dropped := by
        refine hl.dropped target.conn ?_
        rw [hplaced dest target htarget]
        exact hdest
      simp only [hpush, hpush', hdropped]

/-- A call of a device that is not `b`, made in two hubs that are alike. -/
theorem shared_alike (hl : Alike owner a b h h') (hab : a ≠ b) (hplaced : Placed owner h)
    (hplaced' : Placed owner h') (hc : c.device ≠ b) (hown : c.Owned owner)
    (hno : h.isMutual a b = false) (hno' : h'.isMutual a b = false)
    (hafter : (h.after size walk c).isMutual a b = false)
    (hafter' : (h'.after size walk c).isMutual a b = false) :
    Alike owner a b (h.after size walk c) (h'.after size walk c) := by
  cases c with
  | register fp conn => exact hl.register hab hplaced hplaced' hc conn
  | unregister fp conn =>
    have hfp : fp ≠ b := hc
    show Alike owner a b (h.unregister size walk fp conn) (h'.unregister size walk fp conn)
    unfold Hub.unregister
    rw [hl.current hfp]
    split
    · exact hl.remove hab hplaced hplaced' hc
    · exact hl
  | setAllow fp conn fps =>
    exact hl.setAllow hab hplaced hplaced' hc conn fps hno hno' hafter hafter'
  | forward source conn dest data => exact hl.forward hab hplaced hplaced' hc conn dest data
  | canTurn source conn peer => exact hl
  | tryRecv fp conn =>
    have hdropped : ∀ o : Outbox α, (o.tryRecv size).dropped = o.dropped := by
      intro o
      unfold Outbox.tryRecv
      split <;> rfl
    refine hl.setOutbox ?_ ?_
    · intro howner
      rw [hl.outboxes conn howner]
    · intro howner
      rw [hdropped, hdropped]
      exact hl.dropped conn howner
  | hangUp fp conn =>
    refine hl.setOutbox ?_ (fun _ => rfl)
    intro howner
    rw [hl.outboxes conn howner]

/-! ### Calls of `b` -/

theorem remove_alike (hab : a ≠ b) (hplaced : Placed owner h) (hno : h.isMutual a b = false) :
    Alike owner a b h (h.remove size walk b) := by
  have hnone : (goneNotices walk b (h.mutualPeers b)).filter (fun n => n.dest = a) = [] := by
    rw [goneNotices_own, count_mutualPeers, isMutual_comm, hno]
    rfl
  have htold : Alike owner a b h (announce size h (goneNotices walk b (h.mutualPeers b))) :=
    announce_alike hab hplaced hnone
  rw [remove_eq]
  refine ⟨?_, htold.outboxes, htold.dropped⟩
  intro d hd
  simp only [getElem?_keyErase, if_neg (Ne.symm hd)]

/-- Whatever `b` calls, `a` sees nothing of it. -/
theorem hidden_alike (hab : a ≠ b) (hplaced : Placed owner h) (hc : c.device = b)
    (hown : c.Owned owner) (hno : h.isMutual a b = false)
    (hafter : (h.after size walk c).isMutual a b = false) :
    Alike owner a b h (h.after size walk c) := by
  -- An outbox of `b` itself.
  have hself : ∀ (g : Hub α) (conn : Nat) (o : Outbox α), owner conn = b →
      Alike owner a b g (g.setOutbox conn o) := by
    intro g conn o howner
    refine setOutbox_alike ?_ (fun hne => absurd howner hne)
    rw [howner]
    exact Ne.symm hab
  cases c with
  | register fp conn =>
    have hfp : fp = b := hc
    subst hfp
    have hreplaced : Alike owner a fp h (replaced size walk h fp) := by
      unfold replaced
      cases hold : h.peers[fp]? with
      | none => exact alike_refl h
      | some old =>
        have hclose := hself h old.conn ((h.outboxes old.conn).close closeReplaced
          "replaced by a newer connection") (hplaced fp old hold)
        exact hclose.trans (remove_alike (h := h.setOutbox _ _) hab hplaced hno)
    show Alike owner a fp h (h.register size walk fp conn)
    rw [register_eq]
    refine ⟨?_, hreplaced.outboxes, hreplaced.dropped⟩
    intro d hd
    simp only [getElem?_keyInsert, if_neg (Ne.symm hd)]
    exact hreplaced.peers d hd
  | unregister fp conn =>
    have hfp : fp = b := hc
    subst hfp
    show Alike owner a fp h (h.unregister size walk fp conn)
    unfold Hub.unregister
    split
    · exact remove_alike hab hplaced hno
    · exact alike_refl h
  | setAllow fp conn fps =>
    have hfp : fp = b := hc
    subst hfp
    have hafter' : (h.setAllow size walk fp conn fps).isMutual a fp = false := hafter
    show Alike owner a fp h (h.setAllow size walk fp conn fps)
    cases hcurrent : h.current fp conn with
    | none =>
      rw [Hub.setAllow, hcurrent]
      exact alike_refl h
    | some peer =>
      rw [setAllow_eq hcurrent] at hafter' ⊢
      have hnoW : (withAllow h fp peer fps).isMutual a fp = false := by
        rw [← hafter']
        exact (isMutual_congr (by rw [announce_peers]) (by rw [announce_peers])).symm
      have hwith : Alike owner a fp h (withAllow h fp peer fps) := by
        refine ⟨?_, fun _ _ => rfl, fun _ _ => rfl⟩
        intro d hd
        simp only [withAllow, getElem?_keyInsert, if_neg (Ne.symm hd)]
      refine hwith.trans (announce_alike hab
        (withAllow_placed hplaced (current_some hcurrent).1 fps) ?_)
      -- `a` is mutual with `b` neither before nor after.
      rw [allowNotices_own (Ne.symm hab), count_mutualPeers, count_mutualPeers, isMutual_comm, hnoW,
        isMutual_comm, hno]
      simp
  | forward source conn dest data =>
    have hsource : source = b := hc
    subst hsource
    show Alike owner a source h (h.forward size source conn dest data).1
    rcases @forward_cases _ size h source conn dest data with heq | ⟨target, htarget, hm, heq⟩
    · rw [heq]
      exact alike_refl h
    · rw [heq]
      refine setOutbox_alike ?_ (fun _ => push_dropped _ _ _)
      rw [hplaced dest target htarget]
      rintro rfl
      rw [isMutual_comm, hno] at hm
      cases hm
  | canTurn source conn peer => exact alike_refl h
  | tryRecv fp conn => exact hself h conn _ (hown.trans hc)
  | hangUp fp conn => exact hself h conn _ (hown.trans hc)

/-! ### Two runs -/

/-- What the hub answers to `a`. -/
def answered (size : ServerMessage α → Nat) (a : String) (h : Hub α) (c : Call α) :
    Option Hub.Answer := if c.device = a then h.answer size c else none

/-- A device that is not mutual cannot be probed. Take two runs that differ
in the calls of `b` only, in which `a` and `b` are never mutual and what
`a` forwards finds room. Then the connections of `a` receive the same, and
every call of `a` is answered the same. -/
theorem probe_blind (size : ServerMessage α → Nat) (walk : Iteration) (owner : Nat → String)
    {a b : String} (hab : a ≠ b) {r₁ r₂ : List (Call α)}
    (hsame : r₁.filter (fun c => !decide (c.device = b)) = r₂.filter (fun c => !decide (c.device = b)))
    (hown₁ : ∀ c ∈ r₁, c.Owned owner) (hown₂ : ∀ c ∈ r₂, c.Owned owner)
    (hno₁ : Lib.AllAlong (Hub.after size walk) (fun g => g.isMutual a b = false) {} r₁)
    (hno₂ : Lib.AllAlong (Hub.after size walk) (fun g => g.isMutual a b = false) {} r₂)
    (hroom₁ : Lib.Alongside (Hub.after size walk) (Roomy size a) {} r₁)
    (hroom₂ : Lib.Alongside (Hub.after size walk) (Roomy size a) {} r₂) :
    (∀ conn, owner conn = a →
      (Hub.run size walk {} r₁).outboxes conn = (Hub.run size walk {} r₂).outboxes conn) ∧
    Lib.watched (Hub.after size walk) (answered size a) {} r₁
      = Lib.watched (Hub.after size walk) (answered size a) {} r₂ := by
  have hplaced : Placed owner ({} : Hub α) := by
    intro d p hp
    simp at hp
  have hend := @Lib.unwinding _ _ _ (Hub.after size walk)
    (fun g g' => Alike owner a b g g' ∧ Placed owner g ∧ Placed owner g') _
    (fun c => decide (c.device = b)) (answered size a) ?_ ?_ ?_ ?_ r₁ r₂ {} {}
    ⟨alike_refl {}, hplaced, hplaced⟩ (hroom₁.and_allAlong hno₁ hown₁)
    (hroom₂.and_allAlong hno₂ hown₂) hsame
  · exact ⟨hend.1.1.outboxes, hend.2⟩
  · rintro g g' c ⟨hl, hg, hg'⟩ ⟨hown, hno, hafter, -⟩ hc
    exact ⟨(hidden_alike hab hg (of_decide_eq_true hc) hown hno hafter).symm.trans hl,
      after_placed hg hown, hg'⟩
  · rintro g g' c ⟨hl, hg, hg'⟩ ⟨hown, hno, hafter, -⟩ hc
    exact ⟨hl.trans (hidden_alike hab hg' (of_decide_eq_true hc) hown hno hafter),
      hg, after_placed hg' hown⟩
  · intro g c hc
    have hdevice : c.device ≠ a := (of_decide_eq_true hc).trans_ne (Ne.symm hab)
    rw [answered, if_neg hdevice]
  · rintro g g' c ⟨hl, hg, hg'⟩ ⟨hown, hno, hafter, hroom⟩ ⟨-, hno', hafter', hroom'⟩ hc
    have hdevice : c.device ≠ b := of_decide_eq_false hc
    refine ⟨⟨shared_alike hl hab hg hg' hdevice hown hno hno' hafter hafter',
      after_placed hg hown, after_placed hg' hown⟩, ?_⟩
    unfold answered
    split
    · rename_i hcaller
      cases c with
      | forward source conn dest data =>
        have hsource : source = a := hcaller
        subst hsource
        show some (Hub.Answer.forwarded _) = some (Hub.Answer.forwarded _)
        rw [hl.forward_answer hab hg hno hno' hroom hroom']
      | canTurn source conn peer =>
        have hsource : source = a := hcaller
        subst hsource
        show some (Hub.Answer.turn _) = some (Hub.Answer.turn _)
        rw [Hub.canTurn, Hub.canTurn, hl.current hab, hl.isMutual_own hab hno hno']
      | register fp conn => rfl
      | unregister fp conn => rfl
      | setAllow fp conn fps => rfl
      | tryRecv fp conn => rfl
      | hangUp fp conn => rfl
    · rfl

/-- `A` allows `B`, who joins and talks to `C` in one of the runs only. `A`
is told that `B` is offline in both, and reaches `C`. -/
theorem probe_blind_joined :
    Lib.watched (Hub.after (fun _ => 40) Iteration.stored) (answered (fun _ => 40) "A") {}
        [.register "A" 1, .register "C" 3, .setAllow "A" 1 ["B", "C"], .setAllow "C" 3 ["A", "B"],
          .forward "A" 1 "B" (), .forward "A" 1 "C" ()]
      = [.forwarded (.error .offline), .forwarded (.ok ())] ∧
    Lib.watched (Hub.after (fun _ => 40) Iteration.stored) (answered (fun _ => 40) "A") {}
        [.register "A" 1, .register "C" 3, .setAllow "A" 1 ["B", "C"], .setAllow "C" 3 ["A", "B"],
          .forward "A" 1 "B" (), .forward "A" 1 "C" ()]
      = Lib.watched (Hub.after (fun _ => 40) Iteration.stored) (answered (fun _ => 40) "A") {}
        [.register "A" 1, .register "B" 2, .register "C" 3, .setAllow "B" 2 ["C"],
          .setAllow "A" 1 ["B", "C"], .setAllow "C" 3 ["A", "B"], .forward "B" 2 "C" (),
          .forward "A" 1 "B" (), .forward "A" 1 "C" ()] := by
  refine ⟨by decide +kernel, ?_⟩
  exact (probe_blind (fun _ => 40) Iteration.stored
    (fun conn => if conn = 1 then "A" else if conn = 2 then "B" else "C") (b := "B") (by decide)
    rfl (by decide) (by decide) (by decide +kernel) (by decide +kernel) (by decide +kernel)
    (by decide +kernel)).2

end DeskLink.Relay
