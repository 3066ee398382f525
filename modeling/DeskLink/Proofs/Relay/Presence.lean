import DeskLink.Relay.Hub

/-!
# `DeskLink.Proofs.Relay.Presence`: presence frames tell the truth

`heard h conn x` are the presence frames about `x` that were put into the
outbox of the connection `conn`. `Accurate` says of every device online
whose outbox did not overflow that these alternate, beginning with online,
and that the last says online exactly when the two are mutual.

* `announce_heard`: what a loop of `presence` calls adds to an outbox.
* `remove_told` and `setAllow_told`: each operation tells every device
  exactly the change (`Told`).
* `presence_accurate`: the run.
-/

set_option autoImplicit false

namespace DeskLink.Relay

variable {α : Type} {size : ServerMessage α → Nat} {walk : Iteration} {d fp x a b : String}
variable {h h' : Hub α} {p peer : Peer} {l : List String} {conn : Nat} {used : List Nat}
variable {calls : List (Call α)} {o : Outbox α} {frames : List Bool} {m : Bool}

/-! ### What was heard -/

/-- The presence frame about `x`, if it is one. -/
def Outbound.about (x : String) : Outbound α → Option Bool
  | .frame (.presence fp online) => if fp = x then some online else none
  | .frame (.msg ..) | .close .. => none

/-- The presence frames about `x` put into the outbox of `conn`. -/
def heard (h : Hub α) (conn : Nat) (x : String) : List Bool :=
  (h.outboxes conn).sent.filterMap (Outbound.about x)

/-- A control frame did not fit. -/
def Overflowed (h : Hub α) (conn : Nat) : Prop :=
  Outbound.close closeRateLimited "too far behind" ∈ (h.outboxes conn).sent

instance Overflowed.decidable [DecidableEq α] (h : Hub α) (conn : Nat) :
    Decidable (Overflowed h conn) :=
  inferInstanceAs (Decidable (_ ∈ (h.outboxes conn).sent))

/-- One presence frame to be sent: to whom, about whom, and what it says. -/
structure Notice where
  dest : String
  about : String
  online : Bool

/-- The notices go out one after the other. -/
def announce (size : ServerMessage α → Nat) (h : Hub α) (notices : List Notice) : Hub α :=
  notices.foldl (fun h n => h.presence size n.dest n.about n.online) h

/-- What `notices` say to `d` about `x`. -/
def spoken (notices : List Notice) (d x : String) : List Bool :=
  (notices.filter (fun n => n.dest = d ∧ n.about = x)).map (·.online)

theorem spoken_append (a b : List Notice) (d x : String) :
    spoken (a ++ b) d x = spoken a d x ++ spoken b d x := by
  simp [spoken]

@[simp] theorem presence_peers (h : Hub α) (d x : String) (online : Bool) :
    (h.presence size d x online).peers = h.peers := by
  unfold Hub.presence
  split <;> rfl

@[simp] theorem announce_peers (h : Hub α) (notices : List Notice) :
    (announce size h notices).peers = h.peers := by
  induction notices generalizing h with
  | nil => rfl
  | cons n notices ih =>
    show (announce size (h.presence size n.dest n.about n.online) notices).peers = _
    rw [ih, presence_peers]

/-- Each connection is one device's. -/
def OwnConns (h : Hub α) : Prop :=
  ∀ (d e : String) (p q : Peer), h.peers[d]? = some p → h.peers[e]? = some q →
    p.conn = q.conn → d = e

variable (size) in
/-- What `push` puts in: the control frame or the close. -/
theorem push_control (o : Outbox α) (message : ServerMessage α) :
    (o.push size message false).1.sent = o.sent ++ [.frame message] ∨
      (o.push size message false).1.sent
        = o.sent ++ [.close closeRateLimited "too far behind"] := by
  unfold Outbox.push
  simp only [Bool.false_and, Bool.false_eq_true, if_false]
  split
  · exact Or.inr rfl
  · exact Or.inl rfl

theorem presence_outbox (hd : h.peers[d]? = some p) (x : String) (online : Bool) (conn : Nat) :
    (h.presence size d x online).outboxes conn =
      if conn = p.conn then ((h.outboxes p.conn).push size (.presence x online) false).1
      else h.outboxes conn := by
  unfold Hub.presence
  rw [hd]
  simp only [Hub.setOutbox, Function.update_apply]

/-- What is in an outbox stays. -/
theorem presence_keeps_sent (h : Hub α) (d x : String) (online : Bool) (conn : Nat) :
    (h.outboxes conn).sent <+: ((h.presence size d x online).outboxes conn).sent := by
  cases hd : h.peers[d]? with
  | none =>
    rw [Hub.presence, hd]
  | some p =>
    rw [presence_outbox hd]
    split
    · rename_i hconn
      subst hconn
      rcases push_control size (h.outboxes p.conn) (.presence x online) with heq | heq
      · rw [heq]
        exact List.prefix_append _ _
      · rw [heq]
        exact List.prefix_append _ _
    · exact List.prefix_refl _

theorem announce_keeps_sent (h : Hub α) (notices : List Notice) (conn : Nat) :
    (h.outboxes conn).sent <+: ((announce size h notices).outboxes conn).sent := by
  induction notices generalizing h with
  | nil => exact List.prefix_refl _
  | cons n notices ih => exact (presence_keeps_sent h _ _ _ conn).trans (ih _)

/-- One notice: the device it is for hears it, and no other does. -/
theorem presence_heard (hown : OwnConns h) (hd : h.peers[d]? = some p) (n : Notice) (x : String)
    (hroom : ¬Overflowed (h.presence size n.dest n.about n.online) p.conn) :
    heard (h.presence size n.dest n.about n.online) p.conn x
      = heard h p.conn x ++ if n.dest = d ∧ n.about = x then [n.online] else [] := by
  cases hn : h.peers[n.dest]? with
  | none =>
    have hne : n.dest ≠ d := by
      rintro rfl
      rw [hd] at hn
      cases hn
    rw [if_neg (fun h => hne h.1), List.append_nil, Hub.presence, hn]
  | some q =>
    rw [heard, heard, presence_outbox hn]
    by_cases hconn : p.conn = q.conn
    · have hdest := hown d n.dest p q hd hn hconn
      rw [if_pos hconn, ← hconn]
      rcases push_control size (h.outboxes p.conn) (.presence n.about n.online)
        with heq | heq
      · rw [heq, List.filterMap_append]
        congr 1
        by_cases hx : n.about = x
        · simp [Outbound.about, hdest, hx]
        · simp [Outbound.about, hx]
      · -- The frame did not fit: the outbox overflowed.
        refine absurd ?_ hroom
        rw [Overflowed, presence_outbox hn, if_pos hconn, ← hconn, heq]
        exact List.mem_append_right _ (List.mem_singleton_self _)
    · have hne : n.dest ≠ d := by
        rintro rfl
        rw [hd] at hn
        cases hn
        exact hconn rfl
      rw [if_neg hconn, if_neg (fun h => hne h.1), List.append_nil]

/-- A loop of notices: each device hears what is said to it. -/
theorem announce_heard (hown : OwnConns h) (hd : h.peers[d]? = some p) (notices : List Notice)
    (x : String) (hroom : ¬Overflowed (announce size h notices) p.conn) :
    heard (announce size h notices) p.conn x = heard h p.conn x ++ spoken notices d x := by
  induction notices generalizing h with
  | nil =>
    rw [spoken, List.filter_nil, List.map_nil, List.append_nil]
    rfl
  | cons n notices ih =>
    have hfirst : ¬Overflowed (h.presence size n.dest n.about n.online) p.conn := by
      intro hover
      exact hroom ((announce_keeps_sent _ notices p.conn).subset hover)
    have hown' : OwnConns (h.presence size n.dest n.about n.online) := by
      intro a b q r ha hb
      rw [presence_peers] at ha hb
      exact hown a b q r ha hb
    have hrest := ih (h := h.presence size n.dest n.about n.online) hown'
      (by rw [presence_peers]; exact hd) hroom
    show heard (announce size (h.presence size n.dest n.about n.online) notices) p.conn x = _
    rw [hrest, presence_heard hown hd n x hfirst, List.append_assoc]
    congr 1
    by_cases hn : n.dest = d ∧ n.about = x
    · simp [spoken, hn]
    · simp [spoken, hn]

/-! ### Mutual devices -/

theorem isMutual_comm (h : Hub α) (a b : String) : h.isMutual a b = h.isMutual b a := by
  unfold Hub.isMutual
  cases h.peers[a]? <;> cases h.peers[b]? <;> simp only []
  rename_i pa pb
  rw [Bool.eq_iff_iff]
  simp only [Bool.and_eq_true, bne_iff_ne]
  constructor
  · rintro ⟨⟨hne, hab⟩, hba⟩
    exact ⟨⟨Ne.symm hne, hba⟩, hab⟩
  · rintro ⟨⟨hne, hab⟩, hba⟩
    exact ⟨⟨Ne.symm hne, hba⟩, hab⟩

theorem isMutual_self (h : Hub α) (a : String) : h.isMutual a a = false := by
  unfold Hub.isMutual
  cases h.peers[a]? <;> simp

/-- Mutual devices are both online. -/
theorem isMutual_online (hm : h.isMutual a b = true) : ∃ p, h.peers[a]? = some p ∧ b ∈ p.allow := by
  unfold Hub.isMutual at hm
  split at hm
  · rename_i pa pb ha hb
    simp only [Bool.and_eq_true, List.contains_iff_mem] at hm
    exact ⟨pa, ha, hm.1.2⟩
  · cases hm

theorem mem_mutualPeers : x ∈ h.mutualPeers fp ↔ h.isMutual fp x = true := by
  unfold Hub.mutualPeers
  constructor
  · intro hx
    cases hp : h.peers[fp]? with
    | none =>
      rw [hp] at hx
      cases hx
    | some p =>
      rw [hp] at hx
      exact (List.mem_filter.mp hx).2
  · intro hm
    obtain ⟨p, hp, hx⟩ := isMutual_online hm
    rw [hp]
    exact List.mem_filter.mpr ⟨hx, hm⟩

/-- Whether two devices are mutual depends on their own entries only. -/
theorem isMutual_congr (ha : h'.peers[a]? = h.peers[a]?) (hb : h'.peers[b]? = h.peers[b]?) :
    h'.isMutual a b = h.isMutual a b := by
  unfold Hub.isMutual
  rw [ha, hb]

theorem mem_order : x ∈ walk.order l ↔ x ∈ l :=
  (walk.perm l).mem_iff

/-! ### Notices of an operation -/

/-- A device is told of `fp` going. -/
theorem spoken_gone (hl : l.Nodup) (fp d x : String) :
    spoken (l.map (fun peer => ⟨peer, fp, false⟩)) d x
      = if d ∈ l ∧ x = fp then [false] else [] := by
  induction l with
  | nil => simp [spoken]
  | cons a l ih =>
    rw [List.nodup_cons] at hl
    rw [List.map_cons, ← List.singleton_append, spoken_append, ih hl.2]
    by_cases hx : x = fp
    · by_cases hd : d = a
      · subst hd
        simp [spoken, hx, hl.1]
      · simp [spoken, hx, hd, Ne.symm hd]
    · simp [spoken, hx, Ne.symm hx]

/-- The two sides of each pair are told. -/
theorem spoken_pairs (hl : l.Nodup) (hfp : fp ∉ l) (b : Bool) (d x : String) :
    spoken (l.flatMap (fun y => [⟨fp, y, b⟩, ⟨y, fp, b⟩])) d x
      = if (d = fp ∧ x ∈ l) ∨ (x = fp ∧ d ∈ l) then [b] else [] := by
  induction l with
  | nil => simp [spoken]
  | cons a l ih =>
    rw [List.nodup_cons] at hl
    rw [List.mem_cons, not_or] at hfp
    rw [List.flatMap_cons, spoken_append, ih hl.2 hfp.2]
    by_cases hd : d = fp
    · subst hd
      by_cases hx : x = a
      · subst hx
        simp [spoken, hl.1, hfp, Ne.symm hfp.1]
      · simp [spoken, hx, Ne.symm hx, hfp, Ne.symm hfp.1]
    · by_cases hx : x = fp
      · subst hx
        by_cases hda : d = a
        · subst hda
          simp [spoken, hd, Ne.symm hd, hl.1]
        · simp [spoken, hd, Ne.symm hd, hda, Ne.symm hda]
      · simp [spoken, hd, Ne.symm hd, hx, Ne.symm hx]

/-! ### What each operation tells -/

/-- Allow sets are without repeats. -/
def AllowSets (h : Hub α) : Prop :=
  ∀ (d : String) (p : Peer), h.peers[d]? = some p → p.allow.Nodup

theorem mutualPeers_nodup (hallow : AllowSets h) (fp : String) : (h.mutualPeers fp).Nodup := by
  unfold Hub.mutualPeers
  cases hp : h.peers[fp]? with
  | none => exact List.nodup_nil
  | some p => exact (hallow fp p hp).filter _

/-- A frame for each device and `x`, when and only when they become mutual
or stop being so. -/
def change (before after : Bool) : List Bool :=
  match before, after with
  | false, true => [true]
  | true, false => [false]
  | _, _ => []

/-- Every device that keeps its connection and its room is told exactly
what changes for it. -/
def Told (h h' : Hub α) : Prop :=
  ∀ (d x : String) (p q : Peer), h.peers[d]? = some p → h'.peers[d]? = some q → p.conn = q.conn →
    ¬Overflowed h' p.conn →
    heard h' p.conn x = heard h p.conn x ++ change (h.isMutual d x) (h'.isMutual d x)

/-- The notices of `remove`. -/
def goneNotices (walk : Iteration) (fp : String) (peers : List String) : List Notice :=
  (walk.order peers).map (fun peer => ⟨peer, fp, false⟩)

theorem remove_eq (h : Hub α) (fp : String) :
    h.remove size walk fp =
      { announce size h (goneNotices walk fp (h.mutualPeers fp)) with peers := h.peers.erase fp } := by
  have hannounce : (walk.order (h.mutualPeers fp)).foldl
      (fun h peer => h.presence size peer fp false) h
        = announce size h (goneNotices walk fp (h.mutualPeers fp)) := by
    rw [announce, goneNotices, List.foldl_map]
  unfold Hub.remove
  simp only [hannounce, announce_peers]

/-- `fp` leaves. -/
theorem remove_told {h : Hub α} (hown : OwnConns h) (hallow : AllowSets h) (fp : String) :
    Told h (h.remove size walk fp) ∧
      (h.remove size walk fp).peers = h.peers.erase fp := by
  have hpeers : (h.remove size walk fp).peers = h.peers.erase fp := by
    rw [remove_eq]
  refine ⟨?_, hpeers⟩
  intro d x p q hd hq _ hroom
  rw [hpeers, getElem?_keyErase] at hq
  split at hq
  · cases hq
  · rename_i hne
    have hsent : (h.remove size walk fp).outboxes
        = (announce size h (goneNotices walk fp (h.mutualPeers fp))).outboxes := by
      rw [remove_eq]
    have hnodup : (walk.order (h.mutualPeers fp)).Nodup :=
      (walk.perm _).nodup_iff.mpr (mutualPeers_nodup hallow fp)
    have hroom' : ¬Overflowed (announce size h (goneNotices walk fp (h.mutualPeers fp))) p.conn := by
      rw [Overflowed, ← hsent]
      exact hroom
    have hheard := announce_heard hown hd _ x hroom'
    rw [heard, ← hsent] at hheard
    rw [heard, hheard, goneNotices, spoken_gone hnodup]
    congr 1
    by_cases hx : x = fp
    · -- `fp` is not mutual with anyone any more.
      subst hx
      have hafter : (h.remove size walk x).isMutual d x = false := by
        cases hm : (h.remove size walk x).isMutual d x with
        | false => rfl
        | true =>
          rw [isMutual_comm] at hm
          obtain ⟨r, hr, -⟩ := isMutual_online hm
          rw [hpeers, getElem?_keyErase, if_pos rfl] at hr
          cases hr
      have hmem : d ∈ walk.order (h.mutualPeers x) ↔ h.isMutual d x = true := by
        rw [mem_order, mem_mutualPeers, isMutual_comm]
      cases hbefore : h.isMutual d x with
      | false =>
        rw [hafter, if_neg]
        · rfl
        · rintro ⟨hin, -⟩
          rw [hmem, hbefore] at hin
          cases hin
      | true =>
        rw [hafter, if_pos ⟨hmem.mpr hbefore, rfl⟩]
        rfl
    · have hsame : (h.remove size walk fp).isMutual d x = h.isMutual d x := by
        apply isMutual_congr
        · rw [hpeers, getElem?_keyErase, if_neg hne]
        · rw [hpeers, getElem?_keyErase, if_neg (Ne.symm hx)]
      rw [hsame, if_neg (fun h => hx h.2)]
      cases h.isMutual d x <;> rfl

/-- The hub with the allow set of `fp` replaced, and nobody told yet. -/
def withAllow (h : Hub α) (fp : String) (peer : Peer) (fps : List String) : Hub α :=
  { h with peers := h.peers.insert fp { peer with allow := (fps.filter (· ≠ fp)).dedup } }

/-- The notices of `set_allow`. -/
def allowNotices (walk : Iteration) (fp : String) (before after : List String) : List Notice :=
  ((walk.order after).filter (fun x => !before.contains x)).flatMap
      (fun y => [⟨fp, y, true⟩, ⟨y, fp, true⟩])
    ++ ((walk.order before).filter (fun x => !after.contains x)).flatMap
      (fun y => [⟨fp, y, false⟩, ⟨y, fp, false⟩])

theorem announce_append (h : Hub α) (a b : List Notice) :
    announce size h (a ++ b) = announce size (announce size h a) b := List.foldl_append

theorem announce_pairs (h : Hub α) (l : List String) (fp : String) (b : Bool) :
    l.foldl (fun h y => (h.presence size fp y b).presence size y fp b) h
      = announce size h (l.flatMap (fun y => [⟨fp, y, b⟩, ⟨y, fp, b⟩])) := by
  induction l generalizing h with
  | nil => rfl
  | cons y l ih =>
    rw [List.foldl_cons, ih, List.flatMap_cons, announce_append]
    rfl

theorem setAllow_eq (hcurrent : h.current fp conn = some peer) (fps : List String) :
    h.setAllow size walk fp conn fps = announce size (withAllow h fp peer fps)
      (allowNotices walk fp (h.mutualPeers fp) ((withAllow h fp peer fps).mutualPeers fp)) := by
  unfold Hub.setAllow
  rw [hcurrent]
  simp only
  rw [announce_pairs, announce_pairs, ← announce_append]
  rfl

/-- What the notices of `set_allow` say to `d` about `x`. -/
theorem spoken_allowNotices {before after : List String} (hbefore : before.Nodup)
    (hafter : after.Nodup) (hb : fp ∉ before) (ha : fp ∉ after) (d x : String) :
    spoken (allowNotices walk fp before after) d x =
      if d = fp then change (decide (x ∈ before)) (decide (x ∈ after))
      else if x = fp then change (decide (d ∈ before)) (decide (d ∈ after)) else [] := by
  have hmem : ∀ {l l' : List String} {y : String},
      y ∈ (walk.order l).filter (fun z => !l'.contains z) ↔ y ∈ l ∧ y ∉ l' := by
    intro l l' y
    simp [mem_order]
  have hnodup : ∀ {l l' : List String}, l.Nodup →
      ((walk.order l).filter (fun z => !l'.contains z)).Nodup := by
    intro l l' hl
    exact ((walk.perm l).nodup_iff.mpr hl).filter _
  unfold allowNotices
  rw [spoken_append, spoken_pairs (hnodup hafter) (fun h => ha (hmem.mp h).1),
    spoken_pairs (hnodup hbefore) (fun h => hb (hmem.mp h).1)]
  simp only [hmem]
  by_cases hd : d = fp
  · subst hd
    by_cases hx : x = d
    · subst hx
      simp [ha, hb, change]
    · by_cases h1 : x ∈ before <;> by_cases h2 : x ∈ after <;> simp [hx, h1, h2, change]
  · by_cases hx : x = fp
    · subst hx
      by_cases h1 : d ∈ before <;> by_cases h2 : d ∈ after <;> simp [hd, h1, h2, change]
    · simp [hd, hx]

theorem current_some (hcurrent : h.current fp conn = some peer) :
    h.peers[fp]? = some peer ∧ peer.conn = conn := by
  unfold Hub.current at hcurrent
  rw [Option.filter_eq_some_iff] at hcurrent
  simpa using hcurrent

/-- The allow set of `fp` is replaced. -/
theorem setAllow_told {h : Hub α} (hown : OwnConns h) (hallow : AllowSets h) {fp : String}
    {conn : Nat} {peer : Peer} (hcurrent : h.current fp conn = some peer) (fps : List String) :
    Told h (h.setAllow size walk fp conn fps) ∧
      (h.setAllow size walk fp conn fps).peers = (withAllow h fp peer fps).peers := by
  obtain ⟨hpeer, hconn⟩ := current_some hcurrent
  rw [setAllow_eq hcurrent fps]
  generalize hk : withAllow h fp peer fps = k
  have hlook : ∀ d : String, k.peers[d]?
      = if fp = d then some { peer with allow := (fps.filter (· ≠ fp)).dedup } else h.peers[d]? := by
    intro d
    rw [← hk]
    exact getElem?_keyInsert _ _ _ _
  have hownK : OwnConns k := by
    intro d e p q hd he heq
    rw [hlook] at hd he
    have hconnOf : ∀ (a : String) (r : Peer), (if fp = a then
        some { peer with allow := (fps.filter (· ≠ fp)).dedup } else h.peers[a]?) = some r →
        ∃ r', h.peers[a]? = some r' ∧ r'.conn = r.conn := by
      intro a r hr
      split at hr
      · rename_i hfp
        subst hfp
        rw [← Option.some.inj hr]
        exact ⟨peer, hpeer, rfl⟩
      · exact ⟨r, hr, rfl⟩
    obtain ⟨p', hp', hpc⟩ := hconnOf d p hd
    obtain ⟨q', hq', hqc⟩ := hconnOf e q he
    exact hown d e p' q' hp' hq' (by omega)
  have hallowK : AllowSets k := by
    intro d p hd
    rw [hlook] at hd
    split at hd
    · rw [← Option.some.inj hd]
      exact List.nodup_dedup _
    · exact hallow d p hd
  have hself : ∀ g : Hub α, fp ∉ g.mutualPeers fp := by
    intro g hfp
    rw [mem_mutualPeers, isMutual_self] at hfp
    cases hfp
  refine ⟨?_, announce_peers _ _⟩
  intro d x p q hd hq hpq hroom
  rw [announce_peers] at hq
  rw [hpq] at hroom ⊢
  rw [announce_heard hownK hq _ x hroom]
  have hheard : heard k q.conn x = heard h q.conn x := by
    rw [← hk]
    rfl
  rw [hheard]
  congr 1
  rw [spoken_allowNotices (mutualPeers_nodup hallow fp) (mutualPeers_nodup hallowK fp)
    (hself h) (hself k)]
  have hmutual : (announce size k (allowNotices walk fp (h.mutualPeers fp)
      (k.mutualPeers fp))).isMutual d x = k.isMutual d x := by
    apply isMutual_congr <;> rw [announce_peers]
  have hdecide : ∀ (g : Hub α) (y : String), decide (y ∈ g.mutualPeers fp) = g.isMutual fp y := by
    intro g y
    rw [Bool.eq_iff_iff, decide_eq_true_iff, mem_mutualPeers]
  rw [hmutual, hdecide, hdecide, hdecide, hdecide]
  by_cases hdfp : d = fp
  · subst hdfp
    rw [if_pos rfl]
  · rw [if_neg hdfp]
    by_cases hxfp : x = fp
    · subst hxfp
      rw [if_pos rfl, isMutual_comm h d x, isMutual_comm k d x]
    · have hsame : k.isMutual d x = h.isMutual d x := by
        apply isMutual_congr
        · rw [hlook, if_neg (Ne.symm hdfp)]
        · rw [hlook, if_neg (Ne.symm hxfp)]
      rw [if_neg hxfp, hsame]
      cases h.isMutual d x <;> rfl

/-! ### Every call -/

/-- The connections that `calls` register. -/
def registered (calls : List (Call α)) : List Nat :=
  calls.filterMap (fun c => match c with
    | .register _ conn => some conn
    | .unregister .. | .setAllow .. | .forward .. | .canTurn .. | .tryRecv .. | .hangUp .. => none)

/-- Each connection of a device online is its own and was registered;
nothing was put into the outbox of one that was not. -/
structure Wired (used : List Nat) (h : Hub α) : Prop where
  own : OwnConns h
  allow : AllowSets h
  conns : ∀ (d : String) (p : Peer), h.peers[d]? = some p → p.conn ∈ used
  unused : ∀ conn, conn ∉ used → (h.outboxes conn).sent = []

/-- What a call does: devices that stay on their connection are told the
change, and one that comes on a new connection finds its outbox empty. -/
structure Moved (h h' : Hub α) : Prop where
  told : Told h h'
  sent : ∀ conn, (h.outboxes conn).sent <+: (h'.outboxes conn).sent
  arrived : ∀ (d : String) (q : Peer), h'.peers[d]? = some q →
    (∃ p, h.peers[d]? = some p ∧ p.conn = q.conn) ∨
      ((h'.outboxes q.conn).sent = [] ∧ ∀ x, h'.isMutual d x = false)

theorem change_self (b : Bool) : change b b = [] := by cases b <;> rfl

/-- Only outboxes change, and no presence frame is put in. -/
theorem moved_outboxes (hpeers : h'.peers = h.peers)
    (hsent : ∀ conn, ∃ more, (h'.outboxes conn).sent = (h.outboxes conn).sent ++ more ∧
      ∀ x, more.filterMap (Outbound.about x) = []) : Moved h h' := by
  refine ⟨?_, ?_, ?_⟩
  · intro d x p q _ _ _ _
    obtain ⟨more, hmore, hnone⟩ := hsent p.conn
    have hsame : h'.isMutual d x = h.isMutual d x := by
      apply isMutual_congr <;> rw [hpeers]
    rw [hsame, change_self, List.append_nil, heard, hmore, List.filterMap_append, hnone,
      List.append_nil]
    rfl
  · intro conn
    obtain ⟨more, hmore, -⟩ := hsent conn
    exact ⟨more, hmore.symm⟩
  · intro d q hq
    rw [hpeers] at hq
    exact Or.inl ⟨q, hq, rfl⟩

theorem moved_refl (h : Hub α) : Moved h h := by
  refine moved_outboxes rfl (fun conn => ⟨[], ?_, ?_⟩) <;> simp

theorem remove_keeps_sent (h : Hub α) (fp : String) (conn : Nat) :
    (h.outboxes conn).sent <+: ((h.remove size walk fp).outboxes conn).sent := by
  rw [remove_eq]
  exact announce_keeps_sent h _ conn

theorem remove_moved {h : Hub α} (hown : OwnConns h) (hallow : AllowSets h) (fp : String) :
    Moved h (h.remove size walk fp) := by
  obtain ⟨htold, hpeers⟩ := @remove_told _ size walk _ hown hallow fp
  refine ⟨htold, remove_keeps_sent h fp, ?_⟩
  intro d q hq
  rw [hpeers, getElem?_keyErase] at hq
  split at hq
  · cases hq
  · exact Or.inl ⟨q, hq, rfl⟩

theorem setAllow_moved (hown : OwnConns h) (hallow : AllowSets h) (fp : String) (conn : Nat)
    (fps : List String) : Moved h (h.setAllow size walk fp conn fps) := by
  cases hcurrent : h.current fp conn with
  | none =>
    rw [Hub.setAllow, hcurrent]
    exact moved_refl h
  | some peer =>
    obtain ⟨hpeer, -⟩ := current_some hcurrent
    obtain ⟨htold, hpeers⟩ := @setAllow_told _ size walk _ hown hallow _ _ _ hcurrent fps
    refine ⟨htold, ?_, ?_⟩
    · intro c
      rw [setAllow_eq hcurrent fps]
      exact announce_keeps_sent (withAllow h fp peer fps) _ c
    · intro d q hq
      rw [hpeers] at hq
      have hq' : (h.peers.insert fp { peer with allow := (fps.filter (· ≠ fp)).dedup })[d]?
          = some q := hq
      rw [getElem?_keyInsert] at hq'
      split at hq'
      · rename_i hfp
        subst hfp
        rw [← Option.some.inj hq']
        exact Or.inl ⟨peer, hpeer, rfl⟩
      · exact Or.inl ⟨q, hq', rfl⟩

/-- A new entry allows nobody. -/
theorem insert_isMutual_new (h : Hub α) (fp : String) (conn : Nat) (x : String) :
    Hub.isMutual { h with peers := h.peers.insert fp ⟨conn, []⟩ } fp x = false := by
  cases hm : Hub.isMutual { h with peers := h.peers.insert fp ⟨conn, []⟩ } fp x with
  | false => rfl
  | true =>
    obtain ⟨p, hp, hx⟩ := isMutual_online hm
    simp only [getElem?_keyInsert, if_true] at hp
    rw [← Option.some.inj hp] at hx
    cases hx

/-- A device that comes online is mutual with nobody, as it was before. -/
theorem insert_isMutual (hgone : h.peers[fp]? = none) (d x : String) :
    Hub.isMutual { h with peers := h.peers.insert fp ⟨conn, []⟩ } d x
      = h.isMutual d x := by
  have hold : ∀ y, h.isMutual fp y = false := by
    intro y
    cases hm : h.isMutual fp y with
    | false => rfl
    | true =>
      obtain ⟨p, hp, -⟩ := isMutual_online hm
      rw [hgone] at hp
      cases hp
  by_cases hd : fp = d
  · subst hd
    rw [insert_isMutual_new, hold]
  · by_cases hx : fp = x
    · subst hx
      rw [isMutual_comm, insert_isMutual_new, isMutual_comm, hold]
    · apply isMutual_congr
      · exact (getElem?_keyInsert _ _ _ _).trans (if_neg hd)
      · exact (getElem?_keyInsert _ _ _ _).trans (if_neg hx)

/-- A new entry for `fp`, which was offline, allows nobody. -/
theorem insert_moved (hgone : h.peers[fp]? = none) (hempty : (h.outboxes conn).sent = []) :
    Moved h { h with peers := h.peers.insert fp ⟨conn, []⟩ } := by
  refine ⟨?_, fun c => List.prefix_refl _, ?_⟩
  · intro d x p q _ _ _ _
    rw [insert_isMutual hgone, change_self, List.append_nil]
    rfl
  · intro d q hq
    simp only [getElem?_keyInsert] at hq
    split at hq
    · rename_i hfp
      subst hfp
      rw [← Option.some.inj hq]
      exact Or.inr ⟨hempty, insert_isMutual_new h fp conn⟩
    · exact Or.inl ⟨q, hq, rfl⟩

/-- One move after another, when the first keeps every device in place
that the second finds. -/
theorem Moved.trans {a b c : Hub α} (h : Moved a b) (h' : Moved b c)
    (hstay : ∀ (d : String) (q : Peer), b.peers[d]? = some q →
      ∃ p, a.peers[d]? = some p ∧ p.conn = q.conn)
    (hmiss : ∀ (d : String) (p r : Peer), a.peers[d]? = some p → c.peers[d]? = some r →
      p.conn = r.conn → ∃ q, b.peers[d]? = some q ∧ q.conn = p.conn)
    (hflip : ∀ d x, (a.isMutual d x = b.isMutual d x) ∨ (b.isMutual d x = c.isMutual d x)) :
    Moved a c := by
  refine ⟨?_, fun conn => (h.sent conn).trans (h'.sent conn), ?_⟩
  · intro d x p r hp hr hpr hroom
    obtain ⟨q, hq, hqp⟩ := hmiss d p r hp hr hpr
    have hroom' : ¬Overflowed b p.conn := fun hover => hroom ((h'.sent p.conn).subset hover)
    have hfirst := h.told d x p q hp hq hqp.symm hroom'
    have hsecond := h'.told d x q r hq hr (hqp.trans hpr) (hqp ▸ hroom)
    rw [hqp] at hsecond
    rw [hsecond, hfirst, List.append_assoc]
    congr 1
    rcases hflip d x with heq | heq
    · rw [heq, change_self, List.nil_append]
    · rw [heq, change_self, List.append_nil]
  · intro d r hr
    rcases h'.arrived d r hr with ⟨q, hq, hqr⟩ | hnew
    · obtain ⟨p, hp, hpq⟩ := hstay d q hq
      exact Or.inl ⟨p, hp, hpq.trans hqr⟩
    · exact Or.inr hnew

/-- An outbox that is no device's is not written to. -/
theorem announce_outbox_free
    (hfree : ∀ (d : String) (p : Peer), h.peers[d]? = some p → p.conn ≠ conn)
    (notices : List Notice) : (announce size h notices).outboxes conn = h.outboxes conn := by
  induction notices generalizing h with
  | nil => rfl
  | cons n notices ih =>
    have hfree' : ∀ (d : String) (p : Peer),
        (h.presence size n.dest n.about n.online).peers[d]? = some p → p.conn ≠ conn := by
      intro d p hp
      rw [presence_peers] at hp
      exact hfree d p hp
    show (announce size (h.presence size n.dest n.about n.online) notices).outboxes conn = _
    rw [ih hfree']
    cases hn : h.peers[n.dest]? with
    | none => rw [Hub.presence, hn]
    | some q => rw [presence_outbox hn, if_neg (Ne.symm (hfree n.dest q hn))]

/-- A hub that has no other connections than `h` had, and wrote only to
those, is wired alike. -/
theorem Wired.stay (hw : Wired used h) (hstay : ∀ (d : String) (q : Peer), h'.peers[d]? = some q →
      ∃ p, h.peers[d]? = some p ∧ p.conn = q.conn) (hallow : AllowSets h')
    (hfree : ∀ conn, (∀ (d : String) (p : Peer), h.peers[d]? = some p → p.conn ≠ conn) →
      (h'.outboxes conn).sent = (h.outboxes conn).sent) : Wired used h' where
  own d e p q hd he heq := by
    obtain ⟨p', hp', hp⟩ := hstay d p hd
    obtain ⟨q', hq', hq⟩ := hstay e q he
    exact hw.own d e p' q' hp' hq' (by omega)
  allow := hallow
  conns d q hq := by
    obtain ⟨p, hp, hconn⟩ := hstay d q hq
    rw [← hconn]
    exact hw.conns d p hp
  unused conn hconn := by
    rw [hfree conn, hw.unused conn hconn]
    rintro d p hp rfl
    exact hconn (hw.conns d p hp)

theorem remove_wired (hw : Wired used h) (fp : String) : Wired used (h.remove size walk fp) := by
  have hpeers := (@remove_told _ size walk _ hw.own hw.allow fp).2
  have hlook : ∀ (d : String) (q : Peer), (h.remove size walk fp).peers[d]? = some q →
      h.peers[d]? = some q := by
    intro d q hq
    rw [hpeers, getElem?_keyErase] at hq
    split at hq
    · cases hq
    · exact hq
  refine hw.stay (fun d q hq => ⟨q, hlook d q hq, rfl⟩) (fun d q hq => hw.allow d q (hlook d q hq)) ?_
  intro conn hfree
  rw [remove_eq]
  exact congrArg Outbox.sent (announce_outbox_free hfree _)

theorem setAllow_wired (hw : Wired used h) (fp : String) (conn : Nat) (fps : List String) :
    Wired used (h.setAllow size walk fp conn fps) := by
  cases hcurrent : h.current fp conn with
  | none =>
    rw [Hub.setAllow, hcurrent]
    exact hw
  | some peer =>
    obtain ⟨hpeer, -⟩ := current_some hcurrent
    have hpeers := (@setAllow_told _ size walk _ hw.own hw.allow _ _ _ hcurrent fps).2
    have hlook : ∀ (d : String) (q : Peer), (h.setAllow size walk fp conn fps).peers[d]? = some q →
        (∃ p, h.peers[d]? = some p ∧ p.conn = q.conn) ∧ q.allow.Nodup := by
      intro d q hq
      rw [hpeers] at hq
      have hq' : (h.peers.insert fp { peer with allow := (fps.filter (· ≠ fp)).dedup })[d]?
          = some q := hq
      rw [getElem?_keyInsert] at hq'
      split at hq'
      · rename_i hfp
        subst hfp
        rw [← Option.some.inj hq']
        exact ⟨⟨peer, hpeer, rfl⟩, List.nodup_dedup _⟩
      · exact ⟨⟨q, hq', rfl⟩, hw.allow d q hq'⟩
    refine hw.stay (fun d q hq => (hlook d q hq).1) (fun d q hq => (hlook d q hq).2) ?_
    intro c hfree
    rw [setAllow_eq hcurrent fps, announce_outbox_free]
    · rfl
    · intro d p hp
      have hp' : (h.peers.insert fp { peer with allow := (fps.filter (· ≠ fp)).dedup })[d]?
          = some p := hp
      rw [getElem?_keyInsert] at hp'
      split at hp'
      · rw [← Option.some.inj hp']
        exact hfree fp peer hpeer
      · exact hfree d p hp'

/-- Only outboxes change, and unused ones stay empty. -/
theorem Wired.outboxes (hw : Wired used h) (hpeers : h'.peers = h.peers)
    (hfree : ∀ conn, (∀ (d : String) (p : Peer), h.peers[d]? = some p → p.conn ≠ conn) →
      (h'.outboxes conn).sent = (h.outboxes conn).sent) : Wired used h' := by
  refine hw.stay ?_ ?_ hfree
  · intro d q hq
    rw [hpeers] at hq
    exact ⟨q, hq, rfl⟩
  · intro d q hq
    rw [hpeers] at hq
    exact hw.allow d q hq

/-- What `push` does with a forwarded message: nothing a presence frame
would show. -/
theorem push_msg (o : Outbox α) (source : String) (data : α) :
    ∃ more, (o.push size (.msg source data) true).1.sent = o.sent ++ more ∧
      ∀ x, more.filterMap (Outbound.about x) = [] := by
  unfold Outbox.push
  simp only [Bool.true_and, decide_eq_true_eq]
  split
  · exact ⟨[], by simp, by simp⟩
  · split
    · exact ⟨[.close closeRateLimited "too far behind"], rfl, fun x => rfl⟩
    · exact ⟨[.frame (.msg source data)], rfl, fun x => rfl⟩

/-- What `forward` does: nothing, or one push to the device it names. -/
theorem forward_cases (h : Hub α) (source : String) (conn : Nat) (dest : String) (data : α) :
    (h.forward size source conn dest data).1 = h ∨
      ∃ target, h.peers[dest]? = some target ∧ h.isMutual source dest = true ∧
        (h.forward size source conn dest data).1 = h.setOutbox target.conn
          ((h.outboxes target.conn).push size (.msg source data) true).1 := by
  unfold Hub.forward
  split
  · exact Or.inl rfl
  · split
    · exact Or.inl rfl
    · split
      · exact Or.inl rfl
      · rename_i target htarget
        split
        · exact Or.inl rfl
        · rename_i hmutual
          exact Or.inr ⟨target, htarget, by simpa using hmutual, rfl⟩

theorem setOutbox_sent (h : Hub α) (conn c : Nat) (o : Outbox α) :
    ((h.setOutbox conn o).outboxes c).sent = if c = conn then o.sent else (h.outboxes c).sent := by
  simp only [Hub.setOutbox, Function.update_apply]
  split <;> rfl

theorem setOutbox_moved (hw : Wired used h)
    (hconn : (∃ (d : String) (p : Peer), h.peers[d]? = some p ∧ p.conn = conn) ∨
      o.sent = (h.outboxes conn).sent) (ho : ∃ more, o.sent = (h.outboxes conn).sent ++ more ∧
      ∀ x, more.filterMap (Outbound.about x) = []) :
    Wired used (h.setOutbox conn o) ∧ Moved h (h.setOutbox conn o) := by
  constructor
  · refine hw.outboxes rfl ?_
    intro c hfree
    rw [setOutbox_sent]
    split
    · rename_i hc
      subst hc
      rcases hconn with ⟨d, p, hp, hpc⟩ | hsame
      · exact absurd hpc (hfree d p hp)
      · exact hsame
    · rfl
  · refine moved_outboxes rfl ?_
    intro c
    rw [setOutbox_sent]
    split
    · rename_i hc
      subst hc
      exact ho
    · exact ⟨[], by simp, by simp⟩

/-- A device comes, or comes again on another connection. -/
theorem register_moved (hw : Wired used h) (fp : String) (hfresh : conn ∉ used) :
    Wired (used ++ [conn]) (h.register size walk fp conn) ∧
      Moved h (h.register size walk fp conn) := by
  -- The hub before the new entry is put in.
  obtain ⟨g, hg, hgone, hsub, hmoved, hwired⟩ : ∃ g : Hub α,
      h.register size walk fp conn = { g with peers := g.peers.insert fp ⟨conn, []⟩ } ∧
      g.peers[fp]? = none ∧
      (∀ d : String, fp ≠ d → g.peers[d]? = h.peers[d]?) ∧
      Moved h g ∧ Wired used g := by
    unfold Hub.register
    cases hold : h.peers[fp]? with
    | none => exact ⟨h, rfl, hold, fun _ _ => rfl, moved_refl h, hw⟩
    | some old =>
      have hclose := setOutbox_moved hw (Or.inl ⟨fp, old, hold, rfl⟩)
        (o := (h.outboxes old.conn).close closeReplaced "replaced by a newer connection")
        ⟨_, rfl, fun x => rfl⟩
      generalize hk : h.setOutbox old.conn ((h.outboxes old.conn).close closeReplaced
        "replaced by a newer connection") = k at hclose
      have hkpeers : k.peers = h.peers := by
        rw [← hk]
        rfl
      have hremove := @remove_moved _ size walk _ hclose.1.own hclose.1.allow fp
      have hpeers := (@remove_told _ size walk _ hclose.1.own hclose.1.allow fp).2
      have hlook : ∀ d : String, (k.remove size walk fp).peers[d]?
          = if fp = d then none else h.peers[d]? := by
        intro d
        rw [hpeers, getElem?_keyErase, hkpeers]
      refine ⟨k.remove size walk fp, by simp only [hk], ?_, ?_, ?_, remove_wired hclose.1 fp⟩
      · rw [hlook, if_pos rfl]
      · intro d hd
        rw [hlook, if_neg hd]
      · refine hclose.2.trans hremove ?_ ?_ ?_
        · intro d q hq
          rw [hkpeers] at hq
          exact ⟨q, hq, rfl⟩
        · intro d p r hp _ _
          rw [hkpeers]
          exact ⟨p, hp, rfl⟩
        · intro d x
          refine Or.inl (isMutual_congr ?_ ?_) <;> rw [hkpeers]
  rw [hg]
  have hlook : ∀ d : String, (g.peers.insert fp ⟨conn, []⟩)[d]?
      = if fp = d then some ⟨conn, []⟩ else g.peers[d]? := fun d => getElem?_keyInsert _ _ _ _
  constructor
  · constructor
    · intro d e p q hd he heq
      simp only [hlook] at hd he
      split at hd
      · rename_i hfp
        split at he
        · rename_i hfp'
          exact hfp.symm.trans hfp'
        · have hconn : conn = q.conn := by
            rw [← heq, ← Option.some.inj hd]
          exact absurd (hconn ▸ hwired.conns e q he) hfresh
      · split at he
        · have hconn : p.conn = conn := by
            rw [heq, ← Option.some.inj he]
          exact absurd (hconn ▸ hwired.conns d p hd) hfresh
        · exact hwired.own d e p q hd he heq
    · intro d p hd
      simp only [hlook] at hd
      split at hd
      · rw [← Option.some.inj hd]
        exact List.nodup_nil
      · exact hwired.allow d p hd
    · intro d p hd
      simp only [hlook] at hd
      split at hd
      · rw [← Option.some.inj hd]
        exact List.mem_append_right _ (List.mem_singleton_self _)
      · exact List.mem_append_left _ (hwired.conns d p hd)
    · intro c hc
      exact hwired.unused c (fun hin => hc (List.mem_append_left _ hin))
  · have hinsert := insert_moved hgone (hwired.unused conn hfresh)
    refine hmoved.trans hinsert ?_ ?_ ?_
    · intro d q hq
      rcases hmoved.arrived d q hq with hold | ⟨-, -⟩
      · exact hold
      · -- Everyone there was there before.
        have hne : fp ≠ d := by
          rintro rfl
          rw [hgone] at hq
          cases hq
        rw [hsub d hne] at hq
        exact ⟨q, hq, rfl⟩
    · intro d p r hp hr hpr
      simp only [hlook] at hr
      split at hr
      · have hconn : p.conn = conn := by
          rw [hpr, ← Option.some.inj hr]
        exact absurd (hconn ▸ hw.conns d p hp) hfresh
      · rename_i hne
        exact ⟨p, by rw [hsub d hne]; exact hp, rfl⟩
    · intro d x
      exact Or.inr (insert_isMutual hgone d x).symm

/-- Every call: the hub stays wired, and everyone is told the change. -/
theorem after_moved {used : List Nat} {h : Hub α} (hw : Wired used h) (c : Call α)
    (hfresh : ∀ conn ∈ registered [c], conn ∉ used) :
    Wired (used ++ registered [c]) (h.after size walk c) ∧ Moved h (h.after size walk c) := by
  have hread : ∀ conn o, o.sent = (h.outboxes conn).sent →
      Wired used (h.setOutbox conn o) ∧ Moved h (h.setOutbox conn o) := by
    intro conn o ho
    exact setOutbox_moved hw (Or.inr ho) ⟨[], by simp [ho], fun x => rfl⟩
  cases c with
  | register fp conn => exact register_moved hw fp (hfresh conn (List.mem_singleton_self _))
  | unregister fp conn =>
    rw [show registered [Call.unregister (α := α) fp conn] = [] from rfl, List.append_nil]
    show Wired used (h.unregister size walk fp conn) ∧ Moved h (h.unregister size walk fp conn)
    unfold Hub.unregister
    split
    · exact ⟨remove_wired hw fp, remove_moved hw.own hw.allow fp⟩
    · exact ⟨hw, moved_refl h⟩
  | setAllow fp conn fps =>
    rw [show registered [Call.setAllow (α := α) fp conn fps] = [] from rfl, List.append_nil]
    exact ⟨setAllow_wired hw fp conn fps, setAllow_moved hw.own hw.allow fp conn fps⟩
  | forward source conn dest data =>
    rw [show registered [Call.forward source conn dest data] = [] from rfl, List.append_nil]
    show Wired used (h.forward size source conn dest data).1 ∧
      Moved h (h.forward size source conn dest data).1
    rcases @forward_cases _ size h source conn dest data with heq | ⟨target, htarget, -, heq⟩
    · rw [heq]
      exact ⟨hw, moved_refl h⟩
    · rw [heq]
      exact setOutbox_moved hw (Or.inl ⟨dest, target, htarget, rfl⟩) (push_msg _ source data)
  | canTurn source conn peer =>
    rw [show registered [Call.canTurn (α := α) source conn peer] = [] from rfl, List.append_nil]
    exact ⟨hw, moved_refl h⟩
  | tryRecv fp conn =>
    rw [show registered [Call.tryRecv (α := α) fp conn] = [] from rfl, List.append_nil]
    refine hread conn _ ?_
    unfold Outbox.tryRecv
    split <;> rfl
  | hangUp fp conn =>
    rw [show registered [Call.hangUp (α := α) fp conn] = [] from rfl, List.append_nil]
    exact hread conn _ rfl

/-! ### Connections that are left -/

/-- The connection is no device's. -/
def Free (h : Hub α) (conn : Nat) : Prop :=
  ∀ (d : String) (p : Peer), h.peers[d]? = some p → p.conn ≠ conn

/-- A connection that is no device's any more heard nothing in its last step. -/
def Left (h h' : Hub α) : Prop :=
  ∀ conn, Free h' conn → ¬Overflowed h' conn → ∀ x, heard h' conn x = heard h conn x

/-- A device that leaves is not told of itself. -/
theorem remove_left (hown : OwnConns h) (hallow : AllowSets h) (fp : String) :
    Left h (h.remove size walk fp) := by
  have hpeers := (@remove_told _ size walk _ hown hallow fp).2
  intro conn hfree hroom x
  have hnodup : (walk.order (h.mutualPeers fp)).Nodup :=
    (walk.perm _).nodup_iff.mpr (mutualPeers_nodup hallow fp)
  have hsent : (h.remove size walk fp).outboxes
      = (announce size h (goneNotices walk fp (h.mutualPeers fp))).outboxes := by
    rw [remove_eq]
  by_cases hfp : ∃ p, h.peers[fp]? = some p ∧ p.conn = conn
  · obtain ⟨p, hp, rfl⟩ := hfp
    have hself : fp ∉ walk.order (h.mutualPeers fp) := by
      rw [mem_order, mem_mutualPeers, isMutual_self]
      exact Bool.false_ne_true
    have hheard := announce_heard hown hp (goneNotices walk fp (h.mutualPeers fp)) x (by
      rw [Overflowed, ← hsent]
      exact hroom)
    rw [goneNotices, spoken_gone hnodup, if_neg (fun h => hself h.1), List.append_nil] at hheard
    rw [heard, hsent]
    exact hheard
  · have hbefore : Free h conn := by
      intro d p hp hconn
      by_cases hd : fp = d
      · subst hd
        exact hfp ⟨p, hp, hconn⟩
      · refine hfree d p ?_ hconn
        rw [hpeers, getElem?_keyErase, if_neg hd]
        exact hp
    rw [heard, hsent, announce_outbox_free hbefore]
    rfl

theorem setOutbox_left (ho : ∃ more, o.sent = (h.outboxes conn).sent ++ more ∧
      ∀ x, more.filterMap (Outbound.about x) = []) : Left h (h.setOutbox conn o) := by
  intro c _ _ x
  rw [heard, setOutbox_sent]
  split
  · rename_i hc
    subst hc
    obtain ⟨more, hmore, hnone⟩ := ho
    rw [hmore, List.filterMap_append, hnone, List.append_nil]
    rfl
  · rfl

/-- A connection that is left hears nothing more. -/
theorem after_left (hw : Wired used h) (c : Call α) : Left h (h.after size walk c) := by
  have hread : ∀ conn o, o.sent = (h.outboxes conn).sent → Left h (h.setOutbox conn o) :=
    fun conn o ho => setOutbox_left ⟨[], by simp [ho], fun x => rfl⟩
  cases c with
  | register fp conn =>
    intro c hfree hroom x
    show heard (h.register size walk fp conn) c x = heard h c x
    -- The new connection is not in use, and the others are as before it.
    have hother {g : Hub α} (hg : Free { g with peers := g.peers.insert fp ⟨conn, []⟩ } c)
        (hnone : g.peers[fp]? = none) : Free g c := by
      intro d p hp
      refine hg d p ?_
      have hne : fp ≠ d := by
        rintro rfl
        rw [hnone] at hp
        cases hp
      exact (getElem?_keyInsert _ _ _ _).trans ((if_neg hne).trans hp)
    replace hfree : Free (h.register size walk fp conn) c := hfree
    replace hroom : ¬Overflowed (h.register size walk fp conn) c := hroom
    unfold Hub.register at hfree hroom ⊢
    cases hold : h.peers[fp]? with
    | none => rfl
    | some old =>
      rw [hold] at hfree hroom
      have hclose := setOutbox_moved hw (Or.inl ⟨fp, old, hold, rfl⟩)
        (o := (h.outboxes old.conn).close closeReplaced "replaced by a newer connection")
        ⟨_, rfl, fun x => rfl⟩
      have hgone : ((h.setOutbox old.conn ((h.outboxes old.conn).close closeReplaced
          "replaced by a newer connection")).remove size walk fp).peers[fp]? = none := by
        rw [(@remove_told _ size walk _ hclose.1.own hclose.1.allow fp).2, getElem?_keyErase,
          if_pos rfl]
      have hremove := remove_left hclose.1.own hclose.1.allow fp c (hother hfree hgone) hroom x
      refine Eq.trans hremove ?_
      rw [heard, setOutbox_sent]
      split
      · rename_i hc
        subst hc
        exact List.filterMap_append.trans (List.append_nil _)
      · rfl
  | unregister fp conn =>
    show Left h (h.unregister size walk fp conn)
    unfold Hub.unregister
    split
    · exact remove_left hw.own hw.allow fp
    · exact fun _ _ _ _ => rfl
  | setAllow fp conn fps =>
    intro c hfree _ x
    show heard (h.setAllow size walk fp conn fps) c x = heard h c x
    replace hfree : Free (h.setAllow size walk fp conn fps) c := hfree
    cases hcurrent : h.current fp conn with
    | none => rw [Hub.setAllow, hcurrent]
    | some peer =>
      have hallowed : Free (withAllow h fp peer fps) c := by
        rw [setAllow_eq hcurrent fps] at hfree
        intro d p hp
        exact hfree d p (by rw [announce_peers]; exact hp)
      rw [heard, setAllow_eq hcurrent fps, announce_outbox_free hallowed]
      rfl
  | forward source conn dest data =>
    show Left h (h.forward size source conn dest data).1
    rcases @forward_cases _ size h source conn dest data with heq | ⟨target, -, -, heq⟩
    · rw [heq]
      exact fun _ _ _ _ => rfl
    · rw [heq]
      exact setOutbox_left (push_msg _ source data)
  | canTurn source conn peer => exact fun _ _ _ _ => rfl
  | tryRecv fp conn =>
    refine hread conn _ ?_
    unfold Outbox.tryRecv
    split <;> rfl
  | hangUp fp conn => exact hread conn _ rfl

/-! ### Runs -/

/-- Frames alternate, and the first says online. -/
def Alternating (frames : List Bool) : Prop :=
  ∀ (i : Nat) (online : Bool), frames[i]? = some online → online = decide (i % 2 = 0)

/-- Frames that alternate, and the last says online exactly when the two
are mutual. -/
structure Faithful (frames : List Bool) (mutually : Bool) : Prop where
  alternating : Alternating frames
  last : frames.getLast? = some true ↔ mutually = true

theorem faithful_nil : Faithful [] false := by
  refine ⟨?_, by simp⟩
  intro i online hi
  cases hi

/-- The number of frames is odd while the two are mutual. -/
theorem Faithful.length (h : Faithful frames m) : frames.length % 2 = if m then 1 else 0 := by
  cases hlast : frames.getLast? with
  | none =>
    rw [List.getLast?_eq_none_iff] at hlast
    subst hlast
    cases m with
    | false => rfl
    | true => exact absurd (h.last.mpr rfl) (by simp)
  | some online =>
    have hlen : 0 < frames.length := by
      rcases List.eq_nil_or_concat frames with rfl | ⟨l, a, rfl⟩
      · cases hlast
      · simp
    have hvalue := h.alternating (frames.length - 1) online (by
      rw [← List.getLast?_eq_getElem?]
      exact hlast)
    have honline : online = m := by
      have := h.last
      rw [hlast] at this
      cases online <;> cases m <;> simp_all
    subst honline
    cases online with
    | false =>
      have : ¬(frames.length - 1) % 2 = 0 := by simpa using hvalue
      simp only [Bool.false_eq_true, if_false]
      omega
    | true =>
      have : (frames.length - 1) % 2 = 0 := by simpa using hvalue
      simp only [if_true]
      omega

/-- The change is what has to be said. -/
theorem Faithful.change (h : Faithful frames m) (m' : Bool) :
    Faithful (frames ++ change m m') m' := by
  by_cases heq : m = m'
  · subst heq
    rw [change_self, List.append_nil]
    exact h
  · have hsaid : Relay.change m m' = [m'] := by
      cases m <;> cases m' <;> simp_all [Relay.change]
    rw [hsaid]
    refine ⟨?_, by simp⟩
    intro i online hi
    rcases Nat.lt_trichotomy i frames.length with hlt | rfl | hgt
    · rw [List.getElem?_append_left hlt] at hi
      exact h.alternating i online hi
    · rw [List.getElem?_append_right (Nat.le_refl _), Nat.sub_self] at hi
      have honline : m' = online := by simpa using hi
      have hlength := h.length
      subst honline
      cases m <;> cases m' <;> simp_all
    · rw [List.getElem?_eq_none (by simp only [List.length_append, List.length_singleton]; omega)]
        at hi
      cases hi

/-- Every device whose outbox did not overflow was told the truth. -/
def Accurate (h : Hub α) : Prop :=
  ∀ (d x : String) (p : Peer), h.peers[d]? = some p → ¬Overflowed h p.conn →
    Faithful (heard h p.conn x) (h.isMutual d x)

/-- A call keeps presence accurate. -/
theorem Moved.accurate (hmoved : Moved h h') (haccurate : Accurate h) : Accurate h' := by
  intro d x q hq hroom
  rcases hmoved.arrived d q hq with ⟨p, hp, hpq⟩ | ⟨hempty, hnone⟩
  · have hroom' : ¬Overflowed h' p.conn := hpq ▸ hroom
    have hbefore : ¬Overflowed h p.conn := fun hover => hroom' ((hmoved.sent p.conn).subset hover)
    have htold := hmoved.told d x p q hp hq hpq hroom'
    rw [← hpq, htold]
    exact (haccurate d x p hp hbefore).change _
  · rw [heard, hempty, hnone x]
    exact faithful_nil

theorem run_snoc (h : Hub α) (calls : List (Call α)) (c : Call α) :
    h.run size walk (calls ++ [c]) = (h.run size walk calls).after size walk c := by
  simp [Hub.run]

theorem registered_append (a b : List (Call α)) :
    registered (a ++ b) = registered a ++ registered b := by
  simp [registered]

/-- A run from the empty hub in which every registration has a connection
of its own. -/
theorem run_wired (hfresh : (registered calls).Nodup) :
    Wired (registered calls) (Hub.run size walk {} calls) ∧ Accurate (Hub.run size walk {} calls) := by
  induction calls using List.reverseRecOn with
  | nil =>
    have hnone : ∀ d : String, (({} : Hub α).peers)[d]? = none := fun d => by
      simp
    refine ⟨⟨?_, ?_, ?_, fun _ _ => rfl⟩, ?_⟩
    · intro d e p q hd
      exact absurd (hd.symm.trans (hnone d)) (by simp)
    · intro d p hd
      exact absurd (hd.symm.trans (hnone d)) (by simp)
    · intro d p hd
      exact absurd (hd.symm.trans (hnone d)) (by simp)
    · intro d x p hd
      exact absurd (hd.symm.trans (hnone d)) (by simp)
  | append_singleton calls c ih =>
    rw [registered_append] at hfresh
    obtain ⟨hwired, haccurate⟩ := ih (List.nodup_append.mp hfresh).1
    have hnew : ∀ conn ∈ registered [c], conn ∉ registered calls := by
      intro conn hc hold
      exact (List.nodup_append.mp hfresh).2.2 conn hold conn hc rfl
    obtain ⟨hwired', hmoved⟩ := after_moved hwired c hnew
    rw [run_snoc, registered_append]
    exact ⟨hwired', hmoved.accurate haccurate⟩

/-- What any connection hears alternates, that of a device or one that was left. -/
theorem run_alternating (hfresh : (registered calls).Nodup)
    (hroom : ¬Overflowed (Hub.run size walk {} calls) conn) (x : String) :
    Alternating (heard (Hub.run size walk {} calls) conn x) := by
  induction calls using List.reverseRecOn with
  | nil =>
    intro i online hi
    cases hi
  | append_singleton calls c ih =>
    have hfirst : (registered calls).Nodup := by
      rw [registered_append] at hfresh
      exact (List.nodup_append.mp hfresh).1
    have hnew : ∀ k ∈ registered [c], k ∉ registered calls := by
      intro k hc hold
      rw [registered_append] at hfresh
      exact (List.nodup_append.mp hfresh).2.2 k hold k hc rfl
    have hwired : Wired (registered calls) (Hub.run size walk {} calls) := (run_wired hfirst).1
    by_cases hfree : Free (Hub.run size walk {} (calls ++ [c])) conn
    · rw [run_snoc] at hroom hfree ⊢
      have hmoved := (@after_moved _ size walk _ _ hwired c hnew).2
      rw [after_left hwired c conn hfree hroom x]
      exact ih hfirst (fun hover => hroom ((hmoved.sent conn).subset hover))
    · unfold Free at hfree
      push Not at hfree
      obtain ⟨d, p, hp, rfl⟩ := hfree
      exact ((run_wired hfresh).2 d x p hp hroom).alternating

/-- Nothing is heard of a device that was never mutual on this connection. -/
theorem run_silent (hfresh : (registered calls).Nodup)
    (hnever : ∀ done, done <+: calls → ∀ p, (Hub.run size walk {} done).peers[d]? = some p →
      p.conn = conn → (Hub.run size walk {} done).isMutual d x = false)
    (hp : (Hub.run size walk {} calls).peers[d]? = some p) (hconn : p.conn = conn)
    (hroom : ¬Overflowed (Hub.run size walk {} calls) conn) :
    heard (Hub.run size walk {} calls) conn x = [] := by
  induction calls using List.reverseRecOn generalizing p with
  | nil => rfl
  | append_singleton calls c ih =>
    rw [registered_append] at hfresh
    have hfirst := (List.nodup_append.mp hfresh).1
    have hnew : ∀ k ∈ registered [c], k ∉ registered calls := by
      intro k hc hold
      exact (List.nodup_append.mp hfresh).2.2 k hold k hc rfl
    have hwired : Wired (registered calls) (Hub.run size walk {} calls) := (run_wired hfirst).1
    have hmoved := (@after_moved _ size walk _ _ hwired c hnew).2
    have hlast := hnever (calls ++ [c]) (List.prefix_refl _) p hp hconn
    rw [run_snoc] at hp hroom hlast ⊢
    rcases hmoved.arrived d p hp with ⟨q, hq, hqp⟩ | ⟨hempty, -⟩
    · have hqconn : q.conn = conn := hqp.trans hconn
      have hroom' : ¬Overflowed (Hub.run size walk {} calls) conn :=
        fun hover => hroom ((hmoved.sent conn).subset hover)
      have hbefore := hnever calls (List.prefix_append _ _) q hq hqconn
      have hsilent := ih hfirst (fun done hdone => hnever done (hdone.trans (List.prefix_append _ _)))
        hq hqconn hroom'
      have htold := hmoved.told d x q p hq hp hqp (hqconn ▸ hroom)
      rw [hqconn, hsilent, hbefore, hlast] at htold
      exact htold
    · rw [heard, ← hconn, hempty]
      rfl

/-- The calls that name a connection already registered. -/
def Call.Guarded : Call α → Prop
  | .unregister .. | .setAllow .. | .forward .. | .canTurn .. => True
  | .register .. | .tryRecv .. | .hangUp .. => False

/-- A call from a replaced connection changes nothing. -/
theorem stale_call {c : Call α} (hguarded : c.Guarded)
    (hstale : ∀ p, h.peers[c.device]? = some p → p.conn ≠ c.conn) : h.after size walk c = h := by
  have hcurrent : h.current c.device c.conn = none := by
    cases hc : h.current c.device c.conn with
    | none => rfl
    | some p =>
      obtain ⟨hp, hconn⟩ := current_some hc
      exact absurd hconn (hstale p hp)
  cases c with
  | unregister fp conn =>
    have hfp : h.current fp conn = none := hcurrent
    show h.unregister size walk fp conn = h
    rw [Hub.unregister, hfp]
    rfl
  | setAllow fp conn fps =>
    have hfp : h.current fp conn = none := hcurrent
    show h.setAllow size walk fp conn fps = h
    rw [Hub.setAllow, hfp]
  | forward source conn dest data =>
    have hsource : h.current source conn = none := hcurrent
    show (h.forward size source conn dest data).1 = h
    rw [Hub.forward, hsource]
  | canTurn source conn peer => rfl
  | register fp conn => exact hguarded.elim
  | tryRecv fp conn => exact hguarded.elim
  | hangUp fp conn => exact hguarded.elim

/-- Relay presence is accurate. After any calls, in which every
registration has a connection of its own, each device online whose outbox
did not overflow was told of each `x` in turn online and offline, the last
time truly; it was told nothing of an `x` it was never mutual with on this
connection. What a connection was told that was replaced or closed alternates
too. And a call from a connection that is not the device's current one changes
neither the hub nor an outbox. -/
theorem presence_accurate (size : ServerMessage α → Nat) (walk : Iteration) (calls : List (Call α))
    (hfresh : (registered calls).Nodup) :
    (∀ (d : String) (p : Peer), (Hub.run size walk {} calls).peers[d]? = some p →
      ¬Overflowed (Hub.run size walk {} calls) p.conn → ∀ x,
        ((heard (Hub.run size walk {} calls) p.conn x).getLast? = some true ↔
          (Hub.run size walk {} calls).isMutual d x = true) ∧
        Alternating (heard (Hub.run size walk {} calls) p.conn x) ∧
        ((∀ done, done <+: calls → ∀ q, (Hub.run size walk {} done).peers[d]? = some q →
            q.conn = p.conn → (Hub.run size walk {} done).isMutual d x = false) →
          heard (Hub.run size walk {} calls) p.conn x = [])) ∧
    (∀ conn, ¬Overflowed (Hub.run size walk {} calls) conn → ∀ x,
      Alternating (heard (Hub.run size walk {} calls) conn x)) ∧
    ∀ c : Call α, c.Guarded →
      (∀ p, (Hub.run size walk {} calls).peers[c.device]? = some p → p.conn ≠ c.conn) →
      (Hub.run size walk {} calls).after size walk c = Hub.run size walk {} calls := by
  refine ⟨?_, fun conn hroom x => run_alternating hfresh hroom x, ?_⟩
  · intro d p hp hroom x
    have hfaithful := (run_wired hfresh).2 d x p hp hroom
    refine ⟨hfaithful.last, hfaithful.alternating, ?_⟩
    intro hnever
    exact run_silent hfresh hnever hp rfl hroom
  · intro c hguarded hstale
    exact stale_call hguarded hstale

/-- The set as it is stored. -/
def Iteration.stored : Iteration := ⟨id, fun _ => .refl _⟩

/-- `B` replaces its connection and sends once more on the old one. -/
def replacedCalls : List (Call Unit) :=
  [.register "A" 1, .register "B" 2, .setAllow "A" 1 ["B"], .setAllow "B" 2 ["A"],
    .register "B" 3, .setAllow "B" 2 ["A"]]

/-- `A` hears of `B` coming and going, and the connection that `B` left heard of `A` coming. -/
theorem presence_accurate_replaced :
    let h := Hub.run (fun _ => 40) Iteration.stored {} replacedCalls
    heard h 1 "B" = [true, false] ∧ Alternating (heard h 1 "B") ∧
      heard h 2 "A" = [true] ∧ Alternating (heard h 2 "A") := by
  have haccurate := presence_accurate (fun _ => 40) Iteration.stored replacedCalls (by decide)
  refine ⟨by decide +kernel, ?_, by decide +kernel, ?_⟩
  · exact (haccurate.1 "A" ⟨1, ["B"]⟩ (by decide +kernel) (by decide +kernel) "B").2.1
  · exact haccurate.2.1 2 (by decide +kernel) "A"

end DeskLink.Relay
