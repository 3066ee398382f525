import DeskLink.Lib.Run
import DeskLink.Proofs.Relay.Networks
import DeskLink.Relay.Server

/-!
# `DeskLink.Proofs.Relay.Quota`: the TURN quota of a day

`Booked` is the invariant of the ledger: under every key of its maps the
quota counts the grants of the day that were charged to it and not given
back. A key is the hash of a label, and a label says what it is for
(`pairLabel_eq_iff`, `netLabel_inj`). Where no two labels of the run hash alike
(`HashedApart`), the counters are those of pairs and networks
(`Booked.pairs_eq`, `Booked.networks_eq`): what is hashed is what the run asks
for (`Asked`).

* `turn_quota`: no limit of a day is passed, over every run, and what a
  refusal, a refund and a late refund do.
-/

set_option autoImplicit false

namespace DeskLink.Relay

open Lib

/-! ### Labels -/

namespace TurnQuota

theorem netLabel_inj {key key' : NetKey} (h : netLabel key = netLabel key') : key = key' := by
  have hlist := congrArg String.toList h
  simp only [netLabel, String.toList_append, String.toList_ofList, List.append_cancel_left_eq]
    at hlist
  exact display_inj hlist

/-- The label of a pair is that of the pair the other way round, and of no
other pair. -/
theorem pairLabel_eq_iff (a b c d : Fingerprint) :
    pairLabel a.text b.text = pairLabel c.text d.text ↔ (a = c ∧ b = d) ∨ (a = d ∧ b = c) := by
  have hfields : ∀ x y : Fingerprint, x = y ↔ x.text = y.text := by
    rintro ⟨x, hx⟩ ⟨y, hy⟩
    simp
  -- The first name ends where the line does.
  have hsplit : ∀ x y x' y' : Fingerprint,
      "pair\n" ++ x.text ++ "\n" ++ y.text = "pair\n" ++ x'.text ++ "\n" ++ y'.text →
        x.text = x'.text ∧ y.text = y'.text := by
    intro x y x' y' heq
    have hlist := congrArg String.toList heq
    simp only [String.toList_append, List.append_assoc, List.append_cancel_left_eq] at hlist
    obtain ⟨hx, hy⟩ := append_cons_inj_first x.oneLine x'.oneLine hlist
    exact ⟨String.toList_inj.mp hx, String.toList_inj.mp hy⟩
  simp only [hfields]
  unfold pairLabel
  constructor
  · intro h
    by_cases hab : (compare a.text b.text).isLE
    · by_cases hcd : (compare c.text d.text).isLE
      · simp only [if_pos hab, if_pos hcd] at h
        exact Or.inl (hsplit _ _ _ _ h)
      · simp only [if_pos hab, if_neg hcd] at h
        exact Or.inr (hsplit _ _ _ _ h)
    · by_cases hcd : (compare c.text d.text).isLE
      · simp only [if_neg hab, if_pos hcd] at h
        exact Or.inr (hsplit _ _ _ _ h).symm
      · simp only [if_neg hab, if_neg hcd] at h
        exact Or.inl (hsplit _ _ _ _ h).symm
  · rintro (⟨hac, hbd⟩ | ⟨had, hbc⟩)
    · rw [hac, hbd]
    · rw [had, hbc]
      have hswap := Std.OrientedOrd.eq_swap (a := d.text) (b := c.text)
      rw [hswap]
      cases hcd : compare c.text d.text with
      | lt => simp
      | gt => simp
      | eq =>
        have htext := Std.LawfulEqOrd.eq_of_compare hcd
        simp [htext]

end TurnQuota

/-! ### What a run hashes -/

/-- The labels that a request is charged under. -/
def turnLabels (a b : Fingerprint) (ip : IpAddr) : List String :=
  TurnQuota.pairLabel a.text b.text :: (NetKey.ofIp ip).tiers.map TurnQuota.netLabel

def QuotaOp.labels : QuotaOp → List String
  | .turn a b ip _ _ => turnLabels a b ip
  | .failed _ => []

/-- The salt of the day, if it begins with this request. -/
def QuotaOp.salts : QuotaOp → List String
  | .turn _ _ _ _ random => [Base64.encodeUrl random.toList]
  | .failed _ => []

/-- No two labels of the run hash alike under a salt of the run. -/
def HashedApart (digest : String → Option (List UInt8)) (ops : List QuotaOp) : Prop :=
  ∀ salt ∈ ops.flatMap QuotaOp.salts,
    ∀ label ∈ ops.flatMap QuotaOp.labels, ∀ label' ∈ ops.flatMap QuotaOp.labels,
      TurnQuota.hashed digest salt label = TurnQuota.hashed digest salt label' → label = label'

instance {digest : String → Option (List UInt8)} {ops : List QuotaOp} :
    Decidable (HashedApart digest ops) :=
  inferInstanceAs (Decidable (∀ salt ∈ ops.flatMap QuotaOp.salts, _))

/-- What the ledger holds was asked for, and its salt was drawn for it. -/
structure Ledger.Asked (ops : List QuotaOp) (s : Ledger) : Prop where
  labels : ∀ h ∈ s.held, ∀ label ∈ turnLabels h.a h.b h.ip, label ∈ ops.flatMap QuotaOp.labels
  salt : s.quota.salt ≠ "" → s.quota.salt ∈ ops.flatMap QuotaOp.salts

/-! ### The ledger -/

variable {digest : String → Option (List UInt8)} {limits : Limits} {ops : List QuotaOp}

/-- The grant is for this pair, in either order. -/
def Held.isPair (h : Held) (a b : Fingerprint) : Bool :=
  (h.a == a && h.b == b) || (h.a == b && h.b == a)

namespace Ledger

/-- The grants of a day for a pair that were not given back. -/
def pairCount (s : Ledger) (day : Nat) (a b : Fingerprint) : Nat :=
  s.held.countP (fun h => h.grant.day == day && h.isPair a b)

/-- The grants of a day from addresses under a key. -/
def netCount (s : Ledger) (day : Nat) (key : NetKey) : Nat :=
  s.held.countP (fun h => h.grant.day == day && h.ip.under key)

def today (s : Ledger) : List Held := s.held.filter (fun h => h.grant.day == s.quota.day)

/-- The quota counts the grants of the day, and no day's grants pass a
limit. -/
structure Booked (digest : String → Option (List UInt8)) (limits : Limits) (s : Ledger) :
    Prop where
  /-- Nothing happened yet. -/
  fresh : s.quota.salt = "" → s.held = [] ∧ s.quota = {}
  day_le : s.quota.day ≤ s.now / secondsPerDay
  days : ∀ h ∈ s.held, h.grant.day ≤ s.quota.day
  /-- What a grant of the day was charged to. -/
  keyed : ∀ h ∈ s.held, h.grant.day = s.quota.day →
    h.grant.pair = TurnQuota.hashed digest s.quota.salt (TurnQuota.pairLabel h.a.text h.b.text) ∧
      h.grant.networks = (NetKey.ofIp h.ip).tiers.map
        (fun tier => TurnQuota.hashed digest s.quota.salt (TurnQuota.netLabel tier))
  pairs : Counts s.quota.pairs (s.today.map (·.grant.pair))
  networks : Counts s.quota.networks (s.today.flatMap (·.grant.networks))
  pairs_le : ∀ day a b, s.pairCount day a b ≤ limits.turnPerPairPerDay
  networks_le : ∀ day key, s.netCount day key ≤ TurnQuota.netCap limits key

variable {s s' : Ledger} {a b : Fingerprint} {random : Vector UInt8 16} {unixSecs : Nat}
variable {ip : IpAddr} {q : TurnQuota} {op : QuotaOp}

theorem booked_start : Booked digest limits {} where
  fresh _ := ⟨rfl, rfl⟩
  day_le := Nat.zero_le _
  days _ hmem := absurd hmem List.not_mem_nil
  keyed _ hmem := absurd hmem List.not_mem_nil
  pairs _ := rfl
  networks _ := rfl
  pairs_le _ _ _ := Nat.zero_le _
  networks_le _ _ := Nat.zero_le _

/-- The counter of a pair that was asked for is how many grants it has today. -/
theorem Booked.pairs_eq (h : Booked digest limits s) (hasked : Asked ops s)
    (hhash : HashedApart digest ops) (hsalt : s.quota.salt ≠ "")
    (hlabel : TurnQuota.pairLabel a.text b.text ∈ ops.flatMap QuotaOp.labels) :
    s.quota.pairs.count (TurnQuota.hashed digest s.quota.salt (TurnQuota.pairLabel a.text b.text))
      = s.pairCount s.quota.day a b := by
  rw [h.pairs, List.count_eq_countP, List.countP_map, today, List.countP_filter, pairCount]
  apply List.countP_congr
  intro g hg
  simp only [Function.comp, Bool.and_eq_true, beq_iff_eq]
  constructor
  · rintro ⟨hkey, hday⟩
    rw [(h.keyed g hg hday).1] at hkey
    have hheld := hasked.labels g hg _ List.mem_cons_self
    have hsame := hhash _ (hasked.salt hsalt) _ hheld _ hlabel hkey
    have hpair := (TurnQuota.pairLabel_eq_iff _ _ _ _).mp hsame
    refine ⟨hday, ?_⟩
    simpa [Held.isPair] using hpair
  · rintro ⟨hday, hpair⟩
    refine ⟨?_, hday⟩
    rw [(h.keyed g hg hday).1]
    congr 1
    apply (TurnQuota.pairLabel_eq_iff _ _ _ _).mpr
    simpa [Held.isPair] using hpair

/-- A key stands once in what one grant was charged to. -/
theorem count_flatMap {α β : Type} [DecidableEq β] {f : α → List β} {l : List α}
    (h : ∀ x ∈ l, (f x).Nodup) (k : β) :
    (l.flatMap f).count k = l.countP (fun x => decide (k ∈ f x)) := by
  induction l with
  | nil => rfl
  | cons x l ih =>
    have hrest := ih (fun y hy => h y (List.mem_cons_of_mem x hy))
    have hx := (h x List.mem_cons_self).count (a := k)
    rw [List.flatMap_cons, List.count_append, hrest, List.countP_cons, hx]
    by_cases hk : k ∈ f x
    · simp [hk, Nat.add_comm]
    · simp [hk]

/-- The counter of a network that was asked from is how many grants came from it
today. -/
theorem Booked.networks_eq (h : Booked digest limits s) (hasked : Asked ops s)
    (hhash : HashedApart digest ops) (hsalt : s.quota.salt ≠ "") {key : NetKey}
    (hlabel : TurnQuota.netLabel key ∈ ops.flatMap QuotaOp.labels) :
    s.quota.networks.count (TurnQuota.hashed digest s.quota.salt (TurnQuota.netLabel key))
      = s.netCount s.quota.day key := by
  have hheld {g : Held} (hg : g ∈ s.held) {tier : NetKey}
      (htier : tier ∈ (NetKey.ofIp g.ip).tiers) :
      TurnQuota.netLabel tier ∈ ops.flatMap QuotaOp.labels :=
    hasked.labels g hg _ (List.mem_cons_of_mem _ (List.mem_map_of_mem htier))
  have hinj {x y : NetKey} (hx : TurnQuota.netLabel x ∈ ops.flatMap QuotaOp.labels)
      (hy : TurnQuota.netLabel y ∈ ops.flatMap QuotaOp.labels)
      (heq : TurnQuota.hashed digest s.quota.salt (TurnQuota.netLabel x)
        = TurnQuota.hashed digest s.quota.salt (TurnQuota.netLabel y)) : x = y :=
    TurnQuota.netLabel_inj (hhash _ (hasked.salt hsalt) _ hx _ hy heq)
  have hnodup : ∀ g ∈ s.today, g.grant.networks.Nodup := by
    intro g hg
    obtain ⟨hmem, hday⟩ := List.mem_filter.mp hg
    rw [(h.keyed g hmem (beq_iff_eq.mp hday)).2]
    exact (nodup_tiers _).map_on (fun x hx y hy heq => hinj (hheld hmem hx) (hheld hmem hy) heq)
  rw [h.networks, count_flatMap hnodup, today, List.countP_filter, netCount]
  apply List.countP_congr
  intro g hg
  simp only [Bool.and_eq_true, beq_iff_eq, decide_eq_true_eq]
  constructor
  · rintro ⟨hmem, hday⟩
    rw [(h.keyed g hg hday).2] at hmem
    obtain ⟨tier, htier, heq⟩ := List.mem_map.mp hmem
    obtain rfl := hinj (hheld hg htier) hlabel heq
    exact ⟨hday, (mem_tiers_ofIp _ _).mp htier⟩
  · rintro ⟨hday, hunder⟩
    rw [(h.keyed g hg hday).2]
    exact ⟨List.mem_map_of_mem ((mem_tiers_ofIp _ _).mpr hunder), hday⟩

/-! ### Steps -/

theorem roll_eq (h : unixSecs / secondsPerDay = q.day ∧ q.salt ≠ "") :
    q.roll random unixSecs = q := if_pos h

@[simp] theorem day_roll (q : TurnQuota) (random : Vector UInt8 16) (unixSecs : Nat) :
    (q.roll random unixSecs).day = unixSecs / secondsPerDay := by
  unfold TurnQuota.roll
  split
  · rename_i h
    exact h.1.symm
  · rfl

theorem salt_roll (q : TurnQuota) (random : Vector UInt8 16) (unixSecs : Nat) :
    (q.roll random unixSecs).salt ≠ "" := by
  unfold TurnQuota.roll
  split
  · rename_i h
    exact h.2
  · apply Base64.encodeUrl_ne_empty
    intro hnil
    have hlength := congrArg List.length hnil
    simp at hlength

/-- A new day has no grants yet. -/
theorem Booked.roll (h : Booked digest limits s) (hnow : s.now ≤ unixSecs)
    (random : Vector UInt8 16) :
    Booked digest limits ⟨s.quota.roll random unixSecs, unixSecs, s.held⟩ := by
  by_cases hsame : unixSecs / secondsPerDay = s.quota.day ∧ s.quota.salt ≠ ""
  · rw [roll_eq hsame]
    exact { h with day_le := le_of_eq hsame.1.symm }
  · have hold : s.now / secondsPerDay ≤ unixSecs / secondsPerDay := Nat.div_le_div_right hnow
    have hday := h.day_le
    have hroll : s.quota.roll random unixSecs
        = { day := unixSecs / secondsPerDay, salt := Base64.encodeUrl random.toList } := if_neg hsame
    -- A grant of this day would be from before the day began.
    have hnone : ∀ g ∈ s.held, g.grant.day ≠ unixSecs / secondsPerDay := by
      intro g hg heq
      have hle := h.days g hg
      have hsalt : s.quota.salt ≠ "" := by
        intro hempty
        rw [(h.fresh hempty).1] at hg
        exact absurd hg List.not_mem_nil
      exact hsame ⟨by omega, hsalt⟩
    have htoday : Ledger.today ⟨s.quota.roll random unixSecs, unixSecs, s.held⟩ = [] := by
      rw [today, List.filter_eq_nil_iff]
      intro g hg
      simpa using hnone g hg
    constructor
    · intro hempty
      exact absurd hempty (salt_roll s.quota random unixSecs)
    · exact le_of_eq (day_roll s.quota random unixSecs)
    · intro g hg
      show g.grant.day ≤ (s.quota.roll random unixSecs).day
      have hle := h.days g hg
      rw [day_roll]
      omega
    · intro g hg heq
      exact absurd (heq.trans (day_roll s.quota random unixSecs)) (hnone g hg)
    · rw [htoday, hroll]
      exact fun _ => rfl
    · rw [htoday, hroll]
      exact fun _ => rfl
    · exact h.pairs_le
    · exact h.networks_le

theorem asked_start : Asked ops {} where
  labels _ hmem := absurd hmem List.not_mem_nil
  salt hsalt := absurd rfl hsalt

theorem Asked.mono (h : Asked ops s) (more : List QuotaOp) : Asked (ops ++ more) s where
  labels g hg label hlabel := by
    rw [List.flatMap_append]
    exact List.mem_append_left _ (h.labels g hg label hlabel)
  salt hsalt := by
    rw [List.flatMap_append]
    exact List.mem_append_left _ (h.salt hsalt)

/-- The day begins with the salt of the request, if it does. -/
theorem Asked.roll (h : Asked ops s) (hop : QuotaOp.turn a b ip unixSecs random ∈ ops) :
    Asked ops ⟨s.quota.roll random unixSecs, unixSecs, s.held⟩ where
  labels := h.labels
  salt _ := by
    show (s.quota.roll random unixSecs).salt ∈ _
    by_cases hsame : unixSecs / secondsPerDay = s.quota.day ∧ s.quota.salt ≠ ""
    · rw [roll_eq hsame]
      exact h.salt hsame.2
    · have hroll : s.quota.roll random unixSecs
          = { day := unixSecs / secondsPerDay, salt := Base64.encodeUrl random.toList } :=
        if_neg hsame
      rw [hroll]
      exact List.mem_flatMap.mpr ⟨_, hop, List.mem_singleton_self _⟩

/-- What `tryGrant` can answer. -/
theorem tryGrant_cases {a b : String} {network : NetKey} {r : Except QuotaRefusal Grant × TurnQuota}
    (h : q.tryGrant digest random a b network unixSecs limits = r) :
    let rolled := q.roll random unixSecs
    let pair := TurnQuota.hashed digest rolled.salt (TurnQuota.pairLabel a b)
    let key := fun tier => TurnQuota.hashed digest rolled.salt (TurnQuota.netLabel tier)
    (limits.turnPerPairPerDay ≤ rolled.pairs.count pair ∧ r = (.error .pair, rolled)) ∨
      ((∃ tier ∈ network.tiers, TurnQuota.netCap limits tier ≤ rolled.networks.count (key tier)) ∧
        r = (.error .network, rolled)) ∨
      (rolled.pairs.count pair < limits.turnPerPairPerDay ∧
        (∀ tier ∈ network.tiers, rolled.networks.count (key tier) < TurnQuota.netCap limits tier) ∧
        r = (.ok ⟨rolled.day, pair, network.tiers.map key⟩,
          { rolled with
            pairs := rolled.pairs.add pair
            networks := (network.tiers.map key).foldl Tally.add rolled.networks })) := by
  intro rolled pair key
  subst h
  unfold TurnQuota.tryGrant
  by_cases hpair : limits.turnPerPairPerDay ≤ rolled.pairs.count pair
  · exact Or.inl ⟨hpair, if_pos hpair⟩
  · by_cases hnet : network.tiers.any (fun tier =>
        decide (TurnQuota.netCap limits tier ≤ rolled.networks.count (key tier))) = true
    · refine Or.inr (Or.inl ⟨by simpa using hnet, ?_⟩)
      exact (if_neg hpair).trans (if_pos hnet)
    · refine Or.inr (Or.inr ⟨not_le.mp hpair, by simpa using hnet, ?_⟩)
      exact (if_neg hpair).trans (if_neg hnet)

/-- A charged grant is one more for its pair and its tiers. -/
theorem Booked.grant (h : Booked digest limits s) (hsalt : s.quota.salt ≠ "")
    (hpair : s.pairCount s.quota.day a b < limits.turnPerPairPerDay)
    (hnet : ∀ tier, ip.under tier = true →
      s.netCount s.quota.day tier < TurnQuota.netCap limits tier) :
    let pair := TurnQuota.hashed digest s.quota.salt (TurnQuota.pairLabel a.text b.text)
    let networks := (NetKey.ofIp ip).tiers.map
      (fun tier => TurnQuota.hashed digest s.quota.salt (TurnQuota.netLabel tier))
    Booked digest limits
      { quota := { s.quota with
          pairs := s.quota.pairs.add pair
          networks := networks.foldl Tally.add s.quota.networks }
        now := s.now
        held := ⟨⟨s.quota.day, pair, networks⟩, a, b, ip⟩ :: s.held } := by
  intro pair networks
  have htoday : Ledger.today
      { quota := { s.quota with
          pairs := s.quota.pairs.add pair
          networks := networks.foldl Tally.add s.quota.networks }
        now := s.now
        held := ⟨⟨s.quota.day, pair, networks⟩, a, b, ip⟩ :: s.held }
      = ⟨⟨s.quota.day, pair, networks⟩, a, b, ip⟩ :: s.today := by
    unfold today
    simp
  constructor
  · intro hempty
    exact absurd hempty hsalt
  · exact h.day_le
  · intro g hg
    rcases List.mem_cons.mp hg with rfl | hg
    · exact le_refl _
    · exact h.days g hg
  · intro g hg hday
    rcases List.mem_cons.mp hg with rfl | hg
    · exact ⟨rfl, rfl⟩
    · exact h.keyed g hg hday
  · rw [htoday]
    exact h.pairs.add pair
  · rw [htoday]
    exact h.networks.addAll networks
  · intro day c d
    have hle := h.pairs_le day c d
    show List.countP _ (_ :: s.held) ≤ _
    rw [List.countP_cons]
    split
    · rename_i hone
      simp only [Bool.and_eq_true, beq_iff_eq] at hone
      obtain ⟨rfl, hsame⟩ := hone
      -- The pair that was asked for is this one.
      have hcount : s.pairCount s.quota.day c d = s.pairCount s.quota.day a b := by
        unfold pairCount
        apply List.countP_congr
        intro g hg
        simp only [Held.isPair, Bool.and_eq_true, Bool.or_eq_true, beq_iff_eq] at hsame ⊢
        grind
      unfold pairCount at hcount hpair
      omega
    · exact hle
  · intro day key
    have hle := h.networks_le day key
    show List.countP _ (_ :: s.held) ≤ _
    rw [List.countP_cons]
    split
    · rename_i hone
      simp only [Bool.and_eq_true, beq_iff_eq] at hone
      obtain ⟨rfl, hunder⟩ := hone
      have hroom := hnet key hunder
      unfold netCount at hroom
      omega
    · exact hle

/-- A request is charged under labels of the run. -/
theorem mem_labels (hop : QuotaOp.turn a b ip unixSecs random ∈ ops) :
    TurnQuota.pairLabel a.text b.text ∈ ops.flatMap QuotaOp.labels ∧
      ∀ tier ∈ (NetKey.ofIp ip).tiers, TurnQuota.netLabel tier ∈ ops.flatMap QuotaOp.labels :=
  ⟨List.mem_flatMap.mpr ⟨_, hop, List.mem_cons_self⟩, fun _ htier =>
    List.mem_flatMap.mpr ⟨_, hop, List.mem_cons_of_mem _ (List.mem_map_of_mem htier)⟩⟩

/-- A request keeps the books, whatever it is answered. -/
theorem Booked.turn (h : Booked digest limits s) (hasked : Asked ops s)
    (hhash : HashedApart digest ops) (hop : QuotaOp.turn a b ip unixSecs random ∈ ops)
    (heq : s.step digest limits (.turn a b ip unixSecs random) = some s') :
    Booked digest limits s' := by
  simp only [Ledger.step] at heq
  split at heq
  · cases heq
  rename_i hclock
  have hrolled := h.roll (not_lt.mp hclock) random
  have hsalt := salt_roll s.quota random unixSecs
  obtain ⟨hpairLabel, hnetLabels⟩ := mem_labels hop
  have hpairs := hrolled.pairs_eq (hasked.roll hop) hhash hsalt hpairLabel
  cases hgrant : s.quota.tryGrant digest random a.text b.text (.ofIp ip) unixSecs limits with
  | mk answer quota =>
    rw [hgrant] at heq
    rcases tryGrant_cases hgrant with ⟨-, hr⟩ | ⟨-, hr⟩ | ⟨hpair, hnet, hr⟩
    · cases hr
      cases heq
      exact hrolled
    · cases hr
      cases heq
      exact hrolled
    · cases hr
      cases heq
      refine hrolled.grant hsalt (hpairs ▸ hpair) ?_
      intro tier hunder
      have htier := (mem_tiers_ofIp ip tier).mpr hunder
      rw [← hrolled.networks_eq (hasked.roll hop) hhash hsalt (hnetLabels tier htier)]
      exact hnet tier htier

/-- A request is held under what it asked for. -/
theorem Asked.step (h : Asked ops s) (hop : op ∈ ops) (heq : s.step digest limits op = some s') :
    Asked ops s' := by
  cases op with
  | turn a b ip unixSecs random =>
    have hrolled := h.roll hop
    simp only [Ledger.step] at heq
    split at heq
    · cases heq
    cases hgrant : s.quota.tryGrant digest random a.text b.text (.ofIp ip) unixSecs limits with
    | mk answer quota =>
      rw [hgrant] at heq
      rcases tryGrant_cases hgrant with ⟨-, hr⟩ | ⟨-, hr⟩ | ⟨-, -, hr⟩
      · cases hr
        cases heq
        exact hrolled
      · cases hr
        cases heq
        exact hrolled
      · cases hr
        cases heq
        refine ⟨fun g hg label hlabel => ?_, hrolled.salt⟩
        obtain rfl | hg := List.mem_cons.mp hg
        · exact List.mem_flatMap.mpr ⟨_, hop, hlabel⟩
        · exact h.labels g hg label hlabel
  | failed i =>
    obtain ⟨g, -, rfl⟩ := Option.map_eq_some_iff.mp heq
    have hsalt : (s.quota.refund g.grant).salt = s.quota.salt := by
      unfold TurnQuota.refund
      split <;> rfl
    refine ⟨fun k hk => h.labels k (List.mem_of_mem_eraseIdx hk), fun hempty => ?_⟩
    rw [hsalt] at hempty ⊢
    exact h.salt hempty

/-- The order of the grants does not matter. -/
theorem Booked.perm (h : Booked digest limits s) {held : List Held} (hp : s.held.Perm held) :
    Booked digest limits { s with held } := by
  have htoday : s.today.Perm (today { s with held }) := hp.filter _
  constructor
  · intro hempty
    obtain ⟨hnone, hquota⟩ := h.fresh hempty
    rw [hnone] at hp
    exact ⟨hp.nil_eq.symm, hquota⟩
  · exact h.day_le
  · intro g hg
    exact h.days g (hp.mem_iff.mpr hg)
  · intro g hg
    exact h.keyed g (hp.mem_iff.mpr hg)
  · exact h.pairs.perm (htoday.map _)
  · exact h.networks.perm (htoday.flatMap_right _)
  · intro day a b
    exact (hp.countP_eq _).symm.le.trans (h.pairs_le day a b)
  · intro day key
    exact (hp.countP_eq _).symm.le.trans (h.networks_le day key)

/-- A grant is given back: its counters go down, if it is of today. -/
theorem Booked.refund {g : Held} {rest : List Held}
    (h : Booked digest limits { s with held := g :: rest }) :
    Booked digest limits { s with quota := s.quota.refund g.grant, held := rest } := by
  have hday : (s.quota.refund g.grant).day = s.quota.day := by
    unfold TurnQuota.refund
    split <;> rfl
  have hsalt : (s.quota.refund g.grant).salt = s.quota.salt := by
    unfold TurnQuota.refund
    split <;> rfl
  have hcounters :
      Counts (s.quota.refund g.grant).pairs
          ((rest.filter (fun h => h.grant.day == s.quota.day)).map (·.grant.pair)) ∧
        Counts (s.quota.refund g.grant).networks
          ((rest.filter (fun h => h.grant.day == s.quota.day)).flatMap (·.grant.networks)) := by
    have hpairs := h.pairs
    have hnetworks := h.networks
    simp only [today, List.filter_cons] at hpairs hnetworks
    by_cases hsame : g.grant.day = s.quota.day
    · have hrefund : s.quota.refund g.grant = { s.quota with
          pairs := s.quota.pairs.sub g.grant.pair
          networks := g.grant.networks.foldl Tally.sub s.quota.networks } :=
        if_neg (not_not.mpr hsame)
      rw [if_pos (beq_iff_eq.mpr hsame)] at hpairs hnetworks
      rw [hrefund]
      exact ⟨Counts.sub hpairs, Counts.subAll hnetworks⟩
    · have hrefund : s.quota.refund g.grant = s.quota := if_pos hsame
      have hother : ¬(g.grant.day == s.quota.day) = true := fun heq => hsame (beq_iff_eq.mp heq)
      rw [if_neg hother] at hpairs hnetworks
      rw [hrefund]
      exact ⟨hpairs, hnetworks⟩
  constructor
  · intro hempty
    rw [hsalt] at hempty
    exact absurd (h.fresh hempty).1 (List.cons_ne_nil _ _)
  · rw [hday]
    exact h.day_le
  · intro k hk
    rw [hday]
    exact h.days k (List.mem_cons_of_mem g hk)
  · intro k hk
    rw [hday, hsalt]
    exact h.keyed k (List.mem_cons_of_mem g hk)
  · unfold today
    rw [hday]
    exact hcounters.1
  · unfold today
    rw [hday]
    exact hcounters.2
  · intro day a b
    have hle := h.pairs_le day a b
    unfold pairCount at hle
    rw [List.countP_cons] at hle
    show rest.countP _ ≤ _
    omega
  · intro day key
    have hle := h.networks_le day key
    unfold netCount at hle
    rw [List.countP_cons] at hle
    show rest.countP _ ≤ _
    omega

/-- A step by an operation of the run keeps the books. -/
theorem Booked.step (h : Booked digest limits s) (hasked : Asked ops s)
    (hhash : HashedApart digest ops) (hop : op ∈ ops) (heq : s.step digest limits op = some s') :
    Booked digest limits s' := by
  cases op with
  | turn a b ip unixSecs random => exact h.turn hasked hhash hop heq
  | failed i =>
    obtain ⟨g, hg, rfl⟩ := Option.map_eq_some_iff.mp heq
    obtain ⟨hi, rfl⟩ := List.getElem?_eq_some_iff.mp hg
    have hfirst := h.perm (List.getElem_cons_eraseIdx_perm hi).symm
    exact hfirst.refund

/-- The books are kept over every run. -/
theorem booked_of_run (hhash : HashedApart digest ops)
    (hrun : runFrom (Ledger.step digest limits) {} ops = some s) :
    Booked digest limits s ∧ Asked ops s :=
  runFrom_invariant_of_mem (I := fun s => Booked digest limits s ∧ Asked ops s)
    (fun _ _ _ hop h hstep => ⟨h.1.step h.2 hhash hop hstep, h.2.step hop hstep⟩)
    ⟨booked_start, asked_start⟩ hrun

/-! ### The quota -/

/-- The counters as they stand on a day: none when it has not begun. -/
def pairsOn (q : TurnQuota) (day : Nat) (key : String) : Nat :=
  if day = q.day then q.pairs.count key else 0

def networksOn (q : TurnQuota) (day : Nat) (key : String) : Nat :=
  if day = q.day then q.networks.count key else 0

theorem countersOn_roll (h : Booked digest limits s) (random : Vector UInt8 16) (unixSecs : Nat) :
    pairsOn (s.quota.roll random unixSecs) (unixSecs / secondsPerDay)
        = pairsOn s.quota (unixSecs / secondsPerDay) ∧
      networksOn (s.quota.roll random unixSecs) (unixSecs / secondsPerDay)
        = networksOn s.quota (unixSecs / secondsPerDay) := by
  by_cases hsame : unixSecs / secondsPerDay = s.quota.day ∧ s.quota.salt ≠ ""
  · rw [roll_eq hsame]
    exact ⟨rfl, rfl⟩
  · have hroll : s.quota.roll random unixSecs
        = { day := unixSecs / secondsPerDay, salt := Base64.encodeUrl random.toList } := if_neg hsame
    by_cases hday : unixSecs / secondsPerDay = s.quota.day
    · -- Only the quota that has no salt yet begins the day it has.
      have hempty : s.quota.salt = "" := by
        by_contra hsalt
        exact hsame ⟨hday, hsalt⟩
      have hquota := (h.fresh hempty).2
      rw [hroll, hquota]
      constructor <;> funext key <;> simp [pairsOn, networksOn, Tally.count]
    · rw [hroll]
      constructor <;> funext key <;> simp [pairsOn, networksOn, Tally.count, hday]

end Ledger

open Ledger in
/-- The quota, over every run of requests and refunds with a clock that does
not go back and labels that hash apart. No day's grants pass the limit of a pair
or of a network. A refused request leaves the day's counters, and is refused
because a limit of its own is reached, if its labels hash apart too; a grant that
is given back at once leaves them; and a grant of another day changes nothing
when it is given back. -/
theorem turn_quota (hhash : HashedApart digest ops) {s : Ledger}
    (hrun : runFrom (Ledger.step digest limits) {} ops = some s) :
    (∀ day a b, s.pairCount day a b ≤ limits.turnPerPairPerDay) ∧
      (∀ day key, s.netCount day key ≤ TurnQuota.netCap limits key) ∧
      (∀ h ∈ s.held, h.grant.day ≠ s.quota.day → s.quota.refund h.grant = s.quota) ∧
      ∀ (a b : Fingerprint) ip unixSecs random, s.now ≤ unixSecs →
        let today := unixSecs / secondsPerDay
        match s.quota.tryGrant digest random a.text b.text (.ofIp ip) unixSecs limits with
        | (.error why, q) =>
          pairsOn q today = pairsOn s.quota today ∧ networksOn q today = networksOn s.quota today ∧
            (HashedApart digest (ops ++ [.turn a b ip unixSecs random]) →
              match why with
              | .pair => limits.turnPerPairPerDay ≤ s.pairCount today a b
              | .network => ∃ key, ip.under key = true ∧
                  TurnQuota.netCap limits key ≤ s.netCount today key)
        | (.ok grant, q) =>
          pairsOn (q.refund grant) today = pairsOn s.quota today ∧
            networksOn (q.refund grant) today = networksOn s.quota today := by
  obtain ⟨h, hasked⟩ := booked_of_run hhash hrun
  refine ⟨h.pairs_le, h.networks_le, fun g _ hday => if_pos hday, ?_⟩
  intro a b ip unixSecs random hnow today
  have hrolled := h.roll hnow random
  have hsalt := salt_roll s.quota random unixSecs
  have hop : QuotaOp.turn a b ip unixSecs random ∈ ops ++ [.turn a b ip unixSecs random] :=
    List.mem_append_right _ (List.mem_singleton_self _)
  have haskedMore := (hasked.mono [.turn a b ip unixSecs random]).roll hop
  obtain ⟨hpairLabel, hnetLabels⟩ := mem_labels hop
  have hday : (s.quota.roll random unixSecs).day = today := day_roll _ _ _
  obtain ⟨hpairsOn, hnetworksOn⟩ := countersOn_roll h random unixSecs
  cases hgrant : s.quota.tryGrant digest random a.text b.text (.ofIp ip) unixSecs limits with
  | mk answer q =>
    rcases tryGrant_cases hgrant with ⟨hfull, hr⟩ | ⟨⟨tier, htier, hfull⟩, hr⟩ | ⟨-, -, hr⟩
    · cases hr
      refine ⟨hpairsOn, hnetworksOn, fun hmore => ?_⟩
      have hpairs := hrolled.pairs_eq haskedMore hmore hsalt hpairLabel
      simp only [hday] at hpairs
      exact hpairs ▸ hfull
    · cases hr
      refine ⟨hpairsOn, hnetworksOn, fun hmore => ?_⟩
      have hnets := hrolled.networks_eq haskedMore hmore hsalt (hnetLabels tier htier)
      simp only [hday] at hnets
      exact ⟨tier, (mem_tiers_ofIp ip tier).mp htier, hnets ▸ hfull⟩
    · cases hr
      rw [← hpairsOn, ← hnetworksOn]
      -- What was added is taken off again.
      simp only [TurnQuota.refund, hday, ne_eq, not_true_eq_false, if_false]
      constructor
      · funext key
        simp [pairsOn]
      · funext key
        simp [networksOn, count_addAll, count_subAll]

/-- Two grants of one pair, the last of them given back. -/
def turnOps : List QuotaOp :=
  [.turn ⟨"A", by decide⟩ ⟨"B", by decide⟩ (.v4 #v[198, 51, 100, 7]) 1000
      (Vector.replicate 16 0),
    .turn ⟨"B", by decide⟩ ⟨"A", by decide⟩ (.v6 0x20010db8000000000000000000000001#128) 1001
      (Vector.replicate 16 0),
    .failed 0]

/-- The SHA-256 of what is hashed then. -/
def turnDigest (input : String) : Option (List UInt8) :=
  if input = "AAAAAAAAAAAAAAAAAAAAAA\npair\nA\nB" then
    some [162, 246, 187, 101, 254, 151, 60, 154, 0, 62, 244, 86, 127, 159, 143, 113,
      201, 233, 119, 225, 68, 67, 182, 201, 218, 162, 89, 74, 46, 205, 85, 70]
  else if input = "AAAAAAAAAAAAAAAAAAAAAA\nnet\n198.51.100.7" then
    some [8, 220, 139, 207, 109, 1, 31, 41, 46, 217, 93, 107, 32, 0, 72, 109,
      233, 154, 136, 74, 39, 245, 35, 2, 9, 38, 55, 177, 10, 166, 141, 124]
  else if input = "AAAAAAAAAAAAAAAAAAAAAA\nnet\n20010db800000000::/64" then
    some [243, 141, 140, 167, 145, 19, 11, 106, 250, 227, 141, 241, 218, 124, 3, 245,
      180, 6, 107, 98, 137, 242, 172, 53, 12, 208, 86, 57, 72, 231, 223, 64]
  else if input = "AAAAAAAAAAAAAAAAAAAAAA\nnet\n20010db80000::/48" then
    some [116, 45, 61, 12, 187, 236, 180, 163, 244, 60, 61, 110, 173, 64, 42, 159,
      212, 238, 49, 212, 70, 72, 119, 98, 120, 248, 48, 196, 168, 43, 45, 169]
  else none

/-- The pair has one grant left, from the IPv4 address. -/
theorem turn_quota_two :
    ∃ s, runFrom (Ledger.step turnDigest Limits.standard) {} turnOps = some s ∧
      s.pairCount 0 ⟨"A", by decide⟩ ⟨"B", by decide⟩ = 1 ∧
      s.pairCount 0 ⟨"A", by decide⟩ ⟨"B", by decide⟩ ≤ 20 := by
  have hhash : HashedApart turnDigest turnOps := by decide +kernel
  have hruns : (runFrom (Ledger.step turnDigest Limits.standard) {} turnOps).any
      (fun s => s.pairCount 0 ⟨"A", by decide⟩ ⟨"B", by decide⟩ == 1) = true := by
    decide +kernel
  obtain ⟨s, hrun, hcount⟩ := (Option.any_eq_true _ _).mp hruns
  exact ⟨s, hrun, beq_iff_eq.mp hcount, (turn_quota hhash hrun).1 0 _ _⟩

end DeskLink.Relay
