import DeskLink.Proofs.Relay.Networks

/-!
# `DeskLink.Proofs.Relay.Auths`: the rate of authentication attempts

What a bucket will have at a later time (`TokenBucket.level`) says all that
it will ever answer (`level_take`). A key without a bucket is a full one, so
forgetting full buckets is not seen: `prune` keeps every level
(`Alike.prune`).

* `auth_rate`: no more than a minute's tokens and what comes in are taken in
  any window, and no answer depends on when `prune` is called.
-/

set_option autoImplicit false

namespace DeskLink.Relay

/-! ### One bucket -/

namespace TokenBucket

variable {b : TokenBucket} {now u v : Rat}

/-- The tokens there will be at `u`. -/
def level (b : TokenBucket) (u : Rat) : Rat := (b.refill u).tokens

theorem level_le (b : TokenBucket) (u : Rat) : b.level u ≤ b.capacity := min_le_right _ _

theorem level_eq (h : b.last ≤ u) : b.level u = min (b.tokens + (u - b.last) * b.rate) b.capacity := by
  unfold level refill
  rw [max_eq_right (sub_nonneg.mpr h)]

/-- A bucket that starts full is full. -/
theorem level_new (rate capacity now : Rat) : (new rate capacity now).level now = capacity := by
  simp [level, refill, new]

/-- It fills at its rate, up to its capacity. -/
theorem level_later (hrate : 0 ≤ b.rate) (hlast : b.last ≤ u) (h : u ≤ v) :
    b.level v = min (b.level u + (v - u) * b.rate) b.capacity := by
  have hstep : (v - b.last) * b.rate = (u - b.last) * b.rate + (v - u) * b.rate := by ring
  have hmore : 0 ≤ (v - u) * b.rate := mul_nonneg (sub_nonneg.mpr h) hrate
  rw [level_eq hlast, level_eq (hlast.trans h), hstep]
  rcases le_total (b.tokens + (u - b.last) * b.rate) b.capacity with hle | hge
  · rw [min_eq_left hle]
    congr 1
    ring
  · rw [min_eq_right hge, min_eq_right (by linarith), min_eq_right (by linarith)]

/-- What is there at `now` decides a take, and what there will be after it. -/
theorem take_fst (b : TokenBucket) (now : Rat) :
    (b.take 1 now).1 = decide (1 ≤ b.level now) := by
  unfold take level
  simp only
  split
  · rename_i h
    simp [not_le.mpr h]
  · rename_i h
    simp [not_lt.mp h]

/-- One less, if one was taken. -/
def cost (b : TokenBucket) (now : Rat) : Rat := if 1 ≤ b.level now then 1 else 0

theorem take_snd (b : TokenBucket) (now : Rat) :
    (b.take 1 now).2 = { b.refill now with tokens := b.level now - b.cost now } := by
  unfold take level cost
  simp only
  split
  · rename_i h
    have hless : ¬1 ≤ b.level now := not_le.mpr h
    rw [if_neg hless, sub_zero]
  · rename_i h
    have henough : 1 ≤ b.level now := not_lt.mp h
    rw [if_pos henough]

theorem level_take (hlast : b.last ≤ now) (h : now ≤ u) :
    (b.take 1 now).2.level u
      = min (b.level now - b.cost now + (u - now) * b.rate) b.capacity := by
  have hnow : (b.refill now).last = now := max_eq_right hlast
  rw [take_snd, level_eq]
  · show min (_ + (u - (b.refill now).last) * b.rate) b.capacity = _
    rw [hnow]
  · show (b.refill now).last ≤ u
    rwa [hnow]

theorem level_refill (hrate : 0 ≤ b.rate) (hlast : b.last ≤ now) (h : now ≤ u) :
    (b.refill now).level u = b.level u := by
  have hnow : (b.refill now).last = now := max_eq_right hlast
  rw [level_eq (by rwa [hnow]), hnow, level_later hrate hlast h]
  rfl

/-- No more is taken than is there. -/
theorem cost_le (h : 0 ≤ b.level now) : b.cost now ≤ b.level now := by
  unfold cost
  split
  · assumption
  · exact h

end TokenBucket

/-! ### The buckets of the networks -/

namespace NetLimits

variable {n : NetLimits} {key : NetKey} {now u v : Rat}

/-- What there will be under a key. -/
def level (n : NetLimits) (key : NetKey) (u : Rat) : Rat := (n.bucket key u).level u

/-- A call at `now` takes a token under the key. -/
def took (n : NetLimits) (key : NetKey) (now : Rat) : Bool := ((n.bucket key now).take 1 now).1

theorem took_eq (n : NetLimits) (key : NetKey) (now : Rat) :
    n.took key now = decide (1 ≤ n.level key now) := TokenBucket.take_fst _ _

/-- Charging several keys: each for itself. -/
theorem foldl_charge {tiers : List NetKey} (hnodup : tiers.Nodup) (allowed : Bool) :
    (tiers.foldl (fun (allowed, n) tier =>
        let (took, n) := n.charge now tier
        (allowed && took, n)) (allowed, n))
      = (allowed && tiers.all (fun tier => n.took tier now),
        { n with auths := fun key =>
            if key ∈ tiers then some ((n.bucket key now).take 1 now).2 else n.auths key }) := by
  induction tiers generalizing allowed n with
  | nil => simp
  | cons tier tiers ih =>
    obtain ⟨hnew, hrest⟩ := List.nodup_cons.mp hnodup
    have hbucket : ∀ key ∈ tiers, (n.charge now tier).2.bucket key now = n.bucket key now := by
      intro key hkey
      have hne : key ≠ tier := fun h => hnew (h ▸ hkey)
      simp [charge, bucket, Function.update_of_ne hne]
    rw [List.foldl_cons]
    show tiers.foldl _ (allowed && n.took tier now, (n.charge now tier).2) = _
    rw [ih hrest]
    have htook : tiers.all (fun key => (n.charge now tier).2.took key now)
        = tiers.all (fun key => n.took key now) := by
      rw [Bool.eq_iff_iff, List.all_eq_true, List.all_eq_true]
      constructor
      · intro h key hkey
        have htaken := h key hkey
        rwa [took, hbucket key hkey] at htaken
      · intro h key hkey
        rw [took, hbucket key hkey]
        exact h key hkey
    have hauths : (fun key => if key ∈ tiers then
          some (((n.charge now tier).2.bucket key now).take 1 now).2
          else (n.charge now tier).2.auths key)
        = fun key => if key ∈ tier :: tiers then some ((n.bucket key now).take 1 now).2
          else n.auths key := by
      funext key
      by_cases hkey : key ∈ tiers
      · rw [if_pos hkey, if_pos (List.mem_cons_of_mem tier hkey), hbucket key hkey]
      · by_cases heq : key = tier
        · subst heq
          simp [hkey, charge]
        · simp [hkey, heq, charge]
    rw [htook, hauths, List.all_cons, Bool.and_assoc]
    rfl

theorem allowAuth_fst (n : NetLimits) (key : NetKey) (now : Rat) :
    (n.allowAuth key now).1 = key.tiers.all (fun tier => n.took tier now) := by
  unfold allowAuth
  rw [foldl_charge (nodup_tiers key)]
  rfl

theorem allowAuth_snd (n : NetLimits) (key : NetKey) (now : Rat) :
    (n.allowAuth key now).2
      = { n with auths := fun tier =>
            if tier ∈ key.tiers then some ((n.bucket tier now).take 1 now).2 else n.auths tier } := by
  unfold allowAuth
  rw [foldl_charge (nodup_tiers key)]

/-- The buckets at `now`, of limits that are not negative. -/
structure Filled (n : NetLimits) (key : NetKey) (now : Rat) : Prop where
  positive : 0 ≤ authsPerMin n.limits key
  rate : ∀ b, n.auths key = some b → b.rate = authsPerMin n.limits key / 60
  capacity : ∀ b, n.auths key = some b → b.capacity = authsPerMin n.limits key
  last : ∀ b, n.auths key = some b → b.last ≤ now
  /-- There is never less than nothing. -/
  tokens : ∀ b, n.auths key = some b → 0 ≤ b.tokens

theorem Filled.later (h : Filled n key u) (huv : u ≤ v) : Filled n key v :=
  { h with last := fun b hb => (h.last b hb).trans huv }

/-- The bucket of a key that is there, or made now. -/
theorem Filled.bucket (h : Filled n key now) :
    (n.bucket key now).rate = authsPerMin n.limits key / 60 ∧
      (n.bucket key now).capacity = authsPerMin n.limits key ∧
      (n.bucket key now).last ≤ now ∧ 0 ≤ (n.bucket key now).tokens := by
  unfold NetLimits.bucket
  cases hb : n.auths key with
  | none => exact ⟨rfl, rfl, le_refl now, h.positive⟩
  | some b => exact ⟨h.rate b hb, h.capacity b hb, h.last b hb, h.tokens b hb⟩

/-- A later look at the bucket that is made now. -/
theorem Filled.level_bucket (h : Filled n key now) (hu : now ≤ u) :
    (n.bucket key now).level u = n.level key u := by
  unfold NetLimits.level NetLimits.bucket
  cases hb : n.auths key with
  | some b => rfl
  | none =>
    have hrate : 0 ≤ authsPerMin n.limits key / 60 := div_nonneg h.positive (by norm_num)
    have hmore := mul_nonneg (sub_nonneg.mpr hu) hrate
    show (TokenBucket.new _ _ now).level u = (TokenBucket.new _ _ u).level u
    rw [TokenBucket.level_new]
    rw [TokenBucket.level_eq (by exact hu)]
    exact min_eq_right (le_add_of_nonneg_right hmore)

theorem Filled.level_later (h : Filled n key now) (hu : now ≤ u) (huv : u ≤ v) :
    n.level key v = min (n.level key u + (v - u) * (authsPerMin n.limits key / 60))
      (authsPerMin n.limits key) := by
  obtain ⟨hrate, hcapacity, hlast, -⟩ := h.bucket
  have hnonneg : 0 ≤ (n.bucket key now).rate := by
    rw [hrate]
    exact div_nonneg h.positive (by norm_num)
  rw [← h.level_bucket hu, ← h.level_bucket (hu.trans huv),
    TokenBucket.level_later hnonneg (hlast.trans hu) huv, hrate, hcapacity]

theorem Filled.level_le (h : Filled n key now) (hu : now ≤ u) :
    n.level key u ≤ authsPerMin n.limits key := by
  have hle := TokenBucket.level_le (n.bucket key now) u
  rwa [h.bucket.2.1, h.level_bucket hu] at hle

theorem Filled.level_nonneg (h : Filled n key now) (hu : now ≤ u) : 0 ≤ n.level key u := by
  obtain ⟨hrate, hcapacity, hlast, htokens⟩ := h.bucket
  have hmore : 0 ≤ (u - (n.bucket key now).last) * (n.bucket key now).rate := by
    apply mul_nonneg (sub_nonneg.mpr (hlast.trans hu))
    rw [hrate]
    exact div_nonneg h.positive (by norm_num)
  rw [← h.level_bucket hu, TokenBucket.level_eq (hlast.trans hu), hcapacity]
  exact le_min (add_nonneg htokens hmore) h.positive

/-! ### Steps -/

/-- What a call costs under a key. -/
def cost (n : NetLimits) (key : NetKey) (now : Rat) : Rat := if n.took key now then 1 else 0

/-- A call under the key. -/
theorem Filled.charged (h : Filled n key now) {network : NetKey} (hkey : key ∈ network.tiers) :
    Filled (n.allowAuth network now).2 key now ∧
      ∀ u, now ≤ u → (n.allowAuth network now).2.level key u
        = min (n.level key now - n.cost key now + (u - now) * (authsPerMin n.limits key / 60))
          (authsPerMin n.limits key) := by
  obtain ⟨hrate, hcapacity, hlast, -⟩ := h.bucket
  have hauths : (n.allowAuth network now).2.auths key
      = some ((n.bucket key now).take 1 now).2 := by
    rw [allowAuth_snd]
    exact if_pos hkey
  have hlimits : (n.allowAuth network now).2.limits = n.limits := by rw [allowAuth_snd]
  have hcost : (n.bucket key now).cost now = n.cost key now := by
    unfold TokenBucket.cost cost
    rw [took_eq]
    simp only [decide_eq_true_eq]
    rfl
  have hnonneg : 0 ≤ (n.bucket key now).level now := h.level_nonneg (le_refl now)
  have htokens := TokenBucket.cost_le hnonneg
  constructor
  · have hone : ∀ b, (n.allowAuth network now).2.auths key = some b →
        b = { (n.bucket key now).refill now with
          tokens := (n.bucket key now).level now - (n.bucket key now).cost now } := by
      intro b hb
      rw [hauths, TokenBucket.take_snd] at hb
      exact (Option.some.inj hb).symm
    constructor
    · rw [hlimits]
      exact h.positive
    · intro b hb
      rw [hone b hb, hlimits]
      exact hrate
    · intro b hb
      rw [hone b hb, hlimits]
      exact hcapacity
    · intro b hb
      rw [hone b hb]
      exact max_le hlast (le_refl now)
    · intro b hb
      rw [hone b hb]
      exact sub_nonneg.mpr htokens
  · intro u hu
    have hlevel : (n.allowAuth network now).2.level key u
        = ((n.bucket key now).take 1 now).2.level u := by
      unfold NetLimits.level NetLimits.bucket
      rw [hauths]
      rfl
    rw [hlevel, TokenBucket.level_take hlast hu, hrate, hcapacity, hcost]
    rfl

/-- A call of another network is not seen. -/
theorem Filled.spared (h : Filled n key now) {network : NetKey} (hkey : key ∉ network.tiers) :
    Filled (n.allowAuth network now).2 key now ∧
      ∀ u, (n.allowAuth network now).2.level key u = n.level key u := by
  have hauths : (n.allowAuth network now).2.auths key = n.auths key := by
    rw [allowAuth_snd]
    exact if_neg hkey
  have hlimits : (n.allowAuth network now).2.limits = n.limits := by rw [allowAuth_snd]
  constructor
  · constructor
    · rw [hlimits]
      exact h.positive
    · rw [hauths, hlimits]
      exact h.rate
    · rw [hauths, hlimits]
      exact h.capacity
    · rw [hauths]
      exact h.last
    · rw [hauths]
      exact h.tokens
  · intro u
    unfold NetLimits.level NetLimits.bucket
    rw [hauths, hlimits]

/-- Forgetting full buckets is not seen: a key without one is full too. -/
theorem Filled.pruned (h : Filled n key now) :
    Filled (n.prune now) key now ∧ ∀ u, now ≤ u → (n.prune now).level key u = n.level key u := by
  have hrate : 0 ≤ authsPerMin n.limits key / 60 := div_nonneg h.positive (by norm_num)
  cases hb : n.auths key with
  | none =>
    have hauths : (n.prune now).auths key = none := by simp [prune, hb]
    have hnone : ∀ b, (n.prune now).auths key ≠ some b := by simp [hauths]
    constructor
    · exact ⟨h.positive, fun b hb => absurd hb (hnone b), fun b hb => absurd hb (hnone b),
        fun b hb => absurd hb (hnone b), fun b hb => absurd hb (hnone b)⟩
    · intro u _
      unfold NetLimits.level NetLimits.bucket
      rw [hauths, hb]
      rfl
  | some b =>
    have hlast := h.last b hb
    have hb_rate := h.rate b hb
    have hb_capacity := h.capacity b hb
    have hlevel : ∀ u, n.level key u = b.level u := by
      intro u
      unfold NetLimits.level NetLimits.bucket
      rw [hb]
      rfl
    by_cases hfull : b.capacity ≤ b.level now
    · have hauths : (n.prune now).auths key = none := by
        have hfull' : b.capacity ≤ (b.refill now).tokens := hfull
        have hcap : (b.refill now).capacity = b.capacity := rfl
        simp [prune, hb, TokenBucket.isFull, hcap, hfull']
      have hnone : ∀ b, (n.prune now).auths key ≠ some b := by simp [hauths]
      constructor
      · exact ⟨h.positive, fun b hb => absurd hb (hnone b), fun b hb => absurd hb (hnone b),
          fun b hb => absurd hb (hnone b), fun b hb => absurd hb (hnone b)⟩
      · intro u hu
        have hmore := mul_nonneg (sub_nonneg.mpr hu) (hb_rate ▸ hrate)
        have hnew : (n.prune now).level key u = authsPerMin n.limits key := by
          unfold NetLimits.level NetLimits.bucket
          rw [hauths]
          exact TokenBucket.level_new _ _ _
        rw [hnew, hlevel, TokenBucket.level_later (hb_rate ▸ hrate) hlast hu, ← hb_capacity]
        exact (min_eq_right (by linarith)).symm
    · have hauths : (n.prune now).auths key = some (b.refill now) := by
        have hfull' : ¬b.capacity ≤ (b.refill now).tokens := hfull
        have hcap : (b.refill now).capacity = b.capacity := rfl
        simp [prune, hb, TokenBucket.isFull, hcap, hfull']
      have hone : ∀ c, (n.prune now).auths key = some c → c = b.refill now := by
        intro c hc
        rw [hauths] at hc
        exact (Option.some.inj hc).symm
      constructor
      · constructor
        · exact h.positive
        · intro c hc
          rw [hone c hc]
          exact hb_rate
        · intro c hc
          rw [hone c hc]
          exact hb_capacity
        · intro c hc
          rw [hone c hc]
          exact max_le hlast (le_refl now)
        · intro c hc
          rw [hone c hc]
          have hnonneg := h.level_nonneg (le_refl now)
          rw [hlevel] at hnonneg
          exact hnonneg
      · intro u hu
        have hkept : (n.prune now).level key u = (b.refill now).level u := by
          unfold NetLimits.level NetLimits.bucket
          rw [hauths]
          rfl
        rw [hkept, hlevel]
        exact TokenBucket.level_refill (hb_rate ▸ hrate) hlast hu

end NetLimits

/-! ### Runs -/

/-- A call, with the clock it reads. -/
inductive AuthOp where
  | allow (ip : IpAddr) (now : Rat)
  | prune (now : Rat)
deriving DecidableEq

namespace AuthOp

def now : AuthOp → Rat
  | allow _ now => now
  | prune now => now

def isAllow : AuthOp → Bool
  | allow .. => true
  | prune _ => false

/-- The limits after a call. -/
def run (n : NetLimits) : AuthOp → NetLimits
  | allow ip now => (n.allowAuth (.ofIp ip) now).2
  | prune now => n.prune now

end AuthOp

/-- What the calls answer, one after the other. -/
def answers : NetLimits → List AuthOp → List Bool
  | _, [] => []
  | n, .allow ip now :: ops =>
    (n.allowAuth (.ofIp ip) now).1 :: answers (n.allowAuth (.ofIp ip) now).2 ops
  | n, .prune now :: ops => answers (n.prune now) ops

/-- How many calls from `s` to `t` take a token under `key`. -/
def taken (key : NetKey) (s t : Rat) : NetLimits → List AuthOp → Nat
  | _, [] => 0
  | n, .allow ip now :: ops =>
    (if ip.under key = true ∧ s ≤ now ∧ now ≤ t ∧ n.took key now = true then 1 else 0)
      + taken key s t (n.allowAuth (.ofIp ip) now).2 ops
  | n, .prune now :: ops => taken key s t (n.prune now) ops

namespace NetLimits

variable {n m : NetLimits} {key : NetKey} {s t now : Rat} {ops : List AuthOp}

/-- No call takes a token later than the window. -/
theorem taken_late (h : ∀ op ∈ ops, t < op.now) : taken key s t n ops = 0 := by
  induction ops generalizing n with
  | nil => rfl
  | cons op ops ih =>
    have hrest : ∀ op ∈ ops, t < op.now := fun o ho => h o (List.mem_cons_of_mem op ho)
    have hfirst := h op List.mem_cons_self
    cases op with
    | allow ip now =>
      have hlate : ¬now ≤ t := not_le.mpr hfirst
      simp [taken, hlate, ih hrest]
    | prune now => exact ih hrest

/-- What a call takes under a key. -/
def spent (n : NetLimits) (key : NetKey) : AuthOp → Rat
  | .allow ip now => if ip.under key then n.cost key now else 0
  | .prune _ => 0

theorem limits_run (n : NetLimits) (op : AuthOp) : (op.run n).limits = n.limits := by
  cases op with
  | allow ip now =>
    show (n.allowAuth (.ofIp ip) now).2.limits = _
    rw [allowAuth_snd]
  | prune now => rfl

/-- A call lowers what there is by what it takes, and what there will be by
no less than nothing. -/
theorem Filled.run {op : AuthOp} (h : Filled n key op.now) :
    Filled (op.run n) key op.now ∧
      (∀ v, op.now ≤ v → (op.run n).level key v ≤ n.level key v) ∧
      (op.run n).level key op.now = n.level key op.now - n.spent key op := by
  cases op with
  | prune now =>
    obtain ⟨hfilled, hlevel⟩ := h.pruned
    refine ⟨hfilled, fun v hv => (hlevel v hv).le, ?_⟩
    show _ = _ - 0
    rw [sub_zero]
    exact hlevel now (le_refl now)
  | allow ip now =>
    have h : Filled n key now := h
    by_cases hunder : ip.under key = true
    · obtain ⟨hfilled, hlevel⟩ := h.charged ((mem_tiers_ofIp ip key).mpr hunder)
      have hcost : 0 ≤ n.cost key now := by
        unfold cost
        split <;> simp
      have hcap := h.level_le (le_refl now)
      refine ⟨hfilled, fun v hv => ?_, ?_⟩
      · show (n.allowAuth (.ofIp ip) now).2.level key v ≤ _
        rw [hlevel v hv, h.level_later (le_refl now) hv]
        apply min_le_min_right
        linarith
      · show (n.allowAuth (.ofIp ip) now).2.level key now = n.level key now - n.spent key _
        have hspent : n.spent key (.allow ip now) = n.cost key now := if_pos hunder
        rw [hlevel now (le_refl now), hspent, sub_self, zero_mul, add_zero]
        exact min_eq_left (by linarith)
    · obtain ⟨hfilled, hlevel⟩ :=
        @Filled.spared _ _ _ h (.ofIp ip) (fun hmem => hunder ((mem_tiers_ofIp ip key).mp hmem))
      refine ⟨hfilled, fun v _ => (hlevel v).le, ?_⟩
      have hspent : n.spent key (.allow ip now) = 0 := if_neg hunder
      rw [hspent, sub_zero]
      exact hlevel now

theorem taken_cons (key : NetKey) (s t : Rat) (n : NetLimits) (op : AuthOp) (ops : List AuthOp) :
    (taken key s t n (op :: ops) : Rat)
      = (if s ≤ op.now ∧ op.now ≤ t then n.spent key op else 0)
        + taken key s t (op.run n) ops := by
  cases op with
  | prune now =>
    have hnone : (if s ≤ now ∧ now ≤ t then (0 : Rat) else 0) = 0 := by split <;> rfl
    show _ = (if s ≤ now ∧ now ≤ t then (0 : Rat) else 0) + _
    rw [hnone, zero_add]
    rfl
  | allow ip now =>
    show ((_ + taken key s t _ ops : Nat) : Rat) = (if s ≤ now ∧ now ≤ t then _ else 0) + _
    rw [Nat.cast_add]
    congr 1
    simp only [spent, cost]
    by_cases hunder : ip.under key = true
    · by_cases hwindow : s ≤ now ∧ now ≤ t
      · by_cases htook : n.took key now = true
        · simp [hunder, hwindow, htook]
        · simp [hunder, htook]
      · have hout : ¬(ip.under key = true ∧ s ≤ now ∧ now ≤ t ∧ n.took key now = true) :=
          fun h => hwindow ⟨h.2.1, h.2.2.1⟩
        rw [if_neg hout, if_neg hwindow, Nat.cast_zero]
    · simp [hunder]

/-- From `u` on, no more is taken than what there is at `u`, and what comes in. -/
theorem Filled.taken_le {u : Rat} (h : Filled n key now)
    (hsorted : ops.Pairwise (fun a b => a.now ≤ b.now)) (hstart : ∀ op ∈ ops, now ≤ op.now)
    (hu : now ≤ u) (hs : s ≤ u) (ht : u ≤ t) (hfrom : ∀ op ∈ ops, s ≤ op.now → u ≤ op.now) :
    (taken key s t n ops : Rat)
      ≤ n.level key u + (t - u) * (authsPerMin n.limits key / 60) := by
  have hrate : 0 ≤ authsPerMin n.limits key / 60 := div_nonneg h.positive (by norm_num)
  -- Along the calls, the place from which is counted moving with them.
  induction ops generalizing n now u with
  | nil =>
    have hlevel := h.level_nonneg hu
    have hmore := mul_nonneg (sub_nonneg.mpr ht) hrate
    simp only [taken, Nat.cast_zero]
    linarith
  | cons op ops ih =>
    obtain ⟨hnext, hrest⟩ := List.pairwise_cons.mp hsorted
    have hnow := hstart op List.mem_cons_self
    have hlater := h.later hnow
    obtain ⟨hfilled, hless, hspent⟩ := hlater.run
    have hlimits := limits_run n op
    have hrate' : 0 ≤ authsPerMin (op.run n).limits key / 60 := by rwa [hlimits]
    rcases le_or_gt op.now t with hin | hlate
    · rcases le_or_gt s op.now with hsince | hbefore
      · -- It is in the window: from here on its own time counts.
        have hfirst := hfrom op List.mem_cons_self hsince
        have hmore := ih hfilled hrest hnext (le_refl _) hsince hin (fun o ho _ => hnext o ho)
          hrate'
        have hgrown := h.level_later hu hfirst
        have hcap : n.level key op.now
            ≤ n.level key u + (op.now - u) * (authsPerMin n.limits key / 60) := by
          rw [hgrown]
          exact min_le_left _ _
        rw [taken_cons, if_pos ⟨hsince, hin⟩]
        rw [hspent, hlimits] at hmore
        linarith
      · -- It is before the window.
        have hout : ¬(s ≤ op.now ∧ op.now ≤ t) := fun hwindow => absurd hwindow.1 (not_le.mpr hbefore)
        have hmore := ih hfilled hrest hnext (hbefore.le.trans hs) hs ht
          (fun o ho => hfrom o (List.mem_cons_of_mem op ho)) hrate'
        have hleft := hless u (hbefore.le.trans hs)
        rw [taken_cons, if_neg hout]
        rw [hlimits] at hmore
        linarith
    · have hall : ∀ o ∈ op :: ops, t < o.now := by
        intro o ho
        rcases List.mem_cons.mp ho with rfl | ho
        · exact hlate
        · exact hlate.trans_le (hnext o ho)
      have hlevel := h.level_nonneg hu
      have hmore := mul_nonneg (sub_nonneg.mpr ht) hrate
      rw [taken_late hall, Nat.cast_zero]
      linarith

/-! ### Forgetting -/

/-- A bucket holds what its limit says, whatever the limit is. -/
def Capped (n : NetLimits) (key : NetKey) : Prop :=
  ∀ b, n.auths key = some b → b.capacity = authsPerMin n.limits key

theorem Capped.run (h : Capped n key) (op : AuthOp) : Capped (op.run n) key := by
  have hlimits := limits_run n op
  intro b hb
  rw [hlimits]
  cases op with
  | allow ip now =>
    change (n.allowAuth (.ofIp ip) now).2.auths key = some b at hb
    rw [allowAuth_snd] at hb
    by_cases hkey : key ∈ (NetKey.ofIp ip).tiers
    · simp only [if_pos hkey, Option.some.injEq, TokenBucket.take_snd] at hb
      rw [← hb]
      show (n.bucket key now).capacity = _
      unfold NetLimits.bucket
      cases hold : n.auths key with
      | none => rfl
      | some c => exact h c hold
    · simp only [if_neg hkey] at hb
      exact h b hb
  | prune now =>
    simp only [AuthOp.run, prune] at hb
    cases hold : n.auths key with
    | none => simp [hold] at hb
    | some c =>
      simp only [hold, TokenBucket.isFull] at hb
      by_cases hfull : (c.refill now).capacity ≤ (c.refill now).tokens
      · simp [hfull] at hb
      · simp only [decide_eq_true_eq, if_neg hfull, Option.some.injEq] at hb
        rw [← hb]
        exact h c hold

/-- A limit below one lets nobody in. -/
theorem Capped.refuses (h : Capped n key) (hsmall : authsPerMin n.limits key < 1) (u : Rat) :
    n.took key u = false := by
  have hcapacity : (n.bucket key u).capacity = authsPerMin n.limits key := by
    unfold NetLimits.bucket
    cases hold : n.auths key with
    | none => rfl
    | some c => exact h c hold
  have hle := TokenBucket.level_le (n.bucket key u) u
  rw [took_eq, decide_eq_false_iff_not, not_le]
  exact lt_of_le_of_lt (hcapacity ▸ hle) hsmall

/-- Two states that answer alike from `now` on. -/
structure Alike (n m : NetLimits) (now : Rat) : Prop where
  limits : n.limits = m.limits
  capped : ∀ key, Capped n key ∧ Capped m key
  levels : ∀ key, 1 ≤ authsPerMin n.limits key →
    Filled n key now ∧ Filled m key now ∧ ∀ u, now ≤ u → n.level key u = m.level key u

theorem Alike.took (h : Alike n m now) (key : NetKey) : n.took key now = m.took key now := by
  rcases lt_or_ge (authsPerMin n.limits key) 1 with hsmall | hlarge
  · rw [(h.capped key).1.refuses hsmall, (h.capped key).2.refuses (h.limits ▸ hsmall)]
  · obtain ⟨-, -, hlevel⟩ := h.levels key hlarge
    rw [took_eq, took_eq, hlevel now (le_refl now)]

theorem Alike.later {v : Rat} (h : Alike n m now) (hv : now ≤ v) : Alike n m v where
  limits := h.limits
  capped := h.capped
  levels key hlarge := by
    obtain ⟨hn, hm, hlevel⟩ := h.levels key hlarge
    exact ⟨hn.later hv, hm.later hv, fun u hu => hlevel u (hv.trans hu)⟩

theorem Alike.allow (h : Alike n m now) (ip : IpAddr) :
    Alike (n.allowAuth (.ofIp ip) now).2 (m.allowAuth (.ofIp ip) now).2 now where
  limits := by
    have hn := limits_run n (.allow ip now)
    have hm := limits_run m (.allow ip now)
    exact hn.trans (h.limits.trans hm.symm)
  capped key := ⟨(h.capped key).1.run (.allow ip now), (h.capped key).2.run (.allow ip now)⟩
  levels key hlarge := by
    have hlimits : (n.allowAuth (.ofIp ip) now).2.limits = n.limits := limits_run n (.allow ip now)
    rw [hlimits] at hlarge
    obtain ⟨hn, hm, hlevel⟩ := h.levels key hlarge
    by_cases hkey : key ∈ (NetKey.ofIp ip).tiers
    · obtain ⟨hn', hnl⟩ := hn.charged hkey
      obtain ⟨hm', hml⟩ := hm.charged hkey
      refine ⟨hn', hm', fun u hu => ?_⟩
      have hcost : n.cost key now = m.cost key now := by
        unfold cost
        rw [h.took key]
      rw [hnl u hu, hml u hu, hlevel now (le_refl now), hcost, h.limits]
    · obtain ⟨hn', hnl⟩ := hn.spared hkey
      obtain ⟨hm', hml⟩ := hm.spared hkey
      refine ⟨hn', hm', fun u hu => ?_⟩
      rw [hnl u, hml u]
      exact hlevel u hu

/-- Forgetting on one side only. -/
theorem Alike.prune (h : Alike n m now) : Alike (n.prune now) m now where
  limits := h.limits
  capped key := ⟨(h.capped key).1.run (.prune now), (h.capped key).2⟩
  levels key hlarge := by
    obtain ⟨hn, hm, hlevel⟩ := h.levels key hlarge
    obtain ⟨hn', hnl⟩ := hn.pruned
    exact ⟨hn', hm, fun u hu => (hnl u hu).trans (hlevel u hu)⟩

theorem Alike.answers (h : Alike n m now) (hsorted : ops.Pairwise (fun a b => a.now ≤ b.now))
    (hstart : ∀ op ∈ ops, now ≤ op.now) : answers n ops = answers m (ops.filter (·.isAllow)) := by
  induction ops generalizing n m now with
  | nil => rfl
  | cons op ops ih =>
    obtain ⟨hnext, hrest⟩ := List.pairwise_cons.mp hsorted
    have hlater := h.later (hstart op List.mem_cons_self)
    cases op with
    | allow ip now =>
      have hlater : Alike n m now := hlater
      have hsame : (n.allowAuth (.ofIp ip) now).1 = (m.allowAuth (.ofIp ip) now).1 := by
        rw [allowAuth_fst, allowAuth_fst]
        congr 1
        funext tier
        exact hlater.took tier
      show _ :: _ = _ :: _
      rw [hsame, ih (hlater.allow ip) hrest hnext]
    | prune now => exact ih hlater.prune hrest hnext

/-- No bucket yet. -/
theorem filled_start {limits : Limits} (hpositive : 0 ≤ authsPerMin limits key) (now : Rat) :
    Filled { limits } key now :=
  have hnone : ∀ b, ({ limits } : NetLimits).auths key ≠ some b := fun b hb => by cases hb
  ⟨hpositive, fun b hb => absurd hb (hnone b), fun b hb => absurd hb (hnone b),
    fun b hb => absurd hb (hnone b), fun b hb => absurd hb (hnone b)⟩

theorem capped_start {limits : Limits} (key : NetKey) : Capped { limits } key :=
  fun _ hb => by cases hb

theorem taken_eq_zero (h : Capped n key) (hsmall : authsPerMin n.limits key < 1) :
    taken key s t n ops = 0 := by
  induction ops generalizing n with
  | nil => rfl
  | cons op ops ih =>
    have hrest := ih (h.run op) (by rwa [limits_run])
    cases op with
    | allow ip now =>
      have hnone := h.refuses hsmall now
      show (if _ then 1 else 0) + taken key s t ((AuthOp.allow ip now).run n) ops = 0
      rw [hrest, hnone]
      simp
    | prune now => exact hrest

end NetLimits

open NetLimits in
/-- The attempts, for every sequence of calls whose times do not go back, with
`prune` called at any times between them. Under one key no more tokens are
taken from one time to another than a minute's, and those that come in; under
a limit below one, none. And no answer depends on the calls of `prune`. -/
theorem auth_rate {limits : Limits} {ops : List AuthOp}
    (hsorted : ops.Pairwise (fun a b => a.now ≤ b.now)) :
    (∀ key s t, s ≤ t → 0 ≤ authsPerMin limits key →
      (taken key s t { limits } ops : Rat)
        ≤ authsPerMin limits key + authsPerMin limits key * (t - s) / 60) ∧
      (∀ key s t, authsPerMin limits key < 1 → taken key s t { limits } ops = 0) ∧
      answers { limits } ops = answers { limits } (ops.filter (·.isAllow)) := by
  -- A time before all the calls.
  obtain ⟨first, hfirst⟩ : ∃ first, ∀ op ∈ ops, first ≤ op.now := by
    cases ops with
    | nil => exact ⟨0, fun op hop => absurd hop List.not_mem_nil⟩
    | cons op ops =>
      obtain ⟨hnext, -⟩ := List.pairwise_cons.mp hsorted
      refine ⟨op.now, fun o ho => ?_⟩
      rcases List.mem_cons.mp ho with rfl | ho
      · exact le_refl _
      · exact hnext o ho
  refine ⟨?_, ?_, ?_⟩
  · intro key s t hst hpositive
    have hbefore : ∀ op ∈ ops, min first s ≤ op.now := fun op hop => (min_le_left _ _).trans (hfirst op hop)
    have hfilled := filled_start hpositive (min first s)
    have htaken := hfilled.taken_le hsorted hbefore (min_le_right _ _) (le_refl s) hst
      (fun _ _ h => h)
    have hlevel := hfilled.level_le (min_le_right first s)
    have hrate : (t - s) * (authsPerMin limits key / 60) = authsPerMin limits key * (t - s) / 60 := by
      ring
    have hlevel' : NetLimits.level { limits } key s ≤ authsPerMin limits key := hlevel
    have htaken' : (taken key s t { limits } ops : Rat)
        ≤ NetLimits.level { limits } key s + (t - s) * (authsPerMin limits key / 60) := htaken
    linarith
  · intro key s t hsmall
    exact taken_eq_zero (capped_start key) hsmall
  · have halike : NetLimits.Alike { limits } { limits } first := by
      refine ⟨rfl, fun key => ⟨capped_start key, capped_start key⟩, fun key hlarge => ?_⟩
      have hpositive : 0 ≤ authsPerMin limits key := le_trans zero_le_one hlarge
      exact ⟨filled_start hpositive first, filled_start hpositive first, fun _ _ => rfl⟩
    exact halike.answers hsorted hfirst

/-- Two attempts and a pruning. -/
theorem auth_rate_two :
    (taken (.v4 #v[100, 64, 0, 1]) 0 60 { limits := Limits.standard }
      [.allow (.v4 #v[100, 64, 0, 1]) 0, .prune 1, .allow (.v4 #v[100, 64, 0, 1]) 2] : Rat)
      ≤ 300 + 300 * (60 - 0) / 60 := by
  have hrate := (@auth_rate Limits.standard
    [.allow (.v4 #v[100, 64, 0, 1]) 0, .prune 1, .allow (.v4 #v[100, 64, 0, 1]) 2] (by decide)).1
  have hpositive : (0 : Rat) ≤ 300 := by norm_num
  exact hrate (.v4 #v[100, 64, 0, 1]) 0 60 (by norm_num) hpositive

end DeskLink.Relay
