import DeskLink.Lib.Run
import DeskLink.Proofs.Relay.Networks
import DeskLink.Relay.Server

/-!
# `DeskLink.Proofs.Relay.Connections`: the books of the connections

`Accounted` is the invariant of the server: `total` counts its connections,
and under each key the map counts the connections that were admitted from
addresses under it, and has no other key. `unauthenticated` counts those that
have not authenticated, less one for each authenticated connection whose
thread panicked and left its slot unmarked.

* `connections_accounted`: so it is over every run, and no cap is passed.
-/

set_option autoImplicit false

namespace DeskLink.Relay

open Lib

/-! ### One connection among others -/

/-- The keys that a connection holds a place under. -/
def Conn.held (c : Conn) : List NetKey :=
  match c.phase with
  | .admitted ip => (NetKey.ofIp ip).tiers
  | _ => []

/-- It was admitted, from an address under the key. -/
def Conn.under (c : Conn) (key : NetKey) : Bool :=
  match c.phase with
  | .admitted ip => ip.under key
  | _ => false

/-- How many have not authenticated. -/
def unproved (conns : List Conn) : Nat := conns.countP (fun c => !c.authenticated)

theorem unproved_cons (c : Conn) (conns : List Conn) :
    unproved (c :: conns) = unproved conns + if c.authenticated then 0 else 1 := by
  unfold unproved
  rw [List.countP_cons]
  cases c.authenticated <;> simp

theorem count_held (conns : List Conn) (key : NetKey) :
    (conns.flatMap Conn.held).count key = conns.countP (fun c => c.under key) := by
  induction conns with
  | nil => rfl
  | cons c conns ih =>
    rw [List.flatMap_cons, List.count_append, ih, List.countP_cons, Nat.add_comm]
    congr 1
    unfold Conn.held Conn.under
    cases c.phase with
    | started => rfl
    | left => rfl
    | admitted ip =>
      have hiff := mem_tiers_ofIp ip key
      have hone := (nodup_tiers (NetKey.ofIp ip)).count (a := key)
      by_cases hmem : key ∈ (NetKey.ofIp ip).tiers
      · simp [hone, hmem, hiff.mp hmem]
      · have hunder : ip.under key = false := by
          rw [← Bool.not_eq_true]
          exact fun h => hmem (hiff.mpr h)
        simp [hone, hmem, hunder]

/-! ### The invariant -/

/-- The books of the limits `n` over the connections. -/
structure Accounted (limits : Limits) (n : NetLimits) (conns : List Conn) : Prop where
  limits_eq : n.limits = limits
  total : n.total = conns.length
  networks : Tight n.connections (conns.flatMap Conn.held)
  unauthenticated_le : n.unauthenticated ≤ unproved conns
  /-- A slot is marked only when the connection authenticated. -/
  marked : ∀ c ∈ conns, c.slot = true → c.authenticated = true
  total_le : n.total ≤ limits.globalConnections
  share_le : n.unauthenticated ≤ limits.unauthenticatedCap
  networks_le : ∀ key, n.connections.count key ≤ NetLimits.connectionCap limits key

variable {limits : Limits} {n : NetLimits} {conns rest conns' : List Conn} {c : Conn} {op : ConnOp}
variable {s s' : Server} {ops : List ConnOp}

theorem accounted_start : Accounted limits { limits } [] where
  limits_eq := rfl
  total := rfl
  networks := tight_nil
  unauthenticated_le := Nat.zero_le _
  marked _ hc := absurd hc List.not_mem_nil
  total_le := Nat.zero_le _
  share_le := Nat.zero_le _
  networks_le _ := Nat.zero_le _

theorem Accounted.perm (h : Accounted limits n conns) (hp : conns.Perm conns') :
    Accounted limits n conns' :=
  { h with
    total := h.total.trans hp.length_eq
    networks := h.networks.perm (hp.flatMap_right _)
    unauthenticated_le := h.unauthenticated_le.trans (hp.countP_eq _).le
    marked := fun c hc => h.marked c (hp.mem_iff.mpr hc) }

/-- A connection moves on, and holds and owes what it did. -/
theorem Accounted.move (h : Accounted limits n (c :: rest)) {c' : Conn} (hheld : c'.held = c.held)
    (hauth : c'.authenticated = c.authenticated)
    (hslot : c'.slot = true → c'.authenticated = true) : Accounted limits n (c' :: rest) where
  limits_eq := h.limits_eq
  total := h.total
  networks := by
    rw [List.flatMap_cons, hheld]
    exact h.networks
  unauthenticated_le := by
    have hle := h.unauthenticated_le
    rw [unproved_cons] at hle ⊢
    rwa [hauth]
  marked d hd := by
    rcases List.mem_cons.mp hd with rfl | hd
    · exact hslot
    · exact h.marked d (List.mem_cons_of_mem c hd)
  total_le := h.total_le
  share_le := h.share_le
  networks_le := h.networks_le

/-- A refused socket changes nothing; another is one more, not yet
authenticated. -/
theorem Accounted.accept (h : Accounted limits n conns) (hopen : n.openGlobal.1 = true) :
    Accounted limits n.openGlobal.2 ({} :: conns) := by
  unfold NetLimits.openGlobal at hopen ⊢
  split at hopen
  · cases hopen
  · rename_i hroom
    rw [if_neg hroom]
    rw [h.limits_eq] at hroom
    have htotal := h.total
    have hle := h.unauthenticated_le
    constructor
    · exact h.limits_eq
    · show n.total + 1 = conns.length + 1
      omega
    · exact h.networks
    · show n.unauthenticated + 1 ≤ _
      rw [unproved_cons]
      simpa using hle
    · intro d hd hslot
      rcases List.mem_cons.mp hd with rfl | hd
      · cases hslot
      · exact h.marked d hd hslot
    · show n.total + 1 ≤ _
      omega
    · show n.unauthenticated + 1 ≤ _
      omega
    · exact h.networks_le

theorem openNetwork_cases (n : NetLimits) (key : NetKey) :
    ((∃ tier ∈ key.tiers, NetLimits.connectionCap n.limits tier ≤ n.connections.count tier) ∧
        n.openNetwork key = (false, n)) ∨
      ((∀ tier ∈ key.tiers, n.connections.count tier < NetLimits.connectionCap n.limits tier) ∧
        n.openNetwork key
          = (true, { n with connections := key.tiers.foldl Tally.add n.connections })) := by
  unfold NetLimits.openNetwork
  split
  · rename_i hfull
    exact Or.inl ⟨by simpa using hfull, rfl⟩
  · rename_i hroom
    exact Or.inr ⟨by simpa using hroom, rfl⟩

/-- An admitted connection is one more under each of its keys. -/
theorem Accounted.enter (h : Accounted limits n (c :: rest)) {ip : IpAddr}
    (hphase : c.phase = .started)
    (hroom : ∀ tier ∈ (NetKey.ofIp ip).tiers,
      n.connections.count tier < NetLimits.connectionCap limits tier) :
    Accounted limits
      { n with connections := (NetKey.ofIp ip).tiers.foldl Tally.add n.connections }
      ({ c with phase := .admitted ip } :: rest) := by
  have hheld : c.held = [] := by
    unfold Conn.held
    rw [hphase]
  have hnetworks := h.networks.addAll (NetKey.ofIp ip).tiers
  rw [List.flatMap_cons, hheld, List.nil_append] at hnetworks
  constructor
  · exact h.limits_eq
  · exact h.total
  · exact hnetworks
  · have hle := h.unauthenticated_le
    rw [unproved_cons] at hle ⊢
    exact hle
  · intro d hd
    rcases List.mem_cons.mp hd with rfl | hd
    · exact h.marked c List.mem_cons_self
    · exact h.marked d (List.mem_cons_of_mem c hd)
  · exact h.total_le
  · exact h.share_le
  · intro key
    have hle := h.networks_le key
    have hone := (nodup_tiers (NetKey.ofIp ip)).count (a := key)
    show ((NetKey.ofIp ip).tiers.foldl Tally.add n.connections).count key ≤ _
    rw [count_addAll, hone]
    split
    · rename_i hmem
      have hless := hroom key hmem
      omega
    · omega

/-- A connection authenticates. -/
theorem Accounted.prove (h : Accounted limits n (c :: rest)) (hauth : c.authenticated = false) :
    Accounted limits n.authenticated ({ c with authenticated := true } :: rest) := by
  have hle := h.unauthenticated_le
  have hshare := h.share_le
  rw [unproved_cons, hauth] at hle
  constructor
  · exact h.limits_eq
  · exact h.total
  · exact h.networks
  · show n.unauthenticated - 1 ≤ unproved rest + 0
    simp at hle
    omega
  · intro d hd hslot
    rcases List.mem_cons.mp hd with rfl | hd
    · rfl
    · exact h.marked d (List.mem_cons_of_mem c hd) hslot
  · exact h.total_le
  · show n.unauthenticated - 1 ≤ _
    omega
  · exact h.networks_le

/-- The thread leaves its network. -/
theorem Accounted.leave (h : Accounted limits n (c :: rest)) {slot : Bool}
    (hslot : slot = true → c.authenticated = true) :
    Accounted limits (Server.dropNetwork n c.phase) ({ c with phase := .left, slot } :: rest) := by
  have hmark : ∀ d ∈ { c with phase := .left, slot } :: rest, d.slot = true →
      d.authenticated = true := by
    intro d hd
    rcases List.mem_cons.mp hd with rfl | hd
    · exact hslot
    · exact h.marked d (List.mem_cons_of_mem c hd)
  have hleft : unproved ({ c with phase := .left, slot } :: rest) = unproved (c :: rest) := by
    rw [unproved_cons, unproved_cons]
  cases hphase : c.phase with
  | started => exact h.move (by simp [Conn.held, hphase]) rfl hslot
  | left => exact h.move (by simp [Conn.held, hphase]) rfl hslot
  | admitted ip =>
    have hheld : c.held = (NetKey.ofIp ip).tiers := by
      unfold Conn.held
      rw [hphase]
    have hnetworks := h.networks
    rw [List.flatMap_cons, hheld] at hnetworks
    have hdropped := Tight.dropAll hnetworks
    constructor
    · exact h.limits_eq
    · exact h.total
    · exact hdropped
    · rw [hleft]
      exact h.unauthenticated_le
    · exact hmark
    · exact h.total_le
    · exact h.share_le
    · intro key
      have hle := h.networks_le key
      have hbefore := hnetworks.counts key
      have hafter := hdropped.counts key
      rw [List.count_append] at hbefore
      show ((NetKey.ofIp ip).tiers.foldl Tally.drop n.connections).count key ≤ _
      omega

/-- The last slot is dropped. -/
theorem Accounted.close (h : Accounted limits n (c :: rest)) (hphase : c.phase = .left) :
    Accounted limits (n.closeGlobal c.slot) rest := by
  have hheld : c.held = [] := by
    unfold Conn.held
    rw [hphase]
  have hnetworks := h.networks
  have htotal := h.total
  have hle := h.unauthenticated_le
  have hcap := h.total_le
  have hshare := h.share_le
  have hmark := h.marked c List.mem_cons_self
  rw [List.flatMap_cons, hheld, List.nil_append] at hnetworks
  rw [List.length_cons] at htotal
  rw [unproved_cons] at hle
  constructor
  · exact h.limits_eq
  · show n.total - 1 = rest.length
    omega
  · exact hnetworks
  · show (if c.slot then n.unauthenticated else n.unauthenticated - 1) ≤ _
    split
    · rename_i hslot
      simpa [hmark hslot] using hle
    · split at hle <;> omega
  · exact fun d hd => h.marked d (List.mem_cons_of_mem c hd)
  · show n.total - 1 ≤ _
    omega
  · show (if c.slot then n.unauthenticated else n.unauthenticated - 1) ≤ _
    split <;> omega
  · exact h.networks_le

/-! ### Steps -/

/-- Attempts and what is forgotten of them are no connection's. -/
theorem allowAuth_auths (n : NetLimits) (key : NetKey) (now : Rat) :
    ∃ auths, (n.allowAuth key now).2 = { n with auths } := by
  unfold NetLimits.allowAuth
  refine List.foldlRecOn (motive := fun r : Bool × NetLimits => ∃ auths, r.2 = { n with auths })
    key.tiers _ ⟨n.auths, rfl⟩ ?_
  -- A charge leaves all else alone.
  rintro ⟨allowed, _⟩ ⟨auths, rfl⟩ tier -
  exact ⟨_, rfl⟩

theorem Accounted.auths (h : Accounted limits n conns) (auths : NetKey → Option TokenBucket) :
    Accounted limits { n with auths } conns := { h with }

/-- The connection at a place, the others, and what is put in its place. -/
theorem at_place {i : Nat} (h : conns[i]? = some c) :
    conns.Perm (c :: conns.eraseIdx i) ∧
      ∀ c', (conns.set i c').Perm (c' :: conns.eraseIdx i) := by
  obtain ⟨hi, rfl⟩ := List.getElem?_eq_some_iff.mp h
  exact ⟨(List.getElem_cons_eraseIdx_perm hi).symm, fun c' => List.set_perm_cons_eraseIdx hi c'⟩

/-- A step keeps the books of the limits. -/
theorem Accounted.step (h : Accounted limits s.limits s.conns) (heq : s.step op = some s') :
    Accounted limits s'.limits s'.conns := by
  cases op with
  | accept =>
    simp only [Server.step] at heq
    cases hopen : s.limits.openGlobal with
    | mk allowed n =>
      rw [hopen] at heq
      cases allowed with
      | true =>
        cases heq
        have haccept := h.accept (by rw [hopen])
        rwa [hopen] at haccept
      | false =>
        -- A refusal gives the limits back as they were.
        cases heq
        unfold NetLimits.openGlobal at hopen
        split at hopen
        · cases hopen
          exact h
        · cases hopen
  | upgrade i ip =>
    obtain ⟨c, hc, heq⟩ := Option.bind_eq_some_iff.mp heq
    obtain ⟨hp, hset⟩ := at_place hc
    have hfirst := h.perm hp
    split at heq
    · rename_i hphase
      rcases openNetwork_cases s.limits (.ofIp ip) with ⟨-, hopen⟩ | ⟨hroom, hopen⟩
      · rw [hopen] at heq
        cases heq
        have hheld : Conn.held { c with phase := .left } = c.held := by simp [Conn.held, hphase]
        exact (hfirst.move hheld rfl (hfirst.marked c List.mem_cons_self)).perm (hset _).symm
      · rw [hopen] at heq
        cases heq
        rw [h.limits_eq] at hroom
        exact (hfirst.enter hphase hroom).perm (hset _).symm
    · cases heq
  | auth i now verified =>
    obtain ⟨c, hc, heq⟩ := Option.bind_eq_some_iff.mp heq
    obtain ⟨hp, hset⟩ := at_place hc
    split at heq
    · rename_i ip hphase
      split at heq
      · cases heq
      rename_i hauth
      obtain ⟨auths, hlimits⟩ := allowAuth_auths s.limits (.ofIp ip) now
      have hcharged := h.auths auths
      rw [← hlimits] at hcharged
      simp only at heq
      split at heq
      · cases heq
        exact ((hcharged.perm hp).prove (by simpa using hauth)).perm (hset _).symm
      · cases heq
        exact hcharged
    · cases heq
  | done i =>
    obtain ⟨c, hc, heq⟩ := Option.bind_eq_some_iff.mp heq
    obtain ⟨hp, hset⟩ := at_place hc
    split at heq
    · cases heq
    · cases heq
      exact ((h.perm hp).leave id).perm (hset _).symm
  | panic i =>
    obtain ⟨c, hc, heq⟩ := Option.bind_eq_some_iff.mp heq
    obtain ⟨hp, hset⟩ := at_place hc
    have hfirst := h.perm hp
    split at heq
    · cases heq
    · cases heq
      exact (hfirst.leave (hfirst.marked c List.mem_cons_self)).perm (hset _).symm
  | drop i =>
    obtain ⟨c, hc, heq⟩ := Option.bind_eq_some_iff.mp heq
    split at heq
    · rename_i hphase
      cases heq
      exact (h.perm (at_place hc).1).close hphase
    · cases heq
  | prune now =>
    cases heq
    exact { h with }

/-! ### Without a panic -/

/-- The thread of an authenticated connection does not panic. -/
def Calm (s : Server) (op : ConnOp) : Prop :=
  ∀ i c, op = .panic i → s.conns[i]? = some c → c.authenticated = false

/-- Then every connection that has not authenticated is counted, and outside
its network a slot is marked when its connection authenticated. -/
structure Exact (n : NetLimits) (conns : List Conn) : Prop where
  unauthenticated : n.unauthenticated = unproved conns
  marked : ∀ c ∈ conns, (∀ ip, c.phase ≠ .admitted ip) → c.slot = c.authenticated

theorem Exact.perm (h : Exact n conns) (hp : conns.Perm conns') : Exact n conns' where
  unauthenticated := h.unauthenticated.trans (hp.countP_eq _)
  marked c hc := h.marked c (hp.mem_iff.mpr hc)

theorem Exact.replace (h : Exact n (c :: rest)) {n' : NetLimits} {d : Conn}
    (hcount : n'.unauthenticated + (if c.authenticated then 0 else 1)
      = n.unauthenticated + (if d.authenticated then 0 else 1))
    (hslot : (∀ ip, d.phase ≠ .admitted ip) → d.slot = d.authenticated) :
    Exact n' (d :: rest) where
  unauthenticated := by
    have heq := h.unauthenticated
    rw [unproved_cons] at heq ⊢
    omega
  marked e he := by
    rcases List.mem_cons.mp he with rfl | he
    · exact hslot
    · exact h.marked e (List.mem_cons_of_mem c he)

theorem unauthenticated_dropNetwork (n : NetLimits) (phase : Phase) :
    (Server.dropNetwork n phase).unauthenticated = n.unauthenticated := by
  cases phase <;> rfl

/-- A calm step keeps the counters exact. -/
theorem Exact.step (h : Exact s.limits s.conns) (hbooks : Accounted limits s.limits s.conns)
    (hcalm : Calm s op) (heq : s.step op = some s') : Exact s'.limits s'.conns := by
  cases op with
  | accept =>
    simp only [Server.step, NetLimits.openGlobal] at heq
    split at heq
    · rename_i hopen
      split at hopen
      · cases hopen
      · cases hopen
        cases heq
        constructor
        · show s.limits.unauthenticated + 1 = _
          rw [unproved_cons, h.unauthenticated]
          rfl
        · intro c hc hout
          rcases List.mem_cons.mp hc with rfl | hc
          · rfl
          · exact h.marked c hc hout
    · rename_i hopen
      split at hopen
      · cases hopen
        cases heq
        exact h
      · cases hopen
  | upgrade i ip =>
    obtain ⟨c, hc, heq⟩ := Option.bind_eq_some_iff.mp heq
    -- The connection as the first of a permutation.
    obtain ⟨hp, hset⟩ := at_place hc
    have hfirst := h.perm hp
    split at heq
    · rename_i hphase
      have hout : ∀ ip', c.phase ≠ .admitted ip' := by simp [hphase]
      have hmarked := hfirst.marked c List.mem_cons_self hout
      rcases openNetwork_cases s.limits (.ofIp ip) with ⟨-, hopen⟩ | ⟨-, hopen⟩
      · rw [hopen] at heq
        cases heq
        exact (hfirst.replace (d := { c with phase := .left }) rfl (fun _ => hmarked)).perm
          (hset _).symm
      · rw [hopen] at heq
        cases heq
        refine (hfirst.replace (d := { c with phase := .admitted ip }) ?_ ?_).perm (hset _).symm
        · rfl
        · exact fun hnever => absurd rfl (hnever ip)
    · cases heq
  | auth i now verified =>
    obtain ⟨c, hc, heq⟩ := Option.bind_eq_some_iff.mp heq
    obtain ⟨hp, hset⟩ := at_place hc
    have hfirst := h.perm hp
    have hcount := hfirst.unauthenticated
    rw [unproved_cons] at hcount
    split at heq
    · rename_i ip hphase
      split at heq
      · cases heq
      rename_i hauth
      obtain ⟨auths, hlimits⟩ := allowAuth_auths s.limits (.ofIp ip) now
      simp only [hlimits] at heq
      rw [if_neg hauth] at hcount
      split at heq
      · cases heq
        refine (hfirst.replace (d := { c with authenticated := true }) ?_ ?_).perm (hset _).symm
        · show s.limits.unauthenticated - 1 + _ = s.limits.unauthenticated + 0
          rw [if_neg hauth]
          omega
        · exact fun hnever => absurd hphase (hnever ip)
      · cases heq
        exact { h with }
    · cases heq
  | done i =>
    obtain ⟨c, hc, heq⟩ := Option.bind_eq_some_iff.mp heq
    obtain ⟨hp, hset⟩ := at_place hc
    split at heq
    · cases heq
    · cases heq
      refine ((h.perm hp).replace ?_ (fun _ => rfl)).perm (hset _).symm
      rw [unauthenticated_dropNetwork]
  | panic i =>
    obtain ⟨c, hc, heq⟩ := Option.bind_eq_some_iff.mp heq
    obtain ⟨hp, hset⟩ := at_place hc
    -- It had not authenticated, so it has no slot.
    have hauth := hcalm i c rfl hc
    have hslot : c.slot = c.authenticated := by
      cases hs : c.slot with
      | false => exact hauth.symm
      | true => exact ((hbooks.perm hp).marked c List.mem_cons_self hs).symm
    split at heq
    · cases heq
    · cases heq
      refine ((h.perm hp).replace (d := { c with phase := .left }) ?_ (fun _ => hslot)).perm
        (hset _).symm
      rw [unauthenticated_dropNetwork]
  | drop i =>
    obtain ⟨c, hc, heq⟩ := Option.bind_eq_some_iff.mp heq
    obtain ⟨hp, -⟩ := at_place hc
    have hfirst := h.perm hp
    have hcount := hfirst.unauthenticated
    rw [unproved_cons] at hcount
    split at heq
    · rename_i hphase
      cases heq
      have hslot := hfirst.marked c List.mem_cons_self (by simp [hphase])
      constructor
      · show (if c.slot then s.limits.unauthenticated else s.limits.unauthenticated - 1) = _
        rw [hslot]
        split at hcount <;> simp_all
      · exact fun d hd => hfirst.marked d (List.mem_cons_of_mem c hd)
    · cases heq
  | prune now =>
    cases heq
    exact { h with }

/-! ### Every run -/

/-- The server, with no connection yet. -/
def Server.start (limits : Limits) : Server := { limits := { limits } }

theorem accounted_of_run (hrun : runFrom Server.step (Server.start limits) ops = some s) :
    Accounted limits s.limits s.conns :=
  runFrom_invariant (I := fun s => Accounted limits s.limits s.conns)
    (fun _ _ _ h hstep => h.step hstep) accounted_start hrun

/-- Over a run without such a panic nothing is left out. -/
theorem exact_of_run (hcalm : StepsMeet Server.step Calm (Server.start limits) ops)
    (hrun : runFrom Server.step (Server.start limits) ops = some s) :
    s.limits.unauthenticated = unproved s.conns := by
  have hboth := runFrom_invariant_of_steps
    (I := fun s => Accounted limits s.limits s.conns ∧ Exact s.limits s.conns)
    (fun s op s' h hc hstep => ⟨h.1.step hstep, h.2.step h.1 hc hstep⟩)
    ⟨accounted_start, ⟨rfl, fun _ hc => absurd hc List.not_mem_nil⟩⟩ hcalm hrun
  exact hboth.2.unauthenticated

/-- The books of the connections, over every interleaving of their threads.
The counters are those of the open connections, and no cap is passed. The
connections that have not authenticated are all counted as long as the thread
of no authenticated connection panics, and never more than they are. A refusal
changes nothing, and with the last connection everything is gone. -/
theorem connections_accounted {s : Server} {ops : List ConnOp}
    (hrun : runFrom Server.step (Server.start limits) ops = some s) :
    s.limits.total = s.conns.length ∧
      s.limits.unauthenticated ≤ unproved s.conns ∧
      (StepsMeet Server.step Calm (Server.start limits) ops →
        s.limits.unauthenticated = unproved s.conns) ∧
      (∀ key, s.limits.connections.count key = s.conns.countP (fun c => c.under key)) ∧
      s.limits.total ≤ limits.globalConnections ∧
      s.limits.unauthenticated ≤ limits.unauthenticatedCap ∧
      (∀ key, s.conns.countP (fun c => c.under key) ≤ NetLimits.connectionCap limits key) ∧
      (s.limits.openGlobal.1 = false → s.limits.openGlobal.2 = s.limits) ∧
      (∀ key, (s.limits.openNetwork key).1 = false → (s.limits.openNetwork key).2 = s.limits) ∧
      (s.conns = [] → s.limits.total = 0 ∧ s.limits.unauthenticated = 0 ∧
        ∀ key, s.limits.connections key = none) := by
  have h := accounted_of_run hrun
  have hcount : ∀ key,
      s.limits.connections.count key = s.conns.countP (fun c => c.under key) :=
    fun key => (h.networks.counts key).trans (count_held s.conns key)
  refine ⟨h.total, h.unauthenticated_le, fun hcalm => exact_of_run hcalm hrun, hcount, h.total_le,
    h.share_le, fun key => hcount key ▸ h.networks_le key, ?_, ?_, ?_⟩
  · intro hrefused
    unfold NetLimits.openGlobal at hrefused ⊢
    split at hrefused
    · rename_i hfull
      rw [if_pos hfull]
    · cases hrefused
  · intro key hrefused
    rcases openNetwork_cases s.limits key with ⟨-, hopen⟩ | ⟨-, hopen⟩
    · rw [hopen]
    · rw [hopen] at hrefused
      cases hrefused
  · intro hnone
    have htotal := h.total
    have hle := h.unauthenticated_le
    rw [hnone] at htotal hle
    refine ⟨htotal, Nat.le_zero.mp hle, ?_⟩
    intro key
    rw [h.networks key, hnone]
    rfl

/-- Two devices of one network; the first authenticates and goes. -/
theorem connections_accounted_two :
    ∃ s, runFrom Server.step (Server.start Limits.standard)
        [.accept, .upgrade 0 (.v6 1#128), .auth 0 0 true, .accept, .upgrade 0 (.v6 2#128),
          .done 1, .drop 1] = some s ∧ s.limits.total = s.conns.length := by
  have hruns : (runFrom Server.step (Server.start Limits.standard)
      [.accept, .upgrade 0 (.v6 1#128), .auth 0 0 true, .accept, .upgrade 0 (.v6 2#128),
        .done 1, .drop 1]).isSome = true := by
    decide +kernel
  obtain ⟨s, hrun⟩ := Option.isSome_iff_exists.mp hruns
  exact ⟨s, hrun, (connections_accounted hrun).1⟩

/-- A panic of an authenticated connection's thread takes another connection
off the count of those that have not authenticated. -/
theorem panic_undercounts :
    (runFrom Server.step (Server.start Limits.standard)
        [.accept, .upgrade 0 (.v6 1#128), .auth 0 0 true, .accept, .panic 1, .drop 1]).map
      (fun s => (s.limits.unauthenticated, unproved s.conns)) = some (0, 1) := by
  decide +kernel

end DeskLink.Relay
