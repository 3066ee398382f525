import DeskLink.Proofs.Relay.Probe

/-!
# `DeskLink.Proofs.Relay.Queues`: what waits for a slow receiver

What is done to one outbox is a list of `OutboxOp`s, and `Hub.ops` are those
of a call of the hub (`after_outboxes`). The bytes that wait are counted
exactly and bounded (`Counted`), and what comes out came in that order.

The number of items that wait is another matter: a control frame that does
not fit is refused, and a close is put in instead, each time.

* `flapping_fills`: one peer that allows and disallows fills the inbox of a
  receiver that does not read, without bound.
* `queue_bounded`: it is bounded in every run in which a control frame that
  does not fit finds no close waiting (`Spaced`).
-/

set_option autoImplicit false

namespace DeskLink.Relay

variable {α : Type} {size : ServerMessage α → Nat} {walk : Iteration}
variable {o : Outbox α} {asked n : Nat} {c : Call α} {h : Hub α}

/-! ### One outbox -/

/-- What is done to an outbox. -/
inductive OutboxOp (α : Type) where
  | push (message : ServerMessage α) (bounded : Bool)
  | close (code : Nat) (reason : String)
  | tryRecv
  /-- The receiver is dropped. -/
  | hangUp
deriving DecidableEq

variable (size) in
def Outbox.after (o : Outbox α) : OutboxOp α → Outbox α
  | .push message bounded => (o.push size message bounded).1
  | .close code reason => o.close code reason
  | .tryRecv => o.tryRecv size
  | .hangUp => { o with dropped := true }

/-- What was put in and not yet read. -/
def Outbox.waiting (o : Outbox α) : List (Outbound α) := o.sent.drop o.read

variable (size) in
/-- The bytes of an item that count. -/
def Outbound.bytes : Outbound α → Nat
  | .frame message => size message
  | .close .. => 0

def Outbound.isClose : Outbound α → Bool
  | .frame _ => false
  | .close .. => true

/-- A close of a receiver that fell too far behind. -/
def Outbound.isBehind : Outbound α → Bool
  | .frame _ => false
  | .close code reason => code == closeRateLimited && reason == "too far behind"

variable (size) in
/-- What `push` does: nothing, or the frame is put in, or the close. -/
theorem push_cases (o : Outbox α) (message : ServerMessage α) (bounded : Bool) :
    (bounded = true ∧ maxQueuedBytes < o.queued + size message ∧
        (o.push size message bounded).1 = o) ∨
      (bounded = false ∧ maxQueuedBytes + controlHeadroom < o.queued + size message ∧
        (o.push size message bounded).1 = o.close closeRateLimited "too far behind") ∨
      (o.queued + size message ≤ maxQueuedBytes + controlHeadroom ∧
        (bounded = true → o.queued + size message ≤ maxQueuedBytes) ∧
        (o.push size message bounded).1 = { o with
          sent := o.sent ++ [.frame message], queued := o.queued + size message }) := by
  unfold Outbox.push
  simp only
  by_cases hfirst : maxQueuedBytes < o.queued + size message
  · cases bounded with
    | true =>
      rw [if_pos (by simp [hfirst])]
      exact .inl ⟨rfl, hfirst, rfl⟩
    | false =>
      rw [if_neg (by simp)]
      by_cases hsecond : maxQueuedBytes + controlHeadroom < o.queued + size message
      · rw [if_pos hsecond]
        exact .inr (.inl ⟨rfl, hsecond, rfl⟩)
      · rw [if_neg hsecond]
        exact .inr (.inr ⟨by omega, fun h => (by cases h), rfl⟩)
  · -- What is below the first bound is below the second.
    rw [if_neg (by simp [hfirst]), if_neg (by omega)]
    exact .inr (.inr ⟨by omega, fun _ => by omega, rfl⟩)

variable (size) in
/-- What `try_recv` does: nothing, or the oldest item that waits is read. -/
theorem tryRecv_cases (o : Outbox α) :
    (o.sent[o.read]? = none ∧ o.tryRecv size = o) ∨
      ∃ item rest, o.sent[o.read]? = some item ∧ o.waiting = item :: rest ∧
        o.tryRecv size =
          { o with read := o.read + 1, queued := o.queued - item.bytes size } := by
  unfold Outbox.tryRecv
  cases hnext : o.sent[o.read]? with
  | none => exact .inl ⟨rfl, rfl⟩
  | some item =>
    obtain ⟨hlt, hget⟩ := List.getElem?_eq_some_iff.mp hnext
    have hwaiting : o.waiting = item :: o.sent.drop (o.read + 1) := by
      rw [← hget]
      exact List.drop_eq_getElem_cons hlt
    cases item with
    | frame message => exact .inr ⟨_, _, rfl, hwaiting, rfl⟩
    | close code reason => exact .inr ⟨_, _, rfl, hwaiting, rfl⟩

variable (size) in
/-- The bytes that wait are counted, and are no more than the second bound. -/
structure Counted (o : Outbox α) : Prop where
  read_le : o.read ≤ o.sent.length
  queued_eq : o.queued = (o.waiting.map (Outbound.bytes size)).sum
  queued_le : o.queued ≤ maxQueuedBytes + controlHeadroom

theorem counted_new : Counted size ({} : Outbox α) := ⟨Nat.le_refl 0, rfl, Nat.zero_le _⟩

theorem waiting_append (hread : o.read ≤ o.sent.length) (item : Outbound α) :
    (o.sent ++ [item]).drop o.read = o.waiting ++ [item] :=
  List.drop_append_of_le_length hread

theorem Counted.close (h : Counted size o) (code : Nat) (reason : String) :
    Counted size (o.close code reason) where
  read_le := by
    show o.read ≤ (o.sent ++ [_]).length
    rw [List.length_append]
    exact Nat.le_add_right_of_le h.read_le
  queued_eq := by
    show o.queued = (((o.sent ++ [_]).drop o.read).map _).sum
    rw [waiting_append h.read_le, List.map_append, List.sum_append, ← h.queued_eq]
    rfl
  queued_le := h.queued_le

theorem Counted.after (h : Counted size o) (op : OutboxOp α) : Counted size (o.after size op) := by
  cases op with
  | push message bounded =>
    show Counted size (o.push size message bounded).1
    obtain ⟨-, -, heq⟩ | ⟨-, -, heq⟩ | ⟨hroom, -, heq⟩ := push_cases size o message bounded
    · rw [heq]
      exact h
    · rw [heq]
      exact h.close _ _
    · rw [heq]
      exact {
        read_le := by
          show o.read ≤ (o.sent ++ [_]).length
          rw [List.length_append]
          exact Nat.le_add_right_of_le h.read_le
        queued_eq := by
          show o.queued + size message = (((o.sent ++ [_]).drop o.read).map _).sum
          rw [waiting_append h.read_le, List.map_append, List.sum_append, ← h.queued_eq]
          rfl
        queued_le := hroom }
  | close code reason => exact h.close code reason
  | tryRecv =>
    show Counted size (o.tryRecv size)
    obtain ⟨-, heq⟩ | ⟨item, rest, hnext, hwaiting, heq⟩ := tryRecv_cases size o
    · rw [heq]
      exact h
    · have hlt := (List.getElem?_eq_some_iff.mp hnext).1
      have hrest : o.sent.drop (o.read + 1) = rest := by
        rw [← List.tail_drop]
        show o.waiting.tail = rest
        rw [hwaiting, List.tail_cons]
      have hqueued := h.queued_eq
      rw [hwaiting, List.map_cons, List.sum_cons] at hqueued
      rw [heq]
      exact {
        read_le := hlt
        queued_eq := by
          show o.queued - item.bytes size = ((o.sent.drop (o.read + 1)).map _).sum
          rw [hrest]
          omega
        queued_le := Nat.le_trans (Nat.sub_le _ _) h.queued_le }
  | hangUp => exact ⟨h.read_le, h.queued_eq, h.queued_le⟩

/-! ### Runs of one outbox -/

/-- An outbox, and what came out of it. -/
structure Traffic (α : Type) where
  outbox : Outbox α := {}
  received : List (Outbound α) := []

variable (size) in
def Traffic.after (t : Traffic α) (op : OutboxOp α) : Traffic α where
  outbox := t.outbox.after size op
  received :=
    match op with
    | .tryRecv => t.received ++ (t.outbox.sent[t.outbox.read]?).toList
    | .push .. | .close .. | .hangUp => t.received

variable (size) in
def Traffic.run (t : Traffic α) (ops : List (OutboxOp α)) : Traffic α :=
  ops.foldl (Traffic.after size) t

/-- What came out is the beginning of what was put in. -/
def Traffic.InOrder (t : Traffic α) : Prop := t.received = t.outbox.sent.take t.outbox.read

/-- What is put in goes to the end. -/
theorem after_sent (o : Outbox α) (op : OutboxOp α) : o.sent <+: (o.after size op).sent := by
  cases op with
  | push message bounded =>
    show o.sent <+: (o.push size message bounded).1.sent
    obtain ⟨-, -, heq⟩ | ⟨-, -, heq⟩ | ⟨-, -, heq⟩ := push_cases size o message bounded
    · rw [heq]
    · rw [heq]
      exact List.prefix_append _ _
    · rw [heq]
      exact List.prefix_append _ _
  | close code reason => exact List.prefix_append _ _
  | tryRecv =>
    show o.sent <+: (o.tryRecv size).sent
    obtain ⟨-, heq⟩ | ⟨item, rest, -, -, heq⟩ := tryRecv_cases size o <;> rw [heq]
  | hangUp => exact List.prefix_refl _

/-- What is done other than reading reads nothing. -/
theorem after_read {op : OutboxOp α} (hop : op ≠ .tryRecv) : (o.after size op).read = o.read := by
  cases op with
  | push message bounded =>
    show (o.push size message bounded).1.read = o.read
    obtain ⟨-, -, heq⟩ | ⟨-, -, heq⟩ | ⟨-, -, heq⟩ := push_cases size o message bounded <;>
      rw [heq]
    rfl
  | close code reason => rfl
  | tryRecv => exact absurd rfl hop
  | hangUp => rfl

theorem Traffic.InOrder.after {t : Traffic α} (h : t.InOrder) (hcounted : Counted size t.outbox)
    (op : OutboxOp α) : (t.after size op).InOrder := by
  have hkept (hop : op ≠ .tryRecv) :
      t.received = (t.outbox.after size op).sent.take (t.outbox.after size op).read := by
    obtain ⟨more, hmore⟩ := @after_sent _ size t.outbox op
    rw [after_read hop, ← hmore, List.take_append_of_le_length hcounted.read_le]
    exact h
  cases op with
  | push message bounded => exact hkept (fun heq => (by cases heq))
  | close code reason => exact hkept (fun heq => (by cases heq))
  | hangUp => exact hkept (fun heq => (by cases heq))
  | tryRecv =>
    show t.received ++ _ = (t.outbox.tryRecv size).sent.take (t.outbox.tryRecv size).read
    obtain ⟨hnext, heq⟩ | ⟨item, rest, hnext, -, heq⟩ := tryRecv_cases size t.outbox
    · rw [heq, hnext, Option.toList_none, List.append_nil]
      exact h
    · rw [heq, hnext, h]
      show _ = t.outbox.sent.take (t.outbox.read + 1)
      rw [List.take_add_one, hnext]

theorem run_ordered {t : Traffic α} (hcounted : Counted size t.outbox) (h : t.InOrder)
    (ops : List (OutboxOp α)) :
    Counted size (t.run size ops).outbox ∧ (t.run size ops).InOrder := by
  induction ops generalizing t with
  | nil => exact ⟨hcounted, h⟩
  | cons op ops ih => exact ih (hcounted.after op) (h.after hcounted op)

/-! ### How many items wait -/

variable (size) in
/-- A control frame that does not fit finds no close waiting that says so. -/
def Spaced (o : Outbox α) : OutboxOp α → Prop
  | .push message false =>
    o.queued + size message ≤ maxQueuedBytes + controlHeadroom ∨
      ∀ item ∈ o.waiting, item.isBehind = false
  | .push _ true | .close .. | .tryRecv | .hangUp => True

variable (size) in
/-- Every step of the run is `Spaced`. -/
def SpacedRun (o : Outbox α) : List (OutboxOp α) → Prop
  | [] => True
  | op :: ops => Spaced size o op ∧ SpacedRun (o.after size op) ops

/-- The closes that were asked for, and not made by a full outbox. -/
def closeOps (ops : List (OutboxOp α)) : Nat :=
  ops.countP (fun op => match op with
    | .close .. => true
    | .push .. | .tryRecv | .hangUp => false)

/-- At most one close waits beside the `asked` ones, and then one waits that
says that the receiver is behind. -/
structure FewCloses (o : Outbox α) (asked : Nat) : Prop where
  closes_le : o.waiting.countP Outbound.isClose ≤ asked + 1
  closes_le_of_none : (∀ item ∈ o.waiting, item.isBehind = false) →
    o.waiting.countP Outbound.isClose ≤ asked

theorem isClose_of_isBehind {item : Outbound α} (h : item.isBehind = true) :
    item.isClose = true := by
  cases item with
  | frame message => cases h
  | close code reason => rfl

theorem FewCloses.append {o' : Outbox α} {asked' : Nat} (h : FewCloses o asked) {item : Outbound α}
    (hwaiting : o'.waiting = o.waiting ++ [item])
    (hasked : asked + (if item.isClose then 1 else 0) ≤ asked') : FewCloses o' asked' where
  closes_le := by
    have hle := h.closes_le
    rw [hwaiting, List.countP_append, List.countP_singleton]
    omega
  closes_le_of_none hnone := by
    rw [hwaiting] at hnone
    have hle := h.closes_le_of_none (fun x hx => hnone x (List.mem_append_left _ hx))
    rw [hwaiting, List.countP_append, List.countP_singleton]
    omega

/-- One operation puts in what it asks for, and one close at most. -/
theorem FewCloses.after (h : FewCloses o asked) (hcounted : Counted size o) {op : OutboxOp α}
    (hspaced : Spaced size o op) : FewCloses (o.after size op) (asked + closeOps [op]) := by
  have hread := hcounted.read_le
  cases op with
  | push message bounded =>
    show FewCloses (o.push size message bounded).1 (asked + 0)
    obtain ⟨-, -, heq⟩ | ⟨hbounded, hfull, heq⟩ | ⟨-, -, heq⟩ := push_cases size o message bounded
    · rw [heq]
      exact h
    · subst hbounded
      rw [heq]
      -- The frame did not fit, so no such close waited: this one is the first.
      have hnone : ∀ item ∈ o.waiting, item.isBehind = false := by
        cases hspaced with
        | inl hfits => omega
        | inr hnone => exact hnone
      have hle := h.closes_le_of_none hnone
      have hwaiting : (o.close closeRateLimited "too far behind").waiting
          = o.waiting ++ [.close closeRateLimited "too far behind"] := waiting_append hread _
      constructor
      · rw [hwaiting, List.countP_append, List.countP_singleton]
        show _ + 1 ≤ _
        omega
      · intro hnone'
        rw [hwaiting] at hnone'
        exact absurd (hnone' _ (List.mem_append_right _ (List.mem_singleton_self _)))
          (by simp [Outbound.isBehind])
    · rw [heq]
      exact h.append (waiting_append hread _) (Nat.le_refl _)
  | close code reason => exact h.append (waiting_append hread _) (Nat.le_refl _)
  | tryRecv =>
    show FewCloses (o.tryRecv size) (asked + 0)
    obtain ⟨-, heq⟩ | ⟨item, rest, hnext, hwaiting, heq⟩ := tryRecv_cases size o
    · rw [heq]
      exact h
    · rw [heq]
      have hrest : ({ o with
          read := o.read + 1, queued := o.queued - item.bytes size } : Outbox α).waiting = rest := by
        show o.sent.drop (o.read + 1) = rest
        rw [← List.tail_drop]
        show o.waiting.tail = rest
        rw [hwaiting, List.tail_cons]
      have hle := h.closes_le
      rw [hwaiting, List.countP_cons] at hle
      constructor
      · rw [hrest]
        omega
      · rw [hrest]
        intro hnone
        -- The item that was read may have been the close.
        cases hbehind : item.isBehind with
        | true =>
          rw [if_pos (isClose_of_isBehind hbehind)] at hle
          omega
        | false =>
          have hall := h.closes_le_of_none (by
            rw [hwaiting]
            exact List.forall_mem_cons.mpr ⟨hbehind, hnone⟩)
          rw [hwaiting, List.countP_cons] at hall
          omega
  | hangUp => exact ⟨h.closes_le, h.closes_le_of_none⟩

theorem closeOps_cons (op : OutboxOp α) (ops : List (OutboxOp α)) :
    closeOps (op :: ops) = closeOps [op] + closeOps ops := by
  simp only [closeOps, List.countP_cons, List.countP_nil]
  omega

theorem run_fewCloses {t : Traffic α} {asked : Nat} (hcounted : Counted size t.outbox)
    (h : FewCloses t.outbox asked) {ops : List (OutboxOp α)}
    (hspaced : SpacedRun size t.outbox ops) :
    FewCloses (t.run size ops).outbox (asked + closeOps ops) := by
  induction ops generalizing t asked with
  | nil => exact h
  | cons op ops ih =>
    rw [closeOps_cons, ← Nat.add_assoc]
    exact @ih (t.after size op) _ (hcounted.after op) (h.after hcounted hspaced.1) hspaced.2

/-- Every frame has bytes, so there are no more frames than bytes. -/
theorem length_le_bytes (hsize : ∀ message, 0 < size message) (items : List (Outbound α)) :
    items.length ≤ (items.map (Outbound.bytes size)).sum + items.countP Outbound.isClose := by
  induction items with
  | nil => exact Nat.le_refl 0
  | cons item items ih =>
    rw [List.length_cons, List.map_cons, List.sum_cons, List.countP_cons]
    cases item with
    | frame message =>
      have hpos := hsize message
      simp only [Outbound.bytes, Outbound.isClose, Bool.false_eq_true, if_false]
      omega
    | close code reason =>
      simp only [Outbound.bytes, Outbound.isClose, if_true]
      omega

theorem waiting_le (hsize : ∀ message, 0 < size message) (hcounted : Counted size o)
    (h : FewCloses o asked) : o.waiting.length ≤ maxQueuedBytes + controlHeadroom + asked + 1 := by
  have hlength := length_le_bytes hsize o.waiting
  have hqueued := hcounted.queued_eq
  have hbound := hcounted.queued_le
  have hcloses := h.closes_le
  omega

/-! ### The calls of the hub -/

/-- The notices that go to the connection `conn`. -/
def noticeOps (h : Hub α) (conn : Nat) (notices : List Notice) : List (OutboxOp α) :=
  (notices.filter (fun n => (h.peers[n.dest]?).any (·.conn == conn))).map
    (fun n => .push (.presence n.about n.online) false)

variable (walk) in
/-- What `remove` does to the outbox of `conn`. -/
def removeOps (h : Hub α) (conn : Nat) (fp : String) : List (OutboxOp α) :=
  noticeOps h conn (goneNotices walk fp (h.mutualPeers fp))

variable (walk) in
/-- What a call does to the outbox of `conn`. -/
def Hub.ops (h : Hub α) (conn : Nat) : Call α → List (OutboxOp α)
  | .register fp _ =>
    match h.peers[fp]? with
    | none => []
    | some old =>
      (if old.conn = conn then [.close closeReplaced "replaced by a newer connection"] else []) ++
        removeOps walk h conn fp
  | .unregister fp c => if (h.current fp c).isSome then removeOps walk h conn fp else []
  | .setAllow fp c fps =>
    match h.current fp c with
    | none => []
    | some peer => noticeOps (withAllow h fp peer fps) conn
        (allowNotices walk fp (h.mutualPeers fp) ((withAllow h fp peer fps).mutualPeers fp))
  | .forward source c dest data =>
    match h.current source c, h.peers[dest]? with
    | some sender, some target =>
      if sender.allow.contains dest && h.isMutual source dest && target.conn == conn then
        [.push (.msg source data) true]
      else []
    | none, _ | _, none => []
  | .canTurn .. => []
  | .tryRecv _ c => if c = conn then [.tryRecv] else []
  | .hangUp _ c => if c = conn then [.hangUp] else []

variable (size) in
/-- What a list of operations makes of an outbox. -/
def Outbox.run (o : Outbox α) (ops : List (OutboxOp α)) : Outbox α :=
  ops.foldl (Outbox.after size) o

theorem outbox_run_append (o : Outbox α) (a b : List (OutboxOp α)) :
    o.run size (a ++ b) = (o.run size a).run size b := List.foldl_append

theorem announce_ops (h : Hub α) (conn : Nat) (notices : List Notice) :
    (announce size h notices).outboxes conn
      = (h.outboxes conn).run size (noticeOps h conn notices) := by
  induction notices generalizing h with
  | nil => rfl
  | cons n notices ih =>
    have hops : noticeOps (h.presence size n.dest n.about n.online) conn notices
        = noticeOps h conn notices := by
      unfold noticeOps
      rw [presence_peers]
    show (announce size (h.presence size n.dest n.about n.online) notices).outboxes conn = _
    rw [ih, hops]
    cases hn : h.peers[n.dest]? with
    | none =>
      have hskip : noticeOps h conn (n :: notices) = noticeOps h conn notices := by
        unfold noticeOps
        rw [List.filter_cons_of_neg (by simp [hn])]
      rw [hskip, Hub.presence, hn]
    | some q =>
      rw [presence_outbox hn]
      by_cases hconn : conn = q.conn
      · have htake : noticeOps h conn (n :: notices)
            = .push (.presence n.about n.online) false :: noticeOps h conn notices := by
          unfold noticeOps
          rw [List.filter_cons_of_pos (by simp [hn, hconn]), List.map_cons]
        rw [if_pos hconn, htake, hconn]
        rfl
      · have hskip : noticeOps h conn (n :: notices) = noticeOps h conn notices := by
          unfold noticeOps
          rw [List.filter_cons_of_neg (by simp [hn, Ne.symm hconn])]
        rw [if_neg hconn, hskip]

theorem remove_ops (h : Hub α) (conn : Nat) (fp : String) :
    (h.remove size walk fp).outboxes conn = (h.outboxes conn).run size (removeOps walk h conn fp) := by
  rw [remove_eq]
  exact announce_ops h conn _

/-- A call does to an outbox what `Hub.ops` says. -/
theorem after_outboxes (h : Hub α) (conn : Nat) (c : Call α) :
    (h.after size walk c).outboxes conn = (h.outboxes conn).run size (h.ops walk conn c) := by
  cases c with
  | register fp new =>
    rw [show h.after size walk (.register fp new) = h.register size walk fp new from rfl,
      register_eq]
    show (replaced size walk h fp).outboxes conn = _
    simp only [replaced, Hub.ops]
    cases hold : h.peers[fp]? with
    | none => rfl
    | some old =>
      simp only
      rw [remove_ops, outbox_run_append]
      -- The close changes no device's connection or allow set.
      have hsame : removeOps walk (h.setOutbox old.conn ((h.outboxes old.conn).close closeReplaced
          "replaced by a newer connection")) conn fp = removeOps walk h conn fp := rfl
      rw [hsame]
      congr 1
      simp only [Hub.setOutbox, Function.update_apply]
      by_cases hconn : old.conn = conn
      · rw [if_pos hconn.symm, if_pos hconn, hconn]
        rfl
      · rw [if_neg (Ne.symm hconn), if_neg hconn]
        rfl
  | unregister fp c =>
    show (h.unregister size walk fp c).outboxes conn = _
    simp only [Hub.unregister, Hub.ops]
    by_cases hcurrent : (h.current fp c).isSome
    · rw [if_pos hcurrent, if_pos hcurrent]
      exact remove_ops h conn fp
    · rw [if_neg hcurrent, if_neg hcurrent]
      rfl
  | setAllow fp c fps =>
    show (h.setAllow size walk fp c fps).outboxes conn = _
    cases hcurrent : h.current fp c with
    | none => simp only [Hub.setAllow, Hub.ops, hcurrent, Outbox.run, List.foldl_nil]
    | some peer =>
      rw [setAllow_eq hcurrent, announce_ops]
      simp only [Hub.ops, hcurrent]
      rfl
  | forward source c dest data =>
    show (h.forward size source c dest data).1.outboxes conn = _
    simp only [Hub.forward, Hub.ops]
    cases hcurrent : h.current source c with
    | none => rfl
    | some sender =>
      cases htarget : h.peers[dest]? with
      | none =>
        simp only
        split <;> rfl
      | some target =>
        simp only
        cases hallow : sender.allow.contains dest with
        | false => rfl
        | true =>
          cases hmutual : h.isMutual source dest with
          | false => rfl
          | true =>
            simp only [Bool.not_true, Bool.false_eq_true, if_false, Bool.true_and, beq_iff_eq,
              Hub.setOutbox, Function.update_apply]
            by_cases hconn : target.conn = conn
            · rw [if_pos hconn.symm, if_pos hconn, hconn]
              rfl
            · rw [if_neg (Ne.symm hconn), if_neg hconn]
              rfl
  | canTurn source c peer => rfl
  | tryRecv fp c =>
    show (h.setOutbox c ((h.outboxes c).tryRecv size)).outboxes conn = _
    simp only [Hub.setOutbox, Function.update_apply, Hub.ops]
    by_cases hconn : c = conn
    · rw [if_pos hconn.symm, if_pos hconn, hconn]
      rfl
    · rw [if_neg (Ne.symm hconn), if_neg hconn]
      rfl
  | hangUp fp c =>
    show (h.setOutbox c { h.outboxes c with dropped := true }).outboxes conn = _
    simp only [Hub.setOutbox, Function.update_apply, Hub.ops]
    by_cases hconn : c = conn
    · rw [if_pos hconn.symm, if_pos hconn, hconn]
      rfl
    · rw [if_neg (Ne.symm hconn), if_neg hconn]
      rfl

variable (size walk) in
/-- What the calls do to the outbox of `conn`. -/
def Hub.runOps (h : Hub α) (conn : Nat) : List (Call α) → List (OutboxOp α)
  | [] => []
  | c :: calls => h.ops walk conn c ++ (h.after size walk c).runOps conn calls

theorem run_outboxes (h : Hub α) (conn : Nat) (calls : List (Call α)) :
    (h.run size walk calls).outboxes conn
      = (h.outboxes conn).run size (h.runOps size walk conn calls) := by
  induction calls generalizing h with
  | nil => rfl
  | cons c calls ih =>
    show ((h.after size walk c).run size walk calls).outboxes conn = _
    rw [ih, after_outboxes, ← outbox_run_append]
    rfl

/-! ### An outbox is closed once -/

theorem closeOps_append (a b : List (OutboxOp α)) :
    closeOps (a ++ b) = closeOps a + closeOps b := List.countP_append

theorem closeOps_noticeOps (h : Hub α) (conn : Nat) (notices : List Notice) :
    closeOps (noticeOps h conn notices) = 0 := by
  unfold closeOps noticeOps
  rw [List.countP_map, List.countP_eq_zero]
  intro n _
  simp

theorem register_peers (h : Hub α) (fp : String) (new : Nat) (d : String) :
    (h.register size walk fp new).peers[d]?
      = if fp = d then some ⟨new, []⟩ else h.peers[d]? := by
  rw [register_eq]
  show ((replaced size walk h fp).peers.insert fp ⟨new, []⟩)[d]? = _
  rw [getElem?_keyInsert]
  by_cases hd : fp = d
  · rw [if_pos hd, if_pos hd]
  · rw [if_neg hd, if_neg hd]
    unfold replaced
    cases hold : h.peers[fp]? with
    | none => rfl
    | some old =>
      simp only
      rw [remove_eq]
      show ((h.peers.erase fp)[d]?) = _
      rw [getElem?_keyErase, if_neg hd]

/-- Only `register` gives a device another connection. -/
theorem conns_after (hc : registered [c] = []) {d : String} {q : Peer}
    (hq : (h.after size walk c).peers[d]? = some q) :
    ∃ p, h.peers[d]? = some p ∧ p.conn = q.conn := by
  cases c with
  | register fp new => cases hc
  | unregister fp c =>
    replace hq : (h.unregister size walk fp c).peers[d]? = some q := hq
    unfold Hub.unregister at hq
    split at hq
    · rw [remove_eq] at hq
      replace hq : (h.peers.erase fp)[d]? = some q := hq
      rw [getElem?_keyErase] at hq
      split at hq
      · cases hq
      · exact ⟨q, hq, rfl⟩
    · exact ⟨q, hq, rfl⟩
  | setAllow fp c fps =>
    replace hq : (h.setAllow size walk fp c fps).peers[d]? = some q := hq
    cases hcurrent : h.current fp c with
    | none =>
      unfold Hub.setAllow at hq
      rw [hcurrent] at hq
      exact ⟨q, hq, rfl⟩
    | some peer =>
      rw [setAllow_eq hcurrent, announce_peers] at hq
      replace hq : (h.peers.insert fp { peer with allow := (fps.filter (· ≠ fp)).dedup })[d]?
        = some q := hq
      rw [getElem?_keyInsert] at hq
      split at hq
      · rename_i hd
        subst hd
        rw [← Option.some.inj hq]
        exact ⟨peer, (current_some hcurrent).1, rfl⟩
      · exact ⟨q, hq, rfl⟩
  | forward source c dest data =>
    replace hq : (h.forward size source c dest data).1.peers[d]? = some q := hq
    obtain heq | ⟨target, -, -, heq⟩ := @forward_cases _ size h source c dest data
    · rw [heq] at hq
      exact ⟨q, hq, rfl⟩
    · rw [heq] at hq
      exact ⟨q, hq, rfl⟩
  | canTurn source c peer => exact ⟨q, hq, rfl⟩
  | tryRecv fp c => exact ⟨q, hq, rfl⟩
  | hangUp fp c => exact ⟨q, hq, rfl⟩

theorem closeOps_ops (hc : registered [c] = []) (conn : Nat) :
    closeOps (h.ops walk conn c) = 0 := by
  cases c with
  | register fp new => cases hc
  | unregister fp c =>
    simp only [Hub.ops]
    split
    · exact closeOps_noticeOps h conn _
    · rfl
  | setAllow fp c fps =>
    simp only [Hub.ops]
    split
    · rfl
    · exact closeOps_noticeOps _ conn _
  | forward source c dest data =>
    simp only [Hub.ops]
    split
    · split <;> rfl
    · rfl
    · rfl
  | canTurn source c peer => rfl
  | tryRecv fp c =>
    simp only [Hub.ops]
    split <;> rfl
  | hangUp fp c =>
    simp only [Hub.ops]
    split <;> rfl

/-- `asked` is how often the connection was told to close: never while it is
a device's, or before it is one. -/
structure ClosedOnce (used : List Nat) (h : Hub α) (conn asked : Nat) : Prop where
  once : asked ≤ 1
  current : ∀ (d : String) (p : Peer), h.peers[d]? = some p → p.conn = conn → asked = 0
  unused : conn ∉ used → asked = 0

theorem ClosedOnce.after {used : List Nat} {conn : Nat} (ho : ClosedOnce used h conn asked)
    (hw : Wired used h) (hfresh : ∀ new ∈ registered [c], new ∉ used) :
    ClosedOnce (used ++ registered [c]) (h.after size walk c) conn
      (asked + closeOps (h.ops walk conn c)) := by
  have hunused (hno : conn ∉ used ++ registered [c]) : conn ∉ used :=
    fun hin => hno (List.mem_append_left _ hin)
  have hstay (hnone : registered [c] = []) :
      ClosedOnce (used ++ registered [c]) (h.after size walk c) conn
        (asked + closeOps (h.ops walk conn c)) := by
    rw [closeOps_ops hnone, Nat.add_zero]
    refine ⟨ho.once, fun d q hq hqc => ?_, fun hno => ho.unused (hunused hno)⟩
    obtain ⟨p, hp, hpq⟩ := conns_after hnone hq
    exact ho.current d p hp (hpq.trans hqc)
  cases c with
  | unregister fp c => exact hstay rfl
  | setAllow fp c fps => exact hstay rfl
  | forward source c dest data => exact hstay rfl
  | canTurn source c peer => exact hstay rfl
  | tryRecv fp c => exact hstay rfl
  | hangUp fp c => exact hstay rfl
  | register fp new =>
    have hnew : new ∉ used := hfresh new (List.mem_singleton_self _)
    have hpeers := @register_peers _ size walk h fp new
    by_cases hclosed : ∃ old, h.peers[fp]? = some old ∧ old.conn = conn
    · -- The connection is replaced, and is no device's from now on.
      obtain ⟨old, hold, hconn⟩ := hclosed
      have hzero := ho.current fp old hold hconn
      have hused : conn ∈ used := hconn ▸ hw.conns fp old hold
      have hasked : asked + closeOps (h.ops walk conn (.register fp new)) = 1 := by
        simp only [Hub.ops, hold, if_pos hconn, closeOps_append, removeOps, closeOps_noticeOps]
        rw [hzero]
        rfl
      rw [hasked]
      refine ⟨Nat.le_refl 1, fun d p hp hpc => ?_, fun hno => absurd hused (hunused hno)⟩
      replace hp : (h.register size walk fp new).peers[d]? = some p := hp
      rw [hpeers] at hp
      split at hp
      · rw [← Option.some.inj hp] at hpc
        have hsame : new = conn := hpc
        exact absurd (hsame ▸ hused) hnew
      · rename_i hd
        exact absurd (hw.own fp d old p hold hp (hconn.trans hpc.symm)) hd
    · have hasked : closeOps (h.ops walk conn (.register fp new)) = 0 := by
        simp only [Hub.ops]
        cases hold : h.peers[fp]? with
        | none => rfl
        | some old =>
          have hconn : old.conn ≠ conn := fun heq => hclosed ⟨old, hold, heq⟩
          simp only [if_neg hconn, closeOps_append, removeOps, closeOps_noticeOps]
          rfl
      rw [hasked, Nat.add_zero]
      refine ⟨ho.once, fun d p hp hpc => ?_, fun hno => ho.unused (hunused hno)⟩
      replace hp : (h.register size walk fp new).peers[d]? = some p := hp
      rw [hpeers] at hp
      split at hp
      · rw [← Option.some.inj hp] at hpc
        have hsame : new = conn := hpc
        exact ho.unused (hsame ▸ hnew)
      · exact ho.current d p hp hpc

theorem runOps_snoc (h : Hub α) (conn : Nat) (calls : List (Call α)) (c : Call α) :
    h.runOps size walk conn (calls ++ [c])
      = h.runOps size walk conn calls ++ (h.run size walk calls).ops walk conn c := by
  induction calls generalizing h with
  | nil => exact List.append_nil _
  | cons first calls ih =>
    show h.ops walk conn first ++ (h.after size walk first).runOps size walk conn (calls ++ [c]) = _
    rw [ih, ← List.append_assoc]
    rfl

theorem run_closedOnce {calls : List (Call α)} (hfresh : (registered calls).Nodup) (conn : Nat) :
    ClosedOnce (registered calls) (Hub.run size walk {} calls) conn
      (closeOps (Hub.runOps size walk {} conn calls)) := by
  induction calls using List.reverseRecOn with
  | nil => exact ⟨Nat.zero_le 1, fun _ _ _ _ => rfl, fun _ => rfl⟩
  | append_singleton calls c ih =>
    rw [registered_append] at hfresh
    obtain ⟨hcalls, -, hdisjoint⟩ := List.nodup_append.mp hfresh
    rw [runOps_snoc, closeOps_append, run_snoc, registered_append]
    refine (ih hcalls).after (run_wired hcalls).1 ?_
    intro new hnew hold
    exact hdisjoint new hold new hnew rfl

/-! ### The bound -/

theorem run_outbox (t : Traffic α) (ops : List (OutboxOp α)) :
    (t.run size ops).outbox = t.outbox.run size ops := by
  induction ops generalizing t with
  | nil => rfl
  | cons op ops ih => exact ih (t.after size op)

/-- What holds of one outbox over any operations: the bytes are counted and
bounded, forwarded frames stop at the first bound, and items come out in the
order in which they were put in. -/
def Queued (size : ServerMessage α → Nat) (ops : List (OutboxOp α)) : Prop :=
  let t := ({} : Traffic α).run size ops
  t.outbox.queued = (t.outbox.waiting.map (Outbound.bytes size)).sum ∧
  t.outbox.queued ≤ maxQueuedBytes + controlHeadroom ∧
  t.received ++ t.outbox.waiting = t.outbox.sent ∧
  ∀ message : ServerMessage α,
    (t.outbox.push size message true).1 = t.outbox ∨
      (t.outbox.push size message true).1.sent = t.outbox.sent ++ [.frame message] ∧
        (t.outbox.push size message true).1.queued ≤ maxQueuedBytes

theorem queued_run (size : ServerMessage α → Nat) (ops : List (OutboxOp α)) : Queued size ops := by
  unfold Queued
  intro t
  obtain ⟨hcounted, horder⟩ := @run_ordered _ size {} counted_new rfl ops
  refine ⟨hcounted.queued_eq, hcounted.queued_le, ?_, fun message => ?_⟩
  · have hreceived : t.received = t.outbox.sent.take t.outbox.read := horder
    rw [hreceived]
    exact List.take_append_drop _ _
  · obtain ⟨-, -, heq⟩ | ⟨hbounded, -, -⟩ | ⟨-, hroom, heq⟩ := push_cases size t.outbox message true
    · exact .inl heq
    · cases hbounded
    · right
      rw [heq]
      exact ⟨rfl, hroom rfl⟩

/-- What waits is bounded, whatever the peers do. -/
def WaitingBounded (size : ServerMessage α → Nat) (walk : Iteration) : Prop :=
  ∃ bound, ∀ calls : List (Call α), (registered calls).Nodup →
    ∀ conn, ((Hub.run size walk {} calls).outboxes conn).waiting.length ≤ bound

/-- Everything about the bytes and the order holds in every run. The number
of items that wait is bounded in every run of the hub in which a control
frame that does not fit finds no such close waiting. -/
theorem queue_bounded (size : ServerMessage α → Nat) (hsize : ∀ message, 0 < size message)
    (walk : Iteration) :
    (∀ ops : List (OutboxOp α), Queued size ops) ∧
    ∀ (calls : List (Call α)) (conn : Nat), (registered calls).Nodup →
      (Hub.run size walk {} calls).outboxes conn
        = (({} : Traffic α).run size (Hub.runOps size walk {} conn calls)).outbox ∧
      (SpacedRun size ({} : Outbox α) (Hub.runOps size walk {} conn calls) →
        ((Hub.run size walk {} calls).outboxes conn).waiting.length
          ≤ maxQueuedBytes + controlHeadroom + 2) := by
  refine ⟨queued_run size, fun calls conn hfresh => ?_⟩
  have hsame : (Hub.run size walk {} calls).outboxes conn
      = (({} : Traffic α).run size (Hub.runOps size walk {} conn calls)).outbox := by
    rw [run_outboxes, run_outbox]
  refine ⟨hsame, fun hspaced => ?_⟩
  rw [hsame]
  have hfew : FewCloses (({} : Traffic α).run size (Hub.runOps size walk {} conn calls)).outbox
      (0 + closeOps (Hub.runOps size walk {} conn calls)) :=
    run_fewCloses counted_new ⟨Nat.zero_le _, fun _ => Nat.le_refl 0⟩ hspaced
  have hcounted := (@run_ordered _ size {} counted_new rfl
    (Hub.runOps size walk {} conn calls)).1
  have honce := (@run_closedOnce _ size walk _ hfresh conn).once
  have hle := waiting_le hsize hcounted hfew
  omega

/-- The bytes of a frame with plain names and an empty object as its data. -/
def plainSize : ServerMessage Unit → Nat
  | .presence fp online => 34 + fp.utf8ByteSize + (if online then 4 else 5)
  | .msg source _ => 31 + source.utf8ByteSize

/-- The bytes of a frame, where a presence frame is as long as the room for control frames, and
the data is as long as it says. -/
def longSize : ServerMessage Nat → Nat
  | .presence _ _ => controlHeadroom
  | .msg _ length => length + 1

/-- `A` does not read. `B` comes and sends, until `A` has no more room for what it sends; goes,
and comes again. -/
def fullCalls : List (Call Nat) :=
  [.register "A" 1, .register "B" 2, .setAllow "A" 1 ["B"], .setAllow "B" 2 ["A"],
    .forward "B" 2 "A" (maxQueuedBytes - controlHeadroom - 1), .forward "B" 2 "A" 0,
    .setAllow "B" 2 [], .setAllow "B" 2 ["A"]]

/-- The last presence frame does not fit, and a close waits in its place. -/
theorem queue_bounded_full :
    let o := (Hub.run longSize Iteration.stored {} fullCalls).outboxes 1
    o.waiting = [.frame (.presence "B" true),
        .frame (.msg "B" (maxQueuedBytes - controlHeadroom - 1)), .frame (.presence "B" false),
        .close closeRateLimited "too far behind"] ∧
      o.queued = maxQueuedBytes + controlHeadroom ∧
      o.waiting.length ≤ maxQueuedBytes + controlHeadroom + 2 := by
  have hsize : ∀ message, 0 < longSize message := by
    intro message
    cases message with
    | presence => exact Nat.succ_pos _
    | msg => exact Nat.succ_pos _
  have hspaced : SpacedRun longSize {} (Hub.runOps longSize Iteration.stored {} 1 fullCalls) := by
    have hops : Hub.runOps longSize Iteration.stored {} 1 fullCalls
        = [.push (.presence "B" true) false,
          .push (.msg "B" (maxQueuedBytes - controlHeadroom - 1)) true, .push (.msg "B" 0) true,
          .push (.presence "B" false) false, .push (.presence "B" true) false] := by
      decide +kernel
    rw [hops]
    exact ⟨.inl (by decide), trivial, trivial, .inl (by decide), .inr (by decide), trivial⟩
  exact ⟨by decide +kernel, by decide +kernel,
    ((queue_bounded longSize hsize Iteration.stored).2 fullCalls 1 (by decide)).2 hspaced⟩

/-! ### A peer that flaps -/

/-- `A` is on the connection 1 and allows `B`, which is on 2 and allows `l`.
`A` has read nothing of `n` items. -/
structure Flapping (h : Hub Unit) (l : List String) (n : Nat) : Prop where
  near : h.peers["A"]? = some ⟨1, ["B"]⟩
  far : h.peers["B"]? = some ⟨2, l⟩
  unread : (h.outboxes 1).read = 0
  length_eq : (h.outboxes 1).sent.length = n

/-- `B` changes what it allows, and `A` is told. -/
theorem Flapping.setAllow {h : Hub Unit} {l fps : List String} (hf : Flapping h l n) {online : Bool}
    (hfps : (fps.filter (· ≠ "B")).dedup = fps)
    (hops : h.ops Iteration.stored 1 (.setAllow "B" 2 fps)
      = [.push (.presence "B" online) false]) :
    Flapping (h.after plainSize Iteration.stored (.setAllow "B" 2 fps)) fps (n + 1) := by
  have hcurrent : h.current "B" 2 = some ⟨2, l⟩ := by
    unfold Hub.current
    rw [hf.far]
    rfl
  have hpeers : (h.after plainSize Iteration.stored (.setAllow "B" 2 fps)).peers
      = h.peers.insert "B" ⟨2, fps⟩ := by
    show (h.setAllow plainSize Iteration.stored "B" 2 fps).peers = _
    rw [setAllow_eq hcurrent, announce_peers]
    show h.peers.insert "B" ⟨2, (fps.filter (· ≠ "B")).dedup⟩ = _
    rw [hfps]
  have houtbox : (h.after plainSize Iteration.stored (.setAllow "B" 2 fps)).outboxes 1
      = (h.outboxes 1).after plainSize (.push (.presence "B" online) false) := by
    rw [after_outboxes, hops]
    rfl
  constructor
  · rw [hpeers, getElem?_keyInsert, if_neg (by decide)]
    exact hf.near
  · rw [hpeers, getElem?_keyInsert, if_pos rfl]
  · rw [houtbox, after_read (fun heq => (by cases heq))]
    exact hf.unread
  · rw [houtbox]
    -- Either the frame is put in, or the close.
    show ((h.outboxes 1).push plainSize (.presence "B" online) false).1.sent.length = n + 1
    rcases push_control plainSize (h.outboxes 1) (.presence "B" online) with heq | heq
    · rw [heq, List.length_append, hf.length_eq]
      rfl
    · rw [heq, List.length_append, hf.length_eq]
      rfl

/-- What the two calls do to the inbox of `A`. -/
theorem Flapping.ops {h : Hub Unit} {allow : List String} (hf : Flapping h allow n) :
    (allow = [] → h.ops Iteration.stored 1 (.setAllow "B" 2 ["A"])
      = [.push (.presence "B" true) false]) ∧
    (allow = ["A"] → h.ops Iteration.stored 1 (.setAllow "B" 2 [])
      = [.push (.presence "B" false) false]) := by
  have hcurrent : h.current "B" 2 = some ⟨2, allow⟩ := by
    unfold Hub.current
    rw [hf.far]
    rfl
  constructor
  all_goals
    rintro rfl
    simp [Hub.ops, hcurrent, noticeOps, allowNotices, Hub.mutualPeers, Hub.isMutual, withAllow,
      Iteration.stored, getElem?_keyInsert, hf.near, hf.far]

/-- `B` allows `A` and takes it back, `n` times. -/
def flaps (n : Nat) : List (Call Unit) :=
  (List.replicate n [.setAllow "B" 2 ["A"], .setAllow "B" 2 []]).flatten

theorem flapping_fills (n : Nat) :
    Flapping (Hub.run plainSize Iteration.stored {}
      ([.register "A" 1, .register "B" 2, .setAllow "A" 1 ["B"]] ++ flaps n)) [] (2 * n) := by
  have hstart : Flapping (Hub.run plainSize Iteration.stored {}
      [.register "A" 1, .register "B" 2, .setAllow "A" 1 ["B"]]) [] 0 := by
    constructor <;> decide +kernel
  have hrun (n : Nat) : ∀ (h : Hub Unit) (m : Nat), Flapping h [] m →
      Flapping (h.run plainSize Iteration.stored (flaps n)) [] (m + 2 * n) := by
    induction n with
    | zero => exact fun h m hf => hf
    | succ n ih =>
      intro h m hf
      have hon := hf.setAllow (by decide) (hf.ops.1 rfl)
      have hoff := hon.setAllow (by decide) (hon.ops.2 rfl)
      have hrest := ih _ _ hoff
      rw [show m + 2 * (n + 1) = m + 1 + 1 + 2 * n by omega]
      exact hrest
  have hall := hrun n _ 0 hstart
  rw [Nat.zero_add] at hall
  unfold Hub.run at hall ⊢
  rw [List.foldl_append]
  exact hall

theorem registered_flaps (n : Nat) : registered (flaps n) = [] := by
  induction n with
  | zero => rfl
  | succ n ih =>
    show registered ([.setAllow "B" 2 ["A"], .setAllow "B" 2 []] ++ flaps n) = []
    rw [registered_append, ih]
    rfl

/-- Peers that flap while a receiver does not read make the number of items
that wait for it as large as they like. -/
theorem queue_unbounded :
    ¬((∀ ops, Queued plainSize ops) ∧ WaitingBounded plainSize Iteration.stored) := by
  rintro ⟨-, bound, hbound⟩
  have hf := flapping_fills (bound + 1)
  have hfresh : (registered ([.register "A" 1, .register "B" 2, .setAllow "A" 1 ["B"]]
      ++ flaps (bound + 1))).Nodup := by
    rw [registered_append, registered_flaps]
    decide
  have hle := hbound _ hfresh 1
  rw [Outbox.waiting, hf.unread, List.drop_zero, hf.length_eq] at hle
  omega

end DeskLink.Relay
