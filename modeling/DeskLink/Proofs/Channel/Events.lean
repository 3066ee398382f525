import DeskLink.Channel.Events
import DeskLink.Lib.Run

/-!
# `DeskLink.Proofs.Channel.Events`: sends keep their order, and when they stall

`Sound` is what every interleaving keeps: what was accepted is handed over, is on its way,
waits or was lost in a failed send, each thread's messages in the order of its calls, and
the queue within its limits.

A message waits for a callback. `NoStall` says that one comes. Every step keeps it but a
send of the callback that fails while another message waits, the buffer is low already
and no other signal is there (`Harmless`): the callback ends, and nothing wakes the next
one. `events_flow` says that there is no other way to stall.
-/

set_option autoImplicit false

namespace DeskLink.Events

open Lib (runFrom Always StepsMeet always_iff_stepsMeet)

/-- What the callback has taken and not handed over. -/
def Lock.taken : Lock → List Message
  | .drain (some message) => [message]
  | .free | .sender _ _ | .drain none => []

/-- Of one thread, the first was sent first. -/
def InOrder (a b : Message) : Prop := a.thread = b.thread → a.number < b.number

namespace Channel

/-- What was handed over, and behind it what will be, in that order. -/
def line (c : Channel) : List Message := c.handed ++ (c.lock.taken ++ c.held.messages)

structure Sound (c : Channel) : Prop where
  bytes : c.held.bytes = (c.held.messages.map Message.length).sum
  few : c.held.messages.length ≤ eventsMaxHeldMessages
  small : c.held.bytes ≤ eventsMaxHeldBytes
  accepted : ∀ m, m ∈ c.accepted ↔ m ∈ c.line ∨ m ∈ c.lost
  inOrder : c.line.Pairwise InOrder
  called : ∀ m ∈ c.line, m.number < c.calls m.thread
  /-- A send that has the lock is the last one of its thread. -/
  sender : ∀ m buffered, c.lock = .sender m buffered → m.number < c.calls m.thread ∧
    (∀ m' ∈ c.line, InOrder m' m) ∧ c.direct m.thread = none
  /-- So is one that goes on without it, and nothing of its thread waits. -/
  direct : ∀ thread m, c.direct thread = some m → m.thread = thread ∧
    m.number < c.calls m.thread ∧ (∀ m' ∈ c.line, InOrder m' m) ∧
    ∀ m' ∈ c.lock.taken ++ c.held.messages, m'.thread ≠ m.thread

theorem sound_new : Sound {} where
  bytes := rfl
  few := Nat.zero_le _
  small := Nat.zero_le _
  accepted m := by simp [line, Lock.taken]
  inOrder := List.Pairwise.nil
  called m h := by cases h
  sender m buffered h := by cases h
  direct thread m h := by cases h

variable {c c' : Channel} {text : String} {thread : Nat} {message : Message} {op : ChannelStep}

theorem Sound.begin (h : c.Sound) (hbegin : c.begin thread text = some c') : c'.Sound := by
  have hcalls (t : Nat) : c.calls t ≤
      Function.update c.calls thread (c.calls thread + 1) t := by
    by_cases ht : t = thread
    · rw [ht, Function.update_self]
      exact Nat.le_succ _
    · rw [Function.update_of_ne ht]
  unfold Channel.begin at hbegin
  split at hbegin
  · cases hbegin
  · rename_i hbusy
    have hidle : c.direct thread = none := by
      unfold busy at hbusy
      rw [Bool.or_eq_true, not_or, Bool.not_eq_true, Option.isSome_eq_false_iff,
        Option.isNone_iff_eq_none] at hbusy
      exact hbusy.1
    split at hbegin
    · cases hbegin
      exact { h with
        called := fun m hm => (h.called m hm).trans_le (hcalls m.thread)
        sender := fun m buffered hlock =>
          ⟨((h.sender m buffered hlock).1).trans_le (hcalls m.thread), (h.sender m buffered hlock).2⟩
        direct := fun t m hm =>
          ⟨(h.direct t m hm).1, ((h.direct t m hm).2.1).trans_le (hcalls m.thread),
            (h.direct t m hm).2.2⟩ }
    · split at hbegin
      · cases hbegin
      · rename_i hlock
        rw [ne_eq, not_not] at hlock
        cases hbegin
        have hline : ({ c with
            calls := Function.update c.calls thread (c.calls thread + 1)
            lock := .sender ⟨thread, c.calls thread, text⟩ c.buffered } : Channel).line = c.line := by
          simp only [line, hlock, Lock.taken]
        have htaken : c.lock.taken = [] := by rw [hlock, Lock.taken]
        exact { bytes := h.bytes
                few := h.few
                small := h.small
                accepted := fun m => by rw [hline]; exact h.accepted m
                inOrder := by rw [hline]; exact h.inOrder
                called := fun m hm => by
                  rw [hline] at hm
                  exact (h.called m hm).trans_le (hcalls m.thread)
                sender := fun m buffered heq => by
                  cases heq
                  rw [hline]
                  refine ⟨?_, fun m' hm' heq => ?_, hidle⟩
                  · show c.calls thread < Function.update c.calls thread (c.calls thread + 1) thread
                    rw [Function.update_self]
                    exact Nat.lt_succ_self _
                  · have hcalled := h.called m' hm'
                    rw [heq] at hcalled
                    exact hcalled
                direct := fun t m hm => by
                  obtain ⟨hthread, hnumber, hbefore, hnone⟩ := h.direct t m hm
                  rw [hline]
                  rw [htaken] at hnone
                  exact ⟨hthread, hnumber.trans_le (hcalls m.thread), hbefore, hnone⟩ }

theorem push_eq_some {held held' : Held} (h : held.push message = some held') :
    held' = { messages := held.messages ++ [message], bytes := held.bytes + message.length } ∧
      held.messages.length < eventsMaxHeldMessages ∧
      held.bytes + message.length ≤ eventsMaxHeldBytes := by
  unfold Held.push at h
  split at h
  · cases h
  · rename_i hroom
    rw [not_or, Nat.not_le, Nat.not_lt] at hroom
    cases h
    exact ⟨rfl, hroom⟩

/-- The sender holds the lock and decides. -/
theorem Sound.act (h : c.Sound) {buffered : Nat} (hlock : c.lock = .sender message buffered) :
    (c.act message buffered).Sound := by
  obtain ⟨hnumber, hlast, hnone⟩ := h.sender message buffered hlock
  have hfree : ({ c with lock := .free } : Channel).line = c.line := by
    simp only [line, hlock, Lock.taken]
  have hdirect (t : Nat) (m : Message) (hm : c.direct t = some m) : m.thread ≠ message.thread := by
    intro heq
    rw [← (h.direct t m hm).1, heq, hnone] at hm
    cases hm
  unfold Channel.act
  split
  · split
    · -- It waits behind the others.
      rename_i held hpush
      obtain ⟨rfl, hfew, hsmall⟩ := push_eq_some hpush
      have hline : ({ c with
          held := { messages := c.held.messages ++ [message],
                    bytes := c.held.bytes + message.length }
          lock := .free
          accepted := c.accepted ++ [message] } : Channel).line = c.line ++ [message] := by
        simp only [line, hlock, Lock.taken, List.nil_append, List.append_assoc]
      exact { bytes := by
                simp only [h.bytes, List.map_append, List.sum_append, List.map_cons, List.map_nil,
                  List.sum_cons, List.sum_nil, Nat.add_zero]
              few := by simpa using hfew
              small := hsmall
              accepted := fun m => by
                rw [hline, List.mem_append, List.mem_append, h.accepted m]
                tauto
              inOrder := by
                rw [hline, List.pairwise_append]
                refine ⟨h.inOrder, List.pairwise_singleton _ _, fun a ha b hb => ?_⟩
                rw [List.mem_singleton.mp hb]
                exact hlast a ha
              called := fun m hm => by
                rw [hline] at hm
                obtain hold | hnew := List.mem_append.mp hm
                · exact h.called m hold
                · rw [List.mem_singleton.mp hnew]
                  exact hnumber
              sender := fun _ _ heq => by cases heq
              direct := fun t m hm => by
                obtain ⟨hthread, hcalled, hbefore, hnot⟩ := h.direct t m hm
                refine ⟨hthread, hcalled, fun m' hm' => ?_, fun m' hm' => ?_⟩
                · rw [hline] at hm'
                  obtain hold | hnew := List.mem_append.mp hm'
                  · exact hbefore m' hold
                  · rw [List.mem_singleton.mp hnew]
                    exact fun heq => absurd heq.symm (hdirect t m hm)
                · have hwaits : m' ∈ c.held.messages ++ [message] := hm'
                  obtain hold | hnew := List.mem_append.mp hwaits
                  · exact hnot m' (List.mem_append_right _ hold)
                  · rw [List.mem_singleton.mp hnew]
                    exact (hdirect t m hm).symm }
    · -- There is no room, and the message is dropped.
      exact { h with
              accepted := fun m => by rw [hfree]; exact h.accepted m
              inOrder := by rw [hfree]; exact h.inOrder
              called := fun m hm => h.called m (hfree ▸ hm)
              sender := fun _ _ heq => by cases heq
              direct := fun t m hm => by
                obtain ⟨hthread, hcalled, hbefore, hnot⟩ := h.direct t m hm
                refine ⟨hthread, hcalled, fun m' hm' => hbefore m' (hfree ▸ hm'), ?_⟩
                exact fun m' hm' => hnot m' (List.mem_append_right _ hm') }
  · -- None waits: its thread sends it, behind all that were handed over.
    rename_i hwait
    have hempty : c.held.messages = [] := by
      simp only [Held.mustWait, Bool.or_eq_true, not_or, Bool.not_eq_true, Bool.not_eq_false'] at hwait
      exact List.isEmpty_iff.mp hwait.1
    have hline : ({ c with
        lock := .free
        direct := Function.update c.direct message.thread (some message) } : Channel).line
        = c.line := by
      simp only [line, hlock, Lock.taken]
    exact { h with
            accepted := fun m => by rw [hline]; exact h.accepted m
            inOrder := by rw [hline]; exact h.inOrder
            called := fun m hm => h.called m (hline ▸ hm)
            sender := fun _ _ heq => by cases heq
            direct := fun t m hm => by
              have hm : Function.update c.direct message.thread (some message) t = some m := hm
              rw [hline]
              by_cases ht : t = message.thread
              · rw [ht, Function.update_self] at hm
                cases hm
                exact ⟨ht.symm, hnumber, hlast, fun m' hm' => by
                  rw [Lock.taken, hempty] at hm'
                  cases hm'⟩
              · rw [Function.update_of_ne ht] at hm
                obtain ⟨hthread, hcalled, hbefore, hnot⟩ := h.direct t m hm
                exact ⟨hthread, hcalled, hbefore,
                  fun m' hm' => hnot m' (List.mem_append_right _ hm')⟩ }

/-- A direct send, which may fail. -/
theorem Sound.send (h : c.Sound) (hdirect : c.direct thread = some message) (ok : Bool) :
    (c.send message ok).Sound := by
  obtain ⟨hthread, hcalled, hbefore, hnot⟩ := h.direct thread message hdirect
  have hkeep (t : Nat) (m : Message)
      (hm : Function.update c.direct message.thread none t = some m) :
      c.direct t = some m ∧ t ≠ message.thread := by
    by_cases ht : t = message.thread
    · rw [ht, Function.update_self] at hm
      cases hm
    · rw [Function.update_of_ne ht] at hm
      exact ⟨hm, ht⟩
  have hsender (m : Message) (buffered : Nat) (hlock : c.lock = .sender m buffered) :
      Function.update c.direct message.thread none m.thread = none := by
    by_cases ht : m.thread = message.thread
    · rw [ht, Function.update_self]
    · rw [Function.update_of_ne ht]
      exact (h.sender m buffered hlock).2.2
  unfold Channel.send
  cases ok with
  | false =>
    simp only [Bool.false_eq_true, if_false]
    exact { h with
            sender := fun m buffered hlock =>
              ⟨(h.sender m buffered hlock).1, (h.sender m buffered hlock).2.1,
                hsender m buffered hlock⟩
            direct := fun t m hm => h.direct t m (hkeep t m hm).1 }
  | true =>
    simp only [if_true]
    have hline (m : Message) : m ∈ c.handed ++ [message] ++ (c.lock.taken ++ c.held.messages) ↔
        m ∈ c.line ∨ m = message := by
      simp only [line, List.mem_append, List.mem_singleton]
      tauto
    have hlast : ∀ m ∈ c.lock.taken ++ c.held.messages, InOrder message m :=
      fun m hm heq => absurd heq.symm (hnot m hm)
    obtain ⟨hhanded, hrest, hboth⟩ := List.pairwise_append.mp h.inOrder
    exact { bytes := h.bytes
            few := h.few
            small := h.small
            accepted := fun m => by
              show m ∈ c.accepted ++ [message] ↔
                m ∈ c.handed ++ [message] ++ (c.lock.taken ++ c.held.messages) ∨ m ∈ c.lost
              rw [hline, List.mem_append, List.mem_singleton, h.accepted m]
              tauto
            inOrder := by
              show (c.handed ++ [message] ++ (c.lock.taken ++ c.held.messages)).Pairwise InOrder
              rw [List.append_assoc, List.singleton_append, List.pairwise_append]
              refine ⟨hhanded, List.pairwise_cons.mpr ⟨hlast, hrest⟩, fun a ha b hb => ?_⟩
              obtain rfl | hwaits := List.mem_cons.mp hb
              · exact hbefore a (List.mem_append_left _ ha)
              · exact hboth a ha b hwaits
            called := fun m hm => by
              obtain hold | rfl := (hline m).mp hm
              · exact h.called m hold
              · exact hcalled
            sender := fun m buffered hlock => by
              refine ⟨(h.sender m buffered hlock).1, fun m' hm' => ?_, hsender m buffered hlock⟩
              obtain hold | rfl := (hline m').mp hm'
              · exact (h.sender m buffered hlock).2.1 m' hold
              · -- The sender's thread has nothing on its way.
                intro heq
                have hnone := (h.sender m buffered hlock).2.2
                rw [← heq, hthread, hdirect] at hnone
                cases hnone
            direct := fun t m hm => by
              obtain ⟨hm, ht⟩ := hkeep t m hm
              obtain ⟨hthread', hcalled', hbefore', hnot'⟩ := h.direct t m hm
              refine ⟨hthread', hcalled', fun m' hm' => ?_, hnot'⟩
              obtain hold | rfl := (hline m').mp hm'
              · exact hbefore' m' hold
              · exact fun heq => absurd (hthread'.symm.trans heq.symm) ht }

/-- Steps that leave what was handed over, taken, waiting, accepted and lost. -/
theorem Sound.same (h : c.Sound) (hheld : c'.held = c.held) (hhanded : c'.handed = c.handed)
    (htaken : c'.lock.taken = c.lock.taken) (haccepted : c'.accepted = c.accepted)
    (hlost : c'.lost = c.lost) (hcalls : c'.calls = c.calls) (hdirect : c'.direct = c.direct)
    (hlock : ∀ m buffered, c'.lock = .sender m buffered → c.lock = .sender m buffered) :
    c'.Sound := by
  have hline : c'.line = c.line := by rw [line, line, hhanded, htaken, hheld]
  exact { bytes := by rw [hheld]; exact h.bytes
          few := by rw [hheld]; exact h.few
          small := by rw [hheld]; exact h.small
          accepted := fun m => by rw [hline, haccepted, hlost]; exact h.accepted m
          inOrder := by rw [hline]; exact h.inOrder
          called := fun m hm => by rw [hcalls]; exact h.called m (hline ▸ hm)
          sender := fun m buffered heq => by
            rw [hline, hcalls, hdirect]
            exact h.sender m buffered (hlock m buffered heq)
          direct := fun t m hm => by
            rw [hline, hcalls, htaken, hheld]
            exact h.direct t m (hdirect ▸ hm) }

/-- What the callback takes next, if anything. -/
theorem takeNext_cases (c : Channel) :
    ((eventsHighWater < c.buffered ∨ c.held.messages = []) ∧
        c.takeNext = { c with lock := .free }) ∨
      ∃ message messages, c.held.messages = message :: messages ∧
        c.buffered ≤ eventsHighWater ∧
        c.takeNext = { c with
          held := { messages, bytes := c.held.bytes - message.length }
          lock := .drain (some message) } := by
  unfold takeNext
  by_cases hhigh : eventsHighWater < c.buffered
  · have hnext : c.held.next c.buffered = (c.held, none) := if_pos hhigh
    rw [hnext]
    exact .inl ⟨.inl hhigh, rfl⟩
  · cases hmessages : c.held.messages with
    | nil =>
      have hnext : c.held.next c.buffered = (c.held, none) := by
        rw [Held.next, if_neg hhigh, hmessages]
      rw [hnext]
      exact .inl ⟨.inr rfl, rfl⟩
    | cons message messages =>
      have hnext : c.held.next c.buffered
          = ({ messages, bytes := c.held.bytes - message.length }, some message) := by
        rw [Held.next, if_neg hhigh, hmessages]
      rw [hnext]
      exact .inr ⟨message, messages, rfl, Nat.not_lt.mp hhigh, rfl⟩

theorem Sound.takeNext (h : c.Sound) (hlock : c.lock = .drain none) : c.takeNext.Sound := by
  obtain ⟨-, heq⟩ | ⟨message, messages, hmessages, -, heq⟩ := takeNext_cases c
  · rw [heq]
    exact h.same rfl rfl (by rw [hlock]; rfl) rfl rfl rfl rfl (fun _ _ heq => by cases heq)
  · rw [heq]
    have hline : c.handed ++ ([message] ++ messages) = c.line := by
      rw [line, hlock, Lock.taken, hmessages, List.nil_append, List.singleton_append]
    have hbytes := h.bytes
    have hfew := h.few
    have hsmall := h.small
    rw [hmessages, List.map_cons, List.sum_cons] at hbytes
    rw [hmessages, List.length_cons] at hfew
    exact { bytes := by
              show c.held.bytes - message.length = (messages.map Message.length).sum
              omega
            few := by
              show messages.length ≤ _
              omega
            small := by
              show c.held.bytes - message.length ≤ _
              omega
            accepted := fun m => by
              show m ∈ c.accepted ↔ m ∈ c.handed ++ ([message] ++ messages) ∨ m ∈ c.lost
              rw [hline]
              exact h.accepted m
            inOrder := by
              show (c.handed ++ ([message] ++ messages)).Pairwise InOrder
              rw [hline]
              exact h.inOrder
            called := fun m hm => h.called m (hline ▸ hm)
            sender := fun _ _ heq => by cases heq
            direct := fun t m hm => by
              obtain ⟨hthread, hcalled, hbefore, hnot⟩ := h.direct t m hm
              refine ⟨hthread, hcalled, fun m' hm' => hbefore m' (hline ▸ hm'), ?_⟩
              rw [hlock, Lock.taken, hmessages] at hnot
              exact hnot }

theorem Sound.handOver (h : c.Sound) (hlock : c.lock = .drain (some message)) (ok : Bool) :
    (c.handOver message ok).Sound := by
  have hline : c.line = c.handed ++ ([message] ++ c.held.messages) := by
    rw [line, hlock, Lock.taken]
  have htaken : c.lock.taken = [message] := by rw [hlock, Lock.taken]
  unfold Channel.handOver
  cases ok with
  | true =>
    simp only [if_true]
    have hsame : c.handed ++ [message] ++ ([] ++ c.held.messages) = c.line := by
      rw [hline, List.nil_append, List.append_assoc]
    exact { h with
            accepted := fun m => by
              show m ∈ c.accepted ↔ m ∈ c.handed ++ [message] ++ ([] ++ c.held.messages) ∨ m ∈ c.lost
              rw [hsame]
              exact h.accepted m
            inOrder := by
              show (c.handed ++ [message] ++ ([] ++ c.held.messages)).Pairwise InOrder
              rw [hsame]
              exact h.inOrder
            called := fun m hm => h.called m (hsame ▸ hm)
            sender := fun _ _ heq => by cases heq
            direct := fun t m hm => by
              obtain ⟨hthread, hcalled, hbefore, hnot⟩ := h.direct t m hm
              refine ⟨hthread, hcalled, fun m' hm' => hbefore m' (hsame ▸ hm'), fun m' hm' => ?_⟩
              exact hnot m' (List.mem_append_right _ hm') }
  | false =>
    simp only [Bool.false_eq_true, if_false]
    have hless : (c.handed ++ ([] ++ c.held.messages)).Sublist c.line := by
      rw [hline]
      exact (List.Sublist.refl _).append ((List.nil_sublist _).append (List.Sublist.refl _))
    exact { h with
            accepted := fun m => by
              show m ∈ c.accepted ↔ m ∈ c.handed ++ ([] ++ c.held.messages) ∨ m ∈ c.lost ++ [message]
              rw [h.accepted m, hline]
              simp only [List.mem_append, List.mem_singleton, List.not_mem_nil, false_or]
              tauto
            inOrder := h.inOrder.sublist hless
            called := fun m hm => h.called m (hless.subset hm)
            sender := fun _ _ heq => by cases heq
            direct := fun t m hm => by
              obtain ⟨hthread, hcalled, hbefore, hnot⟩ := h.direct t m hm
              refine ⟨hthread, hcalled, fun m' hm' => hbefore m' (hless.subset hm'), fun m' hm' => ?_⟩
              exact hnot m' (List.mem_append_right _ hm') }

theorem step_sound (h : c.Sound) (hstep : c.step op = some c') : c'.Sound := by
  cases op with
  | begin thread text => exact h.begin hstep
  | decide =>
    simp only [step] at hstep
    split at hstep
    · rename_i hlock
      cases hstep
      exact h.act hlock
    · cases hstep
    · cases hstep
  | send thread ok =>
    obtain ⟨message, hdirect, rfl⟩ := Option.map_eq_some_iff.mp hstep
    exact h.send hdirect ok
  | leave bytes =>
    simp only [step] at hstep
    split at hstep
    · cases hstep
      exact h.same rfl rfl rfl rfl rfl rfl rfl (fun _ _ heq => heq)
    · cases hstep
  | callback =>
    simp only [step] at hstep
    split at hstep
    · rename_i hfree
      cases hstep
      exact h.same rfl rfl (by rw [hfree.1]; rfl) rfl rfl rfl rfl (fun _ _ heq => by cases heq)
    · cases hstep
  | next =>
    simp only [step] at hstep
    split at hstep
    · rename_i hlock
      cases hstep
      exact h.takeNext hlock
    · cases hstep
  | hand ok =>
    simp only [step] at hstep
    split at hstep
    · rename_i hlock
      cases hstep
      exact h.handOver hlock ok
    · cases hstep
    · cases hstep
    · cases hstep

theorem run_sound {ops : List ChannelStep} (h : runFrom step {} ops = some c') : c'.Sound :=
  Lib.runFrom_invariant (I := Sound) (fun _ _ _ h hstep => step_sound h hstep) sound_new h

/-! ### Stalling -/

/-- Where something waits, the channel's buffer is still to fall to the low-water mark, or
a callback is to come or at work. -/
def NoStall (c : Channel) : Prop :=
  c.held.messages ≠ [] →
    eventsLowWater < c.buffered ∨ 0 < c.pending ∨ ∃ taken, c.lock = .drain taken

/-- A step does not end the callback on a failed send that is the last chance of what
waits behind it. -/
def Harmless (c : Channel) (op : ChannelStep) : Prop :=
  op = .hand false → c.held.messages = [] ∨ eventsLowWater < c.buffered ∨ 0 < c.pending

instance (c : Channel) (op : ChannelStep) : Decidable (Harmless c op) := by
  unfold Harmless
  infer_instance

/-- A send that read a buffer over the high-water mark has not missed the callback. -/
def Heard (c : Channel) : Prop :=
  ∀ m buffered, c.lock = .sender m buffered → eventsHighWater < buffered →
    eventsLowWater < c.buffered ∨ 0 < c.pending

theorem low_lt_high : eventsLowWater < eventsHighWater := by decide

/-- Bytes that leave either leave the buffer above the mark or signal. -/
theorem leave_wakes (bytes : Nat) (h : eventsLowWater < c.buffered ∨ 0 < c.pending) :
    eventsLowWater < (c.leave bytes).buffered ∨ 0 < (c.leave bytes).pending := by
  show eventsLowWater < c.buffered - bytes ∨ 0 < ite _ _ _
  split <;> omega

theorem begin_cases (h : c.begin thread text = some c') :
    c'.held = c.held ∧ c'.buffered = c.buffered ∧ c'.pending = c.pending ∧
      (c'.lock = c.lock ∨
        c.lock = .free ∧ ∃ m, c'.lock = .sender m c.buffered) := by
  unfold Channel.begin at h
  split at h
  · cases h
  · split at h
    · cases h
      exact ⟨rfl, rfl, rfl, .inl rfl⟩
    · split at h
      · cases h
      · rename_i hlock
        cases h
        exact ⟨rfl, rfl, rfl, .inr ⟨not_not.mp hlock, _, rfl⟩⟩

theorem act_cases (c : Channel) (message : Message) (buffered : Nat) :
    (c.act message buffered).lock = .free ∧ (c.act message buffered).buffered = c.buffered ∧
      (c.act message buffered).pending = c.pending ∧
      ((c.act message buffered).held.messages = c.held.messages ∨
        c.held.messages ≠ [] ∨ eventsHighWater < buffered) := by
  unfold Channel.act
  split
  · rename_i hwait
    have hwhy : c.held.messages ≠ [] ∨ eventsHighWater < buffered := by
      simpa [Held.mustWait] using hwait
    split
    · exact ⟨rfl, rfl, rfl, .inr hwhy⟩
    · exact ⟨rfl, rfl, rfl, .inl rfl⟩
  · exact ⟨rfl, rfl, rfl, .inl rfl⟩

theorem send_cases (c : Channel) (message : Message) (ok : Bool) :
    (c.send message ok).lock = c.lock ∧ c.buffered ≤ (c.send message ok).buffered ∧
      (c.send message ok).pending = c.pending ∧ (c.send message ok).held = c.held := by
  cases ok with
  | false => exact ⟨rfl, le_refl _, rfl, rfl⟩
  | true => exact ⟨rfl, Nat.le_add_right _ _, rfl, rfl⟩

/-- A sender still hears when the buffer drains. -/
theorem step_heard (h : c.Heard) (hstep : c.step op = some c') : c'.Heard := by
  intro m buffered hlock hhigh
  cases op with
  | begin thread text =>
    obtain ⟨-, hbuffered, hpending, hsame | ⟨-, m', hnew⟩⟩ := begin_cases hstep
    · rw [hbuffered, hpending]
      exact h m buffered (hsame ▸ hlock) hhigh
    · -- It has read the buffer just now.
      rw [hnew] at hlock
      cases hlock
      rw [hbuffered]
      exact .inl (low_lt_high.trans hhigh)
  | decide =>
    simp only [step] at hstep
    split at hstep
    · rename_i message read _
      cases hstep
      rw [(act_cases c message read).1] at hlock
      cases hlock
    · cases hstep
    · cases hstep
  | send thread ok =>
    obtain ⟨message, -, rfl⟩ := Option.map_eq_some_iff.mp hstep
    obtain ⟨hl, hbuffered, hpending, -⟩ := send_cases c message ok
    rw [hl] at hlock
    rw [hpending]
    exact (h m buffered hlock hhigh).imp_left (fun hlow => hlow.trans_le hbuffered)
  | leave bytes =>
    simp only [step] at hstep
    split at hstep
    · cases hstep
      exact leave_wakes bytes (h m buffered hlock hhigh)
    · cases hstep
  | callback =>
    simp only [step] at hstep
    split at hstep
    · cases hstep
      cases hlock
    · cases hstep
  | next =>
    simp only [step] at hstep
    split at hstep
    · cases hstep
      obtain ⟨-, heq⟩ | ⟨_, _, _, _, heq⟩ := takeNext_cases c
      · rw [heq] at hlock
        cases hlock
      · rw [heq] at hlock
        cases hlock
    · cases hstep
  | hand ok =>
    simp only [step] at hstep
    split at hstep
    · cases hstep
      cases ok <;> cases hlock
    · cases hstep
    · cases hstep
    · cases hstep

/-- A step out of a state where nothing stalls is harmless just when nothing stalls after
it. -/
theorem step_noStall (hheard : c.Heard) (h : c.NoStall) (hstep : c.step op = some c') :
    c'.NoStall ↔ Harmless c op := by
  cases op with
  | begin thread text =>
    refine iff_of_true (fun hwaits => ?_) (fun heq => by cases heq)
    obtain ⟨hheld, hbuffered, hpending, hlock⟩ := begin_cases hstep
    rw [hheld] at hwaits
    rw [hbuffered, hpending]
    obtain hlow | hpend | ⟨taken, hdrain⟩ := h hwaits
    · exact .inl hlow
    · exact .inr (.inl hpend)
    · obtain hsame | ⟨hfree, -⟩ := hlock
      · exact .inr (.inr ⟨taken, hsame.trans hdrain⟩)
      · rw [hfree] at hdrain
        cases hdrain
  | decide =>
    refine iff_of_true (fun hwaits => ?_) (fun heq => by cases heq)
    simp only [step] at hstep
    split at hstep
    · rename_i message read hlock
      cases hstep
      obtain ⟨-, hbuffered, hpending, hmessages⟩ := act_cases c message read
      rw [hbuffered, hpending]
      have hbefore : c.held.messages ≠ [] → eventsLowWater < c.buffered ∨ 0 < c.pending := by
        intro hold
        obtain hlow | hpend | ⟨taken, hdrain⟩ := h hold
        · exact .inl hlow
        · exact .inr hpend
        · rw [hlock] at hdrain
          cases hdrain
      have hwake : eventsLowWater < c.buffered ∨ 0 < c.pending := by
        obtain hsame | hold | hhigh := hmessages
        · exact hbefore (hsame ▸ hwaits)
        · exact hbefore hold
        · exact hheard message read hlock hhigh
      exact hwake.imp_right .inl
    · cases hstep
    · cases hstep
  | send thread ok =>
    refine iff_of_true (fun hwaits => ?_) (fun heq => by cases heq)
    obtain ⟨message, -, rfl⟩ := Option.map_eq_some_iff.mp hstep
    obtain ⟨hlock, hbuffered, hpending, hheld⟩ := send_cases c message ok
    rw [hheld] at hwaits
    rw [hpending, hlock]
    exact (h hwaits).imp_left (fun hlow => hlow.trans_le hbuffered)
  | leave bytes =>
    refine iff_of_true (fun hwaits => ?_) (fun heq => by cases heq)
    simp only [step] at hstep
    split at hstep
    · cases hstep
      obtain hlow | hpend | hdrain := h hwaits
      · exact (leave_wakes bytes (.inl hlow)).imp_right .inl
      · exact (leave_wakes bytes (.inr hpend)).imp_right .inl
      · exact .inr (.inr hdrain)
    · cases hstep
  | callback =>
    refine iff_of_true (fun _ => ?_) (fun heq => by cases heq)
    simp only [step] at hstep
    split at hstep
    · cases hstep
      exact .inr (.inr ⟨none, rfl⟩)
    · cases hstep
  | next =>
    refine iff_of_true (fun hwaits => ?_) (fun heq => by cases heq)
    simp only [step] at hstep
    split at hstep
    · cases hstep
      obtain ⟨hwhy, heq⟩ | ⟨message, _, _, _, heq⟩ := takeNext_cases c
      · -- It ends over the high-water mark, or with nothing left.
        rw [heq] at hwaits ⊢
        obtain hhigh | hnone := hwhy
        · exact .inl (low_lt_high.trans hhigh)
        · exact absurd hnone hwaits
      · rw [heq]
        exact .inr (.inr ⟨some message, rfl⟩)
    · cases hstep
  | hand ok =>
    simp only [step] at hstep
    split at hstep
    · rename_i message hlock
      cases hstep
      cases ok with
      | true => exact iff_of_true (fun _ => .inr (.inr ⟨none, rfl⟩)) (fun heq => by cases heq)
      | false =>
        show (c.held.messages ≠ [] → eventsLowWater < c.buffered ∨ 0 < c.pending ∨
          ∃ taken, Lock.free = .drain taken) ↔ Harmless c (.hand false)
        simp only [reduceCtorEq, exists_false, or_false, ne_eq, Harmless, forall_true_left]
        tauto
    · cases hstep
    · cases hstep
    · cases hstep

theorem noStall_new : NoStall {} := fun h => absurd rfl h

theorem heard_new : Heard {} := fun m buffered h => by cases h

/-- Two messages of one thread in `InOrder` are two. -/
theorem nodup_of_inOrder {l : List Message} (h : l.Pairwise InOrder) : l.Nodup :=
  h.imp (fun hab heq => absurd (hab (by rw [heq])) (by rw [heq]; exact lt_irrefl _))

/-- On every interleaving the messages for which a send returned are handed over once, in
the order of their threads, wait, or were lost in a failed send. Nothing ever stalls just
when no callback ends on a failed send that was the last chance of what waits. -/
theorem events_flow {ops : List ChannelStep} {c : Channel} (h : runFrom step {} ops = some c) :
    c.handed.Nodup ∧ c.handed.Pairwise InOrder ∧
    (∀ m, m ∈ c.accepted ↔ m ∈ c.line ∨ m ∈ c.lost) ∧
    c.held.bytes = (c.held.messages.map Message.length).sum ∧
    c.held.messages.length ≤ eventsMaxHeldMessages ∧ c.held.bytes ≤ eventsMaxHeldBytes ∧
    (Always step NoStall {} ops ↔ StepsMeet step Harmless {} ops) := by
  have hsound := run_sound h
  have hhanded : c.handed.Pairwise InOrder := (List.pairwise_append.mp hsound.inOrder).1
  refine ⟨nodup_of_inOrder hhanded, hhanded, hsound.accepted, hsound.bytes, hsound.few,
    hsound.small, ?_⟩
  exact always_iff_stepsMeet (I := Heard) (fun _ _ _ h hstep => step_heard h hstep)
    (fun _ _ _ hheard hno hstep => step_noStall hheard hno hstep) heard_new noStall_new h

/-! ### Runs that drain and that stall -/

/-- A text of so many bytes. -/
def noise : Nat → String
  | 0 => ""
  | n + 1 => (noise n).push 'a'

theorem utf8ByteSize_noise (n : Nat) : (noise n).utf8ByteSize = n := by
  induction n with
  | zero => rfl
  | succ n ih =>
    have hletter : 'a'.utf8Size = 1 := rfl
    rw [noise, String.utf8ByteSize_push, ih, hletter]

/-- Nobody is at work, and the buffer has these bytes. -/
def Idle (buffered : Nat) (c : Channel) : Prop :=
  ∃ calls handed accepted, c = { buffered, calls, handed, accepted }

/-- With nothing in the way a text passes at once. -/
theorem Idle.pass {buffered : Nat} (h : Idle buffered c)
    (hfits : text.utf8ByteSize ≤ min maxWireMessageBytes maxEnvelopeBytes)
    (hlow : buffered ≤ eventsHighWater) :
    ∃ c', runFrom step c [.begin 0 text, .decide, .send 0 true] = some c' ∧
      Idle (buffered + text.utf8ByteSize) c' := by
  obtain ⟨calls, handed, accepted, rfl⟩ := h
  have hbegin : step { buffered, calls, handed, accepted } (.begin 0 text)
      = some { buffered, handed, accepted
               calls := Function.update calls 0 (calls 0 + 1)
               lock := .sender ⟨0, calls 0, text⟩ buffered } := by
    simp only [step, Channel.begin, busy, if_neg (Nat.not_lt.mpr hfits)]
    rfl
  have hwait : ¬Held.mustWait {} buffered = true := by
    simpa [Held.mustWait] using hlow
  have hdecide : step { buffered, handed, accepted
                        calls := Function.update calls 0 (calls 0 + 1)
                        lock := .sender ⟨0, calls 0, text⟩ buffered } .decide
      = some { buffered, handed, accepted
               calls := Function.update calls 0 (calls 0 + 1)
               direct := Function.update (fun _ => none) 0 (some ⟨0, calls 0, text⟩) } :=
    congrArg some (if_neg hwait)
  have hdirect : Function.update (Function.update (fun _ => none) 0
      (some (⟨0, calls 0, text⟩ : Message))) 0 none = fun _ => none := by
    rw [Function.update_idem]
    exact Function.update_eq_self 0 _
  refine ⟨{ calls := Function.update calls 0 (calls 0 + 1)
            handed := handed ++ [⟨0, calls 0, text⟩]
            accepted := accepted ++ [⟨0, calls 0, text⟩]
            buffered := buffered + text.utf8ByteSize }, ?_, _, _, _, rfl⟩
  rw [runFrom, hbegin, Option.bind_some, runFrom, hdecide, Option.bind_some, runFrom]
  simp [step, Channel.send, give, runFrom, Message.length]

/-- Sends of two threads wait, and the callback sends both. -/
def drains : List ChannelStep :=
  [.begin 0 "a", .decide, .begin 1 "b", .decide, .leave 327680, .callback, .next, .hand true,
    .next, .hand true, .next]

theorem Idle.drain (h : Idle 327680 c) :
    ∃ c', runFrom step c drains = some c' ∧ c'.held.messages = [] ∧
      c'.handed.map Message.text = c.handed.map Message.text ++ ["a", "b"] := by
  obtain ⟨calls, handed, accepted, rfl⟩ := h
  have ha : "a".utf8ByteSize = 1 := rfl
  have hb : "b".utf8ByteSize = 1 := rfl
  simp [drains, runFrom, step, Channel.begin, busy, act, leave, takeNext, handOver, give,
    Held.mustWait, Held.push, Held.next, Message.length, ha, hb, maxWireMessageBytes,
    maxEnvelopeBytes, eventsHighWater, eventsLowWater, eventsMaxHeldMessages, eventsMaxHeldBytes]

/-- Two sends wait, the buffer drains, and the first of the two fails. -/
theorem Idle.stall (h : Idle 327680 c) :
    ∃ c', runFrom step c [.begin 0 "a", .decide, .begin 0 "b", .decide, .leave 327680, .callback,
      .next, .hand false] = some c' ∧ c'.held.messages ≠ [] ∧ c'.buffered ≤ eventsLowWater ∧
      c'.pending = 0 ∧ c'.lock = .free := by
  obtain ⟨calls, handed, accepted, rfl⟩ := h
  have ha : "a".utf8ByteSize = 1 := rfl
  have hb : "b".utf8ByteSize = 1 := rfl
  simp [runFrom, step, Channel.begin, busy, act, leave, takeNext, handOver, Held.mustWait,
    Held.push, Held.next, Message.length, ha, hb, maxWireMessageBytes, maxEnvelopeBytes,
    eventsHighWater, eventsLowWater, eventsMaxHeldMessages, eventsMaxHeldBytes]

/-- Nothing is in the way of a few long texts. -/
theorem idle_loud {long : String} (hlong : long.utf8ByteSize = 65536) {n : Nat} (hn : n ≤ 5) :
    ∃ c, runFrom step {} (List.replicate n [.begin 0 long, .decide, .send 0 true]).flatten = some c ∧
      Idle (n * 65536) c := by
  induction n with
  | zero => exact ⟨{}, rfl, _, _, _, rfl⟩
  | succ n ih =>
    obtain ⟨c, hrun, hidle⟩ := ih (Nat.le_of_succ_le hn)
    have hlow : n * 65536 ≤ eventsHighWater := by
      show n * 65536 ≤ 256 * 1024
      omega
    obtain ⟨c', hpass, hidle'⟩ := hidle.pass (hlong.trans_le (by decide)) hlow
    refine ⟨c', ?_, by rwa [hlong, ← Nat.succ_mul] at hidle'⟩
    rw [List.replicate_succ', List.flatten_append, Lib.runFrom_append, hrun]
    exact hpass

/-- Five long texts fill the buffer, and two short ones wait until it drains. -/
def passes (long : String) : List ChannelStep :=
  (List.replicate 5 [.begin 0 long, .decide, .send 0 true]).flatten ++ drains

/-- They are sent in their order, and nothing stalls. -/
theorem events_flow_held :
    ∃ c, runFrom step {} (passes (noise 65536)) = some c ∧ c.held.messages = [] ∧
      (∃ before, c.handed.map Message.text = before ++ ["a", "b"]) ∧
      c.handed.Nodup ∧ c.handed.Pairwise InOrder ∧
      Always step NoStall {} (passes (noise 65536)) := by
  obtain ⟨c, hrun, hidle⟩ := idle_loud (utf8ByteSize_noise 65536) (le_refl 5)
  obtain ⟨c', hrest, hheld, hhanded⟩ := hidle.drain
  have hwhole : runFrom step {} (passes (noise 65536)) = some c' := by
    rw [passes, Lib.runFrom_append, hrun]
    exact hrest
  obtain ⟨hnodup, horder, -, -, -, -, hstalls⟩ := events_flow hwhole
  refine ⟨c', hwhole, hheld, ⟨_, hhanded⟩, hnodup, horder, hstalls.mpr ?_⟩
  -- No send of the callback fails.
  refine Lib.stepsMeet_of_forall (fun op hop s hfails => ?_)
  subst hfails
  rw [passes, List.mem_append, List.mem_flatten] at hop
  obtain ⟨l, hl, hin⟩ | hin := hop
  · rw [List.eq_of_mem_replicate hl] at hin
    simp at hin
  · simp [drains] at hin

/-- Five long texts fill the buffer, two short ones wait, and the callback's first send
fails. -/
def stalls (long : String) : List ChannelStep :=
  (List.replicate 5 [.begin 0 long, .decide, .send 0 true]).flatten ++
    [.begin 0 "a", .decide, .begin 0 "b", .decide, .leave 327680, .callback, .next, .hand false]

/-- Messages are held, the buffer is empty, and no one is to send them. -/
theorem stalled_after_failed_send :
    ∃ c, runFrom step {} (stalls (noise 65536)) = some c ∧ c.held.messages ≠ [] ∧
      c.buffered ≤ eventsLowWater ∧ c.pending = 0 ∧ c.lock = .free := by
  obtain ⟨c, hrun, hidle⟩ := idle_loud (utf8ByteSize_noise 65536) (le_refl 5)
  obtain ⟨c', hrest, hstalled⟩ := hidle.stall
  refine ⟨c', ?_, hstalled⟩
  rw [stalls, Lib.runFrom_append, hrun]
  exact hrest

end Channel

end DeskLink.Events
