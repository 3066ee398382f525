import Mathlib.Tactic

/-!
# `DeskLink.Channel.Events`: flow control on the events channel

`Held` of `src/device_links/webrtc/peer_connection.rs` with `send_text` and the
buffered-amount-low callback. A send above the high-water mark waits, and every later
send waits behind it. The callback sends what waits.

`Channel.step` interleaves threads: each takes the lock on `held` and reads the
channel's buffer at one time, and acts on it at a later one. The channel signals when
its buffer falls to the low-water mark.
-/

set_option autoImplicit false

namespace DeskLink.Events

def maxWireMessageBytes : Nat := 64 * 1024
def maxEnvelopeBytes : Nat := 256 * 1024
def eventsHighWater : Nat := 256 * 1024
def eventsLowWater : Nat := 64 * 1024
def eventsMaxHeldMessages : Nat := 1024
def eventsMaxHeldBytes : Nat := 8 * 1024 * 1024

/-- A text, with the thread that sends it and the number of its call. The code knows
the text only. -/
structure Message where
  thread : Nat
  number : Nat
  text : String
deriving DecidableEq, Repr

def Message.length (message : Message) : Nat := message.text.utf8ByteSize

/-- What waits for the channel to drain. -/
structure Held where
  messages : List Message := []
  bytes : Nat := 0

namespace Held

/-- Whether a send must wait: something already waits, or the buffer is over the
high-water mark. -/
def mustWait (held : Held) (buffered : Nat) : Bool :=
  !held.messages.isEmpty || eventsHighWater < buffered

/-- Queues a message, or `none` when the queue is full. -/
def push (held : Held) (message : Message) : Option Held :=
  if eventsMaxHeldMessages ≤ held.messages.length
      ∨ eventsMaxHeldBytes < held.bytes + message.length then none
  else some { messages := held.messages ++ [message], bytes := held.bytes + message.length }

/-- The next message to send, if the buffer is not over the high-water mark. -/
def next (held : Held) (buffered : Nat) : Held × Option Message :=
  if eventsHighWater < buffered then (held, none)
  else
    match held.messages with
    | [] => (held, none)
    | message :: messages => ({ messages, bytes := held.bytes - message.length }, some message)

end Held

/-- Who has the lock on `held`. -/
inductive Lock where
  | free
  /-- A send that read `buffered` and has not acted on it yet. -/
  | sender (message : Message) (buffered : Nat)
  /-- The callback. It may have taken a message that it has not handed over yet. -/
  | drain (taken : Option Message)
deriving DecidableEq, Repr

structure Channel where
  held : Held := {}
  buffered : Nat := 0
  lock : Lock := .free
  /-- Signals whose callback has not begun. -/
  pending : Nat := 0
  /-- A thread's message that may be sent at once, on its way. -/
  direct : Nat → Option Message := fun _ => none
  /-- How many calls each thread has made. -/
  calls : Nat → Nat := fun _ => 0
  /-- What the channel was given. -/
  handed : List Message := []
  /-- Messages for which `send_text` returned `Ok`. -/
  accepted : List Message := []
  /-- Messages that were taken from the queue and whose send failed. -/
  lost : List Message := []

inductive ChannelStep where
  /-- `send_text` on a thread: the lock is taken and the buffer is read. -/
  | begin (thread : Nat) (text : String)
  /-- The send that has the lock waits, is refused or goes on without it. -/
  | decide
  /-- A thread's message is handed over, or that fails. -/
  | send (thread : Nat) (ok : Bool)
  /-- Bytes leave the buffer. -/
  | leave (bytes : Nat)
  /-- A callback begins. -/
  | callback
  /-- The callback reads the buffer and takes the next message. -/
  | next
  /-- The callback hands it over, or that fails. -/
  | hand (ok : Bool)
deriving DecidableEq, Repr

namespace Channel

/-- A thread's call ends in sending, or is still to act under the lock. -/
def busy (c : Channel) (thread : Nat) : Bool :=
  (c.direct thread).isSome ||
    match c.lock with
    | .sender message _ => message.thread = thread
    | .free | .drain _ => false

/-- The channel takes a message. -/
def give (c : Channel) (message : Message) : Channel :=
  { c with handed := c.handed ++ [message], buffered := c.buffered + message.length }

def begin (c : Channel) (thread : Nat) (text : String) : Option Channel :=
  if c.busy thread then none
  else if min maxWireMessageBytes maxEnvelopeBytes < text.utf8ByteSize then
    some { c with calls := Function.update c.calls thread (c.calls thread + 1) }
  else if c.lock ≠ .free then none
  else
    some { c with
      calls := Function.update c.calls thread (c.calls thread + 1)
      lock := .sender ⟨thread, c.calls thread, text⟩ c.buffered }

def act (c : Channel) (message : Message) (buffered : Nat) : Channel :=
  if c.held.mustWait buffered then
    match c.held.push message with
    | some held => { c with held, lock := .free, accepted := c.accepted ++ [message] }
    | none => { c with lock := .free }
  else
    { c with lock := .free, direct := Function.update c.direct message.thread (some message) }

def send (c : Channel) (message : Message) (ok : Bool) : Channel :=
  let c := { c with direct := Function.update c.direct message.thread none }
  if ok then { c.give message with accepted := c.accepted ++ [message] } else c

def leave (c : Channel) (bytes : Nat) : Channel :=
  { c with
    buffered := c.buffered - bytes
    pending := if eventsLowWater < c.buffered ∧ c.buffered - bytes ≤ eventsLowWater then
      c.pending + 1 else c.pending }

def takeNext (c : Channel) : Channel :=
  let (held, message) := c.held.next c.buffered
  match message with
  | none => { c with held, lock := .free }
  | some message => { c with held, lock := .drain (some message) }

def handOver (c : Channel) (message : Message) (ok : Bool) : Channel :=
  if ok then { c.give message with lock := .drain none }
  else { c with lock := .free, lost := c.lost ++ [message] }

def step (c : Channel) : ChannelStep → Option Channel
  | .begin thread text => c.begin thread text
  | .decide =>
    match c.lock with
    | .sender message buffered => some (c.act message buffered)
    | .free | .drain _ => none
  | .send thread ok => (c.direct thread).map (fun message => c.send message ok)
  | .leave bytes => if bytes ≤ c.buffered then some (c.leave bytes) else none
  | .callback =>
    if c.lock = .free ∧ 0 < c.pending then
      some { c with lock := .drain none, pending := c.pending - 1 }
    else none
  | .next => if c.lock = .drain none then some c.takeNext else none
  | .hand ok =>
    match c.lock with
    | .drain (some message) => some (c.handOver message ok)
    | .free | .sender _ _ | .drain none => none

end Channel

end DeskLink.Events
