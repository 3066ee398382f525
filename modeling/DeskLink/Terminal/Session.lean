import DeskLink.Terminal.Ring

/-!
# `DeskLink.Terminal.Session`: one PTY session

`pty/session.rs`: a shell on this computer, which outlives any one phone.
The reader thread shows what the program writes to the ring and to the
screen model; the bridges read both. What happens to a session beside the
bridges is a `SessionEvent`: the reader, the child process, the writer
thread and the windows at the desk.

The screen model is the `vt100` crate, here a parameter. Nothing of the
program itself is modelled but its output, its end and whether it reads.
-/

set_option autoImplicit false

namespace DeskLink.Terminal

/-- What is used of the `vt100` crate. -/
structure Vt100 (P : Type) where
  new : Nat → Nat → P
  process : P → List UInt8 → P
  setSize : P → Nat → Nat → P
  alternateScreen : P → Bool
  stateFormatted : P → List UInt8

variable {P : Type} (vt : Vt100 P)

def minDimension : Nat := 1
def maxDimension : Nat := 1000

/-- Input chunks that may wait for the writer thread. -/
def inputQueueChunks : Nat := 64

/-- `usize::MAX`. -/
def usizeMax : Nat := 18446744073709551615

/-- A terminal cannot be zero-sized, and its size is bounded. -/
def clampSize (rows cols : Nat) : Nat × Nat :=
  (max minDimension (min rows maxDimension), max minDimension (min cols maxDimension))

/-- What a client needs to render after attaching. -/
inductive Resync where
  /-- The client's offset is still in the ring. -/
  | bytes (start : Nat) (data : List UInt8)
  /-- Too much happened: reset and repaint from the screen model. -/
  | snapshot (at_ : Nat) (data : List UInt8)
deriving DecidableEq, Repr

structure PtySession (P : Type) where
  ring : OutputRing := {}
  parser : P
  size : Nat × Nat
  /-- The reader thread has seen EOF. -/
  eof : Bool := false
  /-- What `try_wait` says of the child. -/
  exited : Option Nat := none
  /-- The program had exited and the reader was still reading when
  `EXIT_DRAIN_GRACE` was over. -/
  overdue : Bool := false
  closed : Bool := false
  /-- Terminal windows open on it at the desk. -/
  deskWindows : Nat := 0
  /-- The phone that holds the claim on the size. -/
  phoneClaim : Option String := none
  /-- The last size a desk window reported. -/
  deskSize : Option (Nat × Nat) := none
  /-- Keystrokes waiting for the writer thread. -/
  input : List (List UInt8) := []
  /-- The writer thread runs. -/
  writing : Bool := true
  /-- The PTY takes a new size. -/
  resizable : Bool := true
  /-- Everything the reader has shown. The code keeps no such thing: it is
  what the ring and the screen are read against. -/
  shown : List UInt8 := []

namespace PtySession

/-- `spawn_in`, as far as the program starts. -/
def spawn (rows cols : Nat) : PtySession P where
  parser := vt.new (clampSize rows cols).1 (clampSize rows cols).2
  size := clampSize rows cols

variable (s : PtySession P)

/-- `snapshot_bytes`: escape codes that reproduce the screen on a fresh
client. -/
def snapshot : List UInt8 :=
  [0x1b, 0x63]
    ++ (if vt.alternateScreen s.parser then [0x1b, 0x5b, 0x3f, 0x31, 0x30, 0x34, 0x39, 0x68]
      else [])
    ++ vt.stateFormatted s.parser

def head : Nat := s.ring.head

/-- What to send a client attaching at `lastOffset`. -/
def resync (lastOffset : Option Nat) (limit : Nat) : Resync :=
  match lastOffset with
  | some offset => match s.ring.since offset limit with
    | some data => .bytes offset data
    | none => .snapshot s.ring.head (s.snapshot vt)
  | none => .snapshot s.ring.head (s.snapshot vt)

/-- The exit status, once the program has exited and what it wrote has been
read into the ring, or was waited for long enough. -/
def finished : Option Nat := s.exited.filter (fun _ => s.eof || s.overdue)

def hasDeskWindow : Bool := 0 < s.deskWindows

def phoneSetsSize : Bool := s.phoneClaim.isSome

/-- Resizes the PTY and the screen model together. -/
def resize (rows cols : Nat) : PtySession P × Except String Unit :=
  if s.resizable then
    let size := clampSize rows cols
    ({ s with parser := vt.setSize s.parser size.1 size.2, size }, .ok ())
  else (s, .error "Could not resize the DeskLink terminal")

/-- `device` takes the size and sets it. -/
def claimForPhone (device : String) (rows cols : Nat) : PtySession P × Except String Unit :=
  { s with phoneClaim := some device }.resize vt rows cols

/-- Resizes for `device` unless a desk window owns the size or another
phone holds the claim. -/
def resizeUnlessHeld (device : String) (rows cols : Nat) (onlyIfChanged : Bool) :
    PtySession P × Except String Bool :=
  let deskOwns := s.hasDeskWindow && s.phoneClaim.isNone
  let otherPhone := s.phoneClaim.any (fun holder => holder ≠ device)
  if deskOwns || otherPhone then (s, .ok false)
  else if onlyIfChanged && s.size = clampSize rows cols then (s, .ok true)
  else
    let resized := s.resize vt (clampSize rows cols).1 (clampSize rows cols).2
    (resized.1, resized.2.map (fun _ => true))

/-- Ends `device`'s claim and puts a desk window back to the size it last
reported. -/
def releasePhoneClaim (device : String) : PtySession P :=
  if s.phoneClaim = some device then
    let released := { s with phoneClaim := none }
    match s.deskSize.filter (fun _ => s.hasDeskWindow) with
    | some desk => (released.resize vt desk.1 desk.2).1
    | none => released
  else s

/-- A desk window attached or was resized. -/
def deskWindowSize (rows cols : Nat) (acted : Bool) : PtySession P :=
  let size := clampSize rows cols
  let s : PtySession P :=
    { s with deskSize := some size, phoneClaim := if acted then none else s.phoneClaim }
  if s.phoneClaim = none ∧ s.size ≠ size then (s.resize vt size.1 size.2).1 else s

/-- Queues keystrokes for the PTY. Never blocks. -/
def writeInput (bytes : List UInt8) : PtySession P × Except String Unit :=
  if !s.writing then (s, .error "The DeskLink terminal is no longer accepting input")
  else if inputQueueChunks ≤ s.input.length then
    (s, .error "The program is not reading its input; DeskLink dropped what you typed")
  else ({ s with input := s.input ++ [bytes] }, .ok ())

/-- `close`: the session was ended deliberately. -/
def close : PtySession P := { s with closed := true }

end PtySession

/-- What happens to a session beside the bridges. -/
inductive SessionEvent where
  /-- The reader shows what it read. -/
  | output (bytes : List UInt8)
  /-- The reader has seen EOF, and ends. -/
  | eof
  | exit (status : Nat)
  /-- `EXIT_DRAIN_GRACE` is over. -/
  | graceOver
  | deskWindowOpened
  | deskWindowClosed
  | deskWindowSize (rows cols : Nat) (acted : Bool)
  /-- Input that is no phone's: the desk's keyboard, or DeskLink's answer to
  a query of the program. -/
  | deskInput (bytes : List UInt8)
  /-- The writer thread wrote the oldest keystrokes. -/
  | written
  /-- The program is gone for the writer thread. -/
  | writerEnds
  /-- The PTY refuses a new size from now on. -/
  | masterFails
deriving DecidableEq, Repr

/-- The session after an event. The reader shows nothing after EOF, and a
child exits once. -/
def PtySession.after (s : PtySession P) : SessionEvent → PtySession P
  | .output bytes =>
    if s.eof then s
    else
      { s with parser := vt.process s.parser bytes, ring := s.ring.push bytes
               shown := s.shown ++ bytes }
  | .eof => { s with eof := true }
  | .exit status => { s with exited := s.exited.or (some status) }
  | .graceOver => if s.exited.isSome && !s.eof then { s with overdue := true } else s
  | .deskWindowOpened => { s with deskWindows := s.deskWindows + 1 }
  | .deskWindowClosed =>
    { s with deskWindows := s.deskWindows - 1
             deskSize := if s.deskWindows = 1 then none else s.deskSize }
  | .deskWindowSize rows cols acted => s.deskWindowSize vt rows cols acted
  | .deskInput bytes => (s.writeInput bytes).1
  | .written => { s with input := s.input.tail }
  | .writerEnds => { s with writing := false }
  | .masterFails => { s with resizable := false }

end DeskLink.Terminal
