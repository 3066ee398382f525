import DeskLink.Remote.Input

/-!
# `DeskLink.Remote.Portal`: the worker that presses keys for a phone

The serve loop of `run_desktop_portal_worker`, `release_held_portal_inputs` and
`dispatch_desktop_remote_input` of `src/device_links/webrtc/coordinator.rs`, as far as keys and
buttons go. A step is a packet, a command, a change of the lease, the end of the portal session,
or a turn of the loop. A portal call that is made while the session is open succeeds or fails;
a closed session has no devices, so nothing is pressed through it.

`sent` is what the phone has pressed and not let go of, in packets that were answered `Ok`.
-/

set_option autoImplicit false

namespace DeskLink.Remote

/-- Commands that wait for a worker. -/
def portalQueue : Nat := 256

inductive DesktopPortalCommand where
  | input (actions : List PortalInputAction)
  | switchScreen
  | stop (reason : Option String)

/-- A share, its portal and its phone. -/
structure Share where
  queue : List DesktopPortalCommand := []
  /-- `held_inputs` of the worker. -/
  held : Finset Held := ∅
  /-- What is pressed at the portal. -/
  pressed : Finset Held := ∅
  /-- The portal session is open. -/
  isOpen : Bool := true
  /-- The phone is `PeerControlling`. -/
  controlling : Bool := false
  /-- The worker is in its loop. -/
  running : Bool := true
  sent : Finset Held := ∅

/-! ### Applying a batch -/

/-- The calls that succeed, and the others from the first that fails. No answer is a success. -/
def answered : List Bool → List PortalCall → List PortalCall × List PortalCall
  | _, [] => ([], [])
  | false :: _, call :: calls => ([], call :: calls)
  | answers, call :: calls =>
    let rest := answered answers.tail calls
    (call :: rest.1, rest.2)

/-- The calls of an action: in a closed session every one fails. -/
def attempt (isOpen : Bool) (answers : List Bool) (action : PortalInputAction) :
    List PortalCall × List PortalCall :=
  answered (if isOpen then answers else [false]) action.calls

/-- How far a batch got. -/
structure Batch where
  pressed : Finset Held
  held : Finset Held
  /-- The rest of the action that failed. -/
  broken : List PortalCall := []
  /-- The actions behind it. -/
  skipped : List PortalInputAction := []
  failed : Bool := false

/-- The worker remembers a key or button that it pressed, and forgets one that it let go. -/
def remember (held : Finset Held) (action : PortalInputAction) : Finset Held :=
  match action.stroke with
  | some (key, true) => insert key held
  | some (key, false) => held.erase key
  | none => held

/-- The actions are applied in order; one that fails ends the batch. -/
def applyAll (isOpen : Bool) (pressed held : Finset Held) :
    List Bool → List PortalInputAction → Batch
  | _, [] => { pressed, held }
  | answers, action :: actions =>
    let (done, left) := attempt isOpen answers action
    let after := pressAll pressed done
    if left.isEmpty then
      applyAll isOpen after (remember held action) (answers.drop action.calls.length) actions
    else { pressed := after, held, broken := left, skipped := actions, failed := true }

/-! ### A turn -/

/-- What a turn takes from the queue. -/
structure Drained where
  actions : List PortalInputAction := []
  stopped : Bool := false
  queue : List DesktopPortalCommand

/-- Up to `more` commands are taken, until a stop. -/
def drain : Nat → List DesktopPortalCommand → Drained
  | 0, queue => { queue }
  | _ + 1, [] => { queue := [] }
  | more + 1, .input actions :: queue =>
    let rest := drain more queue
    { rest with actions := actions ++ rest.actions }
  | more + 1, .switchScreen :: queue => drain more queue
  | _ + 1, .stop _ :: queue => { stopped := true, queue }

namespace Share

/-- `release_held_portal_inputs`: `letGo` says for which keys and buttons the call succeeds. -/
def release (s : Share) (letGo : Held → Bool) : Share :=
  { s with
    held := ∅
    pressed := s.pressed.filter (fun key => ¬(key ∈ s.held ∧ letGo key = true)) }

/-- Held input is let go when the phone does not control any more. -/
def releaseIdle (s : Share) (letGo : Held → Bool) : Share :=
  if s.held.Nonempty ∧ s.controlling = false then s.release letGo else s

/-- The worker leaves its loop. -/
def finish (s : Share) (letGo : Held → Bool) : Share :=
  { s.release letGo with running := false, queue := [] }

/-- The batch of a turn is applied. -/
def batch (s : Share) (actions : List PortalInputAction) (answers : List Bool) : Batch :=
  applyAll s.isOpen s.pressed s.held answers (coalesceMotion actions)

/-- The share after the batch of a turn. -/
def applied (s : Share) (actions : List PortalInputAction) (answers : List Bool) : Share :=
  { s with
    pressed := (s.batch actions answers).pressed
    held := (s.batch actions answers).held }

/-- A turn that takes input. -/
def serve (s : Share) (actions : List PortalInputAction) (more : Nat) (answers : List Bool)
    (letGo : Held → Bool) : Share :=
  let taken := drain more s.queue.tail
  let s' := { s with queue := taken.queue }.applied (actions ++ taken.actions) answers
  -- A call that fails in a closed session ends the share.
  if (s.batch (actions ++ taken.actions) answers).failed ∧ s.isOpen = false then s'.finish letGo
  else if taken.stopped then (s'.releaseIdle letGo).finish letGo
  else s'.releaseIdle letGo

/-- `dispatch_desktop_remote_input` of an authorized packet: without a worker it is an error,
and what is past the rate or does not fit is dropped. -/
def dispatch (s : Share) (actions : List PortalInputAction) (allowed : Bool) : Share :=
  if s.running then
    { s with
      sent := pressAll s.sent (actions.flatMap PortalInputAction.calls)
      queue := if allowed ∧ s.queue.length < portalQueue then s.queue ++ [.input actions]
        else s.queue }
  else s

/-- `try_send` of a command: there may be no room, or no worker. -/
def post (s : Share) (command : DesktopPortalCommand) : Share :=
  { s with
    queue := if s.running ∧ s.queue.length < portalQueue then s.queue ++ [command] else s.queue }

end Share

inductive ShareStep where
  /-- An authorized packet; the rate may not allow it. -/
  | dispatch (actions : List PortalInputAction) (allowed : Bool)
  /-- The phone or the desk asks for the next screen. -/
  | switchScreen
  /-- The share is stopped, or replaced. -/
  | stop (reason : Option String)
  | lease (controlling : Bool)
  /-- The portal session is closed. -/
  | close
  /-- The worker takes a command, and `more` with it if it is input. -/
  | turn (more : Nat) (answers : List Bool) (letGo : Held → Bool)
  | timeout (letGo : Held → Bool)
  /-- No video, or nobody can send a command any more. -/
  | leave (letGo : Held → Bool)

namespace Share

def step (s : Share) : ShareStep → Option Share
  | .dispatch actions allowed => some (s.dispatch actions allowed)
  | .switchScreen => some (s.post .switchScreen)
  | .stop reason => some (s.post (.stop reason))
  | .lease controlling => some { s with controlling }
  | .close => some { s with isOpen := false, pressed := ∅ }
  | .turn more answers letGo =>
    match s.running, s.queue with
    | true, .input actions :: _ => some (s.serve actions more answers letGo)
    | true, .switchScreen :: queue => some { s with queue }
    | true, .stop _ :: queue => some ({ s with queue }.finish letGo)
    | _, _ => none
  | .timeout letGo =>
    if s.running ∧ s.queue = [] then
      if s.isOpen then some (s.releaseIdle letGo) else some (s.finish letGo)
    else none
  | .leave letGo => if s.running then some (s.finish letGo) else none

end Share

end DeskLink.Remote
