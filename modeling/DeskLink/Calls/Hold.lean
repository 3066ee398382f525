import DeskLink.Lib.KeyMap
import DeskLink.Lib.Run

/-!
# `DeskLink.Calls.Hold`: music paused for calls

`MediaHold` of `src/device_links/calls.rs`: which phones are in a call, and the
players that were paused for them.

`hold_media` does its bookkeeping at once and queues what the players have to do.
The desk worker runs the jobs one at a time, in their order. A pause job has two
steps: it pauses what is playing, and then records what it paused.
-/

set_option autoImplicit false

namespace DeskLink.Calls

structure MediaHold where
  inCall : KeySet := ∅
  paused : List String := []

inductive HoldStep where
  /-- The first call began: pause what is playing, then `record` it. -/
  | pause
  /-- The last call ended: play these again. -/
  | resume (players : List String)
  | nothing
deriving DecidableEq, Repr

namespace MediaHold

def update (hold : MediaHold) (deviceId : String) (inCall : Bool) : MediaHold × HoldStep :=
  let before := !hold.inCall.isEmpty
  let calls := if inCall then hold.inCall.insert deviceId else hold.inCall.erase deviceId
  match before, !calls.isEmpty with
  | false, true => ({ hold with inCall := calls }, .pause)
  | true, false => ({ inCall := calls, paused := [] }, .resume hold.paused)
  | _, _ => ({ hold with inCall := calls }, .nothing)

def record (hold : MediaHold) (paused : List String) : MediaHold :=
  { hold with paused := hold.paused ++ paused }

end MediaHold

/-! ### The desk worker -/

/-- A player on the bus, and whether it does what `Pause` asks. -/
structure Player where
  busName : String
  playing : Bool
  canPause : Bool
  pauses : Bool

/-- `mpris::pause_playing`. -/
def pausePlaying (players : List Player) : List String :=
  ((players.filter (fun player => player.playing && player.canPause)).filter (·.pauses)).map
    (·.busName)

/-- What was done to a player. -/
inductive PlayerAction where
  | paused (busName : String)
  | played (busName : String)
deriving DecidableEq, Repr

structure Desk where
  hold : MediaHold := {}
  /-- The jobs that wait, the next one first. -/
  jobs : List HoldStep := []
  /-- What the pause job that is running has paused and not yet recorded. -/
  recording : Option (List String) := none
  /-- Everything that was done to players, in order. -/
  log : List PlayerAction := []

inductive HoldOp where
  /-- `hold_media`. -/
  | call (deviceId : String) (inCall : Bool)
  /-- The next job runs. These are the players on the bus. -/
  | job (players : List Player)
  /-- The pause job that is running records what it paused. -/
  | record

namespace Desk

variable (pauseMediaOnCall : Bool)

def runJob (desk : Desk) (players : List Player) : HoldStep → Desk
  | .pause =>
    if !pauseMediaOnCall then desk
    else
      let paused := pausePlaying players
      { desk with recording := some paused, log := desk.log ++ paused.map .paused }
  | .resume players => { desk with log := desk.log ++ players.map .played }
  | .nothing => desk

/-- One step. A job runs only when none is running. -/
def step (desk : Desk) : HoldOp → Option Desk
  | .call deviceId inCall =>
    let (hold, job) := desk.hold.update deviceId inCall
    some { desk with hold, jobs := desk.jobs ++ [job] }
  | .job players =>
    match desk.recording, desk.jobs with
    | none, job :: jobs => some ({ desk with jobs }.runJob pauseMediaOnCall players job)
    | _, _ => none
  | .record =>
    match desk.recording with
    | some paused => some { desk with hold := desk.hold.record paused, recording := none }
    | none => none

end Desk

end DeskLink.Calls
