import Leviathan.Network.TimedManager

/-!
# `KeepAliveEmitter` with its clock

The keep-alive task of a session sleeps for its interval and sends a ping, until it is cancelled or
the send raises. `Heartbeat` is `TimedManager` with the place of this task, and with the ping that
the exchange has not answered: the first one after which the listener has not taken a message.
-/

namespace Leviathan

structure KeepAliveEmitter where
  intervalSeconds : Rat
  positive : 0 < intervalSeconds

/-- The keep-alive task of the session, if there is one. -/
def Manager.keepAlive {cfg : WsConfig} (s : Manager cfg) : Option KeepAliveRun :=
  s.session.map Session.keepAliveTask

/-- Where a keep-alive task that is not cancelled waits: in its sleep, or in `send`. -/
inductive KeepAliveStage where
  /-- created, not started -/
  | scheduled
  | sleeping
  /-- in `ws.send` -/
  | sending
  deriving DecidableEq

structure Heartbeat (cfg : WsConfig) where
  timed : TimedManager cfg
  emitter : KeepAliveEmitter
  stage : KeepAliveStage
  /-- when the keep-alive task came to where it is -/
  since : Rat
  unanswered : Option Rat

namespace Heartbeat

variable {cfg : WsConfig}

def new (timeoutSeconds : Rat) (positive : 0 < timeoutSeconds) (emitter : KeepAliveEmitter) :
    Heartbeat cfg where
  timed := .new timeoutSeconds positive
  emitter := emitter
  stage := .scheduled
  since := 0
  unanswered := none

/-- The session, or the network, goes on, and the keep-alive task stays where it is. -/
def timedStep (s : Heartbeat cfg) (op : TimedOp) : Heartbeat cfg := { s with timed := s.timed.step op }

/-- The keep-alive task comes to another place, at the present time. -/
def comes (s : Heartbeat cfg) (stage : KeepAliveStage) (unanswered : Option Rat) : Heartbeat cfg :=
  { s with stage, since := s.timed.now, unanswered }

/-- The keep-alive task goes on: `raised` is what `ws.send` raises, which ends it. -/
def keepAliveResumes (s : Heartbeat cfg) (raised : Option Raised) : Heartbeat cfg :=
  match s.timed.manager.keepAlive with
  | some (.running false) =>
    match s.stage with
    | .scheduled => s.comes .sleeping s.unanswered
    | .sleeping =>
      if s.since + s.emitter.intervalSeconds ≤ s.timed.now then
        if s.timed.manager.isConnected then
          s.comes .sending (s.unanswered.or (some s.timed.now))
        else s.timedStep (.event (.keepAliveResumes none))
      else s
    | .sending =>
      match raised with
      | none => s.comes .sleeping s.unanswered
      | some raised => s.timedStep (.event (.keepAliveResumes (some raised)))
  | _ => s.timedStep (.event (.keepAliveResumes raised))

def step (s : Heartbeat cfg) : TimedOp → Heartbeat cfg
  | .event (.keepAliveResumes raised) => s.keepAliveResumes raised
  | .event .handshakeReturns =>
    let after := s.timedStep (.event .handshakeReturns)
    if s.timed.manager.listener = .handshake then after.comes .scheduled none
    else after
  | .event .nextMessage =>
    let after := s.timedStep (.event .nextMessage)
    if after.timed.manager.yielded = s.timed.manager.yielded then after
    else { after with unanswered := none }
  | op => s.timedStep op

end Heartbeat

end Leviathan
