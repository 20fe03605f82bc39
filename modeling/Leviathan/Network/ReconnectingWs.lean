import Mathlib.Algebra.Group.Nat.Defs
import Leviathan.Py.Text

/-!
# `ReconnectingWebSocketManager`

The manager as the event loop sees it: the generator `start_connection_and_listen`, the two
background tasks of a session, and one call of `stop()`. Each of them is at an `await`; an event
ends one of these waits, with what the library or the network makes of it, and what runs from there
to the next `await` is one step.

* `Listener`, `HealthLoop`, `KeepAliveRun`, `Stopper`: where the coroutines wait.
* `Manager`: the fields of the manager, the session, and the coroutines.
* `WsEvent`, `Manager.step`: what can happen.

Time, log lines and the watchdog's clock are not modelled: a timer may end at any time, and an event
says what `check_health` answers. The library is modelled by what it does to the manager: a socket
queues the messages that arrive while it is open, and gives them out also when it is closed.
-/

namespace Leviathan

open Py

/-! ## Exceptions -/

/-- What a coroutine raises, as far as the `except` clauses of the manager tell it apart:
`CancelledError` is no `Exception`. -/
inductive Raised where
  /-- `websockets.exceptions.ConnectionClosed` -/
  | connectionClosed
  /-- the builtin `ConnectionError` -/
  | connectionError
  /-- any other `Exception` -/
  | exception
  | cancelledError
  /-- any other `BaseException` -/
  | baseException
  deriving DecidableEq

namespace Raised

/-- `except Exception` takes it, and the loop then connects again. -/
def isException : Raised → Bool
  | connectionClosed | connectionError | exception => true
  | cancelledError | baseException => false

/-- `__cancel_background_task` suppresses it: a `CancelledError` or a `ConnectionError`, and nothing
else. -/
def isExpectedTeardown : Raised → Bool
  | connectionError | cancelledError => true
  | connectionClosed | exception | baseException => false

end Raised

/-! ## Configuration -/

structure RetryPolicy where
  maxRetries : Option Nat
  maxDelay : Nat

namespace RetryPolicy

def getDelay (policy : RetryPolicy) (attempt : Nat) : Nat := min (2 ^ attempt) policy.maxDelay

def canRetry (policy : RetryPolicy) (attempt : Nat) : Bool :=
  match policy.maxRetries with
  | none => true
  | some maxRetries => attempt < maxRetries

end RetryPolicy

structure WsConfig where
  retryPolicy : RetryPolicy
  /-- a callback is set -/
  onConnectCallback : Bool

/-! ## The coroutines -/

/-- A connection of the library: whether it is open, and the messages that have arrived and were not
given out. -/
structure Socket where
  isOpen : Bool
  /-- received, not yet given out -/
  messages : List Str

/-- `__health_loop`, by where it waits. A task with a request to cancel raises `CancelledError` when
it goes on, which the loop catches. -/
inductive HealthLoop where
  /-- created, not started -/
  | scheduled (cancelled : Bool)
  | sleeping (cancelled : Bool)
  /-- in `__cancel_background_task(self.__keep_alive_task)` -/
  | cancellingKeepAlive
  /-- in `disconnect()` -/
  | disconnecting
  | ended (raised : Option Raised)

/-- `KeepAliveEmitter.run`: it runs, by turns asleep and in `send`, until something is raised. -/
inductive KeepAliveRun where
  | running (cancelled : Bool)
  | ended (raised : Raised)

namespace HealthLoop

/-- `task.cancel()`. A task that waits for another one hands the request on, and that one is
cancelled. -/
def cancel : HealthLoop → HealthLoop
  | scheduled _ => scheduled true
  | sleeping _ => sleeping true
  | task => task

end HealthLoop

def KeepAliveRun.cancel : KeepAliveRun → KeepAliveRun
  | running _ => running true
  | task => task

/-- The local variables of a pass through the loop, behind a successful handshake: the socket and
the two background tasks. -/
structure Session where
  ws : Socket
  healthTask : HealthLoop
  keepAliveTask : KeepAliveRun

/-- How the generator ended: `while` found the event set, `MaxRetriesExceededError`, or an exception
that nothing took. -/
inductive ListenerEnd where
  | returned
  | maxRetriesExceeded
  | raised (raised : Raised)
  deriving DecidableEq

/-- Where `start_connection_and_listen` waits. `pending` is what the `finally` it is in will raise
again behind its own awaits. -/
inductive Listener where
  /-- the first message is not asked for -/
  | created
  /-- in `wait_for(connect_ctx.__aenter__())` -/
  | handshake
  /-- in `connect_ctx.__aexit__` of a handshake that raised -/
  | abandoning (handshakeError : Raised)
  | onConnectCallback
  /-- in `async for message in ws` -/
  | receiving
  /-- at `yield message` -/
  | yielding
  /-- in `__close_websocket_connection` -/
  | closing (pending : Option Raised)
  /-- in `__cancel_background_task(health_task)` -/
  | cancellingHealth (pending : Option Raised)
  /-- in `__cancel_background_task(keep_alive_task)` -/
  | cancellingKeepAlive (pending : Option Raised)
  | backoff (delay : Nat)
  | finished (how : ListenerEnd)
  deriving DecidableEq

/-- Where the call of `stop` waits: for the health task, for the keep-alive task, or for
`ws.close()`. -/
inductive Stopper where
  | notCalled
  | cancellingHealth
  | cancellingKeepAlive
  | disconnecting
  | returned
  | raised (raised : Raised)
  deriving DecidableEq

/-- A call of the flap monitor, in the order in which the manager makes them. -/
inductive FlapCall where
  | noteConnectionClosed
  | noteConnectionRestored
  | cancel

/-- The manager, its session and its coroutines. A field that is `true` holds the object of the
session. -/
structure Manager (cfg : WsConfig) where
  stopEvent : Bool
  ws : Bool
  healthTask : Bool
  keepAliveTask : Bool
  flapTipMonitor : List FlapCall
  session : Option Session
  attempt : Nat
  listener : Listener
  stopper : Stopper
  /-- the messages given to the consumer -/
  yielded : List Str
  /-- the handshakes that succeeded -/
  connections : Nat

variable {cfg : WsConfig}

namespace Manager

def new : Manager cfg where
  stopEvent := false
  ws := false
  healthTask := false
  keepAliveTask := false
  flapTipMonitor := []
  session := none
  attempt := 0
  listener := .created
  stopper := .notCalled
  yielded := []
  connections := 0

def withSession (s : Manager cfg) (f : Session → Session) : Manager cfg :=
  { s with session := s.session.map f }

/-- `ws.close()` is over, or the context is left. The messages that have arrived stay. -/
def closeSocket (s : Manager cfg) : Manager cfg :=
  s.withSession fun session => { session with ws := { session.ws with isOpen := false } }

def isConnected (s : Manager cfg) : Bool := s.ws && s.session.any fun session => session.ws.isOpen

/-! ## `start_connection_and_listen` -/

def finish (s : Manager cfg) (how : ListenerEnd) : Manager cfg := { s with listener := .finished how }

/-- The head of the loop: it ends at a set event or, with an exception, at the limit of the retries,
and else connects. -/
def loopHead (s : Manager cfg) : Manager cfg :=
  if s.stopEvent then s.finish .returned
  else if cfg.retryPolicy.canRetry s.attempt then { s with listener := .handshake }
  else { s with stopEvent := true }.finish .maxRetriesExceeded

/-- The end of the outer `finally`, and what follows it: what is pending is raised again, and else
the wait for the next attempt begins. -/
def endSession (s : Manager cfg) (pending : Option Raised) : Manager cfg :=
  let s := { s with healthTask := false, keepAliveTask := false, ws := false, session := none }
  match pending with
  | some raised => s.finish (.raised raised)
  | none =>
    if s.stopEvent then s.loopHead
    else { s with listener := .backoff (cfg.retryPolicy.getDelay s.attempt) }

/-- `await self.__cancel_background_task(keep_alive_task)`: what the task raised beyond the expected
ends the generator. -/
def cancelKeepAlive (s : Manager cfg) (pending : Option Raised) : Manager cfg :=
  match s.session with
  | none => s.endSession pending
  | some session =>
    match session.keepAliveTask with
    | .running _ =>
      { s with
        session := some { session with keepAliveTask := session.keepAliveTask.cancel }
        listener := .cancellingKeepAlive pending }
    | .ended raised =>
      if raised.isExpectedTeardown then s.endSession pending else s.finish (.raised raised)

/-- `await self.__cancel_background_task(health_task)`, the first await of the outer `finally`. -/
def cancelHealth (s : Manager cfg) (pending : Option Raised) : Manager cfg :=
  match s.session with
  | none => s.cancelKeepAlive pending
  | some session =>
    match session.healthTask with
    | .ended raised =>
      match raised.filter fun raised => !raised.isExpectedTeardown with
      | some raised => s.finish (.raised raised)
      | none => s.cancelKeepAlive pending
    | task =>
      { s with
        session := some { session with healthTask := task.cancel }
        listener := .cancellingHealth pending }

/-- `except Exception`, and the outer `finally`. A `CancelledError` stays pending over the cleanup.
-/
def leaveTry (s : Manager cfg) (raised : Option Raised) : Manager cfg :=
  s.cancelHealth (raised.filter fun raised => !raised.isException)

/-- The session from its socket to the first `await`: the attempts count anew, the watchdog is
pinged, and both tasks are created. -/
def connected (s : Manager cfg) : Manager cfg :=
  { s with
    ws := true
    attempt := 0
    flapTipMonitor := s.flapTipMonitor ++ [.noteConnectionRestored]
    healthTask := true
    keepAliveTask := true
    session := some ⟨⟨true, []⟩, .scheduled false, .running false⟩
    connections := s.connections + 1
    listener := if cfg.onConnectCallback then .onConnectCallback else .receiving }

/-- `ws.__anext__` gives a message, which pings the watchdog and goes to the caller. -/
def nextMessage (s : Manager cfg) : Manager cfg :=
  match s.session with
  | none => s
  | some session =>
    match session.ws.messages with
    | [] => s
    | message :: messages =>
      { s with
        session := some { session with ws := { session.ws with messages } }
        yielded := s.yielded ++ [message]
        listener := .yielding }

/-- `ws.__anext__` raises: `StopAsyncIteration` (`none`) or something else. Only a
`ConnectionClosed` is told to the flap monitor. -/
def iterationEnds (s : Manager cfg) : Option Raised → Manager cfg
  | none => { s with listener := .closing none }
  | some .connectionClosed =>
    { s with
      flapTipMonitor := s.flapTipMonitor ++ [.noteConnectionClosed]
      listener := .closing none }
  | some raised => { s with listener := .closing (some raised) }

/-! ## The background tasks -/

def setHealth (s : Manager cfg) (task : HealthLoop) : Manager cfg :=
  s.withSession fun session => { session with healthTask := task }

/-- `while not self.__stop_event.is_set()`, at the head of the health loop: it sleeps or ends. -/
def healthLoopHead (s : Manager cfg) : Manager cfg :=
  s.setHealth (if s.stopEvent then .ended none else .sleeping false)

/-- `await self.disconnect()` of the health loop, which finds nothing to close where `__ws` is gone.
-/
def healthDisconnect (s : Manager cfg) : Manager cfg :=
  s.setHealth (if s.ws then .disconnecting else .ended none)

/-- The keep-alive task that the health loop waits for has ended: what it raised beyond the expected
ends the health loop too. -/
def healthKeepAliveEnded (s : Manager cfg) (raised : Raised) : Manager cfg :=
  if raised.isExpectedTeardown then s.healthDisconnect else s.setHealth (.ended (some raised))

/-- `check_health` answers no: the keep-alive task is cancelled first, and awaited. -/
def healthCancelKeepAlive (s : Manager cfg) (session : Session) : Manager cfg :=
  if s.keepAliveTask then
    match session.keepAliveTask with
    | .running _ =>
      { s with
        session := some { session with
          healthTask := .cancellingKeepAlive
          keepAliveTask := session.keepAliveTask.cancel } }
    | .ended raised => s.healthKeepAliveEnded raised
  else s.healthDisconnect

/-- The health loop goes on: `healthy` is what `check_health` answers, `raised` what `ws.close()`
raises. -/
def healthResumes (s : Manager cfg) (healthy : Bool) (raised : Option Raised) : Manager cfg :=
  match s.session with
  | none => s
  | some session =>
    match session.healthTask with
    | .scheduled true => s.setHealth (.ended (some .cancelledError))
    | .scheduled false => s.healthLoopHead
    | .sleeping true => s.setHealth (.ended none)
    | .sleeping false => if healthy then s.healthLoopHead else s.healthCancelKeepAlive session
    | .cancellingKeepAlive =>
      match session.keepAliveTask with
      | .running _ => s
      | .ended raised => s.healthKeepAliveEnded raised
    | .disconnecting =>
      match raised with
      | none => ({ s.closeSocket with ws := false }).setHealth (.ended none)
      | some raised => s.setHealth (.ended (if raised = .cancelledError then none else some raised))
    | .ended _ => s

/-- The keep-alive task goes on: `raised` is what `ws.send` raises. A request to cancel is raised at
its next wait. -/
def keepAliveResumes (s : Manager cfg) (raised : Option Raised) : Manager cfg :=
  s.withSession fun session =>
    match session.keepAliveTask with
    | .running true =>
      { session with keepAliveTask := .ended (raised.getD .cancelledError) }
    | .running false =>
      if s.isConnected then
        match raised with
        | none => session
        | some raised => { session with keepAliveTask := .ended raised }
      else { session with keepAliveTask := .ended .connectionError }
    | .ended _ => session

/-! ## `stop` -/

def stopFinish (s : Manager cfg) : Manager cfg := { s with stopper := .returned }

/-- `self.__health_task = None`, `self.__keep_alive_task = None` and `await self.disconnect()`, the
last steps of `stop`. -/
def stopDisconnect (s : Manager cfg) : Manager cfg :=
  let s := { s with healthTask := false, keepAliveTask := false }
  if s.ws then { s with stopper := .disconnecting } else s.stopFinish

/-- `await self.__cancel_background_task(self.__keep_alive_task)`. -/
def stopCancelKeepAlive (s : Manager cfg) : Manager cfg :=
  match s.session with
  | some session =>
    if s.keepAliveTask then
      match session.keepAliveTask with
      | .running _ =>
        { s with
          session := some { session with keepAliveTask := session.keepAliveTask.cancel }
          stopper := .cancellingKeepAlive }
      | .ended raised =>
        if raised.isExpectedTeardown then s.stopDisconnect
        else { s with stopper := .raised raised }
    else s.stopDisconnect
  | none => s.stopDisconnect

/-- `await self.__cancel_background_task(self.__health_task)`. -/
def stopCancelHealth (s : Manager cfg) : Manager cfg :=
  match s.session with
  | some session =>
    if s.healthTask then
      match session.healthTask with
      | .ended raised =>
        match raised.filter fun raised => !raised.isExpectedTeardown with
        | some raised => { s with stopper := .raised raised }
        | none => s.stopCancelKeepAlive
      | task =>
        { s with
          session := some { session with healthTask := task.cancel }
          stopper := .cancellingHealth }
    else s.stopCancelKeepAlive
  | none => s.stopCancelKeepAlive

/-- The head of `stop`: the event is set and the flap monitor cancelled, without an await between
the two. -/
def requestStop (s : Manager cfg) : Manager cfg :=
  { s with stopEvent := true, flapTipMonitor := s.flapTipMonitor ++ [.cancel] }

def stop (s : Manager cfg) : Manager cfg := s.requestStop.stopCancelHealth

/-- The call of `stop` goes on when what it waits for is over; `raised` is what `ws.close()` raises.
A session that is gone has ended its tasks, and the listener has found nothing in them to raise. -/
def stopResumes (s : Manager cfg) (raised : Option Raised) : Manager cfg :=
  match s.stopper with
  | .cancellingHealth =>
    match s.session with
    | none => s.stopCancelKeepAlive
    | some session =>
      match session.healthTask with
      | .ended raised =>
        match raised.filter fun raised => !raised.isExpectedTeardown with
        | some raised => { s with stopper := .raised raised }
        | none => s.stopCancelKeepAlive
      | _ => s
  | .cancellingKeepAlive =>
    match s.session with
    | none => s.stopDisconnect
    | some session =>
      match session.keepAliveTask with
      | .running _ => s
      | .ended raised =>
        if raised.isExpectedTeardown then s.stopDisconnect
        else { s with stopper := .raised raised }
  | .disconnecting =>
    match raised with
    | none => { s.closeSocket with ws := false }.stopFinish
    | some raised => { s with stopper := .raised raised }
  | _ => s

end Manager

/-! ## Events -/

inductive WsEvent where
  /-- the consumer asks for a message -/
  | anext
  | handshakeReturns
  | handshakeRaises (raised : Raised)
  /-- `__aexit__` of a handshake that raised is over -/
  | abandonEnds (raised : Option Raised)
  | callbackReturns
  | callbackRaises (raised : Raised)
  | messageArrives (message : Str)
  /-- the peer or the network closes the connection -/
  | socketCloses
  | nextMessage
  | iterationEnds (raised : Option Raised)
  | contextExits (raised : Option Raised)
  /-- the task that the listener waits for has ended -/
  | listenerResumes
  | backoffEnds
  | healthResumes (healthy : Bool) (raised : Option Raised)
  | keepAliveResumes (raised : Option Raised)
  | stop
  | stopResumes (raised : Option Raised)

namespace Manager

/-- One event. One that cannot happen where the coroutines wait does nothing. -/
def step (s : Manager cfg) : WsEvent → Manager cfg
  | .anext =>
    match s.listener with
    | .created => s.loopHead
    | .yielding => { s with listener := .receiving }
    | _ => s
  | .handshakeReturns => if s.listener = .handshake then s.connected else s
  | .handshakeRaises raised =>
    if s.listener = .handshake then
      if raised.isException then { s with listener := .abandoning raised }
      else s.leaveTry (some raised)
    else s
  | .abandonEnds raised =>
    match s.listener with
    | .abandoning handshakeError => s.leaveTry (some (raised.getD handshakeError))
    | _ => s
  | .callbackReturns =>
    if s.listener = .onConnectCallback then { s with listener := .receiving } else s
  | .callbackRaises raised =>
    if s.listener = .onConnectCallback then { s with listener := .closing (some raised) } else s
  | .messageArrives message =>
    s.withSession fun session =>
      if session.ws.isOpen then
        { session with ws := { session.ws with messages := session.ws.messages ++ [message] } }
      else session
  | .socketCloses => s.closeSocket
  | .nextMessage => if s.listener = .receiving then s.nextMessage else s
  | .iterationEnds raised => if s.listener = .receiving then s.iterationEnds raised else s
  | .contextExits raised =>
    match s.listener with
    | .closing pending => s.closeSocket.leaveTry (raised <|> pending)
    | _ => s
  | .listenerResumes =>
    match s.listener, s.session with
    | .cancellingHealth pending, some session =>
      match session.healthTask with
      | .ended _ => s.cancelHealth pending
      | _ => s
    | .cancellingKeepAlive pending, some session =>
      match session.keepAliveTask with
      | .ended _ => s.cancelKeepAlive pending
      | .running _ => s
    | _, _ => s
  | .backoffEnds =>
    match s.listener with
    | .backoff _ => { s with attempt := s.attempt + 1 }.loopHead
    | _ => s
  | .healthResumes healthy raised => s.healthResumes healthy raised
  | .keepAliveResumes raised => s.keepAliveResumes raised
  | .stop => if s.stopper = .notCalled then s.stop else s
  | .stopResumes raised => s.stopResumes raised

end Manager

end Leviathan
