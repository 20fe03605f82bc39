import Leviathan.Network.ReconnectingWs
import Mathlib.Algebra.Order.Ring.Unbundled.Rat
import Mathlib.Data.NNRat.Defs

/-!
# `ReconnectingWebSocketManager` with its clock

`SilenceWatchdog` remembers when the session was last heard, and the health loop asks it every five
seconds. `TimedManager` is `Manager` with the watchdog and a clock.

* `isDue`: a sleep lasts as long as it was asked to, or longer. The wait of a back-off also ends
  when `stop()` is called.
* `answered`: what the health loop hears is what `check_health` answers at that time.
* `step`: time passes, or an event of the manager happens.
-/

namespace Leviathan

structure SilenceWatchdog where
  timeoutSeconds : Rat
  positive : 0 < timeoutSeconds
  lastActivity : Rat

namespace SilenceWatchdog

def elapsedSilence (watchdog : SilenceWatchdog) (now : Rat) : Rat := now - watchdog.lastActivity

def ping (watchdog : SilenceWatchdog) (now : Rat) : SilenceWatchdog :=
  { watchdog with lastActivity := now }

def checkHealth (watchdog : SilenceWatchdog) (now : Rat) : Bool :=
  watchdog.elapsedSilence now ≤ watchdog.timeoutSeconds

end SilenceWatchdog

/-- `_HEALTH_CHECK_INTERVAL_SECONDS`, the sleep of the health loop before each look at the watchdog.
-/
def healthCheckIntervalSeconds : Rat := 5

/-- The health loop of the session, if there is one. -/
def Manager.health {cfg : WsConfig} (s : Manager cfg) : Option HealthLoop :=
  s.session.map Session.healthTask

/-- A pass through the loop of the listener that asked for a connection: its attempt number, and
when it did. -/
structure Pass where
  began : Rat
  attempt : Nat
  /-- the handshakes that had succeeded before -/
  connections : Nat

structure TimedManager (cfg : WsConfig) where
  manager : Manager cfg
  watchdog : SilenceWatchdog
  /-- `time.monotonic()` -/
  now : Rat
  /-- when the health loop came to where it is -/
  healthSince : Rat
  /-- when the listener came to where it is -/
  listenerSince : Rat
  /-- the silence after which the watchdog has cut the session -/
  cutAfter : Option Rat
  passes : List Pass

inductive TimedOp where
  | pass (seconds : NNRat)
  | event (event : WsEvent)

namespace TimedManager

variable {cfg : WsConfig}

/-- A manager that is built at the time 0, when its watchdog begins to count. -/
def new (timeoutSeconds : Rat) (positive : 0 < timeoutSeconds) : TimedManager cfg where
  manager := .new
  watchdog := ⟨timeoutSeconds, positive, 0⟩
  now := 0
  healthSince := 0
  listenerSince := 0
  cutAfter := none
  passes := []

def silence (s : TimedManager cfg) : Rat := s.watchdog.elapsedSilence s.now

/-- The wait that the event ends is long enough: the sleep of the health loop, or the delay before
the next attempt. -/
def isDue (s : TimedManager cfg) : WsEvent → Bool
  | .healthResumes _ _ =>
    match s.manager.health with
    | some (.sleeping false) => s.healthSince + healthCheckIntervalSeconds ≤ s.now
    | _ => true
  | .backoffEnds =>
    match s.manager.listener with
    | .backoff delay => s.manager.stopEvent || s.listenerSince + (delay : Rat) ≤ s.now
    | _ => true
  | _ => true

/-- The event, with the answer of the watchdog in place of any other that it states. -/
def answered (s : TimedManager cfg) : WsEvent → WsEvent
  | .healthResumes _ raised => .healthResumes (s.watchdog.checkHealth s.now) raised
  | event => event

/-- The watchdog tells the health loop, after its sleep, that the session is silent. -/
def cuts (s : TimedManager cfg) : Bool :=
  match s.manager.health with
  | some (.sleeping false) => !s.watchdog.checkHealth s.now
  | _ => false

/-- What the event does to the watchdog and its session: a connection and a message ping it. -/
def observe (s : TimedManager cfg) (event : WsEvent) (after : TimedManager cfg) :
    TimedManager cfg :=
  match event with
  | .handshakeReturns =>
    if s.manager.listener = .handshake then
      { after with
        watchdog := s.watchdog.ping s.now
        healthSince := s.now
        cutAfter := none }
    else after
  | .nextMessage =>
    if after.manager.yielded = s.manager.yielded then after
    else { after with watchdog := s.watchdog.ping s.now }
  | .healthResumes _ _ =>
    { after with
      healthSince := s.now
      cutAfter := if s.cuts then some s.silence else s.cutAfter }
  | _ => after

/-- The listener, after an event that led to `manager`: a pass begins where it asks for a
connection. -/
def moves (s : TimedManager cfg) (manager : Manager cfg) : TimedManager cfg :=
  { s with
    manager
    listenerSince := if manager.listener = s.manager.listener then s.listenerSince else s.now
    passes :=
      if manager.listener = .handshake ∧ s.manager.listener ≠ .handshake then
        s.passes ++ [⟨s.now, manager.attempt, manager.connections⟩]
      else s.passes }

def step (s : TimedManager cfg) : TimedOp → TimedManager cfg
  | .pass seconds => { s with now := s.now + seconds }
  | .event event =>
    if s.isDue event then s.observe event (s.moves (s.manager.step (s.answered event))) else s

end TimedManager

end Leviathan
