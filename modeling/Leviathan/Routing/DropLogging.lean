import Leviathan.Routing.AsyncQueueDispatcher
import Mathlib.Algebra.Order.Ring.Rat

/-!
# The overflow log of `AsyncQueueDispatcher`

Drops are logged together, one line for the drops of `drop_log_interval_seconds`, and as an error
where the saturation lasts.

* `DropLogger`: the fields of the dispatcher that only log lines use.
* `recordDropForLogging`: one drop, and the line it is logged with.
* `DropLogger.dispatch`: what a dispatch does to these fields.

A line is its level and its arguments, at the time of the monotonic clock. The debug lines are not
modelled.
-/

namespace Leviathan

open Py

/-- The arguments of the constructor that the log goes by: the interval of the lines, and when a
saturation is an error. -/
structure DropLogPolicy where
  dropLogIntervalSeconds : Rat
  saturationErrorAfterSeconds : Rat
  saturationErrorDropThreshold : Nat
  dropLogInterval_pos : 0 < dropLogIntervalSeconds
  saturationErrorAfter_pos : 0 < saturationErrorAfterSeconds
  saturationErrorDropThreshold_pos : 0 < saturationErrorDropThreshold

/-- The defaults of the constructor. -/
def DropLogPolicy.default : DropLogPolicy where
  dropLogIntervalSeconds := 10
  saturationErrorAfterSeconds := 60
  saturationErrorDropThreshold := 1000
  dropLogInterval_pos := by decide
  saturationErrorAfter_pos := by decide
  saturationErrorDropThreshold_pos := by decide

inductive DropLogLevel where
  | warning
  /-- an error also says for how long the queue is saturated -/
  | error (saturatedFor : Rat)

structure DropLog where
  time : Rat
  level : DropLogLevel
  droppedTicks : Nat
  windowSeconds : Rat
  symbol : Option Str
  droppedTotal : Nat
  qsize : Nat
  maxsize : Nat
  policy : OverflowPolicy

structure DropLogger (policy : DropLogPolicy) where
  dropsSinceLastLog : Nat
  lastDropLogMono : Option Rat
  lastDropSymbol : Option Str

namespace DropLogger

variable {policy : DropLogPolicy} {Tick : Type}

def new : DropLogger policy := ⟨0, none, none⟩

/-- `__should_escalate_to_error`: enough ticks were dropped in all, or the queue has been full for
long enough. -/
def shouldEscalateToError (policy : DropLogPolicy) (dispatcher : AsyncQueueDispatcher Tick)
    (now : Rat) : Bool :=
  if dispatcher.droppedTickCount ≥ policy.saturationErrorDropThreshold then true
  else match dispatcher.saturationSinceMono with
    | none => false
    | some since => now - since ≥ policy.saturationErrorAfterSeconds

/-- `should_log`: no line was written yet, or the interval since the last one is over. -/
def shouldLog (logger : DropLogger policy) (now : Rat) : Bool :=
  match logger.lastDropLogMono with
  | none => true
  | some last => now - last ≥ policy.dropLogIntervalSeconds

/-- The line for the drops that are not logged yet, and for this one. -/
def dropLog (logger : DropLogger policy) (dispatcher : AsyncQueueDispatcher Tick) (now : Rat) :
    DropLog where
  time := now
  level :=
    if shouldEscalateToError policy dispatcher now then
      .error ((dispatcher.saturationSinceMono.map (now - ·)).getD 0)
    else .warning
  droppedTicks := logger.dropsSinceLastLog
  windowSeconds := (logger.lastDropLogMono.map (now - ·)).getD 0
  symbol := logger.lastDropSymbol
  droppedTotal := dispatcher.droppedTickCount
  qsize := dispatcher.qsize
  maxsize := dispatcher.maxsize
  policy := dispatcher.overflowPolicy

/-- `__record_drop_for_logging`: the fields after it, and the line. -/
def recordDropForLogging (logger : DropLogger policy) (dispatcher : AsyncQueueDispatcher Tick)
    (now : Rat) : DropLogger policy × Option DropLog :=
  let logger := { logger with dropsSinceLastLog := logger.dropsSinceLastLog + 1 }
  if logger.shouldLog now then
    ({ logger with dropsSinceLastLog := 0, lastDropLogMono := some now },
      some (logger.dropLog dispatcher now))
  else (logger, none)

/-- `__handle_overflow`. A drop is not recorded where `__replace_oldest_with` raises. -/
def handleOverflow (instId : Tick → Str) (logger : DropLogger policy)
    (dispatcher : AsyncQueueDispatcher Tick) (tick : Tick) (now : Rat) :
    DropLogger policy × Option DropLog :=
  let logger := { logger with lastDropSymbol := some (instId tick) }
  match dispatcher.handleOverflow tick now with
  | (_, .error _) => (logger, none)
  | (dispatcher, .ok ()) => logger.recordDropForLogging dispatcher now

/-- `dispatch`, of the dispatcher that has these fields. -/
def dispatch (instId : Tick → Str) (logger : DropLogger policy)
    (dispatcher : AsyncQueueDispatcher Tick) (tick : Tick) (now : Rat) :
    DropLogger policy × Option DropLog :=
  match dispatcher.queue.putNowait dispatcher.maxsize tick with
  | none => logger.handleOverflow instId dispatcher tick now
  | some _ => (logger, none)

/-! ## What a dispatch logs -/

variable (instId : Tick → Str) (logger : DropLogger policy)
  (dispatcher : AsyncQueueDispatcher Tick) (tick : Tick) (now : Rat)

theorem dispatch_room (h : dispatcher.isFull = false) :
    logger.dispatch instId dispatcher tick now = (logger, none) := by
  have hfull : dispatcher.queue.full dispatcher.maxsize = false := h
  simp only [dispatch, AsyncQueue.putNowait, hfull, Bool.false_eq_true, ↓reduceIte]

/-- A drop is logged with those before it, or counted with them. -/
theorem dispatch_full (h : dispatcher.isFull = true)
    (hok : (dispatcher.dispatch tick now).2 = .ok ()) :
    (∃ log, logger.shouldLog now = true ∧ log.time = now ∧
        log.droppedTicks = logger.dropsSinceLastLog + 1 ∧
        logger.dispatch instId dispatcher tick now =
          (⟨0, some now, some (instId tick)⟩, some log)) ∨
      logger.shouldLog now = false ∧
        logger.dispatch instId dispatcher tick now =
          (⟨logger.dropsSinceLastLog + 1, logger.lastDropLogMono, some (instId tick)⟩, none) := by
  have hfull : dispatcher.queue.full dispatcher.maxsize = true := h
  simp only [AsyncQueueDispatcher.dispatch, AsyncQueue.putNowait, hfull, ↓reduceIte] at hok
  simp only [dispatch, AsyncQueue.putNowait, hfull, ↓reduceIte, handleOverflow]
  generalize dispatcher.handleOverflow tick now = overflow at hok ⊢
  obtain ⟨after, result⟩ := overflow
  obtain rfl : result = .ok () := hok
  cases hlog : logger.shouldLog now with
  | false =>
    right
    refine ⟨rfl, ?_⟩
    have hlog' : @shouldLog policy ⟨logger.dropsSinceLastLog + 1,
      logger.lastDropLogMono, some (instId tick)⟩ now = false := hlog
    simp only [recordDropForLogging, hlog', Bool.false_eq_true, ↓reduceIte]
  | true =>
    left
    have hlog' : @shouldLog policy ⟨logger.dropsSinceLastLog + 1,
      logger.lastDropLogMono, some (instId tick)⟩ now = true := hlog
    simp only [recordDropForLogging, hlog', ↓reduceIte]
    exact ⟨_, trivial, rfl, rfl, rfl⟩

end DropLogger

end Leviathan
