import Leviathan.Exchanges.BaseStream
import Leviathan.Journal.Dispatch
import Leviathan.Journal.Faults

/-!
# `start_streaming`

The loop of `BaseExchangeStream.start_streaming` over the messages of the network manager: a message
is parsed, each of its ticks is dispatched, and the observers are told of it.

* `StreamParts`: what the loop calls. It runs in an environment of its own, the state of whatever is
  called.
* `notifyObservers`, `dispatchTicks`, `processMessage`, `startStreaming`: the loop.
* `journalParts`: a stream that dispatches to a `JournalDispatchDecorator` whose writes may fail.
-/

namespace Leviathan

open Py

/-- `ParsedMessage`, with the ticks of a `TradeMessage`. -/
inductive StreamMessage (Tick : Type) where
  | trade (ticks : List Tick)
  | system (event : Str) (symbol : Option Str)
  | error

def StreamMessage.toParsed {Tick : Type} : StreamMessage Tick → ParsedMessage
  | .trade _ => .trade
  | .system event symbol => .system event symbol
  | .error => .error

/-- The parts of a stream, in an environment `Env` that their calls may change: the parser, the
dispatcher, the observers and the tracker. -/
structure StreamParts (Env Tick Observer : Type) where
  parse : Str → Except PyError (Option (StreamMessage Tick))
  /-- `dispatch_strategy.dispatch`, and what it raises -/
  dispatch : Env → Tick → Env × Option Raised
  observers : List Observer
  onPriceUpdate : Env → Observer → Tick → Env × Option Raised
  recordConfirmation : Env → Str → Env × Option Raised

/-- A stream, with what it has called. -/
structure Streaming (Env Tick Observer : Type) where
  env : Env
  /-- the calls of `dispatch`, and what they raised -/
  dispatched : List (Tick × Option Raised)
  notified : List (Observer × Tick)

namespace StreamParts

variable {Env Tick Observer : Type} (parts : StreamParts Env Tick Observer)

/-- The messages as the confirmations see them. -/
def parsed (message : Str) : Except PyError (Option ParsedMessage) :=
  (parts.parse message).map fun parsed => parsed.map StreamMessage.toParsed

/-- What `except Exception` does not take. -/
def escapes (raised : Option Raised) : Option Raised :=
  raised.filter fun raised => !raised.isException

/-- The loop of `__notify_observers` over `observers`, and what it raises: the observers behind one
that raises are not told. -/
def notifyObservers (tick : Tick) : Streaming Env Tick Observer → List Observer →
    Streaming Env Tick Observer × Option Raised
  | s, [] => (s, none)
  | s, observer :: observers =>
    let (env, raised) := parts.onPriceUpdate s.env observer tick
    let s := { s with env, notified := s.notified ++ [(observer, tick)] }
    match escapes raised with
    | some raised => (s, some raised)
    | none => notifyObservers tick s observers

/-- `for tick in parsed_message.ticks`, and what it raises: the ticks behind one that raises are not
dispatched. -/
def dispatchTicks : Streaming Env Tick Observer → List Tick →
    Streaming Env Tick Observer × Option Raised
  | s, [] => (s, none)
  | s, tick :: ticks =>
    let (env, raised) := parts.dispatch s.env tick
    let s := { s with env, dispatched := s.dispatched ++ [(tick, raised)] }
    match raised with
    | some raised => (s, some raised)
    | none =>
      match parts.notifyObservers tick s parts.observers with
      | (s, some raised) => (s, some raised)
      | (s, none) => dispatchTicks s ticks

/-- The body of the loop of `start_streaming`, and what leaves it. -/
def processMessage (s : Streaming Env Tick Observer) (message : Str) :
    Streaming Env Tick Observer × Option Raised :=
  match parts.parse message with
  | .ok (some (.trade ticks)) =>
    let (s, raised) := parts.dispatchTicks s ticks
    (s, escapes raised)
  | _ =>
    match BaseExchangeStream.acknowledgement parts.parsed message with
    | none => (s, none)
    | some symbol =>
      let (env, raised) := parts.recordConfirmation s.env symbol
      ({ s with env }, escapes raised)

/-- `start_streaming`, for the messages that the network manager gives, up to the first that
something leaves the loop at. -/
def startStreaming : Streaming Env Tick Observer → List Str →
    Streaming Env Tick Observer × Option Raised
  | s, [] => (s, none)
  | s, message :: messages =>
    match parts.processMessage s message with
    | (s, some raised) => (s, some raised)
    | (s, none) => startStreaming s messages

/-- The ticks of a message. -/
def ticks (message : Str) : List Tick :=
  match parts.parse message with
  | .ok (some (.trade ticks)) => ticks
  | _ => []

end StreamParts

/-! ## The journal as the dispatch strategy -/

variable {cfg : Config} {policy : LivenessPolicy}

/-- `dispatch` where the write of the line may raise an `OSError`. -/
def JournalDispatchDecorator.dispatchFaulty (decorator : JournalDispatchDecorator cfg policy)
    (fault : Option WriteFault) (tick : TradeTick cfg.toRuntime) :
    JournalDispatchDecorator cfg policy × Option Raised :=
  match decorator.journal.appendFaulty fault none decorator.disk tick with
  | (journal, disk, some (.ok _)) =>
    ({ journal, disk
       writeLivenessGuard := decorator.writeLivenessGuard.map fun guard => guard.recordJournalWrite
       inner := decorator.inner ++ [tick] }, none)
  | (journal, disk, _) => ({ decorator with journal, disk }, some .exception)

/-- Without a fault, it is `dispatch`. -/
theorem JournalDispatchDecorator.dispatchFaulty_none
    (decorator : JournalDispatchDecorator cfg policy) (tick : TradeTick cfg.toRuntime) :
    decorator.dispatchFaulty none tick =
      ((decorator.dispatch tick).1,
        match (decorator.dispatch tick).2 with
        | .ok () => none
        | .error _ => some .exception) := by
  simp only [dispatchFaulty, dispatch, TickJournal.appendFaulty_none]
  rcases decorator.journal.append decorator.disk tick with ⟨journal, disk, e | seq⟩
  · rfl
  · rfl

/-- A stream whose ticks go to a journal, with a fault or none for each dispatch to come. It has one
observer, which raises nothing. -/
def journalParts (parse : Str → Except PyError (Option (StreamMessage (TradeTick cfg.toRuntime)))) :
    StreamParts (JournalDispatchDecorator cfg policy × List (Option WriteFault))
      (TradeTick cfg.toRuntime) Unit where
  parse := parse
  dispatch env tick :=
    let (decorator, raised) := env.1.dispatchFaulty (env.2.head?.getD none) tick
    ((decorator, env.2.tail), raised)
  observers := [()]
  onPriceUpdate env _ _ := (env, none)
  recordConfirmation env _ := (env, none)

end Leviathan
