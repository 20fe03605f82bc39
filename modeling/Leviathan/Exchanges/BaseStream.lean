import Leviathan.Exchanges.BitgetProtocol
import Leviathan.Network.ReconnectingWs
import Leviathan.Proofs.Confirmations
import Leviathan.Proofs.GuardSafety
import Mathlib.Data.Char
import Mathlib.Data.List.Lex

/-!
# The stream of an exchange

`BaseExchangeStream` over its parts: the manager with `__handle_connect` as its callback, the
registry, the confirmation tracker and the write-liveness guard with their timers, and what a
session has sent.

* `handleConnect`, `resubscribeAll`, `resubscribeReturns`: the callback, from `await` to `await`.
* `processMessage`: the loop of `start_streaming`, for one message.
* `subscribeSymbol`, `subscribeSymbols`, `unsubscribeSymbol`, `unsubscribeSymbols`: the calls.
* `StreamOp`, `step`: what can happen.

A request is on its way from the `send` that takes it until it is at the exchange, and the requests
of a session get there in order. A `send` that raises on the way, of a session that is dead, changes
nothing here, but the one of `_resubscribe_all` raises in the callback. Ticks and observers are not
modelled, and no more are the streams without a guard, which arm nothing.
-/

namespace Leviathan

open Py

/-- What `parse` gives, as far as the stream tells it apart: ticks, a system message with its event
and symbol, or an error. -/
inductive ParsedMessage where
  | trade
  | system (event : Str) (symbol : Option Str)
  | error

/-- Where `__handle_connect` is, of the session there is: in a reconnect callback, in the `send` of
`_resubscribe_all`, or over. -/
inductive ConnectStage where
  /-- before the first session -/
  | idle
  /-- in one of the reconnect callbacks -/
  | notifying
  /-- in the `send` of `_resubscribe_all` -/
  | resubscribing (requested : List Str)
  | completed
  | failed

structure BaseExchangeStream (retryPolicy : RetryPolicy) (policy : LivenessPolicy) where
  manager : Manager ⟨retryPolicy, true⟩
  registry : SubscriptionRegistry
  confirmations : Confirming
  liveness : Guarded policy
  connectGeneration : Nat
  connectStage : ConnectStage
  /-- the requests of the session that are on their way -/
  wire : List Json
  /-- the requests of the session that are at the exchange -/
  received : List Json

namespace BaseExchangeStream

variable {retryPolicy : RetryPolicy} {policy : LivenessPolicy} (strategy : SubscriptionStrategy)
  (parse : Str → Except PyError (Option ParsedMessage))

def new (registry : SubscriptionRegistry) : BaseExchangeStream retryPolicy policy :=
  ⟨.new, registry, .start, .start, 0, .idle, [], []⟩

/-! ## Requests -/

/-- `await self.__network_manager.send(payload)`, with what it raises at once, where there is no
connection. -/
def send (s : BaseExchangeStream retryPolicy policy) (payload : Json) :
    BaseExchangeStream retryPolicy policy × Option Raised :=
  if s.manager.isConnected then ({ s with wire := s.wire ++ [payload] }, none)
  else (s, some .connectionError)

/-- `__send_subscribe_payload`, and `__send_unsubscribe_payload`, with what is formatted. What the
strategy raises goes to the caller, and nothing is sent then. -/
def sendPayload (s : BaseExchangeStream retryPolicy policy) :
    Except PyError Json → BaseExchangeStream retryPolicy policy × Option Raised
  | .error _ => (s, some .exception)
  | .ok payload => s.send payload

/-- The first request on its way is at the exchange. -/
def reaches (s : BaseExchangeStream retryPolicy policy) : BaseExchangeStream retryPolicy policy :=
  match s.wire with
  | [] => s
  | payload :: wire => { s with wire, received := s.received ++ [payload] }

/-! ## Confirmations -/

/-- `__on_subscriptions_confirmed` is `on_complete`, and there is no `on_partial`: the arguments of
`arm_after_subscriptions_confirmed`. -/
def armCall (s : BaseExchangeStream retryPolicy policy) :
    Option ConfirmationCall → Option (Finset Str × Int)
  | some (.onComplete confirmed) => some (confirmed, max (s.connectGeneration : Int) 1)
  | _ => none

/-- The callback of the tracker. -/
def confirmed (s : BaseExchangeStream retryPolicy policy) (now : Rat)
    (call : Option ConfirmationCall) : BaseExchangeStream retryPolicy policy :=
  match s.armCall call with
  | none => s
  | some (confirmed, connectGeneration) =>
    { s with
      liveness := s.liveness.step
        (.armAfterSubscriptionsConfirmed confirmed (some connectGeneration) now) }

/-- The tracker takes the operation. -/
def confirm (s : BaseExchangeStream retryPolicy policy) (op : ConfirmingOp) (now : Rat) :
    BaseExchangeStream retryPolicy policy :=
  { s with confirmations := s.confirmations.step op }.confirmed now (s.confirmations.callback op)

/-- The symbol that a message acknowledges. -/
def acknowledgement (message : Str) : Option Str :=
  match parse message with
  | .ok (some (.system event symbol)) =>
    if event = "subscribe".toList then symbol.filter (· ≠ []) else none
  | _ => none

/-- The body of the loop of `start_streaming`. What it raises is logged, and the loop goes on with
the next message. -/
def processMessage (s : BaseExchangeStream retryPolicy policy) (message : Str) (now : Rat) :
    BaseExchangeStream retryPolicy policy :=
  match acknowledgement parse message with
  | none => s
  | some symbol => s.confirm (.recordConfirmation symbol) now

/-! ## Connects -/

/-- `__handle_connect` up to the reconnect callbacks, in a new session. -/
def handleConnect (s : BaseExchangeStream retryPolicy policy) :
    BaseExchangeStream retryPolicy policy :=
  { s with
    connectGeneration := s.connectGeneration + 1
    liveness := s.liveness.step .cancel
    connectStage := .notifying
    wire := []
    received := [] }

def connectReturns (s : BaseExchangeStream retryPolicy policy) :
    BaseExchangeStream retryPolicy policy :=
  { s with manager := s.manager.step .callbackReturns, connectStage := .completed }

def connectRaises (s : BaseExchangeStream retryPolicy policy) (raised : Raised) :
    BaseExchangeStream retryPolicy policy :=
  { s with manager := s.manager.step (.callbackRaises raised), connectStage := .failed }

/-- A reconnect callback raises. An `Exception` is logged, and the next one is called; anything else
ends the connect. -/
def callbackRaises (s : BaseExchangeStream retryPolicy policy) (raised : Raised) :
    BaseExchangeStream retryPolicy policy :=
  match s.connectStage with
  | .notifying => if raised.isException then s else s.connectRaises raised
  | _ => s

/-- `sorted(symbols)`. -/
def sorted (symbols : List Str) : List Str := symbols.mergeSort fun a b => decide (a ≤ b)

/-- The reconnect callbacks are over: `_resubscribe_all` up to its `send`, of all symbols that are
registered at that moment. -/
def resubscribeAll (s : BaseExchangeStream retryPolicy policy) :
    BaseExchangeStream retryPolicy policy :=
  match s.connectStage with
  | .notifying =>
    let symbols := s.registry.getAll
    if symbols = [] then
      { s with confirmations := s.confirmations.step .cancel }.connectReturns
    else
      match s.sendPayload (strategy.formatSubscribe symbols) with
      | (s, none) => { s with connectStage := .resubscribing (sorted symbols) }
      | (s, some raised) => s.connectRaises raised
  | _ => s

/-- The `send` of `_resubscribe_all` returns. -/
def resubscribeReturns (s : BaseExchangeStream retryPolicy policy) :
    BaseExchangeStream retryPolicy policy :=
  match s.connectStage with
  | .resubscribing requested =>
    match s.confirmations.tracker.beginExpectation requested with
    | .error _ => s.connectRaises .exception
    | .ok _ =>
      { s with confirmations := s.confirmations.step (.beginExpectation requested) }.connectReturns
  | _ => s

/-- The `send` of `_resubscribe_all` raises. -/
def resubscribeRaises (s : BaseExchangeStream retryPolicy policy) (raised : Raised) :
    BaseExchangeStream retryPolicy policy :=
  match s.connectStage with
  | .resubscribing _ => s.connectRaises raised
  | _ => s

/-! ## Calls -/

/-- The registry after a change, and the request for what has changed. A request that fails leaves
the registry changed. -/
def sendChange (s : BaseExchangeStream retryPolicy policy)
    (format : List Str → Except PyError Json) :
    Except PyError (SubscriptionRegistry × List Str) →
      Except PyError (BaseExchangeStream retryPolicy policy × Option Raised)
  | .error e => .error e
  | .ok (registry, changes) =>
    if changes = [] then .ok ({ s with registry }, none)
    else .ok ({ s with registry }.sendPayload (format changes))

/-- `_validate_symbol`. -/
def validateSymbol (symbol : Str) : Except PyError Unit :=
  if symbol = [] then .error (.valueError "symbol cannot be empty".toList) else .ok ()

/-- `_validate_symbols_list`. -/
def validateSymbolsList (symbols : List Str) : Except PyError Unit :=
  if symbols = [] then .error (.valueError "symbols list cannot be empty".toList)
  else if [] ∈ symbols then .error (.valueError "symbols must be non-empty strings".toList)
  else .ok ()

def subscribeSymbol (s : BaseExchangeStream retryPolicy policy) (symbol : Str) :
    Except PyError (BaseExchangeStream retryPolicy policy × Option Raised) := do
  validateSymbol symbol
  s.sendChange strategy.formatSubscribe (s.registry.addAll [symbol])

def subscribeSymbols (s : BaseExchangeStream retryPolicy policy) (symbols : List Str) :
    Except PyError (BaseExchangeStream retryPolicy policy × Option Raised) := do
  validateSymbolsList symbols
  s.sendChange strategy.formatSubscribe (s.registry.addAll symbols)

def unsubscribeSymbol (s : BaseExchangeStream retryPolicy policy) (symbol : Str) :
    Except PyError (BaseExchangeStream retryPolicy policy × Option Raised) := do
  validateSymbol symbol
  s.sendChange strategy.formatUnsubscribe (s.registry.removeAll [symbol])

def unsubscribeSymbols (s : BaseExchangeStream retryPolicy policy) (symbols : List Str) :
    Except PyError (BaseExchangeStream retryPolicy policy × Option Raised) := do
  validateSymbolsList symbols
  s.sendChange strategy.formatUnsubscribe (s.registry.removeAll symbols)

/-- The stream after a call, whatever it raises. -/
def after (s : BaseExchangeStream retryPolicy policy) :
    Except PyError (BaseExchangeStream retryPolicy policy × Option Raised) →
      BaseExchangeStream retryPolicy policy
  | .error _ => s
  | .ok (s, _) => s

/-- A check that raises leaves the stream as it is. -/
theorem after_validated {P : BaseExchangeStream retryPolicy policy → Prop}
    {s : BaseExchangeStream retryPolicy policy} {check : Except PyError Unit}
    {call : Except PyError (BaseExchangeStream retryPolicy policy × Option Raised)} (h : P s)
    (hcall : P (s.after call)) : P (s.after (check >>= fun _ => call)) := by
  cases check with
  | error e => exact h
  | ok _ => exact hcall

/-- `stop`, up to `await self.__network_manager.stop()`: the tracker and the guard are cancelled
first. -/
def stop (s : BaseExchangeStream retryPolicy policy) : BaseExchangeStream retryPolicy policy :=
  { s with
    confirmations := s.confirmations.step .cancel
    liveness := s.liveness.step .cancel
    manager := s.manager.step .stop }

end BaseExchangeStream

/-! ## Operations -/

inductive StreamOp where
  /-- an event of the manager, at the time `now` -/
  | event (event : WsEvent) (now : Rat)
  | callbackRaises (raised : Raised)
  | resubscribeAll
  | resubscribeReturns
  | resubscribeRaises (raised : Raised)
  | reaches
  | subscribeSymbol (symbol : Str)
  | subscribeSymbols (symbols : List Str)
  | unsubscribeSymbol (symbol : Str)
  | unsubscribeSymbols (symbols : List Str)
  /-- a timer of the tracker goes on after its sleep -/
  | confirmationTimer (generation : Nat) (now : Rat)
  /-- a timer of the guard goes on after its sleep -/
  | livenessTimer (generation : Nat) (now : Rat)
  | recordJournalWrite
  | stop

namespace BaseExchangeStream

variable {retryPolicy : RetryPolicy} {policy : LivenessPolicy} (strategy : SubscriptionStrategy)
  (parse : Str → Except PyError (Option ParsedMessage))

/-- The message that the manager gives out next. -/
def nextMessage (s : BaseExchangeStream retryPolicy policy) : Option Str :=
  ((s.manager.step .nextMessage).yielded.drop s.manager.yielded.length).head?

/-- An event of the manager. How the callback ends is `__handle_connect`'s to say, and a message is
processed as soon as it is given out. -/
def stepEvent (s : BaseExchangeStream retryPolicy policy) (event : WsEvent) (now : Rat) :
    BaseExchangeStream retryPolicy policy :=
  let after := { s with manager := s.manager.step event }
  match event with
  | .callbackReturns | .callbackRaises _ => s
  | .handshakeReturns => if s.manager.listener = .handshake then after.handleConnect else after
  | .nextMessage =>
    match s.nextMessage with
    | none => after
    | some message => after.processMessage parse message now
  | _ => after

def step (s : BaseExchangeStream retryPolicy policy) :
    StreamOp → BaseExchangeStream retryPolicy policy
  | .event event now => s.stepEvent parse event now
  | .callbackRaises raised => s.callbackRaises raised
  | .resubscribeAll => s.resubscribeAll strategy
  | .resubscribeReturns => s.resubscribeReturns
  | .resubscribeRaises raised => s.resubscribeRaises raised
  | .reaches => s.reaches
  | .subscribeSymbol symbol => s.after (s.subscribeSymbol strategy symbol)
  | .subscribeSymbols symbols => s.after (s.subscribeSymbols strategy symbols)
  | .unsubscribeSymbol symbol => s.after (s.unsubscribeSymbol strategy symbol)
  | .unsubscribeSymbols symbols => s.after (s.unsubscribeSymbols strategy symbols)
  | .confirmationTimer generation now => s.confirm (.wake generation) now
  | .livenessTimer generation now => { s with liveness := s.liveness.step (.wake generation now) }
  | .recordJournalWrite => { s with liveness := s.liveness.step .recordJournalWrite }
  | .stop => s.stop

end BaseExchangeStream

end Leviathan
