import Leviathan.Py.Dict
import Leviathan.State.SubscriptionRegistry

/-!
# Requests to the exchange

`SubscriptionStrategy` is what a stream formats its requests with; `BitgetSubscriptionProtocol` is
the one of Bitget. A request is the dictionary that `orjson.dumps` writes and the exchange reads
back; `readRequest` is what it does there.
-/

namespace Leviathan

open Py

/-- `ISubscriptionStrategy`: the requests for symbols to be subscribed and unsubscribed. -/
structure SubscriptionStrategy where
  formatSubscribe : List Str → Except PyError Json
  formatUnsubscribe : List Str → Except PyError Json

structure BitgetSubscriptionProtocol where
  instType : Str
  nonempty : instType ≠ []

namespace BitgetSubscriptionProtocol

variable (protocol : BitgetSubscriptionProtocol)

def opKey : Str := "op".toList
def argsKey : Str := "args".toList
def instIdKey : Str := "instId".toList
def subscribeOp : Str := "subscribe".toList
def unsubscribeOp : Str := "unsubscribe".toList

/-- The channel of the trades of a symbol. -/
def arg (symbol : Str) : Json :=
  .obj [("instType".toList, .str protocol.instType), ("channel".toList, .str "trade".toList),
    (instIdKey, .str symbol)]

/-- The checks and the request of `format_subscribe` and `format_unsubscribe`: an empty list is
refused, and so is an empty symbol. -/
def format (op : Str) (symbols : List Str) : Except PyError Json :=
  if symbols = [] then .error (.valueError "symbols list cannot be empty".toList)
  else if [] ∈ symbols then .error (.valueError "symbols must be non-empty strings".toList)
  else .ok (.obj [(opKey, .str op), (argsKey, .arr (symbols.map protocol.arg))])

def formatSubscribe : List Str → Except PyError Json := protocol.format subscribeOp

def formatUnsubscribe : List Str → Except PyError Json := protocol.format unsubscribeOp

def strategy : SubscriptionStrategy := ⟨protocol.formatSubscribe, protocol.formatUnsubscribe⟩

/-! ## The exchange -/

/-- The symbol of an argument. -/
def argSymbol : Json → Option Str
  | .obj arg =>
    match Dict.get? arg instIdKey with
    | some (.str symbol) => some symbol
    | _ => none
  | _ => none

/-- The symbols of a request. -/
def requestSymbols (request : Dict Str Json) : Finset Str :=
  match Dict.get? request argsKey with
  | some (.arr args) => (args.filterMap argSymbol).toFinset
  | _ => ∅

/-- What is subscribed after a request, as an exchange reads it that takes every argument. -/
def readRequest (subscribed : Finset Str) : Json → Finset Str
  | .obj request =>
    match Dict.get? request opKey with
    | some (.str op) =>
      if op = subscribeOp then subscribed ∪ requestSymbols request
      else if op = unsubscribeOp then subscribed \ requestSymbols request
      else subscribed
    | _ => subscribed
  | _ => subscribed

variable {symbols : List Str}

/-- The exchange reads the symbols that were formatted. -/
theorem requestSymbols_format (op : Str) :
    requestSymbols [(opKey, .str op), (argsKey, .arr (symbols.map protocol.arg))] =
      symbols.toFinset := by
  have hargs : Dict.get? [(opKey, Json.str op), (argsKey, .arr (symbols.map protocol.arg))] argsKey =
      some (.arr (symbols.map protocol.arg)) := rfl
  have hsymbols : (symbols.map protocol.arg).filterMap argSymbol = symbols := by
    rw [List.filterMap_map]
    exact List.filterMap_some
  simp only [requestSymbols, hargs, hsymbols]

/-- Symbols that are there and not empty are formatted. -/
theorem format_ok (op : Str) (hsome : symbols ≠ []) (hempty : [] ∉ symbols) :
    protocol.format op symbols =
      .ok (.obj [(opKey, .str op), (argsKey, .arr (symbols.map protocol.arg))]) := by
  simp only [format, if_neg hsome, if_neg hempty]

theorem formatSubscribe_ok (hsome : symbols ≠ []) (hempty : [] ∉ symbols) :
    ∃ request, protocol.formatSubscribe symbols = .ok request ∧
      ∀ subscribed, readRequest subscribed request = subscribed ∪ symbols.toFinset := by
  refine ⟨_, format_ok protocol subscribeOp hsome hempty, ?_⟩
  intro subscribed
  rw [← requestSymbols_format protocol subscribeOp]
  rfl

theorem formatUnsubscribe_ok (hsome : symbols ≠ []) (hempty : [] ∉ symbols) :
    ∃ request, protocol.formatUnsubscribe symbols = .ok request ∧
      ∀ subscribed, readRequest subscribed request = subscribed \ symbols.toFinset := by
  refine ⟨_, format_ok protocol unsubscribeOp hsome hempty, ?_⟩
  intro subscribed
  rw [← requestSymbols_format protocol unsubscribeOp]
  rfl

end BitgetSubscriptionProtocol

end Leviathan
