import Leviathan.Exchanges.BitgetProtocol
import Leviathan.Exchanges.StartStreaming
import Leviathan.Journal.Readme
import Leviathan.Py.JsonLemmas

/-!
# `BitgetMessageParser`

A frame of the exchange is a text. `JsonDeserializer` reads it, `BitgetEventClassifier` tells what
it is, and `BitgetTradeMapper` makes the ticks of its trades.

* `MappedTick`: the mapper passes the id of a trade on as the frame has it, so the id of a tick may
  be of any type.
* `BitgetRuntime.readme`: the parser with the `TradeTick` of the README.
* `mapTrade`, `mapTrades`: a trade that the constructor of `TradeTick` refuses is left out alone.
* `parse`: the message of a frame, or the exception that is raised on.
* `parseStream_sameSymbol`: the ticks of a frame have one symbol.
-/

namespace Leviathan

open Py

/-- A `TradeTick` as the mapper makes it. The class declares a string for `trade_id`, but a
constructor that does not look at the value takes what the frame has. -/
inductive MappedTick (rt : Runtime) where
  | tick (tick : TradeTick rt)
  /-- the symbol of the tick, and a `trade_id` that is no string -/
  | otherId (instId : Str) (tradeId : Json)

namespace MappedTick

variable {rt : Runtime}

def instId : MappedTick rt → Str
  | .tick made => made.fields.instId
  | .otherId instId _ => instId

def tradeId : MappedTick rt → Json
  | .tick made => .str made.fields.tradeId
  | .otherId _ tradeId => tradeId

end MappedTick

/-- The code the parser calls that is not in the repository: the reader of `orjson` and the
constructor of `TradeTick`. -/
structure BitgetRuntime (rt : Runtime) where
  /-- `orjson.loads`. `none` is a `JSONDecodeError`. -/
  orjsonLoads : Str → Option Json
  /-- `TradeTick(inst_id=.., ts=.., price=.., size=.., side=.., trade_id=..)` -/
  newTick : Json → Int → Py.Float → Py.Float → Json → Json → Except PyError (MappedTick rt)
  newTick_str : ∀ instId ts price size side tradeId,
    newTick (.str instId) ts price size (.str side) (.str tradeId) =
      (TradeTick.new rt ⟨instId, ts, price, size, side, tradeId⟩).map .tick
  /-- A tick keeps the symbol and the id that it was given, and the symbol is a string. -/
  newTick_ok : ∀ {instId ts price size side tradeId tick},
    newTick instId ts price size side tradeId = .ok tick →
      instId = .str tick.instId ∧ tradeId = tick.tradeId

/-! ## The README -/

/-- `TradeTick(..)` of the README, which looks at every field but `trade_id`. -/
def readmeNewTick (instId : Json) (ts : Int) (price size : Py.Float) (side tradeId : Json) :
    Except PyError (MappedTick .readme) :=
  match instId with
  | .str instId =>
    -- what is no string is neither `"buy"` nor `"sell"`
    let side := match side with
      | .str side => side
      | _ => []
    match tradeId with
    | .str tradeId => (TradeTick.new .readme ⟨instId, ts, price, size, side, tradeId⟩).map .tick
    | tradeId => (readmePostInit ⟨instId, ts, price, size, side, []⟩).map fun _ =>
        .otherId instId tradeId
  | _ => .error (.typeError "inst_id must be a string".toList)

/-- The reader of `json` stands for the one of `orjson`, which refuses `NaN` and `Infinity` besides.
-/
def BitgetRuntime.readme : BitgetRuntime .readme where
  orjsonLoads := loads
  newTick := readmeNewTick
  newTick_str _ _ _ _ _ _ := rfl
  newTick_ok {instId ts price size side tradeId tick} h := by
    unfold readmeNewTick at h
    split at h
    · simp only at h
      split at h
      · obtain ⟨made, hmade, rfl⟩ := except_map_ok h
        have hfields := TradeTick.fields_of_new hmade
        simp only [MappedTick.instId, MappedTick.tradeId, hfields, and_self]
      · obtain ⟨-, -, rfl⟩ := except_map_ok h
        exact ⟨rfl, rfl⟩
    · cases h

/-! ## Messages -/

structure TradeMessage (rt : Runtime) where
  ticks : List (MappedTick rt)
  ticks_ne : ticks ≠ []

structure SystemMessage where
  event : Str
  msg : Str
  symbol : Option Str
  event_ne : event ≠ []
  symbol_ne : symbol ≠ some []

structure ErrorMessage where
  msg : Str
  msg_ne : msg ≠ []

/-- `ParsedMessage`. -/
inductive BitgetMessage (rt : Runtime) where
  | trade (message : TradeMessage rt)
  | system (message : SystemMessage)
  | error (message : ErrorMessage)

/-- `TradeMessage(ticks=..)`. -/
def TradeMessage.new {rt : Runtime} (ticks : List (MappedTick rt)) :
    Except PyError (TradeMessage rt) :=
  if h : ticks = [] then .error (.valueError "ticks ne peut pas être vide".toList)
  else .ok ⟨ticks, h⟩

/-- The message as the loop of `start_streaming` sees it. -/
def BitgetMessage.toStream {rt : Runtime} : BitgetMessage rt → StreamMessage (MappedTick rt)
  | .trade message => .trade message.ticks
  | .system message => .system message.event message.symbol
  | .error _ => .error

/-! ## Events -/

/-- The event types of `BitgetEventClassifier`. -/
inductive BitgetEvent where
  | trade
  | subscribe
  | error
  | unknown
  deriving DecidableEq

namespace BitgetParser

def argKey : Str := "arg".toList
def actionKey : Str := "action".toList
def channelKey : Str := "channel".toList
def dataKey : Str := "data".toList
def eventKey : Str := "event".toList
def errorKey : Str := "error".toList
def tradeText : Str := "trade".toList

/-- `data.get("arg", {})`. -/
def argField (data : Dict Str Json) : Json := (Dict.get? data argKey).getD (.obj [])

/-- `data.get(key) == text`. -/
def fieldIs (data : Dict Str Json) (key text : Str) : Bool :=
  match Dict.get? data key with
  | some (.str s) => s = text
  | _ => false

/-- The two checks of `classify` after the one for trades. -/
def classifyEvent (data : Dict Str Json) : BitgetEvent :=
  if fieldIs data eventKey "subscribe".toList then .subscribe
  else if fieldIs data eventKey "error".toList || (Dict.get? data errorKey).isSome then .error
  else .unknown

/-- `data.get("action") in ["snapshot", "update"]`. -/
def isPush (data : Dict Str Json) : Bool :=
  fieldIs data actionKey "snapshot".toList || fieldIs data actionKey "update".toList

/-- `classify`. `none` is the `AttributeError` of an `arg` without `get`, which a push with such an
`arg` meets. -/
def classify (data : Dict Str Json) : Option BitgetEvent :=
  if isPush data then
    match argField data with
    | .obj arg => if fieldIs arg channelKey tradeText then some .trade else some (classifyEvent data)
    | _ => none
  else some (classifyEvent data)

/-! ## Trades -/

variable {rt : Runtime} (bitget : BitgetRuntime rt)

/-- `trade.get(key, default)`. -/
def getField (trade : Dict Str Json) (key : Str) (default : Json) : Json :=
  (Dict.get? trade key).getD default

/-- `0.0`. -/
def zeroFloat : Json := .float ⟨"0.0".toList, by decide⟩

/-- One trade of the loop of `map`: its tick, unless an exception is logged. The id and the side go
to the constructor as they are. -/
def mapTrade (instId : Json) : Json → Option (MappedTick rt)
  | .obj trade => Except.toOption do
    let ts ← pyInt rt (getField trade "ts".toList (.int 0))
    let price ← pyFloat rt (getField trade "price".toList zeroFloat)
    let size ← pyFloat rt (getField trade "size".toList zeroFloat)
    bitget.newTick instId ts price size (getField trade "side".toList (.str []))
      (getField trade "tradeId".toList (.str []))
  -- an `AttributeError`
  | _ => none

/-- The loop of `map`. -/
def mapTrades (instId : Json) (trades : List Json) : List (MappedTick rt) :=
  trades.filterMap (mapTrade bitget instId)

/-- `BitgetTradeMapper.map`, of a frame whose `arg` is a dictionary. Its symbol is that of all
trades, and data that is no list has none. -/
def map (data arg : Dict Str Json) : List (MappedTick rt) :=
  let instId := getField arg BitgetSubscriptionProtocol.instIdKey (.str "UNKNOWN".toList)
  match (Dict.get? data dataKey).getD (.arr []) with
  | .arr trades => mapTrades bitget instId trades
  | _ => []

/-! ## Frames -/

/-- `__extract_ack_symbol`: the symbol of an acknowledgement, if it is a string with something in
it. -/
def extractAckSymbol (data : Dict Str Json) : Option Str :=
  match Dict.get? data argKey with
  | some (.obj arg) =>
    match Dict.get? arg BitgetSubscriptionProtocol.instIdKey with
    | some (.str instId) => if instId = [] then none else some instId
    | _ => none
  | _ => none

theorem extractAckSymbol_ne (data : Dict Str Json) : extractAckSymbol data ≠ some [] := by
  unfold extractAckSymbol
  split
  · split
    · split
      · simp
      · rename_i hne
        simpa using hne
    · simp
  · simp

/-- The message of an acknowledgement. -/
def ackMessage (rt : Runtime) (data : Dict Str Json) : SystemMessage where
  event := "subscribe".toList
  msg := "Abonnement confirmé: ".toList ++ match extractAckSymbol data with
    | some symbol => symbol
    | none => pyStr rt ((Dict.get? data argKey).getD .null)
  symbol := extractAckSymbol data
  event_ne := by decide
  symbol_ne := extractAckSymbol_ne data

def errorMessage (rt : Runtime) (data : Dict Str Json) : ErrorMessage where
  msg := "Erreur Bitget: ".toList ++ rt.reprOf (.obj data)
  msg_ne := by simp

def pongMessage : SystemMessage := ⟨"pong".toList, "Pong reçu.".toList, none, by decide, nofun⟩

/-- `parse`: the message, or what is raised on. A text that is no JSON and a frame of no known kind
give `None`. -/
def parse (message : Str) : Except PyError (Option (BitgetMessage rt)) :=
  if message = [] then .error (.valueError "message must be a non-empty string".toList)
  else if message = "pong".toList then .ok (some (.system pongMessage))
  else
    match bitget.orjsonLoads message with
    | none => .ok none
    | some (.obj data) =>
      match classify data with
      | none => .ok none
      | some .trade =>
        match argField data with
        | .obj arg => (TradeMessage.new (map bitget data arg)).map fun message => some (.trade message)
        | _ => .ok none
      | some .subscribe => .ok (some (.system (ackMessage rt data)))
      | some .error => .ok (some (.error (errorMessage rt data)))
      | some .unknown => .ok none
    | some x =>
      .error (.typeError ("Expected JSON object (dict), got ".toList ++ typeName x))

/-- `parse` for the loop of `start_streaming`. -/
def parseStream (message : Str) : Except PyError (Option (StreamMessage (MappedTick rt))) :=
  (parse bitget message).map fun parsed => parsed.map BitgetMessage.toStream

/-! ## The ticks of a frame -/

/-- The ticks of a message, and none of one that has no trades or that `parse` raises on. -/
def frameTicks (message : Str) : List (MappedTick rt) :=
  match parseStream bitget message with
  | .ok (some (.trade ticks)) => ticks
  | _ => []

variable {bitget}

theorem toOption_bind {ε α β : Type} (x : Except ε α) (f : α → Except ε β) :
    (x >>= f).toOption = x.toOption.bind fun a => (f a).toOption := by
  cases x <;> rfl

theorem toOption_eq_some {ε α : Type} {x : Except ε α} {a : α} : x.toOption = some a ↔ x = .ok a := by
  cases x <;> simp [Except.toOption]

theorem mapTrade_instId {instId trade : Json} {tick : MappedTick rt}
    (h : mapTrade bitget instId trade = some tick) : instId = .str tick.instId := by
  unfold mapTrade at h
  split at h
  · simp only [toOption_bind, Option.bind_eq_some_iff] at h
    obtain ⟨ts, -, price, -, size, -, hnew⟩ := h
    exact (bitget.newTick_ok (toOption_eq_some.mp hnew)).1
  · cases h

/-- **The ticks of a frame have one symbol.** -/
theorem mapTrades_sameSymbol {instId : Json} {trades : List Json} {tick tick' : MappedTick rt}
    (h : tick ∈ mapTrades bitget instId trades) (h' : tick' ∈ mapTrades bitget instId trades) :
    tick.instId = tick'.instId := by
  obtain ⟨trade, -, htrade⟩ := List.mem_filterMap.mp h
  obtain ⟨trade', -, htrade'⟩ := List.mem_filterMap.mp h'
  have he := (mapTrade_instId htrade).symm.trans (mapTrade_instId htrade')
  exact Json.str.inj he

theorem parseStream_sameSymbol {message : Str} {ticks : List (MappedTick rt)}
    (h : parseStream bitget message = .ok (some (.trade ticks))) {tick tick' : MappedTick rt}
    (htick : tick ∈ ticks) (htick' : tick' ∈ ticks) : tick.instId = tick'.instId := by
  have hmap : ∃ data arg, ticks = map bitget data arg := by
    unfold parseStream parse at h
    split at h
    · cases h
    split at h
    · cases h
    split at h
    · cases h
    · rename_i data _
      split at h
      · cases h
      · split at h
        · rename_i arg _
          refine ⟨data, arg, ?_⟩
          unfold TradeMessage.new at h
          split at h
          · cases h
          · cases h
            rfl
        · cases h
      · cases h
      · cases h
      · cases h
    · cases h
  obtain ⟨data, arg, rfl⟩ := hmap
  unfold map at htick htick'
  split at htick
  · rename_i trades hdata
    rw [hdata] at htick'
    exact mapTrades_sameSymbol htick htick'
  · cases htick

/-! ## A frame with a list for an id -/

/-- A trade as `readmeTick` has it, with any id. -/
def bitgetTrade (tradeId : Json) : Json :=
  let tick := (readmeTick "BTC".toList []).fields
  .obj [("ts".toList, .int tick.ts), ("price".toList, .float tick.price),
    ("size".toList, .float tick.size), ("side".toList, .str tick.side), ("tradeId".toList, tradeId)]

/-- Three trades, of which the second has a list for its id. -/
def listIdFrame : Dict Str Json :=
  [(actionKey, .str "update".toList),
    (argKey, .obj [(channelKey, .str tradeText),
      (BitgetSubscriptionProtocol.instIdKey, .str "BTC".toList)]),
    (dataKey, .arr [bitgetTrade (.str ['1']), bitgetTrade (.arr [.str ['2']]),
      bitgetTrade (.str ['3'])])]

theorem wf_bitgetTrade {tradeId : Json} (h : tradeId.Wf) : (bitgetTrade tradeId).Wf := by
  have hkeys : ["ts".toList, "price".toList, "size".toList, "side".toList, "tradeId".toList].Nodup := by
    decide
  exact ⟨hkeys, trivial, trivial, trivial, trivial, h, trivial⟩

theorem wf_listIdFrame : (Json.obj listIdFrame).Wf := by
  have harg : ["channel".toList, "instId".toList].Nodup := by decide
  have hkeys : [actionKey, argKey, dataKey].Nodup := by decide
  exact ⟨hkeys, trivial, ⟨harg, trivial, trivial, trivial⟩, ⟨wf_bitgetTrade trivial,
    wf_bitgetTrade ⟨trivial, trivial⟩, wf_bitgetTrade trivial, trivial⟩, trivial⟩

theorem frameTicks_listIdFrame : frameTicks .readme (dumps (.obj listIdFrame)) =
    [.tick (readmeTick "BTC".toList ['1']), .otherId "BTC".toList (.arr [.str ['2']]),
      .tick (readmeTick "BTC".toList ['3'])] := by
  have hread : BitgetRuntime.readme.orjsonLoads (dumps (.obj listIdFrame)) = some (.obj listIdFrame) :=
    loads_dumps wf_listIdFrame
  have hne : dumps (.obj listIdFrame) ≠ [] := by decide
  have hpong : dumps (.obj listIdFrame) ≠ "pong".toList := by decide
  simp only [frameTicks, parseStream, parse, hread, if_neg hne, if_neg hpong]
  rfl

end BitgetParser

end Leviathan
