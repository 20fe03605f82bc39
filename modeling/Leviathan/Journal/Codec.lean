import Leviathan.Journal.Runtime

/-!
# Records and their lines

A record is one JSON object on a line of its own, with the sequence number and the fields of the
tick. `encodeRecord` is the line that an append writes; `parseJournalRecordLine` reads a line back.
-/

namespace Leviathan

open Py

def seqKey : Str := ['s', 'e', 'q']
def tickKey : Str := ['t', 'i', 'c', 'k']
def instIdKey : Str := ['i', 'n', 's', 't', '_', 'i', 'd']
def tsKey : Str := ['t', 's']
def priceKey : Str := ['p', 'r', 'i', 'c', 'e']
def sizeKey : Str := ['s', 'i', 'z', 'e']
def sideKey : Str := ['s', 'i', 'd', 'e']
def tradeIdKey : Str := ['t', 'r', 'a', 'd', 'e', '_', 'i', 'd']

/-- `_TICK_REQUIRED_FIELDS`, in the order in which `tick_from_dict` looks for them and so in the
order in which it names a missing one. -/
def tickRequiredFields : List Str := [instIdKey, tsKey, priceKey, sizeKey, sideKey, tradeIdKey]

/-- `tick_to_dict`: the fields of a tick in the order in which the line has them. -/
def tickToDict (tick : TickFields) : Json :=
  .obj [(instIdKey, .str tick.instId), (tsKey, .int tick.ts), (priceKey, .float tick.price),
    (sizeKey, .float tick.size), (sideKey, .str tick.side), (tradeIdKey, .str tick.tradeId)]

variable (rt : Runtime)

/-- `data[field]`, or the `KeyError` of a field that is missing, whose text is the `repr` of the
field. -/
def getItem (data : Dict Str Json) (field : Str) : Except PyError Json :=
  match Dict.get? data field with
  | some v => .ok v
  | none => .error (.keyError (['\''] ++ field ++ ['\'']))

/-- `tick_from_dict`. It looks for all required fields first, then converts each with `int`, `float`
or `str`, and the constructor of `TradeTick` checks the result. -/
def tickFromDict : Json → Except PyError (TradeTick rt)
  | .obj data =>
    match tickRequiredFields.find? fun field => (Dict.get? data field).isNone with
    | some field => .error (.valueError
        ("tick record missing required field '".toList ++ field ++ ['\'']))
    | none => do
      let instId := pyStr rt (← getItem data instIdKey)
      let ts ← pyInt rt (← getItem data tsKey)
      let price ← pyFloat rt (← getItem data priceKey)
      let size ← pyFloat rt (← getItem data sizeKey)
      let side := pyStr rt (← getItem data sideKey)
      let tradeId := pyStr rt (← getItem data tradeIdKey)
      TradeTick.new rt ⟨instId, ts, price, size, side, tradeId⟩
  | _ => .error (.typeError "tick record must be a dictionary".toList)

/-- A record: a sequence number and its tick, as `poll` and `tail_from` return it. -/
abbrev Rec := Nat × TradeTick rt

/-- `{"seq": seq, "tick": tick_to_dict(tick)}`, the object that `append` encodes. -/
def recordDict (seq : Int) (tick : TickFields) : Json :=
  .obj [(seqKey, .int seq), (tickKey, tickToDict tick)]

/-- The line of a record, as `append` writes it: compact JSON on one line, with its `\n`. -/
def encodeRecord (seq : Int) (tick : TickFields) : Str := dumps (recordDict seq tick) ++ ['\n']

/-- The bytes of a record's line in the file, which is opened with `encoding="utf-8"`. -/
def recordBytes (r : Rec rt) : Bytes := encodeUtf8 (encodeRecord r.1 r.2.fields)

/-- What `parse_journal_record_line` returns of a line that is not blank: a record, or a
`JournalRecordParseError`, which is a value here and no exception. -/
inductive JournalRecordParseResult where
  | record (seq : Int) (tick : TradeTick rt)
  /-- `JournalRecordParseError` -/
  | invalid (reason line : Str)

/-- The `except (KeyError, TypeError, ValueError)` of the parser: the reason that it keeps of an
exception it catches. An `OverflowError` goes through. -/
def PyError.caught? : PyError → Option Str
  | .keyError text | .typeError text | .valueError text | .unicodeDecodeError text => some text
  | .overflowError _ => none

/-- `(int(record["seq"]), tick_from_dict(record["tick"]))`: the two conversions under the `try` of
the parser, in their order. -/
def recordFields (record : Dict Str Json) : Except PyError (Int × TradeTick rt) := do
  let seq ← pyInt rt (← getItem record seqKey)
  let tick ← tickFromDict rt (← getItem record tickKey)
  return (seq, tick)

/-- `parse_journal_record_line`, of a line with or without its end. `none` is a blank line; an error
is what the `except` clauses of the parser do not take. -/
def parseJournalRecordLine (line : Str) :
    Except PyError (Option (JournalRecordParseResult rt)) :=
  let stripped := strip line
  if stripped = [] then .ok none
  else match loads stripped with
    | none => .ok (some (.invalid (rt.decodeErrorText stripped) stripped))
    | some (.obj record) =>
      match recordFields rt record with
      | .ok (seq, tick) => .ok (some (.record seq tick))
      | .error e =>
        match e.caught? with
        | some reason => .ok (some (.invalid reason stripped))
        | none => .error e
    | some _ => .ok (some (.invalid "record is not a JSON object".toList stripped))

end Leviathan
