import Leviathan.Journal.ReadProgress

/-!
# `JournalTickStream`

A stream presents the journal as a queue of ticks. Its tail-follow loop polls a reader and puts the
ticks of the subscribed symbols into the queue; a consumer takes a tick and reports it as processed,
which saves the cursor.

* `tailFollowPoll`, `tailFollowRecord`: the loop, one poll and one record at a time. The records of
  a poll that the loop has not reached are `records`; while an observer is awaited, other tasks run.
* `waitForNextTick`, `markTickAsProcessed`: the consumer.
* `setCursor`: the reader, the queue and the cursor go to another place.
* `forceTailResyncIfUnread`: the reader goes to the next record, if it is behind.

A stream works on the directory through its reader (`Tail`). Log lines, the fields that only they
use, and the callbacks that are called and not awaited are not modelled.
-/

namespace Leviathan

open Py

/-! ## The queue -/

/-- `asyncio.Queue`, without a bound: its items, and the counter of unfinished tasks that `join`
waits for. -/
structure AsyncQueue (α : Type) where
  items : List α
  unfinishedTasks : Nat

namespace AsyncQueue

variable {α : Type}

def empty : AsyncQueue α := ⟨[], 0⟩

def put (queue : AsyncQueue α) (item : α) : AsyncQueue α :=
  ⟨queue.items ++ [item], queue.unfinishedTasks + 1⟩

/-- `task_done`; `none` is its `ValueError`, when it is called more often than there were items. -/
def taskDone (queue : AsyncQueue α) : Option (AsyncQueue α) :=
  if queue.unfinishedTasks = 0 then none
  else some { queue with unfinishedTasks := queue.unfinishedTasks - 1 }

/-- `task_done` where the `ValueError` is caught. -/
def taskDoneIfAny (queue : AsyncQueue α) : AsyncQueue α := queue.taskDone.getD queue

/-- `__drain_pending_tick_queue`: every item is taken out, and a task is released for each. -/
def drain (queue : AsyncQueue α) : AsyncQueue α :=
  queue.items.foldl (fun queue _ => queue.taskDoneIfAny) { queue with items := [] }

end AsyncQueue

/-! ## The stream -/

/-- What `mark_tick_as_processed` raises: its own `RuntimeError` without a pending tick, or the
`ValueError` of `task_done`. -/
inductive MarkError where
  | runtimeError (text : Str)
  | valueError (text : Str)
  deriving DecidableEq

/-- `_TAIL_FOLLOW_FATAL_THRESHOLD`: after so many exceptions in a row the loop gives up. -/
def tailFollowFatalThreshold : Nat := 10

structure JournalTickStream (cfg : Config) where
  /-- the reader, the journal object and the directory -/
  tail : Tail cfg
  symbols : List Str
  stopped : Bool
  streaming : Bool
  queue : AsyncQueue (Rec cfg.toRuntime)
  /-- `cursor.last_processed_seq` -/
  cursor : Nat
  nextSeq : Nat
  pendingSeq : Option Nat
  pendingInvalidatedByCursor : Bool
  /-- `consecutive_errors` of the loop -/
  consecutiveErrors : Nat
  /-- the rest of `records` in the loop -/
  records : List (Rec cfg.toRuntime)

namespace JournalTickStream

variable {cfg : Config}

/-- `JournalTickStream(journal, symbols=.., incomplete_record_max_wait_seconds=..)`. It goes on
after the cursor of the directory. -/
def new (maxWaitSeconds : Rat) (journal : TickJournal cfg) (disk : Disk) (symbols : List Str) :
    JournalTickStream cfg where
  tail := ⟨.new maxWaitSeconds, journal, disk⟩
  symbols := symbols
  stopped := false
  streaming := false
  queue := .empty
  cursor := TickJournal.loadCursor disk
  nextSeq := TickJournal.loadCursor disk + 1
  pendingSeq := none
  pendingInvalidatedByCursor := false
  consecutiveErrors := 0
  records := []

/-- `__is_tick_for_active_subscription`, for the symbols `symbols`; without any, every tick passes.
-/
def isTickForActiveSubscription (symbols : List Str) (tick : TradeTick cfg.toRuntime) : Bool :=
  symbols = [] || tick.fields.instId ∈ symbols

/-- `self.__cursor = TickJournalCursor(last_processed_seq=..)` and `save_cursor`, which always come
together. -/
def saveCursor (stream : JournalTickStream cfg) (seq : Nat) : JournalTickStream cfg :=
  { stream with
    cursor := seq
    tail := { stream.tail with disk := TickJournal.saveCursor stream.tail.disk seq } }

/-- `__persist_cursor_through`: the cursor is moved forward only. -/
def persistCursorThrough (stream : JournalTickStream cfg) (seq : Nat) : JournalTickStream cfg :=
  if seq > stream.cursor then stream.saveCursor seq else stream

/-! ## The tail-follow loop -/

/-- `start_streaming`, up to the loop. A second call while the loop runs does nothing. -/
def startStreaming (stream : JournalTickStream cfg) : JournalTickStream cfg :=
  if stream.streaming then stream
  else { stream with streaming := true, stopped := false, consecutiveErrors := 0, records := [] }

/-- The loop ends: it returns, it raises or it is cancelled, and the `finally` clears the flags. -/
def endStreaming (stream : JournalTickStream cfg) : JournalTickStream cfg :=
  { stream with streaming := false, records := [] }

def stop (stream : JournalTickStream cfg) : JournalTickStream cfg := { stream with stopped := true }

/-- `except Exception` of the loop: the error is counted, and the tenth in a row stops the stream
for good. -/
def tailFollowError (stream : JournalTickStream cfg) : JournalTickStream cfg :=
  let stream := { stream with
    consecutiveErrors := stream.consecutiveErrors + 1
    records := [] }
  if stream.consecutiveErrors ≥ tailFollowFatalThreshold then stream.stop.endStreaming else stream

/-- The head of the `while`, where the loop runs and has no records left: one poll from `next_seq`.
-/
def tailFollowPoll (stream : JournalTickStream cfg) (now : Rat) : JournalTickStream cfg :=
  if stream.streaming = false ∨ stream.records ≠ [] then stream
  else if stream.stopped then stream.endStreaming
  else match stream.tail.poll now stream.nextSeq with
    | (tail, .error _) => { stream with tail }.tailFollowError
    | (tail, .ok []) => { stream with tail }
    | (tail, .ok (record :: records)) =>
      { stream with tail, consecutiveErrors := 0, records := record :: records }

/-- The next record of the `for`. It is put into the queue before the observers are told; `raised`
tells that one of them raised. -/
def tailFollowRecord (stream : JournalTickStream cfg) (raised : Bool) : JournalTickStream cfg :=
  match stream.records with
  | [] => stream
  | (seq, tick) :: records =>
    let stream := { stream with records, nextSeq := seq + 1 }
    if isTickForActiveSubscription stream.symbols tick = false then stream.persistCursorThrough seq
    else
      let stream := { stream with queue := stream.queue.put (seq, tick) }
      if raised then stream.tailFollowError else stream

/-! ## The consumer -/

/-- `wait_for_next_tick`, where it can return: the stream after it, and the tick, whose number is
now pending. -/
def waitForNextTick (stream : JournalTickStream cfg) :
    Option (JournalTickStream cfg × TradeTick cfg.toRuntime) :=
  match stream.queue.items with
  | [] => none
  | (seq, tick) :: items =>
    some ({ stream with
      queue := { stream.queue with items }
      pendingSeq := some seq
      pendingInvalidatedByCursor := false }, tick)

def markTickAsProcessed (stream : JournalTickStream cfg) :
    JournalTickStream cfg × Except MarkError Unit :=
  match stream.pendingSeq with
  | none =>
    if stream.pendingInvalidatedByCursor then
      ({ stream with pendingInvalidatedByCursor := false }, .ok ())
    else (stream, .error (.runtimeError
      ("mark_tick_as_processed called without a pending tick from wait_for_next_tick()").toList))
  | some seq =>
    let stream := stream.persistCursorThrough seq
    match stream.queue.taskDone with
    | none => (stream, .error (.valueError "task_done() called too many times".toList))
    | some queue =>
      ({ stream with queue, pendingSeq := none, pendingInvalidatedByCursor := false }, .ok ())

/-! ## Moves -/

/-- `set_cursor(TickJournalCursor(last_processed_seq=..))`: the pending tick is dropped, the queue
emptied, and the reader is reset. -/
def setCursor (stream : JournalTickStream cfg) (lastProcessedSeq : Nat) :
    JournalTickStream cfg × Except PyError Unit :=
  let stream := { stream with cursor := lastProcessedSeq, nextSeq := lastProcessedSeq + 1 }
  let stream :=
    if stream.pendingSeq.isSome then
      { stream with
        pendingSeq := none
        pendingInvalidatedByCursor := true
        queue := stream.queue.taskDoneIfAny }
    else stream
  let stream := { stream with queue := stream.queue.drain }
  match stream.tail.resetFromSeq stream.nextSeq with
  | (tail, .error e) => ({ stream with tail }, .error e)
  | (tail, .ok ()) => ({ stream with tail }.saveCursor lastProcessedSeq, .ok ())

/-- `reload_seq_index_from_disk()` and `force_rebind_from_seq(self.__next_seq)`, the two calls of a
forced resync. -/
def rebind (stream : JournalTickStream cfg) : JournalTickStream cfg × Except PyError Unit :=
  let journal := stream.tail.journal.reloadSeqIndexFromDisk stream.tail.disk
  let (tail, result) := { stream.tail with journal }.forceRebindFromSeq stream.nextSeq
  ({ stream with tail }, result)

/-- `force_tail_resync_if_unread`, at the snapshot it has read: nothing is done where the reader is
caught up by bytes or by numbers. -/
def resyncIfUnread (stream : JournalTickStream cfg) (snapshot : ReadProgress) :
    JournalTickStream cfg × Except PyError Bool :=
  if isEofCaughtUpProgressSnapshot snapshot then (stream, .ok false)
  else if isSeqCaughtUpTrailingByteLagSnapshot snapshot then (stream, .ok false)
  else
    let (stream, result) := stream.rebind
    (stream, result.map fun _ => true)

/-- `force_tail_resync_if_unread`, which reads the snapshot first. The result tells whether the
reader was rebound. -/
def forceTailResyncIfUnread (stream : JournalTickStream cfg) :
    JournalTickStream cfg × Except PyError Bool :=
  let (tail, snapshot) := stream.tail.getReadProgressSnapshot
  { stream with tail }.resyncIfUnread snapshot

/-- `subscribe_symbol`: the symbol is checked, and added once. -/
def subscribeSymbol (stream : JournalTickStream cfg) (symbol : Str) :
    JournalTickStream cfg × Except PyError Unit :=
  if symbol = [] then (stream, .error (.valueError "symbol cannot be empty".toList))
  else if symbol ∈ stream.symbols then (stream, .ok ())
  else ({ stream with symbols := stream.symbols ++ [symbol] }, .ok ())

/-- `unsubscribe_symbol`: the last symbol may be removed, and then every tick passes. -/
def unsubscribeSymbol (stream : JournalTickStream cfg) (symbol : Str) :
    JournalTickStream cfg × Except PyError Unit :=
  if symbol = [] then (stream, .error (.valueError "symbol cannot be empty".toList))
  else ({ stream with symbols := stream.symbols.erase symbol }, .ok ())

/-- `_validate_symbols_list`: an empty list is refused, and so is one with an invalid symbol in it.
-/
def validateSymbolsList (symbols : List Str) : Except PyError Unit :=
  if symbols = [] then .error (.valueError "symbols list cannot be empty".toList)
  else if [] ∈ symbols then .error (.valueError "symbols must be non-empty strings".toList)
  else .ok ()

/-- `subscribe_symbols`: all symbols are checked before the first is added. -/
def subscribeSymbols (stream : JournalTickStream cfg) (symbols : List Str) :
    JournalTickStream cfg × Except PyError Unit :=
  match validateSymbolsList symbols with
  | .error e => (stream, .error e)
  | .ok () =>
    let subscribe (active : List Str) (symbol : Str) : List Str :=
      if symbol ∈ active then active else active ++ [symbol]
    ({ stream with symbols := symbols.foldl subscribe stream.symbols }, .ok ())

/-- `unsubscribe_symbols`: all symbols are checked before the first is removed. -/
def unsubscribeSymbols (stream : JournalTickStream cfg) (symbols : List Str) :
    JournalTickStream cfg × Except PyError Unit :=
  match validateSymbolsList symbols with
  | .error e => (stream, .error e)
  | .ok () => ({ stream with symbols := symbols.foldl List.erase stream.symbols }, .ok ())

end JournalTickStream

end Leviathan
