import Leviathan.Journal.Stream

/-!
# `AsyncQueueDispatcher`

Ticks are dispatched through a queue with a bound. Where the queue is full, the overflow policy
decides: `DROP_OLDEST` discards the head of the queue, `DROP_NEWEST` the tick that arrives.

The code is generic in the ticks. Log lines, and the fields that only log lines use, are not
modelled.
-/

namespace Leviathan

open Py

/-- `OverflowPolicy`: which tick a full queue gives up. -/
inductive OverflowPolicy where
  | dropOldest
  | dropNewest
  deriving DecidableEq

namespace AsyncQueue

variable {α : Type}

/-- `full` of a queue with a bound. -/
def full (queue : AsyncQueue α) (maxsize : Nat) : Bool := queue.items.length ≥ maxsize

/-- `put_nowait`; `none` is its `QueueFull`. -/
def putNowait (queue : AsyncQueue α) (maxsize : Nat) (item : α) : Option (AsyncQueue α) :=
  if queue.full maxsize then none else some (queue.put item)

/-- `get_nowait`; `none` is its `QueueEmpty`. -/
def getNowait (queue : AsyncQueue α) : Option (AsyncQueue α × α) :=
  match queue.items with
  | [] => none
  | item :: items => some ({ queue with items }, item)

end AsyncQueue

structure AsyncQueueDispatcher (Tick : Type) where
  maxsize : Nat
  maxsize_pos : 0 < maxsize
  overflowPolicy : OverflowPolicy
  queue : AsyncQueue Tick
  droppedTickCount : Nat
  saturationSinceMono : Option Rat

namespace AsyncQueueDispatcher

variable {Tick : Type}

def new (maxsize : Nat) (maxsize_pos : 0 < maxsize) (overflowPolicy : OverflowPolicy) :
    AsyncQueueDispatcher Tick :=
  ⟨maxsize, maxsize_pos, overflowPolicy, .empty, 0, none⟩

def isFull (dispatcher : AsyncQueueDispatcher Tick) : Bool :=
  dispatcher.queue.full dispatcher.maxsize

def qsize (dispatcher : AsyncQueueDispatcher Tick) : Nat := dispatcher.queue.items.length

/-- `__replace_oldest_with`. The `ValueError` of `task_done` is not caught, and comes after the head
has left the queue. -/
def replaceOldestWith (dispatcher : AsyncQueueDispatcher Tick) (tick : Tick) :
    AsyncQueueDispatcher Tick × Except MarkError Unit :=
  let put (dispatcher : AsyncQueueDispatcher Tick) :
      AsyncQueueDispatcher Tick × Except MarkError Unit :=
    match dispatcher.queue.putNowait dispatcher.maxsize tick with
    | none => (dispatcher, .ok ())
    | some queue => ({ dispatcher with queue }, .ok ())
  match dispatcher.queue.getNowait with
  | none => put dispatcher
  | some (queue, _) =>
    match queue.taskDone with
    | none =>
      ({ dispatcher with queue },
        .error (.valueError "task_done() called too many times".toList))
    | some queue => put { dispatcher with queue }

/-- `__handle_overflow`, at the time `now`: the saturation begins or goes on, and one tick is
dropped and counted. -/
def handleOverflow (dispatcher : AsyncQueueDispatcher Tick) (tick : Tick) (now : Rat) :
    AsyncQueueDispatcher Tick × Except MarkError Unit :=
  let dispatcher := { dispatcher with
    saturationSinceMono := dispatcher.saturationSinceMono.or (some now)
    droppedTickCount := dispatcher.droppedTickCount + 1 }
  match dispatcher.overflowPolicy with
  | .dropOldest => dispatcher.replaceOldestWith tick
  | .dropNewest => (dispatcher, .ok ())

def dispatch (dispatcher : AsyncQueueDispatcher Tick) (tick : Tick) (now : Rat) :
    AsyncQueueDispatcher Tick × Except MarkError Unit :=
  match dispatcher.queue.putNowait dispatcher.maxsize tick with
  | none => dispatcher.handleOverflow tick now
  | some queue => ({ dispatcher with queue, saturationSinceMono := none }, .ok ())

/-- `wait_for_next_tick`, where it can return: the dispatcher after it, and the tick. -/
def waitForNextTick (dispatcher : AsyncQueueDispatcher Tick) :
    Option (AsyncQueueDispatcher Tick × Tick) :=
  dispatcher.queue.getNowait.map fun (queue, tick) => ({ dispatcher with queue }, tick)

def markTickAsProcessed (dispatcher : AsyncQueueDispatcher Tick) :
    AsyncQueueDispatcher Tick × Except MarkError Unit :=
  match dispatcher.queue.taskDone with
  | none => (dispatcher, .error (.valueError "task_done() called too many times".toList))
  | some queue => ({ dispatcher with queue }, .ok ())

/-! ## What the operations do -/

variable (dispatcher : AsyncQueueDispatcher Tick) (tick : Tick) (now : Rat)

theorem isFull_iff : dispatcher.isFull = true ↔ dispatcher.maxsize ≤ dispatcher.qsize := by
  simp only [isFull, AsyncQueue.full, decide_eq_true_eq, ge_iff_le, qsize]

/-- Where there is room, the tick is the last of the queue, and a saturation is over. -/
theorem dispatch_room (h : dispatcher.isFull = false) :
    dispatcher.dispatch tick now =
      ({ dispatcher with queue := dispatcher.queue.put tick, saturationSinceMono := none },
        .ok ()) := by
  have hfull : dispatcher.queue.full dispatcher.maxsize = false := h
  simp only [dispatch, AsyncQueue.putNowait, hfull, Bool.false_eq_true, ↓reduceIte]

/-- A full queue rejects the tick and counts it as dropped. -/
theorem dispatch_newest (h : dispatcher.isFull = true)
    (hpolicy : dispatcher.overflowPolicy = .dropNewest) :
    dispatcher.dispatch tick now =
      ({ dispatcher with
          saturationSinceMono := dispatcher.saturationSinceMono.or (some now)
          droppedTickCount := dispatcher.droppedTickCount + 1 }, .ok ()) := by
  have hfull : dispatcher.queue.full dispatcher.maxsize = true := h
  simp only [dispatch, AsyncQueue.putNowait, hfull, ↓reduceIte, handleOverflow, hpolicy]

/-- A full queue gives up its head for the tick, if the head is still to be done. -/
theorem dispatch_oldest (h : dispatcher.isFull = true)
    (hpolicy : dispatcher.overflowPolicy = .dropOldest)
    (hbound : dispatcher.qsize ≤ dispatcher.maxsize)
    (htasks : 0 < dispatcher.queue.unfinishedTasks) :
    dispatcher.dispatch tick now =
      ({ dispatcher with
          saturationSinceMono := dispatcher.saturationSinceMono.or (some now)
          droppedTickCount := dispatcher.droppedTickCount + 1
          queue := ⟨dispatcher.queue.items.tail ++ [tick], dispatcher.queue.unfinishedTasks⟩ },
        .ok ()) := by
  have hfull := (isFull_iff dispatcher).mp h
  have hpos := dispatcher.maxsize_pos
  unfold qsize at hfull hbound
  cases hitems : dispatcher.queue.items with
  | nil =>
    rw [hitems, List.length_nil] at hfull
    omega
  | cons item items =>
    rw [hitems, List.length_cons] at hfull hbound
    have hroom : ¬dispatcher.maxsize ≤ items.length := by omega
    simp only [dispatch, AsyncQueue.putNowait, AsyncQueue.full, hitems, List.length_cons,
      decide_eq_true_eq, ge_iff_le, hfull, ↓reduceIte, handleOverflow, hpolicy, replaceOldestWith,
      AsyncQueue.getNowait, AsyncQueue.taskDone, Nat.ne_of_gt htasks, hroom, AsyncQueue.put,
      Nat.sub_add_cancel htasks, List.tail_cons]

theorem waitForNextTick_eq_some {dispatcher : AsyncQueueDispatcher Tick} {tick : Tick}
    {items : List Tick} (h : dispatcher.queue.items = tick :: items) :
    dispatcher.waitForNextTick =
      some ({ dispatcher with queue := ⟨items, dispatcher.queue.unfinishedTasks⟩ }, tick) := by
  simp only [waitForNextTick, AsyncQueue.getNowait, h, Option.map_some]

end AsyncQueueDispatcher

end Leviathan
