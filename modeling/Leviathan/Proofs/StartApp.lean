import Leviathan.Exchanges.BitgetParser
import Leviathan.Proofs.BatchIsolation
import Leviathan.Proofs.Dispatcher

/-!
# `start_app`

The application without a journal: the stream dispatches to an `AsyncQueueDispatcher`, a consumer
task counts and marks its ticks and stops the stream after `max_messages` of them, and the call
itself waits for the stream, stops it and cancels the consumer.

* `StartApp.step`: a frame, or a step of one of the two tasks or of the call.
* `StartApp.Served`: what becomes of the ticks of the frames.
* `app_serves`: **this holds in every state of every run**, whatever is in the frames and whatever
  `stop()` raises.
-/

namespace Leviathan

open Py BitgetParser

/-- `_DEFAULT_MAXSIZE`. -/
def defaultMaxsize : Nat := 20000

/-- A stream that dispatches to an `AsyncQueueDispatcher`, the `n`-th tick at the time `clock n`. It
has no observers. -/
def queueParts {Tick : Type} (parse : Str → Except PyError (Option (StreamMessage Tick)))
    (clock : Nat → Rat) : StreamParts (Routed Tick) Tick Empty where
  parse := parse
  dispatch env tick :=
    let now := clock env.dispatched.length
    (env.step (.dispatch tick now),
      match (env.dispatcher.dispatch tick now).2 with
      | .ok () => none
      | .error _ => some .exception)
  observers := []
  onPriceUpdate env _ _ := (env, none)
  recordConfirmation env _ := (env, none)

/-- Where the consumer task waits. -/
inductive ConsumerStage where
  /-- not started -/
  | created
  /-- in `wait_for_next_tick()` -/
  | waiting
  /-- in `streamer.stop()`, with a tick that is not marked -/
  | stopping
  | finished (raised : Option Raised)
  deriving DecidableEq

/-- Where `start_app` waits. -/
inductive MainStage where
  /-- for `connect_task` -/
  | connecting
  /-- in `streamer.stop()`; `pending` is what `connect_task` has raised -/
  | stopping (pending : Option Raised)
  | returned (messagesReceived : Nat)
  | raised (raised : Raised)

structure StartApp (rt : Runtime) where
  /-- the messages of the stream -/
  frames : List Str
  routed : Routed (MappedTick rt)
  /-- `is_stopped()` -/
  stopped : Bool
  main : MainStage
  consumer : ConsumerStage
  /-- `consumer_task.cancel()` is called -/
  cancelled : Bool
  messagesReceived : Nat
  /-- what has left the loop of `start_streaming` -/
  loopRaised : Option Raised
  /-- a call of `mark_tick_as_processed()` has raised -/
  markRaised : Bool

inductive StartAppOp where
  | frame (message : Str)
  /-- the manager has no retry left, and sets its `__stop_event` -/
  | retriesExceeded
  /-- the consumer goes on: `raised` is what `stop()` raises in it -/
  | consumer (raised : Option Raised)
  | connectEnds (raised : Option Raised)
  | stopEnds (raised : Option Raised)

namespace StartApp

variable {rt : Runtime}

/-- `AsyncQueueDispatcher()`, and the two tasks. -/
def start : StartApp rt where
  frames := []
  routed := .start defaultMaxsize (by decide) .dropOldest
  stopped := false
  main := .connecting
  consumer := .created
  cancelled := false
  messagesReceived := 0
  loopRaised := none
  markRaised := false

/-! ## The consumer -/

/-- `while not self.is_stopped()`, in `__aiter__`. -/
def consumerLoopHead (s : StartApp rt) : StartApp rt :=
  { s with consumer := if s.stopped then .finished none else .waiting }

/-- The `finally` of the consumer. -/
def finishTick (s : StartApp rt) (raised : Option Raised) : StartApp rt :=
  let after := { s with routed := s.routed.step .mark }
  match s.routed.dispatcher.markTickAsProcessed.2 with
  | .error _ => { after with consumer := .finished (some .exception), markRaised := true }
  | .ok () =>
    match raised with
    | some raised => { after with consumer := .finished (some raised) }
    | none => after.consumerLoopHead

/-- `wait_for_next_tick()` returns, if there is a tick, and the body of the loop runs. -/
def takeTick (maxMessages : Nat) (s : StartApp rt) : StartApp rt :=
  if s.routed.queued = [] then s
  else
    let s := { s with
      routed := s.routed.step .wait
      messagesReceived := s.messagesReceived + 1 }
    if 0 < maxMessages ∧ maxMessages ≤ s.messagesReceived then
      { s with stopped := true, consumer := .stopping }
    else s.finishTick none

def consumerRuns (maxMessages : Nat) (s : StartApp rt) (raised : Option Raised) : StartApp rt :=
  match s.consumer with
  | .created =>
    if s.cancelled then { s with consumer := .finished (some .cancelledError) }
    else s.consumerLoopHead
  | .waiting =>
    if s.cancelled then { s with consumer := .finished (some .cancelledError) }
    else s.takeTick maxMessages
  | .stopping => s.finishTick raised
  | .finished _ => s

/-! ## Steps -/

variable (bitget : BitgetRuntime rt) (clock : Nat → Rat) (maxMessages : Nat)

def step (s : StartApp rt) : StartAppOp → StartApp rt
  | .frame message =>
    match s.main with
    | .connecting =>
      let (streaming, raised) :=
        (queueParts (parseStream bitget) clock).processMessage ⟨s.routed, [], []⟩ message
      { s with
        frames := s.frames ++ [message]
        routed := streaming.env
        loopRaised := s.loopRaised.or raised }
    | _ => s
  | .retriesExceeded => { s with stopped := true }
  | .consumer raised => s.consumerRuns maxMessages raised
  | .connectEnds raised =>
    match s.main with
    | .connecting =>
      -- `except asyncio.CancelledError: pass`, and `stop()` up to its first `await`
      { s with
        stopped := true
        main := .stopping (raised.filter (· ≠ .cancelledError)) }
    | _ => s
  | .stopEnds raised =>
    match s.main with
    | .stopping pending =>
      match raised with
      | some raised => { s with main := .raised raised }
      | none =>
        { s with
          cancelled := true
          main :=
            match pending with
            | none => .returned s.messagesReceived
            | some raised => .raised raised }
    | _ => s

/-- Every tick of the frames is taken, waits, or is counted as dropped; what is taken is counted and
marked, and `max_messages` is kept. -/
structure Served (s : StartApp rt) : Prop where
  dispatched : s.routed.dispatched = s.frames.flatMap (frameTicks bitget)
  conserved : s.routed.Conserved
  received : s.messagesReceived = s.routed.delivered.length
  /-- only the tick that `stop()` is called for is not marked yet -/
  marked : s.routed.unmarked = if s.consumer = .stopping then 1 else 0
  markRaised : s.markRaised = false
  budget : 0 < maxMessages → s.messagesReceived ≤ maxMessages ∧
    (s.messagesReceived = maxMessages → s.stopped = true)
  returned : ∀ n, s.main = .returned n → n = s.messagesReceived
  /-- no frame ends the stream -/
  loopRaised : s.loopRaised = none

end StartApp

/-! ## The frames -/

theorem queueParts_ticks {rt : Runtime} (bitget : BitgetRuntime rt) (clock : Nat → Rat)
    (message : Str) :
    (queueParts (parseStream bitget) clock).ticks message = frameTicks bitget message := by
  simp only [StreamParts.ticks, queueParts, frameTicks]
  cases parseStream bitget message with
  | error e => rfl
  | ok parsed =>
    cases parsed with
    | none => rfl
    | some parsed => cases parsed <;> rfl

namespace Routed

variable {Tick : Type} {s s' s'' : Routed Tick}

/-- A dispatch never raises: a queue that is full has a tick that is to be done. -/
theorem dispatch_ok (h : s.Inv) (tick : Tick) (now : Rat) :
    (s.dispatcher.dispatch tick now).2 = .ok () := by
  have htasks := h.tasks
  have hpos := s.dispatcher.maxsize_pos
  cases hfull : s.dispatcher.isFull with
  | false => rw [AsyncQueueDispatcher.dispatch_room _ tick now hfull]
  | true =>
    have hlen := (AsyncQueueDispatcher.isFull_iff s.dispatcher).mp hfull
    cases hpolicy : s.dispatcher.overflowPolicy with
    | dropNewest => rw [AsyncQueueDispatcher.dispatch_newest _ tick now hfull hpolicy]
    | dropOldest =>
      rw [AsyncQueueDispatcher.dispatch_oldest _ tick now hfull hpolicy h.bounded (by omega)]

/-- Ticks were dispatched, and nothing else has happened. -/
structure Fed (s : Routed Tick) (ticks : List Tick) (s' : Routed Tick) : Prop where
  inv : s'.Inv
  dispatched : s'.dispatched = s.dispatched ++ ticks
  delivered : s'.delivered = s.delivered
  unmarked : s'.unmarked = s.unmarked

theorem Fed.nil (h : s.Inv) : s.Fed [] s := ⟨h, (List.append_nil _).symm, rfl, rfl⟩

theorem Fed.cons {tick : Tick} {now : Rat} {ticks : List Tick}
    (h : (s.step (.dispatch tick now)).Fed ticks s') : s.Fed (tick :: ticks) s' := by
  refine ⟨h.inv, h.dispatched.trans ?_, h.delivered, h.unmarked⟩
  show s.dispatched ++ [tick] ++ ticks = _
  rw [List.append_assoc, List.singleton_append]

variable {parse : Str → Except PyError (Option (StreamMessage Tick))} {clock : Nat → Rat}

/-- The ticks of a message are dispatched, and no dispatch raises. -/
theorem dispatchTicks_fed {streaming : Streaming (Routed Tick) Tick Empty}
    (h : streaming.env.Inv) (ticks : List Tick) :
    ((queueParts parse clock).dispatchTicks streaming ticks).2 = none ∧
      streaming.env.Fed ticks ((queueParts parse clock).dispatchTicks streaming ticks).1.env := by
  induction ticks generalizing streaming with
  | nil => exact ⟨rfl, .nil h⟩
  | cons tick ticks ih =>
    let now := clock streaming.env.dispatched.length
    have hdispatch : (queueParts parse clock).dispatch streaming.env tick =
        (streaming.env.step (.dispatch tick now), none) := by
      simp only [queueParts, dispatch_ok h tick]
      rfl
    have hnext : (streaming.env.step (.dispatch tick now)).Inv := inv_dispatch h tick now
    unfold StreamParts.dispatchTicks
    rw [hdispatch]
    obtain ⟨hnone, hfed⟩ := @ih
      ⟨streaming.env.step (.dispatch tick now), streaming.dispatched ++ [(tick, none)],
        streaming.notified⟩ hnext
    exact ⟨hnone, hfed.cons⟩

/-- **A frame is dispatched**, and nothing leaves the loop. -/
theorem processMessage_fed {streaming : Streaming (Routed Tick) Tick Empty}
    (h : streaming.env.Inv) (message : Str) :
    ((queueParts parse clock).processMessage streaming message).2 = none ∧
      streaming.env.Fed ((queueParts parse clock).ticks message)
        ((queueParts parse clock).processMessage streaming message).1.env := by
  unfold StreamParts.processMessage StreamParts.ticks
  split
  · rename_i ticks hparse
    obtain ⟨hnone, hfed⟩ := @dispatchTicks_fed _ parse clock _ h ticks
    refine ⟨?_, hfed⟩
    show StreamParts.escapes ((queueParts parse clock).dispatchTicks streaming ticks).2 = none
    rw [hnone]
    rfl
  · split
    · exact ⟨rfl, .nil h⟩
    · exact ⟨rfl, .nil h⟩

/-- A tick is taken. -/
theorem step_wait {tick : Tick} {items : List Tick} (hqueued : s.queued = tick :: items) :
    (s.step .wait).dispatched = s.dispatched ∧
      (s.step .wait).delivered = s.delivered ++ [tick] ∧
        (s.step .wait).unmarked = s.unmarked + 1 := by
  have hitems : s.dispatcher.queue.items = tick :: items := hqueued
  simp only [step, AsyncQueueDispatcher.waitForNextTick_eq_some hitems]
  exact ⟨trivial, trivial, trivial⟩

/-- A tick that was taken is marked. -/
theorem step_mark (h : s.Inv) (hunmarked : 0 < s.unmarked) :
    s.dispatcher.markTickAsProcessed.2 = .ok () ∧ (s.step .mark).Inv ∧
      (s.step .mark).dispatched = s.dispatched ∧ (s.step .mark).delivered = s.delivered ∧
        (s.step .mark).unmarked = s.unmarked - 1 := by
  have htasks := h.tasks
  have hcount : s.dispatcher.queue.unfinishedTasks ≠ 0 := by omega
  have hmark : s.dispatcher.markTickAsProcessed =
      ({ s.dispatcher with queue := { s.dispatcher.queue with
        unfinishedTasks := s.dispatcher.queue.unfinishedTasks - 1 } }, .ok ()) := by
    simp only [AsyncQueueDispatcher.markTickAsProcessed, AsyncQueue.taskDone, if_neg hcount]
  refine ⟨by rw [hmark], (mark_inv_iff h).mpr (.inl hunmarked), ?_⟩
  simp only [step, hmark]
  exact ⟨trivial, trivial, trivial⟩

end Routed

namespace StartApp

variable {rt : Runtime} {bitget : BitgetRuntime rt} {clock : Nat → Rat} {maxMessages : Nat}
  {s : StartApp rt}

/-! ## Runs -/

/-- What does not depend on where the consumer is. -/
structure Counted (bitget : BitgetRuntime rt) (maxMessages : Nat) (s : StartApp rt) : Prop where
  dispatched : s.routed.dispatched = s.frames.flatMap (frameTicks bitget)
  routed : s.routed.Inv
  received : s.messagesReceived = s.routed.delivered.length
  markRaised : s.markRaised = false
  loopRaised : s.loopRaised = none
  budget : 0 < maxMessages → s.messagesReceived ≤ maxMessages ∧
    (s.messagesReceived = maxMessages → s.stopped = true)
  returned : ∀ n, s.main = .returned n → n = s.messagesReceived ∧ s.cancelled = true

/-- What every step keeps. -/
structure Inv (bitget : BitgetRuntime rt) (maxMessages : Nat) (s : StartApp rt) : Prop
    extends s.Counted bitget maxMessages where
  marked : s.routed.unmarked = if s.consumer = .stopping then 1 else 0
  /-- a consumer that is to take another tick has not taken all -/
  takes : 0 < maxMessages → s.consumer = .created ∨ s.consumer = .waiting →
    s.messagesReceived < maxMessages

theorem Inv.served (h : s.Inv bitget maxMessages) : s.Served bitget maxMessages :=
  ⟨h.dispatched, h.routed.conserved, h.received, h.marked, h.markRaised, h.budget,
    fun n hn => (h.returned n hn).1, h.loopRaised⟩

theorem inv_start : (start : StartApp rt).Inv bitget maxMessages where
  dispatched := rfl
  routed := Routed.inv_start _ _ _
  received := rfl
  markRaised := rfl
  loopRaised := rfl
  budget hpos := ⟨Nat.zero_le _, fun hzero => absurd hzero (Nat.ne_of_lt hpos)⟩
  returned := by rintro n ⟨⟩
  marked := rfl
  takes hpos _ := hpos

/-- The consumer ends, with every tick marked. -/
theorem Counted.finished (h : s.Counted bitget maxMessages) (hunmarked : s.routed.unmarked = 0)
    (raised : Option Raised) :
    Inv bitget maxMessages { s with consumer := .finished raised } :=
  ⟨⟨h.dispatched, h.routed, h.received, h.markRaised, h.loopRaised, h.budget, h.returned⟩,
    by simpa using hunmarked, fun _ hconsumer => by simp at hconsumer⟩

/-- The consumer looks whether the stream is stopped. -/
theorem Counted.consumerLoopHead (h : s.Counted bitget maxMessages)
    (hunmarked : s.routed.unmarked = 0) : s.consumerLoopHead.Inv bitget maxMessages := by
  unfold StartApp.consumerLoopHead
  split
  · exact h.finished hunmarked none
  · rename_i hrunning
    refine ⟨⟨h.dispatched, h.routed, h.received, h.markRaised, h.loopRaised, h.budget, h.returned⟩,
      by simpa using hunmarked, fun hpos _ => ?_⟩
    obtain ⟨hle, hstops⟩ := h.budget hpos
    exact Nat.lt_of_le_of_ne hle fun hall => hrunning (hstops hall)

/-- **The tick is marked**, whatever `stop()` has raised. -/
theorem Counted.finishTick (h : s.Counted bitget maxMessages) (hunmarked : s.routed.unmarked = 1)
    (raised : Option Raised) : (s.finishTick raised).Inv bitget maxMessages := by
  obtain ⟨hok, hinv, hsame, hdelivered, hzero⟩ := Routed.step_mark h.routed (by omega)
  rw [hunmarked] at hzero
  have hdone : Counted bitget maxMessages { s with routed := s.routed.step .mark } :=
    ⟨hsame.trans h.dispatched, hinv, h.received.trans (congrArg List.length hdelivered.symm),
      h.markRaised, h.loopRaised, h.budget, h.returned⟩
  unfold StartApp.finishTick
  simp only [hok]
  cases raised with
  | some raised => exact hdone.finished hzero _
  | none => exact hdone.consumerLoopHead hzero

theorem Inv.takeTick (h : s.Inv bitget maxMessages) (hwaiting : s.consumer = .waiting)
    (hrunning : s.cancelled = false) : (s.takeTick maxMessages).Inv bitget maxMessages := by
  unfold StartApp.takeTick
  split
  · exact h
  · rename_i hqueued
    obtain ⟨tick, items, hqueued⟩ := List.exists_cons_of_ne_nil hqueued
    obtain ⟨hsame, hdelivered, hunmarked⟩ := Routed.step_wait hqueued
    rw [h.marked, if_neg (by simp [hwaiting])] at hunmarked
    have hdispatched := hsame.trans h.dispatched
    have hrouted := Routed.inv_wait h.routed
    have hreceived : s.messagesReceived + 1 = (s.routed.step .wait).delivered.length := by
      rw [hdelivered, h.received, List.length_append, List.length_singleton]
    -- a call that has returned has cancelled the consumer
    have hreturned : ∀ n, s.main ≠ .returned n := fun n hn => by
      rw [(h.returned n hn).2] at hrunning
      cases hrunning
    dsimp only
    split
    · rename_i hall
      have hlt := h.takes hall.1 (.inr hwaiting)
      exact ⟨⟨hdispatched, hrouted, hreceived, h.markRaised, h.loopRaised,
        fun _ => ⟨hlt, fun _ => rfl⟩, fun n hn => absurd hn (hreturned n)⟩, hunmarked,
        fun _ hconsumer => by simp at hconsumer⟩
    · rename_i hfew
      have hlt : 0 < maxMessages → ¬maxMessages ≤ s.messagesReceived + 1 :=
        fun hpos hle => hfew ⟨hpos, hle⟩
      have htaken : Counted bitget maxMessages { s with
          routed := s.routed.step .wait
          messagesReceived := s.messagesReceived + 1 } :=
        ⟨hdispatched, hrouted, hreceived, h.markRaised, h.loopRaised,
          fun hpos => ⟨Nat.le_of_not_le (hlt hpos), fun he => absurd he.ge (hlt hpos)⟩,
          fun n hn => absurd hn (hreturned n)⟩
      exact htaken.finishTick hunmarked none

theorem Inv.consumerRuns (h : s.Inv bitget maxMessages) (raised : Option Raised) :
    (s.consumerRuns maxMessages raised).Inv bitget maxMessages := by
  unfold StartApp.consumerRuns
  split
  · rename_i hcreated
    have hunmarked := h.marked.trans (if_neg (by simp [hcreated]))
    split
    · exact h.finished hunmarked _
    · exact h.consumerLoopHead hunmarked
  · rename_i hwaiting
    split
    · exact h.finished (h.marked.trans (if_neg (by simp [hwaiting]))) _
    · exact h.takeTick hwaiting (eq_false_of_ne_true ‹_›)
  · rename_i hstopping
    exact h.finishTick (h.marked.trans (if_pos hstopping)) raised
  · exact h

theorem inv_step (s : StartApp rt) (op : StartAppOp) (h : s.Inv bitget maxMessages) :
    (s.step bitget clock maxMessages op).Inv bitget maxMessages := by
  cases op with
  | frame message =>
    simp only [step]
    split
    · obtain ⟨hnone, hfed⟩ := @Routed.processMessage_fed _ (parseStream bitget) clock
        ⟨s.routed, [], []⟩ h.routed message
      have hdispatched := hfed.dispatched
      rw [h.dispatched, queueParts_ticks] at hdispatched
      refine ⟨⟨hdispatched.trans ?_, hfed.inv,
        h.received.trans (congrArg List.length hfed.delivered.symm), h.markRaised, ?_, h.budget,
        h.returned⟩, hfed.unmarked.trans h.marked, h.takes⟩
      · rw [List.flatMap_append, List.flatMap_singleton]
      · show s.loopRaised.or _ = none
        rw [h.loopRaised, hnone]
        rfl
    · exact h
  | retriesExceeded =>
    exact ⟨⟨h.dispatched, h.routed, h.received, h.markRaised, h.loopRaised,
      fun hpos => ⟨(h.budget hpos).1, fun _ => rfl⟩, h.returned⟩, h.marked, h.takes⟩
  | consumer raised => exact h.consumerRuns raised
  | connectEnds raised =>
    simp only [step]
    split
    · exact ⟨⟨h.dispatched, h.routed, h.received, h.markRaised, h.loopRaised,
        fun hpos => ⟨(h.budget hpos).1, fun _ => rfl⟩, by rintro n ⟨⟩⟩, h.marked, h.takes⟩
    · exact h
  | stopEnds raised =>
    simp only [step]
    split
    · rename_i pending hmain
      split
      · exact ⟨⟨h.dispatched, h.routed, h.received, h.markRaised, h.loopRaised, h.budget,
          by rintro n ⟨⟩⟩, h.marked, h.takes⟩
      · refine ⟨⟨h.dispatched, h.routed, h.received, h.markRaised, h.loopRaised, h.budget,
          fun n hn => ⟨?_, rfl⟩⟩, h.marked, h.takes⟩
        cases pending with
        | none =>
          cases hn
          rfl
        | some raised => cases hn
    · exact h

/-- **What becomes of the ticks**, in every state. -/
theorem app_serves (bitget : BitgetRuntime rt) (clock : Nat → Rat) (maxMessages : Nat)
    (ops : List StartAppOp) :
    Run.Always (step bitget clock maxMessages) (Served bitget maxMessages) start ops :=
  (Run.always_of_step inv_step inv_start ops).mono fun _ => Inv.served

/-- A frame of three trades, one with a list for its id, and a consumer that takes two of them. -/
def listIdRun : List StartAppOp :=
  [.consumer none, .frame (dumps (.obj listIdFrame)), .consumer none, .consumer none]

/-- **The queue does not look at the ids**: all three trades are dispatched. -/
theorem app_serves_listId :
    Run.Always (step .readme 0 5) (Served .readme 5) start listIdRun ∧
      (Run.exec (step .readme 0 5) start listIdRun).routed.dispatched.length = 3 := by
  have hserved := app_serves .readme 0 5 listIdRun
  refine ⟨hserved, ?_⟩
  have hframes : (Run.exec (step .readme 0 5) start listIdRun).frames =
      [dumps (.obj listIdFrame)] := rfl
  rw [hserved.last.dispatched, hframes, List.flatMap_singleton, frameTicks_listIdFrame]
  rfl

end StartApp

end Leviathan
