import Leviathan.Exchanges.StartStreaming
import Leviathan.Journal.Readme
import Leviathan.Lib.Run

/-!
# Failing ticks and their batches

A dispatch may raise an exception. The loop of `start_streaming` catches it for the message, not for
the tick.

* `served_iff`: **every tick of every message is dispatched, in order, and the observers hear of
  those whose dispatch succeeded, exactly in the runs in which only the last tick of a message
  fails.**
* `failing_tick_takes_batch`: a write that fails takes the rest of its message with it.
-/

namespace Leviathan

open Py

namespace StreamParts

variable {Env Tick Observer : Type} (parts : StreamParts Env Tick Observer)

/-- What is called raises ordinary exceptions only. -/
structure Ordinary : Prop where
  dispatch : ∀ env tick raised, (parts.dispatch env tick).2 = some raised →
    raised.isException = true
  onPriceUpdate : ∀ env observer tick raised,
    (parts.onPriceUpdate env observer tick).2 = some raised → raised.isException = true
  recordConfirmation : ∀ env symbol raised,
    (parts.recordConfirmation env symbol).2 = some raised → raised.isException = true

/-- The dispatches that succeeded. -/
def succeeded (dispatched : List (Tick × Option Raised)) : List Tick :=
  (dispatched.filter fun call => call.2.isNone).map Prod.fst

/-- What the observers are told. -/
def announced (ticks : List Tick) : List (Observer × Tick) :=
  ticks.flatMap fun tick => parts.observers.map fun observer => (observer, tick)

/-- A stream, from a state, has served the messages: all their ticks were dispatched in order, and
the observers have heard of those that succeeded. -/
structure Served (before : Streaming Env Tick Observer) (messages : List Str)
    (after : Streaming Env Tick Observer × Option Raised) : Prop where
  returns : after.2 = none
  dispatched : ∃ calls, after.1.dispatched = before.dispatched ++ calls ∧
    calls.map Prod.fst = messages.flatMap parts.ticks ∧
    after.1.notified = before.notified ++ parts.announced (succeeded calls)

/-- The environment when the observers have heard of a tick. -/
def heard (env : Env) (tick : Tick) : Env :=
  parts.observers.foldl (fun env observer => (parts.onPriceUpdate env observer tick).1) env

/-- No dispatch of the ticks fails, but for the last. -/
def OnlyLastFails : Env → List Tick → Prop
  | _, [] | _, [_] => True
  | env, tick :: next :: ticks =>
    (parts.dispatch env tick).2 = none ∧
      OnlyLastFails (parts.heard (parts.dispatch env tick).1 tick) (next :: ticks)

/-! ## One message -/

variable {parts}

theorem escapes_ordinary {raised : Option Raised}
    (h : ∀ r, raised = some r → r.isException = true) : escapes raised = none := by
  cases raised with
  | none => rfl
  | some raised => simp [escapes, h raised rfl]

theorem notifyObservers_eq (h : parts.Ordinary) (tick : Tick) (observers : List Observer)
    (s : Streaming Env Tick Observer) :
    parts.notifyObservers tick s observers =
      (⟨observers.foldl (fun env observer => (parts.onPriceUpdate env observer tick).1) s.env,
        s.dispatched, s.notified ++ observers.map fun observer => (observer, tick)⟩, none) := by
  induction observers generalizing s with
  | nil => simp [notifyObservers]
  | cons observer observers ih =>
    have hnone := escapes_ordinary (h.onPriceUpdate s.env observer tick)
    simp only [notifyObservers, hnone, ih, List.foldl_cons, List.map_cons, List.append_assoc,
      List.singleton_append]

/-- The calls that are made for the ticks, in order, and when they are made for all. -/
structure Dispatches (parts : StreamParts Env Tick Observer) (s : Streaming Env Tick Observer)
    (ticks : List Tick) (whole : Prop) (after : Streaming Env Tick Observer)
    (calls : List (Tick × Option Raised)) : Prop where
  dispatched : after.dispatched = s.dispatched ++ calls
  taken : (calls.map Prod.fst).Sublist ticks
  notified : after.notified = s.notified ++ parts.announced (succeeded calls)
  whole : calls.length = ticks.length ↔ whole

theorem Dispatches.nil {s after : Streaming Env Tick Observer} {whole : Prop} (hwhole : whole)
    (hdispatched : after.dispatched = s.dispatched) (hnotified : after.notified = s.notified) :
    parts.Dispatches s [] whole after [] where
  dispatched := by rw [hdispatched, List.append_nil]
  taken := .slnil
  notified := by simp [hnotified, announced, succeeded]
  whole := iff_of_true rfl hwhole

theorem Dispatches.trans {s s' after : Streaming Env Tick Observer} {ticks ticks' : List Tick}
    {whole whole' : Prop} {calls calls' : List (Tick × Option Raised)}
    (h : parts.Dispatches s ticks whole s' calls)
    (h' : parts.Dispatches s' ticks' whole' after calls') :
    parts.Dispatches s (ticks ++ ticks') (whole ∧ whole') after (calls ++ calls') where
  dispatched := by rw [h'.dispatched, h.dispatched, List.append_assoc]
  taken := by
    rw [List.map_append]
    exact h.taken.append h'.taken
  notified := by simp [h'.notified, h.notified, announced, succeeded]
  whole := by
    have hle := h.taken.length_le
    have hle' := h'.taken.length_le
    rw [List.length_map] at hle hle'
    rw [← h.whole, ← h'.whole, List.length_append, List.length_append]
    omega

/-- A dispatch that fails is the last of its message. -/
theorem Dispatches.failed {s : Streaming Env Tick Observer} {tick : Tick} {env : Env}
    {raised : Raised} (h : parts.dispatch s.env tick = (env, some raised)) (ticks : List Tick) :
    parts.Dispatches s (tick :: ticks) (parts.OnlyLastFails s.env (tick :: ticks))
      { s with env, dispatched := s.dispatched ++ [(tick, some raised)] } [(tick, some raised)] where
  dispatched := rfl
  taken := by simp
  notified := by simp [announced, succeeded]
  whole := by
    cases ticks with
    | nil => exact iff_of_true rfl trivial
    | cons next ticks => simp [OnlyLastFails, h]

/-- A dispatch that succeeds, its notifications, and the rest of the message. -/
theorem Dispatches.cons {s after : Streaming Env Tick Observer} {tick : Tick} {env : Env}
    (h : parts.dispatch s.env tick = (env, none)) {ticks : List Tick}
    {calls : List (Tick × Option Raised)}
    (hrest : parts.Dispatches ⟨parts.heard env tick, s.dispatched ++ [(tick, none)],
        s.notified ++ parts.observers.map fun observer => (observer, tick)⟩ ticks
      (parts.OnlyLastFails (parts.heard env tick) ticks) after calls) :
    parts.Dispatches s (tick :: ticks) (parts.OnlyLastFails s.env (tick :: ticks)) after
      ((tick, none) :: calls) where
  dispatched := by simp [hrest.dispatched]
  taken := by
    rw [List.map_cons, List.cons_sublist_cons]
    exact hrest.taken
  notified := by simp [hrest.notified, announced, succeeded]
  whole := by
    rw [List.length_cons, List.length_cons, Nat.add_right_cancel_iff, hrest.whole]
    cases ticks with
    | nil => exact Iff.rfl
    | cons next ticks => simp [OnlyLastFails, h]

theorem dispatchTicks_dispatches (h : parts.Ordinary) (ticks : List Tick)
    (s : Streaming Env Tick Observer) :
    escapes (parts.dispatchTicks s ticks).2 = none ∧
      ∃ calls, parts.Dispatches s ticks (parts.OnlyLastFails s.env ticks)
        (parts.dispatchTicks s ticks).1 calls := by
  induction ticks generalizing s with
  | nil => exact ⟨rfl, [], .nil trivial rfl rfl⟩
  | cons tick ticks ih =>
    obtain ⟨env, raised, hdispatch⟩ : ∃ env raised, parts.dispatch s.env tick = (env, raised) :=
      ⟨_, _, rfl⟩
    cases raised with
    | some raised =>
      simp only [dispatchTicks, hdispatch]
      have hordinary := h.dispatch s.env tick raised (by rw [hdispatch])
      exact ⟨escapes_ordinary (by rintro r ⟨⟩; exact hordinary), _, .failed hdispatch ticks⟩
    | none =>
      simp only [dispatchTicks, hdispatch, notifyObservers_eq h]
      obtain ⟨hescapes, calls, hcalls⟩ := ih ⟨parts.heard env tick, s.dispatched ++ [(tick, none)],
        s.notified ++ parts.observers.map fun observer => (observer, tick)⟩
      exact ⟨hescapes, _, .cons hdispatch hcalls⟩

variable (parts) in
/-- One message. -/
def step (s : Streaming Env Tick Observer) (message : Str) : Streaming Env Tick Observer :=
  (parts.processMessage s message).1

variable (parts) in
/-- Only the last tick of the message fails. -/
def Isolated (s : Streaming Env Tick Observer) (message : Str) : Prop :=
  parts.OnlyLastFails s.env (parts.ticks message)

theorem processMessage_dispatches (h : parts.Ordinary) (s : Streaming Env Tick Observer)
    (message : Str) :
    (parts.processMessage s message).2 = none ∧
      ∃ calls, parts.Dispatches s (parts.ticks message) (parts.Isolated s message)
        (parts.step s message) calls := by
  unfold step Isolated processMessage ticks
  split
  · exact dispatchTicks_dispatches h _ s
  · split
    · exact ⟨rfl, [], .nil trivial rfl rfl⟩
    · rename_i symbol _
      exact ⟨escapes_ordinary (h.recordConfirmation s.env symbol), [], .nil trivial rfl rfl⟩

/-! ## Runs -/

/-- Nothing ends the loop but the end of the messages. -/
theorem startStreaming_eq (h : parts.Ordinary) (messages : List Str)
    (s : Streaming Env Tick Observer) :
    parts.startStreaming s messages = (Run.exec parts.step s messages, none) := by
  induction messages generalizing s with
  | nil => rfl
  | cons message messages ih =>
    have hstep : parts.processMessage s message = (parts.step s message, none) :=
      Prod.ext rfl (processMessage_dispatches h s message).1
    simp only [startStreaming, hstep, ih]
    rfl

theorem exec_dispatches (h : parts.Ordinary) (messages : List Str)
    (s : Streaming Env Tick Observer) :
    ∃ calls, parts.Dispatches s (messages.flatMap parts.ticks)
      (Run.Each parts.step parts.Isolated s messages) (Run.exec parts.step s messages) calls := by
  induction messages generalizing s with
  | nil => exact ⟨[], .nil trivial rfl rfl⟩
  | cons message messages ih =>
    obtain ⟨-, calls, hcalls⟩ := processMessage_dispatches h s message
    obtain ⟨calls', hcalls'⟩ := ih (parts.step s message)
    exact ⟨calls ++ calls', hcalls.trans hcalls'⟩

/-- **A failing tick takes the rest of its message with it**, so that all ticks are served exactly
where only the last of a message fails. -/
theorem served_iff (h : parts.Ordinary) (s : Streaming Env Tick Observer) (messages : List Str) :
    parts.Served s messages (parts.startStreaming s messages) ↔
      Run.Each parts.step parts.Isolated s messages := by
  obtain ⟨calls, hcalls⟩ := exec_dispatches h messages s
  rw [startStreaming_eq h]
  constructor
  · rintro ⟨-, calls', hdispatched, hticks, -⟩
    obtain rfl : calls = calls' :=
      List.append_cancel_left (hcalls.dispatched.symm.trans hdispatched)
    exact hcalls.whole.mp ((congrArg List.length hticks).symm ▸ (List.length_map _).symm)
  · intro hwhole
    have hlen := hcalls.whole.mpr hwhole
    refine ⟨rfl, calls, hcalls.dispatched, ?_, hcalls.notified⟩
    exact hcalls.taken.eq_of_length (by rw [List.length_map, hlen])

end StreamParts

/-! ## A stream that writes a journal -/

theorem journalParts_ordinary {cfg : Config} {policy : LivenessPolicy}
    (parse : Str → Except PyError (Option (StreamMessage (TradeTick cfg.toRuntime)))) :
    (journalParts parse : StreamParts (JournalDispatchDecorator cfg policy × _) _ _).Ordinary := by
  refine ⟨?_, ?_, ?_⟩
  · intro env tick raised h
    simp only [journalParts, JournalDispatchDecorator.dispatchFaulty] at h
    split at h
    · cases h
    · obtain rfl : Raised.exception = raised := Option.some.inj h
      rfl
  · intro env observer tick raised h
    cases h
  · intro env symbol raised h
    cases h

/-- Two trades of one symbol come in one message. -/
def twoTrades (_ : Str) :
    Except PyError (Option (StreamMessage (TradeTick Config.default.toRuntime))) :=
  .ok (some (.trade [readmeTick "BTCUSDT".toList ['1'], readmeTick "BTCUSDT".toList ['2']]))

/-- A stream over an empty journal, with the faults to come. -/
def journalStream (faults : List (Option WriteFault)) :
    Streaming (JournalDispatchDecorator .default .default × List (Option WriteFault))
      (TradeTick Config.default.toRuntime) Unit :=
  ⟨(⟨[], .new .empty, .empty, none⟩, faults), [], []⟩

/-- The write of the second trade fails. -/
theorem served_last_fails :
    (journalParts twoTrades).Served (journalStream [none, some .inOpen]) [['m']]
      ((journalParts twoTrades).startStreaming (journalStream [none, some .inOpen]) [['m']]) :=
  (StreamParts.served_iff (journalParts_ordinary twoTrades) _ _).mpr ⟨⟨by decide, trivial⟩, trivial⟩

/-- **The write of the first trade fails, and the second is not dispatched.** -/
theorem failing_tick_takes_batch :
    ¬(journalParts twoTrades).Served (journalStream [some .inOpen]) [['m']]
      ((journalParts twoTrades).startStreaming (journalStream [some .inOpen]) [['m']]) := by
  rintro ⟨-, calls, hdispatched, hticks, -⟩
  have hone : ((journalParts twoTrades).startStreaming (journalStream [some .inOpen])
      [['m']]).1.dispatched.length = 1 := by decide
  have htwo := congrArg List.length hticks
  rw [hdispatched] at hone
  rw [List.length_map] at htwo
  exact absurd (hone.symm.trans htwo) (by decide)

end Leviathan
