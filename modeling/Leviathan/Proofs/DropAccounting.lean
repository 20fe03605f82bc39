import Leviathan.Proofs.Dispatcher
import Leviathan.Routing.DropLogging
import Mathlib.Data.List.Chain
import Mathlib.Tactic.Linarith

/-!
# The overflow log accounts for every drop

Ticks are dispatched, taken and marked at any pace; the lines of the overflow log are kept.

* `accounted`: **what the log has reported and what it has not reported yet is what was dropped, the
  lines keep their distance, and the saturation timer has the time of the first drop since the queue
  last had room.**

The clock may do what it likes: a line looks back at the line before it only.
-/

namespace Leviathan

open Py AsyncQueueDispatcher

variable {policy : DropLogPolicy} {Tick : Type}

/-- A dispatch: when it was, and whether the queue was full. -/
structure DispatchOutcome where
  time : Rat
  overflowed : Bool

/-- A dispatcher with its log. -/
structure DropLogged (policy : DropLogPolicy) (Tick : Type) where
  routed : Routed Tick
  logger : DropLogger policy
  logs : List DropLog
  outcomes : List DispatchOutcome

namespace DropLogged

/-- A new dispatcher. -/
def start (policy : DropLogPolicy) (maxsize : Nat) (maxsize_pos : 0 < maxsize)
    (overflowPolicy : OverflowPolicy) : DropLogged policy Tick :=
  ⟨.start maxsize maxsize_pos overflowPolicy, .new, [], []⟩

def step (instId : Tick → Str) (s : DropLogged policy Tick) (op : RoutedOp Tick) :
    DropLogged policy Tick :=
  let routed := s.routed.step op
  match op with
  | .dispatch tick now =>
    let (logger, log) := s.logger.dispatch instId s.routed.dispatcher tick now
    { routed, logger
      logs := s.logs ++ log.toList
      outcomes := s.outcomes ++ [⟨now, s.routed.dispatcher.isFull⟩] }
  | _ => { s with routed }

/-- What the log and the timer say. -/
structure Accounted (s : DropLogged policy Tick) : Prop where
  drops : (s.logs.map fun log => log.droppedTicks).sum + s.logger.dropsSinceLastLog =
    s.routed.dispatcher.droppedTickCount
  spaced : s.logs.IsChain fun log next => log.time + policy.dropLogIntervalSeconds ≤ next.time
  saturated : s.routed.dispatcher.saturationSinceMono.isSome =
    s.outcomes.getLast?.any fun outcome => outcome.overflowed
  since : ∀ since, s.routed.dispatcher.saturationSinceMono = some since →
    ∃ before after, s.outcomes = before ++ ⟨since, true⟩ :: after ∧
      (∀ outcome ∈ after, outcome.overflowed = true) ∧
      ∀ outcome, before.getLast? = some outcome → outcome.overflowed = false

/-- The logger also remembers when the last line was. -/
structure Inv (s : DropLogged policy Tick) : Prop extends Accounted s where
  routed : s.routed.Inv
  last : s.logger.lastDropLogMono = s.logs.getLast?.map fun log => log.time

variable {s : DropLogged policy Tick} (instId : Tick → Str)

theorem inv_start (maxsize : Nat) (maxsize_pos : 0 < maxsize) (overflowPolicy : OverflowPolicy) :
    (start policy maxsize maxsize_pos overflowPolicy : DropLogged policy Tick).Inv where
  drops := rfl
  spaced := .nil
  saturated := rfl
  since := by
    intro since h
    cases h
  routed := Routed.inv_start maxsize maxsize_pos overflowPolicy
  last := rfl

/-! ## Dispatches -/

/-- A dispatch to a full queue returns, and its drop begins or goes on with a saturation. -/
theorem overflow (h : s.routed.Inv) (tick : Tick) (now : Rat)
    (hfull : s.routed.dispatcher.isFull = true) :
    let after := s.routed.dispatcher.dispatch tick now
    after.2 = .ok () ∧
      after.1.droppedTickCount = s.routed.dispatcher.droppedTickCount + 1 ∧
      after.1.saturationSinceMono = s.routed.dispatcher.saturationSinceMono.or (some now) := by
  cases hpolicy : s.routed.dispatcher.overflowPolicy with
  | dropNewest =>
    rw [dispatch_newest _ tick now hfull hpolicy]
    exact ⟨rfl, rfl, rfl⟩
  | dropOldest =>
    have hlen := (isFull_iff s.routed.dispatcher).mp hfull
    have hpos := s.routed.dispatcher.maxsize_pos
    have htasks := h.tasks
    rw [dispatch_oldest _ tick now hfull hpolicy h.bounded (by omega)]
    exact ⟨rfl, rfl, rfl⟩

theorem inv_room (h : s.Inv) (tick : Tick) (now : Rat)
    (hroom : s.routed.dispatcher.isFull = false) :
    (s.step instId (.dispatch tick now)).Inv := by
  have hlog := s.logger.dispatch_room instId s.routed.dispatcher tick now hroom
  have hdispatch := dispatch_room s.routed.dispatcher tick now hroom
  have hrouted := Routed.inv_dispatch h.routed tick now
  simp only [Routed.step, hdispatch] at hrouted
  simp only [step, Routed.step, hdispatch, hlog, hroom, Option.toList_none, List.append_nil]
  refine ⟨⟨h.drops, h.spaced, ?_, ?_⟩, hrouted, h.last⟩
  · rw [List.getLast?_concat]
    rfl
  · intro since hsome
    cases hsome

/-- The time of the first drop since the queue had room. -/
theorem since_overflow (h : s.Accounted) (now since : Rat)
    (hsince : s.routed.dispatcher.saturationSinceMono.or (some now) = some since) :
    ∃ before after, s.outcomes ++ [⟨now, true⟩] = before ++ ⟨since, true⟩ :: after ∧
      (∀ outcome ∈ after, outcome.overflowed = true) ∧
      ∀ outcome, before.getLast? = some outcome → outcome.overflowed = false := by
  cases hbefore : s.routed.dispatcher.saturationSinceMono with
  | none =>
    rw [hbefore] at hsince
    obtain rfl : now = since := Option.some.inj hsince
    refine ⟨s.outcomes, [], rfl, by simp, ?_⟩
    intro outcome hlast
    have hnone := h.saturated
    rw [hbefore, hlast] at hnone
    exact hnone.symm
  | some first =>
    rw [hbefore] at hsince
    obtain rfl : first = since := Option.some.inj hsince
    obtain ⟨before, after, houtcomes, hafter, hlast⟩ := h.since first hbefore
    refine ⟨before, after ++ [⟨now, true⟩], by rw [houtcomes]; simp, ?_, hlast⟩
    intro outcome hmem
    rcases List.mem_append.mp hmem with hmem | hmem
    · exact hafter outcome hmem
    · rw [List.mem_singleton.mp hmem]

/-- A line that may be written keeps its distance. -/
theorem spaced_append (h : s.Inv) {log : DropLog} (hlog : s.logger.shouldLog log.time = true) :
    (s.logs ++ [log]).IsChain
      fun log next => log.time + policy.dropLogIntervalSeconds ≤ next.time := by
  rw [List.isChain_append]
  refine ⟨h.spaced, .singleton log, ?_⟩
  intro last hlast next hnext
  obtain rfl : log = next := by simpa using hnext
  have hmono := h.last
  rw [hlast] at hmono
  simp only [DropLogger.shouldLog, hmono, Option.map_some, decide_eq_true_eq, ge_iff_le] at hlog
  linarith

theorem inv_full (h : s.Inv) (tick : Tick) (now : Rat)
    (hfull : s.routed.dispatcher.isFull = true) :
    (s.step instId (.dispatch tick now)).Inv := by
  obtain ⟨hok, hcount, hsince⟩ := overflow h.routed tick now hfull
  have hdrops := h.drops
  have hrouted := Routed.inv_dispatch h.routed tick now
  have hlast : (s.routed.dispatcher.saturationSinceMono.or (some now)).isSome =
      (s.outcomes ++ [(⟨now, true⟩ : DispatchOutcome)]).getLast?.any
        fun outcome => outcome.overflowed := by
    simp
  rcases s.logger.dispatch_full instId s.routed.dispatcher tick now hfull hok with
    ⟨log, hlog, htime, hticks, hlogged⟩ | ⟨hlog, hlogged⟩
  · simp only [step, hlogged, hfull]
    refine ⟨⟨?_, ?_, ?_, ?_⟩, hrouted, ?_⟩
    · simp only [Routed.step, hcount, Option.toList_some, List.map_append, List.map_singleton,
        List.sum_append, List.sum_singleton, hticks]
      omega
    · exact spaced_append h (htime ▸ hlog)
    · simp only [Routed.step, hsince, hlast]
    · intro since hsome
      exact since_overflow h.toAccounted now since (hsince ▸ hsome)
    · simp [htime]
  · simp only [step, hlogged, hfull, Option.toList_none, List.append_nil]
    refine ⟨⟨?_, h.spaced, ?_, ?_⟩, hrouted, h.last⟩
    · simp only [Routed.step, hcount]
      omega
    · simp only [Routed.step, hsince, hlast]
    · intro since hsome
      exact since_overflow h.toAccounted now since (hsince ▸ hsome)

/-! ## Runs -/

/-- The consumer has no part in the log. -/
theorem inv_consumer (h : s.Inv) {op : RoutedOp Tick} (hrouted : (s.routed.step op).Inv)
    (hdrops : (s.routed.step op).dispatcher.droppedTickCount =
      s.routed.dispatcher.droppedTickCount)
    (hsince : (s.routed.step op).dispatcher.saturationSinceMono =
      s.routed.dispatcher.saturationSinceMono) :
    ({ s with routed := s.routed.step op } : DropLogged policy Tick).Inv where
  drops := h.drops.trans hdrops.symm
  spaced := h.spaced
  saturated := (congrArg Option.isSome hsince).trans h.saturated
  since := by
    intro since hsome
    exact h.since since (hsince.symm.trans hsome)
  routed := hrouted
  last := h.last

theorem inv_step (h : s.Inv) (op : RoutedOp Tick) (hop : s.routed.Matched op) :
    (s.step instId op).Inv := by
  have hrouted := (Routed.step_inv_iff h.routed op).mpr hop
  cases op with
  | dispatch tick now =>
    cases hfull : s.routed.dispatcher.isFull with
    | false => exact inv_room instId h tick now hfull
    | true => exact inv_full instId h tick now hfull
  | wait =>
    apply inv_consumer h hrouted
    · simp only [Routed.step, waitForNextTick]
      cases s.routed.dispatcher.queue.getNowait <;> rfl
    · simp only [Routed.step, waitForNextTick]
      cases s.routed.dispatcher.queue.getNowait <;> rfl
  | mark =>
    apply inv_consumer h hrouted
    · simp only [Routed.step, markTickAsProcessed]
      cases s.routed.dispatcher.queue.taskDone <;> rfl
    · simp only [Routed.step, markTickAsProcessed]
      cases s.routed.dispatcher.queue.taskDone <;> rfl

/-- **The overflow log accounts for every drop**, as long as the consumer marks what it has taken.
-/
theorem accounted (maxsize : Nat) (maxsize_pos : 0 < maxsize) (overflowPolicy : OverflowPolicy)
    (ops : List (RoutedOp Tick))
    (h : Run.Each (step instId) (fun s op => s.routed.Matched op)
      (start policy maxsize maxsize_pos overflowPolicy) ops) :
    Run.Always (step instId) Accounted (start policy maxsize maxsize_pos overflowPolicy) ops := by
  have hrun := Run.always_of_each (fun s op hs hop => inv_step (s := s) instId hs op hop)
    (inv_start maxsize maxsize_pos overflowPolicy) h
  exact hrun.mono fun s hs => hs.toAccounted

/-- A burst against a queue of one tick. -/
theorem accounted_burst :
    Run.Always (step fun _ => "BTC".toList) Accounted (start .default 1 (by decide) .dropOldest)
      [.dispatch 1 0, .dispatch 2 0, .dispatch 3 4, .dispatch 4 12, .wait, .mark, .dispatch 5 13] :=
  @accounted .default Nat (fun _ => "BTC".toList) 1 (by decide) .dropOldest _ (by decide)

end DropLogged

end Leviathan
