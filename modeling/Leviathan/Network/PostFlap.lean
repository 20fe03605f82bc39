import Leviathan.State.WriteLiveness
import Mathlib.Algebra.Order.Ring.Rat
import Mathlib.Tactic.Linarith

/-!
# The post-flap monitor

`PostFlapTipCorrelationMonitor` is told when a connection closes and when the next one is there.
From the tips at these two moments it takes a baseline, and a timer looks after the window whether
the tip has passed it.

* `sampleTipSeq`: the tip that the provider gives. What is no tip is unreadable, but an
  `OverflowError` of `int(value)` is not caught and leaves the call that asked for the tip in its
  middle.
* `noteConnectionClosed`, `noteConnectionRestored`, `recordTipProgress`, `cancel`: the calls.
* `evaluateTipStaleAfterWindow`: the timer behind its sleep.

A clock and a provider are arguments: an operation is given what they return. Log lines, and the
fields that only log lines use, are not modelled.
-/

namespace Leviathan

open Py

/-- The arguments of a monitor. -/
structure FlapPolicy where
  staleWindowSeconds : Rat
  minHealIntervalSeconds : Rat
  staleWindowSeconds_pos : 0 < staleWindowSeconds
  minHealIntervalSeconds_nonneg : 0 ≤ minHealIntervalSeconds

/-- `DEFAULT_POST_FLAP_TIP_STALE_SECONDS`, and the `DEFAULT_MIN_HEAL_INTERVAL_SECONDS` of the guard.
-/
def FlapPolicy.default : FlapPolicy where
  staleWindowSeconds := 30
  minHealIntervalSeconds := LivenessPolicy.default.minHealIntervalSeconds
  staleWindowSeconds_pos := by decide
  minHealIntervalSeconds_nonneg := LivenessPolicy.default.minHealIntervalSeconds_nonneg

/-- What a call of `tip_seq_provider` gives, as far as `__sample_tip_seq` tells it apart. -/
inductive TipSample where
  /-- no provider, or it returns `None` -/
  | absent
  /-- the provider raises an `Exception` -/
  | raises
  /-- `int(value)` raises a `TypeError` or a `ValueError` -/
  | noNumber
  /-- `int(value)` raises an `OverflowError`, as it does for an infinite `float` -/
  | overflows (text : Str)
  | value (seq : Int)

/-- `__sample_tip_seq`: it catches all that the provider raises, but of `int(value)` only the
`TypeError` and the `ValueError`. -/
def sampleTipSeq : TipSample → Except PyError (Option Int)
  | .absent | .raises | .noNumber => .ok none
  | .overflows text => .error (.overflowError text)
  | .value seq => .ok (if seq < 0 then none else some seq)

/-- The tip of a sample that is readable. -/
def readTip (sample : TipSample) : Option Int := (sampleTipSeq sample).toOption.join

theorem readTip_ok {sample : TipSample} {tip : Option Int} (h : sampleTipSeq sample = .ok tip) :
    readTip sample = tip := by
  rw [readTip, h]
  rfl

theorem readTip_error {sample : TipSample} {e : PyError} (h : sampleTipSeq sample = .error e) :
    readTip sample = none := by
  rw [readTip, h]
  rfl

/-- `__evaluate_tip_stale_after_window` with its arguments, while it sleeps. -/
structure FlapTimer where
  generation : Nat
  tipSeqBefore : Int
  reconnectWallMs : Int

/-- What a timer finds that is the one of the current window. -/
inductive TipOutcome where
  /-- the task ends with the exception of the sample -/
  | raises (e : PyError)
  | unreadable
  | advanced (tipNow : Int)
  /-- within `min_heal_interval` of the last heal -/
  | suppressed (tipSeqBefore tipNow : Int) (elapsedSeconds : Rat)
  /-- the call of `on_stale` -/
  | stale (tipSeqBefore tipNow : Int) (elapsedSeconds : Rat)

structure PostFlapTipCorrelationMonitor (policy : FlapPolicy) where
  pendingClose : Bool
  tipSeqBefore : Option Int
  tipSeqBaseline : Option Int
  closeMonoMs : Option Int
  lastFlapDurationMs : Option Int
  generation : Nat
  /-- the generation of the timer that sleeps -/
  watchdogTask : Option Nat
  lastHealMono : Option Rat
  lastTipStaleDetection : Option (Int × Int × Rat)

namespace PostFlapTipCorrelationMonitor

variable {policy : FlapPolicy}

def new : PostFlapTipCorrelationMonitor policy :=
  ⟨false, none, none, none, none, 0, none, none, none⟩

/-- `is_awaiting_tip_progress`: a window is open. -/
def isAwaitingTipProgress (monitor : PostFlapTipCorrelationMonitor policy) : Bool :=
  monitor.watchdogTask.isSome

/-- `cancel`: the window is given up, and its timer is cancelled. -/
def cancel (monitor : PostFlapTipCorrelationMonitor policy) :
    PostFlapTipCorrelationMonitor policy :=
  { monitor with
    generation := monitor.generation + 1
    watchdogTask := none
    tipSeqBaseline := none }

/-- `record_tip_progress`: the monitor after it, and `True` when a window was satisfied. -/
def recordTipProgress (monitor : PostFlapTipCorrelationMonitor policy) (sample : TipSample) :
    PostFlapTipCorrelationMonitor policy × Except PyError Bool :=
  if monitor.isAwaitingTipProgress = false then (monitor, .ok false)
  else match monitor.tipSeqBaseline with
    | none => (monitor, .ok false)
    | some baseline =>
      match sampleTipSeq sample with
      | .error e => (monitor, .error e)
      | .ok none => (monitor, .ok false)
      | .ok (some tipNow) =>
        if tipNow ≤ baseline then (monitor, .ok false) else (monitor.cancel, .ok true)

/-- `note_connection_closed`. The close is pending before the tip is sampled: where the sample
raises, the tip of an earlier close stays in `tip_seq_before`. -/
def noteConnectionClosed (monitor : PostFlapTipCorrelationMonitor policy) (sample : TipSample)
    (closeMonoMs : Int) : PostFlapTipCorrelationMonitor policy × Except PyError Unit :=
  let monitor := { monitor.cancel with
    pendingClose := true
    closeMonoMs := some closeMonoMs }
  match sampleTipSeq sample with
  | .error e => (monitor, .error e)
  | .ok tipSeqBefore => ({ monitor with tipSeqBefore, lastFlapDurationMs := none }, .ok ())

/-- `note_connection_restored`: the monitor after it, and the timer that it starts. The close is
taken before the tip is sampled. -/
def noteConnectionRestored (monitor : PostFlapTipCorrelationMonitor policy) (sample : TipSample)
    (reconnectWallMs reconnectMonoMs : Int) :
    PostFlapTipCorrelationMonitor policy × Except PyError (Option FlapTimer) :=
  if monitor.pendingClose = false then (monitor, .ok none)
  else
    let monitor := { monitor with pendingClose := false }
    match sampleTipSeq sample with
    | .error e => (monitor, .error e)
    | .ok tipAfter =>
      let monitor := { monitor with
        lastFlapDurationMs := monitor.closeMonoMs.map (reconnectMonoMs - ·) }
      match monitor.tipSeqBefore <|> tipAfter with
      | none => (monitor, .ok none)
      | some baseline =>
        let generation := monitor.generation + 1
        ({ monitor with
            tipSeqBaseline := some baseline
            generation
            watchdogTask := some generation },
          .ok (some ⟨generation, baseline, reconnectWallMs⟩))

/-- `elapsed_seconds`; `nowWallMs` is `none` where the clock raises. -/
def elapsedSeconds (policy : FlapPolicy) (timer : FlapTimer) (nowWallMs : Option Int) : Rat :=
  let elapsedMs : Int :=
    match nowWallMs with
    | none => (policy.staleWindowSeconds * 1000).floor
    | some nowWallMs => max 0 (nowWallMs - timer.reconnectWallMs)
  elapsedMs / 1000

/-- `__evaluate_tip_stale_after_window` behind its sleep, at the time `now`. `none` is a timer that
is not the one of the current window. -/
def evaluateTipStaleAfterWindow (monitor : PostFlapTipCorrelationMonitor policy)
    (timer : FlapTimer) (sample : TipSample) (nowWallMs : Option Int) (now : Rat) :
    PostFlapTipCorrelationMonitor policy × Option TipOutcome :=
  if timer.generation ≠ monitor.generation then (monitor, none)
  else
    let monitor := { monitor with watchdogTask := none, tipSeqBaseline := none }
    match sampleTipSeq sample with
    | .error e => (monitor, some (.raises e))
    | .ok none => (monitor, some .unreadable)
    | .ok (some tipNow) =>
      let elapsed := elapsedSeconds policy timer nowWallMs
      if tipNow > timer.tipSeqBefore then (monitor, some (.advanced tipNow))
      else if monitor.lastHealMono.any fun lastHeal =>
          now - lastHeal < policy.minHealIntervalSeconds then
        (monitor, some (.suppressed timer.tipSeqBefore tipNow elapsed))
      else
        ({ monitor with
            lastHealMono := some now
            lastTipStaleDetection := some (timer.tipSeqBefore, tipNow, elapsed) },
          some (.stale timer.tipSeqBefore tipNow elapsed))

/-! ## What the operations do -/

/-- A close that is noted ends the window, whatever the sample is. The tip before it is the one that
is sampled now, or stays when the sample raises. -/
theorem closed_cases (monitor : PostFlapTipCorrelationMonitor policy) (sample : TipSample)
    (closeMonoMs : Int) :
    let after := (monitor.noteConnectionClosed sample closeMonoMs).1
    after.pendingClose = true ∧ after.generation = monitor.generation + 1 ∧
      after.watchdogTask = none ∧ after.tipSeqBaseline = none ∧
      after.lastHealMono = monitor.lastHealMono ∧
      ((∃ e, sampleTipSeq sample = .error e ∧ after.tipSeqBefore = monitor.tipSeqBefore) ∨
        sampleTipSeq sample = .ok after.tipSeqBefore) := by
  simp only [noteConnectionClosed]
  cases hsample : sampleTipSeq sample with
  | error e => exact ⟨rfl, rfl, rfl, rfl, rfl, .inl ⟨e, rfl, rfl⟩⟩
  | ok tipSeqBefore => exact ⟨rfl, rfl, rfl, rfl, rfl, .inr rfl⟩

/-- A restored connection is ignored without a close. With one it opens a window where the sample
does not raise and one of the two tips is readable. -/
theorem restored_cases (monitor : PostFlapTipCorrelationMonitor policy) (sample : TipSample)
    (reconnectWallMs reconnectMonoMs : Int) :
    let after := monitor.noteConnectionRestored sample reconnectWallMs reconnectMonoMs
    monitor.pendingClose = false ∧ after = (monitor, .ok none) ∨
      monitor.pendingClose = true ∧ after.1.pendingClose = false ∧
        after.1.lastHealMono = monitor.lastHealMono ∧
        after.1.tipSeqBefore = monitor.tipSeqBefore ∧
        ((∀ tipAfter, sampleTipSeq sample = .ok tipAfter →
              (monitor.tipSeqBefore <|> tipAfter) = none) ∧
            after.2.toOption.join = none ∧ after.1.generation = monitor.generation ∧
            after.1.watchdogTask = monitor.watchdogTask ∧
            after.1.tipSeqBaseline = monitor.tipSeqBaseline ∨
          ∃ tipAfter baseline, sampleTipSeq sample = .ok tipAfter ∧
            (monitor.tipSeqBefore <|> tipAfter) = some baseline ∧
            after.2 = .ok (some ⟨monitor.generation + 1, baseline, reconnectWallMs⟩) ∧
            after.1.generation = monitor.generation + 1 ∧
            after.1.watchdogTask = some (monitor.generation + 1) ∧
            after.1.tipSeqBaseline = some baseline) := by
  simp only [noteConnectionRestored]
  cases hpending : monitor.pendingClose with
  | false =>
    rw [if_pos rfl]
    exact .inl ⟨rfl, rfl⟩
  | true =>
    right
    rw [if_neg nofun]
    cases hsample : sampleTipSeq sample with
    | error e => exact ⟨rfl, rfl, rfl, rfl, .inl ⟨by rintro _ ⟨⟩, rfl, rfl, rfl, rfl⟩⟩
    | ok tipAfter =>
      simp only
      cases hbaseline : (monitor.tipSeqBefore <|> tipAfter) with
      | none =>
        refine ⟨trivial, rfl, rfl, rfl, .inl ⟨?_, rfl, rfl, rfl, rfl⟩⟩
        intro _ htip
        cases htip
        exact hbaseline
      | some baseline =>
        exact ⟨trivial, rfl, rfl, rfl,
          .inr ⟨tipAfter, baseline, rfl, hbaseline, rfl, rfl, rfl, rfl⟩⟩

/-- Progress past the baseline ends the window, and nothing else of the call changes it. -/
theorem recordTipProgress_cases (monitor : PostFlapTipCorrelationMonitor policy)
    (sample : TipSample) :
    (monitor.recordTipProgress sample).1 = monitor ∧
        (monitor.recordTipProgress sample).2 ≠ .ok true ∨
      monitor.recordTipProgress sample = (monitor.cancel, .ok true) := by
  unfold recordTipProgress
  split
  · exact .inl ⟨rfl, by simp⟩
  · split
    · exact .inl ⟨rfl, by simp⟩
    · split
      · exact .inl ⟨rfl, by simp⟩
      · exact .inl ⟨rfl, by simp⟩
      · split
        · exact .inl ⟨rfl, by simp⟩
        · exact .inr rfl

/-- The timer of the current window ends it. It heals when the tip is readable and not past the
baseline, unless the last heal was too recent. -/
theorem evaluate_cases (monitor : PostFlapTipCorrelationMonitor policy) (timer : FlapTimer)
    (sample : TipSample) (nowWallMs : Option Int) (now : Rat) :
    let after := monitor.evaluateTipStaleAfterWindow timer sample nowWallMs now
    timer.generation ≠ monitor.generation ∧ after = (monitor, none) ∨
      timer.generation = monitor.generation ∧ after.1.generation = monitor.generation ∧
        after.1.watchdogTask = none ∧ after.1.pendingClose = monitor.pendingClose ∧
        after.1.tipSeqBefore = monitor.tipSeqBefore ∧ ∃ outcome, after.2 = some outcome ∧
          ((∀ before tipNow elapsed, outcome ≠ .stale before tipNow elapsed) ∧
              after.1.lastHealMono = monitor.lastHealMono ∨
            ∃ tipNow elapsed, outcome = .stale timer.tipSeqBefore tipNow elapsed ∧
              readTip sample = some tipNow ∧ tipNow ≤ timer.tipSeqBefore ∧
              after.1.lastHealMono = some now ∧
              ∀ t ∈ monitor.lastHealMono, t + policy.minHealIntervalSeconds ≤ now) := by
  simp only [evaluateTipStaleAfterWindow]
  by_cases hgen : timer.generation = monitor.generation
  · right
    rw [if_neg (not_not.mpr hgen)]
    refine ⟨hgen, ?_⟩
    cases hsample : sampleTipSeq sample with
    | error e => exact ⟨rfl, rfl, rfl, rfl, _, rfl, .inl ⟨nofun, rfl⟩⟩
    | ok tip =>
      cases tip with
      | none => exact ⟨rfl, rfl, rfl, rfl, _, rfl, .inl ⟨nofun, rfl⟩⟩
      | some tipNow =>
        simp only
        split
        · exact ⟨rfl, rfl, rfl, rfl, _, rfl, .inl ⟨nofun, rfl⟩⟩
        · rename_i hle
          split
          · exact ⟨rfl, rfl, rfl, rfl, _, rfl, .inl ⟨nofun, rfl⟩⟩
          · rename_i hdue
            refine ⟨rfl, rfl, rfl, rfl, _, rfl,
              .inr ⟨tipNow, _, rfl, readTip_ok hsample, not_lt.mp hle, rfl, ?_⟩⟩
            intro t ht
            rw [show monitor.lastHealMono = some t from ht] at hdue
            simp only [Option.any_some, decide_eq_true_eq, not_lt] at hdue
            linarith
  · left
    rw [if_pos hgen]
    exact ⟨hgen, rfl⟩

end PostFlapTipCorrelationMonitor

end Leviathan
