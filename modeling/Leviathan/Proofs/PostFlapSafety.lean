import Leviathan.Lib.Run
import Leviathan.Lib.Watchdog
import Leviathan.Network.PostFlap

/-!
# Safety of the post-flap monitor

The monitor is told of closes, restored connections and progress, and is cancelled, in any order,
with any tips, and any timer that it has started may wake at any time, also when its window is over.

* `Safe`: what is to hold in every state of a run.
* `monitor_safe_iff`: **it holds exactly in the runs in which no restored connection takes an old
  tip for the one of a close whose sample raised.**
* `stale_baseline`: a close whose sample overflows leaves the tip of the close before it.

`on_stale` is the last thing that a timer does, so what it calls on the monitor comes as the next
operations of the run.
-/

namespace Leviathan

open PostFlapTipCorrelationMonitor

variable {policy : FlapPolicy}

/-- A monitor, the timers that sleep, and the times of the calls of `on_stale`. -/
structure Correlated (policy : FlapPolicy) where
  monitor : PostFlapTipCorrelationMonitor policy
  asleep : List FlapTimer
  staleTimes : List Rat
  /-- what the provider gave at the last close -/
  atClose : TipSample

inductive CorrelatedOp where
  | noteConnectionClosed (sample : TipSample) (closeMonoMs : Int)
  | noteConnectionRestored (sample : TipSample) (reconnectWallMs reconnectMonoMs : Int)
  | recordTipProgress (sample : TipSample)
  | cancel
  /-- the timer of the generation goes on after its sleep -/
  | wake (generation : Nat) (sample : TipSample) (nowWallMs : Option Int) (now : Rat)

namespace Correlated

def start : Correlated policy := ⟨.new, [], [], .absent⟩

/-- The timer of the generation, while it sleeps. -/
def timer (s : Correlated policy) (generation : Nat) : Option FlapTimer :=
  s.asleep.find? (·.generation == generation)

/-- What the timer finds when it wakes. -/
def expiry (s : Correlated policy) (generation : Nat) (sample : TipSample)
    (nowWallMs : Option Int) (now : Rat) : Option TipOutcome :=
  (s.timer generation).bind fun timer =>
    (s.monitor.evaluateTipStaleAfterWindow timer sample nowWallMs now).2

def step (s : Correlated policy) : CorrelatedOp → Correlated policy
  | .noteConnectionClosed sample closeMonoMs =>
    { s with
      monitor := (s.monitor.noteConnectionClosed sample closeMonoMs).1
      atClose := sample }
  | .noteConnectionRestored sample reconnectWallMs reconnectMonoMs =>
    let after := s.monitor.noteConnectionRestored sample reconnectWallMs reconnectMonoMs
    { s with monitor := after.1, asleep := after.2.toOption.join.toList ++ s.asleep }
  | .recordTipProgress sample => { s with monitor := (s.monitor.recordTipProgress sample).1 }
  | .cancel => { s with monitor := s.monitor.cancel }
  | .wake generation sample nowWallMs now =>
    match s.timer generation with
    | none => s
    | some timer =>
      let after := s.monitor.evaluateTipStaleAfterWindow timer sample nowWallMs now
      { s with
        monitor := after.1
        asleep := s.asleep.eraseP (·.generation == generation)
        staleTimes :=
          match after.2 with
          | some (.stale _ _ _) => s.staleTimes ++ [now]
          | _ => s.staleTimes }

/-- The operation leaves a window open that is: it is no close, no cancel, no progress past the
baseline and no restored connection of another flap, and no timer that it wakes finds the window
open. -/
def LeavesOpen (s : Correlated policy) : CorrelatedOp → Prop
  | .noteConnectionClosed _ _ | .cancel => False
  | .noteConnectionRestored _ _ _ => s.monitor.pendingClose = false
  | .recordTipProgress sample => (s.monitor.recordTipProgress sample).2 ≠ .ok true
  | .wake generation sample nowWallMs now => s.expiry generation sample nowWallMs now = none

/-- The operation neither notes another close nor takes the one that is noted. -/
def LeavesPending (_ : Correlated policy) : CorrelatedOp → Prop
  | .noteConnectionClosed _ _ | .noteConnectionRestored _ _ _ => False
  | .recordTipProgress _ | .cancel | .wake _ _ _ _ => True

/-- The timers against the monitor. -/
def watchdog (s : Correlated policy) : Watchdog :=
  ⟨s.monitor.generation, s.monitor.watchdogTask, s.asleep.map (·.generation)⟩

/-- The baseline of the window that is open. -/
def current (s : Correlated policy) : Option Int :=
  if s.monitor.isAwaitingTipProgress then s.monitor.tipSeqBaseline else none

/-- What the provider gave at the close that is noted. -/
def pending (s : Correlated policy) : Option TipSample :=
  if s.monitor.pendingClose then some s.atClose else none

/-- A restored connection whose close could not sample its tip does not find the tip of a close
before it, unless its own sample raises too or gives the same tip. -/
def NoOldTip (s : Correlated policy) : CorrelatedOp → Prop
  | .noteConnectionRestored atRestore _ _ =>
    s.monitor.pendingClose = true → (sampleTipSeq s.atClose).isOk = false →
      (sampleTipSeq atRestore).isOk = true →
        s.monitor.tipSeqBefore = none ∨ readTip atRestore = s.monitor.tipSeqBefore
  | _ => True

structure Inv (s : Correlated policy) : Prop where
  good : s.watchdog.Good
  /-- the timer of the window has its baseline -/
  baseline : ∀ timer ∈ s.asleep, timer.generation = s.monitor.generation →
    s.monitor.watchdogTask.isSome = true → s.monitor.tipSeqBaseline = some timer.tipSeqBefore
  /-- a close that is noted has ended the window -/
  idle : s.monitor.pendingClose = true → s.monitor.watchdogTask = none
  /-- a close that samples its tip keeps it -/
  sampled : ∀ tip, sampleTipSeq s.atClose = .ok tip → s.monitor.tipSeqBefore = tip
  cooldown : Cooldown policy.minHealIntervalSeconds s.monitor.lastHealMono s.staleTimes

variable {s : Correlated policy}

theorem inv_start : (start : Correlated policy).Inv :=
  ⟨.new, nofun, nofun, by rintro _ ⟨⟩; rfl, .nil⟩

/-! ## Timers -/

theorem timer_some {generation : Nat} {timer : FlapTimer} (h : s.timer generation = some timer) :
    timer ∈ s.asleep ∧ timer.generation = generation := by
  refine ⟨List.mem_of_find?_eq_some h, ?_⟩
  have hgen := List.find?_some h
  simpa using hgen

theorem map_eraseP (timers : List FlapTimer) (generation : Nat) :
    (timers.eraseP (·.generation == generation)).map (·.generation) =
      (timers.map (·.generation)).erase generation := by
  rw [List.erase_eq_eraseP', List.eraseP_map]
  rfl

theorem wake_watchdog {generation : Nat} {timer : FlapTimer}
    (htimer : s.timer generation = some timer) (sample : TipSample) (nowWallMs : Option Int)
    (now : Rat) :
    (s.step (.wake generation sample nowWallMs now)).watchdog = s.watchdog.wake generation := by
  obtain ⟨-, hgeneration⟩ := timer_some htimer
  simp only [step, htimer, watchdog, map_eraseP]
  rcases evaluate_cases s.monitor timer sample nowWallMs now with ⟨hne, hafter⟩ |
    ⟨heq, hgen, htask, -⟩
  · rw [hafter]
    rw [hgeneration] at hne
    exact (@Watchdog.wake_old s.watchdog generation hne).symm
  · rw [hgen, htask]
    rw [hgeneration] at heq
    exact (@Watchdog.wake_current s.watchdog generation heq).symm

/-- A timer leaves the monitor alone and finds nothing, or it ends the window. -/
theorem wake_monitor (s : Correlated policy) (generation : Nat) (sample : TipSample)
    (nowWallMs : Option Int) (now : Rat) :
    let after := s.step (.wake generation sample nowWallMs now)
    after.monitor = s.monitor ∧ s.expiry generation sample nowWallMs now = none ∨
      after.monitor.watchdogTask = none ∧ after.monitor.pendingClose = s.monitor.pendingClose ∧
        after.monitor.tipSeqBefore = s.monitor.tipSeqBefore := by
  cases htimer : s.timer generation with
  | none =>
    simp only [step, expiry, htimer, Option.bind_none]
    exact .inl ⟨trivial, trivial⟩
  | some timer =>
    simp only [step, expiry, htimer, Option.bind_some]
    rcases evaluate_cases s.monitor timer sample nowWallMs now with ⟨-, hafter⟩ |
      ⟨-, -, htask, hpending, hbefore, -⟩
    · rw [hafter]
      exact .inl ⟨rfl, rfl⟩
    · exact .inr ⟨htask, hpending, hbefore⟩

/-- A timer that finds its window open knows the baseline. -/
theorem expiry_current (h : s.Inv) {generation : Nat} {sample : TipSample}
    {nowWallMs : Option Int} {now : Rat} {outcome : TipOutcome}
    (hexpiry : s.expiry generation sample nowWallMs now = some outcome) :
    ∃ timer, s.timer generation = some timer ∧ s.current = some timer.tipSeqBefore ∧
      (s.monitor.evaluateTipStaleAfterWindow timer sample nowWallMs now).2 = some outcome := by
  obtain ⟨timer, htimer, houtcome⟩ := Option.bind_eq_some_iff.mp hexpiry
  obtain ⟨hmem, hgeneration⟩ := timer_some htimer
  refine ⟨timer, htimer, ?_, houtcome⟩
  rcases evaluate_cases s.monitor timer sample nowWallMs now with ⟨-, hafter⟩ | ⟨heq, -⟩
  · rw [hafter] at houtcome
    cases houtcome
  · have htask : s.monitor.watchdogTask = some timer.generation :=
      (h.good.task_iff _).mpr ⟨List.mem_map_of_mem hmem, heq⟩
    have hawait : s.monitor.watchdogTask.isSome = true := by rw [htask]; rfl
    simp only [current, isAwaitingTipProgress, hawait, ↓reduceIte]
    exact h.baseline timer hmem heq hawait

/-! ## The invariant -/

theorem Inv.cancel (h : s.Inv) : (s.step .cancel).Inv := by
  refine ⟨h.good.cancel, ?_, fun _ => rfl, h.sampled, h.cooldown⟩
  intro timer _ _ hawait
  cases hawait

theorem Inv.closed (h : s.Inv) (sample : TipSample) (closeMonoMs : Int) :
    (s.step (.noteConnectionClosed sample closeMonoMs)).Inv := by
  obtain ⟨-, hgen, htask, -, hheal, hbefore⟩ := closed_cases s.monitor sample closeMonoMs
  refine ⟨?_, ?_, fun _ => htask, ?_, ?_⟩
  · simp only [watchdog, step, hgen, htask]
    exact h.good.cancel
  · intro timer _ _ hawait
    simp only [step, htask] at hawait
    cases hawait
  · intro tip htip
    rcases hbefore with ⟨e, he, -⟩ | hok
    · rw [show sampleTipSeq sample = .ok tip from htip] at he
      cases he
    · exact Except.ok.inj (hok.symm.trans htip)
  · simp only [step, hheal]
    exact h.cooldown

theorem Inv.restored (h : s.Inv) (sample : TipSample) (reconnectWallMs reconnectMonoMs : Int) :
    (s.step (.noteConnectionRestored sample reconnectWallMs reconnectMonoMs)).Inv := by
  simp only [step]
  rcases restored_cases s.monitor sample reconnectWallMs reconnectMonoMs with
    ⟨-, hafter⟩ | ⟨hpending, hpending', hheal, hbefore, ⟨-, hnone, hgen, htask, -⟩ |
      ⟨tipAfter, baseline, -, -, hsome, hgen, htask, hbaseline⟩⟩
  · rw [hafter]
    exact h
  · have hidle := h.idle hpending
    rw [hnone]
    refine ⟨?_, ?_, ?_, fun tip htip => hbefore.trans (h.sampled tip htip), ?_⟩
    · simp only [watchdog, hgen, htask, Option.toList_none, List.nil_append]
      exact h.good
    · intro timer _ _ hawait
      rw [htask, hidle] at hawait
      cases hawait
    · intro hagain
      rw [hpending'] at hagain
      cases hagain
    · rw [hheal]
      exact h.cooldown
  · have hstarted : (s.monitor.noteConnectionRestored sample reconnectWallMs
        reconnectMonoMs).2.toOption.join =
        some ⟨s.monitor.generation + 1, baseline, reconnectWallMs⟩ := by
      rw [hsome]
      rfl
    rw [hstarted]
    refine ⟨?_, ?_, ?_, fun tip htip => hbefore.trans (h.sampled tip htip), ?_⟩
    · simp only [watchdog, hgen, htask, Option.toList_some, List.singleton_append, List.map_cons]
      exact h.good.start
    · intro timer htimer heq _
      simp only [hgen, Option.toList_some, List.singleton_append] at htimer heq
      rw [hbaseline]
      rcases List.mem_cons.mp htimer with rfl | hold
      · rfl
      · have hle : timer.generation ≤ s.monitor.generation :=
          h.good.le _ (List.mem_map_of_mem hold)
        omega
    · intro hagain
      rw [hpending'] at hagain
      cases hagain
    · rw [hheal]
      exact h.cooldown

theorem Inv.wake (h : s.Inv) (generation : Nat) (sample : TipSample) (nowWallMs : Option Int)
    (now : Rat) : (s.step (.wake generation sample nowWallMs now)).Inv := by
  cases htimer : s.timer generation with
  | none =>
    simp only [step, htimer]
    exact h
  | some timer =>
    have hgood : (s.step (.wake generation sample nowWallMs now)).watchdog.Good := by
      rw [wake_watchdog htimer]
      exact h.good.wake generation
    refine ⟨hgood, ?_, ?_, ?_, ?_⟩
    all_goals
      simp only [step, htimer]
      rcases evaluate_cases s.monitor timer sample nowWallMs now with ⟨-, hafter⟩ |
        ⟨-, -, htask, -, hbefore, outcome, houtcome, ⟨hquiet, hheal⟩ |
          ⟨tipNow, elapsed, rfl, -, -, hheal, hdue⟩⟩
    · rw [hafter]
      intro other hother
      exact h.baseline other (List.mem_of_mem_eraseP hother)
    · intro other _ _ hawait
      rw [htask] at hawait
      cases hawait
    · intro other _ _ hawait
      rw [htask] at hawait
      cases hawait
    · rw [hafter]
      exact h.idle
    · exact fun _ => htask
    · exact fun _ => htask
    · rw [hafter]
      exact h.sampled
    · exact fun tip htip => hbefore.trans (h.sampled tip htip)
    · exact fun tip htip => hbefore.trans (h.sampled tip htip)
    · rw [hafter]
      exact h.cooldown
    · rw [houtcome, hheal]
      cases outcome with
      | stale before tipNow elapsed => exact absurd rfl (hquiet before tipNow elapsed)
      | raises | unreadable | advanced | suppressed => exact h.cooldown
    · rw [houtcome, hheal]
      exact h.cooldown.snoc policy.minHealIntervalSeconds_nonneg hdue

theorem Inv.step (h : s.Inv) (op : CorrelatedOp) : (s.step op).Inv := by
  cases op with
  | noteConnectionClosed sample closeMonoMs => exact h.closed sample closeMonoMs
  | noteConnectionRestored sample reconnectWallMs reconnectMonoMs =>
    exact h.restored sample reconnectWallMs reconnectMonoMs
  | recordTipProgress sample =>
    simp only [Correlated.step]
    rcases recordTipProgress_cases s.monitor sample with ⟨hsame, -⟩ | hafter
    · rw [hsame]
      exact h
    · rw [hafter]
      exact h.cancel
  | cancel => exact h.cancel
  | wake generation sample nowWallMs now => exact h.wake generation sample nowWallMs now

/-! ## Histories -/

/-- A restored connection that takes the close of `atClose` and opens a window with the baseline. -/
def Opens (s : Correlated policy) (op : CorrelatedOp) (baseline : Int) : Prop :=
  ∃ atRestore reconnectWallMs reconnectMonoMs tipAfter,
    op = .noteConnectionRestored atRestore reconnectWallMs reconnectMonoMs ∧
      s.pending = some s.atClose ∧ sampleTipSeq atRestore = .ok tipAfter ∧
      (s.monitor.tipSeqBefore <|> tipAfter) = some baseline

/-- A close at which the provider gives `atClose`. -/
def Closes (op : CorrelatedOp) (atClose : TipSample) : Prop :=
  ∃ closeMonoMs, op = .noteConnectionClosed atClose closeMonoMs

theorem current_none (h : s.monitor.watchdogTask = none) : s.current = none := by
  simp only [current, isAwaitingTipProgress, h, Option.isSome_none, Bool.false_eq_true, ↓reduceIte]

/-- A restored connection that takes a close opens a window where a tip is readable. -/
theorem current_restored (hpending : s.monitor.pendingClose = true) {atRestore : TipSample}
    {tipAfter : Option Int} (hsample : sampleTipSeq atRestore = .ok tipAfter) {baseline : Int}
    (hbaseline : (s.monitor.tipSeqBefore <|> tipAfter) = some baseline)
    (reconnectWallMs reconnectMonoMs : Int) :
    (s.step (.noteConnectionRestored atRestore reconnectWallMs reconnectMonoMs)).current =
      some baseline := by
  rcases restored_cases s.monitor atRestore reconnectWallMs reconnectMonoMs with
    ⟨hfalse, -⟩ | ⟨-, -, -, -, ⟨hnone, -⟩ | ⟨tipAfter', baseline', hok, hsome, -, -, htask, hopen⟩⟩
  · rw [hpending] at hfalse
    cases hfalse
  · rw [hnone tipAfter hsample] at hbaseline
    cases hbaseline
  · obtain rfl : tipAfter' = tipAfter := Except.ok.inj (hok.symm.trans hsample)
    obtain rfl : baseline' = baseline := Option.some.inj (hsome.symm.trans hbaseline)
    simp only [current, isAwaitingTipProgress, step, htask, hopen, Option.isSome_some, ↓reduceIte]

/-- A window that is open was opened by this operation, or left open by it. -/
theorem current_step (h : s.Inv) (op : CorrelatedOp) {baseline : Int}
    (hcurrent : (s.step op).current = some baseline) :
    s.Opens op baseline ∨ s.current = some baseline ∧ s.LeavesOpen op := by
  cases op with
  | noteConnectionClosed sample closeMonoMs =>
    obtain ⟨-, -, htask, -⟩ := closed_cases s.monitor sample closeMonoMs
    rw [current_none htask] at hcurrent
    cases hcurrent
  | cancel =>
    rw [current_none rfl] at hcurrent
    cases hcurrent
  | noteConnectionRestored sample reconnectWallMs reconnectMonoMs =>
    simp only [step] at hcurrent
    rcases restored_cases s.monitor sample reconnectWallMs reconnectMonoMs with
      ⟨hpending, hafter⟩ | ⟨hpending, -, -, -, ⟨-, -, -, htask, -⟩ |
        ⟨tipAfter, baseline', hsample, hsome, -, -, htask, hbaseline⟩⟩
    · rw [hafter] at hcurrent
      exact .inr ⟨hcurrent, hpending⟩
    · rw [h.idle hpending] at htask
      rw [current_none htask] at hcurrent
      cases hcurrent
    · left
      simp only [current, isAwaitingTipProgress, htask, hbaseline, Option.isSome_some,
        ↓reduceIte] at hcurrent
      obtain rfl := Option.some.inj hcurrent
      exact ⟨sample, reconnectWallMs, reconnectMonoMs, tipAfter, rfl, if_pos hpending, hsample, hsome⟩
  | recordTipProgress sample =>
    simp only [step] at hcurrent
    rcases recordTipProgress_cases s.monitor sample with ⟨hsame, hfalse⟩ | hafter
    · rw [hsame] at hcurrent
      exact .inr ⟨hcurrent, hfalse⟩
    · rw [hafter, current_none rfl] at hcurrent
      cases hcurrent
  | wake generation sample nowWallMs now =>
    right
    rcases s.wake_monitor generation sample nowWallMs now with ⟨hsame, hnone⟩ | ⟨htask, -⟩
    · rw [current, hsame] at hcurrent
      exact ⟨hcurrent, hnone⟩
    · rw [current_none htask] at hcurrent
      cases hcurrent

/-- A close notes one, whatever its sample is, and a restored connection takes it. -/
theorem pendingClose_step (s : Correlated policy) (op : CorrelatedOp) :
    (s.step op).monitor.pendingClose =
      match op with
      | .noteConnectionClosed _ _ => true
      | .noteConnectionRestored _ _ _ => false
      | _ => s.monitor.pendingClose := by
  cases op with
  | noteConnectionClosed sample closeMonoMs => exact (closed_cases s.monitor sample closeMonoMs).1
  | cancel => rfl
  | noteConnectionRestored sample reconnectWallMs reconnectMonoMs =>
    simp only [step]
    rcases restored_cases s.monitor sample reconnectWallMs reconnectMonoMs with
      ⟨hfalse, hafter⟩ | ⟨-, hfalse, -⟩
    · rw [hafter]
      exact hfalse
    · exact hfalse
  | recordTipProgress sample =>
    simp only [step]
    rcases recordTipProgress_cases s.monitor sample with ⟨hsame, -⟩ | hafter
    · rw [hsame]
    · rw [hafter]
      rfl
  | wake generation sample nowWallMs now =>
    rcases s.wake_monitor generation sample nowWallMs now with ⟨hsame, -⟩ | ⟨-, hpending, -⟩
    · rw [hsame]
    · exact hpending

/-- Only a close changes what was given at the last one. -/
theorem atClose_step (s : Correlated policy) (op : CorrelatedOp) :
    (∃ atClose, Closes op atClose) ∨ (s.step op).atClose = s.atClose := by
  cases op with
  | noteConnectionClosed sample closeMonoMs => exact .inl ⟨sample, closeMonoMs, rfl⟩
  | cancel | noteConnectionRestored | recordTipProgress => exact .inr rfl
  | wake generation sample nowWallMs now =>
    right
    simp only [step]
    split <;> rfl

theorem atClose_exec {ops : List CorrelatedOp} (h : Run.Each step LeavesPending s ops) :
    (Run.exec step s ops).atClose = s.atClose := by
  induction ops generalizing s with
  | nil => rfl
  | cons op ops ih =>
    refine (ih h.2).trans ((atClose_step s op).resolve_left ?_)
    rintro ⟨atClose, closeMonoMs, rfl⟩
    exact h.1

/-- A close that is noted was noted by this operation, or before it. -/
theorem pending_step (s : Correlated policy) (op : CorrelatedOp) {atClose : TipSample}
    (hpending : (s.step op).pending = some atClose) :
    Closes op atClose ∨ s.pending = some atClose ∧ s.LeavesPending op := by
  have hclose := pendingClose_step s op
  rcases atClose_step s op with ⟨_, closeMonoMs, rfl⟩ | hsame
  · simp only [pending, hclose, ↓reduceIte] at hpending
    obtain rfl := Option.some.inj hpending
    exact .inl ⟨closeMonoMs, rfl⟩
  · cases op with
    | noteConnectionClosed sample closeMonoMs =>
      simp only [pending, hclose, ↓reduceIte] at hpending
      obtain rfl := Option.some.inj hpending
      exact .inl ⟨closeMonoMs, rfl⟩
    | noteConnectionRestored sample reconnectWallMs reconnectMonoMs =>
      simp only [pending, hclose, Bool.false_eq_true, ↓reduceIte] at hpending
      cases hpending
    | recordTipProgress | cancel | wake =>
      simp only [pending, hclose, hsame] at hpending
      exact .inr ⟨hpending, trivial⟩

/-! ## Safety -/

/-- The state that the operations reach. -/
def reached (policy : FlapPolicy) (ops : List CorrelatedOp) : Correlated policy :=
  Run.exec step start ops

theorem reached_append (policy : FlapPolicy) (front : List CorrelatedOp) (op : CorrelatedOp)
    (ops : List CorrelatedOp) :
    reached policy (front ++ op :: ops) = Run.exec step (reached policy (front ++ [op])) ops := by
  rw [List.append_cons, reached, Run.exec_append]
  rfl

/-- What is to hold in the state that the operations `ops` reach. -/
structure Safe (policy : FlapPolicy) (ops : List CorrelatedOp) : Prop where
  /-- at most one timer would find its window open -/
  oneLive : ((reached policy ops).asleep.map (·.generation)).count
    (reached policy ops).monitor.generation ≤ 1
  awaiting : (reached policy ops).monitor.isAwaitingTipProgress = true ↔
    (reached policy ops).monitor.generation ∈ (reached policy ops).asleep.map (·.generation)
  /-- the baseline of an open window is the tip at the close, or the one at the restored connection
  when that is unreadable; nothing came between the two that notes or takes a close, and nothing has
  ended the window since -/
  window : ∀ baseline, (reached policy ops).current = some baseline →
    ∃ before atClose closeMonoMs between atRestore reconnectWallMs reconnectMonoMs after,
      ops = before ++ .noteConnectionClosed atClose closeMonoMs :: between ++
        .noteConnectionRestored atRestore reconnectWallMs reconnectMonoMs :: after ∧
      (readTip atClose <|> readTip atRestore) = some baseline ∧
      Run.Each step LeavesPending (reached policy
        (before ++ [.noteConnectionClosed atClose closeMonoMs])) between ∧
      Run.Each step LeavesOpen (reached policy
        (before ++ .noteConnectionClosed atClose closeMonoMs :: between ++
          [.noteConnectionRestored atRestore reconnectWallMs reconnectMonoMs])) after
  /-- `on_stale` is called with the baseline of a window that is still open, and with a tip that is
  readable and not past it -/
  onStale : ∀ generation sample nowWallMs now tipSeqBefore tipNow elapsed,
    (reached policy ops).expiry generation sample nowWallMs now =
        some (.stale tipSeqBefore tipNow elapsed) →
      (reached policy ops).current = some tipSeqBefore ∧ readTip sample = some tipNow ∧
        tipNow ≤ tipSeqBefore
  /-- the calls of `on_stale` keep the interval -/
  spaced : (reached policy ops).staleTimes.Pairwise fun t t' =>
    t + policy.minHealIntervalSeconds ≤ t'

theorem inv_reached (policy : FlapPolicy) (ops : List CorrelatedOp) : (reached policy ops).Inv :=
  Run.exec_of_step (fun _ op h => h.step op) inv_start ops

/-- The baseline of a window is the tip of its close, or of its restored connection. -/
theorem Inv.baseline_eq (h : s.Inv) {atRestore : TipSample} {reconnectWallMs reconnectMonoMs : Int}
    (hold : s.NoOldTip (.noteConnectionRestored atRestore reconnectWallMs reconnectMonoMs))
    (hpending : s.pending = some s.atClose) {tipAfter : Option Int}
    (hsample : sampleTipSeq atRestore = .ok tipAfter) {baseline : Int}
    (hbaseline : (s.monitor.tipSeqBefore <|> tipAfter) = some baseline) :
    (readTip s.atClose <|> readTip atRestore) = some baseline := by
  have hclose : s.monitor.pendingClose = true := by
    by_contra hfalse
    simp [pending, hfalse] at hpending
  rw [readTip_ok hsample]
  cases hat : sampleTipSeq s.atClose with
  | ok tip =>
    rw [readTip_ok hat, ← h.sampled tip hat]
    exact hbaseline
  | error e =>
    rw [readTip_error hat]
    have hcases := hold hclose (by rw [hat]; rfl) (by rw [hsample]; rfl)
    rw [readTip_ok hsample] at hcases
    rcases hcases with hnone | hsame
    · rw [hnone] at hbaseline
      exact hbaseline
    · rw [← hsame] at hbaseline
      cases tipAfter with
      | none => exact hbaseline
      | some tip => exact hbaseline

/-- The monitor is safe at the end of a run in which no old tip is taken. -/
theorem safe_of_noOldTip {ops : List CorrelatedOp}
    (hops : Run.Each step NoOldTip (start : Correlated policy) ops) : Safe policy ops := by
  have h := inv_reached policy ops
  refine ⟨h.good.count_le_one, h.good.task_isSome_iff, ?_, ?_, h.cooldown.spaced⟩
  · intro baseline hcurrent
    obtain ⟨front, op, after, rfl, ⟨atRestore, reconnectWallMs, reconnectMonoMs, tipAfter, rfl,
        hpending, hsample, hbaseline⟩, hafter⟩ :=
      @Run.exec_since _ _ step Inv LeavesOpen _ current Opens (fun _ op h => h.step op)
        (fun s op _ h => current_step h op) _ inv_start rfl _ _ hcurrent
    have htip : (readTip (Run.exec step start front).atClose <|> readTip atRestore) = some baseline :=
      (inv_reached policy front).baseline_eq (Run.Each.append_iff.mp hops).2.1 hpending hsample
        hbaseline
    generalize (Run.exec step start front).atClose = atClose at hpending htip
    obtain ⟨before, op, between, rfl, ⟨closeMonoMs, rfl⟩, hbetween⟩ :=
      @Run.exec_since _ _ step Inv LeavesPending _ pending (fun _ => Closes)
        (fun _ op h => h.step op) (fun s op _ _ => pending_step s op) _ inv_start rfl _ _ hpending
    refine ⟨before, atClose, closeMonoMs, between, atRestore, reconnectWallMs, reconnectMonoMs,
      after, rfl, htip, ?_, ?_⟩
    · rw [reached, Run.exec_snoc]
      exact hbetween
    · rw [reached, Run.exec_snoc]
      exact hafter
  · intro generation sample nowWallMs now tipSeqBefore tipNow elapsed hexpiry
    obtain ⟨timer, -, hcurrent, houtcome⟩ := expiry_current h hexpiry
    rcases evaluate_cases (reached policy ops).monitor timer sample nowWallMs now with
      ⟨-, hafter⟩ | ⟨-, -, -, -, -, outcome, hsome, ⟨hquiet, -⟩ |
        ⟨tipNow', elapsed', rfl, hsample, hle, -⟩⟩
    · rw [hafter] at houtcome
      cases houtcome
    · rw [hsome] at houtcome
      exact absurd (Option.some.inj houtcome) (hquiet _ _ _)
    · rw [hsome] at houtcome
      cases houtcome
      exact ⟨hcurrent, hsample, hle⟩

/-- The close that is noted is the one that was noted last. -/
theorem atClose_reached {before between : List CorrelatedOp} {atClose : TipSample} {closeMonoMs : Int}
    (h : Run.Each step LeavesPending
      (reached policy (before ++ [.noteConnectionClosed atClose closeMonoMs])) between) :
    (reached policy (before ++ .noteConnectionClosed atClose closeMonoMs :: between)).atClose =
      atClose := by
  rw [reached_append]
  refine (atClose_exec h).trans ?_
  rw [reached, Run.exec_snoc]
  rfl

/-- An old tip that is taken is the baseline of a window of no close and no restored connection. -/
theorem noOldTip_of_safe {ops : List CorrelatedOp} {op : CorrelatedOp}
    (h : Safe policy (ops ++ [op])) : (reached policy ops).NoOldTip op := by
  cases op with
  | noteConnectionRestored sample reconnectWallMs reconnectMonoMs =>
    intro hpending hraised hok
    cases hbefore : (reached policy ops).monitor.tipSeqBefore with
    | none => exact .inl rfl
    | some tip =>
      right
      obtain ⟨tipAfter, hsample⟩ : ∃ tipAfter, sampleTipSeq sample = .ok tipAfter := by
        cases hs : sampleTipSeq sample with
        | ok tipAfter => exact ⟨tipAfter, rfl⟩
        | error e => simp [hs, Except.isOk, Except.toBool] at hok
      have hcurrent : (reached policy (ops ++ [.noteConnectionRestored sample reconnectWallMs
          reconnectMonoMs])).current = some tip := by
        rw [reached, Run.exec_snoc]
        refine current_restored hpending hsample ?_ _ _
        rw [hbefore]
        rfl
      obtain ⟨before, atClose, closeMonoMs, between, atRestore, wallMs, monoMs, after, heq,
        hbaseline, hbetween, hafter⟩ := h.window tip hcurrent
      rcases List.eq_nil_or_concat after with rfl | ⟨init, last, rfl⟩
      · -- the last restored connection has opened the window
        obtain ⟨rfl, hlast⟩ := List.append_inj' heq rfl
        cases hlast
        rw [atClose_reached hbetween] at hraised
        cases hclose : sampleTipSeq atClose with
        | ok tip => simp [hclose, Except.isOk, Except.toBool] at hraised
        | error e =>
          rw [readTip_error hclose] at hbaseline
          exact hbaseline
      · -- it would have left an older window open, but it takes a close
        have hsplit : ops ++ [.noteConnectionRestored sample reconnectWallMs reconnectMonoMs] =
            (before ++ .noteConnectionClosed atClose closeMonoMs :: between ++
              .noteConnectionRestored atRestore wallMs monoMs :: init) ++ [last] := by
          rw [heq, List.concat_eq_append]
          simp
        obtain ⟨rfl, hlast⟩ := List.append_inj' hsplit rfl
        cases hlast
        rw [List.concat_eq_append] at hafter
        have hopen := (Run.Each.append_iff.mp hafter).2.1
        have hfalse : (reached policy (before ++ .noteConnectionClosed atClose closeMonoMs ::
            between ++ .noteConnectionRestored atRestore wallMs monoMs :: init)).monitor.pendingClose =
            false := by
          rw [reached_append]
          exact hopen
        rw [hpending] at hfalse
        cases hfalse
  | noteConnectionClosed | recordTipProgress | cancel | wake => trivial

/-- **The monitor is safe in every state of exactly the runs in which no old tip is taken.** -/
theorem monitor_safe_iff (policy : FlapPolicy) (ops : List CorrelatedOp) :
    (∀ front, front <+: ops → Safe policy front) ↔
      Run.Each step NoOldTip (start : Correlated policy) ops := by
  constructor
  · intro h
    induction ops using List.reverseRecOn with
    | nil => trivial
    | append_singleton ops op ih =>
      refine Run.Each.append_iff.mpr ⟨ih fun front hfront => ?_, ?_, trivial⟩
      · exact h front (hfront.trans (List.prefix_append ops [op]))
      · exact noOldTip_of_safe (h _ (List.prefix_refl _))
  · rintro hops front ⟨after, rfl⟩
    exact safe_of_noOldTip (Run.Each.append_iff.mp hops).1

/-- **A close whose sample overflows leaves the tip of the close before it.** The tip was 5 when the
connection was first lost. When it is lost again the provider gives an infinite number, and when it
is restored the tip is 10: the window waits for a tip past 5. -/
theorem stale_baseline :
    ¬Safe .default [.noteConnectionClosed (.value 5) 0, .noteConnectionRestored (.value 5) 1 1,
      .noteConnectionClosed (.overflows "cannot convert float infinity to integer".toList) 2,
      .noteConnectionRestored (.value 10) 3 3] := by
  intro h
  have hold := @noOldTip_of_safe .default [.noteConnectionClosed (.value 5) 0,
    .noteConnectionRestored (.value 5) 1 1,
    .noteConnectionClosed (.overflows "cannot convert float infinity to integer".toList) 2] _ h
  have hcases := hold (by decide) (by decide) (by decide)
  revert hcases
  decide

end Correlated

end Leviathan
