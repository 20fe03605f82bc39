import Leviathan.Lib.Run
import Leviathan.Lib.Watchdog
import Leviathan.State.WriteLiveness
import Mathlib.Algebra.Order.Ring.Rat
import Mathlib.Tactic.Linarith

/-!
# Safety of the write-liveness guard

The guard is armed, told of journal writes and cancelled in any order, and any timer that it has
started may wake at any time, also when its window is over: `guard_safe`.

`on_stale` is the last thing that a timer does, so what it calls on the guard comes as the next
operations of the run.
-/

namespace Leviathan

open Py PostReconnectWriteLivenessGuard

variable {policy : LivenessPolicy}

/-- A guard, the timers that sleep, and the calls of `on_stale`: the symbols and the time. -/
structure Guarded (policy : LivenessPolicy) where
  guard : PostReconnectWriteLivenessGuard policy
  asleep : List Nat
  staleCalls : List (Finset Str × Rat)

inductive GuardedOp where
  | armAfterSubscriptionsConfirmed (confirmedSymbols : Finset Str)
      (connectGeneration : Option Int) (now : Rat)
  | recordJournalWrite
  | cancel
  /-- the timer of the generation goes on after its sleep -/
  | wake (generation : Nat) (now : Rat)

namespace Guarded

def start : Guarded policy := ⟨.new, [], []⟩

/-- What the timer reports when it wakes. -/
def expiry (s : Guarded policy) (generation : Nat) (now : Rat) : Option StaleReport :=
  if generation ∈ s.asleep then (s.guard.evaluateAfterTimeout generation now).2 else none

def step (s : Guarded policy) : GuardedOp → Guarded policy
  | .armAfterSubscriptionsConfirmed confirmedSymbols connectGeneration now =>
    match s.guard.armAfterSubscriptionsConfirmed confirmedSymbols connectGeneration now with
    | .error _ => s
    | .ok guard => { s with guard, asleep := guard.generation :: s.asleep }
  | .recordJournalWrite => { s with guard := s.guard.recordJournalWrite }
  | .cancel => { s with guard := s.guard.cancel }
  | .wake generation now =>
    if generation ∈ s.asleep then
      { guard := (s.guard.evaluateAfterTimeout generation now).1
        asleep := s.asleep.erase generation
        staleCalls :=
          match s.expiry generation now with
          | some (.failed confirmed _) => s.staleCalls ++ [(confirmed, now)]
          | _ => s.staleCalls }
    else s

/-- The operation leaves a window open that is: it is no write, no cancel and no arm that is
accepted, and no timer that it wakes finds the window open. -/
def LeavesOpen (s : Guarded policy) : GuardedOp → Prop
  | .armAfterSubscriptionsConfirmed confirmedSymbols connectGeneration now =>
    ∃ e, s.guard.armAfterSubscriptionsConfirmed confirmedSymbols connectGeneration now = .error e
  | .recordJournalWrite | .cancel => False
  | .wake generation now => s.expiry generation now = none

/-- The timers against the guard. -/
def watchdog (s : Guarded policy) : Watchdog :=
  ⟨s.guard.generation, s.guard.watchdogTask, s.asleep⟩

/-- The symbols of the window that is open. -/
def current (s : Guarded policy) : Option (Finset Str) :=
  if s.guard.isAwaitingWrite then some s.guard.confirmedSymbols else none

structure Inv (s : Guarded policy) : Prop where
  good : s.watchdog.Good
  cooldown : Cooldown policy.minHealIntervalSeconds s.guard.lastHealMono
    (s.staleCalls.map Prod.snd)

variable {s : Guarded policy}

theorem inv_start : (start : Guarded policy).Inv := ⟨.new, .nil⟩

/-! ## Arms -/

/-- **What an accepted arm does.** Only its arguments decide whether it is accepted. -/
theorem arm_cases (guard : PostReconnectWriteLivenessGuard policy) (confirmedSymbols : Finset Str)
    (connectGeneration : Option Int) (now : Rat) :
    if confirmedSymbols ≠ ∅ ∧ [] ∉ confirmedSymbols ∧ ∀ n ∈ connectGeneration, (1 : Int) ≤ n then
      guard.armAfterSubscriptionsConfirmed confirmedSymbols connectGeneration now =
        .ok { guard with
          generation := guard.generation + 1 + 1
          confirmedSymbols
          armedAtMono := some now
          armCount := guard.armCount + 1
          watchdogTask := some (guard.generation + 1 + 1) }
    else ∃ e,
      guard.armAfterSubscriptionsConfirmed confirmedSymbols connectGeneration now = .error e := by
  unfold armAfterSubscriptionsConfirmed
  by_cases hempty : confirmedSymbols = ∅
  · simp only [hempty, ne_eq, not_true_eq_false, false_and, ↓reduceIte]
    exact ⟨_, rfl⟩
  by_cases hblank : [] ∈ confirmedSymbols
  · simp only [hempty, hblank, not_true_eq_false, and_false, false_and, ↓reduceIte]
    exact ⟨_, rfl⟩
  cases connectGeneration with
  | none => simp [hempty, hblank, PostReconnectWriteLivenessGuard.cancel]
  | some n =>
    by_cases hn : n < 1
    · have hn' : ¬(1 : Int) ≤ n := by omega
      simp [hempty, hblank, hn, hn']
    · have hn' : (1 : Int) ≤ n := by omega
      simp [hempty, hblank, hn, hn', PostReconnectWriteLivenessGuard.cancel]

theorem arm_ok {guard guard' : PostReconnectWriteLivenessGuard policy}
    {confirmedSymbols : Finset Str} {connectGeneration : Option Int} {now : Rat}
    (h : guard.armAfterSubscriptionsConfirmed confirmedSymbols connectGeneration now = .ok guard') :
    guard' = { guard with
      generation := guard.generation + 1 + 1
      confirmedSymbols
      armedAtMono := some now
      armCount := guard.armCount + 1
      watchdogTask := some (guard.generation + 1 + 1) } := by
  have hcases := arm_cases guard confirmedSymbols connectGeneration now
  split at hcases
  · rw [hcases] at h
    exact (Except.ok.inj h).symm
  · obtain ⟨e, he⟩ := hcases
    rw [he] at h
    cases h

/-! ## Expiries -/

/-- A timer that finds its window open ends it, and heals unless the last heal was too recent. -/
theorem evaluate_cases (guard : PostReconnectWriteLivenessGuard policy) (generation : Nat)
    (now : Rat) :
    let after := guard.evaluateAfterTimeout generation now
    generation ≠ guard.generation ∧ after = (guard, none) ∨
      generation = guard.generation ∧ after.1.generation = guard.generation ∧
        after.1.watchdogTask = none ∧ after.1.armCount = guard.armCount ∧ ∃ elapsed,
          (after.2 = some (.suppressed guard.confirmedSymbols elapsed) ∧
              after.1.lastHealMono = guard.lastHealMono ∨
            after.2 = some (.failed guard.confirmedSymbols elapsed) ∧
              after.1.lastHealMono = some now ∧
              ∀ t ∈ guard.lastHealMono, t + policy.minHealIntervalSeconds ≤ now) := by
  simp only [evaluateAfterTimeout]
  by_cases hgen : generation = guard.generation
  · right
    rw [if_neg (not_not.mpr hgen)]
    refine ⟨hgen, ?_⟩
    split
    · exact ⟨rfl, rfl, rfl, _, .inl ⟨rfl, rfl⟩⟩
    · rename_i hdue
      refine ⟨rfl, rfl, rfl, _, .inr ⟨rfl, rfl, ?_⟩⟩
      intro t ht
      rw [show guard.lastHealMono = some t from ht] at hdue
      simp only [Option.any_some, decide_eq_true_eq, not_lt] at hdue
      linarith
  · left
    rw [if_pos hgen]
    exact ⟨hgen, rfl⟩

theorem wake_watchdog (s : Guarded policy) {generation : Nat} (hmem : generation ∈ s.asleep)
    (now : Rat) : (s.step (.wake generation now)).watchdog = s.watchdog.wake generation := by
  have hs : (s.step (.wake generation now)).watchdog =
      ⟨(s.guard.evaluateAfterTimeout generation now).1.generation,
        (s.guard.evaluateAfterTimeout generation now).1.watchdogTask,
        s.asleep.erase generation⟩ := by
    simp only [step, if_pos hmem, watchdog]
  rw [hs]
  rcases evaluate_cases s.guard generation now with ⟨hne, hafter⟩ | ⟨heq, hgen, htask, -⟩
  · rw [hafter]
    exact (@Watchdog.wake_old s.watchdog generation hne).symm
  · rw [hgen, htask]
    exact (@Watchdog.wake_current s.watchdog generation heq).symm

/-- The timer that is to find its window open reports the symbols of the window. -/
theorem expiry_current (h : s.Inv) {generation : Nat} {now : Rat} {report : StaleReport}
    (hreport : s.expiry generation now = some report) :
    s.current = some s.guard.confirmedSymbols ∧ ∃ elapsed,
      report = .suppressed s.guard.confirmedSymbols elapsed ∨
        report = .failed s.guard.confirmedSymbols elapsed := by
  unfold expiry at hreport
  split at hreport
  · rename_i hmem
    rcases evaluate_cases s.guard generation now with ⟨-, hafter⟩ | ⟨heq, -, -, -, elapsed, hafter⟩
    · rw [hafter] at hreport
      cases hreport
    · have htask : s.guard.watchdogTask = some generation :=
        (h.good.task_iff generation).mpr ⟨hmem, heq⟩
      refine ⟨?_, elapsed, ?_⟩
      · simp only [current, isAwaitingWrite, htask, Option.isSome_some, ↓reduceIte]
      · rcases hafter with ⟨hsuppressed, -⟩ | ⟨hfailed, -⟩
        · rw [hsuppressed] at hreport
          exact .inl (Option.some.inj hreport).symm
        · rw [hfailed] at hreport
          exact .inr (Option.some.inj hreport).symm
  · cases hreport

/-! ## The invariant -/

theorem Inv.step (h : s.Inv) (op : GuardedOp) : (s.step op).Inv := by
  cases op with
  | armAfterSubscriptionsConfirmed confirmedSymbols connectGeneration now =>
    unfold Guarded.step
    simp only
    split
    · exact h
    · rename_i guard harm
      rw [arm_ok harm]
      exact ⟨h.good.cancel.start, h.cooldown⟩
  | recordJournalWrite =>
    simp only [Guarded.step, recordJournalWrite]
    split
    · exact ⟨h.good.cancel, h.cooldown⟩
    · exact h
  | cancel => exact ⟨h.good.cancel, h.cooldown⟩
  | wake generation now =>
    by_cases hmem : generation ∈ s.asleep
    · refine ⟨?_, ?_⟩
      · rw [wake_watchdog s hmem]
        exact h.good.wake generation
      · simp only [Guarded.step, if_pos hmem, expiry]
        rcases evaluate_cases s.guard generation now with ⟨-, hafter⟩ |
          ⟨-, -, -, -, elapsed, ⟨hsuppressed, hheal⟩ | ⟨hfailed, hheal, hdue⟩⟩
        · rw [hafter]
          exact h.cooldown
        · rw [hsuppressed, hheal]
          exact h.cooldown
        · rw [hfailed, hheal]
          simp only [List.map_append, List.map_cons, List.map_nil]
          exact h.cooldown.snoc policy.minHealIntervalSeconds_nonneg hdue
    · simp only [Guarded.step, if_neg hmem]
      exact h

theorem current_cancel (s : Guarded policy) : (s.step .cancel).current = none := rfl

/-- A window that is open was opened by this operation, or left open by it. -/
theorem current_step (s : Guarded policy) (op : GuardedOp) {symbols : Finset Str}
    (hcurrent : (s.step op).current = some symbols) :
    (∃ connectGeneration now guard,
        op = .armAfterSubscriptionsConfirmed symbols connectGeneration now ∧
          s.guard.armAfterSubscriptionsConfirmed symbols connectGeneration now = .ok guard) ∨
      s.current = some symbols ∧ s.LeavesOpen op := by
  cases op with
  | armAfterSubscriptionsConfirmed confirmedSymbols connectGeneration now =>
    unfold Guarded.step at hcurrent
    simp only at hcurrent
    split at hcurrent
    · rename_i e harm
      exact .inr ⟨hcurrent, e, harm⟩
    · rename_i guard harm
      left
      rw [arm_ok harm] at hcurrent
      obtain rfl : confirmedSymbols = symbols := Option.some.inj hcurrent
      exact ⟨connectGeneration, now, guard, rfl, harm⟩
  | recordJournalWrite =>
    by_cases hawait : s.guard.isAwaitingWrite
    · have hs : s.step .recordJournalWrite = s.step .cancel := by
        simp only [Guarded.step, recordJournalWrite, hawait, ↓reduceIte]
      rw [hs, current_cancel] at hcurrent
      cases hcurrent
    · have hs : s.step .recordJournalWrite = s := by
        simp only [Guarded.step, recordJournalWrite, hawait, Bool.false_eq_true, ↓reduceIte]
      rw [hs, current, if_neg hawait] at hcurrent
      cases hcurrent
  | cancel =>
    rw [current_cancel] at hcurrent
    cases hcurrent
  | wake generation now =>
    right
    by_cases hmem : generation ∈ s.asleep
    · simp only [Guarded.step, if_pos hmem, current, isAwaitingWrite] at hcurrent
      rcases evaluate_cases s.guard generation now with ⟨-, hafter⟩ | ⟨-, -, htask, -⟩
      · rw [hafter] at hcurrent
        refine ⟨hcurrent, ?_⟩
        simp only [LeavesOpen, expiry, if_pos hmem, hafter]
      · simp [htask] at hcurrent
    · simp only [Guarded.step, if_neg hmem] at hcurrent
      refine ⟨hcurrent, ?_⟩
      simp only [LeavesOpen, expiry, if_neg hmem]

/-! ## Safety -/

/-- The state that the operations reach. -/
def reached (policy : LivenessPolicy) (ops : List GuardedOp) : Guarded policy :=
  Run.exec step start ops

/-- What holds in the state that the operations `ops` reach. -/
structure Safe (policy : LivenessPolicy) (ops : List GuardedOp) : Prop where
  /-- at most one timer would find its window open -/
  oneLive : (reached policy ops).asleep.count (reached policy ops).guard.generation ≤ 1
  awaiting : (reached policy ops).guard.isAwaitingWrite = true ↔
    (reached policy ops).guard.generation ∈ (reached policy ops).asleep
  /-- an arm with symbols, none of them blank, and a generation from 1 on, if it has one, is
  accepted, and opens a window -/
  armOpens : ∀ confirmedSymbols connectGeneration now, confirmedSymbols ≠ ∅ →
    [] ∉ confirmedSymbols → (∀ n ∈ connectGeneration, (1 : Int) ≤ n) →
      let after := (reached policy ops).step
        (.armAfterSubscriptionsConfirmed confirmedSymbols connectGeneration now)
      after.guard.armCount = (reached policy ops).guard.armCount + 1 ∧
        after.current = some confirmedSymbols
  /-- `on_stale` is called with the symbols of the last accepted arm, and nothing has ended its
  window since: no write, no cancel, no other arm and no earlier expiry -/
  onStale : ∀ generation now symbols elapsed,
    (reached policy ops).expiry generation now = some (.failed symbols elapsed) →
      ∃ before connectGeneration armedAt after guard,
        ops = before ++ .armAfterSubscriptionsConfirmed symbols connectGeneration armedAt :: after ∧
          (reached policy before).guard.armAfterSubscriptionsConfirmed symbols connectGeneration
            armedAt = .ok guard ∧
          Run.Each step LeavesOpen (reached policy
            (before ++ [.armAfterSubscriptionsConfirmed symbols connectGeneration armedAt])) after
  /-- the calls of `on_stale` keep the interval -/
  spaced : ((reached policy ops).staleCalls.map Prod.snd).Pairwise fun t t' =>
    t + policy.minHealIntervalSeconds ≤ t'

theorem inv_reached (policy : LivenessPolicy) (ops : List GuardedOp) : (reached policy ops).Inv :=
  Run.exec_of_step (fun _ op h => h.step op) inv_start ops

/-- **The guard is safe in every run.** -/
theorem guard_safe (policy : LivenessPolicy) (ops : List GuardedOp) : Safe policy ops := by
  have h := inv_reached policy ops
  refine ⟨h.good.count_le_one, h.good.task_isSome_iff, ?_, ?_, h.cooldown.spaced⟩
  · intro confirmedSymbols connectGeneration now hempty hblank hgeneration
    have harm := arm_cases (reached policy ops).guard confirmedSymbols connectGeneration now
    rw [if_pos ⟨hempty, hblank, hgeneration⟩] at harm
    simp only [step, harm]
    exact ⟨trivial, rfl⟩
  · intro generation now symbols elapsed hreport
    obtain ⟨hcurrent, elapsed', hsymbols⟩ := expiry_current h hreport
    obtain rfl : symbols = (reached policy ops).guard.confirmedSymbols := by
      rcases hsymbols with he | he <;> cases he
      rfl
    obtain ⟨before, op, after, hops, ⟨connectGeneration, armedAt, guard, rfl, harm⟩, hafter⟩ :=
      @Run.exec_since _ _ step Inv LeavesOpen _ current _ (fun _ op h => h.step op)
        (fun s op _ _ => current_step s op) _ inv_start rfl _ _ hcurrent
    refine ⟨before, connectGeneration, armedAt, after, guard, hops, harm, ?_⟩
    rw [reached, Run.exec_snoc]
    exact hafter

end Guarded

end Leviathan
