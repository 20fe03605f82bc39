import Leviathan.Journal.Runtime
import Mathlib.Data.Finset.Basic

/-!
# The write-liveness guard

After the subscriptions of a connection are confirmed, `PostReconnectWriteLivenessGuard` waits for a
journal write. `armAfterSubscriptionsConfirmed` opens the window, `recordJournalWrite` closes it,
and the watchdog task evaluates it when the timeout is over (`wake`).

Log lines, and the fields that only log lines use, are not modelled.
-/

namespace Leviathan

open Py

/-- The arguments of a guard, as its constructor accepts them. -/
structure LivenessPolicy where
  timeoutSeconds : Rat
  minHealIntervalSeconds : Rat
  timeoutSeconds_pos : 0 < timeoutSeconds
  minHealIntervalSeconds_nonneg : 0 ≤ minHealIntervalSeconds

/-- `DEFAULT_WRITE_LIVENESS_TIMEOUT_SECONDS` and `DEFAULT_MIN_HEAL_INTERVAL_SECONDS`. -/
def LivenessPolicy.default : LivenessPolicy := ⟨45, 120, by decide, by decide⟩

/-- A window that expired: what is logged for it, and so whether the collector is healed or the heal
came too soon after the last. -/
inductive StaleReport where
  /-- within `min_heal_interval` of the last heal -/
  | suppressed (confirmed : Finset Str) (elapsed : Rat)
  /-- the call of `on_stale` -/
  | failed (confirmed : Finset Str) (elapsed : Rat)

structure PostReconnectWriteLivenessGuard (policy : LivenessPolicy) where
  /-- the generation of the watchdog that sleeps -/
  watchdogTask : Option Nat
  generation : Nat
  confirmedSymbols : Finset Str
  armedAtMono : Option Rat
  lastHealMono : Option Rat
  armCount : Nat
  lastStaleDetection : Option (Finset Str × Rat)

namespace PostReconnectWriteLivenessGuard

variable {policy : LivenessPolicy}

def new : PostReconnectWriteLivenessGuard policy := ⟨none, 0, ∅, none, none, 0, none⟩

def isAwaitingWrite (guard : PostReconnectWriteLivenessGuard policy) : Bool :=
  guard.watchdogTask.isSome

def cancel (guard : PostReconnectWriteLivenessGuard policy) :
    PostReconnectWriteLivenessGuard policy :=
  { guard with
    generation := guard.generation + 1
    watchdogTask := none
    confirmedSymbols := ∅
    armedAtMono := none }

/-- `arm_after_subscriptions_confirmed`, at the time `now`. The set of symbols has to have symbols,
and no blank one; a window that is open is replaced. -/
def armAfterSubscriptionsConfirmed (guard : PostReconnectWriteLivenessGuard policy)
    (confirmedSymbols : Finset Str) (connectGeneration : Option Int) (now : Rat) :
    Except PyError (PostReconnectWriteLivenessGuard policy) :=
  if confirmedSymbols = ∅ then
    .error (.valueError "confirmed_symbols must be a non-empty set".toList)
  else if [] ∈ confirmedSymbols then
    .error (.valueError "confirmed_symbols must contain non-empty strings".toList)
  else if connectGeneration.any (· < 1) then
    .error (.valueError "connect_generation must be >= 1".toList)
  else
    let guard := guard.cancel
    let generation := guard.generation + 1
    .ok { guard with
      generation
      confirmedSymbols
      armedAtMono := some now
      armCount := guard.armCount + 1
      watchdogTask := some generation }

def recordJournalWrite (guard : PostReconnectWriteLivenessGuard policy) :
    PostReconnectWriteLivenessGuard policy :=
  if guard.isAwaitingWrite then guard.cancel else guard

/-- `__evaluate_after_timeout` behind its sleep, at the time `now`: only the watchdog of the current
generation finds anything. -/
def evaluateAfterTimeout (guard : PostReconnectWriteLivenessGuard policy) (generation : Nat)
    (now : Rat) : PostReconnectWriteLivenessGuard policy × Option StaleReport :=
  if generation ≠ guard.generation then (guard, none)
  else
    let confirmed := guard.confirmedSymbols
    let elapsed := (guard.armedAtMono.map (now - ·)).getD policy.timeoutSeconds
    let guard := { guard with watchdogTask := none, confirmedSymbols := ∅, armedAtMono := none }
    if guard.lastHealMono.any fun lastHeal => now - lastHeal < policy.minHealIntervalSeconds then
      (guard, some (.suppressed confirmed elapsed))
    else
      ({ guard with
          lastHealMono := some now
          lastStaleDetection := some (confirmed, elapsed) }, some (.failed confirmed elapsed))

/-- The event loop at the time `now`: a watchdog that has slept long enough goes on. -/
def wake (guard : PostReconnectWriteLivenessGuard policy) (now : Rat) :
    PostReconnectWriteLivenessGuard policy × Option StaleReport :=
  match guard.watchdogTask with
  | none => (guard, none)
  | some generation =>
    if guard.armedAtMono.any fun armedAt => now < armedAt + policy.timeoutSeconds then (guard, none)
    else guard.evaluateAfterTimeout generation now

end PostReconnectWriteLivenessGuard

end Leviathan
