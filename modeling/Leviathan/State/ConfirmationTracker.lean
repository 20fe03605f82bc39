import Leviathan.Journal.Runtime
import Mathlib.Data.Finset.Basic

/-!
# The confirmation tracker

After the symbols of a connection are requested again, `SubscriptionConfirmationTracker` waits for
their acknowledgements. `beginExpectation` opens a window, `recordConfirmation` closes it when
nothing is missing, and the watchdog task evaluates it when the timeout is over.

An operation gives the callback it makes, which is the last thing that it does. Log lines are not
modelled.
-/

namespace Leviathan

open Py

/-- A call of `on_complete` or `on_partial`, with the symbols that it is given. -/
inductive ConfirmationCall where
  | onComplete (confirmed : Finset Str)
  | onPartial (expected confirmed missing : Finset Str)
  deriving DecidableEq

structure SubscriptionConfirmationTracker where
  expected : Finset Str
  confirmed : Finset Str
  /-- the generation of the watchdog that sleeps -/
  watchdogTask : Option Nat
  generation : Nat
  deriving DecidableEq

namespace SubscriptionConfirmationTracker

def new : SubscriptionConfirmationTracker := ⟨∅, ∅, none, 0⟩

def isExpectationActive (tracker : SubscriptionConfirmationTracker) : Bool :=
  tracker.expected ≠ ∅ && tracker.watchdogTask.isSome

def cancel (tracker : SubscriptionConfirmationTracker) : SubscriptionConfirmationTracker :=
  ⟨∅, ∅, none, tracker.generation + 1⟩

def beginExpectation (tracker : SubscriptionConfirmationTracker) (symbols : List Str) :
    Except PyError SubscriptionConfirmationTracker :=
  if [] ∈ symbols then .error (.valueError "symbols must be non-empty strings".toList)
  else
    let tracker := tracker.cancel
    if symbols = [] then .ok tracker
    else
      let generation := tracker.generation + 1
      .ok { expected := symbols.toFinset, confirmed := ∅, watchdogTask := some generation, generation }

/-- `__complete_successfully`: the window is cancelled before the callback is called. -/
def completeSuccessfully (tracker : SubscriptionConfirmationTracker) :
    SubscriptionConfirmationTracker × ConfirmationCall :=
  (⟨∅, ∅, none, tracker.generation + 1⟩, .onComplete tracker.confirmed)

/-- The tracker after it, the callback it makes, and what it returns: `True` for a symbol that was
still missing. -/
def recordConfirmation (tracker : SubscriptionConfirmationTracker) (symbol : Str) :
    Except PyError (SubscriptionConfirmationTracker × Option ConfirmationCall × Bool) :=
  if symbol = [] then .error (.valueError "symbol cannot be empty".toList)
  else if symbol ∉ tracker.expected then .ok (tracker, none, false)
  else if symbol ∈ tracker.confirmed then .ok (tracker, none, false)
  else
    let tracker := { tracker with confirmed := insert symbol tracker.confirmed }
    if tracker.expected ⊆ tracker.confirmed then
      let (tracker, call) := tracker.completeSuccessfully
      .ok (tracker, some call, true)
    else .ok (tracker, none, true)

/-- `__evaluate_after_timeout` behind its sleep: the tracker after it, and the callback it makes. A
timer of an older window does nothing. -/
def evaluateAfterTimeout (tracker : SubscriptionConfirmationTracker) (generation : Nat) :
    SubscriptionConfirmationTracker × Option ConfirmationCall :=
  if generation ≠ tracker.generation then (tracker, none)
  else
    let missing := tracker.expected \ tracker.confirmed
    let after := { tracker with watchdogTask := none, expected := ∅, confirmed := ∅ }
    if missing = ∅ then (after, some (.onComplete tracker.confirmed))
    else (after, some (.onPartial tracker.expected tracker.confirmed missing))

/-! ## What the operations do -/

variable {tracker tracker' : SubscriptionConfirmationTracker}

@[simp] theorem cancel_watchdogTask : tracker.cancel.watchdogTask = none := rfl

/-- **What `begin_expectation` does.** Only the symbols decide whether it is accepted, and an old
window ends in any case. -/
theorem begin_ok {symbols : List Str} (h : tracker.beginExpectation symbols = .ok tracker') :
    [] ∉ symbols ∧ (symbols = [] ∧ tracker' = tracker.cancel ∨
      symbols ≠ [] ∧ tracker' = ⟨symbols.toFinset, ∅, some (tracker.generation + 1 + 1),
        tracker.generation + 1 + 1⟩) := by
  unfold beginExpectation at h
  split at h
  · cases h
  · rename_i hblank
    refine ⟨hblank, ?_⟩
    split at h
    · rename_i hempty
      exact .inl ⟨hempty, (Except.ok.inj h).symm⟩
    · rename_i hsome
      exact .inr ⟨hsome, (Except.ok.inj h).symm⟩

theorem begin_error {symbols : List Str} {e : PyError}
    (h : tracker.beginExpectation symbols = .error e) : [] ∈ symbols := by
  unfold beginExpectation at h
  split at h
  · assumption
  · split at h <;> cases h

theorem begin_eq (tracker : SubscriptionConfirmationTracker) {symbols : List Str}
    (hblank : [] ∉ symbols) (hsome : symbols ≠ []) :
    tracker.beginExpectation symbols = .ok ⟨symbols.toFinset, ∅,
      some (tracker.generation + 1 + 1), tracker.generation + 1 + 1⟩ := by
  simp only [beginExpectation, if_neg hblank, if_neg hsome, cancel]

/-- **What `record_confirmation` does.** Only a symbol that is missing changes anything, and the
last one that is completes the window. -/
theorem record_ok {symbol : Str}
    {after : SubscriptionConfirmationTracker × Option ConfirmationCall × Bool}
    (h : tracker.recordConfirmation symbol = .ok after) :
    (symbol ∉ tracker.expected ∨ symbol ∈ tracker.confirmed) ∧ after = (tracker, none, false) ∨
      symbol ∈ tracker.expected ∧ symbol ∉ tracker.confirmed ∧
        (tracker.expected ⊆ insert symbol tracker.confirmed ∧
            after = (tracker.cancel, some (.onComplete (insert symbol tracker.confirmed)), true) ∨
          ¬tracker.expected ⊆ insert symbol tracker.confirmed ∧
            after = ({ tracker with confirmed := insert symbol tracker.confirmed }, none, true)) := by
  unfold recordConfirmation at h
  split at h
  · cases h
  · split at h
    · rename_i hnot
      exact .inl ⟨.inl hnot, (Except.ok.inj h).symm⟩
    · rename_i hexpected
      split at h
      · rename_i hconfirmed
        exact .inl ⟨.inr hconfirmed, (Except.ok.inj h).symm⟩
      · rename_i hconfirmed
        right
        refine ⟨not_not.mp hexpected, hconfirmed, ?_⟩
        simp only at h
        split at h
        · rename_i hall
          exact .inl ⟨hall, (Except.ok.inj h).symm⟩
        · rename_i hmissing
          exact .inr ⟨hmissing, (Except.ok.inj h).symm⟩

theorem record_error {symbol : Str} {e : PyError}
    (h : tracker.recordConfirmation symbol = .error e) : symbol = [] := by
  unfold recordConfirmation at h
  split at h
  · assumption
  · split at h
    · cases h
    · split at h
      · cases h
      · simp only at h
        split at h <;> cases h

/-- The timer of the current window ends it. -/
theorem evaluate_cases (tracker : SubscriptionConfirmationTracker) (generation : Nat) :
    let after := tracker.evaluateAfterTimeout generation
    generation ≠ tracker.generation ∧ after = (tracker, none) ∨
      generation = tracker.generation ∧ after.1 = ⟨∅, ∅, none, tracker.generation⟩ ∧
        (tracker.expected \ tracker.confirmed = ∅ ∧
            after.2 = some (.onComplete tracker.confirmed) ∨
          tracker.expected \ tracker.confirmed ≠ ∅ ∧
            after.2 = some (.onPartial tracker.expected tracker.confirmed
              (tracker.expected \ tracker.confirmed))) := by
  simp only [evaluateAfterTimeout]
  by_cases hgen : generation = tracker.generation
  · right
    rw [if_neg (not_not.mpr hgen)]
    refine ⟨hgen, ?_⟩
    split
    · rename_i hmissing
      exact ⟨rfl, .inl ⟨hmissing, rfl⟩⟩
    · rename_i hmissing
      exact ⟨rfl, .inr ⟨hmissing, rfl⟩⟩
  · left
    rw [if_pos hgen]
    exact ⟨hgen, rfl⟩

end SubscriptionConfirmationTracker

end Leviathan
