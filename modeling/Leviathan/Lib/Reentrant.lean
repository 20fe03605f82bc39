import Leviathan.Lib.Run

/-!
# Re-entrant calls

An operation whose last act is a callback: the callback may make further calls before the operation
returns, and these may call back again.

* `Call`: an operation, with the calls that its callback makes.
* `Call.trace`: the operations of a call in the order in which they start.
* `execCalls_eq`: calls are a run of their trace, so what holds of every run holds of all calls.
-/

namespace Reentrant

/-- An operation, and the calls of its callback, which come when it calls back. -/
inductive Call (ο : Type) where
  | mk (op : ο) (nested : List (Call ο))

variable {σ ο : Type} (step : σ → ο → σ) (callsBack : σ → ο → Bool)

mutual

/-- The state after a call. -/
def Call.exec (s : σ) : Call ο → σ
  | .mk op nested => if callsBack s op then execCalls (step s op) nested else step s op

def execCalls (s : σ) : List (Call ο) → σ
  | [] => s
  | call :: calls => execCalls (call.exec s) calls

end

mutual

def Call.trace (s : σ) : Call ο → List ο
  | .mk op nested => op :: if callsBack s op then traceCalls (step s op) nested else []

def traceCalls (s : σ) : List (Call ο) → List ο
  | [] => []
  | call :: calls => call.trace s ++ traceCalls (call.exec step callsBack s) calls

end

mutual

theorem Call.exec_eq (s : σ) (call : Call ο) :
    call.exec step callsBack s = Run.exec step s (call.trace step callsBack s) := by
  cases call with
  | mk op nested =>
    simp only [Call.exec, Call.trace]
    split
    · exact execCalls_eq (step s op) nested
    · rfl

/-- **Calls are a run of their operations.** -/
theorem execCalls_eq (s : σ) (calls : List (Call ο)) :
    execCalls step callsBack s calls = Run.exec step s (traceCalls step callsBack s calls) := by
  cases calls with
  | nil => rfl
  | cons call calls =>
    simp only [execCalls, traceCalls]
    rw [Run.exec_append, ← Call.exec_eq s call]
    exact execCalls_eq _ calls

end

end Reentrant
