import Leviathan.Lib.Reentrant
import Leviathan.Lib.Watchdog
import Leviathan.State.ConfirmationTracker
import Mathlib.Data.Finset.Lattice.Lemmas
import Mathlib.Data.Finset.SDiff

/-!
# The windows of the confirmation tracker

Windows are begun, told of acknowledgements and cancelled in any order, any timer that was started
may wake at any time, and a callback may make any calls of its own: `confirmations_correct`.
-/

namespace Leviathan

open Py SubscriptionConfirmationTracker

/-- A tracker, the timers that sleep, and the callbacks: each with the generation of the tracker
when it was made. -/
structure Confirming where
  tracker : SubscriptionConfirmationTracker
  asleep : List Nat
  calls : List (Nat × ConfirmationCall)

inductive ConfirmingOp where
  | beginExpectation (symbols : List Str)
  | recordConfirmation (symbol : Str)
  | cancel
  /-- the timer of the generation goes on after its sleep -/
  | wake (generation : Nat)

namespace Confirming

def start : Confirming := ⟨.new, [], []⟩

/-- The callback that an operation makes. -/
def callback (s : Confirming) : ConfirmingOp → Option ConfirmationCall
  | .beginExpectation _ | .cancel => none
  | .recordConfirmation symbol =>
    match s.tracker.recordConfirmation symbol with
    | .error _ => none
    | .ok (_, call, _) => call
  | .wake generation =>
    if generation ∈ s.asleep then (s.tracker.evaluateAfterTimeout generation).2 else none

/-- The calls with the one of the operation. -/
def called (s : Confirming) (op : ConfirmingOp) : List (Nat × ConfirmationCall) :=
  s.calls ++ (s.callback op).toList.map fun call => (s.tracker.generation, call)

def step (s : Confirming) : ConfirmingOp → Confirming
  | .beginExpectation symbols =>
    match s.tracker.beginExpectation symbols with
    | .error _ => s
    | .ok tracker => { s with tracker, asleep := tracker.watchdogTask.toList ++ s.asleep }
  | .recordConfirmation symbol =>
    match s.tracker.recordConfirmation symbol with
    | .error _ => s
    | .ok (tracker, _, _) =>
      { s with tracker, calls := s.called (.recordConfirmation symbol) }
  | .cancel => { s with tracker := s.tracker.cancel }
  | .wake generation =>
    if generation ∈ s.asleep then
      { tracker := (s.tracker.evaluateAfterTimeout generation).1
        asleep := s.asleep.erase generation
        calls := s.called (.wake generation) }
    else s

/-- The callbacks of the window of the generation. -/
def callsOf (s : Confirming) (generation : Nat) : List ConfirmationCall :=
  (s.calls.filter (·.1 = generation)).map Prod.snd

/-! ## What a window gives -/

/-- The operation ends the window of the generation, if it is open: a begin that is accepted, a
cancel, or the timer of the window. -/
def ends (generation : Nat) : ConfirmingOp → Bool
  | .beginExpectation symbols => [] ∉ symbols
  | .recordConfirmation _ => false
  | .cancel => true
  | .wake g => g = generation

/-- The symbols that the operations acknowledge. -/
def acknowledged (ops : List ConfirmingOp) : Finset Str :=
  (ops.filterMap fun
    | .recordConfirmation symbol => some symbol
    | _ => none).toFinset

/-- The callbacks of a window that is open, when `acked` is acknowledged and `ops` comes: the one of
a complete window when the rest is acknowledged before the window ends, and the one of a partial
window when it is the timer that ends it. -/
def outcome (generation : Nat) (requested acked : Finset Str) (ops : List ConfirmingOp) :
    List ConfirmationCall :=
  let acked := acked ∪ acknowledged (ops.takeWhile (!ends generation ·))
  if requested ⊆ acked then [.onComplete requested]
  else match (ops.dropWhile (!ends generation ·)).head? with
    | some (.wake _) => [.onPartial requested (requested ∩ acked) (requested \ acked)]
    | _ => []

theorem acknowledged_record (symbol : Str) :
    acknowledged [.recordConfirmation symbol] = {symbol} := rfl

variable {generation : Nat} {requested acked : Finset Str} {op : ConfirmingOp}
  {ops : List ConfirmingOp}

theorem outcome_of_subset (h : requested ⊆ acked) :
    outcome generation requested acked ops = [.onComplete requested] := by
  have hsub : requested ⊆ acked ∪ acknowledged (ops.takeWhile (!ends generation ·)) :=
    h.trans Finset.subset_union_left
  simp only [outcome, hsub, ↓reduceIte]

theorem outcome_nil (h : ¬requested ⊆ acked) : outcome generation requested acked [] = [] := by
  simp only [outcome, List.takeWhile_nil, acknowledged, List.filterMap_nil, List.toFinset_nil,
    Finset.union_empty, h, ↓reduceIte, List.dropWhile_nil, List.head?_nil]

/-- What ends the window settles it. -/
theorem outcome_ends (h : ¬requested ⊆ acked) (hends : ends generation op = true) :
    outcome generation requested acked (op :: ops) =
      match some op with
      | some (.wake _) => [.onPartial requested (requested ∩ acked) (requested \ acked)]
      | _ => [] := by
  simp only [outcome, List.takeWhile_cons, List.dropWhile_cons, hends, Bool.not_true,
    Bool.false_eq_true, ↓reduceIte, acknowledged, List.filterMap_nil, List.toFinset_nil,
    Finset.union_empty, h, List.head?_cons]

theorem outcome_record (symbol : Str) :
    outcome generation requested acked (.recordConfirmation symbol :: ops) =
      outcome generation requested (insert symbol acked) ops := by
  have hacked : acked ∪ acknowledged (.recordConfirmation symbol ::
      ops.takeWhile (!ends generation ·)) =
      insert symbol acked ∪ acknowledged (ops.takeWhile (!ends generation ·)) := by
    simp only [acknowledged, List.filterMap_cons, List.toFinset_cons, Finset.union_insert,
      Finset.insert_union]
  have hends : ends generation (.recordConfirmation symbol) = false := rfl
  simp only [outcome, List.takeWhile_cons, List.dropWhile_cons, hends, Bool.not_false, ↓reduceIte,
    hacked]

/-- What neither acknowledges nor ends has no effect. -/
theorem outcome_other (hends : ends generation op = false)
    (hother : ∀ symbol, op ≠ .recordConfirmation symbol) :
    outcome generation requested acked (op :: ops) = outcome generation requested acked ops := by
  have hacked : acknowledged (op :: ops.takeWhile (!ends generation ·)) =
      acknowledged (ops.takeWhile (!ends generation ·)) := by
    cases op with
    | recordConfirmation symbol => exact absurd rfl (hother symbol)
    | beginExpectation | cancel | wake => rfl
  simp only [outcome, List.takeWhile_cons, List.dropWhile_cons, hends, Bool.not_false, ↓reduceIte,
    hacked]

/-- An acknowledgement of a symbol that is not requested has no effect. -/
theorem outcome_insert {symbol : Str} (h : symbol ∉ requested) :
    outcome generation requested (insert symbol acked) ops =
      outcome generation requested acked ops := by
  simp only [outcome, Finset.insert_union, Finset.subset_insert_iff_of_notMem h,
    Finset.inter_insert_of_notMem h, Finset.sdiff_insert_of_notMem h]

/-! ## Steps -/

variable {s : Confirming} {tracker' : SubscriptionConfirmationTracker} {asleep' : List Nat}
  {call : Option ConfirmationCall}

/-- What an operation can do: the tracker and the timers after it, and the callback it makes. -/
inductive Steps (s : Confirming) : ConfirmingOp → SubscriptionConfirmationTracker → List Nat →
    Option ConfirmationCall → Prop where
  | rejects {symbols : List Str} (hblank : [] ∈ symbols) :
      Steps s (.beginExpectation symbols) s.tracker s.asleep none
  | empties : Steps s (.beginExpectation []) s.tracker.cancel s.asleep none
  | begins {symbols : List Str} (hblank : [] ∉ symbols) (hsome : symbols ≠ []) :
      Steps s (.beginExpectation symbols)
        ⟨symbols.toFinset, ∅, some (s.tracker.generation + 1 + 1), s.tracker.generation + 1 + 1⟩
        ((s.tracker.generation + 1 + 1) :: s.asleep) none
  | ignores {symbol : Str}
      (h : symbol = [] ∨ symbol ∉ s.tracker.expected ∨ symbol ∈ s.tracker.confirmed) :
      Steps s (.recordConfirmation symbol) s.tracker s.asleep none
  | records {symbol : Str} (hexpected : symbol ∈ s.tracker.expected)
      (hmissing : ¬s.tracker.expected ⊆ insert symbol s.tracker.confirmed) :
      Steps s (.recordConfirmation symbol)
        { s.tracker with confirmed := insert symbol s.tracker.confirmed } s.asleep none
  | completes {symbol : Str} (hexpected : symbol ∈ s.tracker.expected)
      (hall : s.tracker.expected ⊆ insert symbol s.tracker.confirmed) :
      Steps s (.recordConfirmation symbol) s.tracker.cancel s.asleep
        (some (.onComplete (insert symbol s.tracker.confirmed)))
  | cancels : Steps s .cancel s.tracker.cancel s.asleep none
  | wokeBefore {generation : Nat} (hmem : generation ∉ s.asleep) :
      Steps s (.wake generation) s.tracker s.asleep none
  | outdated {generation : Nat} (hne : generation ≠ s.tracker.generation) :
      Steps s (.wake generation) s.tracker (s.asleep.erase generation) none
  | expires {generation : Nat} {call : ConfirmationCall} (hmem : generation ∈ s.asleep)
      (heq : generation = s.tracker.generation)
      (hcall : s.tracker.expected \ s.tracker.confirmed = ∅ ∧
          call = .onComplete s.tracker.confirmed ∨
        s.tracker.expected \ s.tracker.confirmed ≠ ∅ ∧
          call = .onPartial s.tracker.expected s.tracker.confirmed
            (s.tracker.expected \ s.tracker.confirmed)) :
      Steps s (.wake generation) ⟨∅, ∅, none, s.tracker.generation⟩ (s.asleep.erase generation)
        (some call)

theorem step_steps (s : Confirming) (op : ConfirmingOp) :
    s.Steps op (s.step op).tracker (s.step op).asleep (s.callback op) := by
  cases op with
  | beginExpectation symbols =>
    cases hbegin : s.tracker.beginExpectation symbols with
    | error e =>
      simp only [step, hbegin]
      exact .rejects (begin_error hbegin)
    | ok tracker =>
      simp only [step, hbegin]
      obtain ⟨hblank, ⟨rfl, rfl⟩ | ⟨hsome, rfl⟩⟩ := begin_ok hbegin
      · exact .empties
      · exact .begins hblank hsome
  | recordConfirmation symbol =>
    cases hrecord : s.tracker.recordConfirmation symbol with
    | error e =>
      simp only [step, callback, hrecord]
      exact .ignores (.inl (record_error hrecord))
    | ok after =>
      simp only [step, callback, hrecord]
      rcases record_ok hrecord with ⟨hold, rfl⟩ | ⟨hexpected, -, ⟨hall, rfl⟩ | ⟨hmissing, rfl⟩⟩
      · exact .ignores (.inr hold)
      · exact .completes hexpected hall
      · exact .records hexpected hmissing
  | cancel => exact .cancels
  | wake generation =>
    by_cases hmem : generation ∈ s.asleep
    · simp only [step, callback, if_pos hmem]
      rcases evaluate_cases s.tracker generation with ⟨hne, hafter⟩ | ⟨heq, hafter, hcall⟩
      · rw [hafter]
        exact .outdated hne
      · rw [hafter]
        rcases hcall with ⟨hnone, hcall⟩ | ⟨hsome, hcall⟩
        · rw [hcall]
          exact .expires hmem heq (.inl ⟨hnone, rfl⟩)
        · rw [hcall]
          exact .expires hmem heq (.inr ⟨hsome, rfl⟩)
    · simp only [step, callback, if_neg hmem]
      exact .wokeBefore hmem

/-! ## The invariant -/

/-- The timers against the tracker. -/
def watchdog (s : Confirming) : Watchdog :=
  ⟨s.tracker.generation, s.tracker.watchdogTask, s.asleep⟩

structure Inv (s : Confirming) : Prop where
  good : s.watchdog.Good
  subset : s.tracker.confirmed ⊆ s.tracker.expected
  /-- something is missing in a window that is open -/
  missing : s.tracker.watchdogTask.isSome = true → ¬s.tracker.expected ⊆ s.tracker.confirmed
  closed : s.tracker.watchdogTask = none → s.tracker.expected = ∅

theorem inv_start : start.Inv := ⟨.new, Finset.Subset.refl _, nofun, fun _ => rfl⟩

/-- The window that is open is the one of the generation. -/
theorem Inv.task_eq (h : s.Inv) (hopen : s.tracker.watchdogTask.isSome = true) :
    s.tracker.watchdogTask = some s.tracker.generation :=
  (h.good.task_iff _).mpr ⟨h.good.task_isSome_iff.mp hopen, rfl⟩

theorem Inv.ofSteps (h : s.Inv) (hsteps : s.Steps op tracker' asleep' call)
    (calls : List (Nat × ConfirmationCall)) : (⟨tracker', asleep', calls⟩ : Confirming).Inv := by
  cases hsteps with
  | rejects | ignores | wokeBefore => exact ⟨h.good, h.subset, h.missing, h.closed⟩
  | empties | completes | cancels =>
    exact ⟨h.good.cancel, Finset.Subset.refl _, by simp, fun _ => rfl⟩
  | begins _ hsome =>
    refine ⟨h.good.cancel.start, Finset.empty_subset _, ?_, by simp⟩
    intro _ hsub
    exact hsome (List.toFinset_eq_empty_iff _ |>.mp (Finset.subset_empty.mp hsub))
  | records hexpected hmissing =>
    exact ⟨h.good, Finset.insert_subset hexpected h.subset, fun _ => hmissing, h.closed⟩
  | @outdated generation hne =>
    have hwake := h.good.wake generation
    rw [@Watchdog.wake_old s.watchdog generation hne] at hwake
    exact ⟨hwake, h.subset, h.missing, h.closed⟩
  | @expires generation _ _ heq =>
    have hwake := h.good.wake generation
    rw [@Watchdog.wake_current s.watchdog generation heq] at hwake
    exact ⟨hwake, Finset.Subset.refl _, by simp, fun _ => rfl⟩

theorem Inv.step (h : s.Inv) (op : ConfirmingOp) : (s.step op).Inv :=
  h.ofSteps (s.step_steps op) (s.step op).calls

/-! ## Callbacks -/

theorem step_calls (s : Confirming) (op : ConfirmingOp) : (s.step op).calls = s.called op := by
  cases op with
  | beginExpectation symbols =>
    simp only [step, called, callback, Option.toList_none, List.map_nil, List.append_nil]
    split <;> rfl
  | recordConfirmation symbol =>
    simp only [step]
    split
    · rename_i hrecord
      simp only [called, callback, hrecord, Option.toList_none, List.map_nil, List.append_nil]
    · rfl
  | cancel => exact (List.append_nil _).symm
  | wake generation =>
    simp only [step]
    split
    · rfl
    · rename_i hmem
      simp only [called, callback, if_neg hmem, Option.toList_none, List.map_nil, List.append_nil]

/-- An operation that calls back does so for the window of its generation. -/
theorem callsOf_step (s : Confirming) (op : ConfirmingOp) (generation : Nat) :
    (s.step op).callsOf generation = s.callsOf generation ++
      if s.tracker.generation = generation then (s.callback op).toList else [] := by
  simp only [callsOf, step_calls, called, List.filter_append, List.map_append]
  cases s.callback op with
  | none => simp
  | some call =>
    by_cases hgen : s.tracker.generation = generation <;> simp [hgen]

/-- Only a window that is open calls back. -/
theorem Inv.open_of_callback (h : s.Inv) {op : ConfirmingOp} {call : ConfirmationCall}
    (hcall : s.callback op = some call) :
    s.tracker.watchdogTask = some s.tracker.generation := by
  have hsteps := s.step_steps op
  rw [hcall] at hsteps
  generalize (s.step op).tracker = tracker', (s.step op).asleep = asleep' at hsteps
  cases hsteps with
  | completes hexpected =>
    apply h.task_eq
    by_contra hclosed
    rw [h.closed (Option.not_isSome_iff_eq_none.mp hclosed)] at hexpected
    exact absurd hexpected (Finset.notMem_empty _)
  | expires hmem heq => exact (h.good.task_iff _).mpr ⟨heq ▸ hmem, rfl⟩

/-- **A window completes with what it has requested**, by the acknowledgement that was missing, and
is over. -/
theorem Inv.callback_complete (h : s.Inv) {confirmed : Finset Str}
    (hcall : s.callback op = some (.onComplete confirmed)) :
    confirmed = s.tracker.expected ∧
      confirmed ⊆ s.tracker.confirmed ∪ acknowledged [op] ∧
      (s.step op).tracker.watchdogTask = none := by
  have hopen := h.open_of_callback hcall
  have hmissing := h.missing (by rw [hopen]; rfl)
  have hsteps := s.step_steps op
  rw [hcall] at hsteps
  generalize (s.step op).tracker = tracker', (s.step op).asleep = asleep' at hsteps ⊢
  cases hsteps with
  | completes hexpected hall =>
    refine ⟨(Finset.insert_subset hexpected h.subset).antisymm hall, ?_, rfl⟩
    rw [acknowledged_record, Finset.union_singleton]
  | expires _ _ hcall =>
    rcases hcall with ⟨hnone, -⟩ | ⟨-, hpartial⟩
    · exact absurd (Finset.sdiff_eq_empty_iff_subset.mp hnone) hmissing
    · cases hpartial

/-- A window that is open after an operation that begins none was open before it, with what the
operation acknowledges. -/
theorem open_kept (s : Confirming) (hbegin : ∀ symbols, op ≠ .beginExpectation symbols)
    (hopen : (s.step op).tracker.watchdogTask.isSome = true) :
    s.tracker.watchdogTask.isSome = true ∧
      (s.step op).tracker.expected = s.tracker.expected ∧
      (s.step op).tracker.confirmed ⊆ s.tracker.confirmed ∪ acknowledged [op] := by
  have hsteps := s.step_steps op
  generalize (s.step op).tracker = tracker', (s.step op).asleep = asleep', s.callback op = call
    at hsteps hopen ⊢
  cases hsteps with
  | rejects | empties | begins => exact absurd rfl (hbegin _)
  | completes | cancels | expires => cases hopen
  | ignores | wokeBefore | outdated => exact ⟨hopen, rfl, Finset.subset_union_left⟩
  | records =>
    refine ⟨hopen, rfl, ?_⟩
    rw [acknowledged_record, Finset.union_singleton]

/-! ## One window -/

/-- The window of the generation is over. -/
def Past (s : Confirming) (generation : Nat) : Prop :=
  generation ≤ s.tracker.generation ∧ s.tracker.watchdogTask ≠ some generation

/-- A window that is over does not open again. -/
theorem Past.step (hpast : s.Past generation) (op : ConfirmingOp) :
    (s.step op).Past generation := by
  obtain ⟨hle, htask⟩ := hpast
  have hsteps := s.step_steps op
  unfold Past
  generalize (s.step op).tracker = tracker', (s.step op).asleep = asleep', s.callback op = call
    at hsteps ⊢
  cases hsteps with
  | rejects | ignores | records | wokeBefore | outdated => exact ⟨hle, htask⟩
  | empties | completes | cancels =>
    exact ⟨Nat.le_succ_of_le hle, by simp⟩
  | begins =>
    refine ⟨by simp only; omega, ?_⟩
    intro heq
    have := Option.some.inj heq
    omega
  | expires => exact ⟨hle, by simp⟩

/-- **A window that is over calls back no more.** -/
theorem callsOf_past (h : s.Inv) (hpast : s.Past generation) (ops : List ConfirmingOp) :
    (Run.exec step s ops).callsOf generation = s.callsOf generation := by
  have hstep : ∀ (s' : Confirming) op, (s'.Inv ∧ s'.Past generation ∧
      s'.callsOf generation = s.callsOf generation) →
      ((s'.step op).Inv ∧ (s'.step op).Past generation ∧
        (s'.step op).callsOf generation = s.callsOf generation) := by
    rintro s' op ⟨hinv, hpast, hcalls⟩
    refine ⟨hinv.step op, hpast.step op, ?_⟩
    rw [callsOf_step, hcalls]
    split
    · rename_i hgen
      cases hcall : s'.callback op with
      | none => exact List.append_nil _
      | some call =>
        have htask := hinv.open_of_callback hcall
        rw [hgen] at htask
        exact absurd htask hpast.2
    · exact List.append_nil _
  exact (Run.exec_of_step hstep ⟨h, hpast, rfl⟩ ops).2.2

/-- The window of the generation is open: it has requested the one, and the other is acknowledged.
-/
structure Open (s : Confirming) (generation : Nat) (requested acked : Finset Str) : Prop where
  inv : s.Inv
  tracker_eq : s.tracker = ⟨requested, acked, some generation, generation⟩

theorem Open.not_subset (h : s.Open generation requested acked) : ¬requested ⊆ acked := by
  have hmissing := h.inv.missing
  rw [h.tracker_eq] at hmissing
  exact hmissing rfl

theorem Open.subset (h : s.Open generation requested acked) : acked ⊆ requested := by
  have hsubset := h.inv.subset
  rw [h.tracker_eq] at hsubset
  exact hsubset

theorem Open.generation_eq (h : s.Open generation requested acked) :
    s.tracker.generation = generation := by rw [h.tracker_eq]

theorem Open.asleep (h : s.Open generation requested acked) : generation ∈ s.asleep := by
  have htask : s.tracker.watchdogTask = some generation := by rw [h.tracker_eq]
  exact ((h.inv.good.task_iff generation).mp htask).1

/-- The operation leaves the window open. What it gives is then what it gives afterwards. -/
def Stays (s : Confirming) (generation : Nat) (requested acked : Finset Str) (op : ConfirmingOp)
    (ops : List ConfirmingOp) : Prop :=
  ∃ acked', (s.step op).tracker = ⟨requested, acked', some generation, generation⟩ ∧
    s.callback op = none ∧
    outcome generation requested acked (op :: ops) = outcome generation requested acked' ops

/-- The operation is the last one of the window. -/
def Settles (s : Confirming) (generation : Nat) (requested acked : Finset Str) (op : ConfirmingOp)
    (ops : List ConfirmingOp) : Prop :=
  (s.step op).Past generation ∧
    (s.callback op).toList = outcome generation requested acked (op :: ops)

/-- **An operation leaves the window open, or is its last one.** -/
theorem Open.step (h : s.Open generation requested acked) (hblank : [] ∉ requested)
    (op : ConfirmingOp) (ops : List ConfirmingOp) :
    s.Stays generation requested acked op ops ∨ s.Settles generation requested acked op ops := by
  have hgen := h.generation_eq
  have hsteps := s.step_steps op
  unfold Stays Settles Past
  generalize (s.step op).tracker = tracker', (s.step op).asleep = asleep', s.callback op = call
    at hsteps ⊢
  cases hsteps with
  | rejects hsymbols =>
    left
    refine ⟨acked, h.tracker_eq, rfl, outcome_other ?_ (by simp)⟩
    simp only [ends, hsymbols, not_true_eq_false, decide_false]
  | wokeBefore hmem =>
    left
    refine ⟨acked, h.tracker_eq, rfl, outcome_other ?_ (by simp)⟩
    simp only [ends, decide_eq_false_iff_not]
    rintro rfl
    exact hmem h.asleep
  | outdated hne =>
    left
    refine ⟨acked, h.tracker_eq, rfl, outcome_other ?_ (by simp)⟩
    rw [hgen] at hne
    simp only [ends, hne, decide_false]
  | ignores hignored =>
    left
    refine ⟨acked, h.tracker_eq, rfl, ?_⟩
    rw [h.tracker_eq] at hignored
    rw [outcome_record]
    rcases hignored with rfl | hnot | hacked
    · exact outcome_insert hblank
    · exact outcome_insert hnot
    · rw [Finset.insert_eq_self.mpr hacked]
  | @records symbol =>
    left
    refine ⟨insert symbol acked, ?_, rfl, outcome_record symbol⟩
    rw [h.tracker_eq]
  | @completes symbol hexpected hall =>
    right
    rw [h.tracker_eq] at hexpected hall ⊢
    have heq : insert symbol acked = requested :=
      (Finset.insert_subset hexpected h.subset).antisymm hall
    refine ⟨⟨Nat.le_succ _, by simp⟩, ?_⟩
    rw [outcome_record, outcome_of_subset hall]
    simp only [heq, Option.toList_some]
  | empties | cancels =>
    right
    rw [outcome_ends h.not_subset rfl]
    refine ⟨⟨?_, by simp⟩, rfl⟩
    rw [← hgen]
    exact Nat.le_succ _
  | begins hsymbols =>
    right
    refine ⟨⟨by simp only; omega, by simp only [ne_eq, Option.some.injEq]; omega⟩, ?_⟩
    rw [outcome_ends h.not_subset]
    · rfl
    · simp only [ends, hsymbols, not_false_eq_true, decide_true]
  | expires _ heq hcall =>
    right
    rw [h.tracker_eq] at heq hcall
    obtain rfl := heq
    refine ⟨⟨hgen.ge, by simp⟩, ?_⟩
    rw [outcome_ends h.not_subset (by simp only [ends, decide_true])]
    rcases hcall with ⟨hnone, -⟩ | ⟨-, rfl⟩
    · exact absurd (Finset.sdiff_eq_empty_iff_subset.mp hnone) h.not_subset
    · rw [Finset.inter_eq_right.mpr h.subset]
      rfl

/-- **What an open window gives**, whatever comes. -/
theorem callsOf_open (hblank : [] ∉ requested) (ops : List ConfirmingOp)
    (h : s.Open generation requested acked) :
    (Run.exec step s ops).callsOf generation =
      s.callsOf generation ++ outcome generation requested acked ops := by
  induction ops generalizing s acked with
  | nil =>
    rw [outcome_nil h.not_subset]
    exact (List.append_nil _).symm
  | cons op ops ih =>
    have hstep := callsOf_step s op generation
    rw [if_pos h.generation_eq] at hstep
    rcases h.step hblank op ops with ⟨acked', htracker, hcall, houtcome⟩ | ⟨hpast, hcall⟩
    · have hrest : (Run.exec step (s.step op) ops).callsOf generation =
          (s.step op).callsOf generation ++ outcome generation requested acked' ops :=
        ih ⟨h.inv.step op, htracker⟩
      rw [hstep, hcall, Option.toList_none, List.append_nil, ← houtcome] at hrest
      exact hrest
    · have hrest : (Run.exec step (s.step op) ops).callsOf generation =
          (s.step op).callsOf generation := callsOf_past (h.inv.step op) hpast ops
      rw [hstep, hcall] at hrest
      exact hrest

/-- A window that is open was begun by this operation, or was open before it. -/
theorem task_step (s : Confirming) (op : ConfirmingOp)
    (htask : (s.step op).tracker.watchdogTask = some generation) :
    (∃ symbols, op = .beginExpectation symbols ∧ symbols ≠ [] ∧ [] ∉ symbols ∧
        (s.step op).tracker.generation = generation) ∨
      s.tracker.watchdogTask = some generation := by
  have hsteps := s.step_steps op
  generalize (s.step op).tracker = tracker', (s.step op).asleep = asleep', s.callback op = call
    at hsteps htask ⊢
  cases hsteps with
  | rejects | ignores | records | wokeBefore | outdated => exact .inr htask
  | empties | completes | cancels | expires => cases htask
  | begins hblank hsome => exact .inl ⟨_, rfl, hsome, hblank, Option.some.inj htask⟩

/-! ## Every run -/

/-- The state that the operations reach. -/
def reached (ops : List ConfirmingOp) : Confirming := Run.exec step start ops

theorem inv_reached (ops : List ConfirmingOp) : (reached ops).Inv :=
  Run.exec_of_step (fun _ op h => h.step op) inv_start ops

/-- The generation of the window that is begun after the operations. -/
def begun (before : List ConfirmingOp) (symbols : List Str) : Nat :=
  (reached (before ++ [.beginExpectation symbols])).tracker.generation

theorem generation_le_step (s : Confirming) (op : ConfirmingOp) :
    s.tracker.generation ≤ (s.step op).tracker.generation := by
  have hsteps := s.step_steps op
  generalize (s.step op).tracker = tracker', (s.step op).asleep = asleep', s.callback op = call
    at hsteps ⊢
  cases hsteps with
  | rejects | ignores | records | wokeBefore | outdated | expires => exact le_rfl
  | empties | completes | cancels => exact Nat.le_succ _
  | begins =>
    simp only
    omega

/-- No callback is of a window that is still to come. -/
theorem calls_le (ops : List ConfirmingOp) :
    ∀ call ∈ (reached ops).calls, call.1 ≤ (reached ops).tracker.generation := by
  have hstep : ∀ (s : Confirming) op, (∀ call ∈ s.calls, call.1 ≤ s.tracker.generation) →
      ∀ call ∈ (s.step op).calls, call.1 ≤ (s.step op).tracker.generation := by
    intro s op h call hcall
    apply le_trans _ (generation_le_step s op)
    rw [step_calls, called] at hcall
    rcases List.mem_append.mp hcall with hold | hnew
    · exact h call hold
    · obtain ⟨_, -, rfl⟩ := List.mem_map.mp hnew
      exact le_rfl
  apply Run.exec_of_step hstep _ ops
  intro call hcall
  cases hcall

theorem begin_reached (before : List ConfirmingOp) (symbols : List Str) :
    reached (before ++ [.beginExpectation symbols]) =
      (reached before).step (.beginExpectation symbols) := Run.exec_snoc _ before _

theorem open_begun (before : List ConfirmingOp) {symbols : List Str} (hsome : symbols ≠ [])
    (hblank : [] ∉ symbols) :
    (reached (before ++ [.beginExpectation symbols])).Open (begun before symbols)
        symbols.toFinset ∅ ∧
      (reached (before ++ [.beginExpectation symbols])).callsOf (begun before symbols) = [] := by
  have hreached := begin_reached before symbols
  have hbegin := begin_eq (reached before).tracker hblank hsome
  have hgen : begun before symbols = (reached before).tracker.generation + 1 + 1 := by
    rw [begun, hreached]
    simp only [step, hbegin]
  refine ⟨⟨inv_reached _, ?_⟩, ?_⟩
  · rw [hgen, hreached]
    simp only [step, hbegin]
  · rw [callsOf, List.map_eq_nil_iff, List.filter_eq_nil_iff]
    intro call hcall
    rw [hreached, step_calls] at hcall
    have hle := calls_le before call (by simpa [called, callback] using hcall)
    simp only [hgen, decide_eq_true_eq]
    omega

/-- Every callback is of a window that was begun. -/
theorem calls_begun (ops : List ConfirmingOp) :
    ∀ call ∈ (reached ops).calls, ∃ before symbols after,
      ops = before ++ .beginExpectation symbols :: after ∧ symbols ≠ [] ∧ [] ∉ symbols ∧
        call.1 = begun before symbols := by
  induction ops using List.reverseRecOn with
  | nil =>
    intro call hcall
    cases hcall
  | append_singleton ops op ih =>
    intro call hcall
    have hreached : reached (ops ++ [op]) = (reached ops).step op := Run.exec_snoc _ ops _
    rw [hreached, step_calls, called] at hcall
    rcases List.mem_append.mp hcall with hold | hnew
    · obtain ⟨before, symbols, after, rfl, hbegun⟩ := ih call hold
      exact ⟨before, symbols, after ++ [op], by simp, hbegun⟩
    · obtain ⟨call, hmade, rfl⟩ := List.mem_map.mp hnew
      have htask := (inv_reached ops).open_of_callback (Option.mem_toList.mp hmade)
      obtain ⟨before, _, after, rfl, ⟨symbols, rfl, hsome, hblank, hgen⟩, -⟩ :=
        @Run.exec_since _ _ step Inv (fun _ _ => True) _ (fun s => s.tracker.watchdogTask)
          (fun s op g => ∃ symbols, op = .beginExpectation symbols ∧ symbols ≠ [] ∧ [] ∉ symbols ∧
            (s.step op).tracker.generation = g)
          (fun _ op h => h.step op)
          (fun s op _ _ htask => (task_step s op htask).imp_right fun h => ⟨h, trivial⟩)
          _ inv_start rfl _ _ htask
      refine ⟨before, symbols, after ++ [op], by simp, hsome, hblank, ?_⟩
      rw [begun, begin_reached]
      exact hgen.symm

/-! ## Re-entrant callbacks -/

def callsBack (s : Confirming) (op : ConfirmingOp) : Bool := (s.callback op).isSome

/-- What holds in a state, when `ops` are the operations so far in the order in which they
started. -/
structure Correct (ops : List ConfirmingOp) (s : Confirming) : Prop where
  active : s.tracker.isExpectationActive = s.tracker.watchdogTask.isSome
  subset : s.tracker.confirmed ⊆ s.tracker.expected
  strict : s.tracker.isExpectationActive = true → s.tracker.confirmed ⊂ s.tracker.expected
  /-- what a window calls back is decided by what comes after its begin -/
  window : ∀ before symbols after, ops = before ++ .beginExpectation symbols :: after →
    symbols ≠ [] → [] ∉ symbols →
      s.callsOf (begun before symbols) =
        outcome (begun before symbols) symbols.toFinset ∅ after
  /-- and there are no other callbacks -/
  ofWindow : ∀ call ∈ s.calls, ∃ before symbols after,
    ops = before ++ .beginExpectation symbols :: after ∧ symbols ≠ [] ∧ [] ∉ symbols ∧
      call.1 = begun before symbols

theorem correct_reached (ops : List ConfirmingOp) : Correct ops (reached ops) := by
  have h := inv_reached ops
  have hactive : (reached ops).tracker.isExpectationActive =
      (reached ops).tracker.watchdogTask.isSome := by
    unfold isExpectationActive
    cases htask : (reached ops).tracker.watchdogTask with
    | none => exact Bool.and_false _
    | some g =>
      have hmissing := h.missing (by rw [htask]; rfl)
      have hne : (reached ops).tracker.expected ≠ ∅ := by
        intro hempty
        rw [hempty] at hmissing
        exact hmissing (Finset.empty_subset _)
      simp only [hne, ne_eq, not_false_eq_true, decide_true, Option.isSome_some, Bool.and_self]
  refine ⟨hactive, h.subset, ?_, ?_, calls_begun ops⟩
  · intro hopen
    rw [hactive] at hopen
    exact ⟨h.subset, h.missing hopen⟩
  · rintro before symbols after rfl hsome hblank
    obtain ⟨hopen, hnone⟩ := open_begun before hsome hblank
    have hcalls := callsOf_open (by simpa using hblank) after hopen
    rw [hnone, List.nil_append, reached, ← Run.exec_append, List.append_assoc] at hcalls
    exact hcalls

/-- **The tracker is correct in every run**, whatever its callbacks call. -/
theorem confirmations_correct (calls : List (Reentrant.Call ConfirmingOp)) :
    Correct (Reentrant.traceCalls step callsBack start calls)
      (Reentrant.execCalls step callsBack start calls) := by
  rw [Reentrant.execCalls_eq]
  exact correct_reached _

end Confirming

end Leviathan
