import Leviathan.Journal.Dispatch
import Leviathan.Journal.HighWater
import Leviathan.Journal.Instance
import Leviathan.Journal.Readme
import Leviathan.Lib.Run

/-!
# Write-liveness and replayed trades

A window of the write-liveness guard is to be closed by a journal write. The dispatcher reports one
for every tick that `append` returns for, and `append` returns for a duplicate too.

* `real_writes_iff`: **every window is closed by a new line, and a window without one expires as
  stale, exactly in the runs that dispatch no duplicate while a window is open.**
* `replay_closes_window`: a replayed trade closes the window.
-/

namespace Leviathan

open Py TickJournal

variable {cfg : Config} {policy : LivenessPolicy}

/-- A dispatcher with its guard, and what happened to the windows. -/
structure Watched (cfg : Config) (policy : LivenessPolicy) where
  decorator : JournalDispatchDecorator cfg policy
  reports : List StaleReport
  /-- when the last window was armed, unless it is cancelled or over, or a line was appended since
  -/
  unwritten : Option Rat
  /-- the tip at that time -/
  armedSeq : Nat
  /-- the windows that a dispatch closed: the tips when they were armed and closed -/
  closed : List (Nat × Nat)

inductive WatchedOp (cfg : Config) where
  | dispatch (tick : TradeTick cfg.toRuntime)
  | armAfterSubscriptionsConfirmed (confirmedSymbols : Finset Str)
      (connectGeneration : Option Int) (now : Rat)
  | cancel
  /-- the event loop runs the watchdog, if it is due -/
  | wake (now : Rat)

namespace Watched

/-- A new guard, over any journal. -/
def start (journal : TickJournal cfg) (disk : Disk) : Watched cfg policy :=
  ⟨⟨[], journal, disk, some .new⟩, [], none, 0, []⟩

def latestSeq (s : Watched cfg policy) : Nat := s.decorator.journal.latestSeq

def awaiting (s : Watched cfg policy) : Bool :=
  s.decorator.writeLivenessGuard.any fun guard => guard.isAwaitingWrite

def withGuard (s : Watched cfg policy) (guard : PostReconnectWriteLivenessGuard policy) :
    Watched cfg policy :=
  { s with decorator := { s.decorator with writeLivenessGuard := some guard } }

def step (s : Watched cfg policy) : WatchedOp cfg → Watched cfg policy
  | .dispatch tick =>
    let s' := { s with decorator := (s.decorator.dispatch tick).1 }
    { s' with
      unwritten := if s.latestSeq < s'.latestSeq then none else s.unwritten
      closed :=
        if s.awaiting && !s'.awaiting then s.closed ++ [(s.armedSeq, s'.latestSeq)] else s.closed }
  | .armAfterSubscriptionsConfirmed confirmedSymbols connectGeneration now =>
    match s.decorator.writeLivenessGuard with
    | none => s
    | some guard =>
      match guard.armAfterSubscriptionsConfirmed confirmedSymbols connectGeneration now with
      | .error _ => s
      | .ok guard => { s.withGuard guard with unwritten := some now, armedSeq := s.latestSeq }
  | .cancel =>
    match s.decorator.writeLivenessGuard with
    | none => s
    | some guard => { s.withGuard guard.cancel with unwritten := none }
  | .wake now =>
    match s.decorator.writeLivenessGuard with
    | none => s
    | some guard =>
      let (guard, report) := guard.wake now
      { s.withGuard guard with
        reports := s.reports ++ report.toList
        unwritten := s.unwritten.filter fun armedAt => now < armedAt + policy.timeoutSeconds }

/-- Only a new line closes a window, and a window without one expires. -/
structure ByRealWrites (s : Watched cfg policy) : Prop where
  closed : ∀ window ∈ s.closed, window.1 < window.2
  expires : ∀ armedAt now, s.unwritten = some armedAt → armedAt + policy.timeoutSeconds ≤ now →
    (s.step (.wake now)).reports.length = s.reports.length + 1

/-- A dispatch into an open window is no duplicate: its line is written, or `append` raises. -/
def Fresh (s : Watched cfg policy) : WatchedOp cfg → Prop
  | .dispatch tick => s.awaiting = true → s.decorator.journal.Accepts tick ∨ BlankSymbol tick
  | _ => True

/-- The guard waits exactly while the last window has no line. -/
structure GuardInv (s : Watched cfg policy) (guard : PostReconnectWriteLivenessGuard policy) :
    Prop where
  attached : s.decorator.writeLivenessGuard = some guard
  waiting : ∀ armedAt, s.unwritten = some armedAt →
    guard.watchdogTask = some guard.generation ∧ guard.armedAtMono = some armedAt ∧
      s.armedSeq = s.latestSeq
  idle : s.unwritten = none → guard.watchdogTask = none

variable {s : Watched cfg policy} {guard : PostReconnectWriteLivenessGuard policy}

theorem GuardInv.awaiting_iff (h : s.GuardInv guard) :
    s.awaiting = true ↔ ∃ armedAt, s.unwritten = some armedAt := by
  have ha : s.awaiting = guard.watchdogTask.isSome := by
    simp only [awaiting, h.attached, Option.any_some,
      PostReconnectWriteLivenessGuard.isAwaitingWrite]
  rw [ha]
  cases hu : s.unwritten with
  | none => simp [h.idle hu]
  | some armedAt => simp [(h.waiting armedAt hu).1]

/-- The watchdog of a window that is over reports it. -/
theorem GuardInv.expires (h : s.GuardInv guard) {armedAt now : Rat}
    (hu : s.unwritten = some armedAt) (hnow : armedAt + policy.timeoutSeconds ≤ now) :
    (s.step (.wake now)).reports.length = s.reports.length + 1 := by
  obtain ⟨htask, harmed, -⟩ := h.waiting armedAt hu
  have hdue : ¬now < armedAt + policy.timeoutSeconds := not_lt.mpr hnow
  simp only [step, h.attached, PostReconnectWriteLivenessGuard.wake, htask, harmed,
    Option.any_some, decide_eq_true_eq, hdue, ↓reduceIte,
    PostReconnectWriteLivenessGuard.evaluateAfterTimeout, ne_eq, not_true_eq_false]
  split <;> simp

theorem GuardInv.byRealWrites_iff (h : s.GuardInv guard) :
    s.ByRealWrites ↔ ∀ window ∈ s.closed, window.1 < window.2 :=
  ⟨ByRealWrites.closed, fun hc => ⟨hc, fun _ _ => h.expires⟩⟩

theorem guardInv_start (journal : TickJournal cfg) (disk : Disk) :
    (start journal disk : Watched cfg policy).GuardInv .new where
  attached := rfl
  waiting _ hu := by simp [start] at hu
  idle _ := rfl

/-! ## Dispatches -/

/-- A dispatch moves the tip when its tick is accepted, and reports a write unless `append`
raises. -/
theorem dispatch_seen (s : Watched cfg policy) (tick : TradeTick cfg.toRuntime) :
    (if s.decorator.journal.Accepts tick then s.latestSeq < (s.step (.dispatch tick)).latestSeq
      else (s.step (.dispatch tick)).latestSeq = s.latestSeq) ∧
    (s.step (.dispatch tick)).decorator.writeLivenessGuard =
      if BlankSymbol tick then s.decorator.writeLivenessGuard
      else s.decorator.writeLivenessGuard.map fun guard => guard.recordJournalWrite := by
  have hjournal : (s.step (.dispatch tick)).decorator.journal =
      (s.decorator.journal.append s.decorator.disk tick).1 := by
    simp only [step, JournalDispatchDecorator.dispatch]
    split <;> simp only [*]
  refine ⟨?_, ?_⟩
  · unfold latestSeq
    rw [hjournal]
    split
    · exact latestSeq_lt_append _ ‹_›
    · exact (append_rejected ‹_› _).latestSeq
  · by_cases ha : s.decorator.journal.Accepts tick
    · obtain ⟨store, -, he⟩ := append_accepts ha s.decorator.disk
      simp only [step, JournalDispatchDecorator.dispatch, he, ha.1, ↓reduceIte]
    · obtain ⟨store, -, -, -, he⟩ := append_rejects ha s.decorator.disk
      by_cases hblank : BlankSymbol tick <;>
        simp only [step, JournalDispatchDecorator.dispatch, he, hblank, ↓reduceIte]

theorem awaiting_eq (h : s.decorator.writeLivenessGuard = some guard) :
    s.awaiting = guard.isAwaitingWrite := by
  simp only [awaiting, h, Option.any_some]

/-- A dispatch into no window, or one whose `append` raises. -/
theorem dispatch_quiet (h : s.GuardInv guard) {tick : TradeTick cfg.toRuntime}
    (hquiet : s.awaiting = false ∨ BlankSymbol tick) :
    (s.step (.dispatch tick)).GuardInv guard ∧
      (s.step (.dispatch tick)).closed = s.closed := by
  obtain ⟨hlatest, hguard⟩ := s.dispatch_seen tick
  have hsame : (s.step (.dispatch tick)).decorator.writeLivenessGuard = some guard := by
    rw [hguard, h.attached]
    split
    · rfl
    · have hidle : guard.isAwaitingWrite = false :=
        awaiting_eq h.attached ▸ hquiet.resolve_right ‹_›
      simp [PostReconnectWriteLivenessGuard.recordJournalWrite, hidle]
  have hawaiting : (s.step (.dispatch tick)).awaiting = s.awaiting :=
    (awaiting_eq hsame).trans (awaiting_eq h.attached).symm
  have hunwritten : (s.step (.dispatch tick)).unwritten = s.unwritten := by
    show (if s.latestSeq < (s.step (.dispatch tick)).latestSeq then none else s.unwritten) = _
    split
    · cases hu : s.unwritten with
      | none => rfl
      | some armedAt =>
        have hopen := h.awaiting_iff.mpr ⟨armedAt, hu⟩
        have hblank := hquiet.resolve_left (by simp [hopen])
        rw [if_neg fun ha => ha.1 hblank] at hlatest
        omega
    · rfl
  refine ⟨⟨hsame, fun armedAt hu => ?_, fun hu => h.idle (hunwritten ▸ hu)⟩, ?_⟩
  · obtain ⟨htask, harmed, hseq⟩ := h.waiting armedAt (hunwritten ▸ hu)
    have hblank := hquiet.resolve_left (by simp [h.awaiting_iff.mpr ⟨armedAt, hunwritten ▸ hu⟩])
    rw [if_neg fun ha => ha.1 hblank] at hlatest
    exact ⟨htask, harmed, hseq.trans hlatest.symm⟩
  · show (if s.awaiting && !(s.step (.dispatch tick)).awaiting then _ else s.closed) = s.closed
    rw [hawaiting]
    simp

/-- **A dispatch that reports a write into an open window** closes it. -/
theorem dispatch_closes (h : s.GuardInv guard) {tick : TradeTick cfg.toRuntime}
    (hopen : s.awaiting = true) (hblank : ¬BlankSymbol tick) :
    (s.step (.dispatch tick)).closed =
        s.closed ++ [(s.latestSeq, (s.step (.dispatch tick)).latestSeq)] ∧
      (s.decorator.journal.Accepts tick → (s.step (.dispatch tick)).GuardInv guard.cancel) := by
  obtain ⟨hlatest, hguard⟩ := s.dispatch_seen tick
  obtain ⟨armedAt, hu⟩ := h.awaiting_iff.mp hopen
  have hcancel : (s.step (.dispatch tick)).decorator.writeLivenessGuard = some guard.cancel := by
    rw [hguard, h.attached, if_neg hblank]
    simp [PostReconnectWriteLivenessGuard.recordJournalWrite, ← awaiting_eq h.attached, hopen]
  refine ⟨?_, fun ha => ⟨hcancel, fun armedAt' hu' => ?_, fun _ => rfl⟩⟩
  · show (if s.awaiting && !(s.step (.dispatch tick)).awaiting then _ else s.closed) = _
    rw [awaiting_eq hcancel, hopen, (h.waiting armedAt hu).2.2]
    rfl
  · rw [if_pos ha] at hlatest
    have hnone : (s.step (.dispatch tick)).unwritten = none := if_pos hlatest
    rw [hnone] at hu'
    cases hu'

/-- **A dispatch keeps the windows honest** exactly when it is fresh. -/
theorem dispatch_byRealWrites (h : s.GuardInv guard) (hq : s.ByRealWrites)
    (tick : TradeTick cfg.toRuntime) :
    ((s.step (.dispatch tick)).ByRealWrites ↔ s.Fresh (.dispatch tick)) ∧
      (s.Fresh (.dispatch tick) → ∃ guard', (s.step (.dispatch tick)).GuardInv guard') := by
  by_cases hquiet : s.awaiting = false ∨ BlankSymbol tick
  · obtain ⟨hinv, hclosed⟩ := dispatch_quiet h hquiet
    refine ⟨iff_of_true ?_ fun hopen => ?_, fun _ => ⟨guard, hinv⟩⟩
    · rw [hinv.byRealWrites_iff, hclosed]
      exact hq.closed
    · exact .inr (hquiet.resolve_left (by simp [hopen]))
  · rw [not_or, Bool.not_eq_false] at hquiet
    obtain ⟨hopen, hblank⟩ := hquiet
    obtain ⟨hclosed, hinv⟩ := dispatch_closes h hopen hblank
    obtain ⟨hlatest, -⟩ := s.dispatch_seen tick
    have hlast : (s.latestSeq, (s.step (.dispatch tick)).latestSeq) ∈
        (s.step (.dispatch tick)).closed := by simp [hclosed]
    by_cases ha : s.decorator.journal.Accepts tick
    · rw [if_pos ha] at hlatest
      refine ⟨iff_of_true ?_ fun _ => .inl ha, fun _ => ⟨_, hinv ha⟩⟩
      rw [(hinv ha).byRealWrites_iff, hclosed]
      intro window hw
      rcases List.mem_append.mp hw with hw | hw
      · exact hq.closed window hw
      · rw [List.mem_singleton.mp hw]
        exact hlatest
    · -- the duplicate closes the window at the tip it was armed at
      rw [if_neg ha] at hlatest
      have hstale : ¬s.Fresh (.dispatch tick) := fun hfresh => (hfresh hopen).elim ha hblank
      refine ⟨iff_of_false (fun hq' => ?_) hstale, fun hfresh => absurd hfresh hstale⟩
      exact absurd (hlatest ▸ hq'.closed _ hlast) (Nat.lt_irrefl _)

/-! ## Runs -/

/-- The guard's own operations keep what the guard knows. -/
theorem guardInv_step (h : s.GuardInv guard) (op : WatchedOp cfg)
    (hop : ∀ tick, op ≠ .dispatch tick) :
    (∃ guard', (s.step op).GuardInv guard') ∧ (s.step op).closed = s.closed := by
  cases op with
  | dispatch tick => exact absurd rfl (hop tick)
  | armAfterSubscriptionsConfirmed confirmedSymbols connectGeneration now =>
    simp only [step, h.attached]
    cases ha : guard.armAfterSubscriptionsConfirmed confirmedSymbols connectGeneration now with
    | error e => exact ⟨⟨guard, h⟩, rfl⟩
    | ok armed =>
      refine ⟨⟨armed, rfl, fun armedAt hu => ?_, fun hu => absurd hu (by simp)⟩, rfl⟩
      simp only [PostReconnectWriteLivenessGuard.armAfterSubscriptionsConfirmed] at ha
      split at ha
      · cases ha
      split at ha
      · cases ha
      split at ha
      · cases ha
      · cases ha
        exact ⟨rfl, hu, rfl⟩
  | cancel =>
    simp only [step, h.attached]
    exact ⟨⟨guard.cancel, rfl, fun _ hu => absurd hu (by simp), fun _ => rfl⟩, rfl⟩
  | wake now =>
    simp only [step, h.attached]
    refine ⟨⟨(guard.wake now).1, rfl, fun armedAt hu => ?_, fun hu => ?_⟩, rfl⟩
    · -- the window is not over yet
      obtain ⟨hu, hnow⟩ := Option.filter_eq_some_iff.mp hu
      obtain ⟨htask, harmed, hseq⟩ := h.waiting armedAt hu
      have hsame : (guard.wake now).1 = guard := by
        simp only [PostReconnectWriteLivenessGuard.wake, htask, harmed, Option.any_some, hnow,
          ↓reduceIte]
      rw [hsame]
      exact ⟨htask, harmed, hseq⟩
    · cases hw : s.unwritten with
      | none => simp only [PostReconnectWriteLivenessGuard.wake, h.idle hw]
      | some armedAt =>
        obtain ⟨htask, harmed, -⟩ := h.waiting armedAt hw
        have hnow : ¬now < armedAt + policy.timeoutSeconds := by
          simpa [hw] using hu
        simp only [PostReconnectWriteLivenessGuard.wake, htask, harmed, Option.any_some, hnow,
          decide_false, Bool.false_eq_true, ↓reduceIte,
          PostReconnectWriteLivenessGuard.evaluateAfterTimeout, ne_eq, not_true_eq_false]
        split <;> rfl

theorem step_byRealWrites (op : WatchedOp cfg) (h : s.GuardInv guard) (hq : s.ByRealWrites) :
    ((s.step op).ByRealWrites ↔ s.Fresh op) ∧
      (s.Fresh op → ∃ guard', (s.step op).GuardInv guard') := by
  by_cases hop : ∃ tick, op = .dispatch tick
  · obtain ⟨tick, rfl⟩ := hop
    exact dispatch_byRealWrites h hq tick
  · have hop : ∀ tick, op ≠ .dispatch tick := fun tick he => hop ⟨tick, he⟩
    obtain ⟨⟨guard', hinv⟩, hclosed⟩ := guardInv_step h op hop
    have hfresh : s.Fresh op := by
      cases op with
      | dispatch tick => exact absurd rfl (hop tick)
      | _ => trivial
    refine ⟨iff_of_true ?_ hfresh, fun _ => ⟨guard', hinv⟩⟩
    rw [hinv.byRealWrites_iff, hclosed]
    exact hq.closed

/-- **Windows are closed by real writes** exactly in the runs without a duplicate in a window, from
any journal. -/
theorem real_writes_iff (policy : LivenessPolicy) (journal : TickJournal cfg) (disk : Disk)
    (ops : List (WatchedOp cfg)) :
    Run.Always step ByRealWrites (start journal disk : Watched cfg policy) ops ↔
      Run.Each step Fresh (start journal disk : Watched cfg policy) ops :=
  @Run.always_iff_each _ _ _ (fun s => ∃ guard, s.GuardInv guard) _ _
    (fun _ op ⟨_, hi⟩ hq => (step_byRealWrites op hi hq).2)
    (fun _ op ⟨_, hi⟩ hq => (step_byRealWrites op hi hq).1)
    _ ⟨_, guardInv_start journal disk⟩
    ((guardInv_start journal disk).byRealWrites_iff.mpr (by simp [start])) ops

/-- The guard of a first start. -/
def emptyStart : Watched .default .default :=
  let first : Instance .default := .start
  start first.journal first.disk

/-- The snapshot of a reconnect brings the last trade again. -/
def replayRun : List (WatchedOp .default) :=
  [.dispatch (readmeTick ['B'] ['1']), .armAfterSubscriptionsConfirmed {['B']} none 10,
    .dispatch (readmeTick ['B'] ['1'])]

/-- **A replayed trade closes the window.** -/
theorem replay_closes_window :
    ¬Run.Always step ByRealWrites emptyStart replayRun := by
  intro h
  have hclosed : (1, 1) ∈ (Run.exec step emptyStart
      replayRun).closed := by
    decide +kernel
  exact absurd (h.last.closed _ hclosed) (Nat.lt_irrefl 1)

end Watched

end Leviathan
