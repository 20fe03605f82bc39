import Leviathan.Journal.FileLock
import Leviathan.Lib.LockOrder

/-!
# The locks of a journal

The threads of any number of processes call the journals of one directory. The calls that write take
the file lock and then the thread lock of their journal; the others take the thread lock or none.
`flush` looks at its flag under the thread lock alone, and gives it back before it takes both. The
idle timer is a thread that calls `flush`.

* `JournalCall.program`: the locks of a call.
* `no_deadlock`: **in no run do the threads wait for each other in a circle: some call can always go
  on, and all of them can return.**
* `changesHands_step`: the lock of `JournalFileLock` changes hands as the locks here do.
-/

namespace Leviathan

open LockOrder

inductive JournalLock where
  /-- `JournalFileLock(self.__lock_path)` -/
  | file
  /-- `self.__thread_lock` of a journal -/
  | thread (n : Nat)
  deriving DecidableEq

/-- The order in which the calls take them. -/
def JournalLock.rank : JournalLock → Nat
  | file => 0
  | thread _ => 1

/-- A call of `TickJournal`. -/
inductive JournalCall where
  | append
  | ensureLatestSeqAtLeast
  | compactBeforeSeq (minRetainSeq : Nat)
  /-- `dirty` is what it finds -/
  | flushMeta (dirty : Bool)
  | hasUnpersistedMeta
  | latestSeq
  | reloadMetaFromDisk
  | reloadSeqIndexFromDisk
  | readLatestSeqFromDisk
  | byteOffsetForSeq

/-- `with lock: body`. An exception of the body leaves it as its end does. -/
def withLock (lock : JournalLock) (body : List (Action JournalLock)) : List (Action JournalLock) :=
  .acquire lock :: body ++ [.release lock]

/-- `with JournalFileLock(..): with self.__thread_lock`. -/
def withJournalLocks (n : Nat) : List (Action JournalLock) :=
  withLock .file (withLock (.thread n) [.work])

/-- The locks of a call, for the journal number `n`. -/
def JournalCall.program (n : Nat) : JournalCall → List (Action JournalLock)
  | append | ensureLatestSeqAtLeast => withJournalLocks n
  | compactBeforeSeq minRetainSeq => if minRetainSeq ≤ 1 then [.work] else withJournalLocks n
  | flushMeta dirty => withLock (.thread n) [.work] ++ if dirty then withJournalLocks n else []
  | hasUnpersistedMeta | latestSeq | reloadMetaFromDisk | reloadSeqIndexFromDisk =>
    withLock (.thread n) [.work]
  | readLatestSeqFromDisk | byteOffsetForSeq => [.work]

/-- **A call takes its locks in order**, and gives them back. -/
theorem JournalCall.program_ordered (n : Nat) (call : JournalCall) :
    Ordered JournalLock.rank ∅ (call.program n) := by
  have hboth : Ordered JournalLock.rank ∅ (withJournalLocks n) := by
    simp [withJournalLocks, withLock, Ordered, JournalLock.rank]
  have hthread : ∀ rest, Ordered JournalLock.rank ∅ rest →
      Ordered JournalLock.rank ∅ (withLock (.thread n) [.work] ++ rest) := by
    intro rest hrest
    simpa [withLock, Ordered] using hrest
  cases call with
  | append => exact hboth
  | ensureLatestSeqAtLeast => exact hboth
  | compactBeforeSeq minRetainSeq =>
    simp only [program]
    split
    · rfl
    · exact hboth
  | flushMeta dirty =>
    refine hthread _ ?_
    cases dirty with
    | true => exact hboth
    | false => rfl
  | hasUnpersistedMeta => exact hthread [] rfl
  | latestSeq => exact hthread [] rfl
  | reloadMetaFromDisk => exact hthread [] rfl
  | reloadSeqIndexFromDisk => exact hthread [] rfl
  | readLatestSeqFromDisk => rfl
  | byteOffsetForSeq => rfl

inductive LockedOp (ι : Type) where
  /-- a thread that is in no call makes one -/
  | call (i : ι) (call : JournalCall)
  /-- the thread goes on, if it does not wait -/
  | advance (i : ι)
  /-- `acquire` of the file lock raises a `TimeoutError` -/
  | timeOut (i : ι)
  /-- the processes of these journals die -/
  | kill (dies : Nat → Bool)

/-- The threads and their locks. A thread `i` works on the journal number `inst i`. -/
abbrev LockedJournals (ι : Type) := Threads ι JournalLock

namespace LockedJournals

variable {ι : Type}

def start : LockedJournals ι := ⟨fun _ => none, fun _ => []⟩

variable [DecidableEq ι] (inst : ι → Nat)

def step (s : LockedJournals ι) : LockedOp ι → LockedJournals ι
  | .call i call => if s.program i = [] then s.divert i (call.program (inst i)) else s
  | .advance i => s.advance i
  | .timeOut i =>
    match s.program i with
    | .acquire .file :: _ => s.divert i []
    | _ => s
  | .kill dies => s.kill fun i => dies (inst i)

omit [DecidableEq ι] in
theorem disciplined_start : (start : LockedJournals ι).Disciplined JournalLock.rank := by
  intro i
  show {lock | (none : Option ι) = some i} = (∅ : Set JournalLock)
  simp

variable {inst} {s : LockedJournals ι}

omit [DecidableEq ι] in
/-- A thread that waits for the file lock has no lock. -/
theorem held_of_file (h : s.Disciplined JournalLock.rank) {i : ι}
    {program : List (Action JournalLock)} (hprogram : s.program i = .acquire .file :: program) :
    s.held i = ∅ := by
  have hi := h i
  rw [hprogram] at hi
  exact Set.eq_empty_of_forall_notMem fun lock hlock => Nat.not_lt_zero _ (hi.1 lock hlock)

theorem disciplined_step (s : LockedJournals ι) (op : LockedOp ι)
    (h : s.Disciplined JournalLock.rank) : (step inst s op).Disciplined JournalLock.rank := by
  cases op with
  | call i call =>
    unfold step
    simp only
    split
    · rename_i hidle
      refine h.divert ?_
      have hi := h i
      rw [hidle] at hi
      rw [show s.held i = ∅ from hi]
      exact call.program_ordered (inst i)
    · exact h
  | advance i => exact h.advance i
  | timeOut i =>
    unfold step
    simp only
    split
    · rename_i hprogram
      refine h.divert ?_
      rw [held_of_file h hprogram]
      rfl
    · exact h
  | kill dies => exact h.kill _

/-- Only finitely many threads are in a call. -/
def FewBusy (s : LockedJournals ι) : Prop := ∃ busy : Finset ι, ∀ i, s.program i ≠ [] → i ∈ busy

omit [DecidableEq ι] in
/-- A step that calls no thread. -/
theorem FewBusy.of_program (h : s.FewBusy) {s' : LockedJournals ι}
    (hprogram : ∀ i, s.program i = [] → s'.program i = []) : s'.FewBusy := by
  obtain ⟨busy, hbusy⟩ := h
  exact ⟨busy, fun i hi => hbusy i fun hidle => hi (hprogram i hidle)⟩

theorem fewBusy_step (s : LockedJournals ι) (op : LockedOp ι) (h : s.FewBusy) :
    (step inst s op).FewBusy := by
  cases op with
  | call i call =>
    unfold step
    simp only
    split
    · obtain ⟨busy, hbusy⟩ := h
      refine ⟨insert i busy, fun j hj => ?_⟩
      by_cases hij : j = i
      · rw [hij]
        exact Finset.mem_insert_self i busy
      · have hprogram : (s.divert i (call.program (inst i))).program j = s.program j :=
          Function.update_of_ne hij _ _
        exact Finset.mem_insert_of_mem (hbusy j (hprogram ▸ hj))
    · exact h
  | advance i =>
    by_cases hblocked : s.Blocked i
    · obtain ⟨lock, program, hprogram, howner⟩ := hblocked
      have hs : step inst s (.advance i) = s := by
        simp only [step, Threads.advance, hprogram, howner, ↓reduceIte]
      rw [hs]
      exact h
    · refine h.of_program fun j hj => ?_
      show (s.advance i).program j = []
      rw [Threads.advance_program hblocked]
      by_cases hij : j = i
      · rw [← hij, Function.update_self, hj, List.tail_nil]
      · rw [Function.update_of_ne hij, hj]
  | timeOut i =>
    unfold step
    simp only
    split
    · refine h.of_program fun j hj => ?_
      by_cases hij : j = i
      · rw [hij]
        exact Function.update_self i _ _
      · exact (Function.update_of_ne hij _ _).trans hj
    · exact h
  | kill dies =>
    refine h.of_program fun j hj => ?_
    show (if dies (inst j) then [] else s.program j) = []
    rw [hj, ite_self]

/-- The calls do not wait in a circle. -/
structure DeadlockFree (inst : ι → Nat) (s : LockedJournals ι) : Prop where
  /-- no thread waits for itself -/
  notOwn : ∀ i lock program, s.program i = .acquire lock :: program → s.owner lock ≠ some i
  /-- where a call has not returned, one of them does not wait -/
  progress : ∀ i, s.program i ≠ [] → ∃ j, s.program j ≠ [] ∧ ¬s.Blocked j
  /-- the calls can all return, and then every lock is free -/
  finishes : ∃ schedule : List ι,
    let s' := Run.exec (step inst) s (schedule.map .advance)
    (∀ i, s'.program i = []) ∧ ∀ lock, s'.owner lock = none

theorem exec_advance (schedule : List ι) (s : LockedJournals ι) :
    Run.exec (step inst) s (schedule.map .advance) = Run.exec Threads.advance s schedule :=
  List.foldl_map

theorem deadlockFree (h : s.Disciplined JournalLock.rank) (hfew : s.FewBusy) :
    s.DeadlockFree inst := by
  obtain ⟨busy, hbusy⟩ := hfew
  refine ⟨fun i lock program => h.not_own, fun i => ?_, ?_⟩
  · exact h.exists_unblocked (busy.finite_toSet.subset hbusy)
  · obtain ⟨schedule, hschedule⟩ := h.finishes hbusy
    refine ⟨schedule, ?_⟩
    simp only [exec_advance]
    exact hschedule

/-- **No deadlock**, whichever calls time out and whichever processes die. -/
theorem no_deadlock (inst : ι → Nat) (ops : List (LockedOp ι)) :
    Run.Always (step inst) (DeadlockFree inst) start ops := by
  have hstep : ∀ (s : LockedJournals ι) op, s.Disciplined JournalLock.rank ∧ s.FewBusy →
      (step inst s op).Disciplined JournalLock.rank ∧ (step inst s op).FewBusy :=
    fun s op h => ⟨disciplined_step s op h.1, fewBusy_step s op h.2⟩
  refine (Run.always_of_step hstep ⟨disciplined_start, ∅, ?_⟩ ops).mono fun s h =>
    deadlockFree h.1 h.2
  exact fun i hi => absurd rfl hi

end LockedJournals

/-! ## The file lock -/

namespace FileLocks

variable {ι : Type} {s : FileLocks ι}

/-- The lock goes to a thread that asks for it while it is free, and is free again when that thread
gives it back, closes its handle or dies. -/
structure ChangesHands (s s' : FileLocks ι) (event : LockEvent ι) : Prop where
  taken : ∀ i, s'.HasLock i → s.HasLock i ∨ s.owner = none ∧ event = .tryLock i false
  given : ∀ i, s.HasLock i → s'.HasLock i ∨ s'.owner = none ∧
    (event = .unlock i false ∨ event = .close i ∨ ∃ dies, dies i = true ∧ event = .kill dies)

theorem ChangesHands.refl (s : FileLocks ι) (event : LockEvent ι) : s.ChangesHands s event :=
  ⟨fun _ => .inl, fun _ => .inl⟩

variable [DecidableEq ι]

/-- A thread goes on, and its handle and the owner stay. -/
theorem changesHands_setPhase {i : ι} (phase : LockPhase) (event : LockEvent ι)
    (hhandle : phase.handle = (s.phase i).handle) : s.ChangesHands (s.setPhase i phase) event := by
  have hlock : ∀ j, (s.setPhase i phase).HasLock j ↔ s.HasLock j := by
    intro j
    have hj : ((s.setPhase i phase).phase j).handle = (s.phase j).handle := by
      by_cases hji : j = i
      · rw [hji, ← hhandle]
        simp only [setPhase, Function.update_self]
      · simp only [setPhase, Function.update_of_ne hji]
    simp only [HasLock, hj]
    rfl
  exact ⟨fun j hj => .inl ((hlock j).mp hj), fun j hj => .inl ((hlock j).mpr hj)⟩

/-- A thread closes its handle. -/
theorem changesHands_close (h : s.Consistent) {i : ι} {handle : Nat} {phase : LockPhase}
    (hphase : (s.phase i).handle = some handle) (hnone : phase.handle = none) :
    s.ChangesHands ((s.closeFile i handle).setPhase i phase) (.close i) := by
  have hself : ((s.closeFile i handle).setPhase i phase).phase i = phase := Function.update_self ..
  have hother : ∀ j, j ≠ i → ((s.closeFile i handle).setPhase i phase).phase j = s.phase j :=
    fun j hj => Function.update_of_ne hj ..
  constructor
  · rintro j ⟨handle', howner, hj⟩
    have hji : j ≠ i := by
      rintro rfl
      rw [hself, hnone] at hj
      cases hj
    rw [hother j hji] at hj
    exact .inl ⟨handle', (Option.mem_filter_iff.mp howner).1, hj⟩
  · rintro j ⟨handle', howner, hj⟩
    by_cases hji : j = i
    · subst hji
      rw [hphase] at hj
      obtain rfl := Option.some.inj hj
      refine .inr ⟨?_, .inr (.inl rfl)⟩
      show s.owner.filter _ = none
      rw [Option.mem_def.mp howner]
      simp
    · refine .inl ⟨handle', Option.mem_filter_iff.mpr ⟨howner, ?_⟩, by rw [hother j hji]; exact hj⟩
      simp only [ne_eq, decide_not, Bool.not_eq_eq_eq_not, Bool.not_true, decide_eq_false_iff_not]
      rintro rfl
      exact hji (h.handle_unique hj hphase)

theorem changesHands_openFile (h : s.Consistent) {i : ι} {deadline : Rat}
    (hphase : s.phase i = .opening deadline) :
    s.ChangesHands { s.setPhase i (.locking s.nextHandle deadline) with
      openFiles := (i, s.nextHandle) :: s.openFiles
      nextHandle := s.nextHandle + 1 } (.openFile i false) := by
  -- the new handle is not the owner's
  have hfresh : ∀ handle ∈ s.owner, handle ≠ s.nextHandle := by
    rintro handle howner rfl
    obtain ⟨j, hj⟩ := h.owner _ howner
    have hfile := (h.files j _).mpr (LockPhase.handle_of_owner hj)
    exact Nat.lt_irrefl _ (h.fresh _ hfile)
  constructor
  · rintro j ⟨handle, howner, hj⟩
    by_cases hji : j = i
    · subst hji
      simp only [setPhase, Function.update_self, LockPhase.handle, Option.some.injEq] at hj
      exact absurd hj.symm (hfresh handle howner)
    · simp only [setPhase, Function.update_of_ne hji] at hj
      exact .inl ⟨handle, howner, hj⟩
  · rintro j ⟨handle, howner, hj⟩
    have hji : j ≠ i := by
      rintro rfl
      rw [hphase] at hj
      cases hj
    refine .inl ⟨handle, howner, ?_⟩
    simp only [setPhase, Function.update_of_ne hji]
    exact hj

/-- **The file lock is a lock.** -/
theorem changesHands_step (h : s.Consistent) (timeoutSeconds : ι → Rat) (event : LockEvent ι) :
    s.ChangesHands (s.step timeoutSeconds event) event := by
  cases event with
  | acquire i now =>
    simp only [step]
    split
    · rename_i hphase
      exact changesHands_setPhase _ _ (by rw [hphase]; rfl)
    · exact ⟨fun _ => .inl, fun _ => .inl⟩
    · exact .refl s _
  | openFile i raises =>
    simp only [step]
    split
    · rename_i hphase
      cases raises with
      | true => exact changesHands_setPhase _ _ (by rw [hphase]; rfl)
      | false => exact changesHands_openFile h hphase
    · exact .refl s _
  | tryLock i raises =>
    simp only [step]
    split
    · rename_i handle deadline hphase
      split
      · exact changesHands_setPhase _ _ (by rw [hphase]; rfl)
      · rename_i hfree
        simp only [Bool.or_eq_true, Option.isSome_iff_ne_none, not_or, not_not,
          Bool.not_eq_true] at hfree
        obtain ⟨hnone, rfl⟩ := hfree
        constructor
        · rintro j ⟨handle', howner, hj⟩
          obtain rfl := Option.some.inj howner
          right
          by_cases hji : j = i
          · exact ⟨hnone, by rw [hji]⟩
          · simp only [setPhase, Function.update_of_ne hji] at hj
            exact absurd (h.handle_unique hj (by rw [hphase]; rfl)) hji
        · rintro j ⟨handle', howner, -⟩
          rw [hnone] at howner
          cases howner
    · exact .refl s _
  | close i =>
    simp only [step]
    split
    · rename_i hphase
      exact changesHands_close h (by rw [hphase]; rfl) rfl
    · rename_i hphase
      exact changesHands_close h (by rw [hphase]; rfl) rfl
    · exact .refl s _
  | checkDeadline i now =>
    simp only [step]
    split
    · rename_i hphase
      have hmove (phase : LockPhase) (hnone : phase.handle = none) :=
        changesHands_setPhase (s := s) (i := i) phase (.checkDeadline i now)
          (by rw [hphase, hnone]; rfl)
      split
      · exact ⟨(hmove .released rfl).taken, (hmove .released rfl).given⟩
      · exact hmove _ rfl
    · exact .refl s _
  | wake i =>
    simp only [step]
    split
    · rename_i hphase
      exact changesHands_setPhase _ _ (by rw [hphase]; rfl)
    · exact .refl s _
  | release i =>
    simp only [step]
    split
    · rename_i hphase
      exact changesHands_setPhase _ _ (by rw [hphase]; rfl)
    · exact .refl s _
  | unlock i raises =>
    simp only [step]
    split
    · rename_i handle hphase
      have hmove := changesHands_setPhase (s := s) (i := i) (.leaving handle)
        (.unlock i raises) (by rw [hphase]; rfl)
      cases raises with
      | true => exact ⟨hmove.taken, hmove.given⟩
      | false =>
        have howner := h.acquired i handle (.inr hphase)
        constructor
        · rintro j ⟨handle', howner', -⟩
          cases howner'
        · rintro j ⟨handle', howner', hj⟩
          obtain rfl := Option.mem_unique howner' howner
          obtain rfl := h.handle_unique hj (by rw [hphase]; rfl : (s.phase i).handle = some handle')
          exact .inr ⟨rfl, .inl rfl⟩
    · exact .refl s _
  | kill dies =>
    constructor
    · rintro j ⟨handle, howner, hj⟩
      refine .inl ⟨handle, (Option.mem_filter_iff.mp howner).1, ?_⟩
      have hj : (if dies j then LockPhase.released else s.phase j).handle = some handle := hj
      split at hj
      · cases hj
      · exact hj
    · rintro j ⟨handle, howner, hj⟩
      have hfile := (h.files j handle).mpr hj
      cases hdies : dies j with
      | false =>
        refine .inl ⟨handle, Option.mem_filter_iff.mpr ⟨howner, ?_⟩, ?_⟩
        · exact List.any_eq_true.mpr ⟨_, hfile, by simp [hdies]⟩
        · show (if dies j then LockPhase.released else s.phase j).handle = some handle
          rw [hdies]
          exact hj
      | true =>
        refine .inr ⟨h.lockSafe.freed dies fun k hk => ?_, .inr (.inr ⟨dies, hdies, rfl⟩)⟩
        rw [h.lockSafe.exclusive k j hk ⟨handle, howner, hj⟩]
        exact hdies

end FileLocks

end Leviathan
