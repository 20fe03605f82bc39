import Leviathan.Lib.Run
import Mathlib.Algebra.Order.Ring.Rat
import Mathlib.Logic.Function.Basic

/-!
# `JournalFileLock`

The threads of any number of processes take the lock of one journal. Each opens the lock file for
itself and calls `flock` on its handle; the operating system gives the lock to one open handle at a
time, and takes it back when that handle is closed or its process dies.

* `LockPhase`: where a thread is in `acquire` or `release`.
* `FileLocks.step`: one system call, one look at the clock, or the death of a process.
* `FileLocks.Consistent`: which handles are open, and which has the lock. Every step keeps it.
* `lock_safe`: **at most one thread holds the lock, no handle leaks, and a call times out only after
  its time is over.**
-/

namespace Leviathan

/-- Where a thread is in a call of its `JournalFileLock`: each place is one before a call of the
operating system, or between two calls. -/
inductive LockPhase where
  /-- no call runs, and `self.__handle` is `None` -/
  | released
  /-- at the head of the loop of `acquire` -/
  | opening (deadline : Rat)
  /-- the file is open -/
  | locking (handle : Nat) (deadline : Rat)
  /-- in `except OSError`, with the file open -/
  | closing (handle : Nat) (deadline : Rat)
  /-- before `time.time() >= deadline` -/
  | expiring (deadline : Rat)
  | sleeping (deadline : Rat)
  /-- no call runs, and `self.__handle` is the handle -/
  | acquired (handle : Nat)
  /-- in `release`, before `LOCK_UN` -/
  | unlocking (handle : Nat)
  /-- in its `finally` -/
  | leaving (handle : Nat)
  deriving DecidableEq

namespace LockPhase

/-- The handle that the thread has open, from `open` in `acquire` to `close` in `release`. -/
def handle : LockPhase → Option Nat
  | .released | .opening _ | .expiring _ | .sleeping _ => none
  | .locking handle _ | .closing handle _ | .acquired handle | .unlocking handle
  | .leaving handle => some handle

theorem handle_of_acquired {phase : LockPhase} {h : Nat}
    (hphase : phase = .acquired h ∨ phase = .unlocking h) : phase.handle = some h := by
  rcases hphase with rfl | rfl <;> rfl

theorem handle_of_owner {phase : LockPhase} {h : Nat}
    (hphase : phase = .acquired h ∨ phase = .unlocking h ∨ phase = .leaving h) :
    phase.handle = some h := by
  rcases hphase with rfl | rfl | rfl <;> rfl

/-- The deadline of the `acquire` that runs: `time.time()` at its beginning and the timeout. -/
def deadline : LockPhase → Option Rat
  | .opening deadline | .locking _ deadline | .closing _ deadline | .expiring deadline
  | .sleeping deadline => some deadline
  | .released | .acquired _ | .unlocking _ | .leaving _ => none

end LockPhase

/-- What `acquire` raises: `RuntimeError` where the object has a handle already, or `TimeoutError`
behind its deadline. -/
inductive LockError where
  /-- `RuntimeError`: the lock is already acquired -/
  | alreadyAcquired
  /-- `TimeoutError` -/
  | timedOut
  deriving DecidableEq

/-- The lock file of a journal, and the threads that use it, each with a lock object of its own. The
operating system has a set of open handles, and gives the lock to one of them at most. -/
structure FileLocks (ι : Type) where
  phase : ι → LockPhase
  /-- the open handles of the lock file, each with its thread -/
  openFiles : List (ι × Nat)
  nextHandle : Nat
  /-- the handle that has the lock -/
  owner : Option Nat
  /-- what the calls of `acquire` raised, and when -/
  raised : List (ι × LockError × Rat)

inductive LockEvent (ι : Type) where
  /-- `acquire()` is called; its directory is there -/
  | acquire (i : ι) (now : Rat)
  /-- `open(self.__lock_path, "a+b")` returns, or raises an `OSError` -/
  | openFile (i : ι) (raises : Bool)
  /-- `_try_acquire_exclusive_lock` is called; `raises` is an error that has no other holder -/
  | tryLock (i : ι) (raises : Bool)
  /-- `handle.close()` returns or raises: the handle is closed in either case -/
  | close (i : ι)
  /-- `time.time() >= deadline` -/
  | checkDeadline (i : ι) (now : Rat)
  /-- `time.sleep` returns -/
  | wake (i : ι)
  /-- `release()` is called -/
  | release (i : ι)
  /-- `handle.seek` and `_release_file_descriptor_lock` return, or one of them raises -/
  | unlock (i : ι) (raises : Bool)
  /-- a process dies, with these threads -/
  | kill (dies : ι → Bool)

namespace FileLocks

variable {ι : Type}

/-- No thread has called `acquire`, and nobody has the file open. -/
def start : FileLocks ι := ⟨fun _ => .released, [], 0, none, []⟩

section Steps

variable [DecidableEq ι]

def setPhase (s : FileLocks ι) (i : ι) (phase : LockPhase) : FileLocks ι :=
  { s with phase := Function.update s.phase i phase }

/-- The operating system closes the handle of a thread, and takes the lock from it if it has it. -/
def closeFile (s : FileLocks ι) (i : ι) (handle : Nat) : FileLocks ι :=
  { s with
    openFiles := s.openFiles.erase (i, handle)
    owner := s.owner.filter (· ≠ handle) }

/-- Threads die, those of a process together: the operating system closes their handles. -/
def killThreads (s : FileLocks ι) (dies : ι → Bool) : FileLocks ι :=
  { s with
    phase := fun i => if dies i then .released else s.phase i
    openFiles := s.openFiles.filter fun file => !dies file.1
    owner := s.owner.filter fun handle =>
      s.openFiles.any fun file => !dies file.1 && file.2 = handle }

/-- One event, where the thread is at the place that it names; elsewhere it does nothing.
`timeoutSeconds` is that of each lock object. -/
def step (timeoutSeconds : ι → Rat) (s : FileLocks ι) : LockEvent ι → FileLocks ι
  | .acquire i now =>
    match s.phase i with
    | .released => s.setPhase i (.opening (now + timeoutSeconds i))
    | .acquired _ => { s with raised := s.raised ++ [(i, .alreadyAcquired, now)] }
    | _ => s
  | .openFile i raises =>
    match s.phase i with
    | .opening deadline =>
      if raises then s.setPhase i (.expiring deadline)
      else { s.setPhase i (.locking s.nextHandle deadline) with
        openFiles := (i, s.nextHandle) :: s.openFiles
        nextHandle := s.nextHandle + 1 }
    | _ => s
  | .tryLock i raises =>
    match s.phase i with
    | .locking handle deadline =>
      if s.owner.isSome || raises then s.setPhase i (.closing handle deadline)
      else { s.setPhase i (.acquired handle) with owner := some handle }
    | _ => s
  | .close i =>
    match s.phase i with
    | .closing handle deadline => (s.closeFile i handle).setPhase i (.expiring deadline)
    | .leaving handle => (s.closeFile i handle).setPhase i .released
    | _ => s
  | .checkDeadline i now =>
    match s.phase i with
    | .expiring deadline =>
      if now ≥ deadline then
        { s.setPhase i .released with raised := s.raised ++ [(i, .timedOut, now)] }
      else s.setPhase i (.sleeping deadline)
    | _ => s
  | .wake i =>
    match s.phase i with
    | .sleeping deadline => s.setPhase i (.opening deadline)
    | _ => s
  | .release i =>
    match s.phase i with
    | .acquired handle => s.setPhase i (.unlocking handle)
    | _ => s
  | .unlock i raises =>
    match s.phase i with
    | .unlocking handle =>
      { s.setPhase i (.leaving handle) with owner := if raises then s.owner else none }
    | _ => s
  | .kill dies => s.killThreads dies

end Steps

/-! ## The handles -/

/-- The lock of the thread is acquired, as `is_acquired` of its object tells. -/
def Acquired (s : FileLocks ι) (i : ι) : Prop := ∃ handle, s.phase i = .acquired handle

/-- Which handles are open, and which has the lock: each is that of one thread, and a thread that
has acquired its lock has the lock of the file. -/
structure Consistent (s : FileLocks ι) : Prop where
  files : ∀ i handle, (i, handle) ∈ s.openFiles ↔ (s.phase i).handle = some handle
  nodup : s.openFiles.Nodup
  unique : ∀ i j handle, (i, handle) ∈ s.openFiles → (j, handle) ∈ s.openFiles → i = j
  fresh : ∀ file ∈ s.openFiles, file.2 < s.nextHandle
  /-- the owner has not called `LOCK_UN`, or it raised -/
  owner : ∀ handle ∈ s.owner, ∃ i, s.phase i = .acquired handle ∨ s.phase i = .unlocking handle ∨
    s.phase i = .leaving handle
  acquired : ∀ i handle, s.phase i = .acquired handle ∨ s.phase i = .unlocking handle →
    s.owner = some handle

variable {s : FileLocks ι}

theorem consistent_start : (start : FileLocks ι).Consistent := by
  refine ⟨?_, .nil, ?_, ?_, ?_, ?_⟩ <;> simp [start, LockPhase.handle]

/-- The handle of a thread is its own, as every `open` makes a new one. -/
theorem Consistent.handle_unique (h : s.Consistent) {i j : ι} {handle : Nat}
    (hi : (s.phase i).handle = some handle) (hj : (s.phase j).handle = some handle) : i = j :=
  h.unique i j handle ((h.files i handle).mpr hi) ((h.files j handle).mpr hj)

/-- **Mutual exclusion**: the operating system has one owner at most, and both threads would be it.
-/
theorem Consistent.exclusive (h : s.Consistent) {i j : ι} (hi : s.Acquired i) (hj : s.Acquired j) :
    i = j := by
  obtain ⟨handle, hi⟩ := hi
  obtain ⟨handle', hj⟩ := hj
  have howner := h.acquired i handle (.inl hi)
  rw [h.acquired j handle' (.inl hj)] at howner
  obtain rfl := Option.some.inj howner
  exact h.handle_unique (by rw [hi]; rfl) (by rw [hj]; rfl)

/-- **The handles of dead threads are closed**, and the lock is free if one of them had it. -/
theorem Consistent.killThreads (h : s.Consistent) (dies : ι → Bool) :
    (s.killThreads dies).Consistent := by
  have hphase : ∀ j, dies j = false → (s.killThreads dies).phase j = s.phase j := by
    intro j hj
    simp [FileLocks.killThreads, hj]
  have hdead : ∀ j, dies j = true → (s.killThreads dies).phase j = .released := by
    intro j hj
    simp [FileLocks.killThreads, hj]
  refine ⟨?_, h.nodup.filter _, ?_, ?_, ?_, ?_⟩
  · intro j handle
    simp only [FileLocks.killThreads, List.mem_filter, h.files]
    cases hj : dies j with
    | false => simp
    | true => simp [LockPhase.handle]
  · intro j k handle hj hk
    exact h.unique j k handle (List.mem_filter.mp hj).1 (List.mem_filter.mp hk).1
  · exact fun file hfile => h.fresh file (List.mem_filter.mp hfile).1
  · intro handle hmem
    obtain ⟨howner, hopen⟩ := Option.mem_filter_iff.mp hmem
    obtain ⟨⟨j, handle'⟩, hfile, hlives⟩ := List.any_eq_true.mp hopen
    simp only [Bool.and_eq_true, Bool.not_eq_true', decide_eq_true_eq] at hlives
    obtain ⟨hlives, rfl⟩ := hlives
    obtain ⟨k, hk⟩ := h.owner handle' howner
    have hjk : k = j := h.handle_unique (LockPhase.handle_of_owner hk)
      ((h.files j handle').mp hfile)
    refine ⟨k, ?_⟩
    rw [hphase k (hjk ▸ hlives)]
    exact hk
  · intro j handle hj
    cases hd : dies j with
    | true =>
      rw [hdead j hd] at hj
      simp at hj
    | false =>
      rw [hphase j hd] at hj
      have howner := h.acquired j handle hj
      have hfile : (j, handle) ∈ s.openFiles :=
        (h.files j handle).mpr (LockPhase.handle_of_acquired hj)
      show s.owner.filter _ = _
      rw [howner, Option.filter_some, if_pos]
      exact List.any_eq_true.mpr ⟨_, hfile, by simp [hd]⟩

theorem acquired_killThreads {j : ι} (h : s.Acquired j) {dies : ι → Bool} (hj : dies j = false) :
    (s.killThreads dies).Acquired j := by
  obtain ⟨handle, hphase⟩ := h
  refine ⟨handle, ?_⟩
  simp only [FileLocks.killThreads, hj, Bool.false_eq_true, ↓reduceIte]
  exact hphase

theorem Consistent.congr (h : s.Consistent) (raised : List (ι × LockError × Rat)) :
    Consistent { s with raised } :=
  ⟨h.files, h.nodup, h.unique, h.fresh, h.owner, h.acquired⟩

/-- The thread has the lock: the operating system gave it to its handle. That is still so where
`LOCK_UN` has raised. -/
def HasLock (s : FileLocks ι) (i : ι) : Prop := ∃ handle ∈ s.owner, (s.phase i).handle = some handle

/-- What holds in every state: one thread at most has the lock, one that has acquired its lock has
it, each open handle is known to its thread, and the death of the owner frees the lock. -/
structure LockSafe (s : FileLocks ι) : Prop where
  exclusive : ∀ i j, s.HasLock i → s.HasLock j → i = j
  acquired : ∀ i, s.Acquired i → s.HasLock i
  /-- a handle is open for a thread that knows of it -/
  noLeak : ∀ i handle, (i, handle) ∈ s.openFiles ↔ (s.phase i).handle = some handle
  /-- the lock is free, or some thread will give it back -/
  owned : s.owner = none ∨ ∃ i, s.HasLock i
  /-- and if that one dies, it is free -/
  freed : ∀ dies : ι → Bool, (∀ i, s.HasLock i → dies i = true) → (s.killThreads dies).owner = none

theorem Consistent.lockSafe (h : s.Consistent) : s.LockSafe where
  exclusive i j hi hj := by
    obtain ⟨handle, howner, hi⟩ := hi
    obtain ⟨handle', howner', hj⟩ := hj
    obtain rfl := Option.mem_unique howner howner'
    exact h.handle_unique hi hj
  acquired i hi := by
    obtain ⟨handle, hi⟩ := hi
    exact ⟨handle, h.acquired i handle (.inl hi), by rw [hi]; rfl⟩
  noLeak := h.files
  owned := by
    cases howner : s.owner with
    | none => exact .inl rfl
    | some handle =>
      obtain ⟨i, hi⟩ := h.owner handle howner
      exact .inr ⟨i, handle, howner, LockPhase.handle_of_owner hi⟩
  freed dies hdies := by
    apply Option.filter_eq_none_iff.mpr
    intro handle howner hopen
    obtain ⟨⟨i, handle'⟩, hfile, hlives⟩ := List.any_eq_true.mp hopen
    simp only [Bool.and_eq_true, Bool.not_eq_true', decide_eq_true_eq] at hlives
    obtain ⟨hlives, rfl⟩ := hlives
    rw [hdies i ⟨handle', howner, (h.files i handle').mp hfile⟩] at hlives
    cases hlives

variable {timeoutSeconds : ι → Rat}

/-- The calls of `acquire` in a run, and their deadlines: each deadline is that of such a call, and
a timeout is raised at or behind one. -/
structure Timed (timeoutSeconds : ι → Rat) (ops : List (LockEvent ι)) (s : FileLocks ι) : Prop where
  deadline : ∀ i, ∀ deadline ∈ (s.phase i).deadline,
    ∃ start, .acquire i start ∈ ops ∧ start + timeoutSeconds i = deadline
  raised : ∀ i now, (i, .timedOut, now) ∈ s.raised →
    ∃ start, .acquire i start ∈ ops ∧ start + timeoutSeconds i ≤ now

theorem Timed.mono {ops : List (LockEvent ι)} (h : s.Timed timeoutSeconds ops)
    (event : LockEvent ι) : s.Timed timeoutSeconds (ops ++ [event]) := by
  constructor
  · intro i deadline hd
    obtain ⟨start, hmem, he⟩ := h.deadline i deadline hd
    exact ⟨start, List.mem_append_left _ hmem, he⟩
  · intro i now hr
    obtain ⟨start, hmem, hle⟩ := h.raised i now hr
    exact ⟨start, List.mem_append_left _ hmem, hle⟩

/-- Only the threads and what they raised matter, not the operating system's side. -/
theorem Timed.congr (s' : FileLocks ι) {ops : List (LockEvent ι)} (h : s.Timed timeoutSeconds ops)
    (hphase : s'.phase = s.phase) (hraised : s'.raised = s.raised) :
    s'.Timed timeoutSeconds ops :=
  ⟨hphase ▸ h.deadline, hraised ▸ h.raised⟩

/-! ## Steps -/

variable [DecidableEq ι]

/-- A thread goes to a place where it has the same handle, so no other thread is concerned. -/
theorem Consistent.setPhase (h : s.Consistent) {i : ι} {phase : LockPhase}
    (hhandle : phase.handle = (s.phase i).handle)
    (howner : ∀ handle ∈ s.owner, (s.phase i).handle = some handle →
      phase = .acquired handle ∨ phase = .unlocking handle ∨ phase = .leaving handle)
    (hacquired : ∀ handle, phase = .acquired handle ∨ phase = .unlocking handle →
      s.owner = some handle) : (s.setPhase i phase).Consistent := by
  have hhandles : ∀ j, ((s.setPhase i phase).phase j).handle = (s.phase j).handle := by
    intro j
    by_cases hj : j = i
    · subst hj
      simp only [FileLocks.setPhase, Function.update_self]
      exact hhandle
    · simp only [FileLocks.setPhase, Function.update_of_ne hj]
  refine ⟨?_, h.nodup, h.unique, h.fresh, ?_, ?_⟩
  · intro j handle
    rw [hhandles]
    exact h.files j handle
  · intro handle hmem
    obtain ⟨j, hj⟩ := h.owner handle hmem
    refine ⟨j, ?_⟩
    by_cases hji : j = i
    · subst hji
      simp only [FileLocks.setPhase, Function.update_self]
      refine howner handle hmem ?_
      exact LockPhase.handle_of_owner hj
    · simp only [FileLocks.setPhase, Function.update_of_ne hji]
      exact hj
  · intro j handle hj
    by_cases hji : j = i
    · subst hji
      simp only [FileLocks.setPhase, Function.update_self] at hj
      exact hacquired handle hj
    · simp only [FileLocks.setPhase, Function.update_of_ne hji] at hj
      exact h.acquired j handle hj

/-- The lock file is opened, by a handle that no thread has had. -/
theorem Consistent.openFile (h : s.Consistent) {i : ι} {deadline : Rat}
    (hphase : s.phase i = .opening deadline) :
    Consistent { s.setPhase i (.locking s.nextHandle deadline) with
      openFiles := (i, s.nextHandle) :: s.openFiles
      nextHandle := s.nextHandle + 1 } := by
  have hnone : ∀ handle, (i, handle) ∉ s.openFiles := by
    intro handle hmem
    have hhandle := (h.files i handle).mp hmem
    rw [hphase] at hhandle
    cases hhandle
  have hnew : ∀ j, (j, s.nextHandle) ∉ s.openFiles := fun j hmem =>
    Nat.lt_irrefl _ (h.fresh _ hmem)
  refine ⟨?_, List.nodup_cons.mpr ⟨hnone _, h.nodup⟩, ?_, ?_, ?_, ?_⟩
  · intro j handle
    by_cases hj : j = i
    · subst hj
      simp [FileLocks.setPhase, LockPhase.handle, hnone, eq_comm]
    · simp [FileLocks.setPhase, hj, h.files]
  · intro j k handle hj hk
    rcases List.mem_cons.mp hj with hj | hj <;> rcases List.mem_cons.mp hk with hk | hk
    · cases hj; cases hk; rfl
    · cases hj; exact absurd hk (hnew _)
    · cases hk; exact absurd hj (hnew _)
    · exact h.unique j k handle hj hk
  · intro file hfile
    rcases List.mem_cons.mp hfile with rfl | hfile
    · exact Nat.lt_succ_self _
    · exact Nat.lt_succ_of_lt (h.fresh file hfile)
  · intro handle hmem
    obtain ⟨j, hj⟩ := h.owner handle hmem
    have hji : j ≠ i := by
      rintro rfl
      rw [hphase] at hj
      simp at hj
    refine ⟨j, ?_⟩
    simp only [FileLocks.setPhase, Function.update_of_ne hji]
    exact hj
  · intro j handle hj
    by_cases hji : j = i
    · subst hji
      simp [FileLocks.setPhase] at hj
    · simp only [FileLocks.setPhase, Function.update_of_ne hji] at hj
      exact h.acquired j handle hj

/-- A free lock is taken: `flock` with `LOCK_NB` succeeds for one handle only. -/
theorem Consistent.tryLock (h : s.Consistent) {i : ι} {handle : Nat} {deadline : Rat}
    (hphase : s.phase i = .locking handle deadline) (hfree : s.owner = none) :
    Consistent { s.setPhase i (.acquired handle) with owner := some handle } := by
  have hnone : ∀ j handle', ¬(s.phase j = .acquired handle' ∨ s.phase j = .unlocking handle') := by
    intro j handle' hj
    have howner := h.acquired j handle' hj
    rw [hfree] at howner
    cases howner
  refine ⟨?_, h.nodup, h.unique, h.fresh, ?_, ?_⟩
  · intro j handle'
    by_cases hj : j = i
    · subst hj
      simp [FileLocks.setPhase, LockPhase.handle, h.files, hphase]
    · simp [FileLocks.setPhase, hj, h.files]
  · rintro handle' ⟨⟩
    exact ⟨i, .inl (by simp [FileLocks.setPhase])⟩
  · intro j handle' hj
    by_cases hji : j = i
    · subst hji
      simp only [FileLocks.setPhase, Function.update_self, LockPhase.acquired.injEq,
        reduceCtorEq, or_false] at hj
      rw [hj]
    · simp only [FileLocks.setPhase, Function.update_of_ne hji] at hj
      exact absurd hj (hnone j handle')

/-- A thread closes its handle, and goes to a place without one, after a failed try or in `release`.
-/
theorem Consistent.close (h : s.Consistent) {i : ι} {handle : Nat} {phase : LockPhase}
    (hphase : (s.phase i).handle = some handle) (hnone : phase.handle = none) :
    ((s.closeFile i handle).setPhase i phase).Consistent := by
  refine ⟨?_, h.nodup.erase _, ?_, ?_, ?_, ?_⟩
  · intro j handle'
    have hmem : (j, handle') ∈ s.openFiles.erase (i, handle) ↔
        (j, handle') ≠ (i, handle) ∧ (j, handle') ∈ s.openFiles := h.nodup.mem_erase_iff
    by_cases hj : j = i
    · subst hj
      simp only [FileLocks.setPhase, closeFile, hmem, Function.update_self, hnone, reduceCtorEq,
        iff_false, not_and, h.files, hphase]
      intro hne heq
      exact hne (by rw [Option.some.inj heq])
    · simp only [FileLocks.setPhase, closeFile, hmem, Function.update_of_ne hj, h.files]
      exact and_iff_right fun heq => hj (Prod.ext_iff.mp heq).1
  · intro j k handle' hj hk
    exact h.unique j k handle' (List.mem_of_mem_erase hj) (List.mem_of_mem_erase hk)
  · exact fun file hfile => h.fresh file (List.mem_of_mem_erase hfile)
  · intro handle' hmem
    obtain ⟨howner, hne⟩ := Option.mem_filter_iff.mp hmem
    obtain ⟨j, hj⟩ := h.owner handle' howner
    have hji : j ≠ i := by
      rintro rfl
      have hhandle := LockPhase.handle_of_owner hj
      rw [hphase] at hhandle
      exact absurd (Option.some.inj hhandle).symm (by simpa using hne)
    refine ⟨j, ?_⟩
    simp only [FileLocks.setPhase, closeFile, Function.update_of_ne hji]
    exact hj
  · intro j handle' hj
    by_cases hji : j = i
    · subst hji
      simp only [FileLocks.setPhase, Function.update_self] at hj
      rcases hj with rfl | rfl <;> cases hnone
    · simp only [FileLocks.setPhase, closeFile, Function.update_of_ne hji] at hj
      have howner := h.acquired j handle' hj
      have hne : handle' ≠ handle := by
        rintro rfl
        exact hji (h.handle_unique (LockPhase.handle_of_acquired hj) hphase)
      show s.owner.filter _ = _
      rw [howner, Option.filter_some, if_pos (by simpa using hne)]

/-- `LOCK_UN`, which frees the lock or raises. The `finally` of `release` closes the handle in
either case. -/
theorem Consistent.unlock (h : s.Consistent) {i : ι} {handle : Nat}
    (hphase : s.phase i = .unlocking handle) (raises : Bool) :
    Consistent { s.setPhase i (.leaving handle) with
      owner := if raises then s.owner else none } := by
  have howner := h.acquired i handle (.inr hphase)
  have hothers : ∀ j handle', s.phase j = .acquired handle' ∨ s.phase j = .unlocking handle' →
      j = i := by
    intro j handle' hj
    have howner' := h.acquired j handle' hj
    rw [howner] at howner'
    obtain rfl := Option.some.inj howner'
    exact h.handle_unique (LockPhase.handle_of_acquired hj) (by rw [hphase]; rfl)
  refine ⟨?_, h.nodup, h.unique, h.fresh, ?_, ?_⟩
  · intro j handle'
    by_cases hj : j = i
    · subst hj
      simp [FileLocks.setPhase, LockPhase.handle, h.files, hphase]
    · simp [FileLocks.setPhase, Function.update_of_ne hj, h.files]
  · intro handle' hmem
    refine ⟨i, .inr (.inr ?_)⟩
    cases raises with
    | false => cases hmem
    | true =>
      have heq := Option.mem_unique hmem howner
      simp [FileLocks.setPhase, heq]
  · intro j handle' hj
    by_cases hji : j = i
    · subst hji
      simp [FileLocks.setPhase] at hj
    · simp only [FileLocks.setPhase, Function.update_of_ne hji] at hj
      exact absurd (hothers j handle' hj) hji

/-- A thread without a handle goes to another place without one. -/
theorem Consistent.move (h : s.Consistent) {i : ι} {phase : LockPhase}
    (hphase : (s.phase i).handle = none) (hnone : phase.handle = none) :
    (s.setPhase i phase).Consistent := by
  refine h.setPhase (hnone.trans hphase.symm) ?_ ?_
  · intro handle _ hhandle
    rw [hphase] at hhandle
    cases hhandle
  · rintro handle (rfl | rfl) <;> cases hnone

theorem Consistent.step (h : s.Consistent) (event : LockEvent ι) :
    (s.step timeoutSeconds event).Consistent := by
  cases event with
  | acquire i now =>
    simp only [FileLocks.step]
    split
    · rename_i hphase
      exact h.move (by rw [hphase]; rfl) rfl
    · exact h.congr _
    · exact h
  | openFile i raises =>
    simp only [FileLocks.step]
    split
    · rename_i deadline hphase
      split
      · exact h.move (by rw [hphase]; rfl) rfl
      · exact h.openFile hphase
    · exact h
  | tryLock i raises =>
    simp only [FileLocks.step]
    split
    · rename_i handle deadline hphase
      split
      · refine h.setPhase (by rw [hphase]; rfl) ?_ (by simp)
        -- a handle that has not been given the lock is not its owner
        intro handle' howner hhandle
        obtain ⟨j, hj⟩ := h.owner handle' howner
        obtain rfl := h.handle_unique hhandle (LockPhase.handle_of_owner hj)
        rw [hphase] at hj
        simp at hj
      · rename_i hfree
        rw [Bool.or_eq_true, not_or, Bool.not_eq_true, Option.isSome_eq_false_iff,
          Option.isNone_iff_eq_none] at hfree
        exact h.tryLock hphase hfree.1
    · exact h
  | close i =>
    simp only [FileLocks.step]
    split
    · rename_i handle deadline hphase
      exact h.close (by rw [hphase]; rfl) rfl
    · rename_i handle hphase
      exact h.close (by rw [hphase]; rfl) rfl
    · exact h
  | checkDeadline i now =>
    simp only [FileLocks.step]
    split
    · rename_i deadline hphase
      split
      · exact (h.move (by rw [hphase]; rfl) rfl).congr _
      · exact h.move (by rw [hphase]; rfl) rfl
    · exact h
  | wake i =>
    simp only [FileLocks.step]
    split
    · rename_i deadline hphase
      exact h.move (by rw [hphase]; rfl) rfl
    · exact h
  | release i =>
    simp only [FileLocks.step]
    split
    · rename_i handle hphase
      have howner := h.acquired i handle (.inl hphase)
      refine h.setPhase (by rw [hphase]; rfl) ?_ ?_
      · intro handle' _ hhandle
        rw [hphase] at hhandle
        cases hhandle
        exact .inr (.inl rfl)
      · rintro handle' (hacq | hunl)
        · cases hacq
        · cases hunl
          exact howner
    · exact h
  | unlock i raises =>
    simp only [FileLocks.step]
    split
    · rename_i handle hphase
      exact h.unlock hphase raises
    · exact h
  | kill dies => exact h.killThreads dies

/-- A thread that has not acquired its lock goes to another place, and those that have one keep it.
-/
theorem acquired_setPhase {i j : ι} (h : s.Acquired j) (hi : ¬s.Acquired i) (phase : LockPhase) :
    (s.setPhase i phase).Acquired j := by
  obtain ⟨handle, hphase⟩ := h
  have hji : j ≠ i := by
    rintro rfl
    exact hi ⟨handle, hphase⟩
  refine ⟨handle, ?_⟩
  simp only [FileLocks.setPhase, Function.update_of_ne hji]
  exact hphase

/-- **An acquired lock stays acquired** until its thread releases it, or dies. -/
theorem acquired_step {j : ι} (h : s.Acquired j) {event : LockEvent ι} (hrelease : event ≠ .release j)
    (hkill : ∀ dies, event ≠ .kill dies) : (s.step timeoutSeconds event).Acquired j := by
  have hne : ∀ {i phase}, s.phase i = phase → (∀ handle, phase ≠ .acquired handle) →
      ¬s.Acquired i := by
    rintro i phase hphase hother ⟨handle, hacq⟩
    exact hother handle (hphase.symm.trans hacq)
  cases event with
  | acquire i now =>
    simp only [FileLocks.step]
    split
    · rename_i hphase
      exact acquired_setPhase h (hne hphase (by simp)) _
    · exact h
    · exact h
  | openFile i raises =>
    simp only [FileLocks.step]
    split
    · rename_i deadline hphase
      split
      · exact acquired_setPhase h (hne hphase (by simp)) _
      · exact acquired_setPhase h (hne hphase (by simp)) (.locking s.nextHandle deadline)
    · exact h
  | tryLock i raises =>
    simp only [FileLocks.step]
    split
    · rename_i handle deadline hphase
      split
      · exact acquired_setPhase h (hne hphase (by simp)) _
      · exact acquired_setPhase h (hne hphase (by simp)) (.acquired handle)
    · exact h
  | close i =>
    simp only [FileLocks.step]
    split
    · rename_i handle deadline hphase
      exact acquired_setPhase (s := s) h (hne hphase (by simp)) (.expiring deadline)
    · rename_i handle hphase
      exact acquired_setPhase (s := s) h (hne hphase (by simp)) .released
    · exact h
  | checkDeadline i now =>
    simp only [FileLocks.step]
    split
    · rename_i deadline hphase
      split
      · exact acquired_setPhase h (hne hphase (by simp)) .released
      · exact acquired_setPhase h (hne hphase (by simp)) _
    · exact h
  | wake i =>
    simp only [FileLocks.step]
    split
    · rename_i deadline hphase
      exact acquired_setPhase h (hne hphase (by simp)) _
    · exact h
  | release i =>
    simp only [FileLocks.step]
    split
    · have hji : j ≠ i := by
        rintro rfl
        exact hrelease rfl
      obtain ⟨handle, hj⟩ := h
      refine ⟨handle, ?_⟩
      simp only [FileLocks.setPhase, Function.update_of_ne hji]
      exact hj
    · exact h
  | unlock i raises =>
    simp only [FileLocks.step]
    split
    · rename_i handle hphase
      exact acquired_setPhase h (hne hphase (by simp)) (.leaving handle)
    · exact h
  | kill dies => exact absurd rfl (hkill dies)

/-! ## Runs -/

/-- A thread goes on, with the deadline that it had or without one, so the sleep between two tries
moves no deadline. -/
theorem Timed.setPhase {ops : List (LockEvent ι)} (h : s.Timed timeoutSeconds ops) {i : ι}
    (phase : LockPhase)
    (hdeadline : ∀ deadline ∈ phase.deadline, deadline ∈ (s.phase i).deadline) :
    (s.setPhase i phase).Timed timeoutSeconds ops := by
  refine ⟨?_, h.raised⟩
  intro j deadline hd
  by_cases hj : j = i
  · subst hj
    simp only [FileLocks.setPhase, Function.update_self] at hd
    exact h.deadline j deadline (hdeadline deadline hd)
  · simp only [FileLocks.setPhase, Function.update_of_ne hj] at hd
    exact h.deadline j deadline hd

theorem Timed.step {ops : List (LockEvent ι)} (h : s.Timed timeoutSeconds ops)
    (event : LockEvent ι) : (s.step timeoutSeconds event).Timed timeoutSeconds (ops ++ [event]) := by
  have h := h.mono event
  cases event with
  | acquire i now =>
    simp only [FileLocks.step]
    split
    · refine ⟨?_, h.raised⟩
      intro j deadline hd
      by_cases hj : j = i
      · subst hj
        simp only [FileLocks.setPhase, Function.update_self] at hd
        exact ⟨now, by simp, Option.some.inj hd⟩
      · simp only [FileLocks.setPhase, Function.update_of_ne hj] at hd
        exact h.deadline j deadline hd
    · refine ⟨h.deadline, ?_⟩
      intro j now' hmem
      rcases List.mem_append.mp hmem with hmem | hmem
      · exact h.raised j now' hmem
      · simp at hmem
    · exact h
  | openFile i raises =>
    simp only [FileLocks.step]
    split
    · rename_i deadline hphase
      split
      · exact h.setPhase _ (by rw [hphase]; exact fun _ hd => hd)
      · exact (h.setPhase (.locking s.nextHandle deadline)
          (by rw [hphase]; exact fun _ hd => hd)).congr _ rfl rfl
    · exact h
  | tryLock i raises =>
    simp only [FileLocks.step]
    split
    · rename_i handle deadline hphase
      split
      · exact h.setPhase _ (by rw [hphase]; exact fun _ hd => hd)
      · exact (h.setPhase (.acquired handle) nofun).congr _ rfl rfl
    · exact h
  | close i =>
    simp only [FileLocks.step]
    split
    · rename_i handle deadline hphase
      exact (h.congr (s.closeFile i handle) rfl rfl).setPhase _
        (by rw [closeFile, hphase]; exact fun _ hd => hd)
    · rename_i handle hphase
      exact (h.congr (s.closeFile i handle) rfl rfl).setPhase _ nofun
    · exact h
  | checkDeadline i now =>
    simp only [FileLocks.step]
    split
    · rename_i deadline hphase
      split
      · rename_i hle
        obtain ⟨hdeadline, -⟩ := h.setPhase (i := i) .released nofun
        refine ⟨hdeadline, ?_⟩
        intro j now' hmem
        rcases List.mem_append.mp hmem with hmem | hmem
        · exact h.raised j now' hmem
        · simp only [List.mem_singleton, Prod.mk.injEq] at hmem
          obtain ⟨rfl, -, rfl⟩ := hmem
          obtain ⟨start, hacquire, he⟩ := h.deadline j deadline (by rw [hphase]; rfl)
          exact ⟨start, hacquire, he ▸ hle⟩
      · exact h.setPhase _ (by rw [hphase]; exact fun _ hd => hd)
    · exact h
  | wake i =>
    simp only [FileLocks.step]
    split
    · rename_i deadline hphase
      exact h.setPhase _ (by rw [hphase]; exact fun _ hd => hd)
    · exact h
  | release i =>
    simp only [FileLocks.step]
    split
    · exact h.setPhase _ nofun
    · exact h
  | unlock i raises =>
    simp only [FileLocks.step]
    split
    · rename_i handle hphase
      exact (h.setPhase (.leaving handle) nofun).congr _ rfl rfl
    · exact h
  | kill dies =>
    refine ⟨?_, h.raised⟩
    intro i deadline hd
    simp only [FileLocks.step, FileLocks.killThreads] at hd
    split at hd
    · cases hd
    · exact h.deadline i deadline hd

theorem timed_exec (timeoutSeconds : ι → Rat) (ops : List (LockEvent ι)) :
    (Run.exec (step timeoutSeconds) start ops).Timed timeoutSeconds ops := by
  induction ops using List.reverseRecOn with
  | nil => exact ⟨nofun, nofun⟩
  | append_singleton ops event ih =>
    rw [Run.exec_snoc]
    exact ih.step event

/-- **The file lock is safe**, whatever raises and whichever processes die. -/
theorem lock_safe (timeoutSeconds : ι → Rat) (ops : List (LockEvent ι)) :
    Run.Always (step timeoutSeconds) LockSafe start ops ∧
      ∀ i now, (i, .timedOut, now) ∈ (Run.exec (step timeoutSeconds) start ops).raised →
        ∃ called, .acquire i called ∈ ops ∧ called + timeoutSeconds i ≤ now := by
  have hstep : ∀ (s : FileLocks ι) (event : LockEvent ι), s.Consistent →
      (s.step timeoutSeconds event).Consistent := fun s event h => h.step event
  constructor
  · exact (Run.always_of_step hstep consistent_start ops).mono fun s h => h.lockSafe
  · exact (timed_exec timeoutSeconds ops).raised

end FileLocks

end Leviathan
