import Leviathan.Lib.Run
import Mathlib.Algebra.BigOperators.Group.Finset.Basic
import Mathlib.Algebra.Order.BigOperators.Group.Finset
import Mathlib.Data.Set.Finite.Lemmas
import Mathlib.Logic.Function.Basic

/-!
# Locks taken in order

Threads take and give back locks, as their programs say. A lock has one owner at a time, and a
thread that asks for a lock with an owner waits. Where every program takes its locks in the order of
a rank and gives them all back, the threads do not wait for each other in a circle.

* `Ordered`: a program that takes locks above those that it has, and gives them back.
* `Disciplined`: what every thread has left to do is ordered. `advance`, `divert` and `kill` keep
  it.
* `exists_unblocked`: **some thread that has not ended does not wait.**
* `finishes`: all the threads can go on until they have ended, and then no lock has an owner.
-/

namespace LockOrder

inductive Action (L : Type) where
  | acquire (lock : L)
  | work
  | release (lock : L)
  deriving DecidableEq

/-- The locks, and what each thread has left to do. -/
structure Threads (ι L : Type) where
  owner : L → Option ι
  program : ι → List (Action L)

variable {ι L : Type} (rank : L → Nat)

/-- A program of a thread that has the locks `held`. -/
def Ordered : Set L → List (Action L) → Prop
  | held, [] => held = ∅
  | held, .acquire lock :: program =>
    (∀ lock' ∈ held, rank lock' < rank lock) ∧ Ordered (insert lock held) program
  | held, .work :: program => Ordered held program
  | held, .release lock :: program => lock ∈ held ∧ Ordered (held \ {lock}) program

namespace Threads

def held (s : Threads ι L) (i : ι) : Set L := {lock | s.owner lock = some i}

/-- The thread asks for a lock that has an owner. -/
def Blocked (s : Threads ι L) (i : ι) : Prop :=
  ∃ lock program, s.program i = .acquire lock :: program ∧ s.owner lock ≠ none

def Disciplined (s : Threads ι L) : Prop := ∀ i, Ordered rank (s.held i) (s.program i)

variable {rank} {s : Threads ι L}

/-- A thread that has a lock has not ended. -/
theorem Disciplined.busy (h : s.Disciplined rank) {i : ι} {lock : L}
    (howner : s.owner lock = some i) : s.program i ≠ [] := by
  intro hnil
  have hheld := h i
  rw [hnil] at hheld
  have hmem : lock ∈ s.held i := howner
  rw [show s.held i = ∅ from hheld] at hmem
  exact hmem

theorem Disciplined.owner_eq_none (h : s.Disciplined rank) (hended : ∀ i, s.program i = [])
    (lock : L) : s.owner lock = none := by
  cases howner : s.owner lock with
  | none => rfl
  | some i => exact absurd (hended i) (h.busy howner)

/-- A thread never asks for a lock that it has. -/
theorem Disciplined.not_own (h : s.Disciplined rank) {i : ι} {lock : L} {program : List (Action L)}
    (hprogram : s.program i = .acquire lock :: program) : s.owner lock ≠ some i := by
  intro howner
  have hi := h i
  rw [hprogram] at hi
  exact Nat.lt_irrefl _ (hi.1 lock howner)

/-- The rank of the lock that the thread asks for. -/
def asks (rank : L → Nat) (s : Threads ι L) (i : ι) : Nat :=
  match s.program i with
  | .acquire lock :: _ => rank lock
  | _ => 0

/-- **No circle.** The owner of the highest lock that is waited for does not wait. -/
theorem Disciplined.exists_unblocked (h : s.Disciplined rank) (hfin : {i | s.program i ≠ []}.Finite)
    {i : ι} (hi : s.program i ≠ []) : ∃ j, s.program j ≠ [] ∧ ¬s.Blocked j := by
  by_contra hall
  have hblocked : ∀ j, s.program j ≠ [] → s.Blocked j := fun j hj =>
    not_not.mp fun hfree => hall ⟨j, hj, hfree⟩
  obtain ⟨j, hj, hmax⟩ := Set.exists_max_image _ (s.asks rank) hfin ⟨i, hi⟩
  obtain ⟨lock, program, hprogram, hlock⟩ := hblocked j hj
  obtain ⟨k, hk⟩ := Option.ne_none_iff_exists'.mp hlock
  have hkbusy := h.busy hk
  obtain ⟨lock', program', hprogram', -⟩ := hblocked k hkbusy
  have hkordered := h k
  rw [hprogram'] at hkordered
  have hlt : rank lock < rank lock' := hkordered.1 lock hk
  have hle := hmax k hkbusy
  simp only [asks, hprogram, hprogram'] at hle
  omega

/-! ## The steps -/

variable [DecidableEq ι]

/-- The thread gives up its program for another one. -/
def divert (s : Threads ι L) (i : ι) (program : List (Action L)) : Threads ι L :=
  { s with program := Function.update s.program i program }

theorem Disciplined.divert (h : s.Disciplined rank) {i : ι} {program : List (Action L)}
    (hordered : Ordered rank (s.held i) program) : (s.divert i program).Disciplined rank := by
  intro j
  show Ordered rank (s.held j) (Function.update s.program i program j)
  by_cases hj : j = i
  · subst hj
    rw [Function.update_self]
    exact hordered
  · rw [Function.update_of_ne hj]
    exact h j

/-- Threads die, and their locks are free. -/
def kill (s : Threads ι L) (dies : ι → Bool) : Threads ι L where
  owner lock := (s.owner lock).filter fun i => !dies i
  program i := if dies i then [] else s.program i

omit [DecidableEq ι] in
theorem Disciplined.kill (h : s.Disciplined rank) (dies : ι → Bool) :
    (s.kill dies).Disciplined rank := by
  intro i
  have hheld : (s.kill dies).held i = if dies i then ∅ else s.held i := by
    ext lock
    simp only [held, Threads.kill, Set.mem_ofPred_eq, Option.filter_eq_some_iff]
    cases dies i <;> simp
  rw [hheld]
  show Ordered rank _ (if dies i then [] else s.program i)
  cases dies i with
  | true => rfl
  | false => exact h i

variable [DecidableEq L]

/-- The thread goes on, if it does not wait. -/
def advance (s : Threads ι L) (i : ι) : Threads ι L :=
  match s.program i with
  | [] => s
  | .acquire lock :: program =>
    if s.owner lock = none then
      { s.divert i program with owner := Function.update s.owner lock (some i) }
    else s
  | .work :: program => s.divert i program
  | .release lock :: program =>
    { s.divert i program with owner := Function.update s.owner lock none }

theorem Disciplined.advance (h : s.Disciplined rank) (i : ι) : (s.advance i).Disciplined rank := by
  have hi := h i
  unfold Threads.advance
  cases hprogram : s.program i with
  | nil => exact h
  | cons action program =>
    rw [hprogram] at hi
    cases action with
    | work => exact h.divert hi
    | acquire lock =>
      simp only
      split
      · rename_i hfree
        intro j
        show Ordered rank {l | Function.update s.owner lock (some i) l = some j}
          (Function.update s.program i program j)
        by_cases hj : j = i
        · subst hj
          have hheld : {l | Function.update s.owner lock (some j) l = some j} =
              insert lock (s.held j) := by
            ext l
            by_cases hl : l = lock <;> simp [hl, held]
          rw [Function.update_self, hheld]
          exact hi.2
        · have hheld : {l | Function.update s.owner lock (some i) l = some j} = s.held j := by
            ext l
            by_cases hl : l = lock
            · simp [hl, held, hfree, Ne.symm hj]
            · simp [hl, held]
          rw [Function.update_of_ne hj, hheld]
          exact h j
      · exact h
    | release lock =>
      have howner : s.owner lock = some i := hi.1
      intro j
      show Ordered rank {l | Function.update s.owner lock none l = some j}
        (Function.update s.program i program j)
      by_cases hj : j = i
      · subst hj
        have hheld : {l | Function.update s.owner lock none l = some j} = s.held j \ {lock} := by
          ext l
          by_cases hl : l = lock <;> simp [hl, held]
        rw [Function.update_self, hheld]
        exact hi.2
      · have hheld : {l | Function.update s.owner lock none l = some j} = s.held j := by
          ext l
          by_cases hl : l = lock
          · simp [hl, held, howner, Ne.symm hj]
          · simp [hl, held]
        rw [Function.update_of_ne hj, hheld]
        exact h j

/-- A thread that does not wait does the next of its program. -/
theorem advance_program {i : ι} (hfree : ¬s.Blocked i) :
    (s.advance i).program = Function.update s.program i (s.program i).tail := by
  unfold advance
  cases hprogram : s.program i with
  | nil =>
    simp only [List.tail_nil]
    rw [← hprogram, Function.update_eq_self]
  | cons action program =>
    cases action with
    | work => rfl
    | release lock => rfl
    | acquire lock =>
      have howner : s.owner lock = none := not_not.mp fun hne => hfree ⟨lock, program, hprogram, hne⟩
      simp only [howner, ↓reduceIte]
      rfl

/-- **All the threads can end**, and then every lock is free. -/
theorem Disciplined.finishes (h : s.Disciplined rank) {busy : Finset ι}
    (hbusy : ∀ i, s.program i ≠ [] → i ∈ busy) :
    ∃ schedule : List ι, (∀ i, (Run.exec Threads.advance s schedule).program i = []) ∧
      ∀ lock, (Run.exec Threads.advance s schedule).owner lock = none := by
  induction hn : ∑ i ∈ busy, (s.program i).length using Nat.strong_induction_on generalizing s with
  | _ n ih =>
    by_cases hended : ∀ i, s.program i = []
    · exact ⟨[], hended, h.owner_eq_none hended⟩
    · obtain ⟨i, hi⟩ := not_forall.mp hended
      obtain ⟨j, hj, hfree⟩ := h.exists_unblocked (busy.finite_toSet.subset hbusy) hi
      have hprogram := advance_program hfree
      have hle : ∀ k, ((s.advance j).program k).length ≤ (s.program k).length := by
        intro k
        rw [hprogram]
        by_cases hk : k = j
        · subst hk
          simp
        · rw [Function.update_of_ne hk]
      have hlt : ((s.advance j).program j).length < (s.program j).length := by
        rw [hprogram, Function.update_self, List.length_tail]
        have := List.length_pos_iff.mpr hj
        omega
      have hsum : ∑ k ∈ busy, ((s.advance j).program k).length < n :=
        hn ▸ Finset.sum_lt_sum (fun k _ => hle k) ⟨j, hbusy j hj, hlt⟩
      have hbusy' : ∀ k, (s.advance j).program k ≠ [] → k ∈ busy := by
        intro k hk
        refine hbusy k fun hnil => hk ?_
        have := hle k
        rw [hnil] at this
        exact List.length_eq_zero_iff.mp (Nat.le_zero.mp this)
      obtain ⟨schedule, hschedule⟩ := ih _ hsum (h.advance j) hbusy' rfl
      exact ⟨j :: schedule, hschedule⟩

end Threads

end LockOrder
