import Mathlib.Algebra.Order.Monoid.Defs
import Mathlib.Data.List.Nodup

/-!
# Watchdogs

An object has at most one window open at a time. A window is watched by a timer that sleeps and then
goes on, and a counter of generations tells an old timer from the one that watches now: whatever
ends a window raises the counter, and a timer that wakes compares the number it was started with.

A timer whose window is over may wake all the same, once: `asleep` is every timer that was started
and has not woken.

* `Good`: the task of the object is the timer of the current generation, if it is asleep.
* `Good.cancel`, `Good.start`, `Good.wake`: the operations keep it.
* `Good.count_le_one`: at most one timer would find its window open.
* `Cooldown`: signals that keep an interval to the last one keep it to each other.
-/

/-- The counter, the task that watches, and the timers that sleep, by their generations. -/
structure Watchdog where
  generation : Nat
  task : Option Nat
  asleep : List Nat

namespace Watchdog

def new : Watchdog := ⟨0, none, []⟩

/-- The window ends. -/
def cancel (w : Watchdog) : Watchdog := { w with generation := w.generation + 1, task := none }

/-- A window opens. -/
def start (w : Watchdog) : Watchdog :=
  ⟨w.generation + 1, some (w.generation + 1), (w.generation + 1) :: w.asleep⟩

/-- The timer `g` goes on. -/
def wake (w : Watchdog) (g : Nat) : Watchdog :=
  { w with
    task := if g = w.generation then none else w.task
    asleep := w.asleep.erase g }

/-- The timer of the current window ends it. -/
theorem wake_current {w : Watchdog} {g : Nat} (h : g = w.generation) :
    w.wake g = ⟨w.generation, none, w.asleep.erase g⟩ := by
  simp only [wake, h, ↓reduceIte]

/-- An old timer changes nothing. -/
theorem wake_old {w : Watchdog} {g : Nat} (h : g ≠ w.generation) :
    w.wake g = ⟨w.generation, w.task, w.asleep.erase g⟩ := by
  simp only [wake, h, ↓reduceIte]

/-- The timer `g` would find its window open. -/
def Live (w : Watchdog) (g : Nat) : Prop := g ∈ w.asleep ∧ g = w.generation

structure Good (w : Watchdog) : Prop where
  nodup : w.asleep.Nodup
  le : ∀ g ∈ w.asleep, g ≤ w.generation
  task_iff : ∀ g, w.task = some g ↔ w.Live g

variable {w : Watchdog}

theorem Good.new : Good new :=
  ⟨.nil, nofun, fun _ => iff_of_false nofun fun h => nomatch h.1⟩

theorem Good.cancel (h : w.Good) : w.cancel.Good := by
  refine ⟨h.nodup, ?_, ?_⟩
  · intro g hg
    exact Nat.le_succ_of_le (h.le g hg)
  · intro g
    refine iff_of_false nofun ?_
    rintro ⟨hg, rfl⟩
    exact Nat.not_succ_le_self _ (h.le _ hg)

theorem Good.start (h : w.Good) : w.start.Good := by
  refine ⟨?_, ?_, ?_⟩
  · apply List.nodup_cons.mpr
    refine ⟨?_, h.nodup⟩
    intro hg
    exact Nat.not_succ_le_self _ (h.le _ hg)
  · intro g hg
    rcases List.mem_cons.mp hg with rfl | hg
    · exact Nat.le_refl _
    · exact Nat.le_succ_of_le (h.le g hg)
  · intro g
    constructor
    · intro hg
      obtain rfl := Option.some.inj hg
      exact ⟨List.mem_cons_self, rfl⟩
    · rintro ⟨-, rfl⟩
      rfl

/-- A timer wakes once: it sleeps no more. -/
theorem Good.wake (h : w.Good) (g : Nat) : (w.wake g).Good := by
  refine ⟨h.nodup.erase g, ?_, ?_⟩
  · intro g' hg'
    exact h.le g' (List.mem_of_mem_erase hg')
  · intro g'
    have hmem : g' ∈ w.asleep.erase g ↔ g' ≠ g ∧ g' ∈ w.asleep := h.nodup.mem_erase_iff
    simp only [Watchdog.wake, Live, hmem]
    by_cases hg : g = w.generation
    · rw [if_pos hg]
      refine iff_of_false nofun ?_
      rintro ⟨⟨hne, -⟩, rfl⟩
      exact hne hg.symm
    · rw [if_neg hg, h.task_iff]
      constructor
      · rintro ⟨hg', rfl⟩
        exact ⟨⟨Ne.symm hg, hg'⟩, rfl⟩
      · rintro ⟨⟨-, hg'⟩, hlive⟩
        exact ⟨hg', hlive⟩

/-- A window is open exactly while its timer sleeps. -/
theorem Good.task_isSome_iff (h : w.Good) : w.task.isSome = true ↔ w.generation ∈ w.asleep := by
  rw [Option.isSome_iff_exists]
  constructor
  · rintro ⟨g, hg⟩
    obtain ⟨hmem, rfl⟩ := (h.task_iff g).mp hg
    exact hmem
  · intro hmem
    exact ⟨_, (h.task_iff _).mpr ⟨hmem, rfl⟩⟩

/-- **At most one timer would find its window open.** -/
theorem Good.count_le_one (h : w.Good) : w.asleep.count w.generation ≤ 1 :=
  List.nodup_iff_count_le_one.mp h.nodup _

end Watchdog

/-! ## Cooldowns -/

section Cooldown

variable {α : Type} [AddCommMonoid α] [PartialOrder α]

/-- The times of the signals so far, of which the last is remembered. -/
structure Cooldown (interval : α) (last : Option α) (times : List α) : Prop where
  last_eq : last = times.getLast?
  spaced : times.Pairwise fun t t' => t + interval ≤ t'

namespace Cooldown

variable {interval : α} {last : Option α} {times : List α}

theorem nil : Cooldown interval none [] := ⟨rfl, .nil⟩

/-- A signal that keeps the interval to the last one keeps it to all. -/
theorem snoc [IsOrderedAddMonoid α] (h : Cooldown interval last times) (hpos : 0 ≤ interval)
    {now : α} (hnow : ∀ t ∈ last, t + interval ≤ now) :
    Cooldown interval (some now) (times ++ [now]) := by
  refine ⟨List.getLast?_concat.symm, ?_⟩
  apply List.pairwise_append.mpr
  refine ⟨h.spaced, List.pairwise_singleton _ _, ?_⟩
  intro t ht now' hnow'
  rw [List.mem_singleton.mp hnow']
  obtain ⟨front, final, hsplit⟩ : ∃ front final, times = front ++ [final] :=
    ⟨_, _, (List.dropLast_concat_getLast (List.ne_nil_of_mem ht)).symm⟩
  have hfinal : final + interval ≤ now := by
    apply hnow
    rw [h.last_eq, hsplit, List.getLast?_concat]
    rfl
  have hspaced := h.spaced
  rw [hsplit] at ht hspaced
  rcases List.mem_append.mp ht with ht | ht
  · have hle := (List.pairwise_append.mp hspaced).2.2 t ht final (List.mem_singleton_self _)
    exact hle.trans ((le_add_of_nonneg_right hpos).trans hfinal)
  · rw [List.mem_singleton.mp ht]
    exact hfinal

end Cooldown

end Cooldown
