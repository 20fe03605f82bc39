import Leviathan.Lib.Run
import Leviathan.Routing.AsyncQueueDispatcher

/-!
# Conservation of the bounded dispatcher

Ticks are dispatched, taken and marked at any pace, under either overflow policy.

* `conserved_iff`: **the dispatcher loses only what it counts, in order, exactly in the runs in
  which a mark finds a tick that was taken and not marked, or an empty queue.**
* `surplus_mark_miscounts`: a mark before the first tick was taken leaves the join counter short.
-/

namespace Leviathan

open Py AsyncQueueDispatcher

variable {Tick : Type}

/-- A dispatcher and its history. -/
structure Routed (Tick : Type) where
  dispatcher : AsyncQueueDispatcher Tick
  dispatched : List Tick
  delivered : List Tick
  /-- how many delivered ticks are not marked -/
  unmarked : Nat

inductive RoutedOp (Tick : Type) where
  | dispatch (tick : Tick) (now : Rat)
  | wait
  | mark

namespace Routed

/-- A new dispatcher. -/
def start (maxsize : Nat) (maxsize_pos : 0 < maxsize) (overflowPolicy : OverflowPolicy) :
    Routed Tick :=
  ⟨.new maxsize maxsize_pos overflowPolicy, [], [], 0⟩

def step (s : Routed Tick) : RoutedOp Tick → Routed Tick
  | .dispatch tick now =>
    { s with
      dispatcher := (s.dispatcher.dispatch tick now).1
      dispatched := s.dispatched ++ [tick] }
  | .wait =>
    match s.dispatcher.waitForNextTick with
    | none => s
    | some (dispatcher, tick) =>
      { s with dispatcher, delivered := s.delivered ++ [tick], unmarked := s.unmarked + 1 }
  | .mark =>
    match s.dispatcher.markTickAsProcessed with
    | (dispatcher, .error _) => { s with dispatcher }
    | (dispatcher, .ok ()) => { s with dispatcher, unmarked := s.unmarked - 1 }

def queued (s : Routed Tick) : List Tick := s.dispatcher.queue.items

/-- What is in the queue and on the counters. -/
structure Inv (s : Routed Tick) : Prop where
  order : (s.delivered ++ s.queued).Sublist s.dispatched
  dropped : s.dispatcher.droppedTickCount + (s.delivered ++ s.queued).length = s.dispatched.length
  bounded : s.dispatcher.qsize ≤ s.dispatcher.maxsize
  recent : s.dispatcher.overflowPolicy = .dropOldest → s.queued <:+ s.dispatched
  tasks : s.dispatcher.queue.unfinishedTasks = s.dispatcher.qsize + s.unmarked

/-- What the dispatcher guarantees, with what the next dispatch would do. -/
structure Conserved (s : Routed Tick) : Prop extends Inv s where
  keepsLast : s.dispatcher.overflowPolicy = .dropOldest → ∀ tick now,
    (s.step (.dispatch tick now)).queued.getLast? = some tick
  dropsNewest : s.dispatcher.overflowPolicy = .dropNewest → ∀ tick now,
    let after := s.step (.dispatch tick now)
    if s.dispatcher.isFull then
      after.queued = s.queued ∧
        after.dispatcher.droppedTickCount = s.dispatcher.droppedTickCount + 1
    else
      after.queued = s.queued ++ [tick] ∧
        after.dispatcher.droppedTickCount = s.dispatcher.droppedTickCount

/-- A mark finds a tick that was taken and not marked, or an empty queue. -/
def Matched (s : Routed Tick) : RoutedOp Tick → Prop
  | .mark => 0 < s.unmarked ∨ s.queued = []
  | _ => True

instance (s : Routed Tick) : ∀ op, Decidable (s.Matched op)
  | .mark => inferInstanceAs (Decidable (0 < s.unmarked ∨ s.dispatcher.queue.items = []))
  | .dispatch _ _ | .wait => .isTrue trivial

variable {s : Routed Tick}

theorem inv_start (maxsize : Nat) (maxsize_pos : 0 < maxsize) (overflowPolicy : OverflowPolicy) :
    (start maxsize maxsize_pos overflowPolicy : Routed Tick).Inv :=
  ⟨.slnil, rfl, Nat.zero_le _, fun _ => List.suffix_rfl, rfl⟩

/-! ## Dispatches -/

/-- The three outcomes of a dispatch. -/
theorem dispatch_cases (h : s.Inv) (tick : Tick) (now : Rat) :
    let after := s.step (.dispatch tick now)
    s.dispatcher.isFull = false ∧ after.queued = s.queued ++ [tick] ∧
        after.dispatcher.droppedTickCount = s.dispatcher.droppedTickCount ∧
        after.dispatcher.queue.unfinishedTasks = s.dispatcher.queue.unfinishedTasks + 1 ∨
      s.dispatcher.isFull = true ∧
        after.dispatcher.droppedTickCount = s.dispatcher.droppedTickCount + 1 ∧
        after.dispatcher.queue.unfinishedTasks = s.dispatcher.queue.unfinishedTasks ∧
        (s.dispatcher.overflowPolicy = .dropNewest ∧ after.queued = s.queued ∨
          s.dispatcher.overflowPolicy = .dropOldest ∧
            ∃ oldest rest, s.queued = oldest :: rest ∧ after.queued = rest ++ [tick]) := by
  have htasks := h.tasks
  cases hfull : s.dispatcher.isFull with
  | false =>
    left
    simp only [step, queued, dispatch_room _ tick now hfull]
    exact ⟨trivial, rfl, trivial, rfl⟩
  | true =>
    right
    have hlen := (isFull_iff s.dispatcher).mp hfull
    have hpos := s.dispatcher.maxsize_pos
    cases hpolicy : s.dispatcher.overflowPolicy with
    | dropNewest =>
      simp only [step, queued, dispatch_newest _ tick now hfull hpolicy]
      exact ⟨trivial, trivial, trivial, .inl ⟨trivial, trivial⟩⟩
    | dropOldest =>
      obtain ⟨oldest, rest, hqueued⟩ : ∃ oldest rest, s.queued = oldest :: rest := by
        apply List.exists_cons_of_length_pos
        exact hpos.trans_le hlen
      have hd := dispatch_oldest s.dispatcher tick now hfull hpolicy h.bounded (by omega)
      simp only [step, hd]
      refine ⟨trivial, trivial, trivial, .inr ⟨trivial, oldest, rest, hqueued, ?_⟩⟩
      have hitems : s.dispatcher.queue.items = oldest :: rest := hqueued
      simp only [queued, hitems, List.tail_cons]

theorem dispatch_maxsize (s : Routed Tick) (tick : Tick) (now : Rat) :
    (s.step (.dispatch tick now)).dispatcher.maxsize = s.dispatcher.maxsize ∧
      (s.step (.dispatch tick now)).dispatcher.overflowPolicy = s.dispatcher.overflowPolicy := by
  simp only [step, dispatch]
  split
  · simp only [handleOverflow]
    split
    · simp only [replaceOldestWith]
      split
      · split <;> exact ⟨rfl, rfl⟩
      · split
        · exact ⟨rfl, rfl⟩
        · split <;> exact ⟨rfl, rfl⟩
    · exact ⟨rfl, rfl⟩
  · exact ⟨rfl, rfl⟩

theorem inv_dispatch (h : s.Inv) (tick : Tick) (now : Rat) :
    (s.step (.dispatch tick now)).Inv := by
  obtain ⟨hmaxsize, hsame⟩ := dispatch_maxsize s tick now
  have hdropped := h.dropped
  have hbounded := h.bounded
  have htasks := h.tasks
  have hq : ∀ s : Routed Tick, s.dispatcher.qsize = s.queued.length := fun _ => rfl
  have hdispatched : (s.step (.dispatch tick now)).dispatched = s.dispatched ++ [tick] := rfl
  have hdelivered : (s.step (.dispatch tick now)).delivered = s.delivered := rfl
  have hunmarked : (s.step (.dispatch tick now)).unmarked = s.unmarked := rfl
  rcases dispatch_cases h tick now with ⟨hroom, hqueued, hcount, hdone⟩ |
    ⟨hfull, hcount, hdone, ⟨hpolicy, hqueued⟩ | ⟨-, oldest, rest, hbefore, hqueued⟩⟩
  · have hlt : s.queued.length < s.dispatcher.maxsize := by
      have hnot := (isFull_iff s.dispatcher).not.mp (Bool.eq_false_iff.mp hroom)
      exact Nat.lt_of_not_le hnot
    refine ⟨?_, ?_, ?_, ?_, ?_⟩
    · rw [hqueued, hdispatched, hdelivered, ← List.append_assoc]
      exact h.order.append (.refl _)
    · rw [hqueued, hdispatched, hdelivered, hcount]
      simp only [List.length_append, List.length_singleton] at hdropped ⊢
      omega
    · rw [hq, hqueued, hmaxsize, List.length_append, List.length_singleton]
      omega
    · intro hp
      rw [hqueued, hdispatched]
      exact List.suffix_append_self_iff.mpr (h.recent (hsame.symm.trans hp))
    · rw [hq] at htasks
      rw [hq, hqueued, hdone, hunmarked, List.length_append, List.length_singleton]
      omega
  · refine ⟨?_, ?_, ?_, ?_, ?_⟩
    · rw [hqueued, hdispatched, hdelivered]
      exact h.order.trans (List.sublist_append_left _ _)
    · rw [hqueued, hdispatched, hdelivered, hcount, @List.length_append _ s.dispatched,
        List.length_singleton]
      omega
    · rw [hq, hqueued, hmaxsize]
      exact hbounded
    · intro hp
      rw [hsame, hpolicy] at hp
      cases hp
    · rw [hq, hqueued, hdone, hunmarked]
      exact htasks
  · have hrest : rest.Sublist s.queued := by
      rw [hbefore]
      exact List.sublist_cons_self _ _
    rw [hbefore] at hdropped
    refine ⟨?_, ?_, ?_, ?_, ?_⟩
    · rw [hqueued, hdispatched, hdelivered, ← List.append_assoc]
      exact ((List.Sublist.append_left hrest _).trans h.order).append (.refl _)
    · rw [hqueued, hdispatched, hdelivered, hcount]
      simp only [List.length_append, List.length_cons] at hdropped ⊢
      omega
    · rw [hq, hbefore, List.length_cons] at hbounded
      rw [hq, hqueued, hmaxsize, List.length_append, List.length_singleton]
      exact hbounded
    · intro hp
      rw [hqueued, hdispatched]
      have hsuffix := h.recent (hsame.symm.trans hp)
      rw [hbefore] at hsuffix
      exact List.suffix_append_self_iff.mpr ((List.suffix_cons oldest rest).trans hsuffix)
    · rw [hq, hbefore, List.length_cons] at htasks
      rw [hq, hqueued, hdone, hunmarked, List.length_append, List.length_singleton]
      exact htasks

theorem Inv.conserved (h : s.Inv) : s.Conserved := by
  refine ⟨h, ?_, ?_⟩
  · intro hpolicy tick now
    rcases dispatch_cases h tick now with ⟨-, hqueued, -⟩ |
      ⟨-, -, -, ⟨hp, -⟩ | ⟨-, oldest, rest, -, hqueued⟩⟩
    · rw [hqueued, List.getLast?_concat]
    · rw [hpolicy] at hp
      cases hp
    · rw [hqueued, List.getLast?_concat]
  · intro hpolicy tick now
    rcases dispatch_cases h tick now with ⟨hroom, hqueued, hcount, -⟩ |
      ⟨hfull, hcount, -, ⟨-, hqueued⟩ | ⟨hp, -⟩⟩
    · simp only [hroom, Bool.false_eq_true, ↓reduceIte]
      exact ⟨hqueued, hcount⟩
    · simp only [hfull, ↓reduceIte]
      exact ⟨hqueued, hcount⟩
    · rw [hpolicy] at hp
      cases hp

/-! ## The consumer -/

theorem inv_wait (h : s.Inv) : (s.step .wait).Inv := by
  cases hitems : s.dispatcher.queue.items with
  | nil =>
    have hs : s.step .wait = s := by
      simp only [step, waitForNextTick, AsyncQueue.getNowait, hitems, Option.map_none]
    rw [hs]
    exact h
  | cons tick items =>
    have hqueued : s.queued = tick :: items := hitems
    have hmove : s.delivered ++ [tick] ++ items = s.delivered ++ s.queued := by
      rw [hqueued, List.append_assoc, List.singleton_append]
    have hbounded := h.bounded
    have htasks := h.tasks
    simp only [qsize, hitems, List.length_cons] at hbounded htasks
    simp only [step, waitForNextTick_eq_some hitems]
    refine ⟨?_, ?_, ?_, ?_, ?_⟩
    · exact hmove ▸ h.order
    · exact hmove ▸ h.dropped
    · exact Nat.le_of_succ_le hbounded
    · intro hpolicy
      exact (hqueued ▸ List.suffix_cons tick items).trans (h.recent hpolicy)
    · simp only [qsize]
      omega

/-- A mark that finds nothing to mark takes the task of a queued tick. -/
theorem mark_inv_iff (h : s.Inv) : (s.step .mark).Inv ↔ s.Matched .mark := by
  have htasks := h.tasks
  cases hcount : s.dispatcher.queue.unfinishedTasks with
  | zero =>
    have hs : s.step .mark = s := by
      simp only [step, markTickAsProcessed, AsyncQueue.taskDone, hcount, ↓reduceIte]
    have hempty : s.queued = [] := by
      apply List.eq_nil_of_length_eq_zero
      change s.dispatcher.qsize = 0
      omega
    rw [hs]
    exact iff_of_true h (.inr hempty)
  | succ n =>
    have hs : s.step .mark =
        { s with
          dispatcher := { s.dispatcher with queue := ⟨s.dispatcher.queue.items, n⟩ }
          unmarked := s.unmarked - 1 } := by
      simp only [step, markTickAsProcessed, AsyncQueue.taskDone, hcount, Nat.add_eq_zero_iff,
        Nat.one_ne_zero, and_false, ↓reduceIte, Nat.add_sub_cancel]
    rw [hs]
    constructor
    · intro hafter
      have hafter' : n = s.dispatcher.qsize + (s.unmarked - 1) := hafter.tasks
      left
      omega
    · intro hmatched
      refine ⟨h.order, h.dropped, h.bounded, h.recent, ?_⟩
      change n = s.dispatcher.qsize + (s.unmarked - 1)
      rcases hmatched with hpos | hempty
      · omega
      · have hzero : s.dispatcher.qsize = 0 := congrArg List.length hempty
        omega

theorem step_inv_iff (h : s.Inv) (op : RoutedOp Tick) : (s.step op).Inv ↔ s.Matched op := by
  cases op with
  | dispatch tick now => exact iff_of_true (inv_dispatch h tick now) trivial
  | wait => exact iff_of_true (inv_wait h) trivial
  | mark => exact mark_inv_iff h

/-- **The dispatcher loses only what it counts, exactly in the runs whose marks are matched.** -/
theorem conserved_iff (maxsize : Nat) (maxsize_pos : 0 < maxsize) (overflowPolicy : OverflowPolicy)
    (ops : List (RoutedOp Tick)) :
    Run.Always step Conserved (start maxsize maxsize_pos overflowPolicy) ops ↔
      Run.Each step Matched (start maxsize maxsize_pos overflowPolicy : Routed Tick) ops := by
  have h₀ := @inv_start Tick maxsize maxsize_pos overflowPolicy
  have hiff : Run.Always step Inv (start maxsize maxsize_pos overflowPolicy) ops ↔
      Run.Each step Matched (start maxsize maxsize_pos overflowPolicy : Routed Tick) ops :=
    @Run.always_iff_each _ _ step (fun _ => True) Inv Matched (fun _ _ _ _ _ => trivial)
      (fun _ op _ h => step_inv_iff h op) _ trivial h₀ ops
  rw [← hiff]
  constructor
  · intro h
    exact h.mono fun _ hs => hs.toInv
  · intro h
    exact h.mono fun _ => Inv.conserved

/-- A queue of two ticks overflows, and the consumer goes on. -/
theorem conserved_iff_overflow :
    Run.Always step Conserved (start 2 (by decide) .dropOldest)
      [.dispatch 1 0, .dispatch 2 0, .dispatch 3 1, .wait, .mark, .wait, .mark] :=
  (@conserved_iff Nat 2 (by decide) .dropOldest _).mpr (by decide)

/-- A tick waits in the queue, and a mark comes before it is taken. -/
def surplusMark : List (RoutedOp Nat) := [.dispatch 7 0, .mark]

/-- **A surplus mark leaves the join counter short of the queue.** -/
theorem surplus_mark_miscounts :
    ¬Run.Always step Conserved (start 2 (by decide) .dropOldest) surplusMark := by
  intro h
  have htasks := h.last.tasks
  revert htasks
  decide

end Routed

end Leviathan
