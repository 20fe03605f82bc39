import Mathlib.Data.List.Induction
import Mathlib.Order.Basic

/-!
# Runs of a system

A system is a step function: a state and an operation give the next state. A run is a list of
operations.

* `Always step Q s ops`: `Q` holds of every state of the run, the first and the last included.
* `Each step P s ops`: `P` holds of every operation of the run, at the state it is taken in.
* `always_of_each`: an invariant that every operation with `P` keeps holds in every state of a run
  whose operations all have `P`.
* `exec_rel`: a simulation between two systems, over a run.
* `exec_rel_trace`: a simulation of every operation by a list of operations, over a run.
* `exec_mono`: what no step lowers, no run lowers.
* `exec_since`: what is open at the end of a run was opened by an operation of it, and every
  operation since left it open.
* `each_iff`: conditions that agree on every operation agree on every run.
* `always_iff_each`: where `P` says exactly when an operation keeps `Q`, a run has `Q` in every
  state if and only if all its operations have `P`.
-/

namespace Run

variable {σ ο : Type} (step : σ → ο → σ)

/-- The state after a run. -/
def exec (s : σ) (ops : List ο) : σ := ops.foldl step s

def Always (Q : σ → Prop) : σ → List ο → Prop
  | s, [] => Q s
  | s, o :: ops => Q s ∧ Always Q (step s o) ops

def Each (P : σ → ο → Prop) : σ → List ο → Prop
  | _, [] => True
  | s, o :: ops => P s o ∧ Each P (step s o) ops

/-- A condition on the operations can be tested on a run. -/
instance instDecidableEach {P : σ → ο → Prop} [∀ s o, Decidable (P s o)] :
    ∀ (s : σ) (ops : List ο), Decidable (Each step P s ops)
  | _, [] => .isTrue trivial
  | s, o :: ops => @instDecidableAnd _ _ _ (instDecidableEach (step s o) ops)

variable {step} {Inv Q : σ → Prop} {P : σ → ο → Prop}

theorem Always.head {s : σ} {ops : List ο} (h : Always step Q s ops) : Q s := by
  cases ops with
  | nil => exact h
  | cons o ops => exact h.1

/-- A property of every state holds of the last. -/
theorem Always.last {s : σ} {ops : List ο} (h : Always step Q s ops) : Q (exec step s ops) := by
  induction ops generalizing s with
  | nil => exact h
  | cons o ops ih => exact ih h.2

theorem Always.mono {Q' : σ → Prop} (hQ : ∀ s, Q s → Q' s) {s : σ} {ops : List ο}
    (h : Always step Q s ops) : Always step Q' s ops := by
  induction ops generalizing s with
  | nil => exact hQ s h
  | cons o ops ih => exact ⟨hQ s h.1, ih h.2⟩

/-- **The invariant rule.** -/
theorem always_of_each (hstep : ∀ s o, Inv s → P s o → Inv (step s o)) {s : σ} {ops : List ο}
    (h₀ : Inv s) (h : Each step P s ops) : Always step Inv s ops := by
  induction ops generalizing s with
  | nil => exact h₀
  | cons o ops ih => exact ⟨h₀, ih (hstep s o h₀ h.1) h.2⟩

/-- The invariant rule without a condition on the operations. -/
theorem always_of_step (hstep : ∀ s o, Inv s → Inv (step s o)) {s : σ} (h₀ : Inv s)
    (ops : List ο) : Always step Inv s ops := by
  induction ops generalizing s with
  | nil => exact h₀
  | cons o ops ih => exact ⟨h₀, ih (hstep s o h₀)⟩

/-- **The exact condition**, in the runs whose operations all have `G`. `Inv` is what the proof
knows of every state of the run. -/
theorem always_iff_each_of {G : σ → ο → Prop}
    (hinv : ∀ s o, Inv s → Q s → G s o → P s o → Inv (step s o))
    (hstep : ∀ s o, Inv s → Q s → G s o → (Q (step s o) ↔ P s o)) {s : σ} (h₀ : Inv s)
    (hQ : Q s) {ops : List ο} (hG : Each step G s ops) :
    Always step Q s ops ↔ Each step P s ops := by
  induction ops generalizing s with
  | nil => exact iff_of_true hQ trivial
  | cons o ops ih =>
    constructor
    · rintro ⟨-, h⟩
      have hP := (hstep s o h₀ hQ hG.1).mp h.head
      exact ⟨hP, (ih (hinv s o h₀ hQ hG.1 hP) h.head hG.2).mp h⟩
    · rintro ⟨hP, h⟩
      have hQ' := (hstep s o h₀ hQ hG.1).mpr hP
      exact ⟨hQ, (ih (hinv s o h₀ hQ hG.1 hP) hQ' hG.2).mpr h⟩

theorem Each.of_forall (h : ∀ s o, P s o) (s : σ) (ops : List ο) : Each step P s ops := by
  induction ops generalizing s with
  | nil => trivial
  | cons o ops ih => exact ⟨h s o, ih (step s o)⟩

/-- The exact condition, in all runs. -/
theorem always_iff_each (hinv : ∀ s o, Inv s → Q s → P s o → Inv (step s o))
    (hstep : ∀ s o, Inv s → Q s → (Q (step s o) ↔ P s o)) {s : σ} (h₀ : Inv s) (hQ : Q s)
    (ops : List ο) : Always step Q s ops ↔ Each step P s ops :=
  always_iff_each_of (G := fun _ _ => True) (fun s o hi hq _ => hinv s o hi hq)
    (fun s o hi hq _ => hstep s o hi hq) h₀ hQ (.of_forall (fun _ _ => trivial) s ops)

/-- Conditions that agree on every operation agree on every run. -/
theorem each_iff {P' : σ → ο → Prop} (hinv : ∀ s o, Inv s → Inv (step s o))
    (hiff : ∀ s o, Inv s → (P s o ↔ P' s o)) {s : σ} (h₀ : Inv s) (ops : List ο) :
    Each step P s ops ↔ Each step P' s ops := by
  induction ops generalizing s with
  | nil => exact Iff.rfl
  | cons o ops ih => exact and_congr (hiff s o h₀) (ih (hinv s o h₀))

theorem exec_of_step (hstep : ∀ s o, Inv s → Inv (step s o)) {s : σ} (h₀ : Inv s)
    (ops : List ο) : Inv (exec step s ops) := (always_of_step hstep h₀ ops).last

/-! ## Histories -/

theorem exec_append (s : σ) (ops ops' : List ο) :
    exec step s (ops ++ ops') = exec step (exec step s ops) ops' := List.foldl_append

theorem exec_snoc (s : σ) (ops : List ο) (o : ο) :
    exec step s (ops ++ [o]) = step (exec step s ops) o := exec_append s ops [o]

theorem Each.append_iff {s : σ} {ops ops' : List ο} :
    Each step P s (ops ++ ops') ↔ Each step P s ops ∧ Each step P (exec step s ops) ops' := by
  induction ops generalizing s with
  | nil => exact ⟨fun h => ⟨trivial, h⟩, And.right⟩
  | cons o ops ih =>
    simp only [List.cons_append, Each, ih, and_assoc]
    rfl

/-- **The history rule.** What is open at the end of a run was opened by one of its operations, and
every operation since left it open. -/
theorem exec_since {ω : Type} {current : σ → Option ω} {Opens : σ → ο → ω → Prop}
    (hinv : ∀ s o, Inv s → Inv (step s o))
    (hstep : ∀ s o w, Inv s → current (step s o) = some w →
      Opens s o w ∨ current s = some w ∧ P s o)
    {s : σ} (h₀ : Inv s) (hnone : current s = none) {ops : List ο} {w : ω}
    (h : current (exec step s ops) = some w) :
    ∃ before o after, ops = before ++ o :: after ∧ Opens (exec step s before) o w ∧
      Each step P (step (exec step s before) o) after := by
  induction ops using List.reverseRecOn with
  | nil =>
    rw [show exec step s [] = s from rfl, hnone] at h
    cases h
  | append_singleton ops o ih =>
    rw [exec_snoc] at h
    rcases hstep _ o w (exec_of_step hinv h₀ ops) h with hopens | ⟨hkept, hkeeps⟩
    · exact ⟨ops, o, [], rfl, hopens, trivial⟩
    · obtain ⟨before, o', after, rfl, hopens, hafter⟩ := ih hkept
      refine ⟨before, o', after ++ [o], by simp, hopens, Each.append_iff.mpr ⟨hafter, ?_, trivial⟩⟩
      rw [exec_append] at hkeeps
      exact hkeeps

/-- **The monotone rule.** -/
theorem exec_mono {α : Type} [Preorder α] {f : σ → α} (hinv : ∀ s o, Inv s → Inv (step s o))
    (hstep : ∀ s o, Inv s → f s ≤ f (step s o)) {s : σ} (h₀ : Inv s) (ops : List ο) :
    f s ≤ f (exec step s ops) := by
  induction ops generalizing s with
  | nil => exact le_rfl
  | cons o ops ih => exact (hstep s o h₀).trans (ih (hinv s o h₀))

/-- **The simulation rule.** What every operation keeps between a system and its specification
holds between the last states of their runs. -/
theorem exec_rel {τ : Type} {spec : τ → ο → τ} {R : σ → τ → Prop}
    (hstep : ∀ s t o, R s t → R (step s o) (spec t o)) {s : σ} {t : τ} (h : R s t)
    (ops : List ο) : R (exec step s ops) (exec spec t ops) := by
  induction ops generalizing s t with
  | nil => exact h
  | cons o ops ih => exact ih (hstep s t o h)

/-! ## Linearization -/

section Trace

variable {τ ο' : Type} (lin : σ → ο → List ο')

variable (step) in
/-- The operations that a run stands for: those of each of its operations, in order. -/
def trace : σ → List ο → List ο'
  | _, [] => []
  | s, o :: ops => lin s o ++ trace (step s o) ops

variable {lin}

/-- **The linearization rule.** What holds between a system and its specification, which takes the
operations that each step stands for, holds between the last states. -/
theorem exec_rel_trace {spec : τ → ο' → τ} {R : σ → τ → Prop}
    (hstep : ∀ s t o, R s t → R (step s o) (exec spec t (lin s o))) {s : σ} {t : τ} (h : R s t)
    (ops : List ο) : R (exec step s ops) (exec spec t (trace step lin s ops)) := by
  induction ops generalizing s t with
  | nil => exact h
  | cons o ops ih =>
    rw [trace, exec_append]
    exact ih (hstep s t o h)

end Trace

end Run
