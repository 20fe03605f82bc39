import Leviathan.Journal.MetaFile
import Leviathan.Lib.Run

/-!
# A clean restart cannot be observed

An instance that has flushed its metadata is closed, and its directory is opened again: the tip, the
windows and the index come back from the JSON text of the metadata file.

* `Twins`: two instances that answer alike; each call keeps it.
* `clean_restart_unobservable`: **the new instance and the old one, had it gone on, give the same
  answers and write the same bytes**, whenever their idle timers fire.
-/

namespace Leviathan

open Py

variable {cfg : Config}

/-! ## Calls -/

inductive Call (cfg : Config) where
  | append (tick : TradeTick cfg.toRuntime)
  | compactBeforeSeq (minRetainSeq : Nat)
  /-- `tail_from`, with at most `fuel` polls at the times `clock` -/
  | tailFrom (clock : Nat → Rat) (fuel startSeq : Nat)

inductive Answer (cfg : Config) where
  | appended (seq : Except PyError Nat)
  | compacted (removed : Except PyError Nat)
  | replayed (records : Option (Yielded (Rec cfg.toRuntime)))

/-- A call, and whether the idle timer of the instance fires before it. -/
abbrev TimedCall (cfg : Config) := Call cfg × Bool

namespace Instance

def flushMeta (s : Instance cfg) : Instance cfg :=
  let (journal, disk, _) := s.journal.flushMeta s.disk
  { journal, disk }

def call (s : Instance cfg) : Call cfg → Instance cfg × Answer cfg
  | .append tick =>
    let (journal, disk, seq) := s.journal.append s.disk tick
    ({ journal, disk }, .appended seq)
  | .compactBeforeSeq minRetainSeq =>
    let (journal, disk, removed) := s.journal.compactBeforeSeq s.disk minRetainSeq
    ({ journal, disk }, .compacted removed)
  | .tailFrom clock fuel startSeq =>
    (s, .replayed (s.journal.tailFrom clock fuel s.disk startSeq))

/-- The idle timer, where it fires. -/
def idle (s : Instance cfg) (fires : Bool) : Instance cfg := if fires then s.flushMeta else s

def timedCall (s : Instance cfg) (timed : TimedCall cfg) : Instance cfg :=
  ((s.idle timed.2).call timed.1).1

/-- What the callers see: the answers, and the journal file after each. -/
def observe : Instance cfg → List (TimedCall cfg) → List (Answer cfg × Option Bytes)
  | _, [] => []
  | s, (call, fires) :: calls =>
    let (s, answer) := (s.idle fires).call call
    (answer, s.disk.journalFile) :: observe s calls

/-- Another process opens the directory; it reads the text of the metadata file. -/
def reopen (s : Instance cfg) : Option (Instance cfg) :=
  match s.disk.metaFile with
  | none => some ⟨.new s.disk, s.disk⟩
  | some payload => (MetaPayload.ofText payload.text).map fun payload =>
    let disk := { s.disk with metaFile := some payload }
    ⟨.new disk, disk⟩

/-! ## Twins -/

/-- Two instances with the same records, tip and windows. Their metadata files may differ. -/
structure Twins (s t : Instance cfg) (rs : List (Rec cfg.toRuntime)) : Prop where
  left : s.journal.Sound s.disk rs
  right : t.journal.Sound t.disk rs
  journalFile : t.disk.journalFile = s.disk.journalFile
  ticks : TickJournal.SameTicks s.journal t.journal

theorem sameTicks_trans {j₁ j₂ j₃ : TickJournal cfg} (h : j₁.SameTicks j₂) (h' : j₂.SameTicks j₃) :
    j₁.SameTicks j₃ :=
  ⟨h'.latestSeq.trans h.latestSeq, fun key => (h'.window key).trans (h.window key)⟩

theorem sameTicks_symm {j₁ j₂ : TickJournal cfg} (h : j₁.SameTicks j₂) : j₂.SameTicks j₁ :=
  ⟨h.latestSeq.symm, fun key => (h.window key).symm⟩

namespace Twins

variable {s t : Instance cfg} {rs : List (Rec cfg.toRuntime)}

theorem symm (h : Twins s t rs) : Twins t s rs :=
  ⟨h.right, h.left, h.journalFile.symm, sameTicks_symm h.ticks⟩

theorem trans {u : Instance cfg} (h : Twins s t rs) (h' : Twins t u rs) : Twins s u rs :=
  ⟨h.left, h'.right, h'.journalFile.trans h.journalFile, sameTicks_trans h.ticks h'.ticks⟩

theorem refl (h : s.journal.Sound s.disk rs) : Twins s s rs := ⟨h, h, rfl, .refl _⟩

/-- An idle timer. -/
theorem idle (h : s.journal.Sound s.disk rs) (fires : Bool) : Twins s (s.idle fires) rs := by
  cases fires with
  | false => exact refl h
  | true =>
    obtain ⟨hs, hsame⟩ := h.flushMeta
    exact ⟨h, hs, TickJournal.flushMeta_journalFile _ _, hsame⟩

theorem accepts_iff (h : Twins s t rs) (tick : TradeTick cfg.toRuntime) :
    t.journal.Accepts tick ↔ s.journal.Accepts tick := by
  unfold TickJournal.Accepts
  rw [h.ticks.window]

theorem append (h : Twins s t rs) (tick : TradeTick cfg.toRuntime) :
    (∃ rs', Twins (s.call (.append tick)).1 (t.call (.append tick)).1 rs') ∧
      (t.call (.append tick)).2 = (s.call (.append tick)).2 := by
  have hfile : (t.journal.append t.disk tick).2.1.journalFile =
      (s.journal.append s.disk tick).2.1.journalFile := by
    simp only [TickJournal.append_journalFile, h.accepts_iff, h.journalFile, h.ticks.latestSeq]
  by_cases ha : s.journal.Accepts tick
  · have hat := (h.accepts_iff tick).mpr ha
    have hps := TickJournal.append_current h.left.current ha
    have hpt := TickJournal.append_current h.right.current hat
    have hright := h.right.append hat
    rw [h.ticks.latestSeq] at hright
    refine ⟨⟨_, h.left.append ha, hright, hfile, ?_, fun key => ?_⟩, ?_⟩
    · exact hpt.latestSeq.trans (by rw [h.ticks.latestSeq]; exact hps.latestSeq.symm)
    · refine (hpt.window key).trans (Eq.trans ?_ (hps.window key).symm)
      rw [h.ticks.window]
    · obtain ⟨_, -, hes⟩ := TickJournal.append_accepts ha s.disk
      obtain ⟨_, -, het⟩ := TickJournal.append_accepts hat t.disk
      simp only [call, hes, het, h.ticks.latestSeq]
  · have hat := mt (h.accepts_iff tick).mp ha
    have hrs := TickJournal.append_rejected ha s.disk
    have hrt := TickJournal.append_rejected hat t.disk
    refine ⟨⟨rs, h.left.append_rejected ha, h.right.append_rejected hat, hfile, ?_, fun key => ?_⟩,
      ?_⟩
    · exact hrt.latestSeq.trans (h.ticks.latestSeq.trans hrs.latestSeq.symm)
    · exact (hrt.window key).trans ((h.ticks.window key).trans (hrs.window key).symm)
    · obtain ⟨_, -, -, -, hes⟩ := TickJournal.append_rejects ha s.disk
      obtain ⟨_, -, -, -, het⟩ := TickJournal.append_rejects hat t.disk
      simp only [call, hes, het, h.ticks.latestSeq]

theorem compactBeforeSeq (h : Twins s t rs) (minRetainSeq : Nat) :
    (∃ rs', Twins (s.call (.compactBeforeSeq minRetainSeq)).1
        (t.call (.compactBeforeSeq minRetainSeq)).1 rs') ∧
      (t.call (.compactBeforeSeq minRetainSeq)).2 = (s.call (.compactBeforeSeq minRetainSeq)).2 := by
  obtain ⟨hs, hss, -, -⟩ := h.left.compactBeforeSeq minRetainSeq
  obtain ⟨ht, hst, -, -⟩ := h.right.compactBeforeSeq minRetainSeq
  have hes := MetaStore.compactBeforeSeq_records s.journal.metaStore h.left.file minRetainSeq
  have het := MetaStore.compactBeforeSeq_records t.journal.metaStore h.right.file minRetainSeq
  refine ⟨⟨_, hs, ht, ?_, sameTicks_trans (sameTicks_symm hss) (sameTicks_trans h.ticks hst)⟩, ?_⟩
  · simp only [call, TickJournal.compactBeforeSeq, hes, het]
    split
    · exact h.journalFile
    · rfl
  · simp only [call, TickJournal.compactBeforeSeq, hes, het]
    split <;> rfl

theorem tailFrom (h : Twins s t rs) (clock : Nat → Rat) (fuel startSeq : Nat) :
    (t.call (.tailFrom clock fuel startSeq)).2 = (s.call (.tailFrom clock fuel startSeq)).2 := by
  simp only [call, h.left.tailFrom_fuel, h.right.tailFrom_fuel]

/-- **A call keeps twins, and they answer alike.** -/
theorem call (h : Twins s t rs) (call : Call cfg) :
    (∃ rs', Twins (s.call call).1 (t.call call).1 rs') ∧ (t.call call).2 = (s.call call).2 := by
  cases call with
  | append tick => exact h.append tick
  | compactBeforeSeq minRetainSeq => exact h.compactBeforeSeq minRetainSeq
  | tailFrom clock fuel startSeq => exact ⟨⟨rs, h⟩, h.tailFrom clock fuel startSeq⟩

/-- Twins cannot be told apart, whenever their timers fire. -/
theorem observe (h : Twins s t rs) (calls : List (Call cfg × Bool × Bool)) :
    s.observe (calls.map fun c => (c.1, c.2.1)) = t.observe (calls.map fun c => (c.1, c.2.2)) := by
  induction calls generalizing s t rs with
  | nil => rfl
  | cons c calls ih =>
    obtain ⟨c, fires, fires'⟩ := c
    have htwins : Twins (s.idle fires) (t.idle fires') rs :=
      (idle h.left fires).symm.trans (h.trans (idle h.right fires'))
    obtain ⟨⟨rs', hafter⟩, hanswer⟩ := htwins.call c
    simp only [List.map_cons, Instance.observe, ih hafter, hanswer, hafter.journalFile]

end Twins

/-! ## Restarts -/

/-- What a run of one instance keeps. -/
structure Restartable (s : Instance cfg) : Prop where
  sound : ∃ rs, s.journal.Sound s.disk rs
  restorable : s.journal.Restorable s.disk

theorem restartable_start : (start : Instance cfg).Restartable := ⟨⟨[], .empty⟩, .empty⟩

theorem Restartable.flushMeta {s : Instance cfg} (h : s.Restartable) : s.flushMeta.Restartable := by
  obtain ⟨⟨rs, hs⟩, hr⟩ := h
  exact ⟨⟨rs, hs.flushMeta.1⟩, (hr.flushMeta hs.current).1⟩

theorem restartable_timedCall (s : Instance cfg) (timed : TimedCall cfg) (h : s.Restartable) :
    (s.timedCall timed).Restartable := by
  obtain ⟨call, fires⟩ := timed
  obtain ⟨⟨rs, hs⟩, hr⟩ : (s.idle fires).Restartable := by
    cases fires with
    | false => exact h
    | true => exact h.flushMeta
  cases call with
  | append tick =>
    refine ⟨?_, hr.append hs.current tick⟩
    by_cases ha : (s.idle fires).journal.Accepts tick
    · exact ⟨_, hs.append ha⟩
    · exact ⟨_, hs.append_rejected ha⟩
  | compactBeforeSeq minRetainSeq =>
    exact ⟨⟨_, (hs.compactBeforeSeq minRetainSeq).1⟩,
      hr.compactBeforeSeq hs.current hs.file (fun r hr => (hs.numbers r hr).2) minRetainSeq⟩
  | tailFrom clock fuel startSeq => exact ⟨⟨rs, hs⟩, hr⟩

/-- A flushed instance and the one that is opened in its place. -/
theorem Restartable.reopen {s : Instance cfg} (h : s.Restartable) :
    ∃ t rs, s.flushMeta.reopen = some t ∧ Twins s.flushMeta t rs := by
  obtain ⟨⟨rs, hs⟩, hr⟩ := h
  have hflushed : s.flushMeta.journal.Flushed s.flushMeta.disk := (hr.flushMeta hs.current).2
  have hsound : s.flushMeta.journal.Sound s.flushMeta.disk rs := hs.flushMeta.1
  obtain ⟨hnew, hsame⟩ := hsound.reopen hflushed
  refine ⟨⟨.new s.flushMeta.disk, s.flushMeta.disk⟩, rs, ?_, hsound, hnew, rfl, hsame⟩
  have hkeys := hflushed.keys
  unfold Instance.reopen
  cases hm : s.flushMeta.disk.metaFile with
  | none => rfl
  | some payload =>
    rw [hm] at hkeys
    have hread : MetaPayload.ofText payload.text = some payload := MetaPayload.ofText_text hkeys
    simp only [hread, Option.map_some]
    rw [← hm]

/-- **A clean restart is unobservable.** After any run and a flush the directory can be opened
again, and later calls cannot tell the new instance from the old one. -/
theorem clean_restart_unobservable (cfg : Config) (ops : List (TimedCall cfg)) :
    let s := (Run.exec timedCall start ops).flushMeta
    ∃ reopened, s.reopen = some reopened ∧
      ∀ later : List (Call cfg × Bool × Bool),
        s.observe (later.map fun c => (c.1, c.2.1)) =
          reopened.observe (later.map fun c => (c.1, c.2.2)) := by
  intro s
  have h : (Run.exec timedCall start ops : Instance cfg).Restartable :=
    Run.exec_of_step restartable_timedCall restartable_start ops
  obtain ⟨t, rs, hreopen, htwins⟩ := h.reopen
  exact ⟨t, hreopen, htwins.observe⟩

end Instance

end Leviathan
