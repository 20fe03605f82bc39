import Leviathan.Journal.Readme
import Leviathan.Journal.Tips
import Leviathan.Lib.Run

/-!
# Crashes of the collector

A collector appends ticks and publishes its metadata; a crash throws its memory away, and a restart
opens the directory again. The line of an append is durable at once, the tip it was numbered from
only with the next publication.

* `seqs_unique_iff`: **no number is given twice exactly in the runs without an append below the tip
  of the file**: every accepted append is made by a collector that knows a tip at least as high as
  every number in the file.
* `crash_reuses_seq`: a crash before the first publication makes the next append use `1` again.
-/

namespace Leviathan

variable {cfg : Config}

/-- A collector and its directory. -/
structure Collector (cfg : Config) where
  journal : TickJournal cfg
  disk : Disk

inductive CollectorOp (cfg : Config) where
  | append (tick : TradeTick cfg.toRuntime)
  /-- `flush_meta`, or the idle timer -/
  | flushMeta
  /-- the process dies, and a new one opens the directory -/
  | crashRestart

namespace Collector

/-- A collector in an empty directory. -/
def start : Collector cfg := ⟨.new .empty, .empty⟩

def step (s : Collector cfg) : CollectorOp cfg → Collector cfg
  | .append tick =>
    let (journal, disk, _) := s.journal.append s.disk tick
    ⟨journal, disk⟩
  | .flushMeta =>
    let (journal, disk, _) := s.journal.flushMeta s.disk
    ⟨journal, disk⟩
  | .crashRestart => ⟨.new s.disk, s.disk⟩

/-- Each seq maps to at most one line of the journal file. -/
def SeqsUnique (s : Collector cfg) : Prop := (lineSeqs cfg.toRuntime s.disk.journalFile).Nodup

/-- The collector does not number a line from a tip that is behind the file. -/
def TipCurrent (s : Collector cfg) : CollectorOp cfg → Prop
  | .append tick => s.journal.Accepts tick →
    ∀ seq ∈ lineSeqs cfg.toRuntime s.disk.journalFile, seq ≤ (s.journal.latestSeq : Int)
  | _ => True

/-- The file has used `1 .. M`, and no tip is past `M`. -/
def Inv (s : Collector cfg) : Prop :=
  ∃ (rs : List (Rec cfg.toRuntime)) (M : Nat),
    s.disk.Holds rs ∧ Numbered rs M ∧ s.journal.Bounded M s.disk

theorem inv_start : (start : Collector cfg).Inv := by
  refine ⟨[], 0, .inl ⟨rfl, rfl⟩, fun n => ?_, .new .empty⟩
  constructor
  · rintro ⟨r, hr, -⟩; simp at hr
  · omega

theorem inv_step (s : Collector cfg) (op : CollectorOp cfg) (h : s.Inv) : (s.step op).Inv := by
  obtain ⟨rs, M, hfile, hnum, hb⟩ := h
  cases op with
  | append tick =>
    by_cases ha : s.journal.Accepts tick
    · have hM : s.journal.latestSeq ≤ M := hb.store.1.1
      have hholds := append_holds s.journal hfile tick
      rw [if_pos ha] at hholds
      have hb' : s.journal.Bounded (max M (s.journal.latestSeq + 1)) s.disk :=
        ⟨hb.store.mono (by omega), hb.file.mono (by omega)⟩
      exact ⟨_, _, hholds, hnum.append hM tick, hb'.append tick fun _ => by omega⟩
    · have hholds := append_holds s.journal hfile tick
      rw [if_neg ha] at hholds
      exact ⟨rs, M, hholds, hnum, hb.append tick fun h => absurd h ha⟩
  | flushMeta =>
    refine ⟨rs, M, ?_, hnum, hb.flushMeta⟩
    unfold Disk.Holds step
    rw [TickJournal.flushMeta_journalFile]
    exact hfile
  | crashRestart => exact ⟨rs, M, hfile, hnum, .new hb.file⟩

theorem unique_step_iff (s : Collector cfg) (op : CollectorOp cfg) (h : s.Inv)
    (hq : s.SeqsUnique) : (s.step op).SeqsUnique ↔ s.TipCurrent op := by
  obtain ⟨rs, M, hfile, hnum, hb⟩ := h
  cases op with
  | append tick => exact append_nodup_iff s.journal hfile hnum hb.store.1.1 tick hq
  | flushMeta =>
    refine iff_of_true ?_ trivial
    unfold SeqsUnique step
    rw [TickJournal.flushMeta_journalFile]
    exact hq
  | crashRestart => exact iff_of_true hq trivial

/-- **The numbers of a run are unique exactly when no line is numbered from a tip behind the
file.** -/
theorem seqs_unique_iff (cfg : Config) (ops : List (CollectorOp cfg)) :
    Run.Always step SeqsUnique (start : Collector cfg) ops ↔ Run.Each step TipCurrent start ops :=
  Run.always_iff_each (fun s op h _ _ => inv_step s op h) unique_step_iff inv_start
    (show List.Nodup _ from .nil) ops

/-- The first line is durable, its tip is not: after a crash the next line is number 1 again. -/
theorem crash_reuses_seq :
    ¬Run.Always step SeqsUnique (start : Collector .default)
      [.append (readmeTick ['B', 'T', 'C'] ['1']), .crashRestart,
        .append (readmeTick ['B', 'T', 'C'] ['2'])] := by
  intro h
  have hlast : ¬(Run.exec step (start : Collector .default)
      [.append (readmeTick ['B', 'T', 'C'] ['1']), .crashRestart,
        .append (readmeTick ['B', 'T', 'C'] ['2'])]).SeqsUnique := by
    unfold SeqsUnique
    decide +kernel
  exact hlast h.last

end Collector

end Leviathan
