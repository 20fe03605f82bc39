import Leviathan.Journal.Reader

/-!
# Read progress

A reader reports where it is in the file and how far it is behind the tip. The tip in the metadata
lags the file, so what the reader has consumed counts as tip too, within a tolerance
(`computeReadProgressSnapshot`). Two classifiers tell the snapshots of a reader that has nothing to
read from those of a reader that is behind. The log texts that are made of a snapshot are not
modelled.
-/

namespace Leviathan

open Py

/-- `TIP_META_LAG_TOLERANCE_SEQ`: how far the published tip may be behind the records, as it is
published at intervals only. -/
def tipMetaLagToleranceSeq : Nat := 50

/-- The dict that `compute_read_progress_snapshot` returns. -/
structure ReadProgress where
  readOffset : Int
  journalSize : Int
  nextSeq : Nat
  latestSeq : Nat
  lagSeq : Nat
  incompleteStuck : Bool
  cursorAheadOfTip : Bool
  deriving DecidableEq

/-- `compute_read_progress_snapshot`. A tip that is behind by no more than the tolerance is lifted
to what was consumed; one further behind sets `cursor_ahead_of_tip`. -/
def computeReadProgressSnapshot (readOffset journalSize : Int) (nextSeq diskLatestSeq : Nat)
    (incompleteStuck : Bool) (metaLagToleranceSeq : Int) : ReadProgress :=
  -- records that were consumed imply a tip of at least `next_seq - 1`
  let observedFloor := nextSeq - 1
  let overhang : Int := observedFloor - diskLatestSeq
  let cursorAheadOfTip : Bool := overhang > metaLagToleranceSeq
  let latestSeq := if cursorAheadOfTip then diskLatestSeq else max diskLatestSeq observedFloor
  let lagSeq := if latestSeq ≥ nextSeq then latestSeq - nextSeq + 1 else 0
  { readOffset, journalSize, nextSeq, latestSeq
    -- a torn last line is no idle end of file
    lagSeq := if lagSeq = 0 ∧ incompleteStuck then 1 else lagSeq
    incompleteStuck, cursorAheadOfTip }

/-- `is_eof_caught_up_progress_snapshot`: nothing is left to read, by bytes and by numbers. The
fields of a snapshot are numbers, so that nothing is raised. -/
def isEofCaughtUpProgressSnapshot (snapshot : ReadProgress) : Bool :=
  snapshot.readOffset ≥ snapshot.journalSize && snapshot.lagSeq = 0 && !snapshot.incompleteStuck

/-- `is_seq_caught_up_trailing_byte_lag_snapshot`: no number is left to read, but some bytes are. -/
def isSeqCaughtUpTrailingByteLagSnapshot (snapshot : ReadProgress) : Bool :=
  !snapshot.incompleteStuck && snapshot.readOffset < snapshot.journalSize &&
    snapshot.nextSeq > snapshot.latestSeq

/-- `get_read_progress_snapshot`: the tip is read, and the journal object remembers it. -/
def Tail.getReadProgressSnapshot {cfg : Config} (tail : Tail cfg) : Tail cfg × ReadProgress :=
  let (journal, diskLatest) := tail.journal.readLatestSeqFromDisk tail.disk
  ({ tail with journal },
    computeReadProgressSnapshot tail.reader.readOffset (tail.disk.journalFile.getD []).length
      tail.reader.nextSeq diskLatest tail.reader.incompletePolicy.isStuck tipMetaLagToleranceSeq)

/-- The cursor is ahead exactly when what was consumed is past the tip by more than the tolerance.
-/
theorem computeReadProgressSnapshot_ahead (readOffset journalSize : Int)
    (nextSeq diskLatestSeq : Nat) (incompleteStuck : Bool) (metaLagToleranceSeq : Nat) :
    (computeReadProgressSnapshot readOffset journalSize nextSeq diskLatestSeq incompleteStuck
        metaLagToleranceSeq).cursorAheadOfTip = true ↔
      diskLatestSeq + metaLagToleranceSeq + 1 < nextSeq := by
  simp only [computeReadProgressSnapshot, decide_eq_true_eq]
  omega

/-- Within the tolerance the tip is not before what was consumed. -/
theorem computeReadProgressSnapshot_floor {readOffset journalSize : Int}
    {nextSeq diskLatestSeq : Nat} {incompleteStuck : Bool} {metaLagToleranceSeq : Nat}
    (h : nextSeq ≤ diskLatestSeq + metaLagToleranceSeq + 1) :
    nextSeq - 1 ≤ (computeReadProgressSnapshot readOffset journalSize nextSeq diskLatestSeq
      incompleteStuck metaLagToleranceSeq).latestSeq := by
  have hahead : ¬((nextSeq - 1 : Nat) : Int) - diskLatestSeq > metaLagToleranceSeq := by omega
  simp only [computeReadProgressSnapshot, hahead, decide_false, Bool.false_eq_true, ↓reduceIte]
  exact Nat.le_max_right _ _

/-- What was consumed raises the tip, and never to the next record. -/
theorem computeReadProgressSnapshot_unread (readOffset journalSize : Int)
    (nextSeq diskLatestSeq : Nat) (incompleteStuck : Bool) (metaLagToleranceSeq : Int) :
    nextSeq ≤ (computeReadProgressSnapshot readOffset journalSize nextSeq diskLatestSeq
      incompleteStuck metaLagToleranceSeq).latestSeq ↔ nextSeq ≤ diskLatestSeq := by
  simp only [computeReadProgressSnapshot]
  split <;> omega

/-- The lag is counted from the tip on disk, within the tolerance and past it. -/
theorem computeReadProgressSnapshot_lag (readOffset journalSize : Int)
    (nextSeq diskLatestSeq : Nat) (incompleteStuck : Bool) (metaLagToleranceSeq : Int) :
    (computeReadProgressSnapshot readOffset journalSize nextSeq diskLatestSeq incompleteStuck
      metaLagToleranceSeq).lagSeq =
        max (diskLatestSeq + 1 - nextSeq) (if incompleteStuck then 1 else 0) := by
  simp only [computeReadProgressSnapshot]
  -- within the tolerance and past it, the tip is before the next record or the one on disk
  cases incompleteStuck with
  | false => split <;> split <;> simp <;> omega
  | true => split <;> split <;> simp <;> omega

/-- A store never reports a tip below the file's. -/
theorem MetaStore.readLatestSeqFromDisk_ge {cfg : Config} (store : MetaStore cfg)
    (metaFile : Option MetaPayload) :
    (loadPayload metaFile).latestSeq ≤ (store.readLatestSeqFromDisk metaFile).2 :=
  (Nat.le_max_left _ _).trans (Nat.le_max_left _ _)

end Leviathan
