import Leviathan.Journal.HighWater
import Leviathan.Journal.Instance
import Leviathan.Lib.Run

/-!
# A seek through the index finds what a full scan finds

The index of one instance is sparse, trimmed, rebuilt by compactions, and may be replaced by an
older one from the metadata file. Whatever its entries, a read from `byte_offset_for_seq` misses no
record: `sparse_seek_eq_scan`.
-/

namespace Leviathan

open Py

variable {cfg : Config}

/-! ## Scans -/

section Scan

variable {rt : Runtime}

/-- The records of the lines with `seq >= startSeq`. -/
def scanLines (rt : Runtime) (startSeq : Nat) :
    List TextLine → Except PyError (List (Int × TradeTick rt))
  | [] => .ok []
  | line :: lines => do
    let parsed ← parseJournalRecordLine rt line.text
    let records ← scanLines rt startSeq lines
    match parsed with
    | some (.record seq tick) =>
      return if seq ≥ startSeq then (seq, tick) :: records else records
    | _ => return records

/-- The records with `seq >= startSeq` in the file from a byte offset on. -/
def scanFrom (rt : Runtime) (journalFile : Option Bytes) (offset startSeq : Nat) :
    Except PyError (List (Int × TradeTick rt)) :=
  let unread := (journalFile.getD []).drop offset
  match textLines unread with
  | none => .error (.unicodeDecodeError (rt.unicodeErrorText unread))
  | some lines => scanLines rt startSeq lines

theorem scanLines_records (startSeq : Nat) (rs : List (Rec rt)) :
    scanLines rt startSeq (rs.map recordLine) =
      .ok ((since startSeq rs).map fun r => ((r.1 : Int), r.2)) := by
  induction rs with
  | nil => rfl
  | cons r rs ih =>
    have hp : parseJournalRecordLine rt (recordLine r).text = .ok (some (.record r.1 r.2)) :=
      parse_encodeRecord r.1 r.2
    simp only [List.map_cons, scanLines, hp, ih, bind, Except.bind, pure, Except.pure]
    by_cases hr : startSeq ≤ r.1 <;> simp [since, hr]

/-- A scan from a record boundary finds the records behind it. -/
theorem scanFrom_records (startSeq : Nat) (A B : List (Rec rt)) {journalFile : Option Bytes}
    (hfile : journalFile.getD [] = journalBytes (A ++ B)) :
    scanFrom rt journalFile (journalBytes A).length startSeq =
      .ok ((since startSeq B).map fun r => ((r.1 : Int), r.2)) := by
  rw [scanFrom, hfile, journalBytes_append, List.drop_left, textLines_records]
  exact scanLines_records startSeq B

end Scan

/-! ## Reloads -/

namespace TickJournal

/-- **A reload of the metadata file.** It may bring back an older index and older windows, but no
older tip. -/
theorem Sound.reloadMetaFromDisk {journal : TickJournal cfg} {disk : Disk}
    {rs : List (Rec cfg.toRuntime)} (h : journal.Sound disk rs)
    (hc : journal.metaStore.Coherent) : (journal.reloadMetaFromDisk disk).Sound disk rs := by
  have hb : (journal.reloadMetaFromDisk disk).Bounded journal.latestSeq disk :=
    ⟨h.current.store.reloadFromDisk h.current.file, h.current.file⟩
  have hl : (journal.reloadMetaFromDisk disk).latestSeq = journal.latestSeq :=
    Nat.le_antisymm hb.store.payload.latestSeq
      (MetaStore.reloadFromDisk_advances hc disk.metaFile).latestSeq
  exact ⟨h.file, h.increasing, hl ▸ h.numbers, by rw [Current, hl]; exact hb, h.fileIndex,
    h.fileIndex⟩

end TickJournal

/-! ## Runs -/

inductive SeekOp (cfg : Config) where
  | append (tick : TradeTick cfg.toRuntime)
  | compactBeforeSeq (minRetainSeq : Nat)
  | flushMeta
  | reloadSeqIndexFromDisk
  | reloadMetaFromDisk

namespace Instance

def seekStep (s : Instance cfg) : SeekOp cfg → Instance cfg
  | .append tick =>
    let (journal, disk, _) := s.journal.append s.disk tick
    { journal, disk }
  | .compactBeforeSeq minRetainSeq =>
    let (journal, disk, _) := s.journal.compactBeforeSeq s.disk minRetainSeq
    { journal, disk }
  | .flushMeta =>
    let (journal, disk, _) := s.journal.flushMeta s.disk
    { journal, disk }
  | .reloadSeqIndexFromDisk => { s with journal := s.journal.reloadSeqIndexFromDisk s.disk }
  | .reloadMetaFromDisk => { s with journal := s.journal.reloadMetaFromDisk s.disk }

/-- Every index entry is sound, and a reload cannot lower the tip. -/
def SeekInv (s : Instance cfg) : Prop := (∃ rs, s.journal.Sound s.disk rs) ∧ s.journal.metaStore.Coherent

theorem seekInv_start : (start : Instance cfg).SeekInv := ⟨⟨[], .empty⟩, .new none⟩

theorem seekInv_step (s : Instance cfg) (op : SeekOp cfg) (h : s.SeekInv) :
    (s.seekStep op).SeekInv := by
  obtain ⟨⟨rs, hs⟩, hc⟩ := h
  cases op with
  | append tick =>
    refine ⟨?_, TickJournal.append_coherent s.disk hc tick⟩
    by_cases ha : s.journal.Accepts tick
    · exact ⟨_, hs.append ha⟩
    · exact ⟨_, hs.append_rejected ha⟩
  | compactBeforeSeq minRetainSeq =>
    exact ⟨⟨_, (hs.compactBeforeSeq minRetainSeq).1⟩,
      TickJournal.compactBeforeSeq_coherent s.disk hc minRetainSeq⟩
  | flushMeta => exact ⟨⟨_, hs.flushMeta.1⟩, TickJournal.flushMeta_coherent s.disk hc⟩
  | reloadSeqIndexFromDisk => exact ⟨⟨_, hs.reloadSeqIndexFromDisk⟩, hc⟩
  | reloadMetaFromDisk =>
    exact ⟨⟨_, hs.reloadMetaFromDisk hc⟩, TickJournal.reloadMetaFromDisk_coherent s.disk hc⟩

/-- **Sparse seek equals full scan**, after every run and for every start. Neither raises. -/
theorem sparse_seek_eq_scan (cfg : Config) (ops : List (SeekOp cfg)) (startSeq : Nat) :
    let s := Run.exec seekStep start ops
    ∃ offset records, s.journal.byteOffsetForSeq s.disk startSeq = .ok offset ∧
      scanFrom cfg.toRuntime s.disk.journalFile offset startSeq = .ok records ∧
      scanFrom cfg.toRuntime s.disk.journalFile 0 startSeq = .ok records := by
  intro s
  obtain ⟨⟨rs, hs⟩, -⟩ : s.SeekInv :=
    Run.exec_of_step seekInv_step seekInv_start ops
  have hfile := hs.file.getD
  have hcut := before_append_since hs.increasing startSeq
  refine ⟨offsetOf startSeq rs, _, hs.byteOffsetForSeq startSeq, ?_,
    scanFrom_records startSeq [] rs hfile⟩
  rw [offsetOf, scanFrom_records startSeq (before startSeq rs) (since startSeq rs)
    (by rw [hfile, hcut]), since_since (Nat.le_refl _)]

end Instance

end Leviathan
