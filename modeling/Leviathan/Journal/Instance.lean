import Leviathan.Journal.Current
import Leviathan.Journal.PollOrder

/-!
# One instance and its directory

`Sound journal disk rs`: the directory holds the records `rs`, the instance knows their tip, and no
entry of an index, in memory or in the metadata file, is past the record it stands for. An instance
that is alone on its directory keeps this: `Sound.append`, `Sound.flushMeta`,
`Sound.compactBeforeSeq`. Its seeks are then exact, and so are the polls of its readers:
`Sound.poll`.
-/

namespace Leviathan

open Py

variable {cfg : Config}

/-- A `TickJournal` and its directory, where no other instance works. -/
structure Instance (cfg : Config) where
  journal : TickJournal cfg
  disk : Disk

/-- A new instance in an empty directory: `load_payload` finds no meta file. -/
def Instance.start : Instance cfg := ⟨.new .empty, .empty⟩

namespace TickJournal

/-- The instance and its directory agree on the records `rs`: the file holds exactly their lines,
their numbers grow, the tip is not behind them, and the index points to their line starts. -/
structure Sound (journal : TickJournal cfg) (disk : Disk) (rs : List (Rec cfg.toRuntime)) :
    Prop where
  file : disk.Holds rs
  increasing : Increasing rs
  numbers : ∀ r ∈ rs, 1 ≤ r.1 ∧ r.1 ≤ journal.latestSeq
  current : journal.Current disk
  index : Points journal.metaStore.seqIndex rs
  fileIndex : Points (loadPayload disk.metaFile).seqIndex rs

/-- An operation that accepts no tick: the tip and the windows are as before, so the next append
gives the same number to the same tick. -/
structure SameTicks (journal journal' : TickJournal cfg) : Prop where
  latestSeq : journal'.latestSeq = journal.latestSeq
  window : ∀ key, journal'.metaStore.window key = journal.metaStore.window key

theorem SameTicks.refl (journal : TickJournal cfg) : SameTicks journal journal :=
  ⟨rfl, fun _ => rfl⟩

namespace Sound

variable {journal : TickJournal cfg} {disk : Disk} {rs : List (Rec cfg.toRuntime)}

/-- The empty journal: `latest_seq` is 0, the index has the one entry `[0, 0]`, and there is no
record. -/
theorem empty : (TickJournal.new .empty : TickJournal cfg).Sound .empty [] :=
  ⟨.inl ⟨rfl, rfl⟩, .nil, by simp, .new .empty, points_first _, points_first _⟩

/-- **An accepted append** adds one record with the number after the tip, whichever branch the
durability policy takes. -/
theorem append (h : journal.Sound disk rs) {tick : TradeTick cfg.toRuntime}
    (ha : journal.Accepts tick) :
    (journal.append disk tick).1.Sound (journal.append disk tick).2.1
      (rs ++ [(journal.latestSeq + 1, tick)]) := by
  have hp := append_current h.current ha
  have hbelow : ∀ r ∈ rs, r.1 < journal.latestSeq + 1 := fun r hr => by
    have := (h.numbers r hr).2; omega
  have hindex : Points (journal.append disk tick).1.metaStore.seqIndex
      (rs ++ [(journal.latestSeq + 1, tick)]) := by
    rw [hp.seqIndex, h.file.getD]
    exact h.index.recordSeqIndex (r := (journal.latestSeq + 1, tick)) hbelow
  refine ⟨.inr ?_, h.increasing.snoc hbelow, fun r hr => ?_, hp.current, hindex, ?_⟩
  · rw [hp.journalFile, h.file.getD]
    simp
  · rw [hp.latestSeq]
    rcases List.mem_append.mp hr with hr | hr
    · have := h.numbers r hr; omega
    · rw [List.mem_singleton.mp hr]
      exact ⟨Nat.succ_pos _, Nat.le_refl _⟩
  · rcases hp.fileIndex with hf | hf
    · rw [hf]; exact h.fileIndex.append _
    · rw [hf]; exact hindex

/-- What `Rejected` keeps is all that soundness speaks of, so a duplicate or a blank symbol costs
nothing. -/
theorem rejected (h : journal.Sound disk rs) {journal' : TickJournal cfg} {disk' : Disk}
    (hr : Rejected journal disk journal' disk') : journal'.Sound disk' rs := by
  refine ⟨?_, h.increasing, hr.latestSeq ▸ h.numbers, hr.current h.current, hr.seqIndex ▸ h.index,
    ?_⟩
  · rw [hr.disk]; exact h.file
  · rw [hr.disk]; exact h.fileIndex

theorem append_rejected (h : journal.Sound disk rs) {tick : TradeTick cfg.toRuntime}
    (ha : ¬journal.Accepts tick) :
    (journal.append disk tick).1.Sound (journal.append disk tick).2.1 rs :=
  h.rejected (TickJournal.append_rejected ha disk)

/-- A flush writes metadata only: the records and the next number are the same, whether it published
or found nothing dirty. -/
theorem flushMeta (h : journal.Sound disk rs) :
    (journal.flushMeta disk).1.Sound (journal.flushMeta disk).2.1 rs ∧
      SameTicks journal (journal.flushMeta disk).1 := by
  obtain ⟨hcur, hp | he⟩ := flushMeta_current h.current
  · refine ⟨⟨h.file.congr (flushMeta_journalFile _ _), h.increasing, ?_, hcur, ?_, ?_⟩,
      hp.latestSeq, hp.window⟩
    · rw [hp.latestSeq]; exact h.numbers
    · rw [hp.seqIndex]; exact h.index
    · rw [hp.fileIndex]; exact h.index
  · rw [he]
    exact ⟨h, .refl journal⟩

/-- **A compaction** leaves the records from the watermark on, with an index for the shorter file,
and takes no number back. -/
theorem compactBeforeSeq (h : journal.Sound disk rs) (minRetainSeq : Nat) :
    let after := journal.compactBeforeSeq disk minRetainSeq
    after.1.Sound after.2.1 (since minRetainSeq rs) ∧ SameTicks journal after.1 ∧
      after.2.1.cursorFile = disk.cursorFile ∧
      (after.2.1.journalFile = none → disk.journalFile = none) := by
  by_cases hdrop : minRetainSeq ≤ 1 ∨ since minRetainSeq rs = rs
  · have hall : since minRetainSeq rs = rs := by
      rcases hdrop with h1 | hs
      · exact List.filter_eq_self.mpr fun r hr =>
          decide_eq_true (Nat.le_trans h1 (h.numbers r hr).1)
      · exact hs
    have hc := MetaStore.compactBeforeSeq_records journal.metaStore h.file minRetainSeq
    rw [if_pos hdrop] at hc
    simp only [TickJournal.compactBeforeSeq, hc, hall]
    exact ⟨h, .refl journal, trivial, id⟩
  · obtain ⟨hcur, hfile, hcursor, hp⟩ := compactBeforeSeq_current h.current h.file hdrop fun r hr =>
      (h.numbers r hr).2
    have hinc : Increasing (since minRetainSeq rs) := List.Pairwise.filter _ h.increasing
    refine ⟨⟨.inr hfile, hinc, fun r hr => ?_, hcur, ?_, ?_⟩, ⟨hp.latestSeq, hp.window⟩, hcursor,
      fun hn => by rw [hfile] at hn; cases hn⟩
    · rw [hp.latestSeq]
      exact h.numbers r (mem_since.mp hr).1
    · rw [hp.seqIndex]; exact points_compactedIndex hinc
    · rw [hp.fileIndex]; exact points_compactedIndex hinc

/-- Only the journal and its metadata matter: the cursor and the quarantine file may change under an
instance. -/
theorem congr {disk' : Disk} (h : journal.Sound disk rs)
    (hj : disk'.journalFile = disk.journalFile) (hm : disk'.metaFile = disk.metaFile) :
    journal.Sound disk' rs :=
  ⟨h.file.congr hj, h.increasing, h.numbers, ⟨h.current.store, hm ▸ h.current.file⟩, h.index,
    hm ▸ h.fileIndex⟩

/-- A reload takes the index of the meta file, whose entries point to line starts of the file too,
as every compaction publishes the index it made. -/
theorem reloadSeqIndexFromDisk (h : journal.Sound disk rs) :
    (journal.reloadSeqIndexFromDisk disk).Sound disk rs :=
  ⟨h.file, h.increasing, h.numbers, ⟨⟨⟨h.current.store.1.1, h.current.file.2⟩, h.current.store.2⟩,
    h.current.file⟩, h.fileIndex, h.fileIndex⟩

/-- **A seek finds the first record that is not before `startSeq`**, from whichever hint the sparse
index gives. -/
theorem byteOffsetForSeq (h : journal.Sound disk rs) (startSeq : Nat) :
    journal.byteOffsetForSeq disk startSeq = .ok (offsetOf startSeq rs) :=
  byteOffsetForSeq_of_points h.file h.increasing (fun r hr => (h.numbers r hr).1) h.index startSeq

end Sound

end TickJournal

namespace Tail

/-- **A poll of an instance's reader** returns all records from `startSeq` on, in one batch, and
leaves the reader behind them. -/
theorem poll_sound {tail : Tail cfg} {rs : List (Rec cfg.toRuntime)} {startSeq : Nat}
    (h : tail.journal.Sound tail.disk rs) (hready : tail.Ready startSeq rs) (now : Rat) :
    ∃ tail', tail.poll now startSeq = (tail', .ok (since startSeq rs)) ∧
      Read tail tail' startSeq rs ∧ tail'.journal.Sound tail'.disk rs ∧
      tail.journal.SameTicks tail'.journal := by
  obtain ⟨tail', hp, hread⟩ := poll_records h.file h.increasing (h.byteOffsetForSeq startSeq)
    (h.reloadSeqIndexFromDisk.byteOffsetForSeq startSeq) hready now
  refine ⟨tail', hp, hread, ?_⟩
  rw [hread.disk]
  rcases hread.journal with hj | hj <;> rw [hj]
  · exact ⟨h, .refl _⟩
  · exact ⟨h.reloadSeqIndexFromDisk, rfl, fun _ => rfl⟩

end Tail

namespace TickJournal.Sound

variable {journal : TickJournal cfg} {disk : Disk} {rs : List (Rec cfg.toRuntime)}

/-- The reader of a cold replay, which `tail_from` makes anew: one poll reads the records, and the
next is empty and ends the loop. -/
theorem tailFrom_poll (h : journal.Sound disk rs) (now : Rat) (startSeq : Nat) :
    ∃ tail', Tail.poll ⟨.new defaultIncompleteRecordMaxWaitSeconds, journal, disk⟩ now startSeq =
        (tail', .ok (since startSeq rs)) ∧ tail'.AtEnd := by
  let tail : Tail cfg := ⟨.new defaultIncompleteRecordMaxWaitSeconds, journal, disk⟩
  have hready : tail.Ready startSeq rs := by
    by_cases h1 : startSeq = 1
    · exact .inr (.inl ⟨[], rs, rfl, rfl, rfl, by simp⟩)
    · exact .inl h1
  have htail : tail.journal.Sound tail.disk rs := h
  obtain ⟨tail', hp, hread, -, -⟩ := Tail.poll_sound htail hready now
  refine ⟨tail', hp, ?_, hread.logicalBolOffset⟩
  rw [hread.readOffset, hread.disk, h.file.getD]

/-- **Cold replay yields the records from its start on** and then ends. Two rounds of the loop are
enough: the first reads everything, the second nothing. -/
theorem tailFrom (h : journal.Sound disk rs) (clock : Nat → Rat) {fuel : Nat} (hfuel : 2 ≤ fuel)
    (startSeq : Nat) : journal.tailFrom clock fuel disk startSeq = some ⟨since startSeq rs, none⟩ := by
  obtain ⟨tail', hp, hend⟩ := h.tailFrom_poll (clock 0) startSeq
  exact tailFrom_of_poll hp hend hfuel

/-- Cold replay with any number of polls: a single one is enough where it finds nothing. -/
theorem tailFrom_fuel (h : journal.Sound disk rs) (clock : Nat → Rat) (fuel startSeq : Nat) :
    journal.tailFrom clock fuel disk startSeq =
      if 2 ≤ fuel ∨ fuel = 1 ∧ since startSeq rs = [] then some ⟨since startSeq rs, none⟩
      else none := by
  rcases Nat.lt_or_ge fuel 2 with hlt | hge
  · obtain ⟨tail', hp, -⟩ := h.tailFrom_poll (clock 0) startSeq
    obtain rfl | rfl : fuel = 0 ∨ fuel = 1 := by omega
    · simp [TickJournal.tailFrom, tailFromLoop]
    · simp only [TickJournal.tailFrom, tailFromLoop, hp]
      cases since startSeq rs <;> simp
  · rw [h.tailFrom clock hge, if_pos (.inl hge)]

end TickJournal.Sound

end Leviathan
