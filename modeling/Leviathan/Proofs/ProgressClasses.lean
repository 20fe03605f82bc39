import Leviathan.Journal.ReaderLemmas
import Leviathan.Journal.Stream

/-!
# What a progress snapshot says

A snapshot is at the end of the file, or behind it with nothing to read yet, or unread; a forced
resync goes by that.

* `Rebound`: what a resync that rebinds has done: the index is read from disk again, and the reader
  waits for the next record of the stream where the index places it.
* `ProgressExact`: the classes exclude each other, the lag is counted from the tip on disk, and a
  resync rebinds exactly when there is something to read.
* `progress_exact`: **this holds of every snapshot, the tolerance has no part in it, and a stream
  goes by its snapshot.**
-/

namespace Leviathan

open Py

/-- There is a record to read, or a torn line to leave. -/
def Unread (nextSeq diskLatestSeq : Nat) (incompleteStuck : Bool) : Prop :=
  nextSeq ≤ diskLatestSeq ∨ incompleteStuck = true

/-- A reader that is sent to the offset `indexed` stands at `offset`: on the first line start from
there on, or at the end of the file when an incomplete last line begins there, which is given up. -/
def PlacedAt (journalFile : Option Bytes) (indexed offset : Nat) : Prop :=
  match journalFile with
  | none => offset = indexed
  | some file =>
    let lineStart := if indexed < file.length then skipToLineStart file indexed else file.length
    offset = lineStart ∨ offset = file.length ∧ LF ∉ file.drop lineStart

/-- A forced resync of `stream` that rebinds: `reload_seq_index_from_disk()`, then
`force_rebind_from_seq(self.__next_seq)`. -/
structure Rebound {cfg : Config} (stream : JournalTickStream cfg)
    (result : JournalTickStream cfg × Except PyError Bool) : Prop where
  calls : result =
    let journal := stream.tail.journal.reloadSeqIndexFromDisk stream.tail.disk
    let rebound := { stream.tail with journal }.forceRebindFromSeq stream.nextSeq
    ({ stream with tail := rebound.1 }, rebound.2.map fun _ => true)
  /-- the index that was read is the one of the file on disk -/
  index : result.1.tail.journal = stream.tail.journal.reloadSeqIndexFromDisk stream.tail.disk
  /-- unless the call raises, the reader waits for the next record of the stream, and no longer for
  the rest of a torn line -/
  waits : ∀ rebound, result.2 = .ok rebound → rebound = true ∧
    result.1.tail.reader.nextSeq = stream.nextSeq ∧
    result.1.tail.reader.incompletePolicy.isStuck = false
  /-- and it stands where the index places that record -/
  placed : ∀ rebound, result.2 = .ok rebound → ∃ indexed,
    result.1.tail.journal.byteOffsetForSeq stream.tail.disk stream.nextSeq = .ok indexed ∧
      PlacedAt stream.tail.disk.journalFile indexed result.1.tail.reader.readOffset

/-- What a snapshot of the numbers says, and what a forced resync makes of it. -/
structure ProgressExact (readOffset journalSize : Int) (nextSeq diskLatestSeq : Nat)
    (incompleteStuck : Bool) (snapshot : ReadProgress) : Prop where
  exclusive : ¬(isEofCaughtUpProgressSnapshot snapshot = true ∧
    isSeqCaughtUpTrailingByteLagSnapshot snapshot = true)
  eof : isEofCaughtUpProgressSnapshot snapshot = true ↔
    journalSize ≤ readOffset ∧ ¬Unread nextSeq diskLatestSeq incompleteStuck
  trailing : isSeqCaughtUpTrailingByteLagSnapshot snapshot = true ↔
    readOffset < journalSize ∧ ¬Unread nextSeq diskLatestSeq incompleteStuck
  lag : (snapshot.lagSeq : Int) =
    max (max 0 ((diskLatestSeq : Int) - nextSeq + 1)) (if incompleteStuck then 1 else 0)
  rebinds : ∀ {cfg : Config} (stream : JournalTickStream cfg),
    Unread nextSeq diskLatestSeq incompleteStuck → Rebound stream (stream.resyncIfUnread snapshot)
  stays : ∀ {cfg : Config} (stream : JournalTickStream cfg),
    ¬Unread nextSeq diskLatestSeq incompleteStuck →
      stream.resyncIfUnread snapshot = (stream, .ok false)

/-- A forced resync of the stream, from the tip that it reads, rebinds exactly when there is
something to read. -/
def ResyncExact {cfg : Config} (stream : JournalTickStream cfg) : Prop :=
  let (journal, tip) := stream.tail.journal.readLatestSeqFromDisk stream.tail.disk
  let read := { stream with tail := { stream.tail with journal } }
  let unread := Unread stream.tail.reader.nextSeq tip stream.tail.reader.incompletePolicy.isStuck
  (unread → Rebound read stream.forceTailResyncIfUnread) ∧
    (¬unread → stream.forceTailResyncIfUnread = (read, .ok false))

/-! ## A rebind -/

namespace Tail

variable {cfg : Config} {tail tail' : Tail cfg}

/-- The attach leaves the reader where it is, or behind an incomplete last line that begins there.
-/
theorem abandon_placed (h : tail.abandonIncompleteTipAtCursor = .ok tail') :
    tail'.journal = tail.journal ∧ tail'.reader.incompletePolicy.isStuck = false ∧
      (tail'.reader.readOffset = tail.reader.readOffset ∨
        ∃ file, tail.disk.journalFile = some file ∧ tail'.reader.readOffset = file.length ∧
          LF ∉ file.drop tail.reader.readOffset) := by
  unfold abandonIncompleteTipAtCursor at h
  simp only at h
  split at h
  · cases h
    exact ⟨rfl, rfl, .inl rfl⟩
  · rename_i file hfile
    split at h
    · split at h
      · cases h
      · cases h
        exact ⟨rfl, rfl, .inl rfl⟩
    · rename_i line rest hlines
      split at h
      · cases h
        exact ⟨rfl, rfl, .inl rfl⟩
      · rename_i hopen
        have hopen : endsWithNewline line.text = false := by simpa using hopen
        cases h
        obtain ⟨hdecoded, hraw, hLF⟩ :=
          @textRead_open (file.drop tail.reader.readOffset) line rest hlines hopen
        have htell := @tell_open cfg.toRuntime (.seek file tail.reader.readOffset) line hdecoded hopen
        refine ⟨rfl, rfl, .inr ⟨file, hfile, htell.trans ?_, hLF⟩⟩
        have hpos : line.raw ≠ [] := fun hnil => by
          rw [← hraw, hnil] at hdecoded
          cases hdecoded
        have hlength := congrArg List.length hraw
        have := List.length_pos_iff.mpr hpos
        rw [List.length_drop] at hlength
        change tail.reader.readOffset + line.raw.length = file.length
        omega

/-- Without a file there is nothing to align with. -/
theorem align_none (reader : JournalIncrementalReader) :
    (reader.alignReadOffsetToLineBoundary none).readOffset = reader.readOffset := by
  unfold JournalIncrementalReader.alignReadOffsetToLineBoundary
  split
  · rfl
  · split <;> rfl

/-- A reader that trusts no offset is aligned with the first line start from there on, or with the
end of the file. -/
theorem align_some {reader : JournalIncrementalReader} (hbol : reader.logicalBolOffset = none)
    (file : Bytes) :
    (reader.alignReadOffsetToLineBoundary (some file)).readOffset =
      if reader.readOffset < file.length then skipToLineStart file reader.readOffset
      else file.length := by
  have hne : reader.logicalBolOffset ≠ some reader.readOffset := by simp [hbol]
  unfold JournalIncrementalReader.alignReadOffsetToLineBoundary
  by_cases h0 : reader.readOffset = 0
  · rw [if_pos h0, h0]
    split
    · rfl
    · omega
  · simp only [h0, hne, ↓reduceIte, ge_iff_le]
    by_cases hlt : reader.readOffset < file.length
    · rw [if_neg (Nat.not_le.mpr hlt), if_pos hlt]
      split
      · rfl
      · rename_i hsame
        exact (not_not.mp hsame).symm
    · rw [if_pos (Nat.not_lt.mp hlt), if_neg hlt]
      split
      · rfl
      · rename_i hsame
        exact (not_not.mp hsame).symm

/-- **A rebind that does not raise** places the reader where the index sends it. -/
theorem forceRebindFromSeq_placed {startSeq : Nat}
    (h : tail.forceRebindFromSeq startSeq = (tail', .ok ())) :
    tail'.reader.nextSeq = startSeq ∧ tail'.reader.incompletePolicy.isStuck = false ∧
      ∃ indexed, tail.journal.byteOffsetForSeq tail.disk startSeq = .ok indexed ∧
        PlacedAt tail.disk.journalFile indexed tail'.reader.readOffset := by
  unfold forceRebindFromSeq at h
  split at h
  · cases h
  · rename_i indexed hindexed
    simp only at h
    split at h
    · cases h
    · rename_i tail₁ habandon
      obtain ⟨-, hstuck, hplaced⟩ := abandon_placed habandon
      cases h
      refine ⟨rfl, hstuck, indexed, hindexed, ?_⟩
      change PlacedAt tail.disk.journalFile indexed tail₁.reader.readOffset
      simp only at hplaced
      unfold PlacedAt
      cases hfile : tail.disk.journalFile with
      | none =>
        rw [hfile, align_none] at hplaced
        exact hplaced.resolve_right (by simp)
      | some file =>
        simp only [hfile, Option.some.injEq, exists_eq_left'] at hplaced
        rw [align_some rfl file] at hplaced
        simp only [JournalIncrementalReader.clearIncompleteWaitState] at hplaced
        by_cases hlt : indexed < file.length
        · simp only [gt_iff_lt, Nat.not_lt.mpr (Nat.le_of_lt hlt), hlt, ↓reduceIte] at hplaced ⊢
          exact hplaced
        · have hend : (if indexed > file.length then file.length else indexed) = file.length := by
            split <;> omega
          simp only [hend, Nat.lt_irrefl, hlt, ↓reduceIte] at hplaced ⊢
          exact hplaced

/-- A rebind changes the journal object in no other way than the reload of its index. -/
theorem forceRebindFromSeq_journal (tail : Tail cfg) (startSeq : Nat) :
    (tail.forceRebindFromSeq startSeq).1.journal = tail.journal := by
  unfold forceRebindFromSeq
  split
  · rfl
  · simp only
    split
    · rfl
    · rename_i habandon
      exact (abandon_placed habandon).1

end Tail

/-- **What a rebind of the stream has done.** -/
theorem rebound {cfg : Config} (stream : JournalTickStream cfg) :
    Rebound stream (stream.rebind.1, stream.rebind.2.map fun _ => true) := by
  cases hrun : Tail.forceRebindFromSeq { stream.tail with
      journal := stream.tail.journal.reloadSeqIndexFromDisk stream.tail.disk } stream.nextSeq with
  | mk tail result =>
    have hjournal := Tail.forceRebindFromSeq_journal { stream.tail with
      journal := stream.tail.journal.reloadSeqIndexFromDisk stream.tail.disk } stream.nextSeq
    rw [hrun] at hjournal
    have hrebind : stream.rebind = ({ stream with tail }, result) := by
      simp only [JournalTickStream.rebind, hrun]
    rw [hrebind]
    cases result with
    | error e =>
      refine ⟨by simp only [hrun], hjournal, ?_, ?_⟩
      · rintro _ ⟨⟩
      · rintro _ ⟨⟩
    | ok done =>
      obtain ⟨hnext, hstuck, indexed, hindexed, hplaced⟩ := Tail.forceRebindFromSeq_placed hrun
      refine ⟨by simp only [hrun], hjournal, ?_, ?_⟩
      · rintro _ ⟨⟩
        exact ⟨rfl, hnext, hstuck⟩
      · rintro _ ⟨⟩
        refine ⟨indexed, ?_, hplaced⟩
        rw [hjournal]
        exact hindexed

/-! ## Snapshots -/

variable (readOffset journalSize : Int) (nextSeq diskLatestSeq : Nat) (incompleteStuck : Bool)
  (metaLagToleranceSeq : Int)

theorem eof_iff : isEofCaughtUpProgressSnapshot (computeReadProgressSnapshot readOffset journalSize
      nextSeq diskLatestSeq incompleteStuck metaLagToleranceSeq) = true ↔
    journalSize ≤ readOffset ∧ ¬Unread nextSeq diskLatestSeq incompleteStuck := by
  have hlag := computeReadProgressSnapshot_lag readOffset journalSize nextSeq diskLatestSeq
    incompleteStuck metaLagToleranceSeq
  simp only [isEofCaughtUpProgressSnapshot, hlag, Bool.and_eq_true, decide_eq_true_eq, Unread]
  simp only [computeReadProgressSnapshot]
  cases incompleteStuck with
  | false =>
    simp only [Bool.false_eq_true, ↓reduceIte, or_false, Bool.not_false, and_true, ge_iff_le]
    omega
  | true => simp

theorem trailing_iff : isSeqCaughtUpTrailingByteLagSnapshot (computeReadProgressSnapshot readOffset
      journalSize nextSeq diskLatestSeq incompleteStuck metaLagToleranceSeq) = true ↔
    readOffset < journalSize ∧ ¬Unread nextSeq diskLatestSeq incompleteStuck := by
  have hunread := computeReadProgressSnapshot_unread readOffset journalSize nextSeq diskLatestSeq
    incompleteStuck metaLagToleranceSeq
  rw [← not_iff_not, Nat.not_le, Nat.not_le] at hunread
  change (!incompleteStuck && decide (readOffset < journalSize) && decide (_ > _)) = true ↔ _
  simp only [Bool.and_eq_true, Bool.not_eq_true', decide_eq_true_eq, gt_iff_lt, Unread, not_or,
    Nat.not_le, Bool.not_eq_true]
  constructor
  · rintro ⟨⟨hstuck, hlt⟩, htip⟩
    exact ⟨hlt, hunread.mp htip, hstuck⟩
  · rintro ⟨hlt, htip, hstuck⟩
    exact ⟨⟨hstuck, hlt⟩, hunread.mpr htip⟩

theorem snapshot_exact : ProgressExact readOffset journalSize nextSeq diskLatestSeq incompleteStuck
    (computeReadProgressSnapshot readOffset journalSize nextSeq diskLatestSeq incompleteStuck
      metaLagToleranceSeq) := by
  have heof := eof_iff readOffset journalSize nextSeq diskLatestSeq incompleteStuck
    metaLagToleranceSeq
  have htrailing := trailing_iff readOffset journalSize nextSeq diskLatestSeq incompleteStuck
    metaLagToleranceSeq
  refine ⟨?_, heof, htrailing, ?_, ?_, ?_⟩
  · rintro ⟨he, ht⟩
    have := (heof.mp he).1
    have := (htrailing.mp ht).1
    omega
  · rw [computeReadProgressSnapshot_lag]
    cases incompleteStuck <;> simp only [Bool.false_eq_true, ↓reduceIte] <;> omega
  · intro cfg stream hunread
    have he := mt heof.mp (fun h => h.2 hunread)
    have ht := mt htrailing.mp (fun h => h.2 hunread)
    simp only [JournalTickStream.resyncIfUnread, he, ht, Bool.false_eq_true, ↓reduceIte]
    exact rebound stream
  · intro cfg stream hread
    rcases Int.lt_or_le readOffset journalSize with hlt | hle
    · have ht := htrailing.mpr ⟨hlt, hread⟩
      simp only [JournalTickStream.resyncIfUnread, ht, ↓reduceIte, ite_self]
    · have he := heof.mpr ⟨hle, hread⟩
      simp only [JournalTickStream.resyncIfUnread, he, ↓reduceIte]

theorem resync_exact {cfg : Config} (stream : JournalTickStream cfg) : ResyncExact stream := by
  have hexact := snapshot_exact stream.tail.reader.readOffset
    (stream.tail.disk.journalFile.getD []).length stream.tail.reader.nextSeq
    (stream.tail.journal.readLatestSeqFromDisk stream.tail.disk).2
    stream.tail.reader.incompletePolicy.isStuck tipMetaLagToleranceSeq
  exact ⟨hexact.rebinds _, hexact.stays _⟩

/-- **The classification of read progress is exact, whatever the tolerance.** -/
theorem progress_exact : ProgressExact readOffset journalSize nextSeq diskLatestSeq incompleteStuck
      (computeReadProgressSnapshot readOffset journalSize nextSeq diskLatestSeq incompleteStuck
        metaLagToleranceSeq) ∧
    ∀ {cfg : Config} (stream : JournalTickStream cfg), ResyncExact stream :=
  ⟨snapshot_exact readOffset journalSize nextSeq diskLatestSeq incompleteStuck metaLagToleranceSeq,
    resync_exact⟩

end Leviathan
