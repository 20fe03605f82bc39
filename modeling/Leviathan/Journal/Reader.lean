import Leviathan.Journal.TickJournal

/-!
# `JournalIncrementalReader`

A reader follows the journal by a byte offset (`readOffset`) and the next sequence number it waits
for (`nextSeq`).

* `Policy.shouldSkipNow`: wait for an incomplete last line, or give it up.
* `Tail.resetFromSeq`: a new position, from the sparse index.
* `Tail.resyncIfJournalRewritten`: what a reader does when the file is shorter than before.
* `Tail.poll`: the new records; `tailFrom`: all records from a sequence number on.

A method works on the reader, on the journal object it belongs to and on the directory: `Tail` is
the three. Log lines, and the fields that only log lines use, are not modelled.
-/

namespace Leviathan

open Py

/-! ## Incomplete last lines -/

/-- `is_in_progress_journal_fragment`: after its leading blanks, the text begins like a JSON object.
-/
def isInProgressJournalFragment (fragment : Str) : Bool := (lstrip fragment).head? = some '{'

/-- `incomplete_trailing_skip_reason`, the reason in the quarantine for a fragment that was given
up. -/
def incompleteTrailingSkipReason (fragment : Str) : Str :=
  if isInProgressJournalFragment fragment then "incomplete_trailing_stale".toList
  else "incomplete_trailing_poison".toList

/-- The fragment that a reader waits for: its offset, when the wait began, and its length. -/
structure PendingIncomplete where
  offset : Nat
  startedAt : Rat
  length : Nat
  deriving DecidableEq

/-- `IncompleteTrailingFragmentPolicy`, with its pending fragment, if any. The clock is an argument
of `shouldSkipNow`. -/
structure Policy where
  maxWaitSeconds : Rat
  pending : Option PendingIncomplete

namespace Policy

def isStuck (policy : Policy) : Bool := policy.pending.isSome

def clear (policy : Policy) : Policy := { policy with pending := none }

/-- The policy after it, and `True` when the fragment must be skipped on this poll: at once if it
cannot become a record, and otherwise when it has not grown for `max_wait_seconds`. -/
def shouldSkipNow (policy : Policy) (now : Rat) (offset : Nat) (fragment : Str) : Policy × Bool :=
  if fragment = [] then (policy, false)
  else if isInProgressJournalFragment fragment = false then (policy, true)
  else
    let restart := ({ policy with pending := some ⟨offset, now, fragment.length⟩ }, false)
    match policy.pending with
    | none => restart
    | some pending =>
      if pending.offset ≠ offset ∨ pending.length ≠ fragment.length then restart
      else (policy, now - pending.startedAt ≥ policy.maxWaitSeconds)

end Policy

/-! ## The reader -/

structure JournalIncrementalReader where
  readOffset : Nat
  nextSeq : Nat
  skippedInvalidLines : Nat
  consecutiveParseFailures : Nat
  lastKnownSize : Option Nat
  incompletePolicy : Policy
  logicalBolOffset : Option Nat

namespace JournalIncrementalReader

/-- `JournalIncrementalReader(journal, incomplete_record_max_wait_seconds=..)`: it stands at the
start of the file, which is a line start, and waits for record 1. -/
def new (maxWaitSeconds : Rat) : JournalIncrementalReader where
  readOffset := 0
  nextSeq := 1
  skippedInvalidLines := 0
  consecutiveParseFailures := 0
  lastKnownSize := none
  incompletePolicy := ⟨maxWaitSeconds, none⟩
  logicalBolOffset := some 0

/-- `__clear_incomplete_wait_state`: the next fragment that is seen starts a new wait. -/
def clearIncompleteWaitState (reader : JournalIncrementalReader) : JournalIncrementalReader :=
  { reader with incompletePolicy := reader.incompletePolicy.clear }

/-- `__mark_logical_bol`: the present offset is trusted as a line start, whatever byte is before it.
-/
def markLogicalBol (reader : JournalIncrementalReader) : JournalIncrementalReader :=
  { reader with logicalBolOffset := some reader.readOffset }

/-- A line was read: `self.__read_offset = handle.tell()` and the mark, so the next poll reads on
from there. -/
def advance (reader : JournalIncrementalReader) (readOffset : Nat) : JournalIncrementalReader :=
  { reader with readOffset }.markLogicalBol

/-- `__choose_reset_offset`: the offset of the index, but the present one if the reader has already
read past it for the same start. -/
def chooseResetOffset (reader : JournalIncrementalReader) (journalFile : Option Bytes)
    (startSeq indexedOffset : Nat) : Nat :=
  match journalFile with
  | none => indexedOffset
  | some file =>
    let safeIndexed := if indexedOffset > file.length then file.length else indexedOffset
    if startSeq ≠ reader.nextSeq then safeIndexed
    else if reader.readOffset ≤ safeIndexed then safeIndexed
    else if reader.readOffset > file.length then safeIndexed
    else reader.readOffset

/-- `__align_read_offset_to_line_boundary`: an offset inside a line moves to the next line start,
and one past the end of the file to its end. A marked offset stays. -/
def alignReadOffsetToLineBoundary (reader : JournalIncrementalReader)
    (journalFile : Option Bytes) : JournalIncrementalReader :=
  if reader.readOffset = 0 then { reader with logicalBolOffset := some 0 }
  else if reader.logicalBolOffset = some reader.readOffset then reader
  else match journalFile with
    | none => reader
    | some file =>
      let offset :=
        if reader.readOffset ≥ file.length then file.length
        else skipToLineStart file reader.readOffset
      if offset ≠ reader.readOffset then
        { reader with readOffset := offset }.clearIncompleteWaitState.markLogicalBol
      else reader

end JournalIncrementalReader

/-- A reader, the journal object it was created by, and the directory. Another process may change
the directory between two polls. -/
structure Tail (cfg : Config) where
  reader : JournalIncrementalReader
  journal : TickJournal cfg
  disk : Disk

namespace Tail

variable {cfg : Config}

/-- `__quarantine_invalid_line`: the line goes to the quarantine file and the two counters go up.
The offset is moved by the caller. -/
def quarantineInvalidLine (tail : Tail cfg) (line reason : Str) : Tail cfg :=
  { tail with
    reader := { tail.reader with
      skippedInvalidLines := tail.reader.skippedInvalidLines + 1
      consecutiveParseFailures := tail.reader.consecutiveParseFailures + 1 }
    disk := tail.disk.quarantineLine line reason }

/-- `__skip_incomplete_trailing_fragment` of the line `line`, and the step past it, to where the
handle is now. -/
def skipIncompleteTrailingFragment (tail : Tail cfg) (handle : TextHandle) (line : TextLine)
    (reason : Str) : Tail cfg :=
  let tail := tail.quarantineInvalidLine line.text reason
  { tail with
    reader := tail.reader.clearIncompleteWaitState.advance (cfg.tell (handle.past line)) }

/-- `__abandon_incomplete_tip_at_cursor(force=True)`: a last line without `\n` at the cursor is
quarantined and passed, without any wait. -/
def abandonIncompleteTipAtCursor (tail : Tail cfg) : Except PyError (Tail cfg) :=
  let cleared := { tail with reader := tail.reader.clearIncompleteWaitState }
  match tail.disk.journalFile with
  | none => .ok cleared
  | some file =>
    let handle := TextHandle.seek file tail.reader.readOffset
    match handle.read.lines with
    | [] =>
      if handle.read.failed then
        .error (.unicodeDecodeError (cfg.unicodeErrorText (file.drop tail.reader.readOffset)))
      else .ok cleared
    | line :: _ =>
      if endsWithNewline line.text then .ok cleared
      else .ok (tail.skipIncompleteTrailingFragment handle line
        "incomplete_trailing_cold_attach".toList)

/-- `reset_from_seq`: an offset is chosen and aligned, an unfinished line there is given up, and
then the reader waits for `startSeq`. -/
def resetFromSeq (tail : Tail cfg) (startSeq : Nat) : Tail cfg × Except PyError Unit :=
  match tail.journal.byteOffsetForSeq tail.disk startSeq with
  | .error e => (tail, .error e)
  | .ok indexedOffset =>
    let readOffset := tail.reader.chooseResetOffset tail.disk.journalFile startSeq indexedOffset
    let reader := { tail.reader with readOffset }
    let tail := { tail with
      reader := reader.alignReadOffsetToLineBoundary tail.disk.journalFile }
    match tail.abandonIncompleteTipAtCursor with
    | .error e => (tail, .error e)
    | .ok tail =>
      ({ tail with
          reader := { tail.reader.markLogicalBol with
            nextSeq := startSeq
            consecutiveParseFailures := 0 } }, .ok ())

/-- `__resync_if_journal_rewritten`, at a file of `fileSize` bytes: an offset past the end is found
anew by the index of the meta file, and one in a file that has shrunk is aligned. -/
def resyncIfJournalRewritten (tail : Tail cfg) (fileSize : Nat) :
    Tail cfg × Except PyError Unit :=
  let shrunk := tail.reader.lastKnownSize.any fun previousSize => fileSize < previousSize
  if tail.reader.readOffset > fileSize then
    let tail := { tail with journal := tail.journal.reloadSeqIndexFromDisk tail.disk }
    match tail.resetFromSeq tail.reader.nextSeq with
    | (tail, .error e) => (tail, .error e)
    | (tail, .ok ()) =>
      let reader :=
        if tail.reader.readOffset > fileSize then
          { tail.reader with readOffset := fileSize }.clearIncompleteWaitState
        else tail.reader
      ({ tail with reader := { reader with lastKnownSize := some fileSize } }, .ok ())
  else
    let reader :=
      if shrunk then
        tail.reader.clearIncompleteWaitState.alignReadOffsetToLineBoundary tail.disk.journalFile
      else tail.reader
    ({ tail with reader := { reader with lastKnownSize := some fileSize } }, .ok ())

/-- `__parse_complete_line`: the record of the line at the cursor, if it is one. An invalid line
goes to the quarantine. -/
def parseCompleteLine (tail : Tail cfg) (line : Str) :
    Tail cfg × Except PyError (Option (Int × TradeTick cfg.toRuntime)) :=
  match parseJournalRecordLine cfg.toRuntime line with
  | .error e => (tail, .error e)
  | .ok none => (tail, .ok none)
  | .ok (some (.invalid reason text)) => (tail.quarantineInvalidLine text reason, .ok none)
  | .ok (some (.record seq tick)) =>
    ({ tail with reader := { tail.reader with consecutiveParseFailures := 0 } },
      .ok (some (seq, tick)))

/-- The loop of `__read_new_records` over the lines that the handle returns. A record that is not
before `nextSeq` has a sequence number that is not negative. -/
def readLines (now : Rat) : TextHandle → Tail cfg → List TextLine →
    Tail cfg × Except PyError (List (Rec cfg.toRuntime))
  | _, tail, [] => (tail, .ok [])
  | handle, tail, line :: lines =>
    if endsWithNewline line.text = false then
      let (policy, skip) :=
        tail.reader.incompletePolicy.shouldSkipNow now tail.reader.readOffset line.text
      let tail := { tail with reader := { tail.reader with incompletePolicy := policy } }
      if skip then
        readLines now (handle.past line) (tail.skipIncompleteTrailingFragment handle line
          (incompleteTrailingSkipReason line.text)) lines
      else (tail, .ok [])
    else
      match parseCompleteLine { tail with reader := tail.reader.clearIncompleteWaitState }
          line.text with
      | (tail, .error e) => (tail, .error e)
      | (tail, .ok parsed) =>
        let handle := handle.past line
        let tail := { tail with reader := tail.reader.advance (cfg.tell handle) }
        match parsed with
        | none => readLines now handle tail lines
        | some (seq, tick) =>
          if seq < tail.reader.nextSeq then readLines now handle tail lines
          else
            let (tail, records) := readLines now handle
              { tail with reader := { tail.reader with nextSeq := seq.toNat + 1 } } lines
            (tail, records.map ((seq.toNat, tick) :: ·))

/-- The loop of `__read_new_records` with the `readline` that ends it: there is no line any more, or
the handle cannot decode what follows. -/
def readHandle (tail : Tail cfg) (now : Rat) (handle : TextHandle) :
    Tail cfg × Except PyError (List (Rec cfg.toRuntime)) :=
  match tail.readLines now handle handle.read.lines with
  | (tail, .error e) => (tail, .error e)
  | (tail, .ok records) =>
    if handle.read.failed then
      (tail, .error (.unicodeDecodeError (cfg.unicodeErrorText (handle.file.drop handle.start))))
    else (tail, .ok records)

/-- `__read_new_records`: a file that is not there has no record, and one that is there is resynced
with, aligned to and read to its end. -/
def readNewRecords (tail : Tail cfg) (now : Rat) :
    Tail cfg × Except PyError (List (Rec cfg.toRuntime)) :=
  match tail.disk.journalFile with
  | none => (tail, .ok [])
  | some file =>
    match tail.resyncIfJournalRewritten file.length with
    | (tail, .error e) => (tail, .error e)
    | (tail, .ok ()) =>
      let tail := { tail with reader := tail.reader.alignReadOffsetToLineBoundary (some file) }
      tail.readHandle now (.seek file tail.reader.readOffset)

/-- `poll`: a start that the reader does not wait for makes it seek first. -/
def poll (tail : Tail cfg) (now : Rat) (startSeq : Nat) :
    Tail cfg × Except PyError (List (Rec cfg.toRuntime)) :=
  if startSeq ≠ tail.reader.nextSeq then
    match tail.resetFromSeq startSeq with
    | (tail, .error e) => (tail, .error e)
    | (tail, .ok ()) => tail.readNewRecords now
  else tail.readNewRecords now

/-- `force_rebind_from_seq`: unlike a reset it takes the offset of the index in any case, also where
that is behind the cursor. -/
def forceRebindFromSeq (tail : Tail cfg) (startSeq : Nat) : Tail cfg × Except PyError Unit :=
  match tail.journal.byteOffsetForSeq tail.disk startSeq with
  | .error e => (tail, .error e)
  | .ok indexedOffset =>
    let readOffset := match tail.disk.journalFile with
      | none => indexedOffset
      | some file => if indexedOffset > file.length then file.length else indexedOffset
    let reader := { tail.reader with readOffset, logicalBolOffset := none }
    let tail := { tail with
      reader := reader.clearIncompleteWaitState.alignReadOffsetToLineBoundary
        tail.disk.journalFile }
    match tail.abandonIncompleteTipAtCursor with
    | .error e => (tail, .error e)
    | .ok tail =>
      ({ tail with
          reader := { tail.reader.markLogicalBol with
            nextSeq := startSeq
            consecutiveParseFailures := 0 } }, .ok ())

end Tail

/-! ## Cold replay -/

variable {cfg : Config}

/-- `DEFAULT_INCOMPLETE_RECORD_MAX_WAIT_SECONDS`, how long a reader waits for the rest of a line. -/
def defaultIncompleteRecordMaxWaitSeconds : Rat := 2

/-- What a generator yields before it ends or raises. -/
structure Yielded (α : Type) where
  items : List α
  raised : Option PyError

/-- The loop of `tail_from`, which ends at the first poll that returns nothing; the `i`-th poll is
at `clock i`. `none` is out of `fuel`. -/
def tailFromLoop (clock : Nat → Rat) : Nat → Nat → Tail cfg → Nat →
    Option (Yielded (Rec cfg.toRuntime))
  | 0, _, _, _ => none
  | fuel + 1, i, tail, currentSeq =>
    match tail.poll (clock i) currentSeq with
    | (_, .error e) => some ⟨[], some e⟩
    | (_, .ok []) => some ⟨[], none⟩
    | (tail, .ok (record :: batch)) =>
      let last := ((record :: batch).getLast?.getD record).1
      (tailFromLoop clock fuel (i + 1) tail (last + 1)).map fun rest =>
        { rest with items := (record :: batch) ++ rest.items }

/-- `TickJournal.tail_from` with a reader of its own, and at most `fuel` polls. -/
def TickJournal.tailFrom (clock : Nat → Rat) (fuel : Nat) (journal : TickJournal cfg) (disk : Disk)
    (startSeq : Nat) : Option (Yielded (Rec cfg.toRuntime)) :=
  tailFromLoop clock fuel 0 ⟨.new defaultIncompleteRecordMaxWaitSeconds, journal, disk⟩ startSeq

end Leviathan
