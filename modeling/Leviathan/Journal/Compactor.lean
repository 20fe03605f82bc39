import Leviathan.Journal.SeqIndex

/-!
# Compaction

`compactBeforeSeq` rewrites the journal without the records before a watermark and rebuilds the
index of the new file. Invalid lines go to the quarantine file.
-/

namespace Leviathan

open Py

/-- A line of `tick_journal.quarantine.jsonl`: the rejected text and the reason for it. The time
stamp is left out, as nothing reads it back. -/
structure QuarantineLine where
  reason : Str
  line : Str
  deriving DecidableEq

/-- The checkpoint directory with the files that a journal has in it. A file that is not there is
`none`, which is not the same as an empty one. -/
structure Disk where
  /-- `tick_journal.jsonl` -/
  journalFile : Option Bytes
  /-- `tick_journal.meta.json` -/
  metaFile : Option MetaPayload
  /-- `tick_journal.cursor.json` -/
  cursorFile : Option Nat
  /-- `tick_journal.quarantine.jsonl` -/
  quarantineFile : List QuarantineLine

/-- An empty directory. -/
def Disk.empty : Disk := ⟨none, none, none, []⟩

/-- `append_quarantine_line`. The file is only ever appended to, and the journal itself is not
touched. -/
def Disk.quarantineLine (disk : Disk) (line reason : Str) : Disk :=
  { disk with quarantineFile := disk.quarantineFile ++ [⟨strip reason, line⟩] }

/-- What the first pass of `compact_before_seq` collects before anything is written: the lines to
keep, the two counters and the quarantined lines. -/
structure CompactPass where
  retained : List Str
  removed : Nat
  skippedInvalid : Nat
  quarantined : List QuarantineLine
  /-- an exception that the pass does not catch -/
  raised : Option PyError

/-- The first pass over the lines of the journal. A blank line is skipped, a line without a readable
number is quarantined and counted, one below the watermark is counted as removed, and any other is
kept as `dumps` writes it again. -/
def compactPass (rt : Runtime) (minRetainSeq : Nat) : List Str → CompactPass
  | [] => ⟨[], 0, 0, [], none⟩
  | line :: lines =>
    let stripped := strip line
    if stripped = [] then compactPass rt minRetainSeq lines
    else match loadRecordSeq rt stripped with
      | .error e =>
        match e.caught? with
        | none => ⟨[], 0, 0, [], some e⟩
        | some text =>
          let pass := compactPass rt minRetainSeq lines
          { pass with
            skippedInvalid := pass.skippedInvalid + 1
            quarantined := ⟨strip ("compact_skip: ".toList ++ text), stripped⟩ :: pass.quarantined }
      | .ok (record, seq) =>
        let pass := compactPass rt minRetainSeq lines
        if seq < minRetainSeq then { pass with removed := pass.removed + 1 }
        else { pass with retained := dumps (.obj record) :: pass.retained }

/-- The second pass: the bytes of the new file, and the index entries of its lines. `first` holds at
the first line, which always gets an entry; `byteOffset` is where the line begins. -/
def rebuildJournal (cfg : Config) :
    Bool → Nat → List Str → Except PyError (Bytes × List (Nat × Nat))
  | _, _, [] => .ok ([], [])
  | first, byteOffset, line :: lines => do
    let (_, seq) ← loadRecordSeq cfg.toRuntime line
    let bytes := encodeUtf8 (line ++ ['\n'])
    let (rest, index) ← rebuildJournal cfg false (byteOffset + bytes.length) lines
    if first ∨ seq % cfg.seqIndexInterval = 0 then
      return (bytes ++ rest, (seq.toNat, byteOffset) :: index)
    else return (bytes ++ rest, index)

/-- `TickJournalCompactor.compact_before_seq`: the store and the directory after it, and the number
of the records it removed. The journal is replaced before the new index is published, and nothing is
rewritten when the first pass has dropped no line. -/
def MetaStore.compactBeforeSeq {cfg : Config} (store : MetaStore cfg) (disk : Disk)
    (minRetainSeq : Nat) : MetaStore cfg × Disk × Except PyError Nat :=
  if minRetainSeq ≤ 1 then (store, disk, .ok 0)
  else match disk.journalFile with
    | none => (store, disk, .ok 0)
    | some file =>
      -- the lines before a byte that is no UTF-8 are gone through, and then the pass raises
      let read := textRead file
      let pass := compactPass cfg.toRuntime minRetainSeq (read.lines.map TextLine.text)
      let disk := { disk with quarantineFile := disk.quarantineFile ++ pass.quarantined }
      match pass.raised with
      | some e => (store, disk, .error e)
      | none =>
        if read.failed then
          (store, disk, .error (.unicodeDecodeError (cfg.unicodeErrorText file)))
        else if pass.removed = 0 ∧ pass.skippedInvalid = 0 then (store, disk, .ok 0)
        else match rebuildJournal cfg true 0 pass.retained with
          | .error e => (store, disk, .error e)
          | .ok (bytes, index) =>
            let (store, metaFile) := (store.replaceAndTrim ((0, 0) :: index)).persist disk.metaFile
            (store, { disk with journalFile := some bytes, metaFile }, .ok pass.removed)

/-- `TickJournalCompactor.maybe_compact`: the watermark stays `lag_seq` behind the cursor, and a
cursor that has not come that far makes the call do nothing. -/
def MetaStore.maybeCompact {cfg : Config} (store : MetaStore cfg) (disk : Disk)
    (lastProcessedSeq lagSeq : Nat) : MetaStore cfg × Disk × Except PyError Nat :=
  if lagSeq = 0 then (store, disk, .error (.valueError "lag_seq must be positive".toList))
  else if lastProcessedSeq ≤ lagSeq then (store, disk, .ok 0)
  else store.compactBeforeSeq disk (max 1 (lastProcessedSeq - lagSeq))

end Leviathan
