import Leviathan.Journal.Compactor

/-!
# `TickJournal`

One process's journal: its metadata store and the state of its durability policy. Each operation
takes the directory and gives it back; the file lock makes an operation one step.

* `append`: the duplicate test, the new line, and the interval persist.
* `flushMeta`: the persist of a dirty store, also what the idle timer calls.
* `ensureLatestSeqAtLeast`, `compactBeforeSeq`, `maybeCompact`: the operations that an instance
  which never appends can reach `persist` by.
-/

namespace Leviathan

open Py

/-- `META_PERSIST_INTERVAL`: how many appends may pass before the tip is published. -/
def metaPersistInterval : Nat := 50

/-- `TickJournal`, with the counter and the flag of its `TickJournalMetaDurability`. The locks are
not part of it: an operation here is one that holds them. -/
structure TickJournal (cfg : Config) where
  metaStore : MetaStore cfg
  appendCounter : Nat
  metaDirty : Bool

namespace TickJournal

variable {cfg : Config}

/-- `TickJournal(checkpoint_dir)`: the store is loaded from the meta file, and nothing is dirty yet.
-/
def new (disk : Disk) : TickJournal cfg := ⟨.new disk.metaFile, 0, false⟩

/-! ## Durability of the metadata -/

/-- `TickJournalMetaDurability.persist_locked`: the store is persisted, then the dirty flag is
cleared. The store may have adopted the tip of the file instead of writing. -/
def persistLocked (journal : TickJournal cfg) (disk : Disk) : TickJournal cfg × Disk :=
  let (metaStore, metaFile) := journal.metaStore.persist disk.metaFile
  ({ journal with metaStore, metaDirty := false }, { disk with metaFile })

/-- `TickJournalMetaDurability.note_append_locked`: every `META_PERSIST_INTERVAL`-th append of this
instance persists, any other marks the metadata dirty. -/
def noteAppendLocked (journal : TickJournal cfg) (disk : Disk) : TickJournal cfg × Disk :=
  let journal := { journal with appendCounter := journal.appendCounter + 1 }
  if journal.appendCounter % metaPersistInterval = 0 then journal.persistLocked disk
  else ({ journal with metaDirty := true }, disk)

/-- `flush_meta`, `flush_meta_if_dirty` and the callback of the idle timer: only an instance with a
dirty flag persists. The result says whether it did. -/
def flushMeta (journal : TickJournal cfg) (disk : Disk) : TickJournal cfg × Disk × Bool :=
  if journal.metaDirty then
    let (journal, disk) := journal.persistLocked disk
    (journal, disk, true)
  else (journal, disk, false)

/-! ## Appends -/

/-- The line of an accepted tick is written and synced, to a file that `open(.., "a")` makes if
there is none. -/
def Disk.writeLine (disk : Disk) (bytes : Bytes) : Disk :=
  { disk with journalFile := some (disk.journalFile.getD [] ++ bytes) }

/-- The part of `append` after the duplicate test: the line is written first, then the bucket, the
tip and the index get it, and the durability policy acts last. -/
def appendAccepted (journal : TickJournal cfg) (disk : Disk) (tick : TradeTick cfg.toRuntime)
    (bucket : SymbolDedupBucket cfg.dedupWindow) : TickJournal cfg × Disk × Nat :=
  let nextSeq := journal.metaStore.latestSeq + 1
  let byteOffset := (disk.journalFile.getD []).length
  let disk := Disk.writeLine disk (recordBytes cfg.toRuntime (nextSeq, tick))
  let metaStore := journal.metaStore.addToBucket (upperStr cfg.toRuntime tick.fields.instId)
    tick.fields.tradeId bucket
  let metaStore := (metaStore.setLatestSeq nextSeq).recordSeqIndex nextSeq byteOffset
  let (journal, disk) := noteAppendLocked { journal with metaStore } disk
  (journal, disk, nextSeq)

/-- `TickJournal.append`: the number of the tick, or the present tip for a trade id that is still in
the window of its symbol. A blank symbol raises before anything is written. -/
def append (journal : TickJournal cfg) (disk : Disk) (tick : TradeTick cfg.toRuntime) :
    TickJournal cfg × Disk × Except PyError Nat :=
  let symbol := upperStr cfg.toRuntime tick.fields.instId
  match journal.metaStore.getOrCreateBucket symbol with
  | .error e => (journal, disk, .error e)
  | .ok (metaStore, bucket) =>
    if bucket.contains tick.fields.tradeId then
      ({ journal with metaStore }, disk, .ok metaStore.latestSeq)
    else
      let (journal, disk, seq) := appendAccepted { journal with metaStore } disk tick bucket
      (journal, disk, .ok seq)

/-! ## The other operations -/

def latestSeq (journal : TickJournal cfg) : Nat := journal.metaStore.latestSeq

def byteOffsetForSeq (journal : TickJournal cfg) (disk : Disk) (startSeq : Nat) :
    Except PyError Nat :=
  journal.metaStore.byteOffsetForSeq disk.journalFile startSeq

def reloadSeqIndexFromDisk (journal : TickJournal cfg) (disk : Disk) : TickJournal cfg :=
  { journal with metaStore := journal.metaStore.reloadSeqIndexFromDisk disk.metaFile }

def reloadMetaFromDisk (journal : TickJournal cfg) (disk : Disk) : TickJournal cfg :=
  { journal with metaStore := journal.metaStore.reloadFromDisk disk.metaFile }

def readLatestSeqFromDisk (journal : TickJournal cfg) (disk : Disk) : TickJournal cfg × Nat :=
  let (metaStore, tip) := journal.metaStore.readLatestSeqFromDisk disk.metaFile
  ({ journal with metaStore }, tip)

/-- The tip is advanced to `seq` and published at once; a `seq` that is not ahead writes nothing and
gives `False`. -/
def ensureLatestSeqAtLeast (journal : TickJournal cfg) (disk : Disk) (seq : Nat) :
    TickJournal cfg × Disk × Bool :=
  let (metaStore, advanced) := journal.metaStore.ensureLatestSeqAtLeast seq
  if advanced then
    let (journal, disk) := persistLocked { journal with metaStore } disk
    (journal, disk, true)
  else ({ journal with metaStore }, disk, false)

/-- `load_cursor().last_processed_seq`, which is 0 where no cursor was ever saved. -/
def loadCursor (disk : Disk) : Nat := disk.cursorFile.getD 0

/-- `save_cursor`: the file is replaced as a whole, so the cursor may also go back. -/
def saveCursor (disk : Disk) (lastProcessedSeq : Nat) : Disk :=
  { disk with cursorFile := some lastProcessedSeq }

def compactBeforeSeq (journal : TickJournal cfg) (disk : Disk) (minRetainSeq : Nat) :
    TickJournal cfg × Disk × Except PyError Nat :=
  let (metaStore, disk, removed) := journal.metaStore.compactBeforeSeq disk minRetainSeq
  ({ journal with metaStore }, disk, removed)

def maybeCompact (journal : TickJournal cfg) (disk : Disk) (lagSeq : Nat) :
    TickJournal cfg × Disk × Except PyError Nat :=
  let (metaStore, disk, removed) := journal.metaStore.maybeCompact disk (loadCursor disk) lagSeq
  ({ journal with metaStore }, disk, removed)

end TickJournal

end Leviathan
