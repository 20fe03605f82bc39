import Leviathan.Journal.Current

/-!
# Calls whose I/O fails

`appendFaulty`, `flushMetaFaulty`, `ensureLatestSeqAtLeastFaulty` and `compactBeforeSeqFaulty` are
the calls with a place where the operating system raises an `OSError`. Nothing in them is rolled
back. Without a fault they are the calls themselves.
-/

namespace Leviathan

open Py

variable {cfg : Config}

/-- Where a `persist` raises: in reading the file that it compares with, or in writing the new one.
-/
inductive PersistFault where
  /-- before it has compared the tips -/
  | beforeTips
  /-- in `atomic_write_json`, before the file is replaced -/
  | inWrite
  deriving DecidableEq

/-- Where the write of a line raises: before the file is open, or when some of its bytes are in the
file. -/
inductive WriteFault where
  | inOpen
  /-- in `write`, `flush`, `fsync` or `close`, when the first `count` bytes have reached the file -/
  | afterBytes (count : Nat)
  deriving DecidableEq

/-- `persist`: the store and the file after it, and whether it raised. `atomic_write_json` replaces
the file or leaves it, so a fault never leaves half of one. -/
def MetaStore.persistFaulty (fault : Option PersistFault) (store : MetaStore cfg)
    (metaFile : Option MetaPayload) : MetaStore cfg × Option MetaPayload × Bool :=
  match fault with
  | none => ((store.persist metaFile).1, (store.persist metaFile).2, false)
  | some .beforeTips => (store, metaFile, true)
  | some .inWrite =>
    -- a file that is ahead is adopted without a write
    ((store.persist metaFile).1, metaFile, fileTip metaFile ≤ store.memoryTip)

namespace TickJournal

def persistLockedFaulty (fault : Option PersistFault) (journal : TickJournal cfg) (disk : Disk) :
    TickJournal cfg × Disk × Bool :=
  let (metaStore, metaFile, raised) := journal.metaStore.persistFaulty fault disk.metaFile
  ({ journal with metaStore, metaDirty := if raised then journal.metaDirty else false },
    { disk with metaFile }, raised)

def noteAppendLockedFaulty (fault : Option PersistFault) (journal : TickJournal cfg)
    (disk : Disk) : TickJournal cfg × Disk × Bool :=
  let journal := { journal with appendCounter := journal.appendCounter + 1 }
  if journal.appendCounter % metaPersistInterval = 0 then journal.persistLockedFaulty fault disk
  else ({ journal with metaDirty := true }, disk, false)

/-- `flush_meta`, `flush_meta_if_dirty`, and the callback of the idle timer, which catches what
`persist` raises. The flag stays set, since `persist_locked` clears it last. -/
def flushMetaFaulty (fault : Option PersistFault) (journal : TickJournal cfg) (disk : Disk) :
    TickJournal cfg × Disk × Bool :=
  if journal.metaDirty then journal.persistLockedFaulty fault disk else (journal, disk, false)

def ensureLatestSeqAtLeastFaulty (fault : Option PersistFault) (journal : TickJournal cfg)
    (disk : Disk) (seq : Nat) : TickJournal cfg × Disk × Bool :=
  let (metaStore, advanced) := journal.metaStore.ensureLatestSeqAtLeast seq
  if advanced then persistLockedFaulty fault { journal with metaStore } disk
  else ({ journal with metaStore }, disk, false)

/-- `append`; the answer is `none` where an `OSError` ends the call. A write fault comes before the
bucket, the tip and the index, a persist fault after them. -/
def appendFaulty (writeFault : Option WriteFault) (persistFault : Option PersistFault)
    (journal : TickJournal cfg) (disk : Disk) (tick : TradeTick cfg.toRuntime) :
    TickJournal cfg × Disk × Option (Except PyError Nat) :=
  let symbol := upperStr cfg.toRuntime tick.fields.instId
  match journal.metaStore.getOrCreateBucket symbol with
  | .error e => (journal, disk, some (.error e))
  | .ok (metaStore, bucket) =>
    if bucket.contains tick.fields.tradeId then
      ({ journal with metaStore }, disk, some (.ok metaStore.latestSeq))
    else
      let nextSeq := metaStore.latestSeq + 1
      let byteOffset := (disk.journalFile.getD []).length
      let encoded := recordBytes cfg.toRuntime (nextSeq, tick)
      match writeFault with
      | some .inOpen => ({ journal with metaStore }, disk, none)
      | some (.afterBytes count) =>
        ({ journal with metaStore }, Disk.writeLine disk (encoded.take count), none)
      | none =>
        let metaStore := metaStore.addToBucket symbol tick.fields.tradeId bucket
        let metaStore := (metaStore.setLatestSeq nextSeq).recordSeqIndex nextSeq byteOffset
        let (journal, disk, raised) := noteAppendLockedFaulty persistFault
          { journal with metaStore } (Disk.writeLine disk encoded)
        (journal, disk, if raised then none else some (.ok nextSeq))

end TickJournal

/-- `compact_before_seq`; where `tempRaises`, the write of the temporary file raises, which is
before `os.replace`. The answer is `none` where an `OSError` ends the call. -/
def MetaStore.compactBeforeSeqFaulty (tempRaises : Bool) (store : MetaStore cfg) (disk : Disk)
    (minRetainSeq : Nat) : MetaStore cfg × Disk × Option (Except PyError Nat) :=
  if minRetainSeq ≤ 1 then (store, disk, some (.ok 0))
  else match disk.journalFile with
    | none => (store, disk, some (.ok 0))
    | some file =>
      let read := textRead file
      let pass := compactPass cfg.toRuntime minRetainSeq (read.lines.map TextLine.text)
      let disk := { disk with quarantineFile := disk.quarantineFile ++ pass.quarantined }
      match pass.raised with
      | some e => (store, disk, some (.error e))
      | none =>
        if read.failed then
          (store, disk, some (.error (.unicodeDecodeError (cfg.unicodeErrorText file))))
        else if pass.removed = 0 ∧ pass.skippedInvalid = 0 then (store, disk, some (.ok 0))
        else if tempRaises then (store, disk, none)
        else match rebuildJournal cfg true 0 pass.retained with
          | .error e => (store, disk, some (.error e))
          | .ok (bytes, index) =>
            let (store, metaFile) := (store.replaceAndTrim ((0, 0) :: index)).persist disk.metaFile
            (store, { disk with journalFile := some bytes, metaFile }, some (.ok pass.removed))

/-! ## Without a fault -/

namespace MetaStore

theorem compactBeforeSeqFaulty_false (store : MetaStore cfg) (disk : Disk) (minRetainSeq : Nat) :
    store.compactBeforeSeqFaulty false disk minRetainSeq =
      ((store.compactBeforeSeq disk minRetainSeq).1, (store.compactBeforeSeq disk minRetainSeq).2.1,
        some (store.compactBeforeSeq disk minRetainSeq).2.2) := by
  unfold compactBeforeSeqFaulty compactBeforeSeq
  by_cases hmin : minRetainSeq ≤ 1
  · simp only [if_pos hmin]
  simp only [if_neg hmin]
  cases disk.journalFile with
  | none => rfl
  | some file =>
    simp only [Bool.false_eq_true, ↓reduceIte]
    cases (compactPass cfg.toRuntime minRetainSeq
        ((textRead file).lines.map TextLine.text)).raised with
    | some e => rfl
    | none =>
      simp only
      split
      · rfl
      · split
        · rfl
        · cases rebuildJournal cfg true 0 (compactPass cfg.toRuntime minRetainSeq
            ((textRead file).lines.map TextLine.text)).retained <;> rfl

/-- A compaction whose temporary file is not written leaves the store and the journal; the lines
that it quarantined stay quarantined. -/
theorem compactBeforeSeqFaulty_true (store : MetaStore cfg) (disk : Disk) (minRetainSeq : Nat) :
    (store.compactBeforeSeqFaulty true disk minRetainSeq).1 = store ∧
      (store.compactBeforeSeqFaulty true disk minRetainSeq).2.1.journalFile = disk.journalFile := by
  unfold compactBeforeSeqFaulty
  split
  · exact ⟨rfl, rfl⟩
  split
  · exact ⟨rfl, rfl⟩
  simp only [↓reduceIte]
  split
  · exact ⟨rfl, rfl⟩
  split
  · exact ⟨rfl, rfl⟩
  split
  · exact ⟨rfl, rfl⟩
  · exact ⟨rfl, rfl⟩

end MetaStore

namespace TickJournal

variable {journal : TickJournal cfg} {disk : Disk}

theorem persistLockedFaulty_none : journal.persistLockedFaulty none disk =
    ((journal.persistLocked disk).1, (journal.persistLocked disk).2, false) := rfl

theorem noteAppendLockedFaulty_none : journal.noteAppendLockedFaulty none disk =
    ((journal.noteAppendLocked disk).1, (journal.noteAppendLocked disk).2, false) := by
  simp only [noteAppendLockedFaulty, noteAppendLocked]
  split <;> rfl

theorem flushMetaFaulty_none : journal.flushMetaFaulty none disk =
    ((journal.flushMeta disk).1, (journal.flushMeta disk).2.1, false) := by
  simp only [flushMetaFaulty, flushMeta]
  split <;> rfl

theorem ensureLatestSeqAtLeastFaulty_none (seq : Nat) :
    journal.ensureLatestSeqAtLeastFaulty none disk seq =
      ((journal.ensureLatestSeqAtLeast disk seq).1, (journal.ensureLatestSeqAtLeast disk seq).2.1,
        false) := by
  simp only [ensureLatestSeqAtLeastFaulty, ensureLatestSeqAtLeast]
  split <;> rfl

/-- **Without a fault, it is `append`**, so what is proved of faulty runs speaks of the plain ones
too. -/
theorem appendFaulty_none (tick : TradeTick cfg.toRuntime) :
    journal.appendFaulty none none disk tick =
      ((journal.append disk tick).1, (journal.append disk tick).2.1,
        some (journal.append disk tick).2.2) := by
  cases hb : journal.metaStore.getOrCreateBucket (upperStr cfg.toRuntime tick.fields.instId) with
  | error e => simp only [appendFaulty, append, hb]
  | ok found =>
    simp only [appendFaulty, append, hb, appendAccepted, noteAppendLockedFaulty_none]
    split <;> rfl

/-! ## Appends -/

/-- A rejected append does no I/O, so no fault can meet it. -/
theorem appendFaulty_rejects {tick : TradeTick cfg.toRuntime} (h : ¬journal.Accepts tick)
    (writeFault : Option WriteFault) (persistFault : Option PersistFault) :
    journal.appendFaulty writeFault persistFault disk tick =
      ((journal.append disk tick).1, disk, some (journal.append disk tick).2.2) := by
  by_cases hblank : BlankSymbol tick
  · have hb : strip (upperStr cfg.toRuntime tick.fields.instId) = [] := hblank
    simp only [appendFaulty, append, MetaStore.getOrCreateBucket, hb, ↓reduceIte]
  · obtain ⟨bucket, hb, horder⟩ := MetaStore.getOrCreateBucket_eq journal.metaStore hblank
    have hold : bucket.contains tick.fields.tradeId = true := by
      rw [SymbolDedupBucket.contains_iff, horder]
      exact not_not.mp fun hn => h ⟨hblank, hn⟩
    simp only [appendFaulty, append, hb, hold, ↓reduceIte]

/-- **An accepted append** without a write fault writes its line; its store goes to the durability
policy, where `persist` may still raise. -/
theorem appendFaulty_accepts {tick : TradeTick cfg.toRuntime} (h : journal.Accepts tick)
    (fault : Option PersistFault) :
    ∃ store, AppendedStore journal.metaStore tick (disk.journalFile.getD []).length store ∧
      journal.appendFaulty none fault disk tick =
        let after := noteAppendLockedFaulty fault { journal with metaStore := store }
          (Disk.writeLine disk (recordBytes cfg.toRuntime (journal.latestSeq + 1, tick)))
        (after.1, after.2.1, if after.2.2 then none else some (.ok (journal.latestSeq + 1))) := by
  obtain ⟨metaStore, bucket, hb, hc, hlatest, hstore⟩ :=
    append_stores h (disk.journalFile.getD []).length
  refine ⟨_, hstore, ?_⟩
  simp only [appendFaulty, hb, hc, Bool.false_eq_true, ↓reduceIte, hlatest]

/-- **A write fault** leaves the start of a line in the file and the journal object as it was, but
for the bucket of the symbol. -/
theorem appendFaulty_writeFault {tick : TradeTick cfg.toRuntime} (h : journal.Accepts tick)
    (writeFault : WriteFault) (fault : Option PersistFault) :
    ∃ store, store.payload = journal.metaStore.payload ∧
      store.diskTipHighWater = journal.metaStore.diskTipHighWater ∧
      (∀ key, store.window key = journal.metaStore.window key) ∧
      journal.appendFaulty (some writeFault) fault disk tick =
        ({ journal with metaStore := store },
          match writeFault with
          | .inOpen => disk
          | .afterBytes count => Disk.writeLine disk
            ((recordBytes cfg.toRuntime (journal.latestSeq + 1, tick)).take count), none) := by
  obtain ⟨hblank, hnew⟩ := h
  obtain ⟨bucket, hb, horder⟩ := MetaStore.getOrCreateBucket_eq journal.metaStore hblank
  have hc : bucket.contains tick.fields.tradeId = false := by
    rw [← Bool.not_eq_true, SymbolDedupBucket.contains_iff, horder]
    exact hnew
  refine ⟨journal.metaStore.withBucket (tickKeyOf tick), rfl, rfl,
    MetaStore.window_withBucket _ _, ?_⟩
  cases writeFault <;>
    simp only [appendFaulty, hb, hc, Bool.false_eq_true, ↓reduceIte] <;> rfl

/-! ## Persists -/

/-- **A persist of a current instance** publishes its store, or raises and leaves the file and the
flag. -/
theorem persistLockedFaulty_current (h : journal.Current disk) (fault : Option PersistFault) :
    let after := journal.persistLockedFaulty fault disk
    after.1.Current after.2.1 ∧ after.1.latestSeq = journal.latestSeq ∧
      (fault = none ∧ after.1.metaDirty = false ∧
          (loadPayload after.2.1.metaFile).latestSeq = journal.latestSeq ∧
          MetaStore.fileTip after.2.1.metaFile = journal.latestSeq ∨
        fault ≠ none ∧ after.1.metaDirty = journal.metaDirty ∧
          after.2.1.metaFile = disk.metaFile) := by
  have he := MetaStore.persist_current h.store h.file
  have hle : MetaStore.fileTip disk.metaFile ≤ journal.metaStore.memoryTip := by
    rw [h.store.memoryTip_eq]
    exact fileTip_le h.file
  have htip : Bounded journal.latestSeq
      { journal with metaStore := journal.metaStore.withTip journal.latestSeq } disk :=
    ⟨h.store.withTip (Nat.le_refl _), h.file⟩
  cases fault with
  | none =>
    obtain ⟨hc, -⟩ := persistLocked_current h
    have hpub : journal.metaStore.published.Bounded journal.latestSeq :=
      ⟨Nat.le_of_eq h.store.memoryTip_eq, h.store.payload.seqIndex⟩
    have hfile : (journal.persistLocked disk).2.metaFile = some journal.metaStore.published := by
      simp only [persistLocked, he]
    refine ⟨hc, ?_, .inl ⟨rfl, rfl, ?_, ?_⟩⟩
    · simp only [persistLockedFaulty_none, persistLocked, he]
      rfl
    · rw [persistLockedFaulty_none, hfile]
      exact h.store.memoryTip_eq
    · rw [persistLockedFaulty_none, hfile]
      refine Nat.le_antisymm hpub.tip_le ?_
      exact Nat.le_trans (Nat.le_of_eq h.store.memoryTip_eq.symm) (Nat.le_max_left _ _)
  | some fault =>
    cases fault with
    | beforeTips => exact ⟨h, rfl, .inr ⟨Option.some_ne_none _, rfl, rfl⟩⟩
    | inWrite =>
      simp only [persistLockedFaulty, MetaStore.persistFaulty, he, hle, decide_true, ↓reduceIte]
      exact ⟨htip, rfl, .inr ⟨Option.some_ne_none _, trivial, trivial⟩⟩

end TickJournal

end Leviathan
