import Leviathan.Journal.IndexSound

/-!
# An instance that knows the tip

`Current journal disk`: no tip that the directory or the instance knows of is past the instance's
`latest_seq`. An instance that is current publishes whenever it persists, and it stays current
through its own appends, flushes and compactions: `append_current`, `flushMeta_current`,
`compactBeforeSeq_current`.
-/

namespace Leviathan

open Py

variable {cfg : Config}

namespace TickJournal

/-- The instance knows the tip of the directory, so its `persist` never finds a file that is ahead
of it. A single writer stays current; a second instance on the directory need not be. -/
def Current (journal : TickJournal cfg) (disk : Disk) : Prop :=
  journal.Bounded journal.latestSeq disk

/-- What a persist of a current instance does: it takes the branch of `persist` that rewrites the
file, with the index of its own store, and the tip and the windows stay as they were. -/
structure Publishes (store : MetaStore cfg) (journal : TickJournal cfg)
    (metaFile : Option MetaPayload) : Prop where
  latestSeq : journal.latestSeq = store.latestSeq
  seqIndex : journal.metaStore.seqIndex = store.seqIndex
  window : ∀ key, journal.metaStore.window key = store.window key
  fileIndex : (loadPayload metaFile).seqIndex = store.seqIndex

end TickJournal

namespace MetaStore

theorem Bounded.memoryTip_eq {store : MetaStore cfg} (h : store.Bounded store.latestSeq) :
    store.memoryTip = store.latestSeq :=
  Nat.le_antisymm h.memoryTip_le (Nat.le_max_left _ _)

/-- **A store that knows the tip is written.** The branch in which `persist` adopts the tip of the
file and returns without a write needs a file that is ahead. -/
theorem persist_current {store : MetaStore cfg} {metaFile : Option MetaPayload}
    (h : store.Bounded store.latestSeq) (hf : (loadPayload metaFile).Bounded store.latestSeq) :
    store.persist metaFile = (store.withTip store.latestSeq, some store.published) := by
  have hle := fileTip_le hf
  rw [persist_eq, h.memoryTip_eq, if_neg (Nat.not_lt.mpr hle)]

end MetaStore

namespace TickJournal

variable {journal : TickJournal cfg} {disk : Disk}

/-- An instance that has just been opened is current where no index entry of the file is past its
`latest_seq`: both tips of the store are then the file's. -/
theorem Current.new (h : (loadPayload disk.metaFile).Bounded (loadPayload disk.metaFile).latestSeq) :
    (TickJournal.new disk : TickJournal cfg).Current disk :=
  Bounded.new h

/-- A rejected append leaves the directory, the tips, the index and the windows. It may only leave
an empty bucket behind, which `get_or_create_bucket` makes before the duplicate test. -/
structure Rejected (journal : TickJournal cfg) (disk : Disk) (journal' : TickJournal cfg)
    (disk' : Disk) : Prop where
  disk : disk' = disk
  latestSeq : journal'.latestSeq = journal.latestSeq
  seqIndex : journal'.metaStore.seqIndex = journal.metaStore.seqIndex
  window : ∀ key, journal'.metaStore.window key = journal.metaStore.window key
  bounded : ∀ M, journal.metaStore.Bounded M → journal'.metaStore.Bounded M

/-- Both ways of an append to write nothing: the `ValueError` of a blank symbol and the early return
of a duplicate. -/
theorem append_rejected {tick : TradeTick cfg.toRuntime} (h : ¬journal.Accepts tick) (disk : Disk) :
    Rejected journal disk (journal.append disk tick).1 (journal.append disk tick).2.1 := by
  obtain ⟨store, hp, hw, hwin, he⟩ := append_rejects h disk
  rw [he]
  exact ⟨rfl, congrArg MetaPayload.latestSeq hp, congrArg MetaPayload.seqIndex hp, hwin,
    fun M hb => ⟨hp ▸ hb.1, hw ▸ hb.2⟩⟩

theorem Rejected.current {journal' : TickJournal cfg} {disk' : Disk}
    (h : Rejected journal disk journal' disk') (hc : journal.Current disk) :
    journal'.Current disk' := by
  unfold Current
  rw [h.latestSeq, h.disk]
  exact ⟨h.bounded _ hc.store, hc.file⟩

theorem persistLocked_current (h : journal.Current disk) :
    (journal.persistLocked disk).1.Current (journal.persistLocked disk).2 ∧
      Publishes journal.metaStore (journal.persistLocked disk).1
        (journal.persistLocked disk).2.metaFile := by
  have he : journal.metaStore.persist disk.metaFile =
      (journal.metaStore.withTip journal.latestSeq, some journal.metaStore.published) :=
    MetaStore.persist_current h.store h.file
  have hb := h.persistLocked
  simp only [persistLocked, he] at hb ⊢
  exact ⟨hb, rfl, rfl, fun _ => rfl, rfl⟩

/-- `flush_meta` publishes the store of a dirty instance, and returns `False` at once from a clean
one. -/
theorem flushMeta_current (h : journal.Current disk) :
    (journal.flushMeta disk).1.Current (journal.flushMeta disk).2.1 ∧
      (Publishes journal.metaStore (journal.flushMeta disk).1 (journal.flushMeta disk).2.1.metaFile ∨
        journal.flushMeta disk = (journal, disk, false)) := by
  by_cases hd : journal.metaDirty
  · have he : journal.flushMeta disk =
        ((journal.persistLocked disk).1, (journal.persistLocked disk).2, true) := by
      simp [flushMeta, hd]
    rw [he]
    exact ⟨(persistLocked_current h).1, .inl (persistLocked_current h).2⟩
  · have he : journal.flushMeta disk = (journal, disk, false) := by simp [flushMeta, hd]
    rw [he]
    exact ⟨h, .inr rfl⟩

/-- What an accepted append of a current instance leaves: one line more in the file, the next number
as the tip, the trade id in the window of its symbol, and a meta file that it has either published
or not touched. -/
structure Appended (journal : TickJournal cfg) (disk : Disk) (tick : TradeTick cfg.toRuntime)
    (journal' : TickJournal cfg) (disk' : Disk) : Prop where
  current : journal'.Current disk'
  latestSeq : journal'.latestSeq = journal.latestSeq + 1
  journalFile : disk'.journalFile = some (disk.journalFile.getD [] ++
    recordBytes cfg.toRuntime (journal.latestSeq + 1, tick))
  cursorFile : disk'.cursorFile = disk.cursorFile
  seqIndex : journal'.metaStore.seqIndex = (journal.metaStore.recordSeqIndex
    (journal.latestSeq + 1) (disk.journalFile.getD []).length).seqIndex
  window : ∀ key, journal'.metaStore.window key =
    if key = tickKeyOf tick then SymbolDedupBucket.pushWindow cfg.dedupWindow
      (journal.metaStore.window key) tick.fields.tradeId
    else journal.metaStore.window key
  fileIndex : disk'.metaFile = disk.metaFile ∨
    (loadPayload disk'.metaFile).seqIndex = journal'.metaStore.seqIndex

/-- **An accepted append of a current instance.** The durability policy then publishes at every
`META_PERSIST_INTERVAL`-th append, and marks the store dirty at the others. -/
theorem append_current (h : journal.Current disk) {tick : TradeTick cfg.toRuntime}
    (ha : journal.Accepts tick) :
    Appended journal disk tick (journal.append disk tick).1 (journal.append disk tick).2.1 := by
  obtain ⟨store, hs, he⟩ := append_accepts ha disk
  have hlatest : store.latestSeq = journal.latestSeq + 1 := hs.latestSeq
  have hstore : store.Bounded store.latestSeq := by
    rw [hlatest]
    exact (h.store.mono (Nat.le_succ _)).appended hs (Nat.le_refl _)
  have hfile : (loadPayload disk.metaFile).Bounded store.latestSeq := by
    rw [hlatest]
    exact h.file.mono (Nat.le_succ _)
  have hcur : Current { journal with metaStore := store }
      (Disk.writeLine disk (recordBytes cfg.toRuntime (journal.latestSeq + 1, tick))) :=
    ⟨hstore, hfile⟩
  rw [he]
  rcases noteAppendLocked_cases { journal with metaStore := store }
    (Disk.writeLine disk (recordBytes cfg.toRuntime (journal.latestSeq + 1, tick)))
    with ⟨n, hn⟩ | ⟨n, hn⟩
  · have hcur' : Current { journal with metaStore := store, appendCounter := n }
        (Disk.writeLine disk (recordBytes cfg.toRuntime (journal.latestSeq + 1, tick))) :=
      ⟨hcur.store, hcur.file⟩
    obtain ⟨hc, hp⟩ := persistLocked_current hcur'
    simp only [hn]
    exact ⟨hc, hp.latestSeq.trans hlatest, rfl, rfl, hp.seqIndex.trans hs.seqIndex,
      fun key => (hp.window key).trans (hs.window key), .inr (hp.fileIndex.trans hp.seqIndex.symm)⟩
  · simp only [hn]
    exact ⟨⟨hcur.store, hcur.file⟩, hlatest, rfl, rfl, hs.seqIndex, hs.window, .inl rfl⟩

/-- The store that a compaction publishes has no index entry past its tip, so the next reader does
not take a larger tip from the index. -/
theorem compactedStore_bounded (h : journal.Current disk) {rs : List (Rec cfg.toRuntime)}
    (hbound : ∀ r ∈ rs, r.1 ≤ journal.latestSeq) (minRetainSeq : Nat) :
    (journal.metaStore.replaceSeqIndex
      (MetaStore.compactedIndex cfg (since minRetainSeq rs))).Bounded journal.latestSeq := by
  refine ⟨⟨Nat.le_refl _, fun e he => ?_⟩, h.store.highWater⟩
  have he := List.mem_of_mem_drop he
  rcases List.mem_cons.mp he with rfl | he
  · exact Nat.zero_le _
  · obtain ⟨A, r, B, hAB, rfl⟩ := mem_rebuiltIndex he
    have hr : r ∈ since minRetainSeq rs := by rw [hAB]; simp
    exact hbound r (mem_since.mp hr).1

/-- A compaction of a current instance that drops a record publishes the index of the new file, and
the tip stays although records are gone. -/
theorem compactBeforeSeq_current (h : journal.Current disk) {rs : List (Rec cfg.toRuntime)}
    (hfile : disk.Holds rs) {minRetainSeq : Nat}
    (hdrop : ¬(minRetainSeq ≤ 1 ∨ since minRetainSeq rs = rs))
    (hbound : ∀ r ∈ rs, r.1 ≤ journal.latestSeq) :
    let after := journal.compactBeforeSeq disk minRetainSeq
    after.1.Current after.2.1 ∧
      after.2.1.journalFile = some (journalBytes (since minRetainSeq rs)) ∧
      after.2.1.cursorFile = disk.cursorFile ∧
      Publishes (journal.metaStore.replaceSeqIndex
        (MetaStore.compactedIndex cfg (since minRetainSeq rs))) after.1 after.2.1.metaFile := by
  let store := journal.metaStore.replaceSeqIndex
    (MetaStore.compactedIndex cfg (since minRetainSeq rs))
  have hstore : store.Bounded store.latestSeq := compactedStore_bounded h hbound minRetainSeq
  have he := MetaStore.persist_current hstore h.file
  have hb := hstore.persist h.file
  have hc := MetaStore.compactBeforeSeq_records journal.metaStore hfile minRetainSeq
  rw [if_neg hdrop] at hc
  simp only [compactBeforeSeq, hc]
  rw [he] at hb ⊢
  exact ⟨⟨hb.1, hb.2⟩, trivial, trivial, rfl, rfl, fun _ => rfl, rfl⟩

end TickJournal

end Leviathan
