import Leviathan.Journal.Tips

/-!
# The high-water mark

A store keeps, beside the tip of its payload, the highest tip that it has seen (`diskTipHighWater`).
`Coherent` is what the constructor establishes and every operation keeps: the mark is not below the
tip. Each operation of a coherent store raises both or leaves them (`Advances`).
-/

namespace Leviathan

variable {cfg : Config}

namespace MetaStore

/-- The high-water mark has seen the store's own tip. A new store is seeded so, and `set_latest_seq`
lifts the mark with the tip. -/
def Coherent (store : MetaStore cfg) : Prop := store.latestSeq ≤ store.diskTipHighWater

theorem Coherent.new (metaFile : Option MetaPayload) :
    (MetaStore.new metaFile : MetaStore cfg).Coherent := Nat.le_max_left _ _

theorem Coherent.memoryTip {store : MetaStore cfg} (h : store.Coherent) :
    store.memoryTip = store.diskTipHighWater := Nat.max_eq_right h

/-- Neither tip of the store is lowered, and the mark still covers the store's own tip. -/
structure Advances (store store' : MetaStore cfg) : Prop where
  latestSeq : store.latestSeq ≤ store'.latestSeq
  highWater : store.diskTipHighWater ≤ store'.diskTipHighWater
  coherent : store'.Coherent

/-- `set_latest_seq` takes the maximum with the present tip, so a smaller number changes nothing. -/
theorem setLatestSeq_advances (store : MetaStore cfg) (seq : Nat) :
    Advances store (store.setLatestSeq seq) := by
  have hmax : store.payload.latestSeq ≤ max store.payload.latestSeq seq := Nat.le_max_left _ _
  refine ⟨hmax, ?_, ?_⟩
  · simp only [setLatestSeq]
    split <;> omega
  · simp only [Coherent, setLatestSeq, latestSeq]
    split <;> omega

/-- A new index leaves both tips, even one with fewer entries after a compaction. -/
theorem replaceSeqIndex_advances {store : MetaStore cfg} (h : store.Coherent)
    (index : List (Nat × Nat)) : Advances store (store.replaceSeqIndex index) :=
  ⟨Nat.le_refl _, Nat.le_refl _, h⟩

/-- Both branches of `persist` end with one tip, which is not below the tip in memory. -/
theorem withTip_advances {store : MetaStore cfg} (h : store.Coherent) {tip : Nat}
    (ht : store.memoryTip ≤ tip) : Advances store (store.withTip tip) := by
  rw [h.memoryTip] at ht
  exact ⟨Nat.le_trans h ht, ht, Nat.le_refl _⟩

/-- `persist` adopts a larger tip of the file or keeps its own; it never takes over a smaller one.
-/
theorem persist_advances {store : MetaStore cfg} (h : store.Coherent)
    (metaFile : Option MetaPayload) : Advances store (store.persist metaFile).1 := by
  rw [persist_eq]
  split
  · exact withTip_advances h (Nat.le_of_lt ‹_›)
  · exact withTip_advances h (Nat.le_refl _)

/-- `persist` never takes back a tip that is published: it writes only over a file that is not
ahead. -/
theorem fileTip_persist (store : MetaStore cfg) (metaFile : Option MetaPayload) :
    fileTip metaFile ≤ fileTip (store.persist metaFile).2 := by
  rw [persist_eq]
  split
  · exact Nat.le_refl _
  · have hp : store.memoryTip ≤ store.published.tip := Nat.le_max_left _ _
    show fileTip metaFile ≤ store.published.tip
    omega

/-- A read answers with the new high-water mark, so what it has once reported it reports again. -/
theorem readLatestSeqFromDisk_advances {store : MetaStore cfg} (h : store.Coherent)
    (metaFile : Option MetaPayload) :
    Advances store (store.readLatestSeqFromDisk metaFile).1 ∧
      (store.readLatestSeqFromDisk metaFile).2 =
        (store.readLatestSeqFromDisk metaFile).1.diskTipHighWater := by
  have hle : store.diskTipHighWater ≤ max (loadPayload metaFile).tip store.diskTipHighWater :=
    Nat.le_max_right _ _
  have hw : (store.readLatestSeqFromDisk metaFile).1.diskTipHighWater =
      max (loadPayload metaFile).tip store.diskTipHighWater := by
    simp only [readLatestSeqFromDisk]
    split <;> omega
  exact ⟨⟨Nat.le_refl _, hw ▸ hle, Nat.le_trans h (hw ▸ hle)⟩, hw.symm⟩

/-- A reload clamps `latest_seq` at the high-water mark, so a file that went back cannot lower it.
-/
theorem reloadFromDisk_advances {store : MetaStore cfg} (h : store.Coherent)
    (metaFile : Option MetaPayload) : Advances store (store.reloadFromDisk metaFile) := by
  have hle : store.diskTipHighWater ≤ max (loadPayload metaFile).tip store.diskTipHighWater :=
    Nat.le_max_right _ _
  have hw : (store.reloadFromDisk metaFile).diskTipHighWater =
      max (loadPayload metaFile).tip store.diskTipHighWater := by
    simp only [reloadFromDisk]
    split <;> omega
  exact ⟨Nat.le_trans h hle, hw ▸ hle, Nat.le_of_eq hw.symm⟩

end MetaStore

namespace TickJournal

variable {journal : TickJournal cfg} (disk : Disk)

theorem persistLocked_coherent (h : journal.metaStore.Coherent) :
    (journal.persistLocked disk).1.metaStore.Coherent :=
  (MetaStore.persist_advances h disk.metaFile).coherent

theorem flushMeta_coherent (h : journal.metaStore.Coherent) :
    (journal.flushMeta disk).1.metaStore.Coherent := by
  unfold flushMeta
  split
  · exact persistLocked_coherent disk h
  · exact h

/-- An append goes through `set_latest_seq` and perhaps `persist`, and both keep the mark above the
tip. -/
theorem append_coherent (h : journal.metaStore.Coherent) (tick : TradeTick cfg.toRuntime) :
    (journal.append disk tick).1.metaStore.Coherent := by
  by_cases ha : journal.Accepts tick
  · obtain ⟨store, hs, he⟩ := append_accepts ha disk
    have hc : store.Coherent := by
      unfold MetaStore.Coherent
      rw [hs.latestSeq, hs.highWater]
      exact Nat.le_max_right _ _
    rw [he]
    let noted : TickJournal cfg := { journal with metaStore := store }
    rcases noteAppendLocked_cases noted (Disk.writeLine disk
      (recordBytes cfg.toRuntime (journal.latestSeq + 1, tick))) with ⟨n, hn⟩ | ⟨n, hn⟩
    · simp only [noted] at hn
      simp only [hn]
      exact persistLocked_coherent _ hc
    · simp only [noted] at hn
      simp only [hn]
      exact hc
  · obtain ⟨store, hp, hw, -, he⟩ := append_rejects ha disk
    rw [he]
    show store.payload.latestSeq ≤ store.diskTipHighWater
    rw [hp, hw]
    exact h

/-- The tip of any store moves with an accepted append, also where the file was ahead and its tip is
adopted. -/
theorem latestSeq_lt_append {tick : TradeTick cfg.toRuntime} (ha : journal.Accepts tick) :
    journal.latestSeq < (journal.append disk tick).1.latestSeq := by
  obtain ⟨store, hs, he⟩ := append_accepts ha disk
  have hlatest : journal.latestSeq < store.latestSeq := hs.latestSeq ▸ Nat.lt_succ_self _
  have hmemory : store.latestSeq ≤ store.memoryTip := Nat.le_max_left _ _
  rw [he]
  let noted : TickJournal cfg := { journal with metaStore := store }
  let written := Disk.writeLine disk (recordBytes cfg.toRuntime (journal.latestSeq + 1, tick))
  show journal.latestSeq < (noted.noteAppendLocked written).1.latestSeq
  rcases noteAppendLocked_cases noted written with ⟨n, hn⟩ | ⟨n, hn⟩
  · rw [hn]
    show journal.latestSeq < (store.persist written.metaFile).1.latestSeq
    rw [MetaStore.persist_eq]
    split
    · exact hlatest.trans_le (hmemory.trans (Nat.le_of_lt ‹_›))
    · exact hlatest.trans_le hmemory
  · rw [hn]
    exact hlatest

/-- A compaction leaves the store, or replaces its index and publishes it. The tip has no part in
it. -/
theorem compactBeforeSeq_store (journal : TickJournal cfg) (minRetainSeq : Nat) :
    (journal.compactBeforeSeq disk minRetainSeq).1 = journal ∨
      ∃ index, (journal.compactBeforeSeq disk minRetainSeq).1 =
        { journal with
          metaStore := ((journal.metaStore.replaceAndTrim index).persist disk.metaFile).1 } := by
  simp only [compactBeforeSeq, MetaStore.compactBeforeSeq]
  split
  · exact .inl rfl
  split
  · exact .inl rfl
  split
  · exact .inl rfl
  split
  · exact .inl rfl
  split
  · exact .inl rfl
  split
  · exact .inl rfl
  · exact .inr ⟨_, rfl⟩

theorem compactBeforeSeq_coherent (h : journal.metaStore.Coherent) (minRetainSeq : Nat) :
    (journal.compactBeforeSeq disk minRetainSeq).1.metaStore.Coherent := by
  rcases journal.compactBeforeSeq_store disk minRetainSeq with he | ⟨index, he⟩ <;> rw [he]
  · exact h
  · exact (MetaStore.persist_advances
      (MetaStore.replaceSeqIndex_advances h (trimIndex index)).coherent disk.metaFile).coherent

theorem reloadMetaFromDisk_coherent (h : journal.metaStore.Coherent) :
    (journal.reloadMetaFromDisk disk).metaStore.Coherent :=
  (MetaStore.reloadFromDisk_advances h disk.metaFile).coherent

end TickJournal

end Leviathan
