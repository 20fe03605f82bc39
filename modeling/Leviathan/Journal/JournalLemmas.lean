import Leviathan.Journal.Lines
import Leviathan.Journal.TickJournal

/-!
# What each operation of a journal does

* `append_accepts`, `append_rejects`: the two outcomes of `append`, told apart by `Accepts`.
* `noteAppendLocked_cases`, `persist_cases`: the metadata is published, adopted or left dirty.
* `compactBeforeSeq_records`: compaction of a file of records keeps the records from the watermark
  on, byte for byte.
-/

namespace Leviathan

open Py

variable {cfg : Config}

/-- The journal of the directory holds the lines of the records `rs` and nothing else. A directory
without the file holds no record. -/
def Disk.Holds (disk : Disk) (rs : List (Rec cfg.toRuntime)) : Prop :=
  disk.journalFile = none ∧ rs = [] ∨ disk.journalFile = some (journalBytes rs)

theorem Disk.Holds.getD {disk : Disk} {rs : List (Rec cfg.toRuntime)} (h : disk.Holds rs) :
    disk.journalFile.getD [] = journalBytes rs := by
  rcases h with ⟨h, rfl⟩ | h <;> simp [h]

theorem Disk.Holds.congr {disk disk' : Disk} {rs : List (Rec cfg.toRuntime)} (h : disk.Holds rs)
    (he : disk'.journalFile = disk.journalFile) : disk'.Holds rs := by
  unfold Disk.Holds
  rw [he]
  exact h

/-! ## Windows -/

namespace SymbolDedupBucket

variable {maxSize : Nat}

/-- A window of `n` trade ids after one more: the oldest id leaves a full one, as `popleft` does. -/
def pushWindow (n : Nat) (window : List Str) (tradeId : Str) : List Str :=
  (if window.length ≥ n then window.tail else window) ++ [tradeId]

/-- `SymbolDedupBucket.add` of an id that is not there pushes it into the window. -/
theorem add_order (hpos : 0 < maxSize) {b : SymbolDedupBucket maxSize} {t : Str}
    (h : t ∉ b.order) : (b.add hpos t).order = pushWindow maxSize b.order t := by
  have hs : t ∉ b.seen := mem_seen.not.mpr h
  unfold add pushWindow
  rw [dif_neg hs]
  split <;> simp [push, evict_order]

/-- The set that `contains` asks and the deque that `to_list` writes hold the same ids. -/
theorem contains_iff {b : SymbolDedupBucket maxSize} {t : Str} :
    b.contains t = true ↔ t ∈ b.order := by
  rw [contains, decide_eq_true_iff, mem_seen]

end SymbolDedupBucket

namespace MetaStore

/-- The dedup window of a symbol: the trade ids of its bucket, oldest first, and none where there is
no bucket yet. -/
def window (store : MetaStore cfg) (key : Str) : List Str :=
  ((Dict.get? store.dedupBuckets key).map SymbolDedupBucket.order).getD []

/-- The store with the bucket of `key`, as `setdefault` leaves it: an empty one is made only where
none was. -/
def withBucket (store : MetaStore cfg) (key : Str) : MetaStore cfg :=
  { store with dedupBuckets := Dict.setDefault store.dedupBuckets key .new }

theorem getOrCreateBucket_eq (store : MetaStore cfg) {symbol : Str} (h : strip symbol ≠ []) :
    ∃ bucket, store.getOrCreateBucket symbol =
        .ok (store.withBucket (bucketKey cfg.toRuntime symbol), bucket) ∧
      bucket.order = store.window (bucketKey cfg.toRuntime symbol) := by
  unfold getOrCreateBucket
  rw [if_neg h]
  refine ⟨_, rfl, ?_⟩
  rw [Dict.get?_setDefault, window]
  cases Dict.get? store.dedupBuckets (bucketKey cfg.toRuntime symbol) with
  | none => simp; rfl
  | some bucket => simp

/-- A bucket that `get_or_create_bucket` makes is empty, so no window changes by it. -/
theorem window_withBucket (store : MetaStore cfg) (key key' : Str) :
    (store.withBucket key).window key' = store.window key' := by
  simp only [window, withBucket, Dict.get?_setDefault]
  cases Dict.get? store.dedupBuckets key' with
  | some b => rfl
  | none => by_cases h : key = key' <;> simp [h, SymbolDedupBucket.new]

/-- `bucket.add` changes the window of its own symbol and no other. -/
theorem window_addToBucket {store : MetaStore cfg} {symbol tradeId : Str}
    {bucket : SymbolDedupBucket cfg.dedupWindow} (h : tradeId ∉ bucket.order) (key : Str) :
    (store.addToBucket symbol tradeId bucket).window key =
      if key = bucketKey cfg.toRuntime symbol then
        SymbolDedupBucket.pushWindow cfg.dedupWindow bucket.order tradeId
      else store.window key := by
  unfold window addToBucket
  split
  · rename_i hk
    subst hk
    simp [Dict.get?_set_self, SymbolDedupBucket.add_order cfg.dedupWindow_pos h]
  · rename_i hk
    simp [Dict.get?_set_ne _ _ hk]

end MetaStore

/-! ## Appends -/

namespace TickJournal

/-- The key of the window that a tick belongs to: its `inst_id`, stripped and in upper case. -/
def tickKeyOf {rt : Runtime} (tick : TradeTick rt) : Str :=
  MetaStore.bucketKey rt (upperStr rt tick.fields.instId)

/-- `append` raises: the symbol of the tick is blank, and `get_or_create_bucket` takes no such
symbol. -/
def BlankSymbol {rt : Runtime} (tick : TradeTick rt) : Prop :=
  strip (upperStr rt tick.fields.instId) = []

instance {rt : Runtime} (tick : TradeTick rt) : Decidable (BlankSymbol tick) :=
  inferInstanceAs (Decidable (_ = _))

/-- `append` writes a line: the symbol is not blank, and the trade id is not in the window of its
symbol. -/
def Accepts (journal : TickJournal cfg) (tick : TradeTick cfg.toRuntime) : Prop :=
  ¬BlankSymbol tick ∧ tick.fields.tradeId ∉ journal.metaStore.window (tickKeyOf tick)

instance (journal : TickJournal cfg) (tick : TradeTick cfg.toRuntime) :
    Decidable (journal.Accepts tick) := inferInstanceAs (Decidable (_ ∧ _))

/-- The store after an accepted tick, before the durability policy acts: the next number is the tip,
the sparse index has seen the offset of the line, and only the window of the tick's symbol got
longer. -/
structure AppendedStore (store : MetaStore cfg) (tick : TradeTick cfg.toRuntime)
    (byteOffset : Nat) (store' : MetaStore cfg) : Prop where
  latestSeq : store'.latestSeq = store.latestSeq + 1
  highWater : store'.diskTipHighWater = max store.diskTipHighWater (store.latestSeq + 1)
  seqIndex : store'.seqIndex =
    (store.recordSeqIndex (store.latestSeq + 1) byteOffset).seqIndex
  window : ∀ key, store'.window key =
    if key = tickKeyOf tick then
      SymbolDedupBucket.pushWindow cfg.dedupWindow (store.window key) tick.fields.tradeId
    else store.window key

/-- What an accepted append makes of the store, by the steps of the source: the bucket is found or
made, the id is added, the tip is set and the index recorded. -/
theorem append_stores {journal : TickJournal cfg} {tick : TradeTick cfg.toRuntime}
    (h : journal.Accepts tick) (byteOffset : Nat) :
    ∃ metaStore bucket,
      journal.metaStore.getOrCreateBucket (upperStr cfg.toRuntime tick.fields.instId) =
        .ok (metaStore, bucket) ∧
      bucket.contains tick.fields.tradeId = false ∧ metaStore.latestSeq = journal.latestSeq ∧
      AppendedStore journal.metaStore tick byteOffset
        (((metaStore.addToBucket (upperStr cfg.toRuntime tick.fields.instId) tick.fields.tradeId
          bucket).setLatestSeq (journal.latestSeq + 1)).recordSeqIndex (journal.latestSeq + 1)
            byteOffset) := by
  obtain ⟨hblank, hnew⟩ := h
  obtain ⟨bucket, hb, horder⟩ := MetaStore.getOrCreateBucket_eq journal.metaStore hblank
  have hnot : tick.fields.tradeId ∉ bucket.order := horder ▸ hnew
  have hc : bucket.contains tick.fields.tradeId = false := by
    rw [← Bool.not_eq_true, SymbolDedupBucket.contains_iff]; exact hnot
  refine ⟨_, bucket, hb, hc, rfl, ?_, ?_, ?_, fun key => ?_⟩
  · exact Nat.max_eq_right (Nat.le_succ _)
  · show (if max journal.metaStore.latestSeq (journal.metaStore.latestSeq + 1) >
        journal.metaStore.diskTipHighWater
      then max journal.metaStore.latestSeq (journal.metaStore.latestSeq + 1)
      else journal.metaStore.diskTipHighWater) = _
    split <;> omega
  · rfl
  · refine (MetaStore.window_addToBucket hnot key).trans ?_
    rw [horder, MetaStore.window_withBucket]
    show (if key = tickKeyOf tick then SymbolDedupBucket.pushWindow cfg.dedupWindow
      (journal.metaStore.window (tickKeyOf tick)) tick.fields.tradeId
      else journal.metaStore.window key) = _
    split
    · rename_i hk; rw [hk]
    · rfl

/-- **An accepted append** writes the line of the next sequence number at the end of the file, and
its store goes to the durability policy. -/
theorem append_accepts {journal : TickJournal cfg} {tick : TradeTick cfg.toRuntime}
    (h : journal.Accepts tick) (disk : Disk) :
    ∃ store, AppendedStore journal.metaStore tick (disk.journalFile.getD []).length store ∧
      journal.append disk tick =
        let after := noteAppendLocked { journal with metaStore := store }
          (Disk.writeLine disk (recordBytes cfg.toRuntime (journal.latestSeq + 1, tick)))
        (after.1, after.2, .ok (journal.latestSeq + 1)) := by
  obtain ⟨metaStore, bucket, hb, hc, hlatest, hstore⟩ :=
    append_stores h (disk.journalFile.getD []).length
  refine ⟨_, hstore, ?_⟩
  simp only [append, hb, hc, Bool.false_eq_true, ↓reduceIte, appendAccepted, hlatest]

/-- A rejected append changes nothing that the other operations see. It returns the tip for a
duplicate, and raises for a blank symbol. -/
theorem append_rejects {journal : TickJournal cfg} {tick : TradeTick cfg.toRuntime}
    (h : ¬journal.Accepts tick) (disk : Disk) :
    ∃ store, store.payload = journal.metaStore.payload ∧
      store.diskTipHighWater = journal.metaStore.diskTipHighWater ∧
      (∀ key, store.window key = journal.metaStore.window key) ∧
      journal.append disk tick = ({ journal with metaStore := store }, disk,
        if BlankSymbol tick then .error (.valueError "symbol must be a non-empty string".toList)
        else .ok journal.latestSeq) := by
  by_cases hblank : BlankSymbol tick
  · refine ⟨journal.metaStore, rfl, rfl, fun _ => rfl, ?_⟩
    have hb : strip (upperStr cfg.toRuntime tick.fields.instId) = [] := hblank
    simp only [append, MetaStore.getOrCreateBucket, hb, hblank, ↓reduceIte]
  · have hold : tick.fields.tradeId ∈ journal.metaStore.window (tickKeyOf tick) :=
      not_not.mp fun hn => h ⟨hblank, hn⟩
    obtain ⟨bucket, hb, horder⟩ :=
      MetaStore.getOrCreateBucket_eq journal.metaStore hblank
    have hc : bucket.contains tick.fields.tradeId = true := by
      rw [SymbolDedupBucket.contains_iff, horder]; exact hold
    refine ⟨journal.metaStore.withBucket (tickKeyOf tick), rfl, rfl,
      MetaStore.window_withBucket _ _, ?_⟩
    simp only [append, hb, hc, hblank, ↓reduceIte]
    rfl

/-- The durability policy publishes the metadata or leaves it dirty; which one, the counter decides.
-/
theorem noteAppendLocked_cases (journal : TickJournal cfg) (disk : Disk) :
    (∃ n, journal.noteAppendLocked disk =
      persistLocked { journal with appendCounter := n } disk) ∨
    ∃ n, journal.noteAppendLocked disk =
      ({ journal with appendCounter := n, metaDirty := true }, disk) := by
  simp only [noteAppendLocked]
  split
  · exact .inl ⟨_, rfl⟩
  · exact .inr ⟨_, rfl⟩

end TickJournal

/-! ## Publication -/

namespace MetaStore

/-- The tip that a store knows of, which `persist` compares with the file: the larger of
`latest_seq` and the high-water mark. -/
def memoryTip (store : MetaStore cfg) : Nat := max store.payload.latestSeq store.diskTipHighWater

/-- The tip that the file states, with the numbers of its index; a file that is not there states 0.
-/
def fileTip (metaFile : Option MetaPayload) : Nat := (metaFile.map MetaPayload.tip).getD 0

/-- The store with both its tips at `tip`, as `persist` sets them on either branch. -/
def withTip (store : MetaStore cfg) (tip : Nat) : MetaStore cfg :=
  { store with payload := { store.payload with latestSeq := tip }, diskTipHighWater := tip }

/-- What a store writes: its payload with the larger tip, and the buckets in the order in which they
were made. -/
def published (store : MetaStore cfg) : MetaPayload :=
  ⟨store.memoryTip, store.serializeDedupBuckets, store.seqIndex⟩

/-- **`persist` adopts the tip of a file that is ahead, or writes the store.** On the first branch
the file stays as it is, with the index and the windows of the other writer. -/
theorem persist_eq (store : MetaStore cfg) (metaFile : Option MetaPayload) :
    store.persist metaFile =
      if fileTip metaFile > store.memoryTip then (store.withTip (fileTip metaFile), metaFile)
      else (store.withTip store.memoryTip, some store.published) := by
  unfold persist
  by_cases h : (metaFile.map MetaPayload.tip).getD 0 >
      max store.payload.latestSeq store.diskTipHighWater
  · simp only [fileTip, memoryTip, h, ↓reduceIte]
    rfl
  · have hmax : max (max store.payload.latestSeq store.diskTipHighWater)
        ((metaFile.map MetaPayload.tip).getD 0) =
          max store.payload.latestSeq store.diskTipHighWater := by omega
    simp only [fileTip, memoryTip, h, ↓reduceIte, hmax]
    rfl

end MetaStore

/-! ## Compaction -/

section Compaction

variable {rt : Runtime}

/-- The first pass on a journal of records keeps those from the watermark on and quarantines none.
-/
theorem compactPass_records (minRetainSeq : Nat) (rs : List (Rec rt)) :
    compactPass rt minRetainSeq (rs.map fun r => encodeRecord r.1 r.2.fields) =
      ⟨(since minRetainSeq rs).map fun r => recordText r.1 r.2.fields,
        (rs.filter fun r => r.1 < minRetainSeq).length, 0, [], none⟩ := by
  induction rs with
  | nil => rfl
  | cons r rs ih =>
    simp only [List.map_cons, compactPass, (strip_encodeRecord r.1 r.2.fields).1, recordText_ne_nil,
      ↓reduceIte, loadRecordSeq_recordText, ih]
    by_cases hlt : r.1 < minRetainSeq
    · have hi : (r.1 : Int) < minRetainSeq := Int.ofNat_lt.mpr hlt
      simp [since, hlt, hi, Nat.not_le.mpr hlt]
    · have hi : ¬(r.1 : Int) < minRetainSeq := fun h => hlt (Int.ofNat_lt.mp h)
      simp only [since, hi, ↓reduceIte, List.filter_cons, hlt, decide_false, Bool.false_eq_true,
        Nat.not_lt.mp hlt, decide_true, List.map_cons]
      rfl

/-- The entries that a rebuild makes for `rs`, from the byte offset `byteOffset` on: one for the
first record, and one for each number that the interval divides. -/
def rebuiltIndex (interval : Nat) : Bool → Nat → List (Rec rt) → List (Nat × Nat)
  | _, _, [] => []
  | first, byteOffset, r :: rs =>
    let rest := rebuiltIndex interval false (byteOffset + (recordBytes rt r).length) rs
    if first ∨ r.1 % interval = 0 then (r.1, byteOffset) :: rest else rest

/-- The second pass writes the kept records back byte for byte, as `dumps` gives a record's line its
old text. -/
theorem rebuildJournal_records (first : Bool) (byteOffset : Nat)
    (rs : List (Rec cfg.toRuntime)) :
    rebuildJournal cfg first byteOffset (rs.map fun r => recordText r.1 r.2.fields) =
      .ok (journalBytes rs, rebuiltIndex cfg.seqIndexInterval first byteOffset rs) := by
  induction rs generalizing first byteOffset with
  | nil => rfl
  | cons r rs ih =>
    have hb : encodeUtf8 (recordText r.1 r.2.fields ++ ['\n']) = recordBytes cfg.toRuntime r := rfl
    have hmod : ((r.1 : Int) % (cfg.seqIndexInterval : Int) = 0) ↔ r.1 % cfg.seqIndexInterval = 0 := by
      omega
    simp only [List.map_cons, rebuildJournal, loadRecordSeq_recordText, hb, ih, rebuiltIndex,
      journalBytes_cons, bind, Except.bind, pure, Except.pure, hmod, Int.toNat_natCast]
    split <;> rfl

end Compaction

namespace MetaStore

/-- The index of a file that compaction wrote, after the entry `[0, 0]` that it begins with and
before it is trimmed. -/
def compactedIndex (cfg : Config) (rs : List (Rec cfg.toRuntime)) : List (Nat × Nat) :=
  trimIndex ((0, 0) :: rebuiltIndex cfg.seqIndexInterval true 0 rs)

/-- **Compaction keeps the records from the watermark on.** Without a record to drop it does
nothing, and returns 0 before a temporary file is made. -/
theorem compactBeforeSeq_records (store : MetaStore cfg) {disk : Disk}
    {rs : List (Rec cfg.toRuntime)}
    (hfile : disk.Holds rs) (minRetainSeq : Nat) :
    store.compactBeforeSeq disk minRetainSeq =
      if minRetainSeq ≤ 1 ∨ since minRetainSeq rs = rs then (store, disk, .ok 0)
      else
        let after := (store.replaceSeqIndex (compactedIndex cfg (since minRetainSeq rs))).persist
          disk.metaFile
        (after.1, { disk with
            journalFile := some (journalBytes (since minRetainSeq rs)), metaFile := after.2 },
          .ok (rs.filter fun r => r.1 < minRetainSeq).length) := by
  unfold compactBeforeSeq
  by_cases hm : minRetainSeq ≤ 1
  · simp only [hm, ↓reduceIte, true_or]
  rcases hfile with ⟨hn, rfl⟩ | hs
  · simp only [hm, hn, ↓reduceIte, since, List.filter_nil, or_true]
  have htexts : (rs.map recordLine).map TextLine.text = rs.map fun r => encodeRecord r.1 r.2.fields := by
    rw [List.map_map]; rfl
  have hremoved : (rs.filter fun r => r.1 < minRetainSeq).length = 0 ↔ since minRetainSeq rs = rs := by
    rw [List.length_eq_zero_iff, List.filter_eq_nil_iff, since, List.filter_eq_self]
    simp
  simp only [hm, hs, textRead_some (textLines_records rs), htexts, compactPass_records,
    rebuildJournal_records, false_or, Bool.false_eq_true, ↓reduceIte, and_true, hremoved,
    List.append_nil]
  split
  · rw [← hs]
  · rfl

end MetaStore

end Leviathan
