import Leviathan.Journal.Codec
import Mathlib.Data.Finset.Basic
import Mathlib.Data.Finset.Dedup

/-!
# Journal metadata

`SymbolDedupBucket` is the dedup window of one symbol, `MetaPayload` the object in
`tick_journal.meta.json`, and `MetaStore` the copy of it that one process holds.

* `MetaStore.persist` compares the tips of the two and writes the file or adopts its tip.
* `MetaStore.readLatestSeqFromDisk`, `reloadFromDisk` and `reloadSeqIndexFromDisk` are the reads.

The file is only ever written by `persist`, so the branches that guard against a file of another
shape (a payload that is no object, a negative tip, an entry that is no pair) are left to
`JsonMetaStore`.
-/

namespace Leviathan

open Py

/-- A deployment: the runtime and the arguments that `TickJournal` is opened with. -/
structure Config extends Runtime where
  dedupWindow : Nat
  seqIndexInterval : Nat
  dedupWindow_pos : 0 < dedupWindow
  seqIndexInterval_pos : 0 < seqIndexInterval

/-! ## Dedup windows -/

/-- Bounded FIFO dedup set for one symbol: the trade ids in the order of arrival, and as a set. The
two always hold the same ids, and no more than `maxSize` of them. -/
structure SymbolDedupBucket (maxSize : Nat) where
  order : List Str
  seen : Finset Str
  seen_eq : seen = order.toFinset
  nodup : order.Nodup
  length_le : order.length ≤ maxSize

namespace SymbolDedupBucket

variable {maxSize : Nat}

/-- `TickJournalMetaStore(meta_path)`. The high-water mark is seeded with the tip of the file. -/
def new : SymbolDedupBucket maxSize where
  order := []
  seen := ∅
  seen_eq := rfl
  nodup := .nil
  length_le := Nat.zero_le _

def contains (b : SymbolDedupBucket maxSize) (tradeId : Str) : Bool := tradeId ∈ b.seen

/-- The `popleft` and `discard` of a full bucket; one with room stays as it is. -/
def evict (b : SymbolDedupBucket maxSize) : SymbolDedupBucket maxSize :=
  match h : b.order with
  | [] => b
  | oldest :: rest =>
    { order := rest
      seen := b.seen.erase oldest
      seen_eq := by
        have hn := h ▸ b.nodup
        rw [b.seen_eq, h, List.toFinset_cons, Finset.erase_insert]
        simpa using (List.nodup_cons.mp hn).1
      nodup := (List.nodup_cons.mp (h ▸ b.nodup)).2
      length_le := by have := b.length_le; simp only [h, List.length_cons] at this; omega }

theorem evict_order (b : SymbolDedupBucket maxSize) : b.evict.order = b.order.tail := by
  unfold evict
  split
  · rename_i h; simp [h]
  · rename_i h; simp [h]

theorem mem_seen {b : SymbolDedupBucket maxSize} {t : Str} : t ∈ b.seen ↔ t ∈ b.order := by
  rw [b.seen_eq, List.mem_toFinset]

/-- `self.__order.append(trade_id)` and `self.__seen.add(trade_id)`, where there is room and the id
is new. -/
def push (b : SymbolDedupBucket maxSize) (tradeId : Str) (hroom : b.order.length < maxSize)
    (hnew : tradeId ∉ b.seen) : SymbolDedupBucket maxSize where
  order := b.order ++ [tradeId]
  seen := insert tradeId b.seen
  seen_eq := by
    ext t
    rw [Finset.mem_insert, mem_seen, List.mem_toFinset, List.mem_append, List.mem_singleton,
      or_comm]
  nodup := by
    refine List.nodup_append.mpr ⟨b.nodup, List.nodup_singleton _, fun a ha c hc heq => ?_⟩
    rw [List.mem_singleton.mp hc] at heq
    exact mem_seen.not.mp hnew (heq ▸ ha)
  length_le := by simp only [List.length_append, List.length_singleton]; omega

theorem evict_room (hpos : 0 < maxSize) (b : SymbolDedupBucket maxSize) :
    b.evict.order.length < maxSize := by
  have := b.length_le
  rw [evict_order, List.length_tail]
  omega

theorem evict_not_mem {b : SymbolDedupBucket maxSize} {t : Str} (h : t ∉ b.seen) :
    t ∉ b.evict.seen := by
  rw [mem_seen] at h ⊢
  rw [evict_order]
  exact fun ht => h (List.mem_of_mem_tail ht)

def add (hpos : 0 < maxSize) (b : SymbolDedupBucket maxSize) (tradeId : Str) :
    SymbolDedupBucket maxSize :=
  if h : tradeId ∈ b.seen then b
  else if hfull : b.order.length ≥ maxSize then
    b.evict.push tradeId (b.evict_room hpos) (evict_not_mem h)
  else b.push tradeId (by omega) h

def toList (b : SymbolDedupBucket maxSize) : List Str := b.order

/-- `l[-n:]`, which is all of a shorter list. -/
def lastN {α : Type} (n : Nat) (l : List α) : List α := l.drop (l.length - n)

def fromList (hpos : 0 < maxSize) (tradeIds : List Str) : SymbolDedupBucket maxSize :=
  (lastN maxSize tradeIds).foldl (add hpos) new

end SymbolDedupBucket

/-! ## The payload -/

/-- The object in `tick_journal.meta.json`: the tip, the windows by symbol and the sparse index. -/
structure MetaPayload where
  latestSeq : Nat
  seenTradeIds : Dict Str (List Str)
  seqIndex : List (Nat × Nat)
  deriving DecidableEq

/-- `_max_seq_from_seq_index`: the largest number of the index, and 0 for an empty one. -/
def maxSeqFromSeqIndex (seqIndex : List (Nat × Nat)) : Nat :=
  seqIndex.foldl (fun high entry => if entry.1 > high then entry.1 else high) 0

/-- The payload that `load_payload` gives for a directory without a file. -/
def MetaPayload.empty : MetaPayload := ⟨0, [], [(0, 0)]⟩

/-- `load_payload` of a file that this program wrote. What it makes of any other text is in
`MetaJson` and `MetaFile`. -/
def loadPayload (metaFile : Option MetaPayload) : MetaPayload := metaFile.getD .empty

/-- The tip that a payload states, by its `latest_seq` or by its index, whichever is larger. -/
def MetaPayload.tip (payload : MetaPayload) : Nat :=
  max payload.latestSeq (maxSeqFromSeqIndex payload.seqIndex)

/-! ## The store -/

/-- `TickJournalMetaStore`: the payload, the buckets that stand for its windows in memory, and the
high-water mark of the tips seen so far. -/
structure MetaStore (cfg : Config) where
  payload : MetaPayload
  dedupBuckets : Dict Str (SymbolDedupBucket cfg.dedupWindow)
  diskTipHighWater : Nat

namespace MetaStore

variable {cfg : Config}

/-- `__hydrate_dedup_buckets`: one bucket a symbol, with the last ids of the list where it is longer
than the window. -/
def hydrateDedupBuckets (payload : MetaPayload) :
    Dict Str (SymbolDedupBucket cfg.dedupWindow) :=
  payload.seenTradeIds.foldl (fun buckets entry =>
    Dict.set buckets (upperStr cfg.toRuntime entry.1)
      (.fromList cfg.dedupWindow_pos entry.2)) []

/-- `__serialize_dedup_buckets`: the ids of every bucket, oldest first. -/
def serializeDedupBuckets (store : MetaStore cfg) : Dict Str (List Str) :=
  store.dedupBuckets.map fun entry => (entry.1, entry.2.toList)

/-- `TickJournalMetaStore(meta_path)`. -/
def new (metaFile : Option MetaPayload) : MetaStore cfg where
  payload := loadPayload metaFile
  dedupBuckets := hydrateDedupBuckets (loadPayload metaFile)
  diskTipHighWater := (loadPayload metaFile).tip

def latestSeq (store : MetaStore cfg) : Nat := store.payload.latestSeq

/-- The tip never goes back: a smaller `seq` leaves it, and the high-water mark follows a larger
one. -/
def setLatestSeq (store : MetaStore cfg) (seq : Nat) : MetaStore cfg :=
  let coherent := max store.payload.latestSeq seq
  { store with
    payload := { store.payload with latestSeq := coherent }
    diskTipHighWater :=
      if coherent > store.diskTipHighWater then coherent else store.diskTipHighWater }

/-- The store after `set_latest_seq(seq)`, and `True` when the tip was advanced by it. -/
def ensureLatestSeqAtLeast (store : MetaStore cfg) (seq : Nat) : MetaStore cfg × Bool :=
  let after := store.setLatestSeq seq
  (after, after.latestSeq > store.latestSeq)

def seqIndex (store : MetaStore cfg) : List (Nat × Nat) := store.payload.seqIndex

def replaceSeqIndex (store : MetaStore cfg) (index : List (Nat × Nat)) : MetaStore cfg :=
  { store with payload := { store.payload with seqIndex := index } }

/-- `symbol.strip().upper()`, the key of a bucket. -/
def bucketKey (rt : Runtime) (symbol : Str) : Str := upperStr rt (strip symbol)

/-- The store after it, and the bucket. A blank symbol raises; a symbol that was never seen gets an
empty bucket. -/
def getOrCreateBucket (store : MetaStore cfg) (symbol : Str) :
    Except PyError (MetaStore cfg × SymbolDedupBucket cfg.dedupWindow) :=
  if strip symbol = [] then .error (.valueError "symbol must be a non-empty string".toList)
  else
    let key := bucketKey cfg.toRuntime symbol
    let buckets := Dict.setDefault store.dedupBuckets key .new
    .ok ({ store with dedupBuckets := buckets }, (Dict.get? buckets key).getD .new)

/-- The bucket of `symbol`, which the store holds, after `bucket.add(trade_id)`. -/
def addToBucket (store : MetaStore cfg) (symbol tradeId : Str)
    (bucket : SymbolDedupBucket cfg.dedupWindow) : MetaStore cfg :=
  { store with
    dedupBuckets := Dict.set store.dedupBuckets (bucketKey cfg.toRuntime symbol)
      (bucket.add cfg.dedupWindow_pos tradeId) }

/-- `persist`: the store and the file after it. A file that is ahead is not written: the store
adopts its tip, but keeps its own index and windows. -/
def persist (store : MetaStore cfg) (metaFile : Option MetaPayload) :
    MetaStore cfg × Option MetaPayload :=
  let memoryTip := max store.payload.latestSeq store.diskTipHighWater
  let diskTip := (metaFile.map MetaPayload.tip).getD 0
  if diskTip > memoryTip then
    ({ store with
        payload := { store.payload with latestSeq := diskTip }
        diskTipHighWater := diskTip }, metaFile)
  else
    let tip := max memoryTip diskTip
    let store := { store with
      payload := { store.payload with latestSeq := tip }
      diskTipHighWater := tip }
    (store, some { store.payload with seenTradeIds := store.serializeDedupBuckets })

/-- The store after it, and the tip: the largest of the file's number, its index and the high-water
mark, which the read also raises. The payload stays as it is. -/
def readLatestSeqFromDisk (store : MetaStore cfg) (metaFile : Option MetaPayload) :
    MetaStore cfg × Nat :=
  let coherent := max (loadPayload metaFile).tip store.diskTipHighWater
  ({ store with
      diskTipHighWater :=
        if coherent > store.diskTipHighWater then coherent else store.diskTipHighWater },
    coherent)

/-- Payload and buckets are those of the file, but the tip is not below the high-water mark. -/
def reloadFromDisk (store : MetaStore cfg) (metaFile : Option MetaPayload) : MetaStore cfg :=
  let payload := loadPayload metaFile
  let coherent := max payload.tip store.diskTipHighWater
  { payload := { payload with latestSeq := coherent }
    dedupBuckets := hydrateDedupBuckets payload
    diskTipHighWater :=
      if coherent > store.diskTipHighWater then coherent else store.diskTipHighWater }

/-- Only the sparse index is taken from the file; tip and windows stay. -/
def reloadSeqIndexFromDisk (store : MetaStore cfg) (metaFile : Option MetaPayload) :
    MetaStore cfg :=
  store.replaceSeqIndex (loadPayload metaFile).seqIndex

end MetaStore

end Leviathan
