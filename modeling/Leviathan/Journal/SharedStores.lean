import Leviathan.Journal.MetaJson
import Leviathan.Lib.Run

/-!
# Stores that share a metadata file

Any number of `TickJournalMetaStore` objects work on one metadata file of any contents.

* `JsonMetaStore.planPersist`: what `persist` decides before it writes.
* `JsonStoreOp.call`: one method of a store.
* `SharedStores.step`: the calls of all stores, each in one step.
-/

namespace Leviathan

open Py

variable {cfg : Config}

namespace JsonMetaStore

/-! ## What `persist` decides -/

/-- How `persist` goes on after it has read the file: it raises, adopts the tip of the file, or
writes. -/
inductive PersistPlan (cfg : Config) where
  | raises (e : PyError)
  /-- the file is ahead: the store has its tip -/
  | adopt (store : JsonMetaStore cfg)
  /-- the store is written -/
  | publish (store : JsonMetaStore cfg)

/-- The part of `persist` before `atomic_write_json`: both tips are read and compared, and the store
gets the larger one. -/
def planPersist (store : JsonMetaStore cfg) (metaFile : Option Bytes) : PersistPlan cfg :=
  match store.latestSeq with
  | .error e => .raises e
  | .ok latestSeq =>
    let memoryTip := max latestSeq.toNat store.diskTipHighWater
    match fileTip cfg.toRuntime metaFile with
    | .error e => if e.isValueError then .publish (store.withTip memoryTip) else .raises e
    | .ok diskTip =>
      if diskTip > memoryTip then .adopt (store.withTip diskTip)
      else .publish (store.withTip (max memoryTip diskTip))

/-- What `atomic_write_json` is called with: the payload, with the windows of the buckets in it. -/
def publishedText (store : JsonMetaStore cfg) : Bytes :=
  encodeUtf8 (dumps (.obj (Dict.set store.payload seenTradeIdsKey store.serializeDedupBuckets)))

/-- `persist` does as it decided, so a step between the comparison and the write can be put there.
-/
theorem persist_eq_plan (store : JsonMetaStore cfg) (metaFile : Option Bytes) :
    store.persist metaFile = match store.planPersist metaFile with
      | .raises e => (store, metaFile, .error e)
      | .adopt store' => (store', metaFile, .ok ())
      | .publish store' => (store', some store'.publishedText, .ok ()) := by
  unfold persist planPersist
  cases store.latestSeq with
  | error e => rfl
  | ok latestSeq =>
    cases fileTip cfg.toRuntime metaFile with
    | error e =>
      by_cases he : e.isValueError
      · simp only [he, ↓reduceIte]
        rfl
      · simp only [he, Bool.false_eq_true, ↓reduceIte]
    | ok diskTip =>
      by_cases hgt : diskTip > max latestSeq.toNat store.diskTipHighWater
      · simp only [hgt, ↓reduceIte]
      · simp only [hgt, ↓reduceIte]
        rfl

/-! ## Calls -/

/-- `get_or_create_bucket`: the store after it, and the bucket. -/
def getOrCreateBucket (store : JsonMetaStore cfg) (symbol : Str) :
    Except PyError (JsonMetaStore cfg × SymbolDedupBucket cfg.dedupWindow) :=
  if strip symbol = [] then .error (.valueError "symbol must be a non-empty string".toList)
  else
    let key := MetaStore.bucketKey cfg.toRuntime symbol
    let buckets := Dict.setDefault store.dedupBuckets key .new
    .ok ({ store with dedupBuckets := buckets }, (Dict.get? buckets key).getD .new)

/-- The bucket of `symbol`, which the store holds, after `bucket.add(trade_id)`; the other buckets
stay. -/
def addToBucket (store : JsonMetaStore cfg) (symbol tradeId : Str)
    (bucket : SymbolDedupBucket cfg.dedupWindow) : JsonMetaStore cfg :=
  { store with
    dedupBuckets := Dict.set store.dedupBuckets (MetaStore.bucketKey cfg.toRuntime symbol)
      (bucket.add cfg.dedupWindow_pos tradeId) }

/-- The store after it, and `True` when the tip was advanced. It raises where `int` of the present
tip does. -/
def ensureLatestSeqAtLeast (store : JsonMetaStore cfg) (seq : Nat) :
    Except PyError (JsonMetaStore cfg × Bool) := do
  let before ← store.latestSeq
  let store ← store.setLatestSeq seq
  let after ← store.latestSeq
  return (store, after > before)

def replaceSeqIndex (store : JsonMetaStore cfg) (index : List Json) : JsonMetaStore cfg :=
  { store with payload := Dict.set store.payload seqIndexKey (.arr index) }

/-- An entry of the index, as `persist` writes it. -/
def indexEntry (entry : Nat × Nat) : Json := .arr [.int entry.1, .int entry.2]

/-- `int(index[-1][0])`. `none` is an exception, as an index from a file may end with anything. -/
def lastSeq? (rt : Runtime) (index : List Json) : Option Int :=
  match index.getLast? with
  | some (.arr (x :: _)) => (pyInt rt x).toOption
  | some (.str (c :: _)) => (pyInt rt (.str [c])).toOption
  | _ => none

/-- `TickJournalSeqIndex.record`: the store after it. `none` is an exception, which comes before the
index is changed. -/
def recordSeqIndex (store : JsonMetaStore cfg) (seq byteOffset : Nat) : Option (JsonMetaStore cfg) :=
  let (store, index) := store.seqIndex
  let index := if index = [] then defaultSeqIndex else index
  (lastSeq? cfg.toRuntime index).map fun lastSeq =>
    let index := if seq = 0 ∨ (seq % cfg.seqIndexInterval = 0 ∧ (seq : Int) > lastSeq) then
      index ++ [indexEntry (seq, byteOffset)] else index
    store.replaceSeqIndex (SymbolDedupBucket.lastN seqIndexMaxEntries index)

end JsonMetaStore

/-- A method of `TickJournalMetaStore` other than `persist`, or of the index that works on it, with
its arguments. -/
inductive JsonStoreOp where
  | setLatestSeq (seq : Nat)
  | ensureLatestSeqAtLeast (seq : Nat)
  /-- `get_or_create_bucket(symbol).add(trade_id)` -/
  | addTradeId (symbol tradeId : Str)
  | recordSeqIndex (seq byteOffset : Nat)
  /-- `replace_and_trim` -/
  | replaceSeqIndex (index : List (Nat × Nat))
  | readLatestSeqFromDisk
  | reloadFromDisk
  | reloadSeqIndexFromDisk
  deriving DecidableEq

/-- The store after a call, the tip that it reported, if it reports one, and whether it raised. -/
structure JsonCalled (cfg : Config) where
  store : JsonMetaStore cfg
  /-- what `read_latest_seq_from_disk` returned -/
  read : Option Int
  /-- the payload or the file was of no use -/
  raises : Bool

namespace JsonStoreOp

open JsonMetaStore

def call (store : JsonMetaStore cfg) (metaFile : Option Bytes) : JsonStoreOp → JsonCalled cfg
  | .setLatestSeq seq =>
    match store.setLatestSeq seq with
    | .ok store => ⟨store, none, false⟩
    | .error _ => ⟨store, none, true⟩
  | .ensureLatestSeqAtLeast seq =>
    match store.ensureLatestSeqAtLeast seq with
    | .ok (store, _) => ⟨store, none, false⟩
    | .error _ => ⟨store, none, true⟩
  | .addTradeId symbol tradeId =>
    match store.getOrCreateBucket symbol with
    | .ok (store, bucket) => ⟨store.addToBucket symbol tradeId bucket, none, false⟩
    -- for a symbol that is blank
    | .error _ => ⟨store, none, false⟩
  | .recordSeqIndex seq byteOffset =>
    match store.recordSeqIndex seq byteOffset with
    | some store => ⟨store, none, false⟩
    | none => ⟨store.seqIndex.1, none, true⟩
  | .replaceSeqIndex index =>
    ⟨store.replaceSeqIndex ((trimIndex index).map indexEntry), none, false⟩
  | .readLatestSeqFromDisk =>
    match store.readLatestSeqFromDisk metaFile with
    | (store, .ok tip) => ⟨store, some tip, false⟩
    | (store, .error _) => ⟨store, none, true⟩
  | .reloadFromDisk =>
    match store.reloadFromDisk metaFile with
    | (store, .ok ()) => ⟨store, none, false⟩
    | (store, .error _) => ⟨store, none, true⟩
  | .reloadSeqIndexFromDisk =>
    match store.reloadSeqIndexFromDisk metaFile with
    | (store, .ok ()) => ⟨store, none, false⟩
    | (store, .error _) => ⟨store, none, true⟩

end JsonStoreOp

/-! ## Many stores -/

/-- The stores that share a metadata file, in the order they were created, each with the arguments
that it was created with. They belong to one process or to several. -/
structure SharedStores where
  metaFile : Option Bytes
  stores : List (Σ cfg, JsonMetaStore cfg)
  /-- what `read_latest_seq_from_disk` returned, with the number of the store, in order -/
  reads : List (Nat × Int)
  /-- the stores whose calls raised, for the payload or the file was of no use -/
  raised : List Nat

inductive SharedStoresOp where
  /-- `TickJournalMetaStore(meta_path, ..)` -/
  | create (cfg : Config)
  /-- a call on the store with this number, if there is one -/
  | call (n : Nat) (op : JsonStoreOp)
  /-- `persist`; `fails` tells that the file could not be written -/
  | persist (n : Nat) (fails : Bool)

namespace SharedStores

/-- A file, perhaps with anything in it, and no store. -/
def start (metaFile : Option Bytes) : SharedStores := ⟨metaFile, [], [], []⟩

def step (s : SharedStores) : SharedStoresOp → SharedStores
  | .create cfg =>
    match (JsonMetaStore.new s.metaFile : Except PyError (JsonMetaStore cfg)) with
    | .ok store => { s with stores := s.stores ++ [⟨cfg, store⟩] }
    | .error _ => { s with raised := s.raised ++ [s.stores.length] }
  | .call n op =>
    match s.stores[n]? with
    | none => s
    | some ⟨cfg, store⟩ =>
      let called := op.call store s.metaFile
      { s with
        stores := s.stores.set n ⟨cfg, called.store⟩
        reads := s.reads ++ called.read.toList.map fun tip => (n, tip)
        raised := if called.raises then s.raised ++ [n] else s.raised }
  | .persist n fails =>
    match s.stores[n]? with
    | none => s
    | some ⟨cfg, store⟩ =>
      match store.planPersist s.metaFile with
      | .raises _ => { s with raised := s.raised ++ [n] }
      | .adopt store => { s with stores := s.stores.set n ⟨cfg, store⟩ }
      | .publish store =>
        { s with
          stores := s.stores.set n ⟨cfg, store⟩
          metaFile := if fails then s.metaFile else some store.publishedText }

end SharedStores

end Leviathan
