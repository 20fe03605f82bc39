import Leviathan.Journal.MetaFile
import Leviathan.Journal.SeqIndex

/-!
# The metadata store over any file

`MetaStore` holds a payload of the shape that `persist` writes. `JsonMetaStore` is the same class
over what `load_payload` returns: an object with any JSON values in its fields, whose conversions
may raise.

* `reloadFromDisk`, `readLatestSeqFromDisk` and `reloadSeqIndexFromDisk` read the file; `persist`
  reads and writes it.
* `indexedHint` and `byteOffsetForSeq` are the reads of the index.
* `reloadFromDisk_ofStore`, `readLatestSeqFromDisk_ofStore`, `persist_ofStore`: on the files that
  `persist` writes it is `MetaStore`.
-/

namespace Leviathan

open Py

/-! ## Exceptions -/

/-- `isinstance(exc, ValueError)`: a `JSONDecodeError` and a `UnicodeDecodeError` are ones too. -/
def PyError.isValueError : PyError → Bool
  | .valueError _ | .unicodeDecodeError _ => true
  | .keyError _ | .typeError _ | .overflowError _ => false

/-- `isinstance(exc, (TypeError, ValueError))`, which is what `_max_seq_from_seq_index` catches. An
`OverflowError` is neither. -/
def PyError.isTypeOrValueError : PyError → Bool
  | .typeError _ => true
  | e => e.isValueError

/-! ## The payload -/

/-- `[[0, 0]]`, the index of a payload without one or with one that is no list. -/
def defaultSeqIndex : List Json := [.arr [.int 0, .int 0]]

/-- `handle.read()` of a text handle: the whole file is decoded and its line ends translated. `none`
is a `UnicodeDecodeError`. -/
def readText (file : Bytes) : Option Str :=
  (textLines file).map fun lines => lines.flatMap TextLine.text

namespace JsonMetaStore

variable (rt : Runtime)

/-- The three calls of `setdefault` in `load_payload`. A key that is there keeps its value, whatever
it is. -/
def withDefaults (loaded : Dict Str Json) : Dict Str Json :=
  let loaded := Dict.setDefault loaded latestSeqKey (.int 0)
  let loaded := Dict.setDefault loaded seenTradeIdsKey (.obj [])
  Dict.setDefault loaded seqIndexKey (.arr defaultSeqIndex)

/-- `load_payload`. A file that is not there gives the empty payload; a text that is no JSON, and
JSON that is no object, raise a `ValueError`. -/
def loadPayload : Option Bytes → Except PyError (Dict Str Json)
  | none => .ok [(latestSeqKey, .int 0), (seenTradeIdsKey, .obj []), (seqIndexKey, .arr defaultSeqIndex)]
  | some file =>
    match readText file with
    | none => .error (.unicodeDecodeError (rt.unicodeErrorText file))
    | some text =>
      match loads text with
      | none => .error (.valueError (rt.decodeErrorText text))
      | some (.obj loaded) => .ok (withDefaults loaded)
      | some _ => .error (.valueError "tick journal meta must be a JSON object".toList)

/-- `payload.get("latest_seq", 0)`, of any type that the file gives it. -/
def latestSeqField (payload : Dict Str Json) : Json :=
  (Dict.get? payload latestSeqKey).getD (.int 0)

/-- `payload.get("seq_index")`. -/
def seqIndexField (payload : Dict Str Json) : Json := (Dict.get? payload seqIndexKey).getD .null

/-- One entry of the loop of `_max_seq_from_seq_index`. An entry that is no list, that is empty or
that `int` does not take is passed over. -/
def maxSeqStep (high : Nat) : Json → Except PyError Nat
  | .arr (x :: _) =>
    match pyInt rt x with
    | .ok seq => .ok (if seq > high then seq.toNat else high)
    | .error e => if e.isTypeOrValueError then .ok high else .error e
  | _ => .ok high

/-- `_max_seq_from_seq_index`: 0 for what is no list, and otherwise the largest number of its
entries. -/
def maxSeqFromSeqIndex : Json → Except PyError Nat
  | .arr seqIndex => seqIndex.foldlM (maxSeqStep rt) 0
  | _ => .ok 0

end JsonMetaStore

/-! ## The store -/

/-- `TickJournalMetaStore`, over any payload that `load_payload` may return: its values need not
have the types that this program writes. -/
structure JsonMetaStore (cfg : Config) where
  payload : Dict Str Json
  dedupBuckets : Dict Str (SymbolDedupBucket cfg.dedupWindow)
  diskTipHighWater : Nat

namespace JsonMetaStore

variable {cfg : Config}

/-- One symbol of the loop of `__hydrate_dedup_buckets`. A symbol whose value is no list gets no
bucket, and every element of a list is made a string. -/
def hydrateStep (buckets : Dict Str (SymbolDedupBucket cfg.dedupWindow)) (entry : Str × Json) :
    Dict Str (SymbolDedupBucket cfg.dedupWindow) :=
  match entry.2 with
  | .arr tradeIds => Dict.set buckets (upperStr cfg.toRuntime entry.1)
      (.fromList cfg.dedupWindow_pos (tradeIds.map (pyStr cfg.toRuntime)))
  | _ => buckets

/-- `__hydrate_dedup_buckets`: no bucket at all where `seen_trade_ids` is no object. -/
def hydrateDedupBuckets (payload : Dict Str Json) :
    Dict Str (SymbolDedupBucket cfg.dedupWindow) :=
  match (Dict.get? payload seenTradeIdsKey).getD (.obj []) with
  | .obj seenRaw => seenRaw.foldl hydrateStep []
  | _ => []

/-- `__serialize_dedup_buckets`. -/
def serializeDedupBuckets (store : JsonMetaStore cfg) : Json :=
  .obj (store.dedupBuckets.map fun entry => (entry.1, .arr (entry.2.toList.map .str)))

/-- `TickJournalMetaStore(meta_path)`. All that may fail is `load_payload`, `int` of the tip and the
scan of the index. -/
def new (metaFile : Option Bytes) : Except PyError (JsonMetaStore cfg) := do
  let payload ← loadPayload cfg.toRuntime metaFile
  let seeded ← pyInt cfg.toRuntime (latestSeqField payload)
  let indexTip ← maxSeqFromSeqIndex cfg.toRuntime (seqIndexField payload)
  return ⟨payload, hydrateDedupBuckets payload, max seeded.toNat indexTip⟩

def latestSeq (store : JsonMetaStore cfg) : Except PyError Int :=
  pyInt cfg.toRuntime (latestSeqField store.payload)

/-- The store with the tip `coherent` in its payload, and in its high-water mark if that is lower,
as `set_latest_seq` and `reload_from_disk` end. -/
def withTip (store : JsonMetaStore cfg) (coherent : Nat) : JsonMetaStore cfg :=
  { store with
    payload := Dict.set store.payload latestSeqKey (.int coherent)
    diskTipHighWater :=
      if coherent > store.diskTipHighWater then coherent else store.diskTipHighWater }

@[simp] theorem latestSeq_withTip (store : JsonMetaStore cfg) (tip : Nat) :
    (store.withTip tip).latestSeq = .ok tip := by
  simp [latestSeq, withTip, latestSeqField, Dict.get?_set_self, pyInt]

def setLatestSeq (store : JsonMetaStore cfg) (seq : Nat) : Except PyError (JsonMetaStore cfg) := do
  let current ← store.latestSeq
  return store.withTip (max current.toNat seq)

/-- The store after it, which has a list for its index, and the index: a value that is no list is
replaced by `[[0, 0]]`. -/
def seqIndex (store : JsonMetaStore cfg) : JsonMetaStore cfg × List Json :=
  match Dict.get? store.payload seqIndexKey with
  | some (.arr index) => (store, index)
  | _ => ({ store with payload := Dict.set store.payload seqIndexKey (.arr defaultSeqIndex) },
      defaultSeqIndex)

/-- The trade ids of a symbol's bucket, the oldest first. -/
def window (store : JsonMetaStore cfg) (key : Str) : List Str :=
  ((Dict.get? store.dedupBuckets key).map SymbolDedupBucket.order).getD []

/-- The tip of the file in `persist`. A file that cannot be read counts as 0, but a `TypeError` of
its `latest_seq` is raised. -/
def fileTip (rt : Runtime) (metaFile : Option Bytes) : Except PyError Nat := do
  if metaFile = none then return 0
  let diskMeta ← loadPayload rt metaFile
  let raw ← pyInt rt (latestSeqField diskMeta)
  let indexTip ← maxSeqFromSeqIndex rt (seqIndexField diskMeta)
  return max raw.toNat indexTip

/-- `persist`: the store and the file after it, and the exception that it raised. The comparison
with the file comes before the write, so an exception there leaves both. -/
def persist (store : JsonMetaStore cfg) (metaFile : Option Bytes) :
    JsonMetaStore cfg × Option Bytes × Except PyError Unit :=
  match store.latestSeq with
  | .error e => (store, metaFile, .error e)
  | .ok latestSeq =>
    let memoryTip := max latestSeq.toNat store.diskTipHighWater
    match fileTip cfg.toRuntime metaFile with
    | .error e =>
      if e.isValueError then publish (store.withTip memoryTip) else (store, metaFile, .error e)
    | .ok diskTip =>
      if diskTip > memoryTip then (store.withTip diskTip, metaFile, .ok ())
      else publish (store.withTip (max memoryTip diskTip))
where
  /-- The write of the file. -/
  publish (store : JsonMetaStore cfg) : JsonMetaStore cfg × Option Bytes × Except PyError Unit :=
    let payload := Dict.set store.payload seenTradeIdsKey store.serializeDedupBuckets
    (store, some (encodeUtf8 (dumps (.obj payload))), .ok ())

/-- The store after it, and the tip. Where `load_payload` raises what is caught, the tip is that of
the memory. -/
def readLatestSeqFromDisk (store : JsonMetaStore cfg) (metaFile : Option Bytes) :
    JsonMetaStore cfg × Except PyError Int :=
  match loadPayload cfg.toRuntime metaFile with
  | .error e =>
    if e.isValueError then (store, store.latestSeq.map fun tip => max tip store.diskTipHighWater)
    else (store, .error e)
  | .ok diskMeta =>
    -- neither conversion is in the `try`
    match pyInt cfg.toRuntime (latestSeqField diskMeta) with
    | .error e => (store, .error e)
    | .ok raw =>
      match maxSeqFromSeqIndex cfg.toRuntime (seqIndexField diskMeta) with
      | .error e => (store, .error e)
      | .ok indexTip =>
        let coherent := max (max raw.toNat indexTip) store.diskTipHighWater
        ({ store with
            diskTipHighWater :=
              if coherent > store.diskTipHighWater then coherent else store.diskTipHighWater },
          .ok coherent)

/-- The store after it, and the exception that it raised. Payload and buckets are replaced before
the tip is computed, so they stay replaced where that raises. -/
def reloadFromDisk (store : JsonMetaStore cfg) (metaFile : Option Bytes) :
    JsonMetaStore cfg × Except PyError Unit :=
  match loadPayload cfg.toRuntime metaFile with
  | .error e => (store, .error e)
  | .ok payload =>
    -- the payload and the buckets are replaced before the tip is converted
    let store := { store with payload, dedupBuckets := hydrateDedupBuckets payload }
    match store.latestSeq with
    | .error e => (store, .error e)
    | .ok loadedTip =>
      match maxSeqFromSeqIndex cfg.toRuntime (seqIndexField payload) with
      | .error e => (store, .error e)
      | .ok indexTip =>
        (store.withTip (max (max loadedTip.toNat indexTip) store.diskTipHighWater), .ok ())

def reloadSeqIndexFromDisk (store : JsonMetaStore cfg) (metaFile : Option Bytes) :
    JsonMetaStore cfg × Except PyError Unit :=
  match loadPayload cfg.toRuntime metaFile with
  | .error e => (store, if e.isValueError then .ok () else .error e)
  | .ok loaded =>
    match (Dict.get? loaded seqIndexKey).getD (.arr defaultSeqIndex) with
    | .arr index => ({ store with payload := Dict.set store.payload seqIndexKey (.arr index) }, .ok ())
    | _ => (store, .ok ())

/-! ## The index -/

/-- The loop of `indexed_hint`: `chosen` is the offset so far. An entry that `int` does not take
raises, where the scan for the tip passes it over. -/
def chooseHint (rt : Runtime) (startSeq : Nat) : List Json → Int → Except PyError Int
  | [], chosen => .ok chosen
  | .arr [x, y] :: index, chosen => do
    let seqValue ← pyInt rt x
    if seqValue ≤ startSeq then
      let byteOffset ← pyInt rt y
      chooseHint rt startSeq index byteOffset
    else return chosen
  | _ :: index, chosen => chooseHint rt startSeq index chosen

/-- `indexed_hint`, of an index with any entries in it: one that is no pair is passed over. -/
def indexedHint (store : JsonMetaStore cfg) (startSeq : Nat) : JsonMetaStore cfg × Except PyError Int :=
  (store.seqIndex.1, chooseHint cfg.toRuntime startSeq store.seqIndex.2 0)

/-- `TickJournalSeqIndex.resolve`, with any integer for a hint. A negative one is made 0 by `max(0,
..)`, and without a file the hint itself is the answer. -/
def resolveHint (rt : Runtime) (journalFile : Option Bytes) (startSeq : Nat) (hint : Int) :
    Except PyError Int :=
  match journalFile with
  | none => .ok hint
  | some file => (resolve rt (some file) startSeq hint.toNat).map Int.ofNat

/-- `byte_offset_for_seq`: the hint of the index, and the walk from it. -/
def byteOffsetForSeq (store : JsonMetaStore cfg) (journalFile : Option Bytes) (startSeq : Nat) :
    JsonMetaStore cfg × Except PyError Int :=
  if startSeq ≤ 1 then (store, .ok 0)
  else (store.seqIndex.1,
    (store.indexedHint startSeq).2.bind (resolveHint cfg.toRuntime journalFile startSeq))

end JsonMetaStore

/-! ## On the files that `persist` writes -/

/-- The members of the object that `persist` writes, in the order in which it writes them. -/
def MetaPayload.members (payload : MetaPayload) : Dict Str Json :=
  [(latestSeqKey, .int payload.latestSeq),
    (seenTradeIdsKey, .obj (payload.seenTradeIds.map fun entry =>
      (entry.1, .arr (entry.2.map .str)))),
    (seqIndexKey, .arr (payload.seqIndex.map fun entry => .arr [.int entry.1, .int entry.2]))]

/-- The bytes of the metadata file that `atomic_write_json` leaves. -/
def MetaPayload.bytes (payload : MetaPayload) : Bytes := encodeUtf8 payload.text

theorem readText_printable {text : Str} (h : Printable text) :
    readText (encodeUtf8 text) = some text := by
  rw [readText, textLines_printable h]
  by_cases hne : text = []
  · rw [if_pos hne, hne]
    rfl
  · rw [if_neg hne]
    simp

namespace JsonMetaStore

variable {cfg : Config} {rt : Runtime}

/-- The store over the payload of a `MetaStore`, which is a JSON object of the shape that `persist`
writes. -/
def ofStore (store : MetaStore cfg) : JsonMetaStore cfg :=
  ⟨store.payload.members, store.dedupBuckets, store.diskTipHighWater⟩

/-- The file of an object is read back as that object with the defaults, where no key of it is
doubled. -/
theorem loadPayload_dumps {loaded : Dict Str Json} (h : (Json.obj loaded).Wf) :
    loadPayload rt (some (encodeUtf8 (dumps (.obj loaded)))) = .ok (withDefaults loaded) := by
  simp only [loadPayload, readText_printable (printable_dumps _), loads_dumps h]

theorem loadPayload_bytes {metaFile : Option MetaPayload}
    (h : Dict.KeysNodup (Leviathan.loadPayload metaFile).seenTradeIds) :
    loadPayload rt (metaFile.map MetaPayload.bytes) =
      .ok (Leviathan.loadPayload metaFile).members := by
  cases metaFile with
  | none => rfl
  | some payload => exact loadPayload_dumps (MetaPayload.wf_toJson h)

/-- A file of this program has an integer for its tip, so no `int` of it can raise. -/
theorem latestSeqField_members (payload : MetaPayload) :
    latestSeqField payload.members = .int payload.latestSeq := rfl

theorem maxSeqFromSeqIndex_members (payload : MetaPayload) :
    maxSeqFromSeqIndex rt (seqIndexField payload.members) =
      .ok (Leviathan.maxSeqFromSeqIndex payload.seqIndex) := by
  have hfold : ∀ (index : List (Nat × Nat)) (high : Nat),
      (index.map fun entry => Json.arr [.int entry.1, .int entry.2]).foldlM (maxSeqStep rt) high =
        .ok (index.foldl (fun high entry => if entry.1 > high then entry.1 else high) high) := by
    intro index
    induction index with
    | nil => intro high; rfl
    | cons entry index ih =>
      intro high
      rw [List.map_cons, List.foldlM_cons, List.foldl_cons, ← ih]
      simp [maxSeqStep, pyInt, bind, Except.bind]
  exact hfold payload.seqIndex 0

/-- A file of this program has lists of strings for its windows, so none is passed over. -/
theorem hydrateDedupBuckets_members (payload : MetaPayload) :
    @hydrateDedupBuckets cfg payload.members = MetaStore.hydrateDedupBuckets payload := by
  have hstrs : ∀ ids : List Str, (ids.map Json.str).map (pyStr cfg.toRuntime) = ids := by
    intro ids
    rw [List.map_map]
    exact List.map_id'' (fun _ => rfl) ids
  have hfield : (Dict.get? payload.members seenTradeIdsKey).getD (.obj []) =
      .obj (payload.seenTradeIds.map fun entry => (entry.1, .arr (entry.2.map .str))) := rfl
  unfold hydrateDedupBuckets MetaStore.hydrateDedupBuckets
  rw [hfield]
  show (payload.seenTradeIds.map _).foldl hydrateStep [] = _
  rw [List.foldl_map]
  apply List.foldl_ext
  intro buckets entry _
  simp only [hydrateStep, hstrs]

theorem withTip_ofStore (store : MetaStore cfg) (tip : Nat) :
    (ofStore store).withTip tip = ofStore { store with
      payload := { store.payload with latestSeq := tip }
      diskTipHighWater :=
        if tip > store.diskTipHighWater then tip else store.diskTipHighWater } := rfl

theorem new_ofStore {metaFile : Option MetaPayload}
    (h : Dict.KeysNodup (Leviathan.loadPayload metaFile).seenTradeIds) :
    (new (metaFile.map MetaPayload.bytes) : Except PyError (JsonMetaStore cfg)) =
      .ok (ofStore (.new metaFile)) := by
  simp only [new, loadPayload_bytes h, latestSeqField_members, maxSeqFromSeqIndex_members, pyInt,
    hydrateDedupBuckets_members, bind, Except.bind]
  rfl

/-- On a file of this program a reload raises nothing and is that of `MetaStore`. -/
theorem reloadFromDisk_ofStore (store : MetaStore cfg) {metaFile : Option MetaPayload}
    (h : Dict.KeysNodup (Leviathan.loadPayload metaFile).seenTradeIds) :
    (ofStore store).reloadFromDisk (metaFile.map MetaPayload.bytes) =
      (ofStore (store.reloadFromDisk metaFile), .ok ()) := by
  simp only [reloadFromDisk, loadPayload_bytes h, latestSeq, latestSeqField_members,
    maxSeqFromSeqIndex_members, pyInt, hydrateDedupBuckets_members]
  rfl

theorem readLatestSeqFromDisk_ofStore (store : MetaStore cfg) {metaFile : Option MetaPayload}
    (h : Dict.KeysNodup (Leviathan.loadPayload metaFile).seenTradeIds) :
    (ofStore store).readLatestSeqFromDisk (metaFile.map MetaPayload.bytes) =
      (ofStore (store.readLatestSeqFromDisk metaFile).1,
        .ok (store.readLatestSeqFromDisk metaFile).2) := by
  simp only [readLatestSeqFromDisk, loadPayload_bytes h, latestSeqField_members,
    maxSeqFromSeqIndex_members, pyInt]
  rfl

theorem fileTip_bytes {metaFile : Option MetaPayload}
    (h : Dict.KeysNodup (Leviathan.loadPayload metaFile).seenTradeIds) :
    fileTip rt (metaFile.map MetaPayload.bytes) = .ok (MetaStore.fileTip metaFile) := by
  cases metaFile with
  | none => rfl
  | some payload =>
    have hload := @loadPayload_bytes rt (some payload) h
    rw [Option.map_some] at hload ⊢
    simp only [fileTip, reduceCtorEq, ↓reduceIte, hload, latestSeqField_members,
      maxSeqFromSeqIndex_members, pyInt, bind, Except.bind]
    rfl

theorem publish_ofStore (store : MetaStore cfg) : persist.publish (ofStore store) =
    (ofStore store, some (MetaPayload.bytes { store.payload with
      seenTradeIds := store.serializeDedupBuckets }), .ok ()) := by
  have hserialize : (ofStore store).serializeDedupBuckets =
      .obj (store.serializeDedupBuckets.map fun entry => (entry.1, .arr (entry.2.map .str))) := by
    rw [MetaStore.serializeDedupBuckets, List.map_map]
    rfl
  unfold persist.publish
  rw [hserialize]
  rfl

/-- **On the files that it writes, `persist` is that of `MetaStore`**: it raises nothing, and it
writes the file of the same payload. -/
theorem persist_ofStore (store : MetaStore cfg) {metaFile : Option MetaPayload}
    (h : Dict.KeysNodup (Leviathan.loadPayload metaFile).seenTradeIds) :
    (ofStore store).persist (metaFile.map MetaPayload.bytes) =
      (ofStore (store.persist metaFile).1, (store.persist metaFile).2.map MetaPayload.bytes,
        .ok ()) := by
  have htip : ∀ tip, store.memoryTip ≤ tip →
      (ofStore store).withTip tip = ofStore (MetaStore.withTip store tip) := by
    intro tip hle
    have hhigh : (if tip > store.diskTipHighWater then tip else store.diskTipHighWater) = tip := by
      unfold MetaStore.memoryTip at hle
      split <;> omega
    rw [withTip_ofStore, hhigh]
    rfl
  have hmax : max (store.payload.latestSeq : Int).toNat store.diskTipHighWater = store.memoryTip :=
    rfl
  simp only [persist, latestSeq, ofStore, latestSeqField_members, pyInt, fileTip_bytes h, hmax]
  rw [MetaStore.persist_eq]
  by_cases hgt : MetaStore.fileTip metaFile > store.memoryTip
  · rw [if_pos hgt, if_pos hgt]
    exact congrArg (·, _) (htip _ (Nat.le_of_lt hgt))
  · have hmem : max store.memoryTip (MetaStore.fileTip metaFile) = store.memoryTip := by omega
    rw [if_neg hgt, if_neg hgt, hmem]
    exact (congrArg persist.publish (htip _ (Nat.le_refl _))).trans (publish_ofStore _)

theorem chooseHint_ofStore (startSeq : Nat) (index : List (Nat × Nat)) (chosen : Nat) :
    chooseHint rt startSeq (index.map fun entry => .arr [.int entry.1, .int entry.2]) chosen =
      .ok (Leviathan.chooseHint startSeq index chosen) := by
  induction index generalizing chosen with
  | nil => rfl
  | cons entry index ih =>
    simp only [List.map_cons, chooseHint, pyInt, bind, Except.bind, Leviathan.chooseHint,
      Int.ofNat_le]
    split
    · exact ih entry.2
    · rfl

/-- A seek by an index of this program's shape is that of `MetaStore`, and leaves the store as it
is. -/
theorem byteOffsetForSeq_ofStore (store : MetaStore cfg) (journalFile : Option Bytes)
    (startSeq : Nat) : (ofStore store).byteOffsetForSeq journalFile startSeq =
      (ofStore store, (store.byteOffsetForSeq journalFile startSeq).map Int.ofNat) := by
  have hindex : (ofStore store).seqIndex = (ofStore store,
      store.payload.seqIndex.map fun entry => .arr [.int entry.1, .int entry.2]) := rfl
  have hhint : ((ofStore store).indexedHint startSeq).2 = .ok (store.indexedHint startSeq : Int) := by
    rw [indexedHint, hindex]
    exact chooseHint_ofStore startSeq store.payload.seqIndex 0
  unfold byteOffsetForSeq MetaStore.byteOffsetForSeq
  rw [hindex, hhint]
  by_cases h1 : startSeq ≤ 1
  · rw [if_pos h1, if_pos h1]
    rfl
  · rw [if_neg h1, if_neg h1]
    cases journalFile with
    | none => rfl
    | some file => rfl

end JsonMetaStore

end Leviathan
