import Leviathan.Journal.Instance
import Leviathan.Py.JsonLemmas

/-!
# What a restart finds

`persist` writes the payload as a JSON object, and a new store reads it back and hydrates its
windows.

* `ofText_text`: the payload survives the round trip through its text.
* `window_new_published`: a store that is read back has the windows of the store that was written.
* `Restorable`: a clean instance has published its tip and its windows. One operation after the
  other keeps it.
-/

namespace Leviathan

open Py

variable {cfg : Config}

/-! ## The text of the file -/

def latestSeqKey : Str := ['l', 'a', 't', 'e', 's', 't', '_', 's', 'e', 'q']
def seenTradeIdsKey : Str :=
  ['s', 'e', 'e', 'n', '_', 't', 'r', 'a', 'd', 'e', '_', 'i', 'd', 's']
def seqIndexKey : Str := ['s', 'e', 'q', '_', 'i', 'n', 'd', 'e', 'x']

/-- `int(x)` of a number that is not negative; anything else is not of the shape that `persist`
writes. -/
def natOf : Json → Option Nat
  | .int i => if 0 ≤ i then some i.toNat else none
  | _ => none

def strOf : Json → Option Str
  | .str s => some s
  | _ => none

/-- The trade ids of a symbol, where they are a list of strings. -/
def tradeIdsOf : Json → Option (List Str)
  | .arr xs => xs.mapM strOf
  | _ => none

/-- `[seq, byte_offset]`, an entry of the sparse index. -/
def indexEntryOf : Json → Option (Nat × Nat)
  | .arr [seq, byteOffset] => do return (← natOf seq, ← natOf byteOffset)
  | _ => none

namespace MetaPayload

/-- The object that `persist` writes: the tip, the windows by symbol and the index. -/
def toJson (payload : MetaPayload) : Json :=
  .obj [(latestSeqKey, .int payload.latestSeq),
    (seenTradeIdsKey, .obj (payload.seenTradeIds.map fun entry =>
      (entry.1, .arr (entry.2.map .str)))),
    (seqIndexKey, .arr (payload.seqIndex.map fun entry => .arr [.int entry.1, .int entry.2]))]

def text (payload : MetaPayload) : Str := dumps payload.toJson

/-- `load_payload` of an object of the shape that `persist` writes, with its defaults for the keys
that are missing. -/
def ofJson : Json → Option MetaPayload
  | .obj loaded => do
    let latestSeq ← natOf ((Dict.get? loaded latestSeqKey).getD (.int 0))
    let seenTradeIds ← match (Dict.get? loaded seenTradeIdsKey).getD (.obj []) with
      | .obj seen => seen.mapM fun entry => (tradeIdsOf entry.2).map (entry.1, ·)
      | _ => none
    let seqIndex ← match (Dict.get? loaded seqIndexKey).getD (.arr [.arr [.int 0, .int 0]]) with
      | .arr index => index.mapM indexEntryOf
      | _ => none
    return { latestSeq, seenTradeIds, seqIndex }
  | _ => none

def ofText (text : Str) : Option MetaPayload := (loads text).bind ofJson

/-- Reading an image element by element. -/
theorem mapM_map {α β : Type} {f : α → β} {g : β → Option α} (h : ∀ x, g (f x) = some x)
    (xs : List α) : (xs.map f).mapM g = some xs := by
  induction xs with
  | nil => rfl
  | cons x xs ih => simp [h, ih]

theorem natOf_int (n : Nat) : natOf (.int n) = some n := by simp [natOf]

theorem ofJson_toJson (payload : MetaPayload) : ofJson payload.toJson = some payload := by
  have hseen : (payload.seenTradeIds.map fun entry =>
      (entry.1, Json.arr (entry.2.map .str))).mapM
        (fun entry => (tradeIdsOf entry.2).map (entry.1, ·)) = some payload.seenTradeIds :=
    mapM_map (fun entry => by simp [tradeIdsOf, mapM_map (g := strOf) (f := Json.str) fun _ => rfl]) _
  have hindex : (payload.seqIndex.map fun entry =>
      Json.arr [.int entry.1, .int entry.2]).mapM indexEntryOf = some payload.seqIndex :=
    mapM_map (fun entry => by simp [indexEntryOf, natOf_int]) _
  have hget : ∀ v w u : Json,
      Dict.get? [(latestSeqKey, v), (seenTradeIdsKey, w), (seqIndexKey, u)] latestSeqKey = some v ∧
      Dict.get? [(latestSeqKey, v), (seenTradeIdsKey, w), (seqIndexKey, u)] seenTradeIdsKey =
        some w ∧
      Dict.get? [(latestSeqKey, v), (seenTradeIdsKey, w), (seqIndexKey, u)] seqIndexKey = some u :=
    fun _ _ _ => ⟨rfl, rfl, rfl⟩
  simp only [ofJson, toJson, hget, Option.getD_some, natOf_int, hseen, hindex]
  rfl

theorem wf_toJson {payload : MetaPayload} (h : Dict.KeysNodup payload.seenTradeIds) :
    payload.toJson.Wf := by
  have hstrs : ∀ ids : List Str, Json.WfElems (ids.map .str) := fun ids => by
    induction ids with
    | nil => trivial
    | cons id ids ih => exact ⟨trivial, ih⟩
  have hseen : ∀ seen : Dict Str (List Str), Json.WfMembers (seen.map fun entry =>
      (entry.1, .arr (entry.2.map .str))) := fun seen => by
    induction seen with
    | nil => trivial
    | cons entry seen ih => exact ⟨hstrs entry.2, ih⟩
  have hindex : ∀ index : List (Nat × Nat), Json.WfElems (index.map fun entry =>
      .arr [.int entry.1, .int entry.2]) := fun index => by
    induction index with
    | nil => trivial
    | cons entry index ih => exact ⟨⟨trivial, trivial, trivial⟩, ih⟩
  have hkeys : [latestSeqKey, seenTradeIdsKey, seqIndexKey].Nodup := by decide
  refine ⟨hkeys, trivial, ⟨?_, hseen payload.seenTradeIds⟩, hindex payload.seqIndex, trivial⟩
  unfold Dict.KeysNodup at h ⊢
  rw [List.map_map]
  exact h

/-- **The round trip of the metadata file.** What `persist` writes, `load_payload` reads back as the
same payload, where no symbol has two windows. -/
theorem ofText_text {payload : MetaPayload} (h : Dict.KeysNodup payload.seenTradeIds) :
    ofText payload.text = some payload := by
  rw [ofText, text, loads_dumps (wf_toJson h), Option.bind_some, ofJson_toJson]

end MetaPayload

/-! ## Hydration -/

namespace SymbolDedupBucket

variable {maxSize : Nat}

/-- Adding trade ids that there is room for appends them, since no `popleft` happens. -/
theorem foldl_add_order (hpos : 0 < maxSize) {b : SymbolDedupBucket maxSize} {ids : List Str}
    (hnodup : (b.order ++ ids).Nodup) (hroom : (b.order ++ ids).length ≤ maxSize) :
    (ids.foldl (add hpos) b).order = b.order ++ ids := by
  induction ids generalizing b with
  | nil => exact (List.append_nil _).symm
  | cons id ids ih =>
    have hnew : id ∉ b.order := fun hid => by
      exact (List.nodup_append.mp hnodup).2.2 id hid id (by simp) rfl
    have hlen : ¬b.order.length ≥ maxSize := by
      simp only [List.length_append, List.length_cons] at hroom
      omega
    have hadd : (b.add hpos id).order = b.order ++ [id] := by
      rw [add_order hpos hnew, pushWindow, if_neg hlen]
    have happ : (b.add hpos id).order ++ ids = b.order ++ id :: ids := by
      rw [hadd, List.append_assoc]
      rfl
    rw [List.foldl_cons, ih (by rw [happ]; exact hnodup) (by rw [happ]; exact hroom), happ]

/-- **The round trip of a bucket.** Its ids fit into the window, so `from_list` of what `to_list`
gave loses none and keeps their order. -/
theorem fromList_toList (hpos : 0 < maxSize) (b : SymbolDedupBucket maxSize) :
    (fromList hpos b.toList).order = b.order := by
  have hlast : lastN maxSize b.toList = b.order := by
    rw [lastN, toList, Nat.sub_eq_zero_of_le b.length_le, List.drop_zero]
  rw [fromList, hlast, foldl_add_order hpos (b := new) (by simpa [new] using b.nodup)
    (by simpa [new] using b.length_le)]
  rfl

end SymbolDedupBucket

namespace MetaStore

/-- The buckets of a store: their keys are in upper case and differ, as every bucket is made under
`symbol.strip().upper()`. -/
structure Keyed (store : MetaStore cfg) : Prop where
  nodup : Dict.KeysNodup store.dedupBuckets
  upper : ∀ key ∈ store.dedupBuckets.map Prod.fst, upperStr cfg.toRuntime key = key

theorem Keyed.set {store : MetaStore cfg} (h : store.Keyed) (symbol : Str)
    (bucket : SymbolDedupBucket cfg.dedupWindow) :
    Keyed { store with
      dedupBuckets := Dict.set store.dedupBuckets (bucketKey cfg.toRuntime symbol) bucket } := by
  refine ⟨h.nodup.set _ _, fun key hkey => ?_⟩
  rcases Dict.mem_keys_set hkey with hkey | rfl
  · exact h.upper key hkey
  · exact upperStr_upperStr (strip symbol)

theorem Keyed.withBucket {store : MetaStore cfg} (h : store.Keyed) (symbol : Str) :
    (store.withBucket (bucketKey cfg.toRuntime symbol)).Keyed := by
  unfold MetaStore.withBucket
  rcases Dict.setDefault_cases store.dedupBuckets (bucketKey cfg.toRuntime symbol)
    SymbolDedupBucket.new with he | he <;> rw [he]
  · exact h
  · exact h.set symbol .new

/-- No symbol is written twice into the file. -/
theorem keysNodup_serialize {store : MetaStore cfg} (h : store.Keyed) :
    Dict.KeysNodup store.serializeDedupBuckets := by
  unfold Dict.KeysNodup serializeDedupBuckets
  rw [List.map_map]
  exact h.nodup

/-- **The round trip of the windows.** A store opened from what another has published has its
windows, id by id and in order. -/
theorem window_new_published {store : MetaStore cfg} (h : store.Keyed) (key : Str) :
    (MetaStore.new (some store.published) : MetaStore cfg).window key = store.window key := by
  have hupper : ∀ entry ∈ store.dedupBuckets, upperStr cfg.toRuntime entry.1 = entry.1 :=
    fun entry hentry => h.upper entry.1 (List.mem_map_of_mem hentry)
  let reread : Dict Str (SymbolDedupBucket cfg.dedupWindow) := store.dedupBuckets.map fun entry =>
    (entry.1, .fromList cfg.dedupWindow_pos entry.2.toList)
  have hnodup : Dict.KeysNodup ([] ++ reread) := by
    unfold Dict.KeysNodup
    rw [List.nil_append, List.map_map]
    exact h.nodup
  have hhydrate : @hydrateDedupBuckets cfg store.published = reread := by
    refine Eq.trans ?_ (Dict.foldl_set hnodup)
    rw [hydrateDedupBuckets, published, serializeDedupBuckets, List.foldl_map, List.foldl_map]
    refine List.foldl_ext _ _ _ fun buckets entry hentry => ?_
    rw [hupper entry hentry]
  have hnew : (MetaStore.new (some store.published) : MetaStore cfg).dedupBuckets = reread :=
    hhydrate
  have hget : Dict.get? reread key = (Dict.get? store.dedupBuckets key).map fun bucket =>
      .fromList cfg.dedupWindow_pos bucket.toList  :=
    Dict.get?_map (fun bucket : SymbolDedupBucket cfg.dedupWindow =>
      SymbolDedupBucket.fromList cfg.dedupWindow_pos bucket.toList) store.dedupBuckets key
  rw [window, hnew, hget, window]
  cases Dict.get? store.dedupBuckets key with
  | none => rfl
  | some bucket => exact SymbolDedupBucket.fromList_toList cfg.dedupWindow_pos bucket

theorem Keyed.congr {store store' : MetaStore cfg} (h : store.Keyed)
    (he : store'.dedupBuckets = store.dedupBuckets) : store'.Keyed :=
  ⟨he ▸ h.nodup, he ▸ h.upper⟩

/-- `persist` changes tips only, on either branch. -/
theorem dedupBuckets_persist (store : MetaStore cfg) (metaFile : Option MetaPayload) :
    (store.persist metaFile).1.dedupBuckets = store.dedupBuckets := by
  rw [persist_eq]
  split <;> rfl

/-- What a store is opened from is keyed: `__hydrate_dedup_buckets` makes its keys upper case, and a
second list for one of them takes the place of the first. -/
theorem keyed_new (metaFile : Option MetaPayload) : (MetaStore.new metaFile : MetaStore cfg).Keyed := by
  let Good (buckets : Dict Str (SymbolDedupBucket cfg.dedupWindow)) : Prop :=
    Dict.KeysNodup buckets ∧ ∀ key ∈ buckets.map Prod.fst, upperStr cfg.toRuntime key = key
  have hfold : ∀ (entries : Dict Str (List Str)) buckets, Good buckets →
      Good (entries.foldl (fun buckets entry => Dict.set buckets (upperStr cfg.toRuntime entry.1)
        (.fromList cfg.dedupWindow_pos entry.2)) buckets) := by
    intro entries
    induction entries with
    | nil => exact fun _ h => h
    | cons entry entries ih =>
      intro buckets h
      refine ih _ ⟨h.1.set _ _, fun key hkey => ?_⟩
      rcases Dict.mem_keys_set hkey with hkey | rfl
      · exact h.2 key hkey
      · exact upperStr_upperStr entry.1
  obtain ⟨hnodup, hupper⟩ := hfold (loadPayload metaFile).seenTradeIds [] ⟨.nil, nofun⟩
  exact ⟨hnodup, hupper⟩

end MetaStore

/-! ## Clean instances -/

namespace TickJournal

variable {journal : TickJournal cfg} {disk : Disk}

/-- The file has the tip and the windows of the instance, so a restart loses neither. -/
structure Flushed (journal : TickJournal cfg) (disk : Disk) : Prop where
  latestSeq : (loadPayload disk.metaFile).latestSeq = journal.latestSeq
  window : ∀ key, (MetaStore.new disk.metaFile : MetaStore cfg).window key =
    journal.metaStore.window key
  keys : Dict.KeysNodup (loadPayload disk.metaFile).seenTradeIds

/-- An instance that is not dirty can be opened again: its last persist is still what it knows. -/
structure Restorable (journal : TickJournal cfg) (disk : Disk) : Prop where
  keyed : journal.metaStore.Keyed
  flushed : journal.metaDirty = false → journal.Flushed disk

theorem Restorable.empty : (TickJournal.new .empty : TickJournal cfg).Restorable .empty :=
  ⟨⟨.nil, nofun⟩, fun _ => ⟨rfl, fun _ => rfl, .nil⟩⟩

/-- **A persist leaves a file that a restart recovers the store from**, if the instance is current:
it has written its own store and adopted no other tip. -/
theorem flushed_of_persist {store : MetaStore cfg} {metaFile : Option MetaPayload}
    (hk : store.Keyed) (h : store.Bounded store.latestSeq)
    (hf : (loadPayload metaFile).Bounded store.latestSeq)
    (hstore : journal.metaStore = (store.persist metaFile).1)
    (hfile : disk.metaFile = (store.persist metaFile).2) : journal.Flushed disk := by
  rw [MetaStore.persist_current h hf] at hstore hfile
  refine ⟨?_, fun key => ?_, ?_⟩
  · rw [hfile, latestSeq, hstore]
    exact h.memoryTip_eq
  · rw [hfile, hstore]
    exact MetaStore.window_new_published hk key
  · rw [hfile]
    exact MetaStore.keysNodup_serialize hk

/-- `persist_locked` clears the dirty flag only after the store has been written. -/
theorem persistLocked_restorable (h : journal.metaStore.Keyed) (hc : journal.Current disk) :
    (journal.persistLocked disk).1.Restorable (journal.persistLocked disk).2 :=
  ⟨h.congr (MetaStore.dedupBuckets_persist _ _),
    fun _ => flushed_of_persist h hc.store hc.file rfl rfl⟩

/-- After `flush_meta` the file is that of the instance, whether it was dirty or not. -/
theorem Restorable.flushMeta (h : journal.Restorable disk) (hc : journal.Current disk) :
    (journal.flushMeta disk).1.Restorable (journal.flushMeta disk).2.1 ∧
      (journal.flushMeta disk).1.Flushed (journal.flushMeta disk).2.1 := by
  unfold TickJournal.flushMeta
  split
  · have hp := persistLocked_restorable h.keyed hc
    exact ⟨hp, hp.flushed rfl⟩
  · rename_i hd
    exact ⟨h, h.flushed (Bool.eq_false_iff.mpr hd)⟩

/-- The buckets after an append: one may be new, under the upper-case symbol of the tick. -/
theorem append_keyed (h : journal.metaStore.Keyed) (tick : TradeTick cfg.toRuntime) :
    (journal.append disk tick).1.metaStore.Keyed := by
  have hbucket := h.withBucket (upperStr cfg.toRuntime tick.fields.instId)
  unfold append
  simp only
  by_cases hblank : strip (upperStr cfg.toRuntime tick.fields.instId) = []
  · simp only [MetaStore.getOrCreateBucket, hblank, ↓reduceIte]
    exact h
  · obtain ⟨bucket, hb, -⟩ := MetaStore.getOrCreateBucket_eq journal.metaStore hblank
    rw [hb]
    simp only
    split
    · exact hbucket
    · refine (hbucket.set (upperStr cfg.toRuntime tick.fields.instId)
        (bucket.add cfg.dedupWindow_pos tick.fields.tradeId)).congr ?_
      simp only [appendAccepted, noteAppendLocked]
      split
      · exact MetaStore.dedupBuckets_persist _ _
      · rfl

/-- An append either publishes or sets the dirty flag, and a duplicate changes no window. -/
theorem Restorable.append (h : journal.Restorable disk) (hc : journal.Current disk)
    (tick : TradeTick cfg.toRuntime) :
    (journal.append disk tick).1.Restorable (journal.append disk tick).2.1 := by
  refine ⟨append_keyed h.keyed tick, fun hdirty => ?_⟩
  have hkeyed : (journal.append disk tick).1.metaStore.Keyed := append_keyed h.keyed tick
  by_cases ha : journal.Accepts tick
  · obtain ⟨store, hs, he⟩ := append_accepts ha disk
    rw [he] at hdirty hkeyed ⊢
    rcases noteAppendLocked_cases { journal with metaStore := store }
      (Disk.writeLine disk (recordBytes cfg.toRuntime (journal.latestSeq + 1, tick)))
      with ⟨n, hn⟩ | ⟨n, hn⟩
    · simp only [hn] at hkeyed ⊢
      have hlatest : store.latestSeq = journal.latestSeq + 1 := hs.latestSeq
      refine flushed_of_persist
        (hkeyed.congr (MetaStore.dedupBuckets_persist store disk.metaFile).symm) ?_ ?_ rfl rfl
      · rw [hlatest]
        exact (hc.store.mono (Nat.le_succ _)).appended hs (Nat.le_refl _)
      · rw [hlatest]
        exact hc.file.mono (Nat.le_succ _)
    · simp only [hn] at hdirty
      cases hdirty
  · obtain ⟨store, hp, -, hw, he⟩ := append_rejects ha disk
    rw [he] at hdirty ⊢
    have hf := h.flushed hdirty
    exact ⟨hf.latestSeq.trans (congrArg MetaPayload.latestSeq hp).symm,
      fun key => (hf.window key).trans (hw key).symm, hf.keys⟩

theorem Restorable.compactBeforeSeq (h : journal.Restorable disk) (hc : journal.Current disk)
    {rs : List (Rec cfg.toRuntime)} (hfile : disk.Holds rs)
    (hbound : ∀ r ∈ rs, r.1 ≤ journal.latestSeq) (minRetainSeq : Nat) :
    (journal.compactBeforeSeq disk minRetainSeq).1.Restorable
      (journal.compactBeforeSeq disk minRetainSeq).2.1 := by
  have hrec := MetaStore.compactBeforeSeq_records journal.metaStore hfile minRetainSeq
  by_cases hdrop : minRetainSeq ≤ 1 ∨ since minRetainSeq rs = rs
  · rw [if_pos hdrop] at hrec
    simp only [TickJournal.compactBeforeSeq, hrec]
    exact h
  · rw [if_neg hdrop] at hrec
    simp only [TickJournal.compactBeforeSeq, hrec]
    have hkeyed : (journal.metaStore.replaceSeqIndex
        (MetaStore.compactedIndex cfg (since minRetainSeq rs))).Keyed := h.keyed.congr rfl
    refine ⟨hkeyed.congr (MetaStore.dedupBuckets_persist _ _), fun _ =>
      flushed_of_persist hkeyed (compactedStore_bounded hc hbound minRetainSeq) hc.file rfl rfl⟩

/-- **A flushed instance can be opened again**, with its tip and its windows, over the same records.
-/
theorem Sound.reopen {rs : List (Rec cfg.toRuntime)} (h : journal.Sound disk rs)
    (hf : journal.Flushed disk) :
    (TickJournal.new disk : TickJournal cfg).Sound disk rs ∧
      SameTicks journal (TickJournal.new disk) := by
  have hlatest : (TickJournal.new disk : TickJournal cfg).latestSeq = journal.latestSeq :=
    hf.latestSeq
  refine ⟨⟨h.file, h.increasing, hlatest ▸ h.numbers, .new ?_, h.fileIndex, h.fileIndex⟩, hlatest,
    hf.window⟩
  rw [hf.latestSeq]
  exact h.current.file

theorem Flushed.reopen (h : journal.Flushed disk) :
    (TickJournal.new disk : TickJournal cfg).Restorable disk :=
  ⟨MetaStore.keyed_new disk.metaFile, fun _ => ⟨rfl, fun _ => rfl, h.keys⟩⟩

end TickJournal

end Leviathan
