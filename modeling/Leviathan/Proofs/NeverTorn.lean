import Leviathan.Journal.HighWater
import Leviathan.Proofs.PersistAtomic

/-!
# The metadata file is never torn

In a directory that starts without a metadata file, every store is one that `MetaStore` describes,
and the file is one that `persist` has written.

* `JsonStoreOp.call_ofStore`: a call on such a store raises nothing and lowers nothing.
* `SharedStores.Written`: what holds between the calls. Every call keeps it.
* `never_torn`: **whatever is cut off, the file can be loaded, and no tip in it or read from it goes
  back.**
-/

namespace Leviathan

open Py

variable {cfg : Config}

/-! ## One store -/

theorem MetaStore.keysNodup_hydrate (payload : MetaPayload) :
    Dict.KeysNodup
      (MetaStore.hydrateDedupBuckets payload : Dict Str (SymbolDedupBucket cfg.dedupWindow)) := by
  have hfold : ∀ (seen : Dict Str (List Str)) (buckets : Dict Str (SymbolDedupBucket cfg.dedupWindow)),
      Dict.KeysNodup buckets → Dict.KeysNodup (seen.foldl (fun buckets entry =>
        Dict.set buckets (upperStr cfg.toRuntime entry.1)
          (.fromList cfg.dedupWindow_pos entry.2)) buckets) := by
    intro seen
    induction seen with
    | nil => exact fun _ h => h
    | cons entry seen ih => exact fun buckets h => ih _ (h.set _ _)
  exact hfold payload.seenTradeIds [] .nil

theorem SymbolDedupBucket.lastN_map {α β : Type} (f : α → β) (n : Nat) (l : List α) :
    lastN n (l.map f) = (lastN n l).map f := by
  rw [lastN, lastN, List.length_map, List.map_drop]

namespace JsonMetaStore

variable {metaFile : Option MetaPayload}

theorem replaceSeqIndex_ofStore (store : MetaStore cfg) (index : List (Nat × Nat)) :
    (ofStore store).replaceSeqIndex (index.map indexEntry) = ofStore (store.replaceSeqIndex index) :=
  rfl

theorem reloadSeqIndexFromDisk_ofStore (store : MetaStore cfg)
    (h : Dict.KeysNodup (Leviathan.loadPayload metaFile).seenTradeIds) :
    (ofStore store).reloadSeqIndexFromDisk (metaFile.map MetaPayload.bytes) =
      (ofStore (store.reloadSeqIndexFromDisk metaFile), .ok ()) := by
  simp only [reloadSeqIndexFromDisk, loadPayload_bytes h]
  rfl

theorem lastSeq?_map (rt : Runtime) {index : List (Nat × Nat)} (h : index ≠ []) :
    lastSeq? rt (index.map indexEntry) = some (Leviathan.lastSeq index : Int) := by
  have hlast : index.getLast? = some (index.getLast h) := List.getLast?_eq_some_getLast h
  simp [lastSeq?, Leviathan.lastSeq, List.getLast?_map, hlast, indexEntry, pyInt, Except.toOption]

theorem recordSeqIndex_ofStore (store : MetaStore cfg) (seq byteOffset : Nat) :
    (ofStore store).recordSeqIndex seq byteOffset =
      some (ofStore (store.recordSeqIndex seq byteOffset)) := by
  have hindex : (ofStore store).seqIndex = (ofStore store, store.payload.seqIndex.map indexEntry) := rfl
  let opened := if store.payload.seqIndex = [] then [(0, 0)] else store.payload.seqIndex
  have hne : opened ≠ [] := by
    simp only [opened]
    split
    · simp
    · assumption
  have hopened : (if store.payload.seqIndex.map indexEntry = [] then defaultSeqIndex
      else store.payload.seqIndex.map indexEntry) = opened.map indexEntry := by
    simp only [opened, List.map_eq_nil_iff]
    split <;> rfl
  have hgrown : (if seq = 0 ∨ (seq % cfg.seqIndexInterval = 0 ∧ (seq : Int) > Leviathan.lastSeq opened)
      then opened.map indexEntry ++ [indexEntry (seq, byteOffset)] else opened.map indexEntry) =
        (grownIndex cfg.seqIndexInterval store.seqIndex seq byteOffset).map indexEntry := by
    have hcast : ((seq : Int) > Leviathan.lastSeq opened) ↔ seq > Leviathan.lastSeq opened := by omega
    simp only [hcast]
    show _ = List.map indexEntry (if seq = 0 ∨ (seq % cfg.seqIndexInterval = 0 ∧
      seq > Leviathan.lastSeq opened) then opened ++ [(seq, byteOffset)] else opened)
    split <;> simp
  have htrim : ∀ index : List (Nat × Nat),
      (if index.length > seqIndexMaxEntries then trimIndex index else index) =
        SymbolDedupBucket.lastN seqIndexMaxEntries index := by
    intro index
    split
    · rfl
    · rw [SymbolDedupBucket.lastN, Nat.sub_eq_zero_of_le (by omega), List.drop_zero]
  simp only [recordSeqIndex, hindex, hopened, lastSeq?_map cfg.toRuntime hne, Option.map_some, hgrown,
    SymbolDedupBucket.lastN_map, MetaStore.recordSeqIndex, htrim]
  rfl

/-- What `persist` decides for a store over a file that it has written. -/
theorem planPersist_ofStore (store : MetaStore cfg)
    (h : Dict.KeysNodup (Leviathan.loadPayload metaFile).seenTradeIds) :
    (ofStore store).planPersist (metaFile.map MetaPayload.bytes) =
      if MetaStore.fileTip metaFile > store.memoryTip then
        .adopt (ofStore (store.withTip (MetaStore.fileTip metaFile)))
      else .publish (ofStore (store.withTip store.memoryTip)) := by
  have htip : ∀ tip, store.memoryTip ≤ tip →
      (ofStore store).withTip tip = ofStore (MetaStore.withTip store tip) := by
    intro tip hle
    have hhigh : (if tip > store.diskTipHighWater then tip else store.diskTipHighWater) = tip := by
      unfold MetaStore.memoryTip at hle
      split <;> omega
    rw [withTip_ofStore, hhigh]
    rfl
  have hlatest : (ofStore store).latestSeq = .ok (store.payload.latestSeq : Int) := rfl
  have hmemory : max (store.payload.latestSeq : Int).toNat (ofStore store).diskTipHighWater =
      store.memoryTip := rfl
  unfold planPersist
  rw [hlatest, fileTip_bytes h]
  simp only [hmemory]
  split
  · rename_i hgt
    rw [htip _ (Nat.le_of_lt hgt)]
  · rename_i hgt
    rw [Nat.max_eq_left (Nat.le_of_not_lt hgt), htip _ (Nat.le_refl _)]

theorem publishedText_ofStore (store : MetaStore cfg) :
    (ofStore (store.withTip store.memoryTip)).publishedText = store.published.bytes := by
  have hpublish := publish_ofStore (store.withTip store.memoryTip)
  exact Option.some.inj (congrArg (·.2.1) hpublish)

end JsonMetaStore

/-- What a call on a store of `MetaStore`'s shape does. -/
structure CallsOn (store : MetaStore cfg) (called : JsonCalled cfg) (store' : MetaStore cfg) :
    Prop where
  store_eq : called.store = .ofStore store'
  raises : called.raises = false
  advances : MetaStore.Advances store store'
  keys : Dict.KeysNodup store'.dedupBuckets
  /-- an answer is the new high-water mark -/
  read : ∀ tip ∈ called.read, tip = store'.diskTipHighWater

open JsonMetaStore in
/-- **A call raises nothing and lowers nothing.** -/
theorem JsonStoreOp.call_ofStore {store : MetaStore cfg} (hc : store.Coherent)
    (hk : Dict.KeysNodup store.dedupBuckets) {metaFile : Option MetaPayload}
    (h : Dict.KeysNodup (loadPayload metaFile).seenTradeIds) (op : JsonStoreOp) :
    ∃ store', CallsOn store (op.call (ofStore store) (metaFile.map MetaPayload.bytes)) store' := by
  cases op with
  | setLatestSeq seq =>
    exact ⟨_, rfl, rfl, MetaStore.setLatestSeq_advances store seq, hk, by rintro _ ⟨⟩⟩
  | ensureLatestSeqAtLeast seq =>
    exact ⟨_, rfl, rfl, MetaStore.setLatestSeq_advances store seq, hk, by rintro _ ⟨⟩⟩
  | addTradeId symbol tradeId =>
    have hsame : ∀ buckets, MetaStore.Advances store { store with dedupBuckets := buckets } :=
      fun _ => ⟨Nat.le_refl _, Nat.le_refl _, hc⟩
    by_cases hblank : strip symbol = []
    · refine ⟨store, ?_, ?_, hsame store.dedupBuckets, hk, ?_⟩ <;>
        simp [call, JsonMetaStore.getOrCreateBucket, hblank]
    · refine ⟨(store.withBucket (MetaStore.bucketKey cfg.toRuntime symbol)).addToBucket symbol tradeId
        ((Dict.get? (Dict.setDefault store.dedupBuckets (MetaStore.bucketKey cfg.toRuntime symbol)
          .new) (MetaStore.bucketKey cfg.toRuntime symbol)).getD .new), ?_, ?_, hsame _, ?_, ?_⟩
      · simp only [call, JsonMetaStore.getOrCreateBucket, hblank, ↓reduceIte]
        rfl
      · simp only [call, JsonMetaStore.getOrCreateBucket, hblank, ↓reduceIte]
      · refine Dict.KeysNodup.set ?_ _ _
        rcases Dict.setDefault_cases store.dedupBuckets (MetaStore.bucketKey cfg.toRuntime symbol)
          SymbolDedupBucket.new with he | he
        · simpa only [MetaStore.withBucket, he] using hk
        · simpa only [MetaStore.withBucket, he] using hk.set _ _
      · simp [call, JsonMetaStore.getOrCreateBucket, hblank]
  | recordSeqIndex seq byteOffset =>
    refine ⟨store.recordSeqIndex seq byteOffset, ?_, ?_, MetaStore.replaceSeqIndex_advances hc _, hk,
      ?_⟩ <;> simp [call, recordSeqIndex_ofStore]
  | replaceSeqIndex index =>
    exact ⟨_, replaceSeqIndex_ofStore store (trimIndex index), rfl,
      MetaStore.replaceSeqIndex_advances hc _, hk, by rintro _ ⟨⟩⟩
  | readLatestSeqFromDisk =>
    obtain ⟨hadvances, htip⟩ := MetaStore.readLatestSeqFromDisk_advances hc metaFile
    refine ⟨(store.readLatestSeqFromDisk metaFile).1, ?_, ?_, hadvances, hk, ?_⟩
    · simp [call, readLatestSeqFromDisk_ofStore store h]
    · simp [call, readLatestSeqFromDisk_ofStore store h]
    · simp [call, readLatestSeqFromDisk_ofStore store h, htip]
  | reloadFromDisk =>
    refine ⟨store.reloadFromDisk metaFile, ?_, ?_, MetaStore.reloadFromDisk_advances hc metaFile,
      MetaStore.keysNodup_hydrate _, ?_⟩ <;> simp [call, reloadFromDisk_ofStore store h]
  | reloadSeqIndexFromDisk =>
    refine ⟨store.reloadSeqIndexFromDisk metaFile, ?_, ?_, MetaStore.replaceSeqIndex_advances hc _, hk,
      ?_⟩ <;> simp [call, reloadSeqIndexFromDisk_ofStore store h]

/-! ## Many stores -/

namespace SharedStores

/-- What the reads of one store returned, in order. -/
def readsOf (s : SharedStores) (n : Nat) : List Int :=
  (s.reads.filter fun read => read.1 = n).map Prod.snd

/-- The file is one that `persist` has written. -/
structure IsFile (file : Option Bytes) (metaFile : Option MetaPayload) : Prop where
  bytes : file = metaFile.map MetaPayload.bytes
  keys : Dict.KeysNodup (loadPayload metaFile).seenTradeIds

/-- A store that `MetaStore` describes, and what its reads have returned. -/
structure IsStore (found : Σ cfg, JsonMetaStore cfg) (store : MetaStore found.1) (reads : List Int) :
    Prop where
  store_eq : found.2 = .ofStore store
  coherent : store.Coherent
  keys : Dict.KeysNodup store.dedupBuckets
  ordered : reads.Pairwise (· ≤ ·)
  seen : ∀ tip ∈ reads, tip ≤ store.diskTipHighWater

/-- What holds between the calls, where the file has the payload `metaFile`. -/
structure Written (metaFile : Option MetaPayload) (s : SharedStores) : Prop where
  file : IsFile s.metaFile metaFile
  stores : ∀ n found, s.stores[n]? = some found → ∃ store, IsStore found store (s.readsOf n)
  reads : ∀ n, s.stores.length ≤ n → s.readsOf n = []
  raised : s.raised = []

variable {s : SharedStores} {metaFile : Option MetaPayload}

theorem written_start : (start none).Written none :=
  ⟨⟨rfl, .nil⟩, nofun, fun _ _ => rfl, rfl⟩

theorem Written.reads_pairwise (h : s.Written metaFile) (n : Nat) : (s.readsOf n).Pairwise (· ≤ ·) := by
  cases hn : s.stores[n]? with
  | none =>
    rw [h.reads n (List.getElem?_eq_none_iff.mp hn)]
    exact .nil
  | some found =>
    obtain ⟨store, hstore⟩ := h.stores n found hn
    exact hstore.ordered

theorem Written.create (h : s.Written metaFile) (cfg : Config) :
    (s.step (.create cfg)).Written metaFile := by
  have hnew : (JsonMetaStore.new s.metaFile : Except PyError (JsonMetaStore cfg)) =
      .ok (.ofStore (.new metaFile)) := by
    rw [h.file.bytes]
    exact JsonMetaStore.new_ofStore h.file.keys
  simp only [step, hnew]
  refine ⟨h.file, ?_, ?_, h.raised⟩
  · intro n found hn
    rw [List.getElem?_append] at hn
    split at hn
    · exact h.stores n found hn
    · rename_i hlen
      obtain ⟨hz, rfl⟩ : n - s.stores.length = 0 ∧ ⟨cfg, .ofStore (.new metaFile)⟩ = found := by
        simpa [List.getElem?_singleton] using hn
      refine ⟨.new metaFile, rfl, .new metaFile, MetaStore.keysNodup_hydrate _, ?_, ?_⟩
      · show (s.readsOf n).Pairwise _
        rw [h.reads n (Nat.le_of_not_lt hlen)]
        exact .nil
      · intro tip htip
        change tip ∈ s.readsOf n at htip
        rw [h.reads n (Nat.le_of_not_lt hlen)] at htip
        cases htip
  · intro n hn
    rw [List.length_append] at hn
    exact h.reads n (Nat.le_of_add_right_le hn)

/-- The store number `n` is replaced by one that is not behind it. -/
theorem Written.setStore (h : s.Written metaFile) {n : Nat} {store store' : MetaStore cfg}
    (hn : s.stores[n]? = some ⟨cfg, .ofStore store⟩)
    (hstore : IsStore ⟨cfg, .ofStore store⟩ store (s.readsOf n))
    (hadvances : MetaStore.Advances store store') (hkeys : Dict.KeysNodup store'.dedupBuckets)
    {file : Option Bytes} {metaFile' : Option MetaPayload} (hfile : IsFile file metaFile') :
    Written metaFile' { s with metaFile := file, stores := s.stores.set n ⟨cfg, .ofStore store'⟩ } := by
  refine ⟨hfile, ?_, ?_, h.raised⟩
  · intro m found hm
    by_cases hmn : n = m
    · subst hmn
      rw [List.getElem?_set_self (List.getElem?_eq_some_iff.mp hn).1] at hm
      obtain rfl := Option.some.inj hm
      refine ⟨store', rfl, hadvances.coherent, hkeys, hstore.ordered, ?_⟩
      intro tip htip
      have hle := hadvances.highWater
      have := hstore.seen tip htip
      omega
    · rw [List.getElem?_set_ne hmn] at hm
      exact h.stores m found hm
  · intro m hm
    rw [List.length_set] at hm
    exact h.reads m hm

theorem readsOf_append (s : SharedStores) (n m : Nat) (read : Option Int)
    (stores : List (Σ cfg, JsonMetaStore cfg))
    (raised : List Nat) :
    readsOf { s with stores, raised, reads := s.reads ++ read.toList.map fun tip => (n, tip) } m =
      s.readsOf m ++ if n = m then read.toList else [] := by
  cases read with
  | none => simp [readsOf]
  | some tip => by_cases hnm : n = m <;> simp [readsOf, hnm]

theorem Written.call (h : s.Written metaFile) (n : Nat) (op : JsonStoreOp) :
    (s.step (.call n op)).Written metaFile := by
  cases hn : s.stores[n]? with
  | none =>
    simp only [step, hn]
    exact h
  | some found =>
    obtain ⟨cfg, jstore⟩ := found
    obtain ⟨store, hstore⟩ : ∃ store : MetaStore cfg, IsStore ⟨cfg, jstore⟩ store (s.readsOf n) :=
      h.stores n _ hn
    obtain rfl : jstore = .ofStore store := hstore.store_eq
    obtain ⟨store', hcall⟩ := op.call_ofStore hstore.coherent hstore.keys h.file.keys
    rw [← h.file.bytes] at hcall
    simp only [step, hn, hcall.store_eq, hcall.raises, Bool.false_eq_true, ↓reduceIte]
    have hset := h.setStore hn hstore hcall.advances hcall.keys h.file
    refine ⟨h.file, ?_, ?_, h.raised⟩
    · intro m found hm
      obtain ⟨mstore, hmstore⟩ := hset.stores m found hm
      rw [readsOf_append]
      by_cases hnm : n = m
      · subst hnm
        have hfound : found = ⟨cfg, .ofStore store'⟩ := by
          rw [List.getElem?_set_self (List.getElem?_eq_some_iff.mp hn).1] at hm
          exact (Option.some.inj hm).symm
        subst hfound
        refine ⟨store', rfl, hcall.advances.coherent, hcall.keys, ?_, ?_⟩
        · rw [if_pos rfl]
          refine List.pairwise_append.mpr ⟨hstore.ordered, ?_, ?_⟩
          · cases (op.call (JsonMetaStore.ofStore store) s.metaFile).read <;> simp
          · -- an earlier answer is below the old mark, this one is the new one
            intro old hold tip htip
            have hle := hcall.advances.highWater
            have hseen := hstore.seen old hold
            have hnew := hcall.read tip (by simpa using htip)
            omega
        · intro tip htip
          rw [if_pos rfl] at htip
          rcases List.mem_append.mp htip with htip | htip
          · have hle := hcall.advances.highWater
            have hseen := hstore.seen tip htip
            omega
          · have hnew := hcall.read tip (by simpa using htip)
            omega
      · rw [if_neg hnm, List.append_nil]
        exact ⟨mstore, hmstore⟩
    · intro m hm
      have hlen : s.stores.length ≤ m := by simpa using hm
      have hlt := (List.getElem?_eq_some_iff.mp hn).1
      rw [readsOf_append, if_neg (by omega), List.append_nil]
      exact h.reads m hlen

/-- A file that is behind the store, or the one that there was. -/
theorem Written.persist (h : s.Written metaFile) (n : Nat) (fails : Bool) :
    ∃ metaFile', MetaStore.fileTip metaFile ≤ MetaStore.fileTip metaFile' ∧
      (s.step (.persist n fails)).Written metaFile' := by
  cases hn : s.stores[n]? with
  | none =>
    refine ⟨metaFile, Nat.le_refl _, ?_⟩
    simp only [step, hn]
    exact h
  | some found =>
    obtain ⟨cfg, jstore⟩ := found
    obtain ⟨store, hstore⟩ : ∃ store : MetaStore cfg, IsStore ⟨cfg, jstore⟩ store (s.readsOf n) :=
      h.stores n _ hn
    obtain rfl : jstore = .ofStore store := hstore.store_eq
    have hplan := JsonMetaStore.planPersist_ofStore store h.file.keys
    rw [← h.file.bytes] at hplan
    by_cases hgt : MetaStore.fileTip metaFile > store.memoryTip
    · rw [if_pos hgt] at hplan
      refine ⟨metaFile, Nat.le_refl _, ?_⟩
      simp only [step, hn, hplan]
      exact h.setStore hn hstore (MetaStore.withTip_advances hstore.coherent (Nat.le_of_lt hgt))
        hstore.keys h.file
    · rw [if_neg hgt] at hplan
      have hadvances := MetaStore.withTip_advances hstore.coherent (Nat.le_refl store.memoryTip)
      cases fails with
      | true =>
        refine ⟨metaFile, Nat.le_refl _, ?_⟩
        simp only [step, hn, hplan, ↓reduceIte]
        exact h.setStore hn hstore hadvances hstore.keys h.file
      | false =>
        refine ⟨some store.published, ?_, ?_⟩
        · have hle : store.memoryTip ≤ store.published.tip := Nat.le_max_left _ _
          show _ ≤ store.published.tip
          omega
        · simp only [step, hn, hplan, Bool.false_eq_true, ↓reduceIte,
            JsonMetaStore.publishedText_ofStore]
          have hkeys : Dict.KeysNodup store.published.seenTradeIds := by
            show Dict.KeysNodup store.serializeDedupBuckets
            unfold Dict.KeysNodup MetaStore.serializeDedupBuckets
            rw [List.map_map]
            exact hstore.keys
          exact h.setStore hn hstore hadvances hstore.keys ⟨rfl, hkeys⟩

/-- **A call keeps what is written**, and the tip of the file does not go back. -/
theorem Written.step (h : s.Written metaFile) (op : SharedStoresOp) :
    ∃ metaFile', MetaStore.fileTip metaFile ≤ MetaStore.fileTip metaFile' ∧
      (s.step op).Written metaFile' := by
  cases op with
  | create cfg => exact ⟨metaFile, Nat.le_refl _, h.create cfg⟩
  | call n op => exact ⟨metaFile, Nat.le_refl _, h.call n op⟩
  | persist n fails => exact h.persist n fails

theorem Written.exec (h : s.Written metaFile) (ops : List SharedStoresOp) :
    ∃ metaFile', MetaStore.fileTip metaFile ≤ MetaStore.fileTip metaFile' ∧
      (Run.exec SharedStores.step s ops).Written metaFile' := by
  induction ops generalizing s metaFile with
  | nil => exact ⟨metaFile, Nat.le_refl _, h⟩
  | cons op ops ih =>
    obtain ⟨middle, hle, hstep⟩ := h.step op
    obtain ⟨last, hle', hlast⟩ := ih hstep
    exact ⟨last, hle.trans hle', hlast⟩

end SharedStores

/-! ## The threads -/

namespace Publishers

variable {ι : Type} [DecidableEq ι]

/-- **The metadata file is never torn.** In a directory that starts without one, at any point of any
run, with whatever has raised or died: the file can be loaded, its tip is not below what it was, the
answers of the reads of one store are in order, and no call raised on what it read. -/
theorem never_torn (inst : ι → Nat) (timeoutSeconds : ι → Rat) (ops more : List (PublisherOp ι)) :
    let s := Run.exec (step inst timeoutSeconds) (start none) ops
    let s' := Run.exec (step inst timeoutSeconds) s more
    (∃ tip tip' : Nat, tip ≤ tip' ∧ ∀ rt, JsonMetaStore.fileTip rt s.disk.file = .ok tip ∧
      JsonMetaStore.fileTip rt s'.disk.file = .ok tip' ∧
      ∃ payload, JsonMetaStore.loadPayload rt s'.disk.file = .ok payload) ∧
    (∀ n, (s'.shared.readsOf n).Pairwise (· ≤ ·)) ∧ s'.raised = [] := by
  intro s s'
  have hinv : s.Inv inst := by
    have hstep : ∀ s op, Inv inst s → Inv inst (s.step inst timeoutSeconds op) :=
      fun _ op h => h.step op
    exact Run.exec_of_step hstep (inv_start inst none) ops
  have hshared : s.shared = _ := (inv_start inst none).shared_exec ops
  have hshared' : s'.shared = _ := hinv.shared_exec more
  obtain ⟨metaFile, -, hwritten⟩ := SharedStores.written_start.exec
    (Run.trace (step inst timeoutSeconds) (linearize inst) (start none) ops)
  have hs : s.shared.Written metaFile := hshared ▸ hwritten
  obtain ⟨metaFile', hle, hwritten'⟩ := hs.exec
    (Run.trace (step inst timeoutSeconds) (linearize inst) s more)
  have hs' : s'.shared.Written metaFile' := hshared' ▸ hwritten'
  refine ⟨⟨_, _, hle, fun rt => ⟨?_, ?_, ?_⟩⟩, hs'.reads_pairwise, hs'.raised⟩
  · rw [show s.disk.file = _ from hs.file.bytes]
    exact JsonMetaStore.fileTip_bytes hs.file.keys
  · rw [show s'.disk.file = _ from hs'.file.bytes]
    exact JsonMetaStore.fileTip_bytes hs'.file.keys
  · rw [show s'.disk.file = _ from hs'.file.bytes]
    exact ⟨_, JsonMetaStore.loadPayload_bytes hs'.file.keys⟩

end Publishers

end Leviathan
