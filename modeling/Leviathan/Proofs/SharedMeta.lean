import Leviathan.Journal.HighWater
import Leviathan.Lib.Run

/-!
# Tips never rewind

Any number of `TickJournalMetaStore` objects share one metadata file. Each knows a tip of its own
and a high-water mark of the tips that it has seen; the file states a third one. The file lock makes
a `persist` one step.

* `StoreOp.call_advances`: what one call does to the store and to the file.
* `tips_never_rewind`: **no run lowers the tip in the file, the tip of a store, or what
  `read_latest_seq_from_disk` returns.**
-/

namespace Leviathan

variable {cfg : Config}

/-! ## One store -/

/-- A method of `TickJournalMetaStore`, or of the index that works on it. -/
inductive StoreOp where
  | setLatestSeq (seq : Nat)
  | ensureLatestSeqAtLeast (seq : Nat)
  | recordSeqIndex (seq byteOffset : Nat)
  | persist
  | readLatestSeqFromDisk
  | reloadFromDisk
  | reloadSeqIndexFromDisk

/-- The store and the file after a call, and what `read_latest_seq_from_disk` returned. -/
structure Called (cfg : Config) where
  store : MetaStore cfg
  metaFile : Option MetaPayload
  read : Option Nat

namespace StoreOp

def call (store : MetaStore cfg) (metaFile : Option MetaPayload) : StoreOp → Called cfg
  | .setLatestSeq seq => ⟨store.setLatestSeq seq, metaFile, none⟩
  | .ensureLatestSeqAtLeast seq => ⟨(store.ensureLatestSeqAtLeast seq).1, metaFile, none⟩
  | .recordSeqIndex seq byteOffset => ⟨store.recordSeqIndex seq byteOffset, metaFile, none⟩
  | .persist => ⟨(store.persist metaFile).1, (store.persist metaFile).2, none⟩
  | .readLatestSeqFromDisk =>
    ⟨(store.readLatestSeqFromDisk metaFile).1, metaFile,
      some (store.readLatestSeqFromDisk metaFile).2⟩
  | .reloadFromDisk => ⟨store.reloadFromDisk metaFile, metaFile, none⟩
  | .reloadSeqIndexFromDisk => ⟨store.reloadSeqIndexFromDisk metaFile, metaFile, none⟩

end StoreOp

/-- **What a call does**: nothing is lowered, and a read answers with the new high-water mark. -/
theorem StoreOp.call_advances {store : MetaStore cfg} (h : store.Coherent)
    (metaFile : Option MetaPayload) (op : StoreOp) :
    MetaStore.Advances store (op.call store metaFile).store ∧
      MetaStore.fileTip metaFile ≤ MetaStore.fileTip (op.call store metaFile).metaFile ∧
      ∀ tip ∈ (op.call store metaFile).read,
        tip = (op.call store metaFile).store.diskTipHighWater := by
  cases op with
  | setLatestSeq seq =>
    exact ⟨MetaStore.setLatestSeq_advances store seq, Nat.le_refl _, by simp [call]⟩
  | ensureLatestSeqAtLeast seq =>
    exact ⟨MetaStore.setLatestSeq_advances store seq, Nat.le_refl _, by simp [call]⟩
  | recordSeqIndex seq byteOffset =>
    exact ⟨MetaStore.replaceSeqIndex_advances h _, Nat.le_refl _, by simp [call]⟩
  | persist =>
    exact ⟨MetaStore.persist_advances h metaFile, MetaStore.fileTip_persist store metaFile,
      by simp [call]⟩
  | readLatestSeqFromDisk =>
    obtain ⟨hadv, htip⟩ := MetaStore.readLatestSeqFromDisk_advances h metaFile
    refine ⟨hadv, Nat.le_refl _, fun tip ht => ?_⟩
    rw [← Option.some.inj ht]
    exact htip
  | reloadFromDisk =>
    exact ⟨MetaStore.reloadFromDisk_advances h metaFile, Nat.le_refl _, by simp [call]⟩
  | reloadSeqIndexFromDisk =>
    exact ⟨MetaStore.replaceSeqIndex_advances h _, Nat.le_refl _, by simp [call]⟩

/-! ## Many stores -/

/-- The stores that share a metadata file, in the order they were created, each with the arguments
that it was created with. -/
structure SharedMeta where
  metaFile : Option MetaPayload
  stores : List (Σ cfg, MetaStore cfg)
  /-- what `read_latest_seq_from_disk` returned, with the number of the store, in order -/
  reads : List (Nat × Nat)

inductive SharedMetaOp where
  /-- `TickJournalMetaStore(meta_path, ..)` -/
  | create (cfg : Config)
  /-- a call on the store with this number, if there is one -/
  | call (i : Nat) (op : StoreOp)

namespace SharedMeta

/-- No store, and no file. -/
def start : SharedMeta := ⟨none, [], []⟩

def step (s : SharedMeta) : SharedMetaOp → SharedMeta
  | .create cfg => { s with stores := s.stores ++ [⟨cfg, .new s.metaFile⟩] }
  | .call i op =>
    match s.stores[i]? with
    | none => s
    | some ⟨cfg, store⟩ =>
      let called := op.call store s.metaFile
      { metaFile := called.metaFile
        stores := s.stores.set i ⟨cfg, called.store⟩
        reads := s.reads ++ called.read.toList.map fun tip => (i, tip) }

/-- What the reads of one store returned, in order. -/
def readsOf (s : SharedMeta) (i : Nat) : List Nat :=
  (s.reads.filter fun read => read.1 = i).map Prod.snd

/-- The tip of a store; `0` before it is created. -/
def latestSeqOf (s : SharedMeta) (i : Nat) : Nat :=
  (s.stores[i]?.map fun store => store.2.latestSeq).getD 0

/-- The high-water mark of a store. -/
def highWaterOf (s : SharedMeta) (i : Nat) : Nat :=
  (s.stores[i]?.map fun store => store.2.diskTipHighWater).getD 0

/-- The stores are coherent, and the reads of each are in order and below its high-water mark. -/
structure Ordered (s : SharedMeta) : Prop where
  coherent : ∀ store ∈ s.stores, store.2.Coherent
  reads : ∀ i, (s.readsOf i).Pairwise (· ≤ ·)
  seen : ∀ i, ∀ tip ∈ s.readsOf i, tip ≤ s.highWaterOf i

theorem ordered_start : start.Ordered :=
  ⟨by simp [start], fun _ => by simp [start, readsOf], fun _ => by simp [start, readsOf]⟩

/-- Nothing is lowered. -/
structure NoRewind (s s' : SharedMeta) : Prop where
  fileTip : MetaStore.fileTip s.metaFile ≤ MetaStore.fileTip s'.metaFile
  latestSeq : ∀ i, s.latestSeqOf i ≤ s'.latestSeqOf i
  highWater : ∀ i, s.highWaterOf i ≤ s'.highWaterOf i

variable {s : SharedMeta}

theorem readsOf_append (s : SharedMeta) (metaFile : Option MetaPayload)
    (stores : List (Σ cfg, MetaStore cfg)) (i j : Nat) (read : Option Nat) :
    readsOf ⟨metaFile, stores, s.reads ++ read.toList.map fun tip => (i, tip)⟩ j =
      s.readsOf j ++ if i = j then read.toList else [] := by
  rcases read with _ | tip
  · simp [readsOf]
  · by_cases hij : i = j <;> simp [readsOf, hij]

theorem step_create (s : SharedMeta) (h : s.Ordered) (cfg : Config) :
    (s.step (.create cfg)).Ordered ∧ NoRewind s (s.step (.create cfg)) := by
  have hhigh : ∀ i, s.highWaterOf i ≤ (s.step (.create cfg)).highWaterOf i := by
    intro i
    rcases Nat.lt_or_ge i s.stores.length with hi | hi
    · simp [highWaterOf, step, List.getElem?_append_left hi]
    · simp [highWaterOf, List.getElem?_eq_none hi]
  refine ⟨⟨fun store hmem => ?_, h.reads, fun i tip ht => (h.seen i tip ht).trans (hhigh i)⟩,
    Nat.le_refl _, fun i => ?_, hhigh⟩
  · rcases List.mem_append.mp hmem with hmem | hmem
    · exact h.coherent store hmem
    · rw [List.mem_singleton.mp hmem]
      exact .new s.metaFile
  · rcases Nat.lt_or_ge i s.stores.length with hi | hi
    · simp [latestSeqOf, step, List.getElem?_append_left hi]
    · simp [latestSeqOf, List.getElem?_eq_none hi]

section Call

variable {i : Nat} {cfg : Config} {store : MetaStore cfg}

theorem latestSeqOf_of_get (h : s.stores[i]? = some ⟨cfg, store⟩) :
    s.latestSeqOf i = store.latestSeq := by
  simp [latestSeqOf, h]

theorem highWaterOf_of_get (h : s.stores[i]? = some ⟨cfg, store⟩) :
    s.highWaterOf i = store.diskTipHighWater := by
  simp [highWaterOf, h]

theorem step_call_eq (h : s.stores[i]? = some ⟨cfg, store⟩) (op : StoreOp) :
    s.step (.call i op) =
      ⟨(op.call store s.metaFile).metaFile, s.stores.set i ⟨cfg, (op.call store s.metaFile).store⟩,
        s.reads ++ (op.call store s.metaFile).read.toList.map fun tip => (i, tip)⟩ := by
  simp only [step, h]

theorem step_call_self (h : s.stores[i]? = some ⟨cfg, store⟩) (op : StoreOp) :
    (s.step (.call i op)).stores[i]? = some ⟨cfg, (op.call store s.metaFile).store⟩ := by
  obtain ⟨hi, -⟩ := List.getElem?_eq_some_iff.mp h
  rw [step_call_eq h, List.getElem?_set_self hi]

theorem step_call_other (h : s.stores[i]? = some ⟨cfg, store⟩) (op : StoreOp) {j : Nat}
    (hj : i ≠ j) : (s.step (.call i op)).stores[j]? = s.stores[j]? := by
  rw [step_call_eq h, List.getElem?_set_ne hj]

theorem step_call_readsOf (h : s.stores[i]? = some ⟨cfg, store⟩) (op : StoreOp) (j : Nat) :
    (s.step (.call i op)).readsOf j =
      s.readsOf j ++ if i = j then (op.call store s.metaFile).read.toList else [] := by
  rw [step_call_eq h, readsOf_append]

theorem step_call_noRewind (h : s.stores[i]? = some ⟨cfg, store⟩) (hc : store.Coherent)
    (op : StoreOp) : NoRewind s (s.step (.call i op)) := by
  obtain ⟨hadv, hfile, -⟩ := op.call_advances hc s.metaFile
  refine ⟨by rw [step_call_eq h]; exact hfile, ?_, ?_⟩
  · intro j
    by_cases hj : i = j
    · subst hj
      rw [latestSeqOf_of_get h, latestSeqOf_of_get (step_call_self h op)]
      exact hadv.latestSeq
    · simp only [latestSeqOf, step_call_other h op hj, Nat.le_refl]
  · intro j
    by_cases hj : i = j
    · subst hj
      rw [highWaterOf_of_get h, highWaterOf_of_get (step_call_self h op)]
      exact hadv.highWater
    · simp only [highWaterOf, step_call_other h op hj, Nat.le_refl]

theorem step_call_ordered (h : s.stores[i]? = some ⟨cfg, store⟩) (ho : s.Ordered)
    (op : StoreOp) : (s.step (.call i op)).Ordered := by
  have hc : store.Coherent := ho.coherent ⟨cfg, store⟩ (List.mem_of_getElem? h)
  obtain ⟨hadv, -, hread⟩ := op.call_advances hc s.metaFile
  refine ⟨?_, ?_, ?_⟩
  · intro store' hmem
    rw [step_call_eq h] at hmem
    rcases List.mem_or_eq_of_mem_set hmem with hmem | rfl
    · exact ho.coherent store' hmem
    · exact hadv.coherent
  · intro j
    rw [step_call_readsOf h]
    by_cases hj : i = j
    · subst hj
      rw [if_pos rfl]
      refine List.pairwise_append.mpr ⟨ho.reads i, ?_, ?_⟩
      · rcases (op.call store s.metaFile).read with _ | tip <;> simp
      · -- an earlier answer is below the old high-water mark, this one is the new mark
        intro old hold tip ht
        have hseen := ho.seen i old hold
        rw [highWaterOf_of_get h] at hseen
        rw [hread tip (by simpa using ht)]
        exact hseen.trans hadv.highWater
    · rw [if_neg hj, List.append_nil]
      exact ho.reads j
  · intro j tip ht
    rw [step_call_readsOf h] at ht
    rcases List.mem_append.mp ht with ht | ht
    · exact (ho.seen j tip ht).trans ((step_call_noRewind h hc op).highWater j)
    · by_cases hj : i = j
      · subst hj
        rw [if_pos rfl] at ht
        rw [highWaterOf_of_get (step_call_self h op)]
        exact Nat.le_of_eq (hread tip (by simpa using ht))
      · simp [hj] at ht

end Call

theorem step_call (s : SharedMeta) (h : s.Ordered) (i : Nat) (op : StoreOp) :
    (s.step (.call i op)).Ordered ∧ NoRewind s (s.step (.call i op)) := by
  rcases hget : s.stores[i]? with _ | ⟨cfg, store⟩
  · have hs : s.step (.call i op) = s := by simp only [step, hget]
    rw [hs]
    exact ⟨h, Nat.le_refl _, fun _ => Nat.le_refl _, fun _ => Nat.le_refl _⟩
  · have hc : store.Coherent := h.coherent ⟨cfg, store⟩ (List.mem_of_getElem? hget)
    exact ⟨step_call_ordered hget h op, step_call_noRewind hget hc op⟩

theorem step_ordered (s : SharedMeta) (op : SharedMetaOp) (h : s.Ordered) :
    (s.step op).Ordered ∧ NoRewind s (s.step op) := by
  cases op with
  | create cfg => exact s.step_create h cfg
  | call i op => exact s.step_call h i op

/-- **No tip is ever lowered**, from any reachable state on: not the one in the file, not that of a
store, and the answers of one store's reads are in order. -/
theorem tips_never_rewind (ops more : List SharedMetaOp) :
    let s := Run.exec step start ops
    let s' := Run.exec step s more
    MetaStore.fileTip s.metaFile ≤ MetaStore.fileTip s'.metaFile ∧
      (∀ i, s.latestSeqOf i ≤ s'.latestSeqOf i) ∧
      ∀ i, (s'.readsOf i).Pairwise (· ≤ ·) := by
  intro s s'
  have hinv : ∀ (s : SharedMeta) op, s.Ordered → (s.step op).Ordered :=
    fun s op h => (s.step_ordered op h).1
  have hs : s.Ordered := Run.exec_of_step hinv ordered_start ops
  refine ⟨?_, fun i => ?_, (Run.exec_of_step hinv hs more).reads⟩
  · exact Run.exec_mono (f := fun s : SharedMeta => MetaStore.fileTip s.metaFile) hinv
      (fun s op h => (s.step_ordered op h).2.fileTip) hs more
  · exact Run.exec_mono (f := fun s : SharedMeta => s.latestSeqOf i) hinv
      (fun s op h => (s.step_ordered op h).2.latestSeq i) hs more

end SharedMeta

end Leviathan
