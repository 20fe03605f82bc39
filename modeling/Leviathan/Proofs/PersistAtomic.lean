import Leviathan.Journal.Publishers

/-!
# `persist` is atomic

* `Ready`: a store that is written under the file lock would still be written.
* `Publishers.Inv`: one thread at a time is in `persist`, with a store that is ready.
* `persist_linearizable`: **every run of the threads, with any of their calls cut off, ends as the
  calls on the stores that it stands for, each in one step.** A `persist` that writes stands for two
  of them, one at its comparison and one at its rename.
-/

namespace Leviathan

open Py

variable {cfg : Config}

/-! ## A store that is being written -/

namespace JsonMetaStore

variable {store store' : JsonMetaStore cfg} {metaFile : Option Bytes}

/-- `persist` would write the store as it is. -/
def Ready (store : JsonMetaStore cfg) (metaFile : Option Bytes) : Prop :=
  store.planPersist metaFile = .publish store

theorem diskTipHighWater_withTip {tip : Nat} (h : store.diskTipHighWater ≤ tip) :
    (store.withTip tip).diskTipHighWater = tip := by
  simp only [withTip]
  split <;> omega

/-- A tip that is set again. -/
theorem withTip_withTip {tip : Nat} (h : store.diskTipHighWater ≤ tip) :
    (store.withTip tip).withTip tip = store.withTip tip := by
  have hhigh := diskTipHighWater_withTip h
  show JsonMetaStore.mk _ _ _ = _
  rw [hhigh]
  simp only [withTip, Dict.set_set, gt_iff_lt, lt_irrefl, ↓reduceIte] at hhigh ⊢
  rw [hhigh]

/-- **A store is written as it is** once `persist` has decided. -/
theorem ready_of_publish (h : store.planPersist metaFile = .publish store') :
    store'.Ready metaFile := by
  unfold planPersist at h
  split at h
  · cases h
  · rename_i latestSeq _
    have hle : store.diskTipHighWater ≤ max latestSeq.toNat store.diskTipHighWater :=
      Nat.le_max_right _ _
    generalize max latestSeq.toNat store.diskTipHighWater = tip at h hle
    simp only at h
    have hready : ∀ e, fileTip cfg.toRuntime metaFile = e →
        (∀ err, e = .error err → err.isValueError = true) → (∀ t, e = .ok t → t ≤ tip) →
        (store.withTip tip).Ready metaFile := by
      intro e he herr hok
      unfold Ready planPersist
      rw [latestSeq_withTip, diskTipHighWater_withTip hle, he]
      cases e with
      | error err => simp [herr err rfl, withTip_withTip hle]
      | ok t =>
        have ht := hok t rfl
        simp [Nat.not_lt.mpr ht, Nat.max_eq_left ht, withTip_withTip hle]
    split at h
    · rename_i err hfile
      split at h
      · rename_i hvalue
        cases h
        exact hready _ hfile (by rintro _ ⟨⟩; exact hvalue) nofun
      · cases h
    · rename_i diskTip hfile
      split at h
      · cases h
      · rename_i hgt
        have hmax : max tip diskTip = tip := Nat.max_eq_left (Nat.le_of_not_lt hgt)
        rw [hmax] at h
        cases h
        exact hready _ hfile nofun (by rintro _ ⟨⟩; exact Nat.le_of_not_lt hgt)

/-- The file is not ahead of a store that is ready. -/
theorem Ready.fileTip_le (h : store.Ready metaFile) {diskTip : Nat}
    (hfile : fileTip cfg.toRuntime metaFile = .ok diskTip) : diskTip ≤ store.diskTipHighWater := by
  unfold Ready planPersist at h
  split at h
  · cases h
  · rw [hfile] at h
    simp only at h
    split at h
    · cases h
    · rename_i latestSeq _ hgt
      have hhigh := congrArg JsonMetaStore.diskTipHighWater (PersistPlan.publish.inj h)
      simp only [withTip] at hhigh
      split at hhigh <;> omega

/-- **A store that is ready is not changed by a read of the tip.** -/
theorem Ready.readLatestSeqFromDisk (h : store.Ready metaFile) :
    (store.readLatestSeqFromDisk metaFile).1 = store := by
  unfold JsonMetaStore.readLatestSeqFromDisk
  cases hload : loadPayload cfg.toRuntime metaFile with
  | error e =>
    simp only
    split <;> rfl
  | ok diskMeta =>
    simp only
    cases hraw : pyInt cfg.toRuntime (latestSeqField diskMeta) with
    | error e => rfl
    | ok raw =>
      simp only
      cases hindex : maxSeqFromSeqIndex cfg.toRuntime (seqIndexField diskMeta) with
      | error e => rfl
      | ok indexTip =>
        have htip : max raw.toNat indexTip ≤ store.diskTipHighWater := by
          cases metaFile with
          | none =>
            cases hload
            cases hraw
            cases hindex
            exact Nat.zero_le _
          | some file =>
            refine h.fileTip_le ?_
            simp only [fileTip, reduceCtorEq, ↓reduceIte, hload, hraw, hindex, bind, Except.bind]
            rfl
        simp [Nat.max_eq_right htip]

end JsonMetaStore

/-! ## Calls in one step -/

namespace SharedStores

variable {s : SharedStores}

/-- The store number `n` after a call on another one, or after a read of the tip. -/
theorem step_call_getElem? {n m : Nat} {store : JsonMetaStore cfg} {op : JsonStoreOp}
    (hm : s.stores[m]? = some ⟨cfg, store⟩) (hready : store.Ready s.metaFile)
    (hop : n ≠ m ∨ op = .readLatestSeqFromDisk) :
    (s.step (.call n op)).stores[m]? = some ⟨cfg, store⟩ := by
  unfold step
  cases hn : s.stores[n]? with
  | none => simpa only [hn] using hm
  | some found =>
    obtain ⟨cfg', store'⟩ := found
    simp only [hn]
    by_cases hnm : n = m
    · subst hnm
      obtain ⟨⟩ := Option.some.inj (hn.symm.trans hm)
      obtain rfl : op = .readLatestSeqFromDisk := by simpa using hop
      have hcall : (JsonStoreOp.call store s.metaFile .readLatestSeqFromDisk).store = store := by
        have hread := hready.readLatestSeqFromDisk
        simp only [JsonStoreOp.call]
        split
        · rename_i he
          rw [he] at hread
          exact hread
        · rename_i he
          rw [he] at hread
          exact hread
      rw [hcall, List.getElem?_set_self (List.getElem?_eq_some_iff.mp hm).1]
    · rw [List.getElem?_set_ne hnm]
      exact hm

theorem step_create_getElem? {m : Nat} {found : Σ cfg, JsonMetaStore cfg}
    (hm : s.stores[m]? = some found) (cfg : Config) :
    (s.step (.create cfg)).stores[m]? = some found := by
  simp only [step]
  split
  · rw [List.getElem?_append_left (List.getElem?_eq_some_iff.mp hm).1]
    exact hm
  · exact hm

theorem step_create_metaFile (s : SharedStores) (cfg : Config) :
    (s.step (.create cfg)).metaFile = s.metaFile := by
  simp only [step]
  split <;> rfl

theorem step_call_metaFile (s : SharedStores) (n : Nat) (op : JsonStoreOp) :
    (s.step (.call n op)).metaFile = s.metaFile := by
  simp only [step]
  split <;> rfl

theorem step_persist_fails_metaFile (s : SharedStores) (n : Nat) :
    (s.step (.persist n true)).metaFile = s.metaFile := by
  simp only [step]
  split
  · rfl
  · split <;> rfl

/-- A `persist` of a store that is ready leaves the store, and writes it. -/
theorem step_persist_ready {n : Nat} {store : JsonMetaStore cfg}
    (hn : s.stores[n]? = some ⟨cfg, store⟩) (hready : store.Ready s.metaFile) :
    s.step (.persist n false) = { s with metaFile := some store.publishedText } := by
  unfold JsonMetaStore.Ready at hready
  obtain ⟨hlt, hget⟩ := List.getElem?_eq_some_iff.mp hn
  have hset : s.stores.set n ⟨cfg, store⟩ = s.stores := by rw [← hget, List.set_getElem_self]
  simp only [step, hn, hready, Bool.false_eq_true, ↓reduceIte, hset]

end SharedStores

/-! ## The threads -/

namespace PersistStage

/-- What the thread is to write. -/
def text : PersistStage → Option Bytes
  | .idle => none
  | .opening text | .writing text => some text

end PersistStage

namespace Publishers

variable {ι : Type} {inst : ι → Nat} {s : Publishers ι}

/-- One thread at a time is in `persist`; it has the locks, and its store is ready. -/
structure Inv (inst : ι → Nat) (s : Publishers ι) : Prop where
  locks : s.locks.Consistent
  held : ∀ n i, s.threadLock n = some i → inst i = n ∧ s.locks.Acquired i
  staged : ∀ i, s.stage i ≠ .idle → s.threadLock (inst i) = some i
  ready : ∀ i, ∀ text ∈ (s.stage i).text, ∃ cfg store,
    s.stores[inst i]? = some ⟨cfg, store⟩ ∧ store.Ready s.disk.file ∧ store.publishedText = text
  save : ∀ i text, s.stage i = .writing text → s.disk.save.map Save.text = some text

theorem inv_start (inst : ι → Nat) (metaFile : Option Bytes) :
    (start metaFile : Publishers ι).Inv inst :=
  ⟨FileLocks.consistent_start, nofun, fun _ h => absurd rfl h, nofun, nofun⟩

/-- Two threads that hold thread locks are one. -/
theorem Inv.holder_unique (h : s.Inv inst) {n m : Nat} {i j : ι} (hi : s.threadLock n = some i)
    (hj : s.threadLock m = some j) : i = j :=
  h.locks.exclusive (h.held n i hi).2 (h.held m j hj).2

/-- The other threads are not in `persist`. -/
theorem Inv.others_idle (h : s.Inv inst) {n : Nat} {i : ι} (hi : s.threadLock n = some i) {j : ι}
    (hj : j ≠ i) : s.stage j = .idle := by
  by_contra hstage
  exact hj (h.holder_unique (h.staged j hstage) hi)

/-- The thread lock of a store is taken. -/
theorem Inv.lockThread (h : s.Inv inst) {i : ι} (hacq : s.locks.Acquired i)
    (hfree : s.threadLock (inst i) = none) :
    Inv inst { s with threadLock := Function.update s.threadLock (inst i) (some i) } := by
  have hidle : ∀ j, s.stage j = .idle := by
    intro j
    by_contra hstage
    have hj := h.staged j hstage
    obtain rfl := h.locks.exclusive (h.held _ j hj).2 hacq
    rw [hfree] at hj
    cases hj
  refine ⟨h.locks, ?_, fun j hj => absurd (hidle j) hj, h.ready, h.save⟩
  intro n j hj
  by_cases hn : n = inst i
  · subst hn
    simp only [Function.update_self, Option.some.injEq] at hj
    subst hj
    exact ⟨rfl, hacq⟩
  · simp only [Function.update_of_ne hn] at hj
    exact h.held n j hj

/-- A step of the calls leaves the file. -/
theorem Inv.callShared (h : s.Inv inst) {op : SharedStoresOp}
    (hkeeps : ∀ i cfg store, s.stage i ≠ .idle → s.stores[inst i]? = some ⟨cfg, store⟩ →
      store.Ready s.disk.file → (s.shared.step op).stores[inst i]? = some ⟨cfg, store⟩) :
    (s.callShared op).Inv inst := by
  refine ⟨h.locks, h.held, h.staged, ?_, h.save⟩
  intro i text htext
  change text ∈ (s.stage i).text at htext
  obtain ⟨cfg, store, hget, hready, hpub⟩ := h.ready i text htext
  have hstage : s.stage i ≠ .idle := by
    intro hidle
    rw [hidle] at htext
    cases htext
  exact ⟨cfg, store, hkeeps i cfg store hstage hget hready, hready, hpub⟩

/-- What `persist` decides for a store. -/
theorem planText_eq {n : Nat} {text : Bytes} (h : s.planText n = some text) :
    ∃ cfg store, (s.callShared (.persist n true)).stores[n]? = some ⟨cfg, store⟩ ∧
      store.Ready s.disk.file ∧ store.publishedText = text := by
  unfold planText at h
  split at h
  · cases h
  · rename_i cfg store hget
    split at h
    · rename_i store' hplan
      cases h
      refine ⟨cfg, store', ?_, JsonMetaStore.ready_of_publish hplan, rfl⟩
      show (s.shared.step _).stores[n]? = _
      have hlt := (List.getElem?_eq_some_iff.mp hget).1
      simp only [SharedStores.step, shared, hget, hplan, List.getElem?_set_self hlt]
    · cases h

section Steps

variable [DecidableEq ι] {timeoutSeconds : ι → Rat}

theorem holds_iff {i : ι} : s.Holds inst i = true ↔
    s.killed (inst i) = false ∧ s.threadLock (inst i) = some i ∧ s.stage i = .idle := by
  simp [Holds, and_assoc]

/-- No thread is in `persist` while one that is not has the locks. -/
theorem Inv.all_idle (h : s.Inv inst) {i : ι} (hi : s.Holds inst i = true) (j : ι) :
    s.stage j = .idle := by
  obtain ⟨-, hheld, hidle⟩ := holds_iff.mp hi
  by_cases hj : j = i
  · rw [hj]
    exact hidle
  · exact h.others_idle hheld hj

/-- A thread goes to another place in `persist`, and the file stays. -/
theorem Inv.setStage (h : s.Inv inst) {i : ι} {stage : PersistStage} {disk : AtomicFile UInt8}
    (hheld : stage ≠ .idle → s.threadLock (inst i) = some i)
    (hready : ∀ text ∈ stage.text, ∃ cfg store,
      s.stores[inst i]? = some ⟨cfg, store⟩ ∧ store.Ready s.disk.file ∧ store.publishedText = text)
    (hothers : ∀ j, j ≠ i → s.stage j = .idle)
    (hsave : ∀ text, stage = .writing text → disk.save.map Save.text = some text)
    (hfile : disk.file = s.disk.file) :
    Inv inst { s.setStage i stage with disk } := by
  refine ⟨h.locks, h.held, ?_, ?_, ?_⟩
  · intro j hj
    by_cases hji : j = i
    · subst hji
      simp only [Publishers.setStage, Function.update_self] at hj
      exact hheld hj
    · simp only [Publishers.setStage, Function.update_of_ne hji] at hj
      exact h.staged j hj
  · intro j text htext
    by_cases hji : j = i
    · subst hji
      simp only [Publishers.setStage, Function.update_self] at htext
      obtain ⟨cfg, store, hget, hready, hpub⟩ := hready text htext
      exact ⟨cfg, store, hget, hfile ▸ hready, hpub⟩
    · simp only [Publishers.setStage, Function.update_of_ne hji, hothers j hji] at htext
      cases htext
  · intro j text hj
    by_cases hji : j = i
    · subst hji
      simp only [Publishers.setStage, Function.update_self] at hj
      exact hsave text hj
    · simp only [Publishers.setStage, Function.update_of_ne hji, hothers j hji] at hj
      cases hj

/-- A thread leaves `persist`. -/
theorem Inv.toIdle (h : s.Inv inst) {i : ι} (hi : s.threadLock (inst i) = some i)
    {disk : AtomicFile UInt8} : Inv inst { s.setStage i .idle with disk } := by
  have hidle : ∀ j, (s.setStage i .idle).stage j = .idle := by
    intro j
    by_cases hji : j = i
    · rw [hji]
      exact Function.update_self ..
    · simp only [Publishers.setStage, Function.update_of_ne hji]
      exact h.others_idle hi hji
  refine ⟨h.locks, h.held, fun j hj => absurd (hidle j) hj, ?_, ?_⟩
  · intro j text htext
    simp only [hidle j] at htext
    cases htext
  · intro j text hj
    simp only [hidle j] at hj
    cases hj

/-- A step of a thread's own file lock. -/
theorem Inv.lock (h : s.Inv inst) {i : ι} {event : LockEvent ι}
    (hallowed : s.LockAllowed inst i event = true) :
    Inv inst { s with locks := s.locks.step timeoutSeconds event } := by
  refine ⟨h.locks.step event, ?_, h.staged, h.ready, h.save⟩
  intro n j hj
  obtain ⟨hinst, hacq⟩ := h.held n j hj
  refine ⟨hinst, FileLocks.acquired_step hacq ?_ ?_⟩
  · rintro rfl
    -- the thread lock is given back first
    simp only [LockAllowed, Bool.and_eq_true, decide_eq_true_eq, ne_eq,
      Bool.not_eq_true'] at hallowed
    obtain ⟨-, rfl, hnot⟩ := hallowed
    exact hnot (hinst ▸ hj)
  · rintro dies rfl
    simp [LockAllowed] at hallowed

/-- It is given back by a thread that is not in `persist`. -/
theorem Inv.unlockThread (h : s.Inv inst) {i : ι} (hi : s.Holds inst i = true) :
    Inv inst { s with threadLock := Function.update s.threadLock (inst i) none } := by
  refine ⟨h.locks, ?_, fun j hj => absurd (h.all_idle hi j) hj, h.ready, h.save⟩
  intro n j hj
  by_cases hn : n = inst i
  · subst hn
    simp at hj
  · simp only [Function.update_of_ne hn] at hj
    exact h.held n j hj

/-- Processes die, and with them what their threads were doing. -/
theorem Inv.kill (h : s.Inv inst) (dies : Nat → Bool) :
    (s.step inst timeoutSeconds (.kill dies)).Inv inst := by
  have hlives : ∀ j, (s.step inst timeoutSeconds (.kill dies)).stage j ≠ .idle →
      dies (inst j) = false ∧ (s.step inst timeoutSeconds (.kill dies)).stage j = s.stage j := by
    intro j hj
    simp only [step] at hj ⊢
    split at hj
    · exact absurd rfl hj
    · rename_i hd
      rw [if_neg hd]
      exact ⟨Bool.eq_false_iff.mpr hd, rfl⟩
  refine ⟨h.locks.killThreads _, ?_, ?_, ?_, ?_⟩
  · intro n j hj
    simp only [step] at hj
    split at hj
    · cases hj
    · rename_i hd
      obtain ⟨rfl, hacq⟩ := h.held n j hj
      exact ⟨rfl, FileLocks.acquired_killThreads hacq (Bool.eq_false_iff.mpr hd)⟩
  · intro j hj
    obtain ⟨hd, he⟩ := hlives j hj
    simp only [step, hd, Bool.false_eq_true, ↓reduceIte]
    exact h.staged j (he ▸ hj)
  · intro j text htext
    have hj : (s.step inst timeoutSeconds (.kill dies)).stage j ≠ .idle := by
      intro hidle
      rw [hidle] at htext
      cases htext
    exact h.ready j text ((hlives j hj).2 ▸ htext)
  · intro j text hj
    exact h.save j text ((hlives j (by rw [hj]; simp)).2 ▸ hj)

/-- **Every step keeps the invariant.** -/
theorem Inv.step (h : s.Inv inst) (op : PublisherOp ι) : (s.step inst timeoutSeconds op).Inv inst := by
  have hvacuous : ∀ {i} {op : SharedStoresOp}, s.Holds inst i = true →
      (s.callShared op).Inv inst := fun {i} _ hi =>
    h.callShared fun j _ _ hstage _ _ => absurd (h.all_idle hi j) hstage
  cases op with
  | lock i event =>
    simp only [Publishers.step]
    split
    · rename_i hallowed
      exact h.lock hallowed
    · exact h
  | create cfg =>
    exact h.callShared fun j _ _ _ hget _ => SharedStores.step_create_getElem? hget cfg
  | lockThread i =>
    simp only [Publishers.step]
    split
    · rename_i handle hphase hfree
      split
      · exact h
      · exact h.lockThread ⟨handle, hphase⟩ hfree
    · exact h
  | unlockThread i =>
    simp only [Publishers.step]
    split
    · rename_i hi
      exact h.unlockThread hi
    · exact h
  | call n op =>
    simp only [Publishers.step]
    split
    · rename_i hallowed
      refine h.callShared fun j cfg store hstage hget hready =>
        SharedStores.step_call_getElem? hget hready ?_
      -- the thread in `persist` has the thread lock of its store
      simp only [CallAllowed, Bool.and_eq_true, Bool.or_eq_true, decide_eq_true_eq] at hallowed
      rcases hallowed.2 with hfree | hread
      · refine .inl ?_
        rintro rfl
        rw [h.staged j hstage] at hfree
        cases hfree
      · exact .inr hread
    · exact h
  | callLocked i op =>
    simp only [Publishers.step]
    split
    · rename_i hi
      exact hvacuous hi
    · exact h
  | compare i =>
    simp only [Publishers.step]
    split
    · rename_i hi
      have hcalled : (s.callShared (.persist (inst i) true)).Inv inst := hvacuous hi
      split
      · exact hcalled
      · rename_i text hplan
        refine hcalled.setStage (fun _ => (holds_iff.mp hi).2.1) ?_
          (fun j _ => h.all_idle hi j) nofun rfl
        rintro _ ⟨⟩
        exact planText_eq hplan
    · exact h
  | openTemp i raises =>
    cases hstage : s.stage i with
    | idle | writing text => simpa only [Publishers.step, hstage] using h
    | opening text =>
      have hheld := h.staged i (by rw [hstage]; simp)
      cases raises with
      | true =>
        simp only [Publishers.step, hstage, ↓reduceIte]
        exact h.toIdle hheld
      | false =>
        simp only [Publishers.step, hstage, Bool.false_eq_true, ↓reduceIte]
        refine h.setStage (fun _ => hheld) ?_ (fun j hj => h.others_idle hheld hj) ?_ rfl
        · rintro _ ⟨⟩
          exact h.ready i text (by rw [hstage]; rfl)
        · rintro _ ⟨⟩
          rfl
  | write i count raises =>
    cases hstage : s.stage i with
    | idle | opening text => simpa only [Publishers.step, hstage] using h
    | writing text =>
      have hheld := h.staged i (by rw [hstage]; simp)
      cases raises with
      | true =>
        simp only [Publishers.step, hstage, ↓reduceIte]
        exact h.toIdle hheld
      | false =>
        simp only [Publishers.step, hstage, Bool.false_eq_true, ↓reduceIte]
        refine ⟨h.locks, h.held, h.staged, ?_, ?_⟩
        · simp only [s.disk.step_write_file count]
          exact h.ready
        · intro j text hj
          simp only [s.disk.step_write_text count]
          exact h.save j text hj
  | replace i raises =>
    cases hstage : s.stage i with
    | idle | opening text => simpa only [Publishers.step, hstage] using h
    | writing text =>
      have hheld := h.staged i (by rw [hstage]; simp)
      simp only [Publishers.step, hstage]
      split
      · split
        · exact h.toIdle hheld
        · exact h.toIdle hheld
      · exact h
  | kill dies => exact h.kill dies

/-- **A step is the calls that it stands for.** -/
theorem Inv.shared_step (h : s.Inv inst) (op : PublisherOp ι) :
    (s.step inst timeoutSeconds op).shared =
      Run.exec SharedStores.step s.shared (s.linearize inst op) := by
  have hcall : ∀ {op : SharedStoresOp}, (s.shared.step op).metaFile = s.disk.file →
      (s.callShared op).shared = s.shared.step op := by
    intro op hfile
    show SharedStores.mk s.disk.file _ _ _ = s.shared.step op
    rw [← hfile]
    rfl
  cases op with
  | lock i event =>
    simp only [Publishers.step, linearize]
    split <;> rfl
  | create cfg => exact hcall (SharedStores.step_create_metaFile _ cfg)
  | lockThread i =>
    simp only [Publishers.step, linearize]
    split
    · split <;> rfl
    · rfl
  | unlockThread i =>
    simp only [Publishers.step, linearize]
    split <;> rfl
  | call n op =>
    simp only [Publishers.step, linearize]
    split
    · exact hcall (SharedStores.step_call_metaFile _ n op)
    · rfl
  | callLocked i op =>
    simp only [Publishers.step, linearize]
    split
    · exact hcall (SharedStores.step_call_metaFile _ (inst i) op)
    · rfl
  | compare i =>
    simp only [Publishers.step, linearize]
    split
    · refine Eq.trans ?_ (hcall (SharedStores.step_persist_fails_metaFile _ (inst i)))
      split <;> rfl
    · rfl
  | openTemp i raises =>
    cases hstage : s.stage i with
    | idle | writing text => simp only [Publishers.step, hstage]; rfl
    | opening text =>
      simp only [Publishers.step, hstage]
      split <;> rfl
  | write i count raises =>
    cases hstage : s.stage i with
    | idle | opening text => simp only [Publishers.step, hstage]; rfl
    | writing text =>
      simp only [Publishers.step, hstage]
      split
      · rfl
      · simp only [shared, s.disk.step_write_file count]
        rfl
  | replace i raises =>
    cases hstage : s.stage i with
    | idle | opening text =>
      cases raises <;> simp only [Publishers.step, linearize, hstage] <;> rfl
    | writing text =>
      have hsave := h.save i text hstage
      obtain ⟨save, hs, htext⟩ := Option.map_eq_some_iff.mp hsave
      obtain ⟨cfg, store, hget, hready, hpub⟩ := h.ready i text (by rw [hstage]; rfl)
      obtain ⟨written, rest⟩ := save
      cases rest with
      | cons b rest => cases raises <;> simp only [Publishers.step, linearize, hstage, hs] <;> rfl
      | nil =>
        cases raises with
        | true =>
          simp only [Publishers.step, hstage, hs]
          rfl
        | false =>
          simp only [Publishers.step, linearize, hstage, hs, Bool.false_eq_true, ↓reduceIte,
            s.disk.step_replace hs rfl, htext, ← hpub]
          exact (SharedStores.step_persist_ready (s := s.shared) hget hready).symm
  | kill dies => rfl

/-- **A run is the calls that its steps stand for.** -/
theorem Inv.shared_exec (h : s.Inv inst) (ops : List (PublisherOp ι)) :
    (Run.exec (Publishers.step inst timeoutSeconds) s ops).shared =
      Run.exec SharedStores.step s.shared
        (Run.trace (Publishers.step inst timeoutSeconds) (linearize inst) s ops) := by
  let R : Publishers ι → SharedStores → Prop := fun s t => s.Inv inst ∧ s.shared = t
  have hstep : ∀ s t op, R s t → R (s.step inst timeoutSeconds op)
      (Run.exec SharedStores.step t (s.linearize inst op)) := by
    rintro s _ op ⟨h, rfl⟩
    exact ⟨h.step op, h.shared_step op⟩
  exact (Run.exec_rel_trace hstep ⟨h, rfl⟩ ops).2

/-- **The small steps of `persist` are those of atomic calls.** Whatever the file holds at first,
however the threads and processes take turns, whichever calls to the operating system raise and
whichever processes die in the middle: the file, the stores and the answers of the reads are those
of the calls that the steps stand for, each in one step. A `persist` that writes stands for two
calls: one whose write fails, where it compares the tips, and one that writes, where it renames its
file. -/
theorem persist_linearizable (inst : ι → Nat) (timeoutSeconds : ι → Rat) (metaFile : Option Bytes)
    (ops : List (PublisherOp ι)) :
    (Run.exec (step inst timeoutSeconds) (start metaFile) ops).shared =
      Run.exec SharedStores.step (.start metaFile)
        (Run.trace (step inst timeoutSeconds) (linearize inst) (start metaFile) ops) :=
  (inv_start inst metaFile).shared_exec ops

end Steps

end Publishers

end Leviathan
