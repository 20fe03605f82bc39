import Leviathan.Journal.Current
import Leviathan.Journal.Readme
import Leviathan.Lib.Run

/-!
# Seeks while another process compacts

A collector appends and an engine compacts the same directory. Each holds its own copy of the sparse
index, and a compaction shifts the offsets of all records.

* `Stale`: an entry of an index that points inside the file, past a record it stands for.
* `seekSound_iff`: an instance's seeks are sound for every `start_seq` exactly when its index has no
  stale entry.
* `seeks_sound_iff`: **so it is in every state that a run reaches, for both instances, directly and
  after a reload of the index.**
* `collector_skips`: after a compaction by the engine, the collector's own hint skips a record.
-/

namespace Leviathan

open Py

variable {cfg : Config}

/-! ## Soundness of a seek, on the bytes of the file -/

/-- A seek never skips a record that it is for. -/
def SeekSound (journal : TickJournal cfg) (disk : Disk) : Prop :=
  ∀ startSeq, ∃ o, journal.byteOffsetForSeq disk startSeq = .ok o ∧
    ∀ offset, RecordAt cfg.toRuntime disk.journalFile startSeq offset → o ≤ offset

/-- The entry points inside the file, and past a record that it stands for. -/
def Stale (rt : Runtime) (journalFile : Option Bytes) (entry : Nat × Nat) : Prop :=
  entry.2 ≤ (journalFile.getD []).length ∧
    ∃ offset < entry.2, RecordAt rt journalFile entry.1 offset

/-- A file that goes on past the records before `startSeq` has a record from there on. -/
theorem recordAt_offsetOf {disk : Disk} {rs : List (Rec cfg.toRuntime)} (hfile : disk.Holds rs)
    (hinc : Increasing rs) {startSeq : Nat}
    (hlt : offsetOf startSeq rs < (journalBytes rs).length) :
    RecordAt cfg.toRuntime disk.journalFile startSeq (offsetOf startSeq rs) := by
  have hcut := before_append_since hinc startSeq
  cases hs : since startSeq rs with
  | nil =>
    rw [hs, List.append_nil] at hcut
    rw [offsetOf, hcut] at hlt
    exact absurd hlt (Nat.lt_irrefl _)
  | cons r more =>
    have hr : r ∈ since startSeq rs := by rw [hs]; simp
    exact (recordAt_iff hfile).mpr
      ⟨before startSeq rs, r, more, by rw [← hs, hcut], (mem_since.mp hr).2, rfl⟩

theorem stale_iff {disk : Disk} {rs : List (Rec cfg.toRuntime)} (hfile : disk.Holds rs)
    (hinc : Increasing rs) {entry : Nat × Nat} :
    Stale cfg.toRuntime disk.journalFile entry ↔
      offsetOf entry.1 rs < entry.2 ∧ entry.2 ≤ (journalBytes rs).length := by
  unfold Stale
  rw [hfile.getD]
  constructor
  · rintro ⟨hle, offset, hlt, hrec⟩
    obtain ⟨A, r, B, rfl, hr, rfl⟩ := (recordAt_iff hfile).mp hrec
    exact ⟨Nat.lt_of_le_of_lt (offsetOf_le_of_mem hr) hlt, hle⟩
  · rintro ⟨hlt, hle⟩
    exact ⟨hle, _, hlt, recordAt_offsetOf hfile hinc (by omega)⟩

/-- **The seeks of an instance are sound exactly when its index has no stale entry.** -/
theorem seekSound_iff {journal : TickJournal cfg} {disk : Disk} {rs : List (Rec cfg.toRuntime)}
    (hfile : disk.Holds rs) (hinc : Increasing rs) (hshape : Shaped journal.metaStore.seqIndex) :
    SeekSound journal disk ↔
      ∀ entry ∈ journal.metaStore.seqIndex, ¬Stale cfg.toRuntime disk.journalFile entry := by
  constructor
  · -- a stale entry is the hint for its own number
    intro hsound entry he hstale
    obtain ⟨hlt, hle⟩ := (stale_iff hfile hinc).mp hstale
    have h2 : ¬entry.1 ≤ 1 := fun h1 => by have := hshape.first entry he h1; omega
    have hs : disk.journalFile = some (journalBytes rs) := by
      rcases hfile with ⟨-, rfl⟩ | hs
      · simp at hle; omega
      · exact hs
    obtain ⟨o, ho, hrec⟩ := hsound entry.1
    have hhint : journal.metaStore.indexedHint entry.1 = entry.2 := hshape.chooseHint_self he 0
    simp only [TickJournal.byteOffsetForSeq, MetaStore.byteOffsetForSeq, if_neg h2, hhint, hs] at ho
    obtain ⟨o', ho', hpast⟩ := resolve_past hlt hle
    rw [ho'] at ho
    cases ho
    have := hrec _ (recordAt_offsetOf hfile hinc (by omega))
    omega
  · intro hfresh startSeq
    simp only [TickJournal.byteOffsetForSeq, MetaStore.byteOffsetForSeq]
    split
    · exact ⟨0, rfl, fun _ _ => Nat.zero_le _⟩
    · rcases hfile with ⟨hn, hnil⟩ | hs
      · refine ⟨_, by rw [hn]; rfl, ?_⟩
        rintro offset ⟨A, line, B, seq, hAB, -⟩
        rw [hn] at hAB
        simp [byteLines] at hAB
      · -- the hint is 0, an entry that is not past its record, or past the end of the file
        have hhint : journal.metaStore.indexedHint startSeq ≤ offsetOf startSeq rs ∨
            (journalBytes rs).length < journal.metaStore.indexedHint startSeq := by
          rcases chooseHint_cases startSeq journal.metaStore.seqIndex 0 with h0 | ⟨e, he, hle, hc⟩
          · exact .inl (by rw [MetaStore.indexedHint, h0]; exact Nat.zero_le _)
          · rw [MetaStore.indexedHint, hc]
            have hnot := mt (stale_iff (.inr hs) hinc).mpr (hfresh e he)
            have := offsetOf_mono hle rs
            omega
        refine ⟨_, by rw [hs]; exact resolve_sound hinc hhint, fun offset hrec => ?_⟩
        obtain ⟨A, r, B, rfl, hr, rfl⟩ := (recordAt_iff (.inr hs)).mp hrec
        exact offsetOf_le_of_mem hr

/-! ## The two processes -/

/-- A collector and an engine on one directory. -/
structure SharedJournal (cfg : Config) where
  disk : Disk
  collector : TickJournal cfg
  engine : TickJournal cfg

inductive SharedOp (cfg : Config) where
  | append (tick : TradeTick cfg.toRuntime)
  | flushMeta
  | compactBeforeSeq (minRetainSeq : Nat)
  /-- `reload_seq_index_from_disk` of the collector -/
  | reloadCollector
  /-- `reload_seq_index_from_disk` of the engine -/
  | reloadEngine
  /-- a new engine process opens the directory -/
  | openEngine

namespace SharedJournal

def start : SharedJournal cfg := ⟨.empty, .new .empty, .new .empty⟩

def step (s : SharedJournal cfg) : SharedOp cfg → SharedJournal cfg
  | .append tick =>
    let (collector, disk, _) := s.collector.append s.disk tick
    { s with disk, collector }
  | .flushMeta =>
    let (collector, disk, _) := s.collector.flushMeta s.disk
    { s with disk, collector }
  | .compactBeforeSeq minRetainSeq =>
    let (engine, disk, _) := s.engine.compactBeforeSeq s.disk minRetainSeq
    { s with disk, engine }
  | .reloadCollector => { s with collector := s.collector.reloadSeqIndexFromDisk s.disk }
  | .reloadEngine => { s with engine := s.engine.reloadSeqIndexFromDisk s.disk }
  | .openEngine => { s with engine := .new s.disk }

/-- The instances a seek may go through: either process, as it is or after a reload. -/
def views (s : SharedJournal cfg) : List (TickJournal cfg) :=
  [s.collector, s.engine, s.collector.reloadSeqIndexFromDisk s.disk,
    s.engine.reloadSeqIndexFromDisk s.disk]

/-- The file holds records that go up to the collector's tip, and every index is shaped. -/
structure Consistent (s : SharedJournal cfg) (rs : List (Rec cfg.toRuntime)) : Prop where
  file : s.disk.Holds rs
  increasing : Increasing rs
  numbers : ∀ r ∈ rs, 1 ≤ r.1 ∧ r.1 ≤ s.collector.latestSeq
  current : s.collector.Current s.disk
  engine : s.engine.metaStore.Bounded s.collector.latestSeq
  collectorIndex : Shaped s.collector.metaStore.seqIndex
  engineIndex : Shaped s.engine.metaStore.seqIndex
  fileIndex : Shaped (loadPayload s.disk.metaFile).seqIndex

def Inv (s : SharedJournal cfg) : Prop := ∃ rs, s.Consistent rs

theorem inv_start : (start : SharedJournal cfg).Inv :=
  ⟨[], .inl ⟨rfl, rfl⟩, .nil, by simp, .new .empty, .new .empty, .first_entry, .first_entry,
    .first_entry⟩

theorem consistent_append {s : SharedJournal cfg} {rs : List (Rec cfg.toRuntime)}
    (h : s.Consistent rs) {tick : TradeTick cfg.toRuntime} (ha : s.collector.Accepts tick) :
    (s.step (.append tick)).Consistent (rs ++ [(s.collector.latestSeq + 1, tick)]) := by
  have hp := TickJournal.append_current h.current ha
  have hbelow : ∀ r ∈ rs, r.1 < s.collector.latestSeq + 1 := fun r hr => by
    have := (h.numbers r hr).2; omega
  have hindex : Shaped (s.step (.append tick)).collector.metaStore.seqIndex := by
    refine hp.seqIndex ▸ h.collectorIndex.recordSeqIndex (Nat.succ_pos _) fun h1 => ?_
    -- number 1 is the first line of the file
    rw [h.file.getD]
    cases rs with
    | nil => rfl
    | cons r rs =>
      have h₁ := h.numbers r (by simp)
      have h₂ : s.collector.latestSeq = s.collector.metaStore.latestSeq := rfl
      omega
  refine ⟨?_, h.increasing.snoc hbelow, fun r hr => ?_, hp.current, ?_, hindex,
    h.engineIndex, ?_⟩
  · refine .inr ?_
    rw [journalBytes_append, ← h.file.getD]
    simpa [step, journalBytes] using hp.journalFile
  · have hl : (s.step (.append tick)).collector.latestSeq = s.collector.latestSeq + 1 := hp.latestSeq
    rw [hl]
    rcases List.mem_append.mp hr with hr | hr
    · have := h.numbers r hr; omega
    · rw [List.mem_singleton.mp hr]; exact ⟨by simp, Nat.le_refl _⟩
  · apply h.engine.mono
    show _ ≤ (s.step (.append tick)).collector.latestSeq
    rw [show (s.step (.append tick)).collector.latestSeq = _ from hp.latestSeq]
    exact Nat.le_succ _
  · rcases hp.fileIndex with hf | hf
    · show Shaped (loadPayload (s.step (.append tick)).disk.metaFile).seqIndex
      rw [show (s.step (.append tick)).disk.metaFile = _ from hf]
      exact h.fileIndex
    · rw [show (loadPayload (s.step (.append tick)).disk.metaFile).seqIndex = _ from hf]
      exact hindex

theorem consistent_flushMeta {s : SharedJournal cfg} {rs : List (Rec cfg.toRuntime)}
    (h : s.Consistent rs) : (s.step .flushMeta).Consistent rs := by
  obtain ⟨hcur, hp | he⟩ := TickJournal.flushMeta_current h.current
  · have hl : (s.step .flushMeta).collector.latestSeq = s.collector.latestSeq := hp.latestSeq
    have hi : (s.step .flushMeta).collector.metaStore.seqIndex = s.collector.metaStore.seqIndex :=
      hp.seqIndex
    have hf : (loadPayload (s.step .flushMeta).disk.metaFile).seqIndex =
      s.collector.metaStore.seqIndex := hp.fileIndex
    refine ⟨?_, h.increasing, hl ▸ h.numbers, hcur, hl ▸ h.engine, hi ▸ h.collectorIndex,
      h.engineIndex, hf ▸ h.collectorIndex⟩
    unfold Disk.Holds step
    rw [TickJournal.flushMeta_journalFile]
    exact h.file
  · have hs : s.step .flushMeta = s := by unfold step; rw [he]
    rw [hs]
    exact h

theorem consistent_compact {s : SharedJournal cfg} {rs : List (Rec cfg.toRuntime)}
    (h : s.Consistent rs) (minRetainSeq : Nat) : (s.step (.compactBeforeSeq minRetainSeq)).Inv := by
  have hc := MetaStore.compactBeforeSeq_records s.engine.metaStore h.file minRetainSeq
  by_cases hdrop : minRetainSeq ≤ 1 ∨ since minRetainSeq rs = rs
  · rw [if_pos hdrop] at hc
    have hs : s.step (.compactBeforeSeq minRetainSeq) = s := by
      simp only [step, TickJournal.compactBeforeSeq, hc]
    rw [hs]
    exact ⟨rs, h⟩
  · rw [if_neg hdrop] at hc
    have hinc : Increasing (since minRetainSeq rs) := List.Pairwise.filter _ h.increasing
    have h2 : ∀ r ∈ since minRetainSeq rs, 2 ≤ r.1 := fun r hr => by
      have := (mem_since.mp hr).2; omega
    have hshape : Shaped (MetaStore.compactedIndex cfg (since minRetainSeq rs)) :=
      shaped_compactedIndex hinc h2
    let store := s.engine.metaStore.replaceSeqIndex
      (MetaStore.compactedIndex cfg (since minRetainSeq rs))
    have hstore : store.Bounded s.collector.latestSeq := by
      refine ⟨⟨h.engine.1.1, fun e he => ?_⟩, h.engine.2⟩
      have he := List.mem_of_mem_drop he
      rcases List.mem_cons.mp he with rfl | he
      · exact Nat.zero_le _
      · obtain ⟨A, r, B, hAB, rfl⟩ := mem_rebuiltIndex he
        have hr : r ∈ since minRetainSeq rs := by rw [hAB]; simp
        exact (h.numbers r (mem_since.mp hr).1).2
    obtain ⟨hs₁, hf₁⟩ := hstore.persist h.current.file
    have hstep : s.step (.compactBeforeSeq minRetainSeq) =
        { s with
          engine := { s.engine with metaStore := (store.persist s.disk.metaFile).1 }
          disk := { s.disk with
            journalFile := some (journalBytes (since minRetainSeq rs))
            metaFile := (store.persist s.disk.metaFile).2 } } := by
      simp only [step, TickJournal.compactBeforeSeq, hc]
      rfl
    rw [hstep]
    have hindex : (store.persist s.disk.metaFile).1.seqIndex =
          MetaStore.compactedIndex cfg (since minRetainSeq rs) ∧
        ((store.persist s.disk.metaFile).2 = s.disk.metaFile ∨
          (loadPayload (store.persist s.disk.metaFile).2).seqIndex =
            MetaStore.compactedIndex cfg (since minRetainSeq rs)) := by
      rw [MetaStore.persist_eq]
      split
      · exact ⟨rfl, .inl rfl⟩
      · exact ⟨rfl, .inr rfl⟩
    refine ⟨since minRetainSeq rs, .inr rfl, hinc, fun r hr => h.numbers r (mem_since.mp hr).1,
      ⟨h.current.store, hf₁⟩, hs₁, h.collectorIndex, hindex.1 ▸ hshape, ?_⟩
    rcases hindex.2 with hf | hf
    · exact hf.symm ▸ h.fileIndex
    · exact hf ▸ hshape

theorem inv_step (s : SharedJournal cfg) (op : SharedOp cfg) (h : s.Inv) : (s.step op).Inv := by
  obtain ⟨rs, h⟩ := h
  have hfile := h.current.file
  cases op with
  | append tick =>
    by_cases ha : s.collector.Accepts tick
    · exact ⟨_, consistent_append h ha⟩
    · have hr := TickJournal.append_rejected ha s.disk
      have hd : (s.step (.append tick)).disk = s.disk := hr.disk
      have hl : (s.step (.append tick)).collector.latestSeq = s.collector.latestSeq := hr.latestSeq
      have hi : (s.step (.append tick)).collector.metaStore.seqIndex =
        s.collector.metaStore.seqIndex := hr.seqIndex
      exact ⟨rs, hd ▸ h.file, h.increasing, hl ▸ h.numbers, hr.current h.current,
        hl ▸ h.engine, hi ▸ h.collectorIndex, h.engineIndex, hd ▸ h.fileIndex⟩
  | flushMeta => exact ⟨rs, consistent_flushMeta h⟩
  | compactBeforeSeq minRetainSeq => exact consistent_compact h minRetainSeq
  | reloadCollector =>
    exact ⟨rs, h.file, h.increasing, h.numbers,
      ⟨⟨⟨h.current.store.1.1, hfile.2⟩, h.current.store.2⟩, hfile⟩, h.engine, h.fileIndex,
      h.engineIndex, h.fileIndex⟩
  | reloadEngine =>
    exact ⟨rs, h.file, h.increasing, h.numbers, h.current,
      ⟨⟨h.engine.1.1, hfile.2⟩, h.engine.2⟩, h.collectorIndex, h.fileIndex, h.fileIndex⟩
  | openEngine =>
    exact ⟨rs, h.file, h.increasing, h.numbers, h.current, .new hfile, h.collectorIndex,
      h.fileIndex, h.fileIndex⟩

/-- **In every state of every run, the seeks through either process are sound exactly when no entry
of the index they use points inside the file and past a record it stands for.** -/
theorem seeks_sound_iff (cfg : Config) (ops : List (SharedOp cfg)) :
    Run.Always step (fun s => ∀ journal ∈ s.views,
      SeekSound journal s.disk ↔
        ∀ entry ∈ journal.metaStore.seqIndex, ¬Stale cfg.toRuntime s.disk.journalFile entry)
      (start : SharedJournal cfg) ops := by
  refine (Run.always_of_step inv_step inv_start ops).mono fun s ⟨rs, h⟩ journal hj => ?_
  apply seekSound_iff h.file h.increasing
  simp only [views, List.mem_cons, List.not_mem_nil, or_false] at hj
  rcases hj with rfl | rfl | rfl | rfl
  · exact h.collectorIndex
  · exact h.engineIndex
  · exact h.fileIndex
  · exact h.fileIndex

/-- Every seek through either process is sound. -/
def AllSound (s : SharedJournal cfg) : Prop := ∀ journal ∈ s.views, SeekSound journal s.disk

theorem not_allSound {s : SharedJournal cfg} {A B : List (Rec cfg.toRuntime)}
    {r : Rec cfg.toRuntime} {o : Nat} (hfile : s.disk.Holds (A ++ r :: B))
    (hseek : (s.collector.byteOffsetForSeq s.disk r.1).toOption = some o)
    (hlt : (journalBytes A).length < o) : ¬s.AllSound := by
  intro h
  obtain ⟨o', ho, hrec⟩ := h s.collector List.mem_cons_self r.1
  have hle := hrec _ ((recordAt_iff hfile).mpr ⟨A, r, B, rfl, Nat.le_refl _, rfl⟩)
  rw [ho] at hseek
  cases hseek
  exact absurd hle (Nat.not_le.mpr hlt)

/-- After the engine drops the records before 3, the collector still seeks record 4 where it was
before: that is the end of the file now. -/
theorem collector_skips :
    ¬Run.Always step AllSound (start : SharedJournal (.readme 10 2 (by decide) (by decide)))
      [.append (readmeTick ['B'] ['1']), .append (readmeTick ['B'] ['2']),
        .append (readmeTick ['B'] ['3']), .append (readmeTick ['B'] ['4']),
        .append (readmeTick ['B'] ['5']), .flushMeta, .openEngine, .compactBeforeSeq 3] :=
  fun h => not_allSound (A := [(3, readmeTick ['B'] ['3'])]) (r := (4, readmeTick ['B'] ['4']))
    (B := [(5, readmeTick ['B'] ['5'])]) (o := 273) (.inr (by decide +kernel)) (by decide +kernel)
    (by decide +kernel) h.last

end SharedJournal

end Leviathan
