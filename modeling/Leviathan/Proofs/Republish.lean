import Leviathan.Journal.Readme
import Leviathan.Journal.Tips
import Leviathan.Lib.Run

/-!
# Published dedup windows

A collector publishes its dedup windows with every write of the metadata file. An engine on the same
directory never appends, but it reaches `persist` by other operations, with the windows it loaded
when it was opened.

* `windows_kept_iff`: **the file always has the windows that the collector last published exactly in
  the runs in which the engine holds those very windows whenever it writes the file.**
* `engine_rolls_back`: two persists of an engine that was opened before the first publication empty
  the windows: the first adopts the tip of the file, the second counts as up to date.
-/

namespace Leviathan

open Py

variable {cfg : Config}

/-- The dedup window of a symbol in the metadata file. -/
def fileWindow (metaFile : Option MetaPayload) (key : Str) : List Str :=
  (Dict.get? (loadPayload metaFile).seenTradeIds key).getD []

theorem fileWindow_published (store : MetaStore cfg) (key : Str) :
    fileWindow (some store.published) key = store.window key := by
  have hget : ∀ buckets : Dict Str (SymbolDedupBucket cfg.dedupWindow),
      Dict.get? (buckets.map fun entry => (entry.1, entry.2.toList)) key =
        (Dict.get? buckets key).map SymbolDedupBucket.order := by
    intro buckets
    induction buckets with
    | nil => rfl
    | cons entry buckets ih =>
      by_cases h : entry.1 = key
      · simp [Dict.get?, h, SymbolDedupBucket.toList]
      · simpa [Dict.get?, h] using ih
  exact congrArg (·.getD []) (hget store.dedupBuckets)

/-- A collector, an engine, and what the collector has published. -/
structure Publication (cfg : Config) where
  disk : Disk
  collector : TickJournal cfg
  engine : TickJournal cfg
  /-- the dedup window of each symbol in the file that the collector last wrote -/
  published : Str → List Str

inductive PublicationOp (cfg : Config) where
  | append (tick : TradeTick cfg.toRuntime)
  | flushMeta
  /-- a new engine process opens the directory -/
  | openEngine
  | engineEnsure (seq : Nat)
  | engineCompact (minRetainSeq : Nat)
  | engineFlush
  /-- `persist` of the engine's metadata store -/
  | enginePersist

namespace Publication

def start : Publication cfg := ⟨.empty, .new .empty, .new .empty, fun _ => []⟩

/-- The state after the collector's call; a file that is not as before was written by it. -/
def afterCollector (s : Publication cfg) (collector : TickJournal cfg) (disk : Disk) :
    Publication cfg :=
  { s with
    disk, collector
    published := if disk.metaFile = s.disk.metaFile then s.published else fileWindow disk.metaFile }

def step (s : Publication cfg) : PublicationOp cfg → Publication cfg
  | .append tick =>
    let (collector, disk, _) := s.collector.append s.disk tick
    s.afterCollector collector disk
  | .flushMeta =>
    let (collector, disk, _) := s.collector.flushMeta s.disk
    s.afterCollector collector disk
  | .openEngine => { s with engine := .new s.disk }
  | .engineEnsure seq =>
    let (engine, disk, _) := s.engine.ensureLatestSeqAtLeast s.disk seq
    { s with disk, engine }
  | .engineCompact minRetainSeq =>
    let (engine, disk, _) := s.engine.compactBeforeSeq s.disk minRetainSeq
    { s with disk, engine }
  | .engineFlush =>
    let (engine, disk, _) := s.engine.flushMeta s.disk
    { s with disk, engine }
  | .enginePersist =>
    let (engine, disk) := s.engine.persistLocked s.disk
    { s with disk, engine }

/-- The file has, for every symbol, the window that the collector last published. -/
def WindowsKept (s : Publication cfg) : Prop :=
  ∀ key, fileWindow s.disk.metaFile key = s.published key

/-- The tip that the engine compares with the tip of the file when it reaches `persist`; `none`
where the operation does not reach it. -/
def persistTip (s : Publication cfg) : PublicationOp cfg → Option Nat
  | .append _ | .flushMeta | .openEngine => none
  | .engineEnsure seq =>
    if s.engine.latestSeq < seq then some (max s.engine.metaStore.memoryTip seq) else none
  | .engineCompact minRetainSeq =>
    if 1 < minRetainSeq ∧
        ∃ seq ∈ lineSeqs cfg.toRuntime s.disk.journalFile, seq < (minRetainSeq : Int) then
      some s.engine.metaStore.memoryTip
    else none
  | .engineFlush => if s.engine.metaDirty then some s.engine.metaStore.memoryTip else none
  | .enginePersist => some s.engine.metaStore.memoryTip

/-- Where the engine's persist is not skipped, its windows are the ones in the file. -/
def EngineCurrent (s : Publication cfg) (op : PublicationOp cfg) : Prop :=
  ∀ tip, s.persistTip op = some tip → MetaStore.fileTip s.disk.metaFile ≤ tip →
    ∀ key, s.engine.metaStore.window key = fileWindow s.disk.metaFile key

def Inv (s : Publication cfg) : Prop := ∃ rs : List (Rec cfg.toRuntime), s.disk.Holds rs

/-- What a persist of a store with the engine's windows does to the windows in the file. -/
theorem persist_windows (store : MetaStore cfg) (metaFile : Option MetaPayload) (key : Str) :
    fileWindow (store.persist metaFile).2 key =
      if MetaStore.fileTip metaFile ≤ store.memoryTip then store.window key
      else fileWindow metaFile key := by
  rw [MetaStore.persist_eq]
  by_cases h : MetaStore.fileTip metaFile ≤ store.memoryTip
  · rw [if_neg (Nat.not_lt.mpr h), if_pos h, fileWindow_published]
  · rw [if_pos (Nat.not_le.mp h), if_neg h]

theorem memoryTip_setLatestSeq (store : MetaStore cfg) (seq : Nat) :
    (store.setLatestSeq seq).memoryTip = max store.memoryTip seq := by
  simp only [MetaStore.memoryTip, MetaStore.setLatestSeq]
  split <;> omega

/-- The engine's operations all end with a persist, or they leave the file. -/
theorem engine_step {s : Publication cfg} {op : PublicationOp cfg} (hinv : s.Inv)
    (hop : ∀ tick, op ≠ .append tick) (hop' : op ≠ .flushMeta) :
    (s.step op).published = s.published ∧ ∀ key,
      fileWindow (s.step op).disk.metaFile key =
        match s.persistTip op with
        | none => fileWindow s.disk.metaFile key
        | some tip =>
          if MetaStore.fileTip s.disk.metaFile ≤ tip then s.engine.metaStore.window key
          else fileWindow s.disk.metaFile key := by
  cases op with
  | append tick => exact absurd rfl (hop tick)
  | flushMeta => exact absurd rfl hop'
  | openEngine => exact ⟨rfl, fun _ => rfl⟩
  | engineEnsure seq =>
    have hadv : (s.engine.metaStore.setLatestSeq seq).latestSeq > s.engine.metaStore.latestSeq ↔
        s.engine.latestSeq < seq := lt_max_iff.trans (or_iff_right (Nat.lt_irrefl _))
    by_cases hlt : s.engine.latestSeq < seq
    · refine ⟨by simp only [step], fun key => ?_⟩
      simp only [step, TickJournal.ensureLatestSeqAtLeast, MetaStore.ensureLatestSeqAtLeast, hadv,
        hlt, decide_true, ↓reduceIte, persistTip]
      refine (persist_windows _ _ key).trans ?_
      rw [memoryTip_setLatestSeq]
      rfl
    · refine ⟨by simp only [step], fun key => ?_⟩
      simp [step, TickJournal.ensureLatestSeqAtLeast, MetaStore.ensureLatestSeqAtLeast, hadv,
        hlt, persistTip]
  | engineCompact minRetainSeq =>
    obtain ⟨rs, hfile⟩ := hinv
    have hc := MetaStore.compactBeforeSeq_records s.engine.metaStore hfile minRetainSeq
    have hdrop : (1 < minRetainSeq ∧
        ∃ seq ∈ lineSeqs cfg.toRuntime s.disk.journalFile, seq < (minRetainSeq : Int)) ↔
          ¬(minRetainSeq ≤ 1 ∨ since minRetainSeq rs = rs) := by
      rw [hfile.lineSeqs]
      simp [since, List.filter_eq_self]
    simp only [step, TickJournal.compactBeforeSeq, persistTip, hdrop, hc]
    by_cases hkeep : minRetainSeq ≤ 1 ∨ since minRetainSeq rs = rs
    · simp [hkeep]
    · simp only [hkeep, not_false_eq_true, ↓reduceIte, true_and]
      exact fun key => persist_windows _ _ key
  | engineFlush =>
    by_cases hd : s.engine.metaDirty
    · simp only [step, TickJournal.flushMeta, persistTip, hd, ↓reduceIte, true_and]
      exact fun key => persist_windows _ _ key
    · simp [step, TickJournal.flushMeta, persistTip, hd]
  | enginePersist => exact ⟨rfl, persist_windows _ _⟩

theorem inv_step (s : Publication cfg) (op : PublicationOp cfg) (hinv : s.Inv) :
    (s.step op).Inv := by
  obtain ⟨rs, hfile⟩ := hinv
  cases op with
  | append tick => exact ⟨_, append_holds s.collector hfile tick⟩
  | flushMeta => exact ⟨rs, hfile.congr (TickJournal.flushMeta_journalFile _ _)⟩
  | openEngine => exact ⟨rs, hfile⟩
  | engineEnsure seq => exact ⟨rs, hfile.congr (TickJournal.ensureLatestSeqAtLeast_journalFile _ _ _)⟩
  | engineCompact minRetainSeq =>
    have hc := MetaStore.compactBeforeSeq_records s.engine.metaStore hfile minRetainSeq
    simp only [Inv, step, TickJournal.compactBeforeSeq, hc]
    split
    · exact ⟨rs, hfile⟩
    · exact ⟨since minRetainSeq rs, .inr rfl⟩
  | engineFlush => exact ⟨rs, hfile.congr (TickJournal.flushMeta_journalFile _ _)⟩
  | enginePersist => exact ⟨rs, hfile⟩

/-- What the collector writes is what it has published. -/
theorem afterCollector_windowsKept {s : Publication cfg} (h : s.WindowsKept)
    (collector : TickJournal cfg) (disk : Disk) :
    (s.afterCollector collector disk).WindowsKept := by
  intro key
  simp only [afterCollector]
  split
  · rename_i he; rw [he]; exact h key
  · rfl

/-- When an operation keeps the windows. -/
theorem windowsKept_step {s : Publication cfg} (op : PublicationOp cfg) (hinv : s.Inv)
    (h : s.WindowsKept) : (s.step op).WindowsKept ↔ s.EngineCurrent op := by
  by_cases hc : (∃ tick, op = .append tick) ∨ op = .flushMeta
  · have hnone : s.persistTip op = none := by
      rcases hc with ⟨tick, rfl⟩ | rfl <;> rfl
    refine iff_of_true ?_ fun tip ht => by rw [hnone] at ht; cases ht
    rcases hc with ⟨tick, rfl⟩ | rfl
    · exact afterCollector_windowsKept h _ _
    · exact afterCollector_windowsKept h _ _
  · obtain ⟨happ, hflush⟩ := not_or.mp hc
    obtain ⟨hpub, hfile⟩ :=
      engine_step hinv (fun tick he => happ ⟨tick, he⟩) hflush
    unfold WindowsKept EngineCurrent
    cases htip : s.persistTip op with
    | none =>
      simp only [htip] at hfile
      simp only [hfile, hpub, reduceCtorEq, false_implies, implies_true, iff_true]
      exact h
    | some tip =>
      simp only [htip] at hfile
      simp only [hfile, hpub, Option.some.injEq, forall_eq']
      by_cases hle : MetaStore.fileTip s.disk.metaFile ≤ tip
      · simp only [hle, ↓reduceIte, forall_const, ← h _]
      · simp only [hle, ↓reduceIte, false_implies, iff_true]
        exact h

/-- **The windows that the collector published stay in the file in exactly the runs in which the
engine's persists find the engine's windows there, or a higher tip.** -/
theorem windows_kept_iff (cfg : Config) (ops : List (PublicationOp cfg)) :
    Run.Always step WindowsKept start ops ↔ Run.Each step EngineCurrent start ops := by
  refine Run.always_iff_each (fun s op (hinv : s.Inv) _ _ => inv_step s op hinv)
    (fun s op hinv h => windowsKept_step op hinv h) ⟨[], .inl ⟨rfl, rfl⟩⟩ (fun key => rfl) ops

/-- The engine opens the directory before the collector publishes. -/
def staleEngineRun : List (PublicationOp Config.default) :=
  [.append (readmeTick ['B', 'T', 'C'] ['1']), .flushMeta, .enginePersist, .enginePersist]

/-- **The engine's second persist empties the windows in the file.** -/
theorem engine_rolls_back : ¬Run.Always step WindowsKept start staleEngineRun := by
  intro h
  have hlost : ¬fileWindow (Run.exec step start staleEngineRun).disk.metaFile ['B', 'T', 'C'] =
      (Run.exec step start staleEngineRun).published ['B', 'T', 'C'] := by
    decide +kernel
  exact hlost (h.last ['B', 'T', 'C'])

end Publication

end Leviathan
