import Leviathan.Journal.Current
import Leviathan.Journal.Fragment
import Leviathan.Journal.PollOrder
import Leviathan.Journal.ReadProgress
import Leviathan.Lib.Run

/-!
# The lag of the durable tip

One writer starts on an empty directory, appends, flushes, and is closed and opened again after a
flush. Its tip in the metadata lags the file, also between the write of a line and the persist:
`tip_lag_tolerated` says that the lag never goes past what a reader tolerates.
-/

namespace Leviathan

open Py

variable {cfg : Config}

/-- A writer, its directory, and the append that is going on: its tick, and how many bytes of its
line are written. -/
structure TipWriter (cfg : Config) where
  journal : TickJournal cfg
  disk : Disk
  inside : Option (TradeTick cfg.toRuntime × Nat)

inductive TipOp (cfg : Config) where
  | beginAppend (tick : TradeTick cfg.toRuntime)
  /-- more bytes of the line reach the file -/
  | write (count : Nat)
  /-- the rest of the line, and what `append` does after the write -/
  | endAppend
  /-- `flush_meta`, or the idle timer fires -/
  | flushMeta
  /-- `flush_meta`, and a new process -/
  | reopen

namespace TipWriter

def start : TipWriter cfg := ⟨.new .empty, .empty, none⟩

/-- The directory that the others see. -/
def visible (s : TipWriter cfg) : Disk :=
  match s.inside with
  | none => s.disk
  | some (tick, count) =>
    TickJournal.Disk.writeLine s.disk
      ((recordBytes cfg.toRuntime (s.journal.latestSeq + 1, tick)).take count)

/-- An operation during an append waits for the lock, and is taken later. -/
def step (s : TipWriter cfg) (op : TipOp cfg) : TipWriter cfg :=
  match s.inside, op with
  | none, .beginAppend tick =>
    -- a duplicate and a blank symbol write nothing
    if s.journal.Accepts tick then { s with inside := some (tick, 0) }
    else { s with journal := (s.journal.append s.disk tick).1 }
  | some (tick, written), .write count => { s with inside := some (tick, written + count) }
  | some (tick, _), .endAppend =>
    let (journal, disk, _) := s.journal.append s.disk tick
    ⟨journal, disk, none⟩
  | none, .flushMeta =>
    let (journal, disk, _) := s.journal.flushMeta s.disk
    ⟨journal, disk, none⟩
  | none, .reopen =>
    let (_, disk, _) := s.journal.flushMeta s.disk
    ⟨.new disk, disk, none⟩
  | _, _ => s

/-- The tip that the metadata file states. -/
def diskTip (disk : Disk) : Nat := (loadPayload disk.metaFile).latestSeq

end TipWriter

/-- The reader waits for the number after a complete line of the file, or for the first one. -/
def Tail.Consumed (tail : Tail cfg) : Prop :=
  tail.reader.nextSeq ≤ 1 ∨
    (tail.reader.nextSeq : Int) - 1 ∈ lineSeqs cfg.toRuntime tail.disk.journalFile

namespace TipWriter

open TickJournal

/-- What a snapshot of a reader of this directory says. -/
def LagTolerated (cfg : Config) (disk : Disk) : Prop :=
  ∀ tail : Tail cfg, tail.disk = disk → tail.Consumed →
    tail.reader.nextSeq - 1 ≤ diskTip disk + tipMetaLagToleranceSeq ∧
      tail.getReadProgressSnapshot.2.cursorAheadOfTip = false ∧
      tail.reader.nextSeq - 1 ≤ tail.getReadProgressSnapshot.2.latestSeq

/-- The lines of the file are numbered up to the tip of the writer, and the durable tip lags that by
at most the appends since the last interval persist. -/
structure Inv (s : TipWriter cfg) : Prop where
  current : s.journal.Current s.disk
  lag : s.journal.latestSeq ≤ diskTip s.disk + s.journal.appendCounter % metaPersistInterval
  clean : s.journal.metaDirty = false → s.journal.latestSeq ≤ diskTip s.disk
  holds : ∃ rs : List (Rec cfg.toRuntime), s.disk.Holds rs ∧ ∀ r ∈ rs, r.1 ≤ s.journal.latestSeq
  accepts : ∀ tick count, s.inside = some (tick, count) → s.journal.Accepts tick

variable {s : TipWriter cfg}

/-! ## What a persist publishes -/

theorem persistLocked_diskTip {journal : TickJournal cfg} {disk : Disk}
    (h : journal.Current disk) :
    (journal.persistLocked disk).1.latestSeq = journal.latestSeq ∧
      diskTip (journal.persistLocked disk).2 = journal.latestSeq ∧
      (journal.persistLocked disk).2.journalFile = disk.journalFile := by
  have he : journal.metaStore.persist disk.metaFile =
      (journal.metaStore.withTip journal.latestSeq, some journal.metaStore.published) :=
    MetaStore.persist_current h.store h.file
  have htip : journal.metaStore.memoryTip = journal.latestSeq := MetaStore.Bounded.memoryTip_eq h.store
  simp only [persistLocked, he]
  exact ⟨rfl, htip, trivial⟩

/-- After a flush the durable tip is the writer's. -/
theorem flushMeta_diskTip {journal : TickJournal cfg} {disk : Disk} (h : journal.Current disk)
    (hclean : journal.metaDirty = false → journal.latestSeq ≤ diskTip disk) :
    (journal.flushMeta disk).1.latestSeq = journal.latestSeq ∧
      journal.latestSeq ≤ diskTip (journal.flushMeta disk).2.1 ∧
      (journal.flushMeta disk).2.1.journalFile = disk.journalFile := by
  unfold TickJournal.flushMeta
  cases hd : journal.metaDirty with
  | true =>
    obtain ⟨hlatest, htip, hfile⟩ := persistLocked_diskTip h
    exact ⟨hlatest, htip.ge, hfile⟩
  | false => exact ⟨rfl, hclean hd, rfl⟩

/-- An append counts one more towards the next persist, or persists. -/
theorem append_diskTip {journal : TickJournal cfg} {disk : Disk} (h : journal.Current disk)
    {tick : TradeTick cfg.toRuntime} (ha : journal.Accepts tick) :
    let after := journal.append disk tick
    diskTip after.2.1 = journal.latestSeq + 1 ∨
      diskTip after.2.1 = diskTip disk ∧ after.1.metaDirty = true ∧
        after.1.appendCounter % metaPersistInterval =
          journal.appendCounter % metaPersistInterval + 1 := by
  obtain ⟨store, hs, he⟩ := append_accepts ha disk
  have hlatest : store.latestSeq = journal.latestSeq + 1 := hs.latestSeq
  have hcur : Current { journal with metaStore := store, appendCounter := journal.appendCounter + 1 }
      (Disk.writeLine disk (recordBytes cfg.toRuntime (journal.latestSeq + 1, tick))) := by
    unfold Current TickJournal.latestSeq
    rw [hlatest]
    exact ⟨(h.store.mono (Nat.le_succ _)).appended hs (Nat.le_refl _), h.file.mono (Nat.le_succ _)⟩
  rw [he]
  simp only [noteAppendLocked]
  split
  · left
    exact (persistLocked_diskTip hcur).2.1.trans hlatest
  · rename_i hmod
    right
    refine ⟨rfl, rfl, ?_⟩
    simp only [metaPersistInterval] at hmod ⊢
    omega

/-! ## The invariant -/

theorem inv_start : Inv (start : TipWriter cfg) where
  current := Current.new MetaPayload.Bounded.empty
  lag := Nat.zero_le _
  clean _ := Nat.zero_le _
  holds := ⟨[], .inl ⟨rfl, rfl⟩, nofun⟩
  accepts := nofun

theorem Inv.rejected (h : Inv s) {tick : TradeTick cfg.toRuntime} (hr : ¬s.journal.Accepts tick)
    (hidle : s.inside = none) : Inv { s with journal := (s.journal.append s.disk tick).1 } := by
  obtain ⟨store, hp, hw, -, he⟩ := append_rejects hr s.disk
  have hlatest : store.latestSeq = s.journal.latestSeq := congrArg MetaPayload.latestSeq hp
  have hcur := (append_rejected hr s.disk).current h.current
  simp only [he] at hcur ⊢
  obtain ⟨rs, hfile, hle⟩ := h.holds
  refine ⟨hcur, ?_, ?_, ⟨rs, hfile, ?_⟩, ?_⟩
  · exact hlatest.trans_le h.lag
  · intro hd
    exact hlatest.trans_le (h.clean hd)
  · intro r hr
    exact (hle r hr).trans hlatest.ge
  · intro tick count hi
    rw [hidle] at hi
    cases hi

theorem Inv.appended (h : Inv s) {tick : TradeTick cfg.toRuntime} (ha : s.journal.Accepts tick) :
    Inv ⟨(s.journal.append s.disk tick).1, (s.journal.append s.disk tick).2.1, none⟩ := by
  have happended := append_current h.current ha
  have hlag := h.lag
  obtain ⟨rs, hfile, hle⟩ := h.holds
  have hholds := append_holds s.journal hfile tick
  rw [if_pos ha] at hholds
  refine ⟨happended.current, ?_, ?_, ⟨_, hholds, ?_⟩, nofun⟩
  · simp only [happended.latestSeq]
    rcases append_diskTip h.current ha with htip | ⟨htip, -, hcount⟩
    · rw [htip]
      exact Nat.le_add_right _ _
    · rw [htip, hcount]
      omega
  · intro hclean
    simp only [happended.latestSeq]
    rcases append_diskTip h.current ha with htip | ⟨-, hdirty, -⟩
    · exact htip.ge
    · rw [hdirty] at hclean
      cases hclean
  · intro r hr
    simp only [happended.latestSeq]
    rcases List.mem_append.mp hr with hr | hr
    · exact (hle r hr).trans (Nat.le_succ _)
    · rw [List.mem_singleton.mp hr]

theorem Inv.flushed (h : Inv s) :
    Inv ⟨(s.journal.flushMeta s.disk).1, (s.journal.flushMeta s.disk).2.1, none⟩ := by
  obtain ⟨hlatest, htip, hfile⟩ := flushMeta_diskTip h.current h.clean
  obtain ⟨rs, hholds, hle⟩ := h.holds
  refine ⟨(flushMeta_current h.current).1, ?_, ?_, ⟨rs, hholds.congr hfile, ?_⟩, nofun⟩
  · exact hlatest.trans_le (htip.trans (Nat.le_add_right _ _))
  · intro _
    exact hlatest.trans_le htip
  · intro r hr
    exact (hle r hr).trans hlatest.ge

/-- A process that is opened after a flush starts at the tip that the flush left. -/
theorem Inv.reopened (h : Inv s) :
    (⟨.new (s.journal.flushMeta s.disk).2.1, (s.journal.flushMeta s.disk).2.1, none⟩ :
      TipWriter cfg).Inv := by
  obtain ⟨hlatest, htip, hfile⟩ := flushMeta_diskTip h.current h.clean
  have hbound := (flushMeta_current h.current).1.file
  obtain ⟨rs, hholds, hle⟩ := h.holds
  refine ⟨Current.new ?_, Nat.le_add_right _ _, fun _ => Nat.le_refl _,
    ⟨rs, hholds.congr hfile, ?_⟩, nofun⟩
  · rw [hlatest] at hbound
    exact hbound.mono htip
  · intro r hr
    exact (hle r hr).trans htip

theorem Inv.step (h : Inv s) (op : TipOp cfg) : Inv (s.step op) := by
  unfold TipWriter.step
  split
  · rename_i tick hidle
    split
    · rename_i ha
      refine ⟨h.current, h.lag, h.clean, h.holds, ?_⟩
      intro tick' count hi
      obtain ⟨rfl, -⟩ := Prod.mk.inj (Option.some.inj hi)
      exact ha
    · rename_i hr
      exact h.rejected hr hidle
  · rename_i tick written count hinside
    refine ⟨h.current, h.lag, h.clean, h.holds, ?_⟩
    intro tick' count' hi
    obtain ⟨rfl, -⟩ := Prod.mk.inj (Option.some.inj hi)
    exact h.accepts _ _ hinside
  · rename_i tick written hinside
    exact h.appended (h.accepts _ _ hinside)
  · exact h.flushed
  · exact h.reopened
  · exact h

/-! ## What a reader sees -/

theorem lineSeqs_eq (rt : Runtime) (journalFile : Option Bytes) :
    lineSeqs rt journalFile =
      ((byteLines (journalFile.getD [])).filter endsWithLF).filterMap (lineSeq rt) := by
  rw [List.filterMap_filter]
  apply List.filterMap_congr
  intro line _
  unfold lineSeq
  cases resolveLine rt line <;> rfl

/-- The numbers of the complete lines that the others see: at most one is past the tip of the
writer. -/
theorem Inv.visible_le (h : Inv s) :
    ∀ seq ∈ lineSeqs cfg.toRuntime s.visible.journalFile,
      seq ≤ (s.journal.latestSeq + if s.inside = none then 0 else 1 : Nat) := by
  obtain ⟨rs, hholds, hle⟩ := h.holds
  unfold visible
  intro seq hseq
  cases hinside : s.inside with
  | none =>
    rw [hinside, hholds.lineSeqs] at hseq
    obtain ⟨r, hr, rfl⟩ := List.mem_map.mp hseq
    exact Int.ofNat_le.mpr (hle r hr)
  | some tick =>
    obtain ⟨tick, count⟩ := tick
    simp only [hinside, Disk.writeLine, hholds.getD] at hseq
    -- what is written of the line is the start of one more record
    have hprefix : journalBytes rs ++
        (recordBytes cfg.toRuntime (s.journal.latestSeq + 1, tick)).take count <+:
          journalBytes (rs ++ [(s.journal.latestSeq + 1, tick)]) := by
      rw [journalBytes_append]
      apply (List.prefix_append_right_inj _).mpr
      simpa [journalBytes] using List.take_prefix count _
    obtain ⟨A, B, p, hsplit, hbytes, hp⟩ := prefix_cut hprefix
    rw [hbytes] at hseq
    have hlines : lineSeqs cfg.toRuntime (some (journalBytes A ++ encodeUtf8 p)) =
        lineSeqs cfg.toRuntime (some (journalBytes A)) := by
      rw [lineSeqs_eq, lineSeqs_eq, Option.getD_some, Option.getD_some, byteLines_startOf A hp,
        byteLines_journalBytes, List.filter_eq_self.mpr]
      intro l hl
      exact (framed_records A l hl).endsWithLF
    rw [hlines, lineSeqs_records] at hseq
    obtain ⟨r, hr, rfl⟩ := List.mem_map.mp hseq
    have hmem : r ∈ rs ++ [(s.journal.latestSeq + 1, tick)] := by
      rw [hsplit]
      exact List.mem_append_left _ hr
    simp only [reduceCtorEq, ↓reduceIte]
    rcases List.mem_append.mp hmem with hr | hr
    · have := hle r hr
      omega
    · rw [List.mem_singleton.mp hr]

/-- The durable tip lags the writer by less than an interval. -/
theorem Inv.lag_lt (h : Inv s) :
    s.journal.latestSeq + 1 ≤ diskTip s.visible + tipMetaLagToleranceSeq := by
  have htip : diskTip s.visible = diskTip s.disk := by
    unfold visible
    split <;> rfl
  have hlag := h.lag
  have hmod := Nat.mod_lt s.journal.appendCounter (show 0 < metaPersistInterval by decide)
  rw [htip]
  simp only [metaPersistInterval, tipMetaLagToleranceSeq] at hlag hmod ⊢
  omega

theorem Inv.tolerated (h : Inv s) : LagTolerated cfg s.visible := by
  intro tail hdisk hconsumed
  have hlag := h.lag_lt
  have hnext : tail.reader.nextSeq ≤ diskTip s.visible + tipMetaLagToleranceSeq + 1 := by
    rcases hconsumed with hfirst | hline
    · omega
    · rw [hdisk] at hline
      have := h.visible_le _ hline
      split at this <;> omega
  have hread := tail.journal.metaStore.readLatestSeqFromDisk_ge tail.disk.metaFile
  rw [hdisk] at hread
  have hsnapshot : tail.reader.nextSeq ≤
      (tail.journal.readLatestSeqFromDisk s.visible).2 + tipMetaLagToleranceSeq + 1 :=
    hnext.trans (Nat.add_le_add_right (Nat.add_le_add_right hread _) _)
  refine ⟨by omega, ?_, ?_⟩
  · rw [← Bool.not_eq_true]
    simp only [Tail.getReadProgressSnapshot, hdisk, computeReadProgressSnapshot_ahead]
    exact Nat.not_lt.mpr hsnapshot
  · simp only [Tail.getReadProgressSnapshot, hdisk]
    exact computeReadProgressSnapshot_floor hsnapshot

/-- **The durable tip never lags what a reader has consumed by more than the reader tolerates.** -/
theorem tip_lag_tolerated (ops : List (TipOp cfg)) :
    Run.Always step (fun s => LagTolerated cfg s.visible) start ops := by
  have h : Run.Always step Inv (start : TipWriter cfg) ops :=
    Run.always_of_step (fun _ op h => h.step op) inv_start ops
  exact h.mono fun _ => Inv.tolerated

end TipWriter

end Leviathan
