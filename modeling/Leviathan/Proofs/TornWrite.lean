import Leviathan.Journal.Instance
import Leviathan.Journal.Readme
import Leviathan.Journal.TornFile

/-!
# Appends after a torn write

A writer died in the middle of a line and left a fragment without a line end. The next writer
appends right after it, and its appends are acknowledged.

* `replays_iff`: **a cold replay yields all of them exactly when the fragment is harmless**, and
  that depends on the number of the first record: on the white space before it, and on its index
  entry.
* `torn_write_loses`: after the start of a line, the first record is lost.
-/

namespace Leviathan

open Py

variable {cfg : Config}

namespace TornWrite

/-! ## Runs of appends -/

/-- The appends of `ticks` in turn, and the records `(seq, tick)` that they acknowledge. -/
def appendAll (journal : TickJournal cfg) (disk : Disk) :
    List (TradeTick cfg.toRuntime) → TickJournal cfg × Disk × List (Rec cfg.toRuntime)
  | [] => (journal, disk, [])
  | tick :: ticks =>
    match journal.append disk tick with
    | (journal, disk, .error _) => appendAll journal disk ticks
    | (journal, disk, .ok seq) =>
      let (journal, disk, records) := appendAll journal disk ticks
      (journal, disk, (seq, tick) :: records)

/-- Each tick is accepted: its symbol is not blank, and it is no duplicate. -/
def AcceptsAll (journal : TickJournal cfg) (disk : Disk) : List (TradeTick cfg.toRuntime) → Prop
  | [] => True
  | tick :: ticks => journal.Accepts tick ∧
      AcceptsAll (journal.append disk tick).1 (journal.append disk tick).2.1 ticks

/-- The records of ticks that are numbered from `seq` on. -/
def numbered {rt : Runtime} (seq : Nat) : List (TradeTick rt) → List (Rec rt)
  | [] => []
  | tick :: ticks => (seq, tick) :: numbered (seq + 1) ticks

theorem le_of_mem_numbered {rt : Runtime} {seq : Nat} {ticks : List (TradeTick rt)} :
    ∀ r ∈ numbered seq ticks, seq ≤ r.1 := by
  induction ticks generalizing seq with
  | nil => simp [numbered]
  | cons tick ticks ih =>
    intro r hr
    rcases List.mem_cons.mp hr with rfl | hr
    · exact Nat.le_refl seq
    · exact Nat.le_of_succ_le (ih r hr)

theorem increasing_numbered {rt : Runtime} (seq : Nat) (ticks : List (TradeTick rt)) :
    Increasing (numbered seq ticks) := by
  induction ticks generalizing seq with
  | nil => exact .nil
  | cons tick ticks ih =>
    exact List.pairwise_cons.mpr ⟨fun r hr => le_of_mem_numbered r hr, ih (seq + 1)⟩

/-- What a run of accepted appends leaves, from the tip `seq` and the file `file` on. -/
structure Grown (journal : TickJournal cfg) (disk : Disk) (file : Bytes) (journal' : TickJournal cfg)
    (disk' : Disk) (records : List (Rec cfg.toRuntime)) : Prop where
  current : journal'.Current disk'
  journalFile : disk'.journalFile = some (file ++ journalBytes records)
  /-- A new entry is for a later record, or for the first one at the old end of the file. -/
  seqIndex : ∀ e ∈ journal'.metaStore.seqIndex, e ∈ journal.metaStore.seqIndex ∨ e = (0, 0) ∨
    ((journal.latestSeq + 1) % cfg.seqIndexInterval = 0 ∧
      e = (journal.latestSeq + 1, file.length)) ∨
    journal.latestSeq + 1 < e.1

theorem appendAll_cons {journal : TickJournal cfg} {disk : Disk} {tick : TradeTick cfg.toRuntime}
    (ha : journal.Accepts tick) (ticks : List (TradeTick cfg.toRuntime)) :
    appendAll journal disk (tick :: ticks) =
      let rest := appendAll (journal.append disk tick).1 (journal.append disk tick).2.1 ticks
      (rest.1, rest.2.1, (journal.latestSeq + 1, tick) :: rest.2.2) := by
  obtain ⟨store, -, he⟩ := TickJournal.append_accepts ha disk
  simp only [appendAll, he]

/-- **A run of accepted appends** writes the records that it acknowledges, numbered from the tip on.
-/
theorem appendAll_grown {journal : TickJournal cfg} {disk : Disk} {file : Bytes}
    (hcur : journal.Current disk) (hfile : disk.journalFile = some file)
    {ticks : List (TradeTick cfg.toRuntime)} (ha : AcceptsAll journal disk ticks) :
    (appendAll journal disk ticks).2.2 = numbered (journal.latestSeq + 1) ticks ∧
      Grown journal disk file (appendAll journal disk ticks).1 (appendAll journal disk ticks).2.1
        (appendAll journal disk ticks).2.2 := by
  induction ticks generalizing journal disk file with
  | nil => exact ⟨rfl, hcur, by simp [appendAll, hfile], fun e he => .inl he⟩
  | cons tick ticks ih =>
    obtain ⟨ha, hall⟩ := ha
    have happ := TickJournal.append_current hcur ha
    have hfile' := happ.journalFile
    rw [hfile, Option.getD_some] at hfile'
    obtain ⟨hrecords, hcur', hjournal, hindex⟩ := ih happ.current hfile' hall
    rw [happ.latestSeq] at hrecords hindex
    rw [appendAll_cons ha]
    refine ⟨by simp only [hrecords, numbered], hcur', ?_, fun e he => ?_⟩
    · simp only [hjournal, journalBytes_cons, List.append_assoc]
    · rcases hindex e he with he | he | ⟨-, rfl⟩ | he
      · -- an entry from the first append
        rw [happ.seqIndex, hfile] at he
        rcases mem_recordSeqIndex he with he | he | he
        · exact .inl he
        · exact .inr (.inl he)
        · exact .inr (.inr (.inl he))
      · exact .inr (.inl he)
      · exact .inr (.inr (.inr (Nat.lt_succ_self _)))
      · exact .inr (.inr (.inr (by omega)))

/-! ## The torn write -/

/-- Complete lines with the records `rs`, and a fragment that a dead writer left. The instance that
appends next knows the tip, and its index points to the records. -/
structure Torn (journal : TickJournal cfg) (disk : Disk) (rs : List (Rec cfg.toRuntime))
    (fragment : Bytes) : Prop where
  file : disk.journalFile = some (journalBytes rs ++ fragment)
  unframed : Unframed fragment
  increasing : Increasing rs
  numbers : ∀ r ∈ rs, 1 ≤ r.1 ∧ r.1 ≤ journal.latestSeq
  current : journal.Current disk
  index : Points journal.metaStore.seqIndex rs

/-- A cold replay from `startSeq` yields `records` and ends. -/
def Replays (journal : TickJournal cfg) (disk : Disk) (startSeq : Nat)
    (records : List (Rec cfg.toRuntime)) : Prop :=
  ∀ clock fuel, 2 ≤ fuel → journal.tailFrom clock fuel disk startSeq = some ⟨records, none⟩

/-- The text handle reads the fragment as white space. At tip 0 no read looks at the index. After
that the walk of the index must read the line too, so the white space is ASCII, and no entry of the
index may point behind it. -/
def Harmless (interval tip : Nat) (fragment : Bytes) : Prop :=
  if tip = 0 then (decodeUtf8 fragment).any (·.all isSpace) = true
  else fragment.all isByteSpace = true ∧ (fragment = [] ∨ (tip + 1) % interval ≠ 0)

instance (interval tip : Nat) (fragment : Bytes) : Decidable (Harmless interval tip fragment) := by
  unfold Harmless
  infer_instance

variable {journal : TickJournal cfg} {disk : Disk} {rs : List (Rec cfg.toRuntime)}
  {fragment : Bytes}

namespace Torn

/-- An instance that is alone on its directory, after a write that stopped inside a line. -/
theorem of_sound (h : journal.Sound disk rs) (hunframed : Unframed fragment) :
    Torn journal { disk with journalFile := some (journalBytes rs ++ fragment) } rs fragment :=
  ⟨rfl, hunframed, h.increasing, h.numbers, ⟨h.current.store, h.current.file⟩, h.index⟩

theorem below (h : Torn journal disk rs fragment) : ∀ r ∈ rs, r.1 < journal.latestSeq + 1 :=
  fun r hr => Nat.lt_succ_of_le (h.numbers r hr).2

theorem offsetOf_first (h : Torn journal disk rs fragment) {startSeq : Nat} (h1 : startSeq ≤ 1) :
    offsetOf startSeq rs = 0 :=
  offsetOf_of_from fun r hr => Nat.le_trans h1 (h.numbers r hr).1

/-- The file after a run of appends. -/
theorem file_after (h : Torn journal disk rs fragment) {tick : TradeTick cfg.toRuntime}
    {ticks : List (TradeTick cfg.toRuntime)} (ha : AcceptsAll journal disk (tick :: ticks)) :
    (appendAll journal disk (tick :: ticks)).2.1.journalFile =
      some (tornFile rs fragment (journal.latestSeq + 1, tick)
        (numbered (journal.latestSeq + 2) ticks)) := by
  obtain ⟨hrecords, hgrown⟩ := appendAll_grown h.current h.file ha
  rw [hgrown.journalFile, hrecords]
  simp [tornFile, tornBytes, numbered]

/-- The hint for a number up to the first appended one is not past its record. -/
theorem hint_le (h : Torn journal disk rs fragment) {ticks : List (TradeTick cfg.toRuntime)}
    (ha : AcceptsAll journal disk ticks)
    (hdue : fragment = [] ∨ (journal.latestSeq + 1) % cfg.seqIndexInterval ≠ 0) {startSeq : Nat}
    (hs : startSeq ≤ journal.latestSeq + 1) :
    (appendAll journal disk ticks).1.metaStore.indexedHint startSeq ≤ offsetOf startSeq rs := by
  obtain ⟨-, hgrown⟩ := appendAll_grown h.current h.file ha
  unfold MetaStore.indexedHint
  rcases chooseHint_cases startSeq (appendAll journal disk ticks).1.metaStore.seqIndex 0 with
    he | ⟨e, he, hle, hc⟩
  · omega
  rw [hc]
  rcases hgrown.seqIndex e he with he | rfl | ⟨hmod, rfl⟩ | hlt
  · exact Nat.le_trans (h.index e he) (offsetOf_mono hle rs)
  · exact Nat.zero_le _
  · -- the entry of the first appended record
    rcases hdue with rfl | hdue
    · rw [List.append_nil, offsetOf_of_before fun r hr => Nat.lt_of_lt_of_le (h.below r hr) hle]
    · exact absurd hmod hdue
  · omega

/-- **After a harmless fragment, replays yield every record.** -/
theorem replays (h : Torn journal disk rs fragment) {tick : TradeTick cfg.toRuntime}
    {ticks : List (TradeTick cfg.toRuntime)} (ha : AcceptsAll journal disk (tick :: ticks))
    (hharmless : Harmless cfg.seqIndexInterval journal.latestSeq fragment) {startSeq : Nat}
    (hs : startSeq ≤ journal.latestSeq + 1) :
    let after := appendAll journal disk (tick :: ticks)
    Replays after.1 after.2.1 startSeq (since startSeq rs ++ after.2.2) := by
  intro after clock fuel hfuel
  obtain ⟨hrecords, -⟩ := appendAll_grown h.current h.file ha
  have hfile := h.file_after ha
  -- the text of the fragment, and the seek
  obtain ⟨t, ht, hws, hbyte⟩ : ∃ t, decodeUtf8 fragment = some t ∧ t.all isSpace = true ∧
      after.1.byteOffsetForSeq after.2.1 startSeq = .ok (offsetOf startSeq rs) := by
    unfold TickJournal.byteOffsetForSeq MetaStore.byteOffsetForSeq
    unfold Harmless at hharmless
    split at hharmless
    · rename_i h0
      rw [if_pos (by omega), h.offsetOf_first (by omega)]
      cases hd : decodeUtf8 fragment with
      | none => simp [hd] at hharmless
      | some t => exact ⟨t, rfl, by simpa [hd] using hharmless, rfl⟩
    · obtain ⟨hws, hdue⟩ := hharmless
      obtain ⟨t, ht, hspace⟩ := decodeUtf8_byteSpace hws
      refine ⟨t, ht, hspace, ?_⟩
      split
      · rename_i h1
        rw [h.offsetOf_first h1]
      · rw [hfile]
        exact resolve_torn h.unframed hws h.increasing hs (h.hint_le ha hdue hs)
  have hmore : Increasing ((journal.latestSeq + 1, tick) :: numbered (journal.latestSeq + 2) ticks) :=
    increasing_numbered (journal.latestSeq + 1) (tick :: ticks)
  have hreplay := tailFrom_torn hfile h.unframed ht h.increasing h.below hmore hs hbyte clock hfuel
  rw [tornRecord, if_pos hws] at hreplay
  rw [hrecords]
  exact hreplay

/-- A replay that the index leads past the first appended record does not yield it. -/
theorem not_replays_end (h : Torn journal disk rs fragment) {tick : TradeTick cfg.toRuntime}
    (ha : journal.Accepts tick) {startSeq : Nat}
    (hbyte : (journal.append disk tick).1.byteOffsetForSeq (journal.append disk tick).2.1 startSeq =
      .ok (tornFile rs fragment (journal.latestSeq + 1, tick) []).length)
    {records : List (Rec cfg.toRuntime)} (hne : records ≠ []) :
    ¬Replays (journal.append disk tick).1 (journal.append disk tick).2.1 startSeq records := by
  intro hreplays
  have hfile := (TickJournal.append_current h.current ha).journalFile
  have hend := tailFrom_torn_end (hfile.trans (by simp [h.file, tornFile, tornBytes])) h.unframed
    hbyte (fun _ => 0) (Nat.le_refl 2)
  rw [hreplays _ 2 (Nat.le_refl 2)] at hend
  simp only [Option.some.injEq, Yielded.mk.injEq, and_true] at hend
  exact hne hend

/-- **A fragment after which replays yield the first appended record is harmless.** -/
theorem harmless (h : Torn journal disk rs fragment) {tick : TradeTick cfg.toRuntime}
    (ha : journal.Accepts tick)
    (hreplays : ∀ startSeq ≤ journal.latestSeq + 1,
      Replays (journal.append disk tick).1 (journal.append disk tick).2.1 startSeq
        (since startSeq rs ++ [(journal.latestSeq + 1, tick)])) :
    Harmless cfg.seqIndexInterval journal.latestSeq fragment := by
  have happ := TickJournal.append_current h.current ha
  have hfile : (journal.append disk tick).2.1.journalFile =
      some (tornFile rs fragment (journal.latestSeq + 1, tick) []) :=
    happ.journalFile.trans (by simp [h.file, tornFile, tornBytes])
  have hne : since (journal.latestSeq + 1) rs ++ [(journal.latestSeq + 1, tick)] ≠ [] := by simp
  unfold Harmless
  split
  · -- a replay from the start of the file
    rename_i h0
    have hfirst := hreplays 1 (by omega)
    cases hd : decodeUtf8 fragment with
    | none =>
      obtain ⟨e, he⟩ := tailFrom_torn_none hfile h.unframed hd (fun _ => 0) (Nat.le_succ 1)
      rw [hfirst _ 2 (Nat.le_refl 2)] at he
      simp at he
    | some t =>
      have hbyte : (journal.append disk tick).1.byteOffsetForSeq (journal.append disk tick).2.1 1 =
          .ok (offsetOf 1 rs) := by
        rw [h.offsetOf_first (Nat.le_refl 1)]
        rfl
      have hread := tailFrom_torn hfile h.unframed hd h.increasing h.below
        (List.pairwise_singleton _ _) (by simp) hbyte (fun _ => 0) (Nat.le_refl 2)
      rw [hfirst _ 2 (Nat.le_refl 2)] at hread
      by_contra hws
      have hws : ¬t.all isSpace = true := hws
      simp [tornRecord, hws] at hread
  · -- a replay from the appended record
    rename_i h0
    have hlast := hreplays (journal.latestSeq + 1) (Nat.le_refl _)
    have h1 : ¬journal.latestSeq + 1 ≤ 1 := by omega
    constructor
    · by_contra hws
      refine h.not_replays_end ha ?_ hne hlast
      unfold TickJournal.byteOffsetForSeq MetaStore.byteOffsetForSeq
      rw [if_neg h1, hfile]
      exact resolve_torn_end h.unframed (Bool.eq_false_iff.mpr hws) h.below _
    · by_contra hdue
      obtain ⟨hfrag, hmod⟩ := not_or.mp hdue
      refine h.not_replays_end ha ?_ hne hlast
      have hindex := happ.seqIndex
      rw [h.file, Option.getD_some] at hindex
      have hgot := @getLast?_recordSeqIndex cfg journal.metaStore (journal.latestSeq + 1)
        (journalBytes rs ++ fragment).length (Nat.succ_pos _) (not_not.mp hmod)
        fun e he => Nat.lt_succ_of_le (h.current.store.1.2 e he)
      rw [← hindex] at hgot
      have hle : ∀ e ∈ (journal.append disk tick).1.metaStore.seqIndex,
          e.1 ≤ journal.latestSeq + 1 := by
        rw [← happ.latestSeq]
        exact happ.current.store.1.2
      have hhint := chooseHint_getLast? hle hgot 0
      unfold TickJournal.byteOffsetForSeq MetaStore.byteOffsetForSeq MetaStore.indexedHint
      rw [if_neg h1, hfile, hhint]
      exact resolve_torn_inside h.unframed hfrag _

end Torn

/-- **Replays yield every record of every later run of appends exactly when the fragment is
harmless.** -/
theorem replays_iff (h : Torn journal disk rs fragment) (htick : ∃ tick, journal.Accepts tick) :
    (∀ tick ticks, AcceptsAll journal disk (tick :: ticks) →
      ∀ startSeq ≤ journal.latestSeq + 1,
        let after := appendAll journal disk (tick :: ticks)
        Replays after.1 after.2.1 startSeq (since startSeq rs ++ after.2.2)) ↔
      Harmless cfg.seqIndexInterval journal.latestSeq fragment := by
  constructor
  · intro hreplays
    obtain ⟨tick, ha⟩ := htick
    refine h.harmless ha fun startSeq hs => ?_
    have hone := hreplays tick [] ⟨ha, trivial⟩ startSeq hs
    rw [appendAll_cons ha] at hone
    exact hone
  · intro hharmless tick ticks ha startSeq hs
    exact h.replays ha hharmless hs

/-! ## The start of a line -/

def firstTick : TradeTick Config.default.toRuntime := readmeTick ['B'] ['1']
def secondTick : TradeTick Config.default.toRuntime := readmeTick ['B'] ['2']

/-- The start of a line, up to the sequence number. -/
def partialLine : Bytes := [123, 34, 115, 101, 113, 34, 58]

/-- An instance that wrote one record. -/
def writer : TickJournal .default := (TickJournal.append (.new .empty) .empty firstTick).1

/-- Its directory after a second write that stopped inside the line. -/
def partialDisk : Disk :=
  { (TickJournal.append (.new .empty : TickJournal .default) .empty firstTick).2.1 with
    journalFile := some (journalBytes [(1, firstTick)] ++ partialLine) }

theorem torn_partialDisk : Torn writer partialDisk [(1, firstTick)] partialLine := by
  have hsound := TickJournal.Sound.append (@TickJournal.Sound.empty .default)
    (show (TickJournal.new .empty : TickJournal .default).Accepts firstTick by decide)
  exact Torn.of_sound hsound ⟨by decide, by decide⟩

theorem replays_iff_partialDisk :
    ¬∀ tick ticks, AcceptsAll writer partialDisk (tick :: ticks) →
      ∀ startSeq ≤ writer.latestSeq + 1,
        let after := appendAll writer partialDisk (tick :: ticks)
        Replays after.1 after.2.1 startSeq (since startSeq [(1, firstTick)] ++ after.2.2) := by
  intro h
  have hharmless := (replays_iff torn_partialDisk ⟨secondTick, by decide +kernel⟩).mp h
  revert hharmless
  decide +kernel

/-- **Record 2 is written after the start of a line, and a replay of the file does not yield it.**
-/
theorem torn_write_loses :
    Torn writer partialDisk [(1, firstTick)] partialLine ∧
      AcceptsAll writer partialDisk [secondTick] ∧
      let after := appendAll writer partialDisk [secondTick]
      ¬Replays after.1 after.2.1 1 (since 1 [(1, firstTick)] ++ after.2.2) := by
  refine ⟨torn_partialDisk, ⟨by decide +kernel, trivial⟩, fun h => ?_⟩
  have hyielded : ((appendAll writer partialDisk [secondTick]).1.tailFrom (fun _ => 0) 2
      (appendAll writer partialDisk [secondTick]).2.1 1).map (fun yielded => yielded.items.length) =
        some 1 := by
    decide +kernel
  rw [h _ 2 (Nat.le_refl 2)] at hyielded
  revert hyielded
  decide +kernel

end TornWrite

end Leviathan
