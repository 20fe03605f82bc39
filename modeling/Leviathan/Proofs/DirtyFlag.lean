import Leviathan.Journal.Faults
import Leviathan.Journal.Instance
import Leviathan.Journal.Readme
import Leviathan.Lib.Run

/-!
# The dirty flag

`has_unpersisted_meta()` is to say whether the instance knows a tip that the metadata file does not
state, so that a later flush publishes it. Here any `persist` may raise.

* `flag_honest_iff`: **the flag is right exactly in the runs in which no persist raises, while the
  flag is clear, for a tip that the call itself has just advanced.**
* `repair_unflagged`: an `ensure_latest_seq_at_least` whose persist raises leaves no trace.
-/

namespace Leviathan

open Py

variable {cfg : Config}

inductive FlagOp (cfg : Config) where
  | append (tick : TradeTick cfg.toRuntime) (fault : Option PersistFault)
  /-- also the idle timer -/
  | flushMeta (fault : Option PersistFault)
  | ensureLatestSeqAtLeast (seq : Nat) (fault : Option PersistFault)
  /-- another process opens the directory -/
  | reopen

namespace Instance

def flagStep (s : Instance cfg) : FlagOp cfg → Instance cfg
  | .append tick fault =>
    let (journal, disk, _) := s.journal.appendFaulty none fault s.disk tick
    { journal, disk }
  | .flushMeta fault =>
    let (journal, disk, _) := s.journal.flushMetaFaulty fault s.disk
    { journal, disk }
  | .ensureLatestSeqAtLeast seq fault =>
    let (journal, disk, _) := s.journal.ensureLatestSeqAtLeastFaulty fault s.disk seq
    { journal, disk }
  | .reopen => { s with journal := .new s.disk }

/-- The tip on disk. -/
def diskTip (s : Instance cfg) : Nat := MetaStore.fileTip s.disk.metaFile

/-- The instance knows a tip past the one on disk only while its flag is set, so that a flush
publishes it. -/
structure FlagHonest (s : Instance cfg) : Prop where
  flag : s.diskTip < s.journal.latestSeq → s.journal.metaDirty = true
  retried : s.journal.latestSeq ≤ (s.flagStep (.flushMeta none)).diskTip

/-- A persist that raises does so for a tip that the flag already stands for. -/
def FlagSet (s : Instance cfg) : FlagOp cfg → Prop
  | .append tick fault => s.journal.Accepts tick → fault ≠ none →
    (s.journal.appendCounter + 1) % metaPersistInterval = 0 → s.journal.metaDirty = true
  | .ensureLatestSeqAtLeast seq fault => s.journal.latestSeq < seq → fault ≠ none →
    s.journal.metaDirty = true
  | _ => True

instance (s : Instance cfg) : ∀ op, Decidable (s.FlagSet op)
  | .append tick fault => inferInstanceAs (Decidable (s.journal.Accepts tick → fault ≠ none →
    (s.journal.appendCounter + 1) % metaPersistInterval = 0 → s.journal.metaDirty = true))
  | .ensureLatestSeqAtLeast seq fault => inferInstanceAs (Decidable (s.journal.latestSeq < seq →
    fault ≠ none → s.journal.metaDirty = true))
  | .flushMeta _ | .reopen => .isTrue trivial

/-- The instance knows the tip, and the file would tell it to another one. -/
structure FlagInv (s : Instance cfg) : Prop where
  current : s.journal.Current s.disk
  file : (loadPayload s.disk.metaFile).Bounded (loadPayload s.disk.metaFile).latestSeq

variable {s : Instance cfg}

theorem flagInv_start : (start : Instance cfg).FlagInv := ⟨.new .empty, .empty⟩

theorem diskTip_le (h : s.FlagInv) : s.diskTip ≤ s.journal.latestSeq := fileTip_le h.current.file

/-- What a flush needs to know is the flag. -/
theorem flagHonest_iff (h : s.FlagInv) :
    s.FlagHonest ↔ (s.diskTip < s.journal.latestSeq → s.journal.metaDirty = true) := by
  refine ⟨FlagHonest.flag, fun hflag => ⟨hflag, ?_⟩⟩
  by_cases hd : s.journal.metaDirty = true
  · obtain ⟨-, -, ⟨-, -, -, htip⟩ | ⟨hne, -⟩⟩ :=
      TickJournal.persistLockedFaulty_current h.current none
    · simp only [flagStep, diskTip, TickJournal.flushMetaFaulty, hd, ↓reduceIte, htip, Nat.le_refl]
    · exact absurd rfl hne
  · have hle : s.journal.latestSeq ≤ s.diskTip := Nat.not_lt.mp (mt hflag hd)
    simp only [flagStep, diskTip, TickJournal.flushMetaFaulty, hd]
    exact hle

/-- **A persist** with the tip of the instance on it, or with a fault. -/
theorem persist_flag {journal : TickJournal cfg} {disk : Disk} (hc : journal.Current disk)
    (hfile : (loadPayload disk.metaFile).Bounded (loadPayload disk.metaFile).latestSeq)
    (fault : Option PersistFault) {s' : Instance cfg}
    (hs : s' = ⟨(journal.persistLockedFaulty fault disk).1,
      (journal.persistLockedFaulty fault disk).2.1⟩) :
    s'.FlagInv ∧ s'.journal.latestSeq = journal.latestSeq ∧
      (fault = none ∧ s'.diskTip = journal.latestSeq ∨
        fault ≠ none ∧ s'.journal.metaDirty = journal.metaDirty ∧
          s'.disk.metaFile = disk.metaFile) := by
  subst hs
  obtain ⟨hcur, hlatest, ⟨rfl, -, hpayload, htip⟩ | ⟨hne, hdirty, hmeta⟩⟩ :=
    TickJournal.persistLockedFaulty_current hc fault
  · refine ⟨⟨hcur, ?_⟩, hlatest, .inl ⟨rfl, htip⟩⟩
    have := hcur.file
    rw [hlatest] at this
    rw [hpayload]
    exact this
  · exact ⟨⟨hcur, by rw [hmeta]; exact hfile⟩, hlatest, .inr ⟨hne, hdirty, hmeta⟩⟩

/-- **A persist of an advanced tip**: one that raises leaves the tip to the flag. -/
theorem persist_advanced {journal : TickJournal cfg} {disk : Disk} (hc : journal.Current disk)
    (hfile : (loadPayload disk.metaFile).Bounded (loadPayload disk.metaFile).latestSeq)
    (hlt : MetaStore.fileTip disk.metaFile < journal.latestSeq) (fault : Option PersistFault)
    {s' : Instance cfg}
    (hs : s' = ⟨(journal.persistLockedFaulty fault disk).1,
      (journal.persistLockedFaulty fault disk).2.1⟩) :
    s'.FlagInv ∧ (s'.FlagHonest ↔ (fault ≠ none → journal.metaDirty = true)) := by
  obtain ⟨hinv, hlatest, hcases⟩ := persist_flag hc hfile fault hs
  refine ⟨hinv, ?_⟩
  rw [flagHonest_iff hinv, hlatest]
  rcases hcases with ⟨rfl, htip⟩ | ⟨hne, hdirty, hmeta⟩
  · refine iff_of_true (fun hlt => ?_) (fun hne => absurd rfl hne)
    rw [htip] at hlt
    exact absurd hlt (Nat.lt_irrefl _)
  · have htip : s'.diskTip = MetaStore.fileTip disk.metaFile := congrArg MetaStore.fileTip hmeta
    rw [htip, hdirty]
    exact ⟨fun hflag _ => hflag hlt, fun hset _ => hset hne⟩

theorem append_rejected_flag (h : s.FlagInv) (hhonest : s.FlagHonest)
    {tick : TradeTick cfg.toRuntime} (ha : ¬s.journal.Accepts tick) (fault : Option PersistFault) :
    (s.flagStep (.append tick fault)).FlagInv ∧ (s.flagStep (.append tick fault)).FlagHonest := by
  have hr := TickJournal.append_rejected ha s.disk
  have hs' : s.flagStep (.append tick fault) = ⟨(s.journal.append s.disk tick).1, s.disk⟩ := by
    simp only [flagStep, TickJournal.appendFaulty_rejects ha]
  obtain ⟨store, -, -, -, he⟩ := TickJournal.append_rejects ha s.disk
  have hdirty : (s.journal.append s.disk tick).1.metaDirty = s.journal.metaDirty := by rw [he]
  have hcur := hr.current h.current
  rw [hr.disk] at hcur
  have hinv : (s.flagStep (.append tick fault)).FlagInv := by
    rw [hs']
    exact ⟨hcur, h.file⟩
  refine ⟨hinv, ?_⟩
  rw [flagHonest_iff hinv, hs', hr.latestSeq, hdirty]
  exact hhonest.flag

theorem append_flag (h : s.FlagInv) (hhonest : s.FlagHonest) (tick : TradeTick cfg.toRuntime)
    (fault : Option PersistFault) :
    (s.flagStep (.append tick fault)).FlagInv ∧
      ((s.flagStep (.append tick fault)).FlagHonest ↔ s.FlagSet (.append tick fault)) := by
  by_cases ha : s.journal.Accepts tick
  · obtain ⟨store, hs, he⟩ := @TickJournal.appendFaulty_accepts _ _ s.disk _ ha fault
    let disk := TickJournal.Disk.writeLine s.disk
      (recordBytes cfg.toRuntime (s.journal.latestSeq + 1, tick))
    let journal : TickJournal cfg :=
      { s.journal with metaStore := store, appendCounter := s.journal.appendCounter + 1 }
    have hlatest : journal.latestSeq = s.journal.latestSeq + 1 := hs.latestSeq
    have hcur : journal.Current disk := by
      unfold TickJournal.Current
      rw [hlatest]
      exact ⟨(h.current.store.mono (Nat.le_succ _)).appended hs (Nat.le_refl _),
        h.current.file.mono (Nat.le_succ _)⟩
    by_cases hdue : (s.journal.appendCounter + 1) % metaPersistInterval = 0
    · have hs' : s.flagStep (.append tick fault) = ⟨(journal.persistLockedFaulty fault disk).1,
          (journal.persistLockedFaulty fault disk).2.1⟩ := by
        simp only [flagStep, he, TickJournal.noteAppendLockedFaulty, hdue, ↓reduceIte]
        rfl
      have hlt : MetaStore.fileTip disk.metaFile < journal.latestSeq := by
        rw [hlatest]
        exact Nat.lt_succ_of_le (diskTip_le h)
      obtain ⟨hinv, hiff⟩ := persist_advanced hcur h.file hlt fault hs'
      refine ⟨hinv, hiff.trans ⟨?_, ?_⟩⟩
      · intro hset _ hne _
        exact hset hne
      · intro hset hne
        exact hset ha hne hdue
    · have hs' : s.flagStep (.append tick fault) = ⟨{ journal with metaDirty := true }, disk⟩ := by
        simp only [flagStep, he, TickJournal.noteAppendLockedFaulty, hdue, ↓reduceIte]
        rfl
      have hinv : (s.flagStep (.append tick fault)).FlagInv := by
        rw [hs']
        exact ⟨⟨hcur.store, hcur.file⟩, h.file⟩
      refine ⟨hinv, ?_⟩
      rw [flagHonest_iff hinv, hs']
      exact iff_of_true (fun _ => rfl) (fun _ _ hd => absurd hd hdue)
  · exact (append_rejected_flag h hhonest ha fault).imp_right fun hq =>
      iff_of_true hq fun ha' => absurd ha' ha

theorem flushMeta_flag (h : s.FlagInv) (hhonest : s.FlagHonest) (fault : Option PersistFault) :
    (s.flagStep (.flushMeta fault)).FlagInv ∧ (s.flagStep (.flushMeta fault)).FlagHonest := by
  by_cases hd : s.journal.metaDirty = true
  · have hs' : s.flagStep (.flushMeta fault) =
        ⟨(s.journal.persistLockedFaulty fault s.disk).1,
          (s.journal.persistLockedFaulty fault s.disk).2.1⟩ := by
      simp only [flagStep, TickJournal.flushMetaFaulty, hd, ↓reduceIte]
    obtain ⟨hinv, hl, hcases⟩ := persist_flag h.current h.file fault hs'
    refine ⟨hinv, (flagHonest_iff hinv).mpr fun hlt => ?_⟩
    rcases hcases with ⟨-, htip⟩ | ⟨-, hdirty, -⟩
    · rw [htip, hl] at hlt
      exact absurd hlt (Nat.lt_irrefl _)
    · rw [hdirty, hd]
  · have hs' : s.flagStep (.flushMeta fault) = s := by
      simp only [flagStep, TickJournal.flushMetaFaulty, hd]
      rfl
    rw [hs']
    exact ⟨h, hhonest⟩

theorem ensureLatestSeqAtLeast_flag (h : s.FlagInv) (hhonest : s.FlagHonest) (seq : Nat)
    (fault : Option PersistFault) :
    (s.flagStep (.ensureLatestSeqAtLeast seq fault)).FlagInv ∧
      ((s.flagStep (.ensureLatestSeqAtLeast seq fault)).FlagHonest ↔
        s.FlagSet (.ensureLatestSeqAtLeast seq fault)) := by
  let journal : TickJournal cfg :=
    { s.journal with metaStore := s.journal.metaStore.setLatestSeq seq }
  have hlatest : journal.latestSeq = max s.journal.latestSeq seq := rfl
  have hcur : journal.Current s.disk := by
    unfold TickJournal.Current
    rw [hlatest]
    exact ⟨(h.current.store.mono (Nat.le_max_left _ _)).setLatestSeq (Nat.le_max_right _ _),
      h.current.file.mono (Nat.le_max_left _ _)⟩
  by_cases hadv : s.journal.latestSeq < seq
  · have hadvanced : (s.journal.metaStore.ensureLatestSeqAtLeast seq).2 = true := by
      show decide (max s.journal.latestSeq seq > s.journal.latestSeq) = true
      exact decide_eq_true (by omega)
    have hs' : s.flagStep (.ensureLatestSeqAtLeast seq fault) =
        ⟨(journal.persistLockedFaulty fault s.disk).1,
          (journal.persistLockedFaulty fault s.disk).2.1⟩ := by
      simp only [flagStep, TickJournal.ensureLatestSeqAtLeastFaulty, hadvanced, ↓reduceIte]
      rfl
    have hlt : MetaStore.fileTip s.disk.metaFile < journal.latestSeq :=
      Nat.lt_of_le_of_lt (diskTip_le h) (by omega)
    obtain ⟨hinv, hiff⟩ := persist_advanced hcur h.file hlt fault hs'
    refine ⟨hinv, hiff.trans ⟨?_, ?_⟩⟩
    · intro hset _ hne
      exact hset hne
    · intro hset hne
      exact hset hadv hne
  · have hsame : max s.journal.latestSeq seq = s.journal.latestSeq := by omega
    have hadvanced : (s.journal.metaStore.ensureLatestSeqAtLeast seq).2 = false := by
      show decide (max s.journal.latestSeq seq > s.journal.latestSeq) = false
      exact decide_eq_false (by omega)
    have hs' : s.flagStep (.ensureLatestSeqAtLeast seq fault) = ⟨journal, s.disk⟩ := by
      simp only [flagStep, TickJournal.ensureLatestSeqAtLeastFaulty, hadvanced]
      rfl
    have hinv : (s.flagStep (.ensureLatestSeqAtLeast seq fault)).FlagInv := by
      rw [hs']
      exact ⟨hcur, h.file⟩
    refine ⟨hinv, iff_of_true ?_ fun hlt => absurd hlt hadv⟩
    rw [flagHonest_iff hinv, hs', hlatest, hsame]
    exact hhonest.flag

theorem reopen_flag (h : s.FlagInv) :
    (s.flagStep .reopen).FlagInv ∧ (s.flagStep .reopen).FlagHonest := by
  have hinv : (s.flagStep .reopen).FlagInv := ⟨.new h.file, h.file⟩
  refine ⟨hinv, (flagHonest_iff hinv).mpr fun hlt => ?_⟩
  -- what it read is what the file states
  have hle : (loadPayload s.disk.metaFile).latestSeq ≤ s.diskTip := by
    unfold diskTip MetaStore.fileTip
    cases s.disk.metaFile with
    | none => exact Nat.le_refl _
    | some payload => exact Nat.le_max_left _ _
  exact absurd hlt (Nat.not_lt.mpr hle)

theorem flagStep_honest (s : Instance cfg) (op : FlagOp cfg) (h : s.FlagInv)
    (hhonest : s.FlagHonest) :
    (s.flagStep op).FlagInv ∧ ((s.flagStep op).FlagHonest ↔ s.FlagSet op) := by
  cases op with
  | append tick fault => exact append_flag h hhonest tick fault
  | flushMeta fault =>
    exact (flushMeta_flag h hhonest fault).imp_right fun hq => iff_of_true hq trivial
  | ensureLatestSeqAtLeast seq fault => exact ensureLatestSeqAtLeast_flag h hhonest seq fault
  | reopen => exact (reopen_flag h).imp_right fun hq => iff_of_true hq trivial

/-- **When the dirty flag never lies**, over any run of one instance after the other. -/
theorem flag_honest_iff (cfg : Config) (ops : List (FlagOp cfg)) :
    Run.Always flagStep FlagHonest start ops ↔ Run.Each flagStep FlagSet start ops :=
  @Run.always_iff_each _ _ _ FlagInv _ _ (fun s op hi hq _ => (s.flagStep_honest op hi hq).1)
    (fun s op hi hq => (s.flagStep_honest op hi hq).2) _ flagInv_start
    ((flagHonest_iff flagInv_start).mpr fun hlt => absurd hlt (Nat.lt_irrefl _)) ops

/-- The tip is repaired, and the persist raises. -/
def unflaggedRun : List (FlagOp .default) := [.ensureLatestSeqAtLeast 5 (some .inWrite)]

/-- **The repaired tip is not flagged.** -/
theorem repair_unflagged : ¬Run.Always flagStep FlagHonest start unflaggedRun := by
  intro h
  have hlost : ¬((Run.exec flagStep start unflaggedRun).diskTip <
        (Run.exec flagStep start unflaggedRun).journal.latestSeq →
      (Run.exec flagStep start unflaggedRun).journal.metaDirty = true) := by
    decide +kernel
  exact hlost h.last.flag

end Instance

end Leviathan
