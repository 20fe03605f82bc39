import Leviathan.Journal.Readme
import Leviathan.Journal.Tips
import Leviathan.Lib.Run

/-!
# Two writers of one directory

Two instances of `TickJournal` share a directory; the file lock makes each of their calls one step.
Each numbers its lines from its own tip.

* `writers_unique_iff`: **the numbers stay unique, and past every tip that the writer has reported,
  exactly in the runs whose accepted appends are made by an instance that knows a tip at least as
  high as every number in the file.**
* `writers_share_seq`: two instances that were opened together both begin with `1`.
-/

namespace Leviathan

variable {cfg : Config}

inductive Writer where
  | first
  | second
  deriving DecidableEq

/-- Two instances on one directory, and what they have told their callers. -/
structure Writers (cfg : Config) where
  disk : Disk
  journal : Writer → TickJournal cfg
  /-- the highest tip that the instance has reported through `read_latest_seq_from_disk` -/
  reported : Writer → Nat
  /-- the numbers that appends returned, each with the highest tip its writer had reported -/
  returned : List (Nat × Nat)

inductive WritersOp (cfg : Config) where
  | append (w : Writer) (tick : TradeTick cfg.toRuntime)
  | flushMeta (w : Writer)
  | readLatestSeqFromDisk (w : Writer)
  | reloadMetaFromDisk (w : Writer)
  /-- another process takes the writer's place -/
  | reopen (w : Writer)

namespace Writers

/-- Two instances in an empty directory. -/
def start : Writers cfg := ⟨.empty, fun _ => .new .empty, fun _ => 0, []⟩

def step (s : Writers cfg) : WritersOp cfg → Writers cfg
  | .append w tick =>
    let (journal, disk, _) := (s.journal w).append s.disk tick
    { s with
      disk, journal := Function.update s.journal w journal
      returned :=
        if (s.journal w).Accepts tick then
          s.returned ++ [((s.journal w).latestSeq + 1, s.reported w)]
        else s.returned }
  | .flushMeta w =>
    let (journal, disk, _) := (s.journal w).flushMeta s.disk
    { s with disk, journal := Function.update s.journal w journal }
  | .readLatestSeqFromDisk w =>
    let (journal, tip) := (s.journal w).readLatestSeqFromDisk s.disk
    { s with
      journal := Function.update s.journal w journal
      reported := Function.update s.reported w (max (s.reported w) tip) }
  | .reloadMetaFromDisk w =>
    { s with journal := Function.update s.journal w ((s.journal w).reloadMetaFromDisk s.disk) }
  | .reopen w =>
    { s with
      journal := Function.update s.journal w (.new s.disk)
      reported := Function.update s.reported w 0 }

/-- No two lines share a number, and no append returned a number that its instance had reported
already. -/
def Apart (s : Writers cfg) : Prop :=
  (lineSeqs cfg.toRuntime s.disk.journalFile).Nodup ∧ ∀ p ∈ s.returned, p.2 < p.1

/-- The writer of an accepted tick knows a tip at least as high as every number in the file. -/
def TipCurrent (s : Writers cfg) : WritersOp cfg → Prop
  | .append w tick => (s.journal w).Accepts tick →
    ∀ seq ∈ lineSeqs cfg.toRuntime s.disk.journalFile, seq ≤ ((s.journal w).latestSeq : Int)
  | _ => True

/-- The file has used `1 .. M`, and nobody knows or was told of a tip past `M`. -/
structure Within (s : Writers cfg) (rs : List (Rec cfg.toRuntime)) (M : Nat) : Prop where
  file : s.disk.Holds rs
  numbered : Numbered rs M
  bounded : ∀ w, (s.journal w).Bounded M s.disk
  reported : ∀ w, s.reported w ≤ M

def Inv (s : Writers cfg) : Prop := ∃ rs M, s.Within rs M

theorem inv_start : (start : Writers cfg).Inv := by
  refine ⟨[], 0, .inl ⟨rfl, rfl⟩, fun n => ?_, fun _ => .new .empty, fun _ => Nat.le_refl _⟩
  constructor
  · rintro ⟨r, hr, -⟩; simp at hr
  · omega

/-- What one writer's call does to the bounds of both. -/
theorem bounded_update {M : Nat} {journals : Writer → TickJournal cfg} {disk : Disk} {w : Writer}
    {journal : TickJournal cfg} (hw : journal.Bounded M disk)
    (h : ∀ v, (journals v).metaStore.Bounded M) (v : Writer) :
    (Function.update journals w journal v).Bounded M disk := by
  by_cases hv : v = w
  · subst hv; simpa using hw
  · rw [Function.update_of_ne hv]; exact ⟨h v, hw.file⟩

theorem reported_update {M tip : Nat} {reported : Writer → Nat} {w : Writer} (ht : tip ≤ M)
    (h : ∀ v, reported v ≤ M) (v : Writer) : Function.update reported w tip v ≤ M := by
  by_cases hv : v = w
  · subst hv; simpa using ht
  · rw [Function.update_of_ne hv]; exact h v

theorem inv_step (s : Writers cfg) (op : WritersOp cfg) (h : s.Inv) : (s.step op).Inv := by
  obtain ⟨rs, M, h⟩ := h
  have hstore : ∀ v, (s.journal v).metaStore.Bounded M := fun v => (h.bounded v).store
  cases op with
  | append w tick =>
    have hholds := append_holds (s.journal w) h.file tick
    by_cases ha : (s.journal w).Accepts tick
    · have hM : (s.journal w).latestSeq ≤ M := (hstore w).1.1
      rw [if_pos ha] at hholds
      have hle : M ≤ max M ((s.journal w).latestSeq + 1) := by omega
      have hb : (s.journal w).Bounded (max M ((s.journal w).latestSeq + 1)) s.disk :=
        ⟨(hstore w).mono hle, (h.bounded w).file.mono hle⟩
      exact ⟨_, _, hholds, h.numbered.append hM tick,
        bounded_update (hb.append tick fun _ => by omega) fun v => (hstore v).mono hle,
        fun v => Nat.le_trans (h.reported v) hle⟩
    · rw [if_neg ha] at hholds
      exact ⟨rs, M, hholds, h.numbered,
        bounded_update ((h.bounded w).append tick fun hacc => absurd hacc ha) hstore, h.reported⟩
  | flushMeta w =>
    refine ⟨rs, M, ?_, h.numbered, bounded_update (h.bounded w).flushMeta hstore, h.reported⟩
    unfold Disk.Holds step
    rw [TickJournal.flushMeta_journalFile]
    exact h.file
  | readLatestSeqFromDisk w =>
    obtain ⟨hs, ht⟩ := (hstore w).readLatestSeqFromDisk (h.bounded w).file
    exact ⟨rs, M, h.file, h.numbered, bounded_update ⟨hs, (h.bounded w).file⟩ hstore,
      reported_update (Nat.max_le.mpr ⟨h.reported w, ht⟩) h.reported⟩
  | reloadMetaFromDisk w =>
    exact ⟨rs, M, h.file, h.numbered,
      bounded_update ⟨(hstore w).reloadFromDisk (h.bounded w).file, (h.bounded w).file⟩ hstore,
      h.reported⟩
  | reopen w =>
    exact ⟨rs, M, h.file, h.numbered, bounded_update (.new (h.bounded w).file) hstore,
      reported_update (Nat.zero_le _) h.reported⟩

theorem apart_step_iff (s : Writers cfg) (op : WritersOp cfg) (h : s.Inv) (hq : s.Apart) :
    (s.step op).Apart ↔ s.TipCurrent op := by
  obtain ⟨rs, M, h⟩ := h
  cases op with
  | append w tick =>
    have hiff := append_nodup_iff (s.journal w) h.file h.numbered
      (h.bounded w).store.1.1 tick hq.1
    refine ⟨fun hs => hiff.mp hs.1, fun hP => ⟨hiff.mpr hP, ?_⟩⟩
    simp only [step]
    split
    · rename_i ha
      intro p hp
      rcases List.mem_append.mp hp with hp | hp
      · exact hq.2 p hp
      · -- the tip of the instance is the highest number, and it was not told of a higher one
        rw [List.mem_singleton.mp hp]
        have hr := h.reported w
        rcases Nat.eq_zero_or_pos M with rfl | hM
        · simp only; omega
        · obtain ⟨r, hr', he⟩ := (h.numbered M).mpr ⟨hM, Nat.le_refl _⟩
          have hseq := hP ha (r.1 : Int) (by rw [h.file.lineSeqs]; exact List.mem_map_of_mem hr')
          simp only
          omega
    · exact hq.2
  | flushMeta w =>
    refine iff_of_true ⟨?_, hq.2⟩ trivial
    unfold step
    rw [TickJournal.flushMeta_journalFile]
    exact hq.1
  | readLatestSeqFromDisk w => exact iff_of_true hq trivial
  | reloadMetaFromDisk w => exact iff_of_true hq trivial
  | reopen w => exact iff_of_true hq trivial

/-- **Two writers keep their numbers apart exactly when each accepted tick goes to a writer that
knows the tip of the file.** -/
theorem writers_unique_iff (cfg : Config) (ops : List (WritersOp cfg)) :
    Run.Always step Apart (start : Writers cfg) ops ↔ Run.Each step TipCurrent start ops :=
  Run.always_iff_each (fun s op h _ _ => inv_step s op h) apart_step_iff inv_start
    ⟨.nil, by simp [start]⟩ ops

/-- Both writers begin with number 1. -/
theorem writers_share_seq :
    ¬Run.Always step Apart (start : Writers .default)
      [.append .first (readmeTick ['B', 'T', 'C'] ['1']),
        .append .second (readmeTick ['B', 'T', 'C'] ['2'])] := by
  intro h
  have hlast : ¬(lineSeqs Runtime.readme (Run.exec step (start : Writers .default)
      [.append .first (readmeTick ['B', 'T', 'C'] ['1']),
        .append .second (readmeTick ['B', 'T', 'C'] ['2'])]).disk.journalFile).Nodup := by
    decide +kernel
  exact hlast h.last.1

end Writers

end Leviathan
