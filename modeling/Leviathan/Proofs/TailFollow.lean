import Leviathan.Journal.Instance
import Leviathan.Journal.ReaderInside
import Leviathan.Journal.Readme
import Leviathan.Lib.Run

/-!
# Following a journal across compactions

A reader polls a journal that its instance appends to and compacts, each time from the number after
the last record it returned. A compaction never drops a record that the reader still waits for.

* `exactly_once_iff`: **the polls return every appended record once, in order, exactly when no poll
  finds the reader inside the file and past a record that it still waits for.**
* `regrown_file_skips`: a file that is as long again as before its compaction hides a record.
-/

namespace Leviathan

open Py

variable {cfg : Config}

/-- A reader and its journal, and what was appended, returned and polled for. -/
structure Follow (cfg : Config) where
  tail : Tail cfg
  /-- the start of the next poll -/
  next : Nat
  appended : List (Rec cfg.toRuntime)
  returned : List (Rec cfg.toRuntime)
  /-- the records appended before the last poll -/
  polled : List (Rec cfg.toRuntime)

inductive FollowOp (cfg : Config) where
  | append (tick : TradeTick cfg.toRuntime)
  | flushMeta
  | saveCursor (lastProcessedSeq : Nat)
  | compactBeforeSeq (minRetainSeq : Nat)
  | maybeCompact (lagSeq : Nat)
  | poll (now : Rat)

namespace Follow

/-- A new reader of an empty directory that is to follow it from `startSeq` on. -/
def start (maxWaitSeconds : Rat) (startSeq : Nat) : Follow cfg :=
  ⟨⟨.new maxWaitSeconds, .new .empty, .empty⟩, startSeq, [], [], []⟩

def step (s : Follow cfg) : FollowOp cfg → Follow cfg
  | .append tick =>
    let (journal, disk, _) := s.tail.journal.append s.tail.disk tick
    { s with
      tail := { s.tail with journal, disk }
      appended := if s.tail.journal.Accepts tick
        then s.appended ++ [(s.tail.journal.latestSeq + 1, tick)] else s.appended }
  | .flushMeta =>
    let (journal, disk, _) := s.tail.journal.flushMeta s.tail.disk
    { s with tail := { s.tail with journal, disk } }
  | .saveCursor lastProcessedSeq =>
    { s with tail := { s.tail with disk := TickJournal.saveCursor s.tail.disk lastProcessedSeq } }
  | .compactBeforeSeq minRetainSeq =>
    let (journal, disk, _) := s.tail.journal.compactBeforeSeq s.tail.disk minRetainSeq
    { s with tail := { s.tail with journal, disk } }
  | .maybeCompact lagSeq =>
    let (journal, disk, _) := s.tail.journal.maybeCompact s.tail.disk lagSeq
    { s with tail := { s.tail with journal, disk } }
  | .poll now =>
    match s.tail.poll now s.next with
    | (tail, .error _) => { s with tail, polled := s.appended }
    | (tail, .ok records) =>
      { s with
        tail
        next := (records.getLast?.map fun r => r.1 + 1).getD s.next
        returned := s.returned ++ records
        polled := s.appended }

/-- A compaction keeps what the reader waits for. -/
def WatermarkKept (s : Follow cfg) : FollowOp cfg → Prop
  | .compactBeforeSeq minRetainSeq => minRetainSeq ≤ s.next
  | .maybeCompact lagSeq => TickJournal.loadCursor s.tail.disk - lagSeq ≤ s.next
  | _ => True

instance (s : Follow cfg) : ∀ op, Decidable (s.WatermarkKept op)
  | .compactBeforeSeq minRetainSeq => inferInstanceAs (Decidable (minRetainSeq ≤ s.next))
  | .maybeCompact lagSeq =>
    inferInstanceAs (Decidable (TickJournal.loadCursor s.tail.disk - lagSeq ≤ s.next))
  | .append _ | .flushMeta | .saveCursor _ | .poll _ => .isTrue trivial

/-- The polls have returned the records appended before the last of them, from `startSeq` on. -/
def ExactlyOnce (startSeq : Nat) (s : Follow cfg) : Prop :=
  s.returned = since startSeq s.polled

/-- A poll does not find the reader inside the file and past a record that it waits for. -/
def NotSkipped (s : Follow cfg) : FollowOp cfg → Prop
  | .poll _ => s.tail.reader.readOffset ≤ (s.tail.disk.journalFile.getD []).length →
    ∀ offset, RecordAt cfg.toRuntime s.tail.disk.journalFile s.next offset →
      s.tail.reader.readOffset ≤ offset
  | _ => True

/-- The file holds the records `rs`: all appended ones that the reader waits for. -/
structure Consistent (startSeq : Nat) (s : Follow cfg) (rs : List (Rec cfg.toRuntime)) : Prop where
  sound : s.tail.journal.Sound s.tail.disk rs
  logicalBolOffset : s.tail.reader.logicalBolOffset = some s.tail.reader.readOffset
  -- only the first poll resets the reader
  nextSeq : s.tail.reader.nextSeq = s.next ∨ s.tail.reader.readOffset = 0
  noFile : s.tail.disk.journalFile = none → s.tail.reader.readOffset = 0
  pending : since s.next s.appended = since s.next rs
  split : since startSeq s.appended = s.returned ++ since s.next s.appended
  reached : startSeq ≤ s.next ∧ (s.next = startSeq ∨ s.next ≤ s.tail.journal.latestSeq + 1)

def Inv (startSeq : Nat) (s : Follow cfg) : Prop := ∃ rs, s.Consistent startSeq rs

theorem inv_start (maxWaitSeconds : Rat) (startSeq : Nat) :
    (start maxWaitSeconds startSeq : Follow cfg).Inv startSeq :=
  ⟨[], .empty, rfl, .inr rfl, fun _ => rfl, rfl, rfl, Nat.le_refl _, .inl rfl⟩

variable {startSeq : Nat} {s : Follow cfg} {rs : List (Rec cfg.toRuntime)}

/-- An operation of the journal between two polls. -/
theorem Consistent.rebase (h : s.Consistent startSeq rs) {journal : TickJournal cfg} {disk : Disk}
    {rs' : List (Rec cfg.toRuntime)} (hs : journal.Sound disk rs')
    (hl : journal.latestSeq = s.tail.journal.latestSeq)
    (hf : disk.journalFile = none → s.tail.disk.journalFile = none)
    (hr : since s.next rs' = since s.next rs) :
    ({ s with tail := { s.tail with journal, disk } } : Follow cfg).Consistent startSeq rs' :=
  ⟨hs, h.logicalBolOffset, h.nextSeq, fun hn => h.noFile (hf hn), h.pending.trans hr.symm, h.split,
    h.reached.1, hl ▸ h.reached.2⟩

theorem inv_append (h : s.Consistent startSeq rs) (tick : TradeTick cfg.toRuntime) :
    (s.step (.append tick)).Inv startSeq := by
  by_cases ha : s.tail.journal.Accepts tick
  · have hp := TickJournal.append_current h.sound.current ha
    let r : Rec cfg.toRuntime := (s.tail.journal.latestSeq + 1, tick)
    have hr : since s.next [r] = since startSeq [r] := by
      have hstart : s.next ≤ r.1 ↔ startSeq ≤ r.1 := by
        have := h.reached
        have hr1 : r.1 = s.tail.journal.latestSeq + 1 := rfl
        omega
      simp only [since, List.filter_cons, List.filter_nil, hstart]
    refine ⟨rs ++ [r], h.sound.append ha, h.logicalBolOffset, h.nextSeq, fun hn => ?_, ?_, ?_,
      h.reached.1, ?_⟩
    · rw [show (s.step (.append tick)).tail.disk.journalFile = _ from hp.journalFile] at hn
      cases hn
    · simp only [step, ha, ↓reduceIte]
      have := h.pending
      simp only [since, List.filter_append] at this ⊢
      rw [this]
    · simp only [step, ha, ↓reduceIte]
      have := h.split
      simp only [since, List.filter_append] at this hr ⊢
      rw [this, List.append_assoc, hr]
    · have hl : (s.step (.append tick)).tail.journal.latestSeq =
        s.tail.journal.latestSeq + 1 := hp.latestSeq
      rw [hl]
      exact h.reached.2.imp_right fun hle => Nat.le_succ_of_le hle
  · have hr := TickJournal.append_rejected ha s.tail.disk
    have hstep : s.step (.append tick) = { s with tail := { s.tail with
        journal := (s.tail.journal.append s.tail.disk tick).1
        disk := (s.tail.journal.append s.tail.disk tick).2.1 } } := by
      simp only [step, ha, ↓reduceIte]
    rw [hstep]
    exact ⟨rs, h.rebase (h.sound.append_rejected ha) hr.latestSeq
      (fun hn => by rwa [hr.disk] at hn) rfl⟩

theorem inv_compactBeforeSeq (h : s.Consistent startSeq rs) {minRetainSeq : Nat}
    (hm : minRetainSeq ≤ s.next) : (s.step (.compactBeforeSeq minRetainSeq)).Inv startSeq := by
  obtain ⟨hs, hsame, -, hf⟩ := h.sound.compactBeforeSeq minRetainSeq
  exact ⟨_, h.rebase hs hsame.latestSeq hf (since_since hm rs)⟩

theorem inv_maybeCompact (h : s.Consistent startSeq rs) {lagSeq : Nat}
    (hm : TickJournal.loadCursor s.tail.disk - lagSeq ≤ s.next) :
    (s.step (.maybeCompact lagSeq)).Inv startSeq := by
  by_cases hnone : lagSeq = 0 ∨ TickJournal.loadCursor s.tail.disk ≤ lagSeq
  · have hs : s.step (.maybeCompact lagSeq) = s := by
      by_cases h0 : lagSeq = 0
      · simp only [step, TickJournal.maybeCompact, MetaStore.maybeCompact, h0, ↓reduceIte]
      · simp only [step, TickJournal.maybeCompact, MetaStore.maybeCompact, h0,
          hnone.resolve_left h0, ↓reduceIte]
    rw [hs]
    exact ⟨rs, h⟩
  · obtain ⟨h0, hle⟩ := not_or.mp hnone
    have hs : s.step (.maybeCompact lagSeq) =
        s.step (.compactBeforeSeq (max 1 (TickJournal.loadCursor s.tail.disk - lagSeq))) := by
      simp only [step, TickJournal.maybeCompact, MetaStore.maybeCompact, h0, hle, ↓reduceIte]
      rfl
    rw [hs]
    exact inv_compactBeforeSeq h (by omega)

/-- No record that the poll waits for is before the offset of the reader exactly when none is in the
part of the file before it. -/
theorem notSkipped_iff (h : s.Consistent startSeq rs) {A B : List (Rec cfg.toRuntime)}
    (hrs : rs = A ++ B) (hle : s.tail.reader.readOffset ≤ (journalBytes rs).length)
    (hA : s.tail.reader.readOffset ≤ (journalBytes A).length)
    (hstart : ∀ C r D, A = C ++ r :: D → (journalBytes C).length < s.tail.reader.readOffset)
    (now : Rat) : s.NotSkipped (.poll now) ↔ ∀ r ∈ A, r.1 < s.next := by
  simp only [NotSkipped, h.sound.file.getD, hle, forall_const]
  constructor
  · intro hskip r hr
    by_contra hge
    obtain ⟨C, D, rfl⟩ := List.append_of_mem hr
    have hrec := (recordAt_iff h.sound.file).mpr
      ⟨C, r, D ++ B, by simp [hrs], Nat.not_lt.mp hge, rfl⟩
    exact absurd (hskip _ hrec) (Nat.not_le.mpr (hstart C r D rfl))
  · intro hbefore offset hrec
    obtain ⟨C, r, D, hC, hr, rfl⟩ := (recordAt_iff h.sound.file).mp hrec
    have h₁ := (le_offsetOf_iff (hrs ▸ h.sound.increasing) s.next).mpr hbefore
    have h₂ := offsetOf_le_of_mem (A := C) (B := D) hr
    rw [← hC, hrs] at h₂
    omega

/-- **What a poll returns**: the records of the end `B` of the file that starts at the reader's
offset, or the whole file where the poll resets the reader. -/
theorem poll_cases (h : s.Consistent startSeq rs) (now : Rat) :
    ∃ A B tail', rs = A ++ B ∧ s.tail.poll now s.next = (tail', .ok (since s.next B)) ∧
      (s.NotSkipped (.poll now) ↔ ∀ r ∈ A, r.1 < s.next) ∧
      tail'.journal.Sound tail'.disk rs ∧
      tail'.journal.latestSeq = s.tail.journal.latestSeq ∧
      tail'.disk.journalFile = s.tail.disk.journalFile ∧
      tail'.reader.logicalBolOffset = some tail'.reader.readOffset ∧
      tail'.reader.nextSeq = nextAfter s.next B ∧
      tail'.reader.readOffset = (journalBytes rs).length := by
  by_cases hready : s.tail.reader.readOffset = 0 ∨
      (journalBytes rs).length < s.tail.reader.readOffset
  · -- the whole file
    have htail : s.tail.Ready s.next rs := by
      by_cases hn : s.tail.reader.nextSeq = s.next
      · rcases hready with h0 | hpast
        · exact .inr (.inl ⟨[], rs, rfl, h0, h.logicalBolOffset, by simp⟩)
        · refine .inr (.inr ⟨?_, hpast⟩)
          rcases h.sound.file with ⟨hnone, -⟩ | hs
          · have := h.noFile hnone
            omega
          · exact hs
      · exact .inl (Ne.symm hn)
    obtain ⟨tail', hp, hread, hsound, hsame⟩ := Tail.poll_sound h.sound htail now
    refine ⟨[], rs, tail', rfl, hp, iff_of_true ?_ (by simp), hsound, hsame.latestSeq,
      by rw [hread.disk], hread.logicalBolOffset, hread.nextSeq, hread.readOffset⟩
    intro hle offset _
    rw [h.sound.file.getD] at hle
    omega
  · -- from the offset on
    obtain ⟨h0, hle⟩ := not_or.mp hready
    have hle := Nat.not_lt.mp hle
    have hn := h.nextSeq.resolve_right h0
    have hfile : s.tail.disk.journalFile = some (journalBytes rs) := by
      rcases h.sound.file with ⟨hnone, -⟩ | hs
      · exact absurd (h.noFile hnone) h0
      · exact hs
    obtain ⟨A, B, tail', hrs, hp, hA, hstart, hread⟩ := Tail.readNewRecords_inside hfile
      h.sound.increasing hle h.logicalBolOffset now
    refine ⟨A, B, tail', hrs, ?_, notSkipped_iff h hrs hle hA hstart now, ?_, ?_,
      hread.files.journalFile, hread.logicalBolOffset, hn ▸ hread.nextSeq, hread.readOffset⟩
    · rw [hn] at hp
      simp only [Tail.poll, hn, ne_eq, not_true_eq_false, ↓reduceIte]
      exact hp
    · rw [hread.journal]
      exact h.sound.congr hread.files.journalFile hread.files.metaFile
    · rw [hread.journal]

/-- The next start is the number after the last record returned. -/
theorem next_eq {rt : Runtime} (next : Nat) (B : List (Rec rt)) :
    ((since next B).getLast?.map fun r => r.1 + 1).getD next = nextAfter next B := by
  unfold nextAfter
  cases (since next B).getLast? <;> rfl

theorem exactlyOnce_step (op : FollowOp cfg) (hinv : s.Inv startSeq)
    (hq : s.ExactlyOnce startSeq) : (s.step op).ExactlyOnce startSeq ↔ s.NotSkipped op := by
  obtain ⟨rs, h⟩ := hinv
  cases op with
  | poll now =>
    obtain ⟨A, B, tail', hrs, hp, hskip, -⟩ := poll_cases h now
    have hwant : since startSeq s.appended =
        s.returned ++ (since s.next A ++ since s.next B) := by
      rw [h.split, h.pending, hrs, since, since, since, List.filter_append]
    rw [hskip, ← since_eq_nil]
    simp only [step, hp, ExactlyOnce, hwant, List.append_cancel_left_eq]
    exact List.self_eq_append_left
  | append tick => exact iff_of_true hq trivial
  | flushMeta => exact iff_of_true hq trivial
  | saveCursor lastProcessedSeq => exact iff_of_true hq trivial
  | compactBeforeSeq minRetainSeq => exact iff_of_true hq trivial
  | maybeCompact lagSeq => exact iff_of_true hq trivial

theorem inv_poll (h : s.Consistent startSeq rs) (now : Rat) (hskip : s.NotSkipped (.poll now)) :
    (s.step (.poll now)).Inv startSeq := by
  obtain ⟨A, B, tail', hrs, hp, hiff, hsound, hlatest, hfile, hbol, hnext, hoff⟩ := poll_cases h now
  have hA := hiff.mp hskip
  have hafter : nextAfter s.next B = nextAfter s.next rs := by rw [hrs, nextAfter_append hA]
  have hs : s.step (.poll now) = { s with
      tail := tail', next := nextAfter s.next rs, returned := s.returned ++ since s.next rs,
      polled := s.appended } := by
    simp only [step, hp, next_eq, hafter]
    rw [hrs, since_append hA]
  have hle : s.next ≤ nextAfter s.next rs := by
    rcases nextAfter_cases s.next rs with he | ⟨r, -, hr, he⟩ <;> omega
  have hnone : since (nextAfter s.next rs) rs = [] :=
    since_eq_nil.mpr (lt_nextAfter h.sound.increasing s.next)
  have hnone' : since (nextAfter s.next rs) s.appended = [] := by
    rw [← since_since hle, h.pending, since_since hle, hnone]
  rw [hs]
  refine ⟨rs, hsound, hbol, .inl (hnext.trans hafter), fun hn => ?_, hnone'.trans hnone.symm, ?_,
    Nat.le_trans h.reached.1 hle, ?_⟩
  · rcases hsound.file with ⟨-, rfl⟩ | hf
    · exact hoff
    · rw [hf] at hn; cases hn
  · simp only [hnone', List.append_nil, ← h.pending, h.split]
  · simp only [hlatest]
    rcases nextAfter_cases s.next rs with he | ⟨r, hr, -, he⟩
    · rw [he]; exact h.reached.2
    · have := (h.sound.numbers r hr).2
      exact .inr (by omega)

theorem inv_step (op : FollowOp cfg) (hinv : s.Inv startSeq) (hkept : s.WatermarkKept op)
    (hskip : s.NotSkipped op) : (s.step op).Inv startSeq := by
  obtain ⟨rs, h⟩ := hinv
  cases op with
  | append tick => exact inv_append h tick
  | flushMeta =>
    obtain ⟨hs, hsame⟩ := h.sound.flushMeta
    exact ⟨rs, h.rebase hs hsame.latestSeq
      (fun hn => (TickJournal.flushMeta_journalFile _ _).symm.trans hn) rfl⟩
  | saveCursor lastProcessedSeq => exact ⟨rs, h.rebase (h.sound.congr rfl rfl) rfl id rfl⟩
  | compactBeforeSeq minRetainSeq => exact inv_compactBeforeSeq h hkept
  | maybeCompact lagSeq => exact inv_maybeCompact h hkept
  | poll now => exact inv_poll h now hskip

/-- **In the runs whose compactions keep what the reader waits for, the polls return every record
once and in order exactly when none of them finds the reader past a record inside the file.** -/
theorem exactly_once_iff (maxWaitSeconds : Rat) (startSeq : Nat) {ops : List (FollowOp cfg)}
    (hkept : Run.Each step WatermarkKept (start maxWaitSeconds startSeq) ops) :
    Run.Always step (ExactlyOnce startSeq) (start maxWaitSeconds startSeq) ops ↔
      Run.Each step NotSkipped (start maxWaitSeconds startSeq) ops := by
  refine Run.always_iff_each_of (Q := ExactlyOnce startSeq)
    (fun s op (hi : Inv startSeq s) _ hg hp => ?_) (fun s op hi hq _ => ?_)
    (inv_start maxWaitSeconds startSeq) rfl hkept
  · exact inv_step op hi hg hp
  · exact exactlyOnce_step op hi hq

/-- Between two polls, a record is dropped and one of the same length is appended. -/
def regrownRun : List (FollowOp .default) :=
  [.append (readmeTick ['B'] ['1']), .append (readmeTick ['B'] ['2']), .poll 0,
    .compactBeforeSeq 2, .append (readmeTick ['B'] ['3']), .poll 1]

theorem exactly_once_iff_regrown :
    Run.Each step WatermarkKept (start 2 1) regrownRun ∧
      (Run.Always step (ExactlyOnce 1) (start 2 1) regrownRun ↔
        Run.Each step NotSkipped (start 2 1) regrownRun) :=
  ⟨by decide +kernel, exactly_once_iff 2 1 (by decide +kernel)⟩

/-- **The file is as long as at the last poll, and the new record is not returned.** -/
theorem regrown_file_skips :
    Run.Each step WatermarkKept (start 2 1) regrownRun ∧
      ¬Run.Always step (ExactlyOnce 1) (start 2 1) regrownRun := by
  refine ⟨by decide +kernel, fun h => ?_⟩
  have hlost : (Run.exec step (start 2 1) regrownRun).returned.length ≠
      (since 1 (Run.exec step (start 2 1) regrownRun).polled).length := by
    decide +kernel
  exact hlost (congrArg List.length h.last)

end Follow

end Leviathan
