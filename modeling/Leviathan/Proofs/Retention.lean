import Leviathan.Journal.MetaFile
import Leviathan.Journal.Readme
import Leviathan.Journal.StreamLemmas
import Leviathan.Lib.Run

/-!
# What compaction keeps for a restart

The collector compacts up to a lag behind the cursor that the engine has saved, and is restarted
after a flush. The engine saves the numbers of records that it has read; it may also go back.

* `resumes_iff`: **an engine that is started gets every record past the saved cursor, in exactly the
  runs in which no cursor is saved that is behind what was compacted.**
* `resumes_within_lag`: a cursor that goes back by no more than the lag is not.
-/

namespace Leviathan

open Py JournalTickStream

variable {cfg : Config}

/-- A collector, and the directory that it shares with an engine. -/
structure Retention (cfg : Config) where
  collector : TickJournal cfg
  disk : Disk
  /-- the records appended so far -/
  appended : List (Rec cfg.toRuntime)
  /-- the first number that no compaction has dropped -/
  retained : Nat
  /-- the highest cursor that was saved -/
  highest : Nat

inductive RetentionOp (cfg : Config) where
  | append (tick : TradeTick cfg.toRuntime)
  | flushMeta
  /-- `flush_meta()`, and a new process opens the journal -/
  | restart
  /-- the engine saves the number of a record -/
  | saveCursor (lastProcessedSeq : Nat)
  | maybeCompact (lagSeq : Nat)

namespace Retention

def start : Retention cfg := ⟨.new .empty, .empty, [], 0, 0⟩

/-- The cursor's `last_processed_seq` in the file. -/
def cursor (s : Retention cfg) : Nat := TickJournal.loadCursor s.disk

/-- The number up to which `maybe_compact` drops. -/
def droppedTo (s : Retention cfg) (lagSeq : Nat) : Nat :=
  if lagSeq = 0 ∨ s.cursor ≤ lagSeq then 0 else max 1 (s.cursor - lagSeq)

def step (s : Retention cfg) : RetentionOp cfg → Retention cfg
  | .append tick =>
    let (collector, disk, _) := s.collector.append s.disk tick
    { s with
      collector, disk
      appended := if s.collector.Accepts tick
        then s.appended ++ [(s.collector.latestSeq + 1, tick)] else s.appended }
  | .flushMeta =>
    let (collector, disk, _) := s.collector.flushMeta s.disk
    { s with collector, disk }
  | .restart =>
    let (_, disk, _) := s.collector.flushMeta s.disk
    { s with collector := .new disk, disk }
  | .saveCursor lastProcessedSeq =>
    if lastProcessedSeq ≤ s.collector.latestSeq then
      { s with
        disk := TickJournal.saveCursor s.disk lastProcessedSeq
        highest := max s.highest lastProcessedSeq }
    else s
  | .maybeCompact lagSeq =>
    let (collector, disk, _) := s.collector.maybeCompact s.disk lagSeq
    { s with collector, disk, retained := max s.retained (s.droppedTo lagSeq) }

/-- The first poll of an engine that is started gives its loop every record past the saved cursor.
-/
def Resumes (s : Retention cfg) : Prop :=
  ∀ (maxWaitSeconds : Rat) (symbols : List Str) (now : Rat),
    ((JournalTickStream.new maxWaitSeconds (.new s.disk) s.disk symbols).startStreaming.tailFollowPoll
      now).records = since (s.cursor + 1) s.appended

/-- The cursor that is saved is not behind what was compacted. -/
def CursorKept (s : Retention cfg) : RetentionOp cfg → Prop
  | .saveCursor lastProcessedSeq =>
    lastProcessedSeq ≤ s.collector.latestSeq → s.retained ≤ lastProcessedSeq + 1
  | _ => True

/-- Compactions keep a lag, and the engine goes back by no more. -/
def WithinLag (lag : Nat) (s : Retention cfg) : RetentionOp cfg → Prop
  | .saveCursor lastProcessedSeq => s.highest ≤ lastProcessedSeq + lag
  | .maybeCompact lagSeq => lag ≤ lagSeq
  | _ => True

/-- What every state of a run has. -/
structure Inv (s : Retention cfg) : Prop where
  sound : s.collector.Sound s.disk (since s.retained s.appended)
  restorable : s.collector.Restorable s.disk
  /-- the journal has given the numbers up to its tip -/
  numbered : ∀ n, 1 ≤ n → n ≤ s.collector.latestSeq → ∃ r ∈ s.appended, r.1 = n
  cursorTip : s.cursor ≤ s.collector.latestSeq
  retainedTip : s.retained ≤ s.collector.latestSeq

variable {s : Retention cfg}

theorem inv_start : (start : Retention cfg).Inv :=
  ⟨.empty, .empty, fun _ h1 h0 => absurd (Nat.le_trans h1 h0) (Nat.not_succ_le_zero 0),
    Nat.le_refl _, Nat.le_refl _⟩

/-! ## The collector -/

/-- A new record is retained. -/
theorem Inv.since_append (h : s.Inv) (tick : TradeTick cfg.toRuntime) :
    since s.retained (s.appended ++ [(s.collector.latestSeq + 1, tick)]) =
      since s.retained s.appended ++ [(s.collector.latestSeq + 1, tick)] := by
  have hle := h.retainedTip
  have hle : s.retained ≤ s.collector.latestSeq + 1 := by omega
  simp [since, List.filter_append, hle]

theorem inv_append (h : s.Inv) (tick : TradeTick cfg.toRuntime) : (s.step (.append tick)).Inv := by
  have hrestorable := h.restorable.append h.sound.current tick
  by_cases ha : s.collector.Accepts tick
  · have happ := TickJournal.append_current h.sound.current ha
    have hsound := h.sound.append ha
    have hretained := h.retainedTip
    have hcursor : TickJournal.loadCursor (s.collector.append s.disk tick).2.1 = s.cursor :=
      congrArg (·.getD 0) happ.cursorFile
    have hs : s.step (.append tick) =
        { s with
          collector := (s.collector.append s.disk tick).1
          disk := (s.collector.append s.disk tick).2.1
          appended := s.appended ++ [(s.collector.latestSeq + 1, tick)] } := by
      simp only [step, ha, ↓reduceIte]
    rw [hs]
    refine ⟨?_, hrestorable, fun n h1 hn => ?_, ?_, ?_⟩
    · rw [h.since_append]
      exact hsound
    · simp only [happ.latestSeq] at hn
      rcases Nat.lt_or_ge s.collector.latestSeq n with hlt | hle
      · exact ⟨_, List.mem_append_right _ (List.mem_singleton_self _), by omega⟩
      · obtain ⟨r, hr, hrn⟩ := h.numbered n h1 hle
        exact ⟨r, List.mem_append_left _ hr, hrn⟩
    · have := h.cursorTip
      simp only [cursor, happ.latestSeq, hcursor] at this ⊢
      omega
    · simp only [happ.latestSeq]
      omega
  · have hrej := TickJournal.append_rejected ha s.disk
    have hs : s.step (.append tick) =
        { s with
          collector := (s.collector.append s.disk tick).1
          disk := (s.collector.append s.disk tick).2.1 } := by
      simp only [step, ha, ↓reduceIte]
    rw [hs]
    refine ⟨h.sound.append_rejected ha, hrestorable, ?_, ?_, ?_⟩
    · rw [hrej.latestSeq]; exact h.numbered
    · simp only [cursor, hrej.disk, hrej.latestSeq]
      exact h.cursorTip
    · rw [hrej.latestSeq]; exact h.retainedTip

/-- A call that changes neither the records nor the cursor. -/
theorem Inv.rebase (h : s.Inv) {collector : TickJournal cfg} {disk : Disk}
    (hsound : collector.Sound disk (since s.retained s.appended))
    (hrestorable : collector.Restorable disk) (hlatest : collector.latestSeq = s.collector.latestSeq)
    (hcursor : disk.cursorFile = s.disk.cursorFile) :
    ({ s with collector, disk } : Retention cfg).Inv := by
  refine ⟨hsound, hrestorable, ?_, ?_, ?_⟩
  · rw [hlatest]; exact h.numbered
  · simp only [cursor, TickJournal.loadCursor, hcursor, hlatest]
    exact h.cursorTip
  · rw [hlatest]; exact h.retainedTip

theorem inv_flushMeta (h : s.Inv) : (s.step .flushMeta).Inv :=
  have hflush := h.sound.flushMeta
  h.rebase hflush.1 (h.restorable.flushMeta h.sound.current).1 hflush.2.latestSeq
    (TickJournal.flushMeta_cursorFile _ _)

theorem inv_restart (h : s.Inv) : (s.step .restart).Inv := by
  have hflushed := (h.restorable.flushMeta h.sound.current).2
  obtain ⟨hsound, hsame⟩ := h.sound.flushMeta
  obtain ⟨hnew, hnewsame⟩ := hsound.reopen hflushed
  exact h.rebase hnew hflushed.reopen (hnewsame.latestSeq.trans hsame.latestSeq)
    (TickJournal.flushMeta_cursorFile _ _)

theorem droppedTo_le (s : Retention cfg) (lagSeq : Nat) : s.droppedTo lagSeq ≤ s.cursor := by
  unfold droppedTo
  split <;> omega

/-- `maybe_compact` is `compact_before_seq` or does nothing. -/
theorem step_maybeCompact (s : Retention cfg) (lagSeq : Nat) :
    s.step (.maybeCompact lagSeq) = s ∨ s.step (.maybeCompact lagSeq) =
      { s with
        collector := (s.collector.compactBeforeSeq s.disk (s.droppedTo lagSeq)).1
        disk := (s.collector.compactBeforeSeq s.disk (s.droppedTo lagSeq)).2.1
        retained := max s.retained (s.droppedTo lagSeq) } := by
  have hcursor : TickJournal.loadCursor s.disk = s.cursor := rfl
  simp only [step, TickJournal.maybeCompact, MetaStore.maybeCompact, hcursor, droppedTo]
  by_cases h0 : lagSeq = 0
  · left
    simp only [h0, true_or, ↓reduceIte, Nat.max_zero]
  by_cases hle : s.cursor ≤ lagSeq
  · left
    simp only [h0, hle, or_true, ↓reduceIte, Nat.max_zero]
  · right
    simp only [h0, hle, or_self, ↓reduceIte]
    rfl

theorem since_max {rt : Runtime} (m n : Nat) (rs : List (Rec rt)) :
    since n (since m rs) = since (max m n) rs := by
  simp only [since, List.filter_filter]
  apply List.filter_congr
  intro r _
  simp only [Nat.max_le, Bool.decide_and, Bool.and_comm]

/-- A compaction that keeps a lag behind the cursor. -/
theorem inv_maybeCompact (h : s.Inv) (lagSeq : Nat) : (s.step (.maybeCompact lagSeq)).Inv := by
  let minRetainSeq := s.droppedTo lagSeq
  rcases s.step_maybeCompact lagSeq with hs | hs
  · rw [hs]
    exact h
  · obtain ⟨hsound, hsame, hcursorFile, -⟩ := h.sound.compactBeforeSeq minRetainSeq
    have hrestorable := h.restorable.compactBeforeSeq h.sound.current h.sound.file
      (fun r hr => (h.sound.numbers r hr).2) minRetainSeq
    have hcursor : TickJournal.loadCursor (s.collector.compactBeforeSeq s.disk minRetainSeq).2.1 =
        s.cursor := congrArg (·.getD 0) hcursorFile
    have hmin : minRetainSeq ≤ s.collector.latestSeq :=
      Nat.le_trans (s.droppedTo_le lagSeq) h.cursorTip
    rw [since_max] at hsound
    rw [hs]
    refine ⟨hsound, hrestorable, ?_, ?_, ?_⟩
    · simp only [minRetainSeq, hsame.latestSeq]
      exact h.numbered
    · exact Nat.le_trans (Nat.le_of_eq hcursor)
        (Nat.le_trans h.cursorTip (Nat.le_of_eq hsame.latestSeq.symm))
    · exact Nat.le_trans (Nat.max_le.mpr ⟨h.retainedTip, hmin⟩)
        (Nat.le_of_eq hsame.latestSeq.symm)

theorem inv_step (s : Retention cfg) (op : RetentionOp cfg) (h : s.Inv) : (s.step op).Inv := by
  cases op with
  | append tick => exact inv_append h tick
  | flushMeta => exact inv_flushMeta h
  | restart => exact inv_restart h
  | saveCursor lastProcessedSeq =>
    unfold step
    simp only
    split
    · rename_i hle
      have hrestorable : s.collector.Restorable (TickJournal.saveCursor s.disk lastProcessedSeq) :=
        ⟨h.restorable.keyed, fun hd =>
          have hflushed := h.restorable.flushed hd
          ⟨hflushed.latestSeq, hflushed.window, hflushed.keys⟩⟩
      exact ⟨h.sound.congr rfl rfl, hrestorable, h.numbered, hle, h.retainedTip⟩
    · exact h
  | maybeCompact lagSeq => exact inv_maybeCompact h lagSeq

/-! ## Restarts of the engine -/

/-- **An engine that is started gets every record past the cursor exactly when none is compacted.**
-/
theorem Inv.resumes_iff_retained (h : s.Inv) : s.Resumes ↔ s.retained ≤ s.cursor + 1 := by
  have hpoll : ∀ (maxWaitSeconds : Rat) (symbols : List Str) (now : Rat),
      ((JournalTickStream.new maxWaitSeconds (.new s.disk) s.disk symbols).startStreaming.tailFollowPoll
        now).records = since (s.cursor + 1) (since s.retained s.appended) := by
    intro maxWaitSeconds symbols now
    exact (@tailFollowPoll_readable _
      (JournalTickStream.new maxWaitSeconds (.new s.disk) s.disk symbols).startStreaming _
      (.new maxWaitSeconds h.sound.readable) rfl rfl rfl now).1
  unfold Resumes
  simp only [hpoll]
  constructor
  · intro hall
    by_contra hgt
    -- the record behind the cursor is compacted
    have hretained := h.retainedTip
    obtain ⟨r, hr, hrn⟩ := h.numbered (s.cursor + 1) (Nat.le_add_left _ _) (by omega)
    have hmem : r ∈ since (s.cursor + 1) s.appended := mem_since.mpr ⟨hr, Nat.le_of_eq hrn.symm⟩
    rw [← hall 0 [] 0] at hmem
    have := (mem_since.mp (mem_since.mp hmem).1).2
    omega
  · intro hle _ _ _
    exact since_since hle s.appended

/-- Where compactions reach, and where the cursor goes. -/
theorem step_cursor (s : Retention cfg) (op : RetentionOp cfg) (h : s.Inv) :
    (s.step op).retained ≤ max s.retained s.cursor ∧ (s.step op).cursor = s.cursor ∧
        s.CursorKept op ∨
      ∃ lastProcessedSeq, op = .saveCursor lastProcessedSeq ∧
        lastProcessedSeq ≤ s.collector.latestSeq ∧ (s.step op).retained = s.retained ∧
        (s.step op).cursor = lastProcessedSeq := by
  have hkeep := Nat.le_max_left s.retained s.cursor
  have hsame : ∀ disk : Disk, disk.cursorFile = s.disk.cursorFile →
      TickJournal.loadCursor disk = s.cursor := fun disk hfile => congrArg (·.getD 0) hfile
  cases op with
  | append tick =>
    refine .inl ⟨hkeep, hsame _ ?_, trivial⟩
    by_cases ha : s.collector.Accepts tick
    · exact (TickJournal.append_current h.sound.current ha).cursorFile
    · exact congrArg Disk.cursorFile (TickJournal.append_rejected ha s.disk).disk
  | flushMeta => exact .inl ⟨hkeep, hsame _ (TickJournal.flushMeta_cursorFile _ _), trivial⟩
  | restart => exact .inl ⟨hkeep, hsame _ (TickJournal.flushMeta_cursorFile _ _), trivial⟩
  | saveCursor lastProcessedSeq =>
    by_cases hle : lastProcessedSeq ≤ s.collector.latestSeq
    · refine .inr ⟨lastProcessedSeq, rfl, hle, ?_⟩
      simp only [step, hle, ↓reduceIte, true_and]
      rfl
    · refine .inl ⟨?_, ?_, fun h => absurd h hle⟩
      · simp only [step, hle, ↓reduceIte, hkeep]
      · simp only [step, hle, ↓reduceIte]
  | maybeCompact lagSeq =>
    left
    rcases s.step_maybeCompact lagSeq with hs | hs
    · rw [hs]
      exact ⟨hkeep, rfl, trivial⟩
    · obtain ⟨-, -, hcursorFile, -⟩ := h.sound.compactBeforeSeq (s.droppedTo lagSeq)
      rw [hs]
      exact ⟨max_le_max (Nat.le_refl _) (s.droppedTo_le lagSeq), hsame _ hcursorFile, trivial⟩

/-- A step keeps that, unless it saves a cursor that is behind. -/
theorem resumes_step (s : Retention cfg) (op : RetentionOp cfg) (h : s.Inv) (hresumes : s.Resumes) :
    (s.step op).Resumes ↔ s.CursorKept op := by
  have hkept := h.resumes_iff_retained.mp hresumes
  rw [(inv_step s op h).resumes_iff_retained]
  rcases step_cursor s op h with ⟨hretained, hcursor, hop⟩ | ⟨seq, rfl, hle, hretained, hcursor⟩
  · refine iff_of_true ?_ hop
    rw [hcursor]
    omega
  · rw [hretained, hcursor]
    exact ⟨fun hgoal _ => hgoal, fun hgoal => hgoal hle⟩

/-- **A restart of the engine loses nothing**, in every state of exactly the runs in which no cursor
is saved that is behind what was compacted. -/
theorem resumes_iff (ops : List (RetentionOp cfg)) :
    Run.Always step Resumes start ops ↔ Run.Each step CursorKept start ops :=
  Run.always_iff_each (fun s op h _ _ => inv_step s op h) resumes_step inv_start
    (inv_start.resumes_iff_retained.mpr (Nat.zero_le _)) ops

/-! ## The lag -/

/-- Compactions stay the lag behind the highest cursor. -/
structure Lagging (lag : Nat) (s : Retention cfg) : Prop where
  inv : s.Inv
  cursor : s.cursor ≤ s.highest
  retained : s.retained ≤ max 1 (s.highest - lag)

theorem lagging_step {lag : Nat} (s : Retention cfg) (op : RetentionOp cfg) (h : s.Lagging lag)
    (hop : s.WithinLag lag op) : (s.step op).Lagging lag := by
  have hinv := inv_step s op h.inv
  have hcursor := h.cursor
  have hretained := h.retained
  cases op with
  | saveCursor lastProcessedSeq =>
    by_cases hle : lastProcessedSeq ≤ s.collector.latestSeq
    · simp only [step, hle, ↓reduceIte] at hinv ⊢
      refine ⟨hinv, Nat.le_max_right _ _, Nat.le_trans hretained ?_⟩
      simp only
      omega
    · simp only [step, hle, ↓reduceIte]
      exact h
  | maybeCompact lagSeq =>
    rcases s.step_maybeCompact lagSeq with hs | hs
    · rw [hs]
      exact h
    · have hcursor' := (step_cursor s (.maybeCompact lagSeq) h.inv).resolve_right (by simp)
      have hlag : lag ≤ lagSeq := hop
      have hdropped : s.droppedTo lagSeq ≤ max 1 (s.highest - lag) := by
        unfold droppedTo
        split <;> omega
      refine ⟨hinv, ?_, ?_⟩
      · rw [hcursor'.2.1, hs]
        exact hcursor
      · rw [hs]
        exact Nat.max_le.mpr ⟨hretained, hdropped⟩
  | append tick =>
    have hcursor' := (step_cursor s (.append tick) h.inv).resolve_right (by simp)
    exact ⟨hinv, hcursor'.2.1 ▸ hcursor, hretained⟩
  | flushMeta =>
    have hcursor' := (step_cursor s .flushMeta h.inv).resolve_right (by simp)
    exact ⟨hinv, hcursor'.2.1 ▸ hcursor, hretained⟩
  | restart =>
    have hcursor' := (step_cursor s .restart h.inv).resolve_right (by simp)
    exact ⟨hinv, hcursor'.2.1 ▸ hcursor, hretained⟩

/-- **A cursor may go back by the lag.** -/
theorem resumes_within_lag {lag : Nat} {ops : List (RetentionOp cfg)}
    (h : Run.Each step (WithinLag lag) start ops) : Run.Each step CursorKept start ops := by
  have hgo : ∀ (s : Retention cfg), s.Lagging lag → Run.Each step (WithinLag lag) s ops →
      Run.Each step CursorKept s ops := by
    clear h
    induction ops with
    | nil => exact fun _ _ _ => trivial
    | cons op ops ih =>
      intro s hs h
      refine ⟨?_, ih _ (lagging_step s op hs h.1) h.2⟩
      cases op with
      | saveCursor lastProcessedSeq =>
        intro _
        have hback : s.highest ≤ lastProcessedSeq + lag := h.1
        have := hs.retained
        omega
      | _ => trivial
  exact hgo _ ⟨inv_start, Nat.le_refl _, Nat.zero_le _⟩ h

end Retention

end Leviathan
