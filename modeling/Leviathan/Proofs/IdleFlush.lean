import Leviathan.Proofs.DirtyFlag
import Mathlib.Algebra.Order.Ring.Unbundled.Rat
import Mathlib.Data.NNRat.Defs
import Mathlib.Tactic.Linarith

/-!
# The idle flush

An append that does not persist sets a timer in the place of the one before; a persist cancels it.
The thread of a timer that has expired looks at the dirty flag, and persists when it has the locks.
It does not try again when it does not get them, or when the persist raises.

* `IdleFlush`: an instance, its clock, its timer and the threads of the timers that have expired.
* `Published`: a tip that is not on disk is flagged, and a timer or a thread is about to publish it.
* `published_iff`: **this holds exactly in the runs in which no persist that fails leaves the flag
  cleared, and no persist or wait for the locks that fails is the last one.**
-/

namespace Leviathan

variable {cfg : Config}

/-- `META_IDLE_FLUSH_SECONDS`. -/
def metaIdleFlushSeconds : Rat := 2

/-- The thread of a timer that has expired, in `flush`. -/
inductive IdleCallback where
  /-- before its look at the flag -/
  | looking (since : Rat)
  /-- it waits for the locks -/
  | locking (since : Rat)
  deriving DecidableEq

namespace IdleCallback

def since : IdleCallback → Rat
  | looking since | locking since => since

/-- The waits from the timer on. -/
def waits : IdleCallback → Rat
  | looking _ => 1
  | locking _ => 2

end IdleCallback

def FlagOp.fault : FlagOp cfg → Option PersistFault
  | .append _ fault | .flushMeta fault | .ensureLatestSeqAtLeast _ fault => fault
  | .reopen => none

structure IdleFlush (cfg : Config) where
  writer : Instance cfg
  idleFlushSeconds : Rat
  positive : 0 < idleFlushSeconds
  now : Rat
  /-- when the timer that is not cancelled expires -/
  timer : Option Rat
  callbacks : List IdleCallback
  /-- when an append has last set the timer -/
  markedAt : Rat

inductive IdleOp (cfg : Config) where
  | pass (seconds : NNRat)
  | call (op : FlagOp cfg)
  | timerExpires
  | looks (callback : Nat)
  | lockTimesOut (callback : Nat)
  | flushes (callback : Nat) (fault : Option PersistFault)

namespace Instance

/-- `__mark_dirty_locked` is called. -/
def Marks (s : Instance cfg) : FlagOp cfg → Prop
  | .append tick _ => s.journal.Accepts tick ∧
    (s.journal.appendCounter + 1) % metaPersistInterval ≠ 0
  | _ => False

/-- `persist_locked` is called. -/
def Persists (s : Instance cfg) : FlagOp cfg → Prop
  | .append tick _ => s.journal.Accepts tick ∧
    (s.journal.appendCounter + 1) % metaPersistInterval = 0
  | .flushMeta _ => s.journal.metaDirty = true
  | .ensureLatestSeqAtLeast seq _ => s.journal.latestSeq < seq
  | .reopen => False

instance (s : Instance cfg) : ∀ op, Decidable (s.Marks op)
  | .append tick _ => inferInstanceAs (Decidable (s.journal.Accepts tick ∧
    (s.journal.appendCounter + 1) % metaPersistInterval ≠ 0))
  | .flushMeta _ | .ensureLatestSeqAtLeast _ _ | .reopen => .isFalse id

instance (s : Instance cfg) : ∀ op, Decidable (s.Persists op)
  | .append tick _ => inferInstanceAs (Decidable (s.journal.Accepts tick ∧
    (s.journal.appendCounter + 1) % metaPersistInterval = 0))
  | .flushMeta _ => inferInstanceAs (Decidable (s.journal.metaDirty = true))
  | .ensureLatestSeqAtLeast seq _ => inferInstanceAs (Decidable (s.journal.latestSeq < seq))
  | .reopen => .isFalse id

/-- The instance knows a tip that is not on disk. -/
def Unpublished (s : Instance cfg) : Prop := s.diskTip < s.journal.latestSeq

instance (s : Instance cfg) : Decidable s.Unpublished :=
  inferInstanceAs (Decidable (s.diskTip < s.journal.latestSeq))

end Instance

namespace IdleFlush

/-- A new instance in an empty directory. -/
def start (idleFlushSeconds : Rat) (positive : 0 < idleFlushSeconds) : IdleFlush cfg :=
  ⟨.start, idleFlushSeconds, positive, 0, none, [], 0⟩

/-- A call, and what it does to the timer. The timers of a process end with it. -/
def call (s : IdleFlush cfg) (op : FlagOp cfg) : IdleFlush cfg :=
  match op with
  | .reopen => { s with writer := s.writer.flagStep .reopen, timer := none, callbacks := [] }
  | op =>
    { s with
      writer := s.writer.flagStep op
      timer :=
        if s.writer.Marks op then some (s.now + s.idleFlushSeconds)
        else if s.writer.Persists op then none
        else s.timer
      markedAt := if s.writer.Marks op then s.now else s.markedAt }

/-- The thread waits for the locks. -/
def isLocking (s : IdleFlush cfg) (callback : Nat) : Bool :=
  match s.callbacks[callback]? with
  | some (.locking _) => true
  | _ => false

def step (s : IdleFlush cfg) : IdleOp cfg → IdleFlush cfg
  | .pass seconds => { s with now := s.now + seconds }
  | .call op => s.call op
  | .timerExpires =>
    match s.timer with
    | some due =>
      if due ≤ s.now then
        { s with timer := none, callbacks := s.callbacks ++ [.looking s.now] }
      else s
    | none => s
  | .looks callback =>
    match s.callbacks[callback]? with
    | some (.looking _) =>
      { s with
        callbacks :=
          if s.writer.journal.metaDirty then s.callbacks.set callback (.locking s.now)
          else s.callbacks.eraseIdx callback }
    | _ => s
  | .lockTimesOut callback =>
    if s.isLocking callback then { s with callbacks := s.callbacks.eraseIdx callback } else s
  | .flushes callback fault =>
    if s.isLocking callback then
      { s.call (.flushMeta fault) with callbacks := s.callbacks.eraseIdx callback }
    else s

variable (late : NNRat)

/-- Every wait ends when it is due, or `late` after that. -/
def Punctual (s : IdleFlush cfg) : IdleOp cfg → Prop
  | .pass seconds => (∀ due ∈ s.timer, s.now + seconds ≤ due + late) ∧
    ∀ callback ∈ s.callbacks, s.now + seconds ≤ callback.since + late
  | _ => True

instance (s : IdleFlush cfg) : ∀ op, Decidable (s.Punctual late op)
  | .pass seconds => inferInstanceAs (Decidable ((∀ due ∈ s.timer, s.now + seconds ≤ due + late) ∧
    ∀ callback ∈ s.callbacks, s.now + seconds ≤ callback.since + late))
  | .call _ | .timerExpires | .looks _ | .lockTimesOut _ | .flushes _ _ => .isTrue trivial

/-- A timer or its thread is about to flush. -/
def Live (s : IdleFlush cfg) : Prop := s.timer.isSome = true ∨ s.callbacks ≠ []

/-- A tip that is not on disk is flagged, and about to be published, soon after the writer has gone
quiet. -/
structure Published (s : IdleFlush cfg) : Prop where
  flag : s.writer.Unpublished → s.writer.journal.metaDirty = true
  live : s.writer.Unpublished → s.Live
  soon : s.writer.Unpublished → s.now ≤ s.markedAt + s.idleFlushSeconds + 3 * late

/-- A persist that fails is not the last one. In a call of the writer it has cancelled the timer, so
the dirty flag must have been set before it and the thread of an expired timer must be left, which
finds the flag. A thread that does not get the locks leaves the timer or another thread behind, and
one whose persist raises another thread. -/
def NotLost (s : IdleFlush cfg) : IdleOp cfg → Prop
  | .call op => s.writer.Persists op → op.fault ≠ none →
    s.writer.journal.metaDirty = true ∧ s.callbacks ≠ []
  | .lockTimesOut callback => s.isLocking callback = true → s.writer.Unpublished →
    s.timer.isSome = true ∨ s.callbacks.eraseIdx callback ≠ []
  | .flushes callback fault => s.isLocking callback = true →
    s.writer.Persists (.flushMeta fault) → fault ≠ none → s.callbacks.eraseIdx callback ≠ []
  | _ => True

instance (s : IdleFlush cfg) : ∀ op, Decidable (s.NotLost op)
  | .call op => inferInstanceAs (Decidable (s.writer.Persists op → op.fault ≠ none →
    s.writer.journal.metaDirty = true ∧ s.callbacks ≠ []))
  | .lockTimesOut callback => inferInstanceAs (Decidable (s.isLocking callback = true →
    s.writer.Unpublished → s.timer.isSome = true ∨ s.callbacks.eraseIdx callback ≠ []))
  | .flushes callback fault => inferInstanceAs (Decidable (s.isLocking callback = true →
    s.writer.Persists (.flushMeta fault) → fault ≠ none → s.callbacks.eraseIdx callback ≠ []))
  | .pass _ | .timerExpires | .looks _ => .isTrue trivial

end IdleFlush

/-! ## The calls -/

namespace Instance

variable {s : Instance cfg}

/-- What `has_unpersisted_meta()` stands for. -/
structure Flagged (s : Instance cfg) : Prop extends s.FlagInv where
  dirty : s.journal.metaDirty = true → s.Unpublished

theorem flagged_start : (start : Instance cfg).Flagged := ⟨flagInv_start, by rintro ⟨⟩⟩

theorem Marks.not_persists {op : FlagOp cfg} (h : s.Marks op) : ¬s.Persists op := by
  cases op with
  | append tick fault => exact fun hp => h.2 hp.2
  | _ => cases h

/-- **A persist** of a tip that is not on disk. -/
theorem persist_flagged {journal : TickJournal cfg} {disk : Disk} (hc : journal.Current disk)
    (hfile : (loadPayload disk.metaFile).Bounded (loadPayload disk.metaFile).latestSeq)
    (hlt : MetaStore.fileTip disk.metaFile < journal.latestSeq) (fault : Option PersistFault)
    {s' : Instance cfg}
    (hs : s' = ⟨(journal.persistLockedFaulty fault disk).1,
      (journal.persistLockedFaulty fault disk).2.1⟩) :
    s'.Flagged ∧ (fault = none → ¬s'.Unpublished) ∧
      (fault ≠ none → s'.journal.metaDirty = journal.metaDirty ∧ s'.Unpublished) := by
  obtain ⟨hinv, hlatest, ⟨rfl, htip⟩ | ⟨hne, hdirty, hmeta⟩⟩ := persist_flag hc hfile fault hs
  · have hpublished : ¬s'.Unpublished := by
      unfold Unpublished
      rw [htip, hlatest]
      exact Nat.lt_irrefl _
    have hclear : s'.journal.metaDirty = false := by rw [hs]; rfl
    exact ⟨⟨hinv, fun hd => by rw [hclear] at hd; cases hd⟩, fun _ => hpublished, fun h => absurd rfl h⟩
  · have hunpublished : s'.Unpublished := by
      unfold Unpublished diskTip
      rw [hmeta, hlatest]
      exact hlt
    exact ⟨⟨hinv, fun _ => hunpublished⟩, fun h => absurd h hne, fun _ => ⟨hdirty, hunpublished⟩⟩

/-- What a call does to the flag, and to a tip that is not on disk. -/
inductive CallStep (s : Instance cfg) (op : FlagOp cfg) (s' : Instance cfg) : Prop where
  | marks (h : s.Marks op) (hdirty : s'.journal.metaDirty = true)
  | publishes (h : s.Persists op) (hfault : op.fault = none) (hpublished : ¬s'.Unpublished)
  | fails (h : s.Persists op) (hfault : op.fault ≠ none)
      (hdirty : s'.journal.metaDirty = s.journal.metaDirty) (hunpublished : s'.Unpublished)
  | keeps (hmarks : ¬s.Marks op) (hpersists : ¬s.Persists op)
      (hdirty : s'.journal.metaDirty = s.journal.metaDirty)
      (hunpublished : s'.Unpublished ↔ s.Unpublished)

theorem CallStep.of_persist {op : FlagOp cfg} {s' : Instance cfg} (h : s.Persists op)
    {metaDirty : Bool} (hsame : metaDirty = s.journal.metaDirty)
    (hs : (op.fault = none → ¬s'.Unpublished) ∧
      (op.fault ≠ none → s'.journal.metaDirty = metaDirty ∧ s'.Unpublished)) :
    s.CallStep op s' := by
  by_cases hfault : op.fault = none
  · exact .publishes h hfault (hs.1 hfault)
  · exact .fails h hfault ((hs.2 hfault).1.trans hsame) (hs.2 hfault).2

theorem append_callStep (h : s.Flagged) (tick : TradeTick cfg.toRuntime)
    (fault : Option PersistFault) : (s.flagStep (.append tick fault)).Flagged ∧
      s.CallStep (.append tick fault) (s.flagStep (.append tick fault)) := by
  by_cases ha : s.journal.Accepts tick
  · obtain ⟨store, hs, he⟩ := @TickJournal.appendFaulty_accepts _ _ s.disk _ ha fault
    let disk := TickJournal.Disk.writeLine s.disk
      (recordBytes cfg.toRuntime (s.journal.latestSeq + 1, tick))
    let journal : TickJournal cfg :=
      { s.journal with metaStore := store, appendCounter := s.journal.appendCounter + 1 }
    have hlatest : journal.latestSeq = s.journal.latestSeq + 1 := hs.latestSeq
    have hcur : journal.Current disk := by
      unfold TickJournal.Current
      rw [hlatest]
      exact ⟨(h.current.store.mono (Nat.le_succ _)).appended hs (Nat.le_refl _),
        h.current.file.mono (Nat.le_succ _)⟩
    have hlt : MetaStore.fileTip disk.metaFile < journal.latestSeq := by
      rw [hlatest]
      exact Nat.lt_succ_of_le (diskTip_le h.toFlagInv)
    by_cases hdue : (s.journal.appendCounter + 1) % metaPersistInterval = 0
    · have hs' : s.flagStep (.append tick fault) = ⟨(journal.persistLockedFaulty fault disk).1,
          (journal.persistLockedFaulty fault disk).2.1⟩ := by
        simp only [flagStep, he, TickJournal.noteAppendLockedFaulty, hdue, ↓reduceIte]
        rfl
      obtain ⟨hflagged, hpersist⟩ := persist_flagged hcur h.file hlt fault hs'
      exact ⟨hflagged, .of_persist ⟨ha, hdue⟩ rfl hpersist⟩
    · have hs' : s.flagStep (.append tick fault) = ⟨{ journal with metaDirty := true }, disk⟩ := by
        simp only [flagStep, he, TickJournal.noteAppendLockedFaulty, hdue, ↓reduceIte]
        rfl
      rw [hs']
      exact ⟨⟨⟨⟨hcur.store, hcur.file⟩, h.file⟩, fun _ => hlt⟩, .marks ⟨ha, hdue⟩ rfl⟩
  · have hr := TickJournal.append_rejected ha s.disk
    obtain ⟨store, -, -, -, he⟩ := TickJournal.append_rejects ha s.disk
    have hs' : s.flagStep (.append tick fault) = ⟨(s.journal.append s.disk tick).1, s.disk⟩ := by
      simp only [flagStep, TickJournal.appendFaulty_rejects ha]
    have hdirty : (s.journal.append s.disk tick).1.metaDirty = s.journal.metaDirty := by rw [he]
    have hcur := hr.current h.current
    rw [hr.disk] at hcur
    have hunpublished : (s.flagStep (.append tick fault)).Unpublished ↔ s.Unpublished := by
      unfold Unpublished
      rw [hs', hr.latestSeq]
      rfl
    refine ⟨⟨?_, fun hd => ?_⟩, .keeps (fun hm => ha hm.1) (fun hp => ha hp.1) ?_ hunpublished⟩
    · rw [hs']
      exact ⟨hcur, h.file⟩
    · rw [hs', hdirty] at hd
      exact hunpublished.mpr (h.dirty hd)
    · rw [hs', hdirty]

theorem flushMeta_callStep (h : s.Flagged) (fault : Option PersistFault) :
    (s.flagStep (.flushMeta fault)).Flagged ∧
      s.CallStep (.flushMeta fault) (s.flagStep (.flushMeta fault)) := by
  by_cases hd : s.journal.metaDirty = true
  · have hs' : s.flagStep (.flushMeta fault) =
        ⟨(s.journal.persistLockedFaulty fault s.disk).1,
          (s.journal.persistLockedFaulty fault s.disk).2.1⟩ := by
      simp only [flagStep, TickJournal.flushMetaFaulty, hd, ↓reduceIte]
    obtain ⟨hflagged, hpersist⟩ := persist_flagged h.current h.file (h.dirty hd) fault hs'
    exact ⟨hflagged, .of_persist hd rfl hpersist⟩
  · have hs' : s.flagStep (.flushMeta fault) = s := by
      simp only [flagStep, TickJournal.flushMetaFaulty, hd]
      rfl
    rw [hs']
    exact ⟨h, .keeps id hd rfl Iff.rfl⟩

theorem ensureLatestSeqAtLeast_callStep (h : s.Flagged) (seq : Nat) (fault : Option PersistFault) :
    (s.flagStep (.ensureLatestSeqAtLeast seq fault)).Flagged ∧
      s.CallStep (.ensureLatestSeqAtLeast seq fault)
        (s.flagStep (.ensureLatestSeqAtLeast seq fault)) := by
  let journal : TickJournal cfg :=
    { s.journal with metaStore := s.journal.metaStore.setLatestSeq seq }
  have hlatest : journal.latestSeq = max s.journal.latestSeq seq := rfl
  have hcur : journal.Current s.disk := by
    unfold TickJournal.Current
    rw [hlatest]
    exact ⟨(h.current.store.mono (Nat.le_max_left _ _)).setLatestSeq (Nat.le_max_right _ _),
      h.current.file.mono (Nat.le_max_left _ _)⟩
  by_cases hadv : s.journal.latestSeq < seq
  · have hadvanced : (s.journal.metaStore.ensureLatestSeqAtLeast seq).2 = true := by
      show decide (max s.journal.latestSeq seq > s.journal.latestSeq) = true
      exact decide_eq_true (by omega)
    have hs' : s.flagStep (.ensureLatestSeqAtLeast seq fault) =
        ⟨(journal.persistLockedFaulty fault s.disk).1,
          (journal.persistLockedFaulty fault s.disk).2.1⟩ := by
      simp only [flagStep, TickJournal.ensureLatestSeqAtLeastFaulty, hadvanced, ↓reduceIte]
      rfl
    have hlt : MetaStore.fileTip s.disk.metaFile < journal.latestSeq :=
      Nat.lt_of_le_of_lt (diskTip_le h.toFlagInv) (by omega)
    obtain ⟨hflagged, hpersist⟩ := persist_flagged hcur h.file hlt fault hs'
    exact ⟨hflagged, .of_persist hadv rfl hpersist⟩
  · have hsame : max s.journal.latestSeq seq = s.journal.latestSeq := by omega
    have hadvanced : (s.journal.metaStore.ensureLatestSeqAtLeast seq).2 = false := by
      show decide (max s.journal.latestSeq seq > s.journal.latestSeq) = false
      exact decide_eq_false (by omega)
    have hs' : s.flagStep (.ensureLatestSeqAtLeast seq fault) = ⟨journal, s.disk⟩ := by
      simp only [flagStep, TickJournal.ensureLatestSeqAtLeastFaulty, hadvanced]
      rfl
    have hunpublished : (s.flagStep (.ensureLatestSeqAtLeast seq fault)).Unpublished ↔
        s.Unpublished := by
      unfold Unpublished
      rw [hs', hlatest, hsame]
      rfl
    refine ⟨⟨?_, fun hd => ?_⟩, .keeps id hadv (by rw [hs']) hunpublished⟩
    · rw [hs']
      exact ⟨hcur, h.file⟩
    · rw [hs'] at hd
      exact hunpublished.mpr (h.dirty hd)

/-- What another process reads is what the file states. -/
theorem reopen_flagged (h : s.Flagged) :
    (s.flagStep .reopen).Flagged ∧ ¬(s.flagStep .reopen).Unpublished := by
  obtain ⟨hinv, hhonest⟩ := reopen_flag h.toFlagInv
  have hclear : (s.flagStep .reopen).journal.metaDirty = false := rfl
  refine ⟨⟨hinv, fun hd => ?_⟩, fun hu => ?_⟩
  · rw [hclear] at hd
    cases hd
  · rw [hhonest.flag hu] at hclear
    cases hclear

/-- **The calls.** -/
theorem flagStep_callStep (h : s.Flagged) {op : FlagOp cfg} (hop : op ≠ .reopen) :
    (s.flagStep op).Flagged ∧ s.CallStep op (s.flagStep op) := by
  cases op with
  | append tick fault => exact append_callStep h tick fault
  | flushMeta fault => exact flushMeta_callStep h fault
  | ensureLatestSeqAtLeast seq fault => exact ensureLatestSeqAtLeast_callStep h seq fault
  | reopen => exact absurd rfl hop

end Instance

/-! ## The timer -/

namespace IdleFlush

variable {late : NNRat} {s : IdleFlush cfg}

/-- No wait has lasted too long. -/
structure Inv (late : NNRat) (s : IdleFlush cfg) : Prop where
  flagged : s.writer.Flagged
  marked : s.markedAt ≤ s.now
  timer : ∀ due ∈ s.timer, due ≤ s.markedAt + s.idleFlushSeconds ∧ s.now ≤ due + late
  callbacks : ∀ callback ∈ s.callbacks,
    callback.since ≤ s.markedAt + s.idleFlushSeconds + callback.waits * late ∧
      s.now ≤ callback.since + late

/-- What is about to flush has not waited for long. -/
theorem Inv.soon (h : s.Inv late) (hlive : s.Live) :
    s.now ≤ s.markedAt + s.idleFlushSeconds + 3 * late := by
  have hlate : (0 : Rat) ≤ late := late.2
  rcases hlive with htimer | hcallbacks
  · obtain ⟨due, hdue⟩ := Option.isSome_iff_exists.mp htimer
    obtain ⟨hset, hnow⟩ := h.timer due hdue
    linarith
  · obtain ⟨callback, hmem⟩ := List.exists_mem_of_ne_nil _ hcallbacks
    obtain ⟨hsince, hnow⟩ := h.callbacks callback hmem
    cases callback with
    | looking since =>
      simp only [IdleCallback.waits, IdleCallback.since] at hsince hnow
      linarith
    | locking since =>
      simp only [IdleCallback.waits, IdleCallback.since] at hsince hnow
      linarith

theorem published_of_live (h : s.Inv late) : s.Published late ↔
    (s.writer.Unpublished → s.writer.journal.metaDirty = true ∧ s.Live) :=
  ⟨fun hp hu => ⟨hp.flag hu, hp.live hu⟩, fun hp => ⟨fun hu => (hp hu).1, fun hu => (hp hu).2,
    fun hu => h.soon (hp hu).2⟩⟩

theorem call_eq {op : FlagOp cfg} (hop : op ≠ .reopen) : s.call op =
    { s with
      writer := s.writer.flagStep op
      timer :=
        if s.writer.Marks op then some (s.now + s.idleFlushSeconds)
        else if s.writer.Persists op then none
        else s.timer
      markedAt := if s.writer.Marks op then s.now else s.markedAt } := by
  cases op with
  | reopen => exact absurd rfl hop
  | _ => rfl

/-- The threads go on as they are. -/
theorem Inv.callbacks_mono (h : s.Inv late) {markedAt : Rat} (hmarked : s.markedAt ≤ markedAt) :
    ∀ callback ∈ s.callbacks,
      callback.since ≤ markedAt + s.idleFlushSeconds + callback.waits * late ∧
        s.now ≤ callback.since + late := by
  intro callback hmem
  obtain ⟨hsince, hnow⟩ := h.callbacks callback hmem
  exact ⟨by linarith, hnow⟩

theorem Inv.call (h : s.Inv late) (op : FlagOp cfg) : (s.call op).Inv late := by
  by_cases hop : op = .reopen
  · subst hop
    exact ⟨(Instance.reopen_flagged h.flagged).1, h.marked, by rintro _ ⟨⟩, List.forall_mem_nil _⟩
  · have hflagged := (Instance.flagStep_callStep h.flagged hop).1
    rw [call_eq hop]
    by_cases hmarks : s.writer.Marks op
    · simp only [if_pos hmarks]
      refine ⟨hflagged, le_refl _, ?_, h.callbacks_mono h.marked⟩
      rintro _ ⟨⟩
      have hlate : (0 : Rat) ≤ late := late.2
      have hpositive := s.positive
      exact ⟨le_refl _, by linarith⟩
    · simp only [if_neg hmarks]
      refine ⟨hflagged, h.marked, ?_, h.callbacks⟩
      split
      · rintro _ ⟨⟩
      · exact h.timer

/-- Some of the threads are gone. -/
theorem Inv.erase (h : s.Inv late) (callback : Nat) :
    Inv late { s with callbacks := s.callbacks.eraseIdx callback } :=
  ⟨h.flagged, h.marked, h.timer, fun c hc => h.callbacks c (List.mem_of_mem_eraseIdx hc)⟩

theorem inv_step (h : s.Inv late) {op : IdleOp cfg} (hp : s.Punctual late op) :
    (s.step op).Inv late := by
  cases op with
  | pass seconds =>
    refine ⟨h.flagged, h.marked.trans (le_add_of_nonneg_right seconds.2), fun due hdue => ?_,
      fun callback hmem => ?_⟩
    · exact ⟨(h.timer due hdue).1, hp.1 due hdue⟩
    · exact ⟨(h.callbacks callback hmem).1, hp.2 callback hmem⟩
  | call op => exact h.call op
  | timerExpires =>
    simp only [step]
    split
    · rename_i due htimer
      split
      · obtain ⟨hset, hnow⟩ := h.timer due htimer
        have hlate : (0 : Rat) ≤ late := late.2
        refine ⟨h.flagged, h.marked, by rintro _ ⟨⟩, fun callback hmem => ?_⟩
        rcases List.mem_append.mp hmem with hmem | hmem
        · exact h.callbacks callback hmem
        · obtain rfl := List.mem_singleton.mp hmem
          simp only [IdleCallback.since, IdleCallback.waits]
          exact ⟨by linarith, by linarith⟩
      · exact h
    · exact h
  | looks callback =>
    simp only [step]
    split
    · rename_i since hlooking
      split
      · refine ⟨h.flagged, h.marked, h.timer, fun c hmem => ?_⟩
        rcases List.mem_or_eq_of_mem_set hmem with hmem | rfl
        · exact h.callbacks c hmem
        · obtain ⟨hsince, hnow⟩ := h.callbacks _ (List.mem_of_getElem? hlooking)
          have hlate : (0 : Rat) ≤ late := late.2
          simp only [IdleCallback.since, IdleCallback.waits] at hsince hnow ⊢
          exact ⟨by linarith, by linarith⟩
      · exact h.erase callback
    · exact h
  | lockTimesOut callback =>
    simp only [step]
    split
    · exact h.erase callback
    · exact h
  | flushes callback fault =>
    simp only [step]
    split
    · exact (h.call (.flushMeta fault)).erase callback
    · exact h

/-- **A call**, and the threads that go on after it. -/
theorem call_live (h : s.Inv late) (hpublished : s.Published late) {op : FlagOp cfg}
    (hop : op ≠ .reopen) {callbacks : List IdleCallback}
    (hkeeps : ¬s.writer.Persists op → s.writer.Unpublished → s.timer.isSome = true ∨ callbacks ≠ []) :
    ((s.call op).writer.Unpublished → (s.call op).writer.journal.metaDirty = true ∧
        Live { s.call op with callbacks }) ↔
      (s.writer.Persists op → op.fault ≠ none →
        s.writer.journal.metaDirty = true ∧ callbacks ≠ []) := by
  rw [call_eq hop]
  cases (Instance.flagStep_callStep h.flagged hop).2 with
  | marks hmarks hdirty =>
    refine iff_of_true (fun _ => ⟨hdirty, .inl ?_⟩) fun hp => absurd hp hmarks.not_persists
    simp only [if_pos hmarks, Option.isSome_some]
  | publishes hpersists hfault hnot =>
    exact iff_of_true (fun hu => absurd hu hnot) fun _ hne => absurd hfault hne
  | fails hpersists hfault hdirty hunpublished =>
    have hmarks : ¬s.writer.Marks op := fun hm => hm.not_persists hpersists
    simp only [if_neg hmarks, if_pos hpersists, Live, hdirty, Option.isSome_none,
      Bool.false_eq_true, false_or]
    exact ⟨fun hlive _ _ => hlive hunpublished, fun hlive _ => hlive hpersists hfault⟩
  | keeps hmarks hpersists hdirty hunpublished =>
    refine iff_of_true (fun hu => ?_) fun hp => absurd hp hpersists
    have hu := hunpublished.mp hu
    simp only [if_neg hmarks, if_neg hpersists, Live]
    exact ⟨hdirty.trans (hpublished.flag hu), hkeeps hpersists hu⟩

theorem step_published (h : s.Inv late) (hpublished : s.Published late) {op : IdleOp cfg}
    (hp : s.Punctual late op) : (s.step op).Published late ↔ s.NotLost op := by
  rw [published_of_live (inv_step h hp)]
  have hbefore : s.writer.Unpublished → s.writer.journal.metaDirty = true ∧ s.Live :=
    fun hu => ⟨hpublished.flag hu, hpublished.live hu⟩
  cases op with
  | pass seconds => exact iff_of_true hbefore trivial
  | call op =>
    by_cases hop : op = .reopen
    · subst hop
      exact iff_of_true (fun hu => absurd hu (Instance.reopen_flagged h.flagged).2)
        fun hpersists => hpersists.elim
    · have hcallbacks : (s.call op).callbacks = s.callbacks := by rw [call_eq hop]
      have hlive := call_live h hpublished hop fun _ hu => hpublished.live hu
      rw [← hcallbacks] at hlive
      exact hlive.trans (by rw [hcallbacks]; rfl)
  | timerExpires =>
    simp only [step]
    refine iff_of_true ?_ trivial
    split
    · split
      · exact fun hu => ⟨hpublished.flag hu, .inr (by simp)⟩
      · exact hbefore
    · exact hbefore
  | looks callback =>
    simp only [step]
    refine iff_of_true ?_ trivial
    split
    · split
      · rename_i hlooking hdirty
        refine fun hu => ⟨hdirty, (hpublished.live hu).imp_right fun hne => ?_⟩
        simpa using hne
      · rename_i hclear
        exact fun hu => absurd (hpublished.flag hu) hclear
    · exact hbefore
  | lockTimesOut callback =>
    simp only [step, NotLost]
    split
    · rename_i hlocking
      exact ⟨fun hlive _ hu => (hlive hu).2, fun hlive hu => ⟨hpublished.flag hu, hlive hlocking hu⟩⟩
    · rename_i hnot
      exact iff_of_true hbefore fun hlocking => absurd hlocking hnot
  | flushes callback fault =>
    simp only [step, NotLost]
    split
    · rename_i hlocking
      have hlive := @call_live _ _ _ h hpublished (.flushMeta fault) (by simp)
        (s.callbacks.eraseIdx callback) fun hclear hu => absurd (hpublished.flag hu) hclear
      refine hlive.trans ⟨fun hcond _ hdirty hfault => (hcond hdirty hfault).2,
        fun hcond hdirty hfault => ⟨hdirty, hcond hlocking hdirty hfault⟩⟩
    · rename_i hnot
      exact iff_of_true hbefore fun hlocking => absurd hlocking hnot

theorem inv_start (idleFlushSeconds : Rat) (positive : 0 < idleFlushSeconds) :
    (start idleFlushSeconds positive : IdleFlush cfg).Inv late :=
  ⟨Instance.flagged_start, le_refl _, by rintro _ ⟨⟩, List.forall_mem_nil _⟩

/-- **When the tip on disk follows the writer.** With a positive `idle_flush_seconds`, in a run
whose waits are late by at most `late`, an unpublished tip is always flagged and about to be
published within its time, exactly when every persist that fails leaves the flag set and somebody to
try again. -/
theorem published_iff (cfg : Config) (idleFlushSeconds : Rat) (positive : 0 < idleFlushSeconds)
    (late : NNRat) (ops : List (IdleOp cfg))
    (h : Run.Each step (Punctual late) (start idleFlushSeconds positive) ops) :
    Run.Always step (Published late) (start idleFlushSeconds positive) ops ↔
      Run.Each step NotLost (start idleFlushSeconds positive) ops := by
  have hstart : (start idleFlushSeconds positive : IdleFlush cfg).Published late := by
    have hnot : ¬(start idleFlushSeconds positive : IdleFlush cfg).writer.Unpublished :=
      Nat.lt_irrefl 0
    exact ⟨fun hu => absurd hu hnot, fun hu => absurd hu hnot, fun hu => absurd hu hnot⟩
  exact @Run.always_iff_each_of _ _ step (Inv late) _ _ (Punctual late)
    (fun s op hinv _ hp _ => inv_step hinv hp)
    (fun s op hinv hpublished hp => step_published hinv hpublished hp) _
    (inv_start idleFlushSeconds positive) hstart _ h

/-- The second append sets the timer again, and the thread of the timer publishes both. -/
def burst : List (IdleOp .default) :=
  [.call (.append (readmeTick ['B'] ['1']) none), .pass 1,
    .call (.append (readmeTick ['B'] ['2']) none), .pass 1, .timerExpires, .pass 1, .timerExpires,
    .looks 0, .pass 1, .flushes 0 none]

theorem published_iff_burst :
    Run.Always step (Published 1) (start metaIdleFlushSeconds (by decide)) burst ∧
      (Run.exec step (start metaIdleFlushSeconds (by decide)) burst).writer.diskTip = 2 :=
  ⟨(published_iff .default metaIdleFlushSeconds (by decide) 1 burst (by decide +kernel)).mpr
    (by decide +kernel), by decide +kernel⟩

end IdleFlush

end Leviathan
