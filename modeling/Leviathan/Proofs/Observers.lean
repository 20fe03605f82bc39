import Leviathan.Proofs.SetCursor

/-!
# Observer failures cost nothing

An observer that raises ends the batch of the tail-follow loop: the records behind its tick are
dropped, and the next poll begins at the stream's own `nextSeq`, which is not the reader's. The
stream, its journal and its consumer are those of `Cut`, without moves of the cursor.

* `loop_catches_up`: whichever observers raise, the loop puts every record into the queue.
* `observer_failures_cost_nothing`: **the queue is given the accepted records, in order and once
  each, and the loop never reaches its fatal error.**
-/

namespace Leviathan

open Py JournalTickStream

variable {cfg : Config}

/-- Anything but a move of the cursor. -/
def CutOp.NoMove : CutOp cfg → Prop
  | .setCursor _ => False
  | _ => True

instance : ∀ op : CutOp cfg, Decidable op.NoMove
  | .setCursor _ => .isFalse id
  | .append _ | .flushMeta | .openStream _ _ | .startStreaming | .stop | .cancel | .poll _
  | .record _ | .wait | .mark => .isTrue trivial

namespace Cut

/-- What was put into the queue of the stream: the consumer has taken the first of it. -/
def put (s : Cut cfg) : List (Rec cfg.toRuntime) := s.returned ++ s.stream.queue.items

/-- The next step of the running loop. -/
def loopStep (s : Cut cfg) (now : Rat) (raised : Bool) : Cut cfg :=
  if s.stream.records = [] then s.step (.poll now) else s.step (.record raised)

/-- `n` steps of the loop; the observers raise at the steps that `raises` names. -/
def loop (clock : Nat → Rat) (raises : Nat → Bool) : Nat → Cut cfg → Cut cfg
  | 0, s => s
  | n + 1, s => loop clock raises n (s.loopStep (clock n) (raises n))

/-- The loop is running: it was not stopped and has not raised. -/
def Running (s : Cut cfg) : Prop := s.stream.streaming = true ∧ s.stream.stopped = false

/-- The observers have not cost the stream a record. -/
structure NothingLost (s : Cut cfg) : Prop where
  /-- the accepted records in order, each once -/
  inOrder : s.put <+: s.wanted
  /-- all of them, when the loop has passed every record -/
  caughtUp : s.stream.records = [] → (∀ r ∈ s.appended, r.1 < s.stream.nextSeq) → s.put = s.wanted
  /-- which the loop does, whatever its observers raise -/
  complete : s.Running → ∀ clock raises n, 2 * s.appended.length ≤ n →
    (loop clock raises n s).put = s.wanted
  /-- no `JournalStreamFatalError` -/
  notFatal : s.stream.consecutiveErrors < tailFollowFatalThreshold

/-- A poll with records resets the counter, and the batch ends with the first error. -/
structure FewErrors (stream : JournalTickStream cfg) : Prop where
  atMostOne : stream.consecutiveErrors ≤ 1
  batch : stream.records ≠ [] → stream.consecutiveErrors = 0

/-! ## The error counter -/

section Counter

variable {stream : JournalTickStream cfg}

theorem FewErrors.congr {stream' : JournalTickStream cfg} (h : FewErrors stream)
    (herrors : stream'.consecutiveErrors = stream.consecutiveErrors)
    (hrecords : stream'.records = stream.records ∨ stream'.records = []) : FewErrors stream' := by
  refine ⟨herrors ▸ h.atMostOne, fun hne => herrors ▸ h.batch ?_⟩
  rcases hrecords with he | he
  · exact he ▸ hne
  · exact absurd he hne

theorem startStreaming_fewErrors (h : FewErrors stream) : FewErrors stream.startStreaming := by
  unfold startStreaming
  split
  · exact h
  · exact ⟨Nat.zero_le _, fun _ => rfl⟩

theorem persistCursorThrough_fewErrors (h : FewErrors stream) (seq : Nat) :
    FewErrors (stream.persistCursorThrough seq) := by
  unfold persistCursorThrough
  split
  · exact h.congr rfl (.inl rfl)
  · exact h

theorem markTickAsProcessed_fewErrors (h : FewErrors stream) :
    FewErrors stream.markTickAsProcessed.1 := by
  unfold markTickAsProcessed
  split
  · split
    · exact h.congr rfl (.inl rfl)
    · exact h
  · rename_i seq _
    have hp := persistCursorThrough_fewErrors h seq
    simp only
    split
    · exact hp
    · exact hp.congr rfl (.inl rfl)

/-- A readable journal gives the loop no error of its own. -/
theorem tailFollowPoll_fewErrors {rs : List (Rec cfg.toRuntime)} (hreads : stream.tail.Reads rs)
    (h : FewErrors stream) (now : Rat) : FewErrors (stream.tailFollowPoll now) := by
  unfold tailFollowPoll
  split
  · exact h
  split
  · exact h.congr rfl (.inr rfl)
  obtain ⟨tail, hp, -⟩ := hreads.poll now stream.nextSeq
  rw [hp]
  cases since stream.nextSeq rs with
  | nil => exact h.congr rfl (.inl rfl)
  | cons r records => exact ⟨Nat.zero_le _, fun _ => rfl⟩

theorem tailFollowPoll_stopped {rs : List (Rec cfg.toRuntime)} (hreads : stream.tail.Reads rs)
    (now : Rat) : (stream.tailFollowPoll now).stopped = stream.stopped := by
  unfold tailFollowPoll
  split
  · rfl
  split
  · rfl
  obtain ⟨tail, hp, -⟩ := hreads.poll now stream.nextSeq
  rw [hp]
  cases since stream.nextSeq rs <;> rfl

/-- **An observer's exception is the first since the poll**: the loop goes on. -/
theorem tailFollowRecord_fewErrors (h : FewErrors stream) (raised : Bool) :
    FewErrors (stream.tailFollowRecord raised) ∧
      (stream.tailFollowRecord raised).streaming = stream.streaming ∧
      (stream.tailFollowRecord raised).stopped = stream.stopped := by
  unfold tailFollowRecord
  cases hr : stream.records with
  | nil => exact ⟨h, rfl, rfl⟩
  | cons r records =>
    have hzero := h.batch (by simp [hr])
    have hnext : FewErrors { stream with records, nextSeq := r.1 + 1 } :=
      ⟨h.atMostOne, fun _ => hzero⟩
    simp only
    split
    · refine ⟨persistCursorThrough_fewErrors hnext r.1, ?_⟩
      unfold persistCursorThrough
      split <;> exact ⟨rfl, rfl⟩
    · cases raised with
      | false => exact ⟨hnext.congr rfl (.inl rfl), rfl, rfl⟩
      | true =>
        have hfew : ¬(1 ≥ tailFollowFatalThreshold) := by decide
        simp only [tailFollowError, hzero, Nat.zero_add, hfew, ↓reduceIte, and_self, and_true]
        exact ⟨Nat.le_refl _, fun hne => absurd rfl hne⟩

end Counter

/-! ## The loop -/

variable {s : Cut cfg}

theorem fewErrors_step (h : s.Inv) (hfew : FewErrors s.stream) {op : CutOp cfg} (hop : op.NoMove) :
    FewErrors (s.step op).stream := by
  cases op with
  | append tick => exact hfew.congr rfl (.inl rfl)
  | flushMeta => exact hfew.congr rfl (.inl rfl)
  | openStream maxWaitSeconds symbols => exact ⟨Nat.zero_le _, fun _ => rfl⟩
  | startStreaming => exact startStreaming_fewErrors hfew
  | stop => exact hfew.congr rfl (.inl rfl)
  | cancel => exact hfew.congr rfl (.inr rfl)
  | poll now => exact tailFollowPoll_fewErrors h.reads hfew now
  | record raised => exact (tailFollowRecord_fewErrors hfew raised).1
  | wait =>
    simp only [step, waitForNextTick]
    split
    · exact hfew
    · rename_i he
      split at he
      · cases he
      · cases he
        exact hfew.congr rfl (.inl rfl)
  | mark => exact markTickAsProcessed_fewErrors hfew
  | setCursor lastProcessedSeq => exact hop.elim

theorem noMove_notStale {op : CutOp cfg} (hop : op.NoMove) : s.NotStale op := by
  cases op with
  | setCursor lastProcessedSeq => exact hop.elim
  | _ => trivial

/-- The records that the loop has not passed. -/
def ahead (s : Cut cfg) : List (Rec cfg.toRuntime) := since s.stream.readFrom s.appended

theorem put_eq (h : s.Inv) (hnil : s.ahead = []) : s.put = s.wanted := by
  have hdel := h.delivered
  rw [acceptedSince, ← ahead, hnil, List.filter_nil, List.append_nil] at hdel
  exact hdel

/-- What the loop has to do: a step for each record ahead, and at most one poll before each. -/
def stepsAhead (s : Cut cfg) : Nat :=
  2 * s.ahead.length + if s.stream.records = [] then 1 else 0

/-- What the running loop keeps. -/
structure Looping (s : Cut cfg) : Prop where
  inv : s.Inv
  errors : FewErrors s.stream
  running : s.Running

/-- A poll finds the records ahead. -/
theorem loopStep_poll (h : s.Looping) (hnil : s.stream.records = []) (now : Rat) :
    (s.step (.poll now)).Running ∧ (s.step (.poll now)).wanted = s.wanted ∧
      (s.step (.poll now)).ahead = s.ahead ∧ (s.step (.poll now)).stream.records = s.ahead := by
  obtain ⟨hrecords, -, hstreaming⟩ :=
    tailFollowPoll_readable h.inv.reads h.running.1 h.running.2 hnil now
  obtain ⟨hsame, -, hsymbols, -⟩ := s.stream.tailFollowPoll_any now
  have hstopped := tailFollowPoll_stopped h.inv.reads now
  have hahead : s.ahead = since s.stream.nextSeq s.appended := by rw [ahead, readFrom_nil hnil]
  refine ⟨⟨hstreaming, hstopped.trans h.running.2⟩, ?_, ?_, hrecords.trans hahead.symm⟩
  · simp only [wanted, step, hsymbols]
  · rw [hahead]
    show since (s.stream.tailFollowPoll now).readFrom s.appended = _
    cases hb : (s.stream.tailFollowPoll now).records with
    | nil => rw [readFrom_nil hb, hsame.nextSeq]
    | cons r records =>
      have hcut := before_append_since h.inv.sound.increasing s.stream.nextSeq
      rw [← hrecords, hb] at hcut ⊢
      rw [readFrom_cons hb]
      exact (since_batch h.inv.sound.increasing hcut.symm).1

/-- A record is passed, whatever its observers raise. -/
theorem loopStep_record (h : s.Looping) (hne : s.stream.records ≠ []) (raised : Bool) :
    (s.step (.record raised)).Running ∧ (s.step (.record raised)).wanted = s.wanted ∧
      (s.step (.record raised)).ahead.length + 1 = s.ahead.length := by
  obtain ⟨r, records, hr⟩ := List.exists_cons_of_ne_nil hne
  obtain ⟨hpassed, hrecords⟩ := tailFollowRecord_passed hr raised
  obtain ⟨-, hstreaming, hstopped⟩ := tailFollowRecord_fewErrors h.errors raised
  obtain ⟨A, B, hAB⟩ := h.inv.batch
  rw [hr, List.cons_append] at hAB
  have hleft := (readFrom_record h.inv hAB hpassed.nextSeq (hrecords.imp And.left And.right)).1
  have hahead : s.ahead = r :: (records ++ B) := by
    rw [ahead, readFrom_cons hr]
    exact (since_batch h.inv.sound.increasing hAB).1
  refine ⟨⟨hstreaming.trans h.running.1, hstopped.trans h.running.2⟩, ?_, ?_⟩
  · simp only [wanted, step, hpassed.symbols]
  · rw [hahead, List.length_cons]
    exact congrArg (List.length · + 1) hleft

theorem loopStep_looping (h : s.Looping) (now : Rat) (raised : Bool) :
    (s.loopStep now raised).Looping ∧ (s.loopStep now raised).wanted = s.wanted ∧
      (s.loopStep now raised).stepsAhead ≤ max 1 (s.stepsAhead - 1) := by
  have hinv : ∀ op : CutOp cfg, op.NoMove → (s.step op).Inv ∧ FewErrors (s.step op).stream :=
    fun op hop => ⟨inv_step s op h.inv (noMove_notStale hop), fewErrors_step h.inv h.errors hop⟩
  by_cases hnil : s.stream.records = []
  · obtain ⟨hrun, hwanted, hahead, hrecords⟩ := loopStep_poll h hnil now
    simp only [loopStep, hnil, ↓reduceIte, stepsAhead, hahead, hrecords]
    refine ⟨⟨(hinv (.poll now) trivial).1, (hinv (.poll now) trivial).2, hrun⟩, hwanted, ?_⟩
    by_cases hz : s.ahead = []
    · simp [hz]
    · simp only [hz, ↓reduceIte]
      omega
  · obtain ⟨hrun, hwanted, hahead⟩ := loopStep_record h hnil raised
    simp only [loopStep, hnil, ↓reduceIte, stepsAhead]
    refine ⟨⟨(hinv (.record raised) trivial).1, (hinv (.record raised) trivial).2, hrun⟩, hwanted,
      ?_⟩
    split <;> omega

/-- **The loop catches up**, whatever its observers raise. -/
theorem loop_catches_up (h : s.Looping) (clock : Nat → Rat) (raises : Nat → Bool) {n : Nat}
    (hn : s.stepsAhead ≤ n + 1) : (loop clock raises n s).put = s.wanted := by
  induction n generalizing s with
  | zero =>
    have hnil : s.ahead = [] := by
      apply List.length_eq_zero_iff.mp
      simp only [stepsAhead] at hn
      omega
    exact put_eq h.inv hnil
  | succ n ih =>
    obtain ⟨hloop, hwanted, hsteps⟩ := loopStep_looping h (clock n) (raises n)
    rw [loop, ← hwanted]
    exact ih hloop (by omega)

theorem stepsAhead_le (s : Cut cfg) : s.stepsAhead ≤ 2 * s.appended.length + 1 := by
  have := List.length_filter_le (fun r : Rec cfg.toRuntime => s.stream.readFrom ≤ r.1) s.appended
  simp only [stepsAhead, ahead, since]
  split <;> omega

theorem nothingLost (h : s.Inv) (herrors : FewErrors s.stream) : s.NothingLost where
  inOrder := ⟨acceptedSince s.stream.symbols s.stream.readFrom s.appended, by
    rw [put, List.append_assoc]
    exact h.delivered⟩
  caughtUp hnil hall := put_eq h <| by
    rw [ahead, readFrom_nil hnil]
    exact since_eq_nil.mpr hall
  complete hrun clock raises n hn :=
    have hloop : s.Looping := ⟨h, herrors, hrun⟩
    loop_catches_up hloop clock raises (by have := s.stepsAhead_le; omega)
  notFatal := Nat.lt_of_le_of_lt herrors.atMostOne (by decide)

/-- **Observer failures cost nothing**, in any state of any run of a journal that grows and a stream
whose cursor is not moved. -/
theorem observer_failures_cost_nothing (maxWaitSeconds : Rat) (symbols : List Str)
    {ops : List (CutOp cfg)} (h : ∀ op ∈ ops, op.NoMove) :
    Run.Always step NothingLost (start maxWaitSeconds symbols) ops := by
  have hgo : ∀ (s : Cut cfg), s.Inv → FewErrors s.stream →
      Run.Always step (fun s => s.Inv ∧ FewErrors s.stream) s ops := by
    induction ops with
    | nil => exact fun s hs he => ⟨hs, he⟩
    | cons op ops ih =>
      intro s hs he
      have hop := h op (by simp)
      exact ⟨⟨hs, he⟩, ih (fun x hx => h x (by simp [hx])) _
        (inv_step s op hs (noMove_notStale hop)) (fewErrors_step hs he hop)⟩
  exact (hgo _ (inv_start maxWaitSeconds symbols) ⟨Nat.zero_le _, fun _ => rfl⟩).mono
    fun s hs => nothingLost hs.1 hs.2

/-- Two records are polled, and the observer of the first raises. -/
def raisingRun : List (CutOp .default) :=
  [.append (readmeTick ['B'] ['1']), .append (readmeTick ['B'] ['2']), .startStreaming, .poll 0,
    .record true, .poll 1, .record true]

theorem observer_failures_raising : Run.Always step NothingLost (start 2 []) raisingRun :=
  observer_failures_cost_nothing 2 [] (by decide)

end Cut

end Leviathan
