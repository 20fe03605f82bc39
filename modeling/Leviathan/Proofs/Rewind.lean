import Leviathan.Journal.StreamLemmas
import Leviathan.Lib.Run

/-!
# `set_cursor` between a tick and its report

A consumer takes a tick and reports it, in turn. `set_cursor` may come in between: it drops the
pending tick and what is buffered, and the report that follows must do nothing.

* `rewind_consistent`: **no report raises, the join counter is the number of the ticks that are
  buffered or pending, and a report after `set_cursor` leaves the cursor.**
-/

namespace Leviathan

open Py JournalTickStream

variable {cfg : Config}

/-- A stream and one consumer. -/
structure Rewind (cfg : Config) where
  stream : JournalTickStream cfg
  /-- the consumer has a tick that it has not reported -/
  holding : Bool
  /-- the argument of the last `set_cursor` since the consumer took its tick -/
  rewound : Option Nat
  /-- the loop has passed a rejected record since that call -/
  rejected : Bool

inductive RewindOp (cfg : Config) where
  | startStreaming
  | stop
  /-- the streaming task is cancelled -/
  | cancel
  | poll (now : Rat)
  /-- the loop reaches the next record; `raised` tells that an observer raises -/
  | record (raised : Bool)
  | wait
  | mark
  | setCursor (lastProcessedSeq : Nat)
  | subscribe (symbol : Str)
  | unsubscribe (symbol : Str)
  /-- the journal and the directory change -/
  | change (journal : TickJournal cfg) (disk : Disk)

namespace Rewind

/-- A new stream. -/
def start (maxWaitSeconds : Rat) (journal : TickJournal cfg) (disk : Disk) (symbols : List Str) :
    Rewind cfg :=
  ⟨.new maxWaitSeconds journal disk symbols, false, none, false⟩

/-- The consumer waits for a tick when it holds none, and reports the one it holds. -/
def step (s : Rewind cfg) : RewindOp cfg → Rewind cfg
  | .startStreaming => { s with stream := s.stream.startStreaming }
  | .stop => { s with stream := s.stream.stop }
  | .cancel => { s with stream := s.stream.endStreaming }
  | .poll now => { s with stream := s.stream.tailFollowPoll now }
  | .record raised =>
    { s with
      stream := s.stream.tailFollowRecord raised
      rejected := s.rejected || s.stream.records.head?.any fun r => !accepts s.stream.symbols r }
  | .wait =>
    if s.holding then s
    else match s.stream.waitForNextTick with
      | none => s
      | some (stream, _) => { s with stream, holding := true, rewound := none }
  | .mark =>
    if s.holding then { s with stream := s.stream.markTickAsProcessed.1, holding := false }
    else s
  | .setCursor lastProcessedSeq =>
    { s with
      stream := (s.stream.setCursor lastProcessedSeq).1
      rewound := some lastProcessedSeq
      rejected := false }
  | .subscribe symbol => { s with stream := (s.stream.subscribeSymbol symbol).1 }
  | .unsubscribe symbol => { s with stream := (s.stream.unsubscribeSymbol symbol).1 }
  | .change journal disk =>
    { s with stream := { s.stream with tail := { s.stream.tail with journal, disk } } }

/-- What the report of the tick that the consumer holds would do, and what the queue counts. -/
structure Consistent (s : Rewind cfg) : Prop where
  tasks : s.stream.queue.unfinishedTasks =
    s.stream.queue.items.length + if s.stream.pendingSeq.isSome then 1 else 0
  returns : s.holding = true → s.stream.markTickAsProcessed.2 = .ok ()
  /-- after `set_cursor` the report changes no cursor; the loop moves it only past a record that it
  rejects -/
  unmoved : s.holding = true → ∀ c ∈ s.rewound,
    s.stream.markTickAsProcessed.1.cursor = s.stream.cursor ∧
      s.stream.markTickAsProcessed.1.tail = s.stream.tail ∧
      (s.rejected = false → s.stream.markTickAsProcessed.1.cursor = c)

/-- A tick that is held is pending, unless `set_cursor` has invalidated it. -/
structure Inv (s : Rewind cfg) : Prop where
  tasks : s.stream.queue.unfinishedTasks =
    s.stream.queue.items.length + if s.stream.pendingSeq.isSome then 1 else 0
  free : s.holding = false → s.stream.pendingSeq = none
  pending : s.holding = true → s.rewound = none → s.stream.pendingSeq.isSome
  invalidated : s.holding = true → ∀ c ∈ s.rewound,
    s.stream.pendingSeq = none ∧ s.stream.pendingInvalidatedByCursor = true ∧
      (s.rejected = false → s.stream.cursor = c)

variable {s : Rewind cfg}

theorem inv_start (maxWaitSeconds : Rat) (journal : TickJournal cfg) (disk : Disk)
    (symbols : List Str) : (start maxWaitSeconds journal disk symbols).Inv :=
  ⟨rfl, fun _ => rfl, nofun, nofun⟩

/-! ## The loop -/

/-- Nothing of what the consumer holds has changed. -/
structure SameHold (stream stream' : JournalTickStream cfg) : Prop where
  queue : stream'.queue = stream.queue
  cursor : stream'.cursor = stream.cursor
  pendingSeq : stream'.pendingSeq = stream.pendingSeq
  flag : stream'.pendingInvalidatedByCursor = stream.pendingInvalidatedByCursor

theorem SameHold.of_delivery {stream stream' : JournalTickStream cfg}
    (h : SameDelivery stream stream')
    (hflag : stream'.pendingInvalidatedByCursor = stream.pendingInvalidatedByCursor) :
    SameHold stream stream' :=
  ⟨h.queue, h.cursor, h.pendingSeq, hflag⟩

theorem startStreaming_flag (stream : JournalTickStream cfg) :
    stream.startStreaming.pendingInvalidatedByCursor = stream.pendingInvalidatedByCursor := by
  unfold startStreaming
  split <;> rfl

theorem tailFollowError_flag (stream : JournalTickStream cfg) :
    stream.tailFollowError.pendingInvalidatedByCursor = stream.pendingInvalidatedByCursor := by
  unfold tailFollowError
  simp only
  split <;> rfl

theorem tailFollowPoll_flag (stream : JournalTickStream cfg) (now : Rat) :
    (stream.tailFollowPoll now).pendingInvalidatedByCursor =
      stream.pendingInvalidatedByCursor := by
  unfold tailFollowPoll
  split
  · rfl
  · split
    · rfl
    · split
      · exact tailFollowError_flag _
      · rfl
      · rfl

theorem tailFollowRecord_flag (stream : JournalTickStream cfg) (raised : Bool) :
    (stream.tailFollowRecord raised).pendingInvalidatedByCursor =
      stream.pendingInvalidatedByCursor := by
  unfold tailFollowRecord
  split
  · rfl
  · simp only
    split
    · unfold persistCursorThrough
      split <;> rfl
    · split
      · exact tailFollowError_flag _
      · rfl

theorem subscribeSymbol_flag (stream : JournalTickStream cfg) (symbol : Str) :
    (stream.subscribeSymbol symbol).1.pendingInvalidatedByCursor =
      stream.pendingInvalidatedByCursor := by
  unfold subscribeSymbol
  split
  · rfl
  · split <;> rfl

theorem unsubscribeSymbol_flag (stream : JournalTickStream cfg) (symbol : Str) :
    (stream.unsubscribeSymbol symbol).1.pendingInvalidatedByCursor =
      stream.pendingInvalidatedByCursor := by
  unfold unsubscribeSymbol
  split <;> rfl

/-- A step that the consumer does not see. -/
theorem Inv.same (h : s.Inv) {stream : JournalTickStream cfg} (hsame : SameHold s.stream stream) :
    ({ s with stream } : Rewind cfg).Inv := by
  refine ⟨?_, ?_, ?_, ?_⟩
  · rw [hsame.queue, hsame.pendingSeq]
    exact h.tasks
  · rw [hsame.pendingSeq]
    exact h.free
  · rw [hsame.pendingSeq]
    exact h.pending
  · rw [hsame.pendingSeq, hsame.flag, hsame.cursor]
    exact h.invalidated

/-- The loop puts an accepted record into the queue, and only a rejected one moves the cursor. -/
theorem inv_record (h : s.Inv) (raised : Bool) : (s.step (.record raised)).Inv := by
  cases hr : s.stream.records with
  | nil =>
    have hs : s.step (.record raised) = s := by
      simp only [step, tailFollowRecord, hr, List.head?_nil, Option.any_none, Bool.or_false]
    rw [hs]
    exact h
  | cons r records =>
    obtain ⟨hpassed, -⟩ := tailFollowRecord_passed hr raised
    refine ⟨?_, ?_, ?_, ?_⟩
    · have htasks := h.tasks
      simp only [step, hpassed.tasks, hpassed.items, hpassed.pendingSeq, List.length_append]
      omega
    · simp only [step, hpassed.pendingSeq]
      exact h.free
    · simp only [step, hpassed.pendingSeq]
      exact h.pending
    · intro hholding c hc
      obtain ⟨hnone, hflag, hcursor⟩ := h.invalidated hholding c hc
      refine ⟨hpassed.pendingSeq.trans hnone, (tailFollowRecord_flag _ _).trans hflag, ?_⟩
      intro hrejected
      simp only [step, hr, List.head?_cons, Option.any_some, Bool.or_eq_false_iff,
        Bool.not_eq_eq_eq_not, Bool.not_false] at hrejected
      simp only [step, hpassed.cursor, hrejected.2, true_or, ↓reduceIte]
      exact hcursor hrejected.1

/-! ## The consumer -/

theorem inv_wait (h : s.Inv) : (s.step .wait).Inv := by
  unfold step
  simp only
  split
  · exact h
  · rename_i hfree
    split
    · exact h
    · rename_i stream tick hwait
      have hnone := h.free (Bool.eq_false_iff.mpr hfree)
      have htasks := h.tasks
      unfold waitForNextTick at hwait
      split at hwait
      · cases hwait
      · rename_i seq tick' items hitems
        obtain ⟨rfl, -⟩ := Prod.mk.inj (Option.some.inj hwait)
        refine ⟨?_, nofun, fun _ _ => rfl, nofun⟩
        simp only [hitems, hnone, List.length_cons, Option.isSome_none, Option.isSome_some,
          Bool.false_eq_true, ↓reduceIte] at htasks ⊢
        omega

/-- The report of a pending tick releases its task; the report of an invalidated one clears the
flag. -/
theorem mark_cases (h : s.Inv) (hholding : s.holding = true) :
    (∃ seq, s.stream.pendingSeq = some seq ∧ s.rewound = none ∧
      s.stream.markTickAsProcessed =
        ({ s.stream.persistCursorThrough seq with
          queue := { s.stream.queue with unfinishedTasks := s.stream.queue.items.length }
          pendingSeq := none
          pendingInvalidatedByCursor := false }, .ok ())) ∨
    s.stream.pendingSeq = none ∧
      s.stream.markTickAsProcessed =
        ({ s.stream with pendingInvalidatedByCursor := false }, .ok ()) := by
  have htasks := h.tasks
  cases hrewound : s.rewound with
  | none =>
    left
    obtain ⟨seq, hseq⟩ := Option.isSome_iff_exists.mp (h.pending hholding hrewound)
    simp only [hseq, Option.isSome_some, ↓reduceIte] at htasks
    refine ⟨seq, hseq, rfl, ?_⟩
    rw [markTickAsProcessed_pending hseq (by omega), htasks, Nat.add_sub_cancel]
  | some c =>
    right
    obtain ⟨hnone, hflag, -⟩ := h.invalidated hholding c hrewound
    refine ⟨hnone, ?_⟩
    simp only [markTickAsProcessed, hnone, hflag, ↓reduceIte]

theorem inv_mark (h : s.Inv) : (s.step .mark).Inv := by
  unfold step
  simp only
  split
  · rename_i hholding
    rcases mark_cases h hholding with ⟨seq, -, -, hmark⟩ | ⟨hnone, hmark⟩
    · rw [hmark]
      exact ⟨rfl, fun _ => rfl, nofun, nofun⟩
    · rw [hmark]
      exact ⟨h.tasks, fun _ => hnone, nofun, nofun⟩
  · exact h

/-! ## `set_cursor` -/

/-- What `set_cursor` leaves, whatever the directory holds and whether it returns. -/
theorem setCursor_any (stream : JournalTickStream cfg) (c : Nat) :
    (stream.setCursor c).1.cursor = c ∧ (stream.setCursor c).1.pendingSeq = none ∧
      (stream.setCursor c).1.pendingInvalidatedByCursor =
        (stream.pendingInvalidatedByCursor || stream.pendingSeq.isSome) ∧
      (stream.setCursor c).1.queue.items = [] ∧
      (stream.setCursor c).1.queue.unfinishedTasks =
        stream.queue.unfinishedTasks - (if stream.pendingSeq.isSome then 1 else 0) -
          stream.queue.items.length := by
  have hdone : stream.queue.taskDoneIfAny =
      { stream.queue with unfinishedTasks := stream.queue.unfinishedTasks - 1 } := by
    unfold AsyncQueue.taskDoneIfAny AsyncQueue.taskDone
    split
    · rename_i hn
      rw [hn, Option.getD_none, Nat.zero_sub, ← hn]
    · rfl
  unfold setCursor
  cases hp : stream.pendingSeq with
  | none =>
    simp only [Option.isSome_none, Bool.false_eq_true, ↓reduceIte, Bool.or_false, Nat.sub_zero,
      AsyncQueue.drain_eq]
    split <;> exact ⟨rfl, rfl, rfl, rfl, rfl⟩
  | some seq =>
    simp only [Option.isSome_some, ↓reduceIte, Bool.or_true, AsyncQueue.drain_eq, hdone]
    split <;> exact ⟨rfl, rfl, rfl, rfl, rfl⟩

theorem inv_setCursor (h : s.Inv) (c : Nat) : (s.step (.setCursor c)).Inv := by
  obtain ⟨hcursor, hpending, hflag, hitems, htasks⟩ := setCursor_any s.stream c
  have hbefore := h.tasks
  refine ⟨?_, fun _ => hpending, nofun, ?_⟩
  · simp only [step, hpending, hitems, htasks, Option.isSome_none, Bool.false_eq_true, ↓reduceIte,
      List.length_nil]
    omega
  · intro hholding c' hc'
    obtain rfl := Option.some.inj hc'
    refine ⟨hpending, ?_, fun _ => hcursor⟩
    simp only [step, hflag, Bool.or_eq_true]
    -- a tick that is held is pending, or an earlier call has armed the flag
    cases hrewound : s.rewound with
    | none => exact .inr (h.pending hholding hrewound)
    | some c' => exact .inl (h.invalidated hholding c' hrewound).2.1

theorem Inv.step (h : s.Inv) (op : RewindOp cfg) : (s.step op).Inv := by
  cases op with
  | startStreaming =>
    exact h.same (.of_delivery (startStreaming_any s.stream).1 (startStreaming_flag s.stream))
  | stop => exact h.same ⟨rfl, rfl, rfl, rfl⟩
  | cancel => exact h.same ⟨rfl, rfl, rfl, rfl⟩
  | poll now =>
    exact h.same (.of_delivery (tailFollowPoll_any s.stream now).1 (tailFollowPoll_flag _ now))
  | record raised => exact inv_record h raised
  | wait => exact inv_wait h
  | mark => exact inv_mark h
  | setCursor c => exact inv_setCursor h c
  | subscribe symbol =>
    exact h.same (.of_delivery (subscribeSymbol_any s.stream symbol).1 (subscribeSymbol_flag _ _))
  | unsubscribe symbol =>
    exact h.same
      (.of_delivery (unsubscribeSymbol_any s.stream symbol).1 (unsubscribeSymbol_flag _ _))
  | change journal disk => exact h.same ⟨rfl, rfl, rfl, rfl⟩

theorem Inv.consistent (h : s.Inv) : s.Consistent := by
  refine ⟨h.tasks, ?_, ?_⟩
  · intro hholding
    rcases mark_cases h hholding with ⟨seq, -, -, hmark⟩ | ⟨-, hmark⟩ <;> rw [hmark]
  · intro hholding c hc
    obtain ⟨-, -, hcursor⟩ := h.invalidated hholding c hc
    rcases mark_cases h hholding with ⟨seq, -, hnone, -⟩ | ⟨-, hmark⟩
    · rw [hnone] at hc
      cases hc
    · rw [hmark]
      exact ⟨rfl, rfl, hcursor⟩

/-- **A rewind while a tick is held neither makes its report raise nor leaks the join counter.** -/
theorem rewind_consistent (maxWaitSeconds : Rat) (journal : TickJournal cfg) (disk : Disk)
    (symbols : List Str) (ops : List (RewindOp cfg)) :
    Run.Always step Consistent (start maxWaitSeconds journal disk symbols) ops := by
  have h : Run.Always step Inv (start maxWaitSeconds journal disk symbols) ops :=
    Run.always_of_step (fun _ op h => h.step op) (inv_start maxWaitSeconds journal disk symbols) ops
  exact h.mono fun _ => Inv.consistent

end Rewind

end Leviathan
