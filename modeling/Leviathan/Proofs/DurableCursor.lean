import Leviathan.Journal.Readme
import Leviathan.Journal.StreamLemmas
import Leviathan.Lib.Run

/-!
# The durable cursor

The loop and the consumer of a stream both save the cursor: the consumer reports a tick, and the
loop passes a record that its filter rejects. Between their steps the journal may change in any way.

* `cursor_behind_iff`: **the saved cursor stays behind the ticks that are not processed exactly in
  the runs in which a record is rejected only when no tick waits, and a tick is reported only when
  it is the only one taken.**
* `rejected_record_passes`: a rejected record saves the cursor past a tick in the queue.
-/

namespace Leviathan

open Py JournalTickStream

variable {cfg : Config}

/-- A stream and its consumer. -/
structure Delivery (cfg : Config) where
  stream : JournalTickStream cfg
  /-- what the consumer took and has not reported, with the sequence numbers -/
  taken : List (Rec cfg.toRuntime)

inductive DeliveryOp (cfg : Config) where
  | startStreaming
  | stop
  /-- the streaming task is cancelled -/
  | cancel
  | poll (now : Rat)
  /-- the loop reaches the next record; `raised` tells that an observer raises -/
  | record (raised : Bool)
  | wait
  | mark
  | subscribe (symbol : Str)
  | unsubscribe (symbol : Str)
  /-- the journal and its metadata change -/
  | change (journal : TickJournal cfg) (journalFile : Option Bytes) (metaFile : Option MetaPayload)

namespace Delivery

/-- A new stream. -/
def start (maxWaitSeconds : Rat) (journal : TickJournal cfg) (disk : Disk) (symbols : List Str) :
    Delivery cfg :=
  ⟨.new maxWaitSeconds journal disk symbols, []⟩

def step (s : Delivery cfg) : DeliveryOp cfg → Delivery cfg
  | .startStreaming => { s with stream := s.stream.startStreaming }
  | .stop => { s with stream := s.stream.stop }
  | .cancel => { s with stream := s.stream.endStreaming }
  | .poll now => { s with stream := s.stream.tailFollowPoll now }
  | .record raised => { s with stream := s.stream.tailFollowRecord raised }
  | .wait =>
    match s.stream.waitForNextTick with
    | none => s
    | some (stream, _) => ⟨stream, s.taken ++ s.stream.queue.items.take 1⟩
  | .mark =>
    match s.stream.pendingSeq, s.stream.markTickAsProcessed with
    | some _, (stream, .ok ()) => ⟨stream, s.taken.dropLast⟩
    | _, (stream, _) => { s with stream }
  | .subscribe symbol => { s with stream := (s.stream.subscribeSymbol symbol).1 }
  | .unsubscribe symbol => { s with stream := (s.stream.unsubscribeSymbol symbol).1 }
  | .change journal journalFile metaFile =>
    { s with stream := { s.stream with
      tail := { s.stream.tail with
        journal, disk := { s.stream.tail.disk with journalFile, metaFile } } } }

/-- The accepted ticks that were not reported. -/
def unprocessed (s : Delivery cfg) : List (Rec cfg.toRuntime) := s.taken ++ s.stream.queue.items

/-- The saved cursor's `last_processed_seq`. -/
def saved (s : Delivery cfg) : Nat := TickJournal.loadCursor s.stream.tail.disk

/-- The saved cursor has not passed a tick that is buffered, taken or pending. -/
def CursorBehind (s : Delivery cfg) : Prop :=
  (∀ r ∈ s.unprocessed, s.saved < r.1) ∧ ∀ seq ∈ s.stream.pendingSeq, s.saved < seq

/-- A stream that is opened again delivers the ticks that were not reported: its loop puts them into
the queue. -/
def Redelivers (s : Delivery cfg) : Prop :=
  ∀ (maxWaitSeconds : Rat) (symbols : List Str) (now : Rat) (rs : List (Rec cfg.toRuntime)),
    s.stream.tail.disk.Readable rs → ∀ r ∈ s.unprocessed, r ∈ rs → accepts symbols r →
      let disk := s.stream.tail.disk
      let stream := (JournalTickStream.new maxWaitSeconds (.new disk) disk symbols).startStreaming
      ∃ n, r ∈ ((fun stream => stream.tailFollowRecord false)^[n]
        (stream.tailFollowPoll now)).queue.items

/-- A record is rejected only when no tick waits, and a tick is reported only when it is the only
one taken. -/
def InOrder (s : Delivery cfg) : DeliveryOp cfg → Prop
  | .record _ => ∀ r ∈ s.stream.records.head?,
    accepts s.stream.symbols r = false → s.unprocessed = []
  | .mark => s.stream.pendingSeq.isSome → s.taken.length ≤ 1
  | _ => True

/-- What every state of a run has. -/
structure Inv (s : Delivery cfg) : Prop where
  saved : s.saved = s.stream.cursor
  cursor : s.stream.cursor < s.stream.nextSeq
  records : Increasing s.stream.records ∧ ∀ r ∈ s.stream.records, s.stream.nextSeq ≤ r.1
  reached : ∀ r ∈ s.unprocessed, r.1 < s.stream.nextSeq
  increasing : Increasing s.unprocessed
  -- the pending tick was taken last
  pending : ∀ seq ∈ s.stream.pendingSeq, ∃ T r, s.taken = T ++ [r] ∧ r.1 = seq
  tasks : s.unprocessed.length ≤ s.stream.queue.unfinishedTasks

variable {s : Delivery cfg}

theorem inv_start (maxWaitSeconds : Rat) (journal : TickJournal cfg) (disk : Disk)
    (symbols : List Str) : (start maxWaitSeconds journal disk symbols).Inv :=
  ⟨rfl, Nat.lt_succ_self _, ⟨.nil, nofun⟩, nofun, .nil, nofun, Nat.le_refl _⟩

/-- A step that the consumer and the cursor do not see. -/
theorem Inv.same (h : s.Inv) {stream : JournalTickStream cfg}
    (hsame : SameDelivery s.stream stream)
    (hrecords : stream.records = s.stream.records ∨
      Increasing stream.records ∧ ∀ r ∈ stream.records, s.stream.nextSeq ≤ r.1) :
    ({ s with stream } : Delivery cfg).Inv := by
  have hunprocessed : ({ s with stream } : Delivery cfg).unprocessed = s.unprocessed := by
    simp only [unprocessed, hsame.queue]
  refine ⟨?_, ?_, ?_, ?_, ?_, ?_, ?_⟩
  · exact (congrArg (·.getD 0) hsame.cursorFile).trans (h.saved.trans hsame.cursor.symm)
  · rw [hsame.cursor, hsame.nextSeq]
    exact h.cursor
  · rw [hsame.nextSeq]
    rcases hrecords with he | hnew
    · exact he.symm ▸ h.records
    · exact hnew
  · rw [hunprocessed, hsame.nextSeq]
    exact h.reached
  · rw [hunprocessed]
    exact h.increasing
  · rw [hsame.pendingSeq]
    exact h.pending
  · rw [hunprocessed, hsame.queue]
    exact h.tasks

/-- The loop is past the cursor, so a record that is not accepted moves it. -/
theorem record_cursor (h : s.Inv) {r : Rec cfg.toRuntime} {records : List (Rec cfg.toRuntime)}
    (hr : s.stream.records = r :: records) (raised : Bool) :
    s.stream.cursor < r.1 ∧
      (s.stream.tailFollowRecord raised).cursor =
        (if accepts s.stream.symbols r then s.stream.cursor else r.1) ∧
      (s.step (.record raised)).saved = if accepts s.stream.symbols r then s.saved else r.1 := by
  obtain ⟨hpassed, -⟩ := tailFollowRecord_passed hr raised
  have hnext := h.records.2 r (by simp [hr])
  have hcursor := h.cursor
  have hlt : s.stream.cursor < r.1 := by omega
  have hcursor' := hpassed.cursor
  have hsaved' := hpassed.saved
  simp only [Nat.not_le.mpr hlt, or_false] at hcursor' hsaved'
  exact ⟨hlt, hcursor', hsaved'⟩

theorem record_unprocessed {r : Rec cfg.toRuntime} {records : List (Rec cfg.toRuntime)}
    (hr : s.stream.records = r :: records) (raised : Bool) :
    (s.step (.record raised)).unprocessed =
      s.unprocessed ++ [r].filter (accepts s.stream.symbols) := by
  obtain ⟨hpassed, -⟩ := tailFollowRecord_passed hr raised
  simp only [unprocessed, step, hpassed.items, List.append_assoc]

theorem inv_record (h : s.Inv) {r : Rec cfg.toRuntime} {records : List (Rec cfg.toRuntime)}
    (hr : s.stream.records = r :: records) (raised : Bool) : (s.step (.record raised)).Inv := by
  obtain ⟨hpassed, hrecords⟩ := tailFollowRecord_passed hr raised
  obtain ⟨hlt, hcursor', hsaved'⟩ := record_cursor h hr raised
  have hunprocessed := record_unprocessed hr raised
  have hinc := List.pairwise_cons.mp (hr ▸ h.records.1)
  have hnext := h.records.2 r (by simp [hr])
  have hcursor := h.cursor
  have hmem : ∀ x ∈ [r].filter (accepts s.stream.symbols), x = r := fun x hx =>
    List.mem_singleton.mp (List.mem_filter.mp hx).1
  refine ⟨?_, ?_, ?_, ?_, ?_, ?_, ?_⟩
  · refine hsaved'.trans (Eq.trans ?_ hcursor'.symm)
    split
    · exact h.saved
    · rfl
  · show (s.stream.tailFollowRecord raised).cursor < (s.stream.tailFollowRecord raised).nextSeq
    rw [hcursor', hpassed.nextSeq]
    split <;> omega
  · show Increasing (s.stream.tailFollowRecord raised).records ∧
      ∀ x ∈ (s.stream.tailFollowRecord raised).records,
        (s.stream.tailFollowRecord raised).nextSeq ≤ x.1
    rw [hpassed.nextSeq]
    rcases hrecords with ⟨he, -⟩ | ⟨-, he⟩
    · rw [he]
      exact ⟨hinc.2, hinc.1⟩
    · rw [he]
      exact ⟨.nil, by simp⟩
  · intro x hx
    show x.1 < (s.stream.tailFollowRecord raised).nextSeq
    rw [hunprocessed] at hx
    rw [hpassed.nextSeq]
    rcases List.mem_append.mp hx with hx | hx
    · have := h.reached x hx
      omega
    · rw [hmem x hx]
      exact Nat.lt_succ_self _
  · rw [hunprocessed]
    apply List.pairwise_append.mpr
    refine ⟨h.increasing, .filter _ (List.pairwise_singleton _ _), ?_⟩
    intro x hx y hy
    rw [hmem y hy]
    exact Nat.lt_of_lt_of_le (h.reached x hx) hnext
  · show ∀ seq ∈ (s.stream.tailFollowRecord raised).pendingSeq, _
    rw [hpassed.pendingSeq]
    exact h.pending
  · show _ ≤ (s.stream.tailFollowRecord raised).queue.unfinishedTasks
    rw [hunprocessed, hpassed.tasks, List.length_append]
    exact Nat.add_le_add_right h.tasks _

/-- The next record of the loop. -/
theorem record_cases (h : s.Inv) (raised : Bool) :
    s.stream.records = [] ∧ s.step (.record raised) = s ∨
      ∃ r ∈ s.stream.records.head?, s.saved < r.1 ∧ (s.step (.record raised)).Inv ∧
        (s.step (.record raised)).unprocessed =
          s.unprocessed ++ [r].filter (accepts s.stream.symbols) ∧
        (s.step (.record raised)).stream.pendingSeq = s.stream.pendingSeq ∧
        (s.step (.record raised)).saved =
          if accepts s.stream.symbols r then s.saved else r.1 := by
  cases hr : s.stream.records with
  | nil =>
    refine .inl ⟨rfl, ?_⟩
    simp only [step, tailFollowRecord, hr]
  | cons r records =>
    obtain ⟨hpassed, -⟩ := tailFollowRecord_passed hr raised
    obtain ⟨hlt, -, hsaved'⟩ := record_cursor h hr raised
    exact .inr ⟨r, rfl, h.saved ▸ hlt, inv_record h hr raised, record_unprocessed hr raised,
      hpassed.pendingSeq, hsaved'⟩

theorem inv_wait (h : s.Inv) : (s.step .wait).Inv ∧
    (s.step .wait).unprocessed = s.unprocessed ∧ (s.step .wait).saved = s.saved ∧
    ∀ seq ∈ (s.step .wait).stream.pendingSeq, ∃ r ∈ s.unprocessed, r.1 = seq := by
  cases hq : s.stream.queue.items with
  | nil =>
    have hs : s.step .wait = s := by simp only [step, waitForNextTick, hq]
    rw [hs]
    refine ⟨h, rfl, rfl, fun seq hseq => ?_⟩
    obtain ⟨T, r, hT, hr⟩ := h.pending seq hseq
    exact ⟨r, by simp [unprocessed, hT], hr⟩
  | cons r items =>
    have hs : s.step .wait =
        ⟨{ s.stream with
          queue := { s.stream.queue with items }
          pendingSeq := some r.1
          pendingInvalidatedByCursor := false }, s.taken ++ [r]⟩ := by
      simp only [step, waitForNextTick, hq]
      rfl
    have hunprocessed : (s.step .wait).unprocessed = s.unprocessed := by
      simp only [hs, unprocessed, hq, List.append_assoc, List.singleton_append]
    refine ⟨⟨?_, ?_, ?_, ?_, ?_, ?_, ?_⟩, hunprocessed, by rw [hs]; rfl, ?_⟩
    · rw [hs]; exact h.saved
    · rw [hs]; exact h.cursor
    · rw [hs]; exact h.records
    · rw [hunprocessed, hs]; exact h.reached
    · rw [hunprocessed]; exact h.increasing
    · rw [hs]
      rintro seq ⟨⟩
      exact ⟨s.taken, r, rfl, rfl⟩
    · rw [hunprocessed, hs]; exact h.tasks
    · rw [hs]
      rintro seq ⟨⟩
      exact ⟨r, by simp [unprocessed, hq], rfl⟩

/-- A report of the pending tick. -/
theorem mark_cases (h : s.Inv) :
    s.stream.pendingSeq = none ∧ (s.step .mark).Inv ∧
        (s.step .mark).unprocessed = s.unprocessed ∧ (s.step .mark).saved = s.saved ∧
        (s.step .mark).stream.pendingSeq = none ∨
      ∃ T r, s.taken = T ++ [r] ∧ s.stream.pendingSeq = some r.1 ∧ (s.step .mark).Inv ∧
        (s.step .mark).unprocessed = T ++ s.stream.queue.items ∧
        (s.step .mark).saved = max s.saved r.1 ∧ (s.step .mark).stream.pendingSeq = none := by
  cases hp : s.stream.pendingSeq with
  | none =>
    have hs : ∃ flag, s.step .mark =
        { s with stream := { s.stream with pendingInvalidatedByCursor := flag } } := by
      simp only [step, markTickAsProcessed, hp]
      split
      · exact ⟨false, rfl⟩
      · exact ⟨s.stream.pendingInvalidatedByCursor, by rw [← hp]⟩
    obtain ⟨flag, hs⟩ := hs
    rw [hs]
    exact .inl ⟨rfl, ⟨h.saved, h.cursor, h.records, h.reached, h.increasing, h.pending, h.tasks⟩,
      rfl, rfl, hp⟩
  | some seq =>
    obtain ⟨T, r, hT, rfl⟩ := h.pending seq hp
    have hlen : s.unprocessed.length = T.length + 1 + s.stream.queue.items.length := by
      simp only [unprocessed, hT, List.length_append, List.length_singleton]
    have htasks := h.tasks
    have hmark := markTickAsProcessed_pending hp (by omega)
    obtain ⟨hcursor, hsaved, hnext, hrecords⟩ := persistCursorThrough_cursor r.1 h.saved
    have hs : s.step .mark =
        ⟨{ s.stream.persistCursorThrough r.1 with
          queue := { s.stream.queue with unfinishedTasks := s.stream.queue.unfinishedTasks - 1 }
          pendingSeq := none
          pendingInvalidatedByCursor := false }, T⟩ := by
      simp only [step, hp, hmark, hT, List.dropLast_concat]
    have hsub : (T ++ s.stream.queue.items).Sublist s.unprocessed := by
      rw [unprocessed, hT]
      exact (List.sublist_append_left T [r]).append_right _
    have hr := h.reached r (by simp [unprocessed, hT])
    have hlt := h.cursor
    refine .inr ⟨T, r, hT, rfl, ?_, by rw [hs]; rfl, ?_, by rw [hs]⟩
    · rw [hs]
      refine ⟨hsaved.trans hcursor.symm, ?_, ?_, fun x hx => ?_, h.increasing.sublist hsub, nofun,
        ?_⟩
      · simp only [hcursor, hnext]
        omega
      · simp only [hrecords, hnext]
        exact h.records
      · simp only [hnext]
        exact h.reached x (hsub.subset hx)
      · simp only [unprocessed, List.length_append]
        omega
    · rw [hs, h.saved]
      exact hsaved

theorem inv_step (s : Delivery cfg) (op : DeliveryOp cfg) (h : s.Inv) : (s.step op).Inv := by
  cases op with
  | startStreaming =>
    obtain ⟨hsame, hrecords⟩ := s.stream.startStreaming_any
    exact h.same hsame (hrecords.imp_right fun hnil => by rw [hnil]; exact ⟨.nil, nofun⟩)
  | stop => exact h.same ⟨rfl, rfl, rfl, rfl, rfl⟩ (.inl rfl)
  | cancel => exact h.same ⟨rfl, rfl, rfl, rfl, rfl⟩ (.inr ⟨.nil, nofun⟩)
  | poll now =>
    obtain ⟨hsame, -, -, hrecords⟩ := s.stream.tailFollowPoll_any now
    exact h.same hsame hrecords
  | record raised =>
    rcases record_cases h raised with ⟨-, hs⟩ | ⟨r, -, -, hinv, -⟩
    · rw [hs]; exact h
    · exact hinv
  | wait => exact (inv_wait h).1
  | mark =>
    rcases mark_cases h with ⟨-, hinv, -⟩ | ⟨T, r, -, -, hinv, -⟩
    · exact hinv
    · exact hinv
  | subscribe symbol =>
    obtain ⟨hsame, hrecords⟩ := s.stream.subscribeSymbol_any symbol
    exact h.same hsame (.inl hrecords)
  | unsubscribe symbol =>
    obtain ⟨hsame, hrecords⟩ := s.stream.unsubscribeSymbol_any symbol
    exact h.same hsame (.inl hrecords)
  | change journal journalFile metaFile => exact h.same ⟨rfl, rfl, rfl, rfl, rfl⟩ (.inl rfl)

/-! ## The cursor -/

theorem CursorBehind.same (h : s.CursorBehind) {stream : JournalTickStream cfg}
    (hsame : SameDelivery s.stream stream) : ({ s with stream } : Delivery cfg).CursorBehind := by
  have hsaved : ({ s with stream } : Delivery cfg).saved = s.saved :=
    congrArg (·.getD 0) hsame.cursorFile
  unfold CursorBehind unprocessed
  rw [hsaved, hsame.queue, hsame.pendingSeq]
  exact h

/-- A rejected record is past every tick that is not processed. -/
theorem behind_record (hinv : s.Inv) (h : s.CursorBehind) (raised : Bool) :
    (s.step (.record raised)).CursorBehind ↔ s.InOrder (.record raised) := by
  rcases record_cases hinv raised with ⟨hnil, hs⟩ | ⟨r, hr, hlt, -, hunprocessed, hpending, hsaved⟩
  · rw [hs]
    exact iff_of_true h (by simp [InOrder, hnil])
  · have hnext : ∀ x ∈ s.unprocessed, x.1 < r.1 := fun x hx =>
      Nat.lt_of_lt_of_le (hinv.reached x hx) (hinv.records.2 r (List.mem_of_mem_head? hr))
    unfold CursorBehind InOrder
    rw [hunprocessed, hpending, hsaved]
    cases hacc : accepts s.stream.symbols r with
    | true =>
      refine iff_of_true ⟨fun x hx => ?_, h.2⟩ fun x hx hrej => ?_
      · rcases List.mem_append.mp hx with hx | hx
        · exact h.1 x hx
        · rw [List.mem_singleton.mp (List.mem_filter.mp hx).1]
          exact hlt
      · rw [Option.mem_unique hx hr, hacc] at hrej
        cases hrej
    | false =>
      have hfilter : [r].filter (accepts s.stream.symbols) = [] := by simp [hacc]
      simp only [hfilter, List.append_nil, Bool.false_eq_true, ↓reduceIte]
      constructor
      · rintro ⟨hall, -⟩ - - -
        apply List.eq_nil_iff_forall_not_mem.mpr
        intro x hx
        have := hall x hx
        have := hnext x hx
        omega
      · intro hnone
        have hnil := hnone r hr hacc
        rw [hnil]
        refine ⟨nofun, fun seq hseq => ?_⟩
        obtain ⟨T, x, hT, -⟩ := hinv.pending seq hseq
        rw [unprocessed, hT] at hnil
        simp at hnil

/-- A report passes the ticks that were taken before. -/
theorem behind_mark (hinv : s.Inv) (h : s.CursorBehind) :
    (s.step .mark).CursorBehind ↔ s.InOrder .mark := by
  rcases mark_cases hinv with ⟨hp, -, hunprocessed, hsaved, hnone⟩ |
    ⟨T, r, hT, hp, -, hunprocessed, hsaved, hnone⟩
  · unfold CursorBehind InOrder
    rw [hunprocessed, hsaved, hnone, hp]
    exact iff_of_true ⟨h.1, nofun⟩ nofun
  · have hup := hinv.increasing
    rw [unprocessed, hT, List.append_assoc] at hup
    obtain ⟨-, hup, hT_lt⟩ := List.pairwise_append.mp hup
    have hr := h.1 r (by simp [unprocessed, hT])
    have hmax : max s.saved r.1 = r.1 := Nat.max_eq_right (Nat.le_of_lt hr)
    unfold CursorBehind InOrder
    rw [hunprocessed, hsaved, hnone, hp, hT, hmax]
    simp only [Option.isSome_some, forall_const, List.length_append, List.length_singleton]
    constructor
    · rintro ⟨hall, -⟩
      cases T with
      | nil => exact Nat.le_refl 1
      | cons x T =>
        have := hall x (by simp)
        have := hT_lt x (by simp) r (by simp)
        omega
    · intro hlen
      obtain rfl : T = [] := List.length_eq_zero_iff.mp (by omega)
      exact ⟨fun x hx => (List.pairwise_cons.mp hup).1 x hx, nofun⟩

theorem behind_step (s : Delivery cfg) (op : DeliveryOp cfg) (hinv : s.Inv)
    (h : s.CursorBehind) : (s.step op).CursorBehind ↔ s.InOrder op := by
  cases op with
  | record raised => exact behind_record hinv h raised
  | mark => exact behind_mark hinv h
  | wait =>
    obtain ⟨-, hunprocessed, hsaved, hpending⟩ := inv_wait hinv
    refine iff_of_true ⟨?_, fun seq hseq => ?_⟩ trivial
    · rw [hunprocessed, hsaved]
      exact h.1
    · obtain ⟨r, hr, rfl⟩ := hpending seq hseq
      rw [hsaved]
      exact h.1 r hr
  | startStreaming => exact iff_of_true (h.same s.stream.startStreaming_any.1) trivial
  | stop => exact iff_of_true (h.same ⟨rfl, rfl, rfl, rfl, rfl⟩) trivial
  | cancel => exact iff_of_true (h.same ⟨rfl, rfl, rfl, rfl, rfl⟩) trivial
  | poll now => exact iff_of_true (h.same (s.stream.tailFollowPoll_any now).1) trivial
  | subscribe symbol => exact iff_of_true (h.same (s.stream.subscribeSymbol_any symbol).1) trivial
  | unsubscribe symbol =>
    exact iff_of_true (h.same (s.stream.unsubscribeSymbol_any symbol).1) trivial
  | change journal journalFile metaFile =>
    exact iff_of_true (h.same ⟨rfl, rfl, rfl, rfl, rfl⟩) trivial

/-- **A cursor that is behind is a place to restart from.** -/
theorem CursorBehind.redelivers (h : s.CursorBehind) : s.Redelivers := by
  intro maxWaitSeconds symbols now rs hread r hr hrs hacc disk stream
  obtain ⟨-, -, hsymbols, -⟩ := stream.tailFollowPoll_any now
  obtain ⟨hrecords, -⟩ := @JournalTickStream.tailFollowPoll_readable _ stream rs
    (.new maxWaitSeconds hread) rfl rfl rfl now
  obtain ⟨hitems, -⟩ := iterate_records (stream.tailFollowPoll now)
  refine ⟨(stream.tailFollowPoll now).records.length, ?_⟩
  rw [hitems, hrecords, hsymbols]
  have hnext : stream.nextSeq = s.saved + 1 := rfl
  rw [hnext]
  exact List.mem_append_right _ (List.mem_filter.mpr ⟨mem_since.mpr ⟨hrs, h.1 r hr⟩, hacc⟩)

/-- **The saved cursor stays behind what is not processed, and a restart delivers it again, exactly
in the runs that are in order.** -/
theorem cursor_behind_iff (maxWaitSeconds : Rat) (journal : TickJournal cfg) (disk : Disk)
    (symbols : List Str) (ops : List (DeliveryOp cfg)) :
    Run.Always step (fun s => s.CursorBehind ∧ s.Redelivers)
        (start maxWaitSeconds journal disk symbols) ops ↔
      Run.Each step InOrder (start maxWaitSeconds journal disk symbols) ops := by
  have hstart : (start maxWaitSeconds journal disk symbols).CursorBehind := ⟨nofun, nofun⟩
  refine Run.always_iff_each (fun s op hinv _ _ => inv_step s op hinv) (fun s op hinv h => ?_)
    (inv_start maxWaitSeconds journal disk symbols) ⟨hstart, hstart.redelivers⟩ ops
  rw [← behind_step s op hinv h.1]
  exact ⟨And.left, fun hb => ⟨hb, hb.redelivers⟩⟩

/-- A subscribed record and a rejected one in one poll, before the consumer runs. -/
def mixedBatchRun : List (DeliveryOp .default) :=
  [.change (.new .empty) (some (recordBytes Runtime.readme (1, readmeTick ['B'] ['1']) ++
      recordBytes Runtime.readme (2, readmeTick ['E'] ['2']))) none,
    .startStreaming, .poll 0, .record false, .record false]

/-- **The rejected record 2 saves the cursor past record 1, which is in the queue.** -/
theorem rejected_record_passes :
    ¬Run.Always step (fun s => s.CursorBehind ∧ s.Redelivers)
      (start 2 (.new .empty) .empty [['B']]) mixedBatchRun := by
  intro h
  have hlost : ¬∀ r ∈ (Run.exec step (start 2 (.new .empty) .empty [['B']])
        mixedBatchRun).unprocessed,
      (Run.exec step (start 2 (.new .empty) .empty [['B']]) mixedBatchRun).saved < r.1 := by
    decide +kernel
  exact hlost h.last.1.1

end Delivery

end Leviathan
