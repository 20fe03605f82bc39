import Leviathan.Journal.Instance
import Leviathan.Journal.PollOrder
import Leviathan.Journal.Stream

/-!
# What the operations of a stream do

* `tailFollowPoll_any`, `tailFollowRecord_passed`: the loop, on any file.
* `Disk.Readable`: a directory of records with a right index; `tailFollowPoll_readable`: **a poll of
  it gives the loop the records from `nextSeq` on**.
* `iterate_records`: the loop to the end of its records.
-/

namespace Leviathan

open Py

variable {cfg : Config}

/-- A drain releases a task for each item, while there is one. -/
theorem AsyncQueue.drain_eq {α : Type} (queue : AsyncQueue α) :
    queue.drain = ⟨[], queue.unfinishedTasks - queue.items.length⟩ := by
  have hfold : ∀ (items : List α) (n : Nat),
      items.foldl (fun queue _ => queue.taskDoneIfAny) ⟨[], n⟩ =
        (⟨[], n - items.length⟩ : AsyncQueue α) := by
    intro items
    induction items with
    | nil => intro n; rfl
    | cons item items ih =>
      intro n
      have hdone : (⟨[], n⟩ : AsyncQueue α).taskDoneIfAny = ⟨[], n - 1⟩ := by
        unfold AsyncQueue.taskDoneIfAny AsyncQueue.taskDone
        by_cases hn : n = 0 <;> simp [hn]
      rw [List.foldl_cons, hdone, ih, List.length_cons, Nat.sub_sub, Nat.add_comm]
  exact hfold queue.items _

theorem AsyncQueue.drain_items {α : Type} (queue : AsyncQueue α) : queue.drain.items = [] := by
  rw [queue.drain_eq]

namespace JournalTickStream

variable {stream : JournalTickStream cfg}

/-! ## Any file -/

/-- What the consumer and the cursor see is the same: the queue, the pending tick and the cursor on
both sides. -/
structure SameDelivery (stream stream' : JournalTickStream cfg) : Prop where
  queue : stream'.queue = stream.queue
  cursor : stream'.cursor = stream.cursor
  nextSeq : stream'.nextSeq = stream.nextSeq
  pendingSeq : stream'.pendingSeq = stream.pendingSeq
  cursorFile : stream'.tail.disk.cursorFile = stream.tail.disk.cursorFile

theorem SameDelivery.refl (stream : JournalTickStream cfg) : SameDelivery stream stream :=
  ⟨rfl, rfl, rfl, rfl, rfl⟩

theorem startStreaming_any (stream : JournalTickStream cfg) :
    SameDelivery stream stream.startStreaming ∧
      (stream.startStreaming.records = stream.records ∨ stream.startStreaming.records = []) := by
  unfold startStreaming
  split
  · exact ⟨.refl stream, .inl rfl⟩
  · exact ⟨⟨rfl, rfl, rfl, rfl, rfl⟩, .inr rfl⟩

theorem subscribeSymbol_any (stream : JournalTickStream cfg) (symbol : Str) :
    SameDelivery stream (stream.subscribeSymbol symbol).1 ∧
      (stream.subscribeSymbol symbol).1.records = stream.records := by
  unfold subscribeSymbol
  split
  · exact ⟨.refl stream, rfl⟩
  · split <;> exact ⟨⟨rfl, rfl, rfl, rfl, rfl⟩, rfl⟩

theorem unsubscribeSymbol_any (stream : JournalTickStream cfg) (symbol : Str) :
    SameDelivery stream (stream.unsubscribeSymbol symbol).1 ∧
      (stream.unsubscribeSymbol symbol).1.records = stream.records := by
  unfold unsubscribeSymbol
  split <;> exact ⟨⟨rfl, rfl, rfl, rfl, rfl⟩, rfl⟩

/-- An exception drops the rest of the records, which a later poll reads again from `next_seq`. -/
theorem tailFollowError_any (stream : JournalTickStream cfg) :
    SameDelivery stream stream.tailFollowError ∧ stream.tailFollowError.records = [] ∧
      stream.tailFollowError.tail = stream.tail ∧
      stream.tailFollowError.symbols = stream.symbols := by
  unfold tailFollowError
  simp only
  split <;> exact ⟨⟨rfl, rfl, rfl, rfl, rfl⟩, rfl, rfl, rfl⟩

/-- The records after a poll go up from `nextSeq`, and no file but the quarantine has changed. -/
theorem tailFollowPoll_any (stream : JournalTickStream cfg) (now : Rat) :
    SameDelivery stream (stream.tailFollowPoll now) ∧
      Tail.SameFiles stream.tail.disk (stream.tailFollowPoll now).tail.disk ∧
      (stream.tailFollowPoll now).symbols = stream.symbols ∧
      ((stream.tailFollowPoll now).records = stream.records ∨
        Increasing (stream.tailFollowPoll now).records ∧
          ∀ r ∈ (stream.tailFollowPoll now).records, stream.nextSeq ≤ r.1) := by
  have hnil : ∀ stream' : JournalTickStream cfg, stream'.records = [] →
      Increasing stream'.records ∧ ∀ r ∈ stream'.records, stream.nextSeq ≤ r.1 := by
    intro stream' h
    rw [h]
    exact ⟨.nil, by simp⟩
  unfold tailFollowPoll
  split
  · exact ⟨.refl stream, .refl _, rfl, .inl rfl⟩
  · split
    · exact ⟨⟨rfl, rfl, rfl, rfl, rfl⟩, .refl _, rfl, .inr (hnil _ rfl)⟩
    · have hfiles := stream.tail.poll_sameFiles now stream.nextSeq
      split
      · rename_i tail e heq
        rw [heq] at hfiles
        obtain ⟨hsame, hrecords, htail, hsymbols⟩ := tailFollowError_any { stream with tail }
        exact ⟨⟨hsame.queue, hsame.cursor, hsame.nextSeq, hsame.pendingSeq,
          hsame.cursorFile.trans hfiles.cursorFile⟩, htail ▸ hfiles, hsymbols,
          .inr (hnil _ hrecords)⟩
      · rename_i tail heq
        rw [heq] at hfiles
        exact ⟨⟨rfl, rfl, rfl, rfl, hfiles.cursorFile⟩, hfiles, rfl, .inl rfl⟩
      · rename_i tail record records heq
        have hup := Tail.poll_increasing (congrArg Prod.snd heq)
        rw [heq] at hfiles
        exact ⟨⟨rfl, rfl, rfl, rfl, hfiles.cursorFile⟩, hfiles, rfl, .inr hup⟩

/-- The filter of the stream, on a record: no symbols, or the tick's among them. -/
def accepts (symbols : List Str) (r : Rec cfg.toRuntime) : Bool :=
  isTickForActiveSubscription symbols r.2

/-- What the loop does with the record `r`: `next_seq` is behind it, and it is in the queue or the
cursor is not before it. -/
structure Passed (stream stream' : JournalTickStream cfg) (r : Rec cfg.toRuntime) : Prop where
  symbols : stream'.symbols = stream.symbols
  items : stream'.queue.items = stream.queue.items ++ [r].filter (accepts stream.symbols)
  tasks : stream'.queue.unfinishedTasks = stream.queue.unfinishedTasks +
    ([r].filter (accepts stream.symbols)).length
  nextSeq : stream'.nextSeq = r.1 + 1
  pendingSeq : stream'.pendingSeq = stream.pendingSeq
  reader : stream'.tail.reader = stream.tail.reader
  journal : stream'.tail.journal = stream.tail.journal
  journalFile : stream'.tail.disk.journalFile = stream.tail.disk.journalFile
  metaFile : stream'.tail.disk.metaFile = stream.tail.disk.metaFile
  /-- only a rejected record moves the cursor -/
  cursor : stream'.cursor =
    if accepts stream.symbols r ∨ r.1 ≤ stream.cursor then stream.cursor else r.1
  saved : TickJournal.loadCursor stream'.tail.disk =
    if accepts stream.symbols r ∨ r.1 ≤ stream.cursor then
      TickJournal.loadCursor stream.tail.disk else r.1

/-- Also where an observer raises, the record it was told of is in the queue already; what is lost
to this batch are the records after it. -/
theorem tailFollowRecord_passed {r : Rec cfg.toRuntime} {records : List (Rec cfg.toRuntime)}
    (h : stream.records = r :: records) (raised : Bool) :
    Passed stream (stream.tailFollowRecord raised) r ∧
      ((stream.tailFollowRecord raised).records = records ∧
          (stream.tailFollowRecord raised).streaming = stream.streaming ∨
        raised = true ∧ (stream.tailFollowRecord raised).records = []) := by
  unfold tailFollowRecord
  simp only [h]
  by_cases hput : accepts stream.symbols r = true
  · have hput' : isTickForActiveSubscription stream.symbols r.2 = true := hput
    simp only [hput', Bool.true_eq_false, ↓reduceIte]
    cases raised with
    | false => exact ⟨⟨rfl, by simp [hput, AsyncQueue.put], by simp [hput, AsyncQueue.put], rfl, rfl,
        rfl, rfl, rfl, rfl, by simp [hput], by simp [hput]⟩, .inl ⟨rfl, rfl⟩⟩
    | true =>
      obtain ⟨hsame, hrecords, htail, hsymbols⟩ := tailFollowError_any
        { stream with records, nextSeq := r.1 + 1, queue := stream.queue.put r }
      refine ⟨⟨hsymbols, ?_, ?_, hsame.nextSeq, hsame.pendingSeq, ?_, ?_, ?_, ?_, ?_,
        ?_⟩, .inr ⟨rfl, hrecords⟩⟩
      · rw [List.filter_cons_of_pos hput]
        exact congrArg AsyncQueue.items hsame.queue
      · rw [List.filter_cons_of_pos hput]
        exact congrArg AsyncQueue.unfinishedTasks hsame.queue
      all_goals simp [htail, hsame.cursor, hput]
  · have hput : accepts stream.symbols r = false := Bool.eq_false_iff.mpr hput
    have hput' : isTickForActiveSubscription stream.symbols r.2 = false := hput
    simp only [hput', ↓reduceIte, persistCursorThrough]
    by_cases hgt : r.1 > stream.cursor
    · simp only [hgt, ↓reduceIte]
      exact ⟨⟨rfl, by simp [hput, saveCursor], by simp [hput, saveCursor], rfl, rfl, rfl, rfl, rfl,
        rfl, by simp [hput, hgt, saveCursor],
        by simp [hput, hgt, saveCursor, TickJournal.loadCursor, TickJournal.saveCursor]⟩,
        .inl ⟨rfl, rfl⟩⟩
    · rw [if_neg hgt]
      exact ⟨⟨rfl, by simp [hput], by simp [hput], rfl, rfl, rfl, rfl, rfl, rfl,
        by simp [hput, Nat.not_lt.mp hgt], by simp [hput, Nat.not_lt.mp hgt]⟩, .inl ⟨rfl, rfl⟩⟩

/-- The reported tick moves the cursor, if it is ahead, and releases its task. -/
theorem markTickAsProcessed_pending {seq : Nat} (h : stream.pendingSeq = some seq)
    (htasks : 0 < stream.queue.unfinishedTasks) :
    stream.markTickAsProcessed =
      ({ stream.persistCursorThrough seq with
        queue := { stream.queue with unfinishedTasks := stream.queue.unfinishedTasks - 1 }
        pendingSeq := none
        pendingInvalidatedByCursor := false }, .ok ()) := by
  have hqueue : (stream.persistCursorThrough seq).queue = stream.queue := by
    unfold persistCursorThrough
    split <;> rfl
  unfold markTickAsProcessed
  simp only [h, hqueue, AsyncQueue.taskDone, Nat.ne_of_gt htasks, ↓reduceIte]

/-- The cursor in memory and the one on disk go to the larger of the two numbers together. -/
theorem persistCursorThrough_cursor (seq : Nat)
    (h : TickJournal.loadCursor stream.tail.disk = stream.cursor) :
    (stream.persistCursorThrough seq).cursor = max stream.cursor seq ∧
      TickJournal.loadCursor (stream.persistCursorThrough seq).tail.disk =
        max stream.cursor seq ∧
      (stream.persistCursorThrough seq).nextSeq = stream.nextSeq ∧
      (stream.persistCursorThrough seq).records = stream.records := by
  unfold persistCursorThrough
  split
  · rename_i hgt
    have hmax : max stream.cursor seq = seq := Nat.max_eq_right (Nat.le_of_lt hgt)
    rw [hmax]
    exact ⟨rfl, rfl, rfl, rfl⟩
  · rename_i hle
    have hmax : max stream.cursor seq = stream.cursor := Nat.max_eq_left (Nat.not_lt.mp hle)
    rw [hmax]
    exact ⟨rfl, h, rfl, rfl⟩

end JournalTickStream

/-! ## Directories of records -/

/-- The directory holds the records `rs`, and the index in its metadata is right, so any reader of
it finds its place. -/
structure Disk.Readable (disk : Disk) (rs : List (Rec cfg.toRuntime)) : Prop where
  file : disk.Holds rs
  increasing : Increasing rs
  positive : ∀ r ∈ rs, 1 ≤ r.1
  index : Points (loadPayload disk.metaFile).seqIndex rs

theorem TickJournal.Sound.readable {journal : TickJournal cfg} {disk : Disk}
    {rs : List (Rec cfg.toRuntime)} (h : journal.Sound disk rs) : disk.Readable rs :=
  ⟨h.file, h.increasing, fun r hr => (h.numbers r hr).1, h.fileIndex⟩

theorem Disk.Readable.congr {disk disk' : Disk} {rs : List (Rec cfg.toRuntime)}
    (h : disk.Readable rs) (hj : disk'.journalFile = disk.journalFile)
    (hm : disk'.metaFile = disk.metaFile) : disk'.Readable rs :=
  ⟨h.file.congr hj, h.increasing, h.positive, hm ▸ h.index⟩

namespace Tail

/-- A reader of the records `rs`: its index is right, and behind it are only records before the one
it waits for. -/
structure Reads (tail : Tail cfg) (rs : List (Rec cfg.toRuntime)) : Prop where
  disk : tail.disk.Readable rs
  index : Points tail.journal.metaStore.seqIndex rs
  position : ∃ A B, rs = A ++ B ∧ tail.reader.readOffset = (journalBytes A).length ∧
    tail.reader.logicalBolOffset = some tail.reader.readOffset ∧ ∀ r ∈ A, r.1 < tail.reader.nextSeq

variable {tail : Tail cfg} {rs : List (Rec cfg.toRuntime)}

/-- A reader that has just been made is at the start of the file, and takes its index from the
directory. -/
theorem Reads.new (maxWaitSeconds : Rat) {disk : Disk} (h : disk.Readable rs) :
    Reads ⟨.new maxWaitSeconds, .new disk, disk⟩ rs :=
  ⟨h, h.index, [], rs, rfl, rfl, rfl, by simp⟩

/-- Records that are appended come after the reader, and its index is still right. -/
theorem Reads.grow (h : tail.Reads rs) {disk : Disk} {rs' : List (Rec cfg.toRuntime)}
    (hrs : rs <+: rs') (hdisk : disk.Readable rs') : Reads { tail with disk } rs' := by
  obtain ⟨more, rfl⟩ := hrs
  obtain ⟨A, B, rfl, hoff, hbol, hA⟩ := h.position
  exact ⟨hdisk, h.index.append more, A, B ++ more, by simp, hoff, hbol, hA⟩

theorem Reads.congr {tail' : Tail cfg} (h : tail.Reads rs) (hreader : tail'.reader = tail.reader)
    (hjournal : tail'.journal = tail.journal)
    (hj : tail'.disk.journalFile = tail.disk.journalFile)
    (hm : tail'.disk.metaFile = tail.disk.metaFile) : tail'.Reads rs :=
  ⟨h.disk.congr hj hm, hjournal ▸ h.index, hreader ▸ h.position⟩

/-- The index of such a reader leads to the first wanted record. -/
theorem Reads.byteOffsetForSeq (h : tail.Reads rs) (startSeq : Nat) :
    tail.journal.byteOffsetForSeq tail.disk startSeq = .ok (offsetOf startSeq rs) :=
  byteOffsetForSeq_of_points h.disk.file h.disk.increasing h.disk.positive h.index startSeq

/-- **A poll of a reader of records** returns those from its start on, and is again such a reader.
-/
theorem Reads.poll (h : tail.Reads rs) (now : Rat) (startSeq : Nat) :
    ∃ tail', tail.poll now startSeq = (tail', .ok (since startSeq rs)) ∧ tail'.Reads rs := by
  have hreload : (tail.journal.reloadSeqIndexFromDisk tail.disk).byteOffsetForSeq tail.disk
      startSeq = .ok (offsetOf startSeq rs) := by
    refine byteOffsetForSeq_of_points h.disk.file h.disk.increasing h.disk.positive ?_ startSeq
    exact h.disk.index
  have hready : tail.Ready startSeq rs := by
    by_cases hs : startSeq = tail.reader.nextSeq
    · exact .inr (.inl (hs ▸ h.position))
    · exact .inl hs
  obtain ⟨tail', hp, hread⟩ := poll_records h.disk.file h.disk.increasing
    (h.byteOffsetForSeq startSeq) hreload hready now
  refine ⟨tail', hp, hread.disk ▸ h.disk, ?_, rs, [], by simp, hread.readOffset,
    hread.logicalBolOffset, ?_⟩
  · rcases hread.journal with hj | hj <;> rw [hj]
    · exact h.index
    · exact h.disk.index
  · rw [hread.nextSeq]
    exact lt_nextAfter h.disk.increasing startSeq

/-- A reset of a reader of records never raises, and changes no file. -/
theorem Reads.resetFromSeq (h : tail.Reads rs) (startSeq : Nat) :
    ∃ tail', tail.resetFromSeq startSeq = (tail', .ok ()) ∧ tail'.Reads rs ∧
      SameFiles tail.disk tail'.disk := by
  have hcut := before_append_since h.disk.increasing startSeq
  have hreset := resetFromSeq_records tail h.disk.file h.disk.increasing
    (h.byteOffsetForSeq startSeq) <| by
      rintro ⟨rfl, hlt, -⟩
      -- the reader is not past what it waits for
      obtain ⟨A, B, rfl, hoff, -, hA⟩ := h.position
      have := (le_offsetOf_iff h.disk.increasing tail.reader.nextSeq).mpr hA
      omega
  refine ⟨_, hreset, ⟨h.disk, h.index, before startSeq rs, since startSeq rs, hcut.symm, rfl, rfl,
    fun r hr => mem_before hr⟩, .refl _⟩

end Tail

namespace JournalTickStream

variable {stream : JournalTickStream cfg} {rs : List (Rec cfg.toRuntime)}

/-- **A poll gives the loop the records from `nextSeq` on**, all that the file has at that moment.
-/
theorem tailFollowPoll_readable (h : stream.tail.Reads rs) (hrun : stream.streaming = true)
    (hstop : stream.stopped = false) (hnil : stream.records = []) (now : Rat) :
    (stream.tailFollowPoll now).records = since stream.nextSeq rs ∧
      (stream.tailFollowPoll now).tail.Reads rs ∧
      (stream.tailFollowPoll now).streaming = true := by
  obtain ⟨tail, hp, hreads⟩ := h.poll now stream.nextSeq
  unfold tailFollowPoll
  rw [if_neg (by simp [hrun, hnil]), if_neg (by simp [hstop]), hp]
  cases since stream.nextSeq rs with
  | nil => exact ⟨hnil, hreads, hrun⟩
  | cons r records => exact ⟨rfl, hreads, hrun⟩

/-- What `set_cursor` leaves. The records of the last poll stay, since the loop holds them in a
variable of its own. -/
structure CursorSet (stream stream' : JournalTickStream cfg) (lastProcessedSeq : Nat) : Prop where
  symbols : stream'.symbols = stream.symbols
  streaming : stream'.streaming = stream.streaming
  items : stream'.queue.items = []
  nextSeq : stream'.nextSeq = lastProcessedSeq + 1
  records : stream'.records = stream.records
  journalFile : stream'.tail.disk.journalFile = stream.tail.disk.journalFile
  metaFile : stream'.tail.disk.metaFile = stream.tail.disk.metaFile

theorem setCursor_readable (h : stream.tail.Reads rs) (lastProcessedSeq : Nat) :
    ∃ stream', stream.setCursor lastProcessedSeq = (stream', .ok ()) ∧
      CursorSet stream stream' lastProcessedSeq ∧ stream'.tail.Reads rs := by
  obtain ⟨tail, hreset, hreads, hfiles⟩ := h.resetFromSeq (lastProcessedSeq + 1)
  have hsaved : Tail.Reads { tail with
      disk := TickJournal.saveCursor tail.disk lastProcessedSeq } rs :=
    hreads.congr rfl rfl rfl rfl
  unfold setCursor
  cases hp : stream.pendingSeq.isSome with
  | false =>
    simp only [hp, Bool.false_eq_true, ↓reduceIte, hreset]
    exact ⟨_, rfl, ⟨rfl, rfl, AsyncQueue.drain_items _, rfl, rfl, hfiles.journalFile,
      hfiles.metaFile⟩, hsaved⟩
  | true =>
    simp only [hp, ↓reduceIte, hreset]
    exact ⟨_, rfl, ⟨rfl, rfl, AsyncQueue.drain_items _, rfl, rfl, hfiles.journalFile,
      hfiles.metaFile⟩, hsaved⟩

/-- The number from which the loop goes on: that of the next record it holds, or `next_seq`. -/
def readFrom (stream : JournalTickStream cfg) : Nat :=
  (stream.records.head?.map fun r => r.1).getD stream.nextSeq

theorem readFrom_nil (h : stream.records = []) : stream.readFrom = stream.nextSeq := by
  simp [readFrom, h]

theorem readFrom_cons {r : Rec cfg.toRuntime} {records : List (Rec cfg.toRuntime)}
    (h : stream.records = r :: records) : stream.readFrom = r.1 := by
  simp [readFrom, h]

/-! ## Frames -/

/-- The loop and the queue are the same, so a poll will read from the same place. -/
structure SameLoop (stream stream' : JournalTickStream cfg) : Prop where
  symbols : stream'.symbols = stream.symbols
  items : stream'.queue.items = stream.queue.items
  nextSeq : stream'.nextSeq = stream.nextSeq
  records : stream'.records = stream.records
  streaming : stream'.streaming = false → stream'.records = [] ∨ stream.streaming = false
  reader : stream'.tail.reader = stream.tail.reader
  journal : stream'.tail.journal = stream.tail.journal
  journalFile : stream'.tail.disk.journalFile = stream.tail.disk.journalFile
  metaFile : stream'.tail.disk.metaFile = stream.tail.disk.metaFile

theorem stop_sameLoop (stream : JournalTickStream cfg) : SameLoop stream stream.stop :=
  ⟨rfl, rfl, rfl, rfl, .inr, rfl, rfl, rfl, rfl⟩

theorem endStreaming_sameLoop (h : stream.records = []) : SameLoop stream stream.endStreaming :=
  ⟨rfl, rfl, rfl, h.symm, fun _ => .inl rfl, rfl, rfl, rfl, rfl⟩

theorem startStreaming_sameLoop (h : stream.streaming = false → stream.records = []) :
    SameLoop stream stream.startStreaming := by
  unfold startStreaming
  split
  · exact ⟨rfl, rfl, rfl, rfl, .inr, rfl, rfl, rfl, rfl⟩
  · rename_i hs
    exact ⟨rfl, rfl, rfl, (h (Bool.eq_false_iff.mpr hs)).symm, nofun, rfl, rfl, rfl, rfl⟩

theorem persistCursorThrough_sameLoop (stream : JournalTickStream cfg) (seq : Nat) :
    SameLoop stream (stream.persistCursorThrough seq) := by
  unfold persistCursorThrough
  split <;> exact ⟨rfl, rfl, rfl, rfl, .inr, rfl, rfl, rfl, rfl⟩

theorem markTickAsProcessed_sameLoop (stream : JournalTickStream cfg) :
    SameLoop stream stream.markTickAsProcessed.1 := by
  unfold markTickAsProcessed
  split
  · split <;> exact ⟨rfl, rfl, rfl, rfl, .inr, rfl, rfl, rfl, rfl⟩
  · rename_i seq _
    have h := stream.persistCursorThrough_sameLoop seq
    simp only
    split
    · exact h
    · rename_i queue htask
      refine ⟨h.symbols, ?_, h.nextSeq, h.records, h.streaming, h.reader, h.journal, h.journalFile,
        h.metaFile⟩
      unfold AsyncQueue.taskDone at htask
      split at htask
      · cases htask
      · rw [← Option.some.inj htask]
        exact h.items

/-! ## To the end of the records -/

/-- **At the end of its records, the loop has put the accepted ones into the queue**, in the order
of the batch. -/
theorem iterate_records (stream : JournalTickStream cfg) :
    let after := (fun stream => stream.tailFollowRecord false)^[stream.records.length] stream
    after.queue.items = stream.queue.items ++ stream.records.filter (accepts stream.symbols) ∧
      after.records = [] := by
  induction h : stream.records generalizing stream with
  | nil => exact ⟨(List.append_nil _).symm, h⟩
  | cons r records ih =>
    obtain ⟨hpassed, hrecords⟩ := tailFollowRecord_passed h false
    have hrecords := (hrecords.resolve_right fun hr => by cases hr.1).1
    obtain ⟨hitems, hnil⟩ := ih _ hrecords
    rw [List.length_cons, Function.iterate_succ_apply]
    refine ⟨?_, hnil⟩
    rw [hitems, hpassed.items, hpassed.symbols, List.append_assoc, ← List.filter_append]
    rfl

end JournalTickStream

end Leviathan
