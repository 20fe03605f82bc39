import Leviathan.Journal.ReaderInside

/-!
# Polls of any file

What a poll does whatever the journal file holds: it changes no file but the quarantine
(`poll_sameFiles`), the records that it returns go up from its start (`poll_increasing`), and it
waits for the number after the last of them (`poll_next`).

With it, a cold replay is one poll that reaches the end of the file (`tailFrom_of_poll`).
-/

namespace Leviathan

open Py

variable {cfg : Config}

namespace Tail

theorem SameFiles.refl (disk : Disk) : SameFiles disk disk := ⟨rfl, rfl, rfl⟩

theorem SameFiles.trans {disk disk' disk'' : Disk} (h : SameFiles disk disk')
    (h' : SameFiles disk' disk'') : SameFiles disk disk'' :=
  ⟨h'.1.trans h.1, h'.2.trans h.2, h'.3.trans h.3⟩

/-! ## Resets -/

/-- Giving up an unfinished line only adds to the quarantine. -/
theorem abandon_sameFiles {tail tail' : Tail cfg}
    (h : tail.abandonIncompleteTipAtCursor = .ok tail') : SameFiles tail.disk tail'.disk := by
  unfold abandonIncompleteTipAtCursor at h
  simp only at h
  split at h
  · obtain rfl := Except.ok.inj h
    exact .refl _
  · split at h
    · split at h
      · cases h
      · obtain rfl := Except.ok.inj h
        exact .refl _
    · split at h
      · obtain rfl := Except.ok.inj h
        exact .refl _
      · obtain rfl := Except.ok.inj h
        exact ⟨rfl, rfl, rfl⟩

/-- A reset that succeeds waits for its start. One that raises in the index walk or in decoding the
file may have moved the offset. -/
theorem resetFromSeq_any (tail : Tail cfg) (startSeq : Nat) :
    SameFiles tail.disk (tail.resetFromSeq startSeq).1.disk ∧
      ((tail.resetFromSeq startSeq).2 = .ok () →
        (tail.resetFromSeq startSeq).1.reader.nextSeq = startSeq) := by
  unfold resetFromSeq
  split
  · exact ⟨.refl _, nofun⟩
  · simp only
    split
    · exact ⟨.refl _, nofun⟩
    · rename_i tail' h
      have hfiles := abandon_sameFiles h
      exact ⟨⟨hfiles.1, hfiles.2, hfiles.3⟩, fun _ => rfl⟩

theorem align_nextSeq (reader : JournalIncrementalReader) (journalFile : Option Bytes) :
    (reader.alignReadOffsetToLineBoundary journalFile).nextSeq = reader.nextSeq := by
  unfold JournalIncrementalReader.alignReadOffsetToLineBoundary
  split
  · rfl
  · split
    · rfl
    · cases journalFile with
      | none => rfl
      | some file =>
        simp only
        split <;> split <;> rfl

/-- A resync finds a new offset for the same next number. -/
theorem resync_any (tail : Tail cfg) (fileSize : Nat) :
    SameFiles tail.disk (tail.resyncIfJournalRewritten fileSize).1.disk ∧
      ((tail.resyncIfJournalRewritten fileSize).2 = .ok () →
        (tail.resyncIfJournalRewritten fileSize).1.reader.nextSeq = tail.reader.nextSeq) := by
  unfold resyncIfJournalRewritten
  simp only
  split
  · obtain ⟨hfiles, hnext⟩ := resetFromSeq_any
      { tail with journal := tail.journal.reloadSeqIndexFromDisk tail.disk } tail.reader.nextSeq
    split
    · rename_i heq
      rw [heq] at hfiles
      exact ⟨hfiles, nofun⟩
    · rename_i heq
      rw [heq] at hfiles hnext
      refine ⟨hfiles, fun _ => ?_⟩
      have hn := hnext rfl
      simp only at hn ⊢
      split <;> exact hn
  · refine ⟨.refl _, fun _ => ?_⟩
    simp only
    split
    · exact align_nextSeq _ _
    · rfl

/-! ## The loop -/

/-- What a reader that waited for `startSeq` waits for after these records: the number after the
last of them. -/
def waitAfter (startSeq : Nat) (records : List (Rec cfg.toRuntime)) : Nat :=
  (records.getLast?.map fun r => r.1 + 1).getD startSeq

/-- What the loop of a read keeps, and what it returns: the files are the same, and the records go
up from the number that the reader waited for. -/
structure ReadAny (tail : Tail cfg)
    (result : Tail cfg × Except PyError (List (Rec cfg.toRuntime))) : Prop where
  files : SameFiles tail.disk result.1.disk
  increasing : ∀ records, result.2 = .ok records → Increasing records
  fromNext : ∀ records, result.2 = .ok records → ∀ r ∈ records, tail.reader.nextSeq ≤ r.1
  nextSeq : ∀ records, result.2 = .ok records →
    result.1.reader.nextSeq = waitAfter tail.reader.nextSeq records

namespace ReadAny

variable {tail tail' : Tail cfg} {result : Tail cfg × Except PyError (List (Rec cfg.toRuntime))}

theorem nil (files : SameFiles tail.disk tail'.disk)
    (hnext : tail'.reader.nextSeq = tail.reader.nextSeq) : ReadAny tail (tail', .ok []) := by
  refine ⟨files, fun records h => ?_, fun records h => ?_, fun records h => ?_⟩
  · rw [← Except.ok.inj h]; exact .nil
  · rw [← Except.ok.inj h]; simp
  · rw [← Except.ok.inj h]; exact hnext

/-- An exception ends the read, and the records read before it are not returned. -/
theorem error {e : PyError} (h : result.2 = .error e) (files : SameFiles tail.disk result.1.disk) :
    ReadAny tail result := by
  have hne : ∀ records, result.2 ≠ .ok records := fun records hr => by
    rw [h] at hr
    cases hr
  exact ⟨files, fun records hr => absurd hr (hne records), fun records hr => absurd hr (hne records),
    fun records hr => absurd hr (hne records)⟩

/-- A step that moves no file and goes on waiting for the same record: a blank line, a quarantined
one, or a record before the start. -/
theorem of_step (h : ReadAny tail' result) (files : SameFiles tail.disk tail'.disk)
    (hnext : tail'.reader.nextSeq = tail.reader.nextSeq) : ReadAny tail result :=
  ⟨files.trans h.files, h.increasing, hnext ▸ h.fromNext, hnext ▸ h.nextSeq⟩

/-- A record that is returned, after which the reader waits for the next number. -/
theorem cons {seq : Nat} (tick : TradeTick cfg.toRuntime) (h : ReadAny tail' result)
    (files : SameFiles tail.disk tail'.disk) (hseq : tail.reader.nextSeq ≤ seq)
    (hnext : tail'.reader.nextSeq = seq + 1) :
    ReadAny tail (result.1, result.2.map ((seq, tick) :: ·)) := by
  obtain ⟨after, result⟩ := result
  cases result with
  | error e => exact .error rfl (files.trans h.files)
  | ok rest =>
    have hrest := h.fromNext rest rfl
    refine ⟨files.trans h.files, fun records hr => ?_, fun records hr r hmem => ?_,
      fun records hr => ?_⟩
    · obtain rfl := Except.ok.inj hr
      refine List.pairwise_cons.mpr ⟨fun r hmem => ?_, h.increasing rest rfl⟩
      have := hrest r hmem
      omega
    · obtain rfl := Except.ok.inj hr
      rcases List.mem_cons.mp hmem with rfl | hmem
      · exact hseq
      · have := hrest r hmem
        omega
    · obtain rfl := Except.ok.inj hr
      refine (h.nextSeq rest rfl).trans ?_
      cases rest with
      | nil => simpa [waitAfter] using hnext
      | cons r rest => simp [waitAfter, List.getLast?_eq_some_getLast]

end ReadAny

/-- What the parser of a line changes: the quarantine and the counters, and not the number that the
reader waits for. -/
theorem parseCompleteLine_any (tail : Tail cfg) (line : Str) :
    SameFiles tail.disk (tail.parseCompleteLine line).1.disk ∧
      (tail.parseCompleteLine line).1.reader.nextSeq = tail.reader.nextSeq := by
  unfold parseCompleteLine
  split <;> exact ⟨⟨rfl, rfl, rfl⟩, rfl⟩

/-- The loop over any lines, of any file: each branch of it is one of the steps above. -/
theorem readLines_any (now : Rat) (lines : List TextLine) (handle : TextHandle)
    (tail : Tail cfg) : ReadAny tail (tail.readLines now handle lines) := by
  induction lines generalizing handle tail with
  | nil => exact .nil (.refl _) rfl
  | cons line lines ih =>
    rw [readLines]
    split
    · simp only
      split
      · exact (ih _ _).of_step ⟨rfl, rfl, rfl⟩ rfl
      · exact .nil (.refl _) rfl
    · obtain ⟨hfiles, hnext⟩ := parseCompleteLine_any
        { tail with reader := tail.reader.clearIncompleteWaitState } line.text
      have hnext : _ = tail.reader.nextSeq := hnext
      split
      · rename_i heq
        rw [heq] at hfiles
        exact .error rfl ⟨hfiles.1, hfiles.2, hfiles.3⟩
      · rename_i tail₁ parsed heq
        rw [heq] at hfiles hnext
        simp only at hfiles hnext ⊢
        split
        · exact (ih _ _).of_step hfiles hnext
        · rename_i seq tick
          split
          · exact (ih _ _).of_step hfiles hnext
          · rename_i hge
            have hge : ¬seq < (tail₁.reader.nextSeq : Int) := hge
            exact (ih _ _).cons tick hfiles (by omega) rfl

theorem readHandle_any (now : Rat) (handle : TextHandle) (tail : Tail cfg) :
    ReadAny tail (tail.readHandle now handle) := by
  have hread := tail.readLines_any now handle.read.lines handle
  unfold readHandle
  split
  · rename_i heq
    rw [heq] at hread
    exact hread
  · rename_i heq
    rw [heq] at hread
    split
    · exact .error rfl hread.files
    · exact hread

/-! ## Polls -/

theorem readNewRecords_any (tail : Tail cfg) (now : Rat) :
    ReadAny tail (tail.readNewRecords now) := by
  unfold readNewRecords
  split
  · exact .nil (.refl _) rfl
  · rename_i file _
    obtain ⟨hfiles, hnext⟩ := tail.resync_any file.length
    split
    · rename_i heq
      rw [heq] at hfiles
      exact .error rfl ⟨hfiles.1, hfiles.2, hfiles.3⟩
    · rename_i tail₁ heq
      rw [heq] at hfiles hnext
      have hnext : tail₁.reader.nextSeq = tail.reader.nextSeq := hnext rfl
      exact (readHandle_any now _ _).of_step hfiles ((align_nextSeq _ _).trans hnext)

theorem poll_any (tail : Tail cfg) (now : Rat) (startSeq : Nat) :
    SameFiles tail.disk (tail.poll now startSeq).1.disk ∧
      ∀ records, (tail.poll now startSeq).2 = .ok records →
        Increasing records ∧ (∀ r ∈ records, startSeq ≤ r.1) ∧
          (tail.poll now startSeq).1.reader.nextSeq = waitAfter startSeq records := by
  unfold poll
  split
  · obtain ⟨hfiles, hnext⟩ := tail.resetFromSeq_any startSeq
    split
    · rename_i heq
      rw [heq] at hfiles
      exact ⟨hfiles, nofun⟩
    · rename_i tail₁ heq
      rw [heq] at hfiles hnext
      have hread := tail₁.readNewRecords_any now
      obtain rfl : tail₁.reader.nextSeq = startSeq := hnext rfl
      exact ⟨hfiles.trans hread.files, fun records hr => ⟨hread.increasing records hr,
        hread.fromNext records hr, hread.nextSeq records hr⟩⟩
  · rename_i heq
    have hread := tail.readNewRecords_any now
    obtain rfl := not_not.mp heq
    exact ⟨hread.files, fun records hr => ⟨hread.increasing records hr,
      hread.fromNext records hr, hread.nextSeq records hr⟩⟩

/-- **A poll changes no file but the quarantine**, whatever is in the journal. -/
theorem poll_sameFiles (tail : Tail cfg) (now : Rat) (startSeq : Nat) :
    SameFiles tail.disk (tail.poll now startSeq).1.disk :=
  (tail.poll_any now startSeq).1

variable {tail : Tail cfg} {now : Rat} {startSeq : Nat} {records : List (Rec cfg.toRuntime)}

/-- **The records that a poll returns go up from its start**, whatever numbers the lines have, since
a smaller one is dropped. -/
theorem poll_increasing (h : (tail.poll now startSeq).2 = .ok records) :
    Increasing records ∧ ∀ r ∈ records, startSeq ≤ r.1 := by
  obtain ⟨hinc, hfrom, -⟩ := (tail.poll_any now startSeq).2 records h
  exact ⟨hinc, hfrom⟩

/-- **A poll waits for the number after the last record.** -/
theorem poll_next (h : (tail.poll now startSeq).2 = .ok records) :
    (tail.poll now startSeq).1.reader.nextSeq = waitAfter startSeq records :=
  ((tail.poll_any now startSeq).2 records h).2.2

/-! ## The end of the file -/

/-- The reader has read the file to its last byte, and trusts its offset as a line start. -/
structure AtEnd (tail : Tail cfg) : Prop where
  readOffset : tail.reader.readOffset = (tail.disk.journalFile.getD []).length
  logicalBolOffset : tail.reader.logicalBolOffset = some tail.reader.readOffset

/-- A poll at the end of the file returns nothing, as there is no line to read. -/
theorem AtEnd.poll (h : tail.AtEnd) (now : Rat) :
    ∃ tail', tail.poll now tail.reader.nextSeq = (tail', .ok []) := by
  simp only [Tail.poll, ne_eq, not_true_eq_false, ↓reduceIte]
  cases hfile : tail.disk.journalFile with
  | none => exact ⟨tail, by simp only [readNewRecords, hfile]⟩
  | some file =>
    have hoff : tail.reader.readOffset = file.length := by rw [h.readOffset, hfile]; rfl
    obtain ⟨reader, -, hread⟩ :=
      readNewRecords_marked hfile (Nat.le_of_eq hoff) h.logicalBolOffset now
    have hlines : textLines (file.drop tail.reader.readOffset) = some [] := by
      rw [hoff, List.drop_length]
      rfl
    rw [readHandle_some hlines] at hread
    exact ⟨_, hread⟩

end Tail

/-- A cold replay yields what its first poll returns, when the second one returns nothing. -/
theorem tailFrom_of_polls {journal : TickJournal cfg} {disk : Disk} {clock : Nat → Rat}
    {startSeq : Nat} {tail' : Tail cfg} {records : List (Rec cfg.toRuntime)}
    (h : Tail.poll ⟨.new defaultIncompleteRecordMaxWaitSeconds, journal, disk⟩ (clock 0) startSeq =
      (tail', .ok records))
    (hend : ∀ now, ∃ tail'', tail'.poll now tail'.reader.nextSeq = (tail'', .ok []))
    {fuel : Nat} (hfuel : 2 ≤ fuel) :
    journal.tailFrom clock fuel disk startSeq = some ⟨records, none⟩ := by
  obtain ⟨fuel, rfl⟩ : ∃ n, fuel = n + 2 := ⟨fuel - 2, by omega⟩
  unfold TickJournal.tailFrom
  simp only [tailFromLoop, h]
  cases records with
  | nil => rfl
  | cons r records =>
    have hnext := Tail.poll_next (congrArg Prod.snd h)
    rw [h] at hnext
    have hlast : ((r :: records).getLast?.getD r).1 + 1 = tail'.reader.nextSeq := by
      rw [hnext, Tail.waitAfter, List.getLast?_eq_some_getLast (by simp)]
      rfl
    obtain ⟨tail'', hp⟩ := hend (clock 1)
    simp only [hlast, hp, Option.map_some, List.append_nil]

/-- **A cold replay yields what its first poll returns, when that reaches the end of the file.** -/
theorem tailFrom_of_poll {journal : TickJournal cfg} {disk : Disk} {clock : Nat → Rat}
    {startSeq : Nat} {tail' : Tail cfg} {records : List (Rec cfg.toRuntime)}
    (h : Tail.poll ⟨.new defaultIncompleteRecordMaxWaitSeconds, journal, disk⟩ (clock 0) startSeq =
      (tail', .ok records))
    (hend : tail'.AtEnd) {fuel : Nat} (hfuel : 2 ≤ fuel) :
    journal.tailFrom clock fuel disk startSeq = some ⟨records, none⟩ :=
  tailFrom_of_polls h hend.poll hfuel

end Leviathan
