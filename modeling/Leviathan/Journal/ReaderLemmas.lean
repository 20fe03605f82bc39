import Leviathan.Journal.JournalLemmas
import Leviathan.Journal.Reader
import Leviathan.Py.LineStarts

/-!
# The reader on files of records

* `TellsOffsets`: a file without a `\r`, where `tell` gives plain offsets.
* `readHandle_some`, `readHandle_none`: a read of a file that is UTF-8, and of one that is not.
* `readLines_records`: the loop over lines of records consumes them all.
* `consume_*`: the reader after it.
* `resetFromSeq_records`: a reset goes to the first wanted record.
* `poll_records`: **a poll returns the records from its start on**, from any position that is not
  past the first of them.
-/

namespace Leviathan

open Py

variable {cfg : Config}

/-! ## Handles -/

/-- `tell` gives the offset wherever a handle of the file is. It need not where a line ends in `\r`,
as the handle may then have read ahead. -/
def TellsOffsets (rt : Runtime) (file : Bytes) : Prop :=
  ∀ start position, rt.tell ⟨file, start, position⟩ = position

section Handles

variable {rt : Runtime}

theorem tellsOffsets_of_not_mem {file : Bytes} (h : CR ∉ file) : TellsOffsets rt file :=
  fun _ _ => rt.tell_offset _
    ⟨fun hcr => h (List.mem_of_getElem? hcr), fun hcr => h (List.mem_of_getElem? hcr)⟩

/-- Lines that end with their `\n` only, and the start of another one, have no `\r` in them. -/
theorem tellsOffsets_framed {ls : List Bytes} (h : ∀ l ∈ ls, Framed l) {p : Bytes}
    (hp : Unframed p) : TellsOffsets rt (ls.flatten ++ p) := by
  refine tellsOffsets_of_not_mem fun hmem => ?_
  rcases List.mem_append.mp hmem with hmem | hmem
  · obtain ⟨l, hl, hmem⟩ := List.mem_flatten.mp hmem
    obtain ⟨body, rfl, -, hbody⟩ := h l hl
    rcases List.mem_append.mp hmem with hmem | hmem
    · exact hbody hmem
    · exact absurd (List.mem_singleton.mp hmem) (by decide)
  · exact hp.2 hmem

theorem tellsOffsets_records (rs : List (Rec rt)) : TellsOffsets rt (journalBytes rs) := by
  have h := @tellsOffsets_framed rt (rs.map (recordBytes rt)) (framed_records rs) []
    ⟨List.not_mem_nil, List.not_mem_nil⟩
  rwa [List.append_nil] at h

/-- Behind a last line that has no end, `tell` gives the length of the file, whatever is in the
line. -/
theorem tell_open {handle : TextHandle} {line : TextLine}
    (hlines : textLines (handle.file.drop handle.position) = some [line])
    (hopen : endsWithNewline line.text = false) :
    rt.tell (handle.past line) = handle.position + line.raw.length := by
  have hdecode := (textLines_some hlines).2
  have hdrop : handle.file.drop handle.position = line.raw := by
    simpa using (textLines_flatten hlines).symm
  have hlast : line.raw.getLast? ≠ some CR := fun hcr => by
    rw [decodeLine_ended (.inr hcr) (hdecode line List.mem_cons_self)] at hopen
    cases hopen
  have hlength := congrArg List.length hdrop
  rw [List.length_drop] at hlength
  refine rt.tell_offset _ ⟨fun hcr => hlast ?_, fun hcr => ?_⟩
  · change handle.file[handle.position + line.raw.length - 1]? = some CR at hcr
    have hne : line.raw ≠ [] := fun hnil => by
      rw [hnil] at hdrop
      rw [hdrop] at hlines
      cases hlines
    have hpos := List.length_pos_iff.mpr hne
    rw [← hdrop, List.getLast?_eq_getElem?, List.getElem?_drop, List.length_drop, hlength, ← hcr]
    congr 1
    omega
  · change handle.file[handle.position + line.raw.length]? = some CR at hcr
    rw [List.getElem?_eq_none (by omega)] at hcr
    cases hcr

end Handles

/-! ## The loop -/

/-- The records that a scan from `next` returns: each raises what it waits for, so a number that
comes back is dropped. -/
def accepted {rt : Runtime} : Nat → List (Rec rt) → List (Rec rt)
  | _, [] => []
  | next, r :: rs => if r.1 < next then accepted next rs else r :: accepted (r.1 + 1) rs

/-- On numbers that go up, a scan returns the records from `next` on. -/
theorem accepted_eq_since {rt : Runtime} {rs : List (Rec rt)} (h : Increasing rs) (next : Nat) :
    accepted next rs = since next rs := by
  induction rs generalizing next with
  | nil => rfl
  | cons r rs ih =>
    obtain ⟨hr, hrs⟩ := List.pairwise_cons.mp h
    by_cases hlt : r.1 < next
    · simp [accepted, since, hlt, Nat.not_le.mpr hlt, ih hrs]
    · have hall : ∀ n ≤ r.1 + 1, since n rs = rs := fun n hn =>
        List.filter_eq_self.mpr fun x hx => decide_eq_true (by have := hr x hx; omega)
      rw [accepted, if_neg hlt, ih hrs, hall _ (Nat.le_refl _)]
      conv => lhs; rw [← hall next (by omega)]
      simp [since, Nat.not_lt.mp hlt]

namespace JournalIncrementalReader

/-- The reader after the line of one record, wanted or not: it stands behind the line, and has ended
its wait. -/
def consume (reader : JournalIncrementalReader) (r : Rec cfg.toRuntime) :
    JournalIncrementalReader where
  readOffset := reader.readOffset + (recordBytes cfg.toRuntime r).length
  nextSeq := if r.1 < reader.nextSeq then reader.nextSeq else r.1 + 1
  skippedInvalidLines := reader.skippedInvalidLines
  consecutiveParseFailures := 0
  lastKnownSize := reader.lastKnownSize
  incompletePolicy := reader.incompletePolicy.clear
  logicalBolOffset := some (reader.readOffset + (recordBytes cfg.toRuntime r).length)

variable (reader : JournalIncrementalReader) (rs : List (Rec cfg.toRuntime))

theorem consume_readOffset :
    (rs.foldl consume reader).readOffset = reader.readOffset + (journalBytes rs).length := by
  induction rs generalizing reader with
  | nil => rfl
  | cons r rs ih =>
    rw [List.foldl_cons, ih, journalBytes_cons, List.length_append]
    simp only [consume]
    omega

theorem consume_logicalBolOffset (h : reader.logicalBolOffset = some reader.readOffset) :
    (rs.foldl consume reader).logicalBolOffset = some (rs.foldl consume reader).readOffset := by
  induction rs generalizing reader with
  | nil => exact h
  | cons r rs ih => exact ih (reader.consume r) rfl

/-- A record's line touches neither the size that was last seen nor the counters. -/
theorem consume_frame :
    (rs.foldl consume reader).lastKnownSize = reader.lastKnownSize ∧
      (rs.foldl consume reader).skippedInvalidLines = reader.skippedInvalidLines ∧
      (rs.foldl consume reader).incompletePolicy.maxWaitSeconds =
        reader.incompletePolicy.maxWaitSeconds := by
  induction rs generalizing reader with
  | nil => exact ⟨rfl, rfl, rfl⟩
  | cons r rs ih => exact ih (reader.consume r)

/-- A complete line ends a wait, as `__read_new_records` clears the policy at each. -/
theorem consume_pending :
    (rs.foldl consume reader).incompletePolicy.pending =
      if rs = [] then reader.incompletePolicy.pending else none := by
  induction rs generalizing reader with
  | nil => rfl
  | cons r rs ih =>
    rw [List.foldl_cons, ih, if_neg (List.cons_ne_nil r rs)]
    split <;> rfl

/-- What the reader waits for is past what it read, and follows a record that it returned. -/
theorem consume_nextSeq :
    reader.nextSeq ≤ (rs.foldl consume reader).nextSeq ∧
      (∀ r ∈ rs, r.1 < (rs.foldl consume reader).nextSeq) ∧
      ((rs.foldl consume reader).nextSeq = reader.nextSeq ∨
        ∃ r ∈ rs, reader.nextSeq ≤ r.1 ∧ (rs.foldl consume reader).nextSeq = r.1 + 1) := by
  induction rs generalizing reader with
  | nil => exact ⟨Nat.le_refl _, by simp, .inl rfl⟩
  | cons r rs ih =>
    obtain ⟨h₁, h₂, h₃⟩ := ih (reader.consume r)
    simp only [List.foldl_cons]
    by_cases hlt : r.1 < reader.nextSeq
    · have hn : (reader.consume r).nextSeq = reader.nextSeq := if_pos hlt
      rw [hn] at h₁ h₃
      refine ⟨h₁, fun x hx => ?_, ?_⟩
      · rcases List.mem_cons.mp hx with rfl | hx
        · omega
        · exact h₂ x hx
      · rcases h₃ with h₃ | ⟨x, hx, h₃⟩
        · exact .inl h₃
        · exact .inr ⟨x, by simp [hx], h₃⟩
    · have hn : (reader.consume r).nextSeq = r.1 + 1 := if_neg hlt
      rw [hn] at h₁ h₃
      refine ⟨by omega, fun x hx => ?_, ?_⟩
      · rcases List.mem_cons.mp hx with rfl | hx
        · omega
        · exact h₂ x hx
      · rcases h₃ with h₃ | ⟨x, hx, hle, h₃⟩
        · exact .inr ⟨r, by simp, by omega, h₃⟩
        · exact .inr ⟨x, by simp [hx], by omega, h₃⟩

end JournalIncrementalReader

namespace Tail

open JournalIncrementalReader (consume)

/-- The reader has its offset from the handle, or it stood there already before the first line. -/
def ToldBy (handle : TextHandle) (tail : Tail cfg) : Prop :=
  tail.reader.readOffset = handle.position ∨ tail.reader.readOffset = cfg.tell handle

/-- Then it is where the handle is, or it is no offset of the file, as `tell` may give it at a `\r`.
-/
theorem ToldBy.cases {handle : TextHandle} {tail : Tail cfg} (h : tail.ToldBy handle) :
    tail.reader.readOffset = handle.position ∨ handle.file.length < tail.reader.readOffset := by
  rcases h with hoff | htell
  · exact .inl hoff
  · rw [htell]
    exact cfg.tell_cases handle

/-- A read of what is UTF-8 ends with the last line, where `readline` gives an empty text. -/
theorem readHandle_some {handle : TextHandle} {lines : List TextLine}
    (h : textLines (handle.file.drop handle.start) = some lines) (now : Rat) (tail : Tail cfg) :
    tail.readHandle now handle = readLines now handle tail lines := by
  unfold readHandle
  rw [TextHandle.read, textRead_some h]
  simp only [Bool.false_eq_true, ↓reduceIte]
  split <;> rename_i hread <;> exact hread.symm

/-- A read of what is no UTF-8 raises: in decoding it, or before that at a line that was decoded. -/
theorem readHandle_none {handle : TextHandle}
    (h : textLines (handle.file.drop handle.start) = none) (now : Rat) (tail : Tail cfg) :
    ∃ e, (tail.readHandle now handle).2 = .error e := by
  unfold readHandle
  rw [TextHandle.read, textRead_none h]
  simp only [↓reduceIte]
  split
  · exact ⟨_, rfl⟩
  · exact ⟨_, rfl⟩

/-- The loop at the line of a record: it is returned if it is wanted, and the reader goes behind it
in any case. -/
theorem readLines_record {handle : TextHandle} (htell : TellsOffsets cfg.toRuntime handle.file)
    (now : Rat) (tail : Tail cfg) (r : Rec cfg.toRuntime) (lines : List TextLine) :
    tail.readLines now (handle.upTo tail.reader.readOffset) (recordLine r :: lines) =
      let reader := tail.reader.consume r
      let after := readLines now (handle.upTo reader.readOffset) { tail with reader } lines
      (after.1, if r.1 < tail.reader.nextSeq then after.2 else after.2.map (r :: ·)) := by
  have hoff : cfg.tell ((handle.upTo tail.reader.readOffset).past (recordLine r)) =
      tail.reader.readOffset + (recordBytes cfg.toRuntime r).length := htell _ _
  rw [readLines]
  simp only [endsWithNewline_recordLine, Bool.true_eq_false, ↓reduceIte, parseCompleteLine]
  rw [show (recordLine r).text = encodeRecord r.1 r.2.fields from rfl, parse_encodeRecord]
  simp only [hoff]
  obtain ⟨⟨readOffset, nextSeq, skipped, failures, size, policy, bol⟩, journal, disk⟩ := tail
  by_cases hlt : r.1 < nextSeq
  · have hi : (r.1 : Int) < nextSeq := Int.ofNat_lt.mpr hlt
    simp only [consume, hlt, ↓reduceIte]
    exact if_pos hi
  · have hi : ¬(r.1 : Int) < nextSeq := fun h => hlt (Int.ofNat_lt.mp h)
    simp only [consume, hlt, ↓reduceIte]
    exact if_neg hi

/-- **The loop consumes the lines of records**, and goes on with the lines after them. -/
theorem readLines_records {handle : TextHandle} (htell : TellsOffsets cfg.toRuntime handle.file)
    (now : Rat) (tail : Tail cfg) (rs : List (Rec cfg.toRuntime)) (more : List TextLine) :
    tail.readLines now (handle.upTo tail.reader.readOffset) (rs.map recordLine ++ more) =
      let reader := rs.foldl consume tail.reader
      let after := readLines now (handle.upTo reader.readOffset) { tail with reader } more
      (after.1, after.2.map (accepted tail.reader.nextSeq rs ++ ·)) := by
  induction rs generalizing tail with
  | nil =>
    simp only [List.map_nil, List.nil_append, List.foldl_nil, accepted]
    cases h : tail.readLines now (handle.upTo tail.reader.readOffset) more with
    | mk after result => cases result <;> rfl
  | cons r rs ih =>
    have hrest := ih { tail with reader := tail.reader.consume r }
    rw [List.map_cons, List.cons_append, readLines_record htell]
    simp only [List.foldl_cons, accepted, hrest]
    simp only [consume]
    split
    · rfl
    · simp only [Prod.mk.injEq, true_and]
      cases (readLines now _ _ more).2 <;> rfl

end Tail

/-! ## Positions -/

/-- What a reader that waited for `startSeq` waits for after a poll: the number after the last
record, if that is a wanted one. -/
def nextAfter {rt : Runtime} (startSeq : Nat) (rs : List (Rec rt)) : Nat :=
  match (since startSeq rs).getLast? with
  | none => startSeq
  | some r => r.1 + 1

theorem nextAfter_cases {rt : Runtime} (startSeq : Nat) (rs : List (Rec rt)) :
    nextAfter startSeq rs = startSeq ∨
      ∃ r ∈ rs, startSeq ≤ r.1 ∧ nextAfter startSeq rs = r.1 + 1 := by
  unfold nextAfter
  cases hl : (since startSeq rs).getLast? with
  | none => exact .inl rfl
  | some l =>
    obtain ⟨hr, hle⟩ := mem_since.mp (List.mem_of_getLast? hl)
    exact .inr ⟨l, hr, hle, rfl⟩

/-- No record of the file is left for the next poll, since each has a smaller number than it waits
for. -/
theorem lt_nextAfter {rt : Runtime} {rs : List (Rec rt)} (hinc : Increasing rs) (startSeq : Nat) :
    ∀ r ∈ rs, r.1 < nextAfter startSeq rs := by
  intro r hr
  unfold nextAfter
  cases hl : (since startSeq rs).getLast? with
  | none =>
    rw [List.getLast?_eq_none_iff] at hl
    by_contra hge
    have := mem_since.mpr ⟨hr, Nat.not_lt.mp hge⟩
    simp [hl] at this
  | some l =>
    obtain ⟨init, hi⟩ := List.getLast?_eq_some_iff.mp hl
    have hlle := (mem_since.mp (hi ▸ List.mem_append_right init (List.mem_singleton_self l))).2
    by_cases hr' : startSeq ≤ r.1
    · have hs : Increasing (since startSeq rs) := List.Pairwise.filter _ hinc
      have hmem := mem_since.mpr ⟨hr, hr'⟩
      rw [hi] at hs hmem
      rcases List.mem_append.mp hmem with hmem | hmem
      · have := (List.pairwise_append.mp hs).2.2 r hmem l (by simp)
        simp only; omega
      · rw [List.mem_singleton.mp hmem]
        exact Nat.lt_succ_self _
    · simp only; omega

theorem nextAfter_eq {rt : Runtime} {rs : List (Rec rt)} (hinc : Increasing rs)
    {startSeq next : Nat} (hall : ∀ r ∈ rs, r.1 < next)
    (h : next = startSeq ∨ ∃ r ∈ rs, startSeq ≤ r.1 ∧ next = r.1 + 1) :
    next = nextAfter startSeq rs := by
  unfold nextAfter
  cases hl : (since startSeq rs).getLast? with
  | none =>
    rw [List.getLast?_eq_none_iff] at hl
    rcases h with h | ⟨r, hr, hle, -⟩
    · exact h
    · have := mem_since.mpr ⟨hr, hle⟩
      simp [hl] at this
  | some l =>
    obtain ⟨init, hi⟩ := List.getLast?_eq_some_iff.mp hl
    obtain ⟨hlrs, hlle⟩ := mem_since.mp (hi ▸ List.mem_append_right init (List.mem_singleton_self l))
    have hlt := hall l hlrs
    rcases h with h | ⟨r, hr, hle, h⟩
    · omega
    · have hr' := mem_since.mpr ⟨hr, hle⟩
      have hs : Increasing (since startSeq rs) := List.Pairwise.filter _ hinc
      rw [hi] at hr' hs
      rcases List.mem_append.mp hr' with hr' | hr'
      · have := (List.pairwise_append.mp hs).2.2 r hr' l (by simp)
        omega
      · rw [List.mem_singleton.mp hr'] at h
        exact h

theorem since_append {rt : Runtime} {A B : List (Rec rt)} {startSeq : Nat}
    (h : ∀ r ∈ A, r.1 < startSeq) : since startSeq (A ++ B) = since startSeq B := by
  have hA : since startSeq A = [] := List.filter_eq_nil_iff.mpr fun r hr => by simpa using h r hr
  rw [since, List.filter_append]
  exact congrArg (· ++ _) hA

theorem nextAfter_append {rt : Runtime} {A B : List (Rec rt)} {startSeq : Nat}
    (h : ∀ r ∈ A, r.1 < startSeq) : nextAfter startSeq (A ++ B) = nextAfter startSeq B := by
  rw [nextAfter, nextAfter, since_append h]

namespace JournalIncrementalReader

/-- At a line start, the alignment keeps the offset, and marks offset 0 at most. -/
theorem align_start (reader : JournalIncrementalReader) {file : Bytes}
    (hle : reader.readOffset ≤ file.length)
    (hskip : skipToLineStart file reader.readOffset = reader.readOffset) :
    reader.alignReadOffsetToLineBoundary (some file) =
      { reader with
        logicalBolOffset :=
          if reader.readOffset = 0 then some 0 else reader.logicalBolOffset } := by
  have hoff : (if reader.readOffset ≥ file.length then file.length
      else skipToLineStart file reader.readOffset) = reader.readOffset := by
    rw [hskip]
    split <;> omega
  unfold alignReadOffsetToLineBoundary
  by_cases h0 : reader.readOffset = 0
  · simp only [h0, ↓reduceIte]
  · simp only [h0, ↓reduceIte, hoff, ne_eq, not_true_eq_false, ite_self]

/-- A reader that has marked its line start is aligned, without a look at the file. -/
theorem align_marked (reader : JournalIncrementalReader)
    (hbol : reader.logicalBolOffset = some reader.readOffset) (journalFile : Option Bytes) :
    reader.alignReadOffsetToLineBoundary journalFile = reader := by
  obtain ⟨readOffset, nextSeq, skipped, failures, size, policy, bol⟩ := reader
  simp only at hbol
  unfold alignReadOffsetToLineBoundary
  simp only [hbol, ↓reduceIte, ite_eq_right_iff]
  rintro rfl
  rfl

/-- The two readers stand at the same place, with the same mark, and wait for the same record. -/
structure SamePlace (reader reader' : JournalIncrementalReader) : Prop where
  readOffset : reader'.readOffset = reader.readOffset
  nextSeq : reader'.nextSeq = reader.nextSeq
  logicalBolOffset : reader'.logicalBolOffset = reader.logicalBolOffset

/-- The reader after a reset to `startSeq` that went to `offset`: the mark is set, and the streak of
parse failures is over. -/
def resetTo (reader : JournalIncrementalReader) (startSeq offset : Nat) :
    JournalIncrementalReader :=
  { reader with
    readOffset := offset
    nextSeq := startSeq
    consecutiveParseFailures := 0
    incompletePolicy := reader.incompletePolicy.clear
    logicalBolOffset := some offset }

end JournalIncrementalReader

namespace Tail

/-- Before a complete line, there is no fragment to give up; a wait is ended all the same. -/
theorem abandon_start {tail : Tail cfg} {file : Bytes} {lines : List TextLine}
    (hfile : tail.disk.journalFile = some file)
    (hlines : textLines (file.drop tail.reader.readOffset) = some lines)
    (hfirst : ∀ line ∈ lines.head?, endsWithNewline line.text = true) :
    tail.abandonIncompleteTipAtCursor =
      .ok { tail with reader := tail.reader.clearIncompleteWaitState } := by
  have hread : (TextHandle.seek file tail.reader.readOffset).read = ⟨lines, false⟩ :=
    textRead_some hlines
  unfold abandonIncompleteTipAtCursor
  simp only [hfile, hread]
  cases lines with
  | nil => rfl
  | cons line lines => simp only [hfirst line rfl, ↓reduceIte]

/-- An incomplete line is given up: it goes to the quarantine, and the reader stands behind what
there is of it. -/
theorem abandon_open {tail : Tail cfg} {file : Bytes} {line : TextLine} {lines : List TextLine}
    (hfile : tail.disk.journalFile = some file)
    (hlines : textLines (file.drop tail.reader.readOffset) = some (line :: lines))
    (hline : endsWithNewline line.text = false) :
    tail.abandonIncompleteTipAtCursor =
      .ok (tail.skipIncompleteTrailingFragment (.seek file tail.reader.readOffset) line
        "incomplete_trailing_cold_attach".toList) := by
  have hread : (TextHandle.seek file tail.reader.readOffset).read = ⟨line :: lines, false⟩ :=
    textRead_some hlines
  unfold abandonIncompleteTipAtCursor
  simp only [hfile, hread, hline, Bool.false_eq_true, ↓reduceIte]

/-- A reset goes to the line start that the index gives, unless the reader already waits for the
same record at an offset past it, and gives up an incomplete line there. -/
theorem resetFromSeq_abandon (tail : Tail cfg) {file : Bytes} {startSeq offset : Nat}
    (hfile : tail.disk.journalFile = some file)
    (hbyte : tail.journal.byteOffsetForSeq tail.disk startSeq = .ok offset)
    (hle : offset ≤ file.length) (hskip : skipToLineStart file offset = offset)
    (hkeep : ¬(startSeq = tail.reader.nextSeq ∧ offset < tail.reader.readOffset ∧
      tail.reader.readOffset ≤ file.length)) :
    ∃ bol, ∀ tail₁ : Tail cfg, abandonIncompleteTipAtCursor { tail with
        reader := { tail.reader with readOffset := offset, logicalBolOffset := bol } } =
          .ok tail₁ →
      tail.resetFromSeq startSeq = ({ tail₁ with
        reader := { tail₁.reader.markLogicalBol with
          nextSeq := startSeq
          consecutiveParseFailures := 0 } }, .ok ()) := by
  have hchoose : tail.reader.chooseResetOffset tail.disk.journalFile startSeq offset = offset := by
    unfold JournalIncrementalReader.chooseResetOffset
    simp only [hfile, if_neg (Nat.not_lt.mpr hle)]
    split
    · rfl
    · rename_i he
      split
      · rfl
      · rename_i hlt
        rw [if_pos]
        by_contra hgt
        exact hkeep ⟨not_not.mp he, by omega, by omega⟩
  have halign := JournalIncrementalReader.align_start
    { tail.reader with readOffset := offset } hle hskip
  refine ⟨if offset = 0 then some 0 else tail.reader.logicalBolOffset, fun tail₁ habandon => ?_⟩
  unfold resetFromSeq
  simp only [hbyte, hchoose]
  rw [hfile, halign]
  simp only [habandon]

/-- **A reset goes to the line start that the index gives**, unless the reader already waits for the
same record at an offset past it. -/
theorem resetFromSeq_start (tail : Tail cfg) {file : Bytes} {startSeq offset : Nat}
    {lines : List TextLine} (hfile : tail.disk.journalFile = some file)
    (hbyte : tail.journal.byteOffsetForSeq tail.disk startSeq = .ok offset)
    (hle : offset ≤ file.length) (hskip : skipToLineStart file offset = offset)
    (hlines : textLines (file.drop offset) = some lines)
    (hfirst : ∀ line ∈ lines.head?, endsWithNewline line.text = true)
    (hkeep : ¬(startSeq = tail.reader.nextSeq ∧ offset < tail.reader.readOffset ∧
      tail.reader.readOffset ≤ file.length)) :
    tail.resetFromSeq startSeq =
      ({ tail with reader := tail.reader.resetTo startSeq offset }, .ok ()) := by
  obtain ⟨bol, hreset⟩ := resetFromSeq_abandon tail hfile hbyte hle hskip hkeep
  have habandon := @abandon_start cfg
    { tail with reader := { tail.reader with readOffset := offset, logicalBolOffset := bol } }
    file lines hfile hlines hfirst
  exact hreset _ habandon

theorem head?_recordLine (rs : List (Rec cfg.toRuntime)) :
    ∀ line ∈ (rs.map recordLine).head?, endsWithNewline line.text = true := by
  intro line hline
  obtain ⟨r, -, rfl⟩ := List.mem_map.mp (List.mem_of_mem_head? hline)
  exact endsWithNewline_recordLine r

/-- **A reset goes to the first wanted record**, unless the reader already waits for it at an offset
past it, which is then kept. -/
theorem resetFromSeq_records (tail : Tail cfg) {rs : List (Rec cfg.toRuntime)} {startSeq : Nat}
    (hfile : tail.disk.Holds rs) (hinc : Increasing rs)
    (hbyte : tail.journal.byteOffsetForSeq tail.disk startSeq = .ok (offsetOf startSeq rs))
    (hkeep : ¬(startSeq = tail.reader.nextSeq ∧ offsetOf startSeq rs < tail.reader.readOffset ∧
      tail.reader.readOffset ≤ (journalBytes rs).length)) :
    tail.resetFromSeq startSeq =
      ({ tail with reader := tail.reader.resetTo startSeq (offsetOf startSeq rs) }, .ok ()) := by
  rcases hfile with ⟨hn, rfl⟩ | hs
  · have h0 : offsetOf startSeq ([] : List (Rec cfg.toRuntime)) = 0 := rfl
    rw [h0] at hbyte ⊢
    unfold resetFromSeq JournalIncrementalReader.chooseResetOffset
    simp only [hbyte, hn, JournalIncrementalReader.alignReadOffsetToLineBoundary, ↓reduceIte,
      abandonIncompleteTipAtCursor]
    rfl
  · have hcut := before_append_since hinc startSeq
    have hskip : skipToLineStart (journalBytes rs) (offsetOf startSeq rs) = offsetOf startSeq rs := by
      have := skipToLineStart_cut (before startSeq rs) (since startSeq rs)
      rwa [hcut] at this
    have hdrop : (journalBytes rs).drop (offsetOf startSeq rs) =
        journalBytes (since startSeq rs) := by
      have : (journalBytes (before startSeq rs ++ since startSeq rs)).drop (offsetOf startSeq rs) =
          journalBytes (since startSeq rs) := by
        rw [journalBytes_append]; exact List.drop_left
      rwa [hcut] at this
    exact resetFromSeq_start tail hs hbyte (offsetOf_le startSeq rs) hskip
      (by rw [hdrop]; exact textLines_records _) (head?_recordLine _) hkeep

open JournalIncrementalReader (align_marked consume consume_logicalBolOffset consume_nextSeq
  consume_readOffset)

/-- What a poll from `startSeq` of a file of records leaves: the reader is at the end and waits for
the number after the last record. -/
structure Read (tail tail' : Tail cfg) (startSeq : Nat) (rs : List (Rec cfg.toRuntime)) : Prop where
  disk : tail'.disk = tail.disk
  journal : tail'.journal = tail.journal ∨
    tail'.journal = tail.journal.reloadSeqIndexFromDisk tail.disk
  nextSeq : tail'.reader.nextSeq = nextAfter startSeq rs
  readOffset : tail'.reader.readOffset = (journalBytes rs).length
  logicalBolOffset : tail'.reader.logicalBolOffset = some tail'.reader.readOffset

/-- A reader that stands at a line start with only records before `nextSeq` behind it, so that it
has missed none. -/
structure AtCut (tail : Tail cfg) (A B : List (Rec cfg.toRuntime)) : Prop where
  file : tail.disk.journalFile = some (journalBytes (A ++ B))
  readOffset : tail.reader.readOffset = (journalBytes A).length
  logicalBolOffset : tail.reader.logicalBolOffset = some tail.reader.readOffset
  behind : ∀ r ∈ A, r.1 < tail.reader.nextSeq

/-- The loop from a line start to the end of the file returns all that is wanted of the file. -/
theorem readLines_cut {tail : Tail cfg} {A B : List (Rec cfg.toRuntime)} (h : tail.AtCut A B)
    (hinc : Increasing (A ++ B)) (now : Rat) :
    ∃ tail', tail.readLines now (.seek (journalBytes (A ++ B)) tail.reader.readOffset)
          (B.map recordLine) = (tail', .ok (since tail.reader.nextSeq (A ++ B))) ∧
      Read tail tail' tail.reader.nextSeq (A ++ B) := by
  have hB : Increasing B := (List.pairwise_append.mp hinc).2.1
  have hrun := @readLines_records cfg (.seek (journalBytes (A ++ B)) tail.reader.readOffset)
    (tellsOffsets_records _) now tail B []
  rw [List.append_nil] at hrun
  refine ⟨{ tail with reader := B.foldl consume tail.reader }, hrun.trans ?_, rfl, .inl rfl, ?_, ?_,
    consume_logicalBolOffset _ _ h.logicalBolOffset⟩
  · simp only [readLines, accepted_eq_since hB, since_append h.behind, Except.map,
      List.append_nil]
  · obtain ⟨-, hall, hlast⟩ := consume_nextSeq tail.reader B
    rw [nextAfter_append h.behind]
    exact nextAfter_eq hB hall hlast
  · rw [consume_readOffset, h.readOffset, journalBytes_append,
      List.length_append]

/-- At a marked line start, the resynchronisation only notes the size, also in a file that has
shrunk. -/
theorem resync_marked {tail : Tail cfg} {fileSize : Nat} (hle : tail.reader.readOffset ≤ fileSize)
    (hbol : tail.reader.logicalBolOffset = some tail.reader.readOffset) :
    ∃ reader, tail.resyncIfJournalRewritten fileSize = ({ tail with reader }, .ok ()) ∧
      tail.reader.SamePlace reader := by
  have halign := align_marked tail.reader.clearIncompleteWaitState hbol tail.disk.journalFile
  unfold resyncIfJournalRewritten
  simp only [if_neg (Nat.not_lt.mpr hle), halign]
  split <;> exact ⟨_, rfl, rfl, rfl, rfl⟩

/-- A read after the resynchronisation: the alignment finds the mark, so the handle is opened at
that offset. -/
theorem readNewRecords_resynced {tail tail₁ : Tail cfg} {file : Bytes}
    (hfile : tail.disk.journalFile = some file)
    (hre : tail.resyncIfJournalRewritten file.length = (tail₁, .ok ()))
    (hbol : tail₁.reader.logicalBolOffset = some tail₁.reader.readOffset) (now : Rat) :
    tail.readNewRecords now = tail₁.readHandle now (.seek file tail₁.reader.readOffset) := by
  have halign := align_marked tail₁.reader hbol (some file)
  unfold readNewRecords
  simp only [hfile, hre, halign]

/-- **A reader that has marked its line start reads the lines from there on.** -/
theorem readNewRecords_marked {tail : Tail cfg} {file : Bytes}
    (hfile : tail.disk.journalFile = some file) (hle : tail.reader.readOffset ≤ file.length)
    (hbol : tail.reader.logicalBolOffset = some tail.reader.readOffset) (now : Rat) :
    ∃ reader, tail.reader.SamePlace reader ∧ tail.readNewRecords now =
      readHandle { tail with reader } now (.seek file tail.reader.readOffset) := by
  obtain ⟨reader, hre, hplace⟩ := resync_marked hle hbol
  have hread := readNewRecords_resynced hfile hre
    (by rw [hplace.logicalBolOffset, hplace.readOffset, hbol]) now
  rw [hplace.readOffset] at hread
  exact ⟨reader, hplace, hread⟩

theorem readNewRecords_cut {tail : Tail cfg} {A B : List (Rec cfg.toRuntime)} (h : tail.AtCut A B)
    (hinc : Increasing (A ++ B)) (now : Rat) :
    ∃ tail', tail.readNewRecords now = (tail', .ok (since tail.reader.nextSeq (A ++ B))) ∧
      Read tail tail' tail.reader.nextSeq (A ++ B) := by
  have hle : tail.reader.readOffset ≤ (journalBytes (A ++ B)).length := by
    rw [h.readOffset, journalBytes_append, List.length_append]; omega
  have hdrop : (journalBytes (A ++ B)).drop tail.reader.readOffset = journalBytes B := by
    rw [h.readOffset, journalBytes_append, List.drop_left]
  obtain ⟨reader, hplace, hmarked⟩ := readNewRecords_marked h.file hle h.logicalBolOffset now
  rw [readHandle_some (by rw [← textLines_records, ← hdrop]; rfl)] at hmarked
  have hcut : AtCut { tail with reader } A B :=
    ⟨h.file, hplace.readOffset.trans h.readOffset, by
      rw [hplace.logicalBolOffset, hplace.readOffset, h.logicalBolOffset], by
      rw [hplace.nextSeq]; exact h.behind⟩
  obtain ⟨tail', hrun, hread⟩ := readLines_cut hcut hinc now
  rw [hplace.nextSeq] at hrun hread
  rw [hplace.readOffset] at hrun
  exact ⟨tail', hmarked.trans hrun, hread.disk, hread.journal, hread.nextSeq, hread.readOffset,
    hread.logicalBolOffset⟩

/-- A reader past the end of the file goes back to the first wanted record, by the index that it
loads from the meta file. -/
theorem readNewRecords_past {tail : Tail cfg} {rs : List (Rec cfg.toRuntime)}
    (hfile : tail.disk.journalFile = some (journalBytes rs)) (hinc : Increasing rs)
    (hpast : (journalBytes rs).length < tail.reader.readOffset)
    (hbyte : (tail.journal.reloadSeqIndexFromDisk tail.disk).byteOffsetForSeq tail.disk
      tail.reader.nextSeq = .ok (offsetOf tail.reader.nextSeq rs)) (now : Rat) :
    ∃ tail', tail.readNewRecords now = (tail', .ok (since tail.reader.nextSeq rs)) ∧
      Read tail tail' tail.reader.nextSeq rs := by
  have hreset := resetFromSeq_records { tail with
    journal := tail.journal.reloadSeqIndexFromDisk tail.disk } (.inr hfile) hinc hbyte
    fun h => absurd h.2.2 (Nat.not_le.mpr hpast)
  have hle := offsetOf_le tail.reader.nextSeq rs
  have hcut := before_append_since hinc tail.reader.nextSeq
  -- the position after the reset
  let tail₁ : Tail cfg := ⟨{ tail.reader.resetTo tail.reader.nextSeq
    (offsetOf tail.reader.nextSeq rs) with lastKnownSize := some (journalBytes rs).length },
    tail.journal.reloadSeqIndexFromDisk tail.disk, tail.disk⟩
  have hre : tail.resyncIfJournalRewritten (journalBytes rs).length = (tail₁, .ok ()) := by
    unfold resyncIfJournalRewritten
    have hin : ¬(tail.reader.resetTo tail.reader.nextSeq
        (offsetOf tail.reader.nextSeq rs)).readOffset > (journalBytes rs).length :=
      Nat.not_lt.mpr hle
    simp only [if_pos hpast, hreset, if_neg hin]
    rfl
  have hat : tail₁.AtCut (before tail.reader.nextSeq rs) (since tail.reader.nextSeq rs) :=
    ⟨by rw [hcut]; exact hfile, rfl, rfl, fun r hr => mem_before hr⟩
  have hn : tail₁.reader.nextSeq = tail.reader.nextSeq := rfl
  obtain ⟨tail₂, hrun, hread⟩ := readLines_cut hat (by rw [hcut]; exact hinc) now
  rw [hcut, hn] at hrun hread
  refine ⟨tail₂, ?_, hread.disk, .inr ?_, hread.nextSeq, hread.readOffset,
    hread.logicalBolOffset⟩
  · have hdrop : (journalBytes rs).drop tail₁.reader.readOffset =
        journalBytes (since tail.reader.nextSeq rs) := by
      conv => lhs; rw [← hcut]
      rw [hat.readOffset, journalBytes_append, List.drop_left]
    have hlines : textLines ((journalBytes rs).drop tail₁.reader.readOffset) =
        some ((since tail.reader.nextSeq rs).map recordLine) := by rw [hdrop, textLines_records]
    have hread := readNewRecords_resynced hfile hre hat.logicalBolOffset now
    rw [readHandle_some hlines] at hread
    exact hread.trans hrun
  · rcases hread.journal with hj | hj <;> exact hj

/-- A reader whose next poll from `startSeq` finds the first wanted record: it seeks, or it stands
there, or the file has shrunk under it. -/
def Ready (tail : Tail cfg) (startSeq : Nat) (rs : List (Rec cfg.toRuntime)) : Prop :=
  -- the poll resets the reader
  startSeq ≠ tail.reader.nextSeq ∨
  -- it stands at a line start with only records before `startSeq` behind it
  (∃ A B, rs = A ++ B ∧ tail.reader.readOffset = (journalBytes A).length ∧
    tail.reader.logicalBolOffset = some tail.reader.readOffset ∧ ∀ r ∈ A, r.1 < startSeq) ∨
  -- it sees that the file was rewritten
  tail.disk.journalFile = some (journalBytes rs) ∧ (journalBytes rs).length < tail.reader.readOffset

/-- **A poll returns the records from its start on**, whether it seeks, reads on, or has to find its
place in a file that was compacted. -/
theorem poll_records {tail : Tail cfg} {rs : List (Rec cfg.toRuntime)} {startSeq : Nat}
    (hfile : tail.disk.Holds rs) (hinc : Increasing rs)
    (hmem : tail.journal.byteOffsetForSeq tail.disk startSeq = .ok (offsetOf startSeq rs))
    (hdisk : (tail.journal.reloadSeqIndexFromDisk tail.disk).byteOffsetForSeq tail.disk startSeq =
      .ok (offsetOf startSeq rs))
    (hready : tail.Ready startSeq rs) (now : Rat) :
    ∃ tail', tail.poll now startSeq = (tail', .ok (since startSeq rs)) ∧
      Read tail tail' startSeq rs := by
  by_cases hstart : startSeq = tail.reader.nextSeq
  · subst hstart
    simp only [poll, ne_eq, not_true_eq_false, ↓reduceIte]
    rcases hready with h | ⟨A, B, rfl, hR, hbol, hA⟩ | ⟨hs, hpast⟩
    · exact absurd rfl h
    · rcases hfile with ⟨hn, hrs⟩ | hs
      · obtain ⟨rfl, rfl⟩ := List.append_eq_nil_iff.mp hrs
        exact ⟨tail, by simp [readNewRecords, hn, since], rfl, .inl rfl, rfl, hR, hbol⟩
      · exact readNewRecords_cut ⟨hs, hR, hbol, hA⟩ hinc now
    · exact readNewRecords_past hs hinc hpast hdisk now
  · have hreset := resetFromSeq_records tail hfile hinc hmem fun h => hstart h.1
    simp only [poll, ne_eq, hstart, not_false_eq_true, ↓reduceIte, hreset]
    rcases hfile with ⟨hn, rfl⟩ | hs
    · refine ⟨{ tail with reader := tail.reader.resetTo startSeq 0 }, ?_, rfl, .inl rfl, rfl, rfl,
        rfl⟩
      simp only [readNewRecords, hn]
      rfl
    · have hcut := before_append_since hinc startSeq
      let tail₁ : Tail cfg :=
        { tail with reader := tail.reader.resetTo startSeq (offsetOf startSeq rs) }
      have hat : tail₁.AtCut (before startSeq rs) (since startSeq rs) :=
        ⟨by rw [hcut]; exact hs, rfl, rfl, fun r hr => mem_before hr⟩
      obtain ⟨tail₂, hrun, hread⟩ := readNewRecords_cut hat (by rw [hcut]; exact hinc) now
      rw [hcut] at hrun hread
      exact ⟨tail₂, hrun, hread.disk, hread.journal, hread.nextSeq, hread.readOffset,
        hread.logicalBolOffset⟩

end Tail

end Leviathan
