import Leviathan.Journal.LineRest
import Leviathan.Journal.ReaderLemmas

/-!
# A reader at any offset of a file of records

A reader trusts the offset that it marked as a line start, also when the file was rewritten under
it. `readNewRecords_inside`: from any offset inside the file it returns the records that start from
there on, and the rest of a line before them is no record.
-/

namespace Leviathan

open Py

variable {cfg : Config} {rt : Runtime}

/-! ## The rest of a line -/

theorem recordBytes_drop {r : Rec rt} {o : Nat} (h : o < (recordBytes rt r).length) :
    (recordBytes rt r).drop o = encodeUtf8 ((recordText r.1 r.2.fields).drop o ++ ['\n']) := by
  have hp := printable_recordText r.1 r.2.fields
  have hlen : (recordBytes rt r).length = (recordText r.1 r.2.fields).length + 1 := by
    rw [recordBytes_eq, List.length_append, length_encodeUtf8 hp.ascii]
    rfl
  have hdrop : Ascii ((recordText r.1 r.2.fields).drop o) := fun c hc =>
    hp.ascii c (List.mem_of_mem_drop hc)
  rw [recordBytes_eq, List.drop_append_of_le_length (by rw [length_encodeUtf8 hp.ascii]; omega),
    encodeUtf8_append, encodeUtf8_ascii hp.ascii, encodeUtf8_ascii hdrop, List.map_drop]
  rfl

/-- A line that the reader passes without a record: it is complete, and the parser finds nothing on
it or something invalid. -/
structure Skipped (rt : Runtime) (line : TextLine) : Prop where
  newline : endsWithNewline line.text = true
  parsed : ∃ parsed, parseJournalRecordLine rt line.text = .ok parsed ∧
    ∀ n t, parsed ≠ some (.record n t)

/-- The record on whose line an offset is; the end of a line belongs to it, and 0 to none. -/
theorem exists_record_at {rs : List (Rec rt)} {o : Nat} (h₀ : 0 < o)
    (h : o ≤ (journalBytes rs).length) :
    ∃ A r B i, rs = A ++ r :: B ∧ o = (journalBytes A).length + i ∧ 0 < i ∧
      i ≤ (recordBytes rt r).length := by
  have hflat : o ≤ (rs.map (recordBytes rt)).flatten.length := h
  obtain ⟨A', l, B', hls, hA, hl⟩ := exists_line_at h₀ hflat
  obtain ⟨A, B₁, rfl, rfl, hB⟩ := List.map_eq_append_iff.mp hls
  obtain ⟨r, B, rfl, rfl, rfl⟩ := List.map_eq_cons_iff.mp hB
  have hA : (journalBytes A).length < o := hA
  have hl : o ≤ (journalBytes A).length + (recordBytes rt r).length := hl
  exact ⟨A, r, B, o - (journalBytes A).length, rfl, by omega, by omega, by omega⟩

/-- The lines up to it begin before the offset, so none of them starts at the offset or later. -/
theorem begins_before {A C D : List (Rec rt)} {r x : Rec rt} {i : Nat} (hi : 0 < i)
    (h : A ++ [r] = C ++ x :: D) : (journalBytes C).length < (journalBytes A).length + i := by
  have hle : C.length ≤ A.length := by
    have := congrArg List.length h
    simp only [List.length_append, List.length_cons, List.length_nil] at this
    omega
  obtain ⟨E, rfl⟩ : ∃ E, A = C ++ E := by
    have hpre := List.prefix_of_prefix_length_le (List.prefix_append C (x :: D))
      (h ▸ List.prefix_append A [r]) hle
    exact ⟨_, hpre.choose_spec.symm⟩
  simp only [journalBytes_append, List.length_append]
  omega

/-- The rest of a line is passed without a record, since it is none by itself, and the lines after
it are read whole. -/
theorem textLines_inside (r : Rec rt) (B : List (Rec rt)) {i : Nat} (h₀ : 0 < i)
    (hi : i < (recordBytes rt r).length) :
    ∃ line, textLines ((recordBytes rt r).drop i ++ journalBytes B) =
        some (line :: B.map recordLine) ∧
      Skipped rt line ∧ i + line.raw.length = (recordBytes rt r).length := by
  let p := (recordText r.1 r.2.fields).drop i
  have hprint : Printable p := fun c hc =>
    printable_recordText _ _ c (List.mem_of_mem_drop hc)
  have hne : p ≠ recordText r.1 r.2.fields := by
    intro he
    have := congrArg List.length he
    have := List.length_pos_iff.mpr (recordText_ne_nil r.1 r.2.fields)
    simp only [p, List.length_drop] at *
    omega
  refine ⟨⟨encodeUtf8 (p ++ ['\n']), p ++ ['\n']⟩, ?_, ?_, ?_⟩
  · have hB := textLines_journalBytes B []
    rw [List.append_nil] at hB
    unfold textLines at hB ⊢
    rw [recordBytes_drop hi, universalLines_framed (framed_printable hprint), List.mapM_cons,
      (decodeLine_printable hprint).1, hB]
    simp [universalLines]
  · exact ⟨by simp [endsWithNewline], parse_lineRest (List.drop_suffix _ _) hne⟩
  · rw [← recordBytes_drop hi, List.length_drop]
    omega

/-- The lines that a text handle reads from an offset on: the rest of a line, if the offset is
inside one, and the lines of the records after it. -/
theorem textLines_drop {rs : List (Rec rt)} {o : Nat} (h : o ≤ (journalBytes rs).length) :
    ∃ A B rest, rs = A ++ B ∧ textLines ((journalBytes rs).drop o) = some (rest ++ B.map recordLine) ∧
      (∀ line ∈ rest, Skipped rt line) ∧
      o + (rest.map fun line => line.raw.length).sum = (journalBytes A).length ∧
      ∀ C r D, A = C ++ r :: D → (journalBytes C).length < o := by
  rcases Nat.eq_zero_or_pos o with rfl | h₀
  · refine ⟨[], rs, [], rfl, ?_, by simp, rfl, by simp⟩
    have := textLines_journalBytes rs []
    simpa [textLines, universalLines] using this
  obtain ⟨A, r, B, i, rfl, rfl, hpos, hle⟩ := exists_record_at h₀ h
  have hdrop : (journalBytes (A ++ r :: B)).drop ((journalBytes A).length + i) =
      (recordBytes rt r).drop i ++ journalBytes B := by
    rw [journalBytes_append, journalBytes_cons, List.drop_length_add_append,
      List.drop_append_of_le_length hle]
  rcases Nat.lt_or_eq_of_le hle with hi | rfl
  · -- the offset is inside the line
    obtain ⟨line, hlines, hskipped, hlen⟩ := textLines_inside r B hpos hi
    refine ⟨A ++ [r], B, [line], by simp, by rw [hdrop, hlines]; rfl, ?_, ?_,
      fun C x D => begins_before hpos⟩
    · intro l hl
      rw [List.mem_singleton.mp hl]
      exact hskipped
    · simp
      omega
  · -- the offset is the end of the line
    refine ⟨A ++ [r], B, [], by simp, ?_, by simp, by simp, fun C x D => begins_before hpos⟩
    have hB := textLines_journalBytes B []
    rw [hdrop, List.drop_length, List.nil_append]
    simpa [textLines, universalLines] using hB

/-! ## The loop -/

namespace Tail

/-- The two directories differ at most in their quarantine files, which is all that a reader writes
to. -/
structure SameFiles (disk disk' : Disk) : Prop where
  journalFile : disk'.journalFile = disk.journalFile
  metaFile : disk'.metaFile = disk.metaFile
  cursorFile : disk'.cursorFile = disk.cursorFile

/-- The reader passed `n` bytes without a record: the offset is larger, and it waits for the same
number. -/
structure Passed (tail tail' : Tail cfg) (n : Nat) : Prop where
  files : SameFiles tail.disk tail'.disk
  journal : tail'.journal = tail.journal
  nextSeq : tail'.reader.nextSeq = tail.reader.nextSeq
  readOffset : tail'.reader.readOffset = tail.reader.readOffset + n
  logicalBolOffset : tail'.reader.logicalBolOffset = some tail'.reader.readOffset

/-- The loop at a line without a record: it is skipped or quarantined, and the reader stands behind
it. -/
theorem readLines_skipped {handle : TextHandle} (htell : TellsOffsets cfg.toRuntime handle.file)
    (now : Rat) (tail : Tail cfg) {line : TextLine} (h : Skipped cfg.toRuntime line)
    (lines : List TextLine) :
    ∃ tail', tail.readLines now (handle.upTo tail.reader.readOffset) (line :: lines) =
        tail'.readLines now (handle.upTo tail'.reader.readOffset) lines ∧
      Passed tail tail' line.raw.length := by
  obtain ⟨parsed, hp, hnone⟩ := h.parsed
  have hoff : cfg.tell ((handle.upTo tail.reader.readOffset).past line) =
      tail.reader.readOffset + line.raw.length := htell _ _
  simp only [readLines, h.newline, Bool.true_eq_false, ↓reduceIte, parseCompleteLine, hp, hoff]
  let tail₁ : Tail cfg := { tail with reader := tail.reader.clearIncompleteWaitState }
  let past (tail : Tail cfg) (offset : Nat) : Tail cfg :=
    { tail with reader := tail.reader.advance offset }
  cases parsed with
  | none =>
    exact ⟨past tail₁ (tail.reader.readOffset + line.raw.length), rfl, ⟨rfl, rfl, rfl⟩, rfl, rfl,
      rfl, rfl⟩
  | some result =>
    cases result with
    | record n t => exact absurd rfl (hnone n t)
    | invalid reason text =>
      exact ⟨past (tail₁.quarantineInvalidLine text reason)
        (tail.reader.readOffset + line.raw.length), rfl, ⟨rfl, rfl, rfl⟩, rfl, rfl, rfl, rfl⟩

/-- The loop over several such lines, one after the other. -/
theorem readLines_skipped_all {handle : TextHandle}
    (htell : TellsOffsets cfg.toRuntime handle.file) (now : Rat) (tail : Tail cfg)
    {rest : List TextLine} (h : ∀ line ∈ rest, Skipped cfg.toRuntime line)
    (hbol : tail.reader.logicalBolOffset = some tail.reader.readOffset) (lines : List TextLine) :
    ∃ tail', tail.readLines now (handle.upTo tail.reader.readOffset) (rest ++ lines) =
        tail'.readLines now (handle.upTo tail'.reader.readOffset) lines ∧
      Passed tail tail' (rest.map fun line => line.raw.length).sum := by
  induction rest generalizing tail with
  | nil => exact ⟨tail, rfl, ⟨rfl, rfl, rfl⟩, rfl, rfl, rfl, hbol⟩
  | cons line rest ih =>
    obtain ⟨tail₁, h₁, hp₁⟩ := readLines_skipped htell now tail (h line (by simp)) (rest ++ lines)
    obtain ⟨tail₂, h₂, hp₂⟩ :=
      ih tail₁ (fun l hl => h l (List.mem_cons_of_mem _ hl)) hp₁.logicalBolOffset
    refine ⟨tail₂, h₁.trans h₂, ⟨hp₂.files.1.trans hp₁.files.1, hp₂.files.2.trans hp₁.files.2,
      hp₂.files.3.trans hp₁.files.3⟩, hp₂.journal.trans hp₁.journal, hp₂.nextSeq.trans hp₁.nextSeq,
      ?_, hp₂.logicalBolOffset⟩
    rw [hp₂.readOffset, hp₁.readOffset, List.map_cons, List.sum_cons, Nat.add_assoc]

/-- What a poll from an offset inside the file leaves: `B` are the records that start from there on,
and the reader is at the end of the file. -/
structure ReadOn (tail tail' : Tail cfg) (B : List (Rec cfg.toRuntime)) (size : Nat) : Prop where
  files : SameFiles tail.disk tail'.disk
  journal : tail'.journal = tail.journal
  nextSeq : tail'.reader.nextSeq = nextAfter tail.reader.nextSeq B
  readOffset : tail'.reader.readOffset = size
  logicalBolOffset : tail'.reader.logicalBolOffset = some tail'.reader.readOffset

open JournalIncrementalReader (align_marked consume consume_logicalBolOffset consume_nextSeq
  consume_readOffset)

/-- **A read from inside the file returns the records that start there or later.** The line that the
offset points into is lost to it. -/
theorem readNewRecords_inside {tail : Tail cfg} {rs : List (Rec cfg.toRuntime)}
    (hfile : tail.disk.journalFile = some (journalBytes rs)) (hinc : Increasing rs)
    (hle : tail.reader.readOffset ≤ (journalBytes rs).length)
    (hbol : tail.reader.logicalBolOffset = some tail.reader.readOffset) (now : Rat) :
    ∃ A B tail', rs = A ++ B ∧
      tail.readNewRecords now = (tail', .ok (since tail.reader.nextSeq B)) ∧
      tail.reader.readOffset ≤ (journalBytes A).length ∧
      (∀ C r D, A = C ++ r :: D → (journalBytes C).length < tail.reader.readOffset) ∧
      ReadOn tail tail' B (journalBytes rs).length := by
  obtain ⟨A, B, rest, rfl, hlines, hrest, hsum, hstart⟩ := textLines_drop hle
  obtain ⟨reader, hplace, hmarked⟩ := readNewRecords_marked hfile hle hbol now
  let tail₁ : Tail cfg := { tail with reader }
  have hbol₁ : tail₁.reader.logicalBolOffset = some tail₁.reader.readOffset := by
    show reader.logicalBolOffset = some reader.readOffset
    rw [hplace.logicalBolOffset, hplace.readOffset, hbol]
  have htell : TellsOffsets cfg.toRuntime (journalBytes (A ++ B)) := tellsOffsets_records _
  obtain ⟨tail₂, hskip, hp₂⟩ := @readLines_skipped_all cfg
    (.seek (journalBytes (A ++ B)) tail.reader.readOffset) htell now tail₁ rest hrest hbol₁
    (B.map recordLine)
  have hoff : tail₂.reader.readOffset = (journalBytes A).length := by
    rw [hp₂.readOffset]
    exact (congrArg (· + _) hplace.readOffset).trans hsum
  have hnext : tail₂.reader.nextSeq = tail.reader.nextSeq := hp₂.nextSeq.trans hplace.nextSeq
  have hB : Increasing B := (List.pairwise_append.mp hinc).2.1
  have hrun := @readLines_records cfg (.seek (journalBytes (A ++ B)) tail.reader.readOffset) htell
    now tail₂ B []
  rw [List.append_nil, accepted_eq_since hB, hnext] at hrun
  refine ⟨A, B, { tail₂ with reader := B.foldl consume tail₂.reader }, rfl, ?_, by omega, hstart,
    hp₂.files, hp₂.journal, ?_, ?_, consume_logicalBolOffset _ _ hp₂.logicalBolOffset⟩
  · rw [hmarked, readHandle_some hlines]
    rw [show tail₁.reader.readOffset = tail.reader.readOffset from hplace.readOffset] at hskip
    refine hskip.trans (hrun.trans ?_)
    simp [readLines, Except.map]
  · obtain ⟨-, hall, hlast⟩ := consume_nextSeq tail₂.reader B
    rw [← hnext]
    exact nextAfter_eq hB hall hlast
  · rw [consume_readOffset, hoff, journalBytes_append, List.length_append]

end Tail

end Leviathan
