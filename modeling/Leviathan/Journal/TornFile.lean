import Leviathan.Journal.IndexSound
import Leviathan.Journal.PollOrder
import Leviathan.Journal.TornLine

/-!
# A file with a torn line

A fragment stands between the records `rs` and the line of the next record `r`; the records `more`
come after it.

* `resolve_torn`, `resolve_torn_end`, `resolve_torn_inside`: where the index leads.
* `tailFrom_torn`: a cold replay that the index leads right yields `r` if the fragment is white
  space.
* `tailFrom_torn_invalid`, `tailFrom_torn_end`: the replays that do not yield it.
-/

namespace Leviathan

open Py

variable {cfg : Config} {rt : Runtime}

/-- The lines of the file: whole records, the line that a fragment begins, and more whole records.
-/
def tornLines (rs : List (Rec rt)) (fragment : Bytes) (r : Rec rt) (more : List (Rec rt)) :
    List Bytes :=
  rs.map (recordBytes rt) ++ tornBytes fragment r :: more.map (recordBytes rt)

/-- The bytes of the file, as a torn write, the append after it and later appends leave them. -/
def tornFile (rs : List (Rec rt)) (fragment : Bytes) (r : Rec rt) (more : List (Rec rt)) : Bytes :=
  journalBytes rs ++ (tornBytes fragment r ++ journalBytes more)

section Seek

variable {rs more : List (Rec rt)} {fragment : Bytes} {r : Rec rt}

theorem flatten_tornLines : (tornLines rs fragment r more).flatten = tornFile rs fragment r more := by
  simp [tornLines, tornFile, journalBytes]

/-- The walk reads the number of the torn line only where the fragment is white space, which `strip`
removes. -/
theorem lineSeq_torn : lineSeq rt (tornBytes fragment r) =
    if fragment.all isByteSpace = true then some (r.1 : Int) else none := by
  rw [lineSeq, resolveLine_torn]

theorem walked_torn (hf : Unframed fragment) : ∀ l ∈ tornLines rs fragment r more, Walked rt l := by
  intro l hl
  rcases List.mem_append.mp hl with hl | hl
  · exact walked_records rs l hl
  · rcases List.mem_cons.mp hl with rfl | hl
    · exact ⟨framed_tornBytes hf r, by rw [lineSeq_torn, resolveLine_torn]⟩
    · exact walked_records more l hl

/-- The lines before the first wanted record, and the others. -/
theorem tornLines_cut (hinc : Increasing rs) (startSeq : Nat) :
    tornLines rs fragment r more = (before startSeq rs).map (recordBytes rt) ++
      tornLines (since startSeq rs) fragment r more := by
  unfold tornLines
  rw [← List.append_assoc, ← List.map_append, before_append_since hinc]

/-- After ASCII white space, the walk finds `r` too. -/
theorem resolve_torn (hf : Unframed fragment) (hws : fragment.all isByteSpace = true)
    (hinc : Increasing rs) {startSeq hint : Nat} (hs : startSeq ≤ r.1)
    (hhint : hint ≤ offsetOf startSeq rs) :
    resolve rt (some (tornFile rs fragment r more)) startSeq hint = .ok (offsetOf startSeq rs) := by
  rw [← flatten_tornLines, tornLines_cut hinc startSeq]
  refine resolve_cut ?_ (passes_before startSeq rs) ?_ (.inl hhint)
  · rw [← tornLines_cut hinc]
    exact walked_torn hf
  · intro l hl
    cases hsince : since startSeq rs with
    | nil =>
      simp only [tornLines, hsince, List.map_nil, List.nil_append, List.head?_cons,
        Option.mem_some_iff] at hl
      subst hl
      simp [passes, lineSeq_torn, hws, hs]
    | cons x since =>
      refine passes_since startSeq rs l ?_
      simpa [tornLines, hsince] using hl

/-- After anything else, the walk passes `r`, since it cannot read the line. -/
theorem resolve_torn_end (hf : Unframed fragment) (hws : fragment.all isByteSpace = false)
    {startSeq : Nat} (hs : ∀ x ∈ rs, x.1 < startSeq) (hint : Nat) :
    resolve rt (some (tornFile rs fragment r [])) startSeq hint =
      .ok (tornFile rs fragment r []).length := by
  have hcut := @resolve_cut rt (tornLines rs fragment r []) [] (by simpa using walked_torn hf)
    startSeq hint
  rw [List.append_nil, flatten_tornLines] at hcut
  refine hcut (fun l hl => ?_) (by simp) (Nat.lt_or_ge _ _).symm
  rcases List.mem_append.mp hl with hl | hl
  · obtain ⟨x, hx, rfl⟩ := List.mem_map.mp hl
    simp [passes, lineSeq_recordBytes, hs x hx]
  · rw [List.mem_singleton.mp hl]
    simp [passes, lineSeq_torn, hws]

/-- An index entry for `r` points behind the fragment, and inside the line; the walk then skips the
rest of it. -/
theorem resolve_torn_inside (hf : Unframed fragment) (hne : fragment ≠ []) (startSeq : Nat) :
    resolve rt (some (tornFile rs fragment r [])) startSeq (journalBytes rs ++ fragment).length =
      .ok (tornFile rs fragment r []).length := by
  have hpos := List.length_pos_of_ne_nil hne
  have hlast := @resolve_last rt (rs.map (recordBytes rt)) (tornBytes fragment r)
    (fun l hl => (@walked_torn rt rs [] fragment r hf l hl).1) startSeq
    (journalBytes rs ++ fragment).length
  have hfile : (rs.map (recordBytes rt) ++ [tornBytes fragment r]).flatten =
      tornFile rs fragment r [] := @flatten_tornLines rt rs [] fragment r
  rw [hfile] at hlast
  refine hlast ?_ ?_
  · rw [List.length_append, journalBytes]
    omega
  · simp [tornFile, tornBytes]

end Seek

/-! ## Reads -/

namespace Tail

/-- **The first poll of a new reader** goes to the line start that the index gives, and reads the
lines from there on. -/
theorem poll_new {journal : TickJournal cfg} {disk : Disk} {file : Bytes} {startSeq offset : Nat}
    {lines : List TextLine} (hfile : disk.journalFile = some file)
    (hbyte : journal.byteOffsetForSeq disk startSeq = .ok offset)
    (hle : offset ≤ file.length) (hskip : skipToLineStart file offset = offset)
    (hlines : textLines (file.drop offset) = some lines)
    (hfirst : ∀ line ∈ lines.head?, endsWithNewline line.text = true)
    (maxWaitSeconds now : Rat) :
    ∃ reader : JournalIncrementalReader, reader.readOffset = offset ∧ reader.nextSeq = startSeq ∧
      reader.logicalBolOffset = some offset ∧
      poll ⟨.new maxWaitSeconds, journal, disk⟩ now startSeq =
        readLines now (.seek file offset) ⟨reader, journal, disk⟩ lines := by
  by_cases h1 : startSeq = 1
  · subst h1
    obtain rfl : 0 = offset := Except.ok.inj hbyte
    obtain ⟨reader, hplace, hread⟩ := readNewRecords_marked
      (show (⟨.new maxWaitSeconds, journal, disk⟩ : Tail cfg).disk.journalFile = some file from hfile)
      (Nat.zero_le _) rfl now
    simp only [JournalIncrementalReader.new, @readHandle_some cfg (.seek file 0) lines hlines] at hread
    exact ⟨reader, hplace.readOffset, hplace.nextSeq, hplace.logicalBolOffset, hread⟩
  · have hreset := resetFromSeq_start ⟨.new maxWaitSeconds, journal, disk⟩ hfile hbyte hle hskip
      hlines hfirst fun h => h1 h.1
    obtain ⟨reader, hplace, hread⟩ := readNewRecords_marked
      (show (⟨(JournalIncrementalReader.new maxWaitSeconds).resetTo startSeq offset, journal,
        disk⟩ : Tail cfg).disk.journalFile = some file from hfile) hle rfl now
    simp only [JournalIncrementalReader.resetTo,
      @readHandle_some cfg (.seek file offset) lines hlines] at hread
    refine ⟨reader, hplace.readOffset, hplace.nextSeq, hplace.logicalBolOffset, ?_⟩
    have hne : startSeq ≠ (JournalIncrementalReader.new maxWaitSeconds).nextSeq := h1
    unfold poll
    rw [if_pos hne, hreset]
    exact hread

/-- The loop at a line that is read as the record `r`. -/
theorem readLines_read {handle : TextHandle} (htell : TellsOffsets cfg.toRuntime handle.file)
    (now : Rat) (tail : Tail cfg) {line : TextLine} {r : Rec cfg.toRuntime}
    (hline : endsWithNewline line.text = true)
    (hparse : parseJournalRecordLine cfg.toRuntime line.text = .ok (some (.record r.1 r.2)))
    (hge : tail.reader.nextSeq ≤ r.1) (lines : List TextLine) :
    ∃ reader : JournalIncrementalReader,
      reader.readOffset = tail.reader.readOffset + line.raw.length ∧ reader.nextSeq = r.1 + 1 ∧
      reader.logicalBolOffset = some reader.readOffset ∧
      tail.readLines now (handle.upTo tail.reader.readOffset) (line :: lines) =
        let after := readLines now (handle.upTo reader.readOffset) { tail with reader } lines
        (after.1, after.2.map (r :: ·)) := by
  have hi : ¬(r.1 : Int) < tail.reader.nextSeq := by omega
  have hoff : cfg.tell ((handle.upTo tail.reader.readOffset).past line) =
      tail.reader.readOffset + line.raw.length := htell _ _
  refine ⟨{ ({ tail.reader.clearIncompleteWaitState with consecutiveParseFailures := 0 }).advance
    (tail.reader.readOffset + line.raw.length) with nextSeq := r.1 + 1 }, rfl, rfl, rfl, ?_⟩
  rw [readLines]
  simp only [hline, Bool.true_eq_false, ↓reduceIte, parseCompleteLine, hparse, hoff]
  exact if_neg hi

end Tail

section Replay

variable {fragment : Bytes} {t : Str} {rs more : List (Rec cfg.toRuntime)} {r : Rec cfg.toRuntime}

/-- The torn line, as a text handle reads it after the fragment `t`. -/
def tornLine (fragment : Bytes) (t : Str) (r : Rec cfg.toRuntime) : TextLine :=
  ⟨tornBytes fragment r, t ++ encodeRecord r.1 r.2.fields⟩

/-- What the reader makes of the torn line: the record after white space, and nothing after any
other fragment. -/
def tornRecord (t : Str) (r : Rec cfg.toRuntime) : List (Rec cfg.toRuntime) :=
  if t.all isSpace = true then [r] else []

theorem endsWithNewline_tornLine : endsWithNewline (tornLine fragment t r).text = true := by
  simp [endsWithNewline, tornLine, encodeRecord]

theorem tellsOffsets_torn (hf : Unframed fragment) :
    TellsOffsets cfg.toRuntime (tornFile rs fragment r more) := by
  have h := @tellsOffsets_framed cfg.toRuntime (tornLines rs fragment r more)
    (fun l hl => (walked_torn hf l hl).1) [] ⟨List.not_mem_nil, List.not_mem_nil⟩
  rwa [List.append_nil, flatten_tornLines] at h

theorem textLines_torn (hf : Unframed fragment) (hd : decodeUtf8 fragment = some t) :
    textLines (tornBytes fragment r ++ journalBytes more) =
      some (tornLine fragment t r :: more.map recordLine) := by
  have hmore := textLines_records more
  unfold textLines at hmore ⊢
  rw [universalLines_framed (framed_tornBytes hf r), List.mapM_cons, decodeLine_torn hd, hmore]
  rfl

namespace Tail

open JournalIncrementalReader (consume consume_logicalBolOffset consume_nextSeq consume_readOffset)

theorem readLines_torn {handle : TextHandle} (htell : TellsOffsets cfg.toRuntime handle.file)
    (now : Rat) (tail : Tail cfg) (hnext : tail.reader.nextSeq ≤ r.1) (lines : List TextLine) :
    ∃ tail' : Tail cfg, SameFiles tail.disk tail'.disk ∧
      tail'.reader.readOffset = tail.reader.readOffset + (tornBytes fragment r).length ∧
      tail'.reader.nextSeq ≤ r.1 + 1 ∧
      tail'.reader.logicalBolOffset = some tail'.reader.readOffset ∧
      tail.readLines now (handle.upTo tail.reader.readOffset) (tornLine fragment t r :: lines) =
        let after := tail'.readLines now (handle.upTo tail'.reader.readOffset) lines
        (after.1, after.2.map (tornRecord t r ++ ·)) := by
  have hparse := @parse_torn cfg.toRuntime t r.1 r.2
  by_cases hws : t.all isSpace = true
  · rw [if_pos hws] at hparse
    obtain ⟨reader, hoff, hn, hbol, hread⟩ :=
      readLines_read htell now tail (@endsWithNewline_tornLine _ fragment t r) hparse hnext lines
    refine ⟨{ tail with reader }, .refl _, hoff, Nat.le_of_eq hn, hbol, hread.trans ?_⟩
    rw [tornRecord, if_pos hws]
    rfl
  · rw [if_neg hws] at hparse
    obtain ⟨reason, text, hparse⟩ := hparse
    obtain ⟨tail', hread, hp⟩ := readLines_skipped htell now tail
      (show Skipped cfg.toRuntime (tornLine fragment t r) from
        ⟨endsWithNewline_tornLine, _, hparse, nofun⟩) lines
    refine ⟨tail', hp.files, hp.readOffset, by rw [hp.nextSeq]; omega, hp.logicalBolOffset,
      hread.trans ?_⟩
    rw [tornRecord, if_neg hws]
    cases tail'.readLines now (handle.upTo tail'.reader.readOffset) lines with
    | mk after result => cases result <;> rfl

/-- The loop over records that it waits for. -/
theorem readLines_wanted {handle : TextHandle} (htell : TellsOffsets cfg.toRuntime handle.file)
    (now : Rat) (tail : Tail cfg) {A : List (Rec cfg.toRuntime)} (hinc : Increasing A)
    (hwanted : ∀ x ∈ A, tail.reader.nextSeq ≤ x.1) (lines : List TextLine) :
    tail.readLines now (handle.upTo tail.reader.readOffset) (A.map recordLine ++ lines) =
      let reader := A.foldl consume tail.reader
      let after := readLines now (handle.upTo reader.readOffset) { tail with reader } lines
      (after.1, after.2.map (A ++ ·)) := by
  have hall : since tail.reader.nextSeq A = A :=
    List.filter_eq_self.mpr fun x hx => decide_eq_true (hwanted x hx)
  have hrun := readLines_records htell now tail A lines
  rwa [accepted_eq_since hinc, hall] at hrun

/-- The loop from a line start to the end of the file. -/
theorem readLines_tornFile {handle : TextHandle} (htell : TellsOffsets cfg.toRuntime handle.file)
    (now : Rat) (tail : Tail cfg) {A : List (Rec cfg.toRuntime)} (hinc : Increasing A)
    (hwanted : ∀ x ∈ A, tail.reader.nextSeq ≤ x.1) (hbelow : ∀ x ∈ A, x.1 < r.1)
    (hmore : Increasing (r :: more)) (hnext : tail.reader.nextSeq ≤ r.1) :
    ∃ tail', tail.readLines now (handle.upTo tail.reader.readOffset)
          (A.map recordLine ++ tornLine fragment t r :: more.map recordLine) =
        (tail', .ok (A ++ (tornRecord t r ++ more))) ∧
      SameFiles tail.disk tail'.disk ∧
      tail'.reader.readOffset = tail.reader.readOffset +
        (journalBytes A ++ (tornBytes fragment r ++ journalBytes more)).length ∧
      tail'.reader.logicalBolOffset = some tail'.reader.readOffset := by
  obtain ⟨hr, hmore⟩ := List.pairwise_cons.mp hmore
  have hrunA := readLines_wanted htell now tail hinc hwanted (tornLine fragment t r :: more.map recordLine)
  obtain ⟨-, -, hlast⟩ := consume_nextSeq tail.reader A
  have hnextA : (A.foldl consume tail.reader).nextSeq ≤ r.1 := by
    rcases hlast with he | ⟨x, hx, -, he⟩
    · omega
    · have := hbelow x hx
      omega
  obtain ⟨tail₁, hfiles, hoff, hnext₁, hbol, hrun⟩ := @readLines_torn _ fragment t r _ htell now
    { tail with reader := A.foldl consume tail.reader } hnextA (more.map recordLine)
  have hrunB := readLines_wanted htell now tail₁ hmore
    (fun x hx => by have := hr x hx; omega) []
  rw [List.append_nil] at hrunB
  refine ⟨{ tail₁ with reader := more.foldl consume tail₁.reader }, ?_, hfiles, ?_,
    consume_logicalBolOffset _ _ hbol⟩
  · rw [hrunA]
    simp only [hrun, hrunB]
    simp [readLines, Except.map]
  · rw [consume_readOffset, hoff, consume_readOffset]
    simp only [List.length_append]
    omega

end Tail

/-- **A cold replay that the index leads right** yields all records, the torn one only if the
fragment is white space. -/
theorem tailFrom_torn {journal : TickJournal cfg} {disk : Disk} {startSeq : Nat}
    (hfile : disk.journalFile = some (tornFile rs fragment r more))
    (hf : Unframed fragment) (hd : decodeUtf8 fragment = some t)
    (hinc : Increasing rs) (hbelow : ∀ x ∈ rs, x.1 < r.1) (hmore : Increasing (r :: more))
    (hs : startSeq ≤ r.1)
    (hbyte : journal.byteOffsetForSeq disk startSeq = .ok (offsetOf startSeq rs))
    (clock : Nat → Rat) {fuel : Nat} (hfuel : 2 ≤ fuel) :
    journal.tailFrom clock fuel disk startSeq =
      some ⟨since startSeq rs ++ (tornRecord t r ++ more), none⟩ := by
  have hcut := before_append_since hinc startSeq
  have hsplit : tornFile rs fragment r more = journalBytes (before startSeq rs) ++
      (journalBytes (since startSeq rs) ++ (tornBytes fragment r ++ journalBytes more)) := by
    conv => lhs; rw [tornFile, ← hcut, journalBytes_append, List.append_assoc]
  have hdrop : (tornFile rs fragment r more).drop (offsetOf startSeq rs) =
      journalBytes (since startSeq rs) ++ (tornBytes fragment r ++ journalBytes more) := by
    rw [hsplit]
    exact List.drop_left
  have hlines : textLines ((tornFile rs fragment r more).drop (offsetOf startSeq rs)) =
      some ((since startSeq rs).map recordLine ++ tornLine fragment t r :: more.map recordLine) := by
    rw [hdrop, textLines_journalBytes, textLines_torn hf hd]
    rfl
  have hfirst : ∀ line ∈ ((since startSeq rs).map recordLine ++
      tornLine fragment t r :: more.map recordLine).head?, endsWithNewline line.text = true := by
    intro line hline
    rcases List.mem_append.mp (List.mem_of_mem_head? hline) with hline | hline
    · obtain ⟨x, -, rfl⟩ := List.mem_map.mp hline
      exact endsWithNewline_recordLine x
    · rcases List.mem_cons.mp hline with rfl | hline
      · exact endsWithNewline_tornLine
      · obtain ⟨x, -, rfl⟩ := List.mem_map.mp hline
        exact endsWithNewline_recordLine x
  have hskip : skipToLineStart (tornFile rs fragment r more) (offsetOf startSeq rs) =
      offsetOf startSeq rs := by
    rw [← flatten_tornLines, tornLines_cut hinc startSeq]
    apply skipToLineStart_start
    intro l hl
    rw [← tornLines_cut hinc startSeq] at hl
    exact (walked_torn hf l hl).1
  have hle : offsetOf startSeq rs ≤ (tornFile rs fragment r more).length := by
    rw [hsplit, List.length_append]
    exact Nat.le_add_right _ _
  obtain ⟨reader, hoff, hnext, hbol, hpoll⟩ := Tail.poll_new hfile hbyte hle hskip hlines hfirst
    defaultIncompleteRecordMaxWaitSeconds (clock 0)
  have hinc' : Increasing (since startSeq rs) := List.Pairwise.filter _ hinc
  obtain ⟨tail', hrun, hfiles, hend, hbol'⟩ := @Tail.readLines_tornFile _ fragment t more r
    (.seek (tornFile rs fragment r more) (offsetOf startSeq rs)) (tellsOffsets_torn hf) (clock 0)
    ⟨reader, journal, disk⟩ _ hinc'
    (fun x hx => by rw [hnext]; exact (mem_since.mp hx).2)
    (fun x hx => hbelow x (mem_since.mp hx).1) hmore (by rw [hnext]; exact hs)
  rw [show (⟨reader, journal, disk⟩ : Tail cfg).reader.readOffset = offsetOf startSeq rs from hoff]
    at hrun
  refine tailFrom_of_poll (hpoll.trans hrun) ⟨hend.trans ?_, hbol'⟩ hfuel
  rw [hfiles.journalFile, hfile, hsplit]
  show reader.readOffset + _ = _
  rw [hoff]
  exact List.length_append.symm

/-- A cold replay that the index leads to the end of the file yields nothing, with two polls or
more. -/
theorem tailFrom_end {journal : TickJournal cfg} {disk : Disk} {startSeq : Nat} {ls : List Bytes}
    (hfile : disk.journalFile = some ls.flatten) (hf : ∀ l ∈ ls, Framed l)
    (hbyte : journal.byteOffsetForSeq disk startSeq = .ok ls.flatten.length)
    (clock : Nat → Rat) {fuel : Nat} (hfuel : 2 ≤ fuel) :
    journal.tailFrom clock fuel disk startSeq = some ⟨[], none⟩ := by
  have hskip : skipToLineStart ls.flatten ls.flatten.length = ls.flatten.length := by
    have := @skipToLineStart_start ls [] fun l hl => hf l (by simpa using hl)
    rwa [List.append_nil] at this
  have hlines : textLines (ls.flatten.drop ls.flatten.length) = some [] := by
    rw [List.drop_length]; rfl
  obtain ⟨reader, hoff, -, hbol, hpoll⟩ := Tail.poll_new hfile hbyte (Nat.le_refl _) hskip hlines
    (by simp) defaultIncompleteRecordMaxWaitSeconds (clock 0)
  refine tailFrom_of_poll hpoll ⟨?_, hbol.trans (congrArg some hoff.symm)⟩ hfuel
  rw [hfile]
  exact hoff

theorem tailFrom_torn_end {journal : TickJournal cfg} {disk : Disk} {startSeq : Nat}
    (hfile : disk.journalFile = some (tornFile rs fragment r more)) (hf : Unframed fragment)
    (hbyte : journal.byteOffsetForSeq disk startSeq = .ok (tornFile rs fragment r more).length)
    (clock : Nat → Rat) {fuel : Nat} (hfuel : 2 ≤ fuel) :
    journal.tailFrom clock fuel disk startSeq = some ⟨[], none⟩ := by
  rw [← flatten_tornLines] at hfile hbyte
  exact tailFrom_end hfile (fun l hl => (walked_torn hf l hl).1) hbyte clock hfuel

/-- After a fragment that is no UTF-8, a replay from the start of the file raises: the handle is
opened with strict decoding. -/
theorem tailFrom_torn_none {journal : TickJournal cfg} {disk : Disk}
    (hfile : disk.journalFile = some (tornFile rs fragment r more))
    (hf : Unframed fragment) (hd : decodeUtf8 fragment = none) (clock : Nat → Rat) {fuel : Nat}
    (hfuel : 1 ≤ fuel) :
    ∃ e, journal.tailFrom clock fuel disk 1 = some ⟨[], some e⟩ := by
  obtain ⟨fuel, rfl⟩ : ∃ n, fuel = n + 1 := ⟨fuel - 1, by omega⟩
  have hlines : textLines (tornFile rs fragment r more) = none := by
    rw [tornFile, textLines_journalBytes]
    unfold textLines
    rw [universalLines_framed (framed_tornBytes hf r), List.mapM_cons, decodeLine_torn_none hd]
    rfl
  obtain ⟨reader, -, hread⟩ := Tail.readNewRecords_marked
    (show (⟨.new defaultIncompleteRecordMaxWaitSeconds, journal, disk⟩ :
      Tail cfg).disk.journalFile = some (tornFile rs fragment r more) from hfile)
    (Nat.zero_le _) rfl (clock 0)
  obtain ⟨e, he⟩ := @Tail.readHandle_none cfg (.seek (tornFile rs fragment r more) 0) hlines (clock 0)
    ⟨reader, journal, disk⟩
  refine ⟨e, ?_⟩
  unfold TickJournal.tailFrom
  simp only [JournalIncrementalReader.new] at hread
  simp only [tailFromLoop, Tail.poll, JournalIncrementalReader.new, ne_eq, not_true_eq_false,
    ↓reduceIte, hread]
  split
  · rename_i heq
    rw [heq] at he
    cases he
    rfl
  all_goals
    rename_i heq
    rw [heq] at he
    cases he

end Replay

end Leviathan
