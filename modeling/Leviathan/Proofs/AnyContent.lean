import Leviathan.Journal.CompactAny
import Leviathan.Journal.Readme

/-!
# Any content of the journal file

A journal file may hold any bytes. Its readers are served when a poll, `byte_offset_for_seq` and
`compact_before_seq` return, the invalid lines are quarantined and no valid record is lost.

* `poll_served_iff`, `seek_served_iff`, `compaction_served_iff`: the files on which each scanner
  does so.
* `readers_served_iff`: **the readers are served exactly on the files that all three can read.**
* `infinite_seq_blocks`: one line with the number `Infinity` stops all three.
-/

namespace Leviathan

open Py

variable {cfg : Config} {file : Bytes}

/-! ## What the readers are promised -/

namespace Tail

/-- The reader has marked its offset, and a line begins there; or the file is shorter than that. -/
structure Placed (tail : Tail cfg) (file : Bytes) : Prop where
  journalFile : tail.disk.journalFile = some file
  mark : tail.reader.logicalBolOffset = some tail.reader.readOffset
  start : LineStart file tail.reader.readOffset ∨ file.length < tail.reader.readOffset

/-- A poll from `startSeq` reads the lines from `o` on: from where the reader stands, or from where
the index sends it. -/
def ReadsFrom (tail : Tail cfg) (file : Bytes) (startSeq o : Nat) : Prop :=
  if startSeq ≠ tail.reader.nextSeq then
    tail.journal.byteOffsetForSeq tail.disk startSeq = .ok o
  else if tail.reader.readOffset > file.length then
    (tail.journal.reloadSeqIndexFromDisk tail.disk).byteOffsetForSeq tail.disk startSeq = .ok o
  else o = tail.reader.readOffset

end Tail

/-- What a poll that read the lines from `o` on has returned and left; `tip` is an incomplete last
line that was given up. -/
structure Polled (tail tail' : Tail cfg) (file : Bytes) (startSeq o : Nat)
    (records : List (Rec cfg.toRuntime)) : Prop where
  records : records = accepted startSeq (recordsOf cfg.toRuntime (file.drop o))
  quarantined : ∃ tip, tail'.disk.quarantined =
    tail.disk.quarantined ++ (invalidTexts cfg.toRuntime (file.drop o) ++ tip)
  placed : tail'.Placed file

/-- Every poll returns the records from where it reads, and quarantines the invalid lines there. -/
def PollServed (cfg : Config) (file : Bytes) : Prop :=
  ∀ (tail : Tail cfg) (now : Rat) (startSeq : Nat), tail.Placed file →
    ∃ tail' o records, tail.poll now startSeq = (tail', .ok records) ∧
      tail.ReadsFrom file startSeq o ∧ Polled tail tail' file startSeq o records

/-- The walk from `s` to `o` passes no wanted record, and stops at no line without a wanted number.
-/
structure Sought (rt : Runtime) (file : Bytes) (startSeq s o : Nat) : Prop where
  forward : s ≤ o ∧ o ≤ file.length
  passed : ∀ r ∈ recordsOf rt ((file.drop s).take (o - s)), r.1 < startSeq
  stop : 1 < startSeq → ∀ raw ∈ (byteLines (file.drop o)).head?, endsWithLF raw = true →
    ∃ seq, rawSeq rt raw = some seq ∧ startSeq ≤ seq

/-- Every seek ends, from whatever hint the index holds. -/
def SeekServed (cfg : Config) (file : Bytes) : Prop :=
  ∀ (store : MetaStore cfg) (startSeq : Nat), ∃ o,
    store.byteOffsetForSeq (some file) startSeq = .ok o ∧
      Sought cfg.toRuntime file startSeq
        (if startSeq ≤ 1 then 0 else walkStart file (store.indexedHint startSeq)) o

/-- Every compaction ends, keeps the records from its watermark on and quarantines the invalid
lines. -/
def CompactionServed (cfg : Config) (file : Bytes) : Prop :=
  ∀ (store : MetaStore cfg) (disk : Disk) (minRetainSeq : Nat), disk.journalFile = some file →
    ∃ store' disk' removed, store.compactBeforeSeq disk minRetainSeq = (store', disk', .ok removed) ∧
      (∃ file', disk'.journalFile = some file' ∧
        ((recordsOf cfg.toRuntime file).filter fun r => minRetainSeq ≤ r.1).Sublist
          (recordsOf cfg.toRuntime file')) ∧
      (2 ≤ minRetainSeq → ∃ quarantined, disk'.quarantined = disk.quarantined ++ quarantined ∧
        ∀ text ∈ invalidTexts cfg.toRuntime file, text ∈ quarantined)

/-- **No content of the file blocks a reader.** -/
structure ReadersServed (cfg : Config) (file : Bytes) : Prop where
  poll : PollServed cfg file
  seek : SeekServed cfg file
  compaction : CompactionServed cfg file

/-! ## What the scanners can read -/

/-- No complete line of the binary handle has a sequence number that overflows. -/
def SeqsCoerce (rt : Runtime) (file : Bytes) : Prop :=
  ∀ raw ∈ byteLines file, endsWithLF raw = true → SeqCoerces rt (rawObject raw)

/-- A poll can read the file. -/
structure PollReadable (rt : Runtime) (file : Bytes) : Prop where
  utf8 : (decodeUtf8 file).isSome
  seqs : SeqsCoerce rt file
  records : ∀ text ∈ completeTexts file, Coerces rt text

/-- A seek can read the file: a record that a lone `\r` parts from the rest of its line counts as
the whole line does. -/
structure SeekReadable (rt : Runtime) (file : Bytes) : Prop where
  seqs : SeqsCoerce rt file
  pieces : ∀ raw ∈ byteLines file, endsWithLF raw = true → ∀ r ∈ recordsOf rt raw, 2 ≤ r.1 →
    ∃ seq, rawSeq rt raw = some seq ∧ r.1 ≤ seq

/-- A compaction can read the file, the last line included, and the objects whose sequence number it
reads are records. -/
structure CompactionReadable (rt : Runtime) (file : Bytes) : Prop where
  utf8 : (decodeUtf8 file).isSome
  seqs : ∀ raw ∈ universalLines file, ∀ line, decodeLine raw = some line →
    SeqCoerces rt (objectOf (strip line.text))
  whole : ∀ text ∈ completeTexts file, (textSeq rt text).isSome → (parsed rt text).isSome

/-- All three scanners can read the file. -/
structure Readable (cfg : Config) (file : Bytes) : Prop where
  poll : PollReadable cfg.toRuntime file
  seek : SeekReadable cfg.toRuntime file
  compaction : CompactionReadable cfg.toRuntime file

/-! ## Seeks -/

/-- The offset of a seek is where a line of the binary handle begins, or the end of the file. -/
theorem byteOffset_served (h : SeqsCoerce cfg.toRuntime file) (store : MetaStore cfg)
    (startSeq : Nat) :
    ∃ P Q, file = P ++ Q ∧ (P = [] ∨ endsWithLF P = true ∨ Q = []) ∧
      store.byteOffsetForSeq (some file) startSeq = .ok P.length := by
  unfold MetaStore.byteOffsetForSeq
  by_cases h1 : startSeq ≤ 1
  · exact ⟨[], file, rfl, .inl rfl, by rw [if_pos h1]; rfl⟩
  · obtain ⟨P, C, D, hwalk, -, hres⟩ := resolve_served h startSeq (store.indexedHint startSeq)
    obtain ⟨hfile, hcut⟩ := hwalk.cut
    exact ⟨P ++ C.flatten, D.flatten, hfile, hcut, by rw [if_neg h1, hres]⟩

theorem seek_served (h : SeekReadable cfg.toRuntime file) : SeekServed cfg file := by
  intro store startSeq
  unfold MetaStore.byteOffsetForSeq
  by_cases h1 : startSeq ≤ 1
  · refine ⟨0, if_pos h1, ?_⟩
    rw [if_pos h1]
    exact ⟨⟨Nat.le_refl _, Nat.zero_le _⟩, by simp [recordsOf, completeTexts, universalLines],
      fun hgt => by omega⟩
  obtain ⟨P, C, D, hwalk, hP, hres⟩ := resolve_served h.seqs startSeq (store.indexedHint startSeq)
  obtain ⟨hfile, -⟩ := hwalk.cut
  refine ⟨(P ++ C.flatten).length, by rw [if_neg h1, hres], ?_⟩
  rw [if_neg h1, ← hP]
  have hdropP : file.drop P.length = C.flatten ++ D.flatten := by
    rw [hfile, List.append_assoc, List.drop_left]
  have hdrop : file.drop (P ++ C.flatten).length = D.flatten := by rw [hfile, List.drop_left]
  refine ⟨⟨by simp, by rw [hfile]; simp⟩, fun r hr => ?_, fun _ raw hraw hend => ?_⟩
  · rw [hdropP, List.length_append, Nat.add_sub_cancel_left, List.take_left] at hr
    obtain ⟨raw, hraw, hr⟩ := hwalk.recordsOf_passed hr
    obtain ⟨hend, hpass⟩ := hwalk.passed raw hraw
    by_cases h2 : 2 ≤ r.1
    · obtain ⟨seq, hseq, hle⟩ := h.pieces raw (hwalk.mem raw hraw) hend r hr h2
      simp only [passes, hseq, decide_eq_true_eq] at hpass
      omega
    · omega
  · have hD := (byteLines_cuts.of_append hwalk.lines).2
    rw [hdrop, hD] at hraw
    exact hwalk.stop raw hraw hend

/-- A store whose index points at an offset. -/
def hintAt (offset : Nat) : MetaStore cfg := (MetaStore.new none).replaceSeqIndex [(0, offset)]

theorem indexedHint_hintAt (offset startSeq : Nat) :
    (hintAt offset : MetaStore cfg).indexedHint startSeq = offset := by
  show chooseHint startSeq [(0, offset)] 0 = offset
  rw [chooseHint, if_pos (Nat.zero_le _), chooseHint]

/-- A seek with a hint at a line begins with that line. -/
theorem byteOffset_at {A B : List Bytes} {raw : Bytes} (h : byteLines file = A ++ raw :: B)
    {startSeq : Nat} (h2 : 2 ≤ startSeq) :
    (hintAt A.flatten.length : MetaStore cfg).byteOffsetForSeq (some file) startSeq =
        resolveFrom cfg.toRuntime startSeq A.flatten.length (raw :: B) ∧
      walkStart file ((hintAt A.flatten.length : MetaStore cfg).indexedHint startSeq) =
        A.flatten.length := by
  obtain ⟨hfile, hlines⟩ := byteLines_cuts.of_append h
  have hle : ¬A.flatten.length > file.length := by rw [hfile, List.length_append]; omega
  have hskip := skipToLineStart_keeps (byteLines_cut h)
  rw [← hfile] at hskip
  have hdrop : file.drop A.flatten.length = (raw :: B).flatten := by rw [hfile, List.drop_left]
  constructor
  · unfold MetaStore.byteOffsetForSeq
    rw [if_neg (by omega), indexedHint_hintAt]
    simp only [resolve, if_neg hle, hskip, hdrop, hlines]
  · rw [indexedHint_hintAt, walkStart, if_neg hle, hskip]

/-- A line with a number that overflows ends the seeks that reach it. -/
theorem seqsCoerce_of_seeks (h : ∀ store : MetaStore cfg,
    ∃ o, store.byteOffsetForSeq (some file) 2 = .ok o) : SeqsCoerce cfg.toRuntime file := by
  intro raw hraw hend
  obtain ⟨A, B, hlines⟩ := List.append_of_mem hraw
  obtain ⟨o, ho⟩ := h (hintAt A.flatten.length)
  rw [(byteOffset_at hlines (Nat.le_refl 2)).1, resolveFrom, hend] at ho
  apply resolveLine_ok_iff.mp
  cases hres : resolveLine cfg.toRuntime raw with
  | ok seq => exact ⟨seq, rfl⟩
  | error e => simp [hres] at ho

/-- **A seek is served exactly on the files that it can read.** -/
theorem seek_served_iff : SeekServed cfg file ↔ SeekReadable cfg.toRuntime file := by
  refine ⟨fun h => ?_, seek_served⟩
  have hseqs : SeqsCoerce cfg.toRuntime file := seqsCoerce_of_seeks fun store =>
    (h store 2).imp fun o ho => ho.1
  refine ⟨hseqs, fun raw hraw hend r hr h2 => ?_⟩
  by_contra hnone
  obtain ⟨A, B, hlines⟩ := List.append_of_mem hraw
  obtain ⟨hfile, -⟩ := byteLines_cuts.of_append hlines
  obtain ⟨hat, hstart⟩ := @byteOffset_at cfg file A B raw hlines r.1 h2
  obtain ⟨o, ho, hsought⟩ := h (hintAt A.flatten.length) r.1
  rw [hat] at ho
  rw [if_neg (by omega), hstart] at hsought
  -- the walk passes the line
  have hB : ∀ l ∈ B, endsWithLF l = true → SeqCoerces cfg.toRuntime (rawObject l) :=
    fun l hl => hseqs l (by rw [hlines]; simp [hl])
  obtain ⟨C, D, rfl, hres, -, -⟩ := resolveFrom_served hB r.1 (A.flatten.length + raw.length)
  have ho : o = A.flatten.length + raw.length + C.flatten.length := by
    rw [resolveFrom, hend] at ho
    simp only [Bool.true_eq_false, ↓reduceIte, resolveLine_served (hseqs raw hraw hend), hres] at ho
    cases hseq : rawSeq cfg.toRuntime raw with
    | none => simpa [hseq, eq_comm] using ho
    | some seq =>
      have hlt : ¬(r.1 : Int) ≤ seq := fun hle => hnone ⟨seq, hseq, hle⟩
      simpa [hseq, hlt, eq_comm] using ho
  have hdrop : (file.drop A.flatten.length).take (o - A.flatten.length) = raw ++ C.flatten := by
    have hlen : o - A.flatten.length = (raw ++ C.flatten).length := by
      rw [ho, List.length_append]
      omega
    rw [hlen, hfile, List.drop_left, List.flatten_cons, List.flatten_append, ← List.append_assoc,
      List.take_left]
  have hmem : r ∈ recordsOf cfg.toRuntime (raw ++ C.flatten) := by
    rw [recordsOf_append (.inr hend)]
    exact List.mem_append_left _ hr
  exact absurd (hsought.passed r (by rw [hdrop]; exact hmem)) (Nat.lt_irrefl _)

/-! ## Polls -/

theorem completeTexts_drop {o : Nat} (h : LineStart file o) :
    ∀ text ∈ completeTexts (file.drop o), text ∈ completeTexts file := by
  obtain ⟨A, hA, -⟩ := h.drop
  intro text htext
  unfold completeTexts at htext ⊢
  rw [hA, List.filterMap_append]
  exact List.mem_append_right _ htext

theorem textLines_start (h : (decodeUtf8 file).isSome) {o : Nat} (ho : LineStart file o) :
    ∃ lines, textLines (file.drop o) = some lines := by
  obtain ⟨A, hA, -⟩ := ho.drop
  refine Option.isSome_iff_exists.mp (textLines_isSome.mpr (decodes_iff.mpr fun raw hraw => ?_))
  exact decodes_iff.mp h raw (by rw [hA]; exact List.mem_append_right A hraw)

namespace Tail

/-- The reader is ready to read the lines from `o` on; when the last of them is incomplete, it may
have given it up. -/
structure Landed (tail tail₁ : Tail cfg) (file : Bytes) (startSeq o : Nat) : Prop where
  journalFile : tail₁.disk.journalFile = some file
  mark : tail₁.reader.logicalBolOffset = some tail₁.reader.readOffset
  nextSeq : tail₁.reader.nextSeq = startSeq
  start : LineStart file tail₁.reader.readOffset
  texts : completeTexts (file.drop tail₁.reader.readOffset) = completeTexts (file.drop o)
  quarantined : ∃ tip, tail₁.disk.quarantined = tail.disk.quarantined ++ tip ∧
    (tip = [] ∨ completeTexts (file.drop o) = [])

variable {tail tail₀ tail₁ : Tail cfg} {startSeq o : Nat}

/-- **The read of a reader that has landed.** -/
theorem readNewRecords_landed (h : PollReadable cfg.toRuntime file)
    (hfile : tail₀.disk.journalFile = some file)
    (hre : tail₀.resyncIfJournalRewritten file.length = (tail₁, .ok ()))
    (hland : Landed tail tail₁ file startSeq o) (now : Rat) :
    ∃ tail' records, tail₀.readNewRecords now = (tail', .ok records) ∧
      Polled tail tail' file startSeq o records := by
  obtain ⟨lines, hlines⟩ := textLines_start h.utf8 hland.start
  have htexts := completeTexts_eq hlines
  have hopen : OnlyLastOpen lines := fun A l B he hB => textLines_ended (he ▸ hlines) hB
  have hcoerce : ∀ text ∈ lines.filterMap textOf, Coerces cfg.toRuntime text := fun text ht =>
    h.records text (completeTexts_drop hland.start text (by rw [htexts]; exact ht))
  obtain ⟨tail', hrun, hthrough⟩ := readLines_served now hopen hcoerce
    (.seek file tail₁.reader.readOffset) tail₁ (.inl rfl) hland.mark
  have hread := readNewRecords_resynced hfile hre hland.mark now
  rw [readHandle_some hlines] at hread
  rw [hland.texts] at htexts
  refine ⟨tail', _, hread.trans hrun, ?_, ?_, ?_⟩
  · rw [hland.nextSeq, ← htexts]
    rfl
  · obtain ⟨tip, htip⟩ := hthrough.quarantined
    obtain ⟨tip₁, htip₁, hcases⟩ := hland.quarantined
    rw [htip, htip₁, ← htexts]
    rcases hcases with rfl | hnone
    · exact ⟨tip, by rw [List.append_nil]; rfl⟩
    · refine ⟨tip₁ ++ tip, ?_⟩
      simp [invalidTexts, hnone]
  · obtain ⟨A, B, hAB, htold⟩ := hthrough.told
    refine ⟨by rw [hthrough.files.journalFile, hland.journalFile], hthrough.logicalBolOffset,
      htold.cases.imp (fun hoff => ?_) id⟩
    have hraw := (textLines_some hlines).1
    rw [hAB, List.map_append] at hraw
    rw [hoff]
    exact hland.start.add hraw.symm

/-- **A reset lands where the index sends it.** -/
theorem resetFromSeq_landed (h : PollReadable cfg.toRuntime file)
    (hfile : tail.disk.journalFile = some file)
    (hbyte : tail.journal.byteOffsetForSeq tail.disk startSeq = .ok o)
    (hkeep : startSeq ≠ tail.reader.nextSeq ∨ file.length < tail.reader.readOffset) :
    ∃ tail₁, tail.resetFromSeq startSeq = (tail₁, .ok ()) ∧
      Landed tail tail₁ file startSeq o := by
  obtain ⟨P, Q, hPQ, hcut, hP⟩ := byteOffset_served h.seqs tail.journal.metaStore startSeq
  obtain rfl : P.length = o := by
    unfold TickJournal.byteOffsetForSeq at hbyte
    rw [hfile, hP] at hbyte
    exact Except.ok.inj hbyte
  have hstart : LineStart file P.length := hPQ ▸ LineStart.of_cut hcut
  have hskip : skipToLineStart file P.length = P.length := hPQ ▸ skipToLineStart_keeps hcut
  obtain ⟨lines, hlines⟩ := textLines_start h.utf8 hstart
  have hkeep' : ¬(startSeq = tail.reader.nextSeq ∧ P.length < tail.reader.readOffset ∧
      tail.reader.readOffset ≤ file.length) := fun hk =>
    hkeep.elim (fun hne => hne hk.1) fun hlt => by omega
  by_cases hfirst : ∀ line ∈ lines.head?, endsWithNewline line.text = true
  · have hreset := resetFromSeq_start tail hfile hbyte hstart.le hskip hlines hfirst hkeep'
    exact ⟨_, hreset, hfile, rfl, rfl, hstart, rfl, [], by simp [Disk.quarantined], .inl rfl⟩
  -- the line there is the last one, and the reset gives it up
  obtain ⟨line, hhead, hline⟩ : ∃ line, lines.head? = some line ∧
      endsWithNewline line.text = false := by simpa using hfirst
  obtain ⟨rest, rfl⟩ : ∃ rest, lines = line :: rest := ⟨_, List.eq_cons_of_mem_head? hhead⟩
  have hopen : OnlyLastOpen (line :: rest) := fun A l B he hB => textLines_ended (he ▸ hlines) hB
  obtain rfl := hopen.eq_nil hline
  have hnone : completeTexts (file.drop P.length) = [] := by
    rw [completeTexts_eq hlines]
    simp [textOf_open hline]
  have hraw : universalLines (file.drop P.length) = [line.raw] ++ [] :=
    (textLines_some hlines).1.symm
  have hend : LineStart file (P.length + line.raw.length) := by simpa using hstart.add hraw
  have htell : cfg.tell ((TextHandle.seek file P.length).past line) = P.length + line.raw.length :=
    @tell_open cfg.toRuntime (.seek file P.length) line hlines hline
  rw [← htell] at hend
  have hrest : completeTexts (file.drop (cfg.tell ((TextHandle.seek file P.length).past line))) =
      [] := by
    rw [htell]
    have hflat : line.raw = file.drop P.length := by simpa using textLines_flatten hlines
    rw [← List.drop_drop, ← hflat, List.drop_length]
    rfl
  obtain ⟨bol, hreset⟩ := resetFromSeq_abandon tail hfile hbyte hstart.le hskip hkeep'
  have habandon := @abandon_open cfg
    { tail with reader := { tail.reader with readOffset := P.length, logicalBolOffset := bol } }
    file line [] hfile hlines hline
  refine ⟨_, hreset _ habandon, hfile, rfl, rfl, hend, hrest.trans hnone.symm, [line.text], ?_,
    .inr hnone⟩
  simp [Disk.quarantined, skipIncompleteTrailingFragment, quarantineInvalidLine,
    Disk.quarantineLine]

/-- The reader that the resynchronisation leaves at a marked line start. -/
theorem Landed.resync (h : Landed tail tail₁ file startSeq o) :
    ∃ tail₂, tail₁.resyncIfJournalRewritten file.length = (tail₂, .ok ()) ∧
      Landed tail tail₂ file startSeq o := by
  obtain ⟨reader, hre, hplace⟩ := resync_marked h.start.le h.mark
  refine ⟨{ tail₁ with reader }, hre, h.journalFile, ?_, ?_, ?_, ?_, h.quarantined⟩
  · exact hplace.logicalBolOffset.trans (h.mark.trans (congrArg some hplace.readOffset.symm))
  · exact hplace.nextSeq.trans h.nextSeq
  · exact hplace.readOffset.symm ▸ h.start
  · exact hplace.readOffset.symm ▸ h.texts

/-- A resynchronisation that finds the file rewritten goes where the reloaded index sends it. -/
theorem resync_rewritten (h : PollReadable cfg.toRuntime file)
    (hfile : tail.disk.journalFile = some file) (hpast : tail.reader.readOffset > file.length) :
    ∃ tail₁ o, tail.resyncIfJournalRewritten file.length = (tail₁, .ok ()) ∧
      (tail.journal.reloadSeqIndexFromDisk tail.disk).byteOffsetForSeq tail.disk
        tail.reader.nextSeq = .ok o ∧
      Landed tail tail₁ file tail.reader.nextSeq o := by
  let tail₀ : Tail cfg := { tail with journal := tail.journal.reloadSeqIndexFromDisk tail.disk }
  obtain ⟨P, -, -, -, hbyte⟩ := byteOffset_served h.seqs tail₀.journal.metaStore
    tail.reader.nextSeq
  have hbyte : tail₀.journal.byteOffsetForSeq tail.disk tail.reader.nextSeq = .ok P.length := by
    rw [TickJournal.byteOffsetForSeq, hfile, hbyte]
  obtain ⟨tail₁, hreset, hland⟩ := @resetFromSeq_landed cfg file tail₀ _ _ h hfile hbyte
    (.inr hpast)
  refine ⟨{ tail₁ with reader := { tail₁.reader with lastKnownSize := some file.length } },
    P.length, ?_, hbyte, ⟨hland.journalFile, hland.mark, hland.nextSeq, hland.start, hland.texts,
      hland.quarantined⟩⟩
  have hle : ¬tail₁.reader.readOffset > file.length := Nat.not_lt.mpr hland.start.le
  unfold resyncIfJournalRewritten
  simp only [if_pos hpast, tail₀] at hreset ⊢
  simp only [hreset, if_neg hle]

theorem poll_served (h : PollReadable cfg.toRuntime file) : PollServed cfg file := by
  intro tail now startSeq hplaced
  have hfile := hplaced.journalFile
  by_cases hstart : startSeq = tail.reader.nextSeq
  · subst hstart
    simp only [poll, ReadsFrom, ne_eq, not_true_eq_false, ↓reduceIte]
    by_cases hpast : tail.reader.readOffset > file.length
    · obtain ⟨tail₁, o, hre, hbyte, hland⟩ := resync_rewritten h hfile hpast
      obtain ⟨tail', records, hread, hpolled⟩ := readNewRecords_landed h hfile hre hland now
      refine ⟨tail', o, records, hread, ?_, hpolled⟩
      rw [if_pos hpast]
      exact hbyte
    · have hline : LineStart file tail.reader.readOffset := hplaced.start.resolve_right hpast
      have hland : Landed tail tail file tail.reader.nextSeq tail.reader.readOffset :=
        ⟨hfile, hplaced.mark, rfl, hline, rfl, [], by simp, .inl rfl⟩
      obtain ⟨tail₂, hre, hland⟩ := hland.resync
      obtain ⟨tail', records, hread, hpolled⟩ := readNewRecords_landed h hfile hre hland now
      refine ⟨tail', tail.reader.readOffset, records, hread, ?_, hpolled⟩
      rw [if_neg hpast]
  · obtain ⟨P, -, -, -, hbyte⟩ := byteOffset_served h.seqs tail.journal.metaStore startSeq
    have hbyte : tail.journal.byteOffsetForSeq tail.disk startSeq = .ok P.length := by
      rw [TickJournal.byteOffsetForSeq, hfile, hbyte]
    obtain ⟨tail₁, hreset, hland⟩ := resetFromSeq_landed h hfile hbyte (.inl hstart)
    obtain ⟨tail₂, hre, hland₂⟩ := hland.resync
    obtain ⟨tail', records, hread, hpolled⟩ :=
      readNewRecords_landed h hland.journalFile hre hland₂ now
    refine ⟨tail', P.length, records, ?_, ?_, hpolled⟩
    · simp only [poll, ne_eq, hstart, not_false_eq_true, ↓reduceIte, hreset]
      exact hread
    · simp only [ReadsFrom, ne_eq, hstart, not_false_eq_true, ↓reduceIte]
      exact hbyte

end Tail

/-- The directory of a file. -/
def Disk.ofFile (file : Bytes) : Disk := { Disk.empty with journalFile := some file }

/-- A new reader of a file. -/
def newTail (store : MetaStore cfg) (file : Bytes) : Tail cfg :=
  ⟨.new 0, ⟨store, 0, false⟩, .ofFile file⟩

theorem placed_newTail (store : MetaStore cfg) (file : Bytes) : (newTail store file).Placed file :=
  ⟨rfl, rfl, .inl (.zero file)⟩

/-- **A poll is served exactly on the files that it can read.** -/
theorem poll_served_iff : PollServed cfg file ↔ PollReadable cfg.toRuntime file := by
  refine ⟨fun h => ?_, Tail.poll_served⟩
  have hseqs : SeqsCoerce cfg.toRuntime file := seqsCoerce_of_seeks fun store => by
    obtain ⟨-, o, -, -, hfrom, -⟩ := h (newTail store file) 0 2 (placed_newTail store file)
    exact ⟨o, hfrom⟩
  -- a new reader that reads the file from its start
  obtain ⟨tail', o, records, hpoll, -, -⟩ := h (newTail (.new none) file) 0 1 (placed_newTail _ file)
  obtain ⟨reader, -, hread⟩ := Tail.readNewRecords_marked
    (show (newTail (.new none : MetaStore cfg) file).disk.journalFile = some file from rfl)
    (Nat.zero_le _) rfl 0
  have hpoll : (newTail (.new none : MetaStore cfg) file).readNewRecords 0 = (tail', .ok records) :=
    hpoll
  rw [hpoll] at hread
  cases hlines : textLines file with
  | none =>
    obtain ⟨e, he⟩ := @Tail.readHandle_none cfg (.seek file 0) hlines 0
      ⟨reader, (newTail (.new none) file).journal, .ofFile file⟩
    cases (congrArg Prod.snd hread).trans he
  | some lines =>
    have hread := hread.trans (@Tail.readHandle_some cfg (.seek file 0) lines hlines 0 _)
    have hopen : Tail.OnlyLastOpen lines := fun A l B he hB => textLines_ended (he ▸ hlines) hB
    refine ⟨textLines_isSome.mp (by rw [hlines]; rfl), hseqs, ?_⟩
    rw [completeTexts_eq hlines]
    exact Tail.coerces_of_readLines hopen (congrArg Prod.snd hread.symm)

/-! ## Compactions -/

theorem compaction_served (h : CompactionReadable cfg.toRuntime file) : CompactionServed cfg file := by
  intro store disk minRetainSeq hfile
  obtain ⟨lines, hlines⟩ := Option.isSome_iff_exists.mp (textLines_isSome.mpr h.utf8)
  obtain ⟨hraw, hdecode⟩ := textLines_some hlines
  have hseqs : ∀ line ∈ lines, SeqCoerces cfg.toRuntime (objectOf (strip line.text)) :=
    fun line hline => h.seqs line.raw (by rw [← hraw]; exact List.mem_map_of_mem hline) line
      (hdecode line hline)
  obtain ⟨store', disk', n, hrun, hcompact⟩ :=
    compactBeforeSeq_served store hfile hlines hseqs minRetainSeq
  refine ⟨store', disk', n, hrun, hcompact.records, fun h2 => ⟨_, hcompact.quarantined h2, ?_⟩⟩
  intro text htext
  obtain ⟨hmem, hinv⟩ := List.mem_filter.mp htext
  simp only [isInvalid, Bool.and_eq_true, Option.isNone_iff_eq_none] at hinv
  have hnone : textSeq cfg.toRuntime text = none := by
    by_contra hsome
    have := h.whole text hmem (Option.isSome_iff_ne_none.mpr hsome)
    simp [hinv.2] at this
  refine List.mem_filter.mpr ⟨?_, by simp [isUnread, hnone]; simpa using hinv.1⟩
  rw [completeTexts_eq hlines] at hmem
  exact (textOf_sublist lines).mem hmem

/-- **A compaction is served exactly on the files that it can read.** -/
theorem compaction_served_iff :
    CompactionServed cfg file ↔ CompactionReadable cfg.toRuntime file := by
  refine ⟨fun h => ?_, compaction_served⟩
  obtain ⟨store', disk', n, hrun, -, hquar⟩ := h (.new none) (.ofFile file) 2 rfl
  obtain ⟨lines, hlines, hseqs⟩ := reads_of_compactBeforeSeq rfl (Nat.le_refl 2) hrun
  obtain ⟨hraw, hdecode⟩ := textLines_some hlines
  refine ⟨textLines_isSome.mp (by rw [hlines]; rfl), fun raw hmem line hline => ?_,
    fun text htext hsome => ?_⟩
  · obtain ⟨l, hl, rfl⟩ := List.mem_map.mp (hraw ▸ hmem)
    rw [hdecode l hl] at hline
    exact Option.some.inj hline ▸ hseqs l hl
  -- the line is not in the quarantine, so it is valid
  obtain ⟨store₂, disk₂, n₂, hrun₂, hcompact⟩ :=
    @compactBeforeSeq_served cfg (.new none) (.ofFile file) file lines rfl hlines hseqs 2
  obtain ⟨-, rfl, -⟩ : store' = store₂ ∧ disk' = disk₂ ∧ _ := by
    simpa using hrun.symm.trans hrun₂
  obtain ⟨quarantined, hq, hall⟩ := hquar (Nat.le_refl 2)
  obtain rfl := List.append_cancel_left (hq.symm.trans (hcompact.quarantined (Nat.le_refl 2)))
  by_contra hparsed
  have hne : text ≠ [] := fun he => by rw [he] at hsome; cases hsome
  have hinv : text ∈ invalidTexts cfg.toRuntime file :=
    List.mem_filter.mpr ⟨htext, by simpa [isInvalid, hne] using hparsed⟩
  have hunread := (List.mem_filter.mp (hall text hinv)).2
  simp only [isUnread, Bool.and_eq_true, Option.isNone_iff_eq_none] at hunread
  simp [hunread.2] at hsome

/-- **The readers are served exactly on the files that all three scanners can read.** -/
theorem readers_served_iff (cfg : Config) (file : Bytes) :
    ReadersServed cfg file ↔ Readable cfg file :=
  ⟨fun h => ⟨poll_served_iff.mp h.poll, seek_served_iff.mp h.seek,
      compaction_served_iff.mp h.compaction⟩,
    fun h => ⟨poll_served_iff.mpr h.poll, seek_served_iff.mpr h.seek,
      compaction_served_iff.mpr h.compaction⟩⟩

/-- The deployment of the README, with `int(x)` of a `float` that is no number as Python has it. -/
def Config.special : Config :=
  { Config.default with
    intOfFloat f :=
      if f.text = infText ∨ f.text = negInfText then
        .error (.overflowError "cannot convert float infinity to integer".toList)
      else .error (.valueError "cannot convert float NaN to integer".toList) }

/-- One complete line, a JSON object whose number is `Infinity`. -/
def infiniteSeqFile : Bytes := encodeUtf8 "\x7b\"seq\":Infinity\x7d\n".toList

/-- One complete line that is no UTF-8. -/
def notUtf8File : Bytes := [0xFF, LF]

/-- **One line with the number `Infinity` blocks the readers, and so does a line that is no UTF-8.**
-/
theorem infinite_seq_blocks :
    ¬ReadersServed .special infiniteSeqFile ∧ ¬ReadersServed .special notUtf8File := by
  constructor
  · intro h
    obtain ⟨tail', o, records, hpoll, -⟩ := h.poll (newTail (.new none) infiniteSeqFile) 0 1
      (placed_newTail _ _)
    have hraises : ((newTail (.new none : MetaStore .special) infiniteSeqFile).poll 0 1).2.isOk =
        false := by decide +kernel
    rw [hpoll] at hraises
    cases hraises
  · intro h
    obtain ⟨tail', o, records, hpoll, -⟩ := h.poll (newTail (.new none) notUtf8File) 0 1
      (placed_newTail _ _)
    have hraises : ((newTail (.new none : MetaStore .special) notUtf8File).poll 0 1).2.isOk =
        false := by decide +kernel
    rw [hpoll] at hraises
    cases hraises

end Leviathan
