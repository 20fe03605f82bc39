import Leviathan.Journal.Faults
import Leviathan.Journal.IndexSound
import Leviathan.Proofs.AnyContent

/-!
# Compaction of a mixed journal

Beside its records a journal file may hold blank lines and lines from which no sequence number can
be read, such as a line that was torn. `Mixed` is such a file.

* `compactBeforeSeq_mixed`: what a compaction of a mixed journal returns and leaves.
* `compacts_mixed`: it keeps the records from its watermark on, quarantines the rest, and its index
  points at the lines it wrote. A second one changes nothing.
* `compactionCorrect_iff`: **all of it holds exactly when no sequence number overflows.**
-/

namespace Leviathan

open Py

variable {cfg : Config} {rt : Runtime} {file : Bytes} {lines : List TextLine}

/-! ## Mixed journals -/

/-- The lines of a journal: those of records, as `append` writes them, in order; blank ones; and
ones whose sequence number cannot be read. -/
structure Mixed (rt : Runtime) (file : Bytes) (lines : List TextLine) : Prop where
  decoded : textLines file = some lines
  line : ∀ line ∈ lines, (∃ r : Rec rt, line.raw = recordBytes rt r) ∨ strip line.text = [] ∨
    textSeq rt (strip line.text) = none
  increasing : Increasing (recordsOf rt file)

/-- The lines that a compaction cannot read. -/
def invalidLines (rt : Runtime) (lines : List TextLine) : List Str :=
  (lines.map fun line => strip line.text).filter (isUnread rt)

/-- No sequence number on a line overflows. -/
def LinesCoerce (rt : Runtime) (lines : List TextLine) : Prop :=
  ∀ line ∈ lines, SeqCoerces rt (objectOf (strip line.text))

theorem objectOf_recordText (seq : Int) (tick : TickFields) :
    objectOf (recordText seq tick) = some [(seqKey, .int seq), (tickKey, tickToDict tick)] := by
  rw [objectOf, loads_recordText]
  rfl

theorem seqOf_recordDict (seq : Int) (tick : TickFields) :
    seqOf rt [(seqKey, .int seq), (tickKey, tickToDict tick)] = .ok seq := by
  rw [seqOf, getItem_seq]
  rfl

theorem recordOf_recordText (r : Rec rt) : recordOf rt (recordText r.1 r.2.fields) = some r := by
  have hparsed : parsed rt (recordText r.1 r.2.fields) = some ((r.1 : Int), r.2) := by
    rw [parsed, objectOf_recordText, Option.bind_some, recordFields_recordDict]
    rfl
  rw [recordOf_some hparsed (Int.natCast_nonneg _)]
  rfl

theorem parsed_of_unread {text : Str} (h : textSeq rt text = none) : parsed rt text = none := by
  unfold textSeq at h
  unfold parsed
  cases hrecord : objectOf text with
  | none => rfl
  | some record =>
    rw [hrecord, Option.bind_some] at h
    rw [Option.bind_some, recordFields_eq]
    cases hseq : seqOf rt record with
    | error e => rfl
    | ok seq =>
      rw [hseq] at h
      cases h

/-- The record on a line. -/
def lineRecord (rt : Runtime) (line : TextLine) : Option (Rec rt) := (textOf line).bind (recordOf rt)

/-- The text of a record that a compaction keeps. -/
def keptText (minRetainSeq : Nat) (r : Rec rt) : Option Str :=
  if minRetainSeq ≤ r.1 then some (recordText r.1 r.2.fields) else none

theorem strip_recordLine (r : Rec rt) : strip (recordLine r).text = recordText r.1 r.2.fields :=
  (strip_encodeRecord r.1 r.2.fields).1

theorem lineRecord_recordLine (r : Rec rt) : lineRecord rt (recordLine r) = some r := by
  rw [lineRecord, textOf_complete (endsWithNewline_recordLine r), strip_recordLine,
    Option.bind_some, recordOf_recordText]

theorem lineRecord_unread {line : TextLine} (h : textSeq rt (strip line.text) = none) :
    lineRecord rt line = none := by
  unfold lineRecord textOf
  split
  · exact recordOf_none (parsed_of_unread h)
  · rfl

theorem recordsOf_lines (h : textLines file = some lines) :
    recordsOf rt file = lines.filterMap (lineRecord rt) := by
  rw [recordsOf, completeTexts_eq h, List.filterMap_filterMap]
  rfl

namespace Mixed

variable (h : Mixed rt file lines)
include h

theorem line_cases {line : TextLine} (hl : line ∈ lines) :
    (∃ r : Rec rt, line = recordLine r) ∨ textSeq rt (strip line.text) = none := by
  rcases h.line line hl with ⟨r, hr⟩ | hblank | hunread
  · have hdecode := (textLines_some h.decoded).2 line hl
    rw [hr, decodeLine_recordBytes] at hdecode
    exact .inl ⟨r, (Option.some.inj hdecode).symm⟩
  · rw [hblank]
    exact .inr rfl
  · exact .inr hunread

/-- What a compaction keeps of a line. -/
theorem kept_line (minRetainSeq : Nat) {line : TextLine} (hl : line ∈ lines) :
    kept rt minRetainSeq (strip line.text) =
      (lineRecord rt line).bind (keptText minRetainSeq) := by
  rcases h.line_cases hl with ⟨r, rfl⟩ | hunread
  · rw [lineRecord_recordLine, strip_recordLine, kept, objectOf_recordText, Option.bind_some,
      Option.bind_some, keptText]
    simp only [seqOf_recordDict, Nat.cast_lt]
    by_cases hle : minRetainSeq ≤ r.1
    · rw [if_pos hle, if_neg (Nat.not_lt.mpr hle)]
      rfl
    · rw [if_neg hle, if_pos (Nat.not_le.mp hle)]
  · rw [lineRecord_unread hunread]
    unfold textSeq at hunread
    unfold kept
    cases hrecord : objectOf (strip line.text) with
    | none => rfl
    | some record =>
      rw [hrecord, Option.bind_some] at hunread
      cases hseq : seqOf rt record with
      | error e => simp [hseq]
      | ok seq =>
        rw [hseq] at hunread
        cases hunread

theorem isDropped_line (minRetainSeq : Nat) {line : TextLine} (hl : line ∈ lines) :
    isDropped rt minRetainSeq (strip line.text) =
      ((lineRecord rt line).map fun r => decide (r.1 < minRetainSeq)).getD false := by
  rcases h.line_cases hl with ⟨r, rfl⟩ | hunread
  · rw [lineRecord_recordLine, strip_recordLine, isDropped, textSeq, objectOf_recordText,
      Option.bind_some, seqOf_recordDict]
    simp [Except.toOption]
  · rw [lineRecord_unread hunread, isDropped, hunread]
    rfl

theorem retained (minRetainSeq : Nat) :
    (lines.map fun line => strip line.text).filterMap (kept rt minRetainSeq) =
      (since minRetainSeq (recordsOf rt file)).map fun r => recordText r.1 r.2.fields := by
  have hkept : ∀ rs : List (Rec rt), rs.filterMap (keptText minRetainSeq) =
      (since minRetainSeq rs).map fun r => recordText r.1 r.2.fields := by
    intro rs
    induction rs with
    | nil => rfl
    | cons r rs ih =>
      by_cases hle : minRetainSeq ≤ r.1
      · simpa [keptText, since, hle] using ih
      · simpa [keptText, since, hle] using ih
  rw [List.filterMap_map, recordsOf_lines h.decoded, ← hkept, List.filterMap_filterMap]
  exact List.filterMap_congr fun line hl => h.kept_line minRetainSeq hl

theorem removed (minRetainSeq : Nat) :
    ((lines.map fun line => strip line.text).filter (isDropped rt minRetainSeq)).length =
      ((recordsOf rt file).filter fun r => r.1 < minRetainSeq).length := by
  rw [← List.countP_eq_length_filter, ← List.countP_eq_length_filter, List.countP_map,
    recordsOf_lines h.decoded, List.countP_filterMap]
  exact List.countP_congr fun line hl => by
    rw [Function.comp_apply, h.isDropped_line minRetainSeq hl]

end Mixed

/-! ## One compaction -/

/-- **What a compaction of a mixed journal returns and leaves.** -/
theorem compactBeforeSeq_mixed (h : Mixed cfg.toRuntime file lines)
    (hno : LinesCoerce cfg.toRuntime lines) (store : MetaStore cfg) {disk : Disk}
    (hfile : disk.journalFile = some file) {minRetainSeq : Nat} (h2 : 1 < minRetainSeq) :
    ∃ quarantined : List QuarantineLine,
      quarantined.map QuarantineLine.line = invalidLines cfg.toRuntime lines ∧
      store.compactBeforeSeq disk minRetainSeq =
        if since minRetainSeq (recordsOf cfg.toRuntime file) = recordsOf cfg.toRuntime file ∧
            quarantined = [] then (store, disk, .ok 0)
        else
          let rs := since minRetainSeq (recordsOf cfg.toRuntime file)
          let after := (store.replaceSeqIndex (MetaStore.compactedIndex cfg rs)).persist
            disk.metaFile
          (after.1, { disk with
              journalFile := some (journalBytes rs)
              metaFile := after.2
              quarantineFile := disk.quarantineFile ++ quarantined },
            .ok ((recordsOf cfg.toRuntime file).filter fun r => r.1 < minRetainSeq).length) := by
  have hpass := @compactPass_served cfg.toRuntime minRetainSeq (lines.map TextLine.text)
    fun text htext => by
      obtain ⟨line, hline, rfl⟩ := List.mem_map.mp htext
      exact hno line hline
  have hstrip : (lines.map TextLine.text).map strip = lines.map fun line => strip line.text := by
    rw [List.map_map]
    rfl
  rw [hstrip] at hpass
  generalize hp : compactPass cfg.toRuntime minRetainSeq (lines.map TextLine.text) = pass at hpass
  refine ⟨pass.quarantined, hpass.quarantined, ?_⟩
  have hretained := hpass.retained.trans (h.retained minRetainSeq)
  have hremoved := hpass.removed.trans (h.removed minRetainSeq)
  have hskipped : pass.skippedInvalid = 0 ↔ pass.quarantined = [] := by
    rw [hpass.skippedInvalid, ← hpass.quarantined, List.length_map, List.length_eq_zero_iff]
  have hall : pass.removed = 0 ↔
      since minRetainSeq (recordsOf cfg.toRuntime file) = recordsOf cfg.toRuntime file := by
    rw [hremoved, List.length_eq_zero_iff, List.filter_eq_nil_iff, since, List.filter_eq_self]
    simp
  have hmin : ¬minRetainSeq ≤ 1 := by omega
  simp only [MetaStore.compactBeforeSeq, if_neg hmin, hfile, textRead_some h.decoded, hp,
    hpass.raised, hall, hskipped, Bool.false_eq_true, ↓reduceIte]
  split
  · rename_i hnone
    rw [hnone.2, List.append_nil, ← hfile]
  · rw [hretained, rebuildJournal_records, hremoved]
    rfl

/-! ## What a compaction is for -/

/-- The index of a file that holds one line for each of the records `rs`. -/
structure Rebuilt (rt : Runtime) (rs : List (Rec rt)) (journalFile : Option Bytes)
    (index : List (Nat × Nat)) : Prop where
  file : ∃ file, journalFile = some file ∧ universalLines file = rs.map (recordBytes rt)
  /-- an entry points to the first byte of the line of its record -/
  entries : ∀ entry ∈ index, entry ≠ (0, 0) →
    ∃ A r B, rs = A ++ r :: B ∧ entry = (r.1, (A.map (recordBytes rt)).flatten.length)
  sorted : index.Pairwise fun e e' => e.1 < e'.1
  length : index.length ≤ 256

/-- A compaction with the watermark `minRetainSeq` has this outcome. -/
structure Compacts (store : MetaStore cfg) (disk : Disk) (file : Bytes) (lines : List TextLine)
    (minRetainSeq : Nat) (outcome : MetaStore cfg × Disk × Except PyError Nat) : Prop where
  records : ∃ file', outcome.2.1.journalFile = some file' ∧ recordsOf cfg.toRuntime file' =
    (recordsOf cfg.toRuntime file).filter fun r => minRetainSeq ≤ r.1
  removed : outcome.2.2 =
    .ok ((recordsOf cfg.toRuntime file).filter fun r => r.1 < minRetainSeq).length
  quarantined : outcome.2.1.quarantined = disk.quarantined ++ invalidLines cfg.toRuntime lines
  rewritten : (∃ r ∈ recordsOf cfg.toRuntime file, r.1 < minRetainSeq) ∨
      invalidLines cfg.toRuntime lines ≠ [] →
    Rebuilt cfg.toRuntime ((recordsOf cfg.toRuntime file).filter fun r => minRetainSeq ≤ r.1)
      outcome.2.1.journalFile outcome.1.seqIndex
  untouched : (∀ r ∈ recordsOf cfg.toRuntime file, minRetainSeq ≤ r.1) →
    invalidLines cfg.toRuntime lines = [] →
      outcome.2.1.journalFile = disk.journalFile ∧ outcome.1.seqIndex = store.seqIndex
  again : outcome.1.compactBeforeSeq outcome.2.1 minRetainSeq = (outcome.1, outcome.2.1, .ok 0)

/-- **Compaction is correct** on a file with these lines. -/
structure CompactionCorrect (store : MetaStore cfg) (disk : Disk) (file : Bytes)
    (lines : List TextLine) (minRetainSeq : Nat) : Prop where
  compacts : Compacts store disk file lines minRetainSeq (store.compactBeforeSeq disk minRetainSeq)
  /-- the write of the temporary file raises -/
  fault : ∀ after disk', store.compactBeforeSeqFaulty true disk minRetainSeq = (after, disk', none) →
    disk'.journalFile = disk.journalFile ∧ after.seqIndex = store.seqIndex
  idle : ∀ lastProcessedSeq lagSeq, 0 < lagSeq → lastProcessedSeq ≤ lagSeq + 1 →
    store.maybeCompact disk lastProcessedSeq lagSeq = (store, disk, .ok 0)
  lagging : ∀ lagSeq, 0 < lagSeq → Compacts store disk file lines minRetainSeq
    (store.maybeCompact disk (lagSeq + minRetainSeq) lagSeq)

theorem recordsOf_journalBytes (rs : List (Rec rt)) : recordsOf rt (journalBytes rs) = rs := by
  rw [recordsOf, completeTexts_eq (textLines_records rs), List.filterMap_filterMap,
    List.filterMap_map]
  exact (List.filterMap_congr fun r _ => lineRecord_recordLine r).trans List.filterMap_some

theorem seqIndex_persist (store : MetaStore cfg) (metaFile : Option MetaPayload) :
    (store.persist metaFile).1.seqIndex = store.seqIndex := by
  rw [MetaStore.persist_eq]
  split <;> rfl

/-- **The index of a compaction.** -/
theorem rebuilt_compactedIndex {rs : List (Rec cfg.toRuntime)} (hinc : Increasing rs)
    (h2 : ∀ r ∈ rs, 2 ≤ r.1) : Rebuilt cfg.toRuntime rs (some (journalBytes rs))
      (MetaStore.compactedIndex cfg rs) := by
  refine ⟨⟨_, rfl, ?_⟩, fun entry hentry hne => ?_, (shaped_compactedIndex hinc h2).sorted, ?_⟩
  · rw [← (textLines_some (textLines_records rs)).1, List.map_map]
    rfl
  · rcases List.mem_cons.mp (List.mem_of_mem_drop hentry) with rfl | hmem
    · exact absurd rfl hne
    · obtain ⟨A, r, B, hrs, he⟩ := mem_rebuiltIndex hmem
      refine ⟨A, r, B, hrs, ?_⟩
      rw [he, Nat.zero_add]
      rfl
  · have hmax : seqIndexMaxEntries = 256 := by unfold seqIndexMaxEntries; rfl
    rw [MetaStore.compactedIndex, trimIndex, SymbolDedupBucket.lastN, List.length_drop, hmax]
    omega

theorem compacts_mixed (h : Mixed cfg.toRuntime file lines)
    (hno : LinesCoerce cfg.toRuntime lines) (store : MetaStore cfg) {disk : Disk}
    (hfile : disk.journalFile = some file) {minRetainSeq : Nat} (h2 : 1 < minRetainSeq) :
    Compacts store disk file lines minRetainSeq (store.compactBeforeSeq disk minRetainSeq) := by
  obtain ⟨quarantined, hq, hrun⟩ := compactBeforeSeq_mixed h hno store hfile h2
  have hall : since minRetainSeq (recordsOf cfg.toRuntime file) = recordsOf cfg.toRuntime file ↔
      ∀ r ∈ recordsOf cfg.toRuntime file, minRetainSeq ≤ r.1 := by
    simp [since, List.filter_eq_self]
  have hnone : quarantined = [] ↔ invalidLines cfg.toRuntime lines = [] := by
    rw [← hq, List.map_eq_nil_iff]
  by_cases hidle : since minRetainSeq (recordsOf cfg.toRuntime file) =
      recordsOf cfg.toRuntime file ∧ quarantined = []
  · rw [if_pos hidle] at hrun
    obtain ⟨hkeeps, hvalid⟩ := hidle
    have hge := hall.mp hkeeps
    rw [hrun]
    refine ⟨⟨file, hfile, hkeeps.symm⟩, ?_, ?_, ?_, fun _ _ => ⟨rfl, rfl⟩, hrun⟩
    · have hdropped : (recordsOf cfg.toRuntime file).filter (fun r => r.1 < minRetainSeq) = [] := by
        simpa [List.filter_eq_nil_iff] using fun seq tick hr => hge (seq, tick) hr
      rw [hdropped]
      rfl
    · rw [hnone.mp hvalid, List.append_nil]
    · rintro (⟨r, hr, hlt⟩ | hinvalid)
      · exact absurd (hge r hr) (Nat.not_le.mpr hlt)
      · exact absurd (hnone.mp hvalid) hinvalid
  · rw [if_neg hidle] at hrun
    have hinc : Increasing (since minRetainSeq (recordsOf cfg.toRuntime file)) :=
      h.increasing.sublist List.filter_sublist
    have htwo : ∀ r ∈ since minRetainSeq (recordsOf cfg.toRuntime file), 2 ≤ r.1 := by
      intro r hr
      have hle : minRetainSeq ≤ r.1 := by simpa using (List.mem_filter.mp hr).2
      omega
    rw [hrun]
    refine ⟨⟨_, rfl, recordsOf_journalBytes _⟩, rfl, ?_, fun _ => ?_, fun hge hvalid => ?_, ?_⟩
    · rw [← hq]
      exact List.map_append
    · simp only [seqIndex_persist]
      exact rebuilt_compactedIndex hinc htwo
    · exact absurd ⟨hall.mpr hge, hnone.mpr hvalid⟩ hidle
    · have hkept : since minRetainSeq (since minRetainSeq (recordsOf cfg.toRuntime file)) =
          since minRetainSeq (recordsOf cfg.toRuntime file) := by
        rw [since, since, List.filter_filter]
        simp
      exact (MetaStore.compactBeforeSeq_records _ (.inr rfl) minRetainSeq).trans
        (if_pos (.inr hkept))

/-- **Compaction of a mixed journal is correct, exactly when no sequence number overflows.** -/
theorem compactionCorrect_iff (h : Mixed cfg.toRuntime file lines) (store : MetaStore cfg)
    {disk : Disk} (hfile : disk.journalFile = some file) {minRetainSeq : Nat}
    (h2 : 1 < minRetainSeq) : CompactionCorrect store disk file lines minRetainSeq ↔
      LinesCoerce cfg.toRuntime lines := by
  constructor
  · intro hc
    have hrun : store.compactBeforeSeq disk minRetainSeq =
        ((store.compactBeforeSeq disk minRetainSeq).1, (store.compactBeforeSeq disk minRetainSeq).2.1,
          .ok _) := Prod.ext rfl (Prod.ext rfl hc.compacts.removed)
    obtain ⟨lines', hlines', hno⟩ := reads_of_compactBeforeSeq hfile h2 hrun
    obtain rfl : lines' = lines := Option.some.inj (hlines'.symm.trans h.decoded)
    exact hno
  · intro hno
    have hcompacts := compacts_mixed h hno store hfile h2
    refine ⟨hcompacts, fun after disk' hraised => ?_, fun last lag hpos hle => ?_,
      fun lag hpos => ?_⟩
    · have hkept := store.compactBeforeSeqFaulty_true disk minRetainSeq
      rw [hraised] at hkept
      exact ⟨hkept.2, congrArg MetaStore.seqIndex hkept.1⟩
    · unfold MetaStore.maybeCompact
      rw [if_neg (by omega)]
      split
      · rfl
      · have hmin : max 1 (last - lag) ≤ 1 := by omega
        rw [MetaStore.compactBeforeSeq, if_pos hmin]
    · have hwatermark : max 1 (lag + minRetainSeq - lag) = minRetainSeq := by omega
      unfold MetaStore.maybeCompact
      rw [if_neg (by omega), if_neg (by omega), hwatermark]
      exact hcompacts

/-! ## Two files -/

def firstRecord : Rec Config.default.toRuntime := (1, readmeTick ['B'] ['1'])
def secondRecord : Rec Config.default.toRuntime := (2, readmeTick ['B'] ['2'])

/-- Two records, a blank line, one that is no JSON and one that is cut off. -/
def mixedLines : List TextLine :=
  [recordLine firstRecord, ⟨[LF], ['\n']⟩, ⟨encodeUtf8 ['x', '\n'], ['x', '\n']⟩,
    recordLine secondRecord, ⟨encodeUtf8 ['{'], ['{']⟩]

def mixedFile : Bytes := (mixedLines.map TextLine.raw).flatten

theorem mixedFile_decoded : textLines mixedFile = some mixedLines := by decide +kernel

theorem objectOf_mixedLines {line : TextLine} (h : line ∈ mixedLines) :
    (∃ r : Rec Config.default.toRuntime, line = recordLine r) ∨
      objectOf (strip line.text) = none := by
  simp only [mixedLines, List.mem_cons, List.not_mem_nil, or_false] at h
  rcases h with rfl | rfl | rfl | rfl | rfl
  · exact .inl ⟨_, rfl⟩
  · exact .inr rfl
  · exact .inr rfl
  · exact .inl ⟨_, rfl⟩
  · exact .inr rfl

theorem mixed_mixedFile : Mixed Config.default.toRuntime mixedFile mixedLines := by
  refine ⟨mixedFile_decoded, fun line hline => ?_, ?_⟩
  · rcases objectOf_mixedLines hline with ⟨r, rfl⟩ | hnone
    · exact .inl ⟨r, rfl⟩
    · exact .inr (.inr (by rw [textSeq, hnone, Option.bind_none]))
  · rw [recordsOf_lines mixedFile_decoded, mixedLines,
      List.filterMap_cons_some (lineRecord_recordLine _),
      List.filterMap_cons_none (lineRecord_unread rfl),
      List.filterMap_cons_none (lineRecord_unread rfl),
      List.filterMap_cons_some (lineRecord_recordLine _),
      List.filterMap_cons_none (lineRecord_unread rfl)]
    exact List.pairwise_pair.mpr (by decide)

/-- **A compaction of these lines is correct.** -/
theorem compactionCorrect_mixedFile :
    CompactionCorrect (.new none : MetaStore .default) (.ofFile mixedFile) mixedFile mixedLines 2 := by
  refine (compactionCorrect_iff mixed_mixedFile _ rfl (by decide)).mpr fun line hline => ?_
  rcases objectOf_mixedLines hline with ⟨r, rfl⟩ | hnone
  · rw [strip_recordLine, objectOf_recordText]
    rintro record hrecord ⟨text, htext⟩
    cases hrecord
    rw [seqOf_recordDict] at htext
    cases htext
  · rw [hnone]
    exact nofun

/-- The line of `infiniteSeqFile`. -/
def infiniteSeqLine : TextLine := ⟨infiniteSeqFile, "\x7b\"seq\":Infinity\x7d\n".toList⟩

/-- **The number `Infinity` on a line that should be skipped ends a compaction.** -/
theorem infinite_seq_not_skipped :
    Mixed Config.special.toRuntime infiniteSeqFile [infiniteSeqLine] ∧
      ¬CompactionCorrect (.new none : MetaStore .special) (.ofFile infiniteSeqFile) infiniteSeqFile
        [infiniteSeqLine] 2 := by
  have hdecoded : textLines infiniteSeqFile = some [infiniteSeqLine] := by decide +kernel
  have hunread : textSeq Config.special.toRuntime (strip infiniteSeqLine.text) = none := by
    decide +kernel
  refine ⟨⟨hdecoded, fun line hline => ?_, ?_⟩, fun h => ?_⟩
  · rw [List.mem_singleton.mp hline]
    exact .inr (.inr hunread)
  · rw [recordsOf_lines hdecoded, List.filterMap_cons_none (lineRecord_unread hunread)]
    exact .nil
  · have hraises : ((.new none : MetaStore .special).compactBeforeSeq (.ofFile infiniteSeqFile)
        2).2.2.isOk = false := by decide +kernel
    rw [h.compacts.removed] at hraises
    cases hraises

end Leviathan
