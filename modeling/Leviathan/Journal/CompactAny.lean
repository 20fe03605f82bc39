import Leviathan.Journal.Scanners

/-!
# Compaction of any content

A compaction reads the object and the sequence number of each line, and no more.

* `compactPass_served`: without an overflow, the first pass quarantines the lines whose sequence
  number it cannot read and keeps the objects from the watermark on.
* `recordsOf_rebuilt`: a line that is written again holds what it held before.
* `compactBeforeSeq_served`: every record from the watermark on is in the new file.
-/

namespace Leviathan

open Py

variable {rt : Runtime}

/-! ## The first pass -/

/-- The sequence number that a compaction reads on a line, by `json.loads` and `int(record["seq"])`.
-/
def textSeq (rt : Runtime) (text : Str) : Option Int :=
  (objectOf text).bind fun record => (seqOf rt record).toOption

/-- The text is not blank, and a compaction cannot read its sequence number; it goes to the
quarantine. -/
def isUnread (rt : Runtime) (text : Str) : Bool := text ≠ [] && (textSeq rt text).isNone

/-- A compaction drops the text and counts it: its number is below the watermark. -/
def isDropped (rt : Runtime) (minRetainSeq : Nat) (text : Str) : Bool :=
  (textSeq rt text).any fun seq => seq < (minRetainSeq : Int)

/-- What a compaction writes for a text: the object as `dumps` writes it, if its number is not below
the watermark. -/
def kept (rt : Runtime) (minRetainSeq : Nat) (text : Str) : Option Str :=
  (objectOf text).bind fun record =>
    match seqOf rt record with
    | .ok seq => if seq < minRetainSeq then none else some (dumps (.obj record))
    | .error _ => none

/-- The first pass at one line: it is kept, dropped, quarantined or blank, and adds to one of the
four results at most. -/
theorem compactPass_cons (minRetainSeq : Nat) {line : Str} (lines : List Str)
    (h : SeqCoerces rt (objectOf (strip line))) :
    (compactPass rt minRetainSeq (line :: lines)).raised =
        (compactPass rt minRetainSeq lines).raised ∧
      (compactPass rt minRetainSeq (line :: lines)).retained =
        (kept rt minRetainSeq (strip line)).toList ++ (compactPass rt minRetainSeq lines).retained ∧
      (compactPass rt minRetainSeq (line :: lines)).quarantined.map QuarantineLine.line =
        [strip line].filter (isUnread rt) ++
          (compactPass rt minRetainSeq lines).quarantined.map QuarantineLine.line ∧
      (compactPass rt minRetainSeq (line :: lines)).removed =
        ([strip line].filter (isDropped rt minRetainSeq)).length +
          (compactPass rt minRetainSeq lines).removed ∧
      (compactPass rt minRetainSeq (line :: lines)).skippedInvalid =
        ([strip line].filter (isUnread rt)).length +
          (compactPass rt minRetainSeq lines).skippedInvalid := by
  rw [compactPass]
  by_cases hblank : strip line = []
  · simp [hblank, kept, isUnread, isDropped, textSeq, objectOf_nil]
  simp only [if_neg hblank]
  cases hrecord : objectOf (strip line) with
  | none =>
    obtain ⟨e, reason, he, hcaught⟩ := @loadRecordSeq_other rt _ hrecord
    simp [he, hcaught, kept, isUnread, isDropped, textSeq, hrecord, hblank, Nat.add_comm]
  | some record =>
    have hno := h record hrecord
    rw [loadRecordSeq_object hrecord]
    cases hseq : seqOf rt record with
    | error e =>
      rw [hseq] at hno
      obtain ⟨reason, hcaught⟩ := caught_of_not_overflows hno
      simp [Except.map, hcaught, kept, isUnread, isDropped, textSeq, hrecord, hblank, hseq,
        Except.toOption, Nat.add_comm]
    | ok seq =>
      by_cases hlt : seq < minRetainSeq
      · simp [Except.map, hlt, kept, isUnread, isDropped, textSeq, hrecord, hseq, Except.toOption,
          Nat.add_comm]
      · simp [Except.map, hlt, kept, isUnread, isDropped, textSeq, hrecord, hseq, Except.toOption]

/-- What the first pass has made of the stripped lines: which are kept, which are quarantined, and
how many were dropped. -/
structure Passed (rt : Runtime) (minRetainSeq : Nat) (texts : List Str) (pass : CompactPass) :
    Prop where
  raised : pass.raised = none
  retained : pass.retained = texts.filterMap (kept rt minRetainSeq)
  quarantined : pass.quarantined.map QuarantineLine.line = texts.filter (isUnread rt)
  removed : pass.removed = (texts.filter (isDropped rt minRetainSeq)).length
  skippedInvalid : pass.skippedInvalid = (texts.filter (isUnread rt)).length

/-- **The first pass of lines without an overflow** ends without an exception, and has sorted every
line. -/
theorem compactPass_served (minRetainSeq : Nat) {lines : List Str}
    (h : ∀ line ∈ lines, SeqCoerces rt (objectOf (strip line))) :
    Passed rt minRetainSeq (lines.map strip) (compactPass rt minRetainSeq lines) := by
  induction lines with
  | nil => exact ⟨rfl, rfl, rfl, rfl, rfl⟩
  | cons line lines ih =>
    obtain ⟨h₁, h₂, h₃, h₄, h₅⟩ := compactPass_cons minRetainSeq lines (h line (by simp))
    have ih := ih fun l hl => h l (by simp [hl])
    have hcons : (line :: lines).map strip = [strip line] ++ lines.map strip := rfl
    refine ⟨h₁.trans ih.raised, ?_, ?_, ?_, ?_⟩
    · rw [h₂, ih.retained, List.map_cons, List.filterMap_cons]
      cases kept rt minRetainSeq (strip line) <;> rfl
    · rw [h₃, ih.quarantined, ← List.filter_append]
      rfl
    · rw [h₄, ih.removed, hcons, List.filter_append, List.length_append]
    · rw [h₅, ih.skippedInvalid, hcons, List.filter_append, List.length_append]

/-- A pass that ends without an exception has read no number that overflows, as that is not among
what it catches. -/
theorem coerces_of_compactPass {minRetainSeq : Nat} {lines : List Str}
    (h : (compactPass rt minRetainSeq lines).raised = none) :
    ∀ line ∈ lines, SeqCoerces rt (objectOf (strip line)) := by
  induction lines with
  | nil => simp
  | cons line lines ih =>
    have hline : SeqCoerces rt (objectOf (strip line)) := by
      intro record hrecord hover
      have hblank : strip line ≠ [] := fun he => by rw [he] at hrecord; cases hrecord
      obtain ⟨text, htext⟩ := hover
      rw [compactPass] at h
      simp [hblank, loadRecordSeq_object hrecord, htext, Except.map, PyError.caught?] at h
    rw [(compactPass_cons minRetainSeq lines hline).1] at h
    exact List.forall_mem_cons.mpr ⟨hline, ih h⟩

/-! ## The second pass -/

/-- The lines of an object that a compaction wrote: `dumps` of an object whose number can be read
again. -/
def Written (rt : Runtime) (line : Str) : Prop :=
  ∃ record seq, line = dumps (.obj record) ∧ (Json.obj record).Wf ∧ seqOf rt record = .ok seq

/-- What a compaction keeps it writes as such a line, so the second pass can read it. -/
theorem written_kept {minRetainSeq : Nat} {text line : Str}
    (h : kept rt minRetainSeq text = some line) : Written rt line := by
  obtain ⟨record, hrecord, hline⟩ := Option.bind_eq_some_iff.mp h
  split at hline
  · rename_i seq hseq
    split at hline
    · cases hline
    · exact ⟨record, seq, (Option.some.inj hline).symm, objectOf_wf hrecord, hseq⟩
  · cases hline

theorem objectOf_dumps {record : Dict Str Json} (h : (Json.obj record).Wf) :
    objectOf (dumps (.obj record)) = some record := by
  rw [objectOf, loads_dumps h]

/-- The bytes of written lines. -/
def writtenBytes (lines : List Str) : Bytes :=
  (lines.map fun line => encodeUtf8 (line ++ ['\n'])).flatten

/-- The second pass raises nothing on such lines, and writes each with a `\n`. -/
theorem rebuildJournal_served {cfg : Config} {lines : List Str}
    (h : ∀ line ∈ lines, Written cfg.toRuntime line) (first : Bool) (byteOffset : Nat) :
    ∃ index, rebuildJournal cfg first byteOffset lines = .ok (writtenBytes lines, index) := by
  induction lines generalizing first byteOffset with
  | nil => exact ⟨[], rfl⟩
  | cons line lines ih =>
    obtain ⟨record, seq, hline, hwf, hseq⟩ := h line (by simp)
    have hload : loadRecordSeq cfg.toRuntime line = .ok (record, seq) := by
      rw [hline, loadRecordSeq_object (objectOf_dumps hwf), hseq]
      rfl
    obtain ⟨index, hindex⟩ := ih (fun l hl => h l (by simp [hl])) false
      (byteOffset + (encodeUtf8 (line ++ ['\n'])).length)
    rw [rebuildJournal, hload]
    simp only [bind, Except.bind, hindex]
    split <;> exact ⟨_, rfl⟩

theorem strip_written {record : Dict Str Json} :
    strip (dumps (.obj record) ++ ['\n']) = dumps (.obj record) := by
  obtain ⟨u, hu⟩ := dumpsMembers_last record
  have hd : dumps (.obj record) = '{' :: u ++ ['}'] := by rw [dumps, hu]; rfl
  rw [hd]
  exact stripBy_ends_space u (by decide) (by decide) (by decide)

/-- **A line that is written again holds what it held before.** -/
theorem completeTexts_written {lines : List Str} (h : ∀ line ∈ lines, Written rt line) :
    completeTexts (writtenBytes lines) = lines := by
  have hframed : ∀ l ∈ lines.map fun line => encodeUtf8 (line ++ ['\n']), Framed l := by
    intro l hl
    obtain ⟨line, hline, rfl⟩ := List.mem_map.mp hl
    obtain ⟨record, -, rfl, -, -⟩ := h line hline
    exact framed_printable (printable_dumps _)
  have hlines := universalLines_flatten hframed []
  rw [List.append_nil, universalLines, List.append_nil] at hlines
  rw [completeTexts, writtenBytes, hlines, List.filterMap_map]
  refine (List.filterMap_congr fun line hline => ?_).trans List.filterMap_some
  obtain ⟨record, -, rfl, -, -⟩ := h line hline
  rw [Function.comp_apply, (decodeLine_printable (printable_dumps _)).1]
  have hcomplete : endsWithNewline (dumps (.obj record) ++ ['\n']) = true := by
    simp [endsWithNewline]
  simp [textOf, hcomplete, strip_written]

/-! ## The records of the new file -/

/-- A kept text holds the record that it held before, and every record from the watermark on is
kept. -/
theorem recordOf_kept (minRetainSeq : Nat) (text : Str) :
    (kept rt minRetainSeq text).bind (recordOf rt) =
      (recordOf rt text).filter fun r => minRetainSeq ≤ r.1 := by
  unfold kept recordOf parsed
  cases hrecord : objectOf text with
  | none => rfl
  | some record =>
    simp only [Option.bind_some]
    have hfields := @recordFields_eq rt record
    cases hseq : seqOf rt record with
    | error e => simp [hfields, hseq, Except.bind, Except.toOption]
    | ok seq =>
      by_cases hlt : seq < minRetainSeq
      · -- the record is before the watermark
        simp only [if_pos hlt, Option.bind_none]
        cases hrest : (do tickFromDict rt (← getItem record tickKey)) with
        | error e => simp [hfields, hseq, Except.bind, hrest, Except.map, Except.toOption]
        | ok tick =>
          simp only [hfields, hseq, Except.bind, hrest, Except.map, Except.toOption,
            Option.bind_some]
          split
          · rfl
          · rw [Option.filter_some, if_neg (by simp; omega)]
      · simp only [if_neg hlt, Option.bind_some, objectOf_dumps (objectOf_wf hrecord)]
        cases hrest : (do tickFromDict rt (← getItem record tickKey)) with
        | error e => simp [hfields, hseq, Except.bind, hrest, Except.map, Except.toOption]
        | ok tick =>
          have hneg : ¬seq < 0 := by omega
          simp only [hfields, hseq, Except.bind, hrest, Except.map, Except.toOption,
            Option.bind_some, if_neg hneg]
          rw [Option.filter_some, if_pos (by simp; omega)]

theorem recordsOf_written {lines : List Str} (h : ∀ line ∈ lines, Written rt line) :
    recordsOf rt (writtenBytes lines) = lines.filterMap (recordOf rt) := by
  rw [recordsOf, completeTexts_written h]

theorem textOf_sublist (lines : List TextLine) :
    (lines.filterMap textOf).Sublist (lines.map fun line => strip line.text) := by
  induction lines with
  | nil => exact .slnil
  | cons line lines ih =>
    rw [List.map_cons]
    cases hline : endsWithNewline line.text with
    | false =>
      rw [List.filterMap_cons_none (textOf_open hline)]
      exact ih.cons _
    | true =>
      rw [List.filterMap_cons_some (textOf_complete hline)]
      exact ih.cons_cons _

/-- What a compaction leaves: every record from the watermark on, in the old order, and one line in
the quarantine for each that it could not read. -/
structure Compacted (rt : Runtime) (disk disk' : Disk) (file : Bytes) (lines : List TextLine)
    (minRetainSeq : Nat) : Prop where
  records : ∃ file', disk'.journalFile = some file' ∧
    ((recordsOf rt file).filter fun r => minRetainSeq ≤ r.1).Sublist (recordsOf rt file')
  quarantined : 2 ≤ minRetainSeq → disk'.quarantined =
    disk.quarantined ++ (lines.map fun line => strip line.text).filter (isUnread rt)

/-- **A compaction of lines without an overflow keeps every record from the watermark on.** -/
theorem compactBeforeSeq_served {cfg : Config} (store : MetaStore cfg) {disk : Disk} {file : Bytes}
    {lines : List TextLine} (hfile : disk.journalFile = some file)
    (hlines : textLines file = some lines)
    (h : ∀ line ∈ lines, SeqCoerces cfg.toRuntime (objectOf (strip line.text)))
    (minRetainSeq : Nat) :
    ∃ store' disk' n, store.compactBeforeSeq disk minRetainSeq = (store', disk', .ok n) ∧
      Compacted cfg.toRuntime disk disk' file lines minRetainSeq := by
  unfold MetaStore.compactBeforeSeq
  by_cases hmin : minRetainSeq ≤ 1
  · simp only [if_pos hmin]
    exact ⟨store, disk, 0, rfl, ⟨file, hfile, List.filter_sublist⟩, fun h2 => by omega⟩
  obtain ⟨hraised, hretained, hquarantined, -, -⟩ := @compactPass_served cfg.toRuntime minRetainSeq
    (lines.map TextLine.text) fun t ht => by
      obtain ⟨line, hline, rfl⟩ := List.mem_map.mp ht
      exact h line hline
  have hstrip : (lines.map TextLine.text).map strip = lines.map fun line => strip line.text := by
    rw [List.map_map]
    rfl
  rw [hstrip] at hretained hquarantined
  have hq : disk.quarantined ++ (lines.map fun line => strip line.text).filter
      (isUnread cfg.toRuntime) = (disk.quarantineFile ++ (compactPass cfg.toRuntime minRetainSeq
        (lines.map TextLine.text)).quarantined).map QuarantineLine.line := by
    rw [List.map_append, hquarantined]
    rfl
  simp only [if_neg hmin, hfile, textRead_some hlines, hraised, Bool.false_eq_true, ↓reduceIte]
  split
  · exact ⟨store, _, 0, rfl, ⟨file, rfl, List.filter_sublist⟩, fun _ => hq.symm⟩
  · have hwritten : ∀ line ∈ (lines.map fun line => strip line.text).filterMap
        (kept cfg.toRuntime minRetainSeq), Written cfg.toRuntime line := by
      intro line hline
      obtain ⟨text, -, htext⟩ := List.mem_filterMap.mp hline
      exact written_kept htext
    obtain ⟨index, hindex⟩ := rebuildJournal_served hwritten true 0
    rw [hretained, hindex]
    refine ⟨_, _, _, rfl, ⟨_, rfl, ?_⟩, fun _ => hq.symm⟩
    rw [recordsOf_written hwritten, List.filterMap_filterMap]
    have hkept : (fun text => (kept cfg.toRuntime minRetainSeq text).bind
        (recordOf cfg.toRuntime)) = fun text => (recordOf cfg.toRuntime text).filter
          fun r => minRetainSeq ≤ r.1 := funext (recordOf_kept minRetainSeq)
    rw [hkept, ← List.filter_filterMap, recordsOf, completeTexts_eq hlines]
    exact ((textOf_sublist lines).filterMap _).filter _

/-- A compaction that ends without an exception has read the file as UTF-8, and no number that
overflows. -/
theorem reads_of_compactBeforeSeq {cfg : Config} {store store' : MetaStore cfg} {disk disk' : Disk}
    {file : Bytes} {minRetainSeq removed : Nat} (hfile : disk.journalFile = some file)
    (h2 : 2 ≤ minRetainSeq)
    (h : store.compactBeforeSeq disk minRetainSeq = (store', disk', .ok removed)) :
    ∃ lines, textLines file = some lines ∧
      ∀ line ∈ lines, SeqCoerces cfg.toRuntime (objectOf (strip line.text)) := by
  unfold MetaStore.compactBeforeSeq at h
  have hmin : ¬minRetainSeq ≤ 1 := by omega
  simp only [if_neg hmin, hfile] at h
  cases hraised : (compactPass cfg.toRuntime minRetainSeq
      ((textRead file).lines.map TextLine.text)).raised with
  | some e => simp [hraised] at h
  | none =>
    cases hlines : textLines file with
    | none => simp [hraised, textRead_none hlines] at h
    | some lines =>
      rw [textRead_some hlines] at hraised
      exact ⟨lines, rfl, fun line hline =>
        coerces_of_compactPass hraised line.text (List.mem_map_of_mem hline)⟩

end Leviathan
