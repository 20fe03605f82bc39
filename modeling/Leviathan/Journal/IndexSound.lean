import Leviathan.Journal.Tips

/-!
# The index and the file

An entry `(seq, offset)` of an index is a promise that a read for `seq` may begin at `offset`.

* `Points index rs`: no entry is past the first record it stands for. Appends, compactions and
  reloads of one process keep it (`Points.recordSeqIndex`, `points_compactedIndex`), and with it
  `byteOffsetForSeq` goes to the first wanted record (`byteOffsetForSeq_of_points`).
* `Shaped index`: the entries go up, and none before number 2 has an offset. Every index a process
  builds or loads is shaped, also one from before a compaction by another process.
-/

namespace Leviathan

open Py

variable {cfg : Config} {rt : Runtime}

/-! ## Offsets of records -/

/-- The records before a later number begin with those before an earlier one, so their bytes are a
prefix too. -/
theorem before_prefix {s s' : Nat} (h : s ≤ s') (rs : List (Rec rt)) :
    ∃ more, before s' rs = before s rs ++ more := by
  induction rs with
  | nil => exact ⟨[], rfl⟩
  | cons r rs ih =>
    by_cases hr : r.1 < s
    · obtain ⟨more, hm⟩ := ih
      have hr' : r.1 < s' := by omega
      exact ⟨more, by simpa [before, hr, hr'] using hm⟩
    · exact ⟨before s' (r :: rs), by simp [before, hr]⟩

/-- A later number is not sought at an earlier offset. -/
theorem offsetOf_mono {s s' : Nat} (h : s ≤ s') (rs : List (Rec rt)) :
    offsetOf s rs ≤ offsetOf s' rs := by
  obtain ⟨more, hm⟩ := before_prefix h rs
  rw [offsetOf, offsetOf, hm, journalBytes_append, List.length_append]
  omega

theorem offsetOf_le_append (s : Nat) (rs more : List (Rec rt)) :
    offsetOf s rs ≤ offsetOf s (rs ++ more) := by
  induction rs with
  | nil => exact Nat.zero_le _
  | cons r rs ih =>
    by_cases hr : r.1 < s
    · simp only [offsetOf, before, List.cons_append, List.takeWhile_cons, hr, decide_true,
        ↓reduceIte, journalBytes_cons, List.length_append] at ih ⊢
      omega
    · simp [offsetOf, before, hr]

theorem offsetOf_of_before {s : Nat} {rs : List (Rec rt)} (h : ∀ r ∈ rs, r.1 < s) :
    offsetOf s rs = (journalBytes rs).length := by
  have := offsetOf_append (B := []) h
  simpa [offsetOf, before] using this

theorem offsetOf_of_from {s : Nat} {rs : List (Rec rt)} (h : ∀ r ∈ rs, s ≤ r.1) :
    offsetOf s rs = 0 := by
  cases rs with
  | nil => rfl
  | cons r rs => simp [offsetOf, before, Nat.not_lt.mpr (h r (by simp))]

/-! ## Hints -/

/-- The hint of `indexed_hint` is the offset of an entry that is not past `startSeq`, or the one it
begins with. -/
theorem chooseHint_cases (startSeq : Nat) (index : List (Nat × Nat)) (chosen : Nat) :
    chooseHint startSeq index chosen = chosen ∨
      ∃ e ∈ index, e.1 ≤ startSeq ∧ chooseHint startSeq index chosen = e.2 := by
  induction index generalizing chosen with
  | nil => exact .inl rfl
  | cons e index ih =>
    obtain ⟨seq, offset⟩ := e
    by_cases h : seq ≤ startSeq
    · rw [chooseHint, if_pos h]
      rcases ih offset with he | ⟨e, he, hle, hc⟩
      · exact .inr ⟨(seq, offset), by simp, h, he⟩
      · exact .inr ⟨e, by simp [he], hle, hc⟩
    · exact .inl (if_neg h)

/-- When no entry is past `startSeq`, the loop of `indexed_hint` goes through the whole index and
the last entry is the hint. -/
theorem chooseHint_getLast? {startSeq : Nat} {index : List (Nat × Nat)} {e : Nat × Nat}
    (h : ∀ e ∈ index, e.1 ≤ startSeq) (hlast : index.getLast? = some e) (chosen : Nat) :
    chooseHint startSeq index chosen = e.2 := by
  induction index generalizing chosen with
  | nil => cases hlast
  | cons x index ih =>
    rw [chooseHint, if_pos (h x (by simp))]
    cases index with
    | nil => exact congrArg Prod.snd (Option.some.inj hlast)
    | cons y index => exact ih (fun e he => h e (List.mem_cons_of_mem x he)) hlast x.2

/-- No entry is past the first record it stands for: a walk of `resolve` from there still meets
every record from the number of the entry on. This is all that a seek needs of its index. -/
def Points (index : List (Nat × Nat)) (rs : List (Rec rt)) : Prop :=
  ∀ e ∈ index, e.2 ≤ offsetOf e.1 rs

/-- An index that points into the file gives a hint at or before the first record that is sought. -/
theorem Points.hint_le {index : List (Nat × Nat)} {rs : List (Rec rt)} (h : Points index rs)
    (startSeq : Nat) : chooseHint startSeq index 0 ≤ offsetOf startSeq rs := by
  rcases chooseHint_cases startSeq index 0 with he | ⟨e, he, hle, hc⟩
  · omega
  · rw [hc]
    exact Nat.le_trans (h e he) (offsetOf_mono hle rs)

/-- The index of a new store, `[[0, 0]]`, points into every file. -/
theorem points_first (rs : List (Rec rt)) : Points [(0, 0)] rs := by
  intro e he
  rw [List.mem_singleton.mp he]
  exact Nat.zero_le _

/-- A longer file keeps the promises of an index: the appends of other processes do not break one
that is not read again. -/
theorem Points.append {index : List (Nat × Nat)} {rs : List (Rec rt)} (h : Points index rs)
    (more : List (Rec rt)) : Points index (rs ++ more) :=
  fun e he => Nat.le_trans (h e he) (offsetOf_le_append e.1 rs more)

/-- `record`, called with the offset of the line that was appended, keeps an index that points into
the file, also when it trims it. -/
theorem Points.recordSeqIndex {store : MetaStore cfg} {rs : List (Rec rt)}
    (h : Points store.seqIndex rs) {r : Rec rt} (hr : ∀ x ∈ rs, x.1 < r.1) :
    Points (store.recordSeqIndex r.1 (journalBytes rs).length).seqIndex (rs ++ [r]) := by
  intro e he
  rcases mem_recordSeqIndex he with he | rfl | ⟨-, rfl⟩
  · exact h.append [r] e he
  · exact Nat.zero_le _
  · have := offsetOf_le_append r.1 rs [r]
    rw [offsetOf_of_before hr] at this
    exact this

/-- Every entry of the index that a compaction builds has the number of a retained record and the
offset of its line in the new file. -/
theorem mem_rebuiltIndex {interval : Nat} {first : Bool} {byteOffset : Nat} {rs : List (Rec rt)}
    {e : Nat × Nat} (h : e ∈ rebuiltIndex interval first byteOffset rs) :
    ∃ A r B, rs = A ++ r :: B ∧ e = (r.1, byteOffset + (journalBytes A).length) := by
  induction rs generalizing first byteOffset with
  | nil => simp [rebuiltIndex] at h
  | cons r rs ih =>
    have htail : e ∈ rebuiltIndex interval false (byteOffset + (recordBytes rt r).length) rs →
        ∃ A x B, r :: rs = A ++ x :: B ∧ e = (x.1, byteOffset + (journalBytes A).length) := by
      intro h
      obtain ⟨A, x, B, rfl, rfl⟩ := ih h
      exact ⟨r :: A, x, B, rfl, by simp [Nat.add_assoc]⟩
    simp only [rebuiltIndex] at h
    split at h
    · rcases List.mem_cons.mp h with rfl | h
      · exact ⟨[], r, rs, rfl, by simp⟩
      · exact htail h
    · exact htail h

/-- **The index of a compaction points into the file it wrote.** `compact_before_seq` numbers its
entries by the bytes it has written, and trims them as `record` does. -/
theorem points_compactedIndex {rs : List (Rec cfg.toRuntime)} (hinc : Increasing rs) :
    Points (MetaStore.compactedIndex cfg rs) rs := by
  intro e he
  have he := List.mem_of_mem_drop he
  rcases List.mem_cons.mp he with rfl | he
  · exact Nat.zero_le _
  · obtain ⟨A, r, B, rfl, rfl⟩ := mem_rebuiltIndex he
    have hA : ∀ x ∈ A, x.1 < r.1 := fun x hx =>
      (List.pairwise_append.mp hinc).2.2 x hx r (by simp)
    simpa using (le_offsetOf_iff hinc r.1).mpr hA

/-- **With an index that points into the file, a seek goes to the first wanted record**:
`byte_offset_for_seq` returns the offset behind all records before `startSeq`, wherever the hint
was. -/
theorem byteOffsetForSeq_of_points {store : MetaStore cfg} {disk : Disk}
    {rs : List (Rec cfg.toRuntime)} (hfile : disk.Holds rs) (hinc : Increasing rs)
    (hpos : ∀ r ∈ rs, 1 ≤ r.1) (hp : Points store.seqIndex rs) (startSeq : Nat) :
    store.byteOffsetForSeq disk.journalFile startSeq = .ok (offsetOf startSeq rs) := by
  unfold MetaStore.byteOffsetForSeq
  have hle := hp.hint_le startSeq
  split
  · rename_i h
    rw [offsetOf_of_from fun r hr => Nat.le_trans h (hpos r hr)]
  · rcases hfile with ⟨hn, rfl⟩ | hs
    · have h0 : offsetOf startSeq ([] : List (Rec cfg.toRuntime)) = 0 := rfl
      rw [hn, h0]
      exact congrArg Except.ok (Nat.le_zero.mp hle)
    · rw [hs]
      exact resolve_sound hinc (.inl hle)

/-! ## The shape of an index -/

/-- The entries go up, and none before number 2 has an offset. So are the indexes that `record` and
a compaction past watermark 1 make. -/
structure Shaped (index : List (Nat × Nat)) : Prop where
  sorted : index.Pairwise fun e e' => e.1 < e'.1
  first : ∀ e ∈ index, e.1 ≤ 1 → e.2 = 0

theorem Shaped.first_entry : Shaped [(0, 0)] :=
  ⟨List.pairwise_singleton _ _, fun e he _ => by rw [List.mem_singleton.mp he]⟩

/-- `index[-_SEQ_INDEX_MAX_ENTRIES:]` has the shape of the index. -/
theorem Shaped.suffix {index index' : List (Nat × Nat)} (h : Shaped index)
    (hs : index' <:+ index) : Shaped index' :=
  ⟨h.sorted.sublist hs.sublist, fun e he => h.first e (hs.mem he)⟩

/-- `record` keeps the shape, when record 1 is at the start of the file. -/
theorem Shaped.recordSeqIndex {store : MetaStore cfg} (h : Shaped store.seqIndex)
    {seq byteOffset : Nat} (hpos : 0 < seq) (h1 : seq ≤ 1 → byteOffset = 0) :
    Shaped (store.recordSeqIndex seq byteOffset).seqIndex := by
  refine Shaped.suffix ?_ (recordSeqIndex_suffix store seq byteOffset)
  obtain ⟨opened, ho, hc⟩ :=
    grownIndex_cases cfg.seqIndexInterval store.seqIndex seq byteOffset
  have hopened : Shaped opened := by
    rcases ho with rfl | rfl
    · exact h
    · exact .first_entry
  rcases hc with hc | ⟨⟨-, hlast⟩, hc⟩ <;> rw [hc]
  · exact hopened
  · refine ⟨List.pairwise_append.mpr ⟨hopened.sorted, List.pairwise_singleton _ _, ?_⟩, ?_⟩
    · intro e he e' he'
      rw [List.mem_singleton.mp he']
      -- the last entry is the greatest
      have hle : e.1 ≤ lastSeq opened := by
        rcases List.eq_nil_or_concat opened with rfl | ⟨init, last, rfl⟩
        · simp at he
        · rw [List.concat_eq_append] at he ⊢
          rw [lastSeq, List.getLast?_append_of_ne_nil _ (by simp)]
          rcases List.mem_append.mp he with he | he
          · have hs := hopened.sorted
            rw [List.concat_eq_append] at hs
            exact Nat.le_of_lt ((List.pairwise_append.mp hs).2.2 e he last (by simp))
          · rw [List.mem_singleton.mp he]; exact Nat.le_refl _
      omega
    · intro e he
      rcases List.mem_append.mp he with he | he
      · exact hopened.first e he
      · rw [List.mem_singleton.mp he]; exact h1

theorem shaped_rebuiltIndex {interval : Nat} {rs : List (Rec rt)} (hinc : Increasing rs)
    (first : Bool) (byteOffset : Nat) :
    (rebuiltIndex interval first byteOffset rs).Pairwise fun e e' => e.1 < e'.1 := by
  induction rs generalizing first byteOffset with
  | nil => exact .nil
  | cons r rs ih =>
    obtain ⟨hr, hrs⟩ := List.pairwise_cons.mp hinc
    simp only [rebuiltIndex]
    split
    · refine List.pairwise_cons.mpr ⟨fun e he => ?_, ih hrs _ _⟩
      obtain ⟨A, x, B, rfl, rfl⟩ := mem_rebuiltIndex he
      exact hr x (by simp)
    · exact ih hrs _ _

/-- The index of a compaction with a watermark past 1, which retains no record before number 2. -/
theorem shaped_compactedIndex {rs : List (Rec cfg.toRuntime)} (hinc : Increasing rs)
    (h2 : ∀ r ∈ rs, 2 ≤ r.1) : Shaped (MetaStore.compactedIndex cfg rs) := by
  refine Shaped.suffix ⟨List.pairwise_cons.mpr ⟨fun e he => ?_,
    shaped_rebuiltIndex hinc true 0⟩, fun e he h1 => ?_⟩ (List.drop_suffix _ _)
  · obtain ⟨A, x, B, rfl, rfl⟩ := mem_rebuiltIndex he
    have := h2 x (by simp)
    simp only; omega
  · rcases List.mem_cons.mp he with rfl | he
    · rfl
    · obtain ⟨A, x, B, rfl, rfl⟩ := mem_rebuiltIndex he
      have := h2 x (by simp)
      simp only at h1; omega

/-- In a shaped index every entry is the hint for its own number: `indexed_hint` does not stop
before it, and no entry behind it is considered. -/
theorem Shaped.chooseHint_self {index : List (Nat × Nat)} (h : Shaped index) {e : Nat × Nat}
    (he : e ∈ index) (chosen : Nat) : chooseHint e.1 index chosen = e.2 := by
  have hs := h.sorted
  clear h
  induction index generalizing chosen with
  | nil => simp at he
  | cons x index ih =>
    obtain ⟨hx, hs⟩ := List.pairwise_cons.mp hs
    rcases List.mem_cons.mp he with rfl | he
    · rw [chooseHint, if_pos (Nat.le_refl _)]
      cases index with
      | nil => rfl
      | cons y index =>
        have hy := hx y (by simp)
        rw [chooseHint, if_neg (by omega)]
    · rw [chooseHint, if_pos (Nat.le_of_lt (hx e he))]
      exact ih he _ hs

/-! ## Records in a file -/

/-- The line is complete and the parser reads a record with the number `seq` from it. -/
def RecordLine (rt : Runtime) (line : Bytes) (seq : Int) : Prop :=
  endsWithLF line = true ∧ ∃ text tick, decodeUtf8 line = some text ∧
    parseJournalRecordLine rt text = .ok (some (.record seq tick))

/-- A complete valid record that is not before `startSeq` starts at `offset`. The offsets are those
of `\n`-terminated lines, as `resolve` walks over them. -/
def RecordAt (rt : Runtime) (journalFile : Option Bytes) (startSeq offset : Nat) : Prop :=
  ∃ A line B seq, byteLines (journalFile.getD []) = A ++ line :: B ∧ RecordLine rt line seq ∧
    (startSeq : Int) ≤ seq ∧ A.flatten.length = offset

/-- The line that `append` writes for a record holds that record and no other. -/
theorem recordLine_recordBytes {rt : Runtime} {r : Rec rt} {seq : Int} :
    RecordLine rt (recordBytes rt r) seq ↔ seq = r.1 := by
  have hd : decodeUtf8 (recordBytes rt r) = some (encodeRecord r.1 r.2.fields) := by
    have h := decodeUtf8_append (b := [LF])
      (decodeUtf8_ascii (printable_recordText r.1 r.2.fields).ascii)
    rw [recordBytes_eq, h]
    rfl
  constructor
  · rintro ⟨-, text, tick, ht, hp⟩
    rw [hd] at ht
    cases ht
    rw [parse_encodeRecord] at hp
    injection hp with hp
    injection hp with hp
    injection hp with hseq
    exact hseq.symm
  · rintro rfl
    exact ⟨(framed_recordBytes r).endsWithLF, _, r.2, hd, parse_encodeRecord _ _⟩

/-- In a file of records, the records are where their lines start, behind the lines of the records
before them. -/
theorem recordAt_iff {disk : Disk} {rs : List (Rec cfg.toRuntime)} (hfile : disk.Holds rs)
    {startSeq offset : Nat} :
    RecordAt cfg.toRuntime disk.journalFile startSeq offset ↔
      ∃ A r B, rs = A ++ r :: B ∧ startSeq ≤ r.1 ∧ (journalBytes A).length = offset := by
  unfold RecordAt
  rw [hfile.getD, byteLines_journalBytes]
  constructor
  · rintro ⟨A, line, B, seq, hAB, hline, hle, rfl⟩
    obtain ⟨A, B', rfl, rfl, hB⟩ := List.map_eq_append_iff.mp hAB
    obtain ⟨r, B, rfl, rfl, rfl⟩ := List.map_eq_cons_iff.mp hB
    rw [recordLine_recordBytes] at hline
    exact ⟨A, r, B, rfl, by omega, rfl⟩
  · rintro ⟨A, r, B, rfl, hle, rfl⟩
    exact ⟨A.map (recordBytes _), recordBytes _ r, B.map (recordBytes _), r.1, by simp,
      recordLine_recordBytes.mpr rfl, by omega, rfl⟩

theorem offsetOf_le_of_mem {rt : Runtime} {A B : List (Rec rt)} {r : Rec rt} {startSeq : Nat}
    (h : startSeq ≤ r.1) : offsetOf startSeq (A ++ r :: B) ≤ (journalBytes A).length := by
  induction A with
  | nil => simp [offsetOf, before, Nat.not_lt.mpr h]
  | cons a A ih =>
    by_cases ha : a.1 < startSeq
    · simp only [offsetOf, before, List.cons_append, List.takeWhile_cons, ha, decide_true,
        ↓reduceIte, journalBytes_cons, List.length_append] at ih ⊢
      omega
    · simp [offsetOf, before, ha]

end Leviathan
