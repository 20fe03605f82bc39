import Leviathan.Journal.ReaderLemmas

/-!
# Files that end inside a line

A writer that is in the middle of a line leaves a file of records and the start of one more.

* `prefix_cut`: every prefix of a file of records is of that form, wherever its bytes end.
* `textLines_startOf`, `byteLines_startOf`: what the two handles read of it.
* `readLines_wait`: the loop of the reader waits at the start of a line.
-/

namespace Leviathan

open Py

variable {cfg : Config} {rt : Runtime}

/-- `p` is the start of the first line of `B`, without its `\n`: what a reader sees while an append
is under way. -/
def StartOf (B : List (Rec rt)) (p : Str) : Prop :=
  p = [] ∨ ∃ r B', B = r :: B' ∧ p <+: recordText r.1 r.2.fields

namespace StartOf

variable {B : List (Rec rt)} {p : Str}

theorem printable (h : StartOf B p) : Printable p := by
  rcases h with rfl | ⟨r, -, -, hp⟩
  · exact printable_nil
  · exact fun c hc => printable_recordText _ _ c (hp.subset hc)

theorem length (h : StartOf B p) : (encodeUtf8 p).length = p.length :=
  length_encodeUtf8 h.printable.ascii

/-- A start of a line looks like a line in progress, as it begins with the brace that
`is_in_progress_journal_fragment` asks for. -/
theorem inProgress (h : StartOf B p) (hne : p ≠ []) : isInProgressJournalFragment p = true := by
  rcases h with rfl | ⟨r, -, -, hp⟩
  · exact absurd rfl hne
  · obtain ⟨t, ht⟩ := (recordText_ends r.1 r.2.fields).1
    obtain ⟨c, q, rfl⟩ := List.exists_cons_of_ne_nil hne
    rw [ht] at hp
    rw [(List.cons_prefix_cons.mp hp).1]
    simp [isInProgressJournalFragment, lstrip, show isSpace '{' = false by decide]

/-- The start of a line is shorter than the line, which has its `\n` as well. -/
theorem length_lt {r : Rec rt} {B' : List (Rec rt)} (h : StartOf (r :: B') p) :
    p.length < (recordBytes rt r).length := by
  rcases h with rfl | ⟨r', B'', he, hp⟩
  · exact recordBytes_pos r
  · obtain ⟨rfl, -⟩ := List.cons_eq_cons.mp he
    have := hp.length_le
    rw [recordBytes_eq, List.length_append, length_encodeUtf8 (printable_recordText _ _).ascii]
    simp only [List.length_singleton]
    omega

end StartOf

/-- **Every prefix of a file of records is a file of records and the start of a line**, so nothing
else can be seen of an append. -/
theorem prefix_cut {rs : List (Rec rt)} {file : Bytes} (h : file <+: journalBytes rs) :
    ∃ A B p, rs = A ++ B ∧ file = journalBytes A ++ encodeUtf8 p ∧ StartOf B p := by
  induction rs generalizing file with
  | nil => exact ⟨[], [], [], rfl, List.prefix_nil.mp h, .inl rfl⟩
  | cons r rs ih =>
    rw [journalBytes_cons] at h
    by_cases hle : (recordBytes rt r).length ≤ file.length
    · obtain ⟨more, rfl⟩ :=
        List.prefix_of_prefix_length_le (List.prefix_append _ (journalBytes rs)) h hle
      obtain ⟨A, B, p, rfl, rfl, hp⟩ := ih ((List.prefix_append_right_inj _).mp h)
      exact ⟨r :: A, B, p, rfl, by simp, hp⟩
    · have hfile : file <+: recordBytes rt r :=
        List.prefix_of_prefix_length_le h (List.prefix_append _ _) (by omega)
      have hprint := printable_recordText r.1 r.2.fields
      rw [recordBytes_eq, List.length_append, length_encodeUtf8 hprint.ascii] at hle
      simp only [List.length_singleton] at hle
      rw [recordBytes_eq] at hfile
      have htext : file <+: encodeUtf8 (recordText r.1 r.2.fields) :=
        List.prefix_of_prefix_length_le hfile (List.prefix_append _ _)
          (by rw [length_encodeUtf8 hprint.ascii]; omega)
      let p := (recordText r.1 r.2.fields).take file.length
      have hp : p <+: recordText r.1 r.2.fields := List.take_prefix _ _
      have hascii : Ascii p := fun c hc => hprint.ascii c (hp.subset hc)
      refine ⟨[], r :: rs, p, rfl, ?_, .inr ⟨r, rs, rfl, hp⟩⟩
      rw [journalBytes_nil, List.nil_append, encodeUtf8_ascii hascii, List.map_take,
        ← encodeUtf8_ascii hprint.ascii]
      exact List.prefix_iff_eq_take.mp htext

/-- What is complete stays complete while the file grows: the lines that a reader has passed are the
first of those that it will see. -/
theorem cut_mono {A B A' B' : List (Rec rt)} {p : Str} (h : A ++ B = A' ++ B') (hp : StartOf B' p)
    (hle : (journalBytes A).length ≤ (journalBytes A' ++ encodeUtf8 p).length) :
    ∃ N, A' = A ++ N ∧ B = N ++ B' := by
  rcases List.append_eq_append_iff.mp h with ⟨N, hA, hB⟩ | ⟨N, hA, hB⟩
  · exact ⟨N, hA, hB⟩
  · cases N with
    | nil => exact ⟨[], by simp [hA], by simp [hB]⟩
    | cons r N =>
      subst hB
      have := hp.length_lt
      simp only [hA, journalBytes_append, journalBytes_cons, List.length_append, hp.length] at hle
      omega

/-- Reading such a file gives the line of each record, and the start of a line, if there is one, as
a last line without `\n`. -/
theorem textLines_startOf (N : List (Rec rt)) {B : List (Rec rt)} {p : Str} (hp : StartOf B p) :
    textLines (journalBytes N ++ encodeUtf8 p) =
      some (N.map recordLine ++ if p = [] then [] else [⟨encodeUtf8 p, p⟩]) := by
  rw [textLines_journalBytes, textLines_printable hp.printable, Option.map_some]

theorem byteLines_startOf (N : List (Rec rt)) {B : List (Rec rt)} {p : Str} (hp : StartOf B p) :
    (byteLines (journalBytes N ++ encodeUtf8 p)).filter endsWithLF = N.map (recordBytes rt) :=
  byteLines_complete (framed_records N) (unframed_printable hp.printable)

/-- The file ends inside a line: it is not empty and its last byte is no `\n`. -/
def Incomplete (file : Bytes) : Prop := file ≠ [] ∧ endsWithLF file = false

instance (file : Bytes) : Decidable (Incomplete file) := inferInstanceAs (Decidable (_ ∧ _))

theorem incomplete_iff {ls : List Bytes} (h : ∀ l ∈ ls, Framed l) {p : Str} (hp : Printable p) :
    Incomplete (ls.flatten ++ encodeUtf8 p) ↔ p ≠ [] := by
  by_cases hne : p = []
  · refine iff_of_false ?_ (not_not.mpr hne)
    rintro ⟨hfile, hend⟩
    rw [hne, show encodeUtf8 [] = [] from rfl, List.append_nil] at hfile hend
    have hls : ls ≠ [] := fun he => hfile (by rw [he]; rfl)
    rw [endsWithLF_flatten h hls] at hend
    cases hend
  · have hbytes := (encodeUtf8_eq_nil hp.ascii).not.mpr hne
    refine iff_of_true ⟨by simp [hbytes], ?_⟩ hne
    have hend := (unframed_printable hp).endsWithLF
    unfold endsWithLF at hend ⊢
    rwa [List.getLast?_append_of_ne_nil _ hbytes]

theorem incomplete_startOf (A : List (Rec rt)) {B : List (Rec rt)} {p : Str} (hp : StartOf B p) :
    Incomplete (journalBytes A ++ encodeUtf8 p) ↔ p ≠ [] :=
  incomplete_iff (framed_records A) hp.printable

/-! ## The wait -/

/-- A fragment that the policy has not seen starts a wait, with the present time as its beginning.
-/
theorem Policy.shouldSkipNow_first {policy : Policy} {now : Rat} {offset : Nat} {p : Str}
    (hin : isInProgressJournalFragment p = true) (hne : p ≠ [])
    (h : ∀ t, policy.pending ≠ some ⟨offset, t, p.length⟩) :
    policy.shouldSkipNow now offset p =
      ({ policy with pending := some ⟨offset, now, p.length⟩ }, false) := by
  unfold shouldSkipNow
  simp only [hne, hin, ↓reduceIte, Bool.true_eq_false]
  cases hpend : policy.pending with
  | none => rfl
  | some pending =>
    have : pending.offset ≠ offset ∨ pending.length ≠ p.length := by
      by_contra hc
      obtain ⟨rfl, hl⟩ := not_or.mp hc |>.imp not_not.mp not_not.mp
      exact h pending.startedAt (by rw [hpend, ← hl])
    simp only [this, ↓reduceIte]

/-- The policy waits for a fragment that it knows, of the same offset and length, until
`max_wait_seconds` have gone by. -/
theorem Policy.shouldSkipNow_again {policy : Policy} {now t : Rat} {offset : Nat} {p : Str}
    (hin : isInProgressJournalFragment p = true) (hne : p ≠ [])
    (h : policy.pending = some ⟨offset, t, p.length⟩) (ht : now - t < policy.maxWaitSeconds) :
    policy.shouldSkipNow now offset p = (policy, false) := by
  unfold shouldSkipNow
  simp [hne, hin, h, not_le.mpr ht]

namespace Tail

/-- **The loop waits at the start of a line.** It breaks without moving the offset, so that the next
poll reads the line from its beginning. -/
theorem readLines_wait (handle : TextHandle) (tail : Tail cfg) {B : List (Rec rt)} {p : Str}
    (hp : StartOf B p) {now : Rat} {policy : Policy}
    (h : tail.reader.incompletePolicy.shouldSkipNow now tail.reader.readOffset p =
      (policy, false)) :
    tail.readLines now handle [⟨encodeUtf8 p, p⟩] =
      ({ tail with reader := { tail.reader with incompletePolicy := policy } }, .ok []) := by
  simp only [readLines, hp.printable.endsWithNewline, ↓reduceIte, h, Bool.false_eq_true]

open JournalIncrementalReader (consume consume_logicalBolOffset)

/-- **A poll of a file that has grown** reads the lines `N` that became complete, and it waits at
the start of a line after them. -/
theorem readNewRecords_growing {tail : Tail cfg} {A N B : List (Rec cfg.toRuntime)} {p : Str}
    (hfile : tail.disk.journalFile = some (journalBytes (A ++ N) ++ encodeUtf8 p))
    (hp : StartOf B p) (hoff : tail.reader.readOffset = (journalBytes A).length)
    (hbol : tail.reader.logicalBolOffset = some tail.reader.readOffset)
    (hsize : ∀ size, tail.reader.lastKnownSize = some size →
      size ≤ (journalBytes (A ++ N) ++ encodeUtf8 p).length)
    {now : Rat} {policy : Policy} {reader : JournalIncrementalReader}
    (hreader : reader = N.foldl consume { tail.reader with
      lastKnownSize := some (journalBytes (A ++ N) ++ encodeUtf8 p).length })
    (hwait : p ≠ [] → reader.incompletePolicy.shouldSkipNow now reader.readOffset p =
      (policy, false)) :
    tail.readNewRecords now =
      ({ tail with reader := if p = [] then reader else { reader with incompletePolicy := policy } },
        .ok (accepted tail.reader.nextSeq N)) := by
  have hlen : (journalBytes (A ++ N) ++ encodeUtf8 p).length =
      (journalBytes A).length + (journalBytes N ++ encodeUtf8 p).length := by
    simp only [journalBytes_append, List.append_assoc, List.length_append]
  -- the file has not shrunk
  have hre : tail.resyncIfJournalRewritten (journalBytes (A ++ N) ++ encodeUtf8 p).length =
      ({ tail with reader := { tail.reader with
        lastKnownSize := some (journalBytes (A ++ N) ++ encodeUtf8 p).length } }, .ok ()) := by
    have hnot : ¬tail.reader.readOffset > (journalBytes (A ++ N) ++ encodeUtf8 p).length := by
      omega
    have hgrown : (tail.reader.lastKnownSize.any fun previousSize =>
        (journalBytes (A ++ N) ++ encodeUtf8 p).length < previousSize) = false := by
      cases hs : tail.reader.lastKnownSize with
      | none => rfl
      | some size => simpa using hsize size hs
    unfold resyncIfJournalRewritten
    simp only [if_neg hnot, hgrown, Bool.false_eq_true, ↓reduceIte]
  have hdrop : (journalBytes (A ++ N) ++ encodeUtf8 p).drop tail.reader.readOffset =
      journalBytes N ++ encodeUtf8 p := by
    rw [hoff, journalBytes_append, List.append_assoc, List.drop_left]
  -- the reader has noted the size, and reads from where it stands
  let reader₁ : JournalIncrementalReader := { tail.reader with
    lastKnownSize := some (journalBytes (A ++ N) ++ encodeUtf8 p).length }
  have hread := readNewRecords_resynced hfile hre hbol now
  have htell : TellsOffsets cfg.toRuntime (journalBytes (A ++ N) ++ encodeUtf8 p) :=
    tellsOffsets_framed (framed_records _) (unframed_printable hp.printable)
  rw [readHandle_some (by rw [← textLines_startOf N hp, ← hdrop]; rfl)] at hread
  have hrun := @readLines_records cfg (.seek (journalBytes (A ++ N) ++ encodeUtf8 p)
    tail.reader.readOffset) htell now { tail with reader := reader₁ } N
    (if p = [] then [] else [⟨encodeUtf8 p, p⟩])
  rw [hread]
  refine hrun.trans ?_
  simp only [reader₁, ← hreader]
  by_cases hne : p = []
  · simp [hne, readLines, Except.map]
  · simp only [hne, ↓reduceIte]
    rw [readLines_wait _ { tail with reader } hp (hwait hne)]
    simp [Except.map]

end Tail

end Leviathan
