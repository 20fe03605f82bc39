import Leviathan.Journal.Fragment
import Leviathan.Journal.TornFile

/-!
# Files with any number of torn lines

Writes that stop inside a line leave starts of lines, and the next line that is written whole ends
them: a complete line is a `Piece`, the line of a record with what stands before it. A line with
something before it is read as no record.

* `Piece.lineSeq_bytes`, `mem_completeLines`: which lines carry a number.
* `seek`: where an index leads that points into the file.
* `tailFrom_cut`: a cold replay from there yields the records of the whole lines after it.
-/

namespace Leviathan

open Py

variable {cfg : Config} {rt : Runtime}

/-! ## Shreds -/

/-- Starts of lines, one after the other: what writes that failed have left at the end of a file. -/
structure Shred (s : Str) : Prop where
  printable : Printable s
  head : s = [] ∨ s.head? = some '{'

namespace Shred

variable {s t : Str}

theorem nil : Shred [] := ⟨printable_nil, .inl rfl⟩

theorem append (hs : Shred s) (ht : Shred t) : Shred (s ++ t) := by
  refine ⟨printable_append.mpr ⟨hs.printable, ht.printable⟩, ?_⟩
  rcases hs.head with rfl | hs
  · exact ht.head
  · exact .inr (by rw [List.head?_append, hs]; rfl)

theorem of_start {r : Rec rt} (h : s <+: recordText r.1 r.2.fields) : Shred s := by
  refine ⟨fun c hc => printable_recordText _ _ c (h.subset hc), ?_⟩
  obtain ⟨t, ht⟩ := (recordText_ends r.1 r.2.fields).1
  cases s with
  | nil => exact .inl rfl
  | cons c s =>
    rw [ht] at h
    rw [(List.cons_prefix_cons.mp h).1]
    exact .inr rfl

theorem unframed (h : Shred s) : Unframed (encodeUtf8 s) := unframed_printable h.printable

theorem decode (h : Shred s) : decodeUtf8 (encodeUtf8 s) = some s :=
  decodeUtf8_ascii h.printable.ascii

/-- A shred is white space only if it is empty, since every start of a line begins with a brace. -/
theorem all_isSpace (h : Shred s) : s.all isSpace = true ↔ s = [] := by
  refine ⟨fun hall => ?_, by rintro rfl; rfl⟩
  rcases h.head with hnil | hhead
  · exact hnil
  · exact absurd (List.all_eq_true.mp hall '{' (List.mem_of_mem_head? hhead)) (by decide)

theorem all_isByteSpace (h : Shred s) : (encodeUtf8 s).all isByteSpace = true ↔ s = [] := by
  refine ⟨fun hall => ?_, by rintro rfl; rfl⟩
  rcases h.head with hnil | hhead
  · exact hnil
  · have hmem : (123 : UInt8) ∈ encodeUtf8 s :=
      List.mem_flatMap.mpr ⟨'{', List.mem_of_mem_head? hhead, by decide⟩
    exact absurd (List.all_eq_true.mp hall 123 hmem) (by decide)

end Shred

/-! ## Pieces -/

/-- A complete line: a record's line, and the shred before it, which an append to a file without a
last `\n` runs into. -/
structure Piece (rt : Runtime) where
  shred : Str
  record : Rec rt

namespace Piece

def bytes (piece : Piece rt) : Bytes := tornBytes (encodeUtf8 piece.shred) piece.record

/-- The record of a whole line. A line that a shred begins is no record any more. -/
def record? (piece : Piece rt) : Option (Rec rt) :=
  if piece.shred = [] then some piece.record else none

variable {piece : Piece rt}

theorem framed_bytes (h : Shred piece.shred) : Framed piece.bytes :=
  framed_tornBytes h.unframed piece.record

/-- **A line carries a number only if it is whole.** -/
theorem lineSeq_bytes (h : Shred piece.shred) :
    lineSeq rt piece.bytes = piece.record?.map fun r => (r.1 : Int) := by
  rw [bytes, lineSeq_torn]
  unfold record?
  by_cases hs : piece.shred = []
  · simp [hs, encodeUtf8]
  · rw [if_neg (h.all_isByteSpace.not.mpr hs), if_neg hs]
    rfl

theorem walked_bytes (h : Shred piece.shred) : Walked rt piece.bytes := by
  refine ⟨framed_bytes h, ?_⟩
  rw [bytes, lineSeq_torn, resolveLine_torn]

/-- The line as a text handle reads it, from its first byte to its `\n`. -/
def line (piece : Piece cfg.toRuntime) : TextLine :=
  tornLine (encodeUtf8 piece.shred) piece.shred piece.record

end Piece

/-- The records of the whole lines, in the order of the file. -/
def records (pieces : List (Piece rt)) : List (Rec rt) := pieces.filterMap Piece.record?

/-- The bytes of the lines, one piece after the other. -/
def piecesBytes (pieces : List (Piece rt)) : Bytes := (pieces.map Piece.bytes).flatten

/-- The complete lines of a file, those that end in `\n`. -/
def completeLines (file : Bytes) : List Bytes := (byteLines file).filter endsWithLF

theorem records_append (A B : List (Piece rt)) : records (A ++ B) = records A ++ records B :=
  List.filterMap_append

/-- The record of a line is lost where a shred is before it. -/
theorem records_snoc (pieces : List (Piece rt)) (p : Str) (r : Rec rt) :
    records (pieces ++ [⟨p, r⟩]) = records pieces ++ if p = [] then [r] else [] := by
  rw [records_append]
  by_cases hp : p = [] <;> simp [records, Piece.record?, hp]

theorem piecesBytes_append (A B : List (Piece rt)) :
    piecesBytes (A ++ B) = piecesBytes A ++ piecesBytes B := by
  simp [piecesBytes]

@[simp] theorem piecesBytes_singleton (piece : Piece rt) : piecesBytes [piece] = piece.bytes := by
  simp [piecesBytes]

/-- Every line of the file is a record's line after a shred. -/
def Shredded (pieces : List (Piece rt)) : Prop := ∀ piece ∈ pieces, Shred piece.shred

theorem Shredded.append {A B : List (Piece rt)} (hA : Shredded A) (hB : Shredded B) :
    Shredded (A ++ B) :=
  fun piece h => (List.mem_append.mp h).elim (hA piece) (hB piece)

theorem Shredded.singleton {piece : Piece rt} (h : Shred piece.shred) : Shredded [piece] :=
  fun x hx => by rw [List.mem_singleton.mp hx]; exact h

theorem Shredded.framed {pieces : List (Piece rt)} (h : Shredded pieces) :
    ∀ l ∈ pieces.map Piece.bytes, Framed l := by
  intro l hl
  obtain ⟨piece, hp, rfl⟩ := List.mem_map.mp hl
  exact Piece.framed_bytes (h piece hp)

section Lines

variable {pieces : List (Piece rt)} {p : Str}

theorem completeLines_pieces (h : Shredded pieces) (hp : Shred p) :
    completeLines (piecesBytes pieces ++ encodeUtf8 p) = pieces.map Piece.bytes :=
  byteLines_complete h.framed hp.unframed

/-- The numbers that the lines carry are those of the records; a torn line carries none. -/
theorem lineSeqs_pieces (h : Shredded pieces) :
    (pieces.map Piece.bytes).filterMap (lineSeq rt) =
      (records pieces).map fun r => (r.1 : Int) := by
  rw [List.filterMap_map, records, List.map_filterMap]
  exact List.filterMap_congr fun piece hpiece => Piece.lineSeq_bytes (h piece hpiece)

/-- Two records with the same line are the same, as the parser gives the record of a line back. -/
theorem recordBytes_inj {r r' : Rec rt} (h : recordBytes rt r = recordBytes rt r') : r = r' := by
  have hline := congrArg decodeLine h
  rw [decodeLine_recordBytes, decodeLine_recordBytes] at hline
  have htext : encodeRecord r.1 r.2.fields = encodeRecord r'.1 r'.2.fields :=
    congrArg TextLine.text (Option.some.inj hline)
  have hparse := parse_encodeRecord r.1 r.2
  rw [htext, parse_encodeRecord] at hparse
  obtain ⟨h₁, h₂⟩ : (r'.1 : Int) = r.1 ∧ r'.2 = r.2 := by simpa using hparse
  exact Prod.ext (Int.ofNat_inj.mp h₁).symm h₂.symm

/-- The line of a record is in the file when the record is. -/
theorem mem_completeLines (h : Shredded pieces) {r : Rec rt} :
    recordBytes rt r ∈ pieces.map Piece.bytes ↔ r ∈ records pieces := by
  rw [records, List.mem_map, List.mem_filterMap]
  refine ⟨fun ⟨piece, hpiece, he⟩ => ⟨piece, hpiece, ?_⟩, fun ⟨piece, hpiece, he⟩ =>
    ⟨piece, hpiece, ?_⟩⟩
  · have hseq := Piece.lineSeq_bytes (h piece hpiece)
    rw [he, lineSeq_recordBytes] at hseq
    unfold Piece.record? at hseq ⊢
    by_cases hs : piece.shred = []
    · rw [if_pos hs]
      have he : recordBytes rt piece.record = recordBytes rt r := by
        rw [← he, Piece.bytes, hs]
        rfl
      rw [recordBytes_inj he]
    · rw [if_neg hs] at hseq
      cases hseq
  · unfold Piece.record? at he
    split at he
    · rename_i hs
      obtain rfl := Option.some.inj he
      rw [Piece.bytes, hs]
      rfl
    · cases he

theorem incomplete_pieces (h : Shredded pieces) (hp : Shred p) :
    Incomplete (piecesBytes pieces ++ encodeUtf8 p) ↔ p ≠ [] :=
  incomplete_iff h.framed hp.printable

end Lines

/-! ## Seeks -/

section Seek

variable {pieces : List (Piece rt)} {p : Str} {startSeq : Nat}

/-- The walk to `startSeq` goes on after the piece: its number is smaller, or it has none. -/
def Piece.passes (startSeq : Nat) (piece : Piece rt) : Bool :=
  Leviathan.passes startSeq (lineSeq rt piece.bytes)

/-- Where the walk to `startSeq` ends, from the start of the file: at the first piece that it does
not pass. -/
def pieceOffset (startSeq : Nat) (pieces : List (Piece rt)) : Nat :=
  (piecesBytes (pieces.takeWhile (Piece.passes startSeq))).length

theorem piecesBytes_length_le {A pieces : List (Piece rt)} (h : A <+: pieces) :
    (piecesBytes A).length ≤ (piecesBytes pieces).length := by
  obtain ⟨B, rfl⟩ := h
  rw [piecesBytes_append, List.length_append]
  exact Nat.le_add_right _ _

theorem Piece.passes_mono {m n : Nat} (h : m ≤ n) {piece : Piece rt}
    (hp : piece.passes m = true) : piece.passes n = true := by
  unfold Piece.passes Leviathan.passes at hp ⊢
  cases hs : lineSeq rt piece.bytes with
  | none => rfl
  | some seq =>
    simp only [hs, decide_eq_true_eq] at hp ⊢
    omega

theorem takeWhile_prefix_of_imp {α : Type} {P Q : α → Bool} (h : ∀ a, P a = true → Q a = true)
    (l : List α) : l.takeWhile P <+: l.takeWhile Q := by
  have he : l.takeWhile P = (l.takeWhile Q).takeWhile P := by
    rw [List.takeWhile_takeWhile]
    congr 1
    funext a
    cases hP : P a with
    | false => simp
    | true => simp [h a hP]
  rw [he]
  exact List.takeWhile_prefix P

/-- A walk to a larger number goes at least as far. -/
theorem pieceOffset_mono {m n : Nat} (h : m ≤ n) (pieces : List (Piece rt)) :
    pieceOffset m pieces ≤ pieceOffset n pieces :=
  piecesBytes_length_le (takeWhile_prefix_of_imp (fun _ => Piece.passes_mono h) pieces)

theorem pieceOffset_le_append (startSeq : Nat) (pieces more : List (Piece rt)) :
    pieceOffset startSeq pieces ≤ pieceOffset startSeq (pieces ++ more) := by
  apply piecesBytes_length_le
  rw [List.takeWhile_append]
  split
  · exact (List.takeWhile_prefix _).trans (List.prefix_append _ _)
  · exact List.prefix_rfl

/-- The record of a piece that the walk passes is before its number. -/
theorem Piece.passes_iff {piece : Piece rt} (h : Shred piece.shred) :
    piece.passes startSeq = true ↔ ∀ r, piece.record? = some r → r.1 < startSeq := by
  rw [Piece.passes, Piece.lineSeq_bytes h]
  cases piece.record? with
  | none => simp [Leviathan.passes]
  | some r => simp [Leviathan.passes]

/-- The walk passes a file of records before its number and ends at the end of the last line. -/
theorem pieceOffset_of_before (h : Shredded pieces) (hlt : ∀ r ∈ records pieces, r.1 < startSeq) :
    pieceOffset startSeq pieces = (piecesBytes pieces).length := by
  rw [pieceOffset, List.takeWhile_eq_self_iff.mpr]
  intro piece hpiece
  exact (Piece.passes_iff (h piece hpiece)).mpr fun r hr =>
    hlt r (List.mem_filterMap.mpr ⟨piece, hpiece, hr⟩)

/-- No entry is past the first record it is used for: a seek to number 1 uses none, as
`byte_offset_for_seq` answers it with 0. -/
def PointsInto (index : List (Nat × Nat)) (pieces : List (Piece rt)) : Prop :=
  ∀ e ∈ index, e.2 ≤ pieceOffset (max e.1 2) pieces

/-- Lines that are added at the end of the file leave an index that points into it. -/
theorem PointsInto.append {index : List (Nat × Nat)} (h : PointsInto index pieces)
    (more : List (Piece rt)) : PointsInto index (pieces ++ more) :=
  fun e he => Nat.le_trans (h e he) (pieceOffset_le_append _ pieces more)

/-- The hint that such an index gives is not past the place where the walk from the start would end.
-/
theorem PointsInto.hint_le {index : List (Nat × Nat)} (h : PointsInto index pieces)
    (h2 : 2 ≤ startSeq) : chooseHint startSeq index 0 ≤ pieceOffset startSeq pieces := by
  rcases chooseHint_cases startSeq index 0 with he | ⟨e, he, hle, hc⟩
  · omega
  · rw [hc]
    exact Nat.le_trans (h e he) (pieceOffset_mono (by omega) pieces)

/-- The walk stops at a wanted record, and the numbers go up from there. -/
theorem wanted_of_head {pieces : List (Piece rt)} (h : Shredded pieces)
    (hinc : Increasing (records pieces))
    (hhead : ∀ piece ∈ pieces.head?, piece.passes startSeq = false) :
    ∀ r ∈ records pieces, startSeq ≤ r.1 := by
  intro r hr
  cases pieces with
  | nil => cases hr
  | cons piece rest =>
    have hfirst := hhead piece rfl
    have hshred : Shred piece.shred := h piece List.mem_cons_self
    cases he : piece.record? with
    | none =>
      rw [(Piece.passes_iff hshred).mpr (by simp [he])] at hfirst
      cases hfirst
    | some first =>
      have hge : startSeq ≤ first.1 := by
        by_contra hlt
        rw [(Piece.passes_iff hshred).mpr (by simp [he]; omega)] at hfirst
        cases hfirst
      have hrest : records (piece :: rest) = first :: records rest := List.filterMap_cons_some he
      rw [hrest] at hinc hr
      rcases List.mem_cons.mp hr with rfl | hr
      · exact hge
      · have := (List.pairwise_cons.mp hinc).1 r hr
        omega

end Seek

/-- **With an index that points into the file, a seek goes to the first wanted record.** -/
theorem seek {journal : TickJournal cfg} {disk : Disk} {pieces : List (Piece cfg.toRuntime)}
    {p : Str} (hfile : disk.journalFile = some (piecesBytes pieces ++ encodeUtf8 p))
    (h : Shredded pieces) (hp : Shred p) (hinc : Increasing (records pieces))
    (hpos : ∀ r ∈ records pieces, 1 ≤ r.1) (hindex : PointsInto journal.metaStore.seqIndex pieces)
    (startSeq : Nat) :
    ∃ A B, pieces = A ++ B ∧ (∀ r ∈ records A, r.1 < startSeq) ∧
      (∀ r ∈ records B, startSeq ≤ r.1) ∧
      journal.byteOffsetForSeq disk startSeq = .ok (piecesBytes A).length := by
  unfold TickJournal.byteOffsetForSeq MetaStore.byteOffsetForSeq
  by_cases h1 : startSeq ≤ 1
  · rw [if_pos h1]
    exact ⟨[], pieces, rfl, by simp [records], fun r hr => Nat.le_trans h1 (hpos r hr), rfl⟩
  rw [if_neg h1, hfile]
  let A := pieces.takeWhile (Piece.passes startSeq)
  let B := pieces.dropWhile (Piece.passes startSeq)
  have hcut : A ++ B = pieces := List.takeWhile_append_dropWhile
  have hA : ∀ piece ∈ A, piece.passes startSeq = true := fun piece hm => List.mem_takeWhile_imp hm
  have hsub : ∀ piece ∈ A, Shred piece.shred := fun piece hm =>
    h piece (hcut ▸ List.mem_append_left B hm)
  have hB : Shredded B := fun piece hm => h piece (hcut ▸ List.mem_append_right A hm)
  have hincB : Increasing (records B) := by
    rw [← hcut, records_append] at hinc
    exact (List.pairwise_append.mp hinc).2.1
  have hhead : ∀ piece ∈ B.head?, piece.passes startSeq = false := by
    intro piece hm
    have := List.head?_dropWhile_not (Piece.passes startSeq) pieces
    rw [show (pieces.dropWhile (Piece.passes startSeq)).head? = some piece from hm] at this
    simpa using this
  refine ⟨A, B, hcut.symm, ?_, wanted_of_head hB hincB hhead, ?_⟩
  · intro r hr
    obtain ⟨piece, hm, he⟩ := List.mem_filterMap.mp hr
    exact (Piece.passes_iff (hsub piece hm)).mp (hA piece hm) r he
  · have hlines : (A.map Piece.bytes ++ B.map Piece.bytes).flatten = piecesBytes pieces := by
      rw [← List.map_append, hcut]
      rfl
    rw [← hlines]
    refine resolve_cut_rest ?_ hp.unframed ?_ ?_ (.inl (hindex.hint_le (by omega)))
    · rw [← List.map_append, hcut]
      intro l hl
      obtain ⟨piece, hm, rfl⟩ := List.mem_map.mp hl
      exact Piece.walked_bytes (h piece hm)
    · intro l hl
      obtain ⟨piece, hm, rfl⟩ := List.mem_map.mp hl
      exact hA piece hm
    · intro l hl
      rw [List.head?_map] at hl
      obtain ⟨piece, hm, rfl⟩ := Option.map_eq_some_iff.mp hl
      exact hhead piece hm

/-! ## Reads -/

/-- The last line of a file that ends inside a line. -/
def shredLines (p : Str) : List TextLine := if p = [] then [] else [⟨encodeUtf8 p, p⟩]

theorem textLines_pieces {pieces : List (Piece cfg.toRuntime)} {p : Str} (h : Shredded pieces)
    (hp : Shred p) : textLines (piecesBytes pieces ++ encodeUtf8 p) =
      some (pieces.map Piece.line ++ shredLines p) := by
  induction pieces with
  | nil => exact textLines_printable hp.printable
  | cons piece pieces ih =>
    have hpiece : Shred piece.shred := h piece (by simp)
    have ih := ih fun x hx => h x (List.mem_cons_of_mem _ hx)
    have hbytes : piecesBytes (piece :: pieces) ++ encodeUtf8 p =
        piece.bytes ++ (piecesBytes pieces ++ encodeUtf8 p) := by simp [piecesBytes]
    unfold textLines at ih ⊢
    rw [hbytes, universalLines_framed (Piece.framed_bytes hpiece), List.mapM_cons, ih]
    unfold Piece.bytes
    rw [decodeLine_torn hpiece.decode]
    rfl

theorem tellsOffsets_pieces {pieces : List (Piece cfg.toRuntime)} {p : Str} (h : Shredded pieces)
    (hp : Shred p) : TellsOffsets cfg.toRuntime (piecesBytes pieces ++ encodeUtf8 p) :=
  tellsOffsets_framed h.framed hp.unframed

namespace Tail

/-- The loop at one piece: it returns the record of a whole line, quarantines a torn one, and reads
on after it. -/
theorem readLines_piece {handle : TextHandle} (htell : TellsOffsets cfg.toRuntime handle.file)
    (now : Rat) (tail : Tail cfg) {piece : Piece cfg.toRuntime} (h : Shred piece.shred)
    (hwanted : ∀ r, piece.record? = some r → tail.reader.nextSeq ≤ r.1) (lines : List TextLine) :
    ∃ tail' : Tail cfg, SameFiles tail.disk tail'.disk ∧
      tail'.reader.readOffset = tail.reader.readOffset + piece.bytes.length ∧
      tail'.reader.logicalBolOffset = some tail'.reader.readOffset ∧
      (tail'.reader.nextSeq = (piece.record?.map fun r => r.1 + 1).getD tail.reader.nextSeq) ∧
      tail.readLines now (handle.upTo tail.reader.readOffset) (piece.line :: lines) =
        let after := tail'.readLines now (handle.upTo tail'.reader.readOffset) lines
        (after.1, after.2.map (piece.record?.toList ++ ·)) := by
  have hparse := @parse_torn cfg.toRuntime piece.shred piece.record.1 piece.record.2
  have hnewline : endsWithNewline piece.line.text = true := endsWithNewline_tornLine
  by_cases hs : piece.shred = []
  · have hrecord : piece.record? = some piece.record := if_pos hs
    rw [if_pos (h.all_isSpace.mpr hs)] at hparse
    obtain ⟨reader, hoff, hn, hbol, hread⟩ :=
      readLines_read htell now tail hnewline hparse (hwanted _ hrecord) lines
    rw [hrecord]
    exact ⟨{ tail with reader }, .refl _, hoff, hbol, hn, hread⟩
  · have hrecord : piece.record? = none := if_neg hs
    rw [if_neg (h.all_isSpace.not.mpr hs)] at hparse
    obtain ⟨reason, text, hparse⟩ := hparse
    obtain ⟨tail', hread, hp⟩ := readLines_skipped htell now tail
      (show Skipped cfg.toRuntime piece.line from ⟨hnewline, _, hparse, nofun⟩) lines
    rw [hrecord]
    refine ⟨tail', hp.files, hp.readOffset, hp.logicalBolOffset, hp.nextSeq, hread.trans ?_⟩
    cases tail'.readLines now (handle.upTo tail'.reader.readOffset) lines with
    | mk after result => cases result <;> rfl

/-- **The loop over pieces returns the records of the whole lines.** -/
theorem readLines_pieces {handle : TextHandle} (htell : TellsOffsets cfg.toRuntime handle.file)
    (now : Rat) {pieces : List (Piece cfg.toRuntime)} (h : Shredded pieces)
    (hinc : Increasing (records pieces)) (lines : List TextLine) (tail : Tail cfg)
    (hwanted : ∀ r ∈ records pieces, tail.reader.nextSeq ≤ r.1)
    (hbol : tail.reader.logicalBolOffset = some tail.reader.readOffset) :
    ∃ tail' : Tail cfg, SameFiles tail.disk tail'.disk ∧
      tail'.reader.readOffset = tail.reader.readOffset + (piecesBytes pieces).length ∧
      tail'.reader.logicalBolOffset = some tail'.reader.readOffset ∧
      tail.readLines now (handle.upTo tail.reader.readOffset) (pieces.map Piece.line ++ lines) =
        let after := tail'.readLines now (handle.upTo tail'.reader.readOffset) lines
        (after.1, after.2.map (records pieces ++ ·)) := by
  induction pieces generalizing tail with
  | nil =>
    refine ⟨tail, .refl _, rfl, hbol, ?_⟩
    simp only [List.map_nil, List.nil_append, records, List.filterMap_nil]
    cases tail.readLines now (handle.upTo tail.reader.readOffset) lines with
    | mk after result => cases result <;> rfl
  | cons piece pieces ih =>
    have hcons : records (piece :: pieces) = piece.record?.toList ++ records pieces := by
      simp only [records, List.filterMap_cons]
      cases piece.record? <;> rfl
    rw [hcons] at hinc hwanted ⊢
    obtain ⟨tail₁, hfiles, hoff, hbol₁, hnext, hread⟩ := readLines_piece htell now tail
      (h piece (by simp)) (fun r hr => hwanted r (by simp [hr])) (pieces.map Piece.line ++ lines)
    -- what comes after a record is past it
    have hwanted₁ : ∀ r ∈ records pieces, tail₁.reader.nextSeq ≤ r.1 := by
      intro r hr
      rw [hnext]
      cases hrecord : piece.record? with
      | none => exact hwanted r (by simp [hr])
      | some first =>
        rw [hrecord] at hinc
        exact (List.pairwise_cons.mp hinc).1 r hr
    obtain ⟨tail₂, hfiles₂, hoff₂, hbol₂, hread₂⟩ := ih
      (fun x hx => h x (List.mem_cons_of_mem _ hx)) (List.pairwise_append.mp hinc).2.1 tail₁
      hwanted₁ hbol₁
    refine ⟨tail₂, hfiles.trans hfiles₂, ?_, hbol₂, ?_⟩
    · rw [hoff₂, hoff]
      simp [piecesBytes, Nat.add_assoc]
    · rw [List.map_cons, List.cons_append, hread, hread₂]
      simp only [Prod.mk.injEq, true_and]
      cases (tail₂.readLines now (handle.upTo tail₂.reader.readOffset) lines).2 with
      | error e => rfl
      | ok rest => simp [Except.map]

/-- The reader stands before or after the shred that the file ends with: it waits for its line, or
has quarantined it. -/
structure AtShred (tail : Tail cfg) (file : Bytes) (p : Str) : Prop where
  journalFile : tail.disk.journalFile = some (file ++ encodeUtf8 p)
  readOffset : tail.reader.readOffset = file.length ∨
    tail.reader.readOffset = (file ++ encodeUtf8 p).length
  logicalBolOffset : tail.reader.logicalBolOffset = some tail.reader.readOffset

/-- The loop at a shred waits for its line, or gives it up; it returns no record in either case. -/
theorem readLines_shred {handle : TextHandle} (htell : TellsOffsets cfg.toRuntime handle.file)
    (now : Rat) {p : Str} (hp : Shred p) {tail : Tail cfg} {file : Bytes}
    (hfile : tail.disk.journalFile = some (file ++ encodeUtf8 p))
    (hoff : tail.reader.readOffset = file.length)
    (hbol : tail.reader.logicalBolOffset = some tail.reader.readOffset) :
    ∃ tail', tail.readLines now (handle.upTo tail.reader.readOffset) (shredLines p) =
        (tail', .ok []) ∧ tail'.AtShred file p := by
  unfold shredLines
  by_cases hne : p = []
  · rw [if_pos hne]
    exact ⟨tail, rfl, hfile, .inl hoff, hbol⟩
  · rw [if_neg hne]
    simp only [readLines, hp.printable.endsWithNewline, ↓reduceIte]
    split
    · refine ⟨_, rfl, hfile, .inr ?_, rfl⟩
      rw [List.length_append, ← hoff]
      exact htell _ _
    · exact ⟨_, rfl, hfile, .inl hoff, hbol⟩

/-- **A poll there returns nothing**, and the reader stays at the end of the file. -/
theorem AtShred.poll {tail : Tail cfg} {file : Bytes} {p : Str} (h : tail.AtShred file p)
    (htell : TellsOffsets cfg.toRuntime (file ++ encodeUtf8 p)) (hp : Shred p) (now : Rat) :
    ∃ tail', tail.poll now tail.reader.nextSeq = (tail', .ok []) := by
  have hle : tail.reader.readOffset ≤ (file ++ encodeUtf8 p).length := by
    rcases h.readOffset with he | he
    · rw [he, List.length_append]
      exact Nat.le_add_right _ _
    · exact Nat.le_of_eq he
  obtain ⟨reader, hplace, hread⟩ := readNewRecords_marked h.journalFile hle h.logicalBolOffset now
  simp only [Tail.poll, ne_eq, not_true_eq_false, ↓reduceIte, hread]
  rcases h.readOffset with he | he
  · have hlines : textLines ((file ++ encodeUtf8 p).drop tail.reader.readOffset) =
        some (shredLines p) := by
      rw [he, List.drop_left, textLines_printable hp.printable]
      rfl
    rw [readHandle_some hlines]
    obtain ⟨tail', hrun, -⟩ := @readLines_shred cfg (.seek _ tail.reader.readOffset) htell now p hp
      ⟨reader, tail.journal, tail.disk⟩ file h.journalFile (hplace.readOffset.trans he)
      (by rw [hplace.logicalBolOffset, hplace.readOffset, h.logicalBolOffset])
    rw [show (⟨reader, tail.journal, tail.disk⟩ : Tail cfg).reader.readOffset =
      tail.reader.readOffset from hplace.readOffset] at hrun
    exact ⟨tail', hrun⟩
  · have hlines : textLines ((file ++ encodeUtf8 p).drop tail.reader.readOffset) = some [] := by
      rw [he, List.drop_length]
      rfl
    rw [readHandle_some hlines]
    exact ⟨_, rfl⟩

end Tail

/-- **A cold replay that the index leads to a piece yields the records from there on.** The second
poll finds nothing and ends it. -/
theorem tailFrom_cut {journal : TickJournal cfg} {disk : Disk} {startSeq : Nat}
    {A B : List (Piece cfg.toRuntime)} {p : Str}
    (hfile : disk.journalFile = some (piecesBytes (A ++ B) ++ encodeUtf8 p))
    (h : Shredded (A ++ B)) (hp : Shred p) (hinc : Increasing (records B))
    (hwanted : ∀ r ∈ records B, startSeq ≤ r.1) (hne : B ≠ [] ∨ p = [])
    (hbyte : journal.byteOffsetForSeq disk startSeq = .ok (piecesBytes A).length)
    (clock : Nat → Rat) {fuel : Nat} (hfuel : 2 ≤ fuel) :
    journal.tailFrom clock fuel disk startSeq = some ⟨records B, none⟩ := by
  have hB : Shredded B := fun piece hm => h piece (List.mem_append_right A hm)
  have hle : (piecesBytes A).length ≤ (piecesBytes (A ++ B) ++ encodeUtf8 p).length := by
    rw [piecesBytes_append, List.length_append, List.length_append]
    omega
  have hskip : skipToLineStart (piecesBytes (A ++ B) ++ encodeUtf8 p) (piecesBytes A).length =
      (piecesBytes A).length := by
    have hflat : piecesBytes (A ++ B) = (A.map Piece.bytes ++ B.map Piece.bytes).flatten := by
      simp [piecesBytes]
    have hframed : ∀ l ∈ A.map Piece.bytes ++ B.map Piece.bytes, Framed l := by
      rw [← List.map_append]
      exact h.framed
    rw [hflat, skipToLineStart_append hframed (by simp [piecesBytes])]
    exact skipToLineStart_start hframed
  have hdrop : (piecesBytes (A ++ B) ++ encodeUtf8 p).drop (piecesBytes A).length =
      piecesBytes B ++ encodeUtf8 p := by
    rw [piecesBytes_append, List.append_assoc, List.drop_left]
  have hlines : textLines ((piecesBytes (A ++ B) ++ encodeUtf8 p).drop (piecesBytes A).length) =
      some (B.map Piece.line ++ shredLines p) := by
    rw [hdrop, textLines_pieces hB hp]
  have hfirst : ∀ line ∈ (B.map Piece.line ++ shredLines p).head?,
      endsWithNewline line.text = true := by
    intro line hline
    cases B with
    | nil =>
      obtain rfl : p = [] := hne.resolve_left fun hn => hn rfl
      simp [shredLines] at hline
    | cons piece B =>
      obtain rfl : piece.line = line := by simpa using hline
      exact endsWithNewline_tornLine
  obtain ⟨reader, hoff, hnext, hbol, hpoll⟩ := Tail.poll_new hfile hbyte hle hskip hlines hfirst
    defaultIncompleteRecordMaxWaitSeconds (clock 0)
  have htell : TellsOffsets cfg.toRuntime (piecesBytes (A ++ B) ++ encodeUtf8 p) :=
    tellsOffsets_pieces h hp
  obtain ⟨tail₁, hfiles, hoff₁, hbol₁, hread⟩ := @Tail.readLines_pieces cfg
    (.seek (piecesBytes (A ++ B) ++ encodeUtf8 p) (piecesBytes A).length) htell (clock 0) B hB hinc
    (shredLines p) ⟨reader, journal, disk⟩ (fun r hr => by rw [hnext]; exact hwanted r hr)
    (by rw [hoff]; exact hbol)
  rw [show (⟨reader, journal, disk⟩ : Tail cfg).reader.readOffset = (piecesBytes A).length from hoff]
    at hread
  obtain ⟨tail₂, hrun, hend⟩ := @Tail.readLines_shred cfg
    (.seek (piecesBytes (A ++ B) ++ encodeUtf8 p) (piecesBytes A).length) htell (clock 0) p hp tail₁
    (piecesBytes (A ++ B))
    (hfiles.journalFile.trans hfile)
    (by
      rw [hoff₁, piecesBytes_append, List.length_append]
      exact congrArg (· + _) hoff) hbol₁
  have hfirst : Tail.poll ⟨.new defaultIncompleteRecordMaxWaitSeconds, journal, disk⟩ (clock 0)
      startSeq = (tail₂, .ok (records B)) := by
    refine hpoll.trans (hread.trans ?_)
    simp only [hrun]
    simp [Except.map]
  exact tailFrom_of_polls hfirst (hend.poll htell hp) hfuel

end Leviathan
