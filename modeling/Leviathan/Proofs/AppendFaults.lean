import Leviathan.Journal.Faults
import Leviathan.Journal.Instance
import Leviathan.Journal.Pieces
import Leviathan.Journal.Readme
import Leviathan.Lib.Run

/-!
# Appends whose write fails

The write of a line may raise after any number of its bytes have reached the file, and the process
appends on. Nothing is rolled back: the bytes stay in the file, and the next append takes the same
number.

* `append_atomic_iff`: **the numbers of the lines stay apart and all acknowledged records are
  replayed exactly in the runs in which no append meets what a failed one has left.**
* `failed_write_repeats`: a write that raises after its last byte gives the number to two lines, and
  one that raises inside the line takes the next record with it.
-/

namespace Leviathan

open Py

variable {cfg : Config}

/-- A process that appends. -/
structure Writing (cfg : Config) where
  journal : TickJournal cfg
  disk : Disk
  /-- the new numbers that `append` has returned, and their ticks -/
  acknowledged : List (Rec cfg.toRuntime)

/-- One call of `append`, and where its write raises. -/
structure Attempt (cfg : Config) where
  tick : TradeTick cfg.toRuntime
  fault : Option WriteFault

namespace Writing

def step (s : Writing cfg) (a : Attempt cfg) : Writing cfg :=
  let (journal, disk, answer) := s.journal.appendFaulty a.fault none s.disk a.tick
  match answer with
  | some (.ok seq) =>
    if seq > s.journal.latestSeq then
      { journal, disk, acknowledged := s.acknowledged ++ [(seq, a.tick)] }
    else { s with journal, disk }
  | _ => { s with journal, disk }

def file (s : Writing cfg) : Bytes := s.disk.journalFile.getD []

/-- The numbers of the complete lines. -/
def lineSeqs (s : Writing cfg) : List Int :=
  (completeLines s.file).filterMap (lineSeq cfg.toRuntime)

/-- No two complete lines carry the same number, and every acknowledged record is yielded by
`tail_from`. -/
structure AppendAtomic (s : Writing cfg) : Prop where
  numbers : s.lineSeqs.Nodup
  replayed : ∀ r ∈ s.acknowledged, ∀ startSeq ≤ r.1, ∀ clock fuel, 2 ≤ fuel →
    ∃ yielded, s.journal.tailFrom clock fuel s.disk startSeq = some yielded ∧ r ∈ yielded.items

/-- No complete line carries the number of the next append. -/
def Fresh (s : Writing cfg) : Prop := (↑(s.journal.latestSeq + 1) : Int) ∉ s.lineSeqs

/-- A failed append of the same tick has left the whole line, and no entry of the index will point
past it. -/
def Written (s : Writing cfg) (tick : TradeTick cfg.toRuntime) : Prop :=
  recordBytes cfg.toRuntime (s.journal.latestSeq + 1, tick) ∈ completeLines s.file ∧
    (s.journal.latestSeq = 0 ∨ (s.journal.latestSeq + 1) % cfg.seqIndexInterval ≠ 0)

/-- An append that is not rejected does not meet what a failed one has left: the start of a line, or
a line with its number. -/
def KeepsWhole (s : Writing cfg) (a : Attempt cfg) : Prop :=
  s.journal.Accepts a.tick →
    match a.fault with
    | none => if Incomplete s.file then s.Written a.tick else s.Fresh
    | some .inOpen => True
    | some (.afterBytes count) =>
      (recordBytes cfg.toRuntime (s.journal.latestSeq + 1, a.tick)).length ≤ count →
        ¬Incomplete s.file → s.Fresh

instance (s : Writing cfg) : Decidable s.Fresh := inferInstanceAs (Decidable (_ ∉ _))

instance (s : Writing cfg) (tick : TradeTick cfg.toRuntime) : Decidable (s.Written tick) :=
  inferInstanceAs (Decidable (_ ∧ _))

instance (s : Writing cfg) : ∀ a, Decidable (s.KeepsWhole a)
  | ⟨tick, none⟩ => inferInstanceAs (Decidable (s.journal.Accepts tick →
    if Incomplete s.file then s.Written tick else s.Fresh))
  | ⟨tick, some .inOpen⟩ => inferInstanceAs (Decidable (s.journal.Accepts tick → True))
  | ⟨tick, some (.afterBytes count)⟩ => inferInstanceAs (Decidable (s.journal.Accepts tick →
    (recordBytes cfg.toRuntime (s.journal.latestSeq + 1, tick)).length ≤ count →
      ¬Incomplete s.file → s.Fresh))

/-! ## What the file holds -/

/-- The file holds the lines `pieces` and ends with the shred `p`. A number past the tip is that of
a failed append. -/
structure Holding (s : Writing cfg) (pieces : List (Piece cfg.toRuntime)) (p : Str) : Prop where
  file : s.file = piecesBytes pieces ++ encodeUtf8 p
  exists_file : s.file ≠ [] → s.disk.journalFile = some s.file
  shredded : Shredded pieces
  shred : Shred p
  increasing : Increasing (records pieces)
  numbers : ∀ r ∈ records pieces, 1 ≤ r.1 ∧ r.1 ≤ s.journal.latestSeq + 1
  acknowledged : ∀ r ∈ s.acknowledged, r ∈ records pieces ∧ r.1 ≤ s.journal.latestSeq
  current : s.journal.Current s.disk
  index : PointsInto s.journal.metaStore.seqIndex pieces

/-- The file holds complete lines and at most a shred after them. -/
def Held (s : Writing cfg) : Prop := ∃ pieces p, s.Holding pieces p

variable {s : Writing cfg} {pieces : List (Piece cfg.toRuntime)} {p : Str}

namespace Holding

theorem lineSeqs_eq (h : s.Holding pieces p) :
    s.lineSeqs = (records pieces).map fun r => (r.1 : Int) := by
  rw [lineSeqs, h.file, completeLines_pieces h.shredded h.shred, lineSeqs_pieces h.shredded]

theorem incomplete_iff (h : s.Holding pieces p) : Incomplete s.file ↔ p ≠ [] := by
  rw [h.file]
  exact incomplete_pieces h.shredded h.shred

/-- A fresh number is past all the others. -/
theorem fresh_iff (h : s.Holding pieces p) :
    s.Fresh ↔ ∀ r ∈ records pieces, r.1 < s.journal.latestSeq + 1 := by
  rw [Fresh, h.lineSeqs_eq, List.mem_map]
  constructor
  · intro hf r hr
    have hle := (h.numbers r hr).2
    have hne : r.1 ≠ s.journal.latestSeq + 1 := fun he => hf ⟨r, hr, by rw [he]⟩
    omega
  · rintro hlt ⟨r, hr, he⟩
    have := hlt r hr
    omega

theorem written_iff (h : s.Holding pieces p) {tick : TradeTick cfg.toRuntime} :
    s.Written tick ↔ (s.journal.latestSeq + 1, tick) ∈ records pieces ∧
      (s.journal.latestSeq = 0 ∨ (s.journal.latestSeq + 1) % cfg.seqIndexInterval ≠ 0) := by
  rw [Written, h.file, completeLines_pieces h.shredded h.shred, mem_completeLines h.shredded]

/-- **What the file holds is replayed.** -/
theorem atomic (h : s.Holding pieces p) : s.AppendAtomic := by
  refine ⟨?_, fun r hr startSeq hle clock fuel hfuel => ?_⟩
  · rw [h.lineSeqs_eq, List.Nodup, List.pairwise_map]
    exact h.increasing.imp fun {a b} hlt he => absurd (Int.ofNat_inj.mp he) (Nat.ne_of_lt hlt)
  · have hmem := (h.acknowledged r hr).1
    obtain ⟨piece, hpiece, -⟩ := List.mem_filterMap.mp hmem
    have hfile : s.disk.journalFile = some (piecesBytes pieces ++ encodeUtf8 p) := by
      rw [← h.file]
      apply h.exists_file
      intro hnil
      have hl : piece.bytes ∈ completeLines s.file := by
        rw [h.file, completeLines_pieces h.shredded h.shred]
        exact List.mem_map_of_mem hpiece
      simp [hnil, completeLines, byteLines] at hl
    obtain ⟨A, B, rfl, hA, hB, hbyte⟩ := seek hfile h.shredded h.shred h.increasing
      (fun x hx => (h.numbers x hx).1) h.index startSeq
    have hinc := h.increasing
    rw [records_append] at hmem hinc
    have hrB : r ∈ records B := (List.mem_append.mp hmem).resolve_left fun hrA => by
      have := hA r hrA
      omega
    have hne : B ≠ [] := by
      rintro rfl
      cases hrB
    exact ⟨_, tailFrom_cut hfile h.shredded h.shred (List.pairwise_append.mp hinc).2.1 hB (.inl hne)
      hbyte clock hfuel, hrB⟩

/-- An operation that writes nothing. -/
theorem unwritten (h : s.Holding pieces p) {journal : TickJournal cfg}
    (hlatest : journal.latestSeq = s.journal.latestSeq)
    (hindex : journal.metaStore.seqIndex = s.journal.metaStore.seqIndex)
    (hcur : journal.Current s.disk) : Holding { s with journal } pieces p := by
  refine ⟨h.file, h.exists_file, h.shredded, h.shred, h.increasing, fun r hr => ?_, fun r hr => ?_,
    hcur, ?_⟩
  · simp only [hlatest]
    exact h.numbers r hr
  · simp only [hlatest]
    exact h.acknowledged r hr
  · simp only [hindex]
    exact h.index

/-- A whole line goes behind what the file holds. -/
theorem piecesBytes_snoc (h : s.Holding pieces p) (r : Rec cfg.toRuntime) :
    piecesBytes (pieces ++ [⟨p, r⟩]) = s.file ++ recordBytes cfg.toRuntime r := by
  rw [h.file, piecesBytes_append, piecesBytes_singleton]
  simp [Piece.bytes, tornBytes]

/-- **A whole line was written.** -/
theorem snoc (h : s.Holding pieces p) {s' : Writing cfg} {tick : TradeTick cfg.toRuntime}
    (hfile : s'.disk.journalFile =
      some (s.file ++ recordBytes cfg.toRuntime (s.journal.latestSeq + 1, tick)))
    (hfresh : p = [] → s.Fresh) (hlatest : s.journal.latestSeq ≤ s'.journal.latestSeq)
    (hacknowledged : ∀ r ∈ s'.acknowledged, r ∈ s.acknowledged ∨
      r = (s.journal.latestSeq + 1, tick) ∧ (p = [] ∨ r ∈ records pieces) ∧
        r.1 ≤ s'.journal.latestSeq)
    (hcur : s'.journal.Current s'.disk)
    (hindex : PointsInto s'.journal.metaStore.seqIndex
      (pieces ++ [⟨p, (s.journal.latestSeq + 1, tick)⟩])) :
    s'.Holding (pieces ++ [⟨p, (s.journal.latestSeq + 1, tick)⟩]) [] := by
  have hrecords := records_snoc pieces p (s.journal.latestSeq + 1, tick)
  have hgot : s'.file = s.file ++ recordBytes cfg.toRuntime (s.journal.latestSeq + 1, tick) := by
    rw [Writing.file, hfile, Option.getD_some]
  refine ⟨?_, fun _ => hfile.trans (congrArg some hgot.symm),
    h.shredded.append (.singleton h.shred), .nil, ?_, fun r hr => ?_, fun r hr => ?_, hcur, hindex⟩
  · rw [hgot, h.piecesBytes_snoc]
    simp [encodeUtf8]
  · rw [hrecords]
    split
    · rename_i hp
      exact h.increasing.snoc (h.fresh_iff.mp (hfresh hp))
    · rw [List.append_nil]
      exact h.increasing
  · rw [hrecords] at hr
    rcases List.mem_append.mp hr with hr | hr
    · have := h.numbers r hr
      omega
    · split at hr
      · rw [List.mem_singleton.mp hr]
        exact ⟨Nat.succ_pos _, Nat.succ_le_succ hlatest⟩
      · cases hr
  · rw [hrecords]
    rcases hacknowledged r hr with hr | ⟨rfl, hr, hle⟩
    · obtain ⟨hmem, hle⟩ := h.acknowledged r hr
      exact ⟨List.mem_append_left _ hmem, Nat.le_trans hle hlatest⟩
    · refine ⟨?_, hle⟩
      rcases hr with hp | hr
      · exact List.mem_append_right _ (by simp [hp])
      · exact List.mem_append_left _ hr

/-- **The start of a line was written.** -/
theorem shredded_more (h : s.Holding pieces p) {s' : Writing cfg} {q : Str} (hq : Shred q)
    (hfile : s'.disk.journalFile = some (s.file ++ encodeUtf8 q))
    (hlatest : s'.journal.latestSeq = s.journal.latestSeq)
    (hindex : s'.journal.metaStore.seqIndex = s.journal.metaStore.seqIndex)
    (hacknowledged : s'.acknowledged = s.acknowledged) (hcur : s'.journal.Current s'.disk) :
    s'.Holding pieces (p ++ q) := by
  have hgot : s'.file = s.file ++ encodeUtf8 q := by rw [Writing.file, hfile, Option.getD_some]
  refine ⟨?_, fun _ => hfile.trans (congrArg some hgot.symm), h.shredded, h.shred.append hq,
    h.increasing, ?_, ?_, hcur, ?_⟩
  · rw [hgot, h.file, encodeUtf8_append, List.append_assoc]
  · rw [hlatest]
    exact h.numbers
  · rw [hlatest, hacknowledged]
    exact h.acknowledged
  · rw [hindex]
    exact h.index

end Holding

/-! ## Steps -/

section Steps

variable {tick : TradeTick cfg.toRuntime}

theorem step_rejected (h : ¬s.journal.Accepts tick) (fault : Option WriteFault) :
    s.step ⟨tick, fault⟩ = { s with journal := (s.journal.append s.disk tick).1 } := by
  obtain ⟨store, -, -, -, he⟩ := TickJournal.append_rejects h s.disk
  have hanswer := congrArg (fun after => after.2.2) he
  simp only at hanswer
  simp only [step, TickJournal.appendFaulty_rejects h, hanswer]
  by_cases hblank : TickJournal.BlankSymbol tick <;> simp [hblank]

theorem step_accepted (h : s.journal.Accepts tick) :
    s.step ⟨tick, none⟩ = ⟨(s.journal.append s.disk tick).1, (s.journal.append s.disk tick).2.1,
      s.acknowledged ++ [(s.journal.latestSeq + 1, tick)]⟩ := by
  obtain ⟨store, -, he⟩ := TickJournal.append_accepts h s.disk
  have hanswer := congrArg (fun after => after.2.2) he
  simp only at hanswer
  simp only [step, TickJournal.appendFaulty_none, hanswer, gt_iff_lt, Nat.lt_succ_self, ↓reduceIte]

/-- A write that raises leaves what it wrote. -/
theorem step_fault (h : s.journal.Accepts tick) (fault : WriteFault)
    (hcur : s.journal.Current s.disk) :
    (s.step ⟨tick, some fault⟩).acknowledged = s.acknowledged ∧
      (s.step ⟨tick, some fault⟩).journal.latestSeq = s.journal.latestSeq ∧
      (s.step ⟨tick, some fault⟩).journal.metaStore.seqIndex = s.journal.metaStore.seqIndex ∧
      (s.step ⟨tick, some fault⟩).journal.Current (s.step ⟨tick, some fault⟩).disk ∧
      (s.step ⟨tick, some fault⟩).disk.journalFile =
        match fault with
        | .inOpen => s.disk.journalFile
        | .afterBytes count => some (s.file ++
          (recordBytes cfg.toRuntime (s.journal.latestSeq + 1, tick)).take count) := by
  obtain ⟨store, hp, hw, -, he⟩ :=
    @TickJournal.appendFaulty_writeFault _ _ s.disk _ h fault none
  have hlatest : store.latestSeq = s.journal.latestSeq := congrArg MetaPayload.latestSeq hp
  simp only [step, he]
  refine ⟨trivial, hlatest, congrArg MetaPayload.seqIndex hp, ⟨?_, ?_⟩, ?_⟩
  · show store.Bounded store.latestSeq
    rw [hlatest]
    exact ⟨hp ▸ hcur.store.1, hw ▸ hcur.store.2⟩
  · cases fault <;> exact hlatest.symm ▸ hcur.file
  · cases fault <;> rfl

/-- What a write of some bytes of a line leaves. -/
theorem take_recordBytes (r : Rec cfg.toRuntime) {count : Nat}
    (h : count < (recordBytes cfg.toRuntime r).length) :
    ∃ q, Shred q ∧ (recordBytes cfg.toRuntime r).take count = encodeUtf8 q := by
  have hascii := (printable_recordText r.1 r.2.fields).ascii
  rw [recordBytes_eq, List.length_append, length_encodeUtf8 hascii, List.length_singleton] at h
  have htake : Ascii ((recordText r.1 r.2.fields).take count) := fun c hc =>
    hascii c (List.mem_of_mem_take hc)
  refine ⟨(recordText r.1 r.2.fields).take count, .of_start (List.take_prefix _ _), ?_⟩
  rw [recordBytes_eq, List.take_append_of_le_length (by rw [length_encodeUtf8 hascii]; omega),
    encodeUtf8_ascii hascii, encodeUtf8_ascii htake, List.map_take]

/-- The index after an append that keeps the lines whole. -/
theorem pointsInto_append (h : s.Holding pieces p) (ha : s.journal.Accepts tick)
    (hk : if p = [] then s.Fresh else s.Written tick) :
    PointsInto (s.journal.append s.disk tick).1.metaStore.seqIndex
      (pieces ++ [⟨p, (s.journal.latestSeq + 1, tick)⟩]) := by
  have happ := TickJournal.append_current h.current ha
  rw [happ.seqIndex]
  intro e he
  rcases mem_recordSeqIndex he with he | rfl | ⟨hmod, rfl⟩
  · exact h.index.append _ e he
  · exact Nat.zero_le _
  -- the entry of the new record
  have hlen : s.file.length ≤
      (piecesBytes (pieces ++ [⟨p, (s.journal.latestSeq + 1, tick)⟩])).length := by
    rw [h.piecesBytes_snoc, List.length_append]
    exact Nat.le_add_right _ _
  show s.file.length ≤ _
  split at hk
  · rename_i hp
    have hall := pieceOffset_of_before h.shredded (h.fresh_iff.mp hk)
    have hfile : s.file.length = (piecesBytes pieces).length := by
      rw [h.file, hp]
      simp [encodeUtf8]
    rw [hfile, ← hall]
    exact Nat.le_trans (pieceOffset_mono (Nat.le_max_left _ 2) pieces)
      (pieceOffset_le_append _ _ _)
  · rename_i hp
    obtain ⟨hmem, h0⟩ := h.written_iff.mp hk
    have h0 : s.journal.latestSeq = 0 := h0.resolve_right fun hne => hne hmod
    have hrecords := records_snoc pieces p (s.journal.latestSeq + 1, tick)
    rw [if_neg hp, List.append_nil] at hrecords
    rw [pieceOffset_of_before (h.shredded.append (.singleton h.shred))]
    · exact hlen
    · intro r hr
      rw [hrecords] at hr
      have := (h.numbers r hr).2
      omega

/-- **An append that does not meet what a failed one has left keeps what the file holds.** -/
theorem holding_step (h : s.Holding pieces p) {a : Attempt cfg} (hk : s.KeepsWhole a) :
    (s.step a).Held := by
  obtain ⟨tick, fault⟩ := a
  by_cases ha : s.journal.Accepts tick
  · have hk := hk ha
    cases fault with
    | none =>
      have happ := TickJournal.append_current h.current ha
      have hk : if p = [] then s.Fresh else s.Written tick := by
        by_cases hp : p = []
        · simpa [h.incomplete_iff, hp] using hk
        · simpa [h.incomplete_iff, hp] using hk
      have hle : s.journal.latestSeq + 1 ≤ (s.journal.append s.disk tick).1.latestSeq :=
        Nat.le_of_eq happ.latestSeq.symm
      rw [step_accepted ha]
      refine ⟨_, _, h.snoc happ.journalFile (fun hp => by rwa [if_pos hp] at hk)
        (Nat.le_of_succ_le hle) (fun r hr => ?_) happ.current (pointsInto_append h ha hk)⟩
      rcases List.mem_append.mp hr with hr | hr
      · exact .inl hr
      · obtain rfl := List.mem_singleton.mp hr
        refine .inr ⟨rfl, ?_, hle⟩
        by_cases hp : p = []
        · exact .inl hp
        · rw [if_neg hp] at hk
          exact .inr (h.written_iff.mp hk).1
    | some fault =>
      obtain ⟨hack, hlatest, hindex, hcur, hfile⟩ := step_fault ha fault h.current
      cases fault with
      | inOpen =>
        have hsame : (s.step ⟨tick, some .inOpen⟩).file = s.file := congrArg (·.getD []) hfile
        exact ⟨pieces, p, hsame.trans h.file, fun hne => hfile.trans (by
            rw [hsame] at hne ⊢; exact h.exists_file hne), h.shredded, h.shred, h.increasing,
          hlatest ▸ h.numbers, by rw [hlatest, hack]; exact h.acknowledged, hcur, hindex ▸ h.index⟩
      | afterBytes count =>
        by_cases hcount : (recordBytes cfg.toRuntime (s.journal.latestSeq + 1, tick)).length ≤ count
        · simp only [List.take_of_length_le hcount] at hfile
          refine ⟨_, _, h.snoc hfile (fun hp => hk hcount ?_) (Nat.le_of_eq hlatest.symm)
            (fun r hr => .inl (hack ▸ hr)) hcur (hindex ▸ h.index.append _)⟩
          rw [h.incomplete_iff]
          exact fun hne => hne hp
        · obtain ⟨q, hq, htake⟩ := take_recordBytes (s.journal.latestSeq + 1, tick)
            (Nat.not_le.mp hcount)
          simp only [htake] at hfile
          exact ⟨_, _, h.shredded_more hq hfile hlatest hindex hack hcur⟩
  · have hr := TickJournal.append_rejected ha s.disk
    have hcur := hr.current h.current
    rw [hr.disk] at hcur
    rw [step_rejected ha]
    exact ⟨_, _, h.unwritten hr.latestSeq hr.seqIndex hcur⟩

/-- A whole line after complete ones must carry a fresh number. -/
theorem fresh_of_nodup (h : s.Holding pieces p) (hp : p = []) {s' : Writing cfg}
    (hfile : s'.file = s.file ++ recordBytes cfg.toRuntime (s.journal.latestSeq + 1, tick))
    (hnodup : s'.lineSeqs.Nodup) : s.Fresh := by
  let piece : Piece cfg.toRuntime := ⟨[], (s.journal.latestSeq + 1, tick)⟩
  have hshredded : Shredded (pieces ++ [piece]) := h.shredded.append (.singleton .nil)
  have hbytes : s'.file = piecesBytes (pieces ++ [piece]) ++ encodeUtf8 [] := by
    subst hp
    rw [hfile, h.piecesBytes_snoc]
    simp [encodeUtf8]
  rw [lineSeqs, hbytes, completeLines_pieces hshredded .nil, lineSeqs_pieces hshredded,
    records_append, List.map_append, List.nodup_append] at hnodup
  rw [Fresh, h.lineSeqs_eq]
  exact fun hmem => hnodup.2.2 _ hmem _ (List.mem_singleton_self _) rfl

/-- **The index leads past a record that was written after the start of a line**, where it has an
entry for it. -/
theorem byteOffsetForSeq_torn (h : s.Holding pieces p) (hp : p ≠ []) (ha : s.journal.Accepts tick)
    (h0 : s.journal.latestSeq ≠ 0)
    (hdue : (s.journal.latestSeq + 1) % cfg.seqIndexInterval = 0) :
    (s.journal.append s.disk tick).1.byteOffsetForSeq (s.journal.append s.disk tick).2.1
        (s.journal.latestSeq + 1) =
      .ok (piecesBytes (pieces ++ [⟨p, (s.journal.latestSeq + 1, tick)⟩])).length := by
  let piece : Piece cfg.toRuntime := ⟨p, (s.journal.latestSeq + 1, tick)⟩
  have happ := TickJournal.append_current h.current ha
  have hfile : (s.journal.append s.disk tick).2.1.journalFile =
      some (piecesBytes (pieces ++ [piece])) := by
    rw [happ.journalFile, h.piecesBytes_snoc]
    rfl
  -- the entry of the record is the last one, and it is inside the line
  have hgot := @getLast?_recordSeqIndex cfg s.journal.metaStore (s.journal.latestSeq + 1)
    s.file.length (Nat.succ_pos _) hdue
    fun e he => Nat.lt_succ_of_le (h.current.store.1.2 e he)
  have hseqIndex := happ.seqIndex
  rw [show s.disk.journalFile.getD [] = s.file from rfl] at hseqIndex
  rw [← hseqIndex] at hgot
  have hle : ∀ e ∈ (s.journal.append s.disk tick).1.metaStore.seqIndex,
      e.1 ≤ s.journal.latestSeq + 1 := by
    rw [← happ.latestSeq]
    exact happ.current.store.1.2
  have hhint := chooseHint_getLast? hle hgot 0
  have hshredded : Shredded (pieces ++ [piece]) := h.shredded.append (.singleton h.shred)
  have hframed : ∀ l ∈ pieces.map Piece.bytes ++ [piece.bytes], Framed l := by
    have := hshredded.framed
    rwa [List.map_append] at this
  have hlines : (pieces.map Piece.bytes ++ [piece.bytes]).flatten =
      piecesBytes (pieces ++ [piece]) := by simp [piecesBytes]
  have hpos := List.length_pos_of_ne_nil ((encodeUtf8_eq_nil h.shred.printable.ascii).not.mpr hp)
  unfold TickJournal.byteOffsetForSeq MetaStore.byteOffsetForSeq MetaStore.indexedHint
  rw [if_neg (by omega), hfile, hhint, ← hlines]
  apply resolve_last hframed
  · rw [h.file, List.length_append, piecesBytes]
    omega
  · rw [hlines, h.piecesBytes_snoc, List.length_append]
    exact Nat.le_add_right _ _

/-- **A record that was written after the start of a line is replayed only by luck.** -/
theorem written_of_replayed (h : s.Holding pieces p) (hp : p ≠ []) (ha : s.journal.Accepts tick)
    (hatomic : (s.step ⟨tick, none⟩).AppendAtomic) : s.Written tick := by
  rw [step_accepted ha] at hatomic
  have hreplayed := hatomic.replayed (s.journal.latestSeq + 1, tick) (by simp)
  let piece : Piece cfg.toRuntime := ⟨p, (s.journal.latestSeq + 1, tick)⟩
  have hshredded : Shredded (pieces ++ [piece]) := h.shredded.append (.singleton h.shred)
  have hrecords : records (pieces ++ [piece]) = records pieces := by
    rw [records_snoc, if_neg hp, List.append_nil]
  have hfile : (s.journal.append s.disk tick).2.1.journalFile =
      some (piecesBytes (pieces ++ [piece])) := by
    rw [(TickJournal.append_current h.current ha).journalFile, h.piecesBytes_snoc]
    rfl
  rw [h.written_iff]
  constructor
  · -- a replay from the start of the file
    obtain ⟨yielded, hy, hmem⟩ := hreplayed 1 (Nat.succ_pos _) (fun _ => 0) 2 (Nat.le_refl 2)
    have hcut := @tailFrom_cut cfg (s.journal.append s.disk tick).1
      (s.journal.append s.disk tick).2.1 1 [] (pieces ++ [piece]) []
      (by rw [hfile]; simp [encodeUtf8]) hshredded .nil (hrecords ▸ h.increasing)
      (fun r hr => (h.numbers r (hrecords ▸ hr)).1) (.inr rfl) rfl (fun _ => 0) 2 (Nat.le_refl 2)
    rw [hcut, hrecords] at hy
    rw [← Option.some.inj hy] at hmem
    exact hmem
  · -- a replay from the record, if the index leads past it
    by_contra hdue
    obtain ⟨h0, hmod⟩ := not_or.mp hdue
    obtain ⟨yielded, hy, hmem⟩ := hreplayed _ (Nat.le_refl _) (fun _ => 0) 2 (Nat.le_refl 2)
    have hbyte := byteOffsetForSeq_torn h hp ha h0 (not_not.mp hmod)
    have hend := tailFrom_end hfile hshredded.framed hbyte (fun _ => 0) (Nat.le_refl 2)
    rw [hend] at hy
    rw [← Option.some.inj hy] at hmem
    cases hmem

/-- An append after which all is well did not meet what a failed one has left. -/
theorem keepsWhole_of_atomic (h : s.Holding pieces p) {a : Attempt cfg}
    (hatomic : (s.step a).AppendAtomic) : s.KeepsWhole a := by
  obtain ⟨tick, fault⟩ := a
  intro (ha : s.journal.Accepts tick)
  cases fault with
  | none =>
    show if Incomplete s.file then s.Written tick else s.Fresh
    split
    · rename_i hin
      exact written_of_replayed h (h.incomplete_iff.mp hin) ha hatomic
    · rename_i hin
      have hfile : (s.step ⟨tick, none⟩).file =
          s.file ++ recordBytes cfg.toRuntime (s.journal.latestSeq + 1, tick) := by
        rw [step_accepted ha]
        exact congrArg (·.getD []) (TickJournal.append_current h.current ha).journalFile
      exact fresh_of_nodup h (not_not.mp (h.incomplete_iff.not.mp hin)) hfile hatomic.numbers
  | some fault =>
    cases fault with
    | inOpen => trivial
    | afterBytes count =>
      intro hcount hin
      obtain ⟨-, -, -, -, hfile⟩ := step_fault ha (.afterBytes count) h.current
      simp only [List.take_of_length_le hcount] at hfile
      exact fresh_of_nodup h (not_not.mp (h.incomplete_iff.not.mp hin))
        (congrArg (·.getD []) hfile) hatomic.numbers

end Steps

/-! ## Runs -/

/-- The lines of a file of records are whole. -/
theorem holding_of_sound {journal : TickJournal cfg} {disk : Disk} {rs : List (Rec cfg.toRuntime)}
    (h : journal.Sound disk rs) :
    Holding ⟨journal, disk, []⟩ (rs.map fun r => ⟨[], r⟩) [] := by
  have hrecords : records (rs.map fun r => (⟨[], r⟩ : Piece cfg.toRuntime)) = rs := by
    rw [records, List.filterMap_map]
    exact List.filterMap_some
  have hbytes : ∀ rs : List (Rec cfg.toRuntime),
      piecesBytes (rs.map fun r => ⟨[], r⟩) = journalBytes rs := fun rs => by
    rw [piecesBytes, List.map_map]
    rfl
  have hshredded : Shredded (rs.map fun r => (⟨[], r⟩ : Piece cfg.toRuntime)) := by
    intro piece hpiece
    obtain ⟨r, -, rfl⟩ := List.mem_map.mp hpiece
    exact .nil
  have hoffset : ∀ startSeq, pieceOffset startSeq (rs.map fun r => ⟨[], r⟩) =
      offsetOf startSeq rs := by
    intro startSeq
    have hpasses : Piece.passes startSeq ∘ (fun r => (⟨[], r⟩ : Piece cfg.toRuntime)) =
        fun r => decide (r.1 < startSeq) := by
      funext r
      have hp := @Piece.passes_iff cfg.toRuntime startSeq ⟨[], r⟩ .nil
      simp only [Piece.record?, ↓reduceIte, Option.some.injEq, forall_eq'] at hp
      rw [Function.comp, Bool.eq_iff_iff, hp, decide_eq_true_iff]
    rw [pieceOffset, List.takeWhile_map, hbytes, hpasses]
    rfl
  refine ⟨?_, fun hne => ?_, hshredded, .nil, hrecords.symm ▸ h.increasing, fun r hr => ?_,
    fun r hr => (List.not_mem_nil hr).elim, h.current, fun e he => ?_⟩
  · rw [hbytes, file, h.file.getD]
    simp [encodeUtf8]
  · rcases h.file with ⟨hn, -⟩ | hs
    · exact absurd (by rw [file, hn]; rfl) hne
    · rw [file, hs]
      rfl
  · have := h.numbers r (hrecords ▸ hr)
    exact ⟨this.1, Nat.le_succ_of_le this.2⟩
  · rw [hoffset]
    exact Nat.le_trans (h.index e he) (offsetOf_mono (Nat.le_max_left _ _) rs)

/-- **Lines with different numbers, and all acknowledged records in every replay, are what the runs
have in which no append meets what a failed one has left.** -/
theorem append_atomic_iff {journal : TickJournal cfg} {disk : Disk} {rs : List (Rec cfg.toRuntime)}
    (h : journal.Sound disk rs) (attempts : List (Attempt cfg)) :
    Run.Always step AppendAtomic ⟨journal, disk, []⟩ attempts ↔
      Run.Each step KeepsWhole ⟨journal, disk, []⟩ attempts := by
  have hstart := holding_of_sound h
  have hinv : ∀ (s : Writing cfg) (a : Attempt cfg), s.Held → s.AppendAtomic → s.KeepsWhole a →
      (s.step a).Held := fun s a ⟨_, _, hs⟩ _ hk => holding_step hs hk
  refine Run.always_iff_each hinv (fun s a ⟨_, _, hs⟩ _ => ⟨keepsWhole_of_atomic hs, fun hk => ?_⟩)
    ⟨_, _, hstart⟩ hstart.atomic attempts
  obtain ⟨_, _, hs'⟩ := holding_step hs hk
  exact hs'.atomic

def start : Writing .default := ⟨.new .empty, .empty, []⟩

def failedTick : TradeTick Config.default.toRuntime := readmeTick ['B'] ['1']
def nextTick : TradeTick Config.default.toRuntime := readmeTick ['B'] ['2']

/-- `fsync` raises, a retry raises inside the line, and a second retry is acknowledged. -/
def retries : List (Attempt .default) :=
  [⟨failedTick, some (.afterBytes 1000)⟩, ⟨failedTick, some (.afterBytes 1)⟩, ⟨failedTick, none⟩]

/-- The line that the first call has left is the one that is replayed. -/
theorem append_atomic_retries : Run.Always step AppendAtomic start retries :=
  (append_atomic_iff .empty retries).mpr (by decide +kernel)

/-- `fsync` raises, and the next tick is appended. -/
def afterSync : List (Attempt .default) := [⟨failedTick, some (.afterBytes 1000)⟩, ⟨nextTick, none⟩]

/-- `write` raises after the first byte, and the next tick is appended. -/
def afterByte : List (Attempt .default) := [⟨failedTick, some (.afterBytes 1)⟩, ⟨nextTick, none⟩]

/-- **Two lines carry the number 1, and the acknowledged record 1 is in no replay.** -/
theorem failed_write_repeats :
    ¬Run.Always step AppendAtomic start afterSync ∧
      ¬Run.Always step AppendAtomic start afterByte := by
  constructor
  · intro h
    have hseqs : (Run.exec step start afterSync).lineSeqs = [1, 1] := by decide +kernel
    have hnodup := h.last.numbers
    rw [hseqs] at hnodup
    revert hnodup
    decide
  · intro h
    have hacknowledged : (1, nextTick) ∈ (Run.exec step start afterByte).acknowledged := by
      decide +kernel
    obtain ⟨yielded, hy, hmem⟩ := h.last.replayed _ hacknowledged 1 (Nat.le_refl 1) (fun _ => 0) 2
      (Nat.le_refl 2)
    have hnone : ((Run.exec step start afterByte).journal.tailFrom (fun _ => 0) 2
        (Run.exec step start afterByte).disk 1).map (fun yielded => yielded.items.length) =
          some 0 := by
      decide +kernel
    rw [hy] at hnone
    rw [List.length_eq_zero_iff.mp (Option.some.inj hnone)] at hmem
    cases hmem

end Writing

end Leviathan
