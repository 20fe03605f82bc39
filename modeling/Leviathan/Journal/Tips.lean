import Leviathan.Journal.JournalLemmas

/-!
# Bounds on the tips

Every tip that a process or the metadata file knows of comes from a record that was written.
`Bounded M` says that none of them is past `M`; each operation keeps it, and an accepted append
raises the bound to the number it gives. `Numbered rs M` says that a journal has used exactly the
numbers `1 .. M`.
-/

namespace Leviathan

open Py

variable {cfg : Config} {M M' : Nat}

/-! ## Payloads and stores -/

/-- No tip of the payload is past `M`: not its `latest_seq`, and no number of its index. -/
structure MetaPayload.Bounded (M : Nat) (payload : MetaPayload) : Prop where
  latestSeq : payload.latestSeq ≤ M
  seqIndex : ∀ e ∈ payload.seqIndex, e.1 ≤ M

/-- No tip of the store is past `M`: not its payload's and not its high-water mark. -/
structure MetaStore.Bounded (M : Nat) (store : MetaStore cfg) : Prop where
  payload : store.payload.Bounded M
  highWater : store.diskTipHighWater ≤ M

theorem maxSeqFromSeqIndex_le {index : List (Nat × Nat)} (h : ∀ e ∈ index, e.1 ≤ M) :
    maxSeqFromSeqIndex index ≤ M := by
  have hfold : ∀ high ≤ M, (index.foldl
      (fun high entry => if entry.1 > high then entry.1 else high) high) ≤ M := by
    induction index with
    | nil => exact fun high hh => hh
    | cons e index ih =>
      intro high hh
      refine ih (fun x hx => h x (by simp [hx])) _ ?_
      have := h e (by simp)
      show (if e.1 > high then e.1 else high) ≤ M
      split <;> omega
  exact hfold 0 (Nat.zero_le _)

namespace MetaPayload.Bounded

theorem mono {payload : MetaPayload} (h : payload.Bounded M) (hM : M ≤ M') : payload.Bounded M' :=
  ⟨Nat.le_trans h.1 hM, fun e he => Nat.le_trans (h.2 e he) hM⟩

theorem tip_le {payload : MetaPayload} (h : payload.Bounded M) : payload.tip ≤ M :=
  Nat.max_le.mpr ⟨h.1, maxSeqFromSeqIndex_le h.2⟩

theorem empty : MetaPayload.empty.Bounded M :=
  ⟨Nat.zero_le _, by simp [MetaPayload.empty]⟩

end MetaPayload.Bounded

theorem fileTip_le {metaFile : Option MetaPayload} (h : (loadPayload metaFile).Bounded M) :
    MetaStore.fileTip metaFile ≤ M := by
  cases metaFile with
  | none => exact Nat.zero_le _
  | some payload => exact h.tip_le

/-- `record` opens an empty index with `[0, 0]`, and appends a checkpoint only where the interval
divides the number. -/
theorem grownIndex_cases (interval : Nat) (index : List (Nat × Nat)) (seq byteOffset : Nat) :
    ∃ opened, (opened = index ∨ opened = [(0, 0)]) ∧
      (grownIndex interval index seq byteOffset = opened ∨
        (seq % interval = 0 ∧ (seq = 0 ∨ seq > lastSeq opened)) ∧
          grownIndex interval index seq byteOffset = opened ++ [(seq, byteOffset)]) := by
  refine ⟨if index = [] then [(0, 0)] else index, by split <;> simp, ?_⟩
  simp only [grownIndex]
  generalize (if index = [] then [(0, 0)] else index) = opened
  by_cases h : seq = 0 ∨ (seq % interval = 0 ∧ seq > lastSeq opened)
  · refine .inr ⟨?_, if_pos h⟩
    rcases h with rfl | ⟨hmod, hgt⟩
    · exact ⟨Nat.zero_mod _, .inl rfl⟩
    · exact ⟨hmod, .inr hgt⟩
  · exact .inl (if_neg h)

/-- The index of a store after a record is an end of the grown one, as the trim drops its oldest
entries. -/
theorem recordSeqIndex_suffix (store : MetaStore cfg) (seq byteOffset : Nat) :
    (store.recordSeqIndex seq byteOffset).seqIndex <:+
      grownIndex cfg.seqIndexInterval store.seqIndex seq byteOffset := by
  have he : (store.recordSeqIndex seq byteOffset).seqIndex =
      if (grownIndex cfg.seqIndexInterval store.seqIndex seq byteOffset).length >
          seqIndexMaxEntries then
        trimIndex (grownIndex cfg.seqIndexInterval store.seqIndex seq byteOffset)
      else grownIndex cfg.seqIndexInterval store.seqIndex seq byteOffset := rfl
  rw [he]
  split
  · exact List.drop_suffix _ _
  · exact List.suffix_rfl

/-- The index after a record has no entry but the old ones, the first one and the record's, if that
is due. -/
theorem mem_recordSeqIndex {store : MetaStore cfg} {seq byteOffset : Nat} {e : Nat × Nat}
    (h : e ∈ (store.recordSeqIndex seq byteOffset).seqIndex) :
    e ∈ store.seqIndex ∨ e = (0, 0) ∨ seq % cfg.seqIndexInterval = 0 ∧ e = (seq, byteOffset) := by
  have hg := (recordSeqIndex_suffix store seq byteOffset).mem h
  obtain ⟨opened, ho, hc⟩ :=
    grownIndex_cases cfg.seqIndexInterval store.seqIndex seq byteOffset
  have hopened : e ∈ opened → e ∈ store.seqIndex ∨ e = (0, 0) := by
    rcases ho with rfl | rfl
    · exact .inl
    · exact fun he => .inr (List.mem_singleton.mp he)
  rcases hc with hc | ⟨⟨hmod, -⟩, hc⟩ <;> rw [hc] at hg
  · exact (hopened hg).imp_right .inl
  · rcases List.mem_append.mp hg with hg | hg
    · exact (hopened hg).imp_right .inl
    · exact .inr (.inr ⟨hmod, List.mem_singleton.mp hg⟩)

/-- A record that is due is the last entry, when the index has none for it yet; the trim leaves the
end of the list. -/
theorem getLast?_recordSeqIndex {store : MetaStore cfg} {seq byteOffset : Nat} (hpos : 0 < seq)
    (hdue : seq % cfg.seqIndexInterval = 0) (hnew : ∀ e ∈ store.seqIndex, e.1 < seq) :
    (store.recordSeqIndex seq byteOffset).seqIndex.getLast? = some (seq, byteOffset) := by
  have hgrown : ∃ opened, grownIndex cfg.seqIndexInterval store.seqIndex seq byteOffset =
      opened ++ [(seq, byteOffset)] := by
    unfold grownIndex
    simp only
    split
    · exact ⟨_, if_pos (.inr ⟨hdue, hpos⟩)⟩
    · rename_i hne
      refine ⟨_, if_pos (.inr ⟨hdue, ?_⟩)⟩
      rw [lastSeq, List.getLast?_eq_some_getLast hne]
      exact hnew _ (List.getLast_mem hne)
  obtain ⟨opened, hgrown⟩ := hgrown
  have he : (store.recordSeqIndex seq byteOffset).seqIndex =
      if (opened ++ [(seq, byteOffset)]).length > seqIndexMaxEntries then
        trimIndex (opened ++ [(seq, byteOffset)])
      else opened ++ [(seq, byteOffset)] := by
    rw [← hgrown]
    rfl
  have hmax : 0 < seqIndexMaxEntries := by unfold seqIndexMaxEntries; decide
  rw [he]
  split
  · rw [trimIndex, SymbolDedupBucket.lastN, List.length_append, List.length_singleton,
      List.drop_append_of_le_length (by omega), List.getLast?_append]
    rfl
  · simp

namespace MetaStore.Bounded

theorem mono {store : MetaStore cfg} (h : store.Bounded M) (hM : M ≤ M') : store.Bounded M' :=
  ⟨h.1.mono hM, Nat.le_trans h.2 hM⟩

theorem new {metaFile : Option MetaPayload} (h : (loadPayload metaFile).Bounded M) :
    (MetaStore.new metaFile : MetaStore cfg).Bounded M :=
  ⟨h, h.tip_le⟩

theorem memoryTip_le {store : MetaStore cfg} (h : store.Bounded M) : store.memoryTip ≤ M :=
  Nat.max_le.mpr ⟨h.1.1, h.2⟩

theorem withTip {store : MetaStore cfg} (h : store.Bounded M) {tip : Nat} (ht : tip ≤ M) :
    (store.withTip tip).Bounded M :=
  ⟨⟨ht, h.1.2⟩, ht⟩

/-- A `persist` exchanges tips between the store and the file and makes no new one, so a bound on
both stays. -/
theorem persist {store : MetaStore cfg} {metaFile : Option MetaPayload} (h : store.Bounded M)
    (hf : (loadPayload metaFile).Bounded M) :
    (store.persist metaFile).1.Bounded M ∧ (loadPayload (store.persist metaFile).2).Bounded M := by
  rw [persist_eq]
  split
  · exact ⟨h.withTip (fileTip_le hf), hf⟩
  · exact ⟨h.withTip h.memoryTip_le, h.memoryTip_le, h.1.2⟩

/-- `set_latest_seq` is the one operation that can pass the bound, by the number it is given. -/
theorem setLatestSeq {store : MetaStore cfg} (h : store.Bounded M) {seq : Nat} (hseq : seq ≤ M) :
    (store.setLatestSeq seq).Bounded M := by
  have hmax : max store.payload.latestSeq seq ≤ M := Nat.max_le.mpr ⟨h.1.1, hseq⟩
  refine ⟨⟨hmax, h.1.2⟩, ?_⟩
  simp only [MetaStore.setLatestSeq]
  split
  · exact hmax
  · exact h.2

/-- What a read reports is a tip of the file or of the store. -/
theorem readLatestSeqFromDisk {store : MetaStore cfg} {metaFile : Option MetaPayload}
    (h : store.Bounded M) (hf : (loadPayload metaFile).Bounded M) :
    (store.readLatestSeqFromDisk metaFile).1.Bounded M ∧
      (store.readLatestSeqFromDisk metaFile).2 ≤ M := by
  have hmax : max (loadPayload metaFile).tip store.diskTipHighWater ≤ M :=
    Nat.max_le.mpr ⟨hf.tip_le, h.2⟩
  refine ⟨⟨h.1, ?_⟩, hmax⟩
  simp only [MetaStore.readLatestSeqFromDisk]
  split
  · exact hmax
  · exact h.2

theorem reloadFromDisk {store : MetaStore cfg} {metaFile : Option MetaPayload}
    (h : store.Bounded M) (hf : (loadPayload metaFile).Bounded M) :
    (store.reloadFromDisk metaFile).Bounded M := by
  have hmax : max (loadPayload metaFile).tip store.diskTipHighWater ≤ M :=
    Nat.max_le.mpr ⟨hf.tip_le, h.2⟩
  refine ⟨⟨hmax, hf.2⟩, ?_⟩
  simp only [MetaStore.reloadFromDisk]
  split
  · exact hmax
  · exact h.2

/-- An accepted append makes one new tip, the next number of its own store. -/
theorem appended {store store' : MetaStore cfg} {tick : TradeTick cfg.toRuntime} {byteOffset : Nat}
    (h : store.Bounded M) (ha : TickJournal.AppendedStore store tick byteOffset store')
    (hM : store.latestSeq + 1 ≤ M) : store'.Bounded M := by
  refine ⟨⟨?_, fun e he => ?_⟩, ?_⟩
  · exact Nat.le_trans (Nat.le_of_eq ha.latestSeq) hM
  · have he' : e ∈ store'.seqIndex := he
    rw [ha.seqIndex] at he'
    rcases mem_recordSeqIndex he' with he | rfl | ⟨-, rfl⟩
    · exact h.1.2 e he
    · exact Nat.zero_le _
    · exact hM
  · rw [ha.highWater]
    exact Nat.max_le.mpr ⟨h.2, hM⟩

end MetaStore.Bounded

/-! ## Journals -/

/-- No tip that the journal or the directory knows of is past `M`. -/
structure TickJournal.Bounded (M : Nat) (journal : TickJournal cfg) (disk : Disk) : Prop where
  store : journal.metaStore.Bounded M
  file : (loadPayload disk.metaFile).Bounded M

namespace TickJournal.Bounded

variable {journal : TickJournal cfg} {disk : Disk}

theorem new (h : (loadPayload disk.metaFile).Bounded M) :
    (TickJournal.new disk : TickJournal cfg).Bounded M disk :=
  ⟨.new h, h⟩

theorem persistLocked (h : journal.Bounded M disk) :
    (journal.persistLocked disk).1.Bounded M (journal.persistLocked disk).2 := by
  obtain ⟨h₁, h₂⟩ := h.store.persist h.file
  exact ⟨h₁, h₂⟩

theorem flushMeta (h : journal.Bounded M disk) :
    (journal.flushMeta disk).1.Bounded M (journal.flushMeta disk).2.1 := by
  unfold TickJournal.flushMeta
  split
  · exact h.persistLocked
  · exact h

theorem noteAppendLocked (h : journal.Bounded M disk) :
    (journal.noteAppendLocked disk).1.Bounded M (journal.noteAppendLocked disk).2 := by
  rcases noteAppendLocked_cases journal disk with ⟨n, he⟩ | ⟨n, he⟩ <;> rw [he]
  · exact persistLocked (show Bounded M { journal with appendCounter := n } disk from
      ⟨h.store, h.file⟩)
  · exact ⟨h.store, h.file⟩

/-- An append raises the bound to the number it gives; a rejected one gives none. -/
theorem append (h : journal.Bounded M disk) (tick : TradeTick cfg.toRuntime)
    (hM : journal.Accepts tick → journal.latestSeq + 1 ≤ M) :
    (journal.append disk tick).1.Bounded M (journal.append disk tick).2.1 := by
  by_cases ha : journal.Accepts tick
  · obtain ⟨store, hs, he⟩ := append_accepts ha disk
    rw [he]
    exact noteAppendLocked ⟨h.store.appended hs (hM ha), h.file⟩
  · obtain ⟨store, hp, hw, -, he⟩ := append_rejects ha disk
    rw [he]
    exact ⟨⟨hp ▸ h.store.1, hw ▸ h.store.2⟩, h.file⟩

end TickJournal.Bounded

/-! ## What an operation does to the journal file -/

namespace TickJournal

variable (journal : TickJournal cfg) (disk : Disk)

@[simp] theorem flushMeta_journalFile :
    (journal.flushMeta disk).2.1.journalFile = disk.journalFile := by
  unfold flushMeta; split <;> rfl

theorem flushMeta_cursorFile : (journal.flushMeta disk).2.1.cursorFile = disk.cursorFile := by
  unfold flushMeta; split <;> rfl

@[simp] theorem ensureLatestSeqAtLeast_journalFile (seq : Nat) :
    (journal.ensureLatestSeqAtLeast disk seq).2.1.journalFile = disk.journalFile := by
  simp only [ensureLatestSeqAtLeast]; split <;> rfl

@[simp] theorem noteAppendLocked_journalFile :
    (journal.noteAppendLocked disk).2.journalFile = disk.journalFile := by
  rcases noteAppendLocked_cases journal disk with ⟨n, he⟩ | ⟨n, he⟩
  · rw [he]; rfl
  · rw [he]

/-- An append writes the line of the next number at the end of the file where it accepts the tick,
and else leaves the file. -/
theorem append_journalFile (tick : TradeTick cfg.toRuntime) :
    (journal.append disk tick).2.1.journalFile =
      if journal.Accepts tick then
        some (disk.journalFile.getD [] ++
          recordBytes cfg.toRuntime (journal.latestSeq + 1, tick))
      else disk.journalFile := by
  split
  · rename_i ha
    obtain ⟨store, -, he⟩ := append_accepts ha disk
    rw [he]
    exact noteAppendLocked_journalFile _ _
  · rename_i ha
    obtain ⟨store, -, -, -, he⟩ := append_rejects ha disk
    rw [he]

end TickJournal

/-! ## The numbers in a file -/

/-- The sequence numbers of the complete lines of a journal file, as the index walk reads them. A
line without a number has none. -/
def lineSeqs (rt : Runtime) (journalFile : Option Bytes) : List Int :=
  (byteLines (journalFile.getD [])).filterMap fun line =>
    if endsWithLF line then
      match resolveLine rt line with
      | .ok seq => seq
      | .error _ => none
    else none

/-- A journal of records has one line for each of them, with its number. -/
theorem lineSeqs_records {rt : Runtime} (rs : List (Rec rt)) :
    lineSeqs rt (some (journalBytes rs)) = rs.map fun r => (r.1 : Int) := by
  unfold lineSeqs
  rw [Option.getD_some, byteLines_journalBytes]
  induction rs with
  | nil => rfl
  | cons r rs ih =>
    rw [List.map_cons, List.filterMap_cons, (framed_recordBytes r).endsWithLF]
    simp [resolveLine_recordBytes, ih]

theorem Disk.Holds.lineSeqs {disk : Disk} {rs : List (Rec cfg.toRuntime)} (h : disk.Holds rs) :
    lineSeqs cfg.toRuntime disk.journalFile = rs.map fun r => (r.1 : Int) := by
  rcases h with ⟨h, rfl⟩ | h
  · rw [h]; rfl
  · rw [h]; exact lineSeqs_records rs

/-- The journal has used the numbers `1 .. M`, each in some record. -/
def Numbered {rt : Runtime} (rs : List (Rec rt)) (M : Nat) : Prop :=
  ∀ n, (∃ r ∈ rs, r.1 = n) ↔ 1 ≤ n ∧ n ≤ M

/-- With the number after a tip that is not past `M`, either a number is used again or `M + 1` is
used. -/
theorem Numbered.append {rt : Runtime} {rs : List (Rec rt)} (h : Numbered rs M) {seq : Nat}
    (hseq : seq ≤ M) (tick : TradeTick rt) :
    Numbered (rs ++ [(seq + 1, tick)]) (max M (seq + 1)) := by
  intro n
  have hn := h n
  constructor
  · rintro ⟨r, hr, rfl⟩
    rcases List.mem_append.mp hr with hr | hr
    · have := hn.mp ⟨r, hr, rfl⟩; omega
    · rw [List.mem_singleton.mp hr]; exact ⟨by simp, by simp⟩
  · rintro ⟨h₁, h₂⟩
    by_cases hM : n ≤ M
    · obtain ⟨r, hr, he⟩ := hn.mpr ⟨h₁, hM⟩
      exact ⟨r, List.mem_append_left _ hr, he⟩
    · exact ⟨_, List.mem_append_right rs (List.mem_singleton_self _), by simp; omega⟩

/-- An append to a journal of records leaves a journal of records, one longer where the tick was
accepted. -/
theorem append_holds (journal : TickJournal cfg) {disk : Disk} {rs : List (Rec cfg.toRuntime)}
    (hfile : disk.Holds rs) (tick : TradeTick cfg.toRuntime) :
    (journal.append disk tick).2.1.Holds
      (if journal.Accepts tick then rs ++ [(journal.latestSeq + 1, tick)] else rs) := by
  unfold Disk.Holds
  rw [TickJournal.append_journalFile]
  split
  · rw [hfile.getD]
    exact .inr (by simp [journalBytes])
  · exact hfile

/-- **When an append keeps the numbers apart.** A journal that has used `1 .. M`, and whose tips are
not past `M`, gives a new number exactly when no number of the file is past its own tip. -/
theorem append_nodup_iff (journal : TickJournal cfg) {disk : Disk} {rs : List (Rec cfg.toRuntime)}
    (hfile : disk.Holds rs) (hnum : Numbered rs M) (hM : journal.latestSeq ≤ M)
    (tick : TradeTick cfg.toRuntime)
    (hnodup : (lineSeqs cfg.toRuntime disk.journalFile).Nodup) :
    (lineSeqs cfg.toRuntime (journal.append disk tick).2.1.journalFile).Nodup ↔
      (journal.Accepts tick →
        ∀ seq ∈ lineSeqs cfg.toRuntime disk.journalFile, seq ≤ (journal.latestSeq : Int)) := by
  rw [TickJournal.append_journalFile]
  by_cases ha : journal.Accepts tick
  · have hafter : lineSeqs cfg.toRuntime (some (disk.journalFile.getD [] ++
        recordBytes cfg.toRuntime (journal.latestSeq + 1, tick))) =
          rs.map (fun r => (r.1 : Int)) ++ [((journal.latestSeq + 1 : Nat) : Int)] := by
      have := lineSeqs_records (rs ++ [(journal.latestSeq + 1, tick)])
      rw [journalBytes_append] at this
      rw [hfile.getD]
      simpa [journalBytes] using this
    rw [hfile.lineSeqs] at hnodup ⊢
    rw [if_pos ha, hafter, List.nodup_append]
    simp only [hnodup, List.nodup_singleton, true_and, List.mem_singleton, ha, forall_const,
      List.forall_mem_map]
    constructor
    · intro h r hr
      by_contra hlt
      have hused := (hnum (journal.latestSeq + 1)).mpr <| by
        have := (hnum r.1).mp ⟨r, hr, rfl⟩; omega
      obtain ⟨r', hr', he⟩ := hused
      exact h r' hr' _ rfl (by rw [he])
    · intro h r hr _ he
      have := h r hr
      omega
  · simp [ha, hnodup]

end Leviathan
