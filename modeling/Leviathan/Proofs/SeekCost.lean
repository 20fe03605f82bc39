import Leviathan.Proofs.Retention

/-!
# What a seek through the index costs

* `resolveReads`: the lines that `resolve` reads. `resolveFrom_reads`: these are the lines that its
  walk passes, and the one that it stops at.
* `Indexes`: **the index is the end of the one that a rebuild with the records of the file makes.**
  Appends, persists, restarts and compactions keep it.
* `seeks_cheap`: **a seek is exact, and for a number that is not far behind the tip it reads one
  interval of lines at most.**
-/

namespace Leviathan

open Py

variable {cfg : Config} {rt : Runtime}

/-! ## Lines read -/

/-- The lines that the walk of `resolve` reads. -/
def walkReads (rt : Runtime) (startSeq : Nat) : List Bytes → Nat
  | [] => 0
  | line :: lines =>
    if endsWithLF line = false then 1
    else match resolveLine rt line with
      | .error _ => 1
      | .ok none => 1 + walkReads rt startSeq lines
      | .ok (some seq) => if seq ≥ startSeq then 1 else 1 + walkReads rt startSeq lines

/-- The lines that `resolve` reads: the rest of a line that the hint is inside of, and the walk. -/
def resolveReads (rt : Runtime) (journalFile : Option Bytes) (startSeq indexedOffset : Nat) : Nat :=
  match journalFile with
  | none => 0
  | some file =>
    let offset := if indexedOffset > file.length then 0 else indexedOffset
    (if offset > 0 ∧ file[offset - 1]? ≠ some LF then 1 else 0) +
      walkReads rt startSeq (byteLines (file.drop (skipToLineStart file offset)))

/-- The lines that `byte_offset_for_seq` reads. -/
def TickJournal.seekReads (journal : TickJournal cfg) (disk : Disk) (startSeq : Nat) : Nat :=
  if startSeq ≤ 1 then 0
  else resolveReads cfg.toRuntime disk.journalFile startSeq (journal.metaStore.indexedHint startSeq)

/-- A walk passes the lines that it reads, or all of them but the last one. -/
theorem resolveFrom_reads {startSeq lineStart position : Nat} {lines : List Bytes}
    (h : resolveFrom rt startSeq lineStart lines = .ok position) :
    ∃ passed rest, lines = passed ++ rest ∧ position = lineStart + passed.flatten.length ∧
      passed.length ≤ walkReads rt startSeq lines ∧
      walkReads rt startSeq lines ≤ passed.length + 1 := by
  induction lines generalizing lineStart with
  | nil => exact ⟨[], [], rfl, (Except.ok.inj h).symm, Nat.le_refl _, Nat.zero_le _⟩
  | cons line lines ih =>
    have hstops : lineStart = position → ∃ passed rest, line :: lines = passed ++ rest ∧
        position = lineStart + passed.flatten.length ∧ passed.length ≤ 1 ∧ 1 ≤ passed.length + 1 :=
      fun he => ⟨[], line :: lines, rfl, he.symm, Nat.zero_le _, Nat.le_refl _⟩
    have hgoes : resolveFrom rt startSeq (lineStart + line.length) lines = .ok position →
        ∃ passed rest, line :: lines = passed ++ rest ∧
          position = lineStart + passed.flatten.length ∧
          passed.length ≤ 1 + walkReads rt startSeq lines ∧
          1 + walkReads rt startSeq lines ≤ passed.length + 1 := by
      intro hrest
      obtain ⟨passed, rest, rfl, rfl, hle, hge⟩ := ih hrest
      refine ⟨line :: passed, rest, rfl, by simp [Nat.add_assoc], ?_, ?_⟩
      · rw [List.length_cons]
        omega
      · rw [List.length_cons]
        omega
    simp only [resolveFrom, walkReads] at h ⊢
    split at h
    · rw [if_pos ‹_›]
      exact hstops (Except.ok.inj h)
    · rw [if_neg ‹_›]
      cases hline : resolveLine rt line with
      | error e => simp [hline] at h
      | ok lineSeq =>
        simp only [hline] at h ⊢
        cases lineSeq with
        | none => exact hgoes h
        | some seq =>
          by_cases hfound : seq ≥ startSeq
          · simp only [hfound, ↓reduceIte] at h ⊢
            exact hstops (Except.ok.inj h)
          · simp only [hfound, ↓reduceIte] at h ⊢
            exact hgoes h

/-- The walk reads the records before its number, and one more. -/
theorem walkReads_records (startSeq : Nat) (rs : List (Rec rt)) :
    walkReads rt startSeq (rs.map (recordBytes rt)) ≤ rs.length ∧
      walkReads rt startSeq (rs.map (recordBytes rt)) ≤ (before startSeq rs).length + 1 := by
  induction rs with
  | nil => exact ⟨Nat.le_refl _, Nat.zero_le _⟩
  | cons r rs ih =>
    have hl := (framed_recordBytes r).endsWithLF
    simp only [List.map_cons, walkReads, hl, Bool.true_eq_false, ↓reduceIte, resolveLine_recordBytes]
    by_cases hlt : r.1 < startSeq
    · simp only [ge_iff_le, Nat.cast_le, Nat.not_le.mpr hlt, ↓reduceIte, List.length_cons, before,
        List.takeWhile_cons, hlt, decide_true] at ih ⊢
      omega
    · simp [Nat.not_lt.mp hlt]

/-- A hint at the start of a record leads to a walk from there. -/
theorem resolveReads_records (A B : List (Rec rt)) (startSeq : Nat) :
    resolveReads rt (some (journalBytes (A ++ B))) startSeq (journalBytes A).length =
      walkReads rt startSeq (B.map (recordBytes rt)) := by
  have hle : ¬(journalBytes A).length > (journalBytes (A ++ B)).length := by
    rw [journalBytes_append, List.length_append]
    omega
  have hstart : ¬((journalBytes A).length > 0 ∧
      (journalBytes (A ++ B))[(journalBytes A).length - 1]? ≠ some LF) := by
    rintro ⟨hpos, hne⟩
    rcases List.eq_nil_or_concat A with rfl | ⟨init, r, rfl⟩
    · exact Nat.lt_irrefl 0 hpos
    · apply hne
      obtain ⟨body, hbody, -⟩ := framed_recordBytes r
      simp [journalBytes_append, hbody]
  have hdrop : (journalBytes (A ++ B)).drop (journalBytes A).length = journalBytes B := by
    rw [journalBytes_append, List.drop_left]
  simp only [resolveReads, if_neg hle, if_neg hstart, skipToLineStart_cut, hdrop,
    byteLines_journalBytes, Nat.zero_add]

/-! ## Hints -/

/-- Entries in front of the hint do not matter. -/
theorem chooseHint_drop {startSeq : Nat} {index : List (Nat × Nat)}
    (hs : index.Pairwise fun e e' => e.1 < e'.1) {k : Nat} {e : Nat × Nat}
    (he : (index.drop k).head? = some e) (hle : e.1 ≤ startSeq) (chosen chosen' : Nat) :
    chooseHint startSeq (index.drop k) chosen = chooseHint startSeq index chosen' := by
  induction k generalizing index chosen' with
  | zero =>
    cases index with
    | nil => cases he
    | cons x index =>
      obtain rfl : x = e := Option.some.inj he
      rw [List.drop_zero, chooseHint, chooseHint, if_pos hle, if_pos hle]
  | succ k ih =>
    cases index with
    | nil => cases he
    | cons x index =>
      obtain ⟨hx, hs⟩ := List.pairwise_cons.mp hs
      have hmem : e ∈ index := List.mem_of_mem_drop (List.mem_of_mem_head? he)
      rw [chooseHint, if_pos (Nat.le_of_lt (Nat.lt_of_lt_of_le (hx e hmem) hle))]
      exact ih hs he x.2

/-- **The hint of a rebuilt index** is where a part `B` of the records starts, and no multiple of
the interval in `B`, but its first record, is up to `startSeq`. -/
theorem chooseHint_rebuiltIndex {interval startSeq : Nat} {rs : List (Rec rt)} (hinc : Increasing rs)
    (first : Bool) (byteOffset chosen : Nat) :
    (chooseHint startSeq (rebuiltIndex interval first byteOffset rs) chosen = chosen ∧
      ∀ x ∈ rs, x.1 % interval = 0 → startSeq < x.1) ∨
    ∃ A r B, rs = A ++ r :: B ∧
      chooseHint startSeq (rebuiltIndex interval first byteOffset rs) chosen =
        byteOffset + (journalBytes A).length ∧
      ∀ x ∈ B, x.1 % interval = 0 → startSeq < x.1 := by
  induction rs generalizing first byteOffset chosen with
  | nil => exact .inl ⟨rfl, by simp⟩
  | cons r rs ih =>
    obtain ⟨hr, hinc⟩ := List.pairwise_cons.mp hinc
    -- the hint is behind `r`
    have hbehind : ∀ {hint}, (∃ A x B, rs = A ++ x :: B ∧
        hint = byteOffset + (recordBytes rt r).length + (journalBytes A).length ∧
        ∀ x ∈ B, x.1 % interval = 0 → startSeq < x.1) →
        ∃ A x B, r :: rs = A ++ x :: B ∧ hint = byteOffset + (journalBytes A).length ∧
          ∀ x ∈ B, x.1 % interval = 0 → startSeq < x.1 := by
      rintro hint ⟨A, x, B, rfl, rfl, hB⟩
      exact ⟨r :: A, x, B, rfl, by simp [Nat.add_assoc], hB⟩
    simp only [rebuiltIndex]
    split
    · by_cases hle : r.1 ≤ startSeq
      · simp only [chooseHint, if_pos hle]
        right
        rcases ih hinc false (byteOffset + (recordBytes rt r).length) byteOffset with
          ⟨hhint, hB⟩ | hlater
        · exact ⟨[], r, rs, rfl, hhint, hB⟩
        · exact hbehind hlater
      · simp only [chooseHint, if_neg hle]
        have hlt := Nat.not_le.mp hle
        refine .inl ⟨trivial, fun x hx _ => ?_⟩
        rcases List.mem_cons.mp hx with rfl | hx
        · exact hlt
        · exact Nat.lt_trans hlt (hr x hx)
    · rename_i hdue
      rcases ih hinc false (byteOffset + (recordBytes rt r).length) chosen with ⟨hhint, hB⟩ | hlater
      · refine .inl ⟨hhint, fun x hx hmod => ?_⟩
        rcases List.mem_cons.mp hx with rfl | hx
        · exact absurd (.inr hmod) hdue
        · exact hB x hx hmod
      · exact .inr (hbehind hlater)

/-! ## The index of a file -/

/-- The index that a rebuild makes, before it is trimmed. -/
def fullIndex (interval : Nat) (first : Bool) (rs : List (Rec rt)) : List (Nat × Nat) :=
  (0, 0) :: rebuiltIndex interval first 0 rs

/-- The index is the end of the one that a rebuild makes. -/
def Indexes (interval : Nat) (index : List (Nat × Nat)) (rs : List (Rec rt)) : Prop :=
  ∃ first, index = trimIndex (fullIndex interval first rs)

theorem rebuiltIndex_snoc (interval : Nat) (first : Bool) (byteOffset : Nat) (rs : List (Rec rt))
    (r : Rec rt) (hfirst : rs = [] → first = false) :
    rebuiltIndex interval first byteOffset (rs ++ [r]) =
      rebuiltIndex interval first byteOffset rs ++
        if r.1 % interval = 0 then [(r.1, byteOffset + (journalBytes rs).length)] else [] := by
  induction rs generalizing first byteOffset with
  | nil =>
    rw [hfirst rfl]
    simp [rebuiltIndex]
  | cons x rs ih =>
    simp only [List.cons_append, rebuiltIndex, journalBytes_cons, List.length_append]
    rw [ih false _ fun _ => rfl, Nat.add_assoc]
    split <;> rfl

theorem seqIndexMaxEntries_eq : seqIndexMaxEntries = 256 := by
  unfold seqIndexMaxEntries
  rfl

theorem trimIndex_of_le {index : List (Nat × Nat)} (h : index.length ≤ seqIndexMaxEntries) :
    trimIndex index = index := by
  rw [trimIndex, SymbolDedupBucket.lastN, Nat.sub_eq_zero_of_le h, List.drop_zero]

theorem trimIndex_append (index more : List (Nat × Nat)) :
    trimIndex (trimIndex index ++ more) = trimIndex (index ++ more) := by
  simp only [trimIndex, SymbolDedupBucket.lastN, List.length_append, List.length_drop]
  rcases Nat.le_total index.length seqIndexMaxEntries with hle | hle
  · rw [Nat.sub_eq_zero_of_le hle, List.drop_zero, Nat.sub_zero]
  · have hcut : index.length - seqIndexMaxEntries ≤ index.length := Nat.sub_le _ _
    rw [← List.drop_append_of_le_length hcut, List.drop_drop]
    congr 1
    omega

theorem recordSeqIndex_trims (store : MetaStore cfg) (seq byteOffset : Nat) :
    (store.recordSeqIndex seq byteOffset).seqIndex =
      trimIndex (grownIndex cfg.seqIndexInterval store.seqIndex seq byteOffset) := by
  show (if _ then _ else _) = _
  split
  · rfl
  · rename_i hshort
    exact (trimIndex_of_le (Nat.not_lt.mp hshort)).symm

theorem trimIndex_ne {index : List (Nat × Nat)} (h : index ≠ []) : trimIndex index ≠ [] := by
  have hpos := List.length_pos_iff.mpr h
  have hmax := seqIndexMaxEntries_eq
  rw [trimIndex, SymbolDedupBucket.lastN, Ne, List.drop_eq_nil_iff]
  omega

theorem Indexes.empty (interval : Nat) : Indexes interval [(0, 0)] ([] : List (Rec rt)) := by
  have hshort : (fullIndex interval false ([] : List (Rec rt))).length ≤ seqIndexMaxEntries := by
    rw [seqIndexMaxEntries_eq, fullIndex, rebuiltIndex, List.length_singleton]
    omega
  exact ⟨false, (trimIndex_of_le hshort).symm⟩

/-- An append keeps the index that a rebuild makes. -/
theorem Indexes.append {store : MetaStore cfg} {rs : List (Rec rt)}
    (h : Indexes cfg.seqIndexInterval store.seqIndex rs) {r : Rec rt} (hpos : 0 < r.1)
    (hr : ∀ x ∈ rs, x.1 < r.1) :
    Indexes cfg.seqIndexInterval (store.recordSeqIndex r.1 (journalBytes rs).length).seqIndex
      (rs ++ [r]) := by
  obtain ⟨first, hindex⟩ := h
  -- without records it does not matter whether the index was rebuilt
  obtain ⟨first, hindex, hfirst⟩ : ∃ first, store.seqIndex =
      trimIndex (fullIndex cfg.seqIndexInterval first rs) ∧ (rs = [] → first = false) := by
    cases rs with
    | nil => exact ⟨false, hindex, fun _ => rfl⟩
    | cons x rs => exact ⟨first, hindex, by rintro ⟨⟩⟩
  have hne : store.seqIndex ≠ [] := hindex ▸ trimIndex_ne (by simp [fullIndex])
  have hlast : lastSeq store.seqIndex < r.1 := by
    obtain ⟨e, he⟩ : ∃ e, store.seqIndex.getLast? = some e :=
      Option.isSome_iff_exists.mp (List.getLast?_isSome.mpr hne)
    have hmem := List.mem_of_mem_drop (hindex ▸ List.mem_of_getLast? he)
    rw [lastSeq, he]
    rcases List.mem_cons.mp hmem with rfl | hmem
    · exact hpos
    · obtain ⟨A, x, B, rfl, rfl⟩ := mem_rebuiltIndex hmem
      exact hr x (by simp)
  refine ⟨first, ?_⟩
  have hgrown : grownIndex cfg.seqIndexInterval store.seqIndex r.1 (journalBytes rs).length =
      store.seqIndex ++ if r.1 % cfg.seqIndexInterval = 0
        then [(r.1, (journalBytes rs).length)] else [] := by
    simp only [grownIndex, if_neg hne, Nat.ne_of_gt hpos, hlast, and_true, false_or]
    split
    · rfl
    · rw [List.append_nil]
  rw [recordSeqIndex_trims, hgrown, hindex, trimIndex_append, fullIndex, fullIndex,
    rebuiltIndex_snoc _ _ _ _ _ hfirst, Nat.zero_add]
  rfl

/-! ## What is read -/

theorem add_le_of_multiples {interval a b : Nat} (ha : a % interval = 0) (hb : b % interval = 0)
    (hlt : a < b) : a + interval ≤ b := by
  have hdvd := Nat.dvd_sub (Nat.dvd_of_mod_eq_zero hb) (Nat.dvd_of_mod_eq_zero ha)
  have hle := Nat.le_of_dvd (Nat.sub_pos_of_lt hlt) hdvd
  omega

theorem exists_next_multiple {interval : Nat} (hpos : 0 < interval) (n : Nat) :
    ∃ next, next % interval = 0 ∧ n < next ∧ next ≤ n + interval := by
  have hlt := Nat.mod_lt n hpos
  have hle := Nat.mod_le n interval
  refine ⟨n - n % interval + interval, ?_, by omega, by omega⟩
  rw [Nat.add_mod_right]
  exact Nat.mod_eq_zero_of_dvd (Nat.dvd_sub_mod n)

/-- Multiples of the interval that go up are an interval apart. -/
theorem spaced_length {interval lo hi : Nat} {index : List (Nat × Nat)} (hne : index ≠ [])
    (hs : index.Pairwise fun e e' => e.1 < e'.1) (hmod : ∀ e ∈ index, e.1 % interval = 0)
    (hlo : ∀ e ∈ index, lo < e.1) (hhi : ∀ e ∈ index, e.1 ≤ hi) :
    lo + (index.length - 1) * interval < hi := by
  induction index generalizing lo with
  | nil => exact absurd rfl hne
  | cons x index ih =>
    obtain ⟨hx, hs⟩ := List.pairwise_cons.mp hs
    have hlox := hlo x (by simp)
    have hxhi := hhi x (by simp)
    cases index with
    | nil =>
      simp only [List.length_singleton, Nat.sub_self, Nat.zero_mul]
      omega
    | cons y index =>
      have hnext : ∀ e ∈ y :: index, x.1 + interval - 1 < e.1 := fun e he => by
        have hlt := hx e he
        have hgap := add_le_of_multiples (hmod x (by simp)) (hmod e (by simp [he])) hlt
        omega
      have hrest := ih (by simp) hs (fun e he => hmod e (by simp [he])) hnext
        fun e he => hhi e (by simp [he])
      simp only [List.length_cons, Nat.add_sub_cancel, Nat.succ_mul] at hrest ⊢
      omega

/-- Numbers that go up between two bounds. -/
theorem increasing_length_le {lo hi : Nat} {rs : List (Rec rt)} (hinc : Increasing rs)
    (hlo : ∀ r ∈ rs, lo ≤ r.1) (hhi : ∀ r ∈ rs, r.1 < hi) : rs.length ≤ hi - lo := by
  induction rs generalizing lo with
  | nil => exact Nat.zero_le _
  | cons r rs ih =>
    obtain ⟨hr, hinc⟩ := List.pairwise_cons.mp hinc
    have hlo' := hlo r (by simp)
    have hhi' := hhi r (by simp)
    have hrest : rs.length ≤ hi - (r.1 + 1) := ih hinc hr fun x hx => hhi x (by simp [hx])
    rw [List.length_cons]
    omega

theorem before_length_le {lo startSeq : Nat} {rs : List (Rec rt)} (hinc : Increasing rs)
    (hlo : ∀ r ∈ rs, lo ≤ r.1) : (before startSeq rs).length ≤ startSeq - lo := by
  have htaken : before startSeq rs <+: rs := List.takeWhile_prefix _
  exact increasing_length_le (hinc.sublist htaken.sublist) (fun r hr => hlo r (htaken.mem hr))
    fun r hr => mem_before hr

theorem mem_tail_rebuiltIndex {interval byteOffset : Nat} {first : Bool} {rs : List (Rec rt)}
    {e : Nat × Nat} (h : e ∈ (rebuiltIndex interval first byteOffset rs).tail) :
    e.1 % interval = 0 := by
  have hall : ∀ {byteOffset : Nat} {rs : List (Rec rt)},
      e ∈ rebuiltIndex interval false byteOffset rs → e.1 % interval = 0 := by
    intro byteOffset rs he
    induction rs generalizing byteOffset with
    | nil => cases he
    | cons r rs ih =>
      simp only [rebuiltIndex, Bool.false_eq_true, false_or] at he
      split at he
      · rcases List.mem_cons.mp he with rfl | he
        · assumption
        · exact ih he
      · exact ih he
  cases rs with
  | nil => cases h
  | cons r rs =>
    simp only [rebuiltIndex] at h
    split at h
    · exact hall h
    · exact hall (List.mem_of_mem_tail h)

theorem fullIndex_sorted {interval : Nat} {first : Bool} {rs : List (Rec rt)} (hinc : Increasing rs)
    (hpos : ∀ r ∈ rs, 1 ≤ r.1) :
    (fullIndex interval first rs).Pairwise fun e e' => e.1 < e'.1 := by
  refine List.pairwise_cons.mpr ⟨fun e he => ?_, shaped_rebuiltIndex hinc first 0⟩
  obtain ⟨A, r, B, rfl, rfl⟩ := mem_rebuiltIndex he
  exact hpos r (by simp)

/-- **An index that is trimmed reaches back over almost as many intervals as it has entries.** -/
theorem trimIndex_head {interval tip startSeq : Nat} {first : Bool} {rs : List (Rec rt)}
    (hinc : Increasing rs) (hnumbers : ∀ r ∈ rs, 1 ≤ r.1 ∧ r.1 ≤ tip)
    (hrecent : tip ≤ startSeq + (seqIndexMaxEntries - 2) * interval) :
    ∃ e, (trimIndex (fullIndex interval first rs)).head? = some e ∧ e.1 ≤ startSeq := by
  let full := fullIndex interval first rs
  have hmax := seqIndexMaxEntries_eq
  have hsorted : full.Pairwise fun e e' => e.1 < e'.1 :=
    fullIndex_sorted hinc fun r hr => (hnumbers r hr).1
  rcases Nat.lt_or_ge seqIndexMaxEntries full.length with hlong | hshort
  · cases hcut : full.drop (full.length - seqIndexMaxEntries) with
    | nil =>
      rw [List.drop_eq_nil_iff] at hcut
      omega
    | cons e rest =>
      refine ⟨e, congrArg List.head? hcut, ?_⟩
      have hlength := congrArg List.length hcut
      rw [List.length_drop, List.length_cons] at hlength
      -- the entries behind the first one that is left are multiples
      have hrest : ∀ x ∈ rest, x ∈ (rebuiltIndex interval first 0 rs).tail := fun x hx => by
        have hdrop : rest = full.drop (full.length - seqIndexMaxEntries + 1) := by
          rw [← List.tail_drop, hcut, List.tail_cons]
        rw [hdrop, show full.length - seqIndexMaxEntries + 1 =
          2 + (full.length - seqIndexMaxEntries - 1) by omega, ← List.drop_drop] at hx
        rw [← List.drop_one]
        exact List.mem_of_mem_drop hx
      have hmod : ∀ x ∈ rest, x.1 % interval = 0 := fun x hx => mem_tail_rebuiltIndex (hrest x hx)
      have hhi : ∀ x ∈ rest, x.1 ≤ tip := fun x hx => by
        obtain ⟨A, r, B, rfl, rfl⟩ := mem_rebuiltIndex (List.mem_of_mem_tail (hrest x hx))
        exact (hnumbers r (by simp)).2
      obtain ⟨hlo, hsorted⟩ := List.pairwise_cons.mp (hcut ▸ hsorted.drop)
      have hspaced := spaced_length (List.ne_nil_of_length_pos (by omega)) hsorted hmod hlo hhi
      rw [show rest.length - 1 = seqIndexMaxEntries - 2 by omega] at hspaced
      omega
  · refine ⟨(0, 0), ?_, Nat.zero_le _⟩
    rw [trimIndex_of_le hshort]
    rfl

/-- **The walk from where the hint is.** `B` has every number up to the tip. -/
theorem walkReads_le {interval tip startSeq : Nat} (hpos : 0 < interval) {A B : List (Rec rt)}
    (hinc : Increasing (A ++ B)) (htip : ∀ r ∈ A ++ B, r.1 ≤ tip)
    (hnumbered : ∀ n, (∃ r ∈ A ++ B, r.1 ≤ n) → n ≤ tip → ∃ r ∈ A ++ B, r.1 = n)
    (hdue : ∀ x ∈ B.tail, x.1 % interval = 0 → startSeq < x.1) :
    walkReads rt startSeq (B.map (recordBytes rt)) ≤ interval := by
  obtain ⟨hall, hbefore⟩ := walkReads_records startSeq B
  obtain ⟨-, hincB, hAB⟩ := List.pairwise_append.mp hinc
  cases B with
  | nil => exact Nat.zero_le _
  | cons b B =>
    obtain ⟨hb, -⟩ := List.pairwise_cons.mp hincB
    -- the multiple behind the first record
    obtain ⟨next, hmod, hlt, hle⟩ := exists_next_multiple hpos b.1
    have hfrom : ∀ r ∈ b :: B, b.1 ≤ r.1 := fun r hr => by
      rcases List.mem_cons.mp hr with rfl | hr
      · exact Nat.le_refl _
      · exact Nat.le_of_lt (hb r hr)
    rcases Nat.lt_or_ge tip next with hlast | hnext
    · have := increasing_length_le hincB hfrom fun r hr =>
        Nat.lt_of_le_of_lt (htip r (List.mem_append_right _ hr)) hlast
      omega
    · obtain ⟨r, hr, hrn⟩ := hnumbered next ⟨b, by simp, by omega⟩ hnext
      have hmem : r ∈ B := by
        rcases List.mem_append.mp hr with hr | hr
        · have := hAB r hr b (by simp)
          omega
        · rcases List.mem_cons.mp hr with rfl | hr
          · omega
          · exact hr
      have hstart := hdue r hmem (hrn ▸ hmod)
      have := @before_length_le rt b.1 startSeq (b :: B) hincB hfrom
      omega

/-- **A seek through an index that a rebuild makes.** -/
theorem resolveReads_le {interval tip startSeq : Nat} (hpos : 0 < interval)
    {index : List (Nat × Nat)} {rs : List (Rec rt)} (h : Indexes interval index rs)
    (hinc : Increasing rs) (hnumbers : ∀ r ∈ rs, 1 ≤ r.1 ∧ r.1 ≤ tip)
    (hnumbered : ∀ n, (∃ r ∈ rs, r.1 ≤ n) → n ≤ tip → ∃ r ∈ rs, r.1 = n)
    (hrecent : tip ≤ startSeq + (seqIndexMaxEntries - 2) * interval) :
    resolveReads rt (some (journalBytes rs)) startSeq (chooseHint startSeq index 0) ≤ interval := by
  obtain ⟨first, rfl⟩ := h
  obtain ⟨e, he, hle⟩ : ∃ e, (trimIndex (fullIndex interval first rs)).head? = some e ∧
      e.1 ≤ startSeq := trimIndex_head hinc hnumbers hrecent
  have hhint : chooseHint startSeq (trimIndex (fullIndex interval first rs)) 0 =
      chooseHint startSeq (rebuiltIndex interval first 0 rs) 0 :=
    chooseHint_drop (fullIndex_sorted hinc fun r hr => (hnumbers r hr).1) he hle 0 0
  rw [hhint]
  obtain ⟨A, B, rfl, hA, hdue⟩ : ∃ A B, rs = A ++ B ∧
      chooseHint startSeq (rebuiltIndex interval first 0 rs) 0 = (journalBytes A).length ∧
      ∀ x ∈ B.tail, x.1 % interval = 0 → startSeq < x.1 := by
    rcases chooseHint_rebuiltIndex hinc first 0 0 with ⟨hzero, hdue⟩ | ⟨A, r, B, hrs, hA, hdue⟩
    · exact ⟨[], rs, rfl, hzero, fun x hx => hdue x (List.mem_of_mem_tail hx)⟩
    · exact ⟨A, r :: B, hrs, hA.trans (Nat.zero_add _), hdue⟩
  rw [hA, resolveReads_records]
  exact walkReads_le hpos hinc (fun r hr => (hnumbers r hr).2) hnumbered hdue

/-! ## The index in the metadata file -/

namespace TickJournal

variable {journal : TickJournal cfg} {disk : Disk}

/-- An instance that is not dirty has its index in the file. -/
def IndexStored (journal : TickJournal cfg) (disk : Disk) : Prop :=
  journal.metaDirty = false →
    (loadPayload disk.metaFile).seqIndex = journal.metaStore.seqIndex

theorem IndexStored.append (h : journal.IndexStored disk) (hc : journal.Current disk)
    (tick : TradeTick cfg.toRuntime) :
    (journal.append disk tick).1.IndexStored (journal.append disk tick).2.1 := by
  intro hdirty
  by_cases ha : journal.Accepts tick
  · obtain ⟨store, hs, he⟩ := append_accepts ha disk
    have hlatest : store.latestSeq = journal.latestSeq + 1 := hs.latestSeq
    rw [he] at hdirty ⊢
    rcases noteAppendLocked_cases { journal with metaStore := store }
      (Disk.writeLine disk (recordBytes cfg.toRuntime (journal.latestSeq + 1, tick)))
      with ⟨n, hn⟩ | ⟨n, hn⟩
    · have hcur : Current { journal with metaStore := store, appendCounter := n }
          (Disk.writeLine disk (recordBytes cfg.toRuntime (journal.latestSeq + 1, tick))) := by
        refine ⟨?_, ?_⟩
        · show store.Bounded store.latestSeq
          rw [hlatest]
          exact (hc.store.mono (Nat.le_succ _)).appended hs (Nat.le_refl _)
        · show (loadPayload disk.metaFile).Bounded store.latestSeq
          rw [hlatest]
          exact hc.file.mono (Nat.le_succ _)
      have hp := (persistLocked_current hcur).2
      simp only [hn]
      exact hp.fileIndex.trans hp.seqIndex.symm
    · simp only [hn] at hdirty
      cases hdirty
  · have hrej := append_rejected ha disk
    obtain ⟨store, -, -, -, he⟩ := append_rejects ha disk
    rw [hrej.disk, hrej.seqIndex]
    apply h
    rw [he] at hdirty
    exact hdirty

/-- **A flush leaves the index in the file.** -/
theorem IndexStored.flushMeta (h : journal.IndexStored disk) (hc : journal.Current disk) :
    (loadPayload (journal.flushMeta disk).2.1.metaFile).seqIndex = journal.metaStore.seqIndex ∧
      (journal.flushMeta disk).1.metaStore.seqIndex = journal.metaStore.seqIndex := by
  unfold TickJournal.flushMeta
  split
  · have hp := (persistLocked_current hc).2
    exact ⟨hp.fileIndex, hp.seqIndex⟩
  · rename_i hclean
    exact ⟨h (eq_false_of_ne_true hclean), rfl⟩

theorem IndexStored.compactBeforeSeq (h : journal.IndexStored disk) {rs : List (Rec cfg.toRuntime)}
    (hsound : journal.Sound disk rs)
    (hindex : Indexes cfg.seqIndexInterval journal.metaStore.seqIndex rs) (minRetainSeq : Nat) :
    let after := journal.compactBeforeSeq disk minRetainSeq
    Indexes cfg.seqIndexInterval after.1.metaStore.seqIndex (since minRetainSeq rs) ∧
      after.1.IndexStored after.2.1 := by
  by_cases hdrop : minRetainSeq ≤ 1 ∨ since minRetainSeq rs = rs
  · have hall : since minRetainSeq rs = rs := by
      rcases hdrop with h1 | hs
      · exact List.filter_eq_self.mpr fun r hr =>
          decide_eq_true (Nat.le_trans h1 (hsound.numbers r hr).1)
      · exact hs
    have hc := MetaStore.compactBeforeSeq_records journal.metaStore hsound.file minRetainSeq
    rw [if_pos hdrop] at hc
    simp only [TickJournal.compactBeforeSeq, hc, hall]
    exact ⟨hindex, h⟩
  · obtain ⟨-, -, -, hp⟩ := compactBeforeSeq_current hsound.current hsound.file hdrop
      fun r hr => (hsound.numbers r hr).2
    exact ⟨⟨true, hp.seqIndex⟩, fun _ => hp.fileIndex.trans hp.seqIndex.symm⟩

end TickJournal

/-! ## Runs -/

namespace Retention

/-- A seek finds where the records from a number on begin, and reads one interval of lines at most
for a number that is not far behind the tip. -/
def SeeksCheap (s : Retention cfg) : Prop :=
  ∀ startSeq,
    s.collector.byteOffsetForSeq s.disk startSeq =
      .ok (offsetOf startSeq (since s.retained s.appended)) ∧
    (s.collector.latestSeq ≤ startSeq + (seqIndexMaxEntries - 2) * cfg.seqIndexInterval →
      s.collector.seekReads s.disk startSeq ≤ cfg.seqIndexInterval)

/-- The records, and the index that is rebuilt from them, in memory and in the file. -/
structure CostInv (s : Retention cfg) : Prop extends s.Inv where
  index : Indexes cfg.seqIndexInterval s.collector.metaStore.seqIndex (since s.retained s.appended)
  stored : s.collector.IndexStored s.disk

variable {s : Retention cfg}

theorem CostInv.seeksCheap (h : s.CostInv) : s.SeeksCheap := by
  intro startSeq
  refine ⟨byteOffsetForSeq_of_points h.sound.file h.sound.increasing
    (fun r hr => (h.sound.numbers r hr).1) h.sound.index startSeq, fun hrecent => ?_⟩
  have hpos := cfg.seqIndexInterval_pos
  unfold TickJournal.seekReads
  split
  · exact Nat.zero_le _
  · rcases h.sound.file with ⟨hn, -⟩ | hfile
    · rw [hn]
      exact Nat.zero_le _
    · rw [hfile]
      refine resolveReads_le hpos h.index h.sound.increasing h.sound.numbers ?_ hrecent
      rintro n ⟨r, hr, hle⟩ hn
      obtain ⟨x, hx, rfl⟩ := h.numbered n (Nat.le_trans (h.sound.numbers r hr).1 hle) hn
      exact ⟨x, mem_since.mpr ⟨hx, Nat.le_trans (mem_since.mp hr).2 hle⟩, rfl⟩

theorem costInv_start : (start : Retention cfg).CostInv :=
  ⟨inv_start, .empty _, fun _ => rfl⟩

theorem costInv_append (h : s.CostInv) (tick : TradeTick cfg.toRuntime) :
    (s.step (.append tick)).CostInv := by
  refine ⟨inv_append h.toInv tick, ?_, h.stored.append h.sound.current tick⟩
  by_cases ha : s.collector.Accepts tick
  · have happ := TickJournal.append_current h.sound.current ha
    simp only [step, ha, ↓reduceIte]
    rw [h.since_append, happ.seqIndex, h.sound.file.getD]
    refine h.index.append (r := (s.collector.latestSeq + 1, tick)) (Nat.succ_pos _) fun x hx => ?_
    exact Nat.lt_succ_of_le (h.sound.numbers x hx).2
  · have hrej := TickJournal.append_rejected ha s.disk
    simp only [step, ha, ↓reduceIte]
    rw [hrej.seqIndex]
    exact h.index

theorem costInv_maybeCompact (h : s.CostInv) (lagSeq : Nat) :
    (s.step (.maybeCompact lagSeq)).CostInv := by
  have hinv := inv_maybeCompact h.toInv lagSeq
  rcases s.step_maybeCompact lagSeq with hs | hs
  · rw [hs]
    exact h
  · rw [hs] at hinv ⊢
    obtain ⟨hindex, hstored⟩ := h.stored.compactBeforeSeq h.sound h.index (s.droppedTo lagSeq)
    rw [since_max] at hindex
    exact ⟨hinv, hindex, hstored⟩

theorem costInv_step (s : Retention cfg) (op : RetentionOp cfg) (h : s.CostInv) :
    (s.step op).CostInv := by
  have hinv := inv_step s op h.toInv
  obtain ⟨hfile, hmemory⟩ := h.stored.flushMeta h.sound.current
  cases op with
  | append tick => exact costInv_append h tick
  | flushMeta =>
    refine ⟨hinv, ?_, fun _ => hfile.trans hmemory.symm⟩
    have hindex := h.index
    rw [← hmemory] at hindex
    exact hindex
  | restart =>
    refine ⟨hinv, ?_, fun _ => rfl⟩
    have hindex := h.index
    rw [← hfile] at hindex
    exact hindex
  | saveCursor lastProcessedSeq =>
    by_cases hle : lastProcessedSeq ≤ s.collector.latestSeq
    · simp only [step, hle, ↓reduceIte] at hinv ⊢
      exact ⟨hinv, h.index, h.stored⟩
    · simp only [step, hle, ↓reduceIte]
      exact h
  | maybeCompact lagSeq => exact costInv_maybeCompact h lagSeq

/-- **A seek is exact, and reads one interval of lines at most** over almost as many intervals as
the index has entries, in every state of every run. -/
theorem seeks_cheap (cfg : Config) (ops : List (RetentionOp cfg)) :
    Run.Always step SeeksCheap (start : Retention cfg) ops :=
  (Run.always_of_step costInv_step costInv_start ops).mono fun _ => CostInv.seeksCheap

end Retention

end Leviathan
