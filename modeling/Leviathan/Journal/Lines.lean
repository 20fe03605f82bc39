import Leviathan.Journal.CodecLemmas

/-!
# Files of lines

A file that holds complete lines is `ls.flatten` for a list of framed lines. An offset is a line
start when it is the length of a prefix `A` of the lines.

* `skipToLineStart_least`: `skipToLineStart` finds the least line start that is not before an
  offset.
* `resolve_cut`, `resolve_last`: where `resolve` ends, for a hint before the line it looks for and
  for one inside the last line.
* `offsetOf`, `resolve_sound`, `resolve_past`: the same on a file of records, for every hint.
-/

namespace Leviathan

open Py

/-! ## Line starts -/

/-- Every offset but 0 is inside a line or at the end of one. -/
theorem exists_line_at {ls : List Bytes} {o : Nat} (h₀ : 0 < o) (h : o ≤ ls.flatten.length) :
    ∃ A l B, ls = A ++ l :: B ∧ A.flatten.length < o ∧ o ≤ A.flatten.length + l.length := by
  induction ls generalizing o with
  | nil => simp at h; omega
  | cons l ls ih =>
    rw [List.flatten_cons, List.length_append] at h
    by_cases ho : o ≤ l.length
    · exact ⟨[], l, ls, rfl, h₀, by simpa using ho⟩
    · obtain ⟨A, m, B, rfl, hA, hm⟩ := ih (o := o - l.length) (by omega) (by omega)
      refine ⟨l :: A, m, B, rfl, ?_, ?_⟩ <;> rw [List.flatten_cons, List.length_append] <;> omega

/-- Of two ways to cut a list of lines, the one at the smaller byte offset comes first. -/
theorem prefix_of_length_le {ls A B C D : List Bytes} (h₁ : ls = A ++ B) (h₂ : ls = C ++ D)
    (h : C.flatten.length < A.flatten.length) : ∃ E, A = C ++ E := by
  rw [h₁] at h₂
  rcases List.append_eq_append_iff.mp h₂ with ⟨E, rfl, -⟩ | ⟨E, rfl, -⟩
  · rw [List.flatten_append, List.length_append] at h; omega
  · exact ⟨E, rfl⟩

/-- From inside a line, or from its end, the next line start is its end: `readline` takes the rest
of the line that the hint points into. -/
theorem skipToLineStart_line {l : Bytes} (hl : Framed l) (A rest : Bytes) {o : Nat}
    (h₀ : A.length < o) (h : o ≤ A.length + l.length) :
    skipToLineStart (A ++ (l ++ rest)) o = A.length + l.length := by
  obtain ⟨body, rfl, hb, hc⟩ := hl
  have hget : (A ++ (body ++ [LF] ++ rest))[o - 1]? = (body ++ [LF])[o - 1 - A.length]? := by
    rw [List.getElem?_append_right (by omega), List.getElem?_append_left (by omega)]
  unfold skipToLineStart
  rw [if_pos (by omega), hget]
  simp only [List.length_append, List.length_singleton] at h ⊢
  by_cases hend : o = A.length + (body.length + 1)
  · -- the offset is the end of the line
    have : o - 1 - A.length = body.length := by omega
    rw [this, List.getElem?_append_right (Nat.le_refl _)]
    simp [hend]
  · -- the offset is inside the line
    have hi : o - 1 - A.length < body.length := by omega
    have hne : body[o - 1 - A.length]? ≠ some LF := fun he => hb (List.mem_of_getElem? he)
    rw [List.getElem?_append_left hi, if_pos hne]
    have hdrop : (A ++ (body ++ [LF] ++ rest)).drop o =
        (body.drop (o - A.length) ++ [LF]) ++ rest := by
      rw [List.drop_append, List.drop_eq_nil_of_le (by omega), List.nil_append, List.drop_append,
        List.drop_append, List.length_append, List.length_singleton]
      rw [show o - A.length - body.length = 0 by omega,
        show o - A.length - (body.length + 1) = 0 by omega]
      rfl
    have hfr : Framed (body.drop (o - A.length) ++ [LF]) :=
      ⟨_, rfl, fun hm => hb (List.mem_of_mem_drop hm), fun hm => hc (List.mem_of_mem_drop hm)⟩
    rw [hdrop, byteLines_framed hfr]
    simp only [List.headD_cons, List.length_append, List.length_drop, List.length_singleton]
    omega

/-- **`skipToLineStart` finds the least line start that is not before the offset.** A hint is thus
never moved past a whole line. -/
theorem skipToLineStart_least {ls : List Bytes} (hf : ∀ l ∈ ls, Framed l) {o : Nat}
    (h : o ≤ ls.flatten.length) :
    ∃ A B, ls = A ++ B ∧ skipToLineStart ls.flatten o = A.flatten.length ∧
      o ≤ A.flatten.length ∧
      ∀ C D, ls = C ++ D → o ≤ C.flatten.length → A.flatten.length ≤ C.flatten.length := by
  rcases Nat.eq_zero_or_pos o with rfl | h₀
  · exact ⟨[], ls, rfl, rfl, Nat.le_refl _, fun _ _ _ _ => Nat.zero_le _⟩
  obtain ⟨A, l, B, rfl, hA, hl⟩ := exists_line_at h₀ h
  have hlen : (A ++ [l]).flatten.length = A.flatten.length + l.length := by simp
  refine ⟨A ++ [l], B, by simp, ?_, by omega, fun C D hCD hC => ?_⟩
  · rw [hlen, List.flatten_append, List.flatten_cons]
    exact skipToLineStart_line (hf l (by simp)) _ _ hA hl
  · by_contra hlt
    obtain ⟨E, hE⟩ := prefix_of_length_le
      (show A ++ l :: B = (A ++ [l]) ++ B by simp) hCD (by omega)
    rcases List.eq_nil_or_concat E with rfl | ⟨E, e, rfl⟩
    · rw [List.append_nil] at hE
      rw [hE] at hlt
      omega
    · rw [List.concat_eq_append, ← List.append_assoc] at hE
      have hCE := List.append_inj_left' hE rfl
      rw [hCE, List.flatten_append, List.length_append] at hA
      omega

/-- A line start is found as it is, since the byte before it is a `\n`. -/
theorem skipToLineStart_start {A B : List Bytes} (hf : ∀ l ∈ A ++ B, Framed l) :
    skipToLineStart (A ++ B).flatten A.flatten.length = A.flatten.length := by
  have hle : A.flatten.length ≤ (A ++ B).flatten.length := by simp
  obtain ⟨A', B', -, he, h, hmin⟩ := skipToLineStart_least hf hle
  rw [he]
  exact Nat.le_antisymm (hmin A B rfl (Nat.le_refl _)) h

/-- What comes after the lines does not move their line starts. -/
theorem skipToLineStart_append {ls : List Bytes} (hf : ∀ l ∈ ls, Framed l) {o : Nat}
    (h : o ≤ ls.flatten.length) (rest : Bytes) :
    skipToLineStart (ls.flatten ++ rest) o = skipToLineStart ls.flatten o := by
  rcases Nat.eq_zero_or_pos o with rfl | h₀
  · rfl
  obtain ⟨A, l, B, rfl, hA, hl⟩ := exists_line_at h₀ h
  have hframed := hf l (by simp)
  rw [List.flatten_append, List.flatten_cons, List.append_assoc, List.append_assoc,
    skipToLineStart_line hframed _ _ hA hl, skipToLineStart_line hframed _ _ hA hl]

/-! ## The walk of the index -/

section Walk

variable {rt : Runtime}

/-- The walk to `startSeq` goes on after a line with this sequence number, and after one without
any. -/
def passes (startSeq : Nat) : Option Int → Bool
  | none => true
  | some seq => seq < startSeq

/-- What the walk makes of a line: its number, or none for a line that is blank or that it cannot
read. -/
def lineSeq (rt : Runtime) (line : Bytes) : Option Int :=
  match resolveLine rt line with
  | .ok seq => seq
  | .error _ => none

/-- The line does not end the walk with an exception. The walk catches `JSONDecodeError`,
`KeyError`, `TypeError` and `ValueError`, so only an `OverflowError` does. -/
def Walked (rt : Runtime) (line : Bytes) : Prop :=
  Framed line ∧ resolveLine rt line = .ok (lineSeq rt line)

/-- The walk over lines, and over the start of one more, ends at the first line that it does not
pass. An unfinished line is not looked at, as it has no `\n`. -/
theorem resolveFrom_walked {ls : List Bytes} (h : ∀ l ∈ ls, Walked rt l) {p : Bytes}
    (hp : Unframed p) (startSeq lineStart : Nat) :
    resolveFrom rt startSeq lineStart (ls ++ byteLines p) =
      .ok (lineStart + (ls.takeWhile fun l => passes startSeq (lineSeq rt l)).flatten.length) := by
  induction ls generalizing lineStart with
  | nil =>
    by_cases hne : p = []
    · subst hne; rfl
    · rw [List.nil_append, byteLines_unframed hp hne]
      simp only [resolveFrom, hp.endsWithLF, ↓reduceIte]
      rfl
  | cons l ls ih =>
    obtain ⟨hframed, hl⟩ := h l (by simp)
    have ih := ih fun x hx => h x (by simp [hx])
    simp only [List.cons_append, resolveFrom, hframed.endsWithLF, Bool.true_eq_false, ↓reduceIte, hl]
    cases hseq : lineSeq rt l with
    | none => simp [ih, passes, hseq, Nat.add_assoc]
    | some seq =>
      by_cases hlt : seq < startSeq
      · simp [ih, passes, hseq, hlt, Nat.add_assoc, Int.not_le.mpr hlt]
      · simp [passes, hseq, hlt, Int.not_lt.mp hlt]

/-- **A hint that is not past a line that the walk stops at, or that is past the end of the file,
leads to that line.** The file may end inside a line. -/
theorem resolve_cut_rest {C D : List Bytes} (h : ∀ l ∈ C ++ D, Walked rt l) {p : Bytes}
    (hp : Unframed p) {startSeq hint : Nat}
    (hC : ∀ l ∈ C, passes startSeq (lineSeq rt l) = true)
    (hD : ∀ l ∈ D.head?, passes startSeq (lineSeq rt l) = false)
    (hhint : hint ≤ C.flatten.length ∨ ((C ++ D).flatten ++ p).length < hint) :
    resolve rt (some ((C ++ D).flatten ++ p)) startSeq hint = .ok C.flatten.length := by
  wlog hle : hint ≤ C.flatten.length generalizing hint
  · have hgt : hint > ((C ++ D).flatten ++ p).length := by rcases hhint with h | h <;> omega
    have h₀ := @this 0 (.inl (Nat.zero_le _)) (Nat.zero_le _)
    simpa only [resolve, hgt, ↓reduceIte, Nat.not_lt_zero, gt_iff_lt] using h₀
  have hlen : hint ≤ (C ++ D).flatten.length := by
    rw [List.flatten_append, List.length_append]; omega
  have hfile : ¬hint > ((C ++ D).flatten ++ p).length := by rw [List.length_append]; omega
  have hframed : ∀ l ∈ C ++ D, Framed l := fun l hl => (h l hl).1
  obtain ⟨A, B, hAB, he, -, hmin⟩ := skipToLineStart_least hframed hlen
  have hA := hmin C D rfl hle
  -- the line start is a cut of `C`
  obtain ⟨E, rfl⟩ : ∃ E, C = A ++ E := by
    rcases Nat.lt_or_eq_of_le hA with hlt | heq
    · exact prefix_of_length_le rfl hAB hlt
    · rcases List.append_eq_append_iff.mp hAB with ⟨E, rfl, rfl⟩ | ⟨E, rfl, -⟩
      · -- no line is empty
        cases E with
        | nil => exact ⟨[], by simp⟩
        | cons l E =>
          have hl := List.length_pos_of_ne_nil (hframed l (by simp)).ne_nil
          simp only [List.flatten_append, List.flatten_cons, List.length_append] at heq
          omega
      · exact ⟨E, rfl⟩
  rw [List.append_assoc] at hAB
  obtain rfl := List.append_cancel_left hAB
  have hmem : ∀ l ∈ E ++ D, l ∈ A ++ E ++ D := fun l hl => by
    rw [List.append_assoc]; exact List.mem_append_right A hl
  have hlines : byteLines (((A ++ E ++ D).flatten ++ p).drop A.flatten.length) =
      E ++ D ++ byteLines p := by
    rw [List.append_assoc A, List.flatten_append, List.append_assoc, List.drop_left]
    exact byteLines_flatten (fun l hl => hframed l (hmem l hl)) p
  have hwalk := resolveFrom_walked (fun l hl => h l (hmem l hl)) hp startSeq A.flatten.length
  have htake : (E ++ D).takeWhile (fun l => passes startSeq (lineSeq rt l)) = E := by
    rw [List.takeWhile_append_of_pos fun l hl => hC l (List.mem_append_right A hl)]
    cases D with
    | nil => simp
    | cons l D => simp [hD l (by simp)]
  simp only [resolve, if_neg hfile, skipToLineStart_append hframed hlen, he, hlines, hwalk, htake]
  rw [List.flatten_append, List.length_append]

/-- The same for a file that ends with a line, as a file without a torn write does. -/
theorem resolve_cut {C D : List Bytes} (h : ∀ l ∈ C ++ D, Walked rt l) {startSeq hint : Nat}
    (hC : ∀ l ∈ C, passes startSeq (lineSeq rt l) = true)
    (hD : ∀ l ∈ D.head?, passes startSeq (lineSeq rt l) = false)
    (hhint : hint ≤ C.flatten.length ∨ (C ++ D).flatten.length < hint) :
    resolve rt (some (C ++ D).flatten) startSeq hint = .ok C.flatten.length := by
  have hcut := @resolve_cut_rest rt C D h [] ⟨by simp, by simp⟩ startSeq hint hC hD
  rw [List.append_nil] at hcut
  exact hcut hhint

/-- **A hint inside the last line leads to the end of the file**: the rest of that line is skipped,
and there is no other to stop at. -/
theorem resolve_last {C : List Bytes} {line : Bytes} (hf : ∀ l ∈ C ++ [line], Framed l)
    {startSeq hint : Nat} (hgt : C.flatten.length < hint)
    (hle : hint ≤ (C ++ [line]).flatten.length) :
    resolve rt (some (C ++ [line]).flatten) startSeq hint = .ok (C ++ [line]).flatten.length := by
  obtain ⟨A, B, hAB, he, ho, -⟩ := skipToLineStart_least hf hle
  obtain ⟨E, rfl⟩ := prefix_of_length_le hAB rfl (by omega)
  rw [List.append_assoc] at hAB
  have hEB := List.append_cancel_left hAB
  cases E with
  | nil => rw [List.append_nil] at ho; omega
  | cons e E =>
    obtain ⟨rfl, hnil⟩ := List.cons_eq_cons.mp hEB
    obtain ⟨rfl, rfl⟩ := List.append_eq_nil_iff.mp hnil.symm
    simp only [resolve, if_neg (Nat.not_lt.mpr hle), he, List.drop_length, byteLines, resolveFrom]

/-! ## Files of records -/

/-- The bytes of the lines of `rs`, as appends put them one after the other. -/
def journalBytes (rs : List (Rec rt)) : Bytes := (rs.map (recordBytes rt)).flatten

/-- The sequence numbers go up, which the walk and the scan of the index rely on: both stop at the
first number that is too large. -/
def Increasing (rs : List (Rec rt)) : Prop := rs.Pairwise fun r r' => r.1 < r'.1

theorem Increasing.snoc {rs : List (Rec rt)} {r : Rec rt} (h : Increasing rs)
    (hr : ∀ x ∈ rs, x.1 < r.1) : Increasing (rs ++ [r]) := by
  refine List.pairwise_append.mpr ⟨h, List.pairwise_singleton _ _, fun x hx y hy => ?_⟩
  rw [List.mem_singleton.mp hy]
  exact hr x hx

@[simp] theorem journalBytes_nil : journalBytes ([] : List (Rec rt)) = [] := rfl

@[simp] theorem journalBytes_append (rs rs' : List (Rec rt)) :
    journalBytes (rs ++ rs') = journalBytes rs ++ journalBytes rs' := by
  simp [journalBytes]

@[simp] theorem journalBytes_cons (r : Rec rt) (rs : List (Rec rt)) :
    journalBytes (r :: rs) = recordBytes rt r ++ journalBytes rs := rfl

theorem framed_records (rs : List (Rec rt)) : ∀ l ∈ rs.map (recordBytes rt), Framed l := by
  intro l hl
  obtain ⟨r, -, rfl⟩ := List.mem_map.mp hl
  exact framed_recordBytes r

theorem byteLines_journalBytes (rs : List (Rec rt)) :
    byteLines (journalBytes rs) = rs.map (recordBytes rt) := by
  have h := byteLines_flatten (framed_records rs) []
  simpa [journalBytes, byteLines] using h

theorem journalBytes_length_pos {rs : List (Rec rt)} (h : rs ≠ []) :
    0 < (journalBytes rs).length := by
  cases rs with
  | nil => exact absurd rfl h
  | cons r rs =>
    have := recordBytes_pos r
    simp only [journalBytes_cons, List.length_append]
    omega

/-- The records before `startSeq`, when the sequence numbers go up; the walk passes them. -/
def before (startSeq : Nat) (rs : List (Rec rt)) : List (Rec rt) :=
  rs.takeWhile fun r => r.1 < startSeq

/-- The records from `startSeq` on, which a read from there is to return. -/
def since (startSeq : Nat) (rs : List (Rec rt)) : List (Rec rt) :=
  rs.filter fun r => startSeq ≤ r.1

/-- The byte offset of the first record that is not before `startSeq`, or the end of the file if all
are. -/
def offsetOf (startSeq : Nat) (rs : List (Rec rt)) : Nat := (journalBytes (before startSeq rs)).length

theorem before_append_since {rs : List (Rec rt)} (h : Increasing rs) (startSeq : Nat) :
    before startSeq rs ++ since startSeq rs = rs := by
  induction rs with
  | nil => rfl
  | cons r rs ih =>
    obtain ⟨hr, hrs⟩ := List.pairwise_cons.mp h
    by_cases hlt : r.1 < startSeq
    · have := ih hrs
      simp only [before, since, List.takeWhile_cons, List.filter_cons, hlt, decide_true,
        ↓reduceIte, Nat.not_le.mpr hlt, decide_false, Bool.false_eq_true, List.cons_append] at this ⊢
      rw [this]
    · have hall : ∀ x ∈ rs, startSeq ≤ x.1 := fun x hx => by have := hr x hx; omega
      have hfil : rs.filter (fun r => decide (startSeq ≤ r.1)) = rs :=
        List.filter_eq_self.mpr fun x hx => by simpa using hall x hx
      simp [before, since, hlt, hfil, Nat.not_lt.mp hlt]

theorem mem_before {rs : List (Rec rt)} {startSeq : Nat} {r : Rec rt}
    (h : r ∈ before startSeq rs) : r.1 < startSeq := by
  simpa using List.mem_takeWhile_imp h

theorem mem_since {rs : List (Rec rt)} {startSeq : Nat} {r : Rec rt} :
    r ∈ since startSeq rs ↔ r ∈ rs ∧ startSeq ≤ r.1 := by
  simp [since]

theorem since_since {m n : Nat} (h : m ≤ n) (rs : List (Rec rt)) :
    since n (since m rs) = since n rs := by
  rw [since, since, List.filter_filter]
  apply List.filter_congr
  intro r _
  simp only [Bool.and_eq_left_iff_imp, decide_eq_true_eq]
  omega

theorem since_eq_nil {startSeq : Nat} {rs : List (Rec rt)} :
    since startSeq rs = [] ↔ ∀ r ∈ rs, r.1 < startSeq := by
  simp [since, List.filter_eq_nil_iff]

theorem before_append {A B : List (Rec rt)} {startSeq : Nat} (h : ∀ r ∈ A, r.1 < startSeq) :
    before startSeq (A ++ B) = A ++ before startSeq B := by
  rw [before, List.takeWhile_append_of_pos fun r hr => by simpa using h r hr]
  rfl

theorem before_append_of_mem {A B : List (Rec rt)} {startSeq : Nat} {r : Rec rt} (hr : r ∈ A)
    (h : startSeq ≤ r.1) : before startSeq (A ++ B) = before startSeq A := by
  induction A with
  | nil => simp at hr
  | cons a A ih =>
    by_cases ha : a.1 < startSeq
    · have hr : r ∈ A := by
        rcases List.mem_cons.mp hr with rfl | hr
        · omega
        · exact hr
      simpa [before, ha] using ih hr
    · simp [before, ha]

theorem offsetOf_append {A B : List (Rec rt)} {startSeq : Nat} (h : ∀ r ∈ A, r.1 < startSeq) :
    offsetOf startSeq (A ++ B) = (journalBytes A).length + offsetOf startSeq B := by
  simp [offsetOf, before_append h]

/-- The records before `startSeq` reach to the end of a first part exactly when it is all before
`startSeq`. -/
theorem le_offsetOf_iff {A B : List (Rec rt)} (h : Increasing (A ++ B)) (startSeq : Nat) :
    (journalBytes A).length ≤ offsetOf startSeq (A ++ B) ↔ ∀ r ∈ A, r.1 < startSeq := by
  constructor
  · intro hle r hr
    by_contra hge
    have hA : Increasing A := (List.pairwise_append.mp h).1
    have hb := before_append_of_mem (B := B) hr (Nat.not_lt.mp hge)
    have hs : since startSeq A ≠ [] := List.ne_nil_of_mem (mem_since.mpr ⟨hr, Nat.not_lt.mp hge⟩)
    have hpos := journalBytes_length_pos hs
    have hsplit := congrArg (fun l => (journalBytes l).length) (before_append_since hA startSeq)
    simp only [journalBytes_append, List.length_append] at hsplit
    rw [offsetOf, hb] at hle
    omega
  · intro hA
    rw [offsetOf_append hA]
    omega

theorem offsetOf_le (startSeq : Nat) (rs : List (Rec rt)) :
    offsetOf startSeq rs ≤ (journalBytes rs).length := by
  obtain ⟨t, ht⟩ := List.takeWhile_prefix (l := rs) fun r => decide (r.1 < startSeq)
  conv => rhs; rw [← ht]
  simp [offsetOf, before]

/-- The walk reads from a record's line the number that `append` gave it. -/
theorem lineSeq_recordBytes (r : Rec rt) : lineSeq rt (recordBytes rt r) = some (r.1 : Int) := by
  rw [lineSeq, resolveLine_recordBytes]

/-- A journal of records raises nothing under the walk. -/
theorem walked_records (rs : List (Rec rt)) : ∀ l ∈ rs.map (recordBytes rt), Walked rt l := by
  intro l hl
  obtain ⟨r, -, rfl⟩ := List.mem_map.mp hl
  exact ⟨framed_recordBytes r, by rw [lineSeq_recordBytes, resolveLine_recordBytes]⟩

/-- The walk passes the records before its number, each by `seq < start_seq`. -/
theorem passes_before (startSeq : Nat) (rs : List (Rec rt)) :
    ∀ l ∈ (before startSeq rs).map (recordBytes rt), passes startSeq (lineSeq rt l) = true := by
  intro l hl
  obtain ⟨r, hr, rfl⟩ := List.mem_map.mp hl
  have := mem_before hr
  simp [passes, lineSeq_recordBytes, this]

/-- The walk stops at the first of the others, and so at no later one. -/
theorem passes_since (startSeq : Nat) (rs : List (Rec rt)) :
    ∀ l ∈ ((since startSeq rs).map (recordBytes rt)).head?,
      passes startSeq (lineSeq rt l) = false := by
  intro l hl
  obtain ⟨r, hr, rfl⟩ := List.mem_map.mp (List.mem_of_mem_head? hl)
  have := (mem_since.mp hr).2
  simp [passes, lineSeq_recordBytes, this]

/-- The walk from a line start ends at the first record of the rest that is not before `startSeq`.
-/
theorem resolveFrom_records (startSeq lineStart : Nat) (rs : List (Rec rt)) :
    resolveFrom rt startSeq lineStart (rs.map (recordBytes rt)) =
      .ok (lineStart + offsetOf startSeq rs) := by
  induction rs generalizing lineStart with
  | nil => rfl
  | cons r rs ih =>
    have hl := (framed_recordBytes r).endsWithLF
    simp only [List.map_cons, resolveFrom, hl, Bool.true_eq_false, ↓reduceIte,
      resolveLine_recordBytes]
    by_cases hlt : r.1 < startSeq
    · simp [ih, offsetOf, before, hlt, Nat.add_assoc]
    · simp [offsetOf, before, hlt, Nat.not_lt.mp hlt]

/-- Every offset in a file of records has a next line start, which is that of a record or the end.
-/
theorem skipToLineStart_records {rs : List (Rec rt)} {o : Nat} (h : o ≤ (journalBytes rs).length) :
    ∃ A B, rs = A ++ B ∧ skipToLineStart (journalBytes rs) o = (journalBytes A).length ∧
      o ≤ (journalBytes A).length ∧
      ∀ C D, rs = C ++ D → o ≤ (journalBytes C).length →
        (journalBytes A).length ≤ (journalBytes C).length := by
  obtain ⟨A, B, hAB, he, ho, hmin⟩ := skipToLineStart_least (framed_records rs) h
  obtain ⟨A, B, rfl, rfl, rfl⟩ := List.map_eq_append_iff.mp hAB
  refine ⟨A, B, rfl, he, ho, fun C D hCD hC => ?_⟩
  exact hmin (C.map (recordBytes rt)) (D.map (recordBytes rt)) (by rw [hCD, List.map_append]) hC

theorem skipToLineStart_cut (A B : List (Rec rt)) :
    skipToLineStart (journalBytes (A ++ B)) (journalBytes A).length = (journalBytes A).length := by
  have h := skipToLineStart_start (A := A.map (recordBytes rt)) (B := B.map (recordBytes rt)) <| by
    rw [← List.map_append]; exact framed_records _
  simpa [journalBytes] using h

/-- What `resolve` does with a hint inside the file: it goes to the next line start, and walks on
from there. -/
theorem resolve_records {rs : List (Rec rt)} {hint : Nat} (h : hint ≤ (journalBytes rs).length)
    (startSeq : Nat) :
    ∃ A B, rs = A ++ B ∧ hint ≤ (journalBytes A).length ∧
      (∀ C D, rs = C ++ D → hint ≤ (journalBytes C).length →
        (journalBytes A).length ≤ (journalBytes C).length) ∧
      resolve rt (some (journalBytes rs)) startSeq hint =
        .ok ((journalBytes A).length + offsetOf startSeq B) := by
  obtain ⟨A, B, rfl, he, ho, hmin⟩ := skipToLineStart_records h
  refine ⟨A, B, rfl, ho, hmin, ?_⟩
  have hdrop : (journalBytes (A ++ B)).drop (journalBytes A).length = journalBytes B := by
    rw [journalBytes_append, List.drop_left]
  simp only [resolve, if_neg (Nat.not_lt.mpr h), he, hdrop, byteLines_journalBytes,
    resolveFrom_records]

/-- **A hint that is not past the first wanted record, or that is past the end of the file, leads
to that record.** -/
theorem resolve_sound {rs : List (Rec rt)} (hinc : Increasing rs) {startSeq hint : Nat}
    (h : hint ≤ offsetOf startSeq rs ∨ (journalBytes rs).length < hint) :
    resolve rt (some (journalBytes rs)) startSeq hint = .ok (offsetOf startSeq rs) := by
  have hcut := before_append_since hinc startSeq
  have hfile : ((before startSeq rs).map (recordBytes rt) ++
      (since startSeq rs).map (recordBytes rt)).flatten = journalBytes rs := by
    rw [← List.map_append, hcut]
    rfl
  rw [← hfile]
  refine resolve_cut ?_ ?_ ?_ (by rw [hfile]; exact h)
  · rw [← List.map_append]
    exact walked_records _
  · exact passes_before startSeq rs
  · exact passes_since startSeq rs

/-- A hint inside the file, but past the first wanted record, leads past it. The walk goes forward
only, so the record is lost to the read. -/
theorem resolve_past {rs : List (Rec rt)} {startSeq hint : Nat}
    (hlt : offsetOf startSeq rs < hint) (h : hint ≤ (journalBytes rs).length) :
    ∃ o, resolve rt (some (journalBytes rs)) startSeq hint = .ok o ∧ offsetOf startSeq rs < o := by
  obtain ⟨A, B, -, hA, -, he⟩ := resolve_records h startSeq
  exact ⟨_, he, by omega⟩

/-- Reading the file as text gives the line of each record, whatever follows them. -/
theorem textLines_journalBytes (rs : List (Rec rt)) (rest : Bytes) :
    textLines (journalBytes rs ++ rest) = (textLines rest).map (rs.map recordLine ++ ·) := by
  unfold textLines journalBytes
  rw [universalLines_flatten (framed_records rs)]
  induction rs with
  | nil => simp
  | cons r rs ih =>
    rw [List.map_cons, List.cons_append, List.mapM_cons, decodeLine_recordBytes, ih]
    cases (universalLines rest).mapM decodeLine <;> rfl

theorem textLines_records (rs : List (Rec rt)) :
    textLines (journalBytes rs) = some (rs.map recordLine) := by
  have h := textLines_journalBytes rs []
  rw [List.append_nil] at h
  simpa [textLines, universalLines] using h

end Walk

end Leviathan
