import Leviathan.Py.TextLemmas
import Mathlib.Data.List.Infix

/-!
# Lines of any bytes

* `universalLines_cons`, `byteLines_cons`: the first line, and the lines of what comes after it.
* `LineStart`: where a line of a text handle begins. What ends with a `\n` ends there
  (`LineStart.of_cut`).
* `decodes_iff`: bytes are UTF-8 when each of their lines is.
* `textLines_ended`: only the last line has no end.
-/

namespace Py

/-! ## The first line -/

theorem byteLines_eq_nil {bs : Bytes} : byteLines bs = [] ↔ bs = [] := by
  cases bs with
  | nil => exact iff_of_true rfl rfl
  | cons b bs =>
    refine iff_of_false (fun h => ?_) (List.cons_ne_nil b bs)
    rw [byteLines] at h
    split at h
    · cases h
    · split at h <;> cases h

theorem universalLines_eq_nil {bs : Bytes} : universalLines bs = [] ↔ bs = [] := by
  cases bs with
  | nil => exact iff_of_true rfl rfl
  | cons b bs =>
    refine iff_of_false (fun h => ?_) (List.cons_ne_nil b bs)
    rw [universalLines] at h
    split at h
    · cases h
    · split at h
      · cases h
      · split at h <;> cases h

/-- The last byte of a line that is not the last. -/
def Ended (l : Bytes) : Prop := l.getLast? = some LF ∨ l.getLast? = some CR

theorem ended_of_endsWithLF {l : Bytes} (h : endsWithLF l = true) : Ended l :=
  .inl (by simpa [endsWithLF] using h)

/-- What an ended line begins with does not matter. -/
theorem Ended.getLast?_cons {m : Bytes} (h : Ended m) (b : UInt8) :
    (b :: m).getLast? = m.getLast? := by
  cases m with
  | nil => simp [Ended] at h
  | cons c m => exact List.getLast?_cons_cons

theorem byteLines_cons {bs l : Bytes} {ls : List Bytes} (h : byteLines bs = l :: ls) :
    bs = l ++ ls.flatten ∧ byteLines ls.flatten = ls ∧ (ls ≠ [] → endsWithLF l = true) := by
  induction bs generalizing l ls with
  | nil => cases h
  | cons b bs ih =>
    rw [byteLines] at h
    cases hu : byteLines bs with
    | nil =>
      simp only [hu] at h
      obtain ⟨rfl, rfl⟩ := List.cons_eq_cons.mp h
      exact ⟨by simp [byteLines_eq_nil.mp hu], rfl, fun hn => absurd rfl hn⟩
    | cons m ms =>
      obtain ⟨hbs, hms, hend⟩ := ih hu
      have hwhole : byteLines (m :: ms).flatten = m :: ms := by rw [List.flatten_cons, ← hbs, hu]
      simp only [hu] at h
      split at h
      · rename_i hb
        obtain ⟨rfl, rfl⟩ := List.cons_eq_cons.mp h
        exact ⟨by simp [hbs], hwhole, fun _ => by simp [endsWithLF, hb]⟩
      · obtain ⟨rfl, rfl⟩ := List.cons_eq_cons.mp h
        refine ⟨by simp [hbs], hms, fun hn => ?_⟩
        rw [endsWithLF, (ended_of_endsWithLF (hend hn)).getLast?_cons]
        exact hend hn

theorem universalLines_cons {bs l : Bytes} {ls : List Bytes} (h : universalLines bs = l :: ls) :
    bs = l ++ ls.flatten ∧ universalLines ls.flatten = ls ∧ (ls ≠ [] → Ended l) := by
  induction bs generalizing l ls with
  | nil => cases h
  | cons b bs ih =>
    rw [universalLines] at h
    cases hu : universalLines bs with
    | nil =>
      simp only [hu] at h
      obtain ⟨rfl, rfl⟩ := List.cons_eq_cons.mp h
      exact ⟨by simp [universalLines_eq_nil.mp hu], rfl, fun hn => absurd rfl hn⟩
    | cons m ms =>
      obtain ⟨hbs, hms, hend⟩ := ih hu
      have hwhole : universalLines (m :: ms).flatten = m :: ms := by
        rw [List.flatten_cons, ← hbs, hu]
      simp only [hu] at h
      split at h
      · rename_i hb
        obtain ⟨rfl, rfl⟩ := List.cons_eq_cons.mp h
        exact ⟨by simp [hbs], hwhole, fun _ => .inl (by simp [hb])⟩
      · split at h
        · rename_i hb
          obtain ⟨rfl, rfl⟩ := List.cons_eq_cons.mp h
          exact ⟨by simp [hbs], hwhole, fun _ => .inr (by simp [hb.1])⟩
        · obtain ⟨rfl, rfl⟩ := List.cons_eq_cons.mp h
          refine ⟨by simp [hbs], hms, fun hn => ?_⟩
          rw [Ended, (hend hn).getLast?_cons]
          exact hend hn

/-- The first line is one line. -/
theorem universalLines_first {bs l : Bytes} {ls : List Bytes} (h : universalLines bs = l :: ls) :
    universalLines l = [l] := by
  induction bs generalizing l ls with
  | nil => cases h
  | cons b bs ih =>
    have hsingle : universalLines [b] = [[b]] := rfl
    rw [universalLines] at h
    cases hu : universalLines bs with
    | nil =>
      simp only [hu] at h
      obtain ⟨rfl, rfl⟩ := List.cons_eq_cons.mp h
      exact hsingle
    | cons m ms =>
      simp only [hu] at h
      split at h
      · obtain ⟨rfl, rfl⟩ := List.cons_eq_cons.mp h
        exact hsingle
      · rename_i hLF
        split at h
        · obtain ⟨rfl, rfl⟩ := List.cons_eq_cons.mp h
          exact hsingle
        · rename_i hCR
          obtain ⟨rfl, rfl⟩ := List.cons_eq_cons.mp h
          have hm := ih hu
          -- the line goes on as the bytes after `b` do
          have hhead : m.head? = bs.head? := by
            rw [(universalLines_cons hu).1]
            cases m with
            | nil => cases hm
            | cons c m => rfl
          rw [universalLines, hm]
          simp only [if_neg hLF, hhead, if_neg hCR]

/-- `f` cuts bytes into lines. -/
structure Cuts (f : Bytes → List Bytes) : Prop where
  nil : ∀ {bs}, f bs = [] → bs = []
  cons : ∀ {bs l ls}, f bs = l :: ls → bs = l ++ ls.flatten ∧ f ls.flatten = ls

theorem byteLines_cuts : Cuts byteLines :=
  ⟨byteLines_eq_nil.mp, fun h => ⟨(byteLines_cons h).1, (byteLines_cons h).2.1⟩⟩

theorem universalLines_cuts : Cuts universalLines :=
  ⟨universalLines_eq_nil.mp, fun h => ⟨(universalLines_cons h).1, (universalLines_cons h).2.1⟩⟩

namespace Cuts

variable {f : Bytes → List Bytes}

theorem flatten (h : Cuts f) (bs : Bytes) : (f bs).flatten = bs := by
  cases hf : f bs with
  | nil => exact (h.nil hf).symm
  | cons l ls => exact (h.cons hf).1.symm

/-- The lines after some lines are the lines of the rest. -/
theorem of_append (h : Cuts f) {A B : List Bytes} {bs : Bytes} (hf : f bs = A ++ B) :
    bs = A.flatten ++ B.flatten ∧ f B.flatten = B := by
  induction A generalizing bs with
  | nil =>
    have hflat : B.flatten = bs := by
      rw [← show f bs = B from hf, h.flatten]
    exact ⟨hflat.symm, hflat ▸ hf⟩
  | cons l A ih =>
    obtain ⟨hbs, hrest⟩ := h.cons hf
    obtain ⟨-, hB⟩ := ih hrest
    refine ⟨?_, hB⟩
    rw [hbs, List.append_eq, List.flatten_append, List.flatten_cons, List.append_assoc]

end Cuts

/-- A line feed ends a line for both handles. -/
theorem universalLines_append_LF (a b : Bytes) :
    universalLines (a ++ LF :: b) = universalLines (a ++ [LF]) ++ universalLines b := by
  induction a with
  | nil =>
    rw [List.nil_append, List.nil_append, universalLines, universalLines]
    cases universalLines b <;> rfl
  | cons x a ih =>
    have hne : ∃ m ms, universalLines (a ++ [LF]) = m :: ms := by
      cases h : universalLines (a ++ [LF]) with
      | nil => simp [universalLines_eq_nil] at h
      | cons m ms => exact ⟨m, ms, rfl⟩
    obtain ⟨m, ms, hm⟩ := hne
    have hhead : (a ++ LF :: b).head? = (a ++ [LF]).head? := by cases a <;> rfl
    rw [List.cons_append, List.cons_append, universalLines, universalLines, ih, hm, hhead]
    simp only [List.cons_append]
    split
    · rfl
    · split <;> rfl

theorem byteLines_append_LF (a b : Bytes) :
    byteLines (a ++ LF :: b) = byteLines (a ++ [LF]) ++ byteLines b := by
  induction a with
  | nil =>
    rw [List.nil_append, List.nil_append, byteLines, byteLines]
    cases byteLines b <;> rfl
  | cons x a ih =>
    cases hm : byteLines (a ++ [LF]) with
    | nil => simp [byteLines_eq_nil] at hm
    | cons m ms =>
      rw [List.cons_append, List.cons_append, byteLines, byteLines, ih, hm]
      simp only [List.cons_append]
      split <;> rfl

/-- Bytes that end with a `\n`. -/
theorem exists_of_endsWithLF {bs : Bytes} (h : endsWithLF bs = true) : ∃ a, bs = a ++ [LF] := by
  obtain ⟨a, ha⟩ := List.getLast?_eq_some_iff.mp (by simpa [endsWithLF] using h)
  exact ⟨a, ha⟩

theorem byteLines_ended {bs l : Bytes} {A B : List Bytes} (h : byteLines bs = A ++ l :: B)
    (hB : B ≠ []) : endsWithLF l = true :=
  (byteLines_cons (byteLines_cuts.of_append h).2).2.2 hB

/-- The first lines of a binary handle end with a `\n`, unless they are all of the file. -/
theorem byteLines_cut {bs : Bytes} {A B : List Bytes} (h : byteLines bs = A ++ B) :
    A.flatten = [] ∨ endsWithLF A.flatten = true ∨ B.flatten = [] := by
  rcases List.eq_nil_or_concat A with rfl | ⟨C, l, rfl⟩
  · exact .inl rfl
  cases B with
  | nil => exact .inr (.inr rfl)
  | cons m B =>
    rw [List.concat_eq_append, List.append_assoc] at h
    obtain ⟨a, rfl⟩ := exists_of_endsWithLF (byteLines_ended h (by simp))
    exact .inr (.inl (by simp [endsWithLF]))

/-! ## Line starts -/

/-- A line of a text handle begins at `o`, or the file ends there. -/
def LineStart (file : Bytes) (o : Nat) : Prop :=
  ∃ A B, universalLines file = A ++ B ∧ A.flatten.length = o

namespace LineStart

variable {file : Bytes} {o : Nat}

theorem zero (file : Bytes) : LineStart file 0 := ⟨[], universalLines file, rfl, rfl⟩

theorem length (file : Bytes) : LineStart file file.length :=
  ⟨universalLines file, [], by simp, by rw [universalLines_cuts.flatten]⟩

theorem drop (h : LineStart file o) :
    ∃ A, universalLines file = A ++ universalLines (file.drop o) ∧ A.flatten.length = o := by
  obtain ⟨A, B, hAB, rfl⟩ := h
  obtain ⟨he, hB⟩ := universalLines_cuts.of_append hAB
  refine ⟨A, ?_, rfl⟩
  rw [he, List.drop_left, hB, ← he, hAB]

theorem le (h : LineStart file o) : o ≤ file.length := by
  obtain ⟨A, B, hAB, rfl⟩ := h
  rw [(universalLines_cuts.of_append hAB).1, List.length_append]
  exact Nat.le_add_right _ _

/-- A reader that reads lines from one is at another. -/
theorem add (h : LineStart file o) {A B : List Bytes}
    (hAB : universalLines (file.drop o) = A ++ B) : LineStart file (o + A.flatten.length) := by
  obtain ⟨C, hC, rfl⟩ := h.drop
  exact ⟨C ++ A, B, by rw [hC, hAB, List.append_assoc], by simp⟩

/-- What ends with a `\n`, or is all of the file, ends at one. -/
theorem of_cut {P Q : Bytes} (h : P = [] ∨ endsWithLF P = true ∨ Q = []) :
    LineStart (P ++ Q) P.length := by
  rcases h with rfl | h | rfl
  · exact zero Q
  · obtain ⟨a, rfl⟩ := exists_of_endsWithLF h
    refine ⟨universalLines (a ++ [LF]), universalLines Q, ?_, by rw [universalLines_cuts.flatten]⟩
    rw [List.append_assoc, ← universalLines_append_LF]
    rfl
  · rw [List.append_nil]
    exact length P

end LineStart

/-! ## Decoding line by line -/

theorem decodeUtf8_byte {x : UInt8} (hx : x.toNat < 128) :
    decodeUtf8 [x] = some [chr x.toNat] := by
  simp [decodeUtf8, decodeFrom, Utf8State.step, Utf8State.start, Utf8State.lead, hx]

/-- An ASCII byte stands between two characters. -/
theorem decodeUtf8_snoc {a : Bytes} {x : UInt8} (hx : x.toNat < 128) (b : Bytes) :
    decodeUtf8 (a ++ x :: b) =
      (decodeUtf8 a).bind fun s => (decodeUtf8 b).map fun t => s ++ chr x.toNat :: t := by
  cases ha : decodeUtf8 a with
  | none => exact decodeFrom_append_none (fun e => absurd rfl e) hx ha
  | some s =>
    have hb : decodeUtf8 (x :: b) = (decodeUtf8 b).map (chr x.toNat :: ·) := by
      rw [← List.singleton_append, decodeUtf8_append (decodeUtf8_byte hx)]
      rfl
    rw [decodeUtf8_append ha, hb]
    cases decodeUtf8 b <;> rfl

/-- An ended line ends with one ASCII character. -/
theorem Ended.cases {l : Bytes} (h : Ended l) :
    ∃ a x, l = a ++ [x] ∧ x.toNat < 128 ∧ (chr x.toNat = '\n' ∨ chr x.toNat = '\r') := by
  rcases h with h | h <;> obtain ⟨a, rfl⟩ := List.getLast?_eq_some_iff.mp h
  · exact ⟨a, LF, rfl, by decide, .inl (by decide)⟩
  · exact ⟨a, CR, rfl, by decide, .inr (by decide)⟩

theorem decodes_append {l rest : Bytes} (h : Ended l) :
    (decodeUtf8 (l ++ rest)).isSome ↔ (decodeUtf8 l).isSome ∧ (decodeUtf8 rest).isSome := by
  obtain ⟨a, x, rfl, hx, -⟩ := h.cases
  rw [List.append_assoc, List.singleton_append, decodeUtf8_snoc hx, decodeUtf8_snoc hx]
  cases decodeUtf8 a <;> cases decodeUtf8 rest <;> simp [decodeUtf8, decodeFrom, Utf8State.start]

/-- **Bytes are UTF-8 when each of their lines is.** -/
theorem decodes_iff {bs : Bytes} :
    (decodeUtf8 bs).isSome ↔ ∀ raw ∈ universalLines bs, (decodeUtf8 raw).isSome := by
  generalize h : universalLines bs = ls
  induction ls generalizing bs with
  | nil =>
    rw [universalLines_eq_nil.mp h]
    simp [decodeUtf8, decodeFrom, Utf8State.start]
  | cons l ls ih =>
    obtain ⟨hbs, hls, hend⟩ := universalLines_cons h
    rw [List.forall_mem_cons, ← ih hls, hbs]
    cases ls with
    | nil => simp [decodeUtf8, decodeFrom, Utf8State.start]
    | cons m ms => exact decodes_append (hend (List.cons_ne_nil m ms))

/-! ## Text lines -/

theorem translateNewline_end {s : Str} (h : s.getLast? = some '\n' ∨ s.getLast? = some '\r') :
    (translateNewline s).getLast? = some '\n' := by
  fun_induction translateNewline s with
  | case1 => simp at h
  | case2 => rfl
  | case3 => rfl
  | case4 c cs h₁ h₂ ih =>
    cases cs with
    | nil =>
      have hc : c ≠ '\r' := fun e => h₂ e rfl
      simpa [translateNewline, hc] using h
    | cons d ds =>
      rw [List.getLast?_cons_cons] at h
      have := ih h
      cases ht : translateNewline (d :: ds) with
      | nil => simp [ht] at this
      | cons e es => rw [List.getLast?_cons_cons, ← ht, this]

theorem decodeLine_ended {raw : Bytes} {line : TextLine} (hend : Ended raw)
    (h : decodeLine raw = some line) : endsWithNewline line.text = true := by
  obtain ⟨s, hs, rfl⟩ := Option.map_eq_some_iff.mp h
  obtain ⟨a, x, rfl, hx, hchr⟩ := hend.cases
  rw [decodeUtf8_snoc hx] at hs
  obtain ⟨t, -, hs⟩ := Option.bind_eq_some_iff.mp hs
  have hlast : s.getLast? = some (chr x.toNat) := by
    simp only [decodeUtf8, decodeFrom, Utf8State.start, ↓reduceIte, Option.map_some,
      Option.some.injEq] at hs
    rw [← hs, List.getLast?_append]
    rfl
  have htext := translateNewline_end (s := s) (by rw [hlast]; simpa using hchr)
  simpa [endsWithNewline] using htext

theorem textLines_some {bs : Bytes} {lines : List TextLine} (h : textLines bs = some lines) :
    lines.map TextLine.raw = universalLines bs ∧ ∀ l ∈ lines, decodeLine l.raw = some l := by
  unfold textLines at h
  generalize universalLines bs = ls at h
  induction ls generalizing lines with
  | nil => cases h; exact ⟨rfl, by simp⟩
  | cons raw ls ih =>
    rw [List.mapM_cons] at h
    obtain ⟨l, hl, h⟩ := Option.bind_eq_some_iff.mp h
    obtain ⟨rest, hrest, h⟩ := Option.bind_eq_some_iff.mp h
    cases h
    obtain ⟨hraw, hall⟩ := ih hrest
    have he : l.raw = raw := by
      obtain ⟨s, -, rfl⟩ := Option.map_eq_some_iff.mp hl
      rfl
    exact ⟨by rw [List.map_cons, hraw, he], List.forall_mem_cons.mpr ⟨by rw [he, hl], hall⟩⟩

/-- The lines of a text handle are all of what it reads. -/
theorem textLines_flatten {bs : Bytes} {lines : List TextLine} (h : textLines bs = some lines) :
    (lines.map TextLine.raw).flatten = bs := by
  rw [(textLines_some h).1, universalLines_cuts.flatten]

/-- **A text handle reads a file when it is UTF-8.** -/
theorem textLines_isSome {bs : Bytes} : (textLines bs).isSome ↔ (decodeUtf8 bs).isSome := by
  rw [decodes_iff, textLines]
  induction universalLines bs with
  | nil => simp
  | cons raw ls ih =>
    rw [List.forall_mem_cons, ← ih, List.mapM_cons, decodeLine]
    cases decodeUtf8 raw <;> cases ls.mapM decodeLine <;> simp

/-- **Only the last line has no end.** -/
theorem textLines_ended {bs : Bytes} {A B : List TextLine} {line : TextLine}
    (h : textLines bs = some (A ++ line :: B)) (hB : B ≠ []) :
    endsWithNewline line.text = true := by
  obtain ⟨hraw, hall⟩ := textLines_some h
  rw [List.map_append, List.map_cons] at hraw
  obtain ⟨-, hlines⟩ := universalLines_cuts.of_append hraw.symm
  obtain ⟨-, -, hend⟩ := universalLines_cons hlines
  exact decodeLine_ended (hend (by simpa using hB)) (hall line (by simp))

/-- A line of a text handle is one line. -/
theorem textLines_line {bs : Bytes} {A B : List TextLine} {line : TextLine}
    (h : textLines bs = some (A ++ line :: B)) : textLines line.raw = some [line] := by
  obtain ⟨hraw, hall⟩ := textLines_some h
  rw [List.map_append, List.map_cons] at hraw
  obtain ⟨-, hlines⟩ := universalLines_cuts.of_append hraw.symm
  rw [textLines, universalLines_first hlines, List.mapM_cons, hall line (by simp)]
  rfl

/-- A line without an end has no `\n` in it. -/
theorem LF_not_mem_open {line : TextLine} (hline : textLines line.raw = some [line])
    (hopen : endsWithNewline line.text = false) : LF ∉ line.raw := by
  intro hmem
  obtain ⟨a, b, hab⟩ := List.append_of_mem hmem
  obtain ⟨hraw, hall⟩ := textLines_some hline
  have hlines : [line.raw] = universalLines (a ++ [LF]) ++ universalLines b := by
    rw [← universalLines_append_LF, ← hab, ← hraw]
    rfl
  have hb : b = [] := by
    cases hu : universalLines (a ++ [LF]) with
    | nil => simp [universalLines_eq_nil] at hu
    | cons m ms =>
      rw [hu, List.cons_append, List.cons.injEq] at hlines
      exact universalLines_eq_nil.mp (List.append_eq_nil_iff.mp hlines.2.symm).2
  rw [hb] at hab
  have hend : endsWithNewline line.text = true :=
    decodeLine_ended (.inl (by rw [hab, List.getLast?_append]; rfl)) (hall line (by simp))
  rw [hopen] at hend
  cases hend

/-! ## Text handles -/

/-- What a handle has decoded when it raises is the start of what it reads, and it is UTF-8. -/
theorem decodedChunks_spec (bs : Bytes) :
    decodedChunks bs <+: bs ∧ (textLines (decodedChunks bs)).isSome := by
  have hchunks : ∀ chunks : Bytes,
      (chunks.inits.filter fun chars => (decodeUtf8 chars).isSome).getLastD [] <+: chunks ∧
        (textLines ((chunks.inits.filter fun chars => (decodeUtf8 chars).isSome).getLastD
          [])).isSome := by
    intro chunks
    rw [textLines_isSome]
    rcases List.eq_nil_or_concat (chunks.inits.filter fun chars => (decodeUtf8 chars).isSome) with
      hnil | ⟨front, chars, hlast⟩
    · rw [hnil]
      exact ⟨List.nil_prefix, rfl⟩
    · have hmem : chars ∈ chunks.inits.filter fun chars => (decodeUtf8 chars).isSome := by
        rw [hlast]
        simp
      rw [hlast, List.concat_eq_append, List.getLastD_concat]
      rw [List.mem_filter, List.mem_inits] at hmem
      exact hmem
  unfold decodedChunks
  simp only
  split
  · rename_i place _
    obtain ⟨hchars, hsome⟩ := hchunks (bs.take (place / chunkSize * chunkSize))
    exact ⟨hchars.trans (List.take_prefix _ _), hsome⟩
  · exact hchunks bs

/-- **What a handle returns** are lines from where it stands on. It raises behind complete lines
only, and otherwise it returns all. -/
theorem textRead_spec (bs : Bytes) :
    (∀ line ∈ (textRead bs).lines, textLines line.raw = some [line]) ∧
      (∃ rest, bs = ((textRead bs).lines.map TextLine.raw).flatten ++ rest) ∧
      ((textRead bs).failed = true →
        ∀ line ∈ (textRead bs).lines, endsWithNewline line.text = true) ∧
      ((textRead bs).failed = false → textLines bs = some (textRead bs).lines) := by
  cases hlines : textLines bs with
  | some lines =>
    rw [textRead_some hlines]
    refine ⟨?_, ⟨[], ?_⟩, by simp, fun _ => rfl⟩
    · intro line hline
      obtain ⟨A, B, rfl⟩ := List.append_of_mem hline
      exact textLines_line hlines
    · rw [List.append_nil, textLines_flatten hlines]
  | none =>
    obtain ⟨⟨more, hmore⟩, hsome⟩ := decodedChunks_spec bs
    obtain ⟨lines, hread⟩ := Option.isSome_iff_exists.mp hsome
    have hall : ∀ line ∈ lines, textLines line.raw = some [line] := by
      intro line hline
      obtain ⟨A, B, rfl⟩ := List.append_of_mem hline
      exact textLines_line hread
    have hraw : (lines.map TextLine.raw).flatten ++ more = bs := by
      rw [textLines_flatten hread, hmore]
    simp only [textRead, hlines, hread, Option.getD_some]
    refine ⟨?_, ?_, fun _ => ?_, by simp⟩
    · split
      · exact hall
      · exact fun line hline => hall line (List.mem_of_mem_dropLast hline)
    · split
      · exact ⟨more, hraw.symm⟩
      · rcases List.eq_nil_or_concat lines with rfl | ⟨front, last, rfl⟩
        · exact ⟨bs, rfl⟩
        · refine ⟨last.raw ++ more, ?_⟩
          rw [← hraw]
          simp
    · split
      · rename_i hend
        intro line hline
        obtain ⟨A, B, rfl⟩ := List.append_of_mem hline
        rcases List.eq_nil_or_concat B with rfl | ⟨front, last, rfl⟩
        · rw [List.getLast?_append_cons, List.getLast?_singleton, Option.any_some] at hend
          have hline := (textLines_some hread).2 line (by simp)
          exact decodeLine_ended (ended_of_endsWithLF hend) hline
        · exact textLines_ended hread (by simp)
      · intro line hline
        obtain ⟨A, B, hcut⟩ := List.append_of_mem hline
        rcases List.eq_nil_or_concat lines with rfl | ⟨front, last, rfl⟩
        · simp at hcut
        · rw [List.concat_eq_append, List.dropLast_concat] at hcut
          rw [List.concat_eq_append, hcut, List.append_assoc, List.cons_append] at hread
          exact textLines_ended hread (by simp)

/-- A first line without an end is all that the handle reads. -/
theorem textRead_open {bs : Bytes} {line : TextLine} {rest : List TextLine}
    (hlines : (textRead bs).lines = line :: rest) (hopen : endsWithNewline line.text = false) :
    textLines bs = some [line] ∧ line.raw = bs ∧ LF ∉ bs := by
  obtain ⟨-, -, hended, hall⟩ := textRead_spec bs
  have hdecoded : textLines bs = some (line :: rest) := by
    rw [← hlines]
    refine hall (Bool.not_eq_true _ ▸ fun hfailed => ?_)
    have hend := hended hfailed line (by rw [hlines]; exact List.mem_cons_self)
    rw [hopen] at hend
    cases hend
  obtain rfl : rest = [] := by
    by_contra hne
    rw [textLines_ended (A := []) hdecoded hne] at hopen
    cases hopen
  have hraw : line.raw = bs := by simpa using textLines_flatten hdecoded
  refine ⟨hdecoded, hraw, ?_⟩
  rw [← hraw]
  exact LF_not_mem_open (textLines_line (A := []) hdecoded) hopen

end Py
