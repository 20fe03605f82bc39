import Leviathan.Py.JsonLemmas
import Leviathan.Py.Text

/-!
# Text on disk

* `decodeFrom_append`, `decodeFrom_append_none`: decoding what follows a text, and what follows
  bytes that are no UTF-8.
* `printable_dumps`: `dumps` writes printable ASCII only, so its text is one byte a character and
  has no line end.
* `byteLines_framed`, `universalLines_framed`, `textLines_framed`: both handles split a file of
  framed lines (`Framed`) at its frames, whatever follows.
-/

namespace Py

/-! ## UTF-8 -/

/-- Every character takes one byte. -/
def Ascii (s : Str) : Prop := ∀ c ∈ s, c.toNat < 128

theorem encodeChar_ascii {c : Char} (h : c.toNat < 128) :
    String.utf8EncodeChar c = [UInt8.ofNat c.toNat] := by
  have h' : c.val.toNat ≤ 127 := Nat.le_of_lt_succ h
  unfold String.utf8EncodeChar
  exact if_pos h'

theorem encodeUtf8_append (s t : Str) : encodeUtf8 (s ++ t) = encodeUtf8 s ++ encodeUtf8 t := by
  simp [encodeUtf8]

theorem encodeUtf8_ascii {s : Str} (h : Ascii s) :
    encodeUtf8 s = s.map fun c => UInt8.ofNat c.toNat := by
  induction s with
  | nil => rfl
  | cons c s ih =>
    have hs : Ascii s := fun x hx => h x (by simp [hx])
    have hc := encodeChar_ascii (h c (by simp))
    simp only [encodeUtf8, List.flatMap_cons, hc, List.map_cons] at ih ⊢
    rw [ih hs]
    rfl

/-- What follows a decoded text is decoded on its own. -/
theorem decodeFrom_append {a b : Bytes} {q : Utf8State} {s : Str} (h : decodeFrom q a = some s) :
    decodeFrom q (a ++ b) = if a = [] then decodeFrom q b else (decodeUtf8 b).map (s ++ ·) := by
  induction a generalizing q s with
  | nil => rfl
  | cons x a ih =>
    rw [if_neg (by simp), List.cons_append]
    rw [decodeFrom] at h ⊢
    cases hq : q.step x.toNat with
    | none => simp [hq] at h
    | some q' =>
      simp only [hq] at h ⊢
      split at h
      · rename_i hl
        obtain ⟨t, ht, rfl⟩ := Option.map_eq_some_iff.mp h
        rw [if_pos hl, ih ht]
        cases a with
        | nil => cases ht; simp [decodeUtf8]
        | cons y a => cases decodeUtf8 b <;> simp
      · rename_i hl
        rw [if_neg hl, ih h]
        cases a with
        | nil => simp [decodeFrom, hl] at h
        | cons y a => simp

theorem decodeUtf8_append {a b : Bytes} {s : Str} (h : decodeUtf8 a = some s) :
    decodeUtf8 (a ++ b) = (decodeUtf8 b).map (s ++ ·) := by
  unfold decodeUtf8 at h ⊢
  rw [decodeFrom_append h]
  cases a with
  | nil => cases h; simp
  | cons x a => rw [if_neg (by simp)]; rfl

/-- The bounds of the next byte of an open sequence are those of a continuation byte. -/
def Utf8State.Sound (q : Utf8State) : Prop := q.left ≠ 0 → 128 ≤ q.lo

theorem Utf8State.sound_step {q q' : Utf8State} {n : Nat} (h : q.step n = some q') : q'.Sound := by
  unfold Utf8State.step Utf8State.lead at h
  intro _
  repeat' split at h
  all_goals cases h
  all_goals simp_all

/-- Bytes that are no UTF-8 stay so before an ASCII byte. -/
theorem decodeFrom_append_none {a b : Bytes} {x : UInt8} {q : Utf8State} (hq : q.Sound)
    (hx : x.toNat < 128) (h : decodeFrom q a = none) : decodeFrom q (a ++ x :: b) = none := by
  induction a generalizing q with
  | nil =>
    have hl : q.left ≠ 0 := fun e => by simp [decodeFrom, e] at h
    have hlo := hq hl
    have hs : q.step x.toNat = none := by
      rw [Utf8State.step, if_neg hl, if_neg (by omega)]
    rw [List.nil_append, decodeFrom, hs]
  | cons y a ih =>
    rw [List.cons_append]
    rw [decodeFrom] at h ⊢
    cases hs : q.step y.toNat with
    | none => rfl
    | some q' =>
      simp only [hs] at h ⊢
      split at h
      · rename_i hl
        rw [if_pos hl, ih (fun e => absurd rfl e) (Option.map_eq_none_iff.mp h)]
        rfl
      · rename_i hl
        rw [if_neg hl, ih (Utf8State.sound_step hs) h]

theorem decodeUtf8_ascii {s : Str} (h : Ascii s) : decodeUtf8 (encodeUtf8 s) = some s := by
  rw [encodeUtf8_ascii h]
  induction s with
  | nil => rfl
  | cons c s ih =>
    have hc : c.toNat < 128 := h c (by simp)
    have hb : (UInt8.ofNat c.toNat).toNat = c.toNat := by
      rw [UInt8.toNat_ofNat']; omega
    have hv : c.toNat.isValidChar := c.valid
    have ih := ih fun x hx => h x (by simp [hx])
    unfold decodeUtf8 at ih ⊢
    rw [List.map_cons, decodeFrom, hb]
    simp [Utf8State.step, Utf8State.start, Utf8State.lead, hc, StrScan.chr_toNat] at ih ⊢
    exact ih

/-! ## What `dumps` writes -/

/-- Printable ASCII. -/
def Printable (s : Str) : Prop := ∀ c ∈ s, 32 ≤ c.toNat ∧ c.toNat < 127

theorem printable_of_all {s : Str} (h : s.all (fun c => 32 ≤ c.toNat && c.toNat < 127) = true) :
    Printable s := fun c hc => by simpa using List.all_eq_true.mp h c hc

theorem Printable.ascii {s : Str} (h : Printable s) : Ascii s := fun c hc => by
  have := h c hc; omega

theorem printable_append {s t : Str} : Printable (s ++ t) ↔ Printable s ∧ Printable t := by
  simp only [Printable, List.mem_append]
  exact ⟨fun h => ⟨fun c hc => h c (.inl hc), fun c hc => h c (.inr hc)⟩,
    fun h c hc => hc.elim (h.1 c) (h.2 c)⟩

theorem printable_cons {c : Char} {s : Str} :
    Printable (c :: s) ↔ (32 ≤ c.toNat ∧ c.toNat < 127) ∧ Printable s := by
  simp [Printable]

@[simp] theorem printable_nil : Printable [] := by simp [Printable]

theorem hexDigit_printable {n : Nat} (h : n < 16) :
    32 ≤ (hexDigit n).toNat ∧ (hexDigit n).toNat < 127 := by
  interval_cases n <;> decide

theorem printable_unitEscape (u : Nat) : Printable (unitEscape u) := by
  simp only [unitEscape, printable_cons, printable_nil, and_true]
  exact ⟨by decide, by decide, hexDigit_printable (Nat.mod_lt _ (by decide)),
    hexDigit_printable (Nat.mod_lt _ (by decide)), hexDigit_printable (Nat.mod_lt _ (by decide)),
    hexDigit_printable (Nat.mod_lt _ (by decide))⟩

theorem printable_escapeChar (c : Char) : Printable (escapeChar c) := by
  unfold escapeChar
  repeat' split
  all_goals first
    | exact printable_unitEscape _
    | exact printable_append.mpr ⟨printable_unitEscape _, printable_unitEscape _⟩
    | (simp only [printable_cons, printable_nil, and_true]; first | decide | assumption)

theorem printable_dumpsStr (s : Str) : Printable (dumpsStr s) := by
  refine printable_cons.mpr ⟨by decide, printable_append.mpr ⟨fun c hc => ?_, ?_⟩⟩
  · obtain ⟨x, -, hx⟩ := List.mem_flatMap.mp hc
    exact printable_escapeChar x c hx
  · exact printable_cons.mpr ⟨by decide, printable_nil⟩

theorem isDigit_printable {c : Char} (h : c.isDigit = true) : 32 ≤ c.toNat ∧ c.toNat < 127 := by
  simp only [Char.isDigit, Bool.and_eq_true, decide_eq_true_eq] at h
  have h₁ : 48 ≤ c.toNat := h.1
  have h₂ : c.toNat ≤ 57 := h.2
  omega

/-- A character that goes on with a number. -/
theorem numStep_printable {p p' : NumPos} {c : Char} (h : p.step c = some p') :
    32 ≤ c.toNat ∧ c.toNat < 127 := by
  have hc : c.isDigit = true ∨ c ∈ ['0', '.', 'e', 'E', '+', '-'] := by
    by_contra hn
    simp only [List.mem_cons, List.not_mem_nil, or_false, not_or] at hn
    cases p <;> simp_all [NumPos.step]
  rcases hc with hc | hc
  · exact isDigit_printable hc
  · simp only [List.mem_cons, List.not_mem_nil, or_false] at hc
    rcases hc with rfl | rfl | rfl | rfl | rfl | rfl <;> decide

theorem printable_numRun {p p' : NumPos} {t : Str} (h : p.run t = some p') : Printable t := by
  induction t generalizing p with
  | nil => simp
  | cons c t ih =>
    rw [NumPos.run] at h
    cases hs : p.step c with
    | none => simp [hs] at h
    | some p₁ =>
      simp only [hs] at h
      exact printable_cons.mpr ⟨numStep_printable hs, ih h⟩

theorem printable_scanNum {t : Str} {p : NumPos} (h : scanNum t = some p) : Printable t := by
  cases t with
  | nil => simp
  | cons c t =>
    obtain ⟨p₀, h₀, hr⟩ := Option.bind_eq_some_iff.mp h
    refine printable_cons.mpr ⟨?_, printable_numRun hr⟩
    unfold NumPos.start at h₀
    repeat' split at h₀
    · subst_vars; decide
    · subst_vars; decide
    · rename_i hc; exact isDigit_printable hc
    · cases h₀

theorem printable_intText (i : Int) : Printable (intText i) := by
  obtain ⟨p, -, h⟩ := scanNum_intText i
  exact printable_scanNum h

theorem printable_floatText (f : Float) : Printable f.text := by
  have hw := f.wf
  simp only [isFloatText, Bool.or_eq_true, decide_eq_true_eq] at hw
  rcases hw with ((hw | hw) | hw) | hw
  · rw [hw]; exact printable_of_all (by decide)
  · rw [hw]; exact printable_of_all (by decide)
  · rw [hw]; exact printable_of_all (by decide)
  · cases hs : scanNum f.text with
    | none => simp [hs] at hw
    | some p => exact printable_scanNum hs

mutual

/-- **`dumps` writes printable ASCII.** -/
theorem printable_dumps : ∀ v : Json, Printable (dumps v)
  | .null => printable_of_all (by decide)
  | .bool true => printable_of_all (by decide)
  | .bool false => printable_of_all (by decide)
  | .int i => printable_intText i
  | .float f => printable_floatText f
  | .str s => printable_dumpsStr s
  | .arr xs => printable_cons.mpr ⟨by decide, printable_dumpsElems xs⟩
  | .obj ms => printable_cons.mpr ⟨by decide, printable_dumpsMembers ms⟩

theorem printable_dumpsElems : ∀ xs : List Json, Printable (dumpsElems xs)
  | [] => printable_of_all (by decide)
  | [x] => by
    simp only [dumpsElems, printable_append, printable_cons, printable_nil, and_true]
    exact ⟨printable_dumps x, by decide⟩
  | x :: y :: xs => by
    simp only [dumpsElems, printable_append, printable_cons]
    exact ⟨printable_dumps x, by decide, printable_dumpsElems (y :: xs)⟩

theorem printable_dumpsMembers : ∀ ms : List (Str × Json), Printable (dumpsMembers ms)
  | [] => printable_of_all (by decide)
  | [(k, v)] => by
    simp only [dumpsMembers, printable_append, printable_cons, printable_nil, and_true]
    exact ⟨⟨printable_dumpsStr k, by decide, printable_dumps v⟩, by decide⟩
  | (k, v) :: m :: ms => by
    simp only [dumpsMembers, printable_append, printable_cons]
    exact ⟨⟨printable_dumpsStr k, by decide, printable_dumps v⟩, by decide,
      printable_dumpsMembers (m :: ms)⟩

end

/-! ## Framed lines -/

/-- A line with its `\n`, and no other line end in it. -/
def Framed (l : Bytes) : Prop := ∃ body, l = body ++ [LF] ∧ LF ∉ body ∧ CR ∉ body

/-- A text without a line end. -/
def Unframed (l : Bytes) : Prop := LF ∉ l ∧ CR ∉ l

theorem Framed.ne_nil {l : Bytes} (h : Framed l) : l ≠ [] := by
  obtain ⟨body, rfl, -, -⟩ := h; simp

theorem Framed.endsWithLF {l : Bytes} (h : Framed l) : endsWithLF l = true := by
  obtain ⟨body, rfl, -, -⟩ := h; simp [Py.endsWithLF]

theorem Unframed.endsWithLF {l : Bytes} (h : Unframed l) : endsWithLF l = false := by
  cases hl : l.getLast? with
  | none => simp [Py.endsWithLF, hl]
  | some b =>
    have hb : b ≠ LF := fun he => h.1 (he ▸ List.mem_of_getLast? hl)
    simpa [Py.endsWithLF, hl] using hb

/-- A line that starts with something unframed. -/
theorem Framed.append {p l : Bytes} (hp : Unframed p) (h : Framed l) : Framed (p ++ l) := by
  obtain ⟨body, rfl, h₁, h₂⟩ := h
  exact ⟨p ++ body, by simp, by simp [hp.1, h₁], by simp [hp.2, h₂]⟩

theorem byteLines_framed {l : Bytes} (h : Framed l) (rest : Bytes) :
    byteLines (l ++ rest) = l :: byteLines rest := by
  obtain ⟨body, rfl, hb, -⟩ := h
  induction body with
  | nil =>
    simp only [List.nil_append, List.singleton_append, byteLines]
    cases byteLines rest <;> rfl
  | cons b body ih =>
    have hne : b ≠ LF := fun e => hb (by simp [e])
    simp only [List.cons_append, byteLines, ih fun hm => hb (by simp [hm]), if_neg hne]

theorem universalLines_framed {l : Bytes} (h : Framed l) (rest : Bytes) :
    universalLines (l ++ rest) = l :: universalLines rest := by
  obtain ⟨body, rfl, hb, hc⟩ := h
  induction body with
  | nil =>
    simp only [List.nil_append, List.singleton_append, universalLines]
    cases universalLines rest <;> rfl
  | cons b body ih =>
    have hne : b ≠ LF := fun e => hb (by simp [e])
    have hcr : b ≠ CR := fun e => hc (by simp [e])
    simp only [List.cons_append, universalLines,
      ih (fun hm => hb (by simp [hm])) fun hm => hc (by simp [hm]), if_neg hne, hcr, false_and,
      ↓reduceIte]

theorem byteLines_unframed {l : Bytes} (h : Unframed l) (hne : l ≠ []) : byteLines l = [l] := by
  induction l with
  | nil => exact absurd rfl hne
  | cons b l ih =>
    have hb : b ≠ LF := fun e => h.1 (by simp [e])
    cases l with
    | nil => rfl
    | cons c l =>
      have := ih ⟨fun hm => h.1 (by simp [hm]), fun hm => h.2 (by simp [hm])⟩ (by simp)
      rw [byteLines, this]
      simp [hb]

theorem universalLines_unframed {l : Bytes} (h : Unframed l) (hne : l ≠ []) :
    universalLines l = [l] := by
  induction l with
  | nil => exact absurd rfl hne
  | cons b l ih =>
    have hb : b ≠ LF := fun e => h.1 (by simp [e])
    have hc : b ≠ CR := fun e => h.2 (by simp [e])
    cases l with
    | nil => rfl
    | cons c l =>
      have := ih ⟨fun hm => h.1 (by simp [hm]), fun hm => h.2 (by simp [hm])⟩ (by simp)
      rw [universalLines, this]
      simp [hb, hc]

theorem byteLines_flatten {ls : List Bytes} (h : ∀ l ∈ ls, Framed l) (rest : Bytes) :
    byteLines (ls.flatten ++ rest) = ls ++ byteLines rest := by
  induction ls with
  | nil => rfl
  | cons l ls ih =>
    rw [List.flatten_cons, List.append_assoc, byteLines_framed (h l (by simp)),
      ih fun x hx => h x (by simp [hx]), List.cons_append]

theorem universalLines_flatten {ls : List Bytes} (h : ∀ l ∈ ls, Framed l) (rest : Bytes) :
    universalLines (ls.flatten ++ rest) = ls ++ universalLines rest := by
  induction ls with
  | nil => rfl
  | cons l ls ih =>
    rw [List.flatten_cons, List.append_assoc, universalLines_framed (h l (by simp)),
      ih fun x hx => h x (by simp [hx]), List.cons_append]

/-- The lines of a binary handle that are complete, when the file ends inside one. -/
theorem byteLines_complete {ls : List Bytes} (h : ∀ l ∈ ls, Framed l) {p : Bytes}
    (hp : Unframed p) : (byteLines (ls.flatten ++ p)).filter endsWithLF = ls := by
  rw [byteLines_flatten h, List.filter_append,
    List.filter_eq_self.mpr fun l hl => (h l hl).endsWithLF]
  by_cases hne : p = []
  · simp [hne, byteLines]
  · rw [byteLines_unframed hp hne]
    simp [hp.endsWithLF]

theorem endsWithLF_flatten {ls : List Bytes} (h : ∀ l ∈ ls, Framed l) (hne : ls ≠ []) :
    endsWithLF ls.flatten = true := by
  obtain ⟨A, l, rfl⟩ := (List.eq_nil_or_concat ls).resolve_left hne
  obtain ⟨body, rfl, -, -⟩ := h l (by simp)
  simp [endsWithLF]

/-! ## Lines of printable text -/

theorem unframed_printable {s : Str} (h : Printable s) : Unframed (encodeUtf8 s) := by
  rw [encodeUtf8_ascii h.ascii]
  constructor <;>
  · intro hm
    obtain ⟨c, hc, he⟩ := List.mem_map.mp hm
    have hb := h c hc
    have hn := congrArg UInt8.toNat he
    rw [UInt8.toNat_ofNat', Nat.mod_eq_of_lt (by omega)] at hn
    simp only [LF, CR, UInt8.reduceToNat] at hn
    omega

theorem framed_printable {s : Str} (h : Printable s) : Framed (encodeUtf8 (s ++ ['\n'])) := by
  refine ⟨encodeUtf8 s, ?_, unframed_printable h⟩
  rw [encodeUtf8_append]
  rfl

theorem length_encodeUtf8 {s : Str} (h : Ascii s) : (encodeUtf8 s).length = s.length := by
  simp [encodeUtf8_ascii h]

theorem encodeUtf8_eq_nil {s : Str} (h : Ascii s) : encodeUtf8 s = [] ↔ s = [] := by
  rw [← List.length_eq_zero_iff, length_encodeUtf8 h, List.length_eq_zero_iff]

theorem Printable.endsWithNewline {s : Str} (h : Printable s) : endsWithNewline s = false := by
  cases hs : s.getLast? with
  | none => simp [Py.endsWithNewline, hs]
  | some c =>
    have hc := h c (List.mem_of_getLast? hs)
    have hne : c ≠ '\n' := by rintro rfl; exact absurd hc.1 (by decide)
    simpa [Py.endsWithNewline, hs] using hne

theorem translateNewline_printable {s : Str} (h : Printable s) :
    translateNewline (s ++ ['\n']) = s ++ ['\n'] ∧ translateNewline s = s := by
  induction s with
  | nil => exact ⟨rfl, rfl⟩
  | cons c s ih =>
    have hc : c ≠ '\r' := by rintro rfl; exact absurd (h '\r' (by simp)).1 (by decide)
    obtain ⟨h₁, h₂⟩ := ih fun x hx => h x (by simp [hx])
    constructor
    · rw [List.cons_append, translateNewline, h₁]
      · simp [hc]
      · simp [hc]
    · rw [translateNewline, h₂]
      · simp [hc]
      · simp [hc]

/-- A printable line reads as itself in text mode, with or without its `\n`. -/
theorem decodeLine_printable {s : Str} (h : Printable s) :
    decodeLine (encodeUtf8 (s ++ ['\n'])) = some ⟨encodeUtf8 (s ++ ['\n']), s ++ ['\n']⟩ ∧
      decodeLine (encodeUtf8 s) = some ⟨encodeUtf8 s, s⟩ := by
  have hnl : Ascii (s ++ ['\n']) := by
    intro c hc
    rcases List.mem_append.mp hc with hc | hc
    · exact h.ascii c hc
    · rw [List.mem_singleton.mp hc]; decide
  obtain ⟨h₁, h₂⟩ := translateNewline_printable h
  simp [decodeLine, decodeUtf8_ascii hnl, decodeUtf8_ascii h.ascii, h₁, h₂]

/-- A printable text without its `\n`, as a text handle reads it. -/
theorem textLines_printable {s : Str} (h : Printable s) :
    textLines (encodeUtf8 s) = some (if s = [] then [] else [⟨encodeUtf8 s, s⟩]) := by
  by_cases hs : s = []
  · simp [hs, textLines, universalLines, encodeUtf8]
  · rw [textLines, universalLines_unframed (unframed_printable h)
      ((encodeUtf8_eq_nil h.ascii).not.mpr hs), List.mapM_cons, (decodeLine_printable h).2]
    simp [hs]

end Py
