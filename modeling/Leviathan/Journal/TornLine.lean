import Leviathan.Journal.CodecLemmas
import Leviathan.Py.JsonReject

/-!
# A line that is appended to a fragment

A writer that dies leaves a fragment without a newline, and the next line is written right after it:
for every reader the two are one line.

* `decodeLine_torn`, `parse_torn`: a text handle reads the record if the fragment is white space.
* `resolveLine_torn`: the walk of the index reads its number if the fragment is ASCII white space.
-/

namespace Py

/-! ## Text -/

/-- Only the last two characters of a line are translated, so what is before them does not matter.
-/
theorem translateNewline_append (s : Str) {t : Str} (h : 2 ≤ t.length) :
    translateNewline (s ++ t) = s ++ translateNewline t := by
  induction s with
  | nil => rfl
  | cons c s ih =>
    have hlen : 2 ≤ (s ++ t).length := by rw [List.length_append]; omega
    rw [List.cons_append, translateNewline, ih]
    · rfl
    · rintro rfl h₂
      rw [h₂] at hlen
      simp at hlen
    · rintro rfl h₂
      rw [h₂] at hlen
      simp at hlen

theorem stripBy_append_pos {α : Type} {p : α → Bool} {s : List α} (h : s.all p = true)
    (t : List α) : stripBy p (s ++ t) = stripBy p t := by
  rw [stripBy, stripBy, List.dropWhile_append]
  have : s.dropWhile p = [] := List.dropWhile_eq_nil_iff.mpr (List.all_eq_true.mp h)
  simp [this]

/-- A front that is not all white space stays, and so does the text after it. -/
theorem stripBy_append_neg {α : Type} {p : α → Bool} {s : List α} (h : s.all p = false)
    (u : List α) {e x : α} (he : p e = false) (hx : p x = true) :
    ∃ c rest, s.dropWhile p = c :: rest ∧ p c = false ∧
      stripBy p (s ++ (u ++ [e] ++ [x])) = c :: rest ++ (u ++ [e]) := by
  have hne : s.dropWhile p ≠ [] := fun hnil => by
    rw [List.all_eq_true.mpr (List.dropWhile_eq_nil_iff.mp hnil)] at h
    cases h
  obtain ⟨c, rest, hc⟩ := List.exists_cons_of_ne_nil hne
  have hhead := List.head?_dropWhile_not p s
  rw [hc] at hhead
  refine ⟨c, rest, hc, by simpa using hhead, ?_⟩
  rw [stripBy, List.dropWhile_append, hc, if_neg (by simp), ← List.append_assoc,
    List.rdropWhile_concat_pos _ _ _ hx, ← List.append_assoc,
    List.rdropWhile_concat_neg _ _ _ (by simp [he]), List.append_assoc]

/-! ## The first character of a decoded text -/

/-- The value of a sequence that goes on is no ASCII character, by the bounds that the decoder
checks. -/
def Utf8State.Wide (q : Utf8State) : Prop :=
  q.left ≠ 0 → 128 ≤ (q.acc * 64 + (q.lo - 128)) * 64 ^ (q.left - 1)

theorem Utf8State.wide_lead {n : Nat} {q : Utf8State} (h : Utf8State.lead n = some q) :
    q.Wide := by
  unfold Utf8State.lead at h
  intro hl
  repeat' split at h
  all_goals cases h
  all_goals simp only [Nat.reduceSub, Nat.reducePow] at hl ⊢
  all_goals omega

/-- The character of a sequence that goes on. -/
theorem decodeFrom_wide {bs : Bytes} {q : Utf8State} {s : Str} (hw : q.Wide) (hl : q.left ≠ 0)
    (h : decodeFrom q bs = some s) : ∃ n rest, s = chr n :: rest ∧ 128 ≤ n := by
  induction bs generalizing q with
  | nil => simp [decodeFrom, hl] at h
  | cons b bs ih =>
    have hw := hw hl
    rw [decodeFrom, Utf8State.step, if_neg hl] at h
    split at h
    · cases h
    · rename_i q' hq
      split at hq
      · rename_i hb
        obtain rfl := Option.some.inj hq
        have hge : q.acc * 64 + (q.lo - 128) ≤ q.acc * 64 + (b.toNat - 128) := by omega
        have hmul := Nat.mul_le_mul_right (64 ^ (q.left - 1)) hge
        simp only at h
        split at h
        · rename_i hone
          obtain ⟨rest, -, rfl⟩ := Option.map_eq_some_iff.mp h
          refine ⟨_, rest, rfl, ?_⟩
          rw [hone, pow_zero, Nat.mul_one, Nat.mul_one] at hmul
          rw [hone, pow_zero, Nat.mul_one] at hw
          exact Nat.le_trans hw hmul
        · rename_i hmore
          refine ih (fun _ => ?_) hmore h
          have hpow : 64 ^ (q.left - 1) = 64 * 64 ^ (q.left - 1 - 1) := by
            rw [← pow_succ', Nat.sub_add_cancel (by omega)]
          simp only [Nat.sub_self, Nat.add_zero]
          rw [Nat.mul_assoc, ← hpow]
          exact Nat.le_trans hw hmul
      · cases hq

theorem chr_toNat_ge {n : Nat} (h : 128 ≤ n) : 128 ≤ (chr n).toNat := by
  unfold chr
  split
  · rename_i hv
    rw [Char.ofNat, dif_pos hv]
    exact h
  · decide

theorem isByteSpace_iff {b : UInt8} :
    isByteSpace b = true ↔ (9 ≤ b.toNat ∧ b.toNat ≤ 13) ∨ b.toNat = 32 := by
  simp [isByteSpace, UInt8.le_iff_toNat_le, ← UInt8.toNat_inj]

theorem chr_toNat_narrow {n : Nat} (h : n < 128) : (chr n).toNat = n := by
  have hv : n.isValidChar := .inl (by omega)
  rw [chr, if_pos hv, Char.ofNat, dif_pos hv]
  rfl

/-- A text whose first byte is no white space does not start with JSON white space either. -/
theorem decodeUtf8_head {b : UInt8} {bs : Bytes} {s : Str} (hb : isByteSpace b = false)
    (h : decodeUtf8 (b :: bs) = some s) : ∃ c rest, s = c :: rest ∧ Scan.isWs c = false := by
  have hws : ∀ c : Char, Scan.isWs c = true →
      c.toNat = 9 ∨ c.toNat = 10 ∨ c.toNat = 13 ∨ c.toNat = 32 := by
    intro c hc
    simp only [Scan.isWs, decide_eq_true_eq] at hc
    rcases hc with rfl | rfl | rfl | rfl <;> decide
  have hwide : ∀ n, 128 ≤ n → Scan.isWs (chr n) = false := fun n hn => by
    rw [← Bool.not_eq_true]
    intro hw
    have hge := chr_toNat_ge hn
    have := hws _ hw
    omega
  have hnarrow : b.toNat < 128 → Scan.isWs (chr b.toNat) = false := fun hn => by
    rw [← Bool.not_eq_true]
    intro hw
    have hc := hws _ hw
    rw [chr_toNat_narrow hn] at hc
    rw [isByteSpace_iff.mpr (by omega)] at hb
    cases hb
  unfold decodeUtf8 at h
  rw [decodeFrom] at h
  split at h
  · cases h
  · rename_i q hq
    have hlead : Utf8State.lead b.toNat = some q := hq
    split at h
    · rename_i hl
      obtain ⟨rest, -, rfl⟩ := Option.map_eq_some_iff.mp h
      refine ⟨_, rest, rfl, ?_⟩
      obtain ⟨hacc, hlt⟩ : q.acc = b.toNat ∧ b.toNat < 128 := by
        unfold Utf8State.lead at hlead
        repeat' split at hlead
        all_goals cases hlead
        all_goals first | exact absurd hl (Nat.succ_ne_zero _) | exact ⟨rfl, by assumption⟩
      rw [hacc]
      exact hnarrow hlt
    · rename_i hl
      obtain ⟨n, rest, rfl, hn⟩ := decodeFrom_wide (Utf8State.wide_lead hlead) hl h
      exact ⟨_, rest, rfl, hwide n hn⟩

/-- ASCII white space is text, and white space as text; the converse fails for wider blanks. -/
theorem decodeUtf8_byteSpace {bs : Bytes} (h : bs.all isByteSpace = true) :
    ∃ s, decodeUtf8 bs = some s ∧ s.all isSpace = true := by
  have hspace : ∀ b : UInt8, isByteSpace b = true →
      b.toNat < 128 ∧ isSpace (chr b.toNat) = true := by
    intro b hb
    have hn := isByteSpace_iff.mp hb
    have hlt : b.toNat < 128 := by omega
    refine ⟨hlt, ?_⟩
    simp only [isSpace, chr_toNat_narrow hlt, decide_eq_true_eq]
    omega
  induction bs with
  | nil => exact ⟨[], rfl, rfl⟩
  | cons b bs ih =>
    rw [List.all_cons, Bool.and_eq_true] at h
    obtain ⟨s, hs, hall⟩ := ih h.2
    obtain ⟨hlt, hb⟩ := hspace b h.1
    refine ⟨chr b.toNat :: s, ?_, by simp [hb, hall]⟩
    unfold decodeUtf8 at hs ⊢
    rw [decodeFrom]
    simp [Utf8State.step, Utf8State.start, Utf8State.lead, hlt] at hs ⊢
    exact hs

end Py

namespace Leviathan

open Py

variable {rt : Runtime}

/-! ## The torn line -/

/-- The bytes of a record's line after a fragment, when an append goes to a file that ends inside a
line. -/
def tornBytes (fragment : Bytes) (r : Rec rt) : Bytes := fragment ++ recordBytes rt r

theorem framed_tornBytes {fragment : Bytes} (h : Unframed fragment) (r : Rec rt) :
    Framed (tornBytes fragment r) :=
  (framed_recordBytes r).append h

theorem decodeLine_torn {fragment : Bytes} {s : Str} (h : decodeUtf8 fragment = some s)
    (r : Rec rt) : decodeLine (tornBytes fragment r) =
      some ⟨tornBytes fragment r, s ++ encodeRecord r.1 r.2.fields⟩ := by
  have hp := printable_recordText r.1 r.2.fields
  have hascii : Ascii (encodeRecord r.1 r.2.fields) := by
    intro c hc
    rcases List.mem_append.mp hc with hc | hc
    · exact hp.ascii c hc
    · rw [List.mem_singleton.mp hc]; decide
  have htext : translateNewline (encodeRecord r.1 r.2.fields) = encodeRecord r.1 r.2.fields :=
    (translateNewline_printable hp).1
  have hlen : 2 ≤ (encodeRecord r.1 r.2.fields).length := by
    obtain ⟨u, hu⟩ := (recordText_ends r.1 r.2.fields).2
    have : encodeRecord r.1 r.2.fields = recordText r.1 r.2.fields ++ ['\n'] := rfl
    rw [this, hu]
    simp
  unfold decodeLine tornBytes
  rw [decodeUtf8_append h, recordBytes, decodeUtf8_ascii hascii]
  simp [translateNewline_append s hlen, htext]

/-- A fragment that is no UTF-8 can not be read, with or without a line after it. -/
theorem decodeLine_torn_none {fragment : Bytes} (h : decodeUtf8 fragment = none) (r : Rec rt) :
    decodeLine (tornBytes fragment r) = none := by
  obtain ⟨u, hu⟩ := (recordText_ends r.1 r.2.fields).2
  have hb : recordBytes rt r = 123 :: (encodeUtf8 u ++ [125] ++ [LF]) := by
    have : encodeUtf8 (recordText r.1 r.2.fields) = 123 :: encodeUtf8 u ++ [125] := by
      rw [hu, encodeUtf8_append]; rfl
    rw [recordBytes_eq, this]
    rfl
  unfold decodeLine tornBytes
  rw [hb]
  unfold decodeUtf8 at h ⊢
  rw [decodeFrom_append_none (fun e => absurd rfl e) (by decide) h]
  rfl

/-- The first key of a record is `"seq"`, so its text goes on after the brace with a quote and a
letter. -/
theorem dumps_record (seq : Int) (tick : TickFields) :
    (recordDict seq tick).Wf ∧ Scan.KeyLetter 's' ∧
      ∃ t, dumps (recordDict seq tick) = '{' :: '"' :: 's' :: t := by
  obtain ⟨t, ht⟩ := (recordText_ends seq tick).1
  exact ⟨wf_recordDict seq tick, ⟨by decide, by decide, by decide, by decide, by decide⟩, t, ht⟩

/-- **A text handle reads the record after white space only.** After anything else the line is
invalid as a whole. -/
theorem parse_torn {s : Str} (seq : Int) (tick : TradeTick rt) :
    if s.all isSpace = true then
      parseJournalRecordLine rt (s ++ encodeRecord seq tick.fields) = .ok (some (.record seq tick))
    else ∃ reason line,
      parseJournalRecordLine rt (s ++ encodeRecord seq tick.fields) =
        .ok (some (.invalid reason line)) := by
  split
  · rename_i hs
    have hstrip : strip (s ++ encodeRecord seq tick.fields) =
        strip (encodeRecord seq tick.fields) := stripBy_append_pos hs _
    have := parse_encodeRecord seq tick
    unfold parseJournalRecordLine at this ⊢
    rw [hstrip]
    exact this
  · rename_i hs
    obtain ⟨hwf, hk, t, ht⟩ := dumps_record seq tick.fields
    obtain ⟨u, hu⟩ := (recordText_ends seq tick.fields).2
    obtain ⟨c, rest, hc, hspace, hstrip⟩ := stripBy_append_neg (Bool.eq_false_iff.mpr hs)
      ('{' :: u) (e := '}') (x := '\n') (by decide) (by decide)
    have hws : Scan.isWs c = false := by
      rw [← Bool.not_eq_true] at hspace ⊢
      intro hw
      simp only [Scan.isWs, decide_eq_true_eq] at hw
      rcases hw with rfl | rfl | rfl | rfl <;> exact hspace (by decide)
    have htext : strip (s ++ encodeRecord seq tick.fields) =
        c :: rest ++ dumps (recordDict seq tick.fields) := by
      have : encodeRecord seq tick.fields = '{' :: u ++ ['}'] ++ ['\n'] := by rw [← hu]; rfl
      rw [this]
      refine hstrip.trans ?_
      rw [← hu]
      rfl
    refine ⟨rt.decodeErrorText (c :: rest ++ dumps (recordDict seq tick.fields)),
      c :: rest ++ dumps (recordDict seq tick.fields), ?_⟩
    unfold parseJournalRecordLine
    simp only [htext, loads_append_obj rest hws hwf hk ht]
    rfl

/-- **The walk of the index reads the number after ASCII white space only**, since it strips bytes,
where the reader strips characters. -/
theorem resolveLine_torn (fragment : Bytes) (r : Rec rt) :
    resolveLine rt (tornBytes fragment r) =
      .ok (if fragment.all isByteSpace = true then some (r.1 : Int) else none) := by
  split
  · rename_i hs
    have hstrip : stripBytes (tornBytes fragment r) = stripBytes (recordBytes rt r) :=
      stripBy_append_pos hs _
    have := resolveLine_recordBytes r
    unfold resolveLine at this ⊢
    rw [hstrip]
    exact this
  · rename_i hs
    obtain ⟨hwf, hk, t, ht⟩ := dumps_record r.1 r.2.fields
    obtain ⟨u, hu⟩ := (recordText_ends r.1 r.2.fields).2
    have hb : encodeUtf8 (recordText r.1 r.2.fields) = 123 :: encodeUtf8 u ++ [125] := by
      rw [hu, encodeUtf8_append]; rfl
    obtain ⟨c, rest, hc, hspace, hstrip⟩ := stripBy_append_neg (Bool.eq_false_iff.mpr hs)
      (123 :: encodeUtf8 u) (e := (125 : UInt8)) (x := LF) (by decide) (by decide)
    have htext : stripBytes (tornBytes fragment r) =
        c :: (rest ++ encodeUtf8 (dumps (recordDict r.1 r.2.fields))) := by
      have : recordBytes rt r = 123 :: encodeUtf8 u ++ [125] ++ [LF] := by
        rw [← hb]; exact recordBytes_eq r
      rw [tornBytes, this]
      refine hstrip.trans ?_
      rw [← hb]
      rfl
    unfold resolveLine
    simp only [htext, reduceCtorEq, ↓reduceIte]
    have hdumps : encodeUtf8 (dumps (recordDict r.1 r.2.fields)) = 123 :: (encodeUtf8 u ++ [125]) :=
      hb
    cases hd : decodeUtf8 (c :: rest) with
    | none =>
      have hnone : decodeUtf8 (c :: (rest ++ encodeUtf8 (dumps (recordDict r.1 r.2.fields)))) =
          none := by
        rw [hdumps]
        exact decodeFrom_append_none (fun e => absurd rfl e) (by decide) hd
      rw [hnone]
    | some s =>
      obtain ⟨c', rest', rfl, hws⟩ := decodeUtf8_head hspace hd
      have hascii : decodeUtf8 (encodeUtf8 (dumps (recordDict r.1 r.2.fields))) =
          some (dumps (recordDict r.1 r.2.fields)) :=
        decodeUtf8_ascii (printable_recordText r.1 r.2.fields).ascii
      have hsome := decodeUtf8_append (b := encodeUtf8 (dumps (recordDict r.1 r.2.fields))) hd
      rw [hascii, List.cons_append] at hsome
      simp only [hsome, Option.map_some, loadRecordSeq, loads_append_obj rest' hws hwf hk ht]

end Leviathan
