import Leviathan.Journal.CodecLemmas
import Leviathan.Py.JsonSuffix

/-!
# The rest of a record's line

A reader whose offset is inside the line of a record reads the rest of the line as a line of its
own. `parse_lineRest`: that rest is never a record, whatever the strings of the tick hold.
-/

namespace Leviathan

open Py

/-! ## Ends that start with a brace -/

section Ends

variable {A B p t : Str}

/-- An end that starts with a brace starts after a part without one. So only the braces of a
record's line matter here. -/
theorem suffix_of_not_mem (hA : '{' ∉ A) (h : '{' :: t <:+ A ++ B) : '{' :: t <:+ B := by
  obtain ⟨u, hu⟩ := h
  rcases List.append_eq_append_iff.mp hu with ⟨C, hC, ht⟩ | ⟨C, -, hB⟩
  · cases C with
    | nil => exact ⟨[], by simpa using ht⟩
    | cons c C =>
      obtain ⟨rfl, -⟩ := List.cons_eq_cons.mp ht
      exact absurd (by rw [hC]; simp) hA
  · exact ⟨C, hB.symm⟩

theorem brace_not_mem_unitEscape (u : Nat) : '{' ∉ unitEscape u := by
  have hd : ∀ n, hexDigit (n % 16) ≠ '{' := fun n => by
    have h : n % 16 < 16 := Nat.mod_lt _ (by decide)
    generalize n % 16 = m at h
    interval_cases m <;> decide
  simp [unitEscape, (hd _).symm]

/-- An escape sequence has no brace: `json.dumps` writes `\u` with four hex digits or a letter. -/
theorem brace_not_mem_escapeChar {c : Char} (hc : c ≠ '{') : '{' ∉ escapeChar c := by
  unfold escapeChar
  repeat' split
  all_goals simp [brace_not_mem_unitEscape, hc.symm]

/-- An end of a string literal and of what follows it: a brace inside the literal is one of the
string itself, so the rest of the literal comes after it. -/
theorem suffix_of_escape {s : Str} (h : '{' :: t <:+ s.flatMap escapeChar ++ B) :
    (∃ s' : Str, t = s'.flatMap escapeChar ++ B) ∨ '{' :: t <:+ B := by
  induction s with
  | nil => exact .inr h
  | cons c s ih =>
    rw [List.flatMap_cons, List.append_assoc] at h
    by_cases hc : c = '{'
    · subst hc
      rcases List.suffix_cons_iff.mp h with he | h
      · exact .inl ⟨s, (List.cons_eq_cons.mp he).2⟩
      · exact ih h
    · exact ih (suffix_of_not_mem (brace_not_mem_escapeChar hc) h)

theorem brace_not_mem_run {pos pos' : NumPos} (h : pos.run A = some pos') : '{' ∉ A := by
  induction A generalizing pos with
  | nil => simp
  | cons c A ih =>
    rw [NumPos.run] at h
    cases hs : pos.step c with
    | none => simp [hs] at h
    | some p =>
      simp only [hs] at h
      have hc : '{' ≠ c := by rintro rfl; cases pos <;> cases hs
      exact fun hm => (List.mem_cons.mp hm).elim hc (ih h)

theorem brace_not_mem_scanNum {pos : NumPos} (h : scanNum A = some pos) : '{' ∉ A := by
  cases A with
  | nil => simp
  | cons c A =>
    obtain ⟨p, hs, hr⟩ := Option.bind_eq_some_iff.mp h
    have hc : '{' ≠ c := by rintro rfl; cases hs
    exact fun hm => (List.mem_cons.mp hm).elim hc (brace_not_mem_run hr)

theorem brace_not_mem_intText (i : Int) : '{' ∉ intText i := by
  obtain ⟨pos, -, h⟩ := scanNum_intText i
  exact brace_not_mem_scanNum h

theorem brace_not_mem_floatText (f : Py.Float) : '{' ∉ f.text := by
  have hw := f.wf
  simp only [isFloatText, Bool.or_eq_true, decide_eq_true_eq] at hw
  rcases hw with ((hw | hw) | hw) | hw
  · rw [hw]; decide
  · rw [hw]; decide
  · rw [hw]; decide
  · cases hs : scanNum f.text with
    | none => simp [hs] at hw
    | some pos => exact brace_not_mem_scanNum hs

end Ends

/-! ## Ends of a record -/

/-- The text of a record, cut at its braces and its three strings: the braces outside the strings
are those of the two objects. -/
theorem recordText_parts (seq : Int) (tick : TickFields) :
    ∃ A B C D k l, '{' ∉ A ∧ '{' ∉ B ∧ '{' ∉ '"' :: ',' :: '"' :: k :: C ∧
      '{' ∉ '"' :: ',' :: '"' :: l :: D ∧ Scan.KeyLetter k ∧ Scan.KeyLetter l ∧
      recordText seq tick = '{' :: (A ++ (dumps (tickToDict tick) ++ ['}'])) ∧
      dumps (tickToDict tick) ++ ['}'] = '{' :: (B ++ (tick.instId.flatMap escapeChar ++ '"' ::
        (',' :: '"' :: k :: (C ++ (tick.side.flatMap escapeChar ++ '"' ::
          (',' :: '"' :: l :: (D ++ (tick.tradeId.flatMap escapeChar ++ '"' :: ['}', '}'])))))))) := by
  refine ⟨dumpsStr seqKey ++ ':' :: intText seq ++ ',' :: dumpsStr tickKey ++ [':'],
    dumpsStr instIdKey ++ [':', '"'],
    ['s', '"', ':'] ++ intText tick.ts ++ ',' :: dumpsStr priceKey ++
      ':' :: tick.price.text ++ ',' :: dumpsStr sizeKey ++ ':' :: tick.size.text ++
      ',' :: dumpsStr sideKey ++ [':', '"'],
    ['r', 'a', 'd', 'e', '_', 'i', 'd', '"', ':', '"'], 't', 't', ?_, ?_, ?_, ?_, ?_, ?_, ?_, ?_⟩
  · have := brace_not_mem_intText seq
    simp only [List.mem_append, List.mem_cons, this]
    decide
  · decide
  · have h₁ := brace_not_mem_intText tick.ts
    have h₂ := brace_not_mem_floatText tick.price
    have h₃ := brace_not_mem_floatText tick.size
    simp only [List.mem_append, List.mem_cons, h₁, h₂, h₃]
    decide
  · decide
  · exact ⟨by decide, by decide, by decide, by decide, by decide⟩
  · exact ⟨by decide, by decide, by decide, by decide, by decide⟩
  · simp [recordText, recordDict, dumps, dumpsMembers]
  · have hall : (['t', 's', 'r', 'a', 'd', 'e', '_', 'i'].all fun k => escapeChar k = [k]) = true := by
      decide
    have hk := fun k hk => of_decide_eq_true (List.all_eq_true.mp hall k hk)
    simp [tickToDict, dumps, dumpsMembers, dumpsStr, tsKey, tradeIdKey, hk]

/-- **An end of a record that starts with a brace is no JSON text.** It begins inside a string,
where no key follows the brace or the closing quote opens a key without a colon, or with the inner
object, after which one brace is too many. -/
theorem loads_brace_end {seq : Int} {tick : TickFields} {t : Str}
    (h : '{' :: t <:+ recordText seq tick) (hne : '{' :: t ≠ recordText seq tick) :
    loads ('{' :: t) = none := by
  obtain ⟨A, B, C, D, k, l, hA, hB, hC, hD, hk, hl, hrecord, htick⟩ := recordText_parts seq tick
  rw [hrecord] at h hne
  have h := suffix_of_not_mem hA ((List.suffix_cons_iff.mp h).resolve_left hne)
  by_cases hinner : '{' :: t = dumps (tickToDict tick) ++ ['}']
  · -- the tick, and the brace that closes the record
    have hw : (tickToDict tick).Wf := (wf_recordDict seq tick).2.2.1
    obtain ⟨q, hq, hg⟩ := Scan.run_dumps (tickToDict tick) hw false []
    rw [hinner, loads, Scan.run_append, Scan.init, hq, Option.bind_some, Scan.run_cons,
      hg.step (by simp)]
    rfl
  · rw [htick] at h hinner
    have h := suffix_of_not_mem hB ((List.suffix_cons_iff.mp h).resolve_left hinner)
    rcases suffix_of_escape h with ⟨s, rfl⟩ | h
    · exact loads_brace_escape s (.inr ⟨k, _, rfl, hk⟩)
    have h := suffix_of_not_mem (A := '"' :: ',' :: '"' :: k :: C) hC h
    rcases suffix_of_escape h with ⟨s, rfl⟩ | h
    · exact loads_brace_escape s (.inr ⟨l, _, rfl, hl⟩)
    have h := suffix_of_not_mem (A := '"' :: ',' :: '"' :: l :: D) hD h
    rcases suffix_of_escape h with ⟨s, rfl⟩ | h
    · exact loads_brace_escape s (.inl rfl)
    · have h := suffix_of_not_mem (A := ['"', '}', '}']) (B := []) (by decide) h
      simp at h

/-- What `strip` leaves of an end of a record and its `\n`: it may begin with blanks of a string,
which go, and ends as before. -/
theorem strip_end {seq : Int} {tick : TickFields} {p : Str} (h : p <:+ recordText seq tick)
    (hp : p ≠ []) :
    ∃ c t, strip (p ++ ['\n']) = c :: t ∧ isSpace c = false ∧ c :: t <:+ p := by
  obtain ⟨u, hu⟩ := (recordText_ends seq tick).2
  obtain ⟨v, rfl⟩ : ∃ v, p = v ++ ['}'] := by
    obtain ⟨w, hw⟩ := h
    rcases List.eq_nil_or_concat p with rfl | ⟨v, c, rfl⟩
    · exact absurd rfl hp
    · rw [hu, List.concat_eq_append, ← List.append_assoc] at hw
      exact ⟨v, by rw [List.concat_eq_append, List.append_inj_right' hw rfl]⟩
  have hbrace : isSpace '}' = false := by decide
  have hdrop : ∃ w, (v ++ ['}']).dropWhile isSpace = w ++ ['}'] := by
    rw [List.dropWhile_append]
    split
    · exact ⟨[], by simp [hbrace]⟩
    · exact ⟨_, rfl⟩
  obtain ⟨w, hw⟩ := hdrop
  have hstrip : strip (v ++ ['}'] ++ ['\n']) = w ++ ['}'] := by
    rw [strip, stripBy, List.dropWhile_append, hw]
    simp only [List.isEmpty_iff, List.append_eq_nil_iff, List.cons_ne_nil, and_false, ↓reduceIte]
    rw [List.rdropWhile_concat_pos _ _ _ (by decide),
      List.rdropWhile_concat_neg _ _ _ (by simp [hbrace])]
  have hhead := List.head?_dropWhile_not isSpace (v ++ ['}'])
  have hsuffix : w ++ ['}'] <:+ v ++ ['}'] := hw ▸ List.dropWhile_suffix _
  rw [hw] at hhead
  rw [hstrip]
  cases hc : w ++ ['}'] with
  | nil => simp at hc
  | cons c t =>
    rw [hc] at hhead hsuffix
    exact ⟨c, t, rfl, by simpa using hhead, hsuffix⟩

/-- **The rest of a record's line is no record.** A reader that starts inside a line therefore skips
or quarantines what is left of it, and never takes it for a tick. -/
theorem parse_lineRest {rt : Runtime} {seq : Int} {tick : TickFields} {p : Str}
    (h : p <:+ recordText seq tick) (hne : p ≠ recordText seq tick) :
    ∃ parsed, parseJournalRecordLine rt (p ++ ['\n']) = .ok parsed ∧
      ∀ n t, parsed ≠ some (.record n t) := by
  by_cases hp : p = []
  · subst hp
    exact ⟨none, rfl, by simp⟩
  obtain ⟨c, t, hs, hc, ht⟩ := strip_end h hp
  have hws : Scan.isWs c = false := by
    rw [← Bool.not_eq_true]
    intro hw
    simp only [Scan.isWs, decide_eq_true_eq] at hw
    rcases hw with rfl | rfl | rfl | rfl <;> exact absurd hc (by decide)
  have hlong : c :: t ≠ recordText seq tick := fun he =>
    hne (h.eq_of_length_le (he ▸ ht.length_le))
  unfold parseJournalRecordLine
  simp only [hs, List.cons_ne_nil, ↓reduceIte]
  cases hl : loads (c :: t) with
  | none => exact ⟨_, rfl, by simp⟩
  | some v =>
    cases v with
    | obj ms =>
      obtain rfl := loads_obj_head hws hl
      rw [loads_brace_end (ht.trans h) hlong] at hl
      cases hl
    | _ => exact ⟨_, rfl, by simp⟩

end Leviathan
