import Leviathan.Py.JsonReject

/-!
# Ends of JSON texts

A reader that starts inside a line sees an end of its text. Two facts about such ends:

* `loads_obj_head`: only a text that starts with `{` can hold an object.
* `loads_brace_escape`: a text that starts with a `{` from inside a string literal, and goes on with
  the rest of the literal, holds nothing.
-/

namespace Py

def Json.isObj : Json → Bool
  | .obj _ => true
  | _ => false

theorem Json.IsAtom.isObj {v : Json} (h : v.IsAtom) : v.isObj = false := by
  cases v with
  | obj => cases h
  | _ => rfl

namespace Scan

/-! ## Documents that are no objects -/

/-- The outermost open container is an array. -/
def InArray (st : List Frame) : Prop := ∃ xs st', st = st' ++ [.arr xs]

/-- The document is no object: the outermost container is an array, or the scan is in a scalar or
after one. -/
def NoObj (q : Scan) : Prop :=
  match q.mode with
  | .done v => v.isObj = false
  | .word _ _ v => InArray q.stack ∨ q.stack = [] ∧ v.isObj = false
  | .elem _ | .str _ | .num _ _ => InArray q.stack ∨ q.stack = []
  | _ => InArray q.stack

theorem InArray.cons {st : List Frame} (h : InArray st) (f : Frame) : InArray (f :: st) := by
  obtain ⟨xs, st', rfl⟩ := h
  exact ⟨xs, f :: st', rfl⟩

theorem InArray.tail {st : List Frame} {f : Frame} (h : InArray (f :: st)) :
    InArray st ∨ st = [] ∧ ∃ xs, f = .arr xs := by
  obtain ⟨xs, st', he⟩ := h
  cases st' with
  | nil => obtain ⟨rfl, rfl⟩ := List.cons_eq_cons.mp he; exact .inr ⟨rfl, xs, rfl⟩
  | cons g st' => obtain ⟨rfl, rfl⟩ := List.cons_eq_cons.mp he; exact .inl ⟨xs, st', rfl⟩

theorem noObj_give {v : Json} {st : List Frame} (h : InArray st ∨ st = [] ∧ v.isObj = false) :
    (give v st).NoObj := by
  rcases h with h | ⟨rfl, hv⟩
  · cases st with
    | nil => obtain ⟨xs, st', he⟩ := h; simp at he
    | cons f st =>
      rcases h.tail with ht | ⟨rfl, xs, rfl⟩
      · cases f with
        | arr xs => exact .inl ht
        | obj ms key => exact ht
      · exact .inr rfl
  · exact hv

theorem noObj_steps {q q' : Scan} {c : Char} (hs : Steps q c q') (h : q.NoObj) : q'.NoObj := by
  induction hs with
  | blank => exact h
  | string | number => exact .inl h
  | object | key | nextMember | inString | inKey | keyEnds | inNumber | inWord => exact h
  | array | colon => exact InArray.cons h _
  | emptyArray => exact noObj_give (InArray.tail h |>.imp_right fun ht => ⟨ht.1, rfl⟩)
  | word => exact .inl h
  | negInfinity hv => exact h.imp_right fun hst => ⟨hst, hv.isObj⟩
  | @nextElem xs st =>
    rcases h with h | rfl
    · exact InArray.cons h _
    · exact ⟨xs, [], rfl⟩
  | arrayEnds | stringEnds => exact noObj_give (h.imp_right fun hst => ⟨hst, rfl⟩)
  | emptyObject | objectEnds => exact noObj_give (.inl h)
  | numberEnds hv _ ih => exact ih (noObj_give (h.imp_right fun hst => ⟨hst, hv.isObj⟩))
  | wordEnds => exact noObj_give h

/-- A document that starts with something else than `{`. -/
theorem noObj_first {q : Scan} {c : Char} (hc : isWs c = false) (hne : c ≠ '{')
    (hs : Steps .init c q) : q.NoObj := by
  cases hs with
  | blank hws =>
    rw [hc] at hws
    cases hws
  | object => exact absurd rfl hne
  | array => exact ⟨[], [], rfl⟩
  | string | number => exact .inr rfl
  | word hv => exact .inr ⟨rfl, hv.isObj⟩

theorem noObj_settle {q q' : Scan} (h : q.NoObj) (hs : q.settle = some q') : q'.NoObj := by
  rcases settle_cases hs with rfl | ⟨pos, text, st, v, rfl, hv, rfl⟩
  · exact h
  · exact noObj_give (h.imp_right fun hst => ⟨hst, hv.isObj⟩)

end Scan

/-- **Only a text that starts with `{` can hold an object.** -/
theorem loads_obj_head {c : Char} {t : Str} (hc : Scan.isWs c = false) {ms : List (Str × Json)}
    (h : loads (c :: t) = some (.obj ms)) : c = '{' := by
  by_contra hne
  obtain ⟨q, hq, hf⟩ := Option.bind_eq_some_iff.mp h
  rw [Scan.run_cons] at hq
  obtain ⟨q₁, h₁, h₂⟩ := Option.bind_eq_some_iff.mp hq
  obtain ⟨q₂, h₃, hd⟩ := Option.bind_eq_some_iff.mp hf
  have hfirst := Scan.noObj_first hc hne (Scan.step_steps h₁)
  have hno := Scan.noObj_settle (Scan.Steps.run Scan.noObj_steps hfirst h₂) h₃
  obtain ⟨mode, st⟩ := q₂
  cases mode with
  | done v => cases hd; cases hno
  | _ => cases hd

/-! ## A brace in a string literal -/

namespace Scan

/-- Something after the document spoils it. -/
theorem run_done {v : Json} {t : Str} (h : ∃ c ∈ t, isWs c = false) :
    run t ⟨.done v, []⟩ = none := by
  induction t with
  | nil => simp at h
  | cons c t ih =>
    rw [run_cons]
    cases hc : isWs c with
    | false => simp [step, stepAfter, hc]
    | true =>
      obtain ⟨d, hd, hw⟩ := h
      have hd : d ∈ t := (List.mem_cons.mp hd).resolve_left fun he => by rw [he, hc] at hw; cases hw
      simpa [step, stepAfter, hc] using ih ⟨d, hd, hw⟩

/-- The escape of a character other than a blank starts with neither whitespace nor a quote. -/
theorem escapeChar_head {c : Char} (hc : c ≠ ' ') :
    ∃ d t, escapeChar c = d :: t ∧ isWs d = false ∧ d ≠ '"' := by
  unfold escapeChar
  split
  · exact ⟨_, _, rfl, by decide, by decide⟩
  split
  · exact ⟨_, _, rfl, by decide, by decide⟩
  split
  · exact ⟨_, _, rfl, by decide, by decide⟩
  split
  · exact ⟨_, _, rfl, by decide, by decide⟩
  split
  · exact ⟨_, _, rfl, by decide, by decide⟩
  split
  · exact ⟨_, _, rfl, by decide, by decide⟩
  split
  · exact ⟨_, _, rfl, by decide, by decide⟩
  split
  · exact ⟨c, [], rfl, by simp_all [isWs], by assumption⟩
  split <;> exact ⟨_, _, rfl, by decide, by decide⟩

/-- What follows the last string of an object inside an object, or a string with another member of
the object after it. -/
def AfterString (rest : Str) : Prop :=
  rest = ['}', '}'] ∨ ∃ k t, rest = ',' :: '"' :: k :: t ∧ KeyLetter k

theorem run_key_escape (s : Str) {rest : Str} (hrest : AfterString rest) :
    (run (s.flatMap escapeChar ++ '"' :: rest) ⟨.key [] true, []⟩).bind finish = none := by
  induction s with
  | nil =>
    -- the quote that ends the literal starts a key
    rcases hrest with rfl | ⟨k, t, rfl, hk⟩
    · rfl
    · have hw : ¬(k = ' ' ∨ k = '\t' ∨ k = '\n' ∨ k = '\r') := by simpa [isWs] using hk.1
      simp [run_cons, step, isWs, StrScan.step, StrScan.empty, StrScan.push, hw, hk.2.1]
  | cons c s ih =>
    rw [List.flatMap_cons, List.append_assoc]
    by_cases hc : c = ' '
    · subst hc
      exact ih
    · obtain ⟨d, t, he, hw, hq⟩ := escapeChar_head hc
      rw [he, List.cons_append, run_cons]
      by_cases hb : d = '}'
      · have hdone := run_done (v := .obj [])
          (t := t ++ (s.flatMap escapeChar ++ '"' :: rest)) ⟨'"', by simp, by decide⟩
        simp [step, hb, give, hdone, isWs]
      · simp [step, hw, hq, hb]

end Scan

/-- **A `{` from inside a string literal, and the rest of the text.** -/
theorem loads_brace_escape (s : Str) {rest : Str} (hrest : Scan.AfterString rest) :
    loads ('{' :: (s.flatMap escapeChar ++ '"' :: rest)) = none := by
  rw [loads, Scan.run_cons]
  exact Scan.run_key_escape s hrest

end Py
