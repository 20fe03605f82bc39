import Leviathan.Py.JsonLemmas

/-!
# The steps of the scan

What `Scan.step` can do, as a relation: an invariant of the scan is kept when every step keeps it
(`Steps.run`).
-/

namespace Py

/-- A value that is neither a string nor a container. -/
def Json.IsAtom : Json → Prop
  | .null | .bool _ | .int _ | .float _ => True
  | .str _ | .arr _ | .obj _ => False

namespace Scan

/-- What one character can do. -/
inductive Steps : Scan → Char → Scan → Prop where
  | blank {q : Scan} {c : Char} (hc : isWs c = true) : Steps q c q
  | string {close : Bool} {st : List Frame} : Steps ⟨.value close, st⟩ '"' ⟨.str .empty, st⟩
  | object {close : Bool} {st : List Frame} : Steps ⟨.value close, st⟩ '{' ⟨.key [] true, st⟩
  | array {close : Bool} {st : List Frame} :
      Steps ⟨.value close, st⟩ '[' ⟨.value true, .arr [] :: st⟩
  | emptyArray {xs : List Json} {st : List Frame} :
      Steps ⟨.value true, .arr xs :: st⟩ ']' (give (.arr []) st)
  | word {close : Bool} {st : List Frame} {c d : Char} {rest : Str} {v : Json} (hv : v.IsAtom)
      (hbrace : '{' ∉ d :: rest) : Steps ⟨.value close, st⟩ c ⟨.word d rest v, st⟩
  | number {close : Bool} {st : List Frame} {c : Char} {pos : NumPos} :
      Steps ⟨.value close, st⟩ c ⟨.num pos [c], st⟩
  | key {ms : Dict Str Json} {close : Bool} {st : List Frame} :
      Steps ⟨.key ms close, st⟩ '"' ⟨.keyStr ms .empty, st⟩
  | emptyObject {ms : Dict Str Json} {st : List Frame} :
      Steps ⟨.key ms true, st⟩ '}' (give (.obj ms) st)
  | colon {ms : Dict Str Json} {k : Str} {st : List Frame} :
      Steps ⟨.colon ms k, st⟩ ':' ⟨.value false, .obj ms k :: st⟩
  | nextElem {xs : List Json} {st : List Frame} :
      Steps ⟨.elem xs, st⟩ ',' ⟨.value false, .arr xs :: st⟩
  | arrayEnds {xs : List Json} {st : List Frame} : Steps ⟨.elem xs, st⟩ ']' (give (.arr xs) st)
  | nextMember {ms : Dict Str Json} {st : List Frame} :
      Steps ⟨.member ms, st⟩ ',' ⟨.key ms false, st⟩
  | objectEnds {ms : Dict Str Json} {st : List Frame} :
      Steps ⟨.member ms, st⟩ '}' (give (.obj ms) st)
  | inString {s s' : StrScan} {st : List Frame} {c : Char} :
      Steps ⟨.str s, st⟩ c ⟨.str s', st⟩
  | stringEnds {s : StrScan} {t : Str} {st : List Frame} {c : Char} :
      Steps ⟨.str s, st⟩ c (give (.str t) st)
  | inKey {ms : Dict Str Json} {s s' : StrScan} {st : List Frame} {c : Char} :
      Steps ⟨.keyStr ms s, st⟩ c ⟨.keyStr ms s', st⟩
  | keyEnds {ms : Dict Str Json} {s : StrScan} {k : Str} {st : List Frame} {c : Char} :
      Steps ⟨.keyStr ms s, st⟩ c ⟨.colon ms k, st⟩
  | inNumber {pos pos' : NumPos} {text text' : Str} {st : List Frame} {c : Char} :
      Steps ⟨.num pos text, st⟩ c ⟨.num pos' text', st⟩
  | negInfinity {pos : NumPos} {text : Str} {st : List Frame} {c d : Char} {rest : Str} {v : Json}
      (hv : v.IsAtom) (hbrace : '{' ∉ d :: rest) :
      Steps ⟨.num pos text, st⟩ c ⟨.word d rest v, st⟩
  | numberEnds {pos : NumPos} {text : Str} {st : List Frame} {c : Char} {v : Json} {q : Scan}
      (hv : v.IsAtom) (hnext : Steps (give v st) c q) : Steps ⟨.num pos text, st⟩ c q
  | inWord {d d' : Char} {rest : Str} {v : Json} {st : List Frame} :
      Steps ⟨.word d (d' :: rest) v, st⟩ d ⟨.word d' rest v, st⟩
  | wordEnds {d : Char} {v : Json} {st : List Frame} : Steps ⟨.word d [] v, st⟩ d (give v st)

variable {q q' : Scan} {c : Char}

theorem numValue_isAtom {pos : NumPos} {text : Str} {v : Json} (h : numValue pos text = some v) :
    v.IsAtom := by
  unfold numValue at h
  split at h
  · cases h; trivial
  split at h
  · obtain ⟨f, -, rfl⟩ := Option.map_eq_some_iff.mp h; trivial
  · cases h

/-- Only a number changes when it is settled. -/
theorem settle_cases (hs : q.settle = some q') :
    q' = q ∨ ∃ pos text st v, q = ⟨.num pos text, st⟩ ∧ v.IsAtom ∧ q' = give v st := by
  obtain ⟨mode, st⟩ := q
  cases mode with
  | num pos text =>
    obtain ⟨v, hv, rfl⟩ := Option.map_eq_some_iff.mp hs
    exact .inr ⟨pos, text, st, v, rfl, numValue_isAtom hv, rfl⟩
  | _ => cases hs; exact .inl rfl

theorem stepAfter_steps (hs : q.stepAfter c = some q') : Steps q c q' := by
  obtain ⟨mode, st⟩ := q
  unfold stepAfter at hs
  split at hs
  · rename_i hc
    cases hs; exact .blank hc
  · cases mode with
    | elem xs =>
      simp only at hs
      split at hs
      · rename_i hc
        cases hs; subst hc; exact .nextElem
      · split at hs
        · rename_i hc
          cases hs; subst hc; exact .arrayEnds
        · cases hs
    | member ms =>
      simp only at hs
      split at hs
      · rename_i hc
        cases hs; subst hc; exact .nextMember
      · split at hs
        · rename_i hc
          cases hs; subst hc; exact .objectEnds
        · cases hs
    | _ => cases hs

theorem startValue_steps {close : Bool} {st : List Frame} (hs : startValue close st c = some q') :
    Steps ⟨.value close, st⟩ c q' := by
  unfold startValue at hs
  split at hs
  · rename_i hc
    cases hs; subst hc; exact .string
  split at hs
  · rename_i hc
    cases hs; subst hc; exact .object
  split at hs
  · rename_i hc
    cases hs; subst hc; exact .array
  split at hs
  · rename_i hc
    subst hc
    split at hs
    · cases hs; exact .emptyArray
    · cases hs
  split at hs
  · cases hs; exact .word trivial (by simp)
  split at hs
  · cases hs; exact .word trivial (by simp)
  split at hs
  · cases hs; exact .word trivial (by simp)
  split at hs
  · obtain ⟨f, -, rfl⟩ := Option.map_eq_some_iff.mp hs; exact .word trivial (by simp)
  split at hs
  · obtain ⟨f, -, rfl⟩ := Option.map_eq_some_iff.mp hs; exact .word trivial (by simp)
  · obtain ⟨p, -, rfl⟩ := Option.map_eq_some_iff.mp hs; exact .number

theorem step_steps (hs : q.step c = some q') : Steps q c q' := by
  obtain ⟨mode, st⟩ := q
  cases mode with
  | value close =>
    simp only [step] at hs
    split at hs
    · rename_i hc
      cases hs; exact .blank hc
    · exact startValue_steps hs
  | key ms close =>
    simp only [step] at hs
    split at hs
    · rename_i hc
      cases hs; exact .blank hc
    split at hs
    · rename_i hc
      cases hs; subst hc; exact .key
    split at hs
    · rename_i hc
      obtain ⟨rfl, rfl⟩ := hc
      cases hs; exact .emptyObject
    · cases hs
  | colon ms k =>
    simp only [step] at hs
    split at hs
    · rename_i hc
      cases hs; exact .blank hc
    split at hs
    · rename_i hc
      cases hs; subst hc; exact .colon
    · cases hs
  | elem xs => exact stepAfter_steps hs
  | member ms => exact stepAfter_steps hs
  | done v => exact stepAfter_steps hs
  | str s =>
    obtain ⟨r, -, rfl⟩ := Option.map_eq_some_iff.mp hs
    cases r with
    | inl s => exact .inString
    | inr t => exact .stringEnds
  | keyStr ms s =>
    obtain ⟨r, -, rfl⟩ := Option.map_eq_some_iff.mp hs
    cases r with
    | inl s => exact .inKey
    | inr t => exact .keyEnds
  | num pos text =>
    simp only [step] at hs
    split at hs
    · cases hs; exact .inNumber
    split at hs
    · obtain ⟨f, -, rfl⟩ := Option.map_eq_some_iff.mp hs; exact .negInfinity trivial (by simp)
    · obtain ⟨q₁, h₁, h₂⟩ := Option.bind_eq_some_iff.mp hs
      obtain ⟨v, hv, rfl⟩ := Option.map_eq_some_iff.mp h₁
      exact .numberEnds (numValue_isAtom hv) (stepAfter_steps h₂)
  | word d rest v =>
    simp only [step] at hs
    split at hs
    · rename_i hc
      subst hc
      cases rest with
      | nil => cases hs; exact .wordEnds
      | cons d' rest => cases hs; exact .inWord
    · cases hs

/-- **What every step keeps, a scan keeps.** -/
theorem Steps.run {P : Scan → Prop} (hstep : ∀ {q c q'}, Steps q c q' → P q → P q') {t : Str}
    (h : P q) (hs : Scan.run t q = some q') : P q' := by
  induction t generalizing q with
  | nil => cases hs; exact h
  | cons c t ih =>
    rw [run_cons] at hs
    obtain ⟨q₁, h₁, h₂⟩ := Option.bind_eq_some_iff.mp hs
    exact ih (hstep (step_steps h₁) h) h₂

end Scan

end Py
