import Leviathan.Py.JsonSteps

/-!
# Texts that `json.loads` rejects

A line that starts with something else and goes on with an object is no JSON text: the scan after
the first part is in a string, which the first quote of the object closes too early, or at a place
where no object may start, or the object leaves a container open. `loads_append_obj` states it for
every non-empty first part that does not start with whitespace.
-/

namespace Py

namespace Scan

/-- The scan has read something, and no literal under scan waits for a `{`. -/
def Live (q : Scan) : Prop :=
  match q.mode with
  | .value _ => q.stack ≠ []
  | .word d rest _ => '{' ∉ d :: rest
  | _ => True

theorem live_give (v : Json) (st : List Frame) : (give v st).Live := by
  cases st with
  | nil => trivial
  | cons f st => cases f <;> trivial

theorem live_steps {q q' : Scan} {c : Char} (hs : Steps q c q') (h : q.Live) : q'.Live := by
  induction hs with
  | blank => exact h
  | array | colon | nextElem => simp [Live]
  | word _ hbrace | negInfinity _ hbrace => exact hbrace
  | inWord => exact fun hm => h (List.mem_cons_of_mem _ hm)
  | emptyArray | emptyObject | arrayEnds | objectEnds | stringEnds | wordEnds => exact live_give _ _
  | numberEnds _ _ ih => exact ih (live_give _ _)
  | string | object | number | key | nextMember | inString | inKey | keyEnds | inNumber => trivial

/-- After its first character, which is no whitespace, a scan is live. -/
theorem live_first {q : Scan} {c : Char} (hc : isWs c = false) (hs : Steps .init c q) : q.Live := by
  cases hs with
  | blank hws =>
    rw [hc] at hws
    cases hws
  | array => simp [Live]
  | word _ hbrace => exact hbrace
  | string | object | number => trivial

theorem live_run_init {c : Char} {t : Str} {q : Scan} (hc : isWs c = false)
    (hs : run (c :: t) .init = some q) : q.Live := by
  rw [run_cons] at hs
  obtain ⟨q₁, h₁, h₂⟩ := Option.bind_eq_some_iff.mp hs
  exact Steps.run live_steps (live_first hc (step_steps h₁)) h₂

/-- `k` may be the first character after a quote: it is a letter of a key, and nothing that may
follow a string. -/
def KeyLetter (k : Char) : Prop := isWs k = false ∧ k ≠ ':' ∧ k ≠ ',' ∧ k ≠ ']' ∧ k ≠ '}'

theorem stepAfter_letter {k : Char} (hk : KeyLetter k) (q : Scan) : q.stepAfter k = none := by
  obtain ⟨h₁, -, h₂, h₃, h₄⟩ := hk
  unfold stepAfter
  rw [if_neg (by simp [h₁])]
  split
  · rw [if_neg h₂, if_neg h₃]
  · rw [if_neg h₂, if_neg h₄]
  · rfl

theorem stepAfter_brace (q : Scan) : q.stepAfter '{' = none := by
  unfold stepAfter
  rw [if_neg (by decide)]
  split <;> simp

/-- A string under scan that goes on with `{` and a quote ends there. -/
theorem strScan_brace_quote {s s₁ : StrScan} {r : StrScan ⊕ Str}
    (h : s.step '{' = some (.inl s₁)) (hr : s₁.step '"' = some r) : ∃ t, r = .inr t := by
  obtain ⟨acc, high, pos⟩ := s
  cases pos with
  | plain => cases h; cases hr; exact ⟨_, rfl⟩
  | escape => simp [StrScan.step, simpleEscape] at h
  | hex l v => simp [StrScan.step, hexVal] at h

/-- A literal under scan fails at `{`, a quote and a letter when no letter may follow it. -/
theorem run_literal_brace {m : StrScan → Scan} {e : Str → Scan} {k : Char}
    (hm : ∀ s c, (m s).step c = (s.step c).map (Sum.elim m e)) (he : ∀ u, (e u).step k = none)
    (s : StrScan) (t : Str) : run ('{' :: '"' :: k :: t) (m s) = none := by
  rw [run_cons, hm]
  cases hs : s.step '{' with
  | none => rfl
  | some r => cases r with
    | inr u => obtain ⟨acc, high, pos⟩ := s; cases pos <;> simp [StrScan.step, hexVal] at hs
    | inl s₁ =>
      simp only [Option.map_some, Option.bind_some, Sum.elim_inl, run_cons, hm]
      cases hs₁ : s₁.step '"' with
      | none => rfl
      | some r =>
        obtain ⟨u, rfl⟩ := strScan_brace_quote hs hs₁
        simp only [Option.map_some, Option.bind_some, Sum.elim_inr, he, Option.bind_none]

/-- The scan of `{`, a quote and a letter from a live state other than before a value. -/
theorem run_brace_quote {q : Scan} (h : q.Live) (hv : ∀ close, q.mode ≠ .value close) {k : Char}
    (hk : KeyLetter k) (t : Str) : run ('{' :: '"' :: k :: t) q = none := by
  obtain ⟨mode, st⟩ := q
  cases mode with
  | value close => exact absurd rfl (hv close)
  | key ms close => simp [run_cons, step, isWs]
  | colon ms key => simp [run_cons, step, isWs]
  | elem xs => simp [run_cons, step, stepAfter_brace]
  | member ms => simp [run_cons, step, stepAfter_brace]
  | done v => simp [run_cons, step, stepAfter_brace]
  | str s =>
    apply run_literal_brace (m := fun s => ⟨.str s, st⟩) (e := fun u => give (.str u) st)
    · intro s c
      simp only [step]
      congr 1
      funext r
      cases r <;> rfl
    · intro u
      rw [step_give, stepAfter_letter hk]
  | keyStr ms s =>
    apply run_literal_brace (m := fun s => ⟨.keyStr ms s, st⟩) (e := fun u => ⟨.colon ms u, st⟩)
    · intro s c
      simp only [step]
      congr 1
      funext r
      cases r <;> rfl
    · intro u
      simp [step, hk.1, hk.2.1]
  | num pos text =>
    have h₁ : pos.step '{' = none := by cases pos <;> rfl
    simp only [run_cons, step, h₁, Char.reduceEq, and_false, ↓reduceIte]
    cases (⟨.num pos text, st⟩ : Scan).settle with
    | none => rfl
    | some q => simp [stepAfter_brace]
  | word d rest v =>
    have hd : '{' ≠ d := fun e => h (e ▸ List.mem_cons_self)
    simp [run_cons, step, hd]

end Scan

/-- A container that is still open leaves the text unfinished. -/
theorem Scan.Gives.finish_open {v : Json} {st : List Frame} {q : Scan} (h : Scan.Gives v st q)
    (hst : st ≠ []) : q.finish = none := by
  unfold Scan.finish
  rw [h.settle]
  cases st with
  | nil => exact absurd rfl hst
  | cons f st => cases f <;> rfl

/-- **A first part that is not blank spoils an object.** -/
theorem loads_append_obj {c : Char} (p : Str) (hc : Scan.isWs c = false) {v : Json} (hw : v.Wf)
    {k : Char} {t : Str} (hk : Scan.KeyLetter k) (ht : dumps v = '{' :: '"' :: k :: t) :
    loads (c :: p ++ dumps v) = none := by
  unfold loads
  rw [Scan.run_append]
  cases hp : Scan.run (c :: p) .init with
  | none => rfl
  | some q =>
    have hl := Scan.live_run_init hc hp
    obtain ⟨mode, st⟩ := q
    by_cases hv : ∃ close, mode = .value close
    · -- Before a value: the object is read whole, inside an open container.
      obtain ⟨close, rfl⟩ := hv
      obtain ⟨q', hq, hg⟩ := Scan.run_dumps v hw close st
      simp [hq, hg.finish_open hl]
    · rw [ht, Option.bind_some, Scan.run_brace_quote hl (fun close h => hv ⟨close, h⟩) hk]
      rfl

end Py
