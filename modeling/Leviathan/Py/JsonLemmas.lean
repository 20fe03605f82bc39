import Leviathan.Py.Json
import Mathlib.Tactic.IntervalCases

/-!
# `json.loads` inverts `json.dumps`

* `Scan.run_append`: the scan of `a ++ b` is the scan of `b` from the state after `a`.
* `StrScan.run_escape`: the scan of the escape of a string adds the string.
* `scanNum_intText`, `intOfText_intText`: an `int` literal is a number of the grammar and reads
  back.
* `run_dumps`: the scan of `dumps v` where a value is expected gives `v` to the innermost open
  container (`Gives`: a number is still open, the next character closes it).
* `loads_dumps`: the round trip, for a value whose objects repeat no key (`Json.Wf`).
-/

namespace Py

namespace Scan

@[simp] theorem run_nil (q : Scan) : run [] q = some q := rfl

theorem run_cons (c : Char) (cs : Str) (q : Scan) : run (c :: cs) q = (q.step c).bind (run cs) := by
  rw [run]; cases q.step c <;> rfl

theorem run_append (a b : Str) (q : Scan) : run (a ++ b) q = (run a q).bind (run b) := by
  induction a generalizing q with
  | nil => rfl
  | cons c a ih =>
    rw [List.cons_append, run_cons, run_cons]
    cases q.step c with
    | none => rfl
    | some q' => exact ih q'

end Scan

/-! ## Strings -/

theorem hexVal_hexDigit {n : Nat} (h : n < 16) : hexVal (hexDigit n) = some n := by
  interval_cases n <;> rfl

namespace StrScan

/-- The scan of characters that stay inside the literal. -/
def run : Str → StrScan → Option StrScan
  | [], s => some s
  | c :: cs, s => match s.step c with
    | some (.inl s) => run cs s
    | _ => none

theorem run_append {a b : Str} {s s' : StrScan} (h : run a s = some s') :
    run (a ++ b) s = run b s' := by
  induction a generalizing s with
  | nil => cases h; rfl
  | cons c a ih =>
    rw [run] at h
    rw [List.cons_append, run]
    cases hs : s.step c with
    | none => simp [hs] at h
    | some r => cases r with
      | inl s₁ => simp only [hs] at h ⊢; exact ih h
      | inr t => simp [hs] at h

theorem run_unitEscape (acc : Str) (h : Option Nat) {u : Nat} (hu : u < 65536) :
    run (unitEscape u) ⟨acc, h, .plain⟩ = some (pushUnit ⟨acc, h, .plain⟩ u) := by
  have h₁ := hexVal_hexDigit (n := u / 4096 % 16) (by omega)
  have h₂ := hexVal_hexDigit (n := u / 256 % 16) (by omega)
  have h₃ := hexVal_hexDigit (n := u / 16 % 16) (by omega)
  have h₄ := hexVal_hexDigit (n := u % 16) (by omega)
  have hsum : ((u / 4096 % 16 * 16 + u / 256 % 16) * 16 + u / 16 % 16) * 16 + u % 16 = u := by omega
  simp [unitEscape, run, step, h₁, h₂, h₃, h₄, hsum, pushUnit, push, flush]

theorem chr_toNat (c : Char) : chr c.toNat = c := by
  have hv : c.toNat.isValidChar := c.valid
  simp [chr, hv, Char.ofNat_toNat]

/-- A character is no surrogate. -/
theorem toNat_cases (c : Char) : c.toNat < 55296 ∨ (57343 < c.toNat ∧ c.toNat < 1114112) := c.valid

theorem run_escapeChar (acc : Str) (c : Char) :
    run (escapeChar c) ⟨acc, none, .plain⟩ = some ⟨acc ++ [c], none, .plain⟩ := by
  unfold escapeChar
  split
  · subst_vars; rfl
  split
  · subst_vars; rfl
  split
  · subst_vars; rfl
  split
  · subst_vars; rfl
  split
  · subst_vars; rfl
  split
  · rename_i h
    obtain rfl : c = Char.ofNat 12 := by rw [← Char.ofNat_toNat c, h]
    rfl
  split
  · rename_i h
    obtain rfl : c = Char.ofNat 8 := by rw [← Char.ofNat_toNat c, h]
    rfl
  split
  · rename_i h₁ h₂ _ _ _ _ _ h
    have hlt : ¬ c.toNat < 32 := by omega
    simp [run, step, h₁, h₂, hlt, push, flush]
  have hc := toNat_cases c
  split
  · rename_i hlt
    rw [run_unitEscape acc none hlt]
    have hn : isHighSurrogate c.toNat = false := by
      simp only [isHighSurrogate, decide_eq_false_iff_not]; omega
    simp [pushUnit, hn, push, flush, chr_toNat]
  · -- A pair: the high surrogate waits for the low one.
    rename_i hge
    have hhi : isHighSurrogate (55296 + (c.toNat - 65536) / 1024) = true := by
      simp only [isHighSurrogate, decide_eq_true_eq]; omega
    have hlo : isLowSurrogate (56320 + (c.toNat - 65536) % 1024) = true := by
      simp only [isLowSurrogate, decide_eq_true_eq]; omega
    rw [run_append (run_unitEscape acc none (by omega))]
    have hp : pushUnit ⟨acc, none, .plain⟩ (55296 + (c.toNat - 65536) / 1024) =
        ⟨acc, some (55296 + (c.toNat - 65536) / 1024), .plain⟩ := by simp [pushUnit, hhi]
    rw [hp, run_unitEscape _ _ (by omega)]
    have hsum : 65536 + (55296 + (c.toNat - 65536) / 1024 - 55296) * 1024 +
        (56320 + (c.toNat - 65536) % 1024 - 56320) = c.toNat := by omega
    simp only [pushUnit, hlo, ↓reduceIte, hsum, chr_toNat]

theorem run_escape (acc s : Str) :
    run (s.flatMap escapeChar) ⟨acc, none, .plain⟩ = some ⟨acc ++ s, none, .plain⟩ := by
  induction s generalizing acc with
  | nil => simp [run]
  | cons c s ih =>
    rw [List.flatMap_cons, run_append (run_escapeChar acc c), ih]
    simp

end StrScan

namespace Scan

/-- The characters that stay inside a literal, in a scan that goes on with the literal. -/
theorem run_literal {m : StrScan → Scan}
    (hm : ∀ {s s' : StrScan} {c : Char}, s.step c = some (.inl s') → (m s).step c = some (m s'))
    {t : Str} {s s' : StrScan} (h : s.run t = some s') : run t (m s) = some (m s') := by
  induction t generalizing s with
  | nil => cases h; rfl
  | cons c t ih =>
    rw [StrScan.run] at h
    cases hs : s.step c with
    | none => simp [hs] at h
    | some r => cases r with
      | inl s₁ =>
        simp only [hs] at h
        rw [run_cons, hm hs]
        exact ih h
      | inr t => simp [hs] at h

theorem run_str {t : Str} {s s' : StrScan} (st : List Frame) (h : s.run t = some s') :
    run t ⟨.str s, st⟩ = some ⟨.str s', st⟩ :=
  run_literal (m := fun s => ⟨.str s, st⟩) (fun hs => by simp only [step, hs, Option.map_some]) h

theorem run_keyStr {t : Str} {s s' : StrScan} (ms : Dict Str Json) (st : List Frame)
    (h : s.run t = some s') : run t ⟨.keyStr ms s, st⟩ = some ⟨.keyStr ms s', st⟩ :=
  run_literal (m := fun s => ⟨.keyStr ms s, st⟩)
    (fun hs => by simp only [step, hs, Option.map_some]) h

/-- A string literal where a value is expected. -/
theorem run_dumpsStr (s : Str) (close : Bool) (st : List Frame) :
    run (dumpsStr s) ⟨.value close, st⟩ = some (give (.str s) st) := by
  have hr := run_str st (StrScan.run_escape [] s)
  simp only [List.nil_append] at hr
  simp [dumpsStr, run_cons, step, isWs, startValue, run_append, StrScan.empty, hr, StrScan.step,
    StrScan.flush]

/-- A string literal where a key is expected. -/
theorem run_dumpsStr_key (s : Str) (ms : Dict Str Json) (close : Bool) (st : List Frame) :
    run (dumpsStr s) ⟨.key ms close, st⟩ = some ⟨.colon ms s, st⟩ := by
  have hr := run_keyStr ms st (StrScan.run_escape [] s)
  simp only [List.nil_append] at hr
  simp [dumpsStr, run_cons, step, isWs, run_append, StrScan.empty, hr, StrScan.step,
    StrScan.flush]

end Scan

/-! ## Numbers -/

namespace NumPos

theorem run_digits {ds : Str} (hd : ∀ c ∈ ds, c.isDigit = true) : run .int ds = some .int := by
  induction ds with
  | nil => rfl
  | cons c ds ih =>
    have hc : NumPos.int.step c = some .int := by simp [step, hd c (by simp)]
    rw [run, hc]
    exact ih fun x hx => hd x (by simp [hx])

/-- The first character of a number is no other token of the grammar. -/
theorem start_ne {c d : Char} {p : NumPos} (h : start c = some p) (hd : start d = none) : c ≠ d := by
  rintro rfl
  rw [h] at hd
  cases hd

end NumPos

theorem digitChar_pos {n : Nat} (h : n < 10) (h0 : 0 < n) :
    (Nat.digitChar n).isDigit = true ∧ Nat.digitChar n ≠ '0' := by
  interval_cases n <;> decide

/-- A positive number has no leading zero. -/
theorem toDigits_pos {n : Nat} (h : 0 < n) :
    ∃ c ds, Nat.toDigits 10 n = c :: ds ∧ c.isDigit = true ∧ c ≠ '0' ∧
      ∀ x ∈ ds, x.isDigit = true := by
  induction n using Nat.strong_induction_on with
  | _ n ih =>
    rw [Nat.toDigits_eq_if (by decide)]
    split
    · rename_i hn
      obtain ⟨h₁, h₂⟩ := digitChar_pos hn h
      exact ⟨_, [], rfl, h₁, h₂, by simp⟩
    · rename_i hn
      obtain ⟨c, ds, hds, hc, hc0, hall⟩ := ih (n / 10) (by omega) (by omega)
      refine ⟨c, ds ++ [Nat.digitChar (n % 10)], by rw [hds]; rfl, hc, hc0, fun x hx => ?_⟩
      rcases List.mem_append.mp hx with hx | hx
      · exact hall x hx
      · rw [List.mem_singleton.mp hx]
        exact Nat.isDigit_of_mem_toDigits (b := 10) (n := n % 10) (by decide) (by decide)
          (by rw [Nat.toDigits_of_lt_base (by omega)]; simp)

/-- The digits of a number, after its sign or at its start. -/
theorem scan_toDigits (n : Nat) :
    ∃ p, p.isInt = true ∧ scanNum (Nat.toDigits 10 n) = some p ∧
      NumPos.run .minus (Nat.toDigits 10 n) = some p := by
  rcases Nat.eq_zero_or_pos n with rfl | h
  · exact ⟨.zero, rfl, rfl, rfl⟩
  · obtain ⟨c, ds, hds, hc, hc0, hall⟩ := toDigits_pos h
    have hm : c ≠ '-' := by rintro rfl; simp at hc
    have hr := NumPos.run_digits hall
    refine ⟨.int, rfl, ?_, ?_⟩
    · rw [hds]; simp [scanNum, NumPos.start, hm, hc0, hc, hr]
    · rw [hds]; simp [NumPos.run, NumPos.step, hc0, hc, hr]

/-- An `int` literal is a number of the grammar. -/
theorem scanNum_intText (i : Int) : ∃ p, p.isInt = true ∧ scanNum (intText i) = some p := by
  obtain ⟨p, hp, h₁, h₂⟩ := scan_toDigits i.natAbs
  refine ⟨p, hp, ?_⟩
  unfold intText
  split
  · rw [scanNum]; exact h₂
  · exact h₁

theorem intOfText_intText (i : Int) : intOfText (intText i) = i := by
  unfold intText
  split
  · rename_i h
    rw [intOfText, Nat.ofDigitChars_ten_toDigits]
    omega
  · rename_i h
    have hd : ∀ c ∈ Nat.toDigits 10 i.natAbs, c.isDigit = true := fun c hc =>
      Nat.isDigit_of_mem_toDigits (by decide) (by decide) hc
    rw [intOfText, Nat.ofDigitChars_ten_toDigits]
    · omega
    · intro ds hds
      rw [hds] at hd
      have := hd '-' (by simp)
      simp at this

theorem Float.ofText?_text (f : Float) : Float.ofText? f.text = some f := by
  simp [Float.ofText?, f.wf]

namespace Scan

theorem run_num {p p' : NumPos} {cs : Str} (t : Str) (st : List Frame) (h : p.run cs = some p') :
    run cs ⟨.num p t, st⟩ = some ⟨.num p' (t ++ cs), st⟩ := by
  induction cs generalizing p t with
  | nil => cases h; simp
  | cons c cs ih =>
    rw [NumPos.run] at h
    cases hs : p.step c with
    | none => simp [hs] at h
    | some p₁ =>
      simp only [hs] at h
      simp [run_cons, step, hs, ih _ h]

/-- A number where a value is expected. -/
theorem run_number {t : Str} {p : NumPos} (close : Bool) (st : List Frame)
    (h : scanNum t = some p) : run t ⟨.value close, st⟩ = some ⟨.num p t, st⟩ := by
  cases t with
  | nil => cases h
  | cons c cs =>
    obtain ⟨p₀, h₀, hr⟩ := Option.bind_eq_some_iff.mp h
    have hne := fun d hd => NumPos.start_ne (d := d) h₀ hd
    have hws : isWs c = false := by
      simp [isWs, hne ' ' rfl, hne '\t' rfl, hne '\n' rfl, hne '\r' rfl]
    have hstart : startValue close st c = some ⟨.num p₀ [c], st⟩ := by
      simp [startValue, hne '"' rfl, hne '{' rfl, hne '[' rfl, hne ']' rfl, hne 'n' rfl,
        hne 't' rfl, hne 'f' rfl, hne 'N' rfl, hne 'I' rfl, h₀]
    rw [run_cons]
    simp only [step, hws, hstart, Bool.false_eq_true, ↓reduceIte, Option.bind_some]
    rw [run_num [c] st hr]
    rfl

/-- The state `q` has read a value `v` for the open containers `st`, up to a number that the next
character closes. -/
inductive Gives (v : Json) (st : List Frame) : Scan → Prop
  | give : Gives v st (give v st)
  | num {pos : NumPos} {text : Str} : numValue pos text = some v → Gives v st ⟨.num pos text, st⟩

@[simp] theorem settle_give (v : Json) (st : List Frame) :
    (Scan.give v st).settle = some (Scan.give v st) := by
  cases st with
  | nil => rfl
  | cons f st => cases f <;> rfl

theorem step_give (v : Json) (st : List Frame) (c : Char) :
    (Scan.give v st).step c = (Scan.give v st).stepAfter c := by
  cases st with
  | nil => rfl
  | cons f st => cases f <;> rfl

theorem Gives.settle {v : Json} {st : List Frame} {q : Scan} (h : Gives v st q) :
    q.settle = some (Scan.give v st) := by
  cases h with
  | give => exact settle_give v st
  | num h => simp [Scan.settle, h]

/-- No number goes on with a delimiter. -/
theorem numStep_delim {pos : NumPos} {text : Str} {v : Json} (h : numValue pos text = some v)
    {c : Char} (hc : c = ',' ∨ c = ']' ∨ c = '}') : pos.step c = none ∧ pos ≠ .minus := by
  constructor
  · rcases hc with rfl | rfl | rfl <;> cases pos <;> rfl
  · rintro rfl; simp [numValue, NumPos.isInt, NumPos.isFloat] at h

/-- A delimiter closes the value. -/
theorem Gives.step {v : Json} {st : List Frame} {q : Scan} (h : Gives v st q) {c : Char}
    (hc : c = ',' ∨ c = ']' ∨ c = '}') : q.step c = (Scan.give v st).stepAfter c := by
  cases h with
  | give => exact step_give v st c
  | num h =>
    obtain ⟨h₁, h₂⟩ := numStep_delim h hc
    simp [Scan.step, h₁, h₂, Scan.settle, h]

theorem run_intText (i : Int) (close : Bool) (st : List Frame) :
    ∃ q, run (intText i) ⟨.value close, st⟩ = some q ∧ Gives (.int i) st q := by
  obtain ⟨p, hp, hs⟩ := scanNum_intText i
  refine ⟨_, run_number close st hs, .num ?_⟩
  simp [numValue, hp, intOfText_intText]

theorem run_floatText (f : Float) (close : Bool) (st : List Frame) :
    ∃ q, run f.text ⟨.value close, st⟩ = some q ∧ Gives (.float f) st q := by
  have ht := f.ofText?_text
  have hw := f.wf
  simp only [isFloatText, Bool.or_eq_true, decide_eq_true_eq] at hw
  rcases hw with ((hw | hw) | hw) | hw
  · refine ⟨_, ?_, .give⟩
    rw [hw] at ht ⊢
    simp [nanText, run_cons, Scan.step, isWs, startValue] at ht ⊢
    simp [ht]
  · refine ⟨_, ?_, .give⟩
    rw [hw] at ht ⊢
    simp [infText, run_cons, Scan.step, isWs, startValue] at ht ⊢
    simp [ht]
  · refine ⟨_, ?_, .give⟩
    rw [hw] at ht ⊢
    simp [negInfText, infText, run_cons, Scan.step, isWs, startValue, NumPos.start, NumPos.step] at ht ⊢
    simp [ht]
  · cases hs : scanNum f.text with
    | none => simp [hs] at hw
    | some p =>
      simp only [hs, Option.any_some] at hw
      have hi : p.isInt = false := by cases p <;> simp_all [NumPos.isFloat, NumPos.isInt]
      refine ⟨_, run_number close st hs, .num ?_⟩
      simp [numValue, hi, hw, ht]

end Scan

/-! ## Whole values -/

mutual

/-- No object in the value repeats a key, as in every value that `loads` builds. -/
def Json.Wf : Json → Prop
  | .arr xs => Json.WfElems xs
  | .obj ms => Dict.KeysNodup ms ∧ Json.WfMembers ms
  | _ => True

def Json.WfElems : List Json → Prop
  | [] => True
  | x :: xs => Json.Wf x ∧ Json.WfElems xs

def Json.WfMembers : List (Str × Json) → Prop
  | [] => True
  | (_, v) :: ms => Json.Wf v ∧ Json.WfMembers ms

end

namespace Scan

mutual

/-- **The scan of `dumps v`.** -/
theorem run_dumps : ∀ (v : Json), v.Wf → ∀ (close : Bool) (st : List Frame),
    ∃ q, run (dumps v) ⟨.value close, st⟩ = some q ∧ Gives v st q
  | .null, _, close, st => ⟨_, by simp [dumps, run_cons, step, isWs, startValue], .give⟩
  | .bool true, _, close, st => ⟨_, by simp [dumps, run_cons, step, isWs, startValue], .give⟩
  | .bool false, _, close, st => ⟨_, by simp [dumps, run_cons, step, isWs, startValue], .give⟩
  | .int i, _, close, st => run_intText i close st
  | .float f, _, close, st => run_floatText f close st
  | .str s, _, close, st => ⟨_, run_dumpsStr s close st, .give⟩
  | .arr xs, h, close, st => by
    refine ⟨_, ?_, .give⟩
    rw [dumps, run_cons]
    simpa [step, isWs, startValue] using run_dumpsElems xs h [] true st (fun _ => ⟨rfl, rfl⟩)
  | .obj ms, h, close, st => by
    refine ⟨_, ?_, .give⟩
    rw [dumps, run_cons]
    simpa [step, isWs, startValue] using
      run_dumpsMembers ms h.2 [] true st (fun _ => ⟨rfl, rfl⟩) (by simpa using h.1)

/-- The scan of the elements of an array after the elements `acc`. -/
theorem run_dumpsElems : ∀ (xs : List Json), Json.WfElems xs → ∀ (acc : List Json) (close : Bool)
    (st : List Frame), (xs = [] → acc = [] ∧ close = true) →
    run (dumpsElems xs) ⟨.value close, .arr acc :: st⟩ = some (give (.arr (acc ++ xs)) st)
  | [], _, acc, close, st, h0 => by
    obtain ⟨rfl, rfl⟩ := h0 rfl
    simp [dumpsElems, run_cons, step, isWs, startValue]
  | [x], h, acc, close, st, _ => by
    obtain ⟨q, hq, hg⟩ := run_dumps x h.1 close (.arr acc :: st)
    rw [dumpsElems, run_append, hq, Option.bind_some, run_cons, hg.step (by simp)]
    simp [give, stepAfter, isWs]
  | x :: y :: xs, h, acc, close, st, _ => by
    obtain ⟨q, hq, hg⟩ := run_dumps x h.1 close (.arr acc :: st)
    rw [dumpsElems, run_append, hq, Option.bind_some, run_cons, hg.step (by simp)]
    · have hrest := run_dumpsElems (y :: xs) h.2 (acc ++ [x]) false st (by simp)
      simpa [give, stepAfter, isWs] using hrest
    · simp

/-- The scan of the members of an object after the members `acc`. -/
theorem run_dumpsMembers : ∀ (ms : List (Str × Json)), Json.WfMembers ms →
    ∀ (acc : Dict Str Json) (close : Bool) (st : List Frame), (ms = [] → acc = [] ∧ close = true) →
    Dict.KeysNodup (acc ++ ms) →
    run (dumpsMembers ms) ⟨.key acc close, st⟩ = some (give (.obj (acc ++ ms)) st)
  | [], _, acc, close, st, h0, _ => by
    obtain ⟨rfl, rfl⟩ := h0 rfl
    simp [dumpsMembers, run_cons, step, isWs]
  | [(k, v)], h, acc, close, st, _, hn => by
    obtain ⟨q, hq, hg⟩ := run_dumps v h.1 false (.obj acc k :: st)
    rw [dumpsMembers, List.append_assoc, run_append, run_dumpsStr_key, Option.bind_some,
      List.cons_append, run_cons]
    have hcolon : Scan.step ⟨.colon acc k, st⟩ ':' = some ⟨.value false, .obj acc k :: st⟩ := rfl
    rw [hcolon, Option.bind_some, run_append, hq, Option.bind_some, run_cons, hg.step (by simp)]
    simp [give, stepAfter, isWs, Dict.set_fresh hn]
  | (k, v) :: m :: ms, h, acc, close, st, _, hn => by
    obtain ⟨q, hq, hg⟩ := run_dumps v h.1 false (.obj acc k :: st)
    rw [dumpsMembers, List.append_assoc, run_append, run_dumpsStr_key, Option.bind_some,
      List.cons_append, run_cons]
    · have hcolon : Scan.step ⟨.colon acc k, st⟩ ':' = some ⟨.value false, .obj acc k :: st⟩ := rfl
      rw [hcolon, Option.bind_some, run_append, hq, Option.bind_some, run_cons, hg.step (by simp)]
      have hrest := run_dumpsMembers (m :: ms) h.2 (acc ++ [(k, v)]) false st (by simp)
        (by simpa using hn)
      simpa [give, stepAfter, isWs, Dict.set_fresh hn] using hrest
    · simp

end

end Scan

/-- **The round trip.** -/
theorem loads_dumps {v : Json} (h : v.Wf) : loads (dumps v) = some v := by
  obtain ⟨q, hq, hg⟩ := Scan.run_dumps v h false []
  simp [loads, Scan.init, hq, Scan.finish, hg.settle, Scan.give]

end Py
