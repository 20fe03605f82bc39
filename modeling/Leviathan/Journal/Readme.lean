import Leviathan.Journal.Meta

/-!
# The runtime of the README

The README of the repository prints the model class `TradeTick`. `Runtime.readme` is a runtime with
its constructor, with the case mapping of ASCII, and without the conversions between numbers that a
file written by the journal never needs.
-/

namespace Leviathan

open Py

/-- `price <= 0.0`, by the literal of the price: it is so for zero and for every literal with a
minus. -/
def notPositive (price : Py.Float) : Bool :=
  price.text ≠ nanText &&
    (price.text.head? = some '-' ||
      (price.text.takeWhile (· ≠ 'e')).all fun c => c = '0' || c = '.')

/-- `TradeTick.__post_init__`, with its checks in their order and the texts of their errors. -/
def readmePostInit (f : TickFields) : Except PyError Unit :=
  if f.ts ≤ 0 then .error (.valueError "ts must be positive".toList)
  else if notPositive f.price then .error (.valueError "price must be positive".toList)
  else if f.side ≠ ['b', 'u', 'y'] ∧ f.side ≠ ['s', 'e', 'l', 'l'] then
    .error (.valueError "side must be 'buy' or 'sell'".toList)
  else .ok ()

/-- The upper case of an ASCII letter; any other character stays. -/
def asciiUpper (c : Char) : Char :=
  if 97 ≤ c.toNat ∧ c.toNat ≤ 122 then Char.ofNat (c.toNat - 32) else c

theorem asciiUpper_cases (c : Char) :
    (97 ≤ c.toNat ∧ c.toNat ≤ 122 ∧ (asciiUpper c).toNat = c.toNat - 32) ∨
      (¬(97 ≤ c.toNat ∧ c.toNat ≤ 122) ∧ asciiUpper c = c) := by
  unfold asciiUpper
  split
  · rename_i h
    have hv : (c.toNat - 32).isValidChar := .inl (by omega)
    refine .inl ⟨h.1, h.2, ?_⟩
    rw [Char.ofNat, dif_pos hv]
    rfl
  · rename_i h
    exact .inr ⟨h, rfl⟩

theorem isSpace_iff {c : Char} : isSpace c = true ↔
    (9 ≤ c.toNat ∧ c.toNat ≤ 13) ∨ (28 ≤ c.toNat ∧ c.toNat ≤ 32) ∨ c.toNat = 0x85 ∨
      c.toNat = 0xA0 ∨ c.toNat = 0x1680 ∨ (0x2000 ≤ c.toNat ∧ c.toNat ≤ 0x200A) ∨
      c.toNat = 0x2028 ∨ c.toNat = 0x2029 ∨ c.toNat = 0x202F ∨ c.toNat = 0x205F ∨
      c.toNat = 0x3000 := by
  simp [isSpace]

def Runtime.readme : Runtime where
  postInit := readmePostInit
  upper c := [asciiUpper c]
  intOfStr s := .error (.valueError s)
  intOfFloat f := .error (.valueError f.text)
  floatOfInt i := .error (.overflowError (intText i))
  floatOfStr s := .error (.valueError s)
  reprOf x := dumps x
  decodeErrorText _ := "Expecting value".toList
  unicodeErrorText _ := "invalid start byte".toList
  tell handle :=
    if handle.file[handle.position - 1]? = some CR ∧ handle.file[handle.position]? ≠ some LF then
      max (handle.file.length + 1) (handle.position + 0x10000000000000000)
    else handle.position
  upper_space c h := by
    have hs := isSpace_iff.mp h
    rcases asciiUpper_cases c with h | ⟨-, h⟩
    · omega
    · rw [h]
  upper_letter c h := by
    refine ⟨by simp, fun d hd => ?_⟩
    rw [List.mem_singleton.mp hd]
    rcases asciiUpper_cases c with hl | ⟨-, hl⟩
    · rw [← Bool.not_eq_true, isSpace_iff]; omega
    · rw [hl]; exact h
  upper_upper c := by
    rcases asciiUpper_cases c with h | ⟨h, he⟩
    · rcases asciiUpper_cases (asciiUpper c) with h' | ⟨-, h'⟩
      · omega
      · simp [h']
    · simp [he]
  tell_offset handle h := if_neg fun hcr => h.1 hcr.1
  tell_cases handle := by
    split
    · exact .inr (by omega)
    · exact .inl rfl

/-- A deployment with that runtime. -/
def Config.readme (dedupWindow seqIndexInterval : Nat) (h₁ : 0 < dedupWindow)
    (h₂ : 0 < seqIndexInterval) : Config :=
  { Runtime.readme with
    dedupWindow, seqIndexInterval
    dedupWindow_pos := h₁
    seqIndexInterval_pos := h₂ }

/-- The deployment with `DEFAULT_DEDUP_WINDOW` and `SEQ_INDEX_INTERVAL`, as
`TickJournal(checkpoint_dir)` has it. -/
def Config.default : Config := .readme 10000 500 (by decide) (by decide)

/-- A tick of the symbol `instId` with the given trade id. -/
def readmeTick (instId tradeId : Str) : TradeTick Runtime.readme where
  fields := ⟨instId, 1, ⟨['1', '.', '0'], by decide⟩, ⟨['2', '.', '0'], by decide⟩,
    ['b', 'u', 'y'], tradeId⟩
  valid := rfl

end Leviathan
