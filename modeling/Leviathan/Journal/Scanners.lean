import Leviathan.Journal.PollOrder
import Leviathan.Py.JsonWf
import Leviathan.Py.LineStarts

/-!
# The scanners on any content

Three scanners read the lines of a journal file: the loop of a poll, the walk of the index and the
first pass of a compaction. Here are the texts and the records of a file of any bytes
(`completeTexts`, `recordsOf`, `invalidTexts`), and what a scanner does with a line when no
conversion in it overflows.

* `parse_ok_iff`: the parser raises nothing but an `OverflowError`.
* `readLines_served`: the loop of a poll returns the records and quarantines the invalid lines.
* `resolve_served`: the walk passes the lines without a wanted record.
-/

namespace Leviathan

open Py

/-! ## What a text holds -/

/-- The object that a text is; any other text and any other JSON value is invalid for every scanner.
-/
def objectOf (text : Str) : Option (Dict Str Json) :=
  match loads text with
  | some (.obj record) => some record
  | _ => none

/-- `int(record["seq"])`, which may raise a `KeyError`, a `TypeError`, a `ValueError` or an
`OverflowError`. -/
def seqOf (rt : Runtime) (record : Dict Str Json) : Except PyError Int := do
  pyInt rt (← getItem record seqKey)

/-- The sequence number and the tick of a text, if it is valid. -/
def parsed (rt : Runtime) (text : Str) : Option (Int × TradeTick rt) :=
  (objectOf text).bind fun record => (recordFields rt record).toOption

/-- The record of a text. One with a negative number is valid, but no reader waits for it. -/
def recordOf (rt : Runtime) (text : Str) : Option (Rec rt) :=
  (parsed rt text).bind fun (seq, tick) => if seq < 0 then none else some (seq.toNat, tick)

/-- The text is neither blank nor a record, so the reader quarantines it. -/
def isInvalid (rt : Runtime) (text : Str) : Bool := text ≠ [] && (parsed rt text).isNone

/-- The stripped text of a complete line, which is what the parser works on. -/
def textOf (line : TextLine) : Option Str :=
  if endsWithNewline line.text then some (strip line.text) else none

/-- The stripped texts of the complete lines; a line that is no UTF-8 has none. -/
def completeTexts (bs : Bytes) : List Str :=
  (universalLines bs).filterMap fun raw => (decodeLine raw).bind textOf

/-- The records on the complete lines, in the order of the file. -/
def recordsOf (rt : Runtime) (bs : Bytes) : List (Rec rt) :=
  (completeTexts bs).filterMap (recordOf rt)

/-- The invalid texts of the complete lines. -/
def invalidTexts (rt : Runtime) (bs : Bytes) : List Str := (completeTexts bs).filter (isInvalid rt)

/-- The conversion ends with an `OverflowError`, which none of the scanners catches. -/
def Overflows {α : Type} (result : Except PyError α) : Prop :=
  ∃ text, result = .error (.overflowError text)

theorem textOf_complete {line : TextLine} (h : endsWithNewline line.text = true) :
    textOf line = some (strip line.text) := if_pos h

theorem textOf_open {line : TextLine} (h : endsWithNewline line.text = false) :
    textOf line = none := by simp [textOf, h]

theorem recordOf_none {rt : Runtime} {text : Str} (h : parsed rt text = none) :
    recordOf rt text = none := by simp [recordOf, h]

theorem recordOf_negative {rt : Runtime} {text : Str} {seq : Int} {tick : TradeTick rt}
    (h : parsed rt text = some (seq, tick)) (hneg : seq < 0) : recordOf rt text = none := by
  simp [recordOf, h, hneg]

theorem recordOf_some {rt : Runtime} {text : Str} {seq : Int} {tick : TradeTick rt}
    (h : parsed rt text = some (seq, tick)) (hseq : 0 ≤ seq) :
    recordOf rt text = some (seq.toNat, tick) := by
  have hneg : ¬seq < 0 := by omega
  simp [recordOf, h, hneg]

theorem completeTexts_eq {bs : Bytes} {lines : List TextLine} (h : textLines bs = some lines) :
    completeTexts bs = lines.filterMap textOf := by
  obtain ⟨hraw, hall⟩ := textLines_some h
  rw [completeTexts, ← hraw, List.filterMap_map]
  apply List.filterMap_congr
  intro line hline
  rw [Function.comp_apply, hall line hline]
  rfl

theorem completeTexts_append {a : Bytes} (h : a = [] ∨ endsWithLF a = true) (b : Bytes) :
    completeTexts (a ++ b) = completeTexts a ++ completeTexts b := by
  rcases h with rfl | h
  · rfl
  · obtain ⟨a, rfl⟩ := exists_of_endsWithLF h
    unfold completeTexts
    rw [List.append_assoc, List.singleton_append, universalLines_append_LF, List.filterMap_append]

theorem recordsOf_append {rt : Runtime} {a : Bytes} (h : a = [] ∨ endsWithLF a = true) (b : Bytes) :
    recordsOf rt (a ++ b) = recordsOf rt a ++ recordsOf rt b := by
  unfold recordsOf
  rw [completeTexts_append h, List.filterMap_append]

/-! ## Exceptions -/

variable {rt : Runtime}

/-- Every other exception of a conversion is in the tuple that the scanners catch. -/
theorem caught_of_not_overflows {α : Type} {e : PyError}
    (h : ¬Overflows (.error e : Except PyError α)) : ∃ reason, e.caught? = some reason := by
  cases e with
  | overflowError text => exact absurd ⟨text, rfl⟩ h
  | _ text => exact ⟨text, rfl⟩

theorem recordFields_eq (record : Dict Str Json) :
    recordFields rt record = (seqOf rt record).bind fun seq =>
      (do tickFromDict rt (← getItem record tickKey)).map (Prod.mk seq) := by
  unfold recordFields seqOf
  cases getItem record seqKey with
  | error e => rfl
  | ok v =>
    cases hseq : pyInt rt v with
    | error e => simp [bind, Except.bind, hseq]
    | ok seq =>
      cases hitem : getItem record tickKey with
      | error e => simp [bind, Except.bind, hseq, Except.map]
      | ok t =>
        cases ht : tickFromDict rt t <;>
          simp [bind, Except.bind, hseq, ht, Except.map, pure, Except.pure]

theorem objectOf_nil : objectOf [] = none := rfl

theorem objectOf_wf {text : Str} {record : Dict Str Json} (h : objectOf text = some record) :
    (Json.obj record).Wf := by
  unfold objectOf at h
  split at h
  · rename_i he
    cases h
    exact loads_wf he
  · cases h

/-! ## The parser -/

/-- No conversion of the record overflows: not of its number, and not of the numbers in its tick. -/
def Coerces (rt : Runtime) (text : Str) : Prop :=
  ∀ record, objectOf text = some record → ¬Overflows (recordFields rt record)

/-- **What the parser makes of a line**: nothing of a blank one, a record of a valid one, and an
error value of any other. -/
theorem parse_cases {line : Str} (h : Coerces rt (strip line)) :
    (strip line = [] ∧ parseJournalRecordLine rt line = .ok none) ∨
      (∃ seq tick, parsed rt (strip line) = some (seq, tick) ∧
        parseJournalRecordLine rt line = .ok (some (.record seq tick))) ∨
      (isInvalid rt (strip line) = true ∧
        ∃ reason, parseJournalRecordLine rt line = .ok (some (.invalid reason (strip line)))) := by
  unfold parseJournalRecordLine
  by_cases hblank : strip line = []
  · exact .inl ⟨hblank, by simp [hblank]⟩
  refine .inr ?_
  simp only [if_neg hblank]
  unfold Coerces at h
  cases hloads : loads (strip line) with
  | none => exact .inr ⟨by simp [isInvalid, parsed, objectOf, hloads, hblank], _, rfl⟩
  | some v =>
    cases v with
    | obj record =>
      have hrecord : objectOf (strip line) = some record := by rw [objectOf, hloads]
      have hno := h record hrecord
      cases hfields : recordFields rt record with
      | ok r =>
        obtain ⟨seq, tick⟩ := r
        have hparsed : parsed rt (strip line) = some (seq, tick) := by
          simp [parsed, hrecord, hfields, Except.toOption]
        exact .inl ⟨seq, tick, hparsed, by simp [hfields]⟩
      | error e =>
        rw [hfields] at hno
        obtain ⟨reason, hreason⟩ := caught_of_not_overflows hno
        refine .inr ⟨?_, reason, by simp [hfields, hreason]⟩
        simp [isInvalid, parsed, hrecord, hfields, hblank, Except.toOption]
    | _ => exact .inr ⟨by simp [isInvalid, parsed, objectOf, hloads, hblank], _, rfl⟩

/-- **The parser raises nothing but an `OverflowError`**, as `int` or `float` of an infinite or a
huge number does. -/
theorem parse_ok_iff {line : Str} :
    (∃ result, parseJournalRecordLine rt line = .ok result) ↔ Coerces rt (strip line) := by
  constructor
  · rintro ⟨result, hresult⟩ record hrecord hover
    have hloads : loads (strip line) = some (.obj record) := by
      unfold objectOf at hrecord
      split at hrecord
      · rename_i he
        rw [he, Option.some.inj hrecord]
      · cases hrecord
    have hne : strip line ≠ [] := fun he => by rw [he] at hloads; cases hloads
    obtain ⟨text, htext⟩ := hover
    simp [parseJournalRecordLine, hne, hloads, htext, PyError.caught?] at hresult
  · intro h
    rcases parse_cases h with ⟨-, he⟩ | ⟨seq, tick, -, he⟩ | ⟨-, reason, he⟩ <;> exact ⟨_, he⟩

/-! ## The walk -/

/-- No conversion of the sequence number overflows. The walk and the compactor convert nothing else.
-/
def SeqCoerces (rt : Runtime) (object : Option (Dict Str Json)) : Prop :=
  ∀ record, object = some record → ¬Overflows (seqOf rt record)

/-- The object on a line of the binary handle, which the walk strips as bytes and then decodes. -/
def rawObject (raw : Bytes) : Option (Dict Str Json) := (decodeUtf8 (stripBytes raw)).bind objectOf

/-- The sequence number on a line of the binary handle. -/
def rawSeq (rt : Runtime) (raw : Bytes) : Option Int :=
  (rawObject raw).bind fun record => (seqOf rt record).toOption

theorem loadRecordSeq_object {text : Str} {record : Dict Str Json}
    (h : objectOf text = some record) :
    loadRecordSeq rt text = (seqOf rt record).map (Prod.mk record) := by
  unfold objectOf at h
  split at h
  · rename_i he
    cases h
    unfold loadRecordSeq seqOf
    simp only [he]
    cases getItem record seqKey with
    | error e => rfl
    | ok v =>
      cases hseq : pyInt rt v <;>
        simp [bind, Except.bind, hseq, Except.map, pure, Except.pure]
  · cases h

/-- What is no object raises an exception that every scanner catches: `JSONDecodeError` of no JSON,
`TypeError` of another value. -/
theorem loadRecordSeq_other {text : Str} (h : objectOf text = none) :
    ∃ e reason, loadRecordSeq rt text = .error e ∧ e.caught? = some reason := by
  unfold loadRecordSeq
  unfold objectOf at h
  cases hloads : loads text with
  | none => exact ⟨_, _, rfl, rfl⟩
  | some v =>
    cases v with
    | obj record => simp [hloads] at h
    | _ => exact ⟨_, _, rfl, rfl⟩

theorem resolveLine_served {raw : Bytes} (h : SeqCoerces rt (rawObject raw)) :
    resolveLine rt raw = .ok (rawSeq rt raw) := by
  unfold SeqCoerces at h
  unfold resolveLine
  simp only [rawSeq, rawObject] at h ⊢
  by_cases hblank : stripBytes raw = []
  · rw [if_pos hblank, hblank]
    rfl
  rw [if_neg hblank]
  cases htext : decodeUtf8 (stripBytes raw) with
  | none => rfl
  | some text =>
    simp only [htext, Option.bind_some] at h ⊢
    cases hrecord : objectOf text with
    | none =>
      obtain ⟨e, reason, he, hcaught⟩ := @loadRecordSeq_other rt _ hrecord
      rw [he]
      cases e <;> first | rfl | cases hcaught
    | some record =>
      rw [loadRecordSeq_object hrecord]
      have hno := h record hrecord
      cases hseq : seqOf rt record with
      | ok seq => simp [hseq, Except.map, Except.toOption]
      | error e =>
        rw [hseq] at hno
        cases e with
        | overflowError text => exact absurd ⟨text, rfl⟩ hno
        | _ text => simp [hseq, Except.map, Except.toOption]

/-- **The walk raises nothing but an `OverflowError`**, as it catches the rest and goes on to the
next line. -/
theorem resolveLine_ok_iff {raw : Bytes} :
    (∃ seq, resolveLine rt raw = .ok seq) ↔ SeqCoerces rt (rawObject raw) := by
  refine ⟨?_, fun h => ⟨_, resolveLine_served h⟩⟩
  rintro ⟨seq, hseq⟩ record hrecord ⟨text, htext⟩
  obtain ⟨t, ht, hobj⟩ := Option.bind_eq_some_iff.mp hrecord
  have hne : stripBytes raw ≠ [] := fun he => by
    rw [he] at ht
    cases ht
    cases hobj
  simp [resolveLine, hne, ht, loadRecordSeq_object hobj, htext, Except.map] at hseq

theorem resolveFrom_served {ls : List Bytes}
    (h : ∀ raw ∈ ls, endsWithLF raw = true → SeqCoerces rt (rawObject raw))
    (startSeq lineStart : Nat) :
    ∃ C D, ls = C ++ D ∧
      resolveFrom rt startSeq lineStart ls = .ok (lineStart + C.flatten.length) ∧
      (∀ raw ∈ C, endsWithLF raw = true ∧ passes startSeq (rawSeq rt raw) = true) ∧
      ∀ raw ∈ D.head?, endsWithLF raw = true →
        ∃ seq, rawSeq rt raw = some seq ∧ startSeq ≤ seq := by
  induction ls generalizing lineStart with
  | nil => exact ⟨[], [], rfl, rfl, by simp, by simp⟩
  | cons raw ls ih =>
    rw [resolveFrom]
    cases hend : endsWithLF raw with
    | false => exact ⟨[], raw :: ls, rfl, by simp, by simp, by simp [hend]⟩
    | true =>
      simp only [Bool.true_eq_false, ↓reduceIte, resolveLine_served (h raw (by simp) hend)]
      obtain ⟨C, D, rfl, hres, hC, hD⟩ :=
        ih (fun x hx => h x (by simp [hx])) (lineStart + raw.length)
      have hpass : passes startSeq (rawSeq rt raw) = true →
          ∃ C' D', raw :: (C ++ D) = C' ++ D' ∧
            resolveFrom rt startSeq (lineStart + raw.length) (C ++ D) =
              .ok (lineStart + C'.flatten.length) ∧
            (∀ raw ∈ C', endsWithLF raw = true ∧ passes startSeq (rawSeq rt raw) = true) ∧
            ∀ raw ∈ D'.head?, endsWithLF raw = true →
              ∃ seq, rawSeq rt raw = some seq ∧ startSeq ≤ seq := fun hp =>
        ⟨raw :: C, D, rfl, by rw [hres]; simp [Nat.add_assoc],
          List.forall_mem_cons.mpr ⟨⟨hend, hp⟩, hC⟩, hD⟩
      cases hseq : rawSeq rt raw with
      | none => exact hpass (by rw [hseq]; rfl)
      | some seq =>
        by_cases hge : (startSeq : Int) ≤ seq
        · exact ⟨[], raw :: (C ++ D), rfl, by simp [hge], by simp, by simp [hseq, hge]⟩
        · simpa [hge] using hpass (by simp [hseq, passes]; omega)

/-! ## Line starts of the walk -/

/-- Every offset inside the file leads to the start of a line of the binary handle, or to the end of
the file. -/
theorem skipToLineStart_any {file : Bytes} {o : Nat} (h : o ≤ file.length) :
    ∃ P Q, file = P ++ Q ∧ P.length = skipToLineStart file o ∧
      (P = [] ∨ endsWithLF P = true ∨ Q = []) := by
  unfold skipToLineStart
  rcases Nat.eq_zero_or_pos o with rfl | h₀
  · exact ⟨[], file, rfl, rfl, .inl rfl⟩
  rw [if_pos h₀]
  split
  · cases hl : byteLines (file.drop o) with
    | nil =>
      have hdrop := byteLines_eq_nil.mp hl
      have hle := List.drop_eq_nil_iff.mp hdrop
      exact ⟨file, [], by simp, by simp; omega, .inr (.inr rfl)⟩
    | cons l ls =>
      obtain ⟨he, -, hend⟩ := byteLines_cons hl
      refine ⟨file.take o ++ l, ls.flatten, ?_, by simp; omega, ?_⟩
      · rw [List.append_assoc, ← he, List.take_append_drop]
      · cases ls with
        | nil => exact .inr (.inr rfl)
        | cons m ms =>
          obtain ⟨a, rfl⟩ := exists_of_endsWithLF (hend (List.cons_ne_nil m ms))
          exact .inr (.inl (by simp [endsWithLF]))
  · rename_i hLF
    refine ⟨file.take o, file.drop o, by simp, by simp; omega, .inr (.inl ?_)⟩
    have hget : file[o - 1]? = some LF := not_not.mp hLF
    rw [endsWithLF, List.getLast?_eq_getElem?, List.length_take, Nat.min_eq_left h,
      List.getElem?_take_of_lt (by omega), hget]
    rfl

/-- At such a place, the offset is kept, so a second alignment changes nothing. -/
theorem skipToLineStart_keeps {P Q : Bytes} (h : P = [] ∨ endsWithLF P = true ∨ Q = []) :
    skipToLineStart (P ++ Q) P.length = P.length := by
  unfold skipToLineStart
  rcases h with rfl | h | rfl
  · rfl
  · obtain ⟨a, rfl⟩ := exists_of_endsWithLF h
    have hget : (a ++ [LF] ++ Q)[(a ++ [LF]).length - 1]? = some LF := by simp
    rw [if_pos (by simp), hget]
    simp
  · split
    · split <;> simp [byteLines]
    · rename_i h0
      omega

/-- Where the walk of the index begins: at the next line start, or at 0 for a hint past the end of
the file. -/
def walkStart (file : Bytes) (hint : Nat) : Nat :=
  skipToLineStart file (if hint > file.length then 0 else hint)

/-- A walk from the end of `P` that passed the lines `C`; `D` are the lines from where it ended. -/
structure WalkEnd (rt : Runtime) (file : Bytes) (startSeq : Nat) (P : Bytes) (C D : List Bytes) :
    Prop where
  file : file = P ++ (C ++ D).flatten
  lines : byteLines (C ++ D).flatten = C ++ D
  start : P = [] ∨ endsWithLF P = true ∨ C ++ D = []
  passed : ∀ raw ∈ C, endsWithLF raw = true ∧ passes startSeq (rawSeq rt raw) = true
  stop : ∀ raw ∈ D.head?, endsWithLF raw = true → ∃ seq, rawSeq rt raw = some seq ∧ startSeq ≤ seq

theorem mem_byteLines {P Q raw : Bytes} (h : P = [] ∨ endsWithLF P = true ∨ Q = [])
    (hraw : raw ∈ byteLines Q) : raw ∈ byteLines (P ++ Q) := by
  rcases h with rfl | h | rfl
  · exact hraw
  · obtain ⟨a, rfl⟩ := exists_of_endsWithLF h
    rw [List.append_assoc, List.singleton_append, byteLines_append_LF]
    exact List.mem_append_right _ hraw
  · cases hraw

/-- **The walk ends at the first line that carries a wanted number**, at an incomplete line, or at
the end of the file. -/
theorem resolve_served {file : Bytes}
    (h : ∀ raw ∈ byteLines file, endsWithLF raw = true → SeqCoerces rt (rawObject raw))
    (startSeq hint : Nat) :
    ∃ P C D, WalkEnd rt file startSeq P C D ∧ P.length = walkStart file hint ∧
      resolve rt (some file) startSeq hint = .ok (P ++ C.flatten).length := by
  obtain ⟨P, Q, hfile, hP, hstart⟩ := @skipToLineStart_any file
    (if hint > file.length then 0 else hint) (by split <;> omega)
  have hdrop : file.drop P.length = Q := by rw [hfile, List.drop_left]
  have hQ : ∀ raw ∈ byteLines Q, endsWithLF raw = true → SeqCoerces rt (rawObject raw) :=
    fun raw hraw => h raw (by rw [hfile]; exact mem_byteLines hstart hraw)
  obtain ⟨C, D, hCD, hres, hC, hD⟩ := resolveFrom_served hQ startSeq P.length
  have hflat : (C ++ D).flatten = Q := by rw [← hCD, byteLines_cuts.flatten]
  refine ⟨P, C, D, ⟨by rw [hflat, hfile], by rw [hflat, hCD], ?_, hC, hD⟩, hP, ?_⟩
  · rw [← hCD, byteLines_eq_nil]
    exact hstart
  · unfold resolve
    simp only
    rw [← hP, hdrop, hres, List.length_append]

namespace WalkEnd

variable {file P : Bytes} {startSeq : Nat} {C D : List Bytes}

theorem endsWithLF_passed (h : WalkEnd rt file startSeq P C D) :
    C.flatten = [] ∨ endsWithLF C.flatten = true := by
  rcases List.eq_nil_or_concat C with rfl | ⟨A, l, rfl⟩
  · exact .inl rfl
  · right
    obtain ⟨a, rfl⟩ := exists_of_endsWithLF (h.passed l (by simp)).1
    simp [endsWithLF]

/-- Where the walk ends, a line of the binary handle begins, or the file ends. -/
theorem cut (h : WalkEnd rt file startSeq P C D) :
    file = (P ++ C.flatten) ++ D.flatten ∧
      (P ++ C.flatten = [] ∨ endsWithLF (P ++ C.flatten) = true ∨ D.flatten = []) := by
  refine ⟨by rw [h.file, List.flatten_append, List.append_assoc], ?_⟩
  rcases h.endsWithLF_passed with hC | hC
  · rw [hC, List.append_nil]
    rcases h.start with hP | hP | hCD
    · exact .inl hP
    · exact .inr (.inl hP)
    · exact .inr (.inr (by rw [(List.append_eq_nil_iff.mp hCD).2]; rfl))
  · obtain ⟨a, ha⟩ := exists_of_endsWithLF hC
    exact .inr (.inl (by simp [ha, endsWithLF]))

theorem mem (h : WalkEnd rt file startSeq P C D) : ∀ raw ∈ C, raw ∈ byteLines file := by
  intro raw hraw
  rw [h.file]
  refine mem_byteLines ?_ (by rw [h.lines]; exact List.mem_append_left D hraw)
  rcases h.start with hP | hP | hCD
  · exact .inl hP
  · exact .inr (.inl hP)
  · exact .inr (.inr (by rw [hCD]; rfl))

/-- The records on the lines that the walk passed are each on one of them, so their numbers are too
small. -/
theorem recordsOf_passed (h : WalkEnd rt file startSeq P C D) {r : Rec rt}
    (hr : r ∈ recordsOf rt C.flatten) : ∃ raw ∈ C, r ∈ recordsOf rt raw := by
  have hC := h.passed
  clear h
  induction C with
  | nil => cases hr
  | cons l C ih =>
    rw [List.flatten_cons, recordsOf_append (.inr (hC l (by simp)).1)] at hr
    rcases List.mem_append.mp hr with hr | hr
    · exact ⟨l, by simp, hr⟩
    · obtain ⟨raw, hraw, hr⟩ := ih hr fun x hx => hC x (by simp [hx])
      exact ⟨raw, by simp [hraw], hr⟩

end WalkEnd

/-! ## The loop of a poll -/

/-- The texts in the quarantine file, oldest first, without their reasons. -/
def Disk.quarantined (disk : Disk) : List Str := disk.quarantineFile.map QuarantineLine.line

namespace Tail

variable {cfg : Config}

/-- What the read of some lines leaves; `tip` is an incomplete last line that was given up. Each
invalid line is in the quarantine once. -/
structure Through (handle : TextHandle) (tail tail' : Tail cfg) (lines : List TextLine) :
    Prop where
  files : SameFiles tail.disk tail'.disk
  quarantined : ∃ tip, tail'.disk.quarantined =
    tail.disk.quarantined ++ ((lines.filterMap textOf).filter (isInvalid cfg.toRuntime) ++ tip)
  told : ∃ A B, lines = A ++ B ∧
    tail'.ToldBy (handle.upTo (handle.position + (A.map TextLine.raw).flatten.length))
  logicalBolOffset : tail'.reader.logicalBolOffset = some tail'.reader.readOffset

/-- What one complete line leaves: the offset that `tell` gives behind it, and its text in the
quarantine if it is invalid. -/
structure Over (handle : TextHandle) (tail tail' : Tail cfg) (line : TextLine) : Prop where
  files : SameFiles tail.disk tail'.disk
  quarantined : tail'.disk.quarantined =
    tail.disk.quarantined ++ ([strip line.text].filter (isInvalid cfg.toRuntime))
  told : tail'.ToldBy (handle.past line)
  logicalBolOffset : tail'.reader.logicalBolOffset = some tail'.reader.readOffset

theorem Over.through {handle : TextHandle} {tail tail₁ tail' : Tail cfg} {line : TextLine}
    {lines : List TextLine} (h : Over handle tail tail₁ line)
    (hline : endsWithNewline line.text = true) (h' : Through (handle.past line) tail₁ tail' lines) :
    Through handle tail tail' (line :: lines) := by
  obtain ⟨tip, htip⟩ := h'.quarantined
  obtain ⟨A, B, rfl, hA⟩ := h'.told
  refine ⟨h.files.trans h'.files, ⟨tip, ?_⟩, ⟨line :: A, B, rfl, ?_⟩, h'.logicalBolOffset⟩
  · rw [htip, h.quarantined, List.filterMap_cons_some (textOf_complete hline), List.append_assoc,
      ← List.append_assoc _ _ tip, ← List.filter_append]
    rfl
  · rw [List.map_cons, List.flatten_cons, List.length_append, ← Nat.add_assoc]
    exact hA

/-- The parser of a complete line, and the step past it, which comes after a valid and an invalid
line alike. -/
theorem parseCompleteLine_served (handle : TextHandle) (tail : Tail cfg) {line : TextLine}
    (h : Coerces cfg.toRuntime (strip line.text)) :
    ∃ tail₁, tail.parseCompleteLine line.text =
        (tail₁, .ok (parsed cfg.toRuntime (strip line.text))) ∧
      tail₁.reader.nextSeq = tail.reader.nextSeq ∧
      Over handle tail
        { tail₁ with reader := tail₁.reader.advance (cfg.tell (handle.past line)) } line := by
  unfold parseCompleteLine
  rcases parse_cases h with ⟨hblank, hp⟩ | ⟨seq, tick, hparsed, hp⟩ | ⟨hinv, reason, hp⟩
  · refine ⟨tail, by simp [hp, hblank, parsed, objectOf_nil], rfl, ⟨rfl, rfl, rfl⟩, ?_, .inr rfl, rfl⟩
    simp [hblank, isInvalid]
  · refine ⟨{ tail with reader := { tail.reader with consecutiveParseFailures := 0 } },
      by simp only [hp, hparsed], rfl, ⟨rfl, rfl, rfl⟩, ?_, .inr rfl, rfl⟩
    simp [isInvalid, hparsed, Disk.quarantined]
  · have hnone : parsed cfg.toRuntime (strip line.text) = none := by
      simp only [isInvalid, Bool.and_eq_true, Option.isNone_iff_eq_none] at hinv
      exact hinv.2
    refine ⟨tail.quarantineInvalidLine (strip line.text) reason, by simp only [hp, hnone], rfl,
      ⟨rfl, rfl, rfl⟩, ?_, .inr rfl, rfl⟩
    simp [hinv, Disk.quarantined, quarantineInvalidLine, Disk.quarantineLine]

/-- Only the last line may be incomplete, as every other is ended by a line break. -/
def OnlyLastOpen (lines : List TextLine) : Prop :=
  ∀ A line B, lines = A ++ line :: B → B ≠ [] → endsWithNewline line.text = true

theorem OnlyLastOpen.tail {line : TextLine} {lines : List TextLine}
    (h : OnlyLastOpen (line :: lines)) : OnlyLastOpen lines :=
  fun A l B he hB => h (line :: A) l B (by rw [he]; rfl) hB

/-- An incomplete line is the last. -/
theorem OnlyLastOpen.eq_nil {line : TextLine} {lines : List TextLine}
    (h : OnlyLastOpen (line :: lines)) (hline : endsWithNewline line.text = false) :
    lines = [] := by
  by_contra hne
  have := h [] line lines rfl hne
  simp [hline] at this

/-- A record that the reader has, or one that no reader waits for, adds nothing to what is returned.
-/
theorem accepted_old {rt : Runtime} {text : Str} {seq : Int} {tick : TradeTick rt} {n : Nat}
    (h : parsed rt text = some (seq, tick)) (hseq : seq < n) (texts : List Str) :
    accepted n ((text :: texts).filterMap (recordOf rt)) =
      accepted n (texts.filterMap (recordOf rt)) := by
  by_cases hneg : seq < 0
  · rw [List.filterMap_cons_none (recordOf_negative h hneg)]
  · rw [List.filterMap_cons_some (recordOf_some h (by omega)), accepted, if_pos (by omega)]

/-- A record that the reader waits for, or a later one, is returned, and the number after it is
waited for. -/
theorem accepted_new {rt : Runtime} {text : Str} {seq : Int} {tick : TradeTick rt} {n : Nat}
    (h : parsed rt text = some (seq, tick)) (hseq : ¬seq < n) (texts : List Str) :
    accepted n ((text :: texts).filterMap (recordOf rt)) =
      (seq.toNat, tick) :: accepted (seq.toNat + 1) (texts.filterMap (recordOf rt)) := by
  rw [List.filterMap_cons_some (recordOf_some h (by omega)), accepted, if_neg (by omega)]

/-- The incomplete last line waits or is given up, by the policy; neither returns a record. -/
theorem readLines_open (now : Rat) {line : TextLine} (hline : endsWithNewline line.text = false)
    (handle : TextHandle) (tail : Tail cfg) (htold : tail.ToldBy handle)
    (hbol : tail.reader.logicalBolOffset = some tail.reader.readOffset) :
    ∃ tail', tail.readLines now handle [line] = (tail', .ok []) ∧
      Through handle tail tail' [line] := by
  have htext := textOf_open hline
  rw [readLines]
  simp only [hline, ↓reduceIte]
  split
  · refine ⟨_, rfl, ⟨rfl, rfl, rfl⟩, ⟨[line.text], ?_⟩, ⟨[line], [], rfl, ?_⟩, rfl⟩
    · simp [htext, Disk.quarantined, skipIncompleteTrailingFragment, quarantineInvalidLine,
        Disk.quarantineLine]
    · rw [List.map_singleton, List.flatten_singleton]
      exact .inr rfl
  · exact ⟨_, rfl, ⟨rfl, rfl, rfl⟩, ⟨[], by simp [htext]⟩, ⟨[], [line], rfl, htold⟩, hbol⟩

/-- **The loop returns the records that raise what the reader waits for, and quarantines the invalid
lines.** -/
theorem readLines_served (now : Rat) {lines : List TextLine} (hopen : OnlyLastOpen lines)
    (h : ∀ text ∈ lines.filterMap textOf, Coerces cfg.toRuntime text) (handle : TextHandle)
    (tail : Tail cfg) (htold : tail.ToldBy handle)
    (hbol : tail.reader.logicalBolOffset = some tail.reader.readOffset) :
    ∃ tail', tail.readLines now handle lines = (tail', .ok (accepted tail.reader.nextSeq
        ((lines.filterMap textOf).filterMap (recordOf cfg.toRuntime)))) ∧
      Through handle tail tail' lines := by
  induction lines generalizing handle tail with
  | nil => exact ⟨tail, rfl, .refl _, ⟨[], by simp⟩, ⟨[], [], rfl, htold⟩, hbol⟩
  | cons line lines ih =>
    cases hline : endsWithNewline line.text with
    | false =>
      obtain rfl := hopen.eq_nil hline
      rw [List.filterMap_cons_none (textOf_open hline)]
      exact readLines_open now hline handle tail htold hbol
    | true =>
      rw [List.filterMap_cons_some (textOf_complete hline)] at h ⊢
      have hrest := fun t ht => h t (List.mem_cons_of_mem _ ht)
      obtain ⟨tail₁, hparse, hnext, hover⟩ := @parseCompleteLine_served cfg handle
        { tail with reader := tail.reader.clearIncompleteWaitState } line (h _ (by simp))
      have hnext : tail₁.reader.nextSeq = tail.reader.nextSeq := hnext
      -- the rest of the loop, from the state behind the line
      have hgo : ∀ nextSeq, ∃ tail',
          readLines now (handle.past line) { tail₁ with
            reader := { tail₁.reader.advance (cfg.tell (handle.past line)) with nextSeq } } lines =
              (tail', .ok (accepted nextSeq
                ((lines.filterMap textOf).filterMap (recordOf cfg.toRuntime)))) ∧
          Through handle tail tail' (line :: lines) := by
        intro nextSeq
        have hover : Over handle tail { tail₁ with
            reader := { tail₁.reader.advance (cfg.tell (handle.past line)) with nextSeq } } line :=
          ⟨hover.files, hover.quarantined, hover.told, hover.logicalBolOffset⟩
        obtain ⟨tail', hrun, hthrough⟩ :=
          ih hopen.tail hrest _ _ hover.told hover.logicalBolOffset
        exact ⟨tail', hrun, hover.through hline hthrough⟩
      rw [readLines]
      simp only [hline, Bool.true_eq_false, ↓reduceIte, hparse]
      cases hparsed : parsed cfg.toRuntime (strip line.text) with
      | none =>
        rw [List.filterMap_cons_none (recordOf_none hparsed), ← hnext]
        exact hgo tail₁.reader.nextSeq
      | some r =>
        obtain ⟨seq, tick⟩ := r
        rw [← hnext]
        by_cases hlt : seq < tail₁.reader.nextSeq
        · have hlt' : seq < (tail₁.reader.advance (cfg.tell (handle.past line))).nextSeq := hlt
          simp only [if_pos hlt']
          rw [accepted_old hparsed hlt]
          exact hgo tail₁.reader.nextSeq
        · have hlt' : ¬seq < (tail₁.reader.advance (cfg.tell (handle.past line))).nextSeq := hlt
          obtain ⟨tail', hrun, hthrough⟩ := hgo (seq.toNat + 1)
          refine ⟨tail', ?_, hthrough⟩
          simp only [if_neg hlt']
          rw [accepted_new hparsed hlt, hrun]
          rfl

/-- A line that the parser passes has no conversion that overflows. -/
theorem coerces_of_parseCompleteLine {tail tail₁ : Tail cfg} {line : Str}
    {found : Option (Int × TradeTick cfg.toRuntime)}
    (h : tail.parseCompleteLine line = (tail₁, .ok found)) :
    Coerces cfg.toRuntime (strip line) := by
  apply parse_ok_iff.mp
  unfold parseCompleteLine at h
  split at h
  · cases h
  · rename_i he
    exact ⟨_, he⟩
  · rename_i he
    exact ⟨_, he⟩
  · rename_i he
    exact ⟨_, he⟩

/-- A loop that ends without an exception has read no conversion that overflows, as each complete
line went through the parser. -/
theorem coerces_of_readLines {now : Rat} {lines : List TextLine} (hopen : OnlyLastOpen lines)
    {handle : TextHandle} {tail : Tail cfg} {records : List (Rec cfg.toRuntime)}
    (h : (tail.readLines now handle lines).2 = .ok records) :
    ∀ text ∈ lines.filterMap textOf, Coerces cfg.toRuntime text := by
  induction lines generalizing handle tail records with
  | nil => simp
  | cons line lines ih =>
    cases hline : endsWithNewline line.text with
    | false =>
      obtain rfl := hopen.eq_nil hline
      simp [textOf_open hline]
    | true =>
      rw [readLines] at h
      simp only [hline, Bool.true_eq_false, ↓reduceIte] at h
      rw [List.filterMap_cons_some (textOf_complete hline), List.forall_mem_cons]
      split at h
      · cases h
      · rename_i tail₁ found hparse
        refine ⟨coerces_of_parseCompleteLine hparse, ?_⟩
        split at h
        · exact ih hopen.tail h
        · split at h
          · exact ih hopen.tail h
          · simp only at h
            obtain ⟨rest, hrest, -⟩ := except_map_ok h
            exact ih hopen.tail hrest

end Tail

end Leviathan
