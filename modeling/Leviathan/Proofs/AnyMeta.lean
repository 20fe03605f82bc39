import Leviathan.Journal.MetaJson
import Leviathan.Journal.Readme
import Leviathan.Journal.Scanners

/-!
# Any content of the metadata file

The metadata file may hold any bytes, and an object in it any JSON values.

* `reloadFromDisk_served`, `reloadFromDisk_torn`: the two outcomes of a reload that finds an object.
* `allOrNothing_iff`: **a reload that raises leaves the store as it was, exactly when the file holds
  no object, an object that converts, or one that repeats the store.**
* `chooseHint_ok_iff`, `resolveFrom_ok_iff`: the lists and the lines that a seek gets through.
* `metaTolerated_iff`: **the reads of the tip and the seeks return, exactly when what they convert
  converts.**
-/

namespace Leviathan

open Py

namespace JsonMetaStore

variable {cfg : Config} {rt : Runtime}

/-! ## Conversions -/

/-- `int(x)` returns. -/
def Converts (rt : Runtime) (x : Json) : Prop := ∃ i, pyInt rt x = .ok i

/-- `_max_seq_from_seq_index` gets past the entry. -/
def Scans (rt : Runtime) (entry : Json) : Prop :=
  ∀ x rest e, entry = .arr (x :: rest) → pyInt rt x = .error e → e.isTypeOrValueError = true

/-- No entry of the list starts with a number that `int` overflows. -/
def Scannable (rt : Runtime) (seqIndex : Json) : Prop :=
  ∀ entries, seqIndex = .arr entries → ∀ entry ∈ entries, Scans rt entry

/-- What does not return raises. -/
theorem not_ok_iff {α : Type} {x : Except PyError α} : (¬∃ a, x = .ok a) ↔ ∃ e, x = .error e := by
  cases x with
  | ok a => simp
  | error e => simp

theorem not_converts {x : Json} {e : PyError} (h : pyInt rt x = .error e) : ¬Converts rt x :=
  not_ok_iff.mpr ⟨e, h⟩

/-- A fold over a list returns when every element of it is one that its step returns at. -/
theorem foldlM_ok_iff {α β ε : Type} {f : α → β → Except ε α} {p : β → Prop}
    (h : ∀ a b, (∃ a', f a b = .ok a') ↔ p b) (xs : List β) (a : α) :
    (∃ a', xs.foldlM f a = .ok a') ↔ ∀ x ∈ xs, p x := by
  induction xs generalizing a with
  | nil => exact ⟨fun _ => by simp, fun _ => ⟨a, rfl⟩⟩
  | cons x xs ih =>
    rw [List.forall_mem_cons, ← h a x, List.foldlM_cons]
    cases hx : f a x with
    | error e => simp [bind, Except.bind]
    | ok a' =>
      rw [← ih a']
      simp [bind, Except.bind]

theorem maxSeqStep_ok_iff (high : Nat) (entry : Json) :
    (∃ high', maxSeqStep rt high entry = .ok high') ↔ Scans rt entry := by
  unfold maxSeqStep Scans
  split
  · rename_i x rest
    cases hx : pyInt rt x with
    | ok seq =>
      refine iff_of_true ⟨_, rfl⟩ fun x' rest' e hentry he => ?_
      cases hentry
      rw [hx] at he
      cases he
    | error e =>
      by_cases he : e.isTypeOrValueError = true
      · refine iff_of_true ⟨high, if_pos he⟩ fun x' rest' e' hentry he' => ?_
        cases hentry
        rw [hx] at he'
        cases he'
        exact he
      · exact iff_of_false (not_ok_iff.mpr ⟨e, if_neg he⟩) fun h => he (h x rest e rfl hx)
  · rename_i hne
    exact iff_of_true ⟨high, rfl⟩ fun x rest e hentry => absurd hentry (hne x rest)

theorem maxSeqFromSeqIndex_ok_iff {seqIndex : Json} :
    (∃ high, maxSeqFromSeqIndex rt seqIndex = .ok high) ↔ Scannable rt seqIndex := by
  unfold maxSeqFromSeqIndex Scannable
  split
  · rename_i entries
    rw [foldlM_ok_iff maxSeqStep_ok_iff]
    constructor
    · intro h entries' he
      cases he
      exact h
    · intro h
      exact h entries rfl
  · rename_i hne
    exact iff_of_true ⟨0, rfl⟩ fun entries he => absurd he (hne entries)

/-- The two fields of an object that its readers convert. -/
structure Convertible (rt : Runtime) (payload : Dict Str Json) : Prop where
  latestSeq : Converts rt (latestSeqField payload)
  seqIndex : Scannable rt (seqIndexField payload)

theorem loadPayload_error {metaFile : Option Bytes} {e : PyError}
    (h : loadPayload rt metaFile = .error e) : e.isValueError = true := by
  unfold loadPayload at h
  split at h
  · cases h
  split at h
  · cases h; rfl
  split at h
  · cases h; rfl
  · cases h
  · cases h; rfl

variable {store : JsonMetaStore cfg} {metaFile : Option Bytes} {payload : Dict Str Json}

/-! ## Reloads -/

/-- What a caller of the store needs of it. -/
structure Usable (store : JsonMetaStore cfg) : Prop where
  latestSeq : ∃ tip, store.latestSeq = .ok tip
  setLatestSeq : ∀ seq : Nat, ∃ after tip, store.setLatestSeq seq = .ok after ∧
    after.latestSeq = .ok tip ∧ seq ≤ tip
  persist : ∃ after file, store.persist none = (after, some file, .ok ())
  unreadable : ∀ metaFile e, loadPayload cfg.toRuntime metaFile = .error e →
    ∃ tip, (store.readLatestSeqFromDisk metaFile).2 = .ok tip

/-- `after` is `store`, as far as a caller can see. -/
structure Kept (store after : JsonMetaStore cfg) : Prop where
  latestSeq : after.latestSeq = store.latestSeq
  window : ∀ key, after.window key = store.window key
  seqIndex : after.seqIndex.2 = store.seqIndex.2
  usable : store.Usable → after.Usable

/-- A reload that raises leaves the store as it was. -/
def AllOrNothing (store : JsonMetaStore cfg) (metaFile : Option Bytes) : Prop :=
  ∀ e, (store.reloadFromDisk metaFile).2 = .error e →
    store.Kept (store.reloadFromDisk metaFile).1

/-- The store with the contents of an object. -/
def withPayload (store : JsonMetaStore cfg) (payload : Dict Str Json) : JsonMetaStore cfg :=
  { store with payload, dedupBuckets := hydrateDedupBuckets payload }

/-- The object states what the store holds. -/
structure Repeats (store : JsonMetaStore cfg) (payload : Dict Str Json) : Prop where
  latestSeq : pyInt cfg.toRuntime (latestSeqField payload) = store.latestSeq
  window : ∀ key, (store.withPayload payload).window key = store.window key
  seqIndex : (store.withPayload payload).seqIndex.2 = store.seqIndex.2

/-- All the operations need is the tip. -/
theorem usable_iff : store.Usable ↔ ∃ tip, store.latestSeq = .ok tip := by
  refine ⟨Usable.latestSeq, ?_⟩
  rintro ⟨tip, htip⟩
  refine ⟨⟨tip, htip⟩, fun seq => ?_, ?_, fun metaFile e hload => ?_⟩
  · refine ⟨store.withTip (max tip.toNat seq), _, ?_, latestSeq_withTip _ _, ?_⟩
    · simp [setLatestSeq, htip, bind, Except.bind, pure, Except.pure]
    · omega
  · have hfile : fileTip cfg.toRuntime none = .ok 0 := rfl
    have hle : ¬0 > max tip.toNat store.diskTipHighWater := by omega
    have hpersist : store.persist none =
        persist.publish (store.withTip (max (max tip.toNat store.diskTipHighWater) 0)) := by
      simp only [persist, htip, hfile, if_neg hle]
    exact ⟨_, _, hpersist⟩
  · refine ⟨max tip store.diskTipHighWater, ?_⟩
    simp only [readLatestSeqFromDisk, hload, loadPayload_error hload, ↓reduceIte, htip]
    rfl

theorem reloadFromDisk_unread {e : PyError} (h : loadPayload cfg.toRuntime metaFile = .error e) :
    store.reloadFromDisk metaFile = (store, .error e) := by
  simp only [reloadFromDisk, h]

/-- An object that converts is taken over. -/
theorem reloadFromDisk_served (h : loadPayload cfg.toRuntime metaFile = .ok payload)
    (hc : Convertible cfg.toRuntime payload) : ∃ tip,
      store.reloadFromDisk metaFile = ((store.withPayload payload).withTip tip, .ok ()) := by
  obtain ⟨⟨loadedTip, hloaded⟩, hscan⟩ := hc
  obtain ⟨indexTip, hindex⟩ := maxSeqFromSeqIndex_ok_iff.mpr hscan
  refine ⟨max (max loadedTip.toNat indexTip) store.diskTipHighWater, ?_⟩
  simp only [reloadFromDisk, h, latestSeq, hloaded, hindex]
  rfl

/-- **Any other object takes the place of the store's contents, and the reload raises.** -/
theorem reloadFromDisk_torn (h : loadPayload cfg.toRuntime metaFile = .ok payload)
    (hc : ¬Convertible cfg.toRuntime payload) : ∃ e,
      store.reloadFromDisk metaFile = (store.withPayload payload, .error e) := by
  by_cases hlatest : Converts cfg.toRuntime (latestSeqField payload)
  · have hscan := fun hscan => hc ⟨hlatest, hscan⟩
    obtain ⟨loadedTip, hloaded⟩ := hlatest
    obtain ⟨e, he⟩ := not_ok_iff.mp (maxSeqFromSeqIndex_ok_iff.not.mpr hscan)
    refine ⟨e, ?_⟩
    simp only [reloadFromDisk, h, latestSeq, hloaded, he]
    rfl
  · obtain ⟨e, he⟩ := not_ok_iff.mp hlatest
    refine ⟨e, ?_⟩
    simp only [reloadFromDisk, h, latestSeq, he]
    rfl

/-- **Reloads are all or nothing, but for objects that do not convert and say something new.** -/
theorem allOrNothing_iff (store : JsonMetaStore cfg) (metaFile : Option Bytes) :
    store.AllOrNothing metaFile ↔ ∀ payload, loadPayload cfg.toRuntime metaFile = .ok payload →
      Convertible cfg.toRuntime payload ∨ store.Repeats payload := by
  unfold AllOrNothing
  cases hload : loadPayload cfg.toRuntime metaFile with
  | error e =>
    rw [reloadFromDisk_unread hload]
    exact iff_of_true (fun _ _ => ⟨rfl, fun _ => rfl, rfl, id⟩) nofun
  | ok payload =>
    by_cases hc : Convertible cfg.toRuntime payload
    · obtain ⟨tip, hreload⟩ := @reloadFromDisk_served cfg store metaFile payload hload hc
      rw [hreload]
      exact iff_of_true nofun fun _ h => .inl (Except.ok.inj h ▸ hc)
    · obtain ⟨e, hreload⟩ := @reloadFromDisk_torn cfg store metaFile payload hload hc
      rw [hreload]
      constructor
      · intro h payload' hpayload'
        obtain rfl := Except.ok.inj hpayload'
        have hkept := h e rfl
        exact .inr ⟨hkept.latestSeq, hkept.window, hkept.seqIndex⟩
      · intro h _ _
        have hrep := (h payload rfl).resolve_left hc
        refine ⟨hrep.latestSeq, hrep.window, hrep.seqIndex, fun husable => ?_⟩
        obtain ⟨tip, htip⟩ := husable.latestSeq
        exact usable_iff.mpr ⟨tip, hrep.latestSeq.trans htip⟩

/-- **After a reload a usable store is usable exactly when the tip of the object converts.** -/
theorem reload_usable_iff (h : store.Usable) : (store.reloadFromDisk metaFile).1.Usable ↔
    ∀ payload, loadPayload cfg.toRuntime metaFile = .ok payload →
      Converts cfg.toRuntime (latestSeqField payload) := by
  cases hload : loadPayload cfg.toRuntime metaFile with
  | error e =>
    rw [reloadFromDisk_unread hload]
    exact iff_of_true h nofun
  | ok payload =>
    by_cases hc : Convertible cfg.toRuntime payload
    · obtain ⟨tip, hreload⟩ := @reloadFromDisk_served cfg store metaFile payload hload hc
      rw [hreload, usable_iff]
      exact iff_of_true ⟨tip, latestSeq_withTip _ _⟩ fun _ hp => Except.ok.inj hp ▸ hc.latestSeq
    · obtain ⟨e, hreload⟩ := @reloadFromDisk_torn cfg store metaFile payload hload hc
      rw [hreload, usable_iff]
      exact ⟨fun htip _ hp => Except.ok.inj hp ▸ htip, fun hall => hall payload rfl⟩

/-- `{"latest_seq":null}`. -/
def nullTipFile : Bytes := encodeUtf8 (dumps (.obj [(latestSeqKey, .null)]))

theorem loadPayload_nullTipFile :
    loadPayload rt (some nullTipFile) = .ok (withDefaults [(latestSeqKey, .null)]) :=
  loadPayload_dumps ⟨List.nodup_singleton _, trivial, trivial⟩

theorem nullTip_not_convertible :
    ¬Convertible rt (withDefaults [(latestSeqKey, .null)]) := fun h => not_converts rfl h.latestSeq

/-- A store with the tip 5. -/
def tipFive : JsonMetaStore .default := ofStore (.new (some ⟨5, [], [(0, 0)]⟩))

/-- **A tip that is no number takes the tip from the store.** -/
theorem null_tip_torn : ¬tipFive.AllOrNothing (some nullTipFile) := by
  intro h
  obtain ⟨e, hreload⟩ :=
    @reloadFromDisk_torn _ tipFive _ _ loadPayload_nullTipFile nullTip_not_convertible
  have hkept := (h e (by rw [hreload])).latestSeq
  rw [hreload] at hkept
  cases hkept

/-! ## The list of a seek -/

/-- A pair of which a half does not convert. -/
def Malformed (rt : Runtime) (entry : Json) : Prop :=
  ∃ x y, entry = .arr [x, y] ∧ ¬(Converts rt x ∧ Converts rt y)

/-- `_max_seq_from_seq_index` skips the entry. -/
def Skipped (rt : Runtime) : Json → Prop
  | .arr (x :: _) => ∃ e, pyInt rt x = .error e ∧ e.isTypeOrValueError = true
  | _ => True

/-- The pair of an entry. -/
def pairOf (rt : Runtime) : Json → Option (Int × Int)
  | .arr [x, y] =>
    match pyInt rt x, pyInt rt y with
    | .ok seq, .ok byteOffset => some (seq, byteOffset)
    | _, _ => none
  | _ => none

/-- The entry is a pair past `startSeq`. -/
def isPast (rt : Runtime) (startSeq : Nat) : Json → Bool
  | .arr [x, _] =>
    match pyInt rt x with
    | .ok seq => startSeq < seq
    | .error _ => false
  | _ => false

/-- The entries that a seek looks at. -/
def reached (rt : Runtime) (startSeq : Nat) (index : List Json) : List Json :=
  index.takeWhile fun entry => !isPast rt startSeq entry

/-- The offset of the last pair that a seek looks at. -/
def hintOf (rt : Runtime) (startSeq : Nat) (index : List Json) (chosen : Int) : Int :=
  (((reached rt startSeq index).filterMap (pairOf rt)).getLast?.map Prod.snd).getD chosen

theorem pairOf_eq_none {entry : Json} (h : ∀ x y, entry ≠ .arr [x, y]) : pairOf rt entry = none := by
  unfold pairOf
  split
  · rename_i x y
    exact absurd rfl (h x y)
  · rfl

section Step

variable {startSeq : Nat} {entry : Json} {index : List Json} {chosen : Int}

theorem reached_past (h : isPast rt startSeq entry = true) :
    reached rt startSeq (entry :: index) = [] := by
  simp [reached, h]

theorem reached_cons (h : isPast rt startSeq entry = false) :
    reached rt startSeq (entry :: index) = entry :: reached rt startSeq index := by
  simp [reached, h]

theorem hintOf_cons (h : isPast rt startSeq entry = false) :
    hintOf rt startSeq (entry :: index) chosen =
      hintOf rt startSeq index ((pairOf rt entry).elim chosen Prod.snd) := by
  unfold hintOf
  rw [reached_cons h]
  cases hpair : pairOf rt entry with
  | none => rw [List.filterMap_cons_none hpair, Option.elim_none]
  | some pair =>
    rw [List.filterMap_cons_some hpair, Option.elim_some, List.getLast?_cons]
    cases ((reached rt startSeq index).filterMap (pairOf rt)).getLast? <;> rfl

theorem chooseHint_past (h : isPast rt startSeq entry = true) :
    chooseHint rt startSeq (entry :: index) chosen = .ok chosen := by
  unfold isPast at h
  split at h
  · rename_i x y
    split at h
    · rename_i seq hx
      have hgt : ¬seq ≤ startSeq := by simpa using h
      simp only [chooseHint, hx, bind, Except.bind, if_neg hgt, pure, Except.pure]
    · cases h
  · cases h

/-- A pair that is not past `startSeq` and does not convert ends the seek. -/
theorem chooseHint_malformed (h : isPast rt startSeq entry = false) (hm : Malformed rt entry) :
    ∃ e, chooseHint rt startSeq (entry :: index) chosen = .error e := by
  obtain ⟨x, y, rfl, hxy⟩ := hm
  cases hx : pyInt rt x with
  | error e => exact ⟨e, by simp only [chooseHint, hx, bind, Except.bind]⟩
  | ok seq =>
    have hle : seq ≤ startSeq := by simpa [isPast, hx] using h
    obtain ⟨e, hy⟩ := not_ok_iff.mp fun hy => hxy ⟨⟨seq, hx⟩, hy⟩
    exact ⟨e, by simp only [chooseHint, hx, hy, bind, Except.bind, if_pos hle]⟩

/-- Any other entry gives its offset, if it has one. -/
theorem chooseHint_cons (h : isPast rt startSeq entry = false) (hm : ¬Malformed rt entry) :
    chooseHint rt startSeq (entry :: index) chosen =
      chooseHint rt startSeq index ((pairOf rt entry).elim chosen Prod.snd) := by
  by_cases hpair : ∃ x y, entry = .arr [x, y]
  · obtain ⟨x, y, rfl⟩ := hpair
    obtain ⟨⟨seq, hx⟩, byteOffset, hy⟩ := not_not.mp fun hxy => hm ⟨x, y, rfl, hxy⟩
    have hle : seq ≤ startSeq := by simpa [isPast, hx] using h
    simp only [chooseHint, pairOf, hx, hy, bind, Except.bind, if_pos hle, Option.elim_some]
  · have hne : ∀ x y, entry ≠ .arr [x, y] := fun x y he => hpair ⟨x, y, he⟩
    rw [pairOf_eq_none hne, Option.elim_none]
    rw [chooseHint]
    exact hne

end Step

theorem chooseHint_ok_iff {startSeq : Nat} {index : List Json} {chosen : Int} :
    (∃ hint, chooseHint rt startSeq index chosen = .ok hint) ↔
      ∀ entry ∈ reached rt startSeq index, ¬Malformed rt entry := by
  induction index generalizing chosen with
  | nil => exact iff_of_true ⟨chosen, rfl⟩ nofun
  | cons entry index ih =>
    cases hpast : isPast rt startSeq entry with
    | true =>
      rw [reached_past hpast]
      exact iff_of_true ⟨chosen, chooseHint_past hpast⟩ nofun
    | false =>
      rw [reached_cons hpast, List.forall_mem_cons]
      by_cases hm : Malformed rt entry
      · exact iff_of_false (not_ok_iff.mpr (chooseHint_malformed hpast hm)) fun h => h.1 hm
      · rw [chooseHint_cons hpast hm, ih]
        exact (and_iff_right hm).symm

/-- **The hint of a list.** -/
theorem chooseHint_eq {startSeq : Nat} {index : List Json} (chosen : Int)
    (h : ∀ entry ∈ reached rt startSeq index, ¬Malformed rt entry) :
    chooseHint rt startSeq index chosen = .ok (hintOf rt startSeq index chosen) := by
  induction index generalizing chosen with
  | nil => rfl
  | cons entry index ih =>
    cases hpast : isPast rt startSeq entry with
    | true =>
      rw [chooseHint_past hpast, hintOf, reached_past hpast]
      rfl
    | false =>
      rw [reached_cons hpast, List.forall_mem_cons] at h
      rw [chooseHint_cons hpast h.1, ih _ h.2, hintOf_cons hpast]

-- entries that are no pairs
example : chooseHint .readme 4
    [.arr [], .str "bad".toList, .arr [.int 2, .int 10], .arr [.int 5, .int 25]] 0 = .ok 10 := rfl

/-! ## The lines of a seek -/

/-- The walk over the lines meets no number that overflows: not on a complete line before which it
passes every line. -/
def Walkable (rt : Runtime) (startSeq : Nat) (lines : List Bytes) : Prop :=
  ∀ A raw B, lines = A ++ raw :: B → endsWithLF raw = true →
    (∀ line ∈ A, endsWithLF line = true ∧ passes startSeq (rawSeq rt line) = true) →
    SeqCoerces rt (rawObject raw)

theorem walkable_cons {startSeq : Nat} {line : Bytes} {lines : List Bytes} :
    Walkable rt startSeq (line :: lines) ↔ (endsWithLF line = true →
      SeqCoerces rt (rawObject line) ∧
        (passes startSeq (rawSeq rt line) = true → Walkable rt startSeq lines)) := by
  constructor
  · refine fun h hend => ⟨h [] line lines rfl hend nofun, fun hpass A raw B he hraw hA => ?_⟩
    refine h (line :: A) raw B (by rw [he]; rfl) hraw fun l hl => ?_
    rcases List.mem_cons.mp hl with rfl | hl
    · exact ⟨hend, hpass⟩
    · exact hA l hl
  · intro h A raw B he hraw hA
    cases A with
    | nil =>
      obtain ⟨rfl, -⟩ := List.cons.inj he
      exact (h hraw).1
    | cons a A =>
      obtain ⟨rfl, rfl⟩ := List.cons.inj he
      rw [List.forall_mem_cons] at hA
      exact (h hA.1.1).2 hA.1.2 A raw B rfl hraw hA.2

theorem resolveFrom_ok_iff {startSeq : Nat} {lines : List Bytes} (lineStart : Nat) :
    (∃ o, resolveFrom rt startSeq lineStart lines = .ok o) ↔ Walkable rt startSeq lines := by
  induction lines generalizing lineStart with
  | nil => exact iff_of_true ⟨lineStart, rfl⟩ fun A raw B he => by simp at he
  | cons line lines ih =>
    rw [walkable_cons]
    cases hend : endsWithLF line with
    | false => exact iff_of_true ⟨lineStart, by simp [resolveFrom, hend]⟩ nofun
    | true =>
      by_cases hseq : SeqCoerces rt (rawObject line)
      · simp only [resolveFrom, hend, resolveLine_served hseq, Bool.true_eq_false, ↓reduceIte]
        cases hraw : rawSeq rt line with
        | none => simp [ih, passes, hseq]
        | some seq =>
          by_cases hge : seq ≥ (startSeq : Int)
          · have hpass : ¬seq < (startSeq : Int) := by omega
            simp [hge, passes, hseq, hpass]
          · have hpass : seq < (startSeq : Int) := by omega
            simp [hge, ih, passes, hseq, hpass]
      · refine iff_of_false ?_ fun h => hseq (h rfl).1
        obtain ⟨e, he⟩ := not_ok_iff.mp (resolveLine_ok_iff.not.mpr hseq)
        exact not_ok_iff.mpr ⟨e, by simp [resolveFrom, hend, he]⟩

/-! ## Reads -/

/-- The metadata file and the index cost no read. -/
structure MetaTolerated (store : JsonMetaStore cfg) (metaFile journalFile : Option Bytes)
    (startSeq : Nat) : Prop where
  tip : ∃ tip : Int, (store.readLatestSeqFromDisk metaFile).2 = .ok tip ∧ 0 ≤ tip ∧
    (store.diskTipHighWater : Int) ≤ tip
  offset : (∀ entry ∈ store.seqIndex.2, Malformed cfg.toRuntime entry →
      Skipped cfg.toRuntime entry) →
    ∃ offset, (store.byteOffsetForSeq journalFile startSeq).2 = .ok offset

/-- Where the tip is read from, it converts: from the object, or else from the store. -/
def TipReadable (store : JsonMetaStore cfg) (metaFile : Option Bytes) : Prop :=
  match loadPayload cfg.toRuntime metaFile with
  | .ok payload => Convertible cfg.toRuntime payload
  | .error _ => Converts cfg.toRuntime (latestSeqField store.payload)

/-- The entries that the seek looks at convert, and so do the numbers on the lines that it walks. -/
structure OffsetReadable (store : JsonMetaStore cfg) (journalFile : Option Bytes) (startSeq : Nat) :
    Prop where
  index : ∀ entry ∈ reached cfg.toRuntime startSeq store.seqIndex.2,
    ¬Malformed cfg.toRuntime entry
  lines : ∀ file, journalFile = some file → Walkable cfg.toRuntime startSeq
    (byteLines (file.drop
      (walkStart file (hintOf cfg.toRuntime startSeq store.seqIndex.2 0).toNat)))

structure MetaReadable (store : JsonMetaStore cfg) (metaFile journalFile : Option Bytes)
    (startSeq : Nat) : Prop where
  tip : store.TipReadable metaFile
  offset : 1 < startSeq → (∀ entry ∈ store.seqIndex.2, Malformed cfg.toRuntime entry →
    Skipped cfg.toRuntime entry) → store.OffsetReadable journalFile startSeq

theorem tip_iff : (∃ tip : Int, (store.readLatestSeqFromDisk metaFile).2 = .ok tip ∧ 0 ≤ tip ∧
    (store.diskTipHighWater : Int) ≤ tip) ↔ store.TipReadable metaFile := by
  unfold TipReadable
  cases hload : loadPayload cfg.toRuntime metaFile with
  | error e =>
    simp only [readLatestSeqFromDisk, hload, loadPayload_error hload, ↓reduceIte, latestSeq]
    constructor
    · rintro ⟨tip, htip, -⟩
      obtain ⟨latest, hlatest, -⟩ := except_map_ok htip
      exact ⟨latest, hlatest⟩
    · rintro ⟨latest, hlatest⟩
      have hhigh : 0 ≤ (store.diskTipHighWater : Int) := Int.natCast_nonneg _
      refine ⟨max latest store.diskTipHighWater, ?_, by omega, by omega⟩
      rw [hlatest]
      rfl
  | ok payload =>
    simp only [readLatestSeqFromDisk, hload]
    cases hraw : pyInt cfg.toRuntime (latestSeqField payload) with
    | error e =>
      refine iff_of_false ?_ fun h => not_converts hraw h.latestSeq
      rintro ⟨tip, htip, -⟩
      cases htip
    | ok raw =>
      cases hindex : maxSeqFromSeqIndex cfg.toRuntime (seqIndexField payload) with
      | error e =>
        have hscan : ¬Scannable cfg.toRuntime (seqIndexField payload) :=
          maxSeqFromSeqIndex_ok_iff.not.mp (not_ok_iff.mpr ⟨e, hindex⟩)
        refine iff_of_false ?_ fun h => hscan h.seqIndex
        rintro ⟨tip, htip, -⟩
        cases htip
      | ok indexTip =>
        have hconv : Convertible cfg.toRuntime payload :=
          ⟨⟨raw, hraw⟩, maxSeqFromSeqIndex_ok_iff.mp ⟨indexTip, hindex⟩⟩
        refine iff_of_true ⟨_, rfl, Int.natCast_nonneg _, ?_⟩ hconv
        exact Int.ofNat_le.mpr (by omega)

theorem offset_iff {journalFile : Option Bytes} {startSeq : Nat} (h1 : 1 < startSeq) :
    (∃ offset, (store.byteOffsetForSeq journalFile startSeq).2 = .ok offset) ↔
      store.OffsetReadable journalFile startSeq := by
  rw [byteOffsetForSeq, if_neg (by omega), indexedHint]
  by_cases hindex : ∀ entry ∈ reached cfg.toRuntime startSeq store.seqIndex.2,
      ¬Malformed cfg.toRuntime entry
  · simp only [chooseHint_eq 0 hindex, Except.bind]
    cases journalFile with
    | none =>
      refine iff_of_true ⟨_, rfl⟩ ⟨hindex, fun file hfile => ?_⟩
      cases hfile
    | some file =>
      constructor
      · rintro ⟨offset, hoffset⟩
        obtain ⟨o, ho, -⟩ := except_map_ok hoffset
        refine ⟨hindex, fun file' hfile => ?_⟩
        cases hfile
        exact (resolveFrom_ok_iff _).mp ⟨o, ho⟩
      · intro h
        obtain ⟨o, ho⟩ := (resolveFrom_ok_iff _).mpr (h.lines file rfl)
        exact ⟨o, congrArg (Except.map Int.ofNat) ho⟩
  · refine iff_of_false ?_ fun h => hindex h.index
    obtain ⟨e, he⟩ := not_ok_iff.mp
      ((@chooseHint_ok_iff cfg.toRuntime startSeq store.seqIndex.2 0).not.mpr hindex)
    exact not_ok_iff.mpr ⟨e, by simp only [he, Except.bind]⟩

/-- **The metadata costs no read, exactly when it is readable.** -/
theorem metaTolerated_iff (store : JsonMetaStore cfg) (metaFile journalFile : Option Bytes)
    (startSeq : Nat) : store.MetaTolerated metaFile journalFile startSeq ↔
      store.MetaReadable metaFile journalFile startSeq := by
  constructor
  · rintro ⟨htip, hoffset⟩
    exact ⟨tip_iff.mp htip, fun h1 hskip => (offset_iff h1).mp (hoffset hskip)⟩
  · rintro ⟨htip, hoffset⟩
    refine ⟨tip_iff.mpr htip, fun hskip => ?_⟩
    by_cases h1 : 1 < startSeq
    · exact (offset_iff h1).mpr (hoffset h1 hskip)
    · exact ⟨0, by rw [byteOffsetForSeq, if_pos (by omega)]⟩

/-- A store whose index is `[[null, 0]]`. -/
def nullPair : JsonMetaStore .default :=
  { tipFive with payload := Dict.set tipFive.payload seqIndexKey (.arr [.arr [.null, .int 0]]) }

/-- **A tip that is no number costs a read of the tip, and a pair that has none a seek.** -/
theorem null_costs_reads :
    ¬tipFive.MetaTolerated (some nullTipFile) none 2 ∧ ¬nullPair.MetaTolerated none none 2 := by
  constructor
  · intro h
    have htip := tip_iff.mp h.tip
    rw [TipReadable, loadPayload_nullTipFile] at htip
    exact nullTip_not_convertible htip
  · intro h
    have hpair : Malformed Config.default.toRuntime (.arr [.null, .int 0]) :=
      ⟨_, _, rfl, fun hxy => not_converts rfl hxy.1⟩
    have hindex : nullPair.seqIndex.2 = [.arr [.null, .int 0]] := rfl
    have hoffset := (offset_iff (by decide)).mp (h.offset ?_)
    · refine hoffset.index (.arr [.null, .int 0]) ?_ hpair
      rw [hindex]
      exact List.mem_singleton_self _
    · rw [hindex]
      intro entry hentry _
      rw [List.mem_singleton.mp hentry]
      exact ⟨_, rfl, rfl⟩

end JsonMetaStore

end Leviathan
