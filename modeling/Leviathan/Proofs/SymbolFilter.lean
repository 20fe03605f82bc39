import Leviathan.Journal.Readme
import Leviathan.Journal.Stream
import Leviathan.Lib.Run

/-!
# The symbols of a stream

Symbols are subscribed and unsubscribed; the filter of the tail-follow loop goes by the list of
them, and lets everything pass where the list is empty.

* `narrows_iff`: **every unsubscription narrows the filter, exactly in the runs in which each leaves
  a symbol, and no symbol of it stands in the list once more.**
* `last_unsubscribed_accepted`: without its last symbol, a stream takes every tick.
-/

namespace Leviathan

open Py JournalTickStream

variable {cfg : Config}

inductive SymbolOp where
  | subscribeSymbol (symbol : Str)
  | subscribeSymbols (symbols : List Str)
  | unsubscribeSymbol (symbol : Str)
  | unsubscribeSymbols (symbols : List Str)

namespace SymbolOp

/-- The symbols that the call unsubscribes: none, where it raises. -/
def unsubscribed : SymbolOp → List Str
  | .unsubscribeSymbol symbol => if symbol = [] then [] else [symbol]
  | .unsubscribeSymbols symbols => if [] ∈ symbols then [] else symbols
  | _ => []

def step (stream : JournalTickStream cfg) : SymbolOp → JournalTickStream cfg
  | .subscribeSymbol symbol => (stream.subscribeSymbol symbol).1
  | .subscribeSymbols symbols => (stream.subscribeSymbols symbols).1
  | .unsubscribeSymbol symbol => (stream.unsubscribeSymbol symbol).1
  | .unsubscribeSymbols symbols => (stream.unsubscribeSymbols symbols).1

/-- The call is no `subscribe_symbol(s)`. -/
def IsUnsubscribe : SymbolOp → Prop
  | .unsubscribeSymbol _ | .unsubscribeSymbols _ => True
  | _ => False

/-- What an unsubscription leaves is part of what there was, and nothing of what it takes away. -/
structure Narrows (stream : JournalTickStream cfg) (op : SymbolOp) : Prop where
  accepted : op.IsUnsubscribe → ∀ tick : TradeTick cfg.toRuntime,
    isTickForActiveSubscription (step stream op).symbols tick = true →
      isTickForActiveSubscription stream.symbols tick = true
  enqueued : ∀ (record : Rec cfg.toRuntime) (records : List (Rec cfg.toRuntime)) (raised : Bool),
    record.2.fields.instId ∈ op.unsubscribed →
      ({ step stream op with records := record :: records }.tailFollowRecord raised).queue =
        stream.queue

/-- The call unsubscribes nothing, or it leaves a symbol, and the list has no symbol of the call
more often than the call. -/
def Leaves (stream : JournalTickStream cfg) (op : SymbolOp) : Prop :=
  op.unsubscribed = [] ∨
    (∃ symbol ∈ stream.symbols, symbol ∉ op.unsubscribed) ∧
      ∀ symbol ∈ op.unsubscribed, stream.symbols.count symbol ≤ op.unsubscribed.count symbol

instance (stream : JournalTickStream cfg) (op : SymbolOp) : Decidable (op.Leaves stream) :=
  inferInstanceAs (Decidable (_ ∨ _ ∧ _))

/-! ## One call -/

variable (stream : JournalTickStream cfg)

/-- A call that unsubscribes takes its symbols out of the list, one by one, and no more. -/
theorem step_unsubscribe {op : SymbolOp} (h : op.IsUnsubscribe) :
    step stream op = { stream with symbols := stream.symbols.diff op.unsubscribed } := by
  cases op with
  | subscribeSymbol | subscribeSymbols => exact h.elim
  | unsubscribeSymbol symbol =>
    simp only [step, JournalTickStream.unsubscribeSymbol, unsubscribed]
    split
    · rw [List.diff_nil]
    · rw [List.diff_cons, List.diff_nil]
  | unsubscribeSymbols symbols =>
    simp only [step, JournalTickStream.unsubscribeSymbols, validateSymbolsList, unsubscribed]
    by_cases hmem : [] ∈ symbols
    · have hne : symbols ≠ [] := List.ne_nil_of_mem hmem
      simp only [hne, hmem, ↓reduceIte, List.diff_nil]
    · by_cases hnil : symbols = []
      · simp only [hnil, ↓reduceIte, List.not_mem_nil, List.diff_nil]
      · simp only [hnil, hmem, ↓reduceIte, List.diff_eq_foldl]

theorem isUnsubscribe_of_mem {op : SymbolOp} {symbol : Str} (h : symbol ∈ op.unsubscribed) :
    op.IsUnsubscribe := by
  cases op with
  | subscribeSymbol | subscribeSymbols => cases h
  | unsubscribeSymbol | unsubscribeSymbols => trivial

theorem unsubscribed_ne_nil {op : SymbolOp} {symbol : Str} (h : symbol ∈ op.unsubscribed) :
    symbol ≠ [] := by
  rintro rfl
  cases op with
  | subscribeSymbol | subscribeSymbols => cases h
  | unsubscribeSymbol symbol =>
    simp only [unsubscribed] at h
    split_ifs at h with hnil
    · cases h
    · exact hnil (List.mem_singleton.mp h).symm
  | unsubscribeSymbols symbols =>
    simp only [unsubscribed] at h
    split_ifs at h with hmem
    · cases h
    · exact hmem h

/-- What the list is after the call, in terms of the list before it. -/
theorem leaves_iff {op : SymbolOp} (h : op.unsubscribed ≠ []) :
    op.Leaves stream ↔ stream.symbols.diff op.unsubscribed ≠ [] ∧
      ∀ symbol ∈ op.unsubscribed, symbol ∉ stream.symbols.diff op.unsubscribed := by
  have hgone : ∀ symbol, symbol ∉ stream.symbols.diff op.unsubscribed ↔
      stream.symbols.count symbol ≤ op.unsubscribed.count symbol := by
    intro symbol
    rw [← List.count_eq_zero, List.count_diff, Nat.sub_eq_zero_iff_le]
  simp only [Leaves, h, false_or, hgone]
  refine and_congr_left fun hcount => ?_
  constructor
  · rintro ⟨symbol, hmem, hkept⟩ hempty
    have hnot : symbol ∉ stream.symbols.diff op.unsubscribed := by simp [hempty]
    rw [hgone, List.count_eq_zero_of_not_mem hkept] at hnot
    exact List.count_pos_iff.mpr hmem |>.ne' (Nat.le_zero.mp hnot)
  · intro hne
    obtain ⟨symbol, hmem⟩ := List.exists_mem_of_ne_nil _ hne
    refine ⟨symbol, List.diff_subset _ _ hmem, ?_⟩
    intro hop
    exact (hgone symbol).mpr (hcount symbol hop) hmem

/-- The loop puts the next record into the queue exactly when the filter lets it pass. -/
theorem tailFollowRecord_queue (record : Rec cfg.toRuntime) (records : List (Rec cfg.toRuntime))
    (raised : Bool) :
    ({ stream with records := record :: records }.tailFollowRecord raised).queue = stream.queue ↔
      isTickForActiveSubscription stream.symbols record.2 = false := by
  simp only [tailFollowRecord]
  cases hpass : isTickForActiveSubscription stream.symbols record.2 with
  | false =>
    simp only [↓reduceIte, persistCursorThrough, iff_true]
    split <;> rfl
  | true =>
    simp only [Bool.true_eq_false, ↓reduceIte, iff_false]
    intro hqueue
    have hput : stream.queue.put (record.1, record.2) = stream.queue := by
      refine Eq.trans ?_ hqueue
      split
      · simp only [tailFollowError, JournalTickStream.stop, endStreaming]
        split <;> rfl
      · rfl
    have hlen := congrArg (fun queue => queue.items.length) hput
    simp [AsyncQueue.put] at hlen

/-- Any symbol is the symbol of a tick. -/
def AnySymbol (cfg : Config) : Prop :=
  ∀ symbol : Str, symbol ≠ [] → ∃ tick : TradeTick cfg.toRuntime, tick.fields.instId = symbol

theorem narrows_iff_leaves (hany : AnySymbol cfg) (op : SymbolOp) :
    op.Narrows stream ↔ op.Leaves stream := by
  by_cases hnone : op.unsubscribed = []
  · refine iff_of_true ⟨?_, ?_⟩ (.inl hnone)
    · intro hop tick hpass
      rw [step_unsubscribe stream hop, hnone, List.diff_nil] at hpass
      exact hpass
    · intro record records raised hmem
      rw [hnone] at hmem
      cases hmem
  obtain ⟨first, hfirst⟩ := List.exists_mem_of_ne_nil _ hnone
  have hop := isUnsubscribe_of_mem hfirst
  have hstep := step_unsubscribe stream hop
  rw [leaves_iff stream hnone]
  constructor
  · intro h
    -- a tick of each symbol that was unsubscribed is kept out
    have hout : ∀ symbol ∈ op.unsubscribed, (step stream op).symbols ≠ [] ∧
        symbol ∉ (step stream op).symbols := by
      intro symbol hmem
      obtain ⟨tick, rfl⟩ := hany symbol (unsubscribed_ne_nil hmem)
      have hqueue := h.enqueued (0, tick) [] false hmem
      have hsame : stream.queue = (step stream op).queue := by rw [hstep]
      rw [hsame, tailFollowRecord_queue] at hqueue
      simpa [isTickForActiveSubscription] using hqueue
    rw [hstep] at hout
    exact ⟨(hout first hfirst).1, fun symbol hmem => (hout symbol hmem).2⟩
  · rintro ⟨hne, hgone⟩
    refine ⟨?_, ?_⟩
    · intro _ tick hpass
      rw [hstep] at hpass
      simp only [isTickForActiveSubscription, hne, decide_false, Bool.false_or,
        decide_eq_true_eq] at hpass
      simp [isTickForActiveSubscription, List.diff_subset _ _ hpass]
    · intro record records raised hmem
      have hsame : stream.queue = (step stream op).queue := by rw [hstep]
      rw [hsame, tailFollowRecord_queue, hstep]
      simp [isTickForActiveSubscription, hne, hgone _ hmem]

/-! ## Runs -/

/-- **Every unsubscription narrows the filter, exactly in the runs in which each leaves a symbol and
takes away all it names.** -/
theorem narrows_iff (hany : AnySymbol cfg) (ops : List SymbolOp) :
    Run.Each step (fun stream op => op.Narrows stream) stream ops ↔
      Run.Each step (fun stream op => op.Leaves stream) stream ops :=
  @Run.each_iff _ _ step (fun _ => True) _ _ (fun _ _ _ => trivial)
    (fun stream op _ => narrows_iff_leaves stream hany op) stream trivial ops

/-- The model class of the README does not look at the symbol. -/
theorem anySymbol_default : AnySymbol .default := by
  intro symbol _
  exact ⟨readmeTick symbol [], rfl⟩

/-- A stream of two symbols, in an empty directory. -/
def twoSymbols : JournalTickStream .default :=
  .new 5 (.new .empty) .empty ["BTCUSDT".toList, "ETHUSDT".toList]

/-- One symbol comes, two go. -/
theorem narrows_two_symbols :
    Run.Each step (fun stream op => op.Narrows stream) twoSymbols
      [.subscribeSymbol "SOLUSDT".toList,
        .unsubscribeSymbols ["BTCUSDT".toList, "ETHUSDT".toList]] :=
  (narrows_iff twoSymbols anySymbol_default _).mpr (by decide)

/-- **Without its last symbol, a stream takes every tick.** -/
theorem last_unsubscribed_accepted :
    ¬Run.Each step (fun stream op => op.Narrows stream) twoSymbols
      [.unsubscribeSymbol "BTCUSDT".toList, .unsubscribeSymbol "ETHUSDT".toList] := by
  rintro ⟨-, hlast, -⟩
  have hleaves := (narrows_iff_leaves _ anySymbol_default _).mp hlast
  revert hleaves
  decide

end SymbolOp

end Leviathan
