import Leviathan.Journal.Instance
import Leviathan.Journal.Readme
import Leviathan.Lib.DedupLog
import Leviathan.Lib.Run

/-!
# A journal is a deduplicated log

`DedupLog` says what a journal is for: it accepts a tick unless its trade id is among the last ones
of its symbol, numbers the ticks it accepts, and forgets a prefix. `journal_refines` shows that
every run of one instance behaves like that, in its file, its answers and its windows, and in what
`tail_from` yields.
-/

namespace Leviathan

open Py

variable {cfg : Config}

/-! ## Symbols -/

section Symbols

variable {rt : Runtime}

/-- The normalised symbol of a tick: `inst_id`, stripped and in upper case. -/
def normalisedSymbol (tick : TradeTick rt) : Str := upperStr rt (strip tick.fields.instId)

theorem upperStr_dropWhile (s : Str) :
    (upperStr rt s).dropWhile isSpace = upperStr rt (s.dropWhile isSpace) := by
  induction s with
  | nil => rfl
  | cons c s ih =>
    rw [upperStr, List.flatMap_cons]
    cases hc : isSpace c with
    | true =>
      rw [rt.upper_space c hc, List.dropWhile_cons_of_pos hc]
      simpa [hc, upperStr] using ih
    | false =>
      obtain ⟨hne, hall⟩ := rt.upper_letter c hc
      obtain ⟨d, ds, hd⟩ := List.exists_cons_of_ne_nil hne
      have hdc := hall d (by rw [hd]; simp)
      rw [List.dropWhile_cons_of_neg (by simp [hc]), hd]
      simp [hdc, upperStr, hd]

theorem upperStr_rdropWhile (s : Str) :
    (upperStr rt s).rdropWhile isSpace = upperStr rt (s.rdropWhile isSpace) := by
  induction s using List.reverseRecOn with
  | nil => rfl
  | append_singleton s c ih =>
    have happ : upperStr rt (s ++ [c]) = upperStr rt s ++ rt.upper c := by simp [upperStr]
    rw [happ]
    cases hc : isSpace c with
    | true =>
      rw [rt.upper_space c hc, List.rdropWhile_concat_pos _ _ _ hc, ih,
        List.rdropWhile_concat_pos _ _ _ hc]
    | false =>
      obtain ⟨hne, hall⟩ := rt.upper_letter c hc
      have hlast := hall _ (List.getLast_mem hne)
      rw [← List.dropLast_append_getLast hne, ← List.append_assoc,
        List.rdropWhile_concat_neg _ _ _ (by simp [hlast]),
        List.rdropWhile_concat_neg _ _ _ (by simp [hc]), happ, List.append_assoc, List.dropLast_append_getLast hne]

theorem strip_upperStr (s : Str) : strip (upperStr rt s) = upperStr rt (strip s) := by
  rw [strip, stripBy, upperStr_dropWhile, upperStr_rdropWhile, strip, stripBy]

theorem upperStr_eq_nil {s : Str} : upperStr rt s = [] ↔ s = [] := by
  constructor
  · intro h
    cases s with
    | nil => rfl
    | cons c s =>
      have hc := (List.append_eq_nil_iff.mp ((List.flatMap_cons ..).symm.trans h)).1
      cases hs : isSpace c with
      | true => rw [rt.upper_space c hs] at hc; cases hc
      | false => exact absurd hc (rt.upper_letter c hs).1
  · rintro rfl; rfl

end Symbols

/-! ## The runs of one instance -/

/-- A tick whose `inst_id` is not blank. -/
abbrev NamedTick (rt : Runtime) := { tick : TradeTick rt // strip tick.fields.instId ≠ [] }

inductive InstanceOp (cfg : Config) where
  | append (tick : NamedTick cfg.toRuntime)
  | flushMeta
  | compactBeforeSeq (minRetainSeq : Nat)

/-- What a journal is for. -/
abbrev TickLog (cfg : Config) := DedupLog (TradeTick cfg.toRuntime)

namespace TickLog

/-- The last accepted trade ids of a symbol. -/
def window (log : TickLog cfg) (symbol : Str) : List Str :=
  DedupLog.window normalisedSymbol (fun tick => tick.fields.tradeId) cfg.dedupWindow log symbol

/-- The trade id is not among the last accepted ones of the tick's symbol. -/
def Accepts (log : TickLog cfg) (tick : TradeTick cfg.toRuntime) : Prop :=
  DedupLog.Accepts normalisedSymbol (fun tick => tick.fields.tradeId) cfg.dedupWindow log tick

instance (log : TickLog cfg) (tick : TradeTick cfg.toRuntime) : Decidable (log.Accepts tick) :=
  inferInstanceAs (Decidable (DedupLog.Accepts _ _ _ log tick))

def step (log : TickLog cfg) : InstanceOp cfg → TickLog cfg
  | .append tick => if log.Accepts tick.1 then log.snoc tick.1 else log
  | .flushMeta => log
  | .compactBeforeSeq minRetainSeq => log.dropBefore minRetainSeq

end TickLog

namespace Instance

def step (s : Instance cfg) : InstanceOp cfg → Instance cfg
  | .append tick =>
    let (journal, disk, _) := s.journal.append s.disk tick.1
    { journal, disk }
  | .flushMeta =>
    let (journal, disk, _) := s.journal.flushMeta s.disk
    { journal, disk }
  | .compactBeforeSeq minRetainSeq =>
    let (journal, disk, _) := s.journal.compactBeforeSeq s.disk minRetainSeq
    { journal, disk }

/-- The lines of the journal file. -/
def lines (s : Instance cfg) : List Bytes := byteLines (s.disk.journalFile.getD [])

/-- An accepted append gives the next number and adds its line. -/
def AddsLine (s : Instance cfg) (tick : TradeTick cfg.toRuntime) : Prop :=
  let (journal, disk, answer) := s.journal.append s.disk tick
  answer = .ok (s.journal.latestSeq + 1) ∧
    (⟨journal, disk⟩ : Instance cfg).lines =
      s.lines ++ [recordBytes cfg.toRuntime (s.journal.latestSeq + 1, tick)]

/-- A rejected append gives the last number and changes neither the directory nor the windows. -/
def ChangesNothing (s : Instance cfg) (tick : TradeTick cfg.toRuntime) : Prop :=
  let (journal, disk, answer) := s.journal.append s.disk tick
  answer = .ok s.journal.latestSeq ∧ disk = s.disk ∧
    ∀ symbol, journal.metaStore.window symbol = s.journal.metaStore.window symbol

/-- **The instance behaves like the log.** -/
structure Implements (s : Instance cfg) (log : TickLog cfg) : Prop where
  lines : s.lines = log.records.map (recordBytes cfg.toRuntime)
  latestSeq : s.journal.latestSeq = log.accepted.length
  windows : ∀ symbol, s.journal.metaStore.window symbol = log.window symbol
  accepted : ∀ tick : NamedTick cfg.toRuntime, log.Accepts tick.1 → s.AddsLine tick.1
  rejected : ∀ tick : NamedTick cfg.toRuntime, ¬log.Accepts tick.1 → s.ChangesNothing tick.1
  /-- two polls, the second of which is empty -/
  tailFrom : ∀ clock fuel startSeq, 2 ≤ fuel →
    s.journal.tailFrom clock fuel s.disk startSeq = some ⟨since startSeq log.records, none⟩

/-- What every operation keeps between the two. -/
structure Simulates (s : Instance cfg) (log : TickLog cfg) : Prop where
  sound : s.journal.Sound s.disk log.records
  latestSeq : s.journal.latestSeq = log.accepted.length
  windows : ∀ symbol, s.journal.metaStore.window symbol = log.window symbol

theorem simulates_start : (start : Instance cfg).Simulates .empty :=
  ⟨.empty, rfl, fun symbol => by simp [TickLog.window, DedupLog.window, DedupLog.empty]; rfl⟩

theorem tickKeyOf_eq (tick : TradeTick cfg.toRuntime) :
    TickJournal.tickKeyOf tick = normalisedSymbol tick := by
  rw [TickJournal.tickKeyOf, MetaStore.bucketKey, strip_upperStr, upperStr_upperStr,
    normalisedSymbol]

theorem not_blankSymbol (tick : NamedTick cfg.toRuntime) :
    ¬TickJournal.BlankSymbol tick.1 := by
  rw [TickJournal.BlankSymbol, strip_upperStr, upperStr_eq_nil]
  exact tick.2

namespace Simulates

variable {s : Instance cfg} {log : TickLog cfg}

theorem accepts_iff (h : s.Simulates log) (tick : NamedTick cfg.toRuntime) :
    s.journal.Accepts tick.1 ↔ log.Accepts tick.1 := by
  unfold TickJournal.Accepts TickLog.Accepts DedupLog.Accepts
  rw [tickKeyOf_eq, h.windows]
  exact and_iff_right (not_blankSymbol tick)

theorem append (h : s.Simulates log) (tick : NamedTick cfg.toRuntime) :
    (s.step (.append tick)).Simulates (log.step (.append tick)) := by
  by_cases ha : s.journal.Accepts tick.1
  · have hp := TickJournal.append_current h.sound.current ha
    have hs := h.sound.append ha
    rw [TickLog.step, if_pos ((h.accepts_iff tick).mp ha)]
    refine ⟨?_, ?_, fun symbol => ?_⟩
    · rw [DedupLog.records_snoc, ← h.latestSeq]
      exact hs
    · refine hp.latestSeq.trans ?_
      rw [h.latestSeq]
      simp [DedupLog.snoc]
    · refine (hp.window symbol).trans ?_
      rw [TickLog.window, DedupLog.window_snoc cfg.dedupWindow_pos, tickKeyOf_eq, h.windows]
      rfl
  · have hr := TickJournal.append_rejected ha s.disk
    rw [TickLog.step, if_neg (mt (h.accepts_iff tick).mpr ha)]
    exact ⟨h.sound.append_rejected ha, hr.latestSeq.trans h.latestSeq,
      fun symbol => (hr.window symbol).trans (h.windows symbol)⟩

theorem step (s : Instance cfg) (log : TickLog cfg) (op : InstanceOp cfg) (h : s.Simulates log) :
    (s.step op).Simulates (log.step op) := by
  cases op with
  | append tick => exact h.append tick
  | flushMeta =>
    obtain ⟨hs, hsame⟩ := h.sound.flushMeta
    exact ⟨hs, hsame.latestSeq.trans h.latestSeq,
      fun symbol => (hsame.window symbol).trans (h.windows symbol)⟩
  | compactBeforeSeq minRetainSeq =>
    obtain ⟨hs, hsame, -, -⟩ := h.sound.compactBeforeSeq minRetainSeq
    refine ⟨?_, hsame.latestSeq.trans h.latestSeq,
      fun symbol => (hsame.window symbol).trans (h.windows symbol)⟩
    rw [TickLog.step, DedupLog.records_dropBefore]
    exact hs

/-- The relation is the behaviour that the log describes. -/
theorem implements (h : s.Simulates log) : s.Implements log := by
  have hlines : s.lines = log.records.map (recordBytes cfg.toRuntime) := by
    rw [lines, h.sound.file.getD, byteLines_journalBytes]
  refine ⟨hlines, h.latestSeq, h.windows, fun tick ha => ?_, fun tick ha => ?_,
    fun clock fuel startSeq hfuel => h.sound.tailFrom clock hfuel startSeq⟩
  · have ha := (h.accepts_iff tick).mpr ha
    obtain ⟨store, -, he⟩ := TickJournal.append_accepts ha s.disk
    have hanswer : (s.journal.append s.disk tick.1).2.2 = .ok (s.journal.latestSeq + 1) := by
      rw [he]
    have hadded : byteLines ((s.journal.append s.disk tick.1).2.1.journalFile.getD []) =
        s.lines ++ [recordBytes cfg.toRuntime (s.journal.latestSeq + 1, tick.1)] := by
      rw [(h.sound.append ha).file.getD, byteLines_journalBytes, List.map_append, hlines]
      rfl
    exact ⟨hanswer, hadded⟩
  · have ha := mt (h.accepts_iff tick).mp ha
    obtain ⟨store, -, -, hw, he⟩ := TickJournal.append_rejects ha s.disk
    rw [ChangesNothing, he, if_neg (not_blankSymbol tick)]
    exact ⟨rfl, rfl, hw⟩

end Simulates

/-- **Every run of one instance implements the deduplicated log of its ticks.** -/
theorem journal_refines (cfg : Config) (ops : List (InstanceOp cfg)) :
    (Run.exec step start ops).Implements (Run.exec TickLog.step .empty ops) :=
  (Run.exec_rel Simulates.step simulates_start ops).implements

end Instance

end Leviathan
