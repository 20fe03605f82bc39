import Leviathan.Proofs.DurableCursor
import Leviathan.Proofs.Observers

/-!
# The consumer across crashes

An engine takes the ticks of a stream one by one and marks each when it is done with it, whether the
work on it raised or not. The engine may die at any point: what its queue held and the tick in its
hand are lost, and the next engine starts from the saved cursor. The collector goes on meanwhile.

* `atMostOnce`: no record is marked twice, and the marked records are in the journal's order.
* `inOrder_all`: an engine that subscribes to every symbol rejects no record.
* `marked_once_iff`: **in every state the marked records are all the accepted ones up to the saved
  cursor, and the engine can go on to mark the rest, exactly in the runs in which a record is
  rejected only when no tick waits.**
-/

namespace Leviathan

open Py JournalTickStream

variable {cfg : Config}

/-- A collector, and an engine that may be restarted. -/
structure Consumer (cfg : Config) where
  /-- the collector and the stream of the engine -/
  cut : Cut cfg
  /-- the tick that the engine works on -/
  holding : Option (Rec cfg.toRuntime)
  /-- what the engines before this one marked -/
  earlier : List (Rec cfg.toRuntime)
  /-- what this engine marked -/
  marked : List (Rec cfg.toRuntime)

inductive ConsumerOp (cfg : Config) where
  | append (tick : TradeTick cfg.toRuntime)
  | flushMeta
  /-- the engine dies, and a new one opens the journal and the stream -/
  | crash (maxWaitSeconds : Rat)
  | startStreaming
  | stop
  /-- the streaming task is cancelled -/
  | cancel
  | poll (now : Rat)
  /-- the loop reaches the next record; `raised` tells that an observer raises -/
  | record (raised : Bool)
  /-- `async for tick in stream`, which asks for a tick when the last one is marked -/
  | take
  /-- the `finally` of the `for` -/
  | finish

/-- The steps of the engine. -/
def ConsumerOp.Own : ConsumerOp cfg → Prop
  | .append _ | .flushMeta | .crash _ | .stop => False
  | _ => True

namespace Consumer

variable (symbols : List Str)

/-- An engine in an empty directory. -/
def start (maxWaitSeconds : Rat) : Consumer cfg := ⟨.start maxWaitSeconds symbols, none, [], []⟩

def step (s : Consumer cfg) : ConsumerOp cfg → Consumer cfg
  | .append tick => { s with cut := s.cut.step (.append tick) }
  | .flushMeta => { s with cut := s.cut.step .flushMeta }
  | .crash maxWaitSeconds =>
    ⟨s.cut.step (.openStream maxWaitSeconds symbols), none, s.earlier ++ s.marked, []⟩
  | .startStreaming => { s with cut := s.cut.step .startStreaming }
  | .stop => { s with cut := s.cut.step .stop }
  | .cancel => { s with cut := s.cut.step .cancel }
  | .poll now => { s with cut := s.cut.step (.poll now) }
  | .record raised => { s with cut := s.cut.step (.record raised) }
  | .take =>
    match s.holding with
    | some _ => s
    | none => { s with cut := s.cut.step .wait, holding := s.cut.stream.queue.items.head? }
  | .finish =>
    match s.holding with
    | some r => ⟨s.cut.step .mark, none, s.earlier, s.marked ++ [r]⟩
    | none => s

def processed (s : Consumer cfg) : List (Rec cfg.toRuntime) := s.earlier ++ s.marked

/-- The records of the journal that the engine is to process. -/
def accepted (s : Consumer cfg) : List (Rec cfg.toRuntime) := s.cut.appended.filter (accepts symbols)

/-- The saved cursor's `last_processed_seq`. -/
def saved (s : Consumer cfg) : Nat := TickJournal.loadCursor s.cut.disk

/-- A record is rejected only when no tick waits. -/
def InOrder (s : Consumer cfg) : ConsumerOp cfg → Prop
  | .record _ => ∀ r ∈ s.cut.stream.records.head?, accepts symbols r = false →
    s.holding = none ∧ s.cut.stream.queue.items = []
  | _ => True

/-- No record is marked twice or out of order, and no mark raises. -/
structure AtMostOnce (s : Consumer cfg) : Prop where
  marked : s.processed.Sublist (s.accepted symbols)
  quiet : s.holding.isSome → s.cut.stream.markTickAsProcessed.2 = .ok ()

/-- The records up to the saved cursor are marked, and the engine can mark the others. -/
structure OnceEach (s : Consumer cfg) : Prop where
  marked : s.processed = before (s.saved + 1) (s.accepted symbols)
  complete : ∃ more : List (ConsumerOp cfg), (∀ op ∈ more, op.Own) ∧
    (Run.exec (step symbols) s more).processed = s.accepted symbols

/-- What the stream sees of the engine. -/
def delivery (s : Consumer cfg) : Delivery cfg := ⟨s.cut.stream, s.holding.toList⟩

/-- What every state of a run has. -/
structure Inv (s : Consumer cfg) : Prop where
  cut : s.cut.Inv
  delivery : s.delivery.Inv
  symbols_eq : s.cut.stream.symbols = symbols
  returned : s.cut.returned = s.marked ++ s.holding.toList
  pending : s.cut.stream.pendingSeq = s.holding.map fun r => r.1
  earlier : s.earlier.Sublist (before (s.cut.cut + 1) (s.accepted symbols))
  cutSaved : s.cut.cut ≤ s.saved
  markedSaved : ∀ r ∈ s.marked, r.1 ≤ s.saved
  savedTip : s.saved ≤ s.cut.collector.latestSeq

variable {symbols} {s : Consumer cfg}

theorem inv_start (maxWaitSeconds : Rat) : (start symbols maxWaitSeconds : Consumer cfg).Inv symbols :=
  ⟨Cut.inv_start maxWaitSeconds symbols, Delivery.inv_start maxWaitSeconds _ _ symbols, rfl, rfl, rfl,
    .slnil, Nat.le_refl _, nofun, Nat.zero_le _⟩

/-! ## The records -/

/-- Later records are not before `n`. -/
theorem before_append_of_ge {A B : List (Rec cfg.toRuntime)} {n : Nat} (hB : ∀ r ∈ B, n ≤ r.1) :
    before n (A ++ B) = before n A := by
  induction A with
  | nil =>
    cases B with
    | nil => rfl
    | cons r B => simp [before, Nat.not_lt.mpr (hB r (by simp))]
  | cons a A ih =>
    by_cases ha : a.1 < n
    · simpa [before, ha] using ih
    · simp [before, ha]

/-- Where the records before `n` end. -/
theorem before_of_split {A B : List (Rec cfg.toRuntime)} {n : Nat} (hA : ∀ r ∈ A, r.1 < n)
    (hB : ∀ r ∈ B, n ≤ r.1) : before n (A ++ B) = A := by
  have hall := before_append (B := []) hA
  rw [before_append_of_ge hB]
  simpa [before] using hall

theorem sublist_before {rs rs' : List (Rec cfg.toRuntime)} {n : Nat} (hrs : Increasing rs)
    (hsub : rs'.Sublist rs) (hlt : ∀ r ∈ rs', r.1 < n) : rs'.Sublist (before n rs) := by
  have hfilter : rs.filter (fun r => r.1 < n) = before n rs := by
    rw [← before_append_since hrs n, List.filter_append, before_append_since hrs n]
    have hnone : (since n rs).filter (fun r => decide (r.1 < n)) = [] :=
      List.filter_eq_nil_iff.mpr fun r hr => by simpa using (mem_since.mp hr).2
    have hall : (before n rs).filter (fun r => decide (r.1 < n)) = before n rs :=
      List.filter_eq_self.mpr fun r hr => decide_eq_true (mem_before hr)
    rw [hnone, hall, List.append_nil]
  rw [← hfilter, ← List.filter_eq_self.mpr fun r hr => decide_eq_true (hlt r hr)]
  exact hsub.filter _

theorem since_accepted (s : Consumer cfg) (n : Nat) :
    since n (s.accepted symbols) = Cut.acceptedSince symbols n s.cut.appended :=
  List.filter_comm _ _ _

theorem Inv.increasing (h : s.Inv symbols) : Increasing (s.accepted symbols) :=
  List.Pairwise.filter _ h.cut.sound.increasing

/-- What the loop has not reached. -/
def ahead (symbols : List Str) (s : Consumer cfg) : List (Rec cfg.toRuntime) :=
  since s.cut.stream.readFrom (s.accepted symbols)

/-- **Conservation.** An accepted record past the cursor that the engine began with is marked, waits
or is ahead. -/
theorem Inv.conserved (h : s.Inv symbols) :
    s.marked ++ (s.delivery.unprocessed ++ s.ahead symbols) =
      since (s.cut.cut + 1) (s.accepted symbols) := by
  have hdel := h.cut.delivered
  rw [h.returned, Cut.wanted, h.symbols_eq, ← since_accepted, ← since_accepted] at hdel
  rw [← hdel, ahead, Delivery.unprocessed, Consumer.delivery]
  simp only [List.append_assoc]

theorem Inv.saved_lt_ahead (h : s.Inv symbols) : ∀ r ∈ s.ahead symbols, s.saved < r.1 := by
  intro r hr
  have hcursor : s.saved < s.cut.stream.nextSeq := Nat.lt_of_le_of_lt (Nat.le_of_eq h.delivery.saved)
    h.delivery.cursor
  have hfrom := (mem_since.mp hr).2
  cases hb : s.cut.stream.records with
  | nil =>
    rw [readFrom_nil hb] at hfrom
    omega
  | cons x records =>
    have hx := h.delivery.records.2 x (by simp [Consumer.delivery, hb])
    rw [readFrom_cons hb] at hfrom
    exact Nat.lt_of_lt_of_le hcursor (Nat.le_trans hx hfrom)

/-- Nothing was lost before the engine began. -/
def EarlierDone (symbols : List Str) (s : Consumer cfg) : Prop :=
  s.earlier = before (s.cut.cut + 1) (s.accepted symbols)

theorem Inv.accepted_eq (h : s.Inv symbols) (hdone : s.EarlierDone symbols) :
    s.processed ++ (s.delivery.unprocessed ++ s.ahead symbols) = s.accepted symbols := by
  rw [processed, List.append_assoc, h.conserved, hdone]
  exact before_append_since h.increasing _

theorem Inv.earlier_le (h : s.Inv symbols) : ∀ r ∈ s.earlier, r.1 ≤ s.cut.cut := by
  intro r hr
  exact Nat.le_of_lt_succ (mem_before (h.earlier.subset hr))

theorem Inv.processed_le (h : s.Inv symbols) : ∀ r ∈ s.processed, r.1 < s.saved + 1 := by
  intro r hr
  rcases List.mem_append.mp hr with hr | hr
  · have := h.earlier_le r hr
    have := h.cutSaved
    omega
  · exact Nat.lt_succ_of_le (h.markedSaved r hr)

/-- **The marked records are those up to the cursor where the cursor is behind what waits**, and was
so when the engines before died. -/
theorem Inv.marked_iff (h : s.Inv symbols) :
    s.processed = before (s.saved + 1) (s.accepted symbols) ↔
      s.EarlierDone symbols ∧ s.delivery.CursorBehind := by
  constructor
  · intro hmarked
    have hall := before_append_since h.increasing (s.saved + 1)
    rw [← hmarked] at hall
    have hdone : s.EarlierDone symbols := by
      unfold EarlierDone
      rw [← hall, processed, List.append_assoc]
      symm
      have hbefore : ∀ r ∈ s.earlier, r.1 < s.cut.cut + 1 := fun r hr =>
        Nat.lt_succ_of_le (h.earlier_le r hr)
      apply before_of_split hbefore
      intro r hr
      rcases List.mem_append.mp hr with hr | hr
      · have hmem : r ∈ since (s.cut.cut + 1) (s.accepted symbols) := by
          rw [← h.conserved]
          exact List.mem_append_left _ hr
        exact (mem_since.mp hmem).2
      · have := (mem_since.mp hr).2
        have := h.cutSaved
        omega
    have hrest : s.delivery.unprocessed ++ s.ahead symbols =
        since (s.saved + 1) (s.accepted symbols) :=
      List.append_cancel_left ((h.accepted_eq hdone).trans hall.symm)
    have hbehind : ∀ r ∈ s.delivery.unprocessed, s.saved < r.1 := by
      intro r hr
      exact (mem_since.mp (hrest ▸ List.mem_append_left _ hr)).2
    refine ⟨hdone, hbehind, fun seq hseq => ?_⟩
    obtain ⟨T, r, hT, rfl⟩ := h.delivery.pending seq hseq
    exact hbehind r (by simp [Delivery.unprocessed, hT])
  · rintro ⟨hdone, hbehind, -⟩
    rw [← h.accepted_eq hdone]
    symm
    apply before_of_split h.processed_le
    intro r hr
    rcases List.mem_append.mp hr with hr | hr
    · exact hbehind r hr
    · exact h.saved_lt_ahead r hr

theorem Inv.sublist (h : s.Inv symbols) : s.processed.Sublist (s.accepted symbols) := by
  rw [← before_append_since h.increasing (s.cut.cut + 1), ← h.conserved]
  exact h.earlier.append (List.sublist_append_left _ _)

/-! ## The collector and the loop -/

/-- What a step of the collector or of the loop leaves: new records are past the journal's tip, and
the cursor goes up. -/
structure Grows (cut cut' : Cut cfg) : Prop where
  cut_eq : cut'.cut = cut.cut
  returned : cut'.returned = cut.returned
  symbols : cut'.stream.symbols = cut.stream.symbols
  pendingSeq : cut'.stream.pendingSeq = cut.stream.pendingSeq
  appended : ∃ rs, cut'.appended = cut.appended ++ rs ∧ ∀ r ∈ rs, cut.collector.latestSeq < r.1
  latestSeq : cut.collector.latestSeq ≤ cut'.collector.latestSeq
  saved : TickJournal.loadCursor cut.disk ≤ TickJournal.loadCursor cut'.disk
  savedTip : TickJournal.loadCursor cut.disk ≤ cut.collector.latestSeq →
    TickJournal.loadCursor cut'.disk ≤ cut'.collector.latestSeq

/-- A step that the consumer and the cursor do not see. -/
theorem Grows.of_sameDelivery {stream : JournalTickStream cfg} (hsame : SameDelivery s.cut.stream stream)
    (hsymbols : stream.symbols = s.cut.stream.symbols) : Grows s.cut { s.cut with stream } := by
  have hsaved : TickJournal.loadCursor stream.tail.disk = TickJournal.loadCursor s.cut.disk :=
    congrArg (·.getD 0) hsame.cursorFile
  exact ⟨rfl, rfl, hsymbols, hsame.pendingSeq,
    ⟨[], (List.append_nil _).symm, List.forall_mem_nil _⟩, Nat.le_refl _,
    Nat.le_of_eq hsaved.symm, fun h => Nat.le_trans (Nat.le_of_eq hsaved) h⟩

/-- The records up to the tip stay. -/
theorem Grows.before_accepted {cut : Cut cfg} (hg : Grows s.cut cut) (symbols : List Str) {n : Nat}
    (hn : n ≤ s.cut.collector.latestSeq) :
    before (n + 1) (({ s with cut } : Consumer cfg).accepted symbols) =
      before (n + 1) (s.accepted symbols) := by
  obtain ⟨rs, hrs, hnew⟩ := hg.appended
  have hnone : ∀ r ∈ rs.filter (accepts symbols), n + 1 ≤ r.1 := by
    intro r hr
    have := hnew r (List.mem_filter.mp hr).1
    omega
  simp only [accepted, hrs, List.filter_append]
  exact before_append_of_ge hnone

/-- **A step of the collector or of the loop.** -/
theorem Inv.grow (h : s.Inv symbols) {cut : Cut cfg} (hg : Grows s.cut cut) (hcut : cut.Inv)
    (hdelivery : ({ s with cut } : Consumer cfg).delivery.Inv) :
    ({ s with cut } : Consumer cfg).Inv symbols ∧
      (s.EarlierDone symbols → ({ s with cut } : Consumer cfg).EarlierDone symbols) := by
  have hbefore := hg.before_accepted symbols
    (Nat.le_trans h.cutSaved h.savedTip)
  refine ⟨⟨hcut, hdelivery, hg.symbols.trans h.symbols_eq, hg.returned.trans h.returned,
    hg.pendingSeq.trans h.pending, ?_, ?_, ?_, ?_⟩, ?_⟩
  · simp only [hg.cut_eq, hbefore]
    exact h.earlier
  · simp only [hg.cut_eq]
    exact Nat.le_trans h.cutSaved hg.saved
  · exact fun r hr => Nat.le_trans (h.markedSaved r hr) hg.saved
  · exact hg.savedTip h.savedTip
  · intro hdone
    simp only [EarlierDone, hg.cut_eq, hbefore]
    exact hdone

theorem grows_append (h : s.Inv symbols) (tick : TradeTick cfg.toRuntime) :
    Grows s.cut (s.cut.step (.append tick)) ∧
      SameDelivery s.cut.stream (s.cut.step (.append tick)).stream := by
  by_cases ha : s.cut.collector.Accepts tick
  · have happ := TickJournal.append_current h.cut.sound.current ha
    have hsaved : TickJournal.loadCursor (s.cut.collector.append s.cut.disk tick).2.1 =
        TickJournal.loadCursor s.cut.disk := congrArg (·.getD 0) happ.cursorFile
    have hstep : s.cut.step (.append tick) =
        { s.cut with
          collector := (s.cut.collector.append s.cut.disk tick).1
          stream := s.cut.withDisk (s.cut.collector.append s.cut.disk tick).2.1
          appended := s.cut.appended ++ [(s.cut.collector.latestSeq + 1, tick)] } := by
      simp only [Cut.step, ha, ↓reduceIte]
    rw [hstep]
    refine ⟨⟨rfl, rfl, rfl, rfl, ⟨_, rfl, ?_⟩, ?_, Nat.le_of_eq hsaved.symm, fun hle => ?_⟩,
      ⟨rfl, rfl, rfl, rfl, happ.cursorFile⟩⟩
    · intro r hr
      rw [List.mem_singleton.mp hr]
      exact Nat.lt_succ_self _
    · simp only [happ.latestSeq]
      exact Nat.le_succ _
    · simp only [happ.latestSeq]
      exact Nat.le_succ_of_le (Nat.le_trans (Nat.le_of_eq hsaved) hle)
  · have hrej := TickJournal.append_rejected ha s.cut.disk
    have hstep : s.cut.step (.append tick) =
        { s.cut with
          collector := (s.cut.collector.append s.cut.disk tick).1
          stream := s.cut.withDisk (s.cut.collector.append s.cut.disk tick).2.1 } := by
      simp only [Cut.step, ha, ↓reduceIte]
    rw [hstep, hrej.disk]
    refine ⟨⟨rfl, rfl, rfl, rfl, ⟨[], (List.append_nil _).symm, List.forall_mem_nil _⟩, ?_,
      Nat.le_refl _, fun hle => ?_⟩, .refl _⟩
    · exact Nat.le_of_eq hrej.latestSeq.symm
    · exact Nat.le_trans hle (Nat.le_of_eq hrej.latestSeq.symm)

theorem grows_flushMeta (h : s.Inv symbols) :
    Grows s.cut (s.cut.step .flushMeta) ∧
      SameDelivery s.cut.stream (s.cut.step .flushMeta).stream := by
  have hlatest : (s.cut.collector.flushMeta s.cut.disk).1.latestSeq = s.cut.collector.latestSeq :=
    h.cut.sound.flushMeta.2.latestSeq
  have hfile := TickJournal.flushMeta_cursorFile s.cut.collector s.cut.disk
  have hsaved : TickJournal.loadCursor (s.cut.collector.flushMeta s.cut.disk).2.1 =
      TickJournal.loadCursor s.cut.disk := congrArg (·.getD 0) hfile
  exact ⟨⟨rfl, rfl, rfl, rfl, ⟨[], (List.append_nil _).symm, List.forall_mem_nil _⟩,
    Nat.le_of_eq hlatest.symm, Nat.le_of_eq hsaved.symm,
    fun hle => Nat.le_trans (Nat.le_of_eq hsaved) (Nat.le_trans hle (Nat.le_of_eq hlatest.symm))⟩,
    ⟨rfl, rfl, rfl, rfl, hfile⟩⟩

theorem grows_record (h : s.Inv symbols) (raised : Bool) :
    Grows s.cut (s.cut.step (.record raised)) := by
  cases hr : s.cut.stream.records with
  | nil =>
    have hs : s.cut.step (.record raised) = s.cut := by
      simp only [Cut.step, tailFollowRecord, hr]
    rw [hs]
    exact .of_sameDelivery (.refl _) rfl
  | cons r records =>
    obtain ⟨hpassed, -⟩ := tailFollowRecord_passed hr raised
    obtain ⟨hlt, -, hsaved⟩ := Delivery.record_cursor h.delivery hr raised
    obtain ⟨A, B, hAB⟩ := h.cut.batch
    have hle := (h.cut.sound.numbers r (by simp [hAB, hr])).2
    have hlt : s.saved < r.1 := Nat.lt_of_le_of_lt (Nat.le_of_eq h.delivery.saved) hlt
    have hsaved : TickJournal.loadCursor (s.cut.step (.record raised)).disk =
        if accepts s.cut.stream.symbols r then s.saved else r.1 := hsaved
    refine ⟨rfl, rfl, hpassed.symbols, hpassed.pendingSeq,
      ⟨[], (List.append_nil _).symm, List.forall_mem_nil _⟩, Nat.le_refl _, ?_, fun hup => ?_⟩
    · rw [hsaved]
      split
      · exact Nat.le_refl _
      · exact Nat.le_of_lt hlt
    · rw [hsaved]
      split
      · exact hup
      · exact hle

/-! ## The engine -/

theorem inv_crash (h : s.Inv symbols) (maxWaitSeconds : Rat) :
    (s.step symbols (.crash maxWaitSeconds)).Inv symbols :=
  ⟨Cut.inv_step s.cut (.openStream maxWaitSeconds symbols) h.cut trivial,
    Delivery.inv_start maxWaitSeconds _ _ symbols, rfl, rfl, rfl,
    sublist_before h.increasing h.sublist h.processed_le, Nat.le_refl _, nofun, h.savedTip⟩

/-- The next tick is taken. -/
theorem take_cases (symbols : List Str) (hnone : s.holding = none) :
    s.cut.stream.queue.items = [] ∧ s.step symbols .take = s ∨
      ∃ r items, s.cut.stream.queue.items = r :: items ∧ s.step symbols .take =
        { s with
          cut := { s.cut with
            stream := { s.cut.stream with
              queue := { s.cut.stream.queue with items }
              pendingSeq := some r.1
              pendingInvalidatedByCursor := false }
            returned := s.cut.returned ++ [r] }
          holding := some r } := by
  cases hq : s.cut.stream.queue.items with
  | nil =>
    refine .inl ⟨rfl, ?_⟩
    simp only [step, hnone, Cut.step, waitForNextTick, hq, List.head?_nil]
    rw [← hnone]
  | cons r items =>
    refine .inr ⟨r, items, rfl, ?_⟩
    simp only [step, hnone, Cut.step, waitForNextTick, hq, List.take_succ_cons, List.take_zero,
      List.head?_cons]

theorem take_delivery (symbols : List Str) (hnone : s.holding = none) :
    (s.step symbols .take).delivery = s.delivery.step .wait := by
  rcases take_cases symbols hnone with ⟨hq, hs⟩ | ⟨r, items, hq, hs⟩
  · rw [hs]
    simp only [delivery, Delivery.step, waitForNextTick, hq]
  · rw [hs]
    simp only [delivery, Delivery.step, waitForNextTick, hq, hnone, Option.toList_none,
      Option.toList_some, List.take_succ_cons, List.take_zero, List.nil_append]

theorem inv_take (h : s.Inv symbols) : (s.step symbols .take).Inv symbols := by
  cases hnone : s.holding with
  | some r =>
    have hs : s.step symbols .take = s := by simp only [step, hnone]
    rw [hs]
    exact h
  | none =>
    have hdelivery := Delivery.inv_step s.delivery .wait h.delivery
    rw [← take_delivery symbols hnone] at hdelivery
    have hcut := Cut.inv_wait h.cut
    have hreturned := h.returned
    rcases take_cases symbols hnone with ⟨hq, hs⟩ | ⟨r, items, hq, hs⟩
    · rw [hs]
      exact h
    · have hcut' : (s.step symbols .take).cut = s.cut.step .wait := by simp only [step, hnone]
      rw [← hcut'] at hcut
      rw [hs] at hcut hdelivery ⊢
      refine ⟨hcut, hdelivery, h.symbols_eq, ?_, rfl, h.earlier, h.cutSaved, h.markedSaved,
        h.savedTip⟩
      simp only [hreturned, hnone, Option.toList_none, List.append_nil, Option.toList_some]

theorem finish_some (symbols : List Str) {r : Rec cfg.toRuntime} (hr : s.holding = some r) :
    s.step symbols .finish = ⟨s.cut.step .mark, none, s.earlier, s.marked ++ [r]⟩ := by
  simp only [step, hr]

/-- The tick in hand is marked, and the cursor is saved at it. -/
theorem finish_cases (h : s.Inv symbols) {r : Rec cfg.toRuntime} (hr : s.holding = some r) :
    s.cut.stream.markTickAsProcessed.2 = .ok () ∧
      (s.step symbols .finish).delivery = s.delivery.step .mark ∧
      (s.step symbols .finish).saved = max s.saved r.1 ∧
      (s.step symbols .finish).cut.stream.pendingSeq = none ∧
      (s.step symbols .finish).cut.stream.symbols = symbols := by
  have hpending : s.cut.stream.pendingSeq = some r.1 := by rw [h.pending, hr]; rfl
  have htasks := h.delivery.tasks
  have hlen : 0 < s.delivery.unprocessed.length := by
    simp [Delivery.unprocessed, Consumer.delivery, hr]
  have hmark := markTickAsProcessed_pending hpending
    (Nat.lt_of_lt_of_le hlen htasks)
  obtain ⟨-, hsaved, -, -⟩ := persistCursorThrough_cursor r.1 h.delivery.saved
  have hsymbols := (s.cut.stream.persistCursorThrough_sameLoop r.1).symbols
  refine ⟨congrArg Prod.snd hmark, ?_, ?_, ?_, ?_⟩
  · simp only [step, hr, Consumer.delivery, Delivery.step, Cut.step, hpending, hmark]
    rfl
  · simp only [step, hr, saved, Cut.step, Cut.disk, hmark]
    rw [show TickJournal.loadCursor s.cut.stream.tail.disk = s.cut.stream.cursor from
      h.delivery.saved]
    exact hsaved
  · simp only [step, hr, Cut.step, hmark]
  · simp only [step, hr, Cut.step, hmark]
    exact hsymbols.trans h.symbols_eq

theorem inv_finish (h : s.Inv symbols) : (s.step symbols .finish).Inv symbols := by
  cases hr : s.holding with
  | none =>
    have hs : s.step symbols .finish = s := by simp only [step, hr]
    rw [hs]
    exact h
  | some r =>
    obtain ⟨-, hdelivery, hsaved, hpending, hsymbols⟩ := finish_cases h hr
    have hmem : r ∈ s.accepted symbols := by
      have hr : r ∈ since (s.cut.cut + 1) (s.accepted symbols) := by
        rw [← h.conserved]
        simp [Delivery.unprocessed, Consumer.delivery, hr]
      exact (mem_since.mp hr).1
    have hle := (h.cut.sound.numbers r (List.mem_filter.mp hmem).1).2
    have hinv := Delivery.inv_step s.delivery .mark h.delivery
    have hcut := Cut.inv_step s.cut .mark h.cut trivial
    have hreturned := h.returned
    rw [← hdelivery] at hinv
    refine ⟨?_, hinv, hsymbols, ?_, ?_, ?_, ?_, ?_, ?_⟩
    · simp only [step, hr]
      exact hcut
    · simp only [step, hr, Option.toList_none, List.append_nil]
      rw [hr] at hreturned
      exact hreturned
    · rw [hpending]
      simp only [step, hr, Option.map_none]
    · simp only [step, hr]
      exact h.earlier
    · rw [hsaved]
      simp only [step, hr]
      exact Nat.le_trans h.cutSaved (Nat.le_max_left _ _)
    · rw [hsaved]
      simp only [step, hr]
      intro x hx
      rcases List.mem_append.mp hx with hx | hx
      · exact Nat.le_trans (h.markedSaved x hx) (Nat.le_max_left _ _)
      · rw [List.mem_singleton.mp hx]
        exact Nat.le_max_right _ _
    · rw [hsaved]
      simp only [step, hr]
      exact Nat.max_le.mpr ⟨h.savedTip, hle⟩

/-- A step of the collector or of the loop, and what the engine sees of it. -/
theorem Inv.loop (h : s.Inv symbols) (op : CutOp cfg) (hop : s.cut.NotStale op)
    (hg : Grows s.cut (s.cut.step op))
    (hdelivery : Delivery.Inv ⟨(s.cut.step op).stream, s.holding.toList⟩) :
    ({ s with cut := s.cut.step op } : Consumer cfg).Inv symbols ∧
      (s.EarlierDone symbols →
        ({ s with cut := s.cut.step op } : Consumer cfg).EarlierDone symbols) :=
  h.grow hg (Cut.inv_step s.cut op h.cut hop) hdelivery

/-- **One step.** The invariant stays, and so does what the engines before this one marked; the
cursor stays behind what waits exactly where the step is in order. -/
theorem step_spec (s : Consumer cfg) (op : ConsumerOp cfg) (h : s.Inv symbols) :
    (s.step symbols op).Inv symbols ∧
      (s.EarlierDone symbols → s.delivery.CursorBehind →
        (s.step symbols op).EarlierDone symbols ∧
          ((s.step symbols op).delivery.CursorBehind ↔ s.InOrder symbols op)) := by
  have hdelivery (dop : DeliveryOp cfg) := Delivery.inv_step s.delivery dop h.delivery
  have hbehind (dop : DeliveryOp cfg) := Delivery.behind_step s.delivery dop h.delivery
  cases op with
  | append tick =>
    obtain ⟨hg, hsame⟩ := grows_append h tick
    obtain ⟨hinv, hdone⟩ := h.loop (.append tick) trivial hg (h.delivery.same hsame (.inl rfl))
    exact ⟨hinv, fun hd hb => ⟨hdone hd, iff_of_true (hb.same hsame) trivial⟩⟩
  | flushMeta =>
    obtain ⟨hg, hsame⟩ := grows_flushMeta h
    obtain ⟨hinv, hdone⟩ := h.loop .flushMeta trivial hg (h.delivery.same hsame (.inl rfl))
    exact ⟨hinv, fun hd hb => ⟨hdone hd, iff_of_true (hb.same hsame) trivial⟩⟩
  | crash maxWaitSeconds =>
    refine ⟨inv_crash h maxWaitSeconds, fun hd hb => ⟨?_, iff_of_true ⟨nofun, nofun⟩ trivial⟩⟩
    exact h.marked_iff.mpr ⟨hd, hb⟩
  | startStreaming =>
    have hsymbols : s.cut.stream.startStreaming.symbols = s.cut.stream.symbols := by
      unfold startStreaming
      split <;> rfl
    obtain ⟨hinv, hdone⟩ := h.loop .startStreaming trivial
      (.of_sameDelivery s.cut.stream.startStreaming_any.1 hsymbols) (hdelivery .startStreaming)
    exact ⟨hinv, fun hd hb => ⟨hdone hd, hbehind .startStreaming hb⟩⟩
  | stop =>
    obtain ⟨hinv, hdone⟩ := h.loop .stop trivial
      (.of_sameDelivery ⟨rfl, rfl, rfl, rfl, rfl⟩ rfl) (hdelivery .stop)
    exact ⟨hinv, fun hd hb => ⟨hdone hd, hbehind .stop hb⟩⟩
  | cancel =>
    obtain ⟨hinv, hdone⟩ := h.loop .cancel trivial
      (.of_sameDelivery ⟨rfl, rfl, rfl, rfl, rfl⟩ rfl) (hdelivery .cancel)
    exact ⟨hinv, fun hd hb => ⟨hdone hd, hbehind .cancel hb⟩⟩
  | poll now =>
    obtain ⟨hsame, -, hsymbols, -⟩ := s.cut.stream.tailFollowPoll_any now
    obtain ⟨hinv, hdone⟩ := h.loop (.poll now) trivial
      (.of_sameDelivery hsame hsymbols) (hdelivery (.poll now))
    exact ⟨hinv, fun hd hb => ⟨hdone hd, hbehind (.poll now) hb⟩⟩
  | record raised =>
    obtain ⟨hinv, hdone⟩ := h.loop (.record raised) trivial (grows_record h raised)
      (hdelivery (.record raised))
    refine ⟨hinv, fun hd hb => ⟨hdone hd, (hbehind (.record raised) hb).trans ?_⟩⟩
    simp only [Delivery.InOrder, InOrder, delivery, h.symbols_eq, Delivery.unprocessed,
      List.append_eq_nil_iff, Option.toList_eq_nil_iff]
  | take =>
    refine ⟨inv_take h, fun hd hb => ?_⟩
    cases hr : s.holding with
    | some r =>
      have hs : s.step symbols .take = s := by simp only [step, hr]
      rw [hs]
      exact ⟨hd, iff_of_true hb trivial⟩
    | none =>
      refine ⟨?_, ?_⟩
      · rcases take_cases symbols hr with ⟨-, hs⟩ | ⟨r, items, -, hs⟩
        · rw [hs]; exact hd
        · rw [hs]; exact hd
      · rw [take_delivery symbols hr]
        exact hbehind .wait hb
  | finish =>
    refine ⟨inv_finish h, fun hd hb => ?_⟩
    cases hr : s.holding with
    | none =>
      have hs : s.step symbols .finish = s := by simp only [step, hr]
      rw [hs]
      exact ⟨hd, iff_of_true hb trivial⟩
    | some r =>
      refine ⟨?_, ?_⟩
      · simp only [step, hr]
        exact hd
      · rw [(finish_cases h hr).2.1]
        refine (hbehind .mark hb).trans (iff_of_true (fun _ => ?_) trivial)
        simp only [delivery, hr, Option.toList_some, List.length_singleton, Nat.le_refl]

/-! ## To the end of the journal -/

/-- The steps of the engine leave the journal and what was marked before. -/
theorem own_step (symbols : List Str) (s : Consumer cfg) {op : ConsumerOp cfg} (hop : op.Own) :
    (s.step symbols op).cut.appended = s.cut.appended ∧ (s.step symbols op).cut.cut = s.cut.cut ∧
      (s.step symbols op).earlier = s.earlier := by
  cases op with
  | startStreaming => exact ⟨rfl, rfl, rfl⟩
  | cancel => exact ⟨rfl, rfl, rfl⟩
  | poll now => exact ⟨rfl, rfl, rfl⟩
  | record raised => exact ⟨rfl, rfl, rfl⟩
  | take =>
    cases hr : s.holding with
    | some r => simp only [step, hr, and_self]
    | none =>
      rcases take_cases symbols hr with ⟨-, hs⟩ | ⟨r, items, -, hs⟩
      · rw [hs]; exact ⟨rfl, rfl, rfl⟩
      · rw [hs]; exact ⟨rfl, rfl, rfl⟩
  | finish =>
    cases hr : s.holding with
    | some r =>
      rw [finish_some symbols hr]
      exact ⟨rfl, rfl, rfl⟩
    | none => simp only [step, hr, and_self]
  | append tick => exact hop.elim
  | flushMeta => exact hop.elim
  | crash maxWaitSeconds => exact hop.elim
  | stop => exact hop.elim

theorem own_exec {more : List (ConsumerOp cfg)} (hown : ∀ op ∈ more, op.Own) (h : s.Inv symbols)
    (hdone : s.EarlierDone symbols) :
    (Run.exec (step symbols) s more).Inv symbols ∧
      (Run.exec (step symbols) s more).EarlierDone symbols ∧
      (Run.exec (step symbols) s more).accepted symbols = s.accepted symbols := by
  induction more generalizing s with
  | nil => exact ⟨h, hdone, rfl⟩
  | cons op more ih =>
    obtain ⟨happended, hcut, hearlier⟩ := own_step symbols s (hown op (by simp))
    have haccepted : (s.step symbols op).accepted symbols = s.accepted symbols :=
      congrArg (List.filter (accepts symbols)) happended
    have hdone' : (s.step symbols op).EarlierDone symbols := by
      unfold EarlierDone
      rw [hearlier, hcut, haccepted]
      exact hdone
    obtain ⟨hinv, hd, hacc⟩ := ih (fun x hx => hown x (by simp [hx])) (step_spec s op h).1 hdone'
    exact ⟨hinv, hd, hacc.trans haccepted⟩

/-- The loop runs while the engine does nothing. -/
theorem exec_loop (symbols : List Str) (clock : Nat → Rat) (raises : Nat → Bool) (n : Nat)
    (s : Consumer cfg) :
    ∃ more : List (ConsumerOp cfg), (∀ op ∈ more, op.Own) ∧
      Run.exec (step symbols) s more = { s with cut := Cut.loop clock raises n s.cut } := by
  induction n generalizing s with
  | zero => exact ⟨[], nofun, rfl⟩
  | succ n ih =>
    obtain ⟨more, hown, hexec⟩ := ih { s with cut := s.cut.loopStep (clock n) (raises n) }
    by_cases hnil : s.cut.stream.records = []
    · refine ⟨.poll (clock n) :: more, List.forall_mem_cons.mpr ⟨trivial, hown⟩, ?_⟩
      simp only [Cut.loopStep, hnil, ↓reduceIte] at hexec
      simp only [Cut.loop, Cut.loopStep, hnil, ↓reduceIte]
      exact hexec
    · refine ⟨.record (raises n) :: more, List.forall_mem_cons.mpr ⟨trivial, hown⟩, ?_⟩
      simp only [Cut.loopStep, hnil, ↓reduceIte] at hexec
      simp only [Cut.loop, Cut.loopStep, hnil, ↓reduceIte]
      exact hexec

/-- An engine that works on no tick takes and marks what is in its queue. -/
theorem exec_drain (symbols : List Str) (s : Consumer cfg) (hnone : s.holding = none) :
    ∃ more : List (ConsumerOp cfg), (∀ op ∈ more, op.Own) ∧
      (Run.exec (step symbols) s more).processed = s.processed ++ s.cut.stream.queue.items := by
  induction hq : s.cut.stream.queue.items generalizing s with
  | nil => exact ⟨[], nofun, (List.append_nil _).symm⟩
  | cons r items ih =>
    rcases take_cases symbols hnone with ⟨hnil, -⟩ | ⟨r', items', hcons, hs⟩
    · rw [hq] at hnil
      cases hnil
    obtain ⟨rfl, rfl⟩ : r = r' ∧ items = items' := List.cons.inj (hq.symm.trans hcons)
    let s₂ := (s.step symbols .take).step symbols .finish
    have hs₂ : s₂.holding = none ∧ s₂.cut.stream.queue.items = items ∧
        s₂.processed = s.processed ++ [r] := by
      have hfinish : s₂ = _ := finish_some symbols (r := r) (by rw [hs])
      rw [hfinish, hs]
      exact ⟨rfl, (markTickAsProcessed_sameLoop _).items, (List.append_assoc _ _ _).symm⟩
    obtain ⟨more, hown, hexec⟩ := ih s₂ hs₂.1 hs₂.2.1
    refine ⟨.take :: .finish :: more, ?_, ?_⟩
    · exact List.forall_mem_cons.mpr ⟨trivial, List.forall_mem_cons.mpr ⟨trivial, hown⟩⟩
    · rw [hs₂.2.2, List.append_assoc] at hexec
      exact hexec

/-- **The engine can mark every accepted record**: it finishes its tick, starts the loop again, lets
it catch up, and empties the queue. -/
theorem Inv.complete (h : s.Inv symbols) (hdone : s.EarlierDone symbols) :
    ∃ more : List (ConsumerOp cfg), (∀ op ∈ more, op.Own) ∧
      (Run.exec (step symbols) s more).processed = s.accepted symbols := by
  let ops₁ : List (ConsumerOp cfg) := [.finish, .cancel, .startStreaming]
  have hown₁ : ∀ op ∈ ops₁, op.Own := by simp [ops₁, ConsumerOp.Own]
  obtain ⟨h₁, hdone₁, hacc₁⟩ := own_exec hown₁ h hdone
  let s₁ := Run.exec (step symbols) s ops₁
  have hnone₁ : s₁.holding = none := by
    simp only [s₁, ops₁, Run.exec, List.foldl_cons, List.foldl_nil, step]
    split
    · rfl
    · assumption
  have hlooping : Cut.Looping s₁.cut := ⟨h₁.cut, ⟨Nat.zero_le _, fun _ => rfl⟩, rfl, rfl⟩
  let n := s₁.cut.stepsAhead
  have hput := Cut.loop_catches_up hlooping (fun _ => 0) (fun _ => false) (Nat.le_succ n)
  obtain ⟨ops₂, hown₂, hexec₂⟩ := exec_loop symbols (fun _ => 0) (fun _ => false) n s₁
  obtain ⟨h₂, hdone₂, hacc₂⟩ := own_exec hown₂ h₁ hdone₁
  let s₂ := Run.exec (step symbols) s₁ ops₂
  have hnone₂ : s₂.holding = none := by simp only [s₂, hexec₂, hnone₁]
  have hall : s₂.processed ++ s₂.cut.stream.queue.items = s₂.accepted symbols := by
    have hreturned := h₂.returned
    have hearlier : s₂.earlier = s₁.earlier := by simp only [s₂, hexec₂]
    have hprocessed : s₂.processed = s₁.earlier ++ s₂.cut.returned := by
      rw [hreturned, hnone₂, Option.toList_none, List.append_nil, processed, hearlier]
    have hwanted : s₂.cut.returned ++ s₂.cut.stream.queue.items =
        since (s₁.cut.cut + 1) (s₁.accepted symbols) := by
      rw [since_accepted, ← h₁.symbols_eq]
      simp only [s₂, hexec₂]
      exact hput
    rw [hprocessed, List.append_assoc, hwanted, hdone₁, hacc₂]
    exact before_append_since h₁.increasing _
  obtain ⟨ops₃, hown₃, hexec₃⟩ := exec_drain symbols s₂ hnone₂
  refine ⟨ops₁ ++ (ops₂ ++ ops₃), ?_, ?_⟩
  · intro op hop
    simp only [List.mem_append] at hop
    rcases hop with hop | hop | hop
    · exact hown₁ op hop
    · exact hown₂ op hop
    · exact hown₃ op hop
  · rw [Run.exec_append, Run.exec_append, hexec₃, hall, hacc₂, hacc₁]

theorem Inv.atMostOnce (h : s.Inv symbols) : s.AtMostOnce symbols where
  marked := h.sublist
  quiet hsome := by
    obtain ⟨r, hr⟩ := Option.isSome_iff_exists.mp hsome
    exact (finish_cases h hr).1

theorem Inv.onceEach_iff (h : s.Inv symbols) :
    s.OnceEach symbols ↔ s.EarlierDone symbols ∧ s.delivery.CursorBehind :=
  ⟨fun honce => h.marked_iff.mp honce.marked,
    fun hdone => ⟨h.marked_iff.mpr hdone, h.complete hdone.1⟩⟩

/-- An engine that subscribes to every symbol rejects no record. -/
theorem inOrder_all (s : Consumer cfg) (ops : List (ConsumerOp cfg)) :
    Run.Each (step []) (InOrder []) s ops := by
  refine .of_forall (fun s op => ?_) s ops
  cases op with
  | record raised =>
    intro r _ hrejected
    cases hrejected
  | _ => trivial

/-- **Marked once each, across crashes.** No record is marked twice; and every accepted record up to
the saved cursor is marked, and the others can be, in every state of exactly the runs in which a
record is rejected only when no tick waits: so in all runs of an engine that subscribes to every
symbol. -/
theorem marked_once_iff (symbols : List Str) (maxWaitSeconds : Rat) (ops : List (ConsumerOp cfg)) :
    Run.Always (step symbols) (AtMostOnce symbols) (start symbols maxWaitSeconds) ops ∧
      (Run.Always (step symbols) (OnceEach symbols) (start symbols maxWaitSeconds) ops ↔
        Run.Each (step symbols) (InOrder symbols) (start symbols maxWaitSeconds) ops) ∧
      (symbols = [] →
        Run.Always (step symbols) (OnceEach symbols) (start symbols maxWaitSeconds) ops) := by
  have hstep : ∀ (s : Consumer cfg) op, s.Inv symbols → (s.step symbols op).Inv symbols :=
    fun s op h => (step_spec s op h).1
  have hstart : (start symbols maxWaitSeconds : Consumer cfg).Inv symbols := inv_start maxWaitSeconds
  have honce : Run.Always (step symbols) (OnceEach symbols) (start symbols maxWaitSeconds) ops ↔
      Run.Each (step symbols) (InOrder symbols) (start symbols maxWaitSeconds) ops := by
    refine Run.always_iff_each (fun s op h _ _ => hstep s op h) (fun s op h honce => ?_) hstart
      (hstart.onceEach_iff.mpr ⟨rfl, nofun, nofun⟩) ops
    obtain ⟨hdone, hbehind⟩ := h.onceEach_iff.mp honce
    obtain ⟨hdone', hiff⟩ := (step_spec s op h).2 hdone hbehind
    rw [(hstep s op h).onceEach_iff, ← hiff]
    exact and_iff_right hdone'
  refine ⟨(Run.always_of_step hstep hstart ops).mono fun s h => h.atMostOnce, honce, ?_⟩
  rintro rfl
  exact honce.mpr (inOrder_all _ ops)

end Consumer

end Leviathan
