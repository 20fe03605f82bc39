import Leviathan.Exchanges.BitgetParser
import Leviathan.Proofs.BatchIsolation
import Leviathan.Proofs.Observers
import Leviathan.Proofs.Refinement

/-!
# From the exchange to the consumer

A collector streams the frames of the exchange into a journal: `start_streaming` over
`BitgetMessageParser` and `JournalDispatchDecorator`. An engine follows the journal, with its own
loop and consumer, and may be opened again at any time. Nothing fails to be written.

* `JournalDispatchDecorator.dispatchMapped`: a tick whose id has no hash is refused by its window,
  and takes the rest of its frame with it. The windows are of strings, so what becomes of a number
  as a key is left open.
* `Pipeline.step`: one frame of the collector, or one step of `Cut`'s engine.
* `Pipeline.Follows`: what the two sides keep, with the log of the ticks of the frames.
* `pipeline_delivers`: **no frame ends the collector's loop, and the engine is given the ticks of
  the frames, each up to an id without a hash, deduplicated, in order and each once.**
-/

namespace Leviathan

open Py BitgetParser

variable {cfg : Config} {policy : LivenessPolicy}

/-! ## Ticks with any id -/

/-- `hash(x)` does not raise. -/
def hashable : Json → Bool
  | .arr _ | .obj _ => false
  | _ => true

namespace MappedTick

variable {rt : Runtime}

/-- The id is a string, as the keys of the windows are, or it can be no key. -/
def StringKeyed : MappedTick rt → Prop
  | .tick _ => True
  | .otherId _ tradeId => hashable tradeId = false

instance : (tick : MappedTick rt) → Decidable tick.StringKeyed
  | .tick _ => .isTrue trivial
  | .otherId _ tradeId => inferInstanceAs (Decidable (hashable tradeId = false))

/-- The ticks of a frame up to the first whose id is no string. -/
def stringIds : List (MappedTick rt) → List (TradeTick rt)
  | .tick made :: ticks => made :: stringIds ticks
  | .otherId _ _ :: _ | [] => []

end MappedTick

/-- `append` of a tick whose id has no hash. Its bucket is made, and raises when it is asked for the
id. -/
def TickJournal.appendUnhashable (journal : TickJournal cfg) (instId : Str) (tradeId : Json) :
    TickJournal cfg × PyError :=
  match journal.metaStore.getOrCreateBucket (upperStr cfg.toRuntime instId) with
  | .error e => (journal, e)
  | .ok (metaStore, _) =>
    ({ journal with metaStore },
      .typeError ("unhashable type: '".toList ++ typeName tradeId ++ ['\'']))

/-- What `dispatch` makes of a tick whose id is a number, a boolean or `None`, and whether it raises
an `Exception`. The windows are declared to hold strings, and so they do here: for another key any
outcome is allowed. -/
abbrev OtherKeys (cfg : Config) (policy : LivenessPolicy) :=
  JournalDispatchDecorator cfg policy → Str → Json → JournalDispatchDecorator cfg policy × Bool

/-- `dispatch` of a tick as the mapper makes it. -/
def JournalDispatchDecorator.dispatchMapped (otherKeys : OtherKeys cfg policy)
    (decorator : JournalDispatchDecorator cfg policy) :
    MappedTick cfg.toRuntime → JournalDispatchDecorator cfg policy × Option Raised
  | .tick tick => decorator.dispatchFaulty none tick
  | .otherId instId tradeId =>
    if hashable tradeId then
      let (decorator, raised) := otherKeys decorator instId tradeId
      (decorator, if raised then some .exception else none)
    else
      let (journal, _) := decorator.journal.appendUnhashable instId tradeId
      ({ decorator with journal }, some .exception)

/-! ## The two sides -/

/-- The collector and the engine of one directory. -/
structure Pipeline (cfg : Config) (policy : LivenessPolicy) where
  decorator : JournalDispatchDecorator cfg policy
  /-- its `tail` holds the directory -/
  stream : JournalTickStream cfg
  /-- the cursor that the stream was opened with -/
  cut : Nat
  /-- what `wait_for_next_tick` has returned since -/
  returned : List (Rec cfg.toRuntime)
  /-- what has left the loop of the collector -/
  raised : Option Raised

/-- A step of the engine, or a flush of the collector's metadata. -/
inductive EngineOp where
  | flushMeta
  | openStream (maxWaitSeconds : Rat) (symbols : List Str)
  | startStreaming
  | stop
  | cancel
  | poll (now : Rat)
  | record (raised : Bool)
  | wait
  | mark

def EngineOp.toCut : EngineOp → CutOp cfg
  | .flushMeta => .flushMeta
  | .openStream maxWaitSeconds symbols => .openStream maxWaitSeconds symbols
  | .startStreaming => .startStreaming
  | .stop => .stop
  | .cancel => .cancel
  | .poll now => .poll now
  | .record raised => .record raised
  | .wait => .wait
  | .mark => .mark

inductive PipelineOp where
  /-- the collector's loop gets a message -/
  | frame (message : Str)
  | engine (op : EngineOp)

/-- The log of the ticks. -/
def TickLog.ofTicks (ticks : List (TradeTick cfg.toRuntime)) : TickLog cfg :=
  ticks.foldl (fun log tick => if log.Accepts tick then log.snoc tick else log) .empty

/-- The messages of a run. -/
def PipelineOp.messages (ops : List PipelineOp) : List Str :=
  ops.filterMap fun
    | .frame message => some message
    | .engine _ => none

namespace Pipeline

/-- A collector and an engine in an empty directory. -/
def start (writeLivenessGuard : Option (PostReconnectWriteLivenessGuard policy))
    (maxWaitSeconds : Rat) (symbols : List Str) : Pipeline cfg policy where
  decorator := ⟨[], .new .empty, .empty, writeLivenessGuard⟩
  stream := .new maxWaitSeconds (.new .empty) .empty symbols
  cut := 0
  returned := []
  raised := none

/-- The engine, with the records that were appended. -/
def engine (s : Pipeline cfg policy) (appended : List (Rec cfg.toRuntime)) : Cut cfg :=
  ⟨s.decorator.journal, s.stream, appended, s.cut, s.returned⟩

/-- The stream that dispatches to the journal. It has one observer, which raises nothing. -/
def parts (bitget : BitgetRuntime cfg.toRuntime) (otherKeys : OtherKeys cfg policy) :
    StreamParts (JournalDispatchDecorator cfg policy) (MappedTick cfg.toRuntime) Unit where
  parse := parseStream bitget
  dispatch := JournalDispatchDecorator.dispatchMapped otherKeys
  observers := [()]
  onPriceUpdate env _ _ := (env, none)
  recordConfirmation env _ := (env, none)

variable (bitget : BitgetRuntime cfg.toRuntime) (otherKeys : OtherKeys cfg policy)

/-- The collector's side after some calls of `dispatch`. -/
def withDecorator (s : Pipeline cfg policy) (decorator : JournalDispatchDecorator cfg policy) :
    Pipeline cfg policy :=
  { s with
    decorator
    stream := { s.stream with tail := { s.stream.tail with disk := decorator.disk } } }

def step (s : Pipeline cfg policy) : PipelineOp → Pipeline cfg policy
  | .frame message =>
    let (streaming, raised) := (parts bitget otherKeys).processMessage ⟨s.decorator, [], []⟩ message
    { s.withDecorator streaming.env with raised := s.raised.or raised }
  | .engine op =>
    -- the engine does not look at what was appended
    let cut := (s.engine []).step op.toCut
    { s with
      decorator := { s.decorator with journal := cut.collector, disk := cut.disk }
      stream := cut.stream
      cut := cut.cut
      returned := cut.returned }

/-- A tick whose symbol is not blank. -/
def isNamed (tick : TradeTick cfg.toRuntime) : Bool := strip tick.fields.instId ≠ []

/-- The ticks of a frame for the journal: those before an id that is no string, if the frame has a
symbol. -/
def journaled (message : Str) : List (TradeTick cfg.toRuntime) :=
  (MappedTick.stringIds (frameTicks bitget message)).filter isNamed

/-- The ticks of the frames of a run. -/
def fed (ops : List PipelineOp) : List (TradeTick cfg.toRuntime) :=
  (PipelineOp.messages ops).flatMap (journaled bitget)

/-- What both sides keep. -/
structure Follows (ticks : List (TradeTick cfg.toRuntime)) (s : Pipeline cfg policy) : Prop where
  inner : s.decorator.inner = ticks
  disk : s.decorator.disk = s.stream.tail.disk
  journal : (⟨s.decorator.journal, s.decorator.disk⟩ : Instance cfg).Simulates (.ofTicks ticks)
  engine : (s.engine (TickLog.ofTicks ticks).records).Inv
  errors : Cut.FewErrors s.stream
  raised : s.raised = none

/-- What was sent is in the journal, and reaches the engine. -/
structure Delivers (ticks : List (TradeTick cfg.toRuntime)) (s : Pipeline cfg policy) : Prop where
  /-- the dispatcher inside the decorator is given every tick -/
  inner : s.decorator.inner = ticks
  journal : (⟨s.decorator.journal, s.decorator.disk⟩ : Instance cfg).Implements (.ofTicks ticks)
  /-- the engine's queue is given the accepted ticks past its cursor -/
  engine : (s.engine (TickLog.ofTicks ticks).records).NothingLost
  /-- no frame ends the loop of the collector -/
  raised : s.raised = none

variable {bitget otherKeys} {s : Pipeline cfg policy} {ticks : List (TradeTick cfg.toRuntime)}

theorem Follows.delivers (h : s.Follows ticks) : s.Delivers ticks :=
  ⟨h.inner, h.journal.implements, Cut.nothingLost h.engine h.errors, h.raised⟩

theorem follows_start (writeLivenessGuard : Option (PostReconnectWriteLivenessGuard policy))
    (maxWaitSeconds : Rat) (symbols : List Str) :
    (start writeLivenessGuard maxWaitSeconds symbols : Pipeline cfg policy).Follows [] :=
  ⟨rfl, rfl, Instance.simulates_start, Cut.inv_start maxWaitSeconds symbols,
    ⟨Nat.zero_le _, fun _ => rfl⟩, rfl⟩

/-! ## One tick -/

theorem ofTicks_snoc (ticks : List (TradeTick cfg.toRuntime)) (tick : TradeTick cfg.toRuntime) :
    TickLog.ofTicks (ticks ++ [tick]) =
      if (TickLog.ofTicks ticks).Accepts tick then (TickLog.ofTicks ticks).snoc tick
      else TickLog.ofTicks ticks := by
  rw [TickLog.ofTicks, List.foldl_append]
  rfl

/-- **A tick with a symbol is appended**, or is a duplicate, and reaches the dispatcher inside. -/
theorem Follows.dispatch (h : s.Follows ticks) {tick : TradeTick cfg.toRuntime}
    (hnamed : isNamed tick = true) :
    (s.decorator.dispatchFaulty none tick).2 = none ∧
      (s.withDecorator (s.decorator.dispatchFaulty none tick).1).Follows (ticks ++ [tick]) := by
  let named : NamedTick cfg.toRuntime := ⟨tick, by simpa [isNamed] using hnamed⟩
  have hsim := h.journal.append named
  have hcut := Cut.inv_append h.engine tick
  obtain ⟨seq, hseq⟩ : ∃ seq, (s.decorator.journal.append s.decorator.disk tick).2.2 = .ok seq := by
    by_cases ha : s.decorator.journal.Accepts tick
    · obtain ⟨store, -, he⟩ := TickJournal.append_accepts ha s.decorator.disk
      exact ⟨_, by rw [he]⟩
    · obtain ⟨store, -, -, -, he⟩ := TickJournal.append_rejects ha s.decorator.disk
      refine ⟨s.decorator.journal.latestSeq, ?_⟩
      rw [he, if_neg (Instance.not_blankSymbol named)]
  have hdispatch : s.decorator.dispatch tick =
      ({ journal := (s.decorator.journal.append s.decorator.disk tick).1
         disk := (s.decorator.journal.append s.decorator.disk tick).2.1
         writeLivenessGuard :=
           s.decorator.writeLivenessGuard.map fun guard => guard.recordJournalWrite
         inner := s.decorator.inner ++ [tick] }, .ok ()) := by
    unfold JournalDispatchDecorator.dispatch
    rw [show s.decorator.journal.append s.decorator.disk tick =
      (_, _, .ok seq) from Prod.ext rfl (Prod.ext rfl hseq)]
  have happended : (TickLog.ofTicks (ticks ++ [tick])).records =
      if s.decorator.journal.Accepts tick
        then (TickLog.ofTicks ticks).records ++ [(s.decorator.journal.latestSeq + 1, tick)]
        else (TickLog.ofTicks ticks).records := by
    rw [ofTicks_snoc]
    by_cases ha : s.decorator.journal.Accepts tick
    · rw [if_pos ha, if_pos ((h.journal.accepts_iff named).mp ha), DedupLog.records_snoc,
        ← h.journal.latestSeq]
    · rw [if_neg ha, if_neg (mt (h.journal.accepts_iff named).mpr ha)]
  rw [JournalDispatchDecorator.dispatchFaulty_none, hdispatch]
  refine ⟨rfl, ?_, rfl, ?_, ?_, h.errors.congr rfl (.inl rfl), h.raised⟩
  · show s.decorator.inner ++ [tick] = _
    rw [h.inner]
  · rw [ofTicks_snoc]
    exact hsim
  · rw [happended]
    rw [Cut.step, show (s.engine (TickLog.ofTicks ticks).records).disk = s.decorator.disk
      from h.disk.symm] at hcut
    exact hcut

/-- The bucket of a symbol is all that an id without a hash leaves. -/
theorem appendUnhashable_rejected (journal : TickJournal cfg) (disk : Disk) (instId : Str)
    (tradeId : Json) : journal.Rejected disk (journal.appendUnhashable instId tradeId).1 disk := by
  unfold TickJournal.appendUnhashable
  by_cases hblank : strip (upperStr cfg.toRuntime instId) = []
  · simp only [MetaStore.getOrCreateBucket, hblank, ↓reduceIte]
    exact ⟨rfl, rfl, rfl, fun _ => rfl, fun M h => h⟩
  · obtain ⟨bucket, hb, -⟩ := MetaStore.getOrCreateBucket_eq journal.metaStore hblank
    simp only [hb]
    exact ⟨rfl, rfl, rfl, MetaStore.window_withBucket _ _, fun M h => ⟨h.1, h.2⟩⟩

/-- A call of `append` that accepts no tick. -/
theorem Follows.rejected (h : s.Follows ticks) {journal : TickJournal cfg}
    (hr : s.decorator.journal.Rejected s.decorator.disk journal s.decorator.disk) :
    (s.withDecorator { s.decorator with journal }).Follows ticks := by
  have hs := h.journal.sound.rejected hr
  refine ⟨h.inner, rfl, ?_, ?_, h.errors.congr rfl (.inl rfl), h.raised⟩
  · exact ⟨hs, hr.latestSeq.trans h.journal.latestSeq,
      fun symbol => (hr.window symbol).trans (h.journal.windows symbol)⟩
  · have hengine := h.engine.sound.rejected (show TickJournal.Rejected s.decorator.journal
      (s.engine (TickLog.ofTicks ticks).records).disk journal s.decorator.disk from
        (show _ = s.decorator.disk from h.disk.symm) ▸ hr)
    exact h.engine.rebase hengine hr.latestSeq

/-- **A tick without a symbol or with an id that has no hash is refused.** -/
theorem Follows.dispatch_refused (h : s.Follows ticks) {tick : MappedTick cfg.toRuntime}
    (hkeyed : tick.StringKeyed) (hrefused : ∀ made, tick = .tick made → isNamed made = false) :
    (s.decorator.dispatchMapped otherKeys tick).2 = some .exception ∧
      (s.withDecorator (s.decorator.dispatchMapped otherKeys tick).1).Follows ticks := by
  cases tick with
  | tick made =>
    have hsymbol : TickJournal.BlankSymbol made := by
      rw [TickJournal.BlankSymbol, strip_upperStr, upperStr_eq_nil]
      simpa [isNamed] using hrefused made rfl
    have ha : ¬s.decorator.journal.Accepts made := fun ha => ha.1 hsymbol
    have hr := TickJournal.append_rejected ha s.decorator.disk
    obtain ⟨store, -, -, -, he⟩ := TickJournal.append_rejects ha s.decorator.disk
    rw [he] at hr
    have hdispatch : s.decorator.dispatch made =
        ({ s.decorator with journal := { s.decorator.journal with metaStore := store } },
          .error (.valueError "symbol must be a non-empty string".toList)) := by
      simp only [JournalDispatchDecorator.dispatch, he, hsymbol, ↓reduceIte]
    rw [JournalDispatchDecorator.dispatchMapped, JournalDispatchDecorator.dispatchFaulty_none,
      hdispatch]
    exact ⟨rfl, h.rejected hr⟩
  | otherId instId tradeId =>
    have hhash : hashable tradeId = false := hkeyed
    have hdispatch : s.decorator.dispatchMapped otherKeys (.otherId instId tradeId) =
        ({ s.decorator with
            journal := (s.decorator.journal.appendUnhashable instId tradeId).1 },
          some .exception) := by
      simp only [JournalDispatchDecorator.dispatchMapped, hhash, Bool.false_eq_true, ↓reduceIte]
    rw [hdispatch]
    exact ⟨rfl, h.rejected (appendUnhashable_rejected _ _ instId tradeId)⟩

/-! ## One frame -/

/-- The ticks of a frame are dispatched, one by one, up to an id without a hash. -/
theorem Follows.dispatchTicks (bitget : BitgetRuntime cfg.toRuntime)
    {streaming : Streaming (JournalDispatchDecorator cfg policy) (MappedTick cfg.toRuntime) Unit}
    (h : (s.withDecorator streaming.env).Follows ticks) {new : List (MappedTick cfg.toRuntime)}
    (hkeyed : ∀ tick ∈ new, tick.StringKeyed)
    (hnamed : ∀ made ∈ MappedTick.stringIds new, isNamed made = true) :
    (s.withDecorator ((parts bitget otherKeys).dispatchTicks streaming new).1.env).Follows
      (ticks ++ MappedTick.stringIds new) := by
  induction new generalizing streaming ticks with
  | nil =>
    rw [MappedTick.stringIds, List.append_nil]
    exact h
  | cons tick new ih =>
    unfold StreamParts.dispatchTicks
    cases tick with
    | tick made =>
      obtain ⟨hnone, hmade⟩ := h.dispatch (hnamed made (by simp [MappedTick.stringIds]))
      have hdispatch : (parts bitget otherKeys).dispatch streaming.env (.tick made) =
          ((streaming.env.dispatchFaulty none made).1, none) := Prod.ext rfl hnone
      rw [hdispatch, show ticks ++ MappedTick.stringIds (.tick made :: new) =
        ticks ++ [made] ++ MappedTick.stringIds new by simp [MappedTick.stringIds]]
      exact ih hmade (fun tick htick => hkeyed tick (by simp [htick]))
        fun tick htick => hnamed tick (by simp [MappedTick.stringIds, htick])
    | otherId instId tradeId =>
      obtain ⟨hraised, hrefused⟩ := @Follows.dispatch_refused _ _ otherKeys _ _ h
        (.otherId instId tradeId) (hkeyed _ (by simp)) (by rintro made ⟨⟩)
      have hdispatch : (parts bitget otherKeys).dispatch streaming.env (.otherId instId tradeId) =
          ((streaming.env.dispatchMapped otherKeys (.otherId instId tradeId)).1, some .exception) :=
        Prod.ext rfl hraised
      rw [hdispatch, MappedTick.stringIds, List.append_nil]
      exact hrefused

/-- A message without ticks does nothing to the journal. -/
theorem processMessage_cases (bitget : BitgetRuntime cfg.toRuntime) (otherKeys : OtherKeys cfg policy)
    (streaming : Streaming (JournalDispatchDecorator cfg policy) (MappedTick cfg.toRuntime) Unit)
    (message : Str) :
    (∃ new, parseStream bitget message = .ok (some (.trade new))) ∨
      frameTicks bitget message = [] ∧
        (parts bitget otherKeys).processMessage streaming message = (streaming, none) := by
  unfold frameTicks StreamParts.processMessage
  by_cases htrade : ∃ new, parseStream bitget message = .ok (some (.trade new))
  · exact .inl htrade
  · refine .inr ⟨?_, ?_⟩
    · split
      · rename_i new hparse
        exact absurd ⟨new, hparse⟩ htrade
      · rfl
    · split
      · rename_i new hparse
        exact absurd ⟨new, hparse⟩ htrade
      · split <;> rfl

theorem parts_ordinary (bitget : BitgetRuntime cfg.toRuntime) (otherKeys : OtherKeys cfg policy) :
    (parts bitget otherKeys).Ordinary := by
  refine ⟨?_, ?_, ?_⟩
  · intro decorator tick raised h
    suffices hexception : raised = .exception by rw [hexception]; rfl
    simp only [parts, JournalDispatchDecorator.dispatchMapped] at h
    split at h
    · simp only [JournalDispatchDecorator.dispatchFaulty] at h
      split at h
      · cases h
      · exact (Option.some.inj h).symm
    · split at h
      · simp only at h
        split at h
        · exact (Option.some.inj h).symm
        · cases h
      · exact (Option.some.inj h).symm
  · intro decorator observer tick raised h
    cases h
  · intro decorator symbol raised h
    cases h

/-- **No frame ends the loop**, whatever is in it. -/
theorem frame_raised (s : Pipeline cfg policy) (message : Str) (h : s.raised = none) :
    (s.step bitget otherKeys (.frame message)).raised = none := by
  have hnone := (StreamParts.processMessage_dispatches (parts_ordinary bitget otherKeys)
    ⟨s.decorator, [], []⟩ message).1
  show s.raised.or ((parts bitget otherKeys).processMessage ⟨s.decorator, [], []⟩ message).2 = none
  rw [h, hnone]
  rfl

theorem mem_of_mem_stringIds {new : List (MappedTick cfg.toRuntime)}
    {made : TradeTick cfg.toRuntime} (h : made ∈ MappedTick.stringIds new) : .tick made ∈ new := by
  induction new with
  | nil => cases h
  | cons tick new ih =>
    cases tick with
    | tick made' =>
      rcases List.mem_cons.mp h with rfl | h
      · exact List.mem_cons_self
      · exact List.mem_cons_of_mem _ (ih h)
    | otherId instId tradeId => cases h

/-- **A frame adds its ticks**, or none of them where it has no symbol. -/
theorem Follows.frame (h : s.Follows ticks) {message : Str}
    (hkeyed : ∀ tick ∈ frameTicks bitget message, tick.StringKeyed) :
    (s.step bitget otherKeys (.frame message)).Follows (ticks ++ journaled bitget message) := by
  let streaming : Streaming (JournalDispatchDecorator cfg policy) (MappedTick cfg.toRuntime) Unit :=
    ⟨s.decorator, [], []⟩
  have hstart : (s.withDecorator streaming.env).Follows ticks := by
    show Follows _ { s with stream := { s.stream with tail :=
      { s.stream.tail with disk := s.decorator.disk } } }
    rw [h.disk]
    exact h
  have hkept : ∀ {after : Streaming (JournalDispatchDecorator cfg policy) (MappedTick cfg.toRuntime)
        Unit × Option Raised} {ticks'},
      (parts bitget otherKeys).processMessage streaming message = after →
        (s.withDecorator after.1.env).Follows ticks' →
          (s.step bitget otherKeys (.frame message)).Follows ticks' := by
    rintro after ticks' rfl hafter
    exact ⟨hafter.inner, hafter.disk, hafter.journal, hafter.engine, hafter.errors,
      frame_raised s message h.raised⟩
  unfold journaled
  rcases processMessage_cases bitget otherKeys streaming message with ⟨new, hparse⟩ | ⟨hnil, hprocess⟩
  · have hticks : frameTicks bitget message = new := by simp only [frameTicks, hparse]
    have hprocess : (parts bitget otherKeys).processMessage streaming message =
        (((parts bitget otherKeys).dispatchTicks streaming new).1,
          StreamParts.escapes ((parts bitget otherKeys).dispatchTicks streaming new).2) := by
      simp only [StreamParts.processMessage, parts, hparse]
    rw [hticks] at hkeyed ⊢
    by_cases hall : ∀ made ∈ MappedTick.stringIds new, isNamed made = true
    · rw [List.filter_eq_self.mpr hall]
      exact hkept hprocess (hstart.dispatchTicks bitget hkeyed hall)
    · -- the first tick is refused, and the others are not dispatched
      obtain ⟨made, hall⟩ := not_forall.mp hall
      obtain ⟨hmade, hblank⟩ := Classical.not_imp.mp hall
      have hnone : ∀ made' ∈ MappedTick.stringIds new, ¬isNamed made' = true := by
        intro made' hmade'
        have hsame := parseStream_sameSymbol hparse (mem_of_mem_stringIds hmade)
          (mem_of_mem_stringIds hmade')
        unfold isNamed at hblank ⊢
        rw [show made'.fields.instId = made.fields.instId from hsame.symm]
        exact hblank
      rw [List.filter_eq_nil_iff.mpr hnone, List.append_nil]
      refine hkept hprocess ?_
      cases new with
      | nil => exact hstart
      | cons tick new =>
        obtain ⟨hraised, hrefused⟩ := @Follows.dispatch_refused _ _ otherKeys _ _ hstart tick
          (hkeyed tick (by simp)) (by
            rintro made' rfl
            exact Bool.eq_false_iff.mpr (hnone made' (by simp [MappedTick.stringIds])))
        have hdispatch : (parts bitget otherKeys).dispatch streaming.env tick =
            ((s.decorator.dispatchMapped otherKeys tick).1, some .exception) := Prod.ext rfl hraised
        simp only [StreamParts.dispatchTicks, hdispatch]
        exact hrefused
  · rw [hnil, MappedTick.stringIds, List.filter_nil, List.append_nil]
    exact hkept hprocess hstart

/-! ## The engine -/

/-- The engine does not look at what was appended. -/
theorem engine_step (s : Pipeline cfg policy) (op : EngineOp) (appended : List (Rec cfg.toRuntime)) :
    (s.engine appended).step op.toCut =
      { (s.engine []).step op.toCut with appended } := by
  cases op with
  | wait =>
    simp only [EngineOp.toCut, Cut.step, engine]
    split <;> rfl
  | _ => rfl

/-- A step of the engine leaves the collector its ticks. -/
theorem engine_sameTicks {appended : List (Rec cfg.toRuntime)} (h : (s.engine appended).Inv)
    (op : EngineOp) :
    TickJournal.SameTicks s.decorator.journal ((s.engine []).step op.toCut).collector := by
  cases op with
  | flushMeta => exact (h.sound.flushMeta).2
  | wait =>
    simp only [EngineOp.toCut, Cut.step]
    split <;> exact .refl _
  | _ => exact .refl _

theorem noMove_toCut (op : EngineOp) : (op.toCut : CutOp cfg).NoMove := by
  cases op <;> trivial

theorem Follows.engineStep (h : s.Follows ticks) (op : EngineOp) :
    (s.step bitget otherKeys (.engine op)).Follows ticks := by
  have hstep := s.engine_step op (TickLog.ofTicks ticks).records
  have hinv := Cut.inv_step _ op.toCut h.engine (Cut.noMove_notStale (noMove_toCut op))
  have herrors := Cut.fewErrors_step h.engine h.errors (noMove_toCut op)
  rw [hstep] at hinv herrors
  have hsame := engine_sameTicks h.engine op
  exact ⟨h.inner, rfl, ⟨hinv.sound, hsame.latestSeq.trans h.journal.latestSeq,
    fun symbol => (hsame.window symbol).trans (h.journal.windows symbol)⟩, hinv, herrors, h.raised⟩

/-! ## Runs -/

/-- The ids of the frames are strings, or have no hash. -/
def StringKeyed (bitget : BitgetRuntime cfg.toRuntime) (ops : List PipelineOp) : Prop :=
  ∀ message ∈ PipelineOp.messages ops, ∀ tick ∈ frameTicks bitget message, tick.StringKeyed

theorem messages_append (ops : List PipelineOp) (op : PipelineOp) :
    PipelineOp.messages (ops ++ [op]) = PipelineOp.messages ops ++
      match op with
      | .frame message => [message]
      | .engine _ => [] := by
  unfold PipelineOp.messages
  rw [List.filterMap_append]
  cases op <;> rfl

theorem follows_exec (writeLivenessGuard : Option (PostReconnectWriteLivenessGuard policy))
    (maxWaitSeconds : Rat) (symbols : List Str) (ops : List PipelineOp)
    (hkeyed : StringKeyed bitget ops) :
    (Run.exec (step bitget otherKeys) (start writeLivenessGuard maxWaitSeconds symbols) ops).Follows
      (fed bitget ops) := by
  induction ops using List.reverseRecOn with
  | nil => exact follows_start writeLivenessGuard maxWaitSeconds symbols
  | append_singleton ops op ih =>
    unfold StringKeyed at hkeyed
    rw [messages_append] at hkeyed
    have hbefore := ih fun message hmessage => hkeyed message (List.mem_append_left _ hmessage)
    rw [Run.exec_snoc, fed, messages_append, List.flatMap_append]
    cases op with
    | frame message =>
      rw [List.flatMap_singleton]
      exact hbefore.frame (hkeyed message (by simp))
    | engine op =>
      rw [List.flatMap_nil, List.append_nil]
      exact hbefore.engineStep op

theorem raised_exec (writeLivenessGuard : Option (PostReconnectWriteLivenessGuard policy))
    (maxWaitSeconds : Rat) (symbols : List Str) (ops : List PipelineOp) :
    (Run.exec (step bitget otherKeys) (start writeLivenessGuard maxWaitSeconds symbols) ops).raised =
      none := by
  have hstep : ∀ (s : Pipeline cfg policy) (op : PipelineOp), s.raised = none →
      (s.step bitget otherKeys op).raised = none := by
    intro s op h
    cases op with
    | frame message => exact frame_raised s message h
    | engine op => exact h
  exact (Run.always_of_step hstep rfl ops).last

/-- **What the exchange sends reaches the consumer.** In any run of the collector and the engine,
over any messages, no message ends the collector's loop. Where the ids of the ticks are strings or
have no hash, the journal is the deduplicated log of the ticks of the frames, each frame up to an id
without a hash and none of a frame without a symbol, and the engine's queue is given its records
past the cursor, in order and each once. -/
theorem pipeline_delivers (bitget : BitgetRuntime cfg.toRuntime) (otherKeys : OtherKeys cfg policy)
    (writeLivenessGuard : Option (PostReconnectWriteLivenessGuard policy)) (maxWaitSeconds : Rat)
    (symbols : List Str) (ops : List PipelineOp) :
    let after := Run.exec (step bitget otherKeys)
      (start writeLivenessGuard maxWaitSeconds symbols) ops
    after.raised = none ∧ (StringKeyed bitget ops → after.Delivers (fed bitget ops)) :=
  ⟨raised_exec writeLivenessGuard maxWaitSeconds symbols ops,
    fun hkeyed => (follows_exec writeLivenessGuard maxWaitSeconds symbols ops hkeyed).delivers⟩

/-- The parser with the README's classes, in the default deployment. -/
def defaultBitget : BitgetRuntime Config.default.toRuntime := .readme

/-- **The trade before the list is delivered**, and the one behind it is not. -/
theorem pipeline_delivers_listId :
    let after := Run.exec (step defaultBitget fun decorator _ _ => (decorator, false))
      (start (none : Option (PostReconnectWriteLivenessGuard .default)) 1 [])
      [.frame (dumps (.obj listIdFrame))]
    after.raised = none ∧ after.Delivers [readmeTick "BTC".toList ['1']] := by
  have hdelivers := pipeline_delivers defaultBitget (fun decorator _ _ => (decorator, false))
    (none : Option (PostReconnectWriteLivenessGuard .default)) 1 []
    [.frame (dumps (.obj listIdFrame))]
  have hticks : frameTicks defaultBitget (dumps (.obj listIdFrame)) =
      [.tick (readmeTick "BTC".toList ['1']), .otherId "BTC".toList (.arr [.str ['2']]),
        .tick (readmeTick "BTC".toList ['3'])] := frameTicks_listIdFrame
  have hfed : fed defaultBitget [.frame (dumps (.obj listIdFrame))] =
      [readmeTick "BTC".toList ['1']] := by
    simp only [fed, PipelineOp.messages, List.filterMap_cons, List.filterMap_nil,
      List.flatMap_singleton, journaled, hticks]
    rfl
  have hkeyed : StringKeyed defaultBitget [.frame (dumps (.obj listIdFrame))] := by
    simp only [StringKeyed, PipelineOp.messages, List.filterMap_cons, List.filterMap_nil,
      List.forall_mem_singleton, hticks]
    decide
  exact ⟨hdelivers.1, hfed ▸ hdelivers.2 hkeyed⟩

end Pipeline

end Leviathan
