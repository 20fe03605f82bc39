import Leviathan.Exchanges.BaseStream
import Leviathan.Network.ListenerPhase
import Mathlib.Data.Finset.Option

/-!
# The guard is armed by acknowledgements

Over any number of sessions, each of which may break at any point: `armed_by_acks`.

A message is processed only when the callback of its session has returned, so a window of the
tracker that an earlier session has left is replaced before the first acknowledgement comes.
-/

namespace Leviathan

open Py

variable {retryPolicy : RetryPolicy} {policy : LivenessPolicy}

/-- A call of `arm_after_subscriptions_confirmed`, and its session then. -/
structure Arm where
  confirmedSymbols : Finset Str
  connectGeneration : Int
  /-- the generation of the session -/
  session : Nat
  /-- what its `_resubscribe_all` has requested -/
  requested : Option (Finset Str)
  /-- what it has acknowledged -/
  acked : Finset Str

/-- The callback of the session is at one of its `await`s. -/
def ConnectStage.inCallback : ConnectStage → Bool
  | .notifying | .resubscribing _ => true
  | .idle | .completed | .failed => false

/-- A stream, with what its session has requested and acknowledged, and the arms so far. -/
structure Acked (retryPolicy : RetryPolicy) (policy : LivenessPolicy) where
  stream : BaseExchangeStream retryPolicy policy
  requested : Option (Finset Str)
  acked : Finset Str
  arms : List Arm

namespace Acked

variable (strategy : SubscriptionStrategy) (parse : Str → Except PyError (Option ParsedMessage))

def start (registry : SubscriptionRegistry) : Acked retryPolicy policy := ⟨.new registry, none, ∅, []⟩

/-- The operation starts a session. -/
def connects (s : Acked retryPolicy policy) : StreamOp → Bool
  | .event .handshakeReturns _ => s.stream.manager.listener = .handshake
  | _ => false

/-- The operation of the tracker: the message that is given out is an acknowledgement, or a timer
goes on. -/
def confirmingOp (s : Acked retryPolicy policy) : StreamOp → Option ConfirmingOp
  | .event .nextMessage _ =>
    (s.stream.nextMessage.bind (BaseExchangeStream.acknowledgement parse)).map .recordConfirmation
  | .confirmationTimer generation _ => some (.wake generation)
  | _ => none

/-- The symbols that the operation acknowledges. -/
def acknowledged (s : Acked retryPolicy policy) (op : StreamOp) : Finset Str :=
  Confirming.acknowledged (s.confirmingOp parse op).toList

/-- The call of `arm_after_subscriptions_confirmed`. -/
def armCall (s : Acked retryPolicy policy) (op : StreamOp) : Option (Finset Str × Int) :=
  s.stream.armCall ((s.confirmingOp parse op).bind s.stream.confirmations.callback)

def step (s : Acked retryPolicy policy) (op : StreamOp) : Acked retryPolicy policy :=
  let stream := s.stream.step strategy parse op
  let acked := if s.connects op then ∅ else s.acked ∪ s.acknowledged parse op
  { stream
    requested :=
      match op, s.stream.connectStage, stream.connectStage with
      | .resubscribeReturns, .resubscribing requested, .completed => some requested.toFinset
      | _, _, _ => if s.connects op then none else s.requested
    acked
    arms := s.arms ++ (s.armCall parse op).toList.map fun (confirmed, connectGeneration) =>
      ⟨confirmed, connectGeneration, s.stream.connectGeneration, s.requested, acked⟩ }

/-- The guard is armed by acknowledgements. -/
structure ByAcks (s : Acked retryPolicy policy) : Prop where
  /-- an arm carries the generation of its session and what it has requested, and all of that is
  acknowledged in it -/
  arms : ∀ arm ∈ s.arms, arm.connectGeneration = arm.session ∧
    arm.requested = some arm.confirmedSymbols ∧ arm.confirmedSymbols ⊆ arm.acked
  /-- a session arms at most once -/
  once : (s.arms.map (·.session)).Nodup
  /-- the window that is open was armed in this session -/
  live : ∀ symbols, s.stream.liveness.current = some symbols →
    ∃ arm ∈ s.arms, arm.session = s.stream.connectGeneration ∧ arm.confirmedSymbols = symbols
  /-- and only a window that is open calls `on_stale` -/
  onStale : ∀ generation now symbols elapsed,
    s.stream.liveness.expiry generation now = some (.failed symbols elapsed) →
      s.stream.liveness.current = some symbols

/-- The session has completed its `_resubscribe_all`. -/
def Completed (s : Acked retryPolicy policy) : Prop := s.stream.connectStage = .completed

structure Inv (s : Acked retryPolicy policy) : Prop where
  confirming : s.stream.confirmations.Inv
  guarded : s.stream.liveness.Inv
  arms : ∀ arm ∈ s.arms, arm.connectGeneration = arm.session ∧
    arm.requested = some arm.confirmedSymbols ∧ arm.confirmedSymbols ⊆ arm.acked
  once : (s.arms.map (·.session)).Nodup
  live : ∀ symbols, s.stream.liveness.current = some symbols →
    ∃ arm ∈ s.arms, arm.session = s.stream.connectGeneration ∧ arm.confirmedSymbols = symbols
  /-- messages are given out behind the callback -/
  messages : s.stream.manager.phase = .messages → s.Completed
  le : ∀ arm ∈ s.arms, arm.session ≤ s.stream.connectGeneration
  pos : s.stream.connectStage ≠ .idle → 1 ≤ s.stream.connectGeneration
  /-- the window of the tracker is the one of the session, once it has requested -/
  window : s.Completed → s.stream.confirmations.tracker.watchdogTask.isSome = true →
    s.requested = some s.stream.confirmations.tracker.expected ∧
      s.stream.confirmations.tracker.confirmed ⊆ s.acked
  /-- the session has not armed before that, and not while its window is open -/
  unarmed : ¬s.Completed ∨ s.stream.confirmations.tracker.watchdogTask.isSome = true →
    ∀ arm ∈ s.arms, arm.session ≠ s.stream.connectGeneration

variable {s : Acked retryPolicy policy} {op : StreamOp}

theorem inv_start (registry : SubscriptionRegistry) :
    (start registry : Acked retryPolicy policy).Inv where
  confirming := Confirming.inv_start
  guarded := Guarded.inv_start
  arms := nofun
  once := .nil
  live := nofun
  messages := nofun
  le := nofun
  pos := fun h => absurd rfl h
  window := nofun
  unarmed := fun _ => nofun

/-! ## Kinds of steps -/

/-- A step without a message of the tracker, outside of the callback. -/
theorem step_quiet (hconnects : s.connects op = false) (hquiet : s.confirmingOp parse op = none)
    (hop : op ≠ .resubscribeReturns) :
    s.step strategy parse op = { s with stream := s.stream.step strategy parse op } := by
  have hacked : s.acknowledged parse op = ∅ := by
    simp only [acknowledged, hquiet]
    rfl
  have harm : s.armCall parse op = none := by
    simp only [armCall, hquiet, Option.bind_none]
    rfl
  unfold step
  simp only [hconnects, hacked, harm, Bool.false_eq_true, ↓reduceIte, Finset.union_empty,
    Option.toList_none, List.map_nil, List.append_nil]
  split
  · exact absurd rfl hop
  · rfl

theorem Inv.quiet (hconnects : s.connects op = false) (hquiet : s.confirmingOp parse op = none)
    (hop : op ≠ .resubscribeReturns)
    (h : ({ s with stream := s.stream.step strategy parse op } : Acked retryPolicy policy).Inv) :
    (s.step strategy parse op).Inv := by
  rw [step_quiet strategy parse hconnects hquiet hop]
  exact h

/-- What leaves the tracker and the stage alone, and arms nothing. -/
theorem Inv.same (h : s.Inv) {stream : BaseExchangeStream retryPolicy policy}
    (hconfirmations : stream.confirmations = s.stream.confirmations)
    (hguarded : stream.liveness.Inv)
    (hlive : ∀ symbols, stream.liveness.current = some symbols →
      s.stream.liveness.current = some symbols)
    (hgeneration : stream.connectGeneration = s.stream.connectGeneration)
    (hstage : stream.connectStage = s.stream.connectStage)
    (hphase : stream.manager.phase = .messages → s.stream.manager.phase = .messages) :
    ({ s with stream } : Acked retryPolicy policy).Inv where
  confirming := hconfirmations ▸ h.confirming
  guarded := hguarded
  arms := h.arms
  once := h.once
  live := by
    intro symbols hcurrent
    rw [hgeneration]
    exact h.live symbols (hlive symbols hcurrent)
  messages := by
    intro hmessages
    exact hstage.trans (h.messages (hphase hmessages))
  le := by
    rw [hgeneration]
    exact h.le
  pos := by
    rw [hgeneration, hstage]
    exact h.pos
  window := by
    intro hcompleted
    rw [hconfirmations]
    exact h.window (hstage.symm.trans hcompleted)
  unarmed := by
    rw [hgeneration, hconfirmations]
    rintro (hnot | hopen)
    · apply h.unarmed
      left
      intro hcompleted
      exact hnot (hstage.trans hcompleted)
    · exact h.unarmed (.inr hopen)

/-- The guard takes an operation that arms nothing. -/
theorem current_of_liveness (liveness : Guarded policy) (op : GuardedOp)
    (hop : ∀ symbols connectGeneration now,
      op ≠ .armAfterSubscriptionsConfirmed symbols connectGeneration now)
    {symbols : Finset Str} (hcurrent : (liveness.step op).current = some symbols) :
    liveness.current = some symbols := by
  rcases liveness.current_step op hcurrent with ⟨connectGeneration, now, _, heq, -⟩ | ⟨hsame, -⟩
  · exact absurd heq (hop _ _ _)
  · exact hsame

/-! ## Confirmations -/

/-- The guard is armed when a window completes, with the generation of the session. -/
theorem armCall_some {stream : BaseExchangeStream retryPolicy policy}
    {call : Option ConfirmationCall} {confirmed : Finset Str} {connectGeneration : Int}
    (h : stream.armCall call = some (confirmed, connectGeneration)) :
    call = some (.onComplete confirmed) ∧
      connectGeneration = max (stream.connectGeneration : Int) 1 := by
  unfold BaseExchangeStream.armCall at h
  split at h
  · cases h
    exact ⟨rfl, rfl⟩
  · cases h

theorem confirm_quiet {stream : BaseExchangeStream retryPolicy policy} {op : ConfirmingOp}
    (h : stream.armCall (stream.confirmations.callback op) = none) (now : Rat) :
    stream.confirm op now =
      { stream with confirmations := stream.confirmations.step op } := by
  unfold BaseExchangeStream.confirm BaseExchangeStream.confirmed
  rw [show BaseExchangeStream.armCall { stream with confirmations := stream.confirmations.step op }
    (stream.confirmations.callback op) = none from h]

theorem confirm_arms {stream : BaseExchangeStream retryPolicy policy} {op : ConfirmingOp}
    {confirmed : Finset Str} {connectGeneration : Int}
    (h : stream.armCall (stream.confirmations.callback op) = some (confirmed, connectGeneration))
    (now : Rat) :
    stream.confirm op now =
      { stream with
        confirmations := stream.confirmations.step op
        liveness := stream.liveness.step
          (.armAfterSubscriptionsConfirmed confirmed (some connectGeneration) now) } := by
  unfold BaseExchangeStream.confirm BaseExchangeStream.confirmed
  rw [show BaseExchangeStream.armCall { stream with confirmations := stream.confirmations.step op }
    (stream.confirmations.callback op) = some (confirmed, connectGeneration) from h]

/-- The tracker goes on, and no window completes. -/
theorem Inv.confirmQuiet (h : s.Inv) {manager : Manager ⟨retryPolicy, true⟩}
    (hphase : manager.phase = .messages → s.stream.manager.phase = .messages)
    {op : ConfirmingOp} (hbegin : ∀ symbols, op ≠ .beginExpectation symbols) :
    (⟨{ s.stream with manager, confirmations := s.stream.confirmations.step op }, s.requested,
      s.acked ∪ Confirming.acknowledged [op], s.arms⟩ : Acked retryPolicy policy).Inv := by
  have hkept := Confirming.open_kept s.stream.confirmations hbegin
  refine ⟨h.confirming.step op, h.guarded, h.arms, h.once, h.live, ?_, h.le, h.pos, ?_, ?_⟩
  · intro hmessages
    exact h.messages (hphase hmessages)
  · intro hdone hopen
    obtain ⟨hopen, hexpected, hconfirmed⟩ := hkept hopen
    obtain ⟨hrequested, hacked⟩ := h.window hdone hopen
    refine ⟨?_, ?_⟩
    · simp only [hexpected]
      exact hrequested
    · exact hconfirmed.trans (Finset.union_subset_union_left hacked)
  · rintro (hnot | hopen)
    · exact h.unarmed (.inl hnot)
    · exact h.unarmed (.inr (hkept hopen).1)

/-- A window of the session completes, and is the first one that arms. -/
theorem Inv.arm (h : s.Inv) (hdone : s.Completed) (manager : Manager ⟨retryPolicy, true⟩)
    {op : ConfirmingOp} {confirmed : Finset Str}
    (hcallback : s.stream.confirmations.callback op = some (.onComplete confirmed)) (now : Rat) :
    (⟨{ s.stream with
        manager
        confirmations := s.stream.confirmations.step op
        liveness := s.stream.liveness.step (.armAfterSubscriptionsConfirmed confirmed
          (some (s.stream.connectGeneration : Int)) now) }, s.requested,
      s.acked ∪ Confirming.acknowledged [op],
      s.arms ++ [⟨confirmed, s.stream.connectGeneration, s.stream.connectGeneration, s.requested,
        s.acked ∪ Confirming.acknowledged [op]⟩]⟩ : Acked retryPolicy policy).Inv := by
  have hopen : s.stream.confirmations.tracker.watchdogTask.isSome = true := by
    rw [h.confirming.open_of_callback hcallback]
    rfl
  obtain ⟨hexpected, hacked, hover⟩ := h.confirming.callback_complete hcallback
  obtain ⟨hrequested, hconfirmed⟩ := h.window hdone hopen
  have hguarded := h.guarded.step (.armAfterSubscriptionsConfirmed confirmed
    (some (s.stream.connectGeneration : Int)) now)
  refine ⟨h.confirming.step op, hguarded, ?_, ?_, ?_, fun _ => hdone, ?_, h.pos, ?_, ?_⟩
  · intro arm harm
    rcases List.mem_append.mp harm with hold | hnew
    · exact h.arms arm hold
    · rw [List.mem_singleton.mp hnew]
      refine ⟨rfl, ?_, ?_⟩
      · rw [hexpected]
        exact hrequested
      · exact hacked.trans (Finset.union_subset_union_left hconfirmed)
  · rw [List.map_append, List.nodup_append]
    refine ⟨h.once, List.nodup_singleton _, ?_⟩
    intro session hsession other hother
    obtain ⟨arm, harm, rfl⟩ := List.mem_map.mp hsession
    rw [List.mem_singleton.mp hother]
    exact h.unarmed (.inr hopen) arm harm
  · intro symbols hcurrent
    rcases s.stream.liveness.current_step _ hcurrent with ⟨_, _, _, heq, -⟩ | ⟨hsame, -⟩
    · cases heq
      exact ⟨_, List.mem_append_right _ (List.mem_singleton_self _), rfl, rfl⟩
    · obtain ⟨arm, harm, hlive⟩ := h.live symbols hsame
      exact ⟨arm, List.mem_append_left _ harm, hlive⟩
  · intro arm harm
    rcases List.mem_append.mp harm with hold | hnew
    · exact h.le arm hold
    · rw [List.mem_singleton.mp hnew]
  · intro _ hagain
    rw [hover] at hagain
    cases hagain
  · rintro (hnot | hagain)
    · exact absurd hdone hnot
    · rw [hover] at hagain
      cases hagain

/-- The tracker takes an acknowledgement, or a timer of it goes on. -/
theorem Inv.confirm (h : s.Inv) {manager : Manager ⟨retryPolicy, true⟩}
    (hphase : manager.phase = .messages → s.stream.manager.phase = .messages)
    {op : ConfirmingOp} (hbegin : ∀ symbols, op ≠ .beginExpectation symbols)
    (hcompleted : ∀ symbol, op = .recordConfirmation symbol → s.Completed) (now : Rat) :
    (⟨({ s.stream with manager } : BaseExchangeStream retryPolicy policy).confirm op now,
      s.requested, s.acked ∪ Confirming.acknowledged [op],
      s.arms ++ (s.stream.armCall (s.stream.confirmations.callback op)).toList.map
        fun (confirmed, connectGeneration) =>
          ⟨confirmed, connectGeneration, s.stream.connectGeneration, s.requested,
            s.acked ∪ Confirming.acknowledged [op]⟩⟩ : Acked retryPolicy policy).Inv := by
  cases hcall : s.stream.armCall (s.stream.confirmations.callback op) with
  | none =>
    rw [@confirm_quiet _ _ { s.stream with manager } op hcall now]
    simp only [Option.toList_none, List.map_nil, List.append_nil]
    exact h.confirmQuiet hphase hbegin
  | some call =>
    obtain ⟨confirmed, connectGeneration⟩ := call
    rw [@confirm_arms _ _ { s.stream with manager } op _ _ hcall now]
    obtain ⟨hcallback, rfl⟩ := armCall_some hcall
    -- only an acknowledgement completes a window, and those come when the callback has returned
    have hdone : s.Completed := by
      cases op with
      | recordConfirmation symbol => exact hcompleted symbol rfl
      | beginExpectation | cancel => cases hcallback
      | wake generation =>
        obtain ⟨hexpected, hacked, -⟩ := h.confirming.callback_complete hcallback
        exfalso
        apply h.confirming.missing
        · rw [h.confirming.open_of_callback hcallback]
          rfl
        · rw [← hexpected]
          simpa [Confirming.acknowledged] using hacked
    have hpos := h.pos (by simp [show s.stream.connectStage = .completed from hdone])
    have hmax : max (s.stream.connectGeneration : Int) 1 = s.stream.connectGeneration := by omega
    simp only [hmax, Option.toList_some, List.map_cons, List.map_nil]
    exact h.arm hdone manager hcallback now

/-! ## Messages -/

/-- A message is given out in the loop over the messages. -/
theorem phase_of_nextMessage {stream : BaseExchangeStream retryPolicy policy} {message : Str}
    (hmessage : stream.nextMessage = some message) : stream.manager.phase = .messages := by
  by_cases hlistener : stream.manager.listener = .receiving
  · exact Manager.phase_messages hlistener
  · have hsame : stream.manager.step .nextMessage = stream.manager := by
      simp only [Manager.step, hlistener, ↓reduceIte]
    simp only [BaseExchangeStream.nextMessage, hsame, List.drop_length, List.head?_nil] at hmessage
    cases hmessage

theorem Inv.manager (h : s.Inv) {event : WsEvent} (hconnect : event ≠ .handshakeReturns)
    (hcallback : event ≠ .callbackReturns) :
    ({ s with stream := { s.stream with manager := s.stream.manager.step event } } :
      Acked retryPolicy policy).Inv :=
  h.same rfl h.guarded (fun _ => id) rfl rfl (Manager.phase_messages_of_step hconnect hcallback)

theorem Inv.nextMessage (h : s.Inv) (now : Rat) :
    (s.step strategy parse (.event .nextMessage now)).Inv := by
  have hphase : (s.stream.manager.step .nextMessage).phase = .messages →
      s.stream.manager.phase = .messages := Manager.phase_messages_of_step (by simp) (by simp)
  cases hack : s.stream.nextMessage.bind (BaseExchangeStream.acknowledgement parse) with
  | none =>
    have hquiet : s.confirmingOp parse (.event .nextMessage now) = none := by
      simp only [confirmingOp, hack, Option.map_none]
    refine .quiet strategy parse rfl hquiet (by simp) ?_
    have hstream : s.stream.step strategy parse (.event .nextMessage now) =
        { s.stream with manager := s.stream.manager.step .nextMessage } := by
      simp only [BaseExchangeStream.step, BaseExchangeStream.stepEvent]
      cases hmessage : s.stream.nextMessage with
      | none => rfl
      | some message =>
        rw [hmessage, Option.bind_some] at hack
        simp only [BaseExchangeStream.processMessage, hack]
    rw [hstream]
    exact h.manager (by simp) (by simp)
  | some symbol =>
    obtain ⟨message, hmessage, hsymbol⟩ := Option.bind_eq_some_iff.mp hack
    have hdone : s.Completed := h.messages (phase_of_nextMessage hmessage)
    have hstream : s.stream.step strategy parse (.event .nextMessage now) =
        ({ s.stream with manager := s.stream.manager.step .nextMessage } :
          BaseExchangeStream retryPolicy policy).confirm (.recordConfirmation symbol) now := by
      simp only [BaseExchangeStream.step, BaseExchangeStream.stepEvent, hmessage,
        BaseExchangeStream.processMessage, hsymbol]
    have hconfirm := @Inv.confirm _ _ s h _ hphase (.recordConfirmation symbol) (by simp)
      (fun _ _ => hdone) now
    simp only [step, hstream, connects, acknowledged, armCall, confirmingOp, hack,
      Option.map_some, Option.bind_some, Option.toList_some, Bool.false_eq_true, ↓reduceIte]
    exact hconfirm

/-! ## Connects -/

/-- A session starts: nothing of it is requested or acknowledged, and the guard is cancelled. -/
theorem Inv.connect (h : s.Inv) (hlistener : s.stream.manager.listener = .handshake) (now : Rat) :
    (s.step strategy parse (.event .handshakeReturns now)).Inv := by
  have hphase : (s.stream.manager.step .handshakeReturns).phase = .callback := by
    rw [Manager.step_phase]
    simp only [hlistener, ↓reduceIte]
  have harm : s.armCall parse (.event .handshakeReturns now) = none := rfl
  simp only [step, connects, hlistener, decide_true, ↓reduceIte, harm, Option.toList_none,
    List.map_nil, List.append_nil, BaseExchangeStream.step, BaseExchangeStream.stepEvent,
    BaseExchangeStream.handleConnect]
  have hfresh : ∀ arm ∈ s.arms, arm.session ≠ s.stream.connectGeneration + 1 := by
    intro arm harm
    have := h.le arm harm
    omega
  refine ⟨h.confirming, h.guarded.step .cancel, h.arms, h.once, ?_, ?_, ?_, ?_, nofun,
    fun _ => hfresh⟩
  · intro symbols hcurrent
    rw [Guarded.current_cancel] at hcurrent
    cases hcurrent
  · intro hmessages
    rw [hphase] at hmessages
    cases hmessages
  · intro arm harm
    exact Nat.le_succ_of_le (h.le arm harm)
  · intro _
    exact Nat.succ_le_succ (Nat.zero_le _)

theorem not_completed_of_inCallback (hcallback : s.stream.connectStage.inCallback = true) :
    ¬s.Completed := by
  intro hcompleted
  rw [show s.stream.connectStage = .completed from hcompleted] at hcallback
  cases hcallback

theorem Inv.pos_of_inCallback (h : s.Inv) (hcallback : s.stream.connectStage.inCallback = true) :
    1 ≤ s.stream.connectGeneration := by
  apply h.pos
  intro hidle
  rw [hidle] at hcallback
  cases hcallback

/-- The callback goes on, or raises. -/
theorem Inv.restage (h : s.Inv) (hcallback : s.stream.connectStage.inCallback = true)
    {stream : BaseExchangeStream retryPolicy policy}
    (hconfirmations : stream.confirmations = s.stream.confirmations)
    (hliveness : stream.liveness = s.stream.liveness)
    (hgeneration : stream.connectGeneration = s.stream.connectGeneration)
    (hstage : stream.connectStage ≠ .completed)
    (hphase : stream.manager.phase = .messages → s.stream.manager.phase = .messages) :
    ({ s with stream } : Acked retryPolicy policy).Inv where
  confirming := hconfirmations ▸ h.confirming
  guarded := hliveness ▸ h.guarded
  arms := h.arms
  once := h.once
  live := by
    rw [hliveness, hgeneration]
    exact h.live
  messages := by
    intro hmessages
    exact absurd (h.messages (hphase hmessages)) (not_completed_of_inCallback hcallback)
  le := by
    rw [hgeneration]
    exact h.le
  pos := by
    rw [hgeneration]
    exact fun _ => h.pos_of_inCallback hcallback
  window := fun hcompleted => absurd hcompleted hstage
  unarmed := by
    rw [hgeneration]
    exact fun _ => h.unarmed (.inl (not_completed_of_inCallback hcallback))

theorem Inv.connectRaises (h : s.Inv) (hcallback : s.stream.connectStage.inCallback = true)
    (raised : Raised) :
    ({ s with stream := s.stream.connectRaises raised } : Acked retryPolicy policy).Inv :=
  h.restage hcallback rfl rfl rfl (by simp [BaseExchangeStream.connectRaises])
    (Manager.phase_messages_of_step (by simp) (by simp))

/-- The callback returns, when the tracker has begun a window or cancelled one. -/
theorem Inv.connectReturns (h : s.Inv) (hcallback : s.stream.connectStage.inCallback = true)
    (op : ConfirmingOp) {requested : Option (Finset Str)}
    (hwindow : (s.stream.confirmations.step op).tracker.watchdogTask.isSome = true →
      requested = some (s.stream.confirmations.step op).tracker.expected ∧
        (s.stream.confirmations.step op).tracker.confirmed = ∅) :
    (⟨({ s.stream with confirmations := s.stream.confirmations.step op } :
      BaseExchangeStream retryPolicy policy).connectReturns, requested, s.acked, s.arms⟩ :
        Acked retryPolicy policy).Inv where
  confirming := h.confirming.step op
  guarded := h.guarded
  arms := h.arms
  once := h.once
  live := h.live
  messages := fun _ => rfl
  le := h.le
  pos := fun _ => h.pos_of_inCallback hcallback
  window := by
    intro _ hopen
    obtain ⟨hrequested, hconfirmed⟩ := hwindow hopen
    refine ⟨hrequested, ?_⟩
    exact (hconfirmed ▸ Finset.empty_subset _ :
      (s.stream.confirmations.step op).tracker.confirmed ⊆ s.acked)
  unarmed := fun _ => h.unarmed (.inl (not_completed_of_inCallback hcallback))

/-! ## The invariant -/

theorem Inv.event (h : s.Inv) (event : WsEvent) (now : Rat) :
    (s.step strategy parse (.event event now)).Inv := by
  cases event with
  | nextMessage => exact h.nextMessage strategy parse now
  | handshakeReturns =>
    by_cases hlistener : s.stream.manager.listener = .handshake
    · exact h.connect strategy parse hlistener now
    · have hconnects : s.connects (.event .handshakeReturns now) = false := by
        simp only [connects, hlistener, decide_false]
      refine .quiet strategy parse hconnects rfl (by simp) ?_
      simp only [BaseExchangeStream.step, BaseExchangeStream.stepEvent, hlistener, ↓reduceIte]
      refine h.same rfl h.guarded (fun _ => id) rfl rfl ?_
      simp only [Manager.step, hlistener, ↓reduceIte]
      exact id
  | callbackReturns =>
    refine .quiet strategy parse rfl rfl (by simp) ?_
    exact h
  | callbackRaises raised =>
    refine .quiet strategy parse rfl rfl (by simp) ?_
    exact h
  | anext | handshakeRaises | abandonEnds | messageArrives | socketCloses | iterationEnds |
    contextExits | listenerResumes | backoffEnds | healthResumes | keepAliveResumes | stop |
    stopResumes =>
    refine .quiet strategy parse rfl rfl (by simp) ?_
    exact h.manager (by simp) (by simp)

/-- A request is taken, or raises at once. -/
theorem sendPayload_cases (stream : BaseExchangeStream retryPolicy policy)
    (formatted : Except PyError Json) :
    (∃ wire, stream.sendPayload formatted = ({ stream with wire }, none)) ∨
      ∃ raised, stream.sendPayload formatted = (stream, some raised) := by
  unfold BaseExchangeStream.sendPayload BaseExchangeStream.send
  split
  · exact .inr ⟨_, rfl⟩
  · split
    · exact .inl ⟨_, rfl⟩
    · exact .inr ⟨_, rfl⟩

/-- A call changes the registry, and the requests on their way. -/
theorem Inv.call (h : s.Inv) {format : List Str → Except PyError Json}
    {result : Except PyError (SubscriptionRegistry × List Str)} :
    ({ s with stream := s.stream.after (s.stream.sendChange format result) } :
      Acked retryPolicy policy).Inv := by
  unfold BaseExchangeStream.sendChange
  split
  · exact h
  · split
    · exact h.same rfl h.guarded (fun _ => id) rfl rfl id
    · rename_i registry changes _
      rcases sendPayload_cases { s.stream with registry } (format changes) with
        ⟨wire, hsend⟩ | ⟨raised, hsend⟩
      · rw [hsend]
        exact h.same rfl h.guarded (fun _ => id) rfl rfl id
      · rw [hsend]
        exact h.same rfl h.guarded (fun _ => id) rfl rfl id

theorem Inv.validated (h : s.Inv) {check : Except PyError Unit}
    {call : Except PyError (BaseExchangeStream retryPolicy policy × Option Raised)}
    (hcall : ({ s with stream := s.stream.after call } : Acked retryPolicy policy).Inv) :
    ({ s with stream := s.stream.after (check >>= fun _ => call) } :
      Acked retryPolicy policy).Inv :=
  BaseExchangeStream.after_validated
    (P := fun stream => ({ s with stream } : Acked retryPolicy policy).Inv) h hcall

theorem Inv.resubscribeAll (h : s.Inv) : (s.step strategy parse .resubscribeAll).Inv := by
  refine .quiet strategy parse rfl rfl (by simp) ?_
  simp only [BaseExchangeStream.step, BaseExchangeStream.resubscribeAll]
  cases hstage : s.stream.connectStage with
  | idle | resubscribing | completed | failed => exact h
  | notifying =>
    have hcallback : s.stream.connectStage.inCallback = true := by
      rw [hstage]
      rfl
    simp only
    split
    · exact h.connectReturns hcallback .cancel (by simp [Confirming.step])
    · rcases sendPayload_cases s.stream (strategy.formatSubscribe s.stream.registry.getAll) with
        ⟨wire, hsend⟩ | ⟨raised, hsend⟩
      · simp only [hsend]
        exact h.restage hcallback rfl rfl rfl (by simp) id
      · simp only [hsend]
        exact h.connectRaises hcallback raised

/-- The tracker begins the window of what was requested. -/
theorem Inv.resubscribeReturns (h : s.Inv) : (s.step strategy parse .resubscribeReturns).Inv := by
  have hacked : s.acknowledged parse .resubscribeReturns = ∅ := rfl
  have harm : s.armCall parse .resubscribeReturns = none := rfl
  simp only [step, connects, hacked, harm, Bool.false_eq_true, ↓reduceIte, Finset.union_empty,
    Option.toList_none, List.map_nil, List.append_nil, BaseExchangeStream.step,
    BaseExchangeStream.resubscribeReturns]
  cases hstage : s.stream.connectStage with
  | idle | notifying | completed | failed => exact h
  | resubscribing requested =>
    have hcallback : s.stream.connectStage.inCallback = true := by
      rw [hstage]
      rfl
    cases hbegin : s.stream.confirmations.tracker.beginExpectation requested with
    | error e =>
      simp only [hbegin]
      exact h.connectRaises hcallback .exception
    | ok tracker =>
      have hwindow :
          (s.stream.confirmations.step (.beginExpectation requested)).tracker.watchdogTask.isSome =
            true →
          some requested.toFinset = some (s.stream.confirmations.step
              (.beginExpectation requested)).tracker.expected ∧
            (s.stream.confirmations.step (.beginExpectation requested)).tracker.confirmed = ∅ := by
        simp only [Confirming.step, hbegin]
        obtain ⟨-, ⟨-, rfl⟩ | ⟨-, rfl⟩⟩ := SubscriptionConfirmationTracker.begin_ok hbegin
        · intro hopen
          cases hopen
        · exact fun _ => ⟨rfl, rfl⟩
      simp only [hbegin]
      exact h.connectReturns hcallback (.beginExpectation requested) hwindow

theorem Inv.step (h : s.Inv) (op : StreamOp) : (s.step strategy parse op).Inv := by
  cases op with
  | event event now => exact h.event strategy parse event now
  | resubscribeAll => exact h.resubscribeAll strategy parse
  | resubscribeReturns => exact h.resubscribeReturns strategy parse
  | confirmationTimer generation now =>
    have hconfirm := @Inv.confirm _ _ s h s.stream.manager id (.wake generation) nofun nofun now
    exact hconfirm
  | callbackRaises raised =>
    refine .quiet strategy parse rfl rfl (by simp) ?_
    simp only [BaseExchangeStream.step, BaseExchangeStream.callbackRaises]
    split
    · rename_i hstage
      split
      · exact h
      · apply h.connectRaises
        rw [hstage]
        rfl
    · exact h
  | resubscribeRaises raised =>
    refine .quiet strategy parse rfl rfl (by simp) ?_
    simp only [BaseExchangeStream.step, BaseExchangeStream.resubscribeRaises]
    split
    · rename_i requested hstage
      apply h.connectRaises
      rw [hstage]
      rfl
    · exact h
  | reaches =>
    refine .quiet strategy parse rfl rfl (by simp) ?_
    simp only [BaseExchangeStream.step, BaseExchangeStream.reaches]
    split
    · exact h
    · exact h.same rfl h.guarded (fun _ => id) rfl rfl id
  | subscribeSymbol | subscribeSymbols | unsubscribeSymbol | unsubscribeSymbols =>
    refine .quiet strategy parse rfl rfl (by simp) ?_
    exact h.validated h.call
  | livenessTimer generation now =>
    refine .quiet strategy parse rfl rfl (by simp) ?_
    have hguarded := h.guarded.step (.wake generation now)
    exact h.same rfl hguarded (fun _ => current_of_liveness _ (.wake generation now) nofun) rfl rfl id
  | recordJournalWrite =>
    refine .quiet strategy parse rfl rfl (by simp) ?_
    have hguarded := h.guarded.step .recordJournalWrite
    exact h.same rfl hguarded (fun _ => current_of_liveness _ .recordJournalWrite nofun) rfl rfl id
  | stop =>
    refine .quiet strategy parse rfl rfl (by simp) ?_
    have hguarded := h.guarded.step .cancel
    have hphase : (s.stream.manager.step .stop).phase = .messages →
        s.stream.manager.phase = .messages := Manager.phase_messages_of_step nofun nofun
    refine ⟨h.confirming.step .cancel, hguarded, h.arms, h.once, ?_, ?_, h.le, h.pos, nofun, ?_⟩
    · intro symbols hcurrent
      exact h.live symbols (current_of_liveness _ .cancel nofun hcurrent)
    · intro hmessages
      exact h.messages (hphase hmessages)
    · rintro (hnot | hopen)
      · exact h.unarmed (.inl hnot)
      · cases hopen

theorem Inv.byAcks (h : s.Inv) : s.ByAcks := by
  refine ⟨h.arms, h.once, h.live, ?_⟩
  intro generation now symbols elapsed hreport
  obtain ⟨hcurrent, elapsed', hsymbols⟩ := Guarded.expiry_current h.guarded hreport
  rcases hsymbols with heq | heq
  · cases heq
  · cases heq
    exact hcurrent

/-- **The guard is armed by the acknowledgements of its session only**, in every run. -/
theorem armed_by_acks (retryPolicy : RetryPolicy) (policy : LivenessPolicy)
    (registry : SubscriptionRegistry) (ops : List StreamOp) :
    Run.Always (step strategy parse) ByAcks (start registry : Acked retryPolicy policy) ops := by
  have h := @Run.always_of_step _ _ (step strategy parse) Inv
    (fun _ op h => h.step strategy parse op) (start registry : Acked retryPolicy policy)
    (inv_start registry) ops
  exact h.mono fun _ hs => hs.byAcks

end Acked

end Leviathan
