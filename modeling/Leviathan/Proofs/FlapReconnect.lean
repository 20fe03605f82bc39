import Leviathan.Network.ListenerPhase
import Leviathan.Proofs.PostFlapSafety

/-!
# A reconnect as a flap

The manager and its flap monitor, over any number of sessions. The provider of the tip is the one
that `__resolve_tip_seq_provider` makes: it calls `int` itself, so whatever that raises is an
exception of the provider, and the monitor finds no tip.

* `correlated_iff`: **a reconnect is correlated as a flap exactly when the session before it ended
  with `ConnectionClosed` out of the loop over its messages.**
* `clean_close_ignored`: the reconnect after a session that is closed cleanly arms nothing.
-/

namespace Leviathan

open Manager

variable {cfg : WsConfig} {policy : FlapPolicy}

/-- How a session ends. -/
inductive SessionEnd where
  | callbackRaised (raised : Raised)
  /-- with `StopAsyncIteration` (`none`), as a clean close gives it, or with something else -/
  | iterationEnded (raised : Option Raised)
  deriving DecidableEq

/-- A manager and its monitor. -/
structure Flapping (cfg : WsConfig) (policy : FlapPolicy) where
  manager : Manager cfg
  correlated : Correlated policy
  /-- how the last session ended; `none` while one goes on -/
  lastEnd : Option SessionEnd

/-- A sample of `_tip_seq_provider`: what it returns is `None` or a number that `int` has given. -/
abbrev WiredSample : Type := { sample : TipSample // (sampleTipSeq sample).isOk = true }

inductive FlappingOp where
  /-- an event of the manager, with what the provider and the clocks give meanwhile -/
  | event (event : WsEvent) (sample : WiredSample) (wallMs monoMs : Int)
  | recordTipProgress (sample : WiredSample)
  /-- a timer of the monitor goes on after its sleep -/
  | wake (generation : Nat) (sample : WiredSample) (nowWallMs : Option Int) (now : Rat)

namespace Flapping

def start : Flapping cfg policy := ⟨.new, .start, none⟩

/-- A call of the manager at the monitor. -/
def heard (sample : WiredSample) (wallMs monoMs : Int) : FlapCall → CorrelatedOp
  | .noteConnectionClosed => .noteConnectionClosed sample monoMs
  | .noteConnectionRestored => .noteConnectionRestored sample wallMs monoMs
  | .cancel => .cancel

/-- How the last session has ended after the event. -/
def ended (s : Flapping cfg policy) : WsEvent → Option SessionEnd
  | .handshakeReturns => if s.manager.listener = .handshake then none else s.lastEnd
  | .callbackRaises raised =>
    if s.manager.listener = .onConnectCallback then some (.callbackRaised raised) else s.lastEnd
  | .iterationEnds raised =>
    if s.manager.listener = .receiving then some (.iterationEnded raised) else s.lastEnd
  | _ => s.lastEnd

def step (s : Flapping cfg policy) : FlappingOp → Flapping cfg policy
  | .event event sample wallMs monoMs =>
    let manager := s.manager.step event
    let calls := manager.flapTipMonitor.drop s.manager.flapTipMonitor.length
    { manager
      correlated := (calls.map (heard sample wallMs monoMs)).foldl Correlated.step s.correlated
      lastEnd := s.ended event }
  | .recordTipProgress sample =>
    { s with correlated := s.correlated.step (.recordTipProgress sample) }
  | .wake generation sample nowWallMs now =>
    { s with correlated := s.correlated.step (.wake generation sample nowWallMs now) }

/-- Only a reconnect starts a timer. Every connection but the first is restored when a close is
noted, and opens one window when a tip is readable: with the tip at the close, or else with this
one. -/
def Correlates (s : Flapping cfg policy) (op : FlappingOp) : Prop :=
  let after := (s.step op).correlated
  match op with
  | .event .handshakeReturns sample wallMs _ =>
    s.manager.listener = .handshake → s.manager.connections ≠ 0 →
      s.correlated.monitor.pendingClose = true ∧
        ∀ baseline,
          (s.correlated.monitor.tipSeqBefore <|> readTip sample) = some baseline →
            after.current = some baseline ∧
              after.asleep = ⟨after.monitor.generation, baseline, wallMs⟩ :: s.correlated.asleep
  | _ => after.asleep.Sublist s.correlated.asleep

/-- A connection that is not the first comes after a session that ended with `ConnectionClosed` out
of its loop. -/
def ClosedBefore (s : Flapping cfg policy) : FlappingOp → Prop
  | .event .handshakeReturns _ _ _ =>
    s.manager.listener = .handshake → s.manager.connections ≠ 0 →
      s.lastEnd = some (.iterationEnded (some .connectionClosed))
  | _ => True

structure Inv (s : Flapping cfg policy) : Prop where
  /-- a session that goes on has not ended -/
  goesOn : s.manager.phase ≠ .outside → s.lastEnd = none
  pending : s.correlated.monitor.pendingClose = true ↔
    s.lastEnd = some (.iterationEnded (some .connectionClosed))

variable {s : Flapping cfg policy}

theorem inv_start : (start : Flapping cfg policy).Inv :=
  ⟨fun _ => rfl, iff_of_false nofun nofun⟩

/-- The monitor hears the calls of the event. -/
theorem step_correlated (s : Flapping cfg policy) (event : WsEvent) (sample : WiredSample)
    (wallMs monoMs : Int) :
    (s.step (.event event sample wallMs monoMs)).correlated =
      ((s.manager.flapCalls event).map (heard sample wallMs monoMs)).foldl Correlated.step
        s.correlated := by
  simp only [step, step_flapTipMonitor, List.drop_left]

/-! ## What the calls do -/

theorem heard_pendingClose (correlated : Correlated policy) (sample : WiredSample)
    (wallMs monoMs : Int) (call : FlapCall) :
    (correlated.step (heard sample wallMs monoMs call)).monitor.pendingClose =
      match call with
      | .noteConnectionClosed => true
      | .noteConnectionRestored => false
      | .cancel => correlated.monitor.pendingClose := by
  rw [Correlated.pendingClose_step]
  cases call <;> rfl

/-- What is not a restored connection starts no timer. -/
theorem sublist_step (correlated : Correlated policy) (op : CorrelatedOp)
    (hop : ∀ sample wallMs monoMs, op ≠ .noteConnectionRestored sample wallMs monoMs) :
    (correlated.step op).asleep.Sublist correlated.asleep := by
  cases op with
  | noteConnectionRestored sample wallMs monoMs => exact absurd rfl (hop sample wallMs monoMs)
  | noteConnectionClosed | recordTipProgress | cancel => exact List.Sublist.refl _
  | wake generation sample nowWallMs now =>
    simp only [Correlated.step]
    split
    · exact List.Sublist.refl _
    · exact List.eraseP_sublist

/-- A restored connection with a close that is noted. -/
theorem restored_opens (correlated : Correlated policy)
    (hpending : correlated.monitor.pendingClose = true) (sample : WiredSample)
    (wallMs monoMs : Int) {baseline : Int}
    (hbaseline : (correlated.monitor.tipSeqBefore <|> readTip sample) = some baseline) :
    let after := correlated.step (.noteConnectionRestored sample wallMs monoMs)
    after.current = some baseline ∧
      after.asleep = ⟨after.monitor.generation, baseline, wallMs⟩ :: correlated.asleep := by
  obtain ⟨sample, hwired⟩ := sample
  cases hsample : sampleTipSeq sample with
  | error e =>
    rw [hsample] at hwired
    cases hwired
  | ok tipAfter =>
    rw [readTip_ok hsample] at hbaseline
    refine ⟨Correlated.current_restored hpending hsample hbaseline wallMs monoMs, ?_⟩
    simp only [Correlated.step]
    rcases PostFlapTipCorrelationMonitor.restored_cases correlated.monitor sample wallMs monoMs with
      ⟨hfalse, -⟩ | ⟨-, -, -, -, ⟨hnone, -⟩ | ⟨tipAfter', baseline', htip, hsome, htimer, hgen, -⟩⟩
    · rw [hpending] at hfalse
      cases hfalse
    · rw [hnone tipAfter hsample] at hbaseline
      cases hbaseline
    · obtain rfl : tipAfter' = tipAfter := Except.ok.inj (htip.symm.trans hsample)
      obtain rfl : baseline' = baseline := Option.some.inj (hsome.symm.trans hbaseline)
      rw [htimer, hgen]
      rfl

/-! ## The invariant -/

/-- No close is noted while a session goes on. -/
theorem Inv.not_pendingClose (h : s.Inv) (hphase : s.manager.phase ≠ .outside) :
    s.correlated.monitor.pendingClose ≠ true := by
  intro htrue
  have hclosed := h.pending.mp htrue
  rw [h.goesOn hphase] at hclosed
  cases hclosed

theorem Inv.event_goesOn (h : s.Inv) (event : WsEvent)
    (hphase : (s.manager.step event).phase ≠ .outside) : s.ended event = none := by
  rw [step_phase] at hphase
  cases event with
  | handshakeReturns =>
    simp only [ended] at hphase ⊢
    split
    · rfl
    · rename_i hlistener
      rw [if_neg hlistener] at hphase
      exact h.goesOn hphase
  | callbackReturns =>
    simp only at hphase
    split at hphase
    · rename_i hlistener
      apply h.goesOn
      rw [phase_callback_iff.mpr hlistener]
      decide
    · exact h.goesOn hphase
  | callbackRaises raised =>
    simp only [ended] at hphase ⊢
    split at hphase
    · exact absurd rfl hphase
    · rename_i hlistener
      rw [if_neg hlistener]
      exact h.goesOn hphase
  | iterationEnds raised =>
    simp only [ended] at hphase ⊢
    split at hphase
    · exact absurd rfl hphase
    · rename_i hlistener
      rw [if_neg hlistener]
      exact h.goesOn hphase
  | _ => exact h.goesOn hphase

theorem Inv.event_pending (h : s.Inv) (event : WsEvent) (sample : WiredSample) (wallMs monoMs : Int) :
    (s.step (.event event sample wallMs monoMs)).correlated.monitor.pendingClose = true ↔
      s.ended event = some (.iterationEnded (some .connectionClosed)) := by
  rw [step_correlated]
  cases event with
  | handshakeReturns =>
    simp only [flapCalls, ended]
    split
    · simp only [List.map_cons, List.map_nil, List.foldl_cons, List.foldl_nil, heard_pendingClose]
      exact iff_of_false (by simp) (by simp)
    · exact h.pending
  | callbackRaises raised =>
    simp only [ended]
    split
    · rename_i hlistener
      refine iff_of_false (h.not_pendingClose ?_) (by simp)
      rw [phase_callback_iff.mpr hlistener]
      decide
    · exact h.pending
  | iterationEnds raised =>
    by_cases hlistener : s.manager.listener = .receiving
    · have hnot := h.not_pendingClose (by rw [phase_messages hlistener]; decide)
      simp only [ended, hlistener, ↓reduceIte, Option.some.injEq, SessionEnd.iterationEnded.injEq]
      simp only [flapCalls, hlistener, true_and]
      split
      · rename_i hraised
        simp only [List.map_cons, List.map_nil, List.foldl_cons, List.foldl_nil,
          heard_pendingClose, hraised]
      · rename_i hraised
        exact iff_of_false hnot hraised
    · simp only [flapCalls, ended, hlistener, false_and, ↓reduceIte]
      exact h.pending
  | stop =>
    simp only [flapCalls, ended]
    split
    · simp only [List.map_cons, List.map_nil, List.foldl_cons, List.foldl_nil, heard_pendingClose]
      exact h.pending
    · exact h.pending
  | _ => exact h.pending

theorem Inv.step (h : s.Inv) (op : FlappingOp) : (s.step op).Inv := by
  cases op with
  | event event sample wallMs monoMs =>
    exact ⟨h.event_goesOn event, h.event_pending event sample wallMs monoMs⟩
  | recordTipProgress sample =>
    refine ⟨h.goesOn, ?_⟩
    simp only [Flapping.step, Correlated.pendingClose_step]
    exact h.pending
  | wake generation sample nowWallMs now =>
    refine ⟨h.goesOn, ?_⟩
    simp only [Flapping.step, Correlated.pendingClose_step]
    exact h.pending

/-! ## Reconnects -/

theorem correlates_iff (h : s.Inv) (op : FlappingOp) : s.Correlates op ↔ s.ClosedBefore op := by
  cases op with
  | recordTipProgress sample => exact iff_of_true (sublist_step _ _ (by simp)) trivial
  | wake generation sample nowWallMs now => exact iff_of_true (sublist_step _ _ (by simp)) trivial
  | event event sample wallMs monoMs =>
    have hcorrelated := step_correlated s event sample wallMs monoMs
    cases event with
    | handshakeReturns =>
      unfold Correlates ClosedBefore
      simp only [hcorrelated]
      constructor
      · intro hcorrelates hlistener hconnections
        exact h.pending.mp (hcorrelates hlistener hconnections).1
      · intro hclosed hlistener hconnections
        have hpending := h.pending.mpr (hclosed hlistener hconnections)
        refine ⟨hpending, ?_⟩
        intro baseline hbaseline
        simp only [flapCalls, hlistener, ↓reduceIte]
        exact restored_opens s.correlated hpending sample wallMs monoMs hbaseline
    | iterationEnds raised =>
      refine iff_of_true ?_ trivial
      simp only [Correlates, hcorrelated, flapCalls]
      split
      · exact sublist_step s.correlated (.noteConnectionClosed sample monoMs) (by simp)
      · exact List.Sublist.refl _
    | stop =>
      refine iff_of_true ?_ trivial
      simp only [Correlates, hcorrelated, flapCalls]
      split
      · exact sublist_step s.correlated .cancel (by simp)
      · exact List.Sublist.refl _
    | _ =>
      refine iff_of_true ?_ trivial
      simp only [Correlates, hcorrelated]
      exact List.Sublist.refl _

/-- **The reconnects of a run are correlated exactly when each comes after a session that ended with
`ConnectionClosed` out of its loop.** -/
theorem correlated_iff (cfg : WsConfig) (policy : FlapPolicy) (ops : List FlappingOp) :
    Run.Each step Correlates (start : Flapping cfg policy) ops ↔
      Run.Each step ClosedBefore (start : Flapping cfg policy) ops :=
  @Run.each_iff _ _ step Inv Correlates ClosedBefore (fun _ op h => h.step op)
    (fun _ op h => correlates_iff h op) _ inv_start ops

/-- Reconnects without limit, and no callback. -/
def flapConfig : WsConfig := ⟨⟨none, 30⟩, false⟩

/-- The server closes the connection cleanly, and the next handshake returns. The tip is readable,
and stays at 7. -/
def cleanClose : List FlappingOp :=
  [WsEvent.anext, .handshakeReturns, .socketCloses, .iterationEnds none, .contextExits none,
    .healthResumes true none, .listenerResumes, .keepAliveResumes none, .listenerResumes,
    .backoffEnds].map (.event · ⟨.value 7, rfl⟩ 0 0)

/-- **The reconnect after a clean close is not correlated.** -/
theorem clean_close_ignored :
    ¬Run.Each step Correlates (start : Flapping flapConfig .default)
      (cleanClose ++ [.event .handshakeReturns ⟨.value 7, rfl⟩ 1000 1000]) := by
  intro h
  have hlast := (Run.Each.append_iff.mp h).2.1
  have hpending := (hlast (by rfl) (by decide)).1
  revert hpending
  decide

end Flapping

end Leviathan
