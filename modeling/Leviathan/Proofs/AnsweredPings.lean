import Leviathan.Network.KeepAliveEmitter
import Leviathan.Network.ListenerPhase
import Leviathan.Proofs.SilenceDetection

/-!
# A session whose pings are answered is not cut

* `live`, `step_keepAlive`: no event but its own, and the cut of the watchdog, touches the
  keep-alive task of a session that is open and listened to.
* `OnTime`: no wait of the two tasks lasts longer than it was asked to by more than `late`, and a
  ping is answered within `answer`.
* `session_kept`: **when the interval, twice `late` and `answer` are within the timeout, the
  watchdog cuts no open session whose keep-alive has not raised.**
-/

namespace Leviathan

namespace Manager

variable {cfg : WsConfig} {s s' : Manager cfg}

/-! ## The keep-alive task -/

/-- The listener listens to the session, it is open, and `stop()` is not called. -/
def live (s : Manager cfg) : Bool := s.watching && s.isConnected

theorem live_iff : s.live = true ↔ s.watching = true ∧ s.isConnected = true := by
  simp [live]

theorem live.listening (h : s.live = true) : s.listening = true ∧ s.stopEvent = false := by
  simpa [watching] using (live_iff.mp h).1

theorem TaskStep.live (h : s.TaskStep s') (hlive : s'.live = true) : s.live = true := by
  obtain ⟨hwatching, hconnected⟩ := live_iff.mp hlive
  refine live_iff.mpr ⟨?_, h.socket.isConnected hconnected⟩
  simpa only [Manager.watching, Manager.listening, h.listener, h.stopEvent] using hwatching

/-- **A session that is live was live**, unless it is new. -/
theorem Steps.live (h : s.Steps s') (hlistener : s.listener ≠ .handshake) (hlive : s'.live = true) :
    s.live = true := by
  obtain ⟨hwatching, hconnected⟩ := live_iff.mp hlive
  rw [live_iff]
  cases h with
  | task _ ht => exact live_iff.mp (ht.live hlive)
  | listener _ hl => exact ⟨hl.watching hwatching, hl.socket.isConnected hconnected⟩
  | connects hconnects => exact absurd hconnects hlistener
  | message session message messages hreceiving hs hm =>
    simp only [nextMessage, hs, hm] at hwatching hconnected
    constructor
    · simpa [Manager.watching, Manager.listening, hreceiving] using hwatching
    · simpa [isConnected, hs] using hconnected
  | stopCalled _ _ hstop =>
    have hevent : s'.stopEvent = true := hstop.stopEvent
    simp [Manager.watching, hevent] at hwatching
  | stopResumes _ _ hstop =>
    refine ⟨?_, hstop.socket.isConnected hconnected⟩
    simpa only [Manager.watching, Manager.listening, hstop.listener, hstop.stopEvent] using hwatching

/-- `stop()` has set its event. -/
theorem Steps.called (h : s.Steps s') (hcalled : s.stopper ≠ .notCalled → s.stopEvent = true) :
    s'.stopper ≠ .notCalled → s'.stopEvent = true := by
  intro hs'
  cases h with
  | task _ ht => exact ht.stopEvent.trans (hcalled (ht.stopper ▸ hs'))
  | listener _ hl => exact hl.stopEvent (hcalled (hl.stopper ▸ hs'))
  | connects => exact hcalled hs'
  | message session message messages hreceiving hs hm =>
    simp only [nextMessage, hs, hm] at hs' ⊢
    exact hcalled hs'
  | stopCalled _ _ hstop => exact hstop.stopEvent
  | stopResumes _ hs hstop => exact hstop.stopEvent.trans (hcalled hs)

/-- **No event but its own, and those of the health loop, touches the keep-alive task** of a session
that stays live. -/
theorem step_keepAlive {event : WsEvent} (hcalled : s.stopper ≠ .notCalled → s.stopEvent = true)
    (hlive : s.live = true) (hlive' : (s.step event).live = true)
    (hhealth : ∀ healthy raised, event ≠ .healthResumes healthy raised)
    (hkeep : ∀ raised, event ≠ .keepAliveResumes raised) :
    (s.step event).keepAlive = s.keepAlive := by
  obtain ⟨hlistening, hstop⟩ := live.listening hlive
  obtain ⟨-, hstop'⟩ := live.listening hlive'
  -- the listener is in its loop over the messages
  have hnot : ∀ {P : Prop} {listener}, s.listener = listener →
      ({ s with listener } : Manager cfg).listening = false → P := by
    rintro P _ rfl hfalse
    rw [hlistening] at hfalse
    cases hfalse
  cases event with
  | anext =>
    simp only [step]
    split
    · exact hnot ‹_› rfl
    · rfl
    · rfl
  | handshakeReturns =>
    simp only [step]
    split
    · exact hnot ‹_› rfl
    · rfl
  | handshakeRaises raised =>
    simp only [step]
    split
    · exact hnot ‹_› rfl
    · rfl
  | abandonEnds raised =>
    simp only [step]
    split
    · exact hnot ‹_› rfl
    · rfl
  | callbackReturns =>
    simp only [step]
    split <;> rfl
  | callbackRaises raised =>
    simp only [step]
    split <;> rfl
  | messageArrives message =>
    simp only [step, keepAlive, withSession, Option.map_map]
    congr 1
    funext session
    simp only [Function.comp_apply]
    split <;> rfl
  | socketCloses => simp [step, keepAlive, closeSocket, withSession, Function.comp_def]
  | nextMessage =>
    simp only [step]
    split
    · unfold nextMessage
      split
      · rfl
      · rename_i session hs
        split
        · rfl
        · simp [keepAlive, hs]
    · rfl
  | iterationEnds raised =>
    simp only [step]
    split
    · unfold iterationEnds
      split <;> rfl
    · rfl
  | contextExits raised =>
    simp only [step]
    split
    · exact hnot ‹_› rfl
    · rfl
  | listenerResumes =>
    simp only [step]
    split
    · exact hnot ‹_› rfl
    · exact hnot ‹_› rfl
    · rfl
  | backoffEnds =>
    simp only [step]
    split
    · exact hnot ‹_› rfl
    · rfl
  | healthResumes healthy raised => exact absurd rfl (hhealth healthy raised)
  | keepAliveResumes raised => exact absurd rfl (hkeep raised)
  | stop =>
    simp only [step] at hstop' ⊢
    split at hstop'
    · have hevent : s.stop.stopEvent = true := s.requestStop.stopCancelHealth_stopStep.stopEvent
      rw [hevent] at hstop'
      cases hstop'
    · rw [if_neg ‹_›]
  | stopResumes raised =>
    have hnotCalled : s.stopper = .notCalled := by
      by_contra hs
      rw [hcalled hs] at hstop
      cases hstop
    simp only [step, stopResumes, hnotCalled]

/-! ### Its own steps -/

theorem setHealth_keepAlive (s : Manager cfg) (task : HealthLoop) :
    (s.setHealth task).keepAlive = s.keepAlive := by
  simp [setHealth, keepAlive, withSession, Function.comp_def]

theorem healthKeepAliveEnded_keepAlive (s : Manager cfg) (raised : Raised) :
    (s.healthKeepAliveEnded raised).keepAlive = s.keepAlive := by
  unfold healthKeepAliveEnded healthDisconnect
  split <;> exact s.setHealth_keepAlive _

/-- **The health loop cancels the keep-alive when it cuts the session**, and leaves it alone
otherwise. -/
theorem healthResumes_keepAlive (s : Manager cfg) (healthy : Bool) (raised : Option Raised) :
    (s.healthResumes healthy raised).keepAlive = s.keepAlive ∨
      s.health = some (.sleeping false) ∧ healthy = false ∧
        ∃ cancelled, s.keepAlive = some (.running cancelled) := by
  unfold healthResumes
  split
  · exact .inl rfl
  · rename_i session hs
    split
    · exact .inl (s.setHealth_keepAlive _)
    · exact .inl (s.setHealth_keepAlive _)
    · exact .inl (s.setHealth_keepAlive _)
    · rename_i htask
      split
      · exact .inl (s.setHealth_keepAlive _)
      · unfold healthCancelKeepAlive
        split
        · split
          · rename_i cancelled hkeep
            exact .inr ⟨by simp [health, hs, htask], eq_false_of_ne_true ‹_›,
              cancelled, by simp [keepAlive, hs, hkeep]⟩
          · exact .inl (s.healthKeepAliveEnded_keepAlive _)
        · exact .inl (s.setHealth_keepAlive _)
    · split
      · exact .inl rfl
      · exact .inl (s.healthKeepAliveEnded_keepAlive _)
    · split
      · refine .inl ((setHealth_keepAlive _ _).trans ?_)
        simp [keepAlive, closeSocket, withSession, Function.comp_def]
      · exact .inl (s.setHealth_keepAlive _)
    · exact .inl rfl

/-- The keep-alive task ends when it is cancelled, when its send raises, and when there is nothing
to send to. -/
theorem keepAliveResumes_ends {raised : Option Raised}
    (h : s.keepAlive = some (.running false) → raised.isSome = true ∨ s.isConnected = false)
    (cancelled : Bool) : (s.keepAliveResumes raised).keepAlive ≠ some (.running cancelled) := by
  intro hrunning
  simp only [keepAliveResumes, keepAlive, withSession, Option.map_map, Option.map_eq_some_iff,
    Function.comp_apply] at hrunning
  obtain ⟨session, hs, hrunning⟩ := hrunning
  split at hrunning
  · cases hrunning
  · rename_i htask
    rcases h (by simp [keepAlive, hs, htask]) with hraised | hclosed
    · obtain ⟨raised, rfl⟩ := Option.isSome_iff_exists.mp hraised
      split at hrunning <;> cases hrunning
    · rw [if_neg (by simp [hclosed])] at hrunning
      cases hrunning
  · rename_i htask
    rw [htask] at hrunning
    cases hrunning

end Manager

/-! ## The clock -/

namespace TimedManager

variable {cfg : WsConfig} {s : TimedManager cfg}

/-- An event that is not of the health loop, and brings no new session: time stands, and the
watchdog hears the messages. -/
theorem step_event_cases {event : WsEvent}
    (hhealth : ∀ healthy raised, event ≠ .healthResumes healthy raised)
    (hconnects : event = .handshakeReturns → s.manager.listener ≠ .handshake) :
    s.step (.event event) = s ∨
      s.step (.event event) = s.moves (s.manager.step event) ∧
        (event = .nextMessage → (s.manager.step event).yielded = s.manager.yielded) ∨
      event = .nextMessage ∧ (s.manager.step event).yielded ≠ s.manager.yielded ∧
        s.step (.event event) =
          { s.moves (s.manager.step event) with watchdog := s.watchdog.ping s.now } := by
  cases hdue : s.isDue event with
  | false => exact .inl (by simp only [step, hdue, Bool.false_eq_true, ↓reduceIte])
  | true =>
    simp only [step, hdue, ↓reduceIte]
    cases event with
    | healthResumes healthy raised => exact absurd rfl (hhealth healthy raised)
    | handshakeReturns =>
      exact .inr (.inl ⟨by simp only [observe, if_neg (hconnects rfl), answered], by rintro ⟨⟩⟩)
    | nextMessage =>
      by_cases hsame : (s.manager.step .nextMessage).yielded = s.manager.yielded
      · refine .inr (.inl ⟨?_, fun _ => hsame⟩)
        exact if_pos hsame
      · refine .inr (.inr ⟨rfl, hsame, ?_⟩)
        exact if_neg hsame
    | _ => exact .inr (.inl ⟨rfl, by rintro ⟨⟩⟩)

end TimedManager

namespace Heartbeat

variable {cfg : WsConfig} (late answer : NNRat)

/-- When the wait of the keep-alive task is over. -/
def due (s : Heartbeat cfg) : Rat :=
  if s.stage = .sleeping then s.since + s.emitter.intervalSeconds else s.since

/-- When the keep-alive task is to go on. -/
def wakesAt (s : Heartbeat cfg) : Option Rat :=
  match s.timed.manager.keepAlive with
  | some (.running false) => some s.due
  | _ => none

/-- The two tasks go on when their waits are over, or `late` after that, and a live session is heard
within `answer` of a ping. -/
def OnTime (s : Heartbeat cfg) : TimedOp → Prop
  | .pass seconds =>
    s.timed.Punctual late (.pass seconds) ∧ (s.timed.manager.live = true →
      (∀ due ∈ s.wakesAt, s.timed.now + seconds ≤ due + late) ∧
        ∀ sent ∈ s.unanswered, s.timed.now + seconds ≤ sent + answer)
  | .event _ => True

instance instDecidableOnTime : ∀ (s : Heartbeat cfg) (op : TimedOp), Decidable (s.OnTime late answer op)
  | s, .pass seconds => inferInstanceAs (Decidable (s.timed.Punctual late (.pass seconds) ∧
      (s.timed.manager.live = true →
        (∀ due ∈ s.wakesAt, s.timed.now + seconds ≤ due + late) ∧
          ∀ sent ∈ s.unanswered, s.timed.now + seconds ≤ sent + answer)))
  | _, .event _ => .isTrue trivial

/-- The longest silence. -/
def longest (s : Heartbeat cfg) : Rat := s.emitter.intervalSeconds + 2 * late + answer

/-- While the keep-alive of a live session runs, the session is not cut, and not silent for long. -/
def Kept (s : Heartbeat cfg) : Prop :=
  s.timed.manager.live = true → (∃ cancelled, s.timed.manager.keepAlive = some (.running cancelled)) →
    ¬s.timed.manager.Over ∧ s.timed.cutAfter = none ∧ s.timed.silence ≤ s.longest late answer

/-- The session was heard when the keep-alive came to where it is, or has a ping to answer. -/
def Asked (s : Heartbeat cfg) : Prop :=
  match s.unanswered with
  | some sent =>
    sent ≤ s.timed.watchdog.lastActivity + s.emitter.intervalSeconds + 2 * late ∧
      s.timed.now ≤ sent + answer
  | none =>
    s.since ≤ s.timed.watchdog.lastActivity + late ∧
      (s.stage ≠ .sleeping → s.since ≤ s.timed.watchdog.lastActivity)

/-- The clock and the keep-alive task. -/
structure Inv (s : Heartbeat cfg) : Prop where
  timed : s.timed.Inv late
  called : s.timed.manager.stopper ≠ .notCalled → s.timed.manager.stopEvent = true
  fits : s.longest late answer ≤ s.timed.watchdog.timeoutSeconds
  since : s.since ≤ s.timed.now
  running : s.timed.manager.live = true →
    ∀ cancelled, s.timed.manager.keepAlive = some (.running cancelled) →
      cancelled = false ∧ s.timed.cutAfter = none ∧ s.timed.now ≤ s.due + late ∧
        s.Asked late answer

variable {late answer} {s : Heartbeat cfg}

theorem wakesAt_running (hkeep : s.timed.manager.keepAlive = some (.running false)) :
    s.wakesAt = some s.due := by
  simp only [wakesAt, hkeep]

/-- **The silence of a session whose keep-alive runs.** -/
theorem Inv.silence (h : s.Inv late answer) (hlive : s.timed.manager.live = true) {cancelled : Bool}
    (hkeep : s.timed.manager.keepAlive = some (.running cancelled)) :
    s.timed.silence ≤ s.longest late answer := by
  obtain ⟨rfl, -, hdue, hasked⟩ := h.running hlive cancelled hkeep
  have hlate : (0 : Rat) ≤ late := late.2
  have hanswer : (0 : Rat) ≤ answer := answer.2
  have hinterval := s.emitter.positive
  simp only [TimedManager.silence, SilenceWatchdog.elapsedSilence, longest]
  unfold Asked at hasked
  unfold due at hdue
  split at hasked
  · linarith
  · split at hdue <;> linarith

theorem Inv.kept (h : s.Inv late answer) : s.Kept late answer := by
  rintro hlive ⟨cancelled, hkeep⟩
  obtain ⟨-, hcut, -⟩ := h.running hlive cancelled hkeep
  refine ⟨fun hover => ?_, hcut, h.silence hlive hkeep⟩
  have hsome := h.timed.ended hover (Manager.live_iff.mp hlive).1
  rw [hcut] at hsome
  cases hsome

/-- The watchdog does not cut a live session whose keep-alive runs. -/
theorem Inv.cuts (h : s.Inv late answer) (hlive : s.timed.manager.live = true) {cancelled : Bool}
    (hkeep : s.timed.manager.keepAlive = some (.running cancelled)) : s.timed.cuts = false := by
  have hhealthy : s.timed.watchdog.checkHealth s.timed.now = true :=
    decide_eq_true ((h.silence hlive hkeep).trans h.fits)
  simp only [TimedManager.cuts, hhealthy]
  split <;> rfl

theorem inv_new {timeoutSeconds : Rat} (positive : 0 < timeoutSeconds) {emitter : KeepAliveEmitter}
    (hfits : emitter.intervalSeconds + 2 * late + answer ≤ timeoutSeconds) :
    (new timeoutSeconds positive emitter : Heartbeat cfg).Inv late answer :=
  ⟨TimedManager.inv_new timeoutSeconds positive late, fun h => absurd rfl h, hfits, le_refl _,
    by rintro ⟨⟩⟩

theorem inv_pass (h : s.Inv late answer) {seconds : NNRat}
    (hp : s.OnTime late answer (.pass seconds)) :
    (s.timedStep (.pass seconds)).Inv late answer := by
  obtain ⟨hpunctual, hontime⟩ := hp
  refine ⟨TimedManager.inv_step s.timed (.pass seconds) h.timed hpunctual, h.called, h.fits,
    h.since.trans (le_add_of_nonneg_right seconds.2), fun hlive cancelled hkeep => ?_⟩
  have hlive : s.timed.manager.live = true := hlive
  obtain ⟨hfalse, hcut, -, hasked⟩ := h.running hlive cancelled hkeep
  obtain ⟨hwakes, hanswers⟩ := hontime hlive
  subst hfalse
  refine ⟨rfl, hcut, hwakes _ (wakesAt_running hkeep), ?_⟩
  unfold Asked at hasked ⊢
  simp only [timedStep, TimedManager.step]
  split
  · rename_i sent hsent
    rw [hsent] at hasked
    exact ⟨hasked.1, hanswers sent hsent⟩
  · rename_i hnone
    rw [hnone] at hasked
    exact hasked

/-- The keep-alive task stays where it is. `timed'` hears a message, or does not. -/
theorem Inv.stays (h : s.Inv late answer) {timed' : TimedManager cfg} {unanswered' : Option Rat}
    (htimed : timed'.Inv late)
    (hcalled : timed'.manager.stopper ≠ .notCalled → timed'.manager.stopEvent = true)
    (hnow : timed'.now = s.timed.now)
    (htimeout : timed'.watchdog.timeoutSeconds = s.timed.watchdog.timeoutSeconds)
    (hheard : timed'.watchdog.lastActivity = s.timed.watchdog.lastActivity ∧
        unanswered' = s.unanswered ∨
      timed'.watchdog.lastActivity = s.timed.now ∧ unanswered' = none)
    (hrunning : timed'.manager.live = true →
      ∀ cancelled, timed'.manager.keepAlive = some (.running cancelled) →
        s.timed.manager.live = true ∧ s.timed.manager.keepAlive = some (.running cancelled) ∧
          timed'.cutAfter = s.timed.cutAfter) :
    Inv late answer { s with timed := timed', unanswered := unanswered' } := by
  have hlate : (0 : Rat) ≤ late := late.2
  refine ⟨htimed, hcalled, h.fits.trans htimeout.ge, h.since.trans hnow.ge,
    fun hlive cancelled hkeep => ?_⟩
  obtain ⟨hlive, hkeep', hcut⟩ := hrunning hlive cancelled hkeep
  obtain ⟨rfl, hnone, hdue, hasked⟩ := h.running hlive cancelled hkeep'
  refine ⟨rfl, hcut.trans hnone, hnow.le.trans hdue, ?_⟩
  · rcases hheard with ⟨hsame, rfl⟩ | ⟨hheard, rfl⟩
    · simpa only [Asked, hsame, hnow] using hasked
    · have hsince := h.since
      simp only [Asked, hheard]
      exact ⟨by linarith, fun _ => hsince⟩

/-- An event that is not of the two tasks, and brings no new session. -/
theorem inv_event (h : s.Inv late answer) {event : WsEvent}
    (hhealth : ∀ healthy raised, event ≠ .healthResumes healthy raised)
    (hkeep : ∀ raised, event ≠ .keepAliveResumes raised)
    (hconnects : event = .handshakeReturns → s.timed.manager.listener ≠ .handshake) :
    (s.step (.event event)).Inv late answer := by
  have hinv := TimedManager.inv_step s.timed (.event event) h.timed trivial
  have hsteps := s.timed.manager.step_steps event
  have hcalled := hsteps.called h.called
  have hrunning : (s.timed.manager.step event).live = true → ∀ cancelled,
      (s.timed.manager.step event).keepAlive = some (.running cancelled) →
        s.timed.manager.live = true ∧ s.timed.manager.keepAlive = some (.running cancelled) := by
    intro hlive' cancelled hkeep'
    have hwatching := (s.timed.manager.step_healthStep hhealth hconnects).watching
      (Manager.live_iff.mp hlive').1
    have hhandshake : s.timed.manager.listener ≠ .handshake := fun hhandshake => by
      simp [Manager.watching, Manager.listening, hhandshake] at hwatching
    have hlive := hsteps.live hhandshake hlive'
    have hsame := Manager.step_keepAlive h.called hlive hlive' hhealth hkeep
    exact ⟨hlive, hsame ▸ hkeep'⟩
  rcases TimedManager.step_event_cases hhealth hconnects with hs | ⟨hs, hsame⟩ | ⟨rfl, hnew, hs⟩
  · have hstep : s.step (.event event) = s := by
      cases event with
      | keepAliveResumes raised => exact absurd rfl (hkeep raised)
      | handshakeReturns => simp only [step, timedStep, hs, if_neg (hconnects rfl)]
      | nextMessage => simp only [step, timedStep, hs, ↓reduceIte]
      | _ => simp only [step, timedStep, hs]
    exact hstep.symm ▸ h
  · have hstep : s.step (.event event) =
        { s with timed := s.timed.moves (s.timed.manager.step event) } := by
      cases event with
      | keepAliveResumes raised => exact absurd rfl (hkeep raised)
      | handshakeReturns => simp only [step, timedStep, hs, if_neg (hconnects rfl)]
      | nextMessage =>
        simp only [step, timedStep, hs]
        exact if_pos (hsame rfl)
      | _ => simp only [step, timedStep, hs]
    rw [hs] at hinv
    rw [hstep]
    exact h.stays hinv hcalled rfl rfl (.inl ⟨rfl, rfl⟩) fun hlive' cancelled hkeep' =>
      ⟨(hrunning hlive' cancelled hkeep').1, (hrunning hlive' cancelled hkeep').2, rfl⟩
  · have hstep : s.step (.event .nextMessage) =
        { s with
          timed := { s.timed.moves (s.timed.manager.step .nextMessage) with
            watchdog := s.timed.watchdog.ping s.timed.now }
          unanswered := none } := by
      simp only [step, timedStep, hs]
      exact if_neg hnew
    rw [hs] at hinv
    rw [hstep]
    exact h.stays hinv hcalled rfl rfl (.inr ⟨rfl, rfl⟩) fun hlive' cancelled hkeep' =>
      ⟨(hrunning hlive' cancelled hkeep').1, (hrunning hlive' cancelled hkeep').2, rfl⟩

/-- A session begins. -/
theorem inv_connects (h : s.Inv late answer) (hlistener : s.timed.manager.listener = .handshake) :
    (s.step (.event .handshakeReturns)).Inv late answer := by
  have hlate : (0 : Rat) ≤ late := late.2
  have hinv := TimedManager.inv_step s.timed (.event .handshakeReturns) h.timed trivial
  have hs : s.timed.step (.event .handshakeReturns) =
      { s.timed.moves s.timed.manager.connected with
        watchdog := s.timed.watchdog.ping s.timed.now
        healthSince := s.timed.now
        cutAfter := none } := by
    simp only [TimedManager.step, TimedManager.isDue, TimedManager.observe, TimedManager.answered,
      Manager.step, hlistener, ↓reduceIte]
  rw [hs] at hinv
  simp only [step, hlistener, ↓reduceIte, timedStep, hs]
  refine ⟨hinv, h.called, h.fits, le_refl _, fun _ cancelled hkeep => ?_⟩
  have hfalse : cancelled = false := by
    cases cancelled with
    | false => rfl
    | true => cases hkeep
  exact ⟨hfalse, rfl, le_add_of_nonneg_right hlate, le_add_of_nonneg_right hlate,
    fun _ => le_refl s.timed.now⟩

/-- The health loop goes on. -/
theorem inv_health (h : s.Inv late answer) (healthy : Bool) (raised : Option Raised) :
    (s.step (.event (.healthResumes healthy raised))).Inv late answer := by
  have hinv := TimedManager.inv_step s.timed (.event (.healthResumes healthy raised)) h.timed trivial
  show Inv late answer (s.timedStep (.event (.healthResumes healthy raised)))
  cases hdue : s.timed.isDue (.healthResumes healthy raised) with
  | false =>
    simp only [timedStep, TimedManager.step, hdue, Bool.false_eq_true, ↓reduceIte]
    exact h
  | true =>
    have hs := TimedManager.step_healthResumes hdue
    simp only [timedStep, hs]
    rw [hs] at hinv
    have hstep := s.timed.manager.healthResumes_taskStep
      (s.timed.watchdog.checkHealth s.timed.now) raised
    refine h.stays hinv ((Manager.Steps.task _ hstep).called h.called) rfl rfl (.inl ⟨rfl, rfl⟩) ?_
    intro hlive' cancelled hkeep'
    have hlive := hstep.live hlive'
    rcases s.timed.manager.healthResumes_keepAlive (s.timed.watchdog.checkHealth s.timed.now) raised
      with hsame | ⟨hsleeping, hunhealthy, cancelled, hrunning⟩
    · have hkeep : s.timed.manager.keepAlive = some (.running cancelled) := hsame.symm.trans hkeep'
      refine ⟨hlive, hkeep, ?_⟩
      simp only [h.cuts hlive hkeep, Bool.false_eq_true, ↓reduceIte]
    · have hcuts := h.cuts hlive hrunning
      simp [TimedManager.cuts, hsleeping, hunhealthy] at hcuts

/-- The keep-alive task comes to another place. -/
theorem Inv.comes (h : s.Inv late answer) {stage : KeepAliveStage} {unanswered' : Option Rat}
    (hasked : s.timed.manager.live = true → s.timed.manager.keepAlive = some (.running false) →
      (s.comes stage unanswered').Asked late answer) :
    (s.comes stage unanswered').Inv late answer := by
  have hlate : (0 : Rat) ≤ late := late.2
  have hinterval := s.emitter.positive
  refine ⟨h.timed, h.called, h.fits, le_refl _, fun hlive cancelled hkeep => ?_⟩
  have hkeep : s.timed.manager.keepAlive = some (.running cancelled) := hkeep
  obtain ⟨rfl, hcut, -⟩ := h.running hlive cancelled hkeep
  have hdue : s.timed.now ≤ (s.comes stage unanswered').due := by
    unfold due
    split
    · exact le_add_of_nonneg_right hinterval.le
    · exact le_refl _
  exact ⟨rfl, hcut, hdue.trans (le_add_of_nonneg_right hlate), hasked hlive hkeep⟩

/-- The keep-alive task goes to sleep. -/
theorem Inv.falls_asleep (h : s.Inv late answer)
    (hkeep : s.timed.manager.keepAlive = some (.running false)) (hstage : s.stage ≠ .sleeping) :
    (s.comes .sleeping s.unanswered).Inv late answer := by
  refine h.comes fun hlive _ => ?_
  obtain ⟨-, -, hdue, hasked⟩ := h.running hlive false hkeep
  rw [due, if_neg hstage] at hdue
  unfold Asked at hasked ⊢
  simp only [Heartbeat.comes]
  cases hunanswered : s.unanswered with
  | some sent =>
    rw [hunanswered] at hasked
    exact hasked
  | none =>
    rw [hunanswered] at hasked
    have hsince := hasked.2 hstage
    exact ⟨by linarith, fun hne => absurd rfl hne⟩

/-- The keep-alive task is over. -/
theorem Inv.keepAliveOver (h : s.Inv late answer) {raised : Option Raised}
    (hends : s.timed.manager.keepAlive = some (.running false) →
      raised.isSome = true ∨ s.timed.manager.isConnected = false) :
    (s.timedStep (.event (.keepAliveResumes raised))).Inv late answer := by
  have hinv := TimedManager.inv_step s.timed (.event (.keepAliveResumes raised)) h.timed trivial
  have hs : s.timed.step (.event (.keepAliveResumes raised)) =
      s.timed.moves (s.timed.manager.keepAliveResumes raised) := rfl
  rw [hs] at hinv
  simp only [timedStep, hs]
  refine h.stays hinv ?_ rfl rfl (.inl ⟨rfl, rfl⟩) fun _ cancelled hkeep =>
    absurd hkeep (Manager.keepAliveResumes_ends hends cancelled)
  exact (Manager.Steps.task _ (s.timed.manager.keepAliveResumes_taskStep raised)).called h.called

theorem inv_keepAlive (h : s.Inv late answer) (raised : Option Raised) :
    (s.keepAliveResumes raised).Inv late answer := by
  have hlate : (0 : Rat) ≤ late := late.2
  have hanswer : (0 : Rat) ≤ answer := answer.2
  unfold keepAliveResumes
  split
  · rename_i hkeep
    split
    · rename_i hstage
      exact h.falls_asleep hkeep (by simp [hstage])
    · rename_i hstage
      split
      · split
        · refine h.comes fun hlive _ => ?_
          obtain ⟨-, -, hdue, hasked⟩ := h.running hlive false hkeep
          simp only [due, hstage, ↓reduceIte] at hdue
          unfold Asked at hasked ⊢
          cases hunanswered : s.unanswered with
          | some sent =>
            simp only [hunanswered] at hasked
            exact hasked
          | none =>
            simp only [hunanswered] at hasked
            simp only [Heartbeat.comes, Option.none_or]
            exact ⟨by linarith, le_add_of_nonneg_right hanswer⟩
        · exact h.keepAliveOver fun _ => .inr (eq_false_of_ne_true ‹_›)
      · exact h
    · rename_i hstage
      split
      · exact h.falls_asleep hkeep (by simp [hstage])
      · exact h.keepAliveOver fun _ => .inl rfl
  · rename_i hkeep
    exact h.keepAliveOver fun he => absurd he hkeep

theorem inv_step (s : Heartbeat cfg) (op : TimedOp) (h : s.Inv late answer)
    (hp : s.OnTime late answer op) : (s.step op).Inv late answer := by
  cases op with
  | pass seconds => exact inv_pass h hp
  | event event =>
    by_cases hconnects : event = .handshakeReturns ∧ s.timed.manager.listener = .handshake
    · obtain ⟨rfl, hlistener⟩ := hconnects
      exact inv_connects h hlistener
    · by_cases hhealth : ∃ healthy raised, event = .healthResumes healthy raised
      · obtain ⟨healthy, raised, rfl⟩ := hhealth
        exact inv_health h healthy raised
      · by_cases hkeep : ∃ raised, event = .keepAliveResumes raised
        · obtain ⟨raised, rfl⟩ := hkeep
          exact inv_keepAlive h raised
        · exact inv_event h (fun healthy raised he => hhealth ⟨healthy, raised, he⟩)
            (fun raised he => hkeep ⟨raised, he⟩) fun he hlistener => hconnects ⟨he, hlistener⟩

/-- **A session whose pings are answered is not cut.** -/
theorem session_kept (timeoutSeconds : Rat) (positive : 0 < timeoutSeconds)
    (emitter : KeepAliveEmitter) (late answer : NNRat)
    (hfits : emitter.intervalSeconds + 2 * late + answer ≤ timeoutSeconds) (ops : List TimedOp)
    (h : Run.Each step (OnTime late answer) (new timeoutSeconds positive emitter : Heartbeat cfg)
      ops) :
    Run.Always step (Kept late answer) (new timeoutSeconds positive emitter : Heartbeat cfg) ops :=
  (Run.always_of_each inv_step (inv_new positive hfits) h).mono fun _ => Inv.kept

/-- A session in which a ping is answered, and the next one is sent. -/
def answeredSession : List TimedOp :=
  [.event .anext, .event .handshakeReturns, .event (.keepAliveResumes none),
    .event (.healthResumes true none), .pass (4 : Nat), .event (.keepAliveResumes none),
    .event (.keepAliveResumes none), .pass 1, .event (.healthResumes true none), .pass 1,
    .event (.messageArrives []), .event .nextMessage, .event .anext, .pass (2 : Nat),
    .event (.keepAliveResumes none), .event (.keepAliveResumes none), .pass (2 : Nat),
    .event (.healthResumes true none)]

theorem session_kept_answered :
    Run.Always step (Kept 1 2) (new 8 (by decide) ⟨4, by decide⟩ : Heartbeat ⟨⟨none, 30⟩, false⟩)
        answeredSession ∧
      (Run.exec step (new 8 (by decide) ⟨4, by decide⟩ : Heartbeat ⟨⟨none, 30⟩, false⟩)
        answeredSession).timed.silence = 4 :=
  ⟨session_kept 8 (by decide) ⟨4, by decide⟩ 1 2 (by decide +kernel) answeredSession
    (by decide +kernel), by decide +kernel⟩

end Heartbeat

end Leviathan
