import Leviathan.Lib.Run
import Leviathan.Network.SessionSteps

/-!
# Nothing flows after `stop`

`stop()` sets the event, cancels the tasks of the session and closes the socket that the manager
holds. The listener looks at the event only between two sessions.

* `stop_silences_iff`: **once `stop()` has returned, nothing can flow any more, exactly in the runs
  in which it does not return during the opening handshake, or while the socket of the session still
  queues messages for the listener.**
* `stop_in_handshake`: a `stop()` during the handshake does not end the connection.
-/

namespace Leviathan.Manager

variable {cfg : WsConfig} {s s' : Manager cfg}

/-- Whatever happens from here on, no message is yielded, no connection is opened and no socket is
left open. -/
def Silent (s : Manager cfg) : Prop :=
  ∀ events, (Run.exec step s events).yielded = s.yielded ∧
    (Run.exec step s events).connections = s.connections ∧ (Run.exec step s events).Closed

/-- `stop()` has silenced the manager, if it has returned. -/
def StopSilences (s : Manager cfg) : Prop := s.stopper = .returned → s.Silent

/-- The listener is not in the handshake, and has no message to give out. -/
structure Quiet (s : Manager cfg) : Prop where
  handshake : s.listener ≠ .handshake
  messages : ∀ session, s.session = some session → s.listening = true → session.ws.messages = []

/-- An event that lets `stop()` return finds the listener quiet. -/
def StopsQuietly (s : Manager cfg) (event : WsEvent) : Prop :=
  s.stopper ≠ .returned → (s.step event).stopper = .returned → s.Quiet

/-- The manager after a `stop()` that found it quiet. -/
structure Dead (s : Manager cfg) : Prop extends Quiet s where
  stopEvent : s.stopEvent = true
  closed : s.Closed

/-- What `stop()` relies on. -/
structure StopInv (s : Manager cfg) : Prop where
  held : s.Held
  stopEvent : s.stopper ≠ .notCalled → s.stopEvent = true
  dead : s.stopper = .returned → s.Dead

/-! ## A stopped manager -/

theorem Closed.kept (h : s.Closed) (hk : s.SocketKept s') : s'.Closed := by
  intro session' hs'
  obtain ⟨session, hs, -, hopen⟩ := hk session' hs'
  cases ho : session'.ws.isOpen with
  | false => rfl
  | true => simp [h session hs] at hopen; simp [ho] at hopen

/-- Nothing is queued in a closed socket. -/
theorem Closed.messages (h : s.Closed) (hk : s.SocketKept s') {session' : Session}
    (hs' : s'.session = some session') :
    ∃ session, s.session = some session ∧ session'.ws.messages = session.ws.messages := by
  obtain ⟨session, hs, hmessages | ho, -⟩ := hk session' hs'
  · exact ⟨session, hs, hmessages⟩
  · simp [h session hs] at ho

theorem Bystander.listening (h : s.Bystander s') : s'.listening = s.listening := by
  unfold Manager.listening
  rw [h.listener]

/-- The other parties leave the listener quiet. -/
theorem Bystander.quiet (h : s.Bystander s') (hq : s.Quiet) (hc : s.Closed) : s'.Quiet := by
  refine ⟨h.listener ▸ hq.handshake, fun session' hs' hl => ?_⟩
  obtain ⟨session, hs, hmessages⟩ := hc.messages h.socket hs'
  rw [hmessages]
  exact hq.messages session hs (h.listening ▸ hl)

/-- **A stopped manager stays stopped**, and nothing flows. -/
theorem dead_step (h : s.Dead) (event : WsEvent) :
    (s.step event).Dead ∧ (s.step event).yielded = s.yielded ∧
      (s.step event).connections = s.connections := by
  have hs := s.step_steps event
  generalize s.step event = s' at hs
  cases hs with
  | task _ ht =>
    exact ⟨⟨ht.quiet h.toQuiet h.closed, ht.stopEvent ▸ h.stopEvent, h.closed.kept ht.socket⟩,
      ht.yielded, ht.connections⟩
  | listener _ hl =>
    refine ⟨⟨⟨fun hh => ?_, fun session' hs' hh => ?_⟩, hl.stopEvent h.stopEvent,
      h.closed.kept hl.socket⟩, hl.yielded, hl.connections⟩
    · rcases hl.handshake hh with hh | hh
      · exact h.handshake hh
      · simp [h.stopEvent] at hh
    · obtain ⟨session, hs, hmessages⟩ := h.closed.messages hl.socket hs'
      rw [hmessages]
      exact h.messages session hs (hl.listening hh)
  | connects hh => exact absurd hh h.handshake
  | message session message messages hh hs hm =>
    have := h.messages session hs (by simp [listening, hh])
    simp [hm] at this
  | stopCalled _ _ hs =>
    have hb := hs.toBystander
    have hclosed : s.requestStop.Closed := h.closed
    exact ⟨⟨hb.quiet ⟨h.handshake, h.messages⟩ hclosed, hs.stopEvent, hclosed.kept hb.socket⟩,
      hb.yielded, hb.connections⟩
  | stopResumes _ _ hs =>
    have hb := hs.toBystander
    exact ⟨⟨hb.quiet h.toQuiet h.closed, hs.stopEvent ▸ h.stopEvent, h.closed.kept hb.socket⟩,
      hb.yielded, hb.connections⟩

theorem Dead.silent (h : s.Dead) : s.Silent := by
  intro events
  induction events generalizing s with
  | nil => exact ⟨rfl, rfl, h.closed⟩
  | cons event events ih =>
    obtain ⟨hd, hy, hc⟩ := dead_step h event
    obtain ⟨hy', hc', hclosed⟩ := ih hd
    exact ⟨hy'.trans hy, hc'.trans hc, hclosed⟩

/-! ## What a manager that is not quiet may do -/

theorem yielded_nextMessage {session : Session} (hs : s.session = some session)
    (hm : session.ws.messages ≠ []) (hl : s.listener = .receiving) :
    (s.step .nextMessage).yielded ≠ s.yielded := by
  cases hmessages : session.ws.messages with
  | nil => exact absurd hmessages hm
  | cons message messages =>
    simp only [step, hl, ↓reduceIte, nextMessage, hs, hmessages]
    simp

/-- **A silent manager is quiet.** -/
theorem Silent.quiet (h : s.Silent) : s.Quiet := by
  refine ⟨fun hh => ?_, fun session hs hl => ?_⟩
  · have hc : (s.step .handshakeReturns).connections = s.connections :=
      (h [.handshakeReturns]).2.1
    simp only [step, hh, ↓reduceIte, connected] at hc
    omega
  · by_contra hm
    unfold listening at hl
    split at hl
    · -- the callback returns, then the message is given out
      have hy : ((s.step .callbackReturns).step .nextMessage).yielded = s.yielded :=
        (h [.callbackReturns, .nextMessage]).1
      have hstep : s.step .callbackReturns = { s with listener := .receiving } := by
        simp only [step, ‹s.listener = _›, ↓reduceIte]
      rw [hstep] at hy
      exact yielded_nextMessage (s := { s with listener := .receiving }) hs hm rfl hy
    · exact yielded_nextMessage hs hm ‹_› (h [.nextMessage]).1
    · have hy : ((s.step .anext).step .nextMessage).yielded = s.yielded :=
        (h [.anext, .nextMessage]).1
      have hstep : s.step .anext = { s with listener := .receiving } := by
        simp only [step, ‹s.listener = _›]
      rw [hstep] at hy
      exact yielded_nextMessage (s := { s with listener := .receiving }) hs hm rfl hy
    · cases hl

/-! ## Runs -/

theorem stopInv_new : (new : Manager cfg).StopInv where
  held _ hs := by cases hs
  stopEvent h := absurd rfl h
  dead h := by cases h

/-- The call of `stop` does not change whether the listener is quiet. -/
theorem StopStep.quiet_iff (h : s.StopStep s') : s'.Quiet ↔ s.Quiet := by
  have hmap : ∀ messages, (∃ session, s'.session = some session ∧ session.ws.messages = messages) ↔
      ∃ session, s.session = some session ∧ session.ws.messages = messages := fun messages => by
    have := h.messages
    rw [← Option.map_eq_some_iff, ← Option.map_eq_some_iff, this]
  have hlistening := h.toBystander.listening
  refine ⟨fun hq => ⟨h.listener ▸ hq.handshake, fun session hs hl => ?_⟩,
    fun hq => ⟨h.listener ▸ hq.handshake, fun session hs hl => ?_⟩⟩
  · obtain ⟨session', hs', hm⟩ := (hmap _).mpr ⟨session, hs, rfl⟩
    rw [← hm]
    exact hq.messages session' hs' (hlistening ▸ hl)
  · obtain ⟨session', hs', hm⟩ := (hmap _).mp ⟨session, hs, rfl⟩
    rw [← hm]
    exact hq.messages session' hs' (hlistening ▸ hl)

/-- It has closed the socket when it returns. -/
theorem StopStep.dead (h : s.StopStep s') (hheld : s.Held) (hstop : s.stopEvent = true)
    (hquiet : s.Quiet) (hr : s'.stopper = .returned) : s'.Dead :=
  ⟨h.quiet_iff.mpr hquiet, h.stopEvent ▸ hstop, h.returned hheld hr⟩

/-- **`stop()` returns**: the manager is dead if it was quiet. -/
theorem stop_returns (h : s.StopInv) (event : WsEvent) (hne : s.stopper ≠ .returned)
    (hr : (s.step event).stopper = .returned) :
    ((s.step event).Quiet ↔ s.Quiet) ∧ (s.Quiet → (s.step event).Dead) := by
  have hs := s.step_steps event
  generalize s.step event = s' at hs hr
  cases hs with
  | task _ ht => exact absurd (ht.stopper ▸ hr) hne
  | listener _ hl => exact absurd (hl.stopper ▸ hr) hne
  | connects hh => exact absurd hr hne
  | message session message messages hh hs hm =>
    simp only [nextMessage, hs, hm] at hr
    exact absurd hr hne
  | stopCalled _ _ hs =>
    have hq : s.requestStop.Quiet ↔ s.Quiet :=
      ⟨fun hq => ⟨hq.handshake, hq.messages⟩, fun hq => ⟨hq.handshake, hq.messages⟩⟩
    exact ⟨hs.quiet_iff.trans hq, fun hquiet => hs.dead h.held rfl (hq.mpr hquiet) hr⟩
  | stopResumes _ hcalled hs =>
    exact ⟨hs.quiet_iff, fun hquiet => hs.dead h.held (h.stopEvent hcalled) hquiet hr⟩

/-- The socket stays held, and the event set. -/
theorem step_held (h : s.StopInv) (event : WsEvent) :
    (s.step event).Held ∧
      ((s.step event).stopper ≠ .notCalled → (s.step event).stopEvent = true) := by
  have hs := s.step_steps event
  generalize s.step event = s' at hs
  cases hs with
  | task _ ht =>
    exact ⟨h.held.kept ht.socket, fun hc => ht.stopEvent ▸ h.stopEvent (ht.stopper ▸ hc)⟩
  | listener _ hl =>
    exact ⟨h.held.kept hl.socket, fun hc => hl.stopEvent (h.stopEvent (hl.stopper ▸ hc))⟩
  | connects hh => exact ⟨fun _ _ _ => rfl, h.stopEvent⟩
  | message session message messages hh hs hm =>
    simp only [nextMessage, hs, hm]
    refine ⟨fun session' hs' ho => ?_, h.stopEvent⟩
    cases hs'
    exact h.held session hs ho
  | stopCalled _ _ hs =>
    have hheld : s.requestStop.Held := h.held
    exact ⟨hheld.kept hs.socket, fun _ => hs.stopEvent⟩
  | stopResumes _ hcalled hs =>
    exact ⟨h.held.kept hs.socket, fun _ => hs.stopEvent ▸ h.stopEvent hcalled⟩

theorem step_stopInv (h : s.StopInv) (event : WsEvent) (hp : s.StopsQuietly event) :
    (s.step event).StopInv := by
  obtain ⟨hheld, hstop⟩ := step_held h event
  refine ⟨hheld, hstop, fun hr => ?_⟩
  by_cases hne : s.stopper = .returned
  · exact (dead_step (h.dead hne) event).1
  · exact (stop_returns h event hne hr).2 (hp hne hr)

theorem step_stopSilences (h : s.StopInv) (event : WsEvent) :
    (s.step event).StopSilences ↔ s.StopsQuietly event := by
  refine ⟨fun hq hne hr => ?_, fun hp hr => ((step_stopInv h event hp).dead hr).silent⟩
  exact (stop_returns h event hne hr).1.mp (hq hr).quiet

/-- **Nothing flows after `stop`** exactly in the runs in which it finds the listener quiet. -/
theorem stop_silences_iff (cfg : WsConfig) (events : List WsEvent) :
    Run.Always step StopSilences (new : Manager cfg) events ↔
      Run.Each step StopsQuietly (new : Manager cfg) events :=
  @Run.always_iff_each _ _ _ StopInv _ _ (fun _ event hi _ hp => step_stopInv hi event hp)
    (fun _ event hi _ => step_stopSilences hi event) _ stopInv_new (fun h => by cases h) events

/-- A manager without a retry limit. -/
def defaultWsConfig : WsConfig := ⟨⟨none, 30⟩, true⟩

/-- `stop()` is called while the connection is being opened. -/
def stopInHandshake : List WsEvent := [.anext, .stop]

/-- **The connection is opened all the same.** -/
theorem stop_in_handshake :
    ¬Run.Always step StopSilences (new : Manager defaultWsConfig) stopInHandshake := by
  intro h
  have hconnections : (Run.exec step (Run.exec step (new : Manager defaultWsConfig) stopInHandshake)
      [.handshakeReturns]).connections = 1 := by decide
  have hsilent := h.last rfl
  exact absurd ((hsilent [.handshakeReturns]).2.1.symm.trans hconnections) (by decide)

end Leviathan.Manager
