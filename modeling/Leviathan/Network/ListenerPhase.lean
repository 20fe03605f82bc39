import Leviathan.Network.SessionSteps

/-!
# Where an event takes the listener

* `phase`: the listener is outside of a session, in its callback, or in its loop over the messages.
* `step_phase`: the events that change the phase.
* `step_isConnected`: only a handshake connects.
* `step_flapTipMonitor`: the calls of the flap monitor.
-/

namespace Leviathan

/-- A part of a pass through the loop: outside a session, in the `on_connect` callback, or in the
loop over the messages. -/
inductive Phase where
  /-- no session, or the cleanup of one -/
  | outside
  | callback
  | messages
  deriving DecidableEq

/-- The part that a place of the listener is in. The cleanup of a session is outside it. -/
def Listener.phase : Listener → Phase
  | .onConnectCallback => .callback
  | .receiving | .yielding => .messages
  | .created | .handshake | .abandoning _ | .closing _ | .cancellingHealth _
  | .cancellingKeepAlive _ | .backoff _ | .finished _ => .outside

namespace Manager

variable {cfg : WsConfig} {s s' : Manager cfg}

def phase (s : Manager cfg) : Phase := s.listener.phase

theorem phase_outside (h : s.listener = .handshake) : s.phase = .outside := by
  rw [phase, h]
  rfl

theorem phase_messages (h : s.listener = .receiving) : s.phase = .messages := by
  rw [phase, h]
  rfl

theorem phase_callback_iff : s.phase = .callback ↔ s.listener = .onConnectCallback := by
  unfold phase
  cases s.listener <;> simp [Listener.phase]

theorem loopHead_phase (s : Manager cfg) : s.loopHead.phase = .outside := by
  unfold loopHead
  split
  · rfl
  · split
    · rfl
    · rfl

theorem endSession_phase (s : Manager cfg) (pending : Option Raised) :
    (s.endSession pending).phase = .outside := by
  unfold endSession
  simp only
  split
  · rfl
  · split
    · exact loopHead_phase _
    · rfl

theorem CleansUp.phase {pending : Option Raised} (h : s.CleansUp pending s') :
    s'.phase = .outside := by
  cases h with
  | waits session session' listener hs hws hlistener =>
    rcases hlistener with rfl | rfl
    · rfl
    · rfl
  | ends => exact endSession_phase s pending
  | raises raised => rfl

theorem leaveTry_phase (s : Manager cfg) (raised : Option Raised) :
    (s.leaveTry raised).phase = .outside := (s.cancelHealth_cleansUp _).phase

theorem iterationEnds_phase (s : Manager cfg) (raised : Option Raised) :
    (s.iterationEnds raised).phase = .outside := by
  unfold iterationEnds
  split
  · rfl
  · rfl
  · rfl

theorem Bystander.phase (h : s.Bystander s') : s'.phase = s.phase := by
  unfold Manager.phase
  rw [h.listener]

theorem nextMessage_phase (h : s.listener = .receiving) : s.nextMessage.phase = s.phase := by
  unfold nextMessage
  split
  · rfl
  · split
    · rfl
    · exact (phase_messages h).symm

theorem connected_phase (s : Manager cfg) :
    s.connected.phase = if cfg.onConnectCallback then .callback else .messages := by
  unfold connected phase
  simp only
  split
  · rfl
  · rfl

/-- **Only four events change the phase**: a handshake that returns, the end of the callback and the
end of the loop over the messages. -/
theorem step_phase (s : Manager cfg) (event : WsEvent) :
    (s.step event).phase =
      match event with
      | .handshakeReturns =>
        if s.listener = .handshake then
          if cfg.onConnectCallback then .callback else .messages
        else s.phase
      | .callbackReturns => if s.listener = .onConnectCallback then .messages else s.phase
      | .callbackRaises _ => if s.listener = .onConnectCallback then .outside else s.phase
      | .iterationEnds _ => if s.listener = .receiving then .outside else s.phase
      | _ => s.phase := by
  cases event with
  | anext =>
    simp only [step]
    split
    · rename_i hlistener
      rw [loopHead_phase, phase, hlistener]
      rfl
    · rename_i hlistener
      rw [phase, phase, hlistener]
      rfl
    · rfl
  | handshakeReturns =>
    simp only [step]
    split
    · exact connected_phase s
    · rfl
  | handshakeRaises raised =>
    simp only [step]
    split
    · rename_i hlistener
      rw [phase_outside hlistener]
      split
      · rfl
      · exact leaveTry_phase s _
    · rfl
  | abandonEnds raised =>
    simp only [step]
    split
    · rename_i handshakeError hlistener
      rw [leaveTry_phase, phase, hlistener]
      rfl
    · rfl
  | callbackReturns =>
    simp only [step]
    split
    · rfl
    · rfl
  | callbackRaises raised =>
    simp only [step]
    split
    · rfl
    · rfl
  | messageArrives message => exact (s.step_taskStep message false none).1.phase
  | socketCloses => exact (s.step_taskStep [] false none).2.1.phase
  | nextMessage =>
    simp only [step]
    split
    · exact nextMessage_phase ‹_›
    · rfl
  | iterationEnds raised =>
    simp only [step]
    split
    · exact iterationEnds_phase s raised
    · rfl
  | contextExits raised =>
    simp only [step]
    split
    · rename_i pending hlistener
      rw [leaveTry_phase, phase, hlistener]
      rfl
    · rfl
  | listenerResumes =>
    simp only [step]
    split
    · rename_i pending session hlistener hs
      split
      · rw [(s.cancelHealth_cleansUp pending).phase, phase, hlistener]
        rfl
      · rfl
    · rename_i pending session hlistener hs
      split
      · rw [(s.cancelKeepAlive_cleansUp pending).phase, phase, hlistener]
        rfl
      · rfl
    · rfl
  | backoffEnds =>
    simp only [step]
    split
    · rename_i delay hlistener
      rw [loopHead_phase, phase, hlistener]
      rfl
    · rfl
  | healthResumes healthy raised => exact (s.step_taskStep [] healthy raised).2.2.1.phase
  | keepAliveResumes raised => exact (s.step_taskStep [] false raised).2.2.2.phase
  | stop =>
    simp only [step]
    split
    · exact (requestStop_bystander s |>.trans (stopCancelHealth_stopStep _).toBystander).phase
    · rfl
  | stopResumes raised =>
    rcases s.stopResumes_cases raised with he | hs
    · simp only [step, he]
    · exact hs.phase

/-- Only a connection and the end of its callback take the listener to the messages. -/
theorem phase_messages_of_step {event : WsEvent} (hconnect : event ≠ .handshakeReturns)
    (hcallback : event ≠ .callbackReturns) (hphase : (s.step event).phase = .messages) :
    s.phase = .messages := by
  rw [step_phase] at hphase
  cases event with
  | handshakeReturns => exact absurd rfl hconnect
  | callbackReturns => exact absurd rfl hcallback
  | callbackRaises raised =>
    simp only at hphase
    split at hphase
    · cases hphase
    · exact hphase
  | iterationEnds raised =>
    simp only at hphase
    split at hphase
    · cases hphase
    · exact hphase
  | _ => exact hphase

/-! ## Connections -/

theorem SocketKept.isConnected (h : s.SocketKept s') (hconnected : s'.isConnected = true) :
    s.isConnected = true := by
  simp only [Manager.isConnected, Bool.and_eq_true, Option.any_eq_true] at hconnected ⊢
  obtain ⟨hws, session', hs', hopen⟩ := hconnected
  obtain ⟨session, hs, -, hkept⟩ := h session' hs'
  obtain ⟨hopen, hsame⟩ := hkept hopen
  exact ⟨hsame ▸ hws, session, hs, hopen⟩

theorem nextMessage_isConnected (s : Manager cfg) : s.nextMessage.isConnected = s.isConnected := by
  unfold nextMessage
  cases hs : s.session with
  | none => rfl
  | some session =>
    simp only
    split
    · rfl
    · simp only [isConnected, hs, Option.any_some]

/-- **Only a handshake that returns connects**, as nothing else opens a socket or sets `__ws`. -/
theorem step_isConnected {event : WsEvent} (hevent : event ≠ .handshakeReturns)
    (hconnected : (s.step event).isConnected = true) : s.isConnected = true := by
  have hphase := s.step_phase event
  generalize hafter : s.step event = after at hconnected hphase
  have hsteps := hafter ▸ s.step_steps event
  cases hsteps with
  | task _ h => exact h.socket.isConnected hconnected
  | listener _ h => exact h.socket.isConnected hconnected
  | connects hlistener =>
    -- no other event takes the listener out of its handshake into a session
    have houtside := phase_outside hlistener
    rw [connected_phase] at hphase
    exfalso
    cases event with
    | handshakeReturns => exact hevent rfl
    | callbackReturns | callbackRaises | iterationEnds =>
      simp only [hlistener, reduceCtorEq, ↓reduceIte, houtside] at hphase
      split at hphase <;> cases hphase
    | _ =>
      simp only [houtside] at hphase
      split at hphase <;> cases hphase
  | message session message messages _ _ _ =>
    rw [nextMessage_isConnected] at hconnected
    exact hconnected
  | stopCalled _ _ h =>
    exact ((requestStop_bystander s).trans h.toBystander).socket.isConnected hconnected
  | stopResumes _ _ h => exact h.socket.isConnected hconnected

/-! ## Calls of the flap monitor -/

theorem loopHead_flapTipMonitor (s : Manager cfg) :
    s.loopHead.flapTipMonitor = s.flapTipMonitor := by
  unfold loopHead
  split
  · rfl
  · split
    · rfl
    · rfl

theorem CleansUp.flapTipMonitor {pending : Option Raised} (h : s.CleansUp pending s') :
    s'.flapTipMonitor = s.flapTipMonitor := by
  cases h with
  | waits session session' listener hs hws hlistener => rfl
  | ends =>
    unfold endSession
    simp only
    split
    · rfl
    · split
      · exact loopHead_flapTipMonitor _
      · rfl
  | raises raised => rfl

theorem leaveTry_flapTipMonitor (s : Manager cfg) (raised : Option Raised) :
    (s.leaveTry raised).flapTipMonitor = s.flapTipMonitor :=
  (s.cancelHealth_cleansUp _).flapTipMonitor

theorem nextMessage_flapTipMonitor (s : Manager cfg) :
    s.nextMessage.flapTipMonitor = s.flapTipMonitor := by
  unfold nextMessage
  split
  · rfl
  · split
    · rfl
    · rfl

theorem stopDisconnect_flapTipMonitor (s : Manager cfg) :
    s.stopDisconnect.flapTipMonitor = s.flapTipMonitor := by
  unfold stopDisconnect
  simp only
  split
  · rfl
  · rfl

theorem stopCancelKeepAlive_flapTipMonitor (s : Manager cfg) :
    s.stopCancelKeepAlive.flapTipMonitor = s.flapTipMonitor := by
  unfold stopCancelKeepAlive
  split
  · split
    · split
      · rfl
      · split
        · exact stopDisconnect_flapTipMonitor s
        · rfl
    · exact stopDisconnect_flapTipMonitor s
  · exact stopDisconnect_flapTipMonitor s

theorem stopCancelHealth_flapTipMonitor (s : Manager cfg) :
    s.stopCancelHealth.flapTipMonitor = s.flapTipMonitor := by
  unfold stopCancelHealth
  split
  · split
    · split
      · split
        · rfl
        · exact stopCancelKeepAlive_flapTipMonitor s
      · rfl
    · exact stopCancelKeepAlive_flapTipMonitor s
  · exact stopCancelKeepAlive_flapTipMonitor s

theorem stopResumes_flapTipMonitor (s : Manager cfg) (raised : Option Raised) :
    (s.stopResumes raised).flapTipMonitor = s.flapTipMonitor := by
  unfold stopResumes
  split
  · split
    · exact stopCancelKeepAlive_flapTipMonitor s
    · split
      · split
        · rfl
        · exact stopCancelKeepAlive_flapTipMonitor s
      · rfl
  · split
    · exact stopDisconnect_flapTipMonitor s
    · split
      · rfl
      · split
        · exact stopDisconnect_flapTipMonitor s
        · rfl
  · split
    · rfl
    · rfl
  · rfl

/-- The calls that an event makes: one for a connection, one for a `ConnectionClosed`, and `cancel`
for a stop. -/
def flapCalls (s : Manager cfg) : WsEvent → List FlapCall
  | .handshakeReturns => if s.listener = .handshake then [.noteConnectionRestored] else []
  | .iterationEnds raised =>
    if s.listener = .receiving ∧ raised = some .connectionClosed then [.noteConnectionClosed] else []
  | .stop => if s.stopper = .notCalled then [.cancel] else []
  | _ => []

/-- **The flap monitor is called by these events only**, each time behind the calls before. -/
theorem step_flapTipMonitor (s : Manager cfg) (event : WsEvent) :
    (s.step event).flapTipMonitor = s.flapTipMonitor ++ s.flapCalls event := by
  cases event with
  | handshakeReturns =>
    simp only [step, flapCalls]
    split
    · rfl
    · exact (List.append_nil _).symm
  | iterationEnds raised =>
    simp only [step, flapCalls]
    by_cases hlistener : s.listener = .receiving
    · simp only [hlistener, ↓reduceIte, true_and]
      unfold iterationEnds
      split
      · exact (List.append_nil _).symm
      · rfl
      · rename_i hraised
        rw [if_neg]
        · exact (List.append_nil _).symm
        · intro heq
          exact hraised (Option.some.inj heq)
    · simp only [hlistener, ↓reduceIte, false_and]
      exact (List.append_nil _).symm
  | stop =>
    simp only [step, flapCalls]
    split
    · exact stopCancelHealth_flapTipMonitor _
    · exact (List.append_nil _).symm
  | anext =>
    simp only [flapCalls, List.append_nil]
    simp only [step]
    split
    · exact loopHead_flapTipMonitor s
    · rfl
    · rfl
  | handshakeRaises raised =>
    simp only [flapCalls, List.append_nil]
    simp only [step]
    split
    · split
      · rfl
      · exact leaveTry_flapTipMonitor s _
    · rfl
  | abandonEnds raised =>
    simp only [flapCalls, List.append_nil]
    simp only [step]
    split
    · exact leaveTry_flapTipMonitor s _
    · rfl
  | callbackReturns =>
    simp only [flapCalls, List.append_nil]
    simp only [step]
    split <;> rfl
  | callbackRaises raised =>
    simp only [flapCalls, List.append_nil]
    simp only [step]
    split <;> rfl
  | messageArrives message =>
    simp only [flapCalls, List.append_nil]
    exact (s.step_taskStep message false none).1.flapTipMonitor
  | socketCloses =>
    simp only [flapCalls, List.append_nil]
    exact (s.step_taskStep [] false none).2.1.flapTipMonitor
  | nextMessage =>
    simp only [flapCalls, List.append_nil]
    simp only [step]
    split
    · exact nextMessage_flapTipMonitor s
    · rfl
  | contextExits raised =>
    simp only [flapCalls, List.append_nil]
    simp only [step]
    split
    · exact leaveTry_flapTipMonitor _ _
    · rfl
  | listenerResumes =>
    simp only [flapCalls, List.append_nil]
    simp only [step]
    split
    · split
      · exact (s.cancelHealth_cleansUp _).flapTipMonitor
      · rfl
    · split
      · exact (s.cancelKeepAlive_cleansUp _).flapTipMonitor
      · rfl
    · rfl
  | backoffEnds =>
    simp only [flapCalls, List.append_nil]
    simp only [step]
    split
    · exact loopHead_flapTipMonitor _
    · rfl
  | healthResumes healthy raised =>
    simp only [flapCalls, List.append_nil]
    exact (s.step_taskStep [] healthy raised).2.2.1.flapTipMonitor
  | keepAliveResumes raised =>
    simp only [flapCalls, List.append_nil]
    exact (s.step_taskStep [] false raised).2.2.2.flapTipMonitor
  | stopResumes raised =>
    simp only [flapCalls, List.append_nil]
    exact stopResumes_flapTipMonitor s raised

end Manager

end Leviathan
