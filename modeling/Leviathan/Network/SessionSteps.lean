import Leviathan.Network.ReconnectingWs

/-!
# What the steps of the coroutines change

One lemma for each function of the manager. A background task, the network and `stop()` leave the
listener where it is (`Bystander`). The cleanup of the listener waits for a task, ends the session,
or raises what a task has raised (`cancelHealth_cases`).

A socket that is open is the one that `__ws` holds (`Held`), so that `stop()` closes it before it
returns.
-/

namespace Leviathan.Manager

variable {cfg : WsConfig} {s s' s'' : Manager cfg}

/-- Messages are queued in an open socket only, and an open socket was open, and held as it is. -/
def SocketKept (s s' : Manager cfg) : Prop :=
  ∀ session', s'.session = some session' → ∃ session, s.session = some session ∧
    (session'.ws.messages = session.ws.messages ∨ session.ws.isOpen = true) ∧
    (session'.ws.isOpen = true → session.ws.isOpen = true ∧ s'.ws = s.ws)

theorem SocketKept.refl (s : Manager cfg) : s.SocketKept s :=
  fun session' h => ⟨session', h, .inl rfl, fun ho => ⟨ho, rfl⟩⟩

theorem SocketKept.trans (h : s.SocketKept s') (h' : s'.SocketKept s'') : s.SocketKept s'' := by
  intro session'' hs''
  obtain ⟨session', hs', hmessages', hopen'⟩ := h' session'' hs''
  obtain ⟨session, hs, hmessages, hopen⟩ := h session' hs'
  refine ⟨session, hs, ?_, fun ho => ?_⟩
  · rcases hmessages' with hmessages' | ho
    · rcases hmessages with hmessages | ho
      · exact .inl (hmessages'.trans hmessages)
      · exact .inr ho
    · exact .inr (hopen ho).1
  · have ho' := hopen' ho
    exact ⟨(hopen ho'.1).1, ho'.2.trans (hopen ho'.1).2⟩

/-- A session is over, so there is no socket that could be open. -/
theorem SocketKept.of_none (h : s'.session = none) : s.SocketKept s' :=
  fun _ hs' => by simp [h] at hs'

/-- Only the tasks of the session change, not its socket. -/
theorem SocketKept.of_tasks {session session' : Session} (hs : s.session = some session)
    (hs' : s'.session = some session') (hsocket : session'.ws = session.ws) (hws : s'.ws = s.ws) :
    s.SocketKept s' := by
  intro x hx
  obtain rfl : session' = x := Option.some.inj (hs'.symm.trans hx)
  exact ⟨session, hs, .inl (by rw [hsocket]), fun ho => ⟨hsocket ▸ ho, hws⟩⟩

/-! ## Bystanders -/

/-- A step that the listener does not take: it stays where it is, and the session is not exchanged
under it. -/
structure Bystander (s s' : Manager cfg) : Prop where
  listener : s'.listener = s.listener
  attempt : s'.attempt = s.attempt
  yielded : s'.yielded = s.yielded
  connections : s'.connections = s.connections
  isSome : s'.session.isSome = s.session.isSome
  ws : s'.ws = true → s.ws = true
  healthTask : s'.healthTask = true → s.healthTask = true
  keepAliveTask : s'.keepAliveTask = true → s.keepAliveTask = true
  socket : s.SocketKept s'

theorem Bystander.refl (s : Manager cfg) : s.Bystander s :=
  ⟨rfl, rfl, rfl, rfl, rfl, id, id, id, .refl s⟩

theorem Bystander.trans (h : s.Bystander s') (h' : s'.Bystander s'') : s.Bystander s'' :=
  ⟨h'.listener.trans h.listener, h'.attempt.trans h.attempt, h'.yielded.trans h.yielded,
    h'.connections.trans h.connections, h'.isSome.trans h.isSome, h.ws ∘ h'.ws,
    h.healthTask ∘ h'.healthTask, h.keepAliveTask ∘ h'.keepAliveTask, h.socket.trans h'.socket⟩

/-- A step of a background task or of the network: it sets no stop event and makes no call of the
flap monitor. -/
structure TaskStep (s s' : Manager cfg) : Prop extends Bystander s s' where
  stopEvent : s'.stopEvent = s.stopEvent
  stopper : s'.stopper = s.stopper
  flapTipMonitor : s'.flapTipMonitor = s.flapTipMonitor

theorem TaskStep.refl (s : Manager cfg) : s.TaskStep s := ⟨.refl s, rfl, rfl, rfl⟩

theorem TaskStep.trans (h : s.TaskStep s') (h' : s'.TaskStep s'') : s.TaskStep s'' :=
  ⟨h.toBystander.trans h'.toBystander, h'.stopEvent.trans h.stopEvent, h'.stopper.trans h.stopper,
    h'.flapTipMonitor.trans h.flapTipMonitor⟩

/-- A change of the session in which no socket is opened and no message comes to a closed one. -/
theorem withSession_taskStep (s : Manager cfg) {f : Session → Session}
    (hf : ∀ session, ((f session).ws.messages = session.ws.messages ∨ session.ws.isOpen = true) ∧
      ((f session).ws.isOpen = true → session.ws.isOpen = true)) : s.TaskStep (s.withSession f) := by
  refine ⟨⟨rfl, rfl, rfl, rfl, ?_, id, id, id, fun session' hs' => ?_⟩, rfl, rfl, rfl⟩
  · simp [withSession]
  · obtain ⟨session, hs, rfl⟩ := Option.map_eq_some_iff.mp hs'
    exact ⟨session, hs, (hf session).1, fun ho => ⟨(hf session).2 ho, rfl⟩⟩

theorem closeSocket_taskStep (s : Manager cfg) : s.TaskStep s.closeSocket :=
  s.withSession_taskStep fun _ => ⟨.inl rfl, fun ho => by simp at ho⟩

theorem setHealth_taskStep (s : Manager cfg) (task : HealthLoop) : s.TaskStep (s.setHealth task) :=
  s.withSession_taskStep fun _ => ⟨.inl rfl, id⟩

/-- No socket is open, whether there is a session or not. -/
def Closed (s : Manager cfg) : Prop := ∀ session, s.session = some session → session.ws.isOpen = false

theorem closeSocket_closed (s : Manager cfg) : s.closeSocket.Closed := by
  intro session hs
  obtain ⟨session, -, rfl⟩ := Option.map_eq_some_iff.mp hs
  rfl

/-- `__ws = None`, which `disconnect` does only after it has closed the socket. -/
theorem dropWs_taskStep (h : s.Closed) : s.TaskStep { s with ws := false } := by
  refine ⟨⟨rfl, rfl, rfl, rfl, rfl, fun hw => ?_, id, id, fun session hs => ?_⟩, rfl, rfl, rfl⟩
  · simp at hw
  · exact ⟨session, hs, .inl rfl, fun ho => absurd ho (by simp [h session hs])⟩

theorem healthDisconnect_taskStep (s : Manager cfg) : s.TaskStep s.healthDisconnect :=
  s.setHealth_taskStep _

theorem healthKeepAliveEnded_taskStep (s : Manager cfg) (raised : Raised) :
    s.TaskStep (s.healthKeepAliveEnded raised) := by
  unfold healthKeepAliveEnded
  split
  · exact s.healthDisconnect_taskStep
  · exact s.setHealth_taskStep _

theorem healthCancelKeepAlive_taskStep {session : Session} (hs : s.session = some session) :
    s.TaskStep (s.healthCancelKeepAlive session) := by
  unfold healthCancelKeepAlive
  split
  · split
    · exact ⟨⟨rfl, rfl, rfl, rfl, by simp [hs], id, id, id, .of_tasks hs rfl rfl rfl⟩, rfl, rfl,
        rfl⟩
    · exact s.healthKeepAliveEnded_taskStep _
  · exact s.healthDisconnect_taskStep

theorem healthResumes_taskStep (s : Manager cfg) (healthy : Bool) (raised : Option Raised) :
    s.TaskStep (s.healthResumes healthy raised) := by
  unfold healthResumes
  cases hs : s.session with
  | none => exact .refl s
  | some session =>
    dsimp only
    split
    · exact s.setHealth_taskStep _
    · exact s.setHealth_taskStep _
    · exact s.setHealth_taskStep _
    · split
      · exact s.setHealth_taskStep _
      · exact healthCancelKeepAlive_taskStep hs
    · split
      · exact .refl s
      · exact s.healthKeepAliveEnded_taskStep _
    · split
      · exact (s.closeSocket_taskStep.trans (dropWs_taskStep s.closeSocket_closed)).trans
          (setHealth_taskStep _ _)
      · exact s.setHealth_taskStep _
    · exact .refl s

theorem keepAliveResumes_taskStep (s : Manager cfg) (raised : Option Raised) :
    s.TaskStep (s.keepAliveResumes raised) := by
  apply s.withSession_taskStep
  intro session
  split
  · exact ⟨.inl rfl, id⟩
  · split
    · split
      · exact ⟨.inl rfl, id⟩
      · exact ⟨.inl rfl, id⟩
    · exact ⟨.inl rfl, id⟩
  · exact ⟨.inl rfl, id⟩

/-- **The steps of the network and of the background tasks** leave the listener, the stop event and
the flap monitor. -/
theorem step_taskStep (s : Manager cfg) (message : Py.Str) (healthy : Bool)
    (raised : Option Raised) :
    s.TaskStep (s.step (.messageArrives message)) ∧ s.TaskStep (s.step .socketCloses) ∧
      s.TaskStep (s.step (.healthResumes healthy raised)) ∧
      s.TaskStep (s.step (.keepAliveResumes raised)) := by
  refine ⟨s.withSession_taskStep fun session => ?_, s.closeSocket_taskStep,
    s.healthResumes_taskStep healthy raised, s.keepAliveResumes_taskStep raised⟩
  split
  · exact ⟨.inr ‹_›, fun _ => ‹_›⟩
  · exact ⟨.inl rfl, id⟩

/-! ## `stop` -/

/-- An open socket is the one that `disconnect` closes: `__ws` holds it. -/
def Held (s : Manager cfg) : Prop :=
  ∀ session, s.session = some session → session.ws.isOpen = true → s.ws = true

theorem Held.kept (h : s.Held) (hk : s.SocketKept s') : s'.Held := by
  intro session' hs' ho
  obtain ⟨session, hs, -, hopen⟩ := hk session' hs'
  obtain ⟨ho, hws⟩ := hopen ho
  exact hws ▸ h session hs ho

theorem Closed.of_held (h : s.Held) (hws : s.ws = false) : s.Closed := by
  intro session hs
  cases ho : session.ws.isOpen with
  | false => rfl
  | true => simp [h session hs ho] at hws

/-- A step of the call of `stop`: it leaves the stop event and the messages as they are, and once it
has returned, no socket is open. -/
structure StopStep (s s' : Manager cfg) : Prop extends Bystander s s' where
  stopEvent : s'.stopEvent = s.stopEvent
  called : s'.stopper ≠ .notCalled
  messages : (s'.session.map fun session => session.ws.messages) =
    s.session.map fun session => session.ws.messages
  returned : s.Held → s'.stopper = .returned → s'.Closed

theorem stopDisconnect_stopStep (s : Manager cfg) : s.StopStep s.stopDisconnect := by
  unfold stopDisconnect stopFinish
  dsimp only
  split
  · exact ⟨⟨rfl, rfl, rfl, rfl, rfl, id, by simp, by simp, .refl s⟩, rfl, by simp, rfl, by simp⟩
  · exact ⟨⟨rfl, rfl, rfl, rfl, rfl, id, by simp, by simp, .refl s⟩, rfl, by simp, rfl,
      fun h _ => Closed.of_held (s := s) h (eq_false_of_ne_true ‹_›)⟩

/-- `stop()` raises what a task has raised beyond the expected, and then closes nothing. -/
theorem stopRaised_stopStep (s : Manager cfg) (raised : Raised) :
    s.StopStep { s with stopper := .raised raised } :=
  ⟨⟨rfl, rfl, rfl, rfl, rfl, id, id, id, .refl s⟩, rfl, by simp, rfl, by simp⟩

/-- `stop()` waits for a task that it has cancelled, and the socket is as it was. -/
theorem stopWaits_stopStep {session session' : Session} (hs : s.session = some session)
    (hws : session'.ws = session.ws) {stopper : Stopper}
    (hwaits : stopper = .cancellingHealth ∨ stopper = .cancellingKeepAlive) :
    s.StopStep { s with session := some session', stopper } := by
  refine ⟨⟨rfl, rfl, rfl, rfl, by simp [hs], id, id, id, .of_tasks hs rfl hws rfl⟩, rfl, ?_,
    by simp [hs, hws], ?_⟩
  · rcases hwaits with rfl | rfl <;> simp
  · rcases hwaits with rfl | rfl <;> simp

theorem stopCancelKeepAlive_stopStep (s : Manager cfg) : s.StopStep s.stopCancelKeepAlive := by
  unfold stopCancelKeepAlive
  split
  · rename_i session hs
    split
    · split
      · exact stopWaits_stopStep hs (by rfl) (.inr rfl)
      · split
        · exact s.stopDisconnect_stopStep
        · exact s.stopRaised_stopStep _
    · exact s.stopDisconnect_stopStep
  · exact s.stopDisconnect_stopStep

theorem stopCancelHealth_stopStep (s : Manager cfg) : s.StopStep s.stopCancelHealth := by
  unfold stopCancelHealth
  split
  · rename_i session hs
    split
    · split
      · split
        · exact s.stopRaised_stopStep _
        · exact s.stopCancelKeepAlive_stopStep
      · exact stopWaits_stopStep hs (by rfl) (.inl rfl)
    · exact s.stopCancelKeepAlive_stopStep
  · exact s.stopCancelKeepAlive_stopStep

theorem requestStop_bystander (s : Manager cfg) : s.Bystander s.requestStop :=
  ⟨rfl, rfl, rfl, rfl, rfl, id, id, id, .refl s⟩

/-- **The call of `stop` goes on**, or has nothing to go on from: what it waits for is not over. -/
theorem stopResumes_cases (s : Manager cfg) (raised : Option Raised) :
    s.stopResumes raised = s ∨ s.StopStep (s.stopResumes raised) := by
  unfold stopResumes
  split
  · split
    · exact .inr s.stopCancelKeepAlive_stopStep
    · split
      · split
        · exact .inr (s.stopRaised_stopStep _)
        · exact .inr s.stopCancelKeepAlive_stopStep
      · exact .inl rfl
  · split
    · exact .inr s.stopDisconnect_stopStep
    · split
      · exact .inl rfl
      · split
        · exact .inr s.stopDisconnect_stopStep
        · exact .inr (s.stopRaised_stopStep _)
  · split
    · have ht := s.closeSocket_taskStep.trans (dropWs_taskStep s.closeSocket_closed)
      have hb : s.Bystander ({ s.closeSocket with ws := false }.stopFinish) :=
        ⟨ht.listener, ht.attempt, ht.yielded, ht.connections, ht.isSome, ht.ws, ht.healthTask,
          ht.keepAliveTask, ht.socket⟩
      exact .inr ⟨hb, rfl, by simp [stopFinish],
        by simp [stopFinish, closeSocket, withSession, Function.comp_def],
        fun _ _ => s.closeSocket_closed⟩
    · exact .inr (s.stopRaised_stopStep _)
  · exact .inl rfl

/-! ## The cleanup of the listener -/

/-- Behind the await of the keep-alive task the generator goes on: `__cancel_background_task`
suppresses what the task has ended with, and no exception is pending. -/
def KeepAliveCleanup (s : Manager cfg) (pending : Option Raised) : Prop :=
  match s.session with
  | none => pending = none
  | some session =>
    match session.keepAliveTask with
    | .running _ => True
    | .ended raised => raised.isExpectedTeardown = true ∧ pending = none

/-- The same of both tasks: the outer `finally` awaits the health task first, and comes to the
keep-alive task if that has raised nothing but a `CancelledError` or a `ConnectionError`. -/
def HealthCleanup (s : Manager cfg) (pending : Option Raised) : Prop :=
  match s.session with
  | none => pending = none
  | some session =>
    match session.healthTask with
    | .ended raised => raised.all (fun raised => raised.isExpectedTeardown) = true ∧
      s.KeepAliveCleanup pending
    | _ => True

/-- What the cleanup of a session comes to, whichever task it begins with: it waits for a task, ends
the session, or raises what a task has raised. -/
inductive CleansUp (s : Manager cfg) (pending : Option Raised) : Manager cfg → Prop where
  | waits (session session' : Session) (listener : Listener) (hs : s.session = some session)
      (hws : session'.ws = session.ws)
      (hlistener : listener = .cancellingHealth pending ∨ listener = .cancellingKeepAlive pending) :
      CleansUp s pending { s with session := some session', listener }
  | ends : CleansUp s pending (s.endSession pending)
  | raises (raised : Raised) : CleansUp s pending (s.finish (.raised raised))

/-- A keep-alive task that is not done is cancelled and awaited, and one that is done is awaited at
once. -/
theorem cancelKeepAlive_cleansUp (s : Manager cfg) (pending : Option Raised) :
    s.CleansUp pending (s.cancelKeepAlive pending) := by
  unfold cancelKeepAlive
  split
  · exact .ends
  · rename_i session hs
    split
    · exact .waits session _ _ hs rfl (.inr rfl)
    · split
      · exact .ends
      · exact .raises _

/-- The same of the health task, behind which the cleanup goes on with the keep-alive task. -/
theorem cancelHealth_cleansUp (s : Manager cfg) (pending : Option Raised) :
    s.CleansUp pending (s.cancelHealth pending) := by
  unfold cancelHealth
  split
  · exact s.cancelKeepAlive_cleansUp pending
  · rename_i session hs
    split
    · split
      · exact .raises _
      · exact s.cancelKeepAlive_cleansUp pending
    · exact .waits session _ _ hs rfl (.inl rfl)

/-! ## The listener -/

/-- The listener is in the session and has not left its loop over the messages, so it may still give
one out. -/
def listening (s : Manager cfg) : Bool :=
  match s.listener with
  | .onConnectCallback | .receiving | .yielding => true
  | _ => false

/-- A step of the listener in which it neither connects nor gives out a message. It may end a
session. -/
structure ListenerStep (s s' : Manager cfg) : Prop where
  stopper : s'.stopper = s.stopper
  stopEvent : s.stopEvent = true → s'.stopEvent = true
  yielded : s'.yielded = s.yielded
  connections : s'.connections = s.connections
  socket : s.SocketKept s'
  handshake : s'.listener = .handshake → s.listener = .handshake ∨ s.stopEvent = false
  listening : s'.listening = true → s.listening = true

/-- The listener goes to another place, with further calls of the flap monitor. -/
theorem ListenerStep.goes (s : Manager cfg) {listener : Listener} {calls : List FlapCall}
    (hhandshake : listener ≠ .handshake)
    (hlistening : ({ s with listener } : Manager cfg).listening = true → s.listening = true) :
    s.ListenerStep { s with listener, flapTipMonitor := calls } :=
  ⟨rfl, id, rfl, rfl, .refl s, fun h => absurd h hhandshake, hlistening⟩

theorem loopHead_listenerStep (s : Manager cfg) : s.ListenerStep s.loopHead := by
  unfold loopHead
  split
  · exact .goes s (by simp) (by simp [listening])
  · split
    · exact ⟨rfl, id, rfl, rfl, .refl s, fun _ => .inr (eq_false_of_ne_true ‹_›),
        by simp [listening]⟩
    · exact ⟨rfl, fun _ => rfl, rfl, rfl, .refl s, by simp [finish], by simp [listening, finish]⟩

theorem endSession_listenerStep (s : Manager cfg) (pending : Option Raised) :
    s.ListenerStep (s.endSession pending) := by
  unfold endSession
  dsimp only
  split
  · exact ⟨rfl, id, rfl, rfl, .of_none rfl, by simp [finish], by simp [listening, finish]⟩
  · split
    · have h : s.stopEvent = true := ‹_›
      refine ⟨?_, ?_, ?_, ?_, .of_none ?_, ?_, ?_⟩ <;> simp [loopHead, h, finish, listening]
    · exact ⟨rfl, id, rfl, rfl, .of_none rfl, by simp, by simp [listening]⟩

theorem CleansUp.listenerStep {pending : Option Raised} (h : s.CleansUp pending s') :
    s.ListenerStep s' := by
  cases h with
  | waits session session' listener hs hws hlistener =>
    refine ⟨rfl, id, rfl, rfl, .of_tasks hs rfl hws rfl, ?_, ?_⟩
    · rcases hlistener with rfl | rfl <;> simp
    · rcases hlistener with rfl | rfl <;> simp [listening]
  | ends => exact s.endSession_listenerStep pending
  | raises raised => exact .goes s (by simp) (by simp [listening])

theorem leaveTry_listenerStep (s : Manager cfg) (raised : Option Raised) :
    s.ListenerStep (s.leaveTry raised) := (s.cancelHealth_cleansUp _).listenerStep

/-- The context is left, which closes the socket, and the `finally` behind it begins. -/
theorem contextExits_listenerStep (s : Manager cfg) (raised : Option Raised) :
    s.ListenerStep (s.closeSocket.leaveTry raised) := by
  have h := s.closeSocket.leaveTry_listenerStep raised
  exact ⟨h.stopper, h.stopEvent, h.yielded, h.connections,
    s.closeSocket_taskStep.socket.trans h.socket, h.handshake, h.listening⟩

theorem iterationEnds_listenerStep (s : Manager cfg) (raised : Option Raised) :
    s.ListenerStep (s.iterationEnds raised) := by
  unfold iterationEnds
  split
  · exact .goes s (by simp) (by simp [listening])
  · exact .goes s (by simp) (by simp [listening])
  · exact .goes s (by simp) (by simp [listening])

/-! ## Events -/

/-- What an event can do: a task moves, `stop` moves, the listener moves, or the handshake or a
message gets through. -/
inductive Steps (s : Manager cfg) : Manager cfg → Prop where
  | task (s' : Manager cfg) (h : s.TaskStep s') : Steps s s'
  | listener (s' : Manager cfg) (h : s.ListenerStep s') : Steps s s'
  | connects (h : s.listener = .handshake) : Steps s s.connected
  | message (session : Session) (message : Py.Str) (messages : List Py.Str)
      (h : s.listener = .receiving) (hs : s.session = some session)
      (hm : session.ws.messages = message :: messages) : Steps s s.nextMessage
  | stopCalled (s' : Manager cfg) (h : s.stopper = .notCalled)
      (hs : s.requestStop.StopStep s') : Steps s s'
  | stopResumes (s' : Manager cfg) (h : s.stopper ≠ .notCalled) (hs : s.StopStep s') : Steps s s'

/-- An event that does nothing. -/
theorem Steps.same (he : s' = s) : s.Steps s' := by
  subst he
  exact .task _ (.refl _)

theorem nextMessage_steps (h : s.listener = .receiving) : s.Steps s.nextMessage := by
  cases hs : s.session with
  | none =>
    exact .same (by simp only [nextMessage, hs])
  | some session =>
    cases hm : session.ws.messages with
    | nil =>
      exact .same (by simp only [nextMessage, hs, hm])
    | cons message messages => exact .message session message messages h hs hm

theorem step_steps (s : Manager cfg) (event : WsEvent) : s.Steps (s.step event) := by
  cases event with
  | anext =>
    simp only [step]
    split
    · exact .listener _ s.loopHead_listenerStep
    · exact .listener _ (.goes s (by simp) (by simp [listening, *]))
    · exact .same rfl
  | handshakeReturns =>
    simp only [step]
    split
    · exact .connects ‹_›
    · exact .same rfl
  | handshakeRaises raised =>
    simp only [step]
    split
    · split
      · exact .listener _ (.goes s (by simp) (by simp [listening]))
      · exact .listener _ (s.leaveTry_listenerStep _)
    · exact .same rfl
  | abandonEnds raised =>
    simp only [step]
    split
    · exact .listener _ (s.leaveTry_listenerStep _)
    · exact .same rfl
  | callbackReturns =>
    simp only [step]
    split
    · exact .listener _ (.goes s (by simp) (by simp [listening, *]))
    · exact .same rfl
  | callbackRaises raised =>
    simp only [step]
    split
    · exact .listener _ (.goes s (by simp) (by simp [listening]))
    · exact .same rfl
  | messageArrives message => exact .task _ (s.step_taskStep message false none).1
  | socketCloses => exact .task _ (s.step_taskStep [] false none).2.1
  | nextMessage =>
    simp only [step]
    split
    · exact nextMessage_steps ‹_›
    · exact .same rfl
  | iterationEnds raised =>
    simp only [step]
    split
    · exact .listener _ (s.iterationEnds_listenerStep raised)
    · exact .same rfl
  | contextExits raised =>
    simp only [step]
    split
    · exact .listener _ (s.contextExits_listenerStep _)
    · exact .same rfl
  | listenerResumes =>
    simp only [step]
    split
    · split
      · exact .listener _ (s.cancelHealth_cleansUp _).listenerStep
      · exact .same rfl
    · split
      · exact .listener _ (s.cancelKeepAlive_cleansUp _).listenerStep
      · exact .same rfl
    · exact .same rfl
  | backoffEnds =>
    simp only [step]
    split
    · let next : Manager cfg := { s with attempt := s.attempt + 1 }
      have h := next.loopHead_listenerStep
      exact .listener _ ⟨h.stopper, h.stopEvent, h.yielded, h.connections, h.socket, h.handshake,
        h.listening⟩
    · exact .same rfl
  | healthResumes healthy raised => exact .task _ (s.step_taskStep [] healthy raised).2.2.1
  | keepAliveResumes raised => exact .task _ (s.step_taskStep [] false raised).2.2.2
  | stop =>
    simp only [step]
    split
    · exact .stopCalled _ ‹_› (stopCancelHealth_stopStep _)
    · exact .same rfl
  | stopResumes raised =>
    show s.Steps (s.stopResumes raised)
    by_cases h : s.stopper = .notCalled
    · exact .same (by simp only [stopResumes, h])
    · rcases s.stopResumes_cases raised with he | hs
      · exact .same he
      · exact .stopResumes _ h hs

end Leviathan.Manager
