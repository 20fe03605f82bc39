import Leviathan.Lib.Run
import Leviathan.Network.SessionSteps

/-!
# The reconnect loop and failing sessions

`start_connection_and_listen` is to end only by `stop()` or by its retry limit, whatever a session
raises, and to leave no reference to a session behind it. Its cleanup awaits the background tasks
outside of the `try`.

* `reconnect_loop_survives_iff`: **it does, exactly in the runs in which no `BaseException` is
  raised and each background task that the cleanup awaits has ended with a `ConnectionError`, with
  its cancellation, or by itself.**
* `keep_alive_kills_loop`: a `ConnectionClosed` of the keep-alive task ends the loop.
-/

namespace Leviathan.Manager

variable {cfg : WsConfig} {s s' : Manager cfg}

/-- No session is going on. -/
def between (s : Manager cfg) : Bool :=
  match s.listener with
  | .created | .handshake | .abandoning _ | .backoff _ | .finished _ => true
  | _ => false

/-- No field refers to a session. -/
def Cleared (s : Manager cfg) : Prop :=
  s.ws = false ∧ s.healthTask = false ∧ s.keepAliveTask = false

/-- The loop has ended by `stop` or by its limit, if it has, and every session is cleared. -/
structure Survives (s : Manager cfg) : Prop where
  ended : ∀ how, s.listener = .finished how →
    how = .returned ∧ s.stopper ≠ .notCalled ∨ how = .maxRetriesExceeded
  cleared : s.between = true → s.Cleared

/-- What an event raises stays in the loop. -/
def Absorbed (s : Manager cfg) : WsEvent → Prop
  | .handshakeRaises raised => s.listener = .handshake → raised.isException = true
  | .abandonEnds raised =>
    match s.listener with
    | .abandoning handshakeError => (raised.getD handshakeError).isException = true
    | _ => True
  | .contextExits raised =>
    match s.listener with
    | .closing pending =>
      s.HealthCleanup ((raised <|> pending).filter fun raised => !raised.isException)
    | _ => True
  | .listenerResumes =>
    match s.listener with
    | .cancellingHealth pending => s.HealthCleanup pending
    | .cancellingKeepAlive pending => s.KeepAliveCleanup pending
    | _ => True
  | _ => True

/-- A session is there exactly while the listener is in it. -/
structure LoopInv (s : Manager cfg) : Prop where
  none : s.between = true → s.session = none ∧ s.Cleared
  some : s.between = false → s.session.isSome = true
  ended : ∀ how, s.listener = .finished how →
    how = .returned ∧ s.stopper ≠ .notCalled ∨ how = .maxRetriesExceeded
  stopEvent : s.stopEvent = true →
    s.stopper ≠ .notCalled ∨ s.listener = .finished .maxRetriesExceeded

theorem LoopInv.survives (h : s.LoopInv) : s.Survives :=
  ⟨h.ended, fun hb => (h.none hb).2⟩

theorem Bystander.between (h : s.Bystander s') : s'.between = s.between := by
  unfold Manager.between
  rw [h.listener]

/-- The other parties keep it. -/
theorem Bystander.loopInv (h : s.Bystander s') (hi : s.LoopInv)
    (hcalled : s.stopper ≠ .notCalled → s'.stopper ≠ .notCalled)
    (hstop : s'.stopEvent = true → s.stopEvent = true ∨ s'.stopper ≠ .notCalled) : s'.LoopInv where
  none hb := by
    obtain ⟨hnone, hws, hhealth, hkeep⟩ := hi.none (h.between ▸ hb)
    have hisSome := h.isSome
    rw [hnone, Option.isSome_none, Option.isSome_eq_false_iff, Option.isNone_iff_eq_none] at hisSome
    exact ⟨hisSome, eq_false_of_ne_true (mt h.ws (by simp [hws])),
      eq_false_of_ne_true (mt h.healthTask (by simp [hhealth])),
      eq_false_of_ne_true (mt h.keepAliveTask (by simp [hkeep]))⟩
  some hb := h.isSome.trans (hi.some (h.between ▸ hb))
  ended how hl := (hi.ended how (h.listener ▸ hl)).imp_left (And.imp_right hcalled)
  stopEvent hs := by
    rcases hstop hs with hs | hs
    · exact (hi.stopEvent hs).imp hcalled h.listener.trans
    · exact .inl hs

/-! ## The end of a session -/

/-- The head of the loop, with nothing of a session left. -/
theorem loopHead_loopInv (hnone : s.session = none) (hclear : s.Cleared)
    (hstop : s.stopEvent = true → s.stopper ≠ .notCalled) : s.loopHead.LoopInv := by
  unfold loopHead
  split
  · refine ⟨fun _ => ⟨hnone, hclear⟩, by simp [between, finish], fun how hl => ?_,
      fun hs => .inl (hstop hs)⟩
    cases hl
    exact .inl ⟨rfl, hstop ‹_›⟩
  · split
    · exact ⟨fun _ => ⟨hnone, hclear⟩, by simp [between], by simp, fun hs => .inl (hstop hs)⟩
    · refine ⟨fun _ => ⟨hnone, hclear⟩, by simp [between, finish], fun how hl => ?_,
        fun _ => .inr rfl⟩
      cases hl
      exact .inr rfl

theorem not_survives_raised (s : Manager cfg) (raised : Raised) :
    ¬(s.finish (.raised raised)).Survives := by
  intro h
  rcases h.ended (.raised raised) rfl with ⟨he, -⟩ | he <;> cases he

/-- **The end of a session** raises what the session left, and only that. -/
theorem endSession_survives (hstop : s.stopEvent = true → s.stopper ≠ .notCalled)
    (pending : Option Raised) :
    ((s.endSession pending).Survives ↔ pending = none) ∧
      (pending = none → (s.endSession pending).LoopInv) := by
  have hinv : (s.endSession none).LoopInv := by
    unfold endSession
    dsimp only
    split
    · exact loopHead_loopInv rfl ⟨rfl, rfl, rfl⟩ hstop
    · exact ⟨fun _ => ⟨rfl, rfl, rfl, rfl⟩, by simp [between], by simp,
        fun hs => .inl (hstop hs)⟩
  cases pending with
  | none => exact ⟨iff_of_true hinv.survives rfl, fun _ => hinv⟩
  | some raised =>
    exact ⟨iff_of_false (not_survives_raised _ raised) (by simp), fun he => by cases he⟩

/-- The cleanup waits for a task: the session is still there. -/
theorem waits_loopInv (hstop : s.stopEvent = true → s.stopper ≠ .notCalled)
    (pending : Option Raised) (session : Session) {listener : Listener}
    (hl : listener = .cancellingHealth pending ∨ listener = .cancellingKeepAlive pending) :
    ({ s with session := some session, listener } : Manager cfg).LoopInv := by
  refine ⟨fun hb => ?_, fun _ => rfl, fun how he => ?_, fun hs => .inl (hstop hs)⟩
  · rcases hl with rfl | rfl <;> simp [between] at hb
  · rcases hl with rfl | rfl <;> cases he

theorem cancelKeepAlive_survives (hstop : s.stopEvent = true → s.stopper ≠ .notCalled)
    (pending : Option Raised) :
    ((s.cancelKeepAlive pending).Survives ↔ s.KeepAliveCleanup pending) ∧
      (s.KeepAliveCleanup pending → (s.cancelKeepAlive pending).LoopInv) := by
  cases hs : s.session with
  | none =>
    simp only [cancelKeepAlive, KeepAliveCleanup, hs]
    exact endSession_survives hstop pending
  | some session =>
    cases ht : session.keepAliveTask with
    | running cancelled =>
      have hinv := waits_loopInv hstop pending
        { session with keepAliveTask := session.keepAliveTask.cancel } (.inr rfl)
      rw [ht] at hinv
      simp only [cancelKeepAlive, KeepAliveCleanup, hs, ht]
      exact ⟨iff_of_true hinv.survives trivial, fun _ => hinv⟩
    | ended raised =>
      simp only [cancelKeepAlive, KeepAliveCleanup, hs, ht]
      split
      · rename_i hraised
        simp only [hraised, true_and]
        exact endSession_survives hstop pending
      · rename_i hraised
        exact ⟨iff_of_false (not_survives_raised s raised) (fun h => hraised h.1),
          fun h => absurd h.1 hraised⟩

theorem cancelHealth_survives (hstop : s.stopEvent = true → s.stopper ≠ .notCalled)
    (pending : Option Raised) :
    ((s.cancelHealth pending).Survives ↔ s.HealthCleanup pending) ∧
      (s.HealthCleanup pending → (s.cancelHealth pending).LoopInv) := by
  cases hs : s.session with
  | none =>
    have hcleanup : s.KeepAliveCleanup pending ↔ pending = none := by
      simp only [KeepAliveCleanup, hs]
    simp only [cancelHealth, HealthCleanup, hs, ← hcleanup]
    exact cancelKeepAlive_survives hstop pending
  | some session =>
    have hwaits := waits_loopInv hstop pending
      { session with healthTask := session.healthTask.cancel } (.inl rfl)
    cases ht : session.healthTask with
    | ended raised =>
      simp only [cancelHealth, HealthCleanup, hs, ht]
      split
      · rename_i raised' hraised
        obtain ⟨rfl, hnot⟩ := Option.filter_eq_some_iff.mp hraised
        have hbad : ¬raised'.isExpectedTeardown = true := by simpa using hnot
        exact ⟨iff_of_false (not_survives_raised s raised') (fun h => hbad h.1),
          fun h => absurd h.1 hbad⟩
      · rename_i hraised
        have hall : raised.all (fun raised => raised.isExpectedTeardown) = true := by
          cases raised with
          | none => rfl
          | some raised => simpa [Option.filter_eq_none_iff] using hraised
        simp only [hall, true_and]
        exact cancelKeepAlive_survives hstop pending
    | _ =>
      rw [ht] at hwaits
      simp only [cancelHealth, HealthCleanup, hs, ht]
      exact ⟨iff_of_true hwaits.survives trivial, fun _ => hwaits⟩

/-! ## Runs -/

theorem loopInv_new : (new : Manager cfg).LoopInv :=
  ⟨fun _ => ⟨rfl, rfl, rfl, rfl⟩, fun h => by simp [between, new] at h,
    fun how hl => by simp [new] at hl, fun hs => by simp [new] at hs⟩

/-- The listener is in a session. -/
theorem loopInv_inside (hb : s.between = false) (hsome : s.session.isSome = true)
    (hstop : s.stopEvent = true → s.stopper ≠ .notCalled) : s.LoopInv where
  none h := by simp [hb] at h
  some _ := hsome
  ended how hl := by simp [between, hl] at hb
  stopEvent hs := .inl (hstop hs)

/-- Before the end, the event is set by `stop` only. -/
theorem LoopInv.stop_called (h : s.LoopInv) (hl : ∀ how, s.listener ≠ .finished how) :
    s.stopEvent = true → s.stopper ≠ .notCalled :=
  fun hs => (h.stopEvent hs).resolve_right (hl _)

/-- An event that raises nothing. -/
theorem LoopInv.absorbed {event : WsEvent} (h : (s.step event).LoopInv) (ha : s.Absorbed event) :
    ((s.step event).Survives ↔ s.Absorbed event) ∧
      (s.Absorbed event → (s.step event).LoopInv) :=
  ⟨iff_of_true h.survives ha, fun _ => h⟩

/-- The `except Exception` behind a handshake that raised. -/
theorem leaveTry_survives (h : s.LoopInv) (hb : s.between = true)
    (hl : ∀ how, s.listener ≠ .finished how) (raised : Raised) :
    ((s.leaveTry (some raised)).Survives ↔ raised.isException = true) ∧
      (raised.isException = true → (s.leaveTry (some raised)).LoopInv) := by
  have hcleanup : s.HealthCleanup ((some raised).filter fun raised => !raised.isException) ↔
      raised.isException = true := by
    simp [HealthCleanup, (h.none hb).1, Option.filter_eq_none_iff]
  rw [← hcleanup]
  exact cancelHealth_survives (h.stop_called hl) _

theorem handshakeRaises_survives (h : s.LoopInv) (raised : Raised) :
    ((s.step (.handshakeRaises raised)).Survives ↔ s.Absorbed (.handshakeRaises raised)) ∧
      (s.Absorbed (.handshakeRaises raised) → (s.step (.handshakeRaises raised)).LoopInv) := by
  by_cases hl : s.listener = .handshake
  · have hb : s.between = true := by simp [between, hl]
    have hf : ∀ how, s.listener ≠ .finished how := by simp [hl]
    simp only [step, Absorbed, hl, ↓reduceIte, true_implies]
    by_cases hraised : raised.isException = true
    · have hinv : ({ s with listener := .abandoning raised } : Manager cfg).LoopInv :=
        ⟨fun _ => h.none hb, by simp [between], by simp, fun hs => .inl (h.stop_called hf hs)⟩
      simp only [hraised, ↓reduceIte]
      exact ⟨iff_of_true hinv.survives trivial, fun _ => hinv⟩
    · have he := leaveTry_survives h hb hf raised
      simp only [hraised] at he ⊢
      exact he
  · have he : s.step (.handshakeRaises raised) = s := by simp only [step, hl, ↓reduceIte]
    exact LoopInv.absorbed (by rw [he]; exact h) fun hh => absurd hh hl

/-- The task that the cleanup waits for has ended. -/
theorem listenerResumes_survives (h : s.LoopInv) :
    ((s.step .listenerResumes).Survives ↔ s.Absorbed .listenerResumes) ∧
      (s.Absorbed .listenerResumes → (s.step .listenerResumes).LoopInv) := by
  cases hl : s.listener with
  | cancellingHealth pending =>
    obtain ⟨session, hs⟩ := Option.isSome_iff_exists.mp (h.some (by simp [between, hl]))
    cases ht : session.healthTask with
    | ended raised =>
      simp only [step, Absorbed, hl, hs, ht]
      exact cancelHealth_survives (h.stop_called (by simp [hl])) pending
    | _ =>
      have he : s.step .listenerResumes = s := by simp only [step, hl, hs, ht]
      refine LoopInv.absorbed (by rw [he]; exact h) ?_
      simp only [Absorbed, hl, HealthCleanup, hs, ht]
  | cancellingKeepAlive pending =>
    obtain ⟨session, hs⟩ := Option.isSome_iff_exists.mp (h.some (by simp [between, hl]))
    cases ht : session.keepAliveTask with
    | ended raised =>
      simp only [step, Absorbed, hl, hs, ht]
      exact cancelKeepAlive_survives (h.stop_called (by simp [hl])) pending
    | running cancelled =>
      have he : s.step .listenerResumes = s := by simp only [step, hl, hs, ht]
      refine LoopInv.absorbed (by rw [he]; exact h) ?_
      simp only [Absorbed, hl, KeepAliveCleanup, hs, ht]
  | _ =>
    have he : s.step .listenerResumes = s := by simp only [step, hl]
    exact LoopInv.absorbed (by rw [he]; exact h) (by simp only [Absorbed, hl])

theorem abandonEnds_survives (h : s.LoopInv) (raised : Option Raised) :
    ((s.step (.abandonEnds raised)).Survives ↔ s.Absorbed (.abandonEnds raised)) ∧
      (s.Absorbed (.abandonEnds raised) → (s.step (.abandonEnds raised)).LoopInv) := by
  cases hl : s.listener with
  | abandoning handshakeError =>
    simp only [step, Absorbed, hl]
    exact leaveTry_survives h (by simp [between, hl]) (by simp [hl]) _
  | _ =>
    have he : s.step (.abandonEnds raised) = s := by simp only [step, hl]
    exact LoopInv.absorbed (by rw [he]; exact h) (by simp only [Absorbed, hl])

/-- The cleanup looks at the tasks only. -/
theorem closeSocket_healthCleanup (s : Manager cfg) (pending : Option Raised) :
    s.closeSocket.HealthCleanup pending ↔ s.HealthCleanup pending := by
  simp only [HealthCleanup, KeepAliveCleanup, closeSocket, withSession]
  cases s.session with
  | none => exact Iff.rfl
  | some session => exact Iff.rfl

theorem contextExits_survives (h : s.LoopInv) (raised : Option Raised) :
    ((s.step (.contextExits raised)).Survives ↔ s.Absorbed (.contextExits raised)) ∧
      (s.Absorbed (.contextExits raised) → (s.step (.contextExits raised)).LoopInv) := by
  cases hl : s.listener with
  | closing pending =>
    have hstop : s.closeSocket.stopEvent = true → s.closeSocket.stopper ≠ .notCalled :=
      h.stop_called (by simp [hl])
    simp only [step, Absorbed, hl]
    rw [← closeSocket_healthCleanup]
    exact cancelHealth_survives hstop _
  | _ =>
    have he : s.step (.contextExits raised) = s := by simp only [step, hl]
    exact LoopInv.absorbed (by rw [he]; exact h) (by simp only [Absorbed, hl])

theorem nextMessage_loopInv (h : s.LoopInv) (hl : ∀ how, s.listener ≠ .finished how) :
    s.nextMessage.LoopInv := by
  unfold nextMessage
  split
  · exact h
  · split
    · exact h
    · exact loopInv_inside rfl rfl (h.stop_called hl)

theorem iterationEnds_loopInv (h : s.LoopInv) (hb : s.between = false)
    (hl : ∀ how, s.listener ≠ .finished how) (raised : Option Raised) :
    (s.iterationEnds raised).LoopInv := by
  have hsome := h.some hb
  have hstop := h.stop_called hl
  unfold iterationEnds
  split
  · exact loopInv_inside rfl hsome hstop
  · exact loopInv_inside rfl hsome hstop
  · exact loopInv_inside rfl hsome hstop

theorem stop_loopInv (h : s.LoopInv) : s.stop.LoopInv := by
  have hs := s.requestStop.stopCancelHealth_stopStep
  have hb : s.Bystander s.stop := s.requestStop_bystander.trans hs.toBystander
  exact hb.loopInv h (fun _ => hs.called) fun _ => .inr hs.called

/-- **One event** is absorbed, or kills the loop. -/
theorem step_survives (h : s.LoopInv) (event : WsEvent) :
    ((s.step event).Survives ↔ s.Absorbed event) ∧
      (s.Absorbed event → (s.step event).LoopInv) := by
  have htask : s.TaskStep (s.step event) → (s.step event).LoopInv := fun ht =>
    ht.toBystander.loopInv h (fun hc => ht.stopper ▸ hc) fun hs => .inl (ht.stopEvent ▸ hs)
  cases event with
  | anext =>
    refine LoopInv.absorbed ?_ trivial
    simp only [step]
    split
    · rename_i hl
      obtain ⟨hnone, hclear⟩ := h.none (by simp [between, hl])
      exact loopHead_loopInv hnone hclear (h.stop_called (by simp [hl]))
    · rename_i hl
      exact loopInv_inside rfl (h.some (by simp [between, hl])) (h.stop_called (by simp [hl]))
    · exact h
  | handshakeReturns =>
    refine LoopInv.absorbed ?_ trivial
    simp only [step]
    split
    · rename_i hl
      refine loopInv_inside ?_ rfl (h.stop_called (by simp [hl]))
      cases hcallback : cfg.onConnectCallback <;> simp [connected, between, hcallback]
    · exact h
  | handshakeRaises raised => exact handshakeRaises_survives h raised
  | abandonEnds raised => exact abandonEnds_survives h raised
  | callbackReturns =>
    refine LoopInv.absorbed ?_ trivial
    simp only [step]
    split
    · rename_i hl
      exact loopInv_inside rfl (h.some (by simp [between, hl])) (h.stop_called (by simp [hl]))
    · exact h
  | callbackRaises raised =>
    refine LoopInv.absorbed ?_ trivial
    simp only [step]
    split
    · rename_i hl
      exact loopInv_inside rfl (h.some (by simp [between, hl])) (h.stop_called (by simp [hl]))
    · exact h
  | messageArrives message => exact (htask (s.step_taskStep message false none).1).absorbed trivial
  | socketCloses => exact (htask (s.step_taskStep [] false none).2.1).absorbed trivial
  | nextMessage =>
    refine LoopInv.absorbed ?_ trivial
    simp only [step]
    split
    · rename_i hl
      exact nextMessage_loopInv h (by simp [hl])
    · exact h
  | iterationEnds raised =>
    refine LoopInv.absorbed ?_ trivial
    simp only [step]
    split
    · rename_i hl
      exact iterationEnds_loopInv h (by simp [between, hl]) (by simp [hl]) raised
    · exact h
  | contextExits raised => exact contextExits_survives h raised
  | listenerResumes => exact listenerResumes_survives h
  | backoffEnds =>
    refine LoopInv.absorbed ?_ trivial
    simp only [step]
    split
    · rename_i delay hl
      obtain ⟨hnone, hclear⟩ := h.none (by simp [between, hl])
      exact loopHead_loopInv hnone hclear (h.stop_called (by simp [hl]))
    · exact h
  | healthResumes healthy raised =>
    exact (htask (s.step_taskStep [] healthy raised).2.2.1).absorbed trivial
  | keepAliveResumes raised =>
    exact (htask (s.step_taskStep [] false raised).2.2.2).absorbed trivial
  | stop =>
    refine LoopInv.absorbed ?_ trivial
    simp only [step]
    split
    · exact stop_loopInv h
    · exact h
  | stopResumes raised =>
    refine LoopInv.absorbed ?_ trivial
    rcases s.stopResumes_cases raised with he | hs
    · show (s.stopResumes raised).LoopInv
      rw [he]
      exact h
    · exact hs.toBystander.loopInv h (fun _ => hs.called) fun _ => .inr hs.called

/-- **The reconnect loop survives** exactly the runs in which the cleanup has nothing to raise. -/
theorem reconnect_loop_survives_iff (cfg : WsConfig) (events : List WsEvent) :
    Run.Always step Survives (new : Manager cfg) events ↔
      Run.Each step Absorbed (new : Manager cfg) events :=
  @Run.always_iff_each _ _ _ LoopInv _ _ (fun _ event hi _ => (step_survives hi event).2)
    (fun _ event hi _ => (step_survives hi event).1) _ loopInv_new loopInv_new.survives events

/-- A manager without a retry limit and without a callback. -/
def listenOnlyConfig : WsConfig := ⟨⟨none, 30⟩, false⟩

/-- The server closes the connection, and the next keep-alive is sent into it. -/
def keepAliveFails : List WsEvent :=
  [.anext, .handshakeReturns, .healthResumes true none, .keepAliveResumes (some .connectionClosed),
    .socketCloses, .iterationEnds (some .connectionClosed), .contextExits none,
    .healthResumes true none, .listenerResumes]

/-- **The loop ends with what the keep-alive task raised.** -/
theorem keep_alive_kills_loop :
    ¬Run.Always step Survives (new : Manager listenOnlyConfig) keepAliveFails := by
  intro h
  have hraised : (Run.exec step (new : Manager listenOnlyConfig) keepAliveFails).listener =
      .finished (.raised .connectionClosed) := by decide
  rcases h.last.ended _ hraised with ⟨he, -⟩ | he <;> cases he

end Leviathan.Manager
