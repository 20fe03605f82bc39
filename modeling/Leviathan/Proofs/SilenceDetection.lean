import Leviathan.Lib.Run
import Leviathan.Network.SessionSteps
import Leviathan.Network.TimedManager
import Mathlib.Tactic.Linarith

/-!
# A silent session is cut

* `HealthStep`, `step_healthStep`: no event but its own touches the health loop of a session that
  the listener listens to.
* `SilenceBounded`: the watchdog cuts a session after a silence longer than its timeout, and longer
  by one check at most.
* `silence_bounded`: **this holds in every state of a run in which no sleep of the health loop lasts
  longer than it was asked to by more than `late`.**
-/

namespace Leviathan

namespace Manager

variable {cfg : WsConfig} {s s' : Manager cfg}

/-! ## The health loop -/

/-- The listener listens to the session, and `stop()` is not called. -/
def watching (s : Manager cfg) : Bool := s.listening && !s.stopEvent

/-- A step that leaves the health loop of the session as it is, or cancels it when the listener does
not listen to it any more. -/
structure HealthStep (s s' : Manager cfg) : Prop where
  watching : s'.watching = true → s.watching = true
  task : s'.health = s.health ∨ s'.watching = false ∧
    (s'.health = none ∨ s'.health = s.health.map HealthLoop.cancel)

theorem HealthStep.refl (s : Manager cfg) : s.HealthStep s := ⟨id, .inl rfl⟩

/-- A step of a background task or of the network. -/
theorem TaskStep.healthStep (h : s.TaskStep s') (htask : s'.health = s.health) :
    s.HealthStep s' := by
  refine ⟨fun hw => ?_, .inl htask⟩
  simpa only [Manager.watching, listening, h.listener, h.stopEvent] using hw

theorem ListenerStep.watching (h : s.ListenerStep s') (hw : s'.watching = true) :
    s.watching = true := by
  simp only [Manager.watching, Bool.and_eq_true, Bool.not_eq_true'] at hw ⊢
  refine ⟨h.listening hw.1, ?_⟩
  by_contra hstop
  rw [h.stopEvent (by simpa using hstop)] at hw
  cases hw.2

/-- The listener goes on. -/
theorem ListenerStep.healthStep (h : s.ListenerStep s') (htask : s'.health = s.health) :
    s.HealthStep s' := ⟨h.watching, .inl htask⟩

theorem loopHead_session (s : Manager cfg) : s.loopHead.session = s.session := by
  unfold loopHead
  split
  · rfl
  · split <;> rfl

/-- The session is over. -/
theorem endSession_over (s : Manager cfg) (pending : Option Raised) :
    (s.endSession pending).watching = false ∧ (s.endSession pending).health = none := by
  unfold endSession
  dsimp only
  split
  · exact ⟨by simp [Manager.watching, listening, finish], rfl⟩
  · split
    · have hstop : s.stopEvent = true := ‹_›
      constructor <;> simp [loopHead, hstop, Manager.watching, listening, finish, health]
    · exact ⟨by simp [Manager.watching, listening], rfl⟩

theorem cancelKeepAlive_health (s : Manager cfg) (pending : Option Raised) :
    (s.cancelKeepAlive pending).health = s.health ∨
      (s.cancelKeepAlive pending).watching = false ∧ (s.cancelKeepAlive pending).health = none := by
  unfold cancelKeepAlive
  split
  · exact .inr (s.endSession_over pending)
  · rename_i session hs
    split
    · exact .inl (by simp [health, hs])
    · split
      · exact .inr (s.endSession_over pending)
      · exact .inl rfl

/-- **The cleanup of the listener** cancels the health loop when it has left its loop. -/
theorem cancelHealth_healthStep (s : Manager cfg) (pending : Option Raised) :
    s.HealthStep (s.cancelHealth pending) := by
  have hkeep := (s.cancelKeepAlive_health pending).imp_right fun h =>
    (⟨h.1, .inl h.2⟩ : _ ∧ (_ ∨ (s.cancelKeepAlive pending).health =
      s.health.map HealthLoop.cancel))
  refine ⟨(s.cancelHealth_cleansUp pending).listenerStep.watching, ?_⟩
  unfold cancelHealth
  split
  · exact hkeep
  · rename_i session hs
    split
    · split
      · exact .inl rfl
      · exact hkeep
    · exact .inr ⟨by simp [Manager.watching, listening], .inr (by simp [health, hs])⟩

theorem stopDisconnect_health (s : Manager cfg) : s.stopDisconnect.health = s.health := by
  unfold stopDisconnect stopFinish
  dsimp only
  split <;> rfl

theorem stopCancelKeepAlive_health (s : Manager cfg) :
    s.stopCancelKeepAlive.health = s.health := by
  unfold stopCancelKeepAlive
  split
  · rename_i session hs
    split
    · split
      · simp [health, hs]
      · split
        · exact s.stopDisconnect_health
        · rfl
    · exact s.stopDisconnect_health
  · exact s.stopDisconnect_health

/-- `stop()` cancels the health loop. -/
theorem stop_healthStep (s : Manager cfg) : s.HealthStep s.stop := by
  have hstop := s.requestStop.stopCancelHealth_stopStep
  have hleft : s.stop.watching = false := by
    have hevent : s.stop.stopEvent = true := hstop.stopEvent
    simp [Manager.watching, hevent]
  have hkeep : s.requestStop.stopCancelKeepAlive.health = s.health := stopCancelKeepAlive_health _
  refine ⟨fun hw => absurd hw (by simp [hleft]), ?_⟩
  have hsession : s.requestStop.session = s.session := rfl
  suffices h : s.stop.health = s.health ∨ s.stop.health = s.health.map HealthLoop.cancel from
    h.imp_right fun hcancel => ⟨hleft, .inr hcancel⟩
  unfold stop stopCancelHealth
  split
  · rename_i session hs
    split
    · split
      · split
        · exact .inl rfl
        · exact .inl hkeep
      · exact .inr (by simp [health, ← hsession, hs])
    · exact .inl hkeep
  · exact .inl hkeep

theorem stopResumes_health (s : Manager cfg) (raised : Option Raised) :
    (s.stopResumes raised).health = s.health := by
  have hkeep := s.stopCancelKeepAlive_health
  unfold stopResumes
  split
  · split
    · exact hkeep
    · split
      · split
        · rfl
        · exact hkeep
      · rfl
  · split
    · exact s.stopDisconnect_health
    · split
      · rfl
      · split
        · exact s.stopDisconnect_health
        · rfl
  · split
    · simp [stopFinish, closeSocket, withSession, health, Function.comp_def]
    · rfl
  · rfl

/-- **No event but its own, and a new connection, touches the health loop** of a session that the
listener listens to. -/
theorem step_healthStep (s : Manager cfg) {event : WsEvent}
    (hhealth : ∀ healthy raised, event ≠ .healthResumes healthy raised)
    (hconnects : event = .handshakeReturns → s.listener ≠ .handshake) :
    s.HealthStep (s.step event) := by
  cases event with
  | anext =>
    simp only [step]
    split
    · exact s.loopHead_listenerStep.healthStep (by rw [health, loopHead_session, health])
    · exact (ListenerStep.goes s (by simp) (by simp [listening, *])).healthStep rfl
    · exact .refl s
  | handshakeReturns =>
    simp only [step, if_neg (hconnects rfl)]
    exact .refl s
  | handshakeRaises raised =>
    simp only [step]
    split
    · split
      · exact (ListenerStep.goes s (by simp) (by simp [listening])).healthStep rfl
      · exact s.cancelHealth_healthStep _
    · exact .refl s
  | abandonEnds raised =>
    simp only [step]
    split
    · exact s.cancelHealth_healthStep _
    · exact .refl s
  | callbackReturns =>
    simp only [step]
    split
    · exact (ListenerStep.goes s (by simp) (by simp [listening, *])).healthStep rfl
    · exact .refl s
  | callbackRaises raised =>
    simp only [step]
    split
    · exact (ListenerStep.goes s (by simp) (by simp [listening])).healthStep rfl
    · exact .refl s
  | messageArrives message =>
    refine (s.step_taskStep message false none).1.healthStep ?_
    simp only [step, health, withSession, Option.map_map]
    congr 1
    funext session
    simp only [Function.comp_apply]
    split <;> rfl
  | socketCloses =>
    refine (s.step_taskStep [] false none).2.1.healthStep ?_
    simp [step, health, closeSocket, withSession, Function.comp_def]
  | nextMessage =>
    simp only [step]
    split
    · rename_i hlistener
      unfold nextMessage
      split
      · exact .refl s
      · rename_i session hs
        split
        · exact .refl s
        · exact ⟨fun hw => by simpa [Manager.watching, listening, hlistener] using hw,
            .inl (by simp [health, hs])⟩
    · exact .refl s
  | iterationEnds raised =>
    simp only [step]
    split
    · refine (s.iterationEnds_listenerStep raised).healthStep ?_
      unfold iterationEnds
      split <;> rfl
    · exact .refl s
  | contextExits raised =>
    simp only [step]
    split
    · have hclose : s.closeSocket.health = s.health := by
        simp [health, closeSocket, withSession, Function.comp_def]
      have hleave := s.closeSocket.cancelHealth_healthStep
      rename_i pending _
      refine ⟨(s.contextExits_listenerStep _).watching, ?_⟩
      rw [← hclose]
      exact (hleave _).task
    · exact .refl s
  | listenerResumes =>
    simp only [step]
    split
    · split
      · exact s.cancelHealth_healthStep _
      · exact .refl s
    · split
      · exact ⟨(s.cancelKeepAlive_cleansUp _).listenerStep.watching,
          (s.cancelKeepAlive_health _).imp_right fun h => ⟨h.1, .inl h.2⟩⟩
      · exact .refl s
    · exact .refl s
  | backoffEnds =>
    simp only [step]
    split
    · let next : Manager cfg := { s with attempt := s.attempt + 1 }
      have h := next.loopHead_listenerStep
      exact (⟨h.stopper, h.stopEvent, h.yielded, h.connections, h.socket, h.handshake,
        h.listening⟩ : s.ListenerStep next.loopHead).healthStep
          (by rw [health, loopHead_session]; rfl)
    · exact .refl s
  | healthResumes healthy raised => exact absurd rfl (hhealth healthy raised)
  | keepAliveResumes raised =>
    refine (s.step_taskStep [] false raised).2.2.2.healthStep ?_
    simp only [step, keepAliveResumes, health, withSession, Option.map_map]
    congr 1
    funext session
    simp only [Function.comp_apply]
    split
    · rfl
    · split
      · split <;> rfl
      · rfl
    · rfl
  | stop =>
    simp only [step]
    split
    · exact s.stop_healthStep
    · exact .refl s
  | stopResumes raised =>
    refine ⟨fun hw => ?_, .inl (s.stopResumes_health raised)⟩
    rcases s.stopResumes_cases raised with hsame | hstop
    · simpa only [step, hsame] using hw
    · have hevent : (s.step (.stopResumes raised)).stopEvent = s.stopEvent := hstop.stopEvent
      have hlistener : (s.step (.stopResumes raised)).listener = s.listener := hstop.listener
      simpa only [Manager.watching, listening, hevent, hlistener] using hw

/-! ### Its own steps -/

theorem setHealth_health {task : HealthLoop} (h : s.health.isSome = true) :
    (s.setHealth task).health = some task := by
  obtain ⟨session, hs⟩ : ∃ session, s.session = some session := by
    simpa [health, Option.isSome_iff_exists] using h
  simp [setHealth, withSession, health, hs]

/-- The health loop cuts the session, or has ended. -/
def Over (s : Manager cfg) : Prop := ∃ task, s.health = some task ∧
  ∀ cancelled, task ≠ .scheduled cancelled ∧ task ≠ .sleeping cancelled

theorem setHealth_over {task : HealthLoop} (h : s.health.isSome = true)
    (htask : ∀ cancelled, task ≠ .scheduled cancelled ∧ task ≠ .sleeping cancelled) :
    (s.setHealth task).Over := ⟨task, setHealth_health h, htask⟩

theorem healthKeepAliveEnded_over (h : s.health.isSome = true) (raised : Raised) :
    (s.healthKeepAliveEnded raised).Over := by
  unfold healthKeepAliveEnded healthDisconnect
  split
  · exact setHealth_over h (by split <;> simp)
  · exact setHealth_over h (by simp)

/-- A health loop that is cancelled, or over, is over after a step. -/
theorem healthResumes_over {task : HealthLoop} (h : s.health = some task)
    (htask : task ≠ .scheduled false ∧ task ≠ .sleeping false) (healthy : Bool)
    (raised : Option Raised) : (s.healthResumes healthy raised).Over := by
  have hsome : s.health.isSome = true := by rw [h]; rfl
  obtain ⟨session, hs, rfl⟩ := Option.map_eq_some_iff.mp h
  unfold healthResumes
  simp only [hs]
  split
  · exact setHealth_over hsome (by simp)
  · exact absurd ‹_› htask.1
  · exact setHealth_over hsome (by simp)
  · exact absurd ‹_› htask.2
  · split
    · exact ⟨_, h, by simp [*]⟩
    · exact healthKeepAliveEnded_over hsome _
  · split
    · refine setHealth_over ?_ (by simp)
      simp [health, closeSocket, withSession, hs]
    · exact setHealth_over hsome (by simp)
  · exact ⟨_, h, by simp [*]⟩

/-- The health loop goes to sleep, unless `stop()` is called. -/
theorem healthResumes_sleeps {healthy : Bool}
    (h : s.health = some (.scheduled false) ∨ s.health = some (.sleeping false) ∧ healthy = true)
    (raised : Option Raised) : (s.healthResumes healthy raised).health =
      some (if s.stopEvent then .ended none else .sleeping false) := by
  have hhead : s.health.isSome = true → s.healthLoopHead.health =
      some (if s.stopEvent then .ended none else .sleeping false) := setHealth_health
  rcases h with h | ⟨h, rfl⟩
  · have hsome : s.health.isSome = true := by rw [h]; rfl
    obtain ⟨session, hs, htask⟩ := Option.map_eq_some_iff.mp h
    simp only [healthResumes, hs, htask]
    exact hhead hsome
  · have hsome : s.health.isSome = true := by rw [h]; rfl
    obtain ⟨session, hs, htask⟩ := Option.map_eq_some_iff.mp h
    simp only [healthResumes, hs, htask, ↓reduceIte]
    exact hhead hsome

/-- **The health loop cuts a silent session.** -/
theorem healthResumes_cuts (h : s.health = some (.sleeping false)) (raised : Option Raised) :
    (s.healthResumes false raised).Over := by
  have hsome : s.health.isSome = true := by rw [h]; rfl
  obtain ⟨session, hs, htask⟩ := Option.map_eq_some_iff.mp h
  simp only [healthResumes, hs, htask, Bool.false_eq_true, ↓reduceIte]
  unfold healthCancelKeepAlive healthDisconnect
  split
  · split
    · exact ⟨.cancellingKeepAlive, rfl, by simp⟩
    · exact healthKeepAliveEnded_over hsome _
  · exact setHealth_over hsome (by split <;> simp)

end Manager

/-! ## The clock -/

namespace TimedManager

variable {cfg : WsConfig} (late : NNRat)

/-- When the health loop is to go on. -/
def wakesAt (s : TimedManager cfg) : Option Rat :=
  match s.manager.health with
  | some (.scheduled false) => some s.healthSince
  | some (.sleeping false) => some (s.healthSince + healthCheckIntervalSeconds)
  | _ => none

/-- The health loop goes on when its sleep is over, or `late` after that. -/
def Punctual (s : TimedManager cfg) : TimedOp → Prop
  | .pass seconds => ∀ due ∈ s.wakesAt, s.now + seconds ≤ due + late
  | .event _ => True

instance instDecidablePunctual : ∀ (s : TimedManager cfg) (op : TimedOp),
    Decidable (s.Punctual late op)
  | s, .pass seconds => inferInstanceAs (Decidable (∀ due ∈ s.wakesAt, s.now + seconds ≤ due + late))
  | _, .event _ => .isTrue trivial

/-- The longest silence. -/
def longest (s : TimedManager cfg) : Rat :=
  max s.watchdog.timeoutSeconds late + healthCheckIntervalSeconds + late

/-- A session that the listener listens to is not silent for longer while its health loop checks it.
The health loop leaves its checks to cut the session, after a silence longer than the timeout. -/
structure SilenceBounded (s : TimedManager cfg) : Prop where
  heard : s.manager.watching = true → ¬s.manager.Over → s.silence ≤ s.longest late
  ended : s.manager.watching = true → s.manager.Over → s.cutAfter.isSome = true
  cut : ∀ silence ∈ s.cutAfter, s.watchdog.timeoutSeconds < silence ∧ silence ≤ s.longest late

/-- The clock and the health loop. -/
structure Inv (s : TimedManager cfg) : Prop where
  activity : s.watchdog.lastActivity ≤ s.now
  scheduled : s.manager.health = some (.scheduled false) →
    s.healthSince ≤ s.watchdog.lastActivity ∧ s.now ≤ s.healthSince + late ∧ s.cutAfter = none
  sleeping : s.manager.health = some (.sleeping false) →
    s.healthSince ≤ s.watchdog.lastActivity + max s.watchdog.timeoutSeconds late ∧
      s.now ≤ s.healthSince + healthCheckIntervalSeconds + late ∧ s.cutAfter = none
  noSession : s.manager.health = none → s.manager.watching = false
  cancelled : s.manager.health = some (.scheduled true) ∨ s.manager.health = some (.sleeping true) →
    s.manager.watching = false
  ended : s.manager.Over → s.manager.watching = true → s.cutAfter.isSome = true
  cut : ∀ silence ∈ s.cutAfter, s.watchdog.timeoutSeconds < silence ∧ silence ≤ s.longest late

variable {late} {s : TimedManager cfg}

theorem Inv.bounded (h : s.Inv late) : s.SilenceBounded late := by
  refine ⟨fun hw hover => ?_, fun hw hover => h.ended hover hw, h.cut⟩
  have hlate : (0 : Rat) ≤ late := late.2
  have hmax : (0 : Rat) ≤ max s.watchdog.timeoutSeconds late := le_max_of_le_right hlate
  have hleft : ∀ {P : Prop}, s.manager.watching = false → P := fun hfalse =>
    absurd hw (by simp [hfalse])
  simp only [silence, SilenceWatchdog.elapsedSilence, longest, healthCheckIntervalSeconds]
  cases htask : s.manager.health with
  | none => exact hleft (h.noSession htask)
  | some task =>
    cases task with
    | scheduled cancelled =>
      cases cancelled with
      | true => exact hleft (h.cancelled (.inl htask))
      | false =>
        obtain ⟨hsince, hnow, -⟩ := h.scheduled htask
        linarith
    | sleeping cancelled =>
      cases cancelled with
      | true => exact hleft (h.cancelled (.inr htask))
      | false =>
        obtain ⟨hsince, hnow, -⟩ := h.sleeping htask
        rw [healthCheckIntervalSeconds] at hnow
        linarith
    | cancellingKeepAlive => exact absurd ⟨_, htask, by simp⟩ hover
    | disconnecting => exact absurd ⟨_, htask, by simp⟩ hover
    | ended raised => exact absurd ⟨_, htask, by simp⟩ hover

theorem inv_pass (h : s.Inv late) {seconds : NNRat} (hp : s.Punctual late (.pass seconds)) :
    (s.step (.pass seconds)).Inv late := by
  refine ⟨h.activity.trans (le_add_of_nonneg_right seconds.2), fun htask => ?_, fun htask => ?_,
    h.noSession, h.cancelled, h.ended, h.cut⟩
  · obtain ⟨hsince, -, hcut⟩ := h.scheduled htask
    have htask : s.manager.health = some (.scheduled false) := htask
    have hwakes : s.healthSince ∈ s.wakesAt := by simp [wakesAt, htask]
    exact ⟨hsince, hp _ hwakes, hcut⟩
  · obtain ⟨hsince, -, hcut⟩ := h.sleeping htask
    have htask : s.manager.health = some (.sleeping false) := htask
    have hwakes : s.healthSince + healthCheckIntervalSeconds ∈ s.wakesAt := by
      simp [wakesAt, htask]
    exact ⟨hsince, hp _ hwakes, hcut⟩

/-- A session begins: it is heard, and its health loop is about to start. -/
theorem inv_connects (hlistener : s.manager.listener = .handshake) :
    (s.step (.event .handshakeReturns)).Inv late := by
  have hs : s.step (.event .handshakeReturns) =
      { s.moves s.manager.connected with
        watchdog := s.watchdog.ping s.now
        healthSince := s.now
        cutAfter := none } := by
    simp only [step, isDue, observe, answered, Manager.step, hlistener, ↓reduceIte]
  have hlate : (0 : Rat) ≤ late := late.2
  rw [hs]
  refine ⟨le_refl s.now, fun _ => ⟨le_refl s.now, le_add_of_nonneg_right hlate, rfl⟩,
    by rintro ⟨⟩, by rintro ⟨⟩, by simp [Manager.health, moves, Manager.connected], ?_,
    by rintro _ ⟨⟩⟩
  rintro ⟨task, htask, hover⟩
  cases htask
  exact absurd rfl (hover false).1

/-- An event that is not of the health loop. -/
theorem Inv.healthStep (h : s.Inv late) {s' : TimedManager cfg}
    (hstep : s.manager.HealthStep s'.manager) (hnow : s'.now = s.now)
    (htimeout : s'.watchdog.timeoutSeconds = s.watchdog.timeoutSeconds)
    (hactivity : s'.watchdog.lastActivity = s.watchdog.lastActivity ∨
      s'.watchdog.lastActivity = s.now)
    (hsince : s'.healthSince = s.healthSince) (hcut : s'.cutAfter = s.cutAfter) : s'.Inv late := by
  have hheard : s.watchdog.lastActivity ≤ s'.watchdog.lastActivity := by
    rcases hactivity with hsame | hnow
    · exact hsame.ge
    · exact hnow ▸ h.activity
  have hleft : s.manager.watching = false → s'.manager.watching = false := fun hfalse => by
    by_contra hw
    rw [hstep.watching (by simpa using hw)] at hfalse
    cases hfalse
  -- a health loop that is there, and is not cancelled, was there before
  have hbefore : ∀ {task}, s'.manager.health = some task →
      s.manager.health = some task ∨ s'.manager.watching = false ∧ task = task.cancel := by
    intro task htask
    rcases hstep.task with hsame | ⟨hw, hnone | hcancel⟩
    · exact .inl (hsame ▸ htask)
    · rw [hnone] at htask
      cases htask
    · rw [hcancel, Option.map_eq_some_iff] at htask
      obtain ⟨before, -, rfl⟩ := htask
      refine .inr ⟨hw, ?_⟩
      cases before <;> rfl
  refine ⟨?_, fun htask => ?_, fun htask => ?_, fun hnone => ?_, fun htask => ?_,
    fun hover hw => ?_, ?_⟩
  · rw [hnow]
    rcases hactivity with hsame | hnow
    · exact hsame ▸ h.activity
    · exact hnow.le
  · rcases hbefore htask with htask | ⟨-, hcancel⟩
    · obtain ⟨hs, hn, hc⟩ := h.scheduled htask
      exact ⟨hsince ▸ hs.trans hheard, hnow ▸ hsince ▸ hn, hcut.trans hc⟩
    · cases hcancel
  · rcases hbefore htask with htask | ⟨-, hcancel⟩
    · obtain ⟨hs, hn, hc⟩ := h.sleeping htask
      rw [hsince, hnow, htimeout]
      exact ⟨hs.trans (by linarith), hn, hcut.trans hc⟩
    · cases hcancel
  · rcases hstep.task with hsame | ⟨hw, -⟩
    · exact hleft (h.noSession (hsame ▸ hnone))
    · exact hw
  · rcases hstep.task with hsame | ⟨hw, -⟩
    · exact hleft (h.cancelled (hsame ▸ htask))
    · exact hw
  · obtain ⟨task, htask, hover⟩ := hover
    rw [hcut]
    rcases hbefore htask with htask | ⟨hfalse, -⟩
    · exact h.ended ⟨task, htask, hover⟩ (hstep.watching hw)
    · rw [hw] at hfalse
      cases hfalse
  · rw [hcut, longest, htimeout]
    exact h.cut

/-- A session whose health loop is over. -/
theorem Inv.of_over (hover : s.manager.Over) (hactivity : s.watchdog.lastActivity ≤ s.now)
    (hsome : s.manager.watching = true → s.cutAfter.isSome = true)
    (hcut : ∀ silence ∈ s.cutAfter, s.watchdog.timeoutSeconds < silence ∧
      silence ≤ s.longest late) : s.Inv late := by
  obtain ⟨task, htask, hne⟩ := hover
  have hnot : ∀ {cancelled}, s.manager.health ≠ some (.scheduled cancelled) ∧
      s.manager.health ≠ some (.sleeping cancelled) := by
    intro cancelled
    rw [htask]
    simpa using hne cancelled
  refine ⟨hactivity, fun h => absurd h hnot.1, fun h => absurd h hnot.2, fun h => ?_, fun h => ?_,
    fun _ => hsome, hcut⟩
  · rw [htask] at h
    cases h
  · exact h.elim (absurd · hnot.1) (absurd · hnot.2)

/-- The state after a step of the health loop. -/
theorem step_healthResumes {healthy : Bool} {raised : Option Raised}
    (hdue : s.isDue (.healthResumes healthy raised) = true) :
    s.step (.event (.healthResumes healthy raised)) =
      { s.moves (s.manager.healthResumes (s.watchdog.checkHealth s.now) raised) with
        healthSince := s.now
        cutAfter := if s.cuts then some s.silence else s.cutAfter } := by
  simp only [step, hdue, ↓reduceIte, observe, answered, Manager.step]

/-- The health loop goes to sleep. -/
theorem Inv.sleeps (h : s.Inv late)
    (htask : s.manager.health = some (.scheduled false) ∨
      s.manager.health = some (.sleeping false) ∧ s.watchdog.checkHealth s.now = true)
    (hcut : s.cuts = false) (raised : Option Raised) :
    Inv late { s.moves (s.manager.healthResumes (s.watchdog.checkHealth s.now) raised) with
      healthSince := s.now
      cutAfter := if s.cuts then some s.silence else s.cutAfter } := by
  have hlate : (0 : Rat) ≤ late := late.2
  have hafter := s.manager.healthResumes_sleeps htask raised
  have hstep := s.manager.healthResumes_taskStep (s.watchdog.checkHealth s.now) raised
  -- what was heard when it went to sleep
  have hheard : s.now ≤ s.watchdog.lastActivity + max s.watchdog.timeoutSeconds late ∧
      s.cutAfter = none := by
    rcases htask with htask | ⟨htask, hcheck⟩
    · obtain ⟨hsince, hnow, hnone⟩ := h.scheduled htask
      have hmax := le_max_right s.watchdog.timeoutSeconds (late : Rat)
      exact ⟨by linarith, hnone⟩
    · have hcheck : s.now - s.watchdog.lastActivity ≤ s.watchdog.timeoutSeconds :=
        of_decide_eq_true hcheck
      have hmax := le_max_left s.watchdog.timeoutSeconds (late : Rat)
      exact ⟨by linarith, (h.sleeping htask).2.2⟩
  simp only [hcut, Bool.false_eq_true, ↓reduceIte]
  cases hstop : s.manager.stopEvent with
  | true =>
    rw [hstop, if_pos rfl] at hafter
    refine .of_over ⟨_, hafter, by simp⟩ h.activity (fun hw => ?_) h.cut
    have hevent : (s.manager.healthResumes (s.watchdog.checkHealth s.now) raised).stopEvent = true :=
      hstep.stopEvent.trans hstop
    have hw : (s.manager.healthResumes (s.watchdog.checkHealth s.now) raised).watching = true := hw
    simp [Manager.watching, hevent] at hw
  | false =>
    rw [hstop, if_neg (by simp)] at hafter
    have hsleeping : ∀ {task}, (s.manager.healthResumes (s.watchdog.checkHealth s.now)
        raised).health = some task → task = .sleeping false := fun he =>
      (Option.some.inj (hafter.symm.trans he)).symm
    refine ⟨h.activity, fun he => ?_, fun _ => ⟨hheard.1, ?_, hheard.2⟩, fun he => ?_, fun he => ?_,
      fun hover => ?_, h.cut⟩
    · cases hsleeping he
    · show s.now ≤ s.now + healthCheckIntervalSeconds + late
      rw [healthCheckIntervalSeconds]
      linarith
    · exact absurd (hafter.symm.trans he) (by simp)
    · rcases he with he | he <;> cases hsleeping he
    · obtain ⟨task, he, hne⟩ := hover
      exact absurd (hsleeping he) (hne false).2

theorem inv_health (h : s.Inv late) (healthy : Bool) (raised : Option Raised) :
    (s.step (.event (.healthResumes healthy raised))).Inv late := by
  cases hdue : s.isDue (.healthResumes healthy raised) with
  | false =>
    simp only [step, hdue, Bool.false_eq_true, ↓reduceIte]
    exact h
  | true =>
    rw [step_healthResumes hdue]
    have hstep := s.manager.healthResumes_taskStep (s.watchdog.checkHealth s.now) raised
    have hwatching : (s.manager.healthResumes (s.watchdog.checkHealth s.now) raised).watching =
        s.manager.watching := by
      simp only [Manager.watching, Manager.listening, hstep.listener, hstep.stopEvent]
    cases htask : s.manager.health with
    | none =>
      have hsession : s.manager.session = none := by simpa [Manager.health] using htask
      have hsame : s.manager.healthResumes (s.watchdog.checkHealth s.now) raised = s.manager := by
        simp only [Manager.healthResumes, hsession]
      have hcuts : s.cuts = false := by simp only [cuts, htask]
      have hnone : ∀ {task}, s.manager.health ≠ some task := by simp [htask]
      rw [hsame]
      simp only [hcuts, Bool.false_eq_true, ↓reduceIte]
      exact ⟨h.activity, fun he => absurd he hnone, fun he => absurd he hnone, h.noSession,
        fun he => he.elim (absurd · hnone) (absurd · hnone), h.ended, h.cut⟩
    | some task =>
      by_cases hsleeping : task = .sleeping false
      · subst hsleeping
        cases hcheck : s.watchdog.checkHealth s.now with
        | true =>
          have hsleeps := h.sleeps (.inr ⟨htask, hcheck⟩) (by simp [cuts, htask, hcheck]) raised
          rwa [hcheck] at hsleeps
        | false =>
          have hcuts : s.cuts = true := by simp [cuts, htask, hcheck]
          simp only [hcuts, ↓reduceIte]
          refine .of_over (s.manager.healthResumes_cuts htask raised) h.activity (fun _ => rfl) ?_
          rintro _ ⟨⟩
          have hsilent : ¬s.silence ≤ s.watchdog.timeoutSeconds := of_decide_eq_false hcheck
          obtain ⟨hsince, hnow, -⟩ := h.sleeping htask
          refine ⟨not_le.mp hsilent, ?_⟩
          show s.now - s.watchdog.lastActivity ≤
            max s.watchdog.timeoutSeconds late + healthCheckIntervalSeconds + late
          linarith
      · have hcuts : s.cuts = false := by
          simp only [cuts, htask]
          split
          · rename_i he
            exact absurd (Option.some.inj he) hsleeping
          · rfl
        by_cases hscheduled : task = .scheduled false
        · subst hscheduled
          exact h.sleeps (.inl htask) hcuts raised
        · simp only [hcuts, Bool.false_eq_true, ↓reduceIte]
          refine .of_over (Manager.healthResumes_over htask ⟨hscheduled, hsleeping⟩ _ raised)
            h.activity (fun hw => ?_) h.cut
          have hw : s.manager.watching = true := hwatching.symm.trans hw
          refine h.ended ⟨task, htask, fun cancelled => ?_⟩ hw
          cases cancelled with
          | false => exact ⟨hscheduled, hsleeping⟩
          | true =>
            constructor
            · rintro rfl
              rw [h.cancelled (.inl htask)] at hw
              cases hw
            · rintro rfl
              rw [h.cancelled (.inr htask)] at hw
              cases hw

/-- An event that is neither of the health loop nor a new connection. -/
theorem inv_event (h : s.Inv late) {event : WsEvent}
    (hhealth : ∀ healthy raised, event ≠ .healthResumes healthy raised)
    (hconnects : event = .handshakeReturns → s.manager.listener ≠ .handshake) :
    (s.step (.event event)).Inv late := by
  have hstep := s.manager.step_healthStep hhealth hconnects
  cases hdue : s.isDue event with
  | false =>
    simp only [step, hdue, Bool.false_eq_true, ↓reduceIte]
    exact h
  | true =>
    simp only [step, hdue, ↓reduceIte]
    cases event with
    | healthResumes healthy raised => exact absurd rfl (hhealth healthy raised)
    | handshakeReturns =>
      simp only [observe, if_neg (hconnects rfl)]
      exact h.healthStep hstep rfl rfl (.inl rfl) rfl rfl
    | nextMessage =>
      simp only [observe]
      split
      · exact h.healthStep hstep rfl rfl (.inl rfl) rfl rfl
      · exact h.healthStep hstep rfl rfl (.inr rfl) rfl rfl
    | _ => exact h.healthStep hstep rfl rfl (.inl rfl) rfl rfl

theorem inv_step (s : TimedManager cfg) (op : TimedOp) (h : s.Inv late)
    (hp : s.Punctual late op) : (s.step op).Inv late := by
  cases op with
  | pass seconds => exact inv_pass h hp
  | event event =>
    by_cases hconnects : event = .handshakeReturns ∧ s.manager.listener = .handshake
    · obtain ⟨rfl, hlistener⟩ := hconnects
      exact inv_connects hlistener
    · by_cases hhealth : ∃ healthy raised, event = .healthResumes healthy raised
      · obtain ⟨healthy, raised, rfl⟩ := hhealth
        exact inv_health h healthy raised
      · exact inv_event h (fun healthy raised he => hhealth ⟨healthy, raised, he⟩)
          fun he hlistener => hconnects ⟨he, hlistener⟩

theorem inv_new (timeoutSeconds : Rat) (positive : 0 < timeoutSeconds) (late : NNRat) :
    (new timeoutSeconds positive : TimedManager cfg).Inv late := by
  have hnone : (new timeoutSeconds positive : TimedManager cfg).manager.health = none := rfl
  have hnot : ∀ {task}, (new timeoutSeconds positive : TimedManager cfg).manager.health ≠
      some task := by simp [hnone]
  refine ⟨le_refl _, fun h => absurd h hnot, fun h => absurd h hnot, fun _ => rfl,
    fun h => h.elim (absurd · hnot) (absurd · hnot), fun hover => ?_, fun silence h => ?_⟩
  · obtain ⟨task, htask, -⟩ := hover
    exact absurd htask hnot
  · cases h

/-- **A silent session is cut**, and not before its time. -/
theorem silence_bounded (timeoutSeconds : Rat) (positive : 0 < timeoutSeconds) (late : NNRat)
    (ops : List TimedOp)
    (h : Run.Each step (Punctual late) (new timeoutSeconds positive : TimedManager cfg) ops) :
    Run.Always step (SilenceBounded late) (new timeoutSeconds positive : TimedManager cfg) ops :=
  (Run.always_of_each inv_step (inv_new timeoutSeconds positive late) h).mono fun _ => Inv.bounded

/-- A session that is heard once, and then no more. -/
def silentSession : List TimedOp :=
  [.event .anext, .event .handshakeReturns, .pass 1, .event (.healthResumes true none),
    .pass (5 : Nat), .event (.messageArrives []), .event .nextMessage,
    .event (.healthResumes true none), .event .anext, .pass (5 : Nat),
    .event (.healthResumes true none), .pass (6 : Nat), .event (.healthResumes true none)]

/-- With a timeout of ten seconds it is cut when it has been silent for eleven. -/
theorem silence_bounded_silent :
    Run.Always step (SilenceBounded 1) (new 10 (by decide) : TimedManager ⟨⟨none, 30⟩, false⟩)
        silentSession ∧
      (Run.exec step (new 10 (by decide) : TimedManager ⟨⟨none, 30⟩, false⟩) silentSession).cutAfter =
        some 11 :=
  ⟨silence_bounded 10 (by decide) 1 silentSession (by decide +kernel), by decide +kernel⟩

end TimedManager

end Leviathan
