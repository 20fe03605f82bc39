import Leviathan.Lib.Run
import Leviathan.Network.SessionSteps

/-!
# The retry budget

`start_connection_and_listen` counts its passes through the loop, and sets the count back where it
connects. A pass that has connected counts too, when its session is dropped.

* `budget_iff`: **the limit is reached after `max_retries` failed attempts in a row and not before,
  exactly in the runs in which no connection is followed by all but one of them.**
* `dropped_session_not_retried`: with one retry, no attempt follows a dropped session.
-/

namespace Leviathan

/-- The event begins a pass through the loop, or ends its handshake. -/
def WsEvent.attempts : WsEvent → Bool
  | .anext | .backoffEnds | .handshakeReturns | .handshakeRaises _ => true
  | _ => false

/-- Where a pass through the loop is. -/
inductive Leg where
  | notStarted
  /-- in the handshake -/
  | trying
  /-- the handshake is over, and the back-off is not -/
  | tried
  | ended
  deriving DecidableEq

def Listener.leg : Listener → Leg
  | .created => .notStarted
  | .handshake => .trying
  | .finished _ => .ended
  | _ => .tried

namespace Manager

variable {cfg : WsConfig} {s s' : Manager cfg}

/-! ## Attempts -/

def leg (s : Manager cfg) : Leg := s.listener.leg

theorem leg_of_listener {listener : Listener} (h : s.listener = listener) :
    s.leg = listener.leg := congrArg Listener.leg h

/-- A step in which no pass begins, and none connects or fails. -/
structure SameAttempt (s s' : Manager cfg) : Prop where
  attempt : s'.attempt = s.attempt
  connections : s'.connections = s.connections
  leg : s'.leg = s.leg ∨ s.leg = .tried ∧ s'.leg = .ended
  exceeded : s'.listener = .finished .maxRetriesExceeded →
    s.listener = .finished .maxRetriesExceeded

theorem SameAttempt.refl (s : Manager cfg) : s.SameAttempt s := ⟨rfl, rfl, .inl rfl, id⟩

theorem Bystander.sameAttempt (h : s.Bystander s') : s.SameAttempt s' where
  attempt := h.attempt
  connections := h.connections
  leg := .inl (leg_of_listener h.listener)
  exceeded := h.listener.symm.trans

/-- What the cleanup of a pass comes to. -/
structure CleanedUp (s s' : Manager cfg) : Prop where
  attempt : s'.attempt = s.attempt
  connections : s'.connections = s.connections
  leg : s'.leg = .tried ∨ s'.leg = .ended
  exceeded : s'.listener ≠ .finished .maxRetriesExceeded

theorem endSession_cleanedUp (s : Manager cfg) (pending : Option Raised) :
    s.CleanedUp (s.endSession pending) := by
  unfold endSession
  dsimp only
  split
  · exact ⟨rfl, rfl, .inr rfl, by simp [finish]⟩
  · split
    · have hstop : s.stopEvent = true := ‹_›
      refine ⟨?_, ?_, ?_, ?_⟩
      all_goals simp [loopHead, hstop, finish, Manager.leg, Listener.leg]
    · exact ⟨rfl, rfl, .inl rfl, by simp⟩

theorem CleansUp.cleanedUp {pending : Option Raised} (h : s.CleansUp pending s') :
    s.CleanedUp s' := by
  cases h with
  | waits session session' listener hs hws hlistener =>
    rcases hlistener with rfl | rfl
    · exact ⟨rfl, rfl, .inl rfl, by simp⟩
    · exact ⟨rfl, rfl, .inl rfl, by simp⟩
  | ends => exact s.endSession_cleanedUp pending
  | raises raised => exact ⟨rfl, rfl, .inr rfl, by simp [finish]⟩

theorem leaveTry_cleanedUp (s : Manager cfg) (raised : Option Raised) :
    s.CleanedUp (s.leaveTry raised) := (s.cancelHealth_cleansUp _).cleanedUp

theorem CleanedUp.sameAttempt (h : s.CleanedUp s') (htried : s.leg = .tried) :
    s.SameAttempt s' where
  attempt := h.attempt
  connections := h.connections
  leg := h.leg.imp (·.trans htried.symm) fun he => ⟨htried, he⟩
  exceeded he := absurd he h.exceeded

/-- The listener goes from a place behind the handshake to another. -/
theorem SameAttempt.goes (htried : s.leg = .tried) (hattempt : s'.attempt = s.attempt)
    (hconnections : s'.connections = s.connections) (hleg : s'.leg = .tried) :
    s.SameAttempt s' where
  attempt := hattempt
  connections := hconnections
  leg := .inl (hleg.trans htried.symm)
  exceeded he := by
    rw [leg_of_listener he] at hleg
    cases hleg

theorem nextMessage_sameAttempt (h : s.listener = .receiving) : s.SameAttempt s.nextMessage := by
  unfold nextMessage
  split
  · exact .refl s
  · split
    · exact .refl s
    · exact .goes (leg_of_listener h) rfl rfl rfl

theorem iterationEnds_sameAttempt (h : s.listener = .receiving) (raised : Option Raised) :
    s.SameAttempt (s.iterationEnds raised) := by
  unfold iterationEnds
  split
  · exact .goes (leg_of_listener h) rfl rfl rfl
  · exact .goes (leg_of_listener h) rfl rfl rfl
  · exact .goes (leg_of_listener h) rfl rfl rfl

/-- **The events that begin no pass and end no handshake.** -/
theorem step_sameAttempt (s : Manager cfg) {event : WsEvent} (h : event.attempts = false) :
    s.SameAttempt (s.step event) := by
  cases event with
  | anext | backoffEnds | handshakeReturns | handshakeRaises => cases h
  | abandonEnds raised =>
    simp only [step]
    split
    · exact (s.leaveTry_cleanedUp _).sameAttempt (leg_of_listener ‹_›)
    · exact .refl s
  | callbackReturns =>
    simp only [step]
    split
    · exact .goes (leg_of_listener ‹_›) rfl rfl rfl
    · exact .refl s
  | callbackRaises raised =>
    simp only [step]
    split
    · exact .goes (leg_of_listener ‹_›) rfl rfl rfl
    · exact .refl s
  | nextMessage =>
    simp only [step]
    split
    · exact nextMessage_sameAttempt ‹_›
    · exact .refl s
  | iterationEnds raised =>
    simp only [step]
    split
    · exact iterationEnds_sameAttempt ‹_› raised
    · exact .refl s
  | contextExits raised =>
    simp only [step]
    split
    · rename_i pending hlistener
      have hleg : s.closeSocket.leg = .tried := leg_of_listener (s := s) hlistener
      have hclean := (s.closeSocket.leaveTry_cleanedUp (raised <|> pending)).sameAttempt hleg
      exact ⟨hclean.attempt, hclean.connections, hclean.leg, hclean.exceeded⟩
    · exact .refl s
  | listenerResumes =>
    simp only [step]
    split
    · split
      · exact (s.cancelHealth_cleansUp _).cleanedUp.sameAttempt (leg_of_listener ‹_›)
      · exact .refl s
    · split
      · exact (s.cancelKeepAlive_cleansUp _).cleanedUp.sameAttempt (leg_of_listener ‹_›)
      · exact .refl s
    · exact .refl s
  | messageArrives message => exact (s.step_taskStep message false none).1.sameAttempt
  | socketCloses => exact (s.step_taskStep [] false none).2.1.sameAttempt
  | healthResumes healthy raised => exact (s.step_taskStep [] healthy raised).2.2.1.sameAttempt
  | keepAliveResumes raised => exact (s.step_taskStep [] false raised).2.2.2.sameAttempt
  | stop =>
    simp only [step]
    split
    · exact (s.requestStop_bystander.trans (stopCancelHealth_stopStep _).toBystander).sameAttempt
    · exact .refl s
  | stopResumes raised =>
    rcases s.stopResumes_cases raised with hsame | hstop
    · simp only [step, hsame]
      exact .refl s
    · exact hstop.sameAttempt

end Manager

/-! ## Runs -/

/-- A manager that gives up after `maxRetries`. -/
abbrev WsConfig.limited (maxRetries maxDelay : Nat) (onConnectCallback : Bool) : WsConfig :=
  ⟨⟨some maxRetries, maxDelay⟩, onConnectCallback⟩

/-- A manager, and the attempts that have failed since the start or the last connection. -/
structure Budgeted (cfg : WsConfig) where
  manager : Manager cfg
  failed : Nat

namespace Budgeted

variable {cfg : WsConfig}

def start : Budgeted cfg := ⟨.new, 0⟩

def step (s : Budgeted cfg) (event : WsEvent) : Budgeted cfg where
  manager := s.manager.step event
  failed :=
    match event with
    | .handshakeReturns => if s.manager.listener = .handshake then 0 else s.failed
    | .handshakeRaises _ => if s.manager.listener = .handshake then s.failed + 1 else s.failed
    | _ => s.failed

/-- The back-off of the listener ends, and nobody has called `stop`. -/
def Resumes (s : Budgeted cfg) (event : WsEvent) : Prop :=
  event = .backoffEnds ∧ (∃ delay, s.manager.listener = .backoff delay) ∧
    s.manager.stopEvent = false

/-- `MaxRetriesExceededError` comes after `maxRetries` failures in a row; before, another attempt
follows, and so it does where a session was dropped. -/
structure Budget (maxRetries : Nat) (s : Budgeted cfg) (event : WsEvent) : Prop where
  exceeded : (s.step event).manager.listener = .finished .maxRetriesExceeded →
    s.manager.listener = .finished .maxRetriesExceeded ∨ maxRetries ≤ s.failed
  retried : s.Resumes event → s.failed < maxRetries →
    (s.step event).manager.listener = .handshake

/-- No connection is followed by all the failures but one that the limit asks for. -/
def Spared (maxRetries : Nat) (s : Budgeted cfg) (event : WsEvent) : Prop :=
  s.Resumes event → s.manager.connections = 0 ∨ s.failed + 1 ≠ maxRetries

/-- What the manager counts: the failures, and one connection. -/
def spent (s : Budgeted cfg) : Nat := s.failed + if s.manager.connections = 0 then 0 else 1

/-- The count of the passes. -/
def Inv (maxRetries : Nat) (s : Budgeted cfg) : Prop :=
  match s.manager.leg with
  | .notStarted => s.manager.attempt = 0 ∧ s.spent = 0
  | .trying => s.manager.attempt = s.spent ∧ s.manager.attempt < maxRetries
  | .tried => s.manager.attempt + 1 = s.spent ∧ s.manager.attempt < maxRetries
  | .ended => True

variable {maxRetries maxDelay : Nat} {onConnectCallback : Bool}

theorem Inv.same {s : Budgeted cfg} {manager : Manager cfg} (h : s.Inv maxRetries)
    (hsame : s.manager.SameAttempt manager) :
    (⟨manager, s.failed⟩ : Budgeted cfg).Inv maxRetries := by
  have hspent : (⟨manager, s.failed⟩ : Budgeted cfg).spent = s.spent := by
    simp only [spent, hsame.connections]
  unfold Inv
  rcases hsame.leg with hleg | ⟨-, hended⟩
  · rw [hspent, hsame.attempt, hleg]
    exact h
  · simp only [hended]

/-- What the head of the loop does with the next pass. -/
theorem loopHead_cases (manager : Manager (.limited maxRetries maxDelay onConnectCallback)) :
    manager.stopEvent = true ∧ manager.loopHead = manager.finish .returned ∨
      manager.stopEvent = false ∧ manager.attempt < maxRetries ∧
        manager.loopHead = { manager with listener := .handshake } ∨
      manager.stopEvent = false ∧ maxRetries ≤ manager.attempt ∧
        manager.loopHead = { manager with stopEvent := true }.finish .maxRetriesExceeded := by
  unfold Manager.loopHead RetryPolicy.canRetry
  cases hstop : manager.stopEvent with
  | true => exact .inl ⟨rfl, by simp⟩
  | false =>
    rcases Nat.lt_or_ge manager.attempt maxRetries with hlt | hge
    · exact .inr (.inl ⟨rfl, hlt, by simp [hlt]⟩)
    · exact .inr (.inr ⟨rfl, hge, by simp [Nat.not_lt.mpr hge]⟩)

variable {s : Budgeted (.limited maxRetries maxDelay onConnectCallback)}

/-- A pass begins where the count is what is spent. -/
theorem inv_loopHead {manager : Manager (.limited maxRetries maxDelay onConnectCallback)}
    (h : manager.attempt = (⟨manager, s.failed⟩ : Budgeted _).spent) :
    (⟨manager.loopHead, s.failed⟩ : Budgeted _).Inv maxRetries := by
  rcases loopHead_cases manager with ⟨-, hhead⟩ | ⟨-, hlt, hhead⟩ | ⟨-, -, hhead⟩
  · rw [hhead]
    trivial
  · rw [hhead]
    exact ⟨h, hlt⟩
  · rw [hhead]
    trivial

/-- An attempt fails, or is given up with the listener. -/
theorem inv_failed {manager : Manager (.limited maxRetries maxDelay onConnectCallback)}
    (h : s.Inv maxRetries) (htrying : s.manager.leg = .trying)
    (hclean : s.manager.CleanedUp manager) :
    (⟨manager, s.failed + 1⟩ : Budgeted _).Inv maxRetries := by
  unfold Inv at h ⊢
  simp only [htrying] at h
  rcases hclean.leg with hleg | hleg
  · simp only [hleg, hclean.attempt]
    refine ⟨?_, h.2⟩
    rw [h.1]
    simp only [spent, hclean.connections]
    omega
  · simp only [hleg]

theorem inv_step (h : s.Inv maxRetries) (event : WsEvent) : (s.step event).Inv maxRetries := by
  cases event with
  | anext =>
    simp only [step, Manager.step]
    split
    · rename_i hlistener
      have hleg : s.manager.leg = .notStarted := Manager.leg_of_listener hlistener
      unfold Inv at h
      simp only [hleg] at h
      exact inv_loopHead (h.1.trans h.2.symm)
    · rename_i hlistener
      exact h.same (.goes (Manager.leg_of_listener hlistener) rfl rfl rfl)
    · exact h
  | backoffEnds =>
    simp only [step, Manager.step]
    split
    · rename_i delay hlistener
      have hleg : s.manager.leg = .tried := Manager.leg_of_listener hlistener
      unfold Inv at h
      simp only [hleg] at h
      exact inv_loopHead h.1
    · exact h
  | handshakeReturns =>
    simp only [step, Manager.step]
    split
    · rename_i hlistener
      have hleg : s.manager.leg = .trying := Manager.leg_of_listener hlistener
      have hconnected : s.manager.connected.leg = .tried := by
        unfold Manager.connected
        split <;> rfl
      unfold Inv at h ⊢
      simp only [hleg] at h
      simp only [hconnected]
      refine ⟨by simp [spent, Manager.connected], Nat.zero_lt_of_lt h.2⟩
    · exact h
  | handshakeRaises raised =>
    simp only [step, Manager.step]
    split
    · rename_i hlistener
      have hleg : s.manager.leg = .trying := Manager.leg_of_listener hlistener
      split
      · exact inv_failed h hleg ⟨rfl, rfl, .inl rfl, by simp⟩
      · exact inv_failed h hleg (s.manager.leaveTry_cleanedUp _)
    · exact h
  | _ => exact h.same (s.manager.step_sameAttempt rfl)

/-- The limit is not reached, but where a pass begins with the count at the limit. -/
theorem exceeded_of_step {event : WsEvent}
    (h : (s.step event).manager.listener = .finished .maxRetriesExceeded)
    (hnot : s.manager.listener ≠ .finished .maxRetriesExceeded) :
    event = .anext ∧ s.manager.listener = .created ∧ maxRetries ≤ s.manager.attempt ∨
      s.Resumes event ∧ maxRetries ≤ s.manager.attempt + 1 := by
  cases event with
  | anext =>
    simp only [step, Manager.step] at h
    split at h
    · left
      rcases loopHead_cases s.manager with ⟨-, hhead⟩ | ⟨-, -, hhead⟩ | ⟨-, hge, -⟩
      · rw [hhead] at h
        cases h
      · rw [hhead] at h
        cases h
      · exact ⟨rfl, ‹_›, hge⟩
    · cases h
    · exact absurd h hnot
  | backoffEnds =>
    simp only [step, Manager.step] at h
    split at h
    · right
      rename_i delay hlistener
      rcases loopHead_cases { s.manager with attempt := s.manager.attempt + 1 } with
        ⟨-, hhead⟩ | ⟨-, -, hhead⟩ | ⟨hstop, hge, -⟩
      · rw [hhead] at h
        cases h
      · rw [hhead] at h
        cases h
      · exact ⟨⟨rfl, ⟨delay, hlistener⟩, hstop⟩, hge⟩
    · exact absurd h hnot
  | handshakeReturns =>
    simp only [step, Manager.step] at h
    split at h
    · simp only [Manager.connected] at h
      split at h <;> cases h
    · exact absurd h hnot
  | handshakeRaises raised =>
    simp only [step, Manager.step] at h
    split at h
    · split at h
      · cases h
      · exact absurd h (s.manager.leaveTry_cleanedUp _).exceeded
    · exact absurd h hnot
  | _ => exact absurd ((s.manager.step_sameAttempt rfl).exceeded h) hnot

/-- Where a back-off ends, the count decides between the limit and another attempt. -/
theorem resumes_cases (h : s.Inv maxRetries) {event : WsEvent} (hresumes : s.Resumes event) :
    s.spent ≤ maxRetries ∧
      (s.spent < maxRetries ∧ (s.step event).manager.listener = .handshake ∨
        s.spent = maxRetries ∧
          (s.step event).manager.listener = .finished .maxRetriesExceeded) := by
  obtain ⟨rfl, ⟨delay, hlistener⟩, hstop⟩ := hresumes
  have hleg : s.manager.leg = .tried := Manager.leg_of_listener hlistener
  unfold Inv at h
  simp only [hleg] at h
  obtain ⟨hspent, hlt⟩ := h
  have hstep : (s.step .backoffEnds).manager =
      { s.manager with attempt := s.manager.attempt + 1 }.loopHead := by
    simp only [step, Manager.step]
    rw [hlistener]
  rw [hstep]
  refine ⟨by omega, ?_⟩
  rcases @loopHead_cases maxRetries maxDelay onConnectCallback
    { s.manager with attempt := s.manager.attempt + 1 } with
    ⟨hstopped, -⟩ | ⟨-, hless, hhead⟩ | ⟨-, hge, hhead⟩
  · rw [hstop] at hstopped
    cases hstopped
  · left
    rw [hhead]
    exact ⟨hspent ▸ hless, rfl⟩
  · right
    rw [hhead]
    exact ⟨Nat.le_antisymm (hspent ▸ hlt) (hspent ▸ hge), rfl⟩

/-- The limit comes too early exactly where a connection is followed by all the failures but one. -/
theorem budget_iff_spared (h : s.Inv maxRetries) (event : WsEvent) :
    Budget maxRetries s event ↔ Spared maxRetries s event := by
  by_cases hresumes : s.Resumes event
  · obtain ⟨hle, hcases⟩ := resumes_cases h hresumes
    have hnot : s.manager.listener ≠ .finished .maxRetriesExceeded := by
      obtain ⟨-, ⟨delay, hlistener⟩, -⟩ := hresumes
      simp [hlistener]
    have hspent : s.spent = s.failed + if s.manager.connections = 0 then 0 else 1 := rfl
    constructor
    · intro hbudget _
      by_cases hfirst : s.manager.connections = 0
      · exact .inl hfirst
      · rw [if_neg hfirst] at hspent
        right
        intro hlast
        rcases hcases with ⟨hless, -⟩ | ⟨-, hexceeded⟩
        · omega
        · have := (hbudget.exceeded hexceeded).resolve_left hnot
          omega
    · intro hspared
      have hspared := hspared hresumes
      have hfailed : s.spent = maxRetries → maxRetries ≤ s.failed := by
        intro heq
        rcases hspared with hfirst | hne
        · rw [if_pos hfirst] at hspent
          omega
        · split at hspent <;> omega
      refine ⟨?_, ?_⟩
      · intro hexceeded
        rcases hcases with ⟨-, hhandshake⟩ | ⟨heq, -⟩
        · rw [hhandshake] at hexceeded
          cases hexceeded
        · exact .inr (hfailed heq)
      · intro _ hless
        rcases hcases with ⟨-, hhandshake⟩ | ⟨heq, -⟩
        · exact hhandshake
        · exact absurd (hfailed heq) (Nat.not_le.mpr hless)
  · refine iff_of_true ⟨?_, fun h => absurd h hresumes⟩ fun h => absurd h hresumes
    intro hexceeded
    by_cases hnot : s.manager.listener = .finished .maxRetriesExceeded
    · exact .inl hnot
    right
    rcases exceeded_of_step hexceeded hnot with ⟨-, hcreated, hge⟩ | ⟨h, -⟩
    · have hleg : s.manager.leg = .notStarted := Manager.leg_of_listener hcreated
      unfold Inv at h
      simp only [hleg] at h
      omega
    · exact absurd h hresumes

theorem inv_start : (start : Budgeted cfg).Inv maxRetries := ⟨rfl, rfl⟩

/-- **The retry budget**: the limit is reached after `maxRetries` failed attempts in a row and not
before, exactly in the runs in which no connection is followed by all but one of them. -/
theorem budget_iff (maxRetries maxDelay : Nat) (onConnectCallback : Bool)
    (events : List WsEvent) :
    Run.Each step (Budget maxRetries)
        (start : Budgeted (.limited maxRetries maxDelay onConnectCallback)) events ↔
      Run.Each step (Spared maxRetries)
        (start : Budgeted (.limited maxRetries maxDelay onConnectCallback)) events :=
  @Run.each_iff _ _ step (Inv maxRetries) _ _ (fun _ event h => inv_step h event)
    (fun _ event h => budget_iff_spared h event) start inv_start events

/-- One retry, a session that is dropped, and the end of its back-off. -/
def droppedSession : List WsEvent :=
  [.anext, .handshakeReturns, .socketCloses, .iterationEnds (some .connectionClosed),
    .contextExits none, .healthResumes true none, .listenerResumes, .keepAliveResumes none,
    .listenerResumes, .backoffEnds]

/-- **With one retry, no attempt follows a dropped session.** -/
theorem dropped_session_not_retried :
    ¬Run.Each step (Budget 1) (start : Budgeted (.limited 1 30 false)) droppedSession := by
  rintro ⟨-, -, -, -, -, -, -, -, -, hlast, -⟩
  have hretried := hlast.retried ⟨rfl, ⟨1, by decide⟩, by decide⟩ (by decide)
  revert hretried
  decide

end Budgeted

end Leviathan
