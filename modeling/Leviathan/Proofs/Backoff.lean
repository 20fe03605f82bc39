import Leviathan.Network.TimedManager
import Leviathan.Proofs.RetryBudget
import Mathlib.Data.List.Chain
import Mathlib.Tactic.Linarith

/-!
# The back-off between two attempts

* `Delays`, `step_delays`: the listener waits for as long as the policy says.
* `PassStep`, `step_passStep`: the events that begin, connect, fail or end a pass.
* `Spaced`: an attempt follows another after `get_delay(k)`, with `k` the value of `attempt` when
  the other one ended: its number, or 0 when it had connected.
* `passes_spaced`: **this holds in every state of every run**.
-/

namespace Leviathan

namespace Manager

variable {cfg : WsConfig} {s s' : Manager cfg}

/-! ## The delay -/

def Delays (s : Manager cfg) : Prop :=
  ∀ delay, s.listener = .backoff delay → delay = cfg.retryPolicy.getDelay s.attempt

theorem Bystander.delays (h : s.Bystander s') (hs : s.Delays) : s'.Delays := by
  intro delay hlistener
  rw [h.attempt]
  exact hs delay (h.listener.symm.trans hlistener)

/-- The listener goes to another place. -/
theorem Delays.goes {listener : Listener} (h : s.listener = listener)
    (hlistener : ∀ delay, listener ≠ .backoff delay) : s.Delays :=
  fun delay hdelay => absurd (h.symm.trans hdelay) (hlistener delay)

theorem finish_delays (s : Manager cfg) (how : ListenerEnd) : (s.finish how).Delays := by
  rintro delay ⟨⟩

theorem loopHead_delays (s : Manager cfg) : s.loopHead.Delays := by
  unfold loopHead
  split
  · exact finish_delays s _
  · split
    · exact .goes rfl (by simp)
    · exact finish_delays _ _

theorem CleansUp.delays {pending : Option Raised} (h : s.CleansUp pending s') : s'.Delays := by
  cases h with
  | waits session session' listener hs hws hlistener =>
    rcases hlistener with rfl | rfl
    · exact .goes rfl (by simp)
    · exact .goes rfl (by simp)
  | raises raised => exact finish_delays s _
  | ends =>
    unfold endSession
    dsimp only
    split
    · exact finish_delays _ _
    · split
      · exact loopHead_delays _
      · rintro delay ⟨⟩
        rfl

theorem nextMessage_delays (h : s.Delays) : s.nextMessage.Delays := by
  unfold nextMessage
  split
  · exact h
  · split
    · exact h
    · exact .goes rfl (by simp)

theorem iterationEnds_delays (s : Manager cfg) (raised : Option Raised) :
    (s.iterationEnds raised).Delays := by
  unfold iterationEnds
  split
  · exact .goes rfl (by simp)
  · exact .goes rfl (by simp)
  · exact .goes rfl (by simp)

/-- **The listener waits for as long as the policy says.** -/
theorem step_delays (h : s.Delays) (event : WsEvent) : (s.step event).Delays := by
  cases event with
  | anext =>
    simp only [step]
    split
    · exact s.loopHead_delays
    · exact .goes rfl (by simp)
    · exact h
  | handshakeReturns =>
    simp only [step]
    split
    · refine .goes rfl fun delay => ?_
      unfold connected
      split <;> simp
    · exact h
  | handshakeRaises raised =>
    simp only [step]
    split
    · split
      · exact .goes rfl (by simp)
      · exact (s.cancelHealth_cleansUp _).delays
    · exact h
  | abandonEnds raised =>
    simp only [step]
    split
    · exact (s.cancelHealth_cleansUp _).delays
    · exact h
  | callbackReturns | callbackRaises =>
    simp only [step]
    split
    · exact .goes rfl (by simp)
    · exact h
  | nextMessage =>
    simp only [step]
    split
    · exact nextMessage_delays h
    · exact h
  | iterationEnds raised =>
    simp only [step]
    split
    · exact s.iterationEnds_delays raised
    · exact h
  | contextExits raised =>
    simp only [step]
    split
    · exact (s.closeSocket.cancelHealth_cleansUp _).delays
    · exact h
  | listenerResumes =>
    simp only [step]
    split
    · split
      · exact (s.cancelHealth_cleansUp _).delays
      · exact h
    · split
      · exact (s.cancelKeepAlive_cleansUp _).delays
      · exact h
    · exact h
  | backoffEnds =>
    simp only [step]
    split
    · exact loopHead_delays _
    · exact h
  | messageArrives message => exact (s.step_taskStep message false none).1.delays h
  | socketCloses => exact (s.step_taskStep [] false none).2.1.delays h
  | healthResumes healthy raised => exact (s.step_taskStep [] healthy raised).2.2.1.delays h
  | keepAliveResumes raised => exact (s.step_taskStep [] false raised).2.2.2.delays h
  | stop =>
    simp only [step]
    split
    · exact (s.requestStop_bystander.trans (stopCancelHealth_stopStep _).toBystander).delays h
    · exact h
  | stopResumes raised =>
    rcases s.stopResumes_cases raised with hsame | hstop
    · simpa only [step, hsame] using h
    · exact hstop.delays h

/-! ## Passes -/

/-- What an event does to the pass that the listener is in. -/
inductive PassStep (s : Manager cfg) : WsEvent → Manager cfg → Prop where
  | same {event : WsEvent} {s' : Manager cfg} (h : s.SameAttempt s') : PassStep s event s'
  | begins {event : WsEvent} {s' : Manager cfg} (hlistener : s'.listener = .handshake)
      (hallowed : cfg.retryPolicy.canRetry s'.attempt = true)
      (hconnections : s'.connections = s.connections)
      (hfrom : s.listener = .created ∧ s'.attempt = s.attempt ∨ event = .backoffEnds ∧
        s.stopEvent = false ∧ (∃ delay, s.listener = .backoff delay) ∧ s'.attempt = s.attempt + 1) :
      PassStep s event s'
  | connects {event : WsEvent} {s' : Manager cfg} (htrying : s.leg = .trying) (htried : s'.leg = .tried)
      (hattempt : s'.attempt = 0) (hconnections : s'.connections = s.connections + 1) :
      PassStep s event s'
  | fails {event : WsEvent} {s' : Manager cfg} (htrying : s.leg = .trying) (h : s.CleanedUp s') :
      PassStep s event s'
  | ends {event : WsEvent} {s' : Manager cfg} (hended : s'.leg = .ended) : PassStep s event s'

/-- The head of the loop begins a pass, or ends the listener. -/
theorem loopHead_begins (s : Manager cfg) :
    s.loopHead.leg = .ended ∨
      s.stopEvent = false ∧ cfg.retryPolicy.canRetry s.attempt = true ∧
        s.loopHead = { s with listener := .handshake } := by
  unfold loopHead
  split
  · exact .inl rfl
  · rename_i hstop
    split
    · exact .inr ⟨eq_false_of_ne_true hstop, ‹_›, rfl⟩
    · exact .inl rfl

theorem step_passStep (s : Manager cfg) (event : WsEvent) : s.PassStep event (s.step event) := by
  cases event with
  | anext =>
    simp only [step]
    split
    · rename_i hlistener
      rcases s.loopHead_begins with hended | ⟨-, hallowed, hhead⟩
      · exact .ends hended
      · rw [hhead]
        exact .begins rfl hallowed rfl (.inl ⟨hlistener, rfl⟩)
    · exact .same (.goes (leg_of_listener ‹_›) rfl rfl rfl)
    · exact .same (.refl s)
  | backoffEnds =>
    simp only [step]
    split
    · rename_i delay hlistener
      rcases loopHead_begins { s with attempt := s.attempt + 1 } with hended | ⟨hstop, hallowed, hhead⟩
      · exact .ends hended
      · rw [hhead]
        exact .begins rfl hallowed rfl (.inr ⟨rfl, hstop, ⟨delay, hlistener⟩, rfl⟩)
    · exact .same (.refl s)
  | handshakeReturns =>
    simp only [step]
    split
    · refine .connects (leg_of_listener ‹_›) ?_ rfl rfl
      unfold connected
      split <;> rfl
    · exact .same (.refl s)
  | handshakeRaises raised =>
    simp only [step]
    split
    · have hleg : s.leg = .trying := leg_of_listener ‹_›
      split
      · exact .fails hleg ⟨rfl, rfl, .inl rfl, by simp⟩
      · exact .fails hleg (s.leaveTry_cleanedUp _)
    · exact .same (.refl s)
  | _ => exact .same (s.step_sameAttempt rfl)

end Manager

/-! ## The clock -/

namespace TimedManager

variable {cfg : WsConfig}

/-- One pass follows another. With `k` the value of `attempt` when the first one ends (its number,
or 0 when it has connected), the loop waits for `get_delay(k)` and the next pass is number `k + 1`.
-/
structure Follows (cfg : WsConfig) (pass next : Pass) : Prop where
  attempt : next.attempt = if next.connections = pass.connections then pass.attempt + 1 else 1
  connections : next.connections = pass.connections ∨ next.connections = pass.connections + 1
  began : pass.began + (cfg.retryPolicy.getDelay (next.attempt - 1) : Rat) ≤ next.began

structure Spaced (s : TimedManager cfg) : Prop where
  first : ∀ pass ∈ s.passes.head?, pass.attempt = 0
  follows : s.passes.IsChain (Follows cfg)
  allowed : ∀ pass ∈ s.passes, cfg.retryPolicy.canRetry pass.attempt = true

/-- The listener is in the pass, and may have connected in it. -/
def InPass (manager : Manager cfg) (pass : Pass) : Prop :=
  manager.attempt = pass.attempt ∧ manager.connections = pass.connections ∨
    manager.leg = .tried ∧ manager.attempt = 0 ∧ manager.connections = pass.connections + 1

structure Paced (s : TimedManager cfg) : Prop where
  since : s.listenerSince ≤ s.now
  delays : s.manager.Delays
  spaced : s.Spaced
  notStarted : s.manager.leg = .notStarted → s.passes = [] ∧ s.manager.attempt = 0
  within : s.manager.leg = .trying ∨ s.manager.leg = .tried →
    ∃ pass ∈ s.passes.getLast?, pass.began ≤ s.listenerSince ∧ InPass s.manager pass

variable {s : TimedManager cfg} {manager : Manager cfg}

theorem Paced.of_eq {s' : TimedManager cfg} (h : s.Paced) (hmanager : s'.manager = s.manager)
    (hnow : s.now ≤ s'.now) (hsince : s'.listenerSince = s.listenerSince)
    (hpasses : s'.passes = s.passes) : s'.Paced := by
  obtain ⟨hnotLater, hdelays, ⟨hfirst, hfollows, hallowed⟩, hnotStarted, hwithin⟩ := h
  rw [← hpasses] at hfirst hfollows hallowed hnotStarted hwithin
  rw [← hmanager] at hdelays hnotStarted hwithin
  rw [← hsince] at hnotLater hwithin
  exact ⟨hnotLater.trans hnow, hdelays, ⟨hfirst, hfollows, hallowed⟩, hnotStarted, hwithin⟩

/-- The listener is where it was, or has come there now. -/
theorem listenerSince_moves (h : s.listenerSince ≤ s.now) (manager : Manager cfg) :
    s.listenerSince ≤ (s.moves manager).listenerSince ∧ (s.moves manager).listenerSince ≤ s.now := by
  simp only [moves]
  split
  · exact ⟨le_refl _, h⟩
  · exact ⟨h, le_refl _⟩

/-- **A step in which the listener begins no pass.** -/
theorem Paced.keeps (h : s.Paced) (hdelays : manager.Delays)
    (hbegins : manager.leg = .trying → s.manager.leg = .trying)
    (hnotStarted : manager.leg = .notStarted →
      s.manager.leg = .notStarted ∧ manager.attempt = s.manager.attempt)
    (hwithin : manager.leg = .trying ∨ manager.leg = .tried →
      (s.manager.leg = .trying ∨ s.manager.leg = .tried) ∧
        ∀ pass, InPass s.manager pass → InPass manager pass) : (s.moves manager).Paced := by
  have hpasses : (s.moves manager).passes = s.passes := by
    refine if_neg fun ⟨hlistener, hnot⟩ => hnot ?_
    have htrying := hbegins (Manager.leg_of_listener hlistener)
    simp only [Manager.leg] at htrying
    revert htrying
    cases s.manager.listener <;> simp [Listener.leg]
  obtain ⟨hsince, hnow⟩ := listenerSince_moves h.since manager
  obtain ⟨hfirst, hfollows, hallowed⟩ := h.spaced
  refine ⟨hnow, hdelays, ?_, fun hleg => ?_, fun hleg => ?_⟩
  · rw [← hpasses] at hfirst hfollows hallowed
    exact ⟨hfirst, hfollows, hallowed⟩
  · obtain ⟨hleg, hattempt⟩ := hnotStarted hleg
    obtain ⟨hnil, hzero⟩ := h.notStarted hleg
    exact ⟨hpasses.trans hnil, hattempt.trans hzero⟩
  · obtain ⟨hleg, hin⟩ := hwithin hleg
    obtain ⟨pass, hlast, hbegan, hpass⟩ := h.within hleg
    rw [hpasses]
    exact ⟨pass, hlast, hbegan.trans hsince, hin pass hpass⟩

/-- **A pass begins**, where the listener is due. -/
theorem Paced.begins (h : s.Paced) {event : WsEvent} (hdue : s.isDue event = true)
    (hdelays : manager.Delays) (hlistener : manager.listener = .handshake)
    (hallowed : cfg.retryPolicy.canRetry manager.attempt = true)
    (hconnections : manager.connections = s.manager.connections)
    (hfrom : s.manager.listener = .created ∧ manager.attempt = s.manager.attempt ∨
      event = .backoffEnds ∧ s.manager.stopEvent = false ∧
        (∃ delay, s.manager.listener = .backoff delay) ∧ manager.attempt = s.manager.attempt + 1) :
    (s.moves manager).Paced := by
  have hnot : s.manager.listener ≠ .handshake := by
    rcases hfrom with ⟨hcreated, -⟩ | ⟨-, -, ⟨delay, hbackoff⟩, -⟩
    · simp [hcreated]
    · simp [hbackoff]
  have hpasses : (s.moves manager).passes =
      s.passes ++ [⟨s.now, manager.attempt, manager.connections⟩] := if_pos ⟨hlistener, hnot⟩
  have hsince : (s.moves manager).listenerSince = s.now :=
    if_neg fun hsame => hnot (hsame.symm.trans hlistener)
  have hleg : manager.leg = .trying := Manager.leg_of_listener hlistener
  -- the pass before, when there is one
  have hfollows : (∀ pass ∈ s.passes.getLast?,
      Follows cfg pass ⟨s.now, manager.attempt, manager.connections⟩) ∧
        (s.passes = [] → manager.attempt = 0) := by
    rcases hfrom with ⟨hcreated, hattempt⟩ | ⟨rfl, hstop, ⟨delay, hbackoff⟩, hattempt⟩
    · obtain ⟨hnil, hzero⟩ := h.notStarted (Manager.leg_of_listener hcreated)
      rw [hnil]
      exact ⟨by simp, fun _ => hattempt.trans hzero⟩
    · obtain ⟨last, hlast, hbegan, hin⟩ := h.within (.inr (Manager.leg_of_listener hbackoff))
      have hwaited : s.listenerSince + (delay : Rat) ≤ s.now := by
        simpa [isDue, hbackoff, hstop] using hdue
      have hdelay := h.delays delay hbackoff
      refine ⟨fun pass hpass => ?_, fun hnil => by simp [hnil] at hlast⟩
      obtain rfl := Option.mem_unique hlast hpass
      have hspace : last.began + (cfg.retryPolicy.getDelay (manager.attempt - 1) : Rat) ≤ s.now := by
        rw [hattempt, Nat.add_sub_cancel, ← hdelay]
        linarith
      rcases hin with ⟨hsame, hunconnected⟩ | ⟨-, hzero, hconnected⟩
      · have heq := hconnections.trans hunconnected
        exact ⟨by rw [if_pos heq, hattempt, hsame], .inl heq, hspace⟩
      · have heq := hconnections.trans hconnected
        exact ⟨by rw [if_neg (by simp only [heq]; omega), hattempt, hzero], .inr heq, hspace⟩
  obtain ⟨hfirst, hchain, hbefore⟩ := h.spaced
  refine ⟨hsince.le, hdelays, ⟨?_, ?_, ?_⟩, fun hcreated => ?_, fun _ => ?_⟩
  · rw [hpasses]
    intro pass hpass
    cases hs : s.passes with
    | nil =>
      rw [hs] at hpass
      cases hpass
      exact hfollows.2 hs
    | cons head rest =>
      rw [hs] at hpass
      exact hfirst pass (by rw [hs]; exact hpass)
  · rw [hpasses, List.isChain_append]
    refine ⟨hchain, .singleton _, fun pass hpass next hnext => ?_⟩
    cases hnext
    exact hfollows.1 pass hpass
  · rw [hpasses]
    intro pass hpass
    rcases List.mem_append.mp hpass with hpass | hpass
    · exact hbefore pass hpass
    · cases List.mem_singleton.mp hpass
      exact hallowed
  · rw [show (s.moves manager).manager = manager from rfl, hleg] at hcreated
    cases hcreated
  · rw [hpasses, hsince]
    exact ⟨_, List.getLast?_concat, le_refl _, .inl ⟨rfl, rfl⟩⟩

theorem paced_moves (h : s.Paced) {event : WsEvent} (hdue : s.isDue event = true)
    (hdelays : manager.Delays) (hstep : s.manager.PassStep event manager) :
    (s.moves manager).Paced := by
  cases hstep with
  | same hsame =>
    refine h.keeps hdelays (fun hleg => ?_) (fun hleg => ?_) fun hleg => ?_
    · rcases hsame.leg with heq | ⟨-, hended⟩
      · exact heq.symm.trans hleg
      · rw [hleg] at hended
        cases hended
    · rcases hsame.leg with heq | ⟨-, hended⟩
      · exact ⟨heq.symm.trans hleg, hsame.attempt⟩
      · rw [hleg] at hended
        cases hended
    · rcases hsame.leg with heq | ⟨-, hended⟩
      · rw [heq] at hleg
        refine ⟨hleg, fun pass hin => ?_⟩
        unfold InPass at hin ⊢
        rwa [hsame.attempt, hsame.connections, heq]
      · rw [hended] at hleg
        rcases hleg with hleg | hleg
        · cases hleg
        · cases hleg
  | begins hlistener hallowed hconnections hfrom =>
    exact h.begins hdue hdelays hlistener hallowed hconnections hfrom
  | connects htrying htried hattempt hconnections =>
    refine h.keeps hdelays (fun _ => htrying) (fun hleg => ?_) fun _ => ⟨.inl htrying, ?_⟩
    · rw [htried] at hleg
      cases hleg
    · rintro pass (⟨-, hsame⟩ | ⟨hnot, -⟩)
      · exact .inr ⟨htried, hattempt, by rw [hconnections, hsame]⟩
      · rw [htrying] at hnot
        cases hnot
  | fails htrying hclean =>
    refine h.keeps hdelays (fun _ => htrying) (fun hleg => ?_) fun _ => ⟨.inl htrying, ?_⟩
    · rcases hclean.leg with heq | heq
      · rw [heq] at hleg
        cases hleg
      · rw [heq] at hleg
        cases hleg
    · rintro pass (⟨hattempt, hconnections⟩ | ⟨hnot, -⟩)
      · exact .inl ⟨hclean.attempt.trans hattempt, hclean.connections.trans hconnections⟩
      · rw [htrying] at hnot
        cases hnot
  | ends hended =>
    refine h.keeps hdelays (fun hleg => ?_) (fun hleg => ?_) fun hleg => ?_
    · rw [hended] at hleg
      cases hleg
    · rw [hended] at hleg
      cases hleg
    · rw [hended] at hleg
      rcases hleg with hleg | hleg
      · cases hleg
      · cases hleg

/-- The watchdog has no part in it. -/
theorem paced_observe {after : TimedManager cfg} (h : after.Paced) (event : WsEvent) :
    (s.observe event after).Paced := by
  unfold observe
  split
  · split
    · exact h.of_eq rfl (le_refl _) rfl rfl
    · exact h
  · split
    · exact h
    · exact h.of_eq rfl (le_refl _) rfl rfl
  · exact h.of_eq rfl (le_refl _) rfl rfl
  · exact h

theorem paced_step (s : TimedManager cfg) (op : TimedOp) (h : s.Paced) : (s.step op).Paced := by
  cases op with
  | pass seconds => exact h.of_eq rfl (le_add_of_nonneg_right seconds.2) rfl rfl
  | event event =>
    simp only [step]
    split
    · rename_i hdue
      have hdue : s.isDue (s.answered event) = true := by
        unfold answered
        split
        · exact hdue
        · exact hdue
      exact paced_observe (paced_moves h hdue (Manager.step_delays h.delays _)
        (s.manager.step_passStep _)) event
    · exact h

/-- **No attempt comes before its time.** -/
theorem passes_spaced (timeoutSeconds : Rat) (positive : 0 < timeoutSeconds) (ops : List TimedOp) :
    Run.Always step Spaced (new timeoutSeconds positive : TimedManager cfg) ops := by
  have hstart : (new timeoutSeconds positive : TimedManager cfg).Paced := by
    refine ⟨le_refl _, by rintro delay ⟨⟩, ⟨by simp [new], .nil, by simp [new]⟩,
      fun _ => ⟨rfl, rfl⟩, ?_⟩
    rintro (hleg | hleg)
    · cases hleg
    · cases hleg
  exact (Run.always_of_step paced_step hstart ops).mono fun _ => Paced.spaced

/-- A handshake that fails twice. The first try to end the back-off comes too soon. -/
def twoFailures : List TimedOp :=
  [.event .anext, .event (.handshakeRaises .exception), .event (.abandonEnds none),
    .event .backoffEnds, .pass 1, .event .backoffEnds, .event (.handshakeRaises .exception),
    .event (.abandonEnds none), .pass (2 : Nat), .event .backoffEnds]

theorem passes_spaced_failures :
    Run.Always step Spaced (new 60 (by decide) : TimedManager ⟨⟨none, 30⟩, false⟩) twoFailures ∧
      (Run.exec step (new 60 (by decide) : TimedManager ⟨⟨none, 30⟩, false⟩)
        twoFailures).passes.map Pass.began = [0, 1, 3] :=
  ⟨passes_spaced 60 (by decide) twoFailures, by decide +kernel⟩

end TimedManager

end Leviathan
