import Leviathan.Exchanges.BaseStream
import Leviathan.Network.ListenerPhase

/-!
# What is subscribed at the exchange

Symbols are subscribed and unsubscribed at any time, over any number of sessions, with the protocol
of Bitget: `registry_is_subscribed`.

The requests of a session are those that are at the exchange and those on their way. Once
`_resubscribe_all` has sent its own, they come to the set of the registry (`Settled`): a change of
the registry sends its request at once, unless the session is dead, and a dead session stays dead.
-/

namespace Leviathan

open Py BitgetSubscriptionProtocol

namespace BaseExchangeStream

variable {retryPolicy : RetryPolicy} {policy : LivenessPolicy}

/-- The symbols that are subscribed in the session. -/
def subscribed (s : BaseExchangeStream retryPolicy policy) : Finset Str :=
  s.received.foldl readRequest ∅

/-- The symbols that are subscribed when all requests are at the exchange. -/
def settled (s : BaseExchangeStream retryPolicy policy) : Finset Str :=
  (s.received ++ s.wire).foldl readRequest ∅

/-- What the requests of a session that lives come to. -/
def Settled (s : BaseExchangeStream retryPolicy policy) : Prop :=
  match s.connectStage with
  | .idle | .failed => True
  | .notifying => s.settled ⊆ s.registry.toFinset
  | .resubscribing _ | .completed => s.settled = s.registry.toFinset

/-- A session that lives is settled. -/
def Inv (s : BaseExchangeStream retryPolicy policy) : Prop :=
  s.manager.isConnected = true → s.Settled

variable {s s' : BaseExchangeStream retryPolicy policy}

theorem inv_new (registry : SubscriptionRegistry) :
    (new registry : BaseExchangeStream retryPolicy policy).Inv := nofun

/-- What neither connects nor touches the registry and the requests. -/
theorem Inv.same (h : s.Inv) (hconnected : s'.manager.isConnected = true → s.manager.isConnected = true)
    (hregistry : s'.registry = s.registry) (hstage : s'.connectStage = s.connectStage)
    (hwire : s'.wire = s.wire) (hreceived : s'.received = s.received) : s'.Inv := by
  intro hc
  have hsettled := h (hconnected hc)
  unfold Settled settled at hsettled ⊢
  rw [hregistry, hstage, hwire, hreceived]
  exact hsettled

theorem confirmed_same (s : BaseExchangeStream retryPolicy policy) (now : Rat)
    (call : Option ConfirmationCall) :
    (s.confirmed now call).manager = s.manager ∧ (s.confirmed now call).registry = s.registry ∧
      (s.confirmed now call).connectStage = s.connectStage ∧
      (s.confirmed now call).wire = s.wire ∧ (s.confirmed now call).received = s.received := by
  unfold confirmed
  split <;> exact ⟨rfl, rfl, rfl, rfl, rfl⟩

theorem Inv.confirm (h : s.Inv) (op : ConfirmingOp) (now : Rat) : (s.confirm op now).Inv := by
  obtain ⟨hmanager, hregistry, hstage, hwire, hreceived⟩ :=
    confirmed_same { s with confirmations := s.confirmations.step op } now
      (s.confirmations.callback op)
  exact h.same (fun hc => by rwa [BaseExchangeStream.confirm, hmanager] at hc) hregistry hstage hwire
    hreceived

/-! ## Events -/

/-- An event that is no handshake. -/
theorem Inv.manager (h : s.Inv) {event : WsEvent} (hevent : event ≠ .handshakeReturns) :
    ({ s with manager := s.manager.step event } : BaseExchangeStream retryPolicy policy).Inv :=
  h.same (fun hc => Manager.step_isConnected hevent hc) rfl rfl rfl rfl

theorem Inv.event (h : s.Inv) (parse : Str → Except PyError (Option ParsedMessage))
    (event : WsEvent) (now : Rat) : (s.stepEvent parse event now).Inv := by
  cases event with
  | handshakeReturns =>
    simp only [stepEvent]
    split
    · intro _
      exact Finset.empty_subset _
    · rename_i hlistener
      refine h.same ?_ rfl rfl rfl rfl
      simp only [Manager.step, hlistener, ↓reduceIte]
      exact id
  | nextMessage =>
    have hnext : ({ s with manager := s.manager.step .nextMessage } :
        BaseExchangeStream retryPolicy policy).Inv := h.manager (by simp)
    simp only [stepEvent]
    split
    · exact hnext
    · unfold processMessage
      split
      · exact hnext
      · exact hnext.confirm _ now
  | callbackReturns => exact h
  | callbackRaises raised => exact h
  | anext | handshakeRaises | abandonEnds | messageArrives | socketCloses | iterationEnds |
    contextExits | listenerResumes | backoffEnds | healthResumes | keepAliveResumes | stop |
    stopResumes => exact h.manager (by simp)

/-! ## Requests -/

theorem send_manager (s : BaseExchangeStream retryPolicy policy) (payload : Json) :
    (s.send payload).1.manager = s.manager := by
  unfold send
  split <;> rfl

/-- A session that is connected takes the request. -/
theorem send_settled (s : BaseExchangeStream retryPolicy policy) (payload : Json)
    (hconnected : (s.send payload).1.manager.isConnected = true) :
    (s.send payload).2 = none ∧
      (s.send payload).1.settled = readRequest s.settled payload ∧
      (s.send payload).1.registry = s.registry ∧
      (s.send payload).1.connectStage = s.connectStage := by
  unfold send at hconnected ⊢
  split at hconnected
  · rename_i hc
    simp only [hc, ↓reduceIte, settled, ← List.append_assoc, List.foldl_append, List.foldl_cons,
      List.foldl_nil, and_self]
  · rename_i hc
    exact absurd hconnected hc

theorem Inv.reaches (h : s.Inv) : s.reaches.Inv := by
  unfold BaseExchangeStream.reaches
  split
  · exact h
  · rename_i payload wire hwire
    intro hc
    have hsettled := h hc
    unfold Settled settled at hsettled ⊢
    simp only [hwire, List.append_assoc, List.singleton_append] at hsettled ⊢
    exact hsettled

/-- A change of the registry that is sent with the same change of what is subscribed: `act` is the
union or the difference. -/
theorem Inv.change (h : s.Inv) {act : Finset Str → Finset Str → Finset Str}
    {format : List Str → Except PyError Json}
    {result : Except PyError (SubscriptionRegistry × List Str)}
    (hformat : ∀ {symbols : List Str}, symbols ≠ [] → [] ∉ symbols →
      ∃ request, format symbols = .ok request ∧
        ∀ subscribed, readRequest subscribed request = act subscribed symbols.toFinset)
    (hresult : ∀ {registry changes}, result = .ok (registry, changes) →
      [] ∉ changes ∧ registry.toFinset = act s.registry.toFinset changes.toFinset)
    (act_empty : ∀ t, act t ∅ = t) (act_mono : ∀ {t u v}, t ⊆ u → act t v ⊆ act u v) :
    (s.after (s.sendChange format result)).Inv := by
  unfold sendChange
  cases hcases : result with
  | error e => exact h
  | ok changed =>
    obtain ⟨registry, changes⟩ := changed
    obtain ⟨hempty, hregistry⟩ := hresult hcases
    simp only
    split
    · rename_i hnone
      intro hc
      have hsettled := h hc
      rw [hnone, List.toFinset_nil, act_empty] at hregistry
      unfold Settled settled at hsettled ⊢
      simp only [after, hregistry]
      exact hsettled
    · rename_i hsome
      obtain ⟨request, hrequest, hread⟩ := hformat hsome hempty
      intro hc
      simp only [hrequest, sendPayload, after] at hc ⊢
      obtain ⟨-, hset, hsame, hstage⟩ := send_settled _ request hc
      have hlive : s.manager.isConnected = true := by rwa [send_manager] at hc
      have hsettled := h hlive
      unfold Settled at hsettled ⊢
      rw [hstage, hsame, hset, hread]
      cases hcs : s.connectStage with
      | idle => trivial
      | failed => trivial
      | notifying =>
        simp only [hcs, hregistry] at hsettled ⊢
        exact act_mono hsettled
      | resubscribing requested =>
        simp only [hcs, hregistry] at hsettled ⊢
        exact congrArg (act · changes.toFinset) hsettled
      | completed =>
        simp only [hcs, hregistry] at hsettled ⊢
        exact congrArg (act · changes.toFinset) hsettled

/-! ## Connects -/

theorem inv_connectRaises (s : BaseExchangeStream retryPolicy policy) (raised : Raised) :
    (s.connectRaises raised).Inv := fun _ => trivial

/-- The callback returns with what `_resubscribe_all` has sent. -/
theorem inv_connectReturns
    (hsettled : s.manager.isConnected = true → s.settled = s.registry.toFinset) :
    s.connectReturns.Inv := by
  intro hc
  exact hsettled (@Manager.step_isConnected _ s.manager .callbackReturns (by simp) hc)

/-- `_resubscribe_all` asks for the whole registry. -/
theorem Inv.resubscribeAll (h : s.Inv) (protocol : BitgetSubscriptionProtocol) :
    (s.resubscribeAll protocol.strategy).Inv := by
  unfold BaseExchangeStream.resubscribeAll
  cases hstage : s.connectStage with
  | idle | resubscribing | completed | failed => exact h
  | notifying =>
    simp only
    split
    · rename_i hempty
      apply inv_connectReturns
      intro hc
      have hsub := h hc
      unfold Settled at hsub
      simp only [hstage] at hsub
      have hnone : s.registry.toFinset = ∅ := List.toFinset_eq_empty_iff _ |>.mpr hempty
      rw [hnone] at hsub
      exact (Finset.subset_empty.mp hsub).trans hnone.symm
    · rename_i hsome
      obtain ⟨request, hrequest, hread⟩ :=
        formatSubscribe_ok protocol hsome s.registry.nonempty
      have hformat : protocol.strategy.formatSubscribe s.registry.getAll = .ok request := hrequest
      rw [hformat]
      simp only [sendPayload]
      split
      · rename_i next hsend
        intro hc
        have hnext : next = (s.send request).1 := by rw [hsend]
        subst hnext
        obtain ⟨-, hset, hsame, -⟩ := send_settled s request hc
        have hlive : s.manager.isConnected = true := by rwa [send_manager] at hc
        have hsub := h hlive
        unfold Settled at hsub
        simp only [hstage] at hsub
        show (s.send request).1.settled = (s.send request).1.registry.toFinset
        rw [hset, hread, hsame]
        exact Finset.union_eq_right.mpr hsub
      · exact inv_connectRaises _ _

theorem Inv.resubscribeReturns (h : s.Inv) : s.resubscribeReturns.Inv := by
  unfold BaseExchangeStream.resubscribeReturns
  cases hstage : s.connectStage with
  | idle | notifying | completed | failed => exact h
  | resubscribing requested =>
    simp only
    split
    · exact inv_connectRaises s .exception
    · apply inv_connectReturns
      intro hc
      have hsettled := h hc
      unfold Settled at hsettled
      simp only [hstage] at hsettled
      exact hsettled

/-! ## Every run -/

theorem Inv.step (h : s.Inv) (protocol : BitgetSubscriptionProtocol)
    (parse : Str → Except PyError (Option ParsedMessage)) (op : StreamOp) :
    (s.step protocol.strategy parse op).Inv := by
  cases op with
  | event event now => exact h.event parse event now
  | callbackRaises raised =>
    simp only [BaseExchangeStream.step, callbackRaises]
    split
    · split
      · exact h
      · exact inv_connectRaises s raised
    · exact h
  | resubscribeAll => exact h.resubscribeAll protocol
  | resubscribeReturns => exact h.resubscribeReturns
  | resubscribeRaises raised =>
    simp only [BaseExchangeStream.step, resubscribeRaises]
    split
    · exact inv_connectRaises s raised
    · exact h
  | reaches => exact h.reaches
  | subscribeSymbol symbol | subscribeSymbols symbols =>
    apply after_validated h
    exact h.change (formatSubscribe_ok protocol) SubscriptionRegistry.addAll_ok Finset.union_empty
      (Finset.union_subset_union_left ·)
  | unsubscribeSymbol symbol | unsubscribeSymbols symbols =>
    apply after_validated h
    exact h.change (formatUnsubscribe_ok protocol) SubscriptionRegistry.removeAll_ok
      (fun _ => Finset.sdiff_empty) (Finset.sdiff_subset_sdiff · Finset.Subset.rfl)
  | confirmationTimer generation now => exact h.confirm _ now
  | livenessTimer generation now => exact h.same id rfl rfl rfl rfl
  | recordJournalWrite => exact h.same id rfl rfl rfl rfl
  | stop => exact h.same (Manager.step_isConnected (by simp)) rfl rfl rfl rfl

/-- While the session is connected and its `_resubscribe_all` has completed, its requests come to
the registry, and with none on its way the registry is what is subscribed. -/
structure RegistryIsTruth (s : BaseExchangeStream retryPolicy policy) : Prop where
  settles : s.manager.isConnected = true → s.connectStage = .completed →
    s.settled = s.registry.toFinset
  subscribed : s.manager.isConnected = true → s.connectStage = .completed → s.wire = [] →
    s.subscribed = s.registry.toFinset

theorem Inv.registryIsTruth (h : s.Inv) : s.RegistryIsTruth := by
  have hsettles : s.manager.isConnected = true → s.connectStage = .completed →
      s.settled = s.registry.toFinset := by
    intro hc hstage
    have hsettled := h hc
    unfold Settled at hsettled
    simp only [hstage] at hsettled
    exact hsettled
  refine ⟨hsettles, ?_⟩
  intro hc hstage hwire
  rw [← hsettles hc hstage, settled, hwire, List.append_nil]
  rfl

/-- **The registry is what is subscribed at the exchange**, in every state of every run. -/
theorem registry_is_subscribed (retryPolicy : RetryPolicy) (policy : LivenessPolicy)
    (protocol : BitgetSubscriptionProtocol) (parse : Str → Except PyError (Option ParsedMessage))
    (registry : SubscriptionRegistry) (ops : List StreamOp) :
    Run.Always (step protocol.strategy parse) RegistryIsTruth
      (new registry : BaseExchangeStream retryPolicy policy) ops := by
  have h := @Run.always_of_step _ _ (step protocol.strategy parse) Inv
    (fun _ op h => h.step protocol parse op) (new registry : BaseExchangeStream retryPolicy policy)
    (inv_new registry) ops
  exact h.mono fun _ hs => hs.registryIsTruth

end BaseExchangeStream

end Leviathan
