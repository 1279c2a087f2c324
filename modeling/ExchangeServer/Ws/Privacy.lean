import Mathlib
import ExchangeServer.Foundation.Machine
import ExchangeServer.Ws.Router

/-!
# What strangers can observe

Two runs with the same sessions and subscriptions whose events differ only in what
happens to other users. The account route keeps the difference from a user: no
session of the user gets an `AccountEvent` of another user. The market route does
not: every engine event, also one of a single account, goes to all sessions that
have subscribed to its market.

## Main definitions

- `Stranger`: an event of an account of somebody else
- `Alike`: inputs that are the same or that are both such events
- `strangers_seen_only_in_markets`: what a session gets at each input of two runs
-/

namespace Ws

open Protocol Machine

/-! ## The service as a machine -/

/-- What reaches the service: calls of sessions, and events with their place. -/
inductive LiveInput
  | call (call : HubCall)
  | engineEvent (event : EngineEvent) (metadata : StreamMetadata)
  | walletEvent (event : WalletEvent) (metadata : StreamMetadata)

structure Live where
  hub : Hub
  dedupe : EventDedupe

def Live.new : Live where
  hub := .new
  dedupe := .new walletEventDedupeCapacity

/-- Every send succeeds. -/
def accepts : ℕ → Bool := fun _ => false

/-- The state after an input, and what is delivered. -/
def Live.process (live : Live) : LiveInput → Option (Live × List Delivery)
  | .call call => (live.hub.call call).map fun hub => ({ live with hub := hub }, [])
  | .engineEvent event metadata =>
    let sent := processEngineEvent accepts live.hub.inner event metadata
    some ({ live with hub := { live.hub with inner := sent.1 } }, sent.2)
  | .walletEvent event metadata =>
    let sent := processWalletEvent accepts live.hub.inner live.dedupe event metadata
    some ({ hub := { live.hub with inner := sent.1 }, dedupe := sent.2.1 }, sent.2.2)

def Live.step (live : Live) (input : LiveInput) : Option Live := (live.process input).map Prod.fst

/-- What a session gets of some deliveries. -/
def messagesOf (sessionId : ℕ) (deliveries : List Delivery) : List MessageContent :=
  (deliveries.filter fun delivery => sessionId ∈ delivery.sessions).map fun delivery =>
    delivery.message.content

/-- What a session gets at an input. -/
def messagesAt (sessionId : ℕ) (live : Live) (input : LiveInput) : List MessageContent :=
  match live.process input with
  | none => []
  | some (_, deliveries) => messagesOf sessionId deliveries

/-- What a session gets in a run. -/
def received (sessionId : ℕ) : Live → List LiveInput → List MessageContent
  | _, [] => []
  | live, input :: inputs =>
    match live.process input with
    | none => []
    | some (live', deliveries) => messagesOf sessionId deliveries ++ received sessionId live' inputs

/-! ## Alike inputs -/

/-- The user of an engine event about one account. -/
def privateUserId : EngineEvent → Option ℤ
  | .orderOpened event => some event.userId
  | .orderCancelled event => some event.userId
  | .orderExpired event => some event.userId
  | .reservationReleased event => some event.userId
  | .positionChanged event => some event.userId
  | .riskStateUpdated event => some event.userId
  | .accountDelta event => some event.userId
  | _ => none

theorem accountUserIds_of_private {event : EngineEvent} {userId : ℤ}
    (h : privateUserId event = some userId) : engineEventAccountUserIds event = {userId} := by
  cases event <;> cases h <;> rfl

/-- An event of an account of a user other than `u`. -/
def Stranger (u : ℤ) : LiveInput → Prop
  | .call _ => False
  | .engineEvent event _ => ∃ userId, privateUserId event = some userId ∧ userId ≠ u
  | .walletEvent event _ => walletEventUserId event ≠ u

/-- The same call, or the same event wherever it stands in its stream. -/
def Same : LiveInput → LiveInput → Prop
  | .call call, .call call' => call = call'
  | .engineEvent event _, .engineEvent event' _ => event = event'
  | .walletEvent event _, .walletEvent event' _ => event = event'
  | _, _ => False

/-- The two inputs are the same, or both are of others. -/
def Alike (u : ℤ) (input input' : LiveInput) : Prop :=
  Same input input' ∨ (Stranger u input ∧ Stranger u input')

def inputEventId : LiveInput → Option String
  | .walletEvent event _ => walletEventId event
  | _ => none

/-- No two wallet events have the same id. -/
def UniqueIds (inputs : List LiveInput) : Prop := (inputs.filterMap inputEventId).Nodup

instance (inputs : List LiveInput) : Decidable (UniqueIds inputs) :=
  inferInstanceAs (Decidable (inputs.filterMap inputEventId).Nodup)

/-- The session is one of `u`: nobody else registers under its id. -/
def SessionOf (u : ℤ) (sessionId : ℕ) (inputs : List LiveInput) : Prop :=
  ∀ userId, .call (.register sessionId userId) ∈ inputs → userId = u

/-! ## Deliveries -/

section Deliveries

variable {state : HubState} {sessionId : ℕ} {u userId : ℤ}

/-- The sessions of a set that the hub has. -/
def reached (state : HubState) (sessions : Finset ℕ) : Finset ℕ :=
  sessions.filter fun sessionId => (state.sessions.lookup sessionId).isSome

/-- Without refusals the hub stays as it is. -/
theorem sendToSessionsLocked_accepts (state : HubState) (sessions : Finset ℕ) :
    sendToSessionsLocked state sessions accepts = (state, reached state sessions) := by
  have hstale : (reached state sessions).filter (fun sessionId => accepts sessionId) = ∅ :=
    Finset.filter_false_of_mem fun _ _ => Bool.false_ne_true
  have hall : (reached state sessions).filter (fun sessionId => !accepts sessionId) =
      reached state sessions := Finset.filter_true_of_mem fun _ _ => rfl
  change (((reached state sessions).filter fun sessionId => accepts sessionId).val.foldl
    removeSessionLocked state, (reached state sessions).filter fun sessionId => !accepts sessionId) = _
  rw [hstale, hall]
  rfl

theorem sendAccounts_accepts (source : EventSource) (event : Json) (metadata : StreamMetadata)
    (userIds : List ℤ) :
    sendAccounts accepts source event metadata state userIds =
      (state, userIds.map fun userId =>
        ⟨reached state (state.users.members userId), .accountEvent source event metadata⟩) := by
  induction userIds with
  | nil => rfl
  | cons userId userIds ih =>
    rw [sendAccounts, sendAccount, broadcastAccount, sendToSessionsLocked_accepts, ih]
    rfl

/-- What a session gets as one of the sessions of some users. -/
theorem messagesOf_accounts (source : EventSource) (event : Json) (metadata : StreamMetadata)
    (userIds : List ℤ) :
    messagesOf sessionId (userIds.map fun userId =>
        ⟨reached state (state.users.members userId), .accountEvent source event metadata⟩) =
      (userIds.filter fun userId => sessionId ∈ reached state (state.users.members userId)).map
        fun _ => .accountEvent source event := by
  rw [messagesOf, List.filter_map, List.map_map]
  rfl

/-- An engine event leaves the hub as it is. -/
theorem processEngineEvent_accepts {event : EngineEvent} {marketId : ℤ}
    (hmarket : engineEventMarketId event = some marketId) (metadata : StreamMetadata) :
    processEngineEvent accepts state event metadata =
      (state, ((engineEventAccountUserIds event).sort (· ≤ ·)).map (fun userId =>
          ⟨reached state (state.users.members userId),
            .accountEvent .engine (engineEventValue event) metadata⟩) ++
        [⟨reached state (state.markets.members marketId),
          .marketEvent marketId .engine (engineEventValue event) metadata⟩]) := by
  rw [processEngineEvent, hmarket, if_neg fun h => Option.some_ne_none marketId h.2]
  dsimp only
  rw [sendAccounts_accepts, sendMarket, broadcastMarket, sendToSessionsLocked_accepts]

theorem messagesOf_singleton (delivery : Delivery) : messagesOf sessionId [delivery] =
    if sessionId ∈ delivery.sessions then [delivery.message.content] else [] := by
  by_cases hmem : sessionId ∈ delivery.sessions
  · simp [messagesOf, hmem]
  · simp [messagesOf, hmem]

/-- A session gets an engine event for each of its users, and then as a subscriber. -/
theorem messagesOf_engine {event : EngineEvent} {marketId : ℤ}
    (hmarket : engineEventMarketId event = some marketId) (metadata : StreamMetadata) :
    messagesOf sessionId (processEngineEvent accepts state event metadata).2 =
      (((engineEventAccountUserIds event).sort (· ≤ ·)).filter fun userId =>
          sessionId ∈ reached state (state.users.members userId)).map
        (fun _ => .accountEvent .engine (engineEventValue event)) ++
      if sessionId ∈ reached state (state.markets.members marketId) then
        [.marketEvent marketId .engine (engineEventValue event)] else [] := by
  rw [processEngineEvent_accepts hmarket, messagesOf, List.filter_append, List.map_append]
  exact congrArg₂ (· ++ ·) (messagesOf_accounts ..) (messagesOf_singleton _)

theorem engineEventMarketId_eq_some (event : EngineEvent) :
    ∃ marketId, engineEventMarketId event = some marketId := by
  cases event <;> exact ⟨_, rfl⟩

end Deliveries

/-! ## Owners -/

/-- The session is known to no user but `u`. -/
def OwnedBy (u : ℤ) (sessionId : ℕ) (state : HubState) : Prop :=
  ∀ userId, sessionId ∈ state.users.members userId → userId = u

section Owners

variable {u : ℤ} {sessionId other : ℕ} {state : HubState}

theorem OwnedBy.removeSessionLocked (h : OwnedBy u sessionId state) :
    OwnedBy u sessionId (Ws.removeSessionLocked state other) := by
  intro userId hmem
  cases hfound : state.sessions.lookup other with
  | none =>
    rw [removeSessionLocked_of_none hfound] at hmem
    exact h userId hmem
  | some session =>
    rw [removeSessionLocked_of_some hfound] at hmem
    exact h userId (SetMap.mem_members_prune.1 hmem).1

theorem OwnedBy.sendToSessionsLocked (h : OwnedBy u sessionId state) (sessions : Finset ℕ)
    (refuses : ℕ → Bool) :
    OwnedBy u sessionId (Ws.sendToSessionsLocked state sessions refuses).1 := by
  have hstale : ∀ (stale : Finset ℕ) {state : HubState}, OwnedBy u sessionId state →
      OwnedBy u sessionId (stale.val.foldl Ws.removeSessionLocked state) := by
    intro stale
    induction stale using Finset.induction_on with
    | empty => exact id
    | insert other stale hnew ih =>
      intro state h
      rw [Finset.insert_val_of_notMem hnew, Multiset.foldl_cons]
      exact ih h.removeSessionLocked
  exact hstale _ h

theorem users_foldl (f : HubState → ℤ → HubState)
    (hf : ∀ state marketId, (f state marketId).users = state.users) (markets : List ℤ)
    (state : HubState) : (markets.foldl f state).users = state.users := by
  induction markets generalizing state with
  | nil => rfl
  | cons marketId markets ih => exact (ih (f state marketId)).trans (hf state marketId)

/-- Only `register` gives a session to a user. -/
theorem OwnedBy.call {hub hub' : Hub} (h : OwnedBy u sessionId hub.inner) {call : HubCall}
    (hregister : ∀ userId, call = .register sessionId userId → userId = u)
    (hcall : hub.call call = some hub') : OwnedBy u sessionId hub'.inner := by
  cases call with
  | takeSessionId =>
    obtain rfl := Option.some.inj hcall
    exact h
  | register other userId =>
    obtain ⟨-, heq⟩ := Option.ite_none_right_eq_some.1 hcall
    obtain rfl := Option.some.inj heq
    intro userId' hmem
    rcases SetMap.mem_members_add.1 hmem with ⟨huser, hsession⟩ | hmem
    · exact huser.trans (hregister userId (by rw [hsession]))
    · exact h userId' hmem
  | unregister other =>
    obtain ⟨-, heq⟩ := Option.ite_none_right_eq_some.1 hcall
    obtain rfl := Option.some.inj heq
    exact h.removeSessionLocked
  | subscribeMarkets other markets =>
    obtain ⟨-, heq⟩ := Option.ite_none_right_eq_some.1 hcall
    obtain rfl := Option.some.inj heq
    intro userId hmem
    have husers : (Ws.subscribeMarkets hub.inner other markets).users = hub.inner.users :=
      users_foldl (subscribeMarket other) (fun _ _ => rfl) markets hub.inner
    exact h userId (husers ▸ hmem)
  | unsubscribeMarkets other markets =>
    obtain ⟨-, heq⟩ := Option.ite_none_right_eq_some.1 hcall
    obtain rfl := Option.some.inj heq
    intro userId hmem
    have husers : (Ws.unsubscribeMarkets hub.inner other markets).users = hub.inner.users :=
      users_foldl (unsubscribeMarket other) (fun _ _ => rfl) markets hub.inner
    exact h userId (husers ▸ hmem)
  | broadcastAccount userId refuses =>
    obtain rfl := Option.some.inj hcall
    exact h.sendToSessionsLocked _ refuses
  | broadcastMarket marketId refuses =>
    obtain rfl := Option.some.inj hcall
    exact h.sendToSessionsLocked _ refuses

end Owners

/-! ## Event ids -/

theorem expire_subset (capacity : ℕ) (order : List String) (seen : Finset String) :
    (expire capacity order seen).2 ⊆ seen := by
  induction order generalizing seen with
  | nil => exact Finset.Subset.refl seen
  | cons expired order ih =>
    rw [expire]
    split
    · exact (ih (seen.erase expired)).trans (Finset.erase_subset expired seen)
    · exact Finset.Subset.refl seen

/-- An id that was not seen is no duplicate, and nothing else is seen from then on. -/
theorem isDuplicate_of_unseen {dedupe : EventDedupe} {eventId : Option String}
    (h : ∀ id, eventId = some id → id ∉ dedupe.seen) :
    (dedupe.isDuplicate eventId).1 = false ∧
      ∀ id ∈ (dedupe.isDuplicate eventId).2.seen, id ∈ dedupe.seen ∨ eventId = some id := by
  rw [EventDedupe.isDuplicate]
  cases hid : eventId.filter (fun eventId => eventId ≠ "") with
  | none => exact ⟨rfl, fun _ hmem => .inl hmem⟩
  | some id =>
    have heventId : eventId = some id := (Option.filter_eq_some_iff.1 hid).1
    dsimp only
    rw [if_neg (h id heventId)]
    split
    · exact ⟨rfl, fun _ hmem => .inl hmem⟩
    · refine ⟨rfl, fun other hmem => ?_⟩
      rcases Finset.mem_insert.1 (expire_subset _ _ _ hmem) with rfl | hmem
      · exact .inr heventId
      · exact .inl hmem

/-! ## One input -/

/-- The ids of the inputs to come are distinct, and none has been seen. -/
structure FreshIds (live : Live) (inputs : List LiveInput) : Prop where
  nodup : UniqueIds inputs
  unseen : ∀ eventId ∈ inputs.filterMap inputEventId, eventId ∉ live.dedupe.seen

section Inputs

variable {live live' : Live} {sessionId : ℕ} {u : ℤ} {input : LiveInput} {inputs : List LiveInput}

theorem process_engineEvent (live : Live) (event : EngineEvent) (metadata : StreamMetadata) :
    live.process (.engineEvent event metadata) =
      some (live, (processEngineEvent accepts live.hub.inner event metadata).2) := by
  obtain ⟨marketId, hmarket⟩ := engineEventMarketId_eq_some event
  rw [Live.process, processEngineEvent_accepts hmarket]

/-- A wallet event with a new id is sent to its user. -/
theorem process_walletEvent {event : WalletEvent}
    (hunseen : ∀ id, walletEventId event = some id → id ∉ live.dedupe.seen)
    (metadata : StreamMetadata) :
    live.process (.walletEvent event metadata) =
      some ({ live with dedupe := (live.dedupe.isDuplicate (walletEventId event)).2 },
        [⟨reached live.hub.inner (live.hub.inner.users.members (walletEventUserId event)),
          .accountEvent .wallet (walletEventValue event) metadata⟩]) := by
  rw [Live.process, processWalletEvent, if_neg (by
    rw [(isDuplicate_of_unseen hunseen).1]
    exact Bool.false_ne_true)]
  rw [sendAccount, broadcastAccount, sendToSessionsLocked_accepts]

theorem FreshIds.head (h : FreshIds live (input :: inputs)) {id : String}
    (hid : inputEventId input = some id) : id ∉ live.dedupe.seen :=
  h.unseen id (List.mem_filterMap.2 ⟨input, List.mem_cons_self, hid⟩)

/-- The ids that come later stay unseen. -/
theorem FreshIds.tail (h : FreshIds live (input :: inputs))
    (hseen : ∀ id ∈ live'.dedupe.seen, id ∈ live.dedupe.seen ∨ inputEventId input = some id) :
    FreshIds live' inputs := by
  have hrest : ∀ id ∈ inputs.filterMap inputEventId,
      id ∈ (input :: inputs).filterMap inputEventId := by
    intro id hid
    obtain ⟨other, hother, hid⟩ := List.mem_filterMap.1 hid
    exact List.mem_filterMap.2 ⟨other, List.mem_cons_of_mem input hother, hid⟩
  have hnodup := h.nodup
  rw [UniqueIds] at hnodup
  cases hinput : inputEventId input with
  | none =>
    rw [List.filterMap_cons_none hinput] at hnodup
    refine ⟨hnodup, fun id hid hmem => ?_⟩
    rcases hseen id hmem with hmem | hid'
    · exact h.unseen id (hrest id hid) hmem
    · exact Option.some_ne_none id (hid'.symm.trans hinput)
  | some first =>
    rw [List.filterMap_cons_some hinput, List.nodup_cons] at hnodup
    refine ⟨hnodup.2, fun id hid hmem => ?_⟩
    rcases hseen id hmem with hmem | hid'
    · exact h.unseen id (hrest id hid) hmem
    · have heq : first = id := Option.some.inj (hinput.symm.trans hid')
      exact hnodup.1 (heq ▸ hid)

/-- Only calls change the hub. -/
theorem process_hub (h : FreshIds live (input :: inputs)) {deliveries : List Delivery}
    (hprocess : live.process input = some (live', deliveries)) :
    FreshIds live' inputs ∧
      match input with
      | .call call => live.hub.call call = some live'.hub ∧ deliveries = []
      | _ => live'.hub = live.hub := by
  cases input with
  | call call =>
    obtain ⟨hub, hcall, heq⟩ := Option.map_eq_some_iff.1 hprocess
    obtain ⟨rfl, rfl⟩ := Prod.mk.inj heq
    exact ⟨h.tail fun id hmem => .inl hmem, hcall, rfl⟩
  | engineEvent event metadata =>
    rw [process_engineEvent] at hprocess
    obtain ⟨rfl, -⟩ := Prod.mk.inj (Option.some.inj hprocess)
    exact ⟨h.tail fun id hmem => .inl hmem, rfl⟩
  | walletEvent event metadata =>
    have hunseen : ∀ id, walletEventId event = some id → id ∉ live.dedupe.seen :=
      fun id hid => h.head hid
    rw [process_walletEvent hunseen] at hprocess
    obtain ⟨rfl, -⟩ := Prod.mk.inj (Option.some.inj hprocess)
    exact ⟨h.tail fun id hmem => (isDuplicate_of_unseen hunseen).2 id hmem, rfl⟩

theorem messagesAt_call (call : HubCall) : messagesAt sessionId live (.call call) = [] := by
  rw [messagesAt, Live.process]
  cases live.hub.call call with
  | none => rfl
  | some hub => rfl

theorem messagesAt_engineEvent (event : EngineEvent) (metadata : StreamMetadata) :
    messagesAt sessionId live (.engineEvent event metadata) =
      messagesOf sessionId (processEngineEvent accepts live.hub.inner event metadata).2 := by
  rw [messagesAt, process_engineEvent]

theorem messagesAt_walletEvent {event : WalletEvent}
    (hunseen : ∀ id, walletEventId event = some id → id ∉ live.dedupe.seen)
    (metadata : StreamMetadata) :
    messagesAt sessionId live (.walletEvent event metadata) =
      if sessionId ∈ reached live.hub.inner
          (live.hub.inner.users.members (walletEventUserId event)) then
        [.accountEvent .wallet (walletEventValue event)] else [] := by
  rw [messagesAt, process_walletEvent hunseen]
  exact messagesOf_singleton _

/-- The session has subscribed to the market of an engine event. -/
def SubscribedTo (sessionId : ℕ) (live : Live) : LiveInput → Prop
  | .engineEvent event _ => ∃ marketId, engineEventMarketId event = some marketId ∧
      sessionId ∈ live.hub.inner.markets.members marketId
  | _ => False

/-- The only message at an input, if any, is the engine event of the input for the
subscribers of its own market. -/
def OnlyAsSubscriber (sessionId : ℕ) (live : Live) (input : LiveInput) : Prop :=
  messagesAt sessionId live input = [] ∨ SubscribedTo sessionId live input ∧
    ∃ event metadata marketId, input = .engineEvent event metadata ∧
      engineEventMarketId event = some marketId ∧
      messagesAt sessionId live input = [.marketEvent marketId .engine (engineEventValue event)]

/-- An event of somebody else does not come by the account route. -/
theorem onlyAsSubscriber_of_stranger (howned : OwnedBy u sessionId live.hub.inner)
    (hfresh : FreshIds live (input :: inputs)) (h : Stranger u input) :
    OnlyAsSubscriber sessionId live input := by
  have hother : ∀ {userId}, userId ≠ u →
      sessionId ∉ reached live.hub.inner (live.hub.inner.users.members userId) :=
    fun hne hmem => hne (howned _ (Finset.mem_filter.1 hmem).1)
  cases input with
  | call call => exact absurd h id
  | engineEvent event metadata =>
    obtain ⟨userId, huser, hne⟩ := h
    obtain ⟨marketId, hmarket⟩ := engineEventMarketId_eq_some event
    have haccounts : (((engineEventAccountUserIds event).sort (· ≤ ·)).filter fun userId =>
        sessionId ∈ reached live.hub.inner (live.hub.inner.users.members userId)) = [] := by
      rw [accountUserIds_of_private huser, Finset.sort_singleton]
      exact List.filter_cons_of_neg (by simpa using hother hne)
    rw [OnlyAsSubscriber, messagesAt_engineEvent, messagesOf_engine hmarket, haccounts]
    by_cases hmem : sessionId ∈ reached live.hub.inner (live.hub.inner.markets.members marketId)
    · rw [if_pos hmem]
      exact .inr ⟨⟨marketId, hmarket, (Finset.mem_filter.1 hmem).1⟩, event, metadata, marketId, rfl,
        hmarket, rfl⟩
    · rw [if_neg hmem]
      exact .inl rfl
  | walletEvent event metadata =>
    refine .inl ?_
    rw [messagesAt_walletEvent (fun id hid => hfresh.head hid), if_neg (hother h)]

end Inputs

/-! ## Two runs -/

/-- The two runs have the same hub, and what comes is alike. -/
structure Linked (u : ℤ) (sessionId : ℕ) (live live' : Live) (inputs inputs' : List LiveInput) :
    Prop where
  hub : live.hub = live'.hub
  owned : OwnedBy u sessionId live.hub.inner
  session : SessionOf u sessionId inputs
  fresh : FreshIds live inputs
  fresh' : FreshIds live' inputs'
  alike : List.Forall₂ (Alike u) inputs inputs'

section Runs

variable {live live' : Live} {sessionId : ℕ} {u : ℤ} {input input' : LiveInput}
  {inputs inputs' : List LiveInput}

/-- What is the same is delivered in the same way. -/
theorem Linked.messagesAt_same
    (h : Linked u sessionId live live' (input :: inputs) (input' :: inputs'))
    (hsame : Same input input') :
    messagesAt sessionId live input = messagesAt sessionId live' input' := by
  cases input with
  | call call =>
    cases input' with
    | call call' => rw [messagesAt_call, messagesAt_call]
    | engineEvent event' metadata' => exact absurd hsame id
    | walletEvent event' metadata' => exact absurd hsame id
  | engineEvent event metadata =>
    cases input' with
    | call call' => exact absurd hsame id
    | engineEvent event' metadata' =>
      obtain rfl : event = event' := hsame
      obtain ⟨marketId, hmarket⟩ := engineEventMarketId_eq_some event
      rw [messagesAt_engineEvent, messagesAt_engineEvent, messagesOf_engine hmarket,
        messagesOf_engine hmarket, h.hub]
    | walletEvent event' metadata' => exact absurd hsame id
  | walletEvent event metadata =>
    cases input' with
    | call call' => exact absurd hsame id
    | engineEvent event' metadata' => exact absurd hsame id
    | walletEvent event' metadata' =>
      obtain rfl : event = event' := hsame
      rw [messagesAt_walletEvent (fun id hid => h.fresh.head hid),
        messagesAt_walletEvent (fun id hid => h.fresh'.head hid), h.hub]

/-- The first inputs are the same call, or two events. -/
theorem Linked.head_cases
    (h : Linked u sessionId live live' (input :: inputs) (input' :: inputs')) :
    (∃ call, input = .call call ∧ input' = .call call) ∨
      ((∀ call, input ≠ .call call) ∧ ∀ call, input' ≠ .call call) := by
  obtain ⟨halike, -⟩ := List.forall₂_cons.1 h.alike
  cases input with
  | call call =>
    cases input' with
    | call call' =>
      obtain hsame | ⟨hstranger, -⟩ := halike
      · obtain rfl : call = call' := hsame
        exact .inl ⟨call, rfl, rfl⟩
      · exact absurd hstranger id
    | engineEvent event' metadata' => exact absurd halike (by rintro (h | ⟨h, -⟩) <;> exact h)
    | walletEvent event' metadata' => exact absurd halike (by rintro (h | ⟨h, -⟩) <;> exact h)
  | engineEvent event metadata =>
    cases input' with
    | call call' => exact absurd halike (by rintro (h | ⟨-, h⟩) <;> exact h)
    | engineEvent event' metadata' => exact .inr ⟨nofun, nofun⟩
    | walletEvent event' metadata' => exact .inr ⟨nofun, nofun⟩
  | walletEvent event metadata =>
    cases input' with
    | call call' => exact absurd halike (by rintro (h | ⟨-, h⟩) <;> exact h)
    | engineEvent event' metadata' => exact .inr ⟨nofun, nofun⟩
    | walletEvent event' metadata' => exact .inr ⟨nofun, nofun⟩

/-- Either both inputs are possible or none is. -/
theorem Linked.isSome_process
    (h : Linked u sessionId live live' (input :: inputs) (input' :: inputs')) :
    (live.process input).isSome = (live'.process input').isSome := by
  have hevent : ∀ {live : Live} {input : LiveInput}, (∀ call, input ≠ .call call) →
      (live.process input).isSome = true := by
    intro live input hne
    cases input with
    | call call => exact absurd rfl (hne call)
    | engineEvent | walletEvent => rfl
  obtain ⟨call, rfl, rfl⟩ | ⟨hne, hne'⟩ := h.head_cases
  · rw [Live.process, Live.process, Option.isSome_map, Option.isSome_map, h.hub]
  · rw [hevent hne, hevent hne']

/-- One input further the runs are still linked. -/
theorem Linked.process
    (h : Linked u sessionId live live' (input :: inputs) (input' :: inputs')) {next next' : Live}
    {deliveries deliveries' : List Delivery} (hprocess : live.process input = some (next, deliveries))
    (hprocess' : live'.process input' = some (next', deliveries')) :
    Linked u sessionId next next' inputs inputs' := by
  obtain ⟨hfresh, hhub⟩ := process_hub h.fresh hprocess
  obtain ⟨hfresh', hhub'⟩ := process_hub h.fresh' hprocess'
  have hsession : SessionOf u sessionId inputs :=
    fun userId hmem => h.session userId (List.mem_cons_of_mem input hmem)
  have halike : List.Forall₂ (Alike u) inputs inputs' := (List.forall₂_cons.1 h.alike).2
  obtain ⟨call, rfl, rfl⟩ | ⟨hne, hne'⟩ := h.head_cases
  · obtain ⟨hcall, -⟩ := hhub
    obtain ⟨hcall', -⟩ := hhub'
    have heq : next.hub = next'.hub := Option.some.inj (hcall.symm.trans (h.hub ▸ hcall'))
    have howned : OwnedBy u sessionId next.hub.inner := by
      refine h.owned.call (fun userId hregister => ?_) hcall
      exact h.session userId (hregister ▸ List.mem_cons_self)
    exact ⟨heq, howned, hsession, hfresh, hfresh', halike⟩
  · have hkept : next.hub = live.hub := by
      cases input with
      | call call => exact absurd rfl (hne call)
      | engineEvent | walletEvent => exact hhub
    have hkept' : next'.hub = live'.hub := by
      cases input' with
      | call call => exact absurd rfl (hne' call)
      | engineEvent | walletEvent => exact hhub'
    exact ⟨hkept.trans (h.hub.trans hkept'.symm), hkept ▸ h.owned, hsession, hfresh, hfresh', halike⟩

/-- What is seen at the first inputs. -/
theorem Linked.onlyAsSubscriber
    (h : Linked u sessionId live live' (input :: inputs) (input' :: inputs'))
    (hdiffer : ¬Same input input') :
    OnlyAsSubscriber sessionId live input ∧ OnlyAsSubscriber sessionId live' input' := by
  obtain ⟨halike, -⟩ := List.forall₂_cons.1 h.alike
  obtain ⟨hstranger, hstranger'⟩ := halike.resolve_left hdiffer
  exact ⟨onlyAsSubscriber_of_stranger h.owned h.fresh hstranger,
    onlyAsSubscriber_of_stranger (h.hub ▸ h.owned) h.fresh' hstranger'⟩

/-- The runs stay linked. -/
theorem Linked.run_take (h : Linked u sessionId live live' inputs inputs') {n : ℕ} {next next' : Live}
    (hrun : run Live.step live (inputs.take n) = some next)
    (hrun' : run Live.step live' (inputs'.take n) = some next') :
    Linked u sessionId next next' (inputs.drop n) (inputs'.drop n) := by
  induction n generalizing live live' inputs inputs' with
  | zero =>
    obtain rfl := Option.some.inj hrun
    obtain rfl := Option.some.inj hrun'
    exact h
  | succ n ih =>
    cases inputs with
    | nil =>
      obtain rfl := List.forall₂_nil_left_iff.1 h.alike
      obtain rfl := Option.some.inj hrun
      obtain rfl := Option.some.inj hrun'
      exact h
    | cons input inputs =>
      obtain ⟨input', inputs', -, -, rfl⟩ := List.forall₂_cons_left_iff.1 h.alike
      obtain ⟨mid, hstep, hrun⟩ := Option.bind_eq_some_iff.1 hrun
      obtain ⟨mid', hstep', hrun'⟩ := Option.bind_eq_some_iff.1 hrun'
      obtain ⟨⟨mid, deliveries⟩, hprocess, rfl⟩ := Option.map_eq_some_iff.1 hstep
      obtain ⟨⟨mid', deliveries'⟩, hprocess', rfl⟩ := Option.map_eq_some_iff.1 hstep'
      exact ih (h.process hprocess hprocess') hrun hrun'

/-- A session that has not subscribed where the runs differ gets the same messages. -/
theorem Linked.received_eq (h : Linked u sessionId live live' inputs inputs')
    (hunsubscribed : ∀ n input input' next next', inputs[n]? = some input → inputs'[n]? = some input' →
      run Live.step live (inputs.take n) = some next → run Live.step live' (inputs'.take n) = some next' →
      ¬Same input input' → ¬SubscribedTo sessionId next input ∧ ¬SubscribedTo sessionId next' input') :
    received sessionId live inputs = received sessionId live' inputs' := by
  induction inputs generalizing live live' inputs' with
  | nil =>
    obtain rfl := List.forall₂_nil_left_iff.1 h.alike
    rfl
  | cons input inputs ih =>
    obtain ⟨input', inputs', -, -, rfl⟩ := List.forall₂_cons_left_iff.1 h.alike
    have hmessages : messagesAt sessionId live input = messagesAt sessionId live' input' := by
      by_cases hsame : Same input input'
      · exact h.messagesAt_same hsame
      · obtain ⟨hfirst, hfirst'⟩ := h.onlyAsSubscriber hsame
        obtain ⟨hnot, hnot'⟩ := hunsubscribed 0 input input' live live' rfl rfl rfl rfl hsame
        rw [hfirst.resolve_right fun h => hnot h.1, hfirst'.resolve_right fun h => hnot' h.1]
    have hsome := h.isSome_process
    rw [received, received]
    rw [messagesAt, messagesAt] at hmessages
    cases hprocess : live.process input with
    | none =>
      rw [hprocess] at hsome
      have hnone' : live'.process input' = none :=
        Option.not_isSome_iff_eq_none.1 (hsome ▸ Bool.false_ne_true)
      rw [hnone']
    | some sent =>
      obtain ⟨next, deliveries⟩ := sent
      rw [hprocess] at hsome
      obtain ⟨⟨next', deliveries'⟩, hprocess'⟩ := Option.isSome_iff_exists.1 hsome.symm
      rw [hprocess, hprocess'] at hmessages
      rw [hprocess']
      refine congrArg₂ (· ++ ·) hmessages (ih (h.process hprocess hprocess') ?_)
      intro n other other' later later' hother hother' hrun hrun'
      refine hunsubscribed (n + 1) other other' later later' hother hother' ?_ ?_
      · rw [List.take_succ_cons, run_cons, Live.step, hprocess]
        exact hrun
      · rw [List.take_succ_cons, run_cons, Live.step, hprocess']
        exact hrun'

end Runs

theorem linked_new {u : ℤ} {sessionId : ℕ} {inputs inputs' : List LiveInput}
    (halike : List.Forall₂ (Alike u) inputs inputs') (hids : UniqueIds inputs)
    (hids' : UniqueIds inputs') (hsession : SessionOf u sessionId inputs) :
    Linked u sessionId .new .new inputs inputs' where
  hub := rfl
  owned userId hmem := by
    have hnone : sessionId ∉ SetMap.members (∅ : SetMap ℤ ℕ) userId := by
      rw [SetMap.members_empty]
      exact Finset.notMem_empty sessionId
    exact absurd hmem hnone
  session := hsession
  fresh := ⟨hids, fun id _ => Finset.notMem_empty id⟩
  fresh' := ⟨hids', fun id _ => Finset.notMem_empty id⟩
  alike := halike

/-- Where two runs have the same input a session of `u` gets the same messages. Where
they have events of other users it gets at most an engine event of a market that it
has subscribed to; if it has subscribed to none of these, it gets the same in all. -/
theorem strangers_seen_only_in_markets {u : ℤ} {inputs inputs' : List LiveInput}
    (halike : List.Forall₂ (Alike u) inputs inputs') (hids : UniqueIds inputs)
    (hids' : UniqueIds inputs') {sessionId : ℕ} (hsession : SessionOf u sessionId inputs) :
    (∀ n input input' next next', inputs[n]? = some input → inputs'[n]? = some input' →
      run Live.step .new (inputs.take n) = some next →
      run Live.step .new (inputs'.take n) = some next' →
        (Same input input' →
          messagesAt sessionId next input = messagesAt sessionId next' input') ∧
        (¬Same input input' →
          OnlyAsSubscriber sessionId next input ∧ OnlyAsSubscriber sessionId next' input')) ∧
    ((∀ n input input' next next', inputs[n]? = some input → inputs'[n]? = some input' →
      run Live.step .new (inputs.take n) = some next →
      run Live.step .new (inputs'.take n) = some next' → ¬Same input input' →
        ¬SubscribedTo sessionId next input ∧ ¬SubscribedTo sessionId next' input') →
      received sessionId .new inputs = received sessionId .new inputs') := by
  have hlinked : Linked u sessionId .new .new inputs inputs' :=
    linked_new halike hids hids' hsession
  refine ⟨fun n input input' next next' hinput hinput' hrun hrun' => ?_, hlinked.received_eq⟩
  obtain ⟨hn, rfl⟩ := List.getElem?_eq_some_iff.1 hinput
  obtain ⟨hn', rfl⟩ := List.getElem?_eq_some_iff.1 hinput'
  have hat := hlinked.run_take hrun hrun'
  rw [List.drop_eq_getElem_cons hn, List.drop_eq_getElem_cons hn'] at hat
  exact ⟨hat.messagesAt_same, hat.onlyAsSubscriber⟩

/-- A change of some account in some market. -/
def deltaOf (userId marketId : ℤ) : LiveInput :=
  .engineEvent (.accountDelta {
    engineEventId := none, marketId, engineSequence := 1, engineTimestampMs := 1
    sourceInputId := none, sourceInputOffset := none, accountDeltaId := "delta-1", userId
    asset := .USDC, totalDelta := 100, lockedDelta := 0, reason := "TRADE_FEE"
    referenceId := "fill-1" }) { topic := "engine.events", partition := 0, offset := 1 }

/-- User 42 subscribes to market 7. -/
def subscribing : List LiveInput :=
  [.call .takeSessionId, .call (.register 1 42), .call (.subscribeMarkets 1 [7])]

theorem subscribing_alike {input input' : LiveInput} {inputs inputs' : List LiveInput}
    (h : Alike 42 input input') (hrest : List.Forall₂ (Alike 42) inputs inputs') :
    List.Forall₂ (Alike 42) (subscribing ++ input :: inputs) (subscribing ++ input' :: inputs') :=
  .cons (.inl rfl) (.cons (.inl rfl) (.cons (.inl rfl) (.cons h hrest)))

/-- Session 1 is registered once. -/
theorem subscribing_sessionOf {userId marketId : ℤ} {inputs : List LiveInput}
    (hinputs : ∀ input ∈ inputs, ∃ userId marketId, input = deltaOf userId marketId) :
    SessionOf 42 1 (subscribing ++ deltaOf userId marketId :: inputs) := by
  intro other hmem
  have hlast : .call (.register 1 other) ∉ inputs := fun h => by
    obtain ⟨userId, marketId, heq⟩ := hinputs _ h
    cases heq
  simpa [subscribing, deltaOf, hlast] using hmem

/-- A subscriber of market 7 sees the two changes there as events of the market. A
session that has subscribed to none of the markets of the others gets its own event,
and the same in both runs. -/
theorem strangers_seen_only_in_markets_other :
    (∃ live, run Live.step .new subscribing = some live ∧
      OnlyAsSubscriber 1 live (deltaOf 5 7) ∧ OnlyAsSubscriber 1 live (deltaOf 6 7) ∧
        messagesAt 1 live (deltaOf 5 7) ≠ [] ∧ messagesAt 1 live (deltaOf 6 7) ≠ []) ∧
    received 1 .new (subscribing ++ [deltaOf 5 8, deltaOf 42 7]) =
        received 1 .new (subscribing ++ [deltaOf 6 9, deltaOf 42 7]) ∧
      received 1 .new (subscribing ++ [deltaOf 5 8, deltaOf 42 7]) ≠ [] := by
  refine ⟨?_, ?_, ?_⟩
  · have halike : List.Forall₂ (Alike 42) (subscribing ++ [deltaOf 5 7])
        (subscribing ++ [deltaOf 6 7]) :=
      subscribing_alike (.inr ⟨⟨5, rfl, by decide⟩, ⟨6, rfl, by decide⟩⟩) .nil
    let live := (run Live.step .new subscribing).get (by decide +kernel)
    have hrun : run Live.step .new subscribing = some live := (Option.some_get _).symm
    have hdiffer : ¬Same (deltaOf 5 7) (deltaOf 6 7) := by
      intro h
      exact absurd (congrArg privateUserId h) (by decide)
    obtain ⟨hfirst, hsecond⟩ := ((strangers_seen_only_in_markets halike (by decide) (by decide)
      (subscribing_sessionOf (by simp))).1 3 _ _ live live rfl rfl hrun hrun).2 hdiffer
    refine ⟨live, hrun, hfirst, hsecond, ?_, ?_⟩
    · exact List.ne_nil_of_length_pos (by decide +kernel)
    · exact List.ne_nil_of_length_pos (by decide +kernel)
  · have halike : List.Forall₂ (Alike 42) (subscribing ++ [deltaOf 5 8, deltaOf 42 7])
        (subscribing ++ [deltaOf 6 9, deltaOf 42 7]) :=
      subscribing_alike (.inr ⟨⟨5, rfl, by decide⟩, ⟨6, rfl, by decide⟩⟩) (.cons (.inl rfl) .nil)
    refine (strangers_seen_only_in_markets halike (by decide) (by decide)
      (subscribing_sessionOf (by simp))).2 ?_
    intro n input input' next next' hinput hinput' hrun hrun' hdiffer
    match n with
    | 0 | 1 | 2 | 4 =>
      obtain rfl := Option.some.inj hinput
      obtain rfl := Option.some.inj hinput'
      exact absurd rfl hdiffer
    | 3 =>
      obtain rfl := Option.some.inj hinput
      obtain rfl := Option.some.inj hinput'
      obtain rfl := Option.some.inj hrun
      obtain rfl := Option.some.inj hrun'
      refine ⟨?_, ?_⟩
      · rintro ⟨marketId, hmarket, hmem⟩
        obtain rfl := Option.some.inj hmarket
        exact absurd hmem (by decide)
      · rintro ⟨marketId, hmarket, hmem⟩
        obtain rfl := Option.some.inj hmarket
        exact absurd hmem (by decide)
    | n + 5 => exact absurd hinput (Option.some_ne_none input).symm
  · exact List.ne_nil_of_length_pos (by decide +kernel)

/-- A subscriber of market 7 sees what happens to another account there. -/
theorem stranger_seen_by_subscriber :
    ¬ ∀ u inputs inputs', List.Forall₂ (Alike u) inputs inputs' → UniqueIds inputs →
      UniqueIds inputs' → ∀ sessionId, SessionOf u sessionId inputs →
        received sessionId .new inputs = received sessionId .new inputs' := by
  intro hclaim
  have halike : List.Forall₂ (Alike 42) (subscribing ++ [deltaOf 5 7])
      (subscribing ++ [deltaOf 5 8]) :=
    subscribing_alike (.inr ⟨⟨5, rfl, by decide⟩, ⟨5, rfl, by decide⟩⟩) .nil
  have hsame := hclaim 42 _ _ halike (by decide) (by decide) 1 (subscribing_sessionOf (by simp))
  have hseen : (received 1 .new (subscribing ++ [deltaOf 5 7])).length = 1 := by decide +kernel
  have hnothing : (received 1 .new (subscribing ++ [deltaOf 5 8])).length = 0 := by decide +kernel
  rw [hsame, hnothing] at hseen
  exact absurd hseen zero_ne_one

end Ws
