import Mathlib.Data.Finset.Sort
import ExchangeServer.Protocol.WireWallet
import ExchangeServer.Ws.Hub

/-!
# Routing events to sessions

An engine event goes to the sessions of the users it names and to the sessions
that have subscribed to its market; a wallet event goes to the sessions of its
user, once for each event id that is still remembered. What a session gets is a
text made of the event as JSON and its place in the stream.
-/

namespace Ws

open Protocol

/-! ## Messages -/

inductive EventSource
  | engine | wallet
  deriving DecidableEq

structure StreamMetadata where
  topic : String
  partition : ℤ
  offset : ℤ
  deriving DecidableEq

/-- The messages that the router sends. -/
inductive ServerMessage
  | accountEvent (source : EventSource) (event : Json) (metadata : StreamMetadata)
  | marketEvent (marketId : ℤ) (source : EventSource) (event : Json) (metadata : StreamMetadata)

/-- A message without its place in the stream. -/
inductive MessageContent
  | accountEvent (source : EventSource) (event : Json)
  | marketEvent (marketId : ℤ) (source : EventSource) (event : Json)

def ServerMessage.content : ServerMessage → MessageContent
  | .accountEvent source event _ => .accountEvent source event
  | .marketEvent marketId source event _ => .marketEvent marketId source event

def engineEventValue (event : EngineEvent) : Json := EngineEvent.codec.encode event

def walletEventValue (event : WalletEvent) : Json := WalletEvent.codec.encode event

/-! ## Routes -/

def walletEventUserId : WalletEvent → ℤ
  | .fundsReserved event => event.userId
  | .fundsReleased event => event.userId
  | .tradeSettled event => event.userId
  | .depositApplied event => event.userId
  | .withdrawalApplied event => event.userId
  | .accountDeltaApplied event => event.userId

def engineEventMarketId : EngineEvent → Option ℤ
  | .orderOpened event => some event.marketId
  | .orderCancelled event => some event.marketId
  | .orderExpired event => some event.marketId
  | .reservationReleased event => some event.marketId
  | .tradeExecuted event => some event.marketId
  | .orderBookDelta event => some event.marketId
  | .markPriceUpdated event => some event.marketId
  | .fundingRateUpdated event => some event.marketId
  | .fundingPaymentApplied event => some event.marketId
  | .positionChanged event => some event.marketId
  | .riskStateUpdated event => some event.marketId
  | .liquidationStarted event => some event.marketId
  | .liquidationExecuted event => some event.marketId
  | .liquidationCompleted event => some event.marketId
  | .adlExecuted event => some event.marketId
  | .accountDelta event => some event.marketId

def tradeUsers (makerUserId takerUserId : ℤ) : Finset ℤ := {makerUserId, takerUserId}

def engineEventAccountUserIds : EngineEvent → Finset ℤ
  | .orderOpened event => {event.userId}
  | .orderCancelled event => {event.userId}
  | .orderExpired event => {event.userId}
  | .reservationReleased event => {event.userId}
  | .tradeExecuted event =>
    tradeUsers event.makerUserId event.takerUserId ∪ event.liquidatedUserId.toFinset ∪
      (event.feeDeltas.map FeeDelta.userId).toFinset
  | .orderBookDelta _ => ∅
  | .markPriceUpdated _ => ∅
  | .fundingRateUpdated _ => ∅
  | .fundingPaymentApplied event => (event.payments.map FundingPayment.userId).toFinset
  | .positionChanged event => {event.userId}
  | .riskStateUpdated event => {event.userId}
  | .liquidationStarted event => {event.userId}
  | .liquidationExecuted event => {event.userId}
  | .liquidationCompleted event => {event.userId}
  | .adlExecuted event => {event.liquidatedUserId, event.deleveragedUserId}
  | .accountDelta event => {event.userId}

/-! ## Event ids -/

/-- `event_id` of a wallet event; an empty one does not count. -/
def walletEventId (event : WalletEvent) : Option String :=
  let eventId := match event with
    | .fundsReserved event => event.eventId
    | .fundsReleased event => event.eventId
    | .tradeSettled event => event.eventId
    | .depositApplied event => event.eventId
    | .withdrawalApplied event => event.eventId
    | .accountDeltaApplied event => event.eventId
  eventId.filter fun eventId => eventId ≠ ""

structure EventDedupe where
  capacity : ℕ
  order : List String
  seen : Finset String

def EventDedupe.new (capacity : ℕ) : EventDedupe where
  capacity := capacity
  order := []
  seen := ∅

/-- `while order.len() > capacity { .. }` -/
def expire (capacity : ℕ) : List String → Finset String → List String × Finset String
  | [], seen => ([], seen)
  | expired :: order, seen =>
    if (expired :: order).length > capacity then expire capacity order (seen.erase expired)
    else (expired :: order, seen)

def EventDedupe.isDuplicate (dedupe : EventDedupe) (eventId : Option String) :
    Bool × EventDedupe :=
  match eventId.filter (fun eventId => eventId ≠ "") with
  | none => (false, dedupe)
  | some eventId =>
    if eventId ∈ dedupe.seen then (true, dedupe)
    else if dedupe.capacity = 0 then (false, dedupe)
    else
      let kept := expire dedupe.capacity (dedupe.order ++ [eventId]) (insert eventId dedupe.seen)
      (false, { dedupe with order := kept.1, seen := kept.2 })

def walletEventDedupeCapacity : ℕ := 10000

/-! ## The router -/

/-- A text and the sessions that have got it. -/
structure Delivery where
  sessions : Finset ℕ
  message : ServerMessage

def sendAccount (refuses : ℕ → Bool) (state : HubState) (userId : ℤ) (source : EventSource)
    (event : Json) (metadata : StreamMetadata) : HubState × Delivery :=
  let sent := broadcastAccount state userId refuses
  (sent.1, ⟨sent.2, .accountEvent source event metadata⟩)

def sendMarket (refuses : ℕ → Bool) (state : HubState) (marketId : ℤ) (source : EventSource)
    (event : Json) (metadata : StreamMetadata) : HubState × Delivery :=
  let sent := broadcastMarket state marketId refuses
  (sent.1, ⟨sent.2, .marketEvent marketId source event metadata⟩)

/-- `for user_id in account_user_ids { .. }` -/
def sendAccounts (refuses : ℕ → Bool) (source : EventSource) (event : Json)
    (metadata : StreamMetadata) : HubState → List ℤ → HubState × List Delivery
  | state, [] => (state, [])
  | state, userId :: userIds =>
    let sent := sendAccount refuses state userId source event metadata
    let rest := sendAccounts refuses source event metadata sent.1 userIds
    (rest.1, sent.2 :: rest.2)

def processEngineEvent (refuses : ℕ → Bool) (state : HubState) (event : EngineEvent)
    (metadata : StreamMetadata) : HubState × List Delivery :=
  let accountUserIds := engineEventAccountUserIds event
  let marketId := engineEventMarketId event
  if accountUserIds = ∅ ∧ marketId = none then (state, [])
  else
    let eventValue := engineEventValue event
    let accounts := sendAccounts refuses .engine eventValue metadata state
      (accountUserIds.sort (· ≤ ·))
    match marketId with
    | none => accounts
    | some marketId =>
      let market := sendMarket refuses accounts.1 marketId .engine eventValue metadata
      (market.1, accounts.2 ++ [market.2])

def processWalletEvent (refuses : ℕ → Bool) (state : HubState) (dedupe : EventDedupe)
    (event : WalletEvent) (metadata : StreamMetadata) :
    HubState × EventDedupe × List Delivery :=
  let duplicate := dedupe.isDuplicate (walletEventId event)
  if duplicate.1 then (state, duplicate.2, [])
  else
    let sent := sendAccount refuses state (walletEventUserId event) .wallet
      (walletEventValue event) metadata
    (sent.1, duplicate.2, [sent.2])

end Ws
