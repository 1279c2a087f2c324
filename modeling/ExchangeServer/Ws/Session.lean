import Mathlib
import ExchangeServer.Foundation.Machine
import ExchangeServer.Ws.Router

/-!
# Sessions of clients

Every connection has an actor. It answers the frames of its client, and what it asks of
the hub it asks in futures of its own, which end in any order: one registers the session,
the others subscribe it to markets and unsubscribe it. When the actor stops its futures
are dropped and a task of nobody unregisters the session. A push waits in the mailbox of
the actor until the actor writes it to its client.

The consumers route events meanwhile, one broadcast after the other; broadcasts of
different partitions and the calls of the sessions come to the hub in any order. Pings
and the clock of the heartbeat are left out: a session may stop at any time.
-/

namespace Ws

open Protocol

local instance transIds : IsTrans ℤ fun a b => a ≤ b := ⟨fun _ _ _ => Int.le_trans⟩

local instance antisymmIds : Std.Antisymm fun a b : ℤ => a ≤ b := ⟨fun _ _ => Int.le_antisymm⟩

/-! ## Messages -/

/-- Whose session it is; the token was checked before. -/
structure Claim where
  userid : ℤ
  username : String
  deriving DecidableEq

structure MarketSubscription where
  markets : List ℤ

structure PingPayload where
  nonce : Option String

inductive ClientMessage
  | subscribe (payload : MarketSubscription)
  | unsubscribe (payload : MarketSubscription)
  | ping (payload : PingPayload)

open FieldCodec in
def MarketSubscription.codec : Codec MarketSubscription :=
  Fields.start MarketSubscription MarketSubscription.mk
    |>.field "markets" (·.markets) (required (.list .i64))
    |>.struct (by decide) fun _ => rfl

open FieldCodec in
def PingPayload.codec : Codec PingPayload :=
  Fields.start PingPayload PingPayload.mk
    |>.field "nonce" (·.nonce) (nullable .string)
    |>.struct (by decide) fun _ => rfl

def ClientMessage.decodeVariant : String × Json → Option ClientMessage
  | ("Subscribe", payload) => (MarketSubscription.codec.decode payload).map .subscribe
  | ("Unsubscribe", payload) => (MarketSubscription.codec.decode payload).map .unsubscribe
  | ("Ping", payload) => (PingPayload.codec.decode payload).map .ping
  | _ => none

def ClientMessage.decode (json : Json) : Option ClientMessage :=
  (Json.untag json).bind decodeVariant

/-- What a session writes to its client: answers of its own, and pushes. -/
inductive ClientText
  | welcome (userId : ℤ) (username : String)
  | subscribed (markets : List ℤ)
  | unsubscribed (markets : List ℤ)
  | pong (nonce : Option String)
  | error (message : String)
  | push (message : ServerMessage)

/-- A frame of a client; a text may not be JSON. -/
inductive Frame
  | text (json : Option Json)
  | binary
  | continuation

/-! ## The actor -/

/-- A future of a session, as far as it has come. `Id` stands for what the session is
called in the hub. -/
inductive Task (Id : Type)
  | register
  | registering (sessionId : Id)
  | subscribe (sessionId : Id) (markets : List ℤ)
  | unsubscribe (sessionId : Id) (markets : List ℤ)

structure WsSession (Id : Type) where
  sessionId : Option Id
  claim : Claim
  tasks : List (Task Id)
  mailbox : List ServerMessage
  sent : List ClientText
  running : Bool

def normalizeMarkets (markets : List ℤ) : Except String (List ℤ) :=
  if markets.any fun marketId => marketId ≤ 0 then .error "market ids must be greater than zero"
  else .ok (markets.toFinset.sort (· ≤ ·))

namespace WsSession

variable {Id : Type} (self : WsSession Id)

def started (claim : Claim) : WsSession Id where
  sessionId := none
  claim := claim
  tasks := [.register]
  mailbox := []
  sent := []
  running := true

def sendServerMessage (text : ClientText) : WsSession Id :=
  { self with sent := self.sent ++ [text] }

def spawn (task : Task Id) : WsSession Id := { self with tasks := self.tasks ++ [task] }

/-- What `subscribe` and `unsubscribe` do before their futures. -/
def request (markets : List ℤ) (task : Id → List ℤ → Task Id) : WsSession Id :=
  match self.sessionId with
  | none => self.sendServerMessage (.error "session is not ready")
  | some sessionId =>
    match normalizeMarkets markets with
    | .error message => self.sendServerMessage (.error message)
    | .ok markets => self.spawn (task sessionId markets)

def subscribe (markets : List ℤ) : WsSession Id := self.request markets .subscribe

def unsubscribe (markets : List ℤ) : WsSession Id := self.request markets .unsubscribe

def handleText (json : Option Json) : WsSession Id :=
  match json.bind ClientMessage.decode with
  | some (.subscribe payload) => self.subscribe payload.markets
  | some (.unsubscribe payload) => self.unsubscribe payload.markets
  | some (.ping payload) => self.sendServerMessage (.pong payload.nonce)
  | none => self.sendServerMessage (.error "invalid client message")

def handleFrame : Frame → WsSession Id
  | .text json => self.handleText json
  | .binary => self.sendServerMessage (.error "binary messages are not supported")
  | .continuation => self.sendServerMessage (.error "continuation messages are not supported")

/-- The next push of the mailbox. -/
def handlePush : Option (WsSession Id) :=
  match self.mailbox with
  | [] => none
  | message :: mailbox =>
    some { self with mailbox := mailbox, sent := self.sent ++ [.push message] }

/-- The futures and the mailbox go with the actor. -/
def stopped : WsSession Id := { self with tasks := [], mailbox := [], running := false }

/-- The future `i` has taken an id and waits for the lock. -/
def takesId (i : ℕ) (sessionId : Id) : WsSession Id :=
  { self with tasks := self.tasks.set i (.registering sessionId) }

/-- The future `i` ends with a text. -/
def finish (i : ℕ) (text : ClientText) : WsSession Id :=
  { self with tasks := self.tasks.eraseIdx i, sent := self.sent ++ [text] }

def registered (i : ℕ) (sessionId : Id) : WsSession Id :=
  { self.finish i (.welcome self.claim.userid self.claim.username) with sessionId := some sessionId }

def pushed (message : ServerMessage) : WsSession Id :=
  { self with mailbox := self.mailbox ++ [message] }

end WsSession

/-! ## Routing -/

inductive Target
  | account (userId : ℤ)
  | market (marketId : ℤ)

structure Broadcast where
  target : Target
  message : ServerMessage

/-- The broadcasts of `process_engine_event`. -/
def engineBroadcasts (event : EngineEvent) (metadata : StreamMetadata) : List Broadcast :=
  (((engineEventAccountUserIds event).sort (· ≤ ·)).map fun userId =>
    ⟨.account userId, .accountEvent .engine (engineEventValue event) metadata⟩) ++
  (engineEventMarketId event).toList.map fun marketId =>
    ⟨.market marketId, .marketEvent marketId .engine (engineEventValue event) metadata⟩

/-- The broadcasts of `process_wallet_event` for an event that is no duplicate. -/
def walletBroadcasts (event : WalletEvent) (metadata : StreamMetadata) : List Broadcast :=
  [⟨.account (walletEventUserId event), .accountEvent .wallet (walletEventValue event) metadata⟩]

def HubState.broadcast (state : HubState) : Target → (ℕ → Bool) → HubState × Finset ℕ
  | .account userId => broadcastAccount state userId
  | .market marketId => broadcastMarket state marketId

/-- The router, and for each partition what is left of the event at hand. -/
structure Routing where
  dedupe : EventDedupe
  pending : ℕ → List Broadcast

namespace Routing

def new : Routing where
  dedupe := .new walletEventDedupeCapacity
  pending _ := []

variable (routing : Routing)

/-- A partition takes its next event when it is through with the last one. -/
def engineEvent (partition : ℕ) (event : EngineEvent) (metadata : StreamMetadata) :
    Option Routing :=
  if (routing.pending partition).isEmpty then some { routing with
    pending := Function.update routing.pending partition (engineBroadcasts event metadata) }
  else none

def walletEvent (partition : ℕ) (event : WalletEvent) (metadata : StreamMetadata) :
    Option Routing :=
  if (routing.pending partition).isEmpty then
    let duplicate := routing.dedupe.isDuplicate (walletEventId event)
    some {
      dedupe := duplicate.2
      pending := Function.update routing.pending partition
        (if duplicate.1 then [] else walletBroadcasts event metadata) }
  else none

/-- The next broadcast of a partition. -/
def next (partition : ℕ) : Option (Broadcast × Routing) :=
  match routing.pending partition with
  | [] => none
  | broadcast :: pending => some (broadcast,
      { routing with pending := Function.update routing.pending partition pending })

end Routing

/-! ## The service -/

/-- The sessions by their connections, the connection of each id of the hub, and the
ids that are to be unregistered. -/
structure Service where
  hub : Hub
  recipients : ℕ → Option ℕ
  sessions : ℕ → Option (WsSession ℕ)
  leaving : List ℕ
  routing : Routing

inductive SessionAction
  | frame (frame : Frame)
  | poll (i : ℕ)
  | push
  | stop

/-- `refuses` says which connections refuse the message. -/
inductive ServiceAction
  | connect (connection : ℕ) (claim : Claim)
  | session (connection : ℕ) (action : SessionAction)
  | unregister (i : ℕ)
  | engineEvent (partition : ℕ) (event : EngineEvent) (metadata : StreamMetadata)
  | walletEvent (partition : ℕ) (event : WalletEvent) (metadata : StreamMetadata)
  | broadcast (partition : ℕ) (refuses : ℕ → Bool)

namespace Service

def new : Service where
  hub := .new
  recipients _ := none
  sessions _ := none
  leaving := []
  routing := .new

variable (self : Service)

def put (connection : ℕ) (session : WsSession ℕ) : Service :=
  { self with sessions := Function.update self.sessions connection (some session) }

/-- A future is polled up to its next wait or its end. -/
def runTask (connection : ℕ) (session : WsSession ℕ) (i : ℕ) : Task ℕ → Option Service
  | .register =>
    (self.hub.call .takeSessionId).map fun hub =>
      { self with hub := hub }.put connection (session.takesId i self.hub.nextSessionId)
  | .registering sessionId =>
    (self.hub.call (.register sessionId session.claim.userid)).map fun hub =>
      { self with
        hub := hub
        recipients := Function.update self.recipients sessionId (some connection) }.put
          connection (session.registered i sessionId)
  | .subscribe sessionId markets =>
    (self.hub.call (.subscribeMarkets sessionId markets)).map fun hub =>
      { self with hub := hub }.put connection (session.finish i (.subscribed markets))
  | .unsubscribe sessionId markets =>
    (self.hub.call (.unsubscribeMarkets sessionId markets)).map fun hub =>
      { self with hub := hub }.put connection (session.finish i (.unsubscribed markets))

def sessionStep (connection : ℕ) (session : WsSession ℕ) : SessionAction → Option Service
  | .frame frame => some (self.put connection (session.handleFrame frame))
  | .poll i => session.tasks[i]?.bind (self.runTask connection session i)
  | .push => session.handlePush.map (self.put connection)
  | .stop => some { self.put connection session.stopped with
      leaving := self.leaving ++ session.sessionId.toList }

/-- The recipient of a session refuses, or its actor has stopped. -/
def refusesId (refuses : ℕ → Bool) (sessionId : ℕ) : Bool :=
  match (self.recipients sessionId).bind self.sessions with
  | none => true
  | some session => !session.running || (self.recipients sessionId).all refuses

/-- The mailboxes after a message has reached some sessions. -/
def deliver (delivered : Finset ℕ) (message : ServerMessage) (connection : ℕ) :
    Option (WsSession ℕ) :=
  (self.sessions connection).map fun session =>
    if ∃ sessionId ∈ delivered, self.recipients sessionId = some connection then
      session.pushed message
    else session

def send (broadcast : Broadcast) (refuses : ℕ → Bool) : Service :=
  let sent := self.hub.inner.broadcast broadcast.target (self.refusesId refuses)
  { self with
    hub := { self.hub with inner := sent.1 }
    sessions := self.deliver sent.2 broadcast.message }

def step : ServiceAction → Option Service
  | .connect connection claim =>
    if (self.sessions connection).isNone then some (self.put connection (.started claim)) else none
  | .session connection action =>
    ((self.sessions connection).filter (·.running)).bind fun session =>
      self.sessionStep connection session action
  | .unregister i =>
    self.leaving[i]?.bind fun sessionId =>
      (self.hub.call (.unregister sessionId)).map fun hub =>
        { self with hub := hub, leaving := self.leaving.eraseIdx i }
  | .engineEvent partition event metadata =>
    (self.routing.engineEvent partition event metadata).map fun routing =>
      { self with routing := routing }
  | .walletEvent partition event metadata =>
    (self.routing.walletEvent partition event metadata).map fun routing =>
      { self with routing := routing }
  | .broadcast partition refuses =>
    (self.routing.next partition).map fun next =>
      { self.send next.1 refuses with routing := next.2 }

end Service

/-! ## The broadcasts of the router -/

/-- Broadcasts that are done one after the other. -/
def broadcastAll (refuses : ℕ → Bool) : HubState → List Broadcast → HubState × List Delivery
  | state, [] => (state, [])
  | state, broadcast :: broadcasts =>
    let sent := state.broadcast broadcast.target refuses
    let rest := broadcastAll refuses sent.1 broadcasts
    (rest.1, ⟨sent.2, broadcast.message⟩ :: rest.2)

theorem broadcastAll_append (refuses : ℕ → Bool) (state : HubState) (bs bs' : List Broadcast) :
    broadcastAll refuses state (bs ++ bs') =
      let first := broadcastAll refuses state bs
      let second := broadcastAll refuses first.1 bs'
      (second.1, first.2 ++ second.2) := by
  induction bs generalizing state with
  | nil => rfl
  | cons b bs ih =>
    rw [List.cons_append, broadcastAll, ih]
    rfl

theorem broadcastAll_accounts (refuses : ℕ → Bool) (state : HubState) (source : EventSource)
    (event : Json) (metadata : StreamMetadata) (userIds : List ℤ) :
    broadcastAll refuses state (userIds.map fun userId =>
      ⟨.account userId, .accountEvent source event metadata⟩) =
        sendAccounts refuses source event metadata state userIds := by
  induction userIds generalizing state with
  | nil => rfl
  | cons userId userIds ih =>
    rw [List.map_cons, broadcastAll, ih]
    rfl

/-- An event is routed by its broadcasts. -/
theorem processEngineEvent_eq (refuses : ℕ → Bool) (state : HubState) (event : EngineEvent)
    (metadata : StreamMetadata) :
    processEngineEvent refuses state event metadata =
      broadcastAll refuses state (engineBroadcasts event metadata) := by
  obtain ⟨marketId, hmarket⟩ : ∃ marketId, engineEventMarketId event = some marketId := by
    cases event <;> exact ⟨_, rfl⟩
  rw [processEngineEvent, hmarket, if_neg fun h => Option.some_ne_none marketId h.2,
    engineBroadcasts, hmarket, broadcastAll_append, broadcastAll_accounts]
  rfl

theorem processWalletEvent_eq (refuses : ℕ → Bool) (state : HubState) (dedupe : EventDedupe)
    (event : WalletEvent) (metadata : StreamMetadata) :
    processWalletEvent refuses state dedupe event metadata =
      let duplicate := dedupe.isDuplicate (walletEventId event)
      let sent := broadcastAll refuses state
        (if duplicate.1 then [] else walletBroadcasts event metadata)
      (sent.1, duplicate.2, sent.2) := by
  rw [processWalletEvent]
  cases hduplicate : (dedupe.isDuplicate (walletEventId event)).1 <;> simp only [hduplicate] <;> rfl

end Ws
