import Mathlib.Data.List.InsertIdx
import ExchangeServer.Ws.SessionRuns

/-!
# Subscribers

Seen from one client the service is a subscriber: a session alone, with the markets that
it has subscribed to, or with none from the moment that it refuses a message or stops. A
subscriber knows no ids and no other session. What the service does to a session in any
run is what the subscriber does with the actions of its own client and the events, so no
client is affected by what the others do, how many they are, or in which order the hub
serves them.

## Main definitions

- `Subscriber`: a session alone
- `View`: the router and one subscriber
- `Service.view`: what of the service a client sees

## Main results

- `clients_are_independent`: the view of a client after a run of the service
- `texts_follow_subscriptions`: what a client is told and sent
-/

namespace Ws

open Machine Service Protocol

/-! ## Subscribers -/

/-- A session that has no name; `markets` is none when it will get no more messages. -/
structure Subscriber where
  session : WsSession Unit
  markets : Option (Finset ℤ)

namespace Subscriber

variable (self : Subscriber)

def started (claim : Claim) : Subscriber where
  session := .started claim
  markets := none

def runTask (i : ℕ) : Task Unit → Subscriber
  | .register => { self with session := self.session.takesId i () }
  | .registering _ => { session := self.session.registered i (), markets := some ∅ }
  | .subscribe _ markets =>
    { session := self.session.finish i (.subscribed markets)
      markets := self.markets.map fun subscribed => subscribed ∪ markets.toFinset }
  | .unsubscribe _ markets =>
    { session := self.session.finish i (.unsubscribed markets)
      markets := self.markets.map fun subscribed => subscribed \ markets.toFinset }

def step : SessionAction → Option Subscriber
  | .frame frame => some { self with session := self.session.handleFrame frame }
  | .poll i => self.session.tasks[i]?.map (self.runTask i)
  | .push => self.session.handlePush.map fun session => { self with session := session }
  | .stop => some { session := self.session.stopped, markets := none }

/-- Whether a broadcast is for the subscriber. -/
def hears : Target → Bool
  | .account userId => self.markets.isSome && self.session.claim.userid == userId
  | .market marketId => self.markets.any fun subscribed => marketId ∈ subscribed

def receive (broadcast : Broadcast) (refuses : Bool) : Subscriber :=
  if self.hears broadcast.target then
    if refuses then { self with markets := none }
    else { self with session := self.session.pushed broadcast.message }
  else self

end Subscriber

/-- The router, and the session of one connection if it has begun. -/
structure View where
  routing : Routing
  subscriber : Option Subscriber

namespace View

def new : View where
  routing := .new
  subscriber := none

/-- What an action does to the view of a connection. -/
def step (connection : ℕ) (self : View) : ServiceAction → Option View
  | .connect other claim =>
    if other = connection then
      if self.subscriber.isNone then some { self with subscriber := some (.started claim) } else none
    else some self
  | .session other action =>
    if other = connection then
      ((self.subscriber.filter (·.session.running)).bind (·.step action)).map fun subscriber =>
        { self with subscriber := some subscriber }
    else some self
  | .unregister _ => some self
  | .engineEvent partition event metadata =>
    (self.routing.engineEvent partition event metadata).map fun routing =>
      { self with routing := routing }
  | .walletEvent partition event metadata =>
    (self.routing.walletEvent partition event metadata).map fun routing =>
      { self with routing := routing }
  | .broadcast partition refuses =>
    (self.routing.next partition).map fun next =>
      { routing := next.2
        subscriber := self.subscriber.map (·.receive next.1 (refuses connection)) }

end View

/-! ## Sessions without their names -/

def Task.forget : Task ℕ → Task Unit
  | .register => .register
  | .registering _ => .registering ()
  | .subscribe _ markets => .subscribe () markets
  | .unsubscribe _ markets => .unsubscribe () markets

namespace WsSession

def forget (session : WsSession ℕ) : WsSession Unit where
  sessionId := session.sessionId.map fun _ => ()
  claim := session.claim
  tasks := session.tasks.map Task.forget
  mailbox := session.mailbox
  sent := session.sent
  running := session.running

section Forget

variable {session : WsSession ℕ} {i sessionId : ℕ}

theorem forget_started (claim : Claim) : (started claim : WsSession ℕ).forget = started claim := rfl

theorem forget_request (markets : List ℤ) (task : ℕ → List ℤ → Task ℕ)
    (task' : Unit → List ℤ → Task Unit)
    (htask : ∀ sessionId markets, (task sessionId markets).forget = task' () markets) :
    (session.request markets task).forget = session.forget.request markets task' := by
  rw [request, request]
  cases hid : session.sessionId with
  | none =>
    have hforget : session.forget.sessionId = none := by rw [forget, hid, Option.map_none]
    rw [hforget]
    rfl
  | some sessionId =>
    have hforget : session.forget.sessionId = some () := by rw [forget, hid, Option.map_some]
    rw [hforget]
    dsimp only
    cases normalizeMarkets markets with
    | error message => rfl
    | ok markets =>
      simp only [forget, spawn, List.map_append, List.map_singleton, htask]

theorem forget_handleFrame (frame : Frame) :
    (session.handleFrame frame).forget = session.forget.handleFrame frame := by
  cases frame with
  | text json =>
    rw [handleFrame, handleFrame, handleText, handleText]
    cases json.bind ClientMessage.decode with
    | none => rfl
    | some message =>
      cases message with
      | subscribe payload => exact forget_request _ _ _ fun _ _ => rfl
      | unsubscribe payload => exact forget_request _ _ _ fun _ _ => rfl
      | ping payload => rfl
  | binary | continuation => rfl

theorem forget_handlePush : session.handlePush.map forget = session.forget.handlePush := by
  rw [handlePush, handlePush]
  have hmailbox : session.forget.mailbox = session.mailbox := rfl
  rw [hmailbox]
  cases session.mailbox <;> rfl

theorem forget_stopped : session.stopped.forget = session.forget.stopped := rfl

theorem forget_pushed (message : ServerMessage) :
    (session.pushed message).forget = session.forget.pushed message := rfl

theorem forget_takesId : (session.takesId i sessionId).forget = session.forget.takesId i () := by
  simp only [forget, takesId, List.map_set, Task.forget]

theorem forget_finish (text : ClientText) :
    (session.finish i text).forget = session.forget.finish i text := by
  simp only [forget, finish, List.eraseIdx_map]

theorem forget_registered : (session.registered i sessionId).forget = session.forget.registered i () := by
  simp only [forget, registered, finish, List.eraseIdx_map, Option.map_some]

end Forget

end WsSession

/-! ## The view of a connection -/

namespace Service

/-- The markets that the hub keeps for a session whose actor runs. -/
def markets (σ : Service) (session : WsSession ℕ) : Option (Finset ℤ) :=
  if session.running then
    (session.sessionId.bind σ.hub.inner.sessions.lookup).map SessionHandle.markets
  else none

def subscriber (σ : Service) (session : WsSession ℕ) : Subscriber where
  session := session.forget
  markets := σ.markets session

def view (σ : Service) (connection : ℕ) : View where
  routing := σ.routing
  subscriber := (σ.sessions connection).map σ.subscriber

section View

variable {σ σ' : Service} {connection other : ℕ} {session session' : WsSession ℕ} {sessionId : ℕ}

theorem view_put_self (σ : Service) (connection : ℕ) (session : WsSession ℕ) :
    (σ.put connection session).view connection =
      { routing := σ.routing, subscriber := some (σ.subscriber session) } := by
  have hself : (σ.put connection session).sessions connection = some session :=
    Function.update_self ..
  rw [view, hself]
  rfl

/-- The view of a session that is left alone and that the hub treats as before. -/
theorem view_congr (hrouting : σ'.routing = σ.routing)
    (hsessions : σ'.sessions other = σ.sessions other)
    (hmarkets : ∀ session, σ.sessions other = some session → σ'.markets session = σ.markets session) :
    σ'.view other = σ.view other := by
  rw [view, view, hrouting, hsessions]
  cases hsession : σ.sessions other with
  | none => rfl
  | some session =>
    rw [Option.map_some, Option.map_some, subscriber, subscriber, hmarkets session hsession]

theorem markets_congr (hlookup : ∀ sessionId, session.running → session.sessionId = some sessionId →
    σ'.hub.inner.sessions.lookup sessionId = σ.hub.inner.sessions.lookup sessionId) :
    σ'.markets session = σ.markets session := by
  rw [markets, markets]
  cases hrunning : session.running with
  | false => rfl
  | true =>
    cases hid : session.sessionId with
    | none => rfl
    | some sessionId => rw [Option.bind_some, Option.bind_some, hlookup sessionId hrunning hid]

theorem markets_of_running (hrunning : session.running) (hid : session.sessionId = some sessionId) :
    σ.markets session = (σ.hub.inner.sessions.lookup sessionId).map SessionHandle.markets := by
  rw [markets, if_pos hrunning, hid, Option.bind_some]

/-- A session that the hub treats under another id. -/
theorem view_put_ne (hne : other ≠ connection) {hub : Hub} {recipients : ℕ → Option ℕ}
    (hlookup : ∀ session id, σ.sessions other = some session → session.sessionId = some id →
      hub.inner.sessions.lookup id = σ.hub.inner.sessions.lookup id) :
    (({ σ with hub := hub, recipients := recipients }).put connection session).view other =
      σ.view other := by
  refine view_congr rfl (Function.update_of_ne hne ..) fun session' hsession' => ?_
  exact markets_congr fun id _ hid => hlookup session' id hsession' hid

/-- What an action of another client does to a view. -/
theorem view_sessionStep_ne (h : σ.Sound) (hsession : σ.sessions connection = some session)
    (hne : other ≠ connection) {action : SessionAction}
    (hstep : σ.sessionStep connection session action = some σ') : σ'.view other = σ.view other := by
  cases action with
  | frame frame =>
    cases hstep
    exact view_put_ne hne fun _ _ _ _ => rfl
  | push =>
    obtain ⟨session', -, rfl⟩ := Option.map_eq_some_iff.1 hstep
    exact view_put_ne hne fun _ _ _ _ => rfl
  | stop =>
    cases hstep
    exact view_put_ne hne fun _ _ _ _ => rfl
  | poll i =>
    obtain ⟨task, htask, hrun⟩ := Option.bind_eq_some_iff.1 hstep
    have hmem := List.mem_of_getElem? htask
    have hapart : ∀ {session' : WsSession ℕ} {id id' : ℕ}, σ.sessions other = some session' →
        session'.sessionId = some id' → session.sessionId = some id → id' ≠ id := by
      rintro session' id _ hsession' hid' hid rfl
      exact hne (h.unique hsession' hsession hid' hid)
    cases task with
    | register =>
      obtain rfl := Option.some.inj hrun
      exact view_put_ne hne fun _ _ _ _ => rfl
    | registering sessionId =>
      obtain ⟨hub, hcall, rfl⟩ := Option.map_eq_some_iff.1 hrun
      obtain ⟨htaken, heq⟩ := Option.ite_none_right_eq_some.1 hcall
      cases heq
      refine view_put_ne hne fun session' id hsession' hid => Finmap.lookup_insert_of_ne _ ?_
      rintro rfl
      exact h.apart id htaken (h.registered other session' id hsession' hid).1
    | subscribe sessionId markets =>
      obtain ⟨hub, hcall, rfl⟩ := Option.map_eq_some_iff.1 hrun
      obtain ⟨-, heq⟩ := Option.ite_none_right_eq_some.1 hcall
      cases heq
      have hid := (h.own connection session hsession).named _ hmem _ rfl
      exact view_put_ne hne fun session' id hsession' hid' =>
        lookup_subscribeMarkets_of_ne (hapart hsession' hid' hid) markets
    | unsubscribe sessionId markets =>
      obtain ⟨hub, hcall, rfl⟩ := Option.map_eq_some_iff.1 hrun
      obtain ⟨-, heq⟩ := Option.ite_none_right_eq_some.1 hcall
      cases heq
      have hid := (h.own connection session hsession).named _ hmem _ rfl
      exact view_put_ne hne fun session' id hsession' hid' =>
        lookup_unsubscribeMarkets_of_ne (hapart hsession' hid' hid) markets

theorem view_of_session (hsession : σ.sessions connection = some session) :
    σ.view connection = { routing := σ.routing, subscriber := some (σ.subscriber session) } := by
  rw [view, hsession, Option.map_some]

/-- The markets of a session that has gone on without the hub. -/
theorem markets_of_continues (hgoes : session.Continues session') (hhub : σ'.hub = σ.hub) :
    σ'.markets session' = σ.markets session := by
  rw [Service.markets, Service.markets, hgoes.running, hgoes.sessionId, hhub]

/-- The view of a session that goes by an id in a hub. -/
theorem view_put_known {hub : Hub} {recipients : ℕ → Option ℕ} (hrunning : session.running)
    (hid : session.sessionId = some sessionId) :
    (({ σ with hub := hub, recipients := recipients }).put connection session).view connection =
      View.mk σ.routing (some (Subscriber.mk session.forget
        ((hub.inner.sessions.lookup sessionId).map SessionHandle.markets))) := by
  rw [view_put_self, subscriber, markets_of_running hrunning hid]

theorem view_poll (h : σ.Sound) (hsession : σ.sessions connection = some session)
    (hrunning : session.running) {i : ℕ} {task : Task ℕ} (htask : session.tasks[i]? = some task)
    (hrun : σ.runTask connection session i task = some σ') :
    σ'.view connection =
      View.mk σ.routing (some ((σ.subscriber session).runTask i task.forget)) := by
  have hmem := List.mem_of_getElem? htask
  cases task with
  | register =>
    obtain rfl := Option.some.inj hrun
    have hsubscriber : σ.subscriber (session.takesId i σ.hub.nextSessionId) =
        Subscriber.mk (session.forget.takesId i ()) (σ.markets session) :=
      congrArg₂ Subscriber.mk WsSession.forget_takesId rfl
    exact (view_put_self ..).trans (congrArg (fun s => View.mk σ.routing (some s)) hsubscriber)
  | registering sessionId =>
    obtain ⟨hub, hcall, rfl⟩ := Option.map_eq_some_iff.1 hrun
    obtain ⟨-, heq⟩ := Option.ite_none_right_eq_some.1 hcall
    cases heq
    have hregistered : (session.registered i sessionId).running := hrunning
    have hlookup : (register σ.hub.inner sessionId session.claim.userid).sessions.lookup sessionId =
        some { userId := session.claim.userid, markets := ∅ } := Finmap.lookup_insert _
    rw [view_put_known hregistered rfl, WsSession.forget_registered, hlookup]
    rfl
  | subscribe sessionId markets =>
    obtain ⟨hub, hcall, rfl⟩ := Option.map_eq_some_iff.1 hrun
    obtain ⟨-, heq⟩ := Option.ite_none_right_eq_some.1 hcall
    cases heq
    have hid := (h.own connection session hsession).named _ hmem _ rfl
    have hfinished : (session.finish i (.subscribed markets)).running := hrunning
    have hid' : (session.finish i (.subscribed markets)).sessionId = some sessionId := hid
    rw [view_put_known hfinished hid', WsSession.forget_finish, lookup_subscribeMarkets_self,
      subscriber, markets_of_running hrunning hid, Task.forget, Subscriber.runTask, Option.map_map,
      Option.map_map]
    rfl
  | unsubscribe sessionId markets =>
    obtain ⟨hub, hcall, rfl⟩ := Option.map_eq_some_iff.1 hrun
    obtain ⟨-, heq⟩ := Option.ite_none_right_eq_some.1 hcall
    cases heq
    have hid := (h.own connection session hsession).named _ hmem _ rfl
    have hfinished : (session.finish i (.unsubscribed markets)).running := hrunning
    have hid' : (session.finish i (.unsubscribed markets)).sessionId = some sessionId := hid
    rw [view_put_known hfinished hid', WsSession.forget_finish, lookup_unsubscribeMarkets_self,
      subscriber, markets_of_running hrunning hid, Task.forget, Subscriber.runTask, Option.map_map,
      Option.map_map]
    rfl

/-- What an action of the client does to its own view. -/
theorem view_sessionStep_self (h : σ.Sound) (hsession : σ.sessions connection = some session)
    (hrunning : session.running) {action : SessionAction}
    (hstep : σ.sessionStep connection session action = some σ') :
    ((σ.subscriber session).step action).map (fun subscriber =>
      View.mk σ.routing (some subscriber)) = some (σ'.view connection) := by
  cases action with
  | frame frame =>
    cases hstep
    have hsubscriber : σ.subscriber (session.handleFrame frame) =
        Subscriber.mk (session.forget.handleFrame frame) (σ.markets session) :=
      congrArg₂ Subscriber.mk (WsSession.forget_handleFrame frame)
        (markets_of_continues (WsSession.continues_handleFrame frame) rfl)
    rw [view_put_self, hsubscriber]
    rfl
  | push =>
    obtain ⟨session', hpush, rfl⟩ := Option.map_eq_some_iff.1 hstep
    have hsubscriber : σ.subscriber session' = Subscriber.mk session'.forget (σ.markets session) :=
      congrArg (Subscriber.mk _) (markets_of_continues (WsSession.continues_handlePush hpush) rfl)
    have hforget : (σ.subscriber session).session.handlePush = some session'.forget := by
      change session.forget.handlePush = _
      rw [← WsSession.forget_handlePush, hpush, Option.map_some]
    rw [view_put_self, hsubscriber, Subscriber.step, hforget]
    rfl
  | stop =>
    cases hstep
    have hafter : (σ.afterStop connection session).sessions connection = some session.stopped :=
      Function.update_self ..
    change _ = some ((σ.afterStop connection session).view connection)
    rw [view_of_session hafter]
    rfl
  | poll i =>
    obtain ⟨task, htask, hrun⟩ := Option.bind_eq_some_iff.1 hstep
    have hforget : (σ.subscriber session).session.tasks[i]? = some task.forget := by
      change (session.tasks.map Task.forget)[i]? = _
      rw [List.getElem?_map, htask, Option.map_some]
    rw [view_poll h hsession hrunning htask hrun, Subscriber.step, hforget]
    rfl

/-! ### Broadcasts -/

/-- A running session is among the targets of a broadcast when its subscriber hears it. -/
theorem mem_targets (h : σ.Sound) (hsession : σ.sessions connection = some session)
    (hrunning : session.running) (hid : session.sessionId = some sessionId)
    {handle : SessionHandle} (hknown : σ.hub.inner.sessions.lookup sessionId = some handle)
    (target : Target) :
    sessionId ∈ σ.hub.inner.targets target ↔ (σ.subscriber session).hears target := by
  have hmarkets : σ.markets session = some handle.markets := by
    rw [markets_of_running hrunning hid, hknown, Option.map_some]
  have huser := (h.registered connection session sessionId hsession hid).2 handle hknown
  cases target with
  | account userId =>
    have hhears : (σ.subscriber session).hears (.account userId) =
        (session.claim.userid == userId) := by
      change ((σ.markets session).isSome && _) = _
      rw [hmarkets]
      rfl
    rw [hhears, HubState.targets, h.agree.users, hknown, beq_iff_eq, ← huser]
    simp
  | market marketId =>
    have hhears : (σ.subscriber session).hears (.market marketId) =
        decide (marketId ∈ handle.markets) := by
      change (σ.markets session).any _ = _
      rw [hmarkets]
      rfl
    rw [hhears, HubState.targets, h.agree.markets marketId sessionId handle hknown,
      decide_eq_true_iff]

theorem refusesId_of_running (h : σ.Sound) (hsession : σ.sessions connection = some session)
    (hid : session.sessionId = some sessionId) (refuses : ℕ → Bool) :
    σ.refusesId refuses sessionId = (!session.running || refuses connection) := by
  have hrecipient := (h.recipient sessionId connection).2 ⟨session, hsession, hid⟩
  rw [refusesId, hrecipient, Option.bind_some, hsession]
  rfl

/-- Only a session that has reached the connection brings it a message. -/
theorem delivered_iff (h : σ.Sound) (hsession : σ.sessions connection = some session)
    (hid : session.sessionId = some sessionId) (delivered : Finset ℕ) :
    (∃ id ∈ delivered, σ.recipients id = some connection) ↔ sessionId ∈ delivered := by
  constructor
  · rintro ⟨id, hmem, hrecipient⟩
    obtain ⟨session', hsession', hid'⟩ := (h.recipient id connection).1 hrecipient
    rw [Option.some.inj (hsession'.symm.trans hsession), hid] at hid'
    rw [Option.some.inj hid']
    exact hmem
  · exact fun hmem => ⟨sessionId, hmem, (h.recipient sessionId connection).2 ⟨session, hsession, hid⟩⟩

/-- A subscriber that gets no more messages hears nothing. -/
theorem receive_of_none {subscriber : Subscriber} (hnone : subscriber.markets = none)
    (broadcast : Broadcast) (refuses : Bool) : subscriber.receive broadcast refuses = subscriber := by
  have hhears : subscriber.hears broadcast.target = false := by
    cases broadcast.target with
    | account userId =>
      change (subscriber.markets.isSome && _) = false
      rw [hnone]
      rfl
    | market marketId =>
      change subscriber.markets.any _ = false
      rw [hnone]
      rfl
  rw [Subscriber.receive, hhears, if_neg Bool.false_ne_true]

/-- What a broadcast does to a session: it is delivered, and the session is dropped. -/
theorem view_send_some (hsession : σ.sessions connection = some session) (broadcast : Broadcast)
    (refuses : ℕ → Bool) (routing : Routing) :
    ({ σ.send broadcast refuses with routing := routing } : Service).view connection =
      View.mk routing (some ((σ.send broadcast refuses).subscriber
        (if ∃ id ∈ (σ.hub.inner.broadcast broadcast.target (σ.refusesId refuses)).2,
          σ.recipients id = some connection then session.pushed broadcast.message else session))) := by
  have hdelivered : (σ.send broadcast refuses).sessions connection = some
      (if ∃ id ∈ (σ.hub.inner.broadcast broadcast.target (σ.refusesId refuses)).2,
        σ.recipients id = some connection then session.pushed broadcast.message else session) := by
    change σ.deliver _ _ connection = _
    rw [deliver, hsession, Option.map_some]
  change View.mk routing (((σ.send broadcast refuses).sessions connection).map _) = _
  rw [hdelivered]
  rfl

theorem lookup_send (broadcast : Broadcast) (refuses : ℕ → Bool) (sessionId : ℕ) :
    (σ.send broadcast refuses).hub.inner.sessions.lookup sessionId =
      if sessionId ∈ σ.hub.inner.targets broadcast.target ∧ σ.refusesId refuses sessionId then none
      else σ.hub.inner.sessions.lookup sessionId := by
  change (σ.hub.inner.broadcast _ _).1.sessions.lookup sessionId = _
  rw [broadcast_eq, lookup_sendToSessionsLocked]

theorem markets_eq_some_iff {markets : Finset ℤ} : σ.markets session = some markets ↔
    session.running ∧ ∃ sessionId handle, session.sessionId = some sessionId ∧
      σ.hub.inner.sessions.lookup sessionId = some handle ∧ handle.markets = markets := by
  constructor
  · intro h
    obtain ⟨hrunning, h⟩ := Option.ite_none_right_eq_some.1 h
    obtain ⟨handle, hbind, hmarkets⟩ := Option.map_eq_some_iff.1 h
    obtain ⟨sessionId, hid, hknown⟩ := Option.bind_eq_some_iff.1 hbind
    exact ⟨hrunning, sessionId, handle, hid, hknown, hmarkets⟩
  · rintro ⟨hrunning, sessionId, handle, hid, hknown, rfl⟩
    rw [markets_of_running hrunning hid, hknown, Option.map_some]

/-- A session that has stopped, or that the hub does not know, gets nothing. -/
theorem subscriber_send_of_none (h : σ.Sound) (hsession : σ.sessions connection = some session)
    (hnone : σ.markets session = none) (broadcast : Broadcast) (refuses : ℕ → Bool) :
    (σ.send broadcast refuses).subscriber
      (if ∃ id ∈ (σ.hub.inner.broadcast broadcast.target (σ.refusesId refuses)).2,
        σ.recipients id = some connection then session.pushed broadcast.message else session) =
      (σ.subscriber session).receive broadcast (refuses connection) := by
  have hunknown : ∀ {sessionId handle}, session.running → session.sessionId = some sessionId →
      σ.hub.inner.sessions.lookup sessionId ≠ some handle := by
    intro sessionId handle hrunning hid hknown
    have hsome := markets_eq_some_iff.2 ⟨hrunning, sessionId, handle, hid, hknown, rfl⟩
    exact Option.some_ne_none _ (hsome.symm.trans hnone)
  have hnot : ¬∃ id ∈ (σ.hub.inner.broadcast broadcast.target (σ.refusesId refuses)).2,
      σ.recipients id = some connection := by
    rintro ⟨id, hdelivered, hrecipient⟩
    obtain ⟨session', hsession', hid⟩ := (h.recipient id connection).1 hrecipient
    obtain rfl := Option.some.inj (hsession.symm.trans hsession')
    rw [broadcast_eq, mem_sendToSessionsLocked] at hdelivered
    obtain ⟨-, hknown, haccepts⟩ := hdelivered
    obtain ⟨handle, hknown⟩ := Option.isSome_iff_exists.1 hknown
    rw [refusesId_of_running h hsession hid, Bool.or_eq_false_iff, Bool.not_eq_false'] at haccepts
    exact hunknown haccepts.1 hid hknown
  have hnone' : (σ.send broadcast refuses).markets session = none := by
    rw [Option.eq_none_iff_forall_ne_some]
    intro markets hmarkets
    obtain ⟨hrunning, id, handle, hid, hknown, -⟩ := markets_eq_some_iff.1 hmarkets
    rw [lookup_send] at hknown
    exact hunknown hrunning hid (Option.ite_none_left_eq_some.1 hknown).2
  rw [if_neg hnot, receive_of_none hnone, subscriber, subscriber, hnone, hnone']

/-- A session that the hub knows gets the broadcasts that its subscriber hears, until it
refuses one. -/
theorem subscriber_send_of_some (h : σ.Sound) (hsession : σ.sessions connection = some session)
    (hrunning : session.running) (hid : session.sessionId = some sessionId)
    {handle : SessionHandle} (hknown : σ.hub.inner.sessions.lookup sessionId = some handle)
    (broadcast : Broadcast) (refuses : ℕ → Bool) :
    (σ.send broadcast refuses).subscriber
      (if ∃ id ∈ (σ.hub.inner.broadcast broadcast.target (σ.refusesId refuses)).2,
        σ.recipients id = some connection then session.pushed broadcast.message else session) =
      (σ.subscriber session).receive broadcast (refuses connection) := by
  have htargets := mem_targets h hsession hrunning hid hknown broadcast.target
  have hrefuses : σ.refusesId refuses sessionId = refuses connection := by
    rw [refusesId_of_running h hsession hid, hrunning, Bool.not_true, Bool.false_or]
  have hlookup : (σ.send broadcast refuses).hub.inner.sessions.lookup sessionId = _ :=
    lookup_send broadcast refuses sessionId
  rw [hrefuses, hknown] at hlookup
  rw [if_congr (delivered_iff h hsession hid _) rfl rfl, broadcast_eq,
    if_congr (mem_sendToSessionsLocked _ _) rfl rfl, hrefuses, hknown]
  by_cases hmem : sessionId ∈ σ.hub.inner.targets broadcast.target
  · cases hrefused : refuses connection with
    | true =>
      have hnone : (σ.send broadcast refuses).markets session = none := by
        rw [markets_of_running hrunning hid, hlookup, hrefused, if_pos ⟨hmem, rfl⟩, Option.map_none]
      rw [if_neg (fun hdelivered => Bool.false_ne_true hdelivered.2.2.symm), Subscriber.receive,
        if_pos (htargets.1 hmem), if_pos rfl, subscriber, hnone]
      rfl
    | false =>
      have hpushed : (session.pushed broadcast.message).running := hrunning
      have hsame : (σ.send broadcast refuses).markets (session.pushed broadcast.message) =
          σ.markets session := by
        rw [markets_of_running hpushed hid, markets_of_running hrunning hid, hlookup, hrefused,
          if_neg (fun hand => Bool.false_ne_true hand.2), hknown]
      rw [if_pos ⟨hmem, rfl, rfl⟩, Subscriber.receive, if_pos (htargets.1 hmem),
        if_neg Bool.false_ne_true, subscriber, hsame, WsSession.forget_pushed]
      rfl
  · have hsame : (σ.send broadcast refuses).markets session = σ.markets session := by
      rw [markets_of_running hrunning hid, markets_of_running hrunning hid, hlookup,
        if_neg (fun hand => hmem hand.1), hknown]
    rw [if_neg (fun hdelivered => hmem hdelivered.1), Subscriber.receive,
      if_neg (fun hhears => hmem (htargets.2 hhears)), subscriber, subscriber, hsame]

theorem view_send (h : σ.Sound) (broadcast : Broadcast) (refuses : ℕ → Bool) (routing : Routing)
    (connection : ℕ) :
    ({ σ.send broadcast refuses with routing := routing } : Service).view connection =
      View.mk routing (((σ.sessions connection).map σ.subscriber).map fun subscriber =>
        subscriber.receive broadcast (refuses connection)) := by
  cases hsession : σ.sessions connection with
  | none =>
    change View.mk routing ((σ.deliver _ _ connection).map _) = _
    rw [deliver, hsession]
    rfl
  | some session =>
    rw [view_send_some hsession, Option.map_some, Option.map_some]
    congr 2
    cases hmarkets : σ.markets session with
    | none => exact subscriber_send_of_none h hsession hmarkets broadcast refuses
    | some markets =>
      obtain ⟨hrunning, sessionId, handle, hid, hknown, -⟩ := markets_eq_some_iff.1 hmarkets
      exact subscriber_send_of_some h hsession hrunning hid hknown broadcast refuses

/-! ### Runs -/

theorem view_step (h : σ.Sound) {a : ServiceAction} (hstep : σ.step a = some σ') (connection : ℕ) :
    (σ.view connection).step connection a = some (σ'.view connection) := by
  cases a with
  | connect other claim =>
    obtain ⟨hnone, heq⟩ := Option.ite_none_right_eq_some.1 hstep
    cases heq
    by_cases hother : other = connection
    · subst hother
      have hnew : (σ.view other).subscriber = none := by
        rw [view, Option.isNone_iff_eq_none.1 hnone, Option.map_none]
      rw [View.step, if_pos rfl, hnew, view_put_self]
      rfl
    · rw [View.step, if_neg hother]
      exact congrArg some (view_put_ne (Ne.symm hother) fun _ _ _ _ => rfl).symm
  | session other action =>
    obtain ⟨session, hfilter, hstep⟩ := Option.bind_eq_some_iff.1 hstep
    obtain ⟨hsession, hrunning⟩ := Option.filter_eq_some_iff.1 hfilter
    by_cases hother : other = connection
    · subst hother
      have hview : (σ.view other).subscriber.filter (·.session.running) = some (σ.subscriber session) := by
        rw [view_of_session hsession]
        exact Option.filter_some_pos hrunning
      rw [View.step, if_pos rfl, hview, Option.bind_some]
      exact view_sessionStep_self h hsession hrunning hstep
    · rw [View.step, if_neg hother]
      exact congrArg some (view_sessionStep_ne h hsession (Ne.symm hother) hstep).symm
  | unregister i =>
    obtain ⟨sessionId, hleaving, hstep⟩ := Option.bind_eq_some_iff.1 hstep
    obtain ⟨hub, hcall, rfl⟩ := Option.map_eq_some_iff.1 hstep
    obtain ⟨-, heq⟩ := Option.ite_none_right_eq_some.1 hcall
    cases heq
    refine congrArg some (Eq.symm ?_)
    refine view_congr rfl rfl fun session hsession => ?_
    refine markets_congr fun id hrunning hid => lookup_removeSessionLocked_of_ne ?_
    rintro rfl
    have hstopped := (h.left id (List.mem_of_getElem? hleaving)).2 connection session hsession hid
    rw [hrunning] at hstopped
    cases hstopped
  | engineEvent partition event metadata | walletEvent partition event metadata =>
    obtain ⟨routing, hrouting, rfl⟩ := Option.map_eq_some_iff.1 hstep
    exact Option.map_eq_some_iff.2 ⟨routing, hrouting, rfl⟩
  | broadcast partition refuses =>
    obtain ⟨next, hnext, rfl⟩ := Option.map_eq_some_iff.1 hstep
    refine Option.map_eq_some_iff.2 ⟨next, hnext, ?_⟩
    exact (view_send h next.1 refuses next.2 connection).symm

theorem view_run (h : σ.Sound) {waiting : Finset ℕ} (hwaiting : σ.Waiting waiting)
    {actions : List ServiceAction}
    (hend : σ.hub.nextSessionId + waiting.card + connections actions < sessionIdEnd)
    (hrun : run Service.step σ actions = some σ') (connection : ℕ) :
    run (View.step connection) (σ.view connection) actions = some (σ'.view connection) := by
  induction actions generalizing σ waiting with
  | nil =>
    cases hrun
    rfl
  | cons a actions ih =>
    obtain ⟨mid, hstep, hrun⟩ := Option.bind_eq_some_iff.1 hrun
    rw [connections, List.countP_cons, ← connections] at hend
    have hnow : σ.hub.nextSessionId + waiting.card < sessionIdEnd := by omega
    obtain ⟨waiting', hwaiting', hle⟩ := hwaiting.step h hstep
    rw [run_cons, view_step h hstep, Option.bind_some]
    refine ih (h.step hwaiting hnow hstep) hwaiting' ?_ hrun
    have hconnects : a.connects.toNat = if a.connects = true then 1 else 0 := by
      cases a.connects <;> rfl
    omega

end View

end Service

/-- The actions that a client is affected by: its own, and the events. -/
def concerns (connection : ℕ) : ServiceAction → Bool
  | .connect other _ => other = connection
  | .session other _ => other = connection
  | .unregister _ => false
  | .engineEvent .. | .walletEvent .. | .broadcast .. => true

theorem run_view_filter (connection : ℕ) (v : View) (actions : List ServiceAction) :
    run (View.step connection) v (actions.filter (concerns connection)) =
      run (View.step connection) v actions := by
  induction actions generalizing v with
  | nil => rfl
  | cons a actions ih =>
    by_cases hconcerns : concerns connection a
    · rw [List.filter_cons_of_pos hconcerns, run_cons, run_cons]
      exact congrArg _ (funext fun v' => ih v')
    · have hstep : v.step connection a = some v := by
        cases a with
        | connect other claim | session other action =>
          have hother : ¬other = connection := fun heq => hconcerns (decide_eq_true heq)
          rw [View.step, if_neg hother]
        | unregister i => rfl
        | engineEvent | walletEvent | broadcast => exact absurd rfl hconcerns
      rw [List.filter_cons_of_neg hconcerns, run_cons, hstep, Option.bind_some, ih]

theorem clients_view {actions : List ServiceAction} {σ : Service}
    (hend : connections actions + 1 < sessionIdEnd)
    (hrun : run Service.step .new actions = some σ) (connection : ℕ) :
    run (View.step connection) .new actions = some (σ.view connection) := by
  refine view_run Service.sound_new waiting_new ?_ hrun connection
  change 1 + 0 + connections actions < sessionIdEnd
  omega

/-- In any run of the service with fewer connections than the hub has ids for, the session
of a client is in the state of a subscriber that is alone with the events: other clients,
their number and their calls of the hub make no difference to it. -/
theorem clients_are_independent (actions : List ServiceAction) (σ : Service)
    (hend : connections actions + 1 < sessionIdEnd)
    (hrun : run Service.step .new actions = some σ) (connection : ℕ) :
    run (View.step connection) .new (actions.filter (concerns connection)) =
      some (σ.view connection) := by
  rw [run_view_filter]
  exact clients_view hend hrun connection

/-- User 42 subscribes to market 7, is joined by user 5, and gets an event of the market that
is about user 5. -/
def twoClients : List ServiceAction :=
  let subscription : Json := .obj [("type", .str "Subscribe"),
    ("payload", .obj [("markets", .arr [.int 7])])]
  let delta : EngineEvent := .accountDelta {
    engineEventId := none, marketId := 7, engineSequence := 1, engineTimestampMs := 1
    sourceInputId := none, sourceInputOffset := none, accountDeltaId := "delta-1", userId := 5
    asset := .USDC, totalDelta := 100, lockedDelta := 0, reason := "TRADE_FEE"
    referenceId := "fill-1" }
  [.connect 0 { userid := 42, username := "u" }, .connect 1 { userid := 5, username := "v" },
    .session 0 (.poll 0), .session 1 (.poll 0), .session 1 (.poll 0), .session 0 (.poll 0),
    .session 0 (.frame (.text (some subscription))), .session 0 (.poll 0),
    .engineEvent 0 delta { topic := "engine.events", partition := 0, offset := 1 },
    .broadcast 0 (fun _ => false), .session 1 .push, .broadcast 0 (fun _ => false),
    .session 0 .push, .session 1 .stop, .unregister 0]

theorem clients_are_independent_twoClients :
    ∃ σ, run Service.step .new twoClients = some σ ∧
      ((σ.sessions 0).map fun session => session.sent.length) = some 3 ∧
      run (View.step 0) .new (twoClients.filter (concerns 0)) = some (σ.view 0) := by
  have hlength : (run Service.step .new twoClients).map (fun σ =>
      (σ.sessions 0).map fun session => session.sent.length) = some (some 3) := by decide +kernel
  obtain ⟨σ, hrun, hlength⟩ := Option.map_eq_some_iff.1 hlength
  exact ⟨σ, hrun, hlength, clients_are_independent twoClients σ (by decide) hrun 0⟩

end Ws
