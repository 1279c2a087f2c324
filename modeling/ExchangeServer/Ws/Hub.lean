import ExchangeServer.Foundation.SetMap

/-!
# The hub of the live updates

The hub knows the connected sessions, the sessions of each user and the sessions
that have subscribed to each market. Each call works on the three maps under one
lock. A recipient that refuses a message, because its mailbox is full or closed,
loses its session. The maps and sets are hash tables: no loop over one of them
depends on its order.
-/

namespace Ws

structure SessionHandle where
  userId : ℤ
  markets : Finset ℤ
  deriving DecidableEq

@[ext] structure HubState where
  sessions : Finmap fun _ : ℕ => SessionHandle
  users : SetMap ℤ ℕ
  markets : SetMap ℤ ℕ

namespace HubState

def empty : HubState where
  sessions := ∅
  users := ∅
  markets := ∅

end HubState

/-! ## Sessions that leave -/

def removeSessionLocked (state : HubState) (sessionId : ℕ) : HubState :=
  match state.sessions.lookup sessionId with
  | none => state
  | some session => {
      sessions := state.sessions.erase sessionId
      users := state.users.prune session.userId sessionId
      markets := state.markets.pruneAll session.markets sessionId }

section Removal

variable {state : HubState} {sessionId : ℕ}

theorem removeSessionLocked_of_none (h : state.sessions.lookup sessionId = none) :
    removeSessionLocked state sessionId = state := by
  rw [removeSessionLocked, h]

theorem removeSessionLocked_of_some {session : SessionHandle}
    (h : state.sessions.lookup sessionId = some session) :
    removeSessionLocked state sessionId = {
      sessions := state.sessions.erase sessionId
      users := state.users.prune session.userId sessionId
      markets := state.markets.pruneAll session.markets sessionId } := by
  rw [removeSessionLocked, h]

theorem lookup_removeSessionLocked_self :
    (removeSessionLocked state sessionId).sessions.lookup sessionId = none := by
  cases h : state.sessions.lookup sessionId with
  | none => rw [removeSessionLocked_of_none h, h]
  | some session =>
    rw [removeSessionLocked_of_some h]
    exact Finmap.lookup_erase sessionId state.sessions

theorem lookup_removeSessionLocked_of_ne {other : ℕ} (hne : other ≠ sessionId) :
    (removeSessionLocked state sessionId).sessions.lookup other = state.sessions.lookup other := by
  cases h : state.sessions.lookup sessionId with
  | none => rw [removeSessionLocked_of_none h]
  | some session =>
    rw [removeSessionLocked_of_some h]
    exact Finmap.lookup_erase_ne hne

/-- Stale sessions may be removed in any order. -/
instance : RightCommutative removeSessionLocked where
  right_comm state a b := by
    by_cases hab : a = b
    · rw [hab]
    have hlookupA : (removeSessionLocked state b).sessions.lookup a = state.sessions.lookup a :=
      lookup_removeSessionLocked_of_ne hab
    have hlookupB : (removeSessionLocked state a).sessions.lookup b = state.sessions.lookup b :=
      lookup_removeSessionLocked_of_ne (Ne.symm hab)
    cases ha : state.sessions.lookup a with
    | none => rw [removeSessionLocked_of_none ha, removeSessionLocked_of_none (hlookupA.trans ha)]
    | some x =>
      cases hb : state.sessions.lookup b with
      | none => rw [removeSessionLocked_of_none hb, removeSessionLocked_of_none (hlookupB.trans hb)]
      | some y =>
        rw [removeSessionLocked_of_some (hlookupA.trans ha),
          removeSessionLocked_of_some (hlookupB.trans hb), removeSessionLocked_of_some ha,
          removeSessionLocked_of_some hb]
        exact HubState.ext Finmap.erase_erase (SetMap.prune_comm ..) (SetMap.pruneAll_comm ..)

end Removal

/-! ## Sending -/

/-- Sends to sessions, of which some refuse. The answer has those that have been
reached; the source counts them. -/
def sendToSessionsLocked (state : HubState) (sessions : Finset ℕ) (refuses : ℕ → Bool) :
    HubState × Finset ℕ :=
  let known := sessions.filter fun sessionId => (state.sessions.lookup sessionId).isSome
  let stale := known.filter fun sessionId => refuses sessionId
  let delivered := known.filter fun sessionId => !refuses sessionId
  (stale.val.foldl removeSessionLocked state, delivered)

def broadcastAccount (state : HubState) (userId : ℤ) (refuses : ℕ → Bool) : HubState × Finset ℕ :=
  sendToSessionsLocked state (state.users.members userId) refuses

def broadcastMarket (state : HubState) (marketId : ℤ) (refuses : ℕ → Bool) : HubState × Finset ℕ :=
  sendToSessionsLocked state (state.markets.members marketId) refuses

/-! ## Sessions that come and subscribe -/

/-- The locked part of `register`. -/
def register (state : HubState) (sessionId : ℕ) (userId : ℤ) : HubState where
  sessions := state.sessions.insert sessionId { userId, markets := ∅ }
  users := state.users.add userId sessionId
  markets := state.markets

def unregister (state : HubState) (sessionId : ℕ) : HubState := removeSessionLocked state sessionId

/-- `if let Some(session) = sessions.get_mut(&session_id) { .. }` -/
def modifySession (state : HubState) (sessionId : ℕ) (f : Finset ℤ → Finset ℤ) :
    Finmap fun _ : ℕ => SessionHandle :=
  match state.sessions.lookup sessionId with
  | none => state.sessions
  | some session => state.sessions.insert sessionId { session with markets := f session.markets }

/-- One turn of the loop of `subscribe_markets`. -/
def subscribeMarket (sessionId : ℕ) (state : HubState) (marketId : ℤ) : HubState where
  sessions := modifySession state sessionId fun markets => insert marketId markets
  users := state.users
  markets := state.markets.add marketId sessionId

def subscribeMarkets (state : HubState) (sessionId : ℕ) (markets : List ℤ) : HubState :=
  markets.foldl (subscribeMarket sessionId) state

/-- One turn of the loop of `unsubscribe_markets`. -/
def unsubscribeMarket (sessionId : ℕ) (state : HubState) (marketId : ℤ) : HubState where
  sessions := modifySession state sessionId fun markets => markets.erase marketId
  users := state.users
  markets := state.markets.prune marketId sessionId

def unsubscribeMarkets (state : HubState) (sessionId : ℕ) (markets : List ℤ) : HubState :=
  markets.foldl (unsubscribeMarket sessionId) state

section Lookup

variable {state : HubState} {sessionId : ℕ} {f : Finset ℤ → Finset ℤ}

theorem lookup_modifySession_self : (modifySession state sessionId f).lookup sessionId =
    (state.sessions.lookup sessionId).map fun session =>
      { session with markets := f session.markets } := by
  rw [modifySession]
  cases h : state.sessions.lookup sessionId with
  | none => exact h
  | some session => exact Finmap.lookup_insert state.sessions

theorem lookup_modifySession_of_ne {other : ℕ} (hne : other ≠ sessionId) :
    (modifySession state sessionId f).lookup other = state.sessions.lookup other := by
  rw [modifySession]
  cases state.sessions.lookup sessionId with
  | none => rfl
  | some session => exact Finmap.lookup_insert_of_ne state.sessions hne

end Lookup

/-! ## Calls -/

/-- The hub, the ids that calls of `register` have taken before they have the
lock, and the ids that `register` has returned. -/
structure Hub where
  inner : HubState
  nextSessionId : ℕ
  taken : Finset ℕ
  returned : Finset ℕ

def Hub.new : Hub where
  inner := .empty
  nextSessionId := 1
  taken := ∅
  returned := ∅

/-- What is called, as the calls get the lock; `register` takes its id before. -/
inductive HubCall
  | takeSessionId
  | register (sessionId : ℕ) (userId : ℤ)
  | unregister (sessionId : ℕ)
  | subscribeMarkets (sessionId : ℕ) (markets : List ℤ)
  | unsubscribeMarkets (sessionId : ℕ) (markets : List ℤ)
  | broadcastAccount (userId : ℤ) (refuses : ℕ → Bool)
  | broadcastMarket (marketId : ℤ) (refuses : ℕ → Bool)

/-- The counter of session ids is a `u64`. -/
def sessionIdEnd : ℕ := 2 ^ 64

/-- A call of the hub; callers name sessions only by ids that `register` has returned. -/
def Hub.call (hub : Hub) : HubCall → Option Hub
  | .takeSessionId => some { hub with
      nextSessionId := (hub.nextSessionId + 1) % sessionIdEnd
      taken := insert hub.nextSessionId hub.taken }
  | .register sessionId userId =>
    if sessionId ∈ hub.taken then some { hub with
      inner := Ws.register hub.inner sessionId userId
      taken := hub.taken.erase sessionId
      returned := insert sessionId hub.returned }
    else none
  | .unregister sessionId =>
    if sessionId ∈ hub.returned then some { hub with inner := Ws.unregister hub.inner sessionId }
    else none
  | .subscribeMarkets sessionId markets =>
    if sessionId ∈ hub.returned then
      some { hub with inner := Ws.subscribeMarkets hub.inner sessionId markets }
    else none
  | .unsubscribeMarkets sessionId markets =>
    if sessionId ∈ hub.returned then
      some { hub with inner := Ws.unsubscribeMarkets hub.inner sessionId markets }
    else none
  | .broadcastAccount userId refuses =>
    some { hub with inner := (Ws.broadcastAccount hub.inner userId refuses).1 }
  | .broadcastMarket marketId refuses =>
    some { hub with inner := (Ws.broadcastMarket hub.inner marketId refuses).1 }

end Ws
