import ExchangeServer.Projector.Frames
import ExchangeServer.Projector.Orderbook
import ExchangeServer.Protocol.Wallet

/-!
# The projector's processor

Each record of the four topics is worked off by one operation of the repository,
a transaction that ends with the offset of the next record. Before the operation
of an engine event the worker keeps the event in the log, in a transaction of
its own.

The data is what the transactions that have committed have made of it, one after
the other.
-/

namespace Projector

open Protocol Relational Transactional Program

def processEngineInput (input : EngineCommand) (topic : String) (partition nextOffset : ℤ) :
    Tx Unit :=
  match input with
  | .placeOrder order => saveOrderContext order topic partition nextOffset
  | .liquidatePosition liquidation => saveLiquidationContext liquidation topic partition nextOffset
  | .cancelOrder _ | .markPriceUpdated _ | .fundingRateUpdated _ | .fundingSettlementTick _ =>
    saveQueueOffset topic partition nextOffset

def processEngineReply (reply : EngineReply) (topic : String) (partition nextOffset : ℤ) :
    Tx Unit :=
  match reply with
  | .orderAccepted reply => markOrderAccepted reply topic partition nextOffset
  | .orderRejected reply => markOrderRejected reply topic partition nextOffset
  | .liquidationAccepted reply => markLiquidationAccepted reply topic partition nextOffset
  | .liquidationRejected reply => markLiquidationRejected reply topic partition nextOffset
  | .cancelAccepted _ | .cancelRejected _ => saveQueueOffset topic partition nextOffset

def processEngineEvent (event : EngineEvent) (topic : String) (partition nextOffset : ℤ) :
    Tx Unit :=
  match event with
  | .orderOpened event => projectOrderOpened event topic partition nextOffset
  | .orderCancelled event => projectOrderCancelled event topic partition nextOffset
  | .tradeExecuted event => projectTradeExecuted event topic partition nextOffset
  | .orderBookDelta event => projectOrderbookDelta event topic partition nextOffset
  | event => projectEngineEventLog event topic partition nextOffset

def processWalletEvent (_event : WalletEvent) (topic : String) (partition nextOffset : ℤ) :
    Tx Unit :=
  saveQueueOffset topic partition nextOffset

/-- What a record holds; nothing when it has no value or one that does not decode. -/
inductive Payload
  | engineInput (input : EngineCommand)
  | engineReply (reply : EngineReply)
  | engineEvent (event : EngineEvent)
  | walletEvent (event : WalletEvent)
  | invalid

/-- The transaction that works off a record. -/
def Payload.process (payload : Payload) (topic : String) (partition nextOffset : ℤ) : Tx Unit :=
  match payload with
  | engineInput input => processEngineInput input topic partition nextOffset
  | engineReply reply => processEngineReply reply topic partition nextOffset
  | engineEvent event => processEngineEvent event topic partition nextOffset
  | walletEvent event => processWalletEvent event topic partition nextOffset
  | invalid => saveQueueOffset topic partition nextOffset

/-! ## Transactions -/

theorem inArea_upsertOrderContext (reservationId requestId : String) (userId marketId : ℤ)
    (marketName : String) (side : SideType) (orderType : DbOrderType) (quantity price : ℤ)
    (reduceOnly : Bool) :
    InArea .orders (execute (upsertOrderContext reservationId requestId userId marketId marketName
      side orderType quantity price reduceOnly)) := by
  refine inArea_execute fun d b ws h w hw => ?_
  unfold upsertOrderContext at h
  split at h
  · simp only at h
    split at h
    · cases h
      rw [List.mem_singleton.1 hw]
      rfl
    · cases h
  · cases h

theorem inArea_loadContextByReservationInTx (area : Area) (reservationId : String) :
    InArea area (loadContextByReservationInTx reservationId) := by
  refine inArea_bind (inArea_query _ _) fun context => ?_
  cases context with
  | some context => exact inArea_pure _ _
  | none => exact inArea_fail _ _

theorem inArea_loadContextForOrderInTx (area : Area) (reservationId : Option String)
    (orderId : ℤ) : InArea area (loadContextForOrderInTx reservationId orderId) := by
  refine inArea_bind (inArea_maybeLoadContextForOrderInTx _ _ _) fun context => ?_
  cases context with
  | some context => exact inArea_pure _ _
  | none => exact inArea_fail _ _

theorem inArea_insertEngineEventLogInTx (entry : EngineEventLogEntry) (topic : String)
    (partition nextOffset : ℤ) :
    InArea .log (insertEngineEventLogInTx entry topic partition nextOffset) := by
  refine inArea_execute fun d b ws h w hw => ?_
  unfold insertEngineEventLog at h
  split at h
  · simp only at h
    split at h
    · cases h
      cases hw
    · split at h
      · cases h
        rw [List.mem_singleton.1 hw]
        rfl
      · cases h
  · cases h

theorem inArea_markRejected (reservationId reason : String) :
    InArea .orders (markRejected reservationId reason) :=
  inArea_bind (inArea_loadContextByReservationInTx _ _) fun _ => inArea_updateContext _ _

theorem inArea_applyOrderbookLevels (event : OrderBookDelta) (side : BookSide)
    (levels : List OrderBookLevel) : InArea .orderbook (applyOrderbookLevels event side levels) := by
  induction levels with
  | nil => exact inArea_pure _ _
  | cons level levels ih =>
    refine inArea_bind ?_ fun _ => ih
    unfold applyOrderbookLevelInTx
    split
    · refine inArea_execute fun d b ws h w hw => ?_
      unfold deleteOrderbookLevel at h
      split at h
      · cases h
        cases hw
      · split at h
        · cases h
          rw [List.mem_singleton.1 hw]
          rfl
        · cases h
          cases hw
    · refine inArea_execute fun d b ws h w hw => ?_
      unfold upsertOrderbookLevel at h
      split at h
      · simp only at h
        split at h
        · split at h
          · cases h
            rw [List.mem_singleton.1 hw]
            rfl
          · cases h
        · split at h
          · cases h
            rw [List.mem_singleton.1 hw]
            rfl
          · cases h
            cases hw
      · cases h

theorem inArea_upsertOrderbookStateInTx (event : OrderBookDelta) :
    InArea .orderbook (upsertOrderbookStateInTx event) := by
  refine inArea_execute fun d b ws h w hw => ?_
  unfold upsertOrderbookState at h
  split at h
  · simp only at h
    split at h
    · split at h
      · cases h
        rw [List.mem_singleton.1 hw]
        rfl
      · cases h
    · split at h
      · cases h
        rw [List.mem_singleton.1 hw]
        rfl
      · cases h
        cases hw
  · cases h

theorem inArea_insertOrderbookEvent (event : OrderBookDelta) (topic : String)
    (partition offset : ℤ) :
    InArea .orderbook (execute (insertOrderbookEvent event topic partition offset)) := by
  refine inArea_execute fun d b ws h w hw => ?_
  unfold insertOrderbookEvent at h
  split at h
  · simp only at h
    split at h
    · cases h
      cases hw
    · split at h
      · cases h
        rw [List.mem_singleton.1 hw]
        rfl
      · cases h
  · cases h

theorem inArea_shouldApplyOrderbookDeltaInTx (area : Area) (event : OrderBookDelta) :
    InArea area (shouldApplyOrderbookDeltaInTx event) :=
  inArea_bind (inArea_query _ _) fun _ => inArea_pure _ _

theorem inArea_applyOrderbookDelta (event : OrderBookDelta) :
    InArea .orderbook (applyOrderbookDelta event) :=
  inArea_bind (inArea_applyOrderbookLevels _ _ _) fun _ =>
    inArea_bind (inArea_applyOrderbookLevels _ _ _) fun _ => inArea_upsertOrderbookStateInTx _

section Atomic

variable (topic : String) (partition nextOffset : ℤ)

theorem atomic_markAccepted (reservationId : String) (orderId : ℤ) :
    (markAccepted reservationId orderId topic partition nextOffset).Atomic :=
  atomic_bind (inArea_loadContextByReservationInTx .orders _).isOpen fun _ =>
    atomic_bind (inArea_updateContext _ _).isOpen fun _ => atomic_saveQueueOffset _ _ _

theorem atomic_processEngineInput (input : EngineCommand) :
    (processEngineInput input topic partition nextOffset).Atomic := by
  cases input with
  | placeOrder order =>
    exact atomic_bind (inArea_upsertOrderContext _ _ _ _ _ _ _ _ _ _).isOpen fun _ =>
      atomic_saveQueueOffset _ _ _
  | liquidatePosition liquidation =>
    exact atomic_bind (inArea_upsertOrderContext _ _ _ _ _ _ _ _ _ _).isOpen fun _ =>
      atomic_saveQueueOffset _ _ _
  | _ => exact atomic_saveQueueOffset _ _ _

theorem atomic_processEngineReply (reply : EngineReply) :
    (processEngineReply reply topic partition nextOffset).Atomic := by
  cases reply with
  | orderAccepted reply => exact atomic_markAccepted _ _ _ _ _
  | liquidationAccepted reply => exact atomic_markAccepted _ _ _ _ _
  | orderRejected reply =>
    refine atomic_bind ?_ fun _ => atomic_saveQueueOffset _ _ _
    split
    · exact (inArea_markRejected _ _).isOpen
    · exact open_pure _
  | liquidationRejected reply =>
    exact atomic_bind (inArea_markRejected _ _).isOpen fun _ => atomic_saveQueueOffset _ _ _
  | _ => exact atomic_saveQueueOffset _ _ _

theorem atomic_projectOrderOpened (event : OrderOpened) :
    (projectOrderOpened event topic partition nextOffset).Atomic :=
  atomic_bind (inArea_loadContextByReservationInTx .orders _).isOpen fun _ =>
    atomic_bind (inArea_updateContext _ _).isOpen fun _ =>
      atomic_bind (inArea_upsertOrder _ _ _ _).isOpen fun _ => atomic_saveQueueOffset _ _ _

theorem atomic_projectOrderCancelled (event : OrderCancelled) :
    (projectOrderCancelled event topic partition nextOffset).Atomic :=
  atomic_bind (inArea_loadContextForOrderInTx .orders _ _).isOpen fun _ =>
    atomic_bind (inArea_updateContext _ _).isOpen fun _ =>
      atomic_bind (inArea_upsertOrder _ _ _ _).isOpen fun _ => atomic_saveQueueOffset _ _ _

theorem atomic_projectEngineEventLog (event : EngineEvent) :
    (projectEngineEventLog event topic partition nextOffset).Atomic :=
  atomic_bind (inArea_insertEngineEventLogInTx _ _ _ _).isOpen fun _ => atomic_saveQueueOffset _ _ _

theorem atomic_processEngineEvent (event : EngineEvent) :
    (processEngineEvent event topic partition nextOffset).Atomic := by
  cases event with
  | orderOpened event => exact atomic_projectOrderOpened _ _ _ _
  | orderCancelled event => exact atomic_projectOrderCancelled _ _ _ _
  | tradeExecuted event => exact atomic_projectTradeExecuted _ _ _ _
  | orderBookDelta event => exact atomic_projectOrderbookDelta _ _ _ _
  | _ => exact atomic_projectEngineEventLog _ _ _ _

/-- A record is worked off in one transaction. -/
theorem atomic_process (payload : Payload) :
    (payload.process topic partition nextOffset).Atomic := by
  cases payload with
  | engineInput input => exact atomic_processEngineInput _ _ _ _
  | engineReply reply => exact atomic_processEngineReply _ _ _ _
  | engineEvent event => exact atomic_processEngineEvent _ _ _ _
  | walletEvent event => exact atomic_saveQueueOffset _ _ _
  | invalid => exact atomic_saveQueueOffset _ _ _

end Atomic

/-- A transaction of the worker: it keeps an event in the log, or works off a
record. -/
inductive Transaction
  | saveLog (event : EngineEvent) (topic : String) (partition nextOffset : ℤ)
  | process (payload : Payload) (topic : String) (partition nextOffset : ℤ)

def Transaction.program : Transaction → Tx Unit
  | saveLog event topic partition nextOffset => saveEngineEventLog event topic partition nextOffset
  | process payload topic partition nextOffset => payload.process topic partition nextOffset

theorem atomic_program (t : Transaction) : t.program.Atomic := by
  cases t with
  | saveLog event topic partition nextOffset =>
    exact atomic_bind (inArea_insertEngineEventLogInTx _ _ _ _).isOpen fun _ => atomic_commitTx
  | process payload topic partition nextOffset => exact atomic_process _ _ _ _

/-- The data after a transaction that commits. -/
def commit (d : ProjectorDb) (t : Transaction) : Option ProjectorDb :=
  match t.program.run d d with
  | (.ok (), d') => some d'
  | (.error _, _) => none

theorem commit_eq_some_iff {d d' : ProjectorDb} {t : Transaction} :
    commit d t = some d' ↔ t.program.eval d = .ok ((), d') := by
  unfold commit
  rw [run_of_atomic (atomic_program t)]
  cases t.program.eval d with
  | error e => simp [outcome]
  | ok r => simp [outcome, Prod.ext_iff]

end Projector
