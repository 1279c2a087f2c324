import ExchangeServer.Projector.EventLog
import ExchangeServer.Projector.Positions

/-!
# Projection of orders and trades

The operations of the repository on order contexts, orders and fills. A context
is saved when the input of an order is read; its status is kept there and, once
the order has an event, in the row of the order as well.
-/

namespace Projector

open Protocol Relational Transactional Program

/-! ## Conversions -/

def sideToDb : Side → SideType
  | .LONG => .LONG
  | .SHORT => .SHORT

def oppositeSide : Side → SideType
  | .LONG => .SHORT
  | .SHORT => .LONG

def oppositeDbSide : SideType → SideType
  | .LONG => .SHORT
  | .SHORT => .LONG

def orderTypeToDb : Protocol.OrderType → DbOrderType
  | .LIMIT => .LIMIT
  | .MARKET => .MARKET

def orderStatusAfterFill (orderQuantity filledQuantity : ℤ) : OrderStatus :=
  if orderQuantity ≤ filledQuantity then .FILLED else .PARTIAL

def contextStatusForOrderStatus : OrderStatus → ContextStatus
  | .PENDING => .PENDING
  | .OPEN => .OPEN
  | .FILLED => .FILLED
  | .PARTIAL => .PARTIAL
  | .CANCELLED => .CANCELLED
  | .REJECTED => .REJECTED

/-! ## Loading contexts -/

/-- A context with the amount of its reservation. -/
def OrderContextRow.stored (row : OrderContextRow) (amount : Option ℤ) : StoredOrderContext where
  reservationId := some row.reservationId
  requestId := row.requestId
  orderId := row.orderId
  userId := row.userId
  marketId := row.marketId
  marketName := row.marketName
  side := row.side
  orderType := row.orderType
  quantity := row.quantity
  price := row.price
  margin := amount.getD 0
  reduceOnly := row.reduceOnly

def StoredOrderContext.withOrderId (context : StoredOrderContext) (orderId : ℤ) :
    StoredOrderContext :=
  { context with orderId := some orderId }

/-- An order without a context in its place. -/
def OrderRow.storedContext (row : OrderRow) : StoredOrderContext where
  reservationId := none
  requestId := ""
  orderId := some row.orderId
  userId := row.userId
  marketId := row.marketId
  marketName := row.marketName
  side := row.side
  orderType := row.orderType
  quantity := row.quantity
  price := row.price
  margin := row.margin
  reduceOnly := row.reduceOnly

/-- `projector_order_context LEFT JOIN wallet_reservations` on the reservation. -/
def ProjectorDb.joined (d : ProjectorDb) (row : OrderContextRow) : StoredOrderContext :=
  row.stored (d.reservedAmount row.reservationId)

def ProjectorDb.contextByReservation (d : ProjectorDb) (reservationId : String) :
    Option StoredOrderContext :=
  (d.orderContexts.find? reservationId).map d.joined

def ProjectorDb.contextByOrderId (d : ProjectorDb) (orderId : ℤ) : Option StoredOrderContext :=
  (d.orderContexts.byIndex (.order orderId)).map d.joined

def maybeContextByReservationInTx (reservationId : String) : Tx (Option StoredOrderContext) :=
  query fun d => d.contextByReservation reservationId

def maybeContextByOrderIdInTx (orderId : ℤ) : Tx (Option StoredOrderContext) := do
  match ← query fun d => d.contextByOrderId orderId with
  | some context => return some context
  | none => query fun d => (d.orders.find? orderId).map OrderRow.storedContext

def loadContextByReservationInTx (reservationId : String) : Tx StoredOrderContext := do
  match ← maybeContextByReservationInTx reservationId with
  | some context => return context
  | none => fail (.missingOrderContext (some reservationId) none)

/-- The context of an order by its reservation, else by its id. The source wraps
`load_context_for_order_in_tx` here and turns a missing context into none. -/
def maybeLoadContextForOrderInTx (reservationId : Option String) (orderId : ℤ) :
    Tx (Option StoredOrderContext) :=
  match reservationId with
  | none => maybeContextByOrderIdInTx orderId
  | some reservationId => do
    match ← maybeContextByReservationInTx reservationId with
    | some context => return some context
    | none => maybeContextByOrderIdInTx orderId

def loadContextForOrderInTx (reservationId : Option String) (orderId : ℤ) :
    Tx StoredOrderContext := do
  match ← maybeLoadContextForOrderInTx reservationId orderId with
  | some context => return context
  | none => fail (.missingOrderContext reservationId (some orderId))

/-! ## Contexts of trades -/

inductive TradeParticipant
  | maker | taker
  deriving DecidableEq

namespace TradeParticipant

def label : TradeParticipant → String
  | maker => "maker"
  | taker => "taker"

def orderId : TradeParticipant → TradeExecuted → ℤ
  | maker, event => event.makerOrderId
  | taker, event => event.takerOrderId

def userId : TradeParticipant → TradeExecuted → ℤ
  | maker, event => event.makerUserId
  | taker, event => event.takerUserId

def reservationId : TradeParticipant → TradeExecuted → Option String
  | maker, event => event.makerReservationId
  | taker, event => event.takerReservationId

end TradeParticipant

def isSyntheticLiquidationOrAdlTrade (event : TradeExecuted) : Bool :=
  event.executionReason = .LIQUIDATION ∨ event.liquidationId.isSome ∨
    event.liquidatedUserId.isSome ∨ event.positionSide.isSome

def missingOrderContextForParticipant (event : TradeExecuted) (participant : TradeParticipant) :
    ProjectorRepositoryError :=
  .missingOrderContext (participant.reservationId event) (some (participant.orderId event))

def syntheticLiquidationSide (event : TradeExecuted) (participant : TradeParticipant)
    (counterpartSide : Option SideType) : Option SideType :=
  match event.positionSide with
  | some positionSide =>
    match event.liquidatedUserId with
    | some liquidatedUserId =>
      some (if participant.userId event = liquidatedUserId then oppositeSide positionSide
        else sideToDb positionSide)
    | none =>
      some (match participant with
        | .maker => sideToDb positionSide
        | .taker => oppositeSide positionSide)
  | none =>
    (counterpartSide.map oppositeDbSide).or
      (some (match participant with
        | .maker => .LONG
        | .taker => .SHORT))

/-- What stands for the context of an order of the engine itself. -/
def syntheticLiquidationContext (event : TradeExecuted) (participant : TradeParticipant)
    (marketName : String) (counterpartSide : Option SideType) : Tx StoredOrderContext :=
  match syntheticLiquidationSide event participant counterpartSide with
  | none => fail (missingOrderContextForParticipant event participant)
  | some side =>
    return {
      reservationId := (participant.reservationId event).or
        (event.liquidationId.map fun liquidationId => liquidationId ++ ":" ++ participant.label)
      requestId := event.sourceInputId.getD
        ("synthetic:" ++ toString event.marketId ++ ":" ++ toString event.engineSequence ++ ":" ++
          participant.label)
      orderId := some (participant.orderId event)
      userId := participant.userId event
      marketId := event.marketId
      marketName := marketName
      side := side
      orderType := .MARKET
      quantity := event.quantity
      price := event.price
      margin := 0
      reduceOnly := true }

def selectMarketName (marketId : ℤ) : Stmt String := fun d =>
  match d.markets.find? marketId with
  | some market => .ok (market.marketName, [])
  | none => .error (.storage .rowNotFound)

def loadMarketNameInTx (marketId : ℤ) : Tx String := execute (selectMarketName marketId)

/-- The context of a participant, or a synthetic one. -/
def orSynthetic (context : Option StoredOrderContext) (event : TradeExecuted)
    (participant : TradeParticipant) (marketName : String) (counterpartSide : Option SideType) :
    Tx StoredOrderContext :=
  match context with
  | some context => return context
  | none => syntheticLiquidationContext event participant marketName counterpartSide

/-- The context of a participant of a plain trade. -/
def orMissing (context : Option StoredOrderContext) (event : TradeExecuted)
    (participant : TradeParticipant) : Tx StoredOrderContext :=
  match context with
  | some context => return context
  | none => fail (missingOrderContextForParticipant event participant)

def loadTradeContextsInTx (event : TradeExecuted) :
    Tx (StoredOrderContext × StoredOrderContext) := do
  let maker ← maybeLoadContextForOrderInTx event.makerReservationId event.makerOrderId
  let taker ← maybeLoadContextForOrderInTx event.takerReservationId event.takerOrderId
  if isSyntheticLiquidationOrAdlTrade event then
    let needsSynthetic := maker.isNone || taker.isNone
    let marketName ← (if needsSynthetic then loadMarketNameInTx event.marketId
      else return "" : Tx String)
    let makerSide := maker.map StoredOrderContext.side
    let takerSide := taker.map StoredOrderContext.side
    let maker ← orSynthetic maker event .maker marketName takerSide
    let taker ← orSynthetic taker event .taker marketName makerSide
    return (maker, taker)
  else
    let maker ← orMissing maker event .maker
    let taker ← orMissing taker event .taker
    return (maker, taker)

/-! ## Statements -/

/-- `INSERT INTO projector_order_context .. ON CONFLICT(reservation_id) DO UPDATE`. The
status, the order and the reason of a stored context stay. -/
def upsertOrderContext (reservationId requestId : String) (userId marketId : ℤ)
    (marketName : String) (side : SideType) (orderType : DbOrderType) (quantity price : ℤ)
    (reduceOnly : Bool) : Stmt Unit := fun d =>
  if check : 0 < quantity ∧ 0 ≤ price then
    let stored := d.orderContexts.find? reservationId
    let row : OrderContextRow :=
      { reservationId, requestId, userId, marketId, marketName, side, orderType, quantity, price
        reduceOnly
        orderId := stored.bind OrderContextRow.orderId
        status := (stored.map OrderContextRow.status).getD .PENDING
        rejectReason := stored.bind OrderContextRow.rejectReason
        check := check }
    if d.References userId marketId ∧ d.orderContexts.Admits row then
      .ok ((), [.putOrderContext row])
    else refused
  else refused

/-- An `UPDATE` of the context of a reservation. -/
def updateContext (reservationId : String) (change : OrderContextRow → OrderContextRow) :
    Stmt Unit := fun d =>
  match d.orderContexts.find? reservationId with
  | none => .ok ((), [])
  | some stored =>
    let row := change stored
    if d.orderContexts.Admits row then .ok ((), [.putOrderContext row]) else refused

def insertOrderRow (context : StoredOrderContext) (orderId : ℤ) (status : OrderStatus)
    (check : 0 < context.quantity ∧ 0 ≤ context.price ∧ 0 ≤ context.margin) : OrderRow where
  orderId := orderId
  userId := context.userId
  marketId := context.marketId
  marketName := context.marketName
  side := context.side
  orderType := context.orderType
  quantity := context.quantity
  price := context.price
  status := status
  margin := context.margin
  reduceOnly := context.reduceOnly
  check := check

/-- `INSERT INTO orders .. ON CONFLICT(order_id)`, with what is done to a stored order. -/
def upsertOrder (context : StoredOrderContext) (orderId : ℤ) (status : OrderStatus)
    (onConflict : OrderRow → Option OrderRow) : Stmt Unit := fun d =>
  if check : 0 < context.quantity ∧ 0 ≤ context.price ∧ 0 ≤ context.margin then
    match d.orders.find? orderId with
    | none =>
      if d.References context.userId context.marketId then
        .ok ((), [.putOrder (insertOrderRow context orderId status check)])
      else refused
    | some stored =>
      match onConflict stored with
      | none => .ok ((), [])
      | some row => .ok ((), [.putOrder row])
  else refused

def insertOrderIfMissingInTx (context : StoredOrderContext) (orderId : ℤ) : Tx Unit :=
  execute (upsertOrder context orderId .PENDING fun _ => none)

/-- `CASE WHEN status IN ('FILLED','CANCELLED') THEN status ELSE 'OPEN' END`. -/
def OrderStatus.opened : OrderStatus → OrderStatus
  | FILLED => FILLED
  | CANCELLED => CANCELLED
  | _ => OPEN

def upsertOrderOpenInTx (context : StoredOrderContext) (orderId : ℤ) : Tx Unit :=
  execute (upsertOrder context orderId .OPEN fun stored =>
    some { stored with status := stored.status.opened, reduceOnly := context.reduceOnly })

def upsertOrderCancelledInTx (context : StoredOrderContext) (orderId : ℤ) : Tx Unit :=
  execute (upsertOrder context orderId .CANCELLED fun stored =>
    some { stored with status := .CANCELLED, reduceOnly := context.reduceOnly })

def updateContextOrderIdInTx (reservationId : Option String) (orderId : ℤ) : Tx Unit :=
  match reservationId with
  | none => return ()
  | some reservationId =>
    execute (updateContext reservationId fun row =>
      { row with orderId := some (row.orderId.getD orderId) })

def ProjectorDb.filledQuantity (d : ProjectorDb) (orderId : ℤ) : ℤ :=
  ((d.fills.rows.filter fun fill =>
    fill.makerOrderId = orderId ∨ fill.takerOrderId = orderId).map FillRow.quantity).sum

/-- `SELECT COALESCE(SUM(quantity), 0)::BIGINT`. -/
def selectFilledQuantity (orderId : ℤ) : Stmt ℤ := fun d =>
  if d.filledQuantity orderId < 2 ^ 63 then .ok (d.filledQuantity orderId, []) else refused

def cumulativeFilledQuantityInTx (orderId : ℤ) : Tx ℤ := execute (selectFilledQuantity orderId)

/-- `UPDATE orders SET status .. WHERE status <> 'CANCELLED'`. -/
def updateOrderStatus (orderId : ℤ) (status : OrderStatus) : Stmt Unit := fun d =>
  match d.orders.find? orderId with
  | none => .ok ((), [])
  | some stored =>
    if stored.status = .CANCELLED then .ok ((), [])
    else .ok ((), [.putOrder { stored with status := status }])

/-- `CASE WHEN status='CANCELLED' THEN status ELSE $2 END`. -/
def ContextStatus.afterFill (stored status : ContextStatus) : ContextStatus :=
  if stored = .CANCELLED then stored else status

/-- The contexts of an order: by its id, or by its reservation. -/
def ProjectorDb.contextsOf (d : ProjectorDb) (orderId : ℤ) (reservationId : Option String) :
    List OrderContextRow :=
  d.orderContexts.rows.filter fun row =>
    row.orderId = some orderId ∨ some row.reservationId = reservationId

def updateContextStatus (orderId : ℤ) (reservationId : Option String) (status : ContextStatus) :
    Stmt Unit := fun d =>
  .ok ((), (d.contextsOf orderId reservationId).map fun row =>
    .putOrderContext { row with status := row.status.afterFill status })

def updateOrderAfterFillInTx (context : StoredOrderContext) (orderId : ℤ) : Tx Unit := do
  let filledQuantity ← cumulativeFilledQuantityInTx orderId
  let status := orderStatusAfterFill context.quantity filledQuantity
  let contextStatus := contextStatusForOrderStatus status
  execute (updateOrderStatus orderId status)
  execute (updateContextStatus orderId context.reservationId contextStatus)

/-- The fill of a trade. -/
def fillRow (event : TradeExecuted) (maker taker : StoredOrderContext)
    (check : 0 ≤ event.price ∧ 0 < event.quantity ∧ 0 < event.engineSequence) : FillRow where
  fillId := event.fillId
  marketId := event.marketId
  engineSequence := event.engineSequence
  makerId := maker.userId
  takerId := taker.userId
  makerOrderId := event.makerOrderId
  takerOrderId := event.takerOrderId
  price := event.price
  quantity := event.quantity
  makerPosition := maker.side
  takerPosition := taker.side
  executedAtMs := event.engineTimestampMs
  check := check

/-- `INSERT INTO fills .. ON CONFLICT DO NOTHING`: whether the fill is new. -/
def insertFill (event : TradeExecuted) (maker taker : StoredOrderContext) : Stmt Bool := fun d =>
  if check : 0 ≤ event.price ∧ 0 < event.quantity ∧ 0 < event.engineSequence then
    let row := fillRow event maker taker check
    if d.fills.find? event.fillId = none ∧ d.fills.Admits row then
      if d.References maker.userId event.marketId ∧ taker.userId ∈ d.users ∧
          (d.orders.find? event.makerOrderId).isSome ∧
          (d.orders.find? event.takerOrderId).isSome then
        .ok (true, [.putFill row])
      else refused
    else .ok (false, [])
  else refused

def updateLastTradedPrice (marketId price : ℤ) : Stmt Unit := fun d =>
  match d.markets.find? marketId with
  | none => .ok ((), [])
  | some market => .ok ((), [.putMarket { market with lastTradedPrice := price }])

/-! ## Operations -/

def saveOrderContext (order : ReservedPlaceOrder) (topic : String) (partition nextOffset : ℤ) :
    Tx Unit := do
  execute (upsertOrderContext order.reservationId order.envelope.requestId order.envelope.userId
    order.marketId order.marketName (sideToDb order.side) (orderTypeToDb order.orderType)
    order.quantity order.price order.reduceOnly)
  saveQueueOffsetInTx topic partition nextOffset
  commitTx

def saveLiquidationContext (liquidation : LiquidatePosition) (topic : String)
    (partition nextOffset : ℤ) : Tx Unit := do
  let closeSide := oppositeSide liquidation.positionSide
  let orderType := if liquidation.price = 0 then DbOrderType.MARKET else .LIMIT
  execute (upsertOrderContext liquidation.liquidationId liquidation.envelope.requestId
    liquidation.liquidatedUserId liquidation.marketId liquidation.marketName closeSide orderType
    liquidation.quantity liquidation.price true)
  saveQueueOffsetInTx topic partition nextOffset
  commitTx

/-- `CASE WHEN status IN ('OPEN','PARTIAL','FILLED','CANCELLED') THEN status ELSE
'ACCEPTED' END`. -/
def ContextStatus.accepted : ContextStatus → ContextStatus
  | OPEN => OPEN
  | PARTIAL => PARTIAL
  | FILLED => FILLED
  | CANCELLED => CANCELLED
  | _ => ACCEPTED

/-- `CASE WHEN status IN ('ACCEPTED','OPEN','PARTIAL','FILLED','CANCELLED') THEN
status ELSE 'REJECTED' END`. -/
def ContextStatus.rejected : ContextStatus → ContextStatus
  | ACCEPTED => ACCEPTED
  | OPEN => OPEN
  | PARTIAL => PARTIAL
  | FILLED => FILLED
  | CANCELLED => CANCELLED
  | _ => REJECTED

/-- `CASE WHEN status IN ('PARTIAL','FILLED','CANCELLED') THEN status ELSE 'OPEN'
END`. -/
def ContextStatus.opened : ContextStatus → ContextStatus
  | PARTIAL => PARTIAL
  | FILLED => FILLED
  | CANCELLED => CANCELLED
  | _ => OPEN

/-- What an acceptance does to the context of a reservation. -/
def markAccepted (reservationId : String) (orderId : ℤ) (topic : String)
    (partition nextOffset : ℤ) : Tx Unit := do
  let _ ← loadContextByReservationInTx reservationId
  execute (updateContext reservationId fun row =>
    { row with orderId := some orderId, status := row.status.accepted, rejectReason := none })
  saveQueueOffsetInTx topic partition nextOffset
  commitTx

/-- What a rejection does to the context of a reservation. -/
def markRejected (reservationId reason : String) : Tx Unit := do
  let _ ← loadContextByReservationInTx reservationId
  execute (updateContext reservationId fun row =>
    { row with status := row.status.rejected, rejectReason := some reason })

def markOrderAccepted (reply : OrderAccepted) (topic : String) (partition nextOffset : ℤ) :
    Tx Unit :=
  markAccepted reply.reservationId reply.orderId topic partition nextOffset

def markOrderRejected (reply : OrderRejected) (topic : String) (partition nextOffset : ℤ) :
    Tx Unit := do
  (match reply.reservationId with
    | some reservationId => markRejected reservationId reply.reason
    | none => return () : Tx Unit)
  saveQueueOffsetInTx topic partition nextOffset
  commitTx

def markLiquidationAccepted (reply : LiquidationAccepted) (topic : String)
    (partition nextOffset : ℤ) : Tx Unit :=
  markAccepted reply.liquidationId reply.orderId topic partition nextOffset

def markLiquidationRejected (reply : LiquidationRejected) (topic : String)
    (partition nextOffset : ℤ) : Tx Unit := do
  markRejected reply.liquidationId reply.reason
  saveQueueOffsetInTx topic partition nextOffset
  commitTx

def projectOrderOpened (event : OrderOpened) (topic : String) (partition nextOffset : ℤ) :
    Tx Unit := do
  let context ← loadContextByReservationInTx event.reservationId
  execute (updateContext event.reservationId fun row =>
    { row with orderId := some event.orderId, status := row.status.opened })
  upsertOrderOpenInTx (context.withOrderId event.orderId) event.orderId
  saveQueueOffsetInTx topic partition nextOffset
  commitTx

def projectOrderCancelled (event : OrderCancelled) (topic : String) (partition nextOffset : ℤ) :
    Tx Unit := do
  let context ← loadContextForOrderInTx (some event.reservationId) event.orderId
  execute (updateContext event.reservationId fun row =>
    { row with orderId := some (row.orderId.getD event.orderId), status := .CANCELLED })
  upsertOrderCancelledInTx (context.withOrderId event.orderId) event.orderId
  saveQueueOffsetInTx topic partition nextOffset
  commitTx

/-- The positions of both users and their marks after a new fill. -/
def projectNewFill (event : TradeExecuted) (maker taker : StoredOrderContext) : Tx Unit := do
  execute (updateLastTradedPrice event.marketId event.price)
  projectPositionForFillInTx maker event.makerOrderId event.fillId event.price event.quantity
    event.engineTimestampMs event.executionReason
  projectPositionForFillInTx taker event.takerOrderId event.fillId event.price event.quantity
    event.engineTimestampMs event.executionReason
  refreshPositionPnlForMarketInTx event.marketId event.price

/-- The orders of a trade are stored and their contexts know them. -/
def storeTradeOrders (event : TradeExecuted) (maker taker : StoredOrderContext) : Tx Unit := do
  insertOrderIfMissingInTx maker event.makerOrderId
  insertOrderIfMissingInTx taker event.takerOrderId
  updateContextOrderIdInTx maker.reservationId event.makerOrderId
  updateContextOrderIdInTx taker.reservationId event.takerOrderId

/-- The projection of a trade, given the contexts of its orders. -/
def projectTrade (event : TradeExecuted) (maker taker : StoredOrderContext) (topic : String)
    (partition nextOffset : ℤ) : Tx Unit := do
  storeTradeOrders event maker taker
  let insertedFill ← execute (insertFill event maker taker)
  updateOrderAfterFillInTx maker event.makerOrderId
  updateOrderAfterFillInTx taker event.takerOrderId
  (if insertedFill then projectNewFill event maker taker else return () : Tx Unit)
  saveQueueOffsetInTx topic partition nextOffset
  commitTx

def projectTradeExecuted (event : TradeExecuted) (topic : String) (partition nextOffset : ℤ) :
    Tx Unit := do
  let contexts ← loadTradeContextsInTx event
  projectTrade event (contexts.1.withOrderId event.makerOrderId)
    (contexts.2.withOrderId event.takerOrderId) topic partition nextOffset

end Projector
