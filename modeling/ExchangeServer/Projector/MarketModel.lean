import ExchangeServer.Projector.FillRuns
import ExchangeServer.Projector.OrderSteps
import ExchangeServer.Projector.UnrealizedPnl

/-!
# The read model of one market

What the events of a market make of its orders, fills and positions when all
that is known of its orders is known beforehand. A catalogue says what that is;
the statuses are those that events have given. The positions are without their
numbers, which are drawn in the order in which all markets need them.

## Main results

- `Catalogue`: what the records say of their orders
- `ProjectorDb.market`: the read model of a market as it is stored
- `MarketModel.apply`: what an event makes of it
-/

namespace Projector

open Protocol Relational Transactional Program

/-! ## Catalogues -/

/-- What the records say of the orders they are about: the context of each
reservation, the order of a reservation, the reservation of an order and the
market of a fill; and the amount of each reservation, which the wallet says. -/
structure Catalogue where
  amount : String → Option ℤ
  context : String → StoredOrderContext
  orderId : String → ℤ
  reservationId : ℤ → String
  fillMarket : ℤ → ℤ

namespace Catalogue

variable (c : Catalogue)

/-- The reservation and the order belong to each other. -/
def Names (reservationId : String) (orderId : ℤ) : Prop :=
  c.orderId reservationId = orderId ∧ c.reservationId orderId = reservationId

/-- The market of an order. -/
def marketId (orderId : ℤ) : ℤ := (c.context (c.reservationId orderId)).marketId

/-- The context of an order as a transaction uses it. -/
def stored (orderId : ℤ) : StoredOrderContext :=
  { c.context (c.reservationId orderId) with
    orderId := some orderId
    margin := (c.amount (c.reservationId orderId)).getD 0 }

end Catalogue

/-! ## The model -/

/-- A status that an event has given, and none when there was no event yet. -/
def ContextStatus.ofEvent : ContextStatus → Option ContextStatus
  | PENDING | ACCEPTED | REJECTED => none
  | status => some status

/-- The context as its input stores it. -/
def OrderContextRow.input (row : OrderContextRow) : StoredOrderContext :=
  { row.stored none with orderId := none }

/-- A position without its number. -/
def PositionRow.unnumbered (row : PositionRow) : PositionRow := { row with positionId := 0 }

/-- The orders of a market by their ids, the statuses of their contexts, its
fills and its positions by their users. -/
@[ext] structure MarketModel where
  orders : ℤ → Option OrderRow
  statuses : String → Option ContextStatus
  fills : List FillRow
  positions : ℤ → Option PositionRow

/-- The status that events have given to a context. -/
def ProjectorDb.eventStatus (d : ProjectorDb) (reservationId : String) : Option ContextStatus :=
  (d.orderContexts.find? reservationId).bind fun row => row.status.ofEvent

/-- The read model of a market as it is stored. -/
def ProjectorDb.market (d : ProjectorDb) (c : Catalogue) (marketId : ℤ) : MarketModel where
  orders orderId := if c.marketId orderId = marketId then d.orders.find? orderId else none
  statuses reservationId :=
    if (c.context reservationId).marketId = marketId then d.eventStatus reservationId else none
  fills := d.fills.rows.filter fun fill => fill.marketId = marketId
  positions userId := (d.position userId marketId).map PositionRow.unnumbered

namespace PositionFill

variable (fill : PositionFill)

/-- The position that is opened with a quantity of the fill. -/
def newRow (quantity : ℤ) (check : 0 < quantity) : PositionRow :=
  openPositionRow 0 fill.context fill.orderId quantity fill.price (fill.share quantity)
    fill.engineTimestampMs check

/-- The position of the user after the fill. -/
def after : Option PositionRow → Option PositionRow
  | none =>
    if fill.context.reduceOnly then none
    else if check : 0 < fill.quantity then some (fill.newRow fill.quantity check)
    else none
  | some row =>
    if row.side = fill.context.side then
      if fill.context.reduceOnly then some row
      else if check : 0 < addI64 row.quantity fill.quantity then some (fill.increasedRow row check)
      else none
    else if less : 0 < row.quantity - fill.quantity then some (reduced row fill.quantity less)
    else if left : 0 < fill.quantity - row.quantity then
      some (fill.newRow (fill.quantity - row.quantity) left)
    else none

end PositionFill

namespace MarketModel

variable (M : MarketModel)

def setOrder (orderId : ℤ) (row : Option OrderRow) : MarketModel :=
  { M with orders := Function.update M.orders orderId row }

/-- An event changes the status of a context. -/
def setStatus (reservationId : String) (change : ContextStatus → ContextStatus) : MarketModel :=
  { M with
    statuses := Function.update M.statuses reservationId
      (some (change ((M.statuses reservationId).getD .PENDING))) }

def upsertOrder (context : StoredOrderContext) (orderId : ℤ) (status : OrderStatus)
    (onConflict : OrderRow → Option OrderRow) : MarketModel :=
  if check : 0 < context.quantity ∧ 0 ≤ context.price ∧ 0 ≤ context.margin then
    M.setOrder orderId (some (upserted context orderId status onConflict check (M.orders orderId)))
  else M

/-- The sum of the fills that name an order. -/
def filledQuantity (orderId : ℤ) : ℤ :=
  (M.fills.map fun fill =>
    filledBy fill.makerOrderId fill.takerOrderId fill.quantity orderId).sum

/-- The statuses of an order after one of its fills. -/
def updateOrderAfterFill (context : StoredOrderContext) (orderId : ℤ) (reservationId : String) :
    MarketModel :=
  let status := orderStatusAfterFill context.quantity (M.filledQuantity orderId)
  (M.setOrder orderId ((M.orders orderId).map fun stored =>
    { stored with
      status := if stored.status = .CANCELLED then .CANCELLED else status })).setStatus
    reservationId fun stored => stored.afterFill (contextStatusForOrderStatus status)

/-- No fill of the market has the id of a trade, or its sequence. -/
def IsNew (event : TradeExecuted) : Prop :=
  ∀ fill ∈ M.fills, fill.fillId ≠ event.fillId ∧ fill.engineSequence ≠ event.engineSequence

instance (event : TradeExecuted) : Decidable (M.IsNew event) :=
  inferInstanceAs (Decidable (∀ fill ∈ M.fills, _))

def insertFill (event : TradeExecuted) (maker taker : StoredOrderContext) : MarketModel :=
  if check : 0 ≤ event.price ∧ 0 < event.quantity ∧ 0 < event.engineSequence then
    { M with fills := M.fills ++ [fillRow event maker taker check] }
  else M

def project (fill : PositionFill) : MarketModel :=
  { M with
    positions := Function.update M.positions fill.context.userId
      (fill.after (M.positions fill.context.userId)) }

/-- All positions are marked to a price. -/
def mark (price : ℤ) : MarketModel :=
  { M with positions := fun userId => (M.positions userId).map fun row => row.mark price }

def projectNewFill (event : TradeExecuted) (maker taker : StoredOrderContext) : MarketModel :=
  ((M.project (positionFill event maker event.makerOrderId)).project
    (positionFill event taker event.takerOrderId)).mark event.price

/-- The read model after an opening. -/
def orderOpened (c : Catalogue) (event : OrderOpened) : MarketModel :=
  (M.setStatus event.reservationId ContextStatus.opened).upsertOrder
    (c.stored event.orderId) event.orderId .OPEN fun stored =>
      some { stored with
        status := stored.status.opened
        reduceOnly := (c.stored event.orderId).reduceOnly }

/-- The read model after a cancellation. -/
def orderCancelled (c : Catalogue) (event : OrderCancelled) : MarketModel :=
  (M.setStatus event.reservationId fun _ => .CANCELLED).upsertOrder
    (c.stored event.orderId) event.orderId .CANCELLED fun stored =>
      some { stored with
        status := .CANCELLED
        reduceOnly := (c.stored event.orderId).reduceOnly }

/-- The read model after a trade. -/
def tradeExecuted (c : Catalogue) (event : TradeExecuted) : MarketModel :=
  let maker := c.stored event.makerOrderId
  let taker := c.stored event.takerOrderId
  let listed := (M.upsertOrder maker event.makerOrderId .PENDING fun _ => none).upsertOrder taker
    event.takerOrderId .PENDING fun _ => none
  let filled := if M.IsNew event then listed.insertFill event maker taker else listed
  let updated := (filled.updateOrderAfterFill maker event.makerOrderId
    (c.reservationId event.makerOrderId)).updateOrderAfterFill taker event.takerOrderId
    (c.reservationId event.takerOrderId)
  if M.IsNew event then updated.projectNewFill event maker taker else updated

/-- The read model after an event. -/
def apply (c : Catalogue) : EngineEvent → MarketModel
  | .orderOpened event => M.orderOpened c event
  | .orderCancelled event => M.orderCancelled c event
  | .tradeExecuted event => M.tradeExecuted c event
  | _ => M

end MarketModel

end Projector
