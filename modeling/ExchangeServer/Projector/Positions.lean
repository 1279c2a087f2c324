import ExchangeServer.Projector.Database

/-!
# Projection of fills to positions

A user has at most one open position in a market: a side, a quantity, the margin
behind it and the average price at which it was entered. A fill opens it,
increases it, or reduces it; a fill of the other side that is larger closes it
and opens one with what is left over. What a fill closes is recorded as a closed
position.
-/

namespace Projector

open Protocol Relational Transactional Program

/-! ## Arithmetic -/

/-- The sum of two 64-bit numbers. -/
def addI64 (x y : ℤ) : ℤ := Int.bmod (x + y) (2 ^ 64)

/-- The nearest 64-bit number. -/
def clampI128ToI64 (value : ℤ) : ℤ := max (-2 ^ 63) (min value (2 ^ 63 - 1))

def proportionalMargin (sourceMargin sourceQuantity targetQuantity : ℤ) : ℤ :=
  if sourceMargin ≤ 0 ∨ sourceQuantity ≤ 0 ∨ targetQuantity ≤ 0 then 0
  else if sourceQuantity ≤ targetQuantity then sourceMargin
  else
    let margin := (sourceMargin * targetQuantity).tdiv sourceQuantity
    max 1 (min (clampI128ToI64 margin) sourceMargin)

def weightedAveragePrice (currentAverage currentQuantity fillPrice fillQuantity : ℤ) : ℤ :=
  let nextQuantity := addI64 currentQuantity fillQuantity
  if nextQuantity ≤ 0 then fillPrice
  else
    let notional := currentAverage * currentQuantity + fillPrice * fillQuantity
    clampI128ToI64 (notional.tdiv nextQuantity)

/-- The product of a difference of prices and a quantity has at most 128 bits. -/
def realizedPnl (side : SideType) (entryPrice exitPrice quantity : ℤ) : ℤ :=
  let priceDelta := match side with
    | .LONG => exitPrice - entryPrice
    | .SHORT => entryPrice - exitPrice
  clampI128ToI64 (priceDelta * quantity)

def unrealizedPnl (side : SideType) (averagePrice markPrice quantity : ℤ) : ℤ :=
  if quantity ≤ 0 then 0
  else
    let priceDelta := match side with
      | .LONG => markPrice - averagePrice
      | .SHORT => averagePrice - markPrice
    clampI128ToI64 (priceDelta * quantity)

def closeTypeFromExecutionReason : ExecutionReason → CloseType
  | .TRADE => .TRADE
  | .LIQUIDATION => .LIQUIDATION

/-! ## Statements -/

/-- What is known of an order when its events are projected. -/
structure StoredOrderContext where
  reservationId : Option String
  requestId : String
  orderId : Option ℤ
  userId : ℤ
  marketId : ℤ
  marketName : String
  side : SideType
  orderType : DbOrderType
  quantity : ℤ
  price : ℤ
  margin : ℤ
  reduceOnly : Bool
  deriving DecidableEq

structure StoredPosition where
  positionId : ℤ
  side : SideType
  quantity : ℤ
  initialMargin : ℤ
  averagePrice : ℤ
  openedAtMs : ℤ
  openOrderId : Option ℤ
  deriving DecidableEq

def PositionRow.stored (row : PositionRow) : StoredPosition where
  positionId := row.positionId
  side := row.side
  quantity := row.quantity
  initialMargin := row.initialMargin
  averagePrice := row.averagePrice
  openedAtMs := row.openedAtMs
  openOrderId := row.openOrderId

/-- The open position of a user in a market. -/
def ProjectorDb.position (d : ProjectorDb) (userId marketId : ℤ) : Option PositionRow :=
  d.positions.byIndex (userId, marketId)

def loadPositionForUpdateInTx (userId marketId : ℤ) : Tx (Option StoredPosition) :=
  query fun d => (d.position userId marketId).map PositionRow.stored

def nextProjectorPositionIdInTx : Tx ℤ :=
  execute fun d => .ok (d.positionIdSeq + 1, [.drawPositionId])

def insertPositionFill (positionId fillId : ℤ) : Stmt Unit := fun d =>
  if (d.positions.find? positionId).isSome ∧ (d.fills.find? fillId).isSome then
    .ok ((), [.linkPositionFill { positionId, fillId }])
  else refused

def linkFillToOpenPositionInTx (positionId fillId : ℤ) : Tx Unit :=
  execute (insertPositionFill positionId fillId)

def insertClosedPositionFill (positionId fillId : ℤ) : Stmt Unit := fun d =>
  if (d.closedPositions.find? positionId).isSome ∧ (d.fills.find? fillId).isSome then
    .ok ((), [.linkClosedPositionFill { positionId, fillId }])
  else refused

def linkFillToClosedPositionInTx (positionId fillId : ℤ) : Tx Unit :=
  execute (insertClosedPositionFill positionId fillId)

/-- The position that a fill opens. -/
def openPositionRow (positionId : ℤ) (context : StoredOrderContext)
    (orderId quantity price initialMargin engineTimestampMs : ℤ) (check : 0 < quantity) :
    PositionRow where
  positionId := positionId
  userId := context.userId
  marketId := context.marketId
  marketName := context.marketName
  side := context.side
  quantity := quantity
  unrealizedPnl := 0
  initialMargin := initialMargin
  maintenanceMargin := 0
  marginChosen := .ISOLATED
  liquidationPrice := 0
  averagePrice := price
  openedAtMs := engineTimestampMs
  openOrderId := some orderId
  check := check

def insertPosition (positionId : ℤ) (context : StoredOrderContext)
    (orderId quantity price initialMargin engineTimestampMs : ℤ) : Stmt Unit := fun d =>
  if check : 0 < quantity then
    let row := openPositionRow positionId context orderId quantity price initialMargin
      engineTimestampMs check
    if d.References context.userId context.marketId ∧ (d.orders.find? orderId).isSome ∧
        d.positions.find? positionId = none ∧ d.positions.Admits row then
      .ok ((), [.putPosition row])
    else refused
  else refused

def insertOpenPositionInTx (context : StoredOrderContext)
    (orderId fillId quantity price initialMargin engineTimestampMs : ℤ) : Tx Unit := do
  let positionId ← nextProjectorPositionIdInTx
  execute (insertPosition positionId context orderId quantity price initialMargin engineTimestampMs)
  linkFillToOpenPositionInTx positionId fillId

/-- `UPDATE positions SET quantity, initial_margin`, and `average_price` unless it
stays as it is. -/
def updatePosition (positionId quantity initialMargin : ℤ) (averagePrice : Option ℤ) :
    Stmt Unit := fun d =>
  match d.positions.find? positionId with
  | none => .ok ((), [])
  | some row =>
    if check : 0 < quantity then
      let averagePrice := averagePrice.getD row.averagePrice
      .ok ((), [.putPosition { row with quantity, initialMargin, averagePrice, check }])
    else refused

def increasePositionInTx (position : StoredPosition) (fillId quantity price addedMargin : ℤ) :
    Tx Unit := do
  let nextQuantity := addI64 position.quantity quantity
  let nextAveragePrice :=
    weightedAveragePrice position.averagePrice position.quantity price quantity
  execute (updatePosition position.positionId nextQuantity
    (addI64 position.initialMargin addedMargin) (some nextAveragePrice))
  linkFillToOpenPositionInTx position.positionId fillId

/-- The closed position for what a fill closes. -/
def closedPositionRow (closedPositionId : ℤ) (position : StoredPosition)
    (context : StoredOrderContext)
    (closeOrderId quantity exitPrice initialMargin engineTimestampMs : ℤ) (closeReason : CloseType)
    (check : 0 < quantity) : ClosedPositionRow where
  positionId := closedPositionId
  userId := context.userId
  marketId := context.marketId
  marketName := context.marketName
  side := position.side
  quantity := quantity
  entryPrice := position.averagePrice
  exitPrice := exitPrice
  realizedPnl := realizedPnl position.side position.averagePrice exitPrice quantity
  initialMargin := initialMargin
  closingFee := 0
  openedAtMs := position.openedAtMs
  closedAtMs := engineTimestampMs
  openOrderId := position.openOrderId.getD closeOrderId
  closeOrderId := closeOrderId
  closeReason := closeReason
  check := check

def insertClosedPosition (closedPositionId : ℤ) (position : StoredPosition)
    (context : StoredOrderContext)
    (closeOrderId quantity exitPrice initialMargin engineTimestampMs : ℤ)
    (closeReason : CloseType) : Stmt Unit := fun d =>
  if check : 0 < quantity then
    let row := closedPositionRow closedPositionId position context closeOrderId quantity exitPrice
      initialMargin engineTimestampMs closeReason check
    if d.References context.userId context.marketId ∧ (d.orders.find? row.openOrderId).isSome ∧
        (d.orders.find? closeOrderId).isSome ∧ d.closedPositions.find? closedPositionId = none then
      .ok ((), [.putClosedPosition row])
    else refused
  else refused

def insertClosedPositionInTx (position : StoredPosition) (context : StoredOrderContext)
    (closeOrderId fillId quantity exitPrice initialMargin engineTimestampMs : ℤ)
    (closeReason : CloseType) : Tx ℤ := do
  let closedPositionId ← nextProjectorPositionIdInTx
  execute (insertClosedPosition closedPositionId position context closeOrderId quantity exitPrice
    initialMargin engineTimestampMs closeReason)
  linkFillToClosedPositionInTx closedPositionId fillId
  return closedPositionId

/-- The fills of the open position become fills of the closed one as well. -/
def copyPositionFills (openPositionId closedPositionId : ℤ) : Stmt Unit := fun d =>
  let linked := d.positionFills.rows.filter fun row => row.positionId = openPositionId
  if (d.closedPositions.find? closedPositionId).isSome then
    .ok ((), linked.map fun row =>
      .linkClosedPositionFill { positionId := closedPositionId, fillId := row.fillId })
  else refused

def transferOpenPositionFillsToClosedInTx (openPositionId closedPositionId : ℤ) : Tx Unit :=
  execute (copyPositionFills openPositionId closedPositionId)

def deleteOpenPositionInTx (positionId : ℤ) : Tx Unit :=
  execute fun _ => .ok ((), [.deletePosition positionId])

/-! ## Operations -/

def reduceOrReversePositionInTx (position : StoredPosition) (context : StoredOrderContext)
    (orderId fillId price quantity engineTimestampMs : ℤ) (executionReason : ExecutionReason) :
    Tx Unit := do
  let closedQuantity := min position.quantity quantity
  let closedMargin := proportionalMargin position.initialMargin position.quantity closedQuantity
  let closedPositionId ← insertClosedPositionInTx position context orderId fillId closedQuantity
    price closedMargin engineTimestampMs (closeTypeFromExecutionReason executionReason)
  if closedQuantity < position.quantity then
    let remainingQuantity := position.quantity - closedQuantity
    let remainingMargin := max (position.initialMargin - closedMargin) 0
    execute (updatePosition position.positionId remainingQuantity remainingMargin none)
  else
    transferOpenPositionFillsToClosedInTx position.positionId closedPositionId
    deleteOpenPositionInTx position.positionId
    let reversalQuantity := quantity - closedQuantity
    if 0 < reversalQuantity then
      let reversalMargin := proportionalMargin context.margin context.quantity reversalQuantity
      insertOpenPositionInTx context orderId fillId reversalQuantity price reversalMargin
        engineTimestampMs
    else return ()

def projectPositionForFillInTx (context : StoredOrderContext)
    (orderId fillId price quantity engineTimestampMs : ℤ) (executionReason : ExecutionReason) :
    Tx Unit := do
  match ← loadPositionForUpdateInTx context.userId context.marketId with
  | none =>
    if context.reduceOnly then return ()
    else
      let initialMargin := proportionalMargin context.margin context.quantity quantity
      insertOpenPositionInTx context orderId fillId quantity price initialMargin engineTimestampMs
  | some position =>
    if context.reduceOnly ∧ position.side = context.side then return ()
    else if position.side = context.side then
      let addedMargin := proportionalMargin context.margin context.quantity quantity
      increasePositionInTx position fillId quantity price addedMargin
    else
      reduceOrReversePositionInTx position context orderId fillId price quantity engineTimestampMs
        executionReason

/-- `UPDATE positions SET unrealized_pnl`. -/
def updateUnrealizedPnl (positionId unrealizedPnl : ℤ) : Stmt Unit := fun d =>
  match d.positions.find? positionId with
  | none => .ok ((), [])
  | some row => .ok ((), [.putPosition { row with unrealizedPnl }])

/-- The positions of the rows one after the other. -/
def refreshPositionPnl (markPrice : ℤ) : List PositionRow → Tx Unit
  | [] => return ()
  | row :: rows => do
    execute (updateUnrealizedPnl row.positionId
      (unrealizedPnl row.side row.averagePrice markPrice row.quantity))
    refreshPositionPnl markPrice rows

def refreshPositionPnlForMarketInTx (marketId markPrice : ℤ) : Tx Unit := do
  let rows ← query fun d => d.positions.rows.filter fun row => row.marketId = marketId
  refreshPositionPnl markPrice rows

end Projector
