import ExchangeServer.Foundation.Indexed
import ExchangeServer.Foundation.Program
import ExchangeServer.Protocol.Engine

/-!
# The projector's database

The tables of the read model with their constraints. A row carries what its
`CHECK` constraints say, and a table carries its unique keys. The times at which
rows were created and last changed are read from the clock and used by no
statement; they are left out.

A statement answers and gives the new versions of the rows it changes, or is
refused. Numbers of the source have 64 bits; sums that can leave that range are
taken modulo `2 ^ 64` where they are formed.
-/

namespace Projector

open Protocol Relational Transactional

/-! ## Enumerations -/

inductive SideType
  | LONG | SHORT
  deriving DecidableEq

inductive DbOrderType
  | LIMIT | MARKET
  deriving DecidableEq

inductive MarginType
  | ISOLATED | CROSS
  deriving DecidableEq

inductive OrderStatus
  | PENDING | OPEN | FILLED | PARTIAL | CANCELLED | REJECTED
  deriving DecidableEq

/-- The column `projector_order_context.status`. -/
inductive ContextStatus
  | PENDING | ACCEPTED | REJECTED | OPEN | PARTIAL | FILLED | CANCELLED
  deriving DecidableEq

inductive CloseType
  | TRADE | LIQUIDATION
  deriving DecidableEq

/-- The column `orderbook_levels.side`. -/
inductive BookSide
  | BID | ASK
  deriving DecidableEq

/-! ## Rows -/

structure MarketRow where
  marketId : ℤ
  marketName : String
  lastTradedPrice : ℤ
  deriving DecidableEq

structure OrderContextRow where
  reservationId : String
  requestId : String
  orderId : Option ℤ
  userId : ℤ
  marketId : ℤ
  marketName : String
  side : SideType
  orderType : DbOrderType
  quantity : ℤ
  price : ℤ
  status : ContextStatus
  rejectReason : Option String
  reduceOnly : Bool
  check : 0 < quantity ∧ 0 ≤ price
  deriving DecidableEq

/-- `UNIQUE(request_id)` and `UNIQUE(order_id)`. -/
inductive ContextIndex
  | request (requestId : String)
  | order (orderId : ℤ)
  deriving DecidableEq

def OrderContextRow.indices (row : OrderContextRow) : List ContextIndex :=
  .request row.requestId :: (row.orderId.map ContextIndex.order).toList

structure OrderRow where
  orderId : ℤ
  userId : ℤ
  marketId : ℤ
  marketName : String
  side : SideType
  orderType : DbOrderType
  quantity : ℤ
  price : ℤ
  status : OrderStatus
  margin : ℤ
  reduceOnly : Bool
  check : 0 < quantity ∧ 0 ≤ price ∧ 0 ≤ margin
  deriving DecidableEq

structure FillRow where
  fillId : ℤ
  marketId : ℤ
  engineSequence : ℤ
  makerId : ℤ
  takerId : ℤ
  makerOrderId : ℤ
  takerOrderId : ℤ
  price : ℤ
  quantity : ℤ
  makerPosition : SideType
  takerPosition : SideType
  executedAtMs : ℤ
  check : 0 ≤ price ∧ 0 < quantity ∧ 0 < engineSequence
  deriving DecidableEq

def FillRow.indices (row : FillRow) : List (ℤ × ℤ) := [(row.marketId, row.engineSequence)]

structure PositionRow where
  positionId : ℤ
  userId : ℤ
  marketId : ℤ
  marketName : String
  side : SideType
  quantity : ℤ
  unrealizedPnl : ℤ
  initialMargin : ℤ
  maintenanceMargin : ℤ
  marginChosen : MarginType
  liquidationPrice : ℤ
  averagePrice : ℤ
  openedAtMs : ℤ
  openOrderId : Option ℤ
  check : 0 < quantity
  deriving DecidableEq

/-- User and market, of which there is one position at most. -/
def PositionRow.owner (row : PositionRow) : ℤ × ℤ := (row.userId, row.marketId)

def PositionRow.indices (row : PositionRow) : List (ℤ × ℤ) := [row.owner]

structure ClosedPositionRow where
  positionId : ℤ
  userId : ℤ
  marketId : ℤ
  marketName : String
  side : SideType
  quantity : ℤ
  entryPrice : ℤ
  exitPrice : ℤ
  realizedPnl : ℤ
  initialMargin : ℤ
  closingFee : ℤ
  openedAtMs : ℤ
  closedAtMs : ℤ
  openOrderId : ℤ
  closeOrderId : ℤ
  closeReason : CloseType
  check : 0 < quantity
  deriving DecidableEq

/-- A row of `position_fills` or `closed_position_fills`. -/
structure PositionFillRow where
  positionId : ℤ
  fillId : ℤ
  deriving DecidableEq

structure OrderbookEventRow where
  marketId : ℤ
  engineSequence : ℤ
  engineTimestampMs : ℤ
  topic : String
  partition : ℤ
  offsetValue : ℤ
  check : 0 < engineSequence ∧ 0 ≤ engineTimestampMs ∧ 0 ≤ offsetValue
  deriving DecidableEq

def OrderbookEventRow.key (row : OrderbookEventRow) : ℤ × ℤ := (row.marketId, row.engineSequence)

def OrderbookEventRow.indices (row : OrderbookEventRow) : List (String × ℤ × ℤ) :=
  [(row.topic, row.partition, row.offsetValue)]

structure OrderbookStateRow where
  marketId : ℤ
  engineSequence : ℤ
  engineTimestampMs : ℤ
  check : 0 < engineSequence ∧ 0 ≤ engineTimestampMs
  deriving DecidableEq

structure OrderbookLevelRow where
  marketId : ℤ
  side : BookSide
  price : ℤ
  quantity : ℤ
  lastEngineSequence : ℤ
  check : 0 ≤ price ∧ 0 < quantity ∧ 0 < lastEngineSequence
  deriving DecidableEq

/-- Market, side and price. -/
abbrev LevelKey := ℤ × BookSide × ℤ

def OrderbookLevelRow.key (row : OrderbookLevelRow) : LevelKey :=
  (row.marketId, row.side, row.price)

/-- A row of `engine_event_log`; its payload is the event as serialized. -/
structure EngineEventLogRow where
  engineEventId : String
  eventType : String
  marketId : Option ℤ
  engineSequence : Option ℤ
  engineTimestampMs : ℤ
  topic : String
  partition : ℤ
  offsetValue : ℤ
  payload : EngineEvent
  check : engineEventId ≠ "" ∧ (∀ sequence ∈ engineSequence, 0 < sequence) ∧
    0 ≤ engineTimestampMs ∧ 0 ≤ offsetValue

def EngineEventLogRow.indices (row : EngineEventLogRow) : List (String × ℤ × ℤ) :=
  [(row.topic, row.partition, row.offsetValue)]

structure OffsetRow where
  topic : String
  partition : ℤ
  nextOffset : ℤ
  check : 0 ≤ nextOffset
  deriving DecidableEq

def OffsetRow.key (row : OffsetRow) : String × ℤ := (row.topic, row.partition)

/-! ## Content and writes -/

/-- The content of the database. `reservedAmount` is the column `amount` of the
wallet's reservations, which the projector reads; `positionIdSeq` is the last
number given by `projector_position_id_seq`. -/
structure ProjectorDb where
  users : List ℤ
  reservedAmount : String → Option ℤ
  markets : Table MarketRow.marketId
  orderContexts : Indexed OrderContextRow.reservationId OrderContextRow.indices
  orders : Table OrderRow.orderId
  fills : Indexed FillRow.fillId FillRow.indices
  positions : Indexed PositionRow.positionId PositionRow.indices
  closedPositions : Table ClosedPositionRow.positionId
  positionFills : Table (id : PositionFillRow → PositionFillRow)
  closedPositionFills : Table (id : PositionFillRow → PositionFillRow)
  positionIdSeq : ℤ
  orderbookEvents : Indexed OrderbookEventRow.key OrderbookEventRow.indices
  orderbookState : Table OrderbookStateRow.marketId
  orderbookLevels : Table OrderbookLevelRow.key
  engineEventLog : Indexed EngineEventLogRow.engineEventId EngineEventLogRow.indices
  offsets : Table OffsetRow.key

/-- A write of a transaction: a new version of a row, or the end of one. -/
inductive Write
  | putMarket (row : MarketRow)
  | putOrderContext (row : OrderContextRow)
  | putOrder (row : OrderRow)
  | putFill (row : FillRow)
  | putPosition (row : PositionRow)
  | deletePosition (positionId : ℤ)
  | putClosedPosition (row : ClosedPositionRow)
  | linkPositionFill (row : PositionFillRow)
  | linkClosedPositionFill (row : PositionFillRow)
  | drawPositionId
  | putOrderbookEvent (row : OrderbookEventRow)
  | putOrderbookState (row : OrderbookStateRow)
  | putOrderbookLevel (row : OrderbookLevelRow)
  | deleteOrderbookLevel (key : LevelKey)
  | putEngineEventLog (row : EngineEventLogRow)
  | putOffset (row : OffsetRow)

namespace ProjectorDb

/-- A database with users and markets and an empty read model. -/
def empty (users : List ℤ) (reservedAmount : String → Option ℤ)
    (markets : Table MarketRow.marketId) : ProjectorDb where
  users := users
  reservedAmount := reservedAmount
  markets := markets
  orderContexts := .empty
  orders := .empty
  fills := .empty
  positions := .empty
  closedPositions := .empty
  positionFills := .empty
  closedPositionFills := .empty
  positionIdSeq := 0
  orderbookEvents := .empty
  orderbookState := .empty
  orderbookLevels := .empty
  engineEventLog := .empty
  offsets := .empty

/-- Delete an open position and, by `ON DELETE CASCADE`, its links to fills. -/
def deletePosition (d : ProjectorDb) (positionId : ℤ) : ProjectorDb :=
  { d with
    positions := d.positions.erase positionId
    positionFills := d.positionFills.filter fun row => row.positionId ≠ positionId }

/-- The effect of a write. -/
def write : Write → ProjectorDb → ProjectorDb
  | .putMarket row, d => { d with markets := d.markets.upsert row }
  | .putOrderContext row, d => { d with orderContexts := d.orderContexts.put row }
  | .putOrder row, d => { d with orders := d.orders.upsert row }
  | .putFill row, d => { d with fills := d.fills.put row }
  | .putPosition row, d => { d with positions := d.positions.put row }
  | .deletePosition positionId, d => d.deletePosition positionId
  | .putClosedPosition row, d => { d with closedPositions := d.closedPositions.upsert row }
  | .linkPositionFill row, d => { d with positionFills := d.positionFills.upsert row }
  | .linkClosedPositionFill row, d =>
    { d with closedPositionFills := d.closedPositionFills.upsert row }
  | .drawPositionId, d => { d with positionIdSeq := d.positionIdSeq + 1 }
  | .putOrderbookEvent row, d => { d with orderbookEvents := d.orderbookEvents.put row }
  | .putOrderbookState row, d => { d with orderbookState := d.orderbookState.upsert row }
  | .putOrderbookLevel row, d => { d with orderbookLevels := d.orderbookLevels.upsert row }
  | .deleteOrderbookLevel key, d => { d with orderbookLevels := d.orderbookLevels.erase key }
  | .putEngineEventLog row, d => { d with engineEventLog := d.engineEventLog.put row }
  | .putOffset row, d => { d with offsets := d.offsets.upsert row }

/-- The user and the market that a row refers to are stored. -/
def References (d : ProjectorDb) (userId marketId : ℤ) : Prop :=
  userId ∈ d.users ∧ (d.markets.find? marketId).isSome

instance (d : ProjectorDb) (userId marketId : ℤ) : Decidable (d.References userId marketId) :=
  inferInstanceAs (Decidable (_ ∧ _))

end ProjectorDb

/-! ## Statements -/

/-- Why the database refuses a statement, or gives no row where one is needed. -/
inductive StorageError
  | constraintViolation | rowNotFound
  deriving DecidableEq

inductive ProjectorRepositoryError
  | missingOrderContext (reservationId : Option String) (orderId : Option ℤ)
  | storage (error : StorageError)
  deriving DecidableEq

def ProjectorRepositoryError.isMissingOrderContext : ProjectorRepositoryError → Bool
  | missingOrderContext _ _ => true
  | storage _ => false

/-- A statement: its answer and its writes against a view of the database. -/
def Stmt (β : Type) : Type := ProjectorDb → Except ProjectorRepositoryError (β × List Write)

instance : Store Stmt ProjectorDb Write ProjectorRepositoryError where
  write := ProjectorDb.write
  exec statement := statement

/-- A transaction of the projector. -/
abbrev Tx (α : Type) := Program Stmt ProjectorRepositoryError α

/-- What a transaction with these writes sees of the database. -/
abbrev view (ws : List Write) (d : ProjectorDb) : ProjectorDb := Store.applyAll Stmt ws d

/-- A statement that a constraint refuses. -/
def refused {α : Type} : Except ProjectorRepositoryError α := .error (.storage .constraintViolation)

/-- Issue a statement that only reads. -/
def query {β : Type} (read : ProjectorDb → β) : Tx β :=
  .perform (S := Stmt) fun d => .ok (read d, [])

/-- Issue a statement. -/
def execute {β : Type} (statement : Stmt β) : Tx β := .perform statement

theorem eval_query {β : Type} (read : ProjectorDb → β) (d : ProjectorDb) :
    (query read).eval d = .ok (read d, d) := rfl

theorem eval_execute {β : Type} {statement : Stmt β} {d : ProjectorDb} {b : β} {ws : List Write}
    (h : statement d = .ok (b, ws)) : (execute statement).eval d = .ok (b, view ws d) :=
  Program.eval_perform_of_exec (S := Stmt) h

/-- What a statement that was not refused has done. -/
theorem eval_execute_eq_ok {β : Type} {statement : Stmt β} {d d' : ProjectorDb} {b : β}
    (h : (execute statement).eval d = .ok (b, d')) :
    ∃ ws, statement d = .ok (b, ws) ∧ d' = view ws d :=
  Program.eval_perform_eq_ok (S := Stmt) h

end Projector
