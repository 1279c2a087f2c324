import ExchangeServer.Projector.EventLog

/-!
# Projection of order book deltas

A delta names the levels of a market's book that have changed, with their new
quantities. It is applied when its sequence is new in its market and larger than
that of the stored book.
-/

namespace Projector

open Protocol Relational Transactional Program

/-- The row that marks a delta as seen. -/
def orderbookEventRow (event : OrderBookDelta) (topic : String) (partition offset : ℤ)
    (check : 0 < event.engineSequence ∧ 0 ≤ event.engineTimestampMs ∧ 0 ≤ offset) :
    OrderbookEventRow where
  marketId := event.marketId
  engineSequence := event.engineSequence
  engineTimestampMs := event.engineTimestampMs
  topic := topic
  partition := partition
  offsetValue := offset
  check := check

/-- `INSERT INTO orderbook_events .. ON CONFLICT(market_id, engine_sequence) DO NOTHING`;
the answer says whether the delta is new. -/
def insertOrderbookEvent (event : OrderBookDelta) (topic : String) (partition offset : ℤ) :
    Stmt Bool := fun d =>
  if check : 0 < event.engineSequence ∧ 0 ≤ event.engineTimestampMs ∧ 0 ≤ offset then
    let row := orderbookEventRow event topic partition offset check
    match d.orderbookEvents.find? row.key with
    | some _ => .ok (false, [])
    | none =>
      if d.orderbookEvents.Admits row ∧ (d.markets.find? event.marketId).isSome then
        .ok (true, [.putOrderbookEvent row])
      else refused
  else refused

def shouldApplyOrderbookDeltaInTx (event : OrderBookDelta) : Tx Bool := do
  let currentSequence ← query fun d =>
    (d.orderbookState.find? event.marketId).map OrderbookStateRow.engineSequence
  return (currentSequence.map fun sequence => decide (sequence < event.engineSequence)).getD true

/-- `DELETE FROM orderbook_levels .. AND last_engine_sequence < $4`. -/
def deleteOrderbookLevel (key : LevelKey) (engineSequence : ℤ) : Stmt Unit := fun d =>
  match d.orderbookLevels.find? key with
  | none => .ok ((), [])
  | some row =>
    if row.lastEngineSequence < engineSequence then .ok ((), [.deleteOrderbookLevel key])
    else .ok ((), [])

/-- `INSERT INTO orderbook_levels .. ON CONFLICT DO UPDATE .. WHERE
last_engine_sequence < EXCLUDED.last_engine_sequence`. -/
def upsertOrderbookLevel (marketId : ℤ) (side : BookSide)
    (price quantity lastEngineSequence : ℤ) : Stmt Unit := fun d =>
  if check : 0 ≤ price ∧ 0 < quantity ∧ 0 < lastEngineSequence then
    let row : OrderbookLevelRow := { marketId, side, price, quantity, lastEngineSequence, check }
    match d.orderbookLevels.find? row.key with
    | none =>
      if (d.markets.find? marketId).isSome then .ok ((), [.putOrderbookLevel row]) else refused
    | some stored =>
      if stored.lastEngineSequence < lastEngineSequence then .ok ((), [.putOrderbookLevel row])
      else .ok ((), [])
  else refused

def applyOrderbookLevelInTx (event : OrderBookDelta) (side : BookSide) (level : OrderBookLevel) :
    Tx Unit :=
  if level.quantity ≤ 0 then
    execute (deleteOrderbookLevel (event.marketId, side, level.price) event.engineSequence)
  else
    execute (upsertOrderbookLevel event.marketId side level.price level.quantity
      event.engineSequence)

/-- The levels of a side one after the other. -/
def applyOrderbookLevels (event : OrderBookDelta) (side : BookSide) : List OrderBookLevel → Tx Unit
  | [] => return ()
  | level :: levels => do
    applyOrderbookLevelInTx event side level
    applyOrderbookLevels event side levels

/-- `INSERT INTO orderbook_state .. ON CONFLICT DO UPDATE .. WHERE
engine_sequence < EXCLUDED.engine_sequence`. -/
def upsertOrderbookState (event : OrderBookDelta) : Stmt Unit := fun d =>
  if check : 0 < event.engineSequence ∧ 0 ≤ event.engineTimestampMs then
    let row : OrderbookStateRow :=
      { marketId := event.marketId, engineSequence := event.engineSequence,
        engineTimestampMs := event.engineTimestampMs, check := check }
    match d.orderbookState.find? row.marketId with
    | none =>
      if (d.markets.find? event.marketId).isSome then .ok ((), [.putOrderbookState row])
      else refused
    | some stored =>
      if stored.engineSequence < event.engineSequence then .ok ((), [.putOrderbookState row])
      else .ok ((), [])
  else refused

def upsertOrderbookStateInTx (event : OrderBookDelta) : Tx Unit :=
  execute (upsertOrderbookState event)

/-- The levels of a delta and the sequence of the book after it. -/
def applyOrderbookDelta (event : OrderBookDelta) : Tx Unit := do
  applyOrderbookLevels event .BID event.bids
  applyOrderbookLevels event .ASK event.asks
  upsertOrderbookStateInTx event

def projectOrderbookDelta (event : OrderBookDelta) (topic : String) (partition nextOffset : ℤ) :
    Tx Unit := do
  let inserted ← execute (insertOrderbookEvent event topic partition (nextOffset - 1))
  let apply ← (if inserted then shouldApplyOrderbookDeltaInTx event else return false : Tx Bool)
  (if apply then applyOrderbookDelta event else return () : Tx Unit)
  saveQueueOffsetInTx topic partition nextOffset
  commitTx

/-! ## Shape -/

theorem open_applyOrderbookLevelInTx (event : OrderBookDelta) (side : BookSide)
    (level : OrderBookLevel) : (applyOrderbookLevelInTx event side level).Open := by
  unfold applyOrderbookLevelInTx
  split <;> exact open_perform _

theorem open_applyOrderbookLevels (event : OrderBookDelta) (side : BookSide)
    (levels : List OrderBookLevel) : (applyOrderbookLevels event side levels).Open := by
  induction levels with
  | nil => trivial
  | cons level levels ih => exact open_bind (open_applyOrderbookLevelInTx event side level) fun _ => ih

theorem open_applyOrderbookDelta (event : OrderBookDelta) : (applyOrderbookDelta event).Open :=
  open_bind (open_applyOrderbookLevels event .BID event.bids) fun _ =>
    open_bind (open_applyOrderbookLevels event .ASK event.asks) fun _ => open_perform _

theorem atomic_projectOrderbookDelta (event : OrderBookDelta) (topic : String)
    (partition nextOffset : ℤ) : (projectOrderbookDelta event topic partition nextOffset).Atomic := by
  refine atomic_bind (open_perform _) fun inserted => atomic_bind ?_ fun apply => atomic_bind ?_
    fun _ => atomic_bind (open_perform _) fun _ => atomic_commitTx
  · cases inserted
    · trivial
    · exact open_bind (open_perform _) fun _ => trivial
  · cases apply
    · trivial
    · exact open_applyOrderbookDelta event

end Projector
