import ExchangeServer.Foundation.Indexed
import ExchangeServer.Foundation.Program
import ExchangeServer.Protocol.Engine

/-!
# Trades and candles

The timeseries service consumes the engine events and keeps every trade and, for
five intervals, one candle for each bucket of time in which a market has traded.
A trade is recorded in one transaction: it is stored once under its market and
sequence, and only then are its candles updated.
-/

namespace Timeseries

open Protocol Relational Transactional Program

/-- The largest value of a `BIGINT` column. -/
def bigintMax : ℤ := 2 ^ 63 - 1

/-- The first millisecond that a `TIMESTAMPTZ` column cannot hold. -/
def timestampEndMs : ℤ := 9224318016000000

/-! ## Candle drafts -/

structure CandleInterval where
  label : String
  durationMs : ℤ
  deriving DecidableEq

def minuteMs : ℤ := 60000

def hourMs : ℤ := 60 * minuteMs

def dayMs : ℤ := 24 * hourMs

def candleIntervals : List CandleInterval :=
  [⟨"1m", minuteMs⟩, ⟨"5m", 5 * minuteMs⟩, ⟨"15m", 15 * minuteMs⟩, ⟨"1h", hourMs⟩, ⟨"1d", dayMs⟩]

structure CandleDraft where
  marketId : ℤ
  interval : String
  bucketStartMs : ℤ
  price : ℤ
  quantity : ℤ
  engineSequence : ℤ
  deriving DecidableEq

/-- `timestamp_ms - timestamp_ms.rem_euclid(interval_ms)`. -/
def bucketStartMs (timestampMs intervalMs : ℤ) : ℤ := timestampMs - timestampMs % intervalMs

def candleDraftsFromTrade (trade : TradeExecuted) : List CandleDraft :=
  candleIntervals.map fun interval => {
    marketId := trade.marketId
    interval := interval.label
    bucketStartMs := bucketStartMs trade.engineTimestampMs interval.durationMs
    price := trade.price
    quantity := trade.quantity
    engineSequence := trade.engineSequence }

/-! ## Tables -/

/-- A row of `timeseries_trades`. -/
structure TradeRow where
  marketId : ℤ
  engineSequence : ℤ
  fillId : ℤ
  engineTimestampMs : ℤ
  price : ℤ
  quantity : ℤ
  topic : String
  partition : ℤ
  offsetValue : ℤ
  check : 0 < engineSequence ∧ 0 ≤ engineTimestampMs ∧ 0 ≤ price ∧ 0 < quantity ∧ 0 ≤ offsetValue
  deriving DecidableEq

def TradeRow.key (row : TradeRow) : ℤ × ℤ := (row.marketId, row.engineSequence)

/-- The values of `UNIQUE(fill_id)` and `UNIQUE(topic, partition, offset_value)`. -/
inductive TradeIndex
  | fill (fillId : ℤ)
  | position (topic : String) (partition offsetValue : ℤ)
  deriving DecidableEq

def TradeRow.indices (row : TradeRow) : List TradeIndex :=
  [.fill row.fillId, .position row.topic row.partition row.offsetValue]

/-- Market, interval and start of a bucket. -/
abbrev CandleKey := ℤ × String × ℤ

/-- The columns of a row of `candles`; a bucket starts at a whole minute, which a
time stamp holds exactly. -/
structure Candle where
  marketId : ℤ
  interval : String
  bucketStartMs : ℤ
  openPrice : ℤ
  high : ℤ
  low : ℤ
  close : ℤ
  volume : ℤ
  tradeCount : ℤ
  firstEngineSequence : ℤ
  lastEngineSequence : ℤ
  deriving DecidableEq

/-- The constraints of `candles` and the ranges of its columns. -/
def Candle.Checks (candle : Candle) : Prop :=
  candle.interval ∈ ["1m", "5m", "15m", "1h", "1d"] ∧ 0 ≤ candle.openPrice ∧ 0 ≤ candle.high ∧
    0 ≤ candle.low ∧ 0 ≤ candle.close ∧ 0 < candle.volume ∧ 0 < candle.tradeCount ∧
    0 < candle.firstEngineSequence ∧ candle.firstEngineSequence ≤ candle.lastEngineSequence ∧
    candle.volume ≤ bigintMax ∧ candle.tradeCount ≤ bigintMax ∧
    candle.bucketStartMs < timestampEndMs

instance (candle : Candle) : Decidable candle.Checks :=
  inferInstanceAs (Decidable (_ ∧ _))

structure CandleRow extends Candle where
  check : toCandle.Checks
  deriving DecidableEq

def CandleRow.key (row : CandleRow) : CandleKey := (row.marketId, row.interval, row.bucketStartMs)

def CandleDraft.key (draft : CandleDraft) : CandleKey :=
  (draft.marketId, draft.interval, draft.bucketStartMs)

structure OffsetRow where
  topic : String
  partition : ℤ
  nextOffset : ℤ
  check : 0 ≤ nextOffset

def OffsetRow.key (row : OffsetRow) : String × ℤ := (row.topic, row.partition)

structure TimeseriesDb where
  timeseriesTrades : Indexed TradeRow.key TradeRow.indices
  candles : Table CandleRow.key
  timeseriesOffsets : Table OffsetRow.key

namespace TimeseriesDb

def empty : TimeseriesDb where
  timeseriesTrades := .empty
  candles := .empty
  timeseriesOffsets := .empty

end TimeseriesDb

inductive Write
  | putTrade (row : TradeRow)
  | putCandle (row : CandleRow)
  | putOffset (row : OffsetRow)

def TimeseriesDb.write : Write → TimeseriesDb → TimeseriesDb
  | .putTrade row, d => { d with timeseriesTrades := d.timeseriesTrades.put row }
  | .putCandle row, d => { d with candles := d.candles.upsert row }
  | .putOffset row, d => { d with timeseriesOffsets := d.timeseriesOffsets.upsert row }

/-! ## Statements -/

/-- A constraint, or the range of a column, refuses a statement. -/
inductive TimeseriesRepositoryError
  | storage
  deriving DecidableEq

/-- A statement: its answer and its writes against a view of the database. -/
def Stmt (β : Type) : Type := TimeseriesDb → Except TimeseriesRepositoryError (β × List Write)

instance : Store Stmt TimeseriesDb Write TimeseriesRepositoryError where
  write := TimeseriesDb.write
  exec statement := statement

/-- A transaction of the service. -/
abbrev Tx (α : Type) := Program Stmt TimeseriesRepositoryError α

abbrev view (ws : List Write) (d : TimeseriesDb) : TimeseriesDb := Store.applyAll Stmt ws d

def execute {β : Type} (statement : Stmt β) : Tx β := .perform statement

theorem eval_execute {β : Type} {statement : Stmt β} {d : TimeseriesDb} {b : β} {ws : List Write}
    (h : statement d = .ok (b, ws)) : (execute statement).eval d = .ok (b, view ws d) :=
  Program.eval_perform_of_exec (S := Stmt) h

/-- `INSERT INTO timeseries_trades .. ON CONFLICT(market_id, engine_sequence) DO NOTHING
RETURNING ..`; the answer says whether the trade is new. -/
def insertTrade (topic : String) (partition offset : ℤ) (trade : TradeExecuted) : Stmt Bool := fun d =>
  if check : 0 < trade.engineSequence ∧ 0 ≤ trade.engineTimestampMs ∧ 0 ≤ trade.price ∧
      0 < trade.quantity ∧ 0 ≤ offset then
    if trade.engineTimestampMs < timestampEndMs then
      let row : TradeRow := {
        marketId := trade.marketId, engineSequence := trade.engineSequence
        fillId := trade.fillId, engineTimestampMs := trade.engineTimestampMs
        price := trade.price, quantity := trade.quantity, topic, partition
        offsetValue := offset, check }
      match d.timeseriesTrades.find? row.key with
      | some _ => .ok (false, [])
      | none =>
        if d.timeseriesTrades.Admits row then .ok (true, [.putTrade row]) else .error .storage
    else .error .storage
  else .error .storage

/-- The candle of a draft alone. -/
def CandleDraft.fresh (candle : CandleDraft) : Candle where
  marketId := candle.marketId
  interval := candle.interval
  bucketStartMs := candle.bucketStartMs
  openPrice := candle.price
  high := candle.price
  low := candle.price
  close := candle.price
  volume := candle.quantity
  tradeCount := 1
  firstEngineSequence := candle.engineSequence
  lastEngineSequence := candle.engineSequence

/-- `DO UPDATE SET ..` of a stored candle. -/
def CandleDraft.merge (candle : CandleDraft) (stored : Candle) : Candle where
  marketId := stored.marketId
  interval := stored.interval
  bucketStartMs := stored.bucketStartMs
  openPrice :=
    if candle.engineSequence < stored.firstEngineSequence then candle.price else stored.openPrice
  high := max stored.high candle.price
  low := min stored.low candle.price
  close :=
    if candle.engineSequence > stored.lastEngineSequence then candle.price else stored.close
  volume := stored.volume + candle.quantity
  tradeCount := stored.tradeCount + 1
  firstEngineSequence := min stored.firstEngineSequence candle.engineSequence
  lastEngineSequence := max stored.lastEngineSequence candle.engineSequence

/-- `INSERT INTO candles .. ON CONFLICT DO UPDATE ..`. The constraints of the
proposed row are checked before a conflict is looked for. -/
def upsertCandle (candle : CandleDraft) : Stmt Unit := fun d =>
  if hfresh : candle.fresh.Checks then
    match d.candles.find? candle.key with
    | none => .ok ((), [.putCandle ⟨candle.fresh, hfresh⟩])
    | some stored =>
      if hmerge : (candle.merge stored.toCandle).Checks then
        .ok ((), [.putCandle ⟨candle.merge stored.toCandle, hmerge⟩])
      else .error .storage
  else .error .storage

/-- `ON CONFLICT DO UPDATE .. WHERE next_offset < EXCLUDED.next_offset`. -/
def saveQueueOffsetSql (topic : String) (partition nextOffset : ℤ) : Stmt Unit := fun d =>
  if check : 0 ≤ nextOffset then
    let row : OffsetRow := { topic, partition, nextOffset, check }
    match d.timeseriesOffsets.find? row.key with
    | none => .ok ((), [.putOffset row])
    | some stored =>
      if stored.nextOffset < nextOffset then .ok ((), [.putOffset row]) else .ok ((), [])
  else .error .storage

/-! ## Transactions -/

def saveQueueOffsetInTx (topic : String) (partition nextOffset : ℤ) : Tx Unit :=
  execute (saveQueueOffsetSql topic partition nextOffset)

def saveQueueOffset (topic : String) (partition nextOffset : ℤ) : Tx Unit := do
  saveQueueOffsetInTx topic partition nextOffset
  commitTx

def upsertCandleInTx (candle : CandleDraft) : Tx Unit := execute (upsertCandle candle)

/-- The candles of a trade one after the other. -/
def upsertCandlesInTx : List CandleDraft → Tx Unit
  | [] => return ()
  | candle :: candles => do
    upsertCandleInTx candle
    upsertCandlesInTx candles

def recordTrade (topic : String) (partition offset nextOffset : ℤ) (trade : TradeExecuted)
    (candles : List CandleDraft) : Tx Bool := do
  let inserted ← execute (insertTrade topic partition offset trade)
  (if inserted then upsertCandlesInTx candles else return () : Tx Unit)
  saveQueueOffsetInTx topic partition nextOffset
  commitTx
  return inserted

/-- A record of the topic of engine events: only trades count. -/
def processEngineEvent (event : EngineEvent) (topic : String) (partition offset nextOffset : ℤ) :
    Tx Unit :=
  match event with
  | .tradeExecuted trade => do
    let _ ← recordTrade topic partition offset nextOffset trade (candleDraftsFromTrade trade)
    return ()
  | _ => saveQueueOffset topic partition nextOffset

/-! ## Shape -/

theorem open_upsertCandlesInTx (candles : List CandleDraft) : (upsertCandlesInTx candles).Open := by
  induction candles with
  | nil => exact open_pure ()
  | cons candle candles ih => exact open_bind (open_perform _) fun _ => ih

theorem open_candles (inserted : Bool) (candles : List CandleDraft) :
    (if inserted then upsertCandlesInTx candles else return () : Tx Unit).Open := by
  cases inserted
  · exact open_pure ()
  · exact open_upsertCandlesInTx candles

end Timeseries
