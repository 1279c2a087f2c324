import ExchangeServer.Projector.Database

/-!
# Offsets and the log of engine events

Every transaction of the projector that has worked off a record saves the offset
of the next one. Engine events are also kept as they came, each under an id of
its own.
-/

namespace Projector

open Protocol Relational Transactional Program

/-! ## Offsets -/

/-- The offset that a partition is read from. -/
def ProjectorDb.nextOffset (d : ProjectorDb) (topic : String) (partition : ℤ) : Option ℤ :=
  (d.offsets.find? (topic, partition)).map OffsetRow.nextOffset

def loadQueueOffset (topic : String) (partition : ℤ) : Tx (Option ℤ) :=
  query fun d => d.nextOffset topic partition

/-- `ON CONFLICT DO UPDATE .. WHERE next_offset < EXCLUDED.next_offset`. -/
def upsertOffset (topic : String) (partition nextOffset : ℤ) : Stmt Unit := fun d =>
  if check : 0 ≤ nextOffset then
    match d.nextOffset topic partition with
    | none => .ok ((), [.putOffset { topic, partition, nextOffset, check }])
    | some stored =>
      if stored < nextOffset then .ok ((), [.putOffset { topic, partition, nextOffset, check }])
      else .ok ((), [])
  else refused

def saveQueueOffsetInTx (topic : String) (partition nextOffset : ℤ) : Tx Unit :=
  execute (upsertOffset topic partition nextOffset)

def saveQueueOffset (topic : String) (partition nextOffset : ℤ) : Tx Unit := do
  saveQueueOffsetInTx topic partition nextOffset
  commitTx

/-! ## The log -/

structure EngineEventLogMetadata where
  eventType : String
  engineEventId : Option String
  marketId : Option ℤ
  engineSequence : Option ℤ
  engineTimestampMs : ℤ
  checkpointId : Option String

/-- The metadata of an event that has a market and a sequence, as all have. -/
def eventMetadata (eventType : String) (engineEventId : Option String)
    (marketId engineSequence engineTimestampMs : ℤ) : EngineEventLogMetadata where
  eventType := eventType
  engineEventId := engineEventId
  marketId := some marketId
  engineSequence := some engineSequence
  engineTimestampMs := engineTimestampMs
  checkpointId := none

def engineEventLogMetadata : EngineEvent → EngineEventLogMetadata
  | .orderOpened event => eventMetadata "OrderOpened" event.engineEventId event.marketId
      event.engineSequence event.engineTimestampMs
  | .orderCancelled event => eventMetadata "OrderCancelled" event.engineEventId event.marketId
      event.engineSequence event.engineTimestampMs
  | .orderExpired event => eventMetadata "OrderExpired" event.engineEventId event.marketId
      event.engineSequence event.engineTimestampMs
  | .reservationReleased event => eventMetadata "ReservationReleased" event.engineEventId
      event.marketId event.engineSequence event.engineTimestampMs
  | .tradeExecuted event => eventMetadata "TradeExecuted" event.engineEventId event.marketId
      event.engineSequence event.engineTimestampMs
  | .orderBookDelta event => eventMetadata "OrderBookDelta" event.engineEventId event.marketId
      event.engineSequence event.engineTimestampMs
  | .markPriceUpdated event => eventMetadata "MarkPriceUpdated" event.engineEventId event.marketId
      event.engineSequence event.engineTimestampMs
  | .fundingRateUpdated event => eventMetadata "FundingRateUpdated" event.engineEventId
      event.marketId event.engineSequence event.engineTimestampMs
  | .fundingPaymentApplied event => eventMetadata "FundingPaymentApplied" event.engineEventId
      event.marketId event.engineSequence event.engineTimestampMs
  | .positionChanged event => eventMetadata "PositionChanged" event.engineEventId event.marketId
      event.engineSequence event.engineTimestampMs
  | .riskStateUpdated event => eventMetadata "RiskStateUpdated" event.engineEventId event.marketId
      event.engineSequence event.engineTimestampMs
  | .liquidationStarted event => eventMetadata "LiquidationStarted" event.engineEventId
      event.marketId event.engineSequence event.engineTimestampMs
  | .liquidationExecuted event => eventMetadata "LiquidationExecuted" event.engineEventId
      event.marketId event.engineSequence event.engineTimestampMs
  | .liquidationCompleted event => eventMetadata "LiquidationCompleted" event.engineEventId
      event.marketId event.engineSequence event.engineTimestampMs
  | .adlExecuted event => eventMetadata "AdlExecuted" event.engineEventId event.marketId
      event.engineSequence event.engineTimestampMs
  | .accountDelta event => eventMetadata "AccountDelta" event.engineEventId event.marketId
      event.engineSequence event.engineTimestampMs

def engineEventLogId (metadata : EngineEventLogMetadata) : String :=
  match metadata.engineEventId.filter (fun id => !id.isEmpty) with
  | some engineEventId => engineEventId
  | none =>
    match metadata.checkpointId.filter (fun id => !id.isEmpty) with
    | some checkpointId => "checkpoint:" ++ checkpointId
    | none =>
      match metadata.marketId, metadata.engineSequence with
      | some marketId, some engineSequence =>
        metadata.eventType ++ ":" ++ toString marketId ++ ":" ++ toString engineSequence
      | _, _ => metadata.eventType ++ ":" ++ toString metadata.engineTimestampMs

structure EngineEventLogEntry where
  engineEventId : String
  eventType : String
  marketId : Option ℤ
  engineSequence : Option ℤ
  engineTimestampMs : ℤ
  payload : EngineEvent

def engineEventLogEntry (event : EngineEvent) : EngineEventLogEntry :=
  let metadata := engineEventLogMetadata event
  { engineEventId := engineEventLogId metadata, eventType := metadata.eventType,
    marketId := metadata.marketId, engineSequence := metadata.engineSequence,
    engineTimestampMs := metadata.engineTimestampMs, payload := event }

/-- `INSERT INTO engine_event_log .. ON CONFLICT(engine_event_id) DO NOTHING`. -/
def insertEngineEventLog (entry : EngineEventLogEntry) (topic : String) (partition offset : ℤ) :
    Stmt Unit := fun d =>
  if check : entry.engineEventId ≠ "" ∧ (∀ sequence ∈ entry.engineSequence, 0 < sequence) ∧
      0 ≤ entry.engineTimestampMs ∧ 0 ≤ offset then
    let row : EngineEventLogRow :=
      { engineEventId := entry.engineEventId, eventType := entry.eventType,
        marketId := entry.marketId, engineSequence := entry.engineSequence,
        engineTimestampMs := entry.engineTimestampMs, topic := topic, partition := partition,
        offsetValue := offset, payload := entry.payload, check := check }
    match d.engineEventLog.find? row.engineEventId with
    | some _ => .ok ((), [])
    | none =>
      if d.engineEventLog.Admits row ∧
          ∀ marketId ∈ row.marketId, (d.markets.find? marketId).isSome then
        .ok ((), [.putEngineEventLog row])
      else refused
  else refused

def insertEngineEventLogInTx (entry : EngineEventLogEntry) (topic : String)
    (partition nextOffset : ℤ) : Tx Unit :=
  execute (insertEngineEventLog entry topic partition (nextOffset - 1))

def saveEngineEventLog (event : EngineEvent) (topic : String) (partition nextOffset : ℤ) :
    Tx Unit := do
  insertEngineEventLogInTx (engineEventLogEntry event) topic partition nextOffset
  commitTx

def projectEngineEventLog (event : EngineEvent) (topic : String) (partition nextOffset : ℤ) :
    Tx Unit := do
  insertEngineEventLogInTx (engineEventLogEntry event) topic partition nextOffset
  saveQueueOffsetInTx topic partition nextOffset
  commitTx

end Projector
