import ExchangeServer.Protocol.Common

/-!
# Messages of the engine

The inputs the engine reads and the events it writes, with the fields and in
the order of `protocol::engine`.
-/

namespace Protocol

def engineInputTopic : String := "engine.input"

/-! ## Inputs -/

structure ReservedPlaceOrder where
  inputId : Option String
  envelope : CommandEnvelope
  orderId : ℤ
  reservationId : String
  marketId : ℤ
  marketName : String
  side : Side
  orderType : OrderType
  quantity : ℤ
  price : ℤ
  reduceOnly : Bool
  marginAsset : Asset
  reservedMarginAmount : ℤ
  leverage : ℤ
  deriving DecidableEq

structure CancelOrder where
  inputId : Option String
  envelope : CommandEnvelope
  marketId : ℤ
  orderId : ℤ
  deriving DecidableEq

structure LiquidatePosition where
  inputId : Option String
  envelope : CommandEnvelope
  liquidationId : String
  marketId : ℤ
  marketName : String
  liquidatedUserId : ℤ
  positionSide : Side
  quantity : ℤ
  price : ℤ
  requestSource : Option String
  deriving DecidableEq

structure MarkPriceUpdatedInput where
  inputId : Option String
  marketId : ℤ
  markPrice : ℤ
  indexPrice : ℤ
  sourceTimestampMs : ℤ
  publishedAtMs : ℤ
  validUntilMs : ℤ
  sourceSequence : ℤ
  sourceStatus : String
  deriving DecidableEq

structure FundingRateUpdatedInput where
  inputId : Option String
  marketId : ℤ
  fundingIntervalId : String
  rate : ℤ
  rateScale : ℤ
  intervalStartMs : ℤ
  intervalEndMs : ℤ
  sourceTimestampMs : ℤ
  deriving DecidableEq

structure FundingSettlementTickInput where
  inputId : Option String
  marketId : ℤ
  fundingIntervalId : String
  settleAtMs : ℤ
  deriving DecidableEq

/-- What the engine reads from its input topic. -/
inductive EngineCommand
  | placeOrder (command : ReservedPlaceOrder)
  | cancelOrder (command : CancelOrder)
  | liquidatePosition (command : LiquidatePosition)
  | markPriceUpdated (command : MarkPriceUpdatedInput)
  | fundingRateUpdated (command : FundingRateUpdatedInput)
  | fundingSettlementTick (command : FundingSettlementTickInput)
  deriving DecidableEq

/-! ## Replies -/

structure OrderAccepted where
  requestId : String
  sourceInputId : Option String
  sourceInputOffset : Option ℤ
  orderId : ℤ
  reservationId : String
  deriving DecidableEq

structure OrderRejected where
  requestId : String
  sourceInputId : Option String
  sourceInputOffset : Option ℤ
  reservationId : Option String
  reason : String
  deriving DecidableEq

structure CancelAccepted where
  requestId : String
  sourceInputId : Option String
  sourceInputOffset : Option ℤ
  orderId : ℤ
  deriving DecidableEq

structure CancelRejected where
  requestId : String
  sourceInputId : Option String
  sourceInputOffset : Option ℤ
  orderId : ℤ
  reason : String
  deriving DecidableEq

structure LiquidationAccepted where
  requestId : String
  sourceInputId : Option String
  sourceInputOffset : Option ℤ
  liquidationId : String
  orderId : ℤ
  deriving DecidableEq

structure LiquidationRejected where
  requestId : String
  sourceInputId : Option String
  sourceInputOffset : Option ℤ
  liquidationId : String
  reason : String
  deriving DecidableEq

/-- What the engine answers to an input. -/
inductive EngineReply
  | orderAccepted (reply : OrderAccepted)
  | orderRejected (reply : OrderRejected)
  | cancelAccepted (reply : CancelAccepted)
  | cancelRejected (reply : CancelRejected)
  | liquidationAccepted (reply : LiquidationAccepted)
  | liquidationRejected (reply : LiquidationRejected)
  deriving DecidableEq

/-! ## Events -/

inductive ExecutionReason
  | TRADE | LIQUIDATION
  deriving DecidableEq

structure OrderOpened where
  engineEventId : Option String
  engineSequence : ℤ
  engineTimestampMs : ℤ
  sourceInputId : Option String
  sourceInputOffset : Option ℤ
  orderId : ℤ
  reservationId : String
  userId : ℤ
  marketId : ℤ
  deriving DecidableEq

structure OrderCancelled where
  engineEventId : Option String
  engineSequence : ℤ
  engineTimestampMs : ℤ
  sourceInputId : Option String
  sourceInputOffset : Option ℤ
  orderId : ℤ
  reservationId : String
  userId : ℤ
  marketId : ℤ
  releasedAmount : ℤ
  deriving DecidableEq

structure OrderExpired where
  engineEventId : Option String
  marketId : ℤ
  engineSequence : ℤ
  engineTimestampMs : ℤ
  sourceInputId : Option String
  sourceInputOffset : Option ℤ
  orderId : ℤ
  reservationId : String
  userId : ℤ
  expiredQuantity : ℤ
  releasedAmount : ℤ
  reason : String
  deriving DecidableEq

structure ReservationReleased where
  engineEventId : Option String
  marketId : ℤ
  engineSequence : ℤ
  engineTimestampMs : ℤ
  sourceInputId : Option String
  sourceInputOffset : Option ℤ
  reservationId : String
  userId : ℤ
  asset : Asset
  releasedAmount : ℤ
  reason : String
  deriving DecidableEq

structure AssetAmount where
  asset : Asset
  amount : ℤ
  deriving DecidableEq

structure FeeDelta where
  userId : ℤ
  asset : Asset
  amount : ℤ
  feeType : String
  deriving DecidableEq

structure TradeSettlement where
  reservationId : String
  debitAsset : Asset
  debitAmount : ℤ
  creditAsset : Asset
  creditAmount : ℤ
  deriving DecidableEq

structure TradeExecuted where
  engineEventId : Option String
  engineSequence : ℤ
  engineTimestampMs : ℤ
  sourceInputId : Option String
  sourceInputOffset : Option ℤ
  fillId : ℤ
  marketId : ℤ
  price : ℤ
  quantity : ℤ
  makerOrderId : ℤ
  takerOrderId : ℤ
  makerUserId : ℤ
  takerUserId : ℤ
  makerReservationId : Option String
  takerReservationId : Option String
  executionReason : ExecutionReason
  liquidationId : Option String
  liquidatedUserId : Option ℤ
  positionSide : Option Side
  liquidationFee : Option AssetAmount
  feeDeltas : List FeeDelta
  settlements : List TradeSettlement
  deriving DecidableEq

structure OrderBookLevel where
  price : ℤ
  quantity : ℤ
  deriving DecidableEq

structure OrderBookDelta where
  engineEventId : Option String
  engineSequence : ℤ
  engineTimestampMs : ℤ
  sourceInputId : Option String
  sourceInputOffset : Option ℤ
  marketId : ℤ
  bids : List OrderBookLevel
  asks : List OrderBookLevel
  deriving DecidableEq

structure MarkPriceUpdated where
  engineEventId : Option String
  marketId : ℤ
  engineSequence : ℤ
  engineTimestampMs : ℤ
  sourceInputId : Option String
  sourceInputOffset : Option ℤ
  markPrice : ℤ
  indexPrice : ℤ
  validUntilMs : ℤ
  sourceSequence : ℤ
  sourceStatus : String
  deriving DecidableEq

structure FundingRateUpdated where
  engineEventId : Option String
  marketId : ℤ
  engineSequence : ℤ
  engineTimestampMs : ℤ
  sourceInputId : Option String
  sourceInputOffset : Option ℤ
  fundingIntervalId : String
  rate : ℤ
  rateScale : ℤ
  intervalStartMs : ℤ
  intervalEndMs : ℤ
  deriving DecidableEq

structure FundingPayment where
  userId : ℤ
  positionId : String
  side : PositionSide
  asset : Asset
  amount : ℤ
  deriving DecidableEq

structure FundingPaymentApplied where
  engineEventId : Option String
  marketId : ℤ
  engineSequence : ℤ
  engineTimestampMs : ℤ
  sourceInputId : Option String
  sourceInputOffset : Option ℤ
  fundingIntervalId : String
  payments : List FundingPayment
  deriving DecidableEq

structure PositionChanged where
  engineEventId : Option String
  marketId : ℤ
  engineSequence : ℤ
  engineTimestampMs : ℤ
  sourceInputId : Option String
  sourceInputOffset : Option ℤ
  userId : ℤ
  positionId : String
  side : PositionSide
  quantity : ℤ
  entryPrice : ℤ
  markPrice : ℤ
  isolatedMargin : ℤ
  realizedPnl : ℤ
  unrealizedPnl : ℤ
  maintenanceMargin : ℤ
  liquidationPrice : ℤ
  reason : String
  deriving DecidableEq

structure RiskStateUpdated where
  engineEventId : Option String
  marketId : ℤ
  engineSequence : ℤ
  engineTimestampMs : ℤ
  sourceInputId : Option String
  sourceInputOffset : Option ℤ
  userId : ℤ
  positionId : String
  markPrice : ℤ
  equity : ℤ
  maintenanceMargin : ℤ
  marginRatio : ℤ
  status : String
  deriving DecidableEq

structure LiquidationStarted where
  engineEventId : Option String
  marketId : ℤ
  engineSequence : ℤ
  engineTimestampMs : ℤ
  sourceInputId : Option String
  sourceInputOffset : Option ℤ
  liquidationId : String
  userId : ℤ
  positionId : String
  side : Side
  quantity : ℤ
  markPrice : ℤ
  maintenanceMargin : ℤ
  equity : ℤ
  reason : String
  deriving DecidableEq

structure LiquidationExecuted where
  engineEventId : Option String
  marketId : ℤ
  engineSequence : ℤ
  engineTimestampMs : ℤ
  sourceInputId : Option String
  sourceInputOffset : Option ℤ
  liquidationId : String
  userId : ℤ
  positionId : String
  fillId : ℤ
  price : ℤ
  quantity : ℤ
  executionReason : ExecutionReason
  deriving DecidableEq

structure LiquidationCompleted where
  engineEventId : Option String
  marketId : ℤ
  engineSequence : ℤ
  engineTimestampMs : ℤ
  sourceInputId : Option String
  sourceInputOffset : Option ℤ
  liquidationId : String
  userId : ℤ
  positionId : String
  finalStatus : String
  remainingQuantity : ℤ
  insuranceFundDelta : ℤ
  badDebt : ℤ
  deriving DecidableEq

structure AdlExecuted where
  engineEventId : Option String
  marketId : ℤ
  engineSequence : ℤ
  engineTimestampMs : ℤ
  sourceInputId : Option String
  sourceInputOffset : Option ℤ
  adlId : String
  liquidationId : String
  liquidatedUserId : ℤ
  deleveragedUserId : ℤ
  positionSide : Side
  quantity : ℤ
  price : ℤ
  rank : ℤ
  reason : String
  deriving DecidableEq

structure AccountDelta where
  engineEventId : Option String
  marketId : ℤ
  engineSequence : ℤ
  engineTimestampMs : ℤ
  sourceInputId : Option String
  sourceInputOffset : Option ℤ
  accountDeltaId : String
  userId : ℤ
  asset : Asset
  totalDelta : ℤ
  lockedDelta : ℤ
  reason : String
  referenceId : String
  deriving DecidableEq

/-- What the engine writes to its event topic. -/
inductive EngineEvent
  | orderOpened (event : OrderOpened)
  | orderCancelled (event : OrderCancelled)
  | orderExpired (event : OrderExpired)
  | reservationReleased (event : ReservationReleased)
  | tradeExecuted (event : TradeExecuted)
  | orderBookDelta (event : OrderBookDelta)
  | markPriceUpdated (event : MarkPriceUpdated)
  | fundingRateUpdated (event : FundingRateUpdated)
  | fundingPaymentApplied (event : FundingPaymentApplied)
  | positionChanged (event : PositionChanged)
  | riskStateUpdated (event : RiskStateUpdated)
  | liquidationStarted (event : LiquidationStarted)
  | liquidationExecuted (event : LiquidationExecuted)
  | liquidationCompleted (event : LiquidationCompleted)
  | adlExecuted (event : AdlExecuted)
  | accountDelta (event : AccountDelta)
  deriving DecidableEq

end Protocol
