import ExchangeServer.Protocol.Engine
import ExchangeServer.Protocol.WireCommon

/-!
# The messages of the engine on the wire

What `serde` derives for the types of `protocol::engine`, field by field with
their attributes.
-/

namespace Protocol

open Json FieldCodec

/-! ## Inputs -/

def defaultMarginAsset : Asset := .USDC

def defaultLeverage : ℤ := 1

def ReservedPlaceOrder.codec : Codec ReservedPlaceOrder :=
  Fields.start ReservedPlaceOrder ReservedPlaceOrder.mk
    |>.field "input_id" (·.inputId) (skipNone .string)
    |>.field "envelope" (·.envelope) (required CommandEnvelope.codec)
    |>.field "order_id" (·.orderId) (required .i64)
    |>.field "reservation_id" (·.reservationId) (required .string)
    |>.field "market_id" (·.marketId) (required .i64)
    |>.field "market_name" (·.marketName) (required .string)
    |>.field "side" (·.side) (required Side.codec)
    |>.field "order_type" (·.orderType) (required OrderType.codec)
    |>.field "quantity" (·.quantity) (required .i64)
    |>.field "price" (·.price) (required .i64)
    |>.field "reduce_only" (·.reduceOnly) (required .bool)
    |>.field "margin_asset" (·.marginAsset) (withDefault Asset.codec defaultMarginAsset)
    |>.field "reserved_margin_amount" (·.reservedMarginAmount) (withDefault .i64 0)
    |>.field "leverage" (·.leverage) (withDefault .i64 defaultLeverage)
    |>.struct (by decide) fun _ => rfl

def CancelOrder.codec : Codec CancelOrder :=
  Fields.start CancelOrder CancelOrder.mk
    |>.field "input_id" (·.inputId) (skipNone .string)
    |>.field "envelope" (·.envelope) (required CommandEnvelope.codec)
    |>.field "market_id" (·.marketId) (required .i64)
    |>.field "order_id" (·.orderId) (required .i64)
    |>.struct (by decide) fun _ => rfl

def LiquidatePosition.codec : Codec LiquidatePosition :=
  Fields.start LiquidatePosition LiquidatePosition.mk
    |>.field "input_id" (·.inputId) (skipNone .string)
    |>.field "envelope" (·.envelope) (required CommandEnvelope.codec)
    |>.field "liquidation_id" (·.liquidationId) (required .string)
    |>.field "market_id" (·.marketId) (required .i64)
    |>.field "market_name" (·.marketName) (required .string)
    |>.field "liquidated_user_id" (·.liquidatedUserId) (required .i64)
    |>.field "position_side" (·.positionSide) (required Side.codec)
    |>.field "quantity" (·.quantity) (required .i64)
    |>.field "price" (·.price) (required .i64)
    |>.field "request_source" (·.requestSource) (skipNone .string)
    |>.struct (by decide) fun _ => rfl

def MarkPriceUpdatedInput.codec : Codec MarkPriceUpdatedInput :=
  Fields.start MarkPriceUpdatedInput MarkPriceUpdatedInput.mk
    |>.field "input_id" (·.inputId) (skipNone .string)
    |>.field "market_id" (·.marketId) (required .i64)
    |>.field "mark_price" (·.markPrice) (required .i64)
    |>.field "index_price" (·.indexPrice) (required .i64)
    |>.field "source_timestamp_ms" (·.sourceTimestampMs) (required .i64)
    |>.field "published_at_ms" (·.publishedAtMs) (required .i64)
    |>.field "valid_until_ms" (·.validUntilMs) (required .i64)
    |>.field "source_sequence" (·.sourceSequence) (required .i64)
    |>.field "source_status" (·.sourceStatus) (required .string)
    |>.struct (by decide) fun _ => rfl

def FundingRateUpdatedInput.codec : Codec FundingRateUpdatedInput :=
  Fields.start FundingRateUpdatedInput FundingRateUpdatedInput.mk
    |>.field "input_id" (·.inputId) (skipNone .string)
    |>.field "market_id" (·.marketId) (required .i64)
    |>.field "funding_interval_id" (·.fundingIntervalId) (required .string)
    |>.field "rate" (·.rate) (required .i64)
    |>.field "rate_scale" (·.rateScale) (required .i64)
    |>.field "interval_start_ms" (·.intervalStartMs) (required .i64)
    |>.field "interval_end_ms" (·.intervalEndMs) (required .i64)
    |>.field "source_timestamp_ms" (·.sourceTimestampMs) (required .i64)
    |>.struct (by decide) fun _ => rfl

def FundingSettlementTickInput.codec : Codec FundingSettlementTickInput :=
  Fields.start FundingSettlementTickInput FundingSettlementTickInput.mk
    |>.field "input_id" (·.inputId) (skipNone .string)
    |>.field "market_id" (·.marketId) (required .i64)
    |>.field "funding_interval_id" (·.fundingIntervalId) (required .string)
    |>.field "settle_at_ms" (·.settleAtMs) (required .i64)
    |>.struct (by decide) fun _ => rfl

def EngineCommand.encodeVariant : EngineCommand → String × Json
  | .placeOrder command => ("PlaceOrder", ReservedPlaceOrder.codec.encode command)
  | .cancelOrder command => ("CancelOrder", CancelOrder.codec.encode command)
  | .liquidatePosition command => ("LiquidatePosition", LiquidatePosition.codec.encode command)
  | .markPriceUpdated command => ("MarkPriceUpdated", MarkPriceUpdatedInput.codec.encode command)
  | .fundingRateUpdated command =>
      ("FundingRateUpdated", FundingRateUpdatedInput.codec.encode command)
  | .fundingSettlementTick command =>
      ("FundingSettlementTick", FundingSettlementTickInput.codec.encode command)

def EngineCommand.decodeVariant : String × Json → Option EngineCommand
  | ("PlaceOrder", payload) => (ReservedPlaceOrder.codec.decode payload).map .placeOrder
  | ("CancelOrder", payload) => (CancelOrder.codec.decode payload).map .cancelOrder
  | ("LiquidatePosition", payload) =>
      (LiquidatePosition.codec.decode payload).map .liquidatePosition
  | ("MarkPriceUpdated", payload) =>
      (MarkPriceUpdatedInput.codec.decode payload).map .markPriceUpdated
  | ("FundingRateUpdated", payload) =>
      (FundingRateUpdatedInput.codec.decode payload).map .fundingRateUpdated
  | ("FundingSettlementTick", payload) =>
      (FundingSettlementTickInput.codec.decode payload).map .fundingSettlementTick
  | _ => none

def EngineCommand.fits : EngineCommand → Bool
  | .placeOrder command => ReservedPlaceOrder.codec.fits command
  | .cancelOrder command => CancelOrder.codec.fits command
  | .liquidatePosition command => LiquidatePosition.codec.fits command
  | .markPriceUpdated command => MarkPriceUpdatedInput.codec.fits command
  | .fundingRateUpdated command => FundingRateUpdatedInput.codec.fits command
  | .fundingSettlementTick command => FundingSettlementTickInput.codec.fits command

theorem EngineCommand.decodeVariant_encodeVariant (command : EngineCommand) (h : command.fits) :
    EngineCommand.decodeVariant command.encodeVariant = some command := by
  cases command <;>
    simp only [encodeVariant, decodeVariant, Codec.decode_encode _ _ h, Option.map_some]

def EngineCommand.codec : Codec EngineCommand :=
  .adjacentlyTagged EngineCommand.encodeVariant EngineCommand.decodeVariant EngineCommand.fits
    EngineCommand.decodeVariant_encodeVariant

/-! ## Replies -/

def OrderAccepted.codec : Codec OrderAccepted :=
  Fields.start OrderAccepted OrderAccepted.mk
    |>.field "request_id" (·.requestId) (required .string)
    |>.field "source_input_id" (·.sourceInputId) (skipNone .string)
    |>.field "source_input_offset" (·.sourceInputOffset) (skipNone .i64)
    |>.field "order_id" (·.orderId) (required .i64)
    |>.field "reservation_id" (·.reservationId) (required .string)
    |>.struct (by decide) fun _ => rfl

def OrderRejected.codec : Codec OrderRejected :=
  Fields.start OrderRejected OrderRejected.mk
    |>.field "request_id" (·.requestId) (required .string)
    |>.field "source_input_id" (·.sourceInputId) (skipNone .string)
    |>.field "source_input_offset" (·.sourceInputOffset) (skipNone .i64)
    |>.field "reservation_id" (·.reservationId) (nullable .string)
    |>.field "reason" (·.reason) (required .string)
    |>.struct (by decide) fun _ => rfl

def CancelAccepted.codec : Codec CancelAccepted :=
  Fields.start CancelAccepted CancelAccepted.mk
    |>.field "request_id" (·.requestId) (required .string)
    |>.field "source_input_id" (·.sourceInputId) (skipNone .string)
    |>.field "source_input_offset" (·.sourceInputOffset) (skipNone .i64)
    |>.field "order_id" (·.orderId) (required .i64)
    |>.struct (by decide) fun _ => rfl

def CancelRejected.codec : Codec CancelRejected :=
  Fields.start CancelRejected CancelRejected.mk
    |>.field "request_id" (·.requestId) (required .string)
    |>.field "source_input_id" (·.sourceInputId) (skipNone .string)
    |>.field "source_input_offset" (·.sourceInputOffset) (skipNone .i64)
    |>.field "order_id" (·.orderId) (required .i64)
    |>.field "reason" (·.reason) (required .string)
    |>.struct (by decide) fun _ => rfl

def LiquidationAccepted.codec : Codec LiquidationAccepted :=
  Fields.start LiquidationAccepted LiquidationAccepted.mk
    |>.field "request_id" (·.requestId) (required .string)
    |>.field "source_input_id" (·.sourceInputId) (skipNone .string)
    |>.field "source_input_offset" (·.sourceInputOffset) (skipNone .i64)
    |>.field "liquidation_id" (·.liquidationId) (required .string)
    |>.field "order_id" (·.orderId) (required .i64)
    |>.struct (by decide) fun _ => rfl

def LiquidationRejected.codec : Codec LiquidationRejected :=
  Fields.start LiquidationRejected LiquidationRejected.mk
    |>.field "request_id" (·.requestId) (required .string)
    |>.field "source_input_id" (·.sourceInputId) (skipNone .string)
    |>.field "source_input_offset" (·.sourceInputOffset) (skipNone .i64)
    |>.field "liquidation_id" (·.liquidationId) (required .string)
    |>.field "reason" (·.reason) (required .string)
    |>.struct (by decide) fun _ => rfl

def EngineReply.encodeVariant : EngineReply → String × Json
  | .orderAccepted reply => ("OrderAccepted", OrderAccepted.codec.encode reply)
  | .orderRejected reply => ("OrderRejected", OrderRejected.codec.encode reply)
  | .cancelAccepted reply => ("CancelAccepted", CancelAccepted.codec.encode reply)
  | .cancelRejected reply => ("CancelRejected", CancelRejected.codec.encode reply)
  | .liquidationAccepted reply => ("LiquidationAccepted", LiquidationAccepted.codec.encode reply)
  | .liquidationRejected reply => ("LiquidationRejected", LiquidationRejected.codec.encode reply)

def EngineReply.decodeVariant : String × Json → Option EngineReply
  | ("OrderAccepted", payload) => (OrderAccepted.codec.decode payload).map .orderAccepted
  | ("OrderRejected", payload) => (OrderRejected.codec.decode payload).map .orderRejected
  | ("CancelAccepted", payload) => (CancelAccepted.codec.decode payload).map .cancelAccepted
  | ("CancelRejected", payload) => (CancelRejected.codec.decode payload).map .cancelRejected
  | ("LiquidationAccepted", payload) =>
      (LiquidationAccepted.codec.decode payload).map .liquidationAccepted
  | ("LiquidationRejected", payload) =>
      (LiquidationRejected.codec.decode payload).map .liquidationRejected
  | _ => none

def EngineReply.fits : EngineReply → Bool
  | .orderAccepted reply => OrderAccepted.codec.fits reply
  | .orderRejected reply => OrderRejected.codec.fits reply
  | .cancelAccepted reply => CancelAccepted.codec.fits reply
  | .cancelRejected reply => CancelRejected.codec.fits reply
  | .liquidationAccepted reply => LiquidationAccepted.codec.fits reply
  | .liquidationRejected reply => LiquidationRejected.codec.fits reply

theorem EngineReply.decodeVariant_encodeVariant (reply : EngineReply) (h : reply.fits) :
    EngineReply.decodeVariant reply.encodeVariant = some reply := by
  cases reply <;>
    simp only [encodeVariant, decodeVariant, Codec.decode_encode _ _ h, Option.map_some]

def EngineReply.codec : Codec EngineReply :=
  .adjacentlyTagged EngineReply.encodeVariant EngineReply.decodeVariant EngineReply.fits
    EngineReply.decodeVariant_encodeVariant

/-! ## Events -/

def ExecutionReason.name : ExecutionReason → String
  | .TRADE => "TRADE"
  | .LIQUIDATION => "LIQUIDATION"

def ExecutionReason.codec : Codec ExecutionReason :=
  .names ExecutionReason.name [.TRADE, .LIQUIDATION] (fun reason => by cases reason <;> decide)
    fun a b h => by cases a <;> cases b <;> first | rfl | exact absurd h (by decide)

def defaultExecutionReason : ExecutionReason := .TRADE

def OrderOpened.codec : Codec OrderOpened :=
  Fields.start OrderOpened OrderOpened.mk
    |>.field "engine_event_id" (·.engineEventId) (skipNone .string)
    |>.field "engine_sequence" (·.engineSequence) (required .i64)
    |>.field "engine_timestamp_ms" (·.engineTimestampMs) (required .i64)
    |>.field "source_input_id" (·.sourceInputId) (skipNone .string)
    |>.field "source_input_offset" (·.sourceInputOffset) (skipNone .i64)
    |>.field "order_id" (·.orderId) (required .i64)
    |>.field "reservation_id" (·.reservationId) (required .string)
    |>.field "user_id" (·.userId) (required .i64)
    |>.field "market_id" (·.marketId) (required .i64)
    |>.struct (by decide) fun _ => rfl

def OrderCancelled.codec : Codec OrderCancelled :=
  Fields.start OrderCancelled OrderCancelled.mk
    |>.field "engine_event_id" (·.engineEventId) (skipNone .string)
    |>.field "engine_sequence" (·.engineSequence) (required .i64)
    |>.field "engine_timestamp_ms" (·.engineTimestampMs) (required .i64)
    |>.field "source_input_id" (·.sourceInputId) (skipNone .string)
    |>.field "source_input_offset" (·.sourceInputOffset) (skipNone .i64)
    |>.field "order_id" (·.orderId) (required .i64)
    |>.field "reservation_id" (·.reservationId) (required .string)
    |>.field "user_id" (·.userId) (required .i64)
    |>.field "market_id" (·.marketId) (required .i64)
    |>.field "released_amount" (·.releasedAmount) (required .i64)
    |>.struct (by decide) fun _ => rfl

def OrderExpired.codec : Codec OrderExpired :=
  Fields.start OrderExpired OrderExpired.mk
    |>.field "engine_event_id" (·.engineEventId) (skipNone .string)
    |>.field "market_id" (·.marketId) (required .i64)
    |>.field "engine_sequence" (·.engineSequence) (required .i64)
    |>.field "engine_timestamp_ms" (·.engineTimestampMs) (required .i64)
    |>.field "source_input_id" (·.sourceInputId) (skipNone .string)
    |>.field "source_input_offset" (·.sourceInputOffset) (skipNone .i64)
    |>.field "order_id" (·.orderId) (required .i64)
    |>.field "reservation_id" (·.reservationId) (required .string)
    |>.field "user_id" (·.userId) (required .i64)
    |>.field "expired_quantity" (·.expiredQuantity) (required .i64)
    |>.field "released_amount" (·.releasedAmount) (required .i64)
    |>.field "reason" (·.reason) (required .string)
    |>.struct (by decide) fun _ => rfl

def ReservationReleased.codec : Codec ReservationReleased :=
  Fields.start ReservationReleased ReservationReleased.mk
    |>.field "engine_event_id" (·.engineEventId) (skipNone .string)
    |>.field "market_id" (·.marketId) (required .i64)
    |>.field "engine_sequence" (·.engineSequence) (required .i64)
    |>.field "engine_timestamp_ms" (·.engineTimestampMs) (required .i64)
    |>.field "source_input_id" (·.sourceInputId) (skipNone .string)
    |>.field "source_input_offset" (·.sourceInputOffset) (skipNone .i64)
    |>.field "reservation_id" (·.reservationId) (required .string)
    |>.field "user_id" (·.userId) (required .i64)
    |>.field "asset" (·.asset) (required Asset.codec)
    |>.field "released_amount" (·.releasedAmount) (required .i64)
    |>.field "reason" (·.reason) (required .string)
    |>.struct (by decide) fun _ => rfl

def AssetAmount.codec : Codec AssetAmount :=
  Fields.start AssetAmount AssetAmount.mk
    |>.field "asset" (·.asset) (required Asset.codec)
    |>.field "amount" (·.amount) (required .i64)
    |>.struct (by decide) fun _ => rfl

def FeeDelta.codec : Codec FeeDelta :=
  Fields.start FeeDelta FeeDelta.mk
    |>.field "user_id" (·.userId) (required .i64)
    |>.field "asset" (·.asset) (required Asset.codec)
    |>.field "amount" (·.amount) (required .i64)
    |>.field "fee_type" (·.feeType) (required .string)
    |>.struct (by decide) fun _ => rfl

def TradeSettlement.codec : Codec TradeSettlement :=
  Fields.start TradeSettlement TradeSettlement.mk
    |>.field "reservation_id" (·.reservationId) (required .string)
    |>.field "debit_asset" (·.debitAsset) (required Asset.codec)
    |>.field "debit_amount" (·.debitAmount) (required .i64)
    |>.field "credit_asset" (·.creditAsset) (required Asset.codec)
    |>.field "credit_amount" (·.creditAmount) (required .i64)
    |>.struct (by decide) fun _ => rfl

def TradeExecuted.codec : Codec TradeExecuted :=
  Fields.start TradeExecuted TradeExecuted.mk
    |>.field "engine_event_id" (·.engineEventId) (skipNone .string)
    |>.field "engine_sequence" (·.engineSequence) (required .i64)
    |>.field "engine_timestamp_ms" (·.engineTimestampMs) (required .i64)
    |>.field "source_input_id" (·.sourceInputId) (skipNone .string)
    |>.field "source_input_offset" (·.sourceInputOffset) (skipNone .i64)
    |>.field "fill_id" (·.fillId) (required .i64)
    |>.field "market_id" (·.marketId) (required .i64)
    |>.field "price" (·.price) (required .i64)
    |>.field "quantity" (·.quantity) (required .i64)
    |>.field "maker_order_id" (·.makerOrderId) (required .i64)
    |>.field "taker_order_id" (·.takerOrderId) (required .i64)
    |>.field "maker_user_id" (·.makerUserId) (required .i64)
    |>.field "taker_user_id" (·.takerUserId) (required .i64)
    |>.field "maker_reservation_id" (·.makerReservationId) (nullable .string)
    |>.field "taker_reservation_id" (·.takerReservationId) (nullable .string)
    |>.field "execution_reason" (·.executionReason)
      (withDefault ExecutionReason.codec defaultExecutionReason)
    |>.field "liquidation_id" (·.liquidationId) (skipNone .string)
    |>.field "liquidated_user_id" (·.liquidatedUserId) (skipNone .i64)
    |>.field "position_side" (·.positionSide) (skipNone Side.codec)
    |>.field "liquidation_fee" (·.liquidationFee) (skipNone AssetAmount.codec)
    |>.field "fee_deltas" (·.feeDeltas) (skipEmpty FeeDelta.codec)
    |>.field "settlements" (·.settlements) (withDefault TradeSettlement.codec.list [])
    |>.struct (by decide) fun _ => rfl

def OrderBookLevel.codec : Codec OrderBookLevel :=
  Fields.start OrderBookLevel OrderBookLevel.mk
    |>.field "price" (·.price) (required .i64)
    |>.field "quantity" (·.quantity) (required .i64)
    |>.struct (by decide) fun _ => rfl

def OrderBookDelta.codec : Codec OrderBookDelta :=
  Fields.start OrderBookDelta OrderBookDelta.mk
    |>.field "engine_event_id" (·.engineEventId) (skipNone .string)
    |>.field "engine_sequence" (·.engineSequence) (required .i64)
    |>.field "engine_timestamp_ms" (·.engineTimestampMs) (required .i64)
    |>.field "source_input_id" (·.sourceInputId) (skipNone .string)
    |>.field "source_input_offset" (·.sourceInputOffset) (skipNone .i64)
    |>.field "market_id" (·.marketId) (required .i64)
    |>.field "bids" (·.bids) (required OrderBookLevel.codec.list)
    |>.field "asks" (·.asks) (required OrderBookLevel.codec.list)
    |>.struct (by decide) fun _ => rfl

def MarkPriceUpdated.codec : Codec MarkPriceUpdated :=
  Fields.start MarkPriceUpdated MarkPriceUpdated.mk
    |>.field "engine_event_id" (·.engineEventId) (skipNone .string)
    |>.field "market_id" (·.marketId) (required .i64)
    |>.field "engine_sequence" (·.engineSequence) (required .i64)
    |>.field "engine_timestamp_ms" (·.engineTimestampMs) (required .i64)
    |>.field "source_input_id" (·.sourceInputId) (skipNone .string)
    |>.field "source_input_offset" (·.sourceInputOffset) (skipNone .i64)
    |>.field "mark_price" (·.markPrice) (required .i64)
    |>.field "index_price" (·.indexPrice) (required .i64)
    |>.field "valid_until_ms" (·.validUntilMs) (required .i64)
    |>.field "source_sequence" (·.sourceSequence) (required .i64)
    |>.field "source_status" (·.sourceStatus) (required .string)
    |>.struct (by decide) fun _ => rfl

def FundingRateUpdated.codec : Codec FundingRateUpdated :=
  Fields.start FundingRateUpdated FundingRateUpdated.mk
    |>.field "engine_event_id" (·.engineEventId) (skipNone .string)
    |>.field "market_id" (·.marketId) (required .i64)
    |>.field "engine_sequence" (·.engineSequence) (required .i64)
    |>.field "engine_timestamp_ms" (·.engineTimestampMs) (required .i64)
    |>.field "source_input_id" (·.sourceInputId) (skipNone .string)
    |>.field "source_input_offset" (·.sourceInputOffset) (skipNone .i64)
    |>.field "funding_interval_id" (·.fundingIntervalId) (required .string)
    |>.field "rate" (·.rate) (required .i64)
    |>.field "rate_scale" (·.rateScale) (required .i64)
    |>.field "interval_start_ms" (·.intervalStartMs) (required .i64)
    |>.field "interval_end_ms" (·.intervalEndMs) (required .i64)
    |>.struct (by decide) fun _ => rfl

def FundingPayment.codec : Codec FundingPayment :=
  Fields.start FundingPayment FundingPayment.mk
    |>.field "user_id" (·.userId) (required .i64)
    |>.field "position_id" (·.positionId) (required .string)
    |>.field "side" (·.side) (required PositionSide.codec)
    |>.field "asset" (·.asset) (required Asset.codec)
    |>.field "amount" (·.amount) (required .i64)
    |>.struct (by decide) fun _ => rfl

def FundingPaymentApplied.codec : Codec FundingPaymentApplied :=
  Fields.start FundingPaymentApplied FundingPaymentApplied.mk
    |>.field "engine_event_id" (·.engineEventId) (skipNone .string)
    |>.field "market_id" (·.marketId) (required .i64)
    |>.field "engine_sequence" (·.engineSequence) (required .i64)
    |>.field "engine_timestamp_ms" (·.engineTimestampMs) (required .i64)
    |>.field "source_input_id" (·.sourceInputId) (skipNone .string)
    |>.field "source_input_offset" (·.sourceInputOffset) (skipNone .i64)
    |>.field "funding_interval_id" (·.fundingIntervalId) (required .string)
    |>.field "payments" (·.payments) (required FundingPayment.codec.list)
    |>.struct (by decide) fun _ => rfl

def PositionChanged.codec : Codec PositionChanged :=
  Fields.start PositionChanged PositionChanged.mk
    |>.field "engine_event_id" (·.engineEventId) (skipNone .string)
    |>.field "market_id" (·.marketId) (required .i64)
    |>.field "engine_sequence" (·.engineSequence) (required .i64)
    |>.field "engine_timestamp_ms" (·.engineTimestampMs) (required .i64)
    |>.field "source_input_id" (·.sourceInputId) (skipNone .string)
    |>.field "source_input_offset" (·.sourceInputOffset) (skipNone .i64)
    |>.field "user_id" (·.userId) (required .i64)
    |>.field "position_id" (·.positionId) (required .string)
    |>.field "side" (·.side) (required PositionSide.codec)
    |>.field "quantity" (·.quantity) (required .i64)
    |>.field "entry_price" (·.entryPrice) (required .i64)
    |>.field "mark_price" (·.markPrice) (required .i64)
    |>.field "isolated_margin" (·.isolatedMargin) (required .i64)
    |>.field "realized_pnl" (·.realizedPnl) (required .i64)
    |>.field "unrealized_pnl" (·.unrealizedPnl) (required .i64)
    |>.field "maintenance_margin" (·.maintenanceMargin) (required .i64)
    |>.field "liquidation_price" (·.liquidationPrice) (required .i64)
    |>.field "reason" (·.reason) (required .string)
    |>.struct (by decide) fun _ => rfl

def RiskStateUpdated.codec : Codec RiskStateUpdated :=
  Fields.start RiskStateUpdated RiskStateUpdated.mk
    |>.field "engine_event_id" (·.engineEventId) (skipNone .string)
    |>.field "market_id" (·.marketId) (required .i64)
    |>.field "engine_sequence" (·.engineSequence) (required .i64)
    |>.field "engine_timestamp_ms" (·.engineTimestampMs) (required .i64)
    |>.field "source_input_id" (·.sourceInputId) (skipNone .string)
    |>.field "source_input_offset" (·.sourceInputOffset) (skipNone .i64)
    |>.field "user_id" (·.userId) (required .i64)
    |>.field "position_id" (·.positionId) (required .string)
    |>.field "mark_price" (·.markPrice) (required .i64)
    |>.field "equity" (·.equity) (required .i64)
    |>.field "maintenance_margin" (·.maintenanceMargin) (required .i64)
    |>.field "margin_ratio" (·.marginRatio) (required .i64)
    |>.field "status" (·.status) (required .string)
    |>.struct (by decide) fun _ => rfl

def LiquidationStarted.codec : Codec LiquidationStarted :=
  Fields.start LiquidationStarted LiquidationStarted.mk
    |>.field "engine_event_id" (·.engineEventId) (skipNone .string)
    |>.field "market_id" (·.marketId) (required .i64)
    |>.field "engine_sequence" (·.engineSequence) (required .i64)
    |>.field "engine_timestamp_ms" (·.engineTimestampMs) (required .i64)
    |>.field "source_input_id" (·.sourceInputId) (skipNone .string)
    |>.field "source_input_offset" (·.sourceInputOffset) (skipNone .i64)
    |>.field "liquidation_id" (·.liquidationId) (required .string)
    |>.field "user_id" (·.userId) (required .i64)
    |>.field "position_id" (·.positionId) (required .string)
    |>.field "side" (·.side) (required Side.codec)
    |>.field "quantity" (·.quantity) (required .i64)
    |>.field "mark_price" (·.markPrice) (required .i64)
    |>.field "maintenance_margin" (·.maintenanceMargin) (required .i64)
    |>.field "equity" (·.equity) (required .i64)
    |>.field "reason" (·.reason) (required .string)
    |>.struct (by decide) fun _ => rfl

def LiquidationExecuted.codec : Codec LiquidationExecuted :=
  Fields.start LiquidationExecuted LiquidationExecuted.mk
    |>.field "engine_event_id" (·.engineEventId) (skipNone .string)
    |>.field "market_id" (·.marketId) (required .i64)
    |>.field "engine_sequence" (·.engineSequence) (required .i64)
    |>.field "engine_timestamp_ms" (·.engineTimestampMs) (required .i64)
    |>.field "source_input_id" (·.sourceInputId) (skipNone .string)
    |>.field "source_input_offset" (·.sourceInputOffset) (skipNone .i64)
    |>.field "liquidation_id" (·.liquidationId) (required .string)
    |>.field "user_id" (·.userId) (required .i64)
    |>.field "position_id" (·.positionId) (required .string)
    |>.field "fill_id" (·.fillId) (required .i64)
    |>.field "price" (·.price) (required .i64)
    |>.field "quantity" (·.quantity) (required .i64)
    |>.field "execution_reason" (·.executionReason) (required ExecutionReason.codec)
    |>.struct (by decide) fun _ => rfl

def LiquidationCompleted.codec : Codec LiquidationCompleted :=
  Fields.start LiquidationCompleted LiquidationCompleted.mk
    |>.field "engine_event_id" (·.engineEventId) (skipNone .string)
    |>.field "market_id" (·.marketId) (required .i64)
    |>.field "engine_sequence" (·.engineSequence) (required .i64)
    |>.field "engine_timestamp_ms" (·.engineTimestampMs) (required .i64)
    |>.field "source_input_id" (·.sourceInputId) (skipNone .string)
    |>.field "source_input_offset" (·.sourceInputOffset) (skipNone .i64)
    |>.field "liquidation_id" (·.liquidationId) (required .string)
    |>.field "user_id" (·.userId) (required .i64)
    |>.field "position_id" (·.positionId) (required .string)
    |>.field "final_status" (·.finalStatus) (required .string)
    |>.field "remaining_quantity" (·.remainingQuantity) (required .i64)
    |>.field "insurance_fund_delta" (·.insuranceFundDelta) (required .i64)
    |>.field "bad_debt" (·.badDebt) (required .i64)
    |>.struct (by decide) fun _ => rfl

def AdlExecuted.codec : Codec AdlExecuted :=
  Fields.start AdlExecuted AdlExecuted.mk
    |>.field "engine_event_id" (·.engineEventId) (skipNone .string)
    |>.field "market_id" (·.marketId) (required .i64)
    |>.field "engine_sequence" (·.engineSequence) (required .i64)
    |>.field "engine_timestamp_ms" (·.engineTimestampMs) (required .i64)
    |>.field "source_input_id" (·.sourceInputId) (skipNone .string)
    |>.field "source_input_offset" (·.sourceInputOffset) (skipNone .i64)
    |>.field "adl_id" (·.adlId) (required .string)
    |>.field "liquidation_id" (·.liquidationId) (required .string)
    |>.field "liquidated_user_id" (·.liquidatedUserId) (required .i64)
    |>.field "deleveraged_user_id" (·.deleveragedUserId) (required .i64)
    |>.field "position_side" (·.positionSide) (required Side.codec)
    |>.field "quantity" (·.quantity) (required .i64)
    |>.field "price" (·.price) (required .i64)
    |>.field "rank" (·.rank) (required .i64)
    |>.field "reason" (·.reason) (required .string)
    |>.struct (by decide) fun _ => rfl

def AccountDelta.codec : Codec AccountDelta :=
  Fields.start AccountDelta AccountDelta.mk
    |>.field "engine_event_id" (·.engineEventId) (skipNone .string)
    |>.field "market_id" (·.marketId) (required .i64)
    |>.field "engine_sequence" (·.engineSequence) (required .i64)
    |>.field "engine_timestamp_ms" (·.engineTimestampMs) (required .i64)
    |>.field "source_input_id" (·.sourceInputId) (skipNone .string)
    |>.field "source_input_offset" (·.sourceInputOffset) (skipNone .i64)
    |>.field "account_delta_id" (·.accountDeltaId) (required .string)
    |>.field "user_id" (·.userId) (required .i64)
    |>.field "asset" (·.asset) (required Asset.codec)
    |>.field "total_delta" (·.totalDelta) (required .i64)
    |>.field "locked_delta" (·.lockedDelta) (required .i64)
    |>.field "reason" (·.reason) (required .string)
    |>.field "reference_id" (·.referenceId) (required .string)
    |>.struct (by decide) fun _ => rfl

def EngineEvent.encodeVariant : EngineEvent → String × Json
  | .orderOpened event => ("OrderOpened", OrderOpened.codec.encode event)
  | .orderCancelled event => ("OrderCancelled", OrderCancelled.codec.encode event)
  | .orderExpired event => ("OrderExpired", OrderExpired.codec.encode event)
  | .reservationReleased event => ("ReservationReleased", ReservationReleased.codec.encode event)
  | .tradeExecuted event => ("TradeExecuted", TradeExecuted.codec.encode event)
  | .orderBookDelta event => ("OrderBookDelta", OrderBookDelta.codec.encode event)
  | .markPriceUpdated event => ("MarkPriceUpdated", MarkPriceUpdated.codec.encode event)
  | .fundingRateUpdated event => ("FundingRateUpdated", FundingRateUpdated.codec.encode event)
  | .fundingPaymentApplied event =>
      ("FundingPaymentApplied", FundingPaymentApplied.codec.encode event)
  | .positionChanged event => ("PositionChanged", PositionChanged.codec.encode event)
  | .riskStateUpdated event => ("RiskStateUpdated", RiskStateUpdated.codec.encode event)
  | .liquidationStarted event => ("LiquidationStarted", LiquidationStarted.codec.encode event)
  | .liquidationExecuted event => ("LiquidationExecuted", LiquidationExecuted.codec.encode event)
  | .liquidationCompleted event => ("LiquidationCompleted", LiquidationCompleted.codec.encode event)
  | .adlExecuted event => ("AdlExecuted", AdlExecuted.codec.encode event)
  | .accountDelta event => ("AccountDelta", AccountDelta.codec.encode event)

def EngineEvent.decodeVariant : String × Json → Option EngineEvent
  | ("OrderOpened", payload) => (OrderOpened.codec.decode payload).map .orderOpened
  | ("OrderCancelled", payload) => (OrderCancelled.codec.decode payload).map .orderCancelled
  | ("OrderExpired", payload) => (OrderExpired.codec.decode payload).map .orderExpired
  | ("ReservationReleased", payload) =>
      (ReservationReleased.codec.decode payload).map .reservationReleased
  | ("TradeExecuted", payload) => (TradeExecuted.codec.decode payload).map .tradeExecuted
  | ("OrderBookDelta", payload) => (OrderBookDelta.codec.decode payload).map .orderBookDelta
  | ("MarkPriceUpdated", payload) => (MarkPriceUpdated.codec.decode payload).map .markPriceUpdated
  | ("FundingRateUpdated", payload) =>
      (FundingRateUpdated.codec.decode payload).map .fundingRateUpdated
  | ("FundingPaymentApplied", payload) =>
      (FundingPaymentApplied.codec.decode payload).map .fundingPaymentApplied
  | ("PositionChanged", payload) => (PositionChanged.codec.decode payload).map .positionChanged
  | ("RiskStateUpdated", payload) => (RiskStateUpdated.codec.decode payload).map .riskStateUpdated
  | ("LiquidationStarted", payload) =>
      (LiquidationStarted.codec.decode payload).map .liquidationStarted
  | ("LiquidationExecuted", payload) =>
      (LiquidationExecuted.codec.decode payload).map .liquidationExecuted
  | ("LiquidationCompleted", payload) =>
      (LiquidationCompleted.codec.decode payload).map .liquidationCompleted
  | ("AdlExecuted", payload) => (AdlExecuted.codec.decode payload).map .adlExecuted
  | ("AccountDelta", payload) => (AccountDelta.codec.decode payload).map .accountDelta
  | _ => none

def EngineEvent.fits : EngineEvent → Bool
  | .orderOpened event => OrderOpened.codec.fits event
  | .orderCancelled event => OrderCancelled.codec.fits event
  | .orderExpired event => OrderExpired.codec.fits event
  | .reservationReleased event => ReservationReleased.codec.fits event
  | .tradeExecuted event => TradeExecuted.codec.fits event
  | .orderBookDelta event => OrderBookDelta.codec.fits event
  | .markPriceUpdated event => MarkPriceUpdated.codec.fits event
  | .fundingRateUpdated event => FundingRateUpdated.codec.fits event
  | .fundingPaymentApplied event => FundingPaymentApplied.codec.fits event
  | .positionChanged event => PositionChanged.codec.fits event
  | .riskStateUpdated event => RiskStateUpdated.codec.fits event
  | .liquidationStarted event => LiquidationStarted.codec.fits event
  | .liquidationExecuted event => LiquidationExecuted.codec.fits event
  | .liquidationCompleted event => LiquidationCompleted.codec.fits event
  | .adlExecuted event => AdlExecuted.codec.fits event
  | .accountDelta event => AccountDelta.codec.fits event

theorem EngineEvent.decodeVariant_encodeVariant (event : EngineEvent) (h : event.fits) :
    EngineEvent.decodeVariant event.encodeVariant = some event := by
  cases event <;>
    simp only [encodeVariant, decodeVariant, Codec.decode_encode _ _ h, Option.map_some]

def EngineEvent.codec : Codec EngineEvent :=
  .adjacentlyTagged EngineEvent.encodeVariant EngineEvent.decodeVariant EngineEvent.fits
    EngineEvent.decodeVariant_encodeVariant

end Protocol
