import ExchangeServer.Protocol.Wallet
import ExchangeServer.Protocol.WireEngine

/-!
# The messages of the wallet on the wire

What `serde` derives for the types of `protocol::wallet`.
-/

namespace Protocol

open Json FieldCodec

/-! ## Commands -/

def PlaceOrderIntent.codec : Codec PlaceOrderIntent :=
  Fields.start PlaceOrderIntent PlaceOrderIntent.mk
    |>.field "envelope" (·.envelope) (required CommandEnvelope.codec)
    |>.field "order_id" (·.orderId) (required .i64)
    |>.field "market_id" (·.marketId) (required .i64)
    |>.field "market_name" (·.marketName) (required .string)
    |>.field "side" (·.side) (required Side.codec)
    |>.field "order_type" (·.orderType) (required OrderType.codec)
    |>.field "quantity" (·.quantity) (required .i64)
    |>.field "price" (·.price) (required .i64)
    |>.field "margin_asset" (·.marginAsset) (required Asset.codec)
    |>.field "required_margin" (·.requiredMargin) (required .i64)
    |>.field "leverage" (·.leverage) (withDefault .i64 defaultLeverage)
    |>.field "reduce_only" (·.reduceOnly) (required .bool)
    |>.struct (by decide) fun _ => rfl

def CancelOrderIntent.codec : Codec CancelOrderIntent :=
  Fields.start CancelOrderIntent CancelOrderIntent.mk
    |>.field "envelope" (·.envelope) (required CommandEnvelope.codec)
    |>.field "market_id" (·.marketId) (required .i64)
    |>.field "order_id" (·.orderId) (required .i64)
    |>.struct (by decide) fun _ => rfl

def Deposit.codec : Codec Deposit :=
  Fields.start Deposit Deposit.mk
    |>.field "envelope" (·.envelope) (required CommandEnvelope.codec)
    |>.field "asset" (·.asset) (required Asset.codec)
    |>.field "amount" (·.amount) (required .i64)
    |>.field "reference_id" (·.referenceId) (required .string)
    |>.struct (by decide) fun _ => rfl

def Withdraw.codec : Codec Withdraw :=
  Fields.start Withdraw Withdraw.mk
    |>.field "envelope" (·.envelope) (required CommandEnvelope.codec)
    |>.field "asset" (·.asset) (required Asset.codec)
    |>.field "amount" (·.amount) (required .i64)
    |>.field "destination" (·.destination) (required .string)
    |>.struct (by decide) fun _ => rfl

def ReleaseReservation.codec : Codec ReleaseReservation :=
  Fields.start ReleaseReservation ReleaseReservation.mk
    |>.field "reservation_id" (·.reservationId) (required .string)
    |>.field "amount" (·.amount) (required .i64)
    |>.field "reason" (·.reason) (required .string)
    |>.struct (by decide) fun _ => rfl

def SettleTrade.codec : Codec SettleTrade :=
  Fields.start SettleTrade SettleTrade.mk
    |>.field "fill_id" (·.fillId) (required .i64)
    |>.field "reservation_id" (·.reservationId) (required .string)
    |>.field "debit_asset" (·.debitAsset) (required Asset.codec)
    |>.field "debit_amount" (·.debitAmount) (required .i64)
    |>.field "credit_asset" (·.creditAsset) (required Asset.codec)
    |>.field "credit_amount" (·.creditAmount) (required .i64)
    |>.struct (by decide) fun _ => rfl

def WalletCommand.encodeVariant : WalletCommand → String × Json
  | .placeOrderIntent command => ("PlaceOrderIntent", PlaceOrderIntent.codec.encode command)
  | .cancelOrderIntent command => ("CancelOrderIntent", CancelOrderIntent.codec.encode command)
  | .deposit command => ("Deposit", Deposit.codec.encode command)
  | .withdraw command => ("Withdraw", Withdraw.codec.encode command)
  | .releaseReservation command => ("ReleaseReservation", ReleaseReservation.codec.encode command)
  | .settleTrade command => ("SettleTrade", SettleTrade.codec.encode command)

def WalletCommand.decodeVariant : String × Json → Option WalletCommand
  | ("PlaceOrderIntent", payload) => (PlaceOrderIntent.codec.decode payload).map .placeOrderIntent
  | ("CancelOrderIntent", payload) =>
      (CancelOrderIntent.codec.decode payload).map .cancelOrderIntent
  | ("Deposit", payload) => (Deposit.codec.decode payload).map .deposit
  | ("Withdraw", payload) => (Withdraw.codec.decode payload).map .withdraw
  | ("ReleaseReservation", payload) =>
      (ReleaseReservation.codec.decode payload).map .releaseReservation
  | ("SettleTrade", payload) => (SettleTrade.codec.decode payload).map .settleTrade
  | _ => none

def WalletCommand.fits : WalletCommand → Bool
  | .placeOrderIntent command => PlaceOrderIntent.codec.fits command
  | .cancelOrderIntent command => CancelOrderIntent.codec.fits command
  | .deposit command => Deposit.codec.fits command
  | .withdraw command => Withdraw.codec.fits command
  | .releaseReservation command => ReleaseReservation.codec.fits command
  | .settleTrade command => SettleTrade.codec.fits command

theorem WalletCommand.decodeVariant_encodeVariant (command : WalletCommand) (h : command.fits) :
    WalletCommand.decodeVariant command.encodeVariant = some command := by
  cases command <;>
    simp only [encodeVariant, decodeVariant, Codec.decode_encode _ _ h, Option.map_some]

def WalletCommand.codec : Codec WalletCommand :=
  .adjacentlyTagged WalletCommand.encodeVariant WalletCommand.decodeVariant WalletCommand.fits
    WalletCommand.decodeVariant_encodeVariant

/-! ## Replies -/

def FundsReserved.codec : Codec FundsReserved :=
  Fields.start FundsReserved FundsReserved.mk
    |>.field "request_id" (·.requestId) (required .string)
    |>.field "reservation_id" (·.reservationId) (required .string)
    |>.field "asset" (·.asset) (required Asset.codec)
    |>.field "amount" (·.amount) (required .i64)
    |>.struct (by decide) fun _ => rfl

def InsufficientFunds.codec : Codec InsufficientFunds :=
  Fields.start InsufficientFunds InsufficientFunds.mk
    |>.field "request_id" (·.requestId) (FieldCodec.required .string)
    |>.field "asset" (·.asset) (FieldCodec.required Asset.codec)
    |>.field "required" (·.required) (FieldCodec.required .i64)
    |>.field "available" (·.available) (FieldCodec.required .i64)
    |>.struct (by decide) fun _ => rfl

def BalanceUpdated.codec : Codec BalanceUpdated :=
  Fields.start BalanceUpdated BalanceUpdated.mk
    |>.field "request_id" (·.requestId) (required .string)
    |>.field "asset" (·.asset) (required Asset.codec)
    |>.field "total" (·.total) (required .i64)
    |>.field "locked" (·.locked) (required .i64)
    |>.struct (by decide) fun _ => rfl

def CommandAccepted.codec : Codec CommandAccepted :=
  Fields.start CommandAccepted CommandAccepted.mk
    |>.field "request_id" (·.requestId) (required .string)
    |>.struct (by decide) fun _ => rfl

def CommandRejected.codec : Codec CommandRejected :=
  Fields.start CommandRejected CommandRejected.mk
    |>.field "request_id" (·.requestId) (required .string)
    |>.field "reason" (·.reason) (required .string)
    |>.struct (by decide) fun _ => rfl

def WalletReply.encodeVariant : WalletReply → String × Json
  | .fundsReserved reply => ("FundsReserved", FundsReserved.codec.encode reply)
  | .insufficientFunds reply => ("InsufficientFunds", InsufficientFunds.codec.encode reply)
  | .balanceUpdated reply => ("BalanceUpdated", BalanceUpdated.codec.encode reply)
  | .commandAccepted reply => ("CommandAccepted", CommandAccepted.codec.encode reply)
  | .commandRejected reply => ("CommandRejected", CommandRejected.codec.encode reply)

def WalletReply.decodeVariant : String × Json → Option WalletReply
  | ("FundsReserved", payload) => (FundsReserved.codec.decode payload).map .fundsReserved
  | ("InsufficientFunds", payload) =>
      (InsufficientFunds.codec.decode payload).map .insufficientFunds
  | ("BalanceUpdated", payload) => (BalanceUpdated.codec.decode payload).map .balanceUpdated
  | ("CommandAccepted", payload) => (CommandAccepted.codec.decode payload).map .commandAccepted
  | ("CommandRejected", payload) => (CommandRejected.codec.decode payload).map .commandRejected
  | _ => none

def WalletReply.fits : WalletReply → Bool
  | .fundsReserved reply => FundsReserved.codec.fits reply
  | .insufficientFunds reply => InsufficientFunds.codec.fits reply
  | .balanceUpdated reply => BalanceUpdated.codec.fits reply
  | .commandAccepted reply => CommandAccepted.codec.fits reply
  | .commandRejected reply => CommandRejected.codec.fits reply

theorem WalletReply.decodeVariant_encodeVariant (reply : WalletReply) (h : reply.fits) :
    WalletReply.decodeVariant reply.encodeVariant = some reply := by
  cases reply <;>
    simp only [encodeVariant, decodeVariant, Codec.decode_encode _ _ h, Option.map_some]

def WalletReply.codec : Codec WalletReply :=
  .adjacentlyTagged WalletReply.encodeVariant WalletReply.decodeVariant WalletReply.fits
    WalletReply.decodeVariant_encodeVariant

/-! ## Events -/

def WalletFundsReserved.codec : Codec WalletFundsReserved :=
  Fields.start WalletFundsReserved WalletFundsReserved.mk
    |>.field "event_id" (·.eventId) (skipNone .string)
    |>.field "request_id" (·.requestId) (required .string)
    |>.field "user_id" (·.userId) (required .i64)
    |>.field "reservation_id" (·.reservationId) (required .string)
    |>.field "asset" (·.asset) (required Asset.codec)
    |>.field "amount" (·.amount) (required .i64)
    |>.struct (by decide) fun _ => rfl

def WalletFundsReleased.codec : Codec WalletFundsReleased :=
  Fields.start WalletFundsReleased WalletFundsReleased.mk
    |>.field "event_id" (·.eventId) (skipNone .string)
    |>.field "user_id" (·.userId) (required .i64)
    |>.field "reservation_id" (·.reservationId) (required .string)
    |>.field "asset" (·.asset) (required Asset.codec)
    |>.field "amount" (·.amount) (required .i64)
    |>.field "reason" (·.reason) (required .string)
    |>.struct (by decide) fun _ => rfl

def WalletTradeSettled.codec : Codec WalletTradeSettled :=
  Fields.start WalletTradeSettled WalletTradeSettled.mk
    |>.field "event_id" (·.eventId) (skipNone .string)
    |>.field "user_id" (·.userId) (required .i64)
    |>.field "fill_id" (·.fillId) (required .i64)
    |>.field "reservation_id" (·.reservationId) (required .string)
    |>.field "debit_asset" (·.debitAsset) (required Asset.codec)
    |>.field "debit_amount" (·.debitAmount) (required .i64)
    |>.field "credit_asset" (·.creditAsset) (required Asset.codec)
    |>.field "credit_amount" (·.creditAmount) (required .i64)
    |>.struct (by decide) fun _ => rfl

def WalletDepositApplied.codec : Codec WalletDepositApplied :=
  Fields.start WalletDepositApplied WalletDepositApplied.mk
    |>.field "event_id" (·.eventId) (skipNone .string)
    |>.field "request_id" (·.requestId) (required .string)
    |>.field "user_id" (·.userId) (required .i64)
    |>.field "asset" (·.asset) (required Asset.codec)
    |>.field "amount" (·.amount) (required .i64)
    |>.field "reference_id" (·.referenceId) (required .string)
    |>.field "total" (·.total) (required .i64)
    |>.field "locked" (·.locked) (required .i64)
    |>.struct (by decide) fun _ => rfl

def WalletWithdrawalApplied.codec : Codec WalletWithdrawalApplied :=
  Fields.start WalletWithdrawalApplied WalletWithdrawalApplied.mk
    |>.field "event_id" (·.eventId) (skipNone .string)
    |>.field "request_id" (·.requestId) (required .string)
    |>.field "user_id" (·.userId) (required .i64)
    |>.field "asset" (·.asset) (required Asset.codec)
    |>.field "amount" (·.amount) (required .i64)
    |>.field "destination" (·.destination) (required .string)
    |>.field "total" (·.total) (required .i64)
    |>.field "locked" (·.locked) (required .i64)
    |>.struct (by decide) fun _ => rfl

def WalletAccountDeltaApplied.codec : Codec WalletAccountDeltaApplied :=
  Fields.start WalletAccountDeltaApplied WalletAccountDeltaApplied.mk
    |>.field "event_id" (·.eventId) (skipNone .string)
    |>.field "user_id" (·.userId) (required .i64)
    |>.field "asset" (·.asset) (required Asset.codec)
    |>.field "total_delta" (·.totalDelta) (required .i64)
    |>.field "locked_delta" (·.lockedDelta) (required .i64)
    |>.field "kind" (·.kind) (required .string)
    |>.field "reference_id" (·.referenceId) (required .string)
    |>.field "total" (·.total) (required .i64)
    |>.field "locked" (·.locked) (required .i64)
    |>.struct (by decide) fun _ => rfl

def WalletEvent.encodeVariant : WalletEvent → String × Json
  | .fundsReserved event => ("FundsReserved", WalletFundsReserved.codec.encode event)
  | .fundsReleased event => ("FundsReleased", WalletFundsReleased.codec.encode event)
  | .tradeSettled event => ("TradeSettled", WalletTradeSettled.codec.encode event)
  | .depositApplied event => ("DepositApplied", WalletDepositApplied.codec.encode event)
  | .withdrawalApplied event => ("WithdrawalApplied", WalletWithdrawalApplied.codec.encode event)
  | .accountDeltaApplied event =>
      ("AccountDeltaApplied", WalletAccountDeltaApplied.codec.encode event)

def WalletEvent.decodeVariant : String × Json → Option WalletEvent
  | ("FundsReserved", payload) => (WalletFundsReserved.codec.decode payload).map .fundsReserved
  | ("FundsReleased", payload) => (WalletFundsReleased.codec.decode payload).map .fundsReleased
  | ("TradeSettled", payload) => (WalletTradeSettled.codec.decode payload).map .tradeSettled
  | ("DepositApplied", payload) => (WalletDepositApplied.codec.decode payload).map .depositApplied
  | ("WithdrawalApplied", payload) =>
      (WalletWithdrawalApplied.codec.decode payload).map .withdrawalApplied
  | ("AccountDeltaApplied", payload) =>
      (WalletAccountDeltaApplied.codec.decode payload).map .accountDeltaApplied
  | _ => none

def WalletEvent.fits : WalletEvent → Bool
  | .fundsReserved event => WalletFundsReserved.codec.fits event
  | .fundsReleased event => WalletFundsReleased.codec.fits event
  | .tradeSettled event => WalletTradeSettled.codec.fits event
  | .depositApplied event => WalletDepositApplied.codec.fits event
  | .withdrawalApplied event => WalletWithdrawalApplied.codec.fits event
  | .accountDeltaApplied event => WalletAccountDeltaApplied.codec.fits event

theorem WalletEvent.decodeVariant_encodeVariant (event : WalletEvent) (h : event.fits) :
    WalletEvent.decodeVariant event.encodeVariant = some event := by
  cases event <;>
    simp only [encodeVariant, decodeVariant, Codec.decode_encode _ _ h, Option.map_some]

def WalletEvent.codec : Codec WalletEvent :=
  .adjacentlyTagged WalletEvent.encodeVariant WalletEvent.decodeVariant WalletEvent.fits
    WalletEvent.decodeVariant_encodeVariant

/-! ## Round trips -/

/-- Whatever fields are absent and whatever lists are empty, a message is read
back as it was written. The numbers of a message fit into their types. -/
theorem wire_round_trip :
    (∀ v : EngineCommand, EngineCommand.codec.fits v →
      EngineCommand.codec.decode (EngineCommand.codec.encode v) = some v) ∧
    (∀ v : EngineReply, EngineReply.codec.fits v →
      EngineReply.codec.decode (EngineReply.codec.encode v) = some v) ∧
    (∀ v : EngineEvent, EngineEvent.codec.fits v →
      EngineEvent.codec.decode (EngineEvent.codec.encode v) = some v) ∧
    (∀ v : WalletCommand, WalletCommand.codec.fits v →
      WalletCommand.codec.decode (WalletCommand.codec.encode v) = some v) ∧
    (∀ v : WalletReply, WalletReply.codec.fits v →
      WalletReply.codec.decode (WalletReply.codec.encode v) = some v) ∧
    ∀ v : WalletEvent, WalletEvent.codec.fits v →
      WalletEvent.codec.decode (WalletEvent.codec.encode v) = some v :=
  ⟨EngineCommand.codec.decode_encode, EngineReply.codec.decode_encode,
    EngineEvent.codec.decode_encode, WalletCommand.codec.decode_encode,
    WalletReply.codec.decode_encode, WalletEvent.codec.decode_encode⟩

/-- A trade with some of its optional fields and one of its lists. -/
def liquidationTrade : TradeExecuted where
  engineEventId := some "event-1"
  engineSequence := 7
  engineTimestampMs := 1710000000000
  sourceInputId := none
  sourceInputOffset := some 3
  fillId := 1
  marketId := 2
  price := 100
  quantity := 5
  makerOrderId := 10
  takerOrderId := 11
  makerUserId := 42
  takerUserId := 43
  makerReservationId := none
  takerReservationId := some "res-taker"
  executionReason := .LIQUIDATION
  liquidationId := some "liquidation-1"
  liquidatedUserId := some 43
  positionSide := none
  liquidationFee := some { asset := .USDC, amount := -4 }
  feeDeltas := []
  settlements := [{
    reservationId := "res-taker", debitAsset := .USDC, debitAmount := 500
    creditAsset := .PERP, creditAmount := 5 }]

theorem wire_round_trip_liquidationTrade :
    EngineEvent.codec.decode (EngineEvent.codec.encode (.tradeExecuted liquidationTrade)) =
      some (.tradeExecuted liquidationTrade) :=
  wire_round_trip.2.2.1 (.tradeExecuted liquidationTrade) (by decide)

end Protocol
