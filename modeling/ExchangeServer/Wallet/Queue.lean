import ExchangeServer.Wallet.Processor

/-!
# Engine events

The commands an engine event stands for, in the order in which the wallet runs
them. Each command commits on its own; the offset of the record is saved after
the last one.
-/

namespace Wallet

open Protocol Transactional Program

/-- Negation of a 64-bit number, which wraps at the smallest one. -/
def negI64 (x : ℤ) : ℤ := Int.bmod (-x) (2 ^ 64)

def releaseReservationCommand (reservationId : String) (amount : ℤ) (reason : String) :
    List EngineWalletCommand :=
  if amount ≤ 0 then [] else [.releaseReservation { reservationId, amount, reason }]

/-- The settlement of one leg of a fill. -/
def settlementCommand (fillId : ℤ) (settlement : TradeSettlement) : EngineWalletCommand :=
  .settleTrade
    { fillId, reservationId := settlement.reservationId, debitAsset := settlement.debitAsset,
      debitAmount := settlement.debitAmount, creditAsset := settlement.creditAsset,
      creditAmount := settlement.creditAmount }

/-- The fee with an index in the list of fees of a fill. -/
def feeCommand (fillId : ℤ) (index : ℕ) (fee : FeeDelta) : EngineWalletCommand :=
  .applyAccountDelta
    { userId := fee.userId, asset := fee.asset, totalDelta := negI64 fee.amount, lockedDelta := 0,
      kind := "TRADE_FEE"
      referenceId := "fill:" ++ toString fillId ++ ":fee:" ++ toString index ++ ":" ++
        toString fee.userId ++ ":" ++ fee.feeType }

/-- The payment with an index in the list of payments of a funding event. -/
def paymentCommand (eventReference : String) (index : ℕ) (payment : FundingPayment) :
    EngineWalletCommand :=
  .applyAccountDelta
    { userId := payment.userId, asset := payment.asset, totalDelta := payment.amount,
      lockedDelta := 0, kind := "FUNDING_PAYMENT"
      referenceId := eventReference ++ ":payment:" ++ toString index ++ ":" ++ payment.positionId }

def engineWalletCommandsFromEngineEvent : EngineEvent → List EngineWalletCommand
  | .orderCancelled event =>
    releaseReservationCommand event.reservationId event.releasedAmount
      ("order_cancelled:" ++ toString event.orderId)
  | .orderExpired event =>
    releaseReservationCommand event.reservationId event.releasedAmount
      ("order_expired:" ++ toString event.orderId ++ ":" ++ event.reason)
  | .reservationReleased event =>
    releaseReservationCommand event.reservationId event.releasedAmount
      ("reservation_released:" ++ event.reason)
  | .tradeExecuted event =>
    event.settlements.map (settlementCommand event.fillId) ++
      event.feeDeltas.mapIdx (feeCommand event.fillId)
  | .fundingPaymentApplied event =>
    let eventReference := event.engineEventId.getD
      ("funding:" ++ toString event.marketId ++ ":" ++ toString event.engineSequence)
    event.payments.mapIdx (paymentCommand eventReference)
  | .accountDelta event =>
    [.applyAccountDelta
      { userId := event.userId, asset := event.asset, totalDelta := event.totalDelta,
        lockedDelta := event.lockedDelta, kind := "ACCOUNT_DELTA"
        referenceId := event.accountDeltaId }]
  | .orderOpened _ | .orderBookDelta _ | .markPriceUpdated _ | .fundingRateUpdated _
  | .positionChanged _ | .riskStateUpdated _ | .liquidationStarted _ | .liquidationExecuted _
  | .liquidationCompleted _ | .adlExecuted _ => []

/-- The wallet works through the commands of a record until one fails. -/
def processEngineCommands (self : WalletProcessor) : List EngineWalletCommand → Tx Unit
  | [] => return ()
  | command :: commands => do
    let _ ← self.processEngineCommand command
    processEngineCommands self commands

end Wallet
