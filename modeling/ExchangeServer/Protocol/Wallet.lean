import ExchangeServer.Protocol.Engine

/-!
# Messages of the wallet

Commands, replies and events of `protocol::wallet`, and the two conversions
from a user's intent to the input the engine gets.
-/

namespace Protocol

def walletEventsTopic : String := "wallet.events"

/-! ## Commands -/

structure PlaceOrderIntent where
  envelope : CommandEnvelope
  orderId : ℤ
  marketId : ℤ
  marketName : String
  side : Side
  orderType : OrderType
  quantity : ℤ
  price : ℤ
  marginAsset : Asset
  requiredMargin : ℤ
  leverage : ℤ
  reduceOnly : Bool
  deriving DecidableEq

/-- `engine-input:{kind}:{user_id}:{idempotency_key}`. -/
def engineInputId (kind : String) (envelope : CommandEnvelope) : String :=
  "engine-input:" ++ kind ++ ":" ++ toString envelope.userId ++ ":" ++ envelope.idempotencyKey

/-- The order for the engine, once its margin is reserved. -/
def PlaceOrderIntent.intoReservedOrder (self : PlaceOrderIntent) (reservationId : String) :
    ReservedPlaceOrder where
  inputId := some (engineInputId "place-order" self.envelope)
  envelope := self.envelope
  orderId := self.orderId
  reservationId := reservationId
  marketId := self.marketId
  marketName := self.marketName
  side := self.side
  orderType := self.orderType
  quantity := self.quantity
  price := self.price
  reduceOnly := self.reduceOnly
  marginAsset := self.marginAsset
  reservedMarginAmount := self.requiredMargin
  leverage := self.leverage

structure CancelOrderIntent where
  envelope : CommandEnvelope
  marketId : ℤ
  orderId : ℤ
  deriving DecidableEq

/-- The cancellation for the engine. -/
def CancelOrderIntent.intoEngineCancelOrder (self : CancelOrderIntent) : CancelOrder where
  inputId := some (engineInputId "cancel-order" self.envelope)
  envelope := self.envelope
  marketId := self.marketId
  orderId := self.orderId

structure Deposit where
  envelope : CommandEnvelope
  asset : Asset
  amount : ℤ
  referenceId : String
  deriving DecidableEq

structure Withdraw where
  envelope : CommandEnvelope
  asset : Asset
  amount : ℤ
  destination : String
  deriving DecidableEq

structure ReleaseReservation where
  reservationId : String
  amount : ℤ
  reason : String
  deriving DecidableEq

structure SettleTrade where
  fillId : ℤ
  reservationId : String
  debitAsset : Asset
  debitAmount : ℤ
  creditAsset : Asset
  creditAmount : ℤ
  deriving DecidableEq

/-- What the wallet reads from its command topic. -/
inductive WalletCommand
  | placeOrderIntent (command : PlaceOrderIntent)
  | cancelOrderIntent (command : CancelOrderIntent)
  | deposit (command : Deposit)
  | withdraw (command : Withdraw)
  | releaseReservation (command : ReleaseReservation)
  | settleTrade (command : SettleTrade)
  deriving DecidableEq

/-! ## Replies -/

structure FundsReserved where
  requestId : String
  reservationId : String
  asset : Asset
  amount : ℤ
  deriving DecidableEq

structure InsufficientFunds where
  requestId : String
  asset : Asset
  required : ℤ
  available : ℤ
  deriving DecidableEq

structure BalanceUpdated where
  requestId : String
  asset : Asset
  total : ℤ
  locked : ℤ
  deriving DecidableEq

structure CommandAccepted where
  requestId : String
  deriving DecidableEq

structure CommandRejected where
  requestId : String
  reason : String
  deriving DecidableEq

/-- What the wallet answers to a command. -/
inductive WalletReply
  | fundsReserved (reply : FundsReserved)
  | insufficientFunds (reply : InsufficientFunds)
  | balanceUpdated (reply : BalanceUpdated)
  | commandAccepted (reply : CommandAccepted)
  | commandRejected (reply : CommandRejected)
  deriving DecidableEq

/-! ## Events -/

structure WalletFundsReserved where
  eventId : Option String
  requestId : String
  userId : ℤ
  reservationId : String
  asset : Asset
  amount : ℤ
  deriving DecidableEq

structure WalletFundsReleased where
  eventId : Option String
  userId : ℤ
  reservationId : String
  asset : Asset
  amount : ℤ
  reason : String
  deriving DecidableEq

structure WalletTradeSettled where
  eventId : Option String
  userId : ℤ
  fillId : ℤ
  reservationId : String
  debitAsset : Asset
  debitAmount : ℤ
  creditAsset : Asset
  creditAmount : ℤ
  deriving DecidableEq

structure WalletDepositApplied where
  eventId : Option String
  requestId : String
  userId : ℤ
  asset : Asset
  amount : ℤ
  referenceId : String
  total : ℤ
  locked : ℤ
  deriving DecidableEq

structure WalletWithdrawalApplied where
  eventId : Option String
  requestId : String
  userId : ℤ
  asset : Asset
  amount : ℤ
  destination : String
  total : ℤ
  locked : ℤ
  deriving DecidableEq

structure WalletAccountDeltaApplied where
  eventId : Option String
  userId : ℤ
  asset : Asset
  totalDelta : ℤ
  lockedDelta : ℤ
  kind : String
  referenceId : String
  total : ℤ
  locked : ℤ
  deriving DecidableEq

/-- What the wallet tells the other services. -/
inductive WalletEvent
  | fundsReserved (event : WalletFundsReserved)
  | fundsReleased (event : WalletFundsReleased)
  | tradeSettled (event : WalletTradeSettled)
  | depositApplied (event : WalletDepositApplied)
  | withdrawalApplied (event : WalletWithdrawalApplied)
  | accountDeltaApplied (event : WalletAccountDeltaApplied)
  deriving DecidableEq

end Protocol
