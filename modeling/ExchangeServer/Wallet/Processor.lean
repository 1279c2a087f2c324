import ExchangeServer.Wallet.EngineInputs
import ExchangeServer.Wallet.Repository

/-!
# The wallet processor

What the wallet does with one command from a user and with one command that an
engine event asks for: the stored reply of an earlier delivery is looked up,
then one transaction moves funds and queues the reply, the wallet event and the
engine input; when funds are missing the refusal is stored by a transaction of
its own.
-/

namespace Wallet

open Protocol Transactional Program

structure WalletProcessResult where
  walletReplies : List WalletReply
  walletEvents : List WalletEvent
  engineInputs : List EngineCommand
  deriving DecidableEq

structure ApplyAccountDelta where
  userId : ℤ
  asset : Asset
  totalDelta : ℤ
  lockedDelta : ℤ
  kind : String
  referenceId : String
  deriving DecidableEq

/-- What an engine event asks the wallet to do. -/
inductive EngineWalletCommand
  | releaseReservation (release : ReleaseReservation)
  | settleTrade (settle : SettleTrade)
  | applyAccountDelta (delta : ApplyAccountDelta)
  deriving DecidableEq

/-- The topics the processor was configured with. -/
structure WalletProcessor where
  walletEventsTopic : String
  engineInputTopic : String

/-- The processor with the topics of the protocol. -/
def WalletProcessor.new : WalletProcessor where
  walletEventsTopic := Protocol.walletEventsTopic
  engineInputTopic := Protocol.engineInputTopic

/-! ## Events -/

def fundsReservedEvent (eventId : String) (intent : PlaceOrderIntent) (reserved : FundsReserved) :
    WalletEvent :=
  .fundsReserved
    { eventId := some eventId, requestId := reserved.requestId, userId := intent.envelope.userId,
      reservationId := reserved.reservationId, asset := reserved.asset, amount := reserved.amount }

def depositAppliedEvent (eventId : String) (deposit : Deposit) (balance : BalanceUpdated) :
    WalletEvent :=
  .depositApplied
    { eventId := some eventId, requestId := balance.requestId, userId := deposit.envelope.userId,
      asset := balance.asset, amount := deposit.amount, referenceId := deposit.referenceId,
      total := balance.total, locked := balance.locked }

def withdrawalAppliedEvent (eventId : String) (withdraw : Withdraw) (balance : BalanceUpdated) :
    WalletEvent :=
  .withdrawalApplied
    { eventId := some eventId, requestId := balance.requestId, userId := withdraw.envelope.userId,
      asset := balance.asset, amount := withdraw.amount, destination := withdraw.destination,
      total := balance.total, locked := balance.locked }

def fundsReleasedEvent (eventId : String) (release : ReleaseReservation)
    (reservation : ReservationRecord) : WalletEvent :=
  .fundsReleased
    { eventId := some eventId, userId := reservation.userId,
      reservationId := reservation.reservationId, asset := reservation.asset,
      amount := release.amount, reason := release.reason }

def tradeSettledEvent (eventId : String) (settle : SettleTrade) (reservation : ReservationRecord) :
    WalletEvent :=
  .tradeSettled
    { eventId := some eventId, userId := reservation.userId, fillId := settle.fillId,
      reservationId := reservation.reservationId, debitAsset := settle.debitAsset,
      debitAmount := settle.debitAmount, creditAsset := settle.creditAsset,
      creditAmount := settle.creditAmount }

def accountDeltaAppliedEvent (eventId : String) (delta : ApplyAccountDelta)
    (balance : BalanceSnapshot) : WalletEvent :=
  .accountDeltaApplied
    { eventId := some eventId, userId := delta.userId, asset := delta.asset,
      totalDelta := delta.totalDelta, lockedDelta := delta.lockedDelta, kind := delta.kind,
      referenceId := delta.referenceId, total := balance.total, locked := balance.locked }

def walletEventOutboxMessage (topic dedupeKey messageKey : String) (event : WalletEvent) :
    NewWalletOutboxMessage where
  dedupeKey := dedupeKey
  topic := topic
  partition := none
  messageKey := messageKey
  payloadType := "WalletEvent"
  payload := .walletEvent event

/-! ## Dedupe keys -/

def depositDedupeKey (deposit : Deposit) : String :=
  "wallet-event:deposit-applied:" ++ toString deposit.envelope.userId ++ ":" ++
    deposit.envelope.idempotencyKey

def withdrawDedupeKey (withdraw : Withdraw) : String :=
  "wallet-event:withdrawal-applied:" ++ toString withdraw.envelope.userId ++ ":" ++
    withdraw.envelope.idempotencyKey

def fundsReservedEventId (reservationId : String) : String :=
  "wallet-event:funds-reserved:" ++ reservationId

def placeOrderDedupeKey (envelope : CommandEnvelope) : String :=
  "engine-input:place-order:" ++ toString envelope.userId ++ ":" ++ envelope.idempotencyKey

def cancelOrderDedupeKey (envelope : CommandEnvelope) : String :=
  "engine-input:cancel-order:" ++ toString envelope.userId ++ ":" ++ envelope.idempotencyKey

def releaseDedupeKey (release : ReleaseReservation) : String :=
  "wallet-event:funds-released:" ++ release.reservationId ++ ":" ++ release.reason ++ ":" ++
    toString release.amount

def settleDedupeKey (settle : SettleTrade) : String :=
  "wallet-event:trade-settled:" ++ toString settle.fillId ++ ":" ++ settle.reservationId

def accountDeltaDedupeKey (delta : ApplyAccountDelta) : String :=
  "wallet-event:account-delta-applied:" ++ delta.kind ++ ":" ++ delta.referenceId ++ ":" ++
    toString delta.userId ++ ":" ++ delta.asset.name

/-! ## Replies -/

def replyWithRequestId (requestId : String) : WalletReply → WalletReply
  | .fundsReserved reserved => .fundsReserved { reserved with requestId }
  | .insufficientFunds insufficient => .insufficientFunds { insufficient with requestId }
  | .balanceUpdated balance => .balanceUpdated { balance with requestId }
  | .commandAccepted accepted => .commandAccepted { accepted with requestId }
  | .commandRejected rejected => .commandRejected { rejected with requestId }

/-- The stored reply of an earlier delivery, for the request at hand. -/
def existingReply (existing : Option WalletReply) (requestId : String) : Option WalletReply :=
  existing.map (replyWithRequestId requestId)

def replyResult (reply : WalletReply) : WalletProcessResult where
  walletReplies := [reply]
  walletEvents := []
  engineInputs := []

namespace WalletProcessor

variable (self : WalletProcessor)

/-! ## Transactions with their messages -/

/-- The message of an applied deposit. -/
def depositMessage (deposit : Deposit) (balance : BalanceUpdated) : NewWalletOutboxMessage :=
  walletEventOutboxMessage self.walletEventsTopic (depositDedupeKey deposit)
    (toString deposit.envelope.userId) (depositAppliedEvent (depositDedupeKey deposit) deposit balance)

def applyDeposit (deposit : Deposit) : Tx BalanceUpdated :=
  applyDepositWithOutbox deposit "Deposit" fun balance =>
    (.balanceUpdated balance, [self.depositMessage deposit balance])

/-- The message of an applied withdrawal. -/
def withdrawMessage (withdraw : Withdraw) (balance : BalanceUpdated) : NewWalletOutboxMessage :=
  walletEventOutboxMessage self.walletEventsTopic (withdrawDedupeKey withdraw)
    (toString withdraw.envelope.userId)
    (withdrawalAppliedEvent (withdrawDedupeKey withdraw) withdraw balance)

def applyWithdraw (withdraw : Withdraw) : Tx BalanceUpdated :=
  applyWithdrawWithOutbox withdraw "Withdraw" fun balance =>
    (.balanceUpdated balance, [self.withdrawMessage withdraw balance])

/-- The message of reserved funds. -/
def fundsReservedMessage (intent : PlaceOrderIntent) (reserved : FundsReserved) :
    NewWalletOutboxMessage :=
  walletEventOutboxMessage self.walletEventsTopic (fundsReservedEventId reserved.reservationId)
    (toString intent.envelope.userId)
    (fundsReservedEvent (fundsReservedEventId reserved.reservationId) intent reserved)

/-- The engine input of an order with reserved funds. -/
def placeOrderMessage (intent : PlaceOrderIntent) (reserved : FundsReserved) :
    NewWalletOutboxMessage :=
  engineCommandOutboxMessage self.engineInputTopic (placeOrderDedupeKey intent.envelope)
    (.placeOrder (intent.intoReservedOrder reserved.reservationId))

/-- The event and the engine input of reserved funds. -/
def reserveMessages (intent : PlaceOrderIntent) (reserved : FundsReserved) :
    List NewWalletOutboxMessage :=
  [self.fundsReservedMessage intent reserved, self.placeOrderMessage intent reserved]

def reserveFunds (uuid : String) (intent : PlaceOrderIntent) : Tx FundsReserved :=
  reserveFundsWithOutbox uuid intent.envelope.userId intent.envelope.requestId
    intent.envelope.idempotencyKey intent.marginAsset intent.requiredMargin "PlaceOrderIntent"
    fun reserved => (.fundsReserved reserved, self.reserveMessages intent reserved)

/-- The engine input of a cancellation. -/
def cancelMessage (intent : CancelOrderIntent) : NewWalletOutboxMessage :=
  engineCommandOutboxMessage self.engineInputTopic (cancelOrderDedupeKey intent.envelope)
    (.cancelOrder intent.intoEngineCancelOrder)

def recordCancel (intent : CancelOrderIntent) : Tx Unit :=
  recordIdempotentReplyWithOutbox intent.envelope.userId "CancelOrderIntent"
    intent.envelope.idempotencyKey intent.envelope.requestId
    (.commandAccepted { requestId := intent.envelope.requestId }) [self.cancelMessage intent]

/-- The message of a release. -/
def releaseMessage (release : ReleaseReservation) (reservation : ReservationRecord) :
    NewWalletOutboxMessage :=
  walletEventOutboxMessage self.walletEventsTopic (releaseDedupeKey release)
    reservation.reservationId (fundsReleasedEvent (releaseDedupeKey release) release reservation)

def applyRelease (release : ReleaseReservation) : Tx ReservationRecord :=
  releaseReservationWithOutbox release fun reservation => [self.releaseMessage release reservation]

/-- The message of a settlement. -/
def settleMessage (settle : SettleTrade) (reservation : ReservationRecord) :
    NewWalletOutboxMessage :=
  walletEventOutboxMessage self.walletEventsTopic (settleDedupeKey settle)
    reservation.reservationId (tradeSettledEvent (settleDedupeKey settle) settle reservation)

def applySettle (settle : SettleTrade) : Tx ReservationRecord :=
  settleTradeWithOutbox settle fun reservation => [self.settleMessage settle reservation]

/-- The message of an applied account delta. -/
def accountDeltaMessage (delta : ApplyAccountDelta) (balance : BalanceSnapshot) :
    NewWalletOutboxMessage :=
  walletEventOutboxMessage self.walletEventsTopic (accountDeltaDedupeKey delta)
    (toString delta.userId) (accountDeltaAppliedEvent (accountDeltaDedupeKey delta) delta balance)

def applyDelta (delta : ApplyAccountDelta) : Tx (Option BalanceSnapshot) :=
  applyAccountDeltaWithOutbox
    { userId := delta.userId, asset := delta.asset, totalDelta := delta.totalDelta,
      lockedDelta := delta.lockedDelta, kind := delta.kind, referenceId := delta.referenceId }
    fun balance => [self.accountDeltaMessage delta balance]

/-! ## Commands -/

/-- Store a refusal in a transaction of its own and answer with it. -/
def recordReply (envelope : CommandEnvelope) (commandType : String) (reply : WalletReply) :
    Tx WalletProcessResult := do
  recordIdempotentReply envelope.userId commandType envelope.idempotencyKey envelope.requestId reply
  return replyResult reply

def processDeposit (deposit : Deposit) : Tx WalletProcessResult := do
  let existing ← getIdempotentReply deposit.envelope.userId "Deposit" deposit.envelope.idempotencyKey
  match existingReply existing deposit.envelope.requestId with
  | some reply => return replyResult reply
  | none =>
    let balance ← self.applyDeposit deposit
    return {
      walletReplies := [.balanceUpdated balance]
      walletEvents := [depositAppliedEvent (depositDedupeKey deposit) deposit balance]
      engineInputs := [] }

def processWithdraw (withdraw : Withdraw) : Tx WalletProcessResult := do
  let existing ←
    getIdempotentReply withdraw.envelope.userId "Withdraw" withdraw.envelope.idempotencyKey
  match existingReply existing withdraw.envelope.requestId with
  | some reply => return replyResult reply
  | none =>
    let outcome ← (self.applyWithdraw withdraw).attempt
    match outcome with
    | .ok balance =>
      return {
        walletReplies := [.balanceUpdated balance]
        walletEvents := [withdrawalAppliedEvent (withdrawDedupeKey withdraw) withdraw balance]
        engineInputs := [] }
    | .error (.insufficientFunds available) =>
      recordReply withdraw.envelope "Withdraw" (.insufficientFunds
        { requestId := withdraw.envelope.requestId, asset := withdraw.asset,
          required := withdraw.amount, available })
    | .error error => fail error

def reserveAndForward (uuid : String) (intent : PlaceOrderIntent) : Tx WalletProcessResult := do
  let existing ←
    getIdempotentReply intent.envelope.userId "PlaceOrderIntent" intent.envelope.idempotencyKey
  match existingReply existing intent.envelope.requestId with
  | some reply => return replyResult reply
  | none =>
    let outcome ← (self.reserveFunds uuid intent).attempt
    match outcome with
    | .ok reserved =>
      return {
        walletReplies := [.fundsReserved reserved]
        walletEvents :=
          [fundsReservedEvent (fundsReservedEventId reserved.reservationId) intent reserved]
        engineInputs := [.placeOrder (intent.intoReservedOrder reserved.reservationId)] }
    | .error (.insufficientFunds available) =>
      recordReply intent.envelope "PlaceOrderIntent" (.insufficientFunds
        { requestId := intent.envelope.requestId, asset := intent.marginAsset,
          required := intent.requiredMargin, available })
    | .error error => fail error

def forwardCancel (intent : CancelOrderIntent) : Tx WalletProcessResult := do
  let existing ←
    getIdempotentReply intent.envelope.userId "CancelOrderIntent" intent.envelope.idempotencyKey
  match existingReply existing intent.envelope.requestId with
  | some reply => return replyResult reply
  | none =>
    self.recordCancel intent
    return {
      walletReplies := [.commandAccepted { requestId := intent.envelope.requestId }]
      walletEvents := []
      engineInputs := [.cancelOrder intent.intoEngineCancelOrder] }

def releaseReservation (release : ReleaseReservation) : Tx WalletProcessResult := do
  let reservation ← self.applyRelease release
  return {
    walletReplies := []
    walletEvents := [fundsReleasedEvent (releaseDedupeKey release) release reservation]
    engineInputs := [] }

def settleTrade (settle : SettleTrade) : Tx WalletProcessResult := do
  let reservation ← self.applySettle settle
  return {
    walletReplies := []
    walletEvents := [tradeSettledEvent (settleDedupeKey settle) settle reservation]
    engineInputs := [] }

def applyAccountDelta (delta : ApplyAccountDelta) : Tx WalletProcessResult := do
  let balance ← self.applyDelta delta
  match balance with
  | none => return { walletReplies := [], walletEvents := [], engineInputs := [] }
  | some balance =>
    return {
      walletReplies := []
      walletEvents := [accountDeltaAppliedEvent (accountDeltaDedupeKey delta) delta balance]
      engineInputs := [] }

end WalletProcessor

/-- What the router makes of a command. -/
inductive WalletAction
  | reserveAndForward (intent : PlaceOrderIntent)
  | forwardCancel (intent : CancelOrderIntent)
  | applyDeposit (deposit : Deposit)
  | applyWithdrawal (withdraw : Withdraw)
  | releaseReservation (release : ReleaseReservation)
  | settleTrade (settle : SettleTrade)

def routeCommand : WalletCommand → WalletAction
  | .placeOrderIntent intent => .reserveAndForward intent
  | .cancelOrderIntent intent => .forwardCancel intent
  | .deposit deposit => .applyDeposit deposit
  | .withdraw withdraw => .applyWithdrawal withdraw
  | .releaseReservation release => .releaseReservation release
  | .settleTrade settle => .settleTrade settle

namespace WalletProcessor

variable (self : WalletProcessor)

/-- One command from the command topic; `uuid` is the random value drawn if a
reservation is made. -/
def processCommand (uuid : String) (command : WalletCommand) : Tx WalletProcessResult :=
  match routeCommand command with
  | .reserveAndForward intent => self.reserveAndForward uuid intent
  | .forwardCancel intent => self.forwardCancel intent
  | .applyDeposit deposit => self.processDeposit deposit
  | .applyWithdrawal withdraw => self.processWithdraw withdraw
  | .releaseReservation release => self.releaseReservation release
  | .settleTrade settle => self.settleTrade settle

/-- One command of an engine event. -/
def processEngineCommand : EngineWalletCommand → Tx WalletProcessResult
  | .releaseReservation release => self.releaseReservation release
  | .settleTrade settle => self.settleTrade settle
  | .applyAccountDelta delta => self.applyAccountDelta delta

end WalletProcessor

end Wallet
