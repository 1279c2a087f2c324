import ExchangeServer.Wallet.Locks

/-!
# The transactions of the wallet repository

Each function is the sequence of statements its source issues, with the same
checks between them, and ends by a commit, by an explicit rollback before an
error, or by an error that drops the open transaction. A closure that builds
the reply and the outbox messages is passed in as in the source; the payloads
it serializes never fail to serialize, so it returns them directly. The random
part of a reservation id is an argument.
-/

namespace Wallet

open Protocol Transactional Program

/-- A program of the wallet. -/
abbrev Tx := Program Stmt WalletRepositoryError

structure AccountDeltaUpdate where
  userId : ℤ
  asset : Asset
  totalDelta : ℤ
  lockedDelta : ℤ
  kind : String
  referenceId : String
  deriving DecidableEq

/-! ## Parts of transactions -/

def currentAvailableInTx (userId : ℤ) (asset : Asset) : Tx ℤ := do
  let row ← perform (.selectCollateral userId asset)
  match row with
  | none => return 0
  | some snapshot => return snapshot.available

def recordIdempotentReplyInTx (userId : ℤ) (commandType idempotencyKey requestId : String)
    (replyPayload : WalletReply) : Tx Unit :=
  perform (.recordIdempotentReply { userId, commandType, idempotencyKey, requestId, replyPayload })

def outboxDuplicateMatchesInTx (message : NewWalletOutboxMessage) : Tx Bool :=
  perform (.outboxDuplicateMatches message)

/-- Insert every message; one whose dedupe key is stored must equal the stored one. -/
def enqueueOutboxMessagesInTx : List NewWalletOutboxMessage → Tx Unit
  | [] => return ()
  | message :: messages => do
    let rowsAffected ← perform (.enqueueOutboxMessage message)
    let accepted ← if rowsAffected = 0 then outboxDuplicateMatchesInTx message else pure true
    if accepted then enqueueOutboxMessagesInTx messages else fail .idempotencyConflict

def insertLedgerInTx (userId : ℤ) (asset : Asset) (amount : ℤ) (kind referenceId : String) :
    Tx Unit :=
  perform (.insertLedger { userId, asset, amount, kind, referenceId })

def reservationInTx (reservationId : String) : Tx ReservationRecord := do
  let row ← perform (.selectReservation reservationId)
  match row with
  | none => fail .reservationNotFound
  | some reservation => return reservation

/-! ## Replies -/

def getIdempotentReply (userId : ℤ) (commandType idempotencyKey : String) :
    Tx (Option WalletReply) :=
  perform (.getIdempotentReply userId commandType idempotencyKey)

def recordIdempotentReply (userId : ℤ) (commandType idempotencyKey requestId : String)
    (replyPayload : WalletReply) : Tx Unit := do
  recordIdempotentReplyInTx userId commandType idempotencyKey requestId replyPayload
  commitTx

def recordIdempotentReplyWithOutbox (userId : ℤ) (commandType idempotencyKey requestId : String)
    (replyPayload : WalletReply) (outboxMessages : List NewWalletOutboxMessage) : Tx Unit := do
  recordIdempotentReplyInTx userId commandType idempotencyKey requestId replyPayload
  enqueueOutboxMessagesInTx outboxMessages
  commitTx

/-! ## Funds of a user -/

def reserveFundsWithOutbox (uuid : String) (userId : ℤ) (requestId idempotencyKey : String)
    (asset : Asset) (amount : ℤ) (commandType : String)
    (outboxBuilder : FundsReserved → WalletReply × List NewWalletOutboxMessage) :
    Tx FundsReserved := do
  let balance ← perform (.updateCollateral .reserve userId asset amount)
  match balance with
  | none =>
    let available ← currentAvailableInTx userId asset
    rollbackTx
    fail (.insufficientFunds available)
  | some _ =>
    let reservationId := "res_" ++ uuid
    perform (.insertReservation reservationId userId asset amount idempotencyKey requestId)
    let reserved : FundsReserved := { requestId, reservationId, asset, amount }
    recordIdempotentReplyInTx userId commandType idempotencyKey requestId (outboxBuilder reserved).1
    enqueueOutboxMessagesInTx (outboxBuilder reserved).2
    commitTx
    return reserved

def applyDepositWithOutbox (deposit : Deposit) (commandType : String)
    (outboxBuilder : BalanceUpdated → WalletReply × List NewWalletOutboxMessage) :
    Tx BalanceUpdated := do
  let row ← perform (.creditCollateral deposit.envelope.userId deposit.asset deposit.amount)
  insertLedgerInTx deposit.envelope.userId deposit.asset deposit.amount "DEPOSIT"
    deposit.referenceId
  let balance : BalanceUpdated :=
    { requestId := deposit.envelope.requestId, asset := deposit.asset, total := row.total,
      locked := row.locked }
  recordIdempotentReplyInTx deposit.envelope.userId commandType deposit.envelope.idempotencyKey
    deposit.envelope.requestId (outboxBuilder balance).1
  enqueueOutboxMessagesInTx (outboxBuilder balance).2
  commitTx
  return balance

def applyWithdrawWithOutbox (withdraw : Withdraw) (commandType : String)
    (outboxBuilder : BalanceUpdated → WalletReply × List NewWalletOutboxMessage) :
    Tx BalanceUpdated := do
  let row ← perform
    (.updateCollateral .withdraw withdraw.envelope.userId withdraw.asset withdraw.amount)
  match row with
  | none =>
    let available ← currentAvailableInTx withdraw.envelope.userId withdraw.asset
    rollbackTx
    fail (.insufficientFunds available)
  | some row =>
    insertLedgerInTx withdraw.envelope.userId withdraw.asset (-withdraw.amount) "WITHDRAW"
      withdraw.envelope.idempotencyKey
    let balance : BalanceUpdated :=
      { requestId := withdraw.envelope.requestId, asset := withdraw.asset, total := row.total,
        locked := row.locked }
    recordIdempotentReplyInTx withdraw.envelope.userId commandType
      withdraw.envelope.idempotencyKey withdraw.envelope.requestId (outboxBuilder balance).1
    enqueueOutboxMessagesInTx (outboxBuilder balance).2
    commitTx
    return balance

/-! ## Reservations -/

/-- The check a release makes on the reservation it has read. -/
def releaseRejected (reservation : ReservationRecord) (release : ReleaseReservation) : Bool :=
  reservation.status ≠ .ACTIVE || release.amount ≤ 0 || release.amount > reservation.remaining

/-- A release from where it has read the reservation. -/
def releaseReadReservation (release : ReleaseReservation) (reservation : ReservationRecord)
    (outboxBuilder : ReservationRecord → List NewWalletOutboxMessage) : Tx ReservationRecord :=
  if releaseRejected reservation release then do
    rollbackTx
    fail .invalidReservationState
  else do
    let _ ← perform
      (.updateCollateral .unlock reservation.userId reservation.asset release.amount)
    let remaining := reservation.remaining - release.amount
    let status := if remaining = 0 then ReservationStatus.RELEASED else .ACTIVE
    let updated ← perform (.updateReservation release.reservationId remaining status)
    enqueueOutboxMessagesInTx (outboxBuilder updated)
    commitTx
    return updated

def releaseReservationWithOutbox (release : ReleaseReservation)
    (outboxBuilder : ReservationRecord → List NewWalletOutboxMessage) :
    Tx ReservationRecord := do
  let reservation ← reservationInTx release.reservationId
  releaseReadReservation release reservation outboxBuilder

inductive SettlementCollateralEffect
  | unlockReservedOnly (amount : ℤ)
  | transferDebitToCredit (debitAmount creditAmount : ℤ)
  deriving DecidableEq

def isSameAssetReservationConsumption (settle : SettleTrade) : Bool :=
  settle.debitAsset = settle.creditAsset && settle.debitAmount = settle.creditAmount

def settlementCollateralEffect (settle : SettleTrade) : SettlementCollateralEffect :=
  if isSameAssetReservationConsumption settle then .unlockReservedOnly settle.debitAmount
  else .transferDebitToCredit settle.debitAmount settle.creditAmount

/-- The check a settlement makes on the reservation it has read. -/
def settleRejected (reservation : ReservationRecord) (settle : SettleTrade) : Bool :=
  reservation.status ≠ .ACTIVE || reservation.asset ≠ settle.debitAsset ||
    settle.debitAmount ≤ 0 || settle.debitAmount > reservation.remaining

/-- The balance statements of a settlement. -/
def settleCollateral (userId : ℤ) (settle : SettleTrade) : Tx Unit :=
  match settlementCollateralEffect settle with
  | .unlockReservedOnly amount => do
    let _ ← perform (.updateCollateral .unlock userId settle.debitAsset amount)
    return ()
  | .transferDebitToCredit debitAmount creditAmount => do
    let _ ← perform (.updateCollateral .debit userId settle.debitAsset debitAmount)
    let _ ← perform (.creditCollateral userId settle.creditAsset creditAmount)
    return ()

/-- A settlement from where it has read the reservation. -/
def settleReadReservation (settle : SettleTrade) (reservation : ReservationRecord)
    (outboxBuilder : ReservationRecord → List NewWalletOutboxMessage) : Tx ReservationRecord :=
  if settleRejected reservation settle then do
    rollbackTx
    fail .invalidReservationState
  else do
    settleCollateral reservation.userId settle
    let referenceId := toString settle.fillId
    insertLedgerInTx reservation.userId settle.debitAsset (-settle.debitAmount) "TRADE_DEBIT"
      referenceId
    insertLedgerInTx reservation.userId settle.creditAsset settle.creditAmount "TRADE_CREDIT"
      referenceId
    let remaining := reservation.remaining - settle.debitAmount
    let status := if remaining = 0 then ReservationStatus.SETTLED else .ACTIVE
    let updated ← perform (.updateReservation settle.reservationId remaining status)
    enqueueOutboxMessagesInTx (outboxBuilder updated)
    commitTx
    return updated

def settleTradeWithOutbox (settle : SettleTrade)
    (outboxBuilder : ReservationRecord → List NewWalletOutboxMessage) :
    Tx ReservationRecord := do
  let reservation ← reservationInTx settle.reservationId
  settleReadReservation settle reservation outboxBuilder

/-! ## Account deltas -/

def applyAccountDeltaWithOutbox (delta : AccountDeltaUpdate)
    (outboxBuilder : BalanceSnapshot → List NewWalletOutboxMessage) :
    Tx (Option BalanceSnapshot) :=
  if delta.totalDelta = 0 ∧ delta.lockedDelta = 0 then return none
  else do
    let inserted ← perform (.insertLedgerOnce
      { userId := delta.userId, asset := delta.asset, amount := delta.totalDelta,
        kind := delta.kind, referenceId := delta.referenceId })
    if inserted then
      let balance ← perform
        (.applyDelta delta.userId delta.asset delta.totalDelta delta.lockedDelta)
      match balance with
      | none =>
        rollbackTx
        fail .invalidAccountDelta
      | some snapshot =>
        enqueueOutboxMessagesInTx (outboxBuilder snapshot)
        commitTx
        return some snapshot
    else
      commitTx
      return none

end Wallet
