import Mathlib.Algebra.Order.Ring.Int
import ExchangeServer.Protocol.Wallet

/-!
# The ledger's view of wallet events

What the ledger service derives from one wallet event: the record it stores and
the entries of the record, each a change of one user's balance in one asset.
-/

namespace Ledger

open Protocol

structure LedgerEntryDraft where
  userId : ℤ
  asset : Asset
  kind : String
  totalDelta : ℤ
  lockedDelta : ℤ
  referenceId : String
  deriving DecidableEq

/-- A record; its payload is the event as serialized. -/
structure LedgerRecord where
  logicalEventId : Option String
  eventType : String
  userId : ℤ
  payload : WalletEvent
  entries : List LedgerEntryDraft
  deriving DecidableEq

/-- The id of an event, unless it is absent or empty. -/
def eventId (event : WalletEvent) : Option String :=
  let id := match event with
    | .fundsReserved event => event.eventId
    | .fundsReleased event => event.eventId
    | .tradeSettled event => event.eventId
    | .depositApplied event => event.eventId
    | .withdrawalApplied event => event.eventId
    | .accountDeltaApplied event => event.eventId
  id.filter (fun id => !id.isEmpty)

def fundsReservedEntries (event : WalletFundsReserved) : String × ℤ × List LedgerEntryDraft :=
  ("FundsReserved", event.userId,
    [{ userId := event.userId, asset := event.asset, kind := "RESERVE", totalDelta := 0,
       lockedDelta := event.amount, referenceId := event.reservationId }])

def fundsReleasedEntries (event : WalletFundsReleased) : String × ℤ × List LedgerEntryDraft :=
  ("FundsReleased", event.userId,
    [{ userId := event.userId, asset := event.asset, kind := "RELEASE", totalDelta := 0,
       lockedDelta := -event.amount, referenceId := event.reservationId }])

def tradeSettledEntries (event : WalletTradeSettled) : String × ℤ × List LedgerEntryDraft :=
  ("TradeSettled", event.userId,
    [{ userId := event.userId, asset := event.debitAsset, kind := "TRADE_DEBIT",
       totalDelta := -event.debitAmount, lockedDelta := -event.debitAmount,
       referenceId := toString event.fillId },
     { userId := event.userId, asset := event.creditAsset, kind := "TRADE_CREDIT",
       totalDelta := event.creditAmount, lockedDelta := 0,
       referenceId := toString event.fillId }])

def depositEntries (event : WalletDepositApplied) : String × ℤ × List LedgerEntryDraft :=
  ("DepositApplied", event.userId,
    [{ userId := event.userId, asset := event.asset, kind := "DEPOSIT", totalDelta := event.amount,
       lockedDelta := 0, referenceId := event.referenceId }])

def withdrawalEntries (event : WalletWithdrawalApplied) : String × ℤ × List LedgerEntryDraft :=
  ("WithdrawalApplied", event.userId,
    [{ userId := event.userId, asset := event.asset, kind := "WITHDRAWAL",
       totalDelta := -event.amount, lockedDelta := 0, referenceId := event.requestId }])

def accountDeltaEntries (event : WalletAccountDeltaApplied) :
    String × ℤ × List LedgerEntryDraft :=
  ("AccountDeltaApplied", event.userId,
    [{ userId := event.userId, asset := event.asset, kind := event.kind,
       totalDelta := event.totalDelta, lockedDelta := event.lockedDelta,
       referenceId := event.referenceId }])

def ledgerRecordFromWalletEvent (event : WalletEvent) : LedgerRecord :=
  let derived := match event with
    | .fundsReserved event => fundsReservedEntries event
    | .fundsReleased event => fundsReleasedEntries event
    | .tradeSettled event => tradeSettledEntries event
    | .depositApplied event => depositEntries event
    | .withdrawalApplied event => withdrawalEntries event
    | .accountDeltaApplied event => accountDeltaEntries event
  { logicalEventId := eventId event, eventType := derived.1, userId := derived.2.1,
    payload := event, entries := derived.2.2 }

/-! ## Balances according to the ledger -/

/-- What the entries of an event add to `total` and to `locked` of a user in an
asset. -/
def totalDelta (userId : ℤ) (asset : Asset) (event : WalletEvent) : ℤ :=
  ((ledgerRecordFromWalletEvent event).entries.map fun entry =>
    if entry.userId = userId ∧ entry.asset = asset then entry.totalDelta else 0).sum

def lockedDelta (userId : ℤ) (asset : Asset) (event : WalletEvent) : ℤ :=
  ((ledgerRecordFromWalletEvent event).entries.map fun entry =>
    if entry.userId = userId ∧ entry.asset = asset then entry.lockedDelta else 0).sum

end Ledger
