import ExchangeServer.Wallet.Processor

/-!
# The transactions of the wallet

The eight transactions the processor issues, with the events each of them
reports, and what a transaction has written when it commits.

`Committed` is the one place that says what a transaction does. It is stated at
the database the transaction commits into, and `R` relates the states it may
have read without a lock to that database: with equality it describes
transactions one at a time, with the growth order transactions among others.
-/

namespace Wallet

open Protocol Relational Transactional Program

/-- A transaction as the processor calls it. -/
inductive WalletTx
  | deposit (deposit : Deposit)
  | withdraw (withdraw : Withdraw)
  | reserve (uuid : String) (intent : PlaceOrderIntent)
  | release (release : ReleaseReservation)
  | settle (settle : SettleTrade)
  | accountDelta (delta : ApplyAccountDelta)
  | reply (envelope : CommandEnvelope) (commandType : String) (reply : WalletReply)
  | cancel (intent : CancelOrderIntent)
  deriving DecidableEq

/-- The statements of a transaction and the wallet events it reports. -/
def WalletProcessor.program (self : WalletProcessor) : WalletTx → Tx (List WalletEvent)
  | .deposit deposit => do
    let balance ← self.applyDeposit deposit
    return [depositAppliedEvent (depositDedupeKey deposit) deposit balance]
  | .withdraw withdraw => do
    let balance ← self.applyWithdraw withdraw
    return [withdrawalAppliedEvent (withdrawDedupeKey withdraw) withdraw balance]
  | .reserve uuid intent => do
    let reserved ← self.reserveFunds uuid intent
    return [fundsReservedEvent (fundsReservedEventId reserved.reservationId) intent reserved]
  | .release release => do
    let result ← self.releaseReservation release
    return result.walletEvents
  | .settle settle => do
    let result ← self.settleTrade settle
    return result.walletEvents
  | .accountDelta delta => do
    let result ← self.applyAccountDelta delta
    return result.walletEvents
  | .reply envelope commandType reply => do
    let result ← WalletProcessor.recordReply envelope commandType reply
    return result.walletEvents
  | .cancel intent => do
    self.recordCancel intent
    return []

/-! ## What a transaction has written -/

/-- The writes of queueing messages: a stored equal message is left alone. -/
inductive Enqueues :
    Table NewWalletOutboxMessage.dedupeKey → List NewWalletOutboxMessage → List Write → Prop
  | nil {outbox} : Enqueues outbox [] []
  | stored {outbox message messages ws} (h : outbox.find? message.dedupeKey = some message)
    (hrest : Enqueues outbox messages ws) : Enqueues outbox (message :: messages) ws
  | added {outbox message messages ws} (h : outbox.find? message.dedupeKey = none)
    (hrest : Enqueues (outbox.insert message) messages ws) :
    Enqueues outbox (message :: messages) (.insertOutbox message :: ws)

/-- The write of storing a reply: an earlier reply keeps its payload. -/
inductive StoresReply (stored : Table IdempotencyRow.key) (row : IdempotencyRow) : Write → Prop
  | added (h : stored.find? row.key = none) : StoresReply stored row (.insertIdempotency row)
  | kept {old} (h : stored.find? row.key = some old) :
    StoresReply stored row (.touchIdempotency row.key row.requestId)

theorem StoresReply.table {stored : Table IdempotencyRow.key} {row : IdempotencyRow} {w : Write}
    (h : StoresReply stored row w) : w.table = .walletIdempotency := by
  cases h <;> rfl

theorem Enqueues.table {outbox : Table NewWalletOutboxMessage.dedupeKey}
    {messages : List NewWalletOutboxMessage} {ws : List Write} (h : Enqueues outbox messages ws) :
    ∀ w ∈ ws, w.table = .walletOutbox := by
  induction h with
  | nil => simp
  | stored _ _ ih => exact ih
  | added _ _ ih => simpa using ih

/-- The write of a guarded update that matched. -/
structure Hits (d : WalletDb) (update : CollateralUpdate) (userId : ℤ) (asset : Asset) (amount : ℤ)
    (old row : CollateralRow) : Prop where
  found : d.userCollaterals.find? (userId, asset) = some old
  admits : update.admits amount old = true
  key : row.key = (userId, asset)
  total : row.total = update.total amount old
  locked : row.locked = update.locked amount old

/-- The writes of a guarded update whose number of rows is not looked at. -/
inductive Updates (R : WalletDb → WalletDb → Prop) (d : WalletDb) (update : CollateralUpdate)
    (userId : ℤ) (asset : Asset) (amount : ℤ) : List Write → Prop
  | hit {old row} (h : Hits d update userId asset amount old row) :
    Updates R d update userId asset amount [.setCollateral row]
  | miss {v} (hv : R v d) (h : ∀ row, v.userCollaterals.find? (userId, asset) = some row →
      update.admits amount row = false) : Updates R d update userId asset amount []

theorem Updates.table {R : WalletDb → WalletDb → Prop} {d : WalletDb} {update : CollateralUpdate}
    {userId : ℤ} {asset : Asset} {amount : ℤ} {ws : List Write}
    (h : Updates R d update userId asset amount ws) : ∀ w ∈ ws, w.table = .userCollaterals := by
  cases h <;> simp

/-- The write of a credit. -/
structure Credits (d : WalletDb) (userId : ℤ) (asset : Asset) (amount : ℤ) (row : CollateralRow) :
    Prop where
  nonneg : 0 ≤ amount
  key : row.key = (userId, asset)
  total : row.total = d.total userId asset + amount
  locked : row.locked = d.locked userId asset

/-- The balance writes of a settlement. -/
inductive SettlesCollateral (R : WalletDb → WalletDb → Prop) (d : WalletDb) (userId : ℤ)
    (settle : SettleTrade) : List Write → Prop
  | unlock {ws} (hsame : isSameAssetReservationConsumption settle = true)
    (h : Updates R d .unlock userId settle.debitAsset settle.debitAmount ws) :
    SettlesCollateral R d userId settle ws
  | transfer {ws row} (hsame : isSameAssetReservationConsumption settle = false)
    (hdebit : Updates R d .debit userId settle.debitAsset settle.debitAmount ws)
    (hcredit : Credits (Store.applyAll Stmt ws d) userId settle.creditAsset settle.creditAmount
      row) :
    SettlesCollateral R d userId settle (ws ++ [.setCollateral row])

theorem SettlesCollateral.table {R : WalletDb → WalletDb → Prop} {d : WalletDb} {userId : ℤ}
    {settle : SettleTrade} {ws : List Write} (h : SettlesCollateral R d userId settle ws) :
    ∀ w ∈ ws, w.table = .userCollaterals := by
  cases h with
  | unlock _ h => exact h.table
  | transfer _ hdebit _ =>
    intro w hw
    rcases List.mem_append.1 hw with hw | hw
    · exact hdebit.table w hw
    · rw [List.mem_singleton.1 hw]
      rfl

/-- A new value of `remaining` that the stored reservation `now` admits. -/
structure Reduces (d : WalletDb) (reservationId : String) (remaining : ℤ)
    (now : ReservationRow) : Prop where
  found : d.walletReservations.find? reservationId = some now
  nonneg : 0 ≤ remaining
  le_amount : remaining ≤ now.amount

/-- The writes of a release that has read `reservation`. -/
structure Releases (processor : WalletProcessor) (R : WalletDb → WalletDb → Prop) (d : WalletDb)
    (release : ReleaseReservation) (reservation : ReservationRecord) (now : ReservationRow)
    (ws : List Write) : Prop where
  accepted : releaseRejected reservation release = false
  reduces : Reduces d release.reservationId (reservation.remaining - release.amount) now
  writes : ∃ balance out,
    Updates R d .unlock reservation.userId reservation.asset release.amount balance ∧
    Enqueues d.walletOutbox [processor.releaseMessage release (reservationFromRow now)] out ∧
    ws = balance ++ .setReservation release.reservationId (reservation.remaining - release.amount)
      (if reservation.remaining - release.amount = 0 then .RELEASED else .ACTIVE) :: out

/-- The events of a release and of a settlement name columns that never change. -/
theorem fundsReleasedEvent_congr (eventId : String) (release : ReleaseReservation)
    {row row' : ReservationRow} (h : row.SameOrder row') :
    fundsReleasedEvent eventId release (reservationFromRow row) =
      fundsReleasedEvent eventId release (reservationFromRow row') := by
  obtain ⟨hid, huser, hasset, -⟩ := h
  simp only [fundsReleasedEvent, reservationFromRow, hid, huser, hasset]

theorem tradeSettledEvent_congr (eventId : String) (settle : SettleTrade)
    {row row' : ReservationRow} (h : row.SameOrder row') :
    tradeSettledEvent eventId settle (reservationFromRow row) =
      tradeSettledEvent eventId settle (reservationFromRow row') := by
  obtain ⟨hid, huser, -⟩ := h
  simp only [tradeSettledEvent, reservationFromRow, hid, huser]

theorem WalletProcessor.releaseMessage_congr (self : WalletProcessor) (release : ReleaseReservation)
    {row row' : ReservationRow} (h : row.SameOrder row') :
    self.releaseMessage release (reservationFromRow row) =
      self.releaseMessage release (reservationFromRow row') := by
  have hid : (reservationFromRow row).reservationId = (reservationFromRow row').reservationId := h.1
  rw [releaseMessage, releaseMessage, fundsReleasedEvent_congr _ _ h, hid]

theorem WalletProcessor.settleMessage_congr (self : WalletProcessor) (settle : SettleTrade)
    {row row' : ReservationRow} (h : row.SameOrder row') :
    self.settleMessage settle (reservationFromRow row) =
      self.settleMessage settle (reservationFromRow row') := by
  have hid : (reservationFromRow row).reservationId = (reservationFromRow row').reservationId := h.1
  rw [settleMessage, settleMessage, tradeSettledEvent_congr _ _ h, hid]

/-- The ledger rows of a settlement. -/
def debitLedgerRow (userId : ℤ) (settle : SettleTrade) : LedgerRow where
  userId := userId
  asset := settle.debitAsset
  amount := -settle.debitAmount
  kind := "TRADE_DEBIT"
  referenceId := toString settle.fillId

def creditLedgerRow (userId : ℤ) (settle : SettleTrade) : LedgerRow where
  userId := userId
  asset := settle.creditAsset
  amount := settle.creditAmount
  kind := "TRADE_CREDIT"
  referenceId := toString settle.fillId

/-- The writes of a settlement that has read `reservation`. -/
structure Settles (processor : WalletProcessor) (R : WalletDb → WalletDb → Prop) (d : WalletDb)
    (settle : SettleTrade) (reservation : ReservationRecord) (now : ReservationRow)
    (ws : List Write) : Prop where
  accepted : settleRejected reservation settle = false
  debit_free : d.walletLedger.find? (debitLedgerRow reservation.userId settle).key = none
  credit_free : d.walletLedger.find? (creditLedgerRow reservation.userId settle).key = none
  reduces : Reduces d settle.reservationId (reservation.remaining - settle.debitAmount) now
  writes : ∃ balance out,
    SettlesCollateral R d reservation.userId settle balance ∧
    Enqueues d.walletOutbox [processor.settleMessage settle (reservationFromRow now)] out ∧
    ws = balance ++ .insertLedger (debitLedgerRow reservation.userId settle) ::
      .insertLedger (creditLedgerRow reservation.userId settle) ::
      .setReservation settle.reservationId (reservation.remaining - settle.debitAmount)
        (if reservation.remaining - settle.debitAmount = 0 then .SETTLED else .ACTIVE) :: out

/-- The ledger row of a deposit. -/
def depositLedgerRow (deposit : Deposit) : LedgerRow where
  userId := deposit.envelope.userId
  asset := deposit.asset
  amount := deposit.amount
  kind := "DEPOSIT"
  referenceId := deposit.referenceId

/-- The ledger row of a withdrawal. -/
def withdrawLedgerRow (withdraw : Withdraw) : LedgerRow where
  userId := withdraw.envelope.userId
  asset := withdraw.asset
  amount := -withdraw.amount
  kind := "WITHDRAW"
  referenceId := withdraw.envelope.idempotencyKey

/-- The ledger row of an account delta. -/
def deltaLedgerRow (delta : ApplyAccountDelta) : LedgerRow where
  userId := delta.userId
  asset := delta.asset
  amount := delta.totalDelta
  kind := delta.kind
  referenceId := delta.referenceId

/-- The row that stores the reply to a command. -/
def replyRow (envelope : CommandEnvelope) (commandType : String) (reply : WalletReply) :
    IdempotencyRow where
  userId := envelope.userId
  commandType := commandType
  idempotencyKey := envelope.idempotencyKey
  requestId := envelope.requestId
  replyPayload := reply

/-- The balance a deposit or a withdrawal answers with. -/
def balanceUpdated (requestId : String) (asset : Asset) (row : CollateralRow) : BalanceUpdated where
  requestId := requestId
  asset := asset
  total := row.total
  locked := row.locked

/-- The funds a reservation answers with. -/
def fundsReserved (uuid : String) (intent : PlaceOrderIntent) : FundsReserved where
  requestId := intent.envelope.requestId
  reservationId := "res_" ++ uuid
  asset := intent.marginAsset
  amount := intent.requiredMargin

/-- The columns of a new reservation. -/
structure IsReservation (uuid : String) (intent : PlaceOrderIntent) (row : ReservationRow) :
    Prop where
  reservationId : row.reservationId = "res_" ++ uuid
  userId : row.userId = intent.envelope.userId
  asset : row.asset = intent.marginAsset
  amount : row.amount = intent.requiredMargin
  remaining : row.remaining = intent.requiredMargin
  status : row.status = .ACTIVE
  idempotencyKey : row.idempotencyKey = intent.envelope.idempotencyKey
  requestId : row.requestId = intent.envelope.requestId

/-- A transaction commits these writes into `d` and reports these events. -/
inductive Committed (self : WalletProcessor) (R : WalletDb → WalletDb → Prop) (d : WalletDb) :
    WalletTx → List WalletEvent → List Write → Prop
  | deposit {deposit row reply out}
    (hcredit : Credits d deposit.envelope.userId deposit.asset deposit.amount row)
    (hledger : d.walletLedger.find? (depositLedgerRow deposit).key = none)
    (hreply : StoresReply d.walletIdempotency (replyRow deposit.envelope "Deposit" (.balanceUpdated
      (balanceUpdated deposit.envelope.requestId deposit.asset row))) reply)
    (hout : Enqueues d.walletOutbox [self.depositMessage deposit
      (balanceUpdated deposit.envelope.requestId deposit.asset row)] out) :
    Committed self R d (.deposit deposit)
      [depositAppliedEvent (depositDedupeKey deposit) deposit
        (balanceUpdated deposit.envelope.requestId deposit.asset row)]
      (.setCollateral row :: .insertLedger (depositLedgerRow deposit) :: reply :: out)
  | withdraw {withdraw old row reply out}
    (hhit : Hits d .withdraw withdraw.envelope.userId withdraw.asset withdraw.amount old row)
    (hledger : d.walletLedger.find? (withdrawLedgerRow withdraw).key = none)
    (hreply : StoresReply d.walletIdempotency (replyRow withdraw.envelope "Withdraw" (.balanceUpdated
      (balanceUpdated withdraw.envelope.requestId withdraw.asset row))) reply)
    (hout : Enqueues d.walletOutbox [self.withdrawMessage withdraw
      (balanceUpdated withdraw.envelope.requestId withdraw.asset row)] out) :
    Committed self R d (.withdraw withdraw)
      [withdrawalAppliedEvent (withdrawDedupeKey withdraw) withdraw
        (balanceUpdated withdraw.envelope.requestId withdraw.asset row)]
      (.setCollateral row :: .insertLedger (withdrawLedgerRow withdraw) :: reply :: out)
  | reserve {uuid intent old row reservation reply out}
    (hhit : Hits d .reserve intent.envelope.userId intent.marginAsset intent.requiredMargin old row)
    (hreservation : IsReservation uuid intent reservation)
    (hfree : d.Admits reservation)
    (hreply : StoresReply d.walletIdempotency (replyRow intent.envelope "PlaceOrderIntent" (.fundsReserved
      (fundsReserved uuid intent))) reply)
    (hout : Enqueues d.walletOutbox (self.reserveMessages intent (fundsReserved uuid intent)) out) :
    Committed self R d (.reserve uuid intent)
      [fundsReservedEvent (fundsReservedEventId ("res_" ++ uuid)) intent (fundsReserved uuid intent)]
      (.setCollateral row :: .insertReservation reservation :: reply :: out)
  | release {release v read now ws}
    (hv : R v d)
    (hread : v.walletReservations.find? release.reservationId = some read)
    (h : Releases self R d release (reservationFromRow read) now ws) :
    Committed self R d (.release release)
      [fundsReleasedEvent (releaseDedupeKey release) release (reservationFromRow now)] ws
  | settle {settle v read now ws}
    (hv : R v d)
    (hread : v.walletReservations.find? settle.reservationId = some read)
    (h : Settles self R d settle (reservationFromRow read) now ws) :
    Committed self R d (.settle settle)
      [tradeSettledEvent (settleDedupeKey settle) settle (reservationFromRow now)] ws
  | accountDelta {delta row out}
    (hnonzero : ¬(delta.totalDelta = 0 ∧ delta.lockedDelta = 0))
    (hledger : d.walletLedger.find? (deltaLedgerRow delta).key = none)
    (hsign : 0 ≤ delta.totalDelta ∧ 0 ≤ delta.lockedDelta ∧ delta.lockedDelta ≤ delta.totalDelta)
    (hkey : row.key = (delta.userId, delta.asset))
    (htotal : row.total = d.total delta.userId delta.asset + delta.totalDelta)
    (hlocked : row.locked = d.locked delta.userId delta.asset + delta.lockedDelta)
    (hout : Enqueues d.walletOutbox [self.accountDeltaMessage delta row.snapshot] out) :
    Committed self R d (.accountDelta delta)
      [accountDeltaAppliedEvent (accountDeltaDedupeKey delta) delta row.snapshot]
      (.insertLedger (deltaLedgerRow delta) :: .setCollateral row :: out)
  | duplicateDelta {delta v} (hv : R v d)
    (hledger : (v.walletLedger.find? (deltaLedgerRow delta).key).isSome = true) :
    Committed self R d (.accountDelta delta) [] []
  | reply {envelope commandType reply w}
    (hreply : StoresReply d.walletIdempotency (replyRow envelope commandType reply) w) :
    Committed self R d (.reply envelope commandType reply) [] [w]
  | cancel {intent reply out}
    (hreply : StoresReply d.walletIdempotency (replyRow intent.envelope "CancelOrderIntent" (.commandAccepted
      { requestId := intent.envelope.requestId })) reply)
    (hout : Enqueues d.walletOutbox [self.cancelMessage intent] out) :
    Committed self R d (.cancel intent) [] (reply :: out)

/-! ## Reading from fewer states -/

section Mono

variable {self : WalletProcessor} {R R' : WalletDb → WalletDb → Prop} {d : WalletDb}
  {ws : List Write}

theorem Updates.mono (hR : ∀ v d, R v d → R' v d) {update : CollateralUpdate} {userId : ℤ}
    {asset : Asset} {amount : ℤ} (h : Updates R d update userId asset amount ws) :
    Updates R' d update userId asset amount ws := by
  cases h with
  | hit h => exact .hit h
  | miss hv h => exact .miss (hR _ _ hv) h

theorem SettlesCollateral.mono (hR : ∀ v d, R v d → R' v d) {userId : ℤ} {settle : SettleTrade}
    (h : SettlesCollateral R d userId settle ws) : SettlesCollateral R' d userId settle ws := by
  cases h with
  | unlock hsame h => exact .unlock hsame (h.mono hR)
  | transfer hsame hdebit hcredit => exact .transfer hsame (hdebit.mono hR) hcredit

theorem Releases.mono (hR : ∀ v d, R v d → R' v d) {release : ReleaseReservation}
    {reservation : ReservationRecord} {now : ReservationRow}
    (h : Releases self R d release reservation now ws) :
    Releases self R' d release reservation now ws where
  accepted := h.accepted
  reduces := h.reduces
  writes := by
    obtain ⟨balance, out, hbalance, hout, hws⟩ := h.writes
    exact ⟨balance, out, hbalance.mono hR, hout, hws⟩

theorem Settles.mono (hR : ∀ v d, R v d → R' v d) {settle : SettleTrade}
    {reservation : ReservationRecord} {now : ReservationRow}
    (h : Settles self R d settle reservation now ws) :
    Settles self R' d settle reservation now ws where
  accepted := h.accepted
  debit_free := h.debit_free
  credit_free := h.credit_free
  reduces := h.reduces
  writes := by
    obtain ⟨balance, out, hbalance, hout, hws⟩ := h.writes
    exact ⟨balance, out, hbalance.mono hR, hout, hws⟩

theorem Committed.mono (hR : ∀ v d, R v d → R' v d) {tx : WalletTx} {events : List WalletEvent}
    (h : Committed self R d tx events ws) : Committed self R' d tx events ws := by
  cases h with
  | deposit hcredit hledger hreply hout => exact .deposit hcredit hledger hreply hout
  | withdraw hhit hledger hreply hout => exact .withdraw hhit hledger hreply hout
  | reserve hhit hreservation hfree hreply hout =>
    exact .reserve hhit hreservation hfree hreply hout
  | release hv hread h => exact .release (hR _ _ hv) hread (h.mono hR)
  | settle hv hread h => exact .settle (hR _ _ hv) hread (h.mono hR)
  | accountDelta hnonzero hledger hsign hkey htotal hlocked hout =>
    exact .accountDelta hnonzero hledger hsign hkey htotal hlocked hout
  | duplicateDelta hv hledger => exact .duplicateDelta (hR _ _ hv) hledger
  | reply hreply => exact .reply hreply
  | cancel hreply hout => exact .cancel hreply hout

end Mono

end Wallet
