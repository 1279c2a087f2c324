import ExchangeServer.Wallet.Database

/-!
# The SQL statements of the repository

Each statement the wallet's transactions issue, with the answer the database
gives and the rows it writes. Every statement names its rows by key. A
statement that violates a constraint, leaves the range of a `BIGINT` column or
misses a row it must find is refused.

`Stmt.exec` takes the texts of a statement to be storable, as `Stmt.Storable`
says; a database that refuses the other ones is made from it in `StoredText`.
-/

namespace Wallet

open Protocol Relational

/-- Why the database refuses a statement. -/
inductive StorageError
  | uniqueViolation | checkViolation | foreignKeyViolation | numericValueOutOfRange | rowNotFound
  | invalidCharacter | programLimitExceeded
  deriving DecidableEq

/-- The errors of the repository; the payloads of the wallet always serialize. -/
inductive WalletRepositoryError
  | insufficientFunds (available : ℤ)
  | idempotencyConflict
  | reservationNotFound
  | invalidReservationState
  | invalidAccountDelta
  | storage (error : StorageError)
  deriving DecidableEq

structure BalanceSnapshot where
  total : ℤ
  locked : ℤ
  deriving DecidableEq

def BalanceSnapshot.available (self : BalanceSnapshot) : ℤ := self.total - self.locked

structure ReservationRecord where
  reservationId : String
  userId : ℤ
  asset : Asset
  amount : ℤ
  remaining : ℤ
  status : ReservationStatus
  deriving DecidableEq

def CollateralRow.snapshot (row : CollateralRow) : BalanceSnapshot where
  total := row.total
  locked := row.locked

def reservationFromRow (row : ReservationRow) : ReservationRecord where
  reservationId := row.reservationId
  userId := row.userId
  asset := row.asset
  amount := row.amount
  remaining := row.remaining
  status := row.status

/-! ## Guarded updates of a balance -/

/-- The guarded `UPDATE user_collaterals` statements. -/
inductive CollateralUpdate
  | reserve | withdraw | unlock | debit
  deriving DecidableEq

namespace CollateralUpdate

/-- The `WHERE` condition on the balance columns. -/
def admits : CollateralUpdate → ℤ → CollateralRow → Bool
  | reserve, amount, row => amount ≤ row.total - row.locked
  | withdraw, amount, row => amount ≤ row.total - row.locked
  | unlock, amount, row => amount ≤ row.locked
  | debit, amount, row => amount ≤ row.locked && amount ≤ row.total

/-- The new `total`. -/
def total : CollateralUpdate → ℤ → CollateralRow → ℤ
  | reserve, _, row => row.total
  | withdraw, amount, row => row.total - amount
  | unlock, _, row => row.total
  | debit, amount, row => row.total - amount

/-- The new `locked`. -/
def locked : CollateralUpdate → ℤ → CollateralRow → ℤ
  | reserve, amount, row => row.locked + amount
  | withdraw, _, row => row.locked
  | unlock, amount, row => row.locked - amount
  | debit, amount, row => row.locked - amount

end CollateralUpdate

/-! ## Statements -/

/-- A statement, indexed by the type of its answer. The answer of a guarded
update is the changed row, if one matched. -/
inductive Stmt : Type → Type
  | getIdempotentReply (userId : ℤ) (commandType idempotencyKey : String) :
    Stmt (Option WalletReply)
  | updateCollateral (update : CollateralUpdate) (userId : ℤ) (asset : Asset) (amount : ℤ) :
    Stmt (Option BalanceSnapshot)
  | creditCollateral (userId : ℤ) (asset : Asset) (amount : ℤ) : Stmt BalanceSnapshot
  | applyDelta (userId : ℤ) (asset : Asset) (totalDelta lockedDelta : ℤ) :
    Stmt (Option BalanceSnapshot)
  | selectCollateral (userId : ℤ) (asset : Asset) : Stmt (Option BalanceSnapshot)
  | insertReservation (reservationId : String) (userId : ℤ) (asset : Asset) (amount : ℤ)
    (idempotencyKey requestId : String) : Stmt Unit
  | selectReservation (reservationId : String) : Stmt (Option ReservationRecord)
  | updateReservation (reservationId : String) (remaining : ℤ) (status : ReservationStatus) :
    Stmt ReservationRecord
  | insertLedger (row : LedgerRow) : Stmt Unit
  | insertLedgerOnce (row : LedgerRow) : Stmt Bool
  | recordIdempotentReply (row : IdempotencyRow) : Stmt Unit
  | enqueueOutboxMessage (message : NewWalletOutboxMessage) : Stmt ℕ
  | outboxDuplicateMatches (message : NewWalletOutboxMessage) : Stmt Bool

/-- The answer to a statement. -/
abbrev Answer (β : Type) := Except WalletRepositoryError (β × List Write)

def refuse {β : Type} (error : StorageError) : Answer β := .error (.storage error)

/-- Store the balance columns of a user, or say what refuses them. -/
def storeCollateral {β : Type} (userId : ℤ) (asset : Asset) (total locked : ℤ)
    (answer : BalanceSnapshot → β) : Answer β :=
  match CollateralRow.build userId asset total locked with
  | some row => .ok (answer row.snapshot, [.setCollateral row])
  | none => refuse (if total ≤ i64Max then .checkViolation else .numericValueOutOfRange)

/-- `UPDATE user_collaterals SET .. WHERE user_id=$1 AND asset=$2 AND ..`. -/
def execUpdateCollateral (update : CollateralUpdate) (amount : ℤ) :
    Option CollateralRow → Answer (Option BalanceSnapshot)
  | none => .ok (none, [])
  | some row =>
    if update.admits amount row then
      storeCollateral row.userId row.asset (update.total amount row) (update.locked amount row) some
    else .ok (none, [])

/-- `INSERT INTO user_collaterals .. VALUES($1,$2,$3,0) ON CONFLICT .. DO UPDATE`.
The constraints of the proposed row are checked before a conflict is looked for. -/
def execCreditCollateral (users : List ℤ) (userId : ℤ) (asset : Asset) (amount : ℤ)
    (found : Option CollateralRow) : Answer BalanceSnapshot :=
  if amount < 0 then refuse .checkViolation
  else
    match found with
    | some row => storeCollateral userId asset (row.total + amount) row.locked id
    | none =>
      if userId ∈ users then storeCollateral userId asset amount 0 id
      else refuse .foreignKeyViolation

/-- `INSERT INTO user_collaterals .. SELECT .. WHERE $3 >= 0 AND $4 >= 0 AND $4 <= $3
ON CONFLICT .. DO UPDATE .. WHERE ..`. The outer condition decides whether there
is a row to insert at all, so a conflict is reached only when it holds. -/
def execApplyDelta (users : List ℤ) (userId : ℤ) (asset : Asset) (totalDelta lockedDelta : ℤ)
    (found : Option CollateralRow) : Answer (Option BalanceSnapshot) :=
  if 0 ≤ totalDelta ∧ 0 ≤ lockedDelta ∧ lockedDelta ≤ totalDelta then
    match found with
    | some row =>
      if 0 ≤ row.total + totalDelta ∧ 0 ≤ row.locked + lockedDelta ∧
          row.locked + lockedDelta ≤ row.total + totalDelta then
        storeCollateral userId asset (row.total + totalDelta) (row.locked + lockedDelta) some
      else .ok (none, [])
    | none =>
      if userId ∈ users then storeCollateral userId asset totalDelta lockedDelta some
      else refuse .foreignKeyViolation
  else .ok (none, [])

/-- `INSERT INTO wallet_reservations .. VALUES($1,$2,$3,$4,$4,'ACTIVE',$5,$6)`. -/
def execInsertReservation (users : List ℤ) (reservationId : String) (userId : ℤ) (asset : Asset)
    (amount : ℤ) (idempotencyKey requestId : String) (idTaken keyTaken : Bool) : Answer Unit :=
  if h : 0 < amount then
    if idTaken || keyTaken then refuse .uniqueViolation
    else if userId ∈ users then
      .ok ((), [.insertReservation
        { reservationId, userId, asset, amount, remaining := amount, status := .ACTIVE,
          idempotencyKey, requestId, checks := ⟨h, h.le, le_rfl⟩ }])
    else refuse .foreignKeyViolation
  else refuse .checkViolation

/-- `UPDATE wallet_reservations SET remaining=$2, status=$3 .. RETURNING ..`. -/
def execUpdateReservation (remaining : ℤ) (status : ReservationStatus) :
    Option ReservationRow → Answer ReservationRecord
  | none => refuse .rowNotFound
  | some row =>
    if 0 ≤ remaining ∧ remaining ≤ row.amount then
      .ok (reservationFromRow (row.update remaining status),
        [.setReservation row.reservationId remaining status])
    else refuse .checkViolation

/-- `INSERT INTO wallet_idempotency .. ON CONFLICT .. DO UPDATE SET request_id=..`. -/
def execRecordIdempotentReply (users : List ℤ) (row : IdempotencyRow) :
    Option IdempotencyRow → Answer Unit
  | some found => .ok ((), [.touchIdempotency found.key row.requestId])
  | none =>
    if row.userId ∈ users then .ok ((), [.insertIdempotency row]) else refuse .foreignKeyViolation

/-- `INSERT INTO wallet_outbox .. ON CONFLICT(dedupe_key) DO NOTHING`; the answer
is the number of rows. -/
def execEnqueueOutboxMessage (message : NewWalletOutboxMessage)
    (found : Option NewWalletOutboxMessage) : Answer ℕ :=
  if ∀ partition ∈ message.partition, 0 ≤ partition then
    match found with
    | some _ => .ok (0, [])
    | none => .ok (1, [.insertOutbox message])
  else refuse .checkViolation

/-- Execute a statement with storable texts against a view of the database. -/
def Stmt.exec {β : Type} : Stmt β → WalletDb → Answer β
  | getIdempotentReply userId commandType idempotencyKey, d =>
    .ok ((d.walletIdempotency.find? (userId, commandType, idempotencyKey)).map
      IdempotencyRow.replyPayload, [])
  | updateCollateral update userId asset amount, d =>
    execUpdateCollateral update amount (d.userCollaterals.find? (userId, asset))
  | creditCollateral userId asset amount, d =>
    execCreditCollateral d.users userId asset amount (d.userCollaterals.find? (userId, asset))
  | applyDelta userId asset totalDelta lockedDelta, d =>
    execApplyDelta d.users userId asset totalDelta lockedDelta
      (d.userCollaterals.find? (userId, asset))
  | selectCollateral userId asset, d =>
    .ok ((d.userCollaterals.find? (userId, asset)).map CollateralRow.snapshot, [])
  | insertReservation reservationId userId asset amount idempotencyKey requestId, d =>
    execInsertReservation d.users reservationId userId asset amount idempotencyKey requestId
      (d.walletReservations.find? reservationId).isSome
      (d.reservationKeyTaken (userId, idempotencyKey))
  | selectReservation reservationId, d =>
    .ok ((d.walletReservations.find? reservationId).map reservationFromRow, [])
  | updateReservation reservationId remaining status, d =>
    execUpdateReservation remaining status (d.walletReservations.find? reservationId)
  | insertLedger row, d =>
    if (d.walletLedger.find? row.key).isSome then refuse .uniqueViolation
    else if row.userId ∈ d.users then .ok ((), [.insertLedger row])
    else refuse .foreignKeyViolation
  | insertLedgerOnce row, d =>
    if (d.walletLedger.find? row.key).isSome then .ok (false, [])
    else if row.userId ∈ d.users then .ok (true, [.insertLedger row])
    else refuse .foreignKeyViolation
  | recordIdempotentReply row, d =>
    execRecordIdempotentReply d.users row (d.walletIdempotency.find? row.key)
  | enqueueOutboxMessage message, d =>
    execEnqueueOutboxMessage message (d.walletOutbox.find? message.dedupeKey)
  | outboxDuplicateMatches message, d =>
    .ok (decide (d.walletOutbox.find? message.dedupeKey = some message), [])

/-! ## What a statement writes -/

theorem storeCollateral_ok {β : Type} {userId : ℤ} {asset : Asset} {total locked : ℤ}
    {answer : BalanceSnapshot → β} {b : β} {ws : List Write}
    (h : storeCollateral userId asset total locked answer = .ok (b, ws)) :
    ∃ row : CollateralRow, row.userId = userId ∧ row.asset = asset ∧ row.total = total ∧
      row.locked = locked ∧ b = answer row.snapshot ∧ ws = [.setCollateral row] := by
  unfold storeCollateral at h
  split at h
  · next row hrow =>
    cases h
    obtain ⟨hu, ha, ht, hl⟩ := CollateralRow.build_eq_some.1 hrow
    exact ⟨row, hu, ha, ht, hl, rfl, rfl⟩
  · cases h

theorem execUpdateCollateral_ok {update : CollateralUpdate} {amount : ℤ}
    {found : Option CollateralRow} {b : Option BalanceSnapshot} {ws : List Write}
    (h : execUpdateCollateral update amount found = .ok (b, ws)) :
    (b = none ∧ ws = [] ∧ ∀ row ∈ found, update.admits amount row = false) ∨
      ∃ old row : CollateralRow, found = some old ∧ update.admits amount old = true ∧
        row.key = old.key ∧ row.total = update.total amount old ∧
        row.locked = update.locked amount old ∧ b = some row.snapshot ∧
        ws = [.setCollateral row] := by
  cases found with
  | none =>
    cases h
    exact .inl ⟨rfl, rfl, by simp⟩
  | some old =>
    simp only [execUpdateCollateral] at h
    split at h
    · next hadm =>
      obtain ⟨row, hu, ha, ht, hl, hb, hws⟩ := storeCollateral_ok h
      exact .inr ⟨old, row, rfl, hadm, Prod.ext hu ha, ht, hl, hb, hws⟩
    · next hadm =>
      cases h
      exact .inl ⟨rfl, rfl, by simpa using hadm⟩

theorem execCreditCollateral_ok {users : List ℤ} {userId : ℤ} {asset : Asset} {amount : ℤ}
    {found : Option CollateralRow} {b : BalanceSnapshot} {ws : List Write}
    (h : execCreditCollateral users userId asset amount found = .ok (b, ws)) :
    0 ≤ amount ∧ (found = none → userId ∈ users) ∧ ∃ row : CollateralRow,
      row.key = (userId, asset) ∧
      row.total = (found.map CollateralRow.total).getD 0 + amount ∧
      row.locked = (found.map CollateralRow.locked).getD 0 ∧ b = row.snapshot ∧
      ws = [.setCollateral row] := by
  unfold execCreditCollateral at h
  split at h
  · cases h
  · next hneg =>
    refine ⟨not_lt.1 hneg, ?_⟩
    split at h
    · obtain ⟨row, hu, ha, ht, hl, hb, hws⟩ := storeCollateral_ok h
      exact ⟨nofun, row, Prod.ext hu ha, ht, hl, hb, hws⟩
    · split at h
      · next huser =>
        obtain ⟨row, hu, ha, ht, hl, hb, hws⟩ := storeCollateral_ok h
        exact ⟨fun _ => huser, row, Prod.ext hu ha, by simpa using ht, by simpa using hl, hb, hws⟩
      · cases h

theorem execApplyDelta_ok {users : List ℤ} {userId : ℤ} {asset : Asset}
    {totalDelta lockedDelta : ℤ} {found : Option CollateralRow} {b : Option BalanceSnapshot}
    {ws : List Write}
    (h : execApplyDelta users userId asset totalDelta lockedDelta found = .ok (b, ws)) :
    (b = none ∧ ws = []) ∨ 0 ≤ totalDelta ∧ 0 ≤ lockedDelta ∧ lockedDelta ≤ totalDelta ∧
      ∃ row : CollateralRow, row.key = (userId, asset) ∧
        row.total = (found.map CollateralRow.total).getD 0 + totalDelta ∧
        row.locked = (found.map CollateralRow.locked).getD 0 + lockedDelta ∧
        b = some row.snapshot ∧ ws = [.setCollateral row] := by
  unfold execApplyDelta at h
  split at h
  · next hsign =>
    obtain ⟨h₁, h₂, h₃⟩ := hsign
    split at h
    · split at h
      · obtain ⟨row, hu, ha, ht, hl, hb, hws⟩ := storeCollateral_ok h
        exact .inr ⟨h₁, h₂, h₃, row, Prod.ext hu ha, ht, hl, hb, hws⟩
      · cases h
        exact .inl ⟨rfl, rfl⟩
    · split at h
      · obtain ⟨row, hu, ha, ht, hl, hb, hws⟩ := storeCollateral_ok h
        exact .inr ⟨h₁, h₂, h₃, row, Prod.ext hu ha, by simpa using ht, by simpa using hl, hb, hws⟩
      · cases h
  · cases h
    exact .inl ⟨rfl, rfl⟩

theorem execInsertReservation_ok {users : List ℤ} {reservationId : String} {userId : ℤ}
    {asset : Asset} {amount : ℤ} {idempotencyKey requestId : String} {idTaken keyTaken : Bool}
    {b : Unit} {ws : List Write}
    (h : execInsertReservation users reservationId userId asset amount idempotencyKey requestId
      idTaken keyTaken = .ok (b, ws)) :
    idTaken = false ∧ keyTaken = false ∧ userId ∈ users ∧ ∃ row : ReservationRow,
      row.reservationId = reservationId ∧ row.userId = userId ∧ row.asset = asset ∧
      row.amount = amount ∧ row.remaining = amount ∧ row.status = .ACTIVE ∧
      row.idempotencyKey = idempotencyKey ∧ row.requestId = requestId ∧
      ws = [.insertReservation row] := by
  unfold execInsertReservation at h
  split at h
  · split at h
    · cases h
    · next htaken =>
      split at h
      · next huser =>
        cases h
        simp only [Bool.or_eq_true, not_or, Bool.not_eq_true] at htaken
        exact ⟨htaken.1, htaken.2, huser, _, rfl, rfl, rfl, rfl, rfl, rfl, rfl, rfl, rfl⟩
      · cases h
  · cases h

theorem execUpdateReservation_ok {remaining : ℤ} {status : ReservationStatus}
    {found : Option ReservationRow} {b : ReservationRecord} {ws : List Write}
    (h : execUpdateReservation remaining status found = .ok (b, ws)) :
    ∃ row, found = some row ∧ 0 ≤ remaining ∧ remaining ≤ row.amount ∧
      b = reservationFromRow (row.update remaining status) ∧
      ws = [.setReservation row.reservationId remaining status] := by
  cases found with
  | none => cases h
  | some row =>
    simp only [execUpdateReservation] at h
    split at h
    · next hr =>
      cases h
      exact ⟨row, rfl, hr.1, hr.2, rfl, rfl⟩
    · cases h

theorem execRecordIdempotentReply_ok {users : List ℤ} {row : IdempotencyRow}
    {found : Option IdempotencyRow} {b : Unit} {ws : List Write}
    (h : execRecordIdempotentReply users row found = .ok (b, ws)) :
    (∃ old, found = some old ∧ ws = [.touchIdempotency old.key row.requestId]) ∨
      found = none ∧ row.userId ∈ users ∧ ws = [.insertIdempotency row] := by
  cases found with
  | none =>
    simp only [execRecordIdempotentReply] at h
    split at h
    · next huser =>
      cases h
      exact .inr ⟨rfl, huser, rfl⟩
    · cases h
  | some old =>
    cases h
    exact .inl ⟨old, rfl, rfl⟩

theorem execEnqueueOutboxMessage_ok {message : NewWalletOutboxMessage}
    {found : Option NewWalletOutboxMessage} {b : ℕ} {ws : List Write}
    (h : execEnqueueOutboxMessage message found = .ok (b, ws)) :
    (b = 0 ∧ ws = [] ∧ ∃ old, found = some old) ∨
      b = 1 ∧ ws = [.insertOutbox message] ∧ found = none := by
  unfold execEnqueueOutboxMessage at h
  split at h
  · split at h
    · next old =>
      cases h
      exact .inl ⟨rfl, rfl, old, rfl⟩
    · cases h
      exact .inr ⟨rfl, rfl, rfl⟩
  · cases h

end Wallet
