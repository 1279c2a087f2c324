import ExchangeServer.Foundation.Table
import ExchangeServer.Protocol.Wallet

/-!
# The tables of the wallet

The six tables the wallet works on, with the constraints the migrations give
them. A row carries its `CHECK` constraints and the range of its `BIGINT`
columns, and a table its `UNIQUE` constraints, so that no value of these types
violates one. Serial numbers and time stamps of the rows are left out here, and
a payload stored as JSON is the message it was written from. Text is what the
database can store as `TEXT`.

A transaction changes the tables by a list of writes. A write that inserts a
row does nothing when the row's key is taken; a statement is refused before it
gets there.
-/

namespace Wallet

open Protocol Relational

/-- The largest value of a `BIGINT` column. -/
def i64Max : ℤ := 2 ^ 63 - 1

/-! ## Rows -/

/-- A row of `user_collaterals`. -/
structure CollateralRow where
  userId : ℤ
  asset : Asset
  total : ℤ
  locked : ℤ
  checks : 0 ≤ locked ∧ locked ≤ total ∧ total ≤ i64Max
  deriving DecidableEq

def CollateralRow.key (row : CollateralRow) : ℤ × Asset := (row.userId, row.asset)

/-- The row with these columns, if no constraint refuses it. -/
def CollateralRow.build (userId : ℤ) (asset : Asset) (total locked : ℤ) : Option CollateralRow :=
  if h : 0 ≤ locked ∧ locked ≤ total ∧ total ≤ i64Max then some ⟨userId, asset, total, locked, h⟩
  else none

theorem CollateralRow.build_eq_some {userId : ℤ} {asset : Asset} {total locked : ℤ}
    {row : CollateralRow} :
    CollateralRow.build userId asset total locked = some row ↔
      row.userId = userId ∧ row.asset = asset ∧ row.total = total ∧ row.locked = locked := by
  unfold build
  constructor
  · intro h
    split at h
    · cases h
      exact ⟨rfl, rfl, rfl, rfl⟩
    · cases h
  · rintro ⟨rfl, rfl, rfl, rfl⟩
    rw [dif_pos row.checks]

inductive ReservationStatus
  | ACTIVE | RELEASED | SETTLED
  deriving DecidableEq

/-- A row of `wallet_reservations`. -/
structure ReservationRow where
  reservationId : String
  userId : ℤ
  asset : Asset
  amount : ℤ
  remaining : ℤ
  status : ReservationStatus
  idempotencyKey : String
  requestId : String
  checks : 0 < amount ∧ 0 ≤ remaining ∧ remaining ≤ amount
  deriving DecidableEq

/-- The columns of `UNIQUE(user_id, idempotency_key)`. -/
def ReservationRow.idempotency (row : ReservationRow) : ℤ × String :=
  (row.userId, row.idempotencyKey)

/-- New `remaining` and `status`, if no constraint refuses them. -/
def ReservationRow.update (row : ReservationRow) (remaining : ℤ) (status : ReservationStatus) :
    ReservationRow :=
  if h : 0 ≤ remaining ∧ remaining ≤ row.amount then
    { row with remaining, status, checks := ⟨row.checks.1, h⟩ }
  else row

/-- The columns of a reservation that no statement changes. -/
def ReservationRow.SameOrder (row row' : ReservationRow) : Prop :=
  row.reservationId = row'.reservationId ∧ row.userId = row'.userId ∧ row.asset = row'.asset ∧
    row.amount = row'.amount ∧ row.idempotencyKey = row'.idempotencyKey ∧
      row.requestId = row'.requestId

theorem ReservationRow.SameOrder.refl (row : ReservationRow) : row.SameOrder row :=
  ⟨rfl, rfl, rfl, rfl, rfl, rfl⟩

theorem ReservationRow.SameOrder.trans {a b c : ReservationRow} (h : a.SameOrder b)
    (h' : b.SameOrder c) : a.SameOrder c := by
  obtain ⟨h₁, h₂, h₃, h₄, h₅, h₆⟩ := h
  obtain ⟨k₁, k₂, k₃, k₄, k₅, k₆⟩ := h'
  exact ⟨h₁.trans k₁, h₂.trans k₂, h₃.trans k₃, h₄.trans k₄, h₅.trans k₅, h₆.trans k₆⟩

theorem ReservationRow.sameOrder_update (row : ReservationRow) (remaining : ℤ)
    (status : ReservationStatus) : (row.update remaining status).SameOrder row := by
  unfold update
  split <;> exact ReservationRow.SameOrder.refl _

@[simp] theorem ReservationRow.reservationId_update (row : ReservationRow) (remaining : ℤ)
    (status : ReservationStatus) : (row.update remaining status).reservationId = row.reservationId :=
  (row.sameOrder_update remaining status).1

@[simp] theorem ReservationRow.idempotency_update (row : ReservationRow) (remaining : ℤ)
    (status : ReservationStatus) : (row.update remaining status).idempotency = row.idempotency := by
  obtain ⟨-, hu, -, -, hk, -⟩ := row.sameOrder_update remaining status
  exact Prod.ext hu hk

/-- A row of `wallet_ledger`. -/
structure LedgerRow where
  userId : ℤ
  asset : Asset
  amount : ℤ
  kind : String
  referenceId : String
  deriving DecidableEq

/-- The columns of `UNIQUE(user_id, asset, kind, reference_id)`. -/
def LedgerRow.key (row : LedgerRow) : ℤ × Asset × String × String :=
  (row.userId, row.asset, row.kind, row.referenceId)

/-- A row of `wallet_idempotency`. -/
structure IdempotencyRow where
  userId : ℤ
  commandType : String
  idempotencyKey : String
  requestId : String
  replyPayload : WalletReply
  deriving DecidableEq

def IdempotencyRow.key (row : IdempotencyRow) : ℤ × String × String :=
  (row.userId, row.commandType, row.idempotencyKey)

/-- The same reply under the request id of a later delivery. -/
def IdempotencyRow.touch (row : IdempotencyRow) (requestId : String) : IdempotencyRow :=
  { row with requestId }

@[simp] theorem IdempotencyRow.key_touch (row : IdempotencyRow) (requestId : String) :
    (row.touch requestId).key = row.key := rfl

/-- The payload of an outbox message. -/
inductive OutboxPayload
  | walletEvent (event : WalletEvent)
  | engineCommand (command : EngineCommand)
  deriving DecidableEq

/-- The columns of a `wallet_outbox` row that its writer supplies. -/
structure NewWalletOutboxMessage where
  dedupeKey : String
  topic : String
  partition : Option ℤ
  messageKey : String
  payloadType : String
  payload : OutboxPayload
  deriving DecidableEq

/-! ## Tables -/

/-- The content of the database. -/
structure WalletDb where
  users : List ℤ
  userCollaterals : Table CollateralRow.key
  walletReservations : Table ReservationRow.reservationId
  walletLedger : Table LedgerRow.key
  walletIdempotency : Table IdempotencyRow.key
  walletOutbox : Table NewWalletOutboxMessage.dedupeKey
  uniqueIdempotency : (walletReservations.rows.map ReservationRow.idempotency).Nodup

namespace WalletDb

/-- The empty wallet of some users. -/
def empty (users : List ℤ) : WalletDb where
  users := users
  userCollaterals := .empty
  walletReservations := .empty
  walletLedger := .empty
  walletIdempotency := .empty
  walletOutbox := .empty
  uniqueIdempotency := List.nodup_nil

/-- The balance columns of a user in an asset; both are zero without a row. -/
def total (d : WalletDb) (userId : ℤ) (asset : Asset) : ℤ :=
  ((d.userCollaterals.find? (userId, asset)).map CollateralRow.total).getD 0

def locked (d : WalletDb) (userId : ℤ) (asset : Asset) : ℤ :=
  ((d.userCollaterals.find? (userId, asset)).map CollateralRow.locked).getD 0

/-- Whether a reservation of a user has an idempotency key. -/
def reservationKeyTaken (d : WalletDb) (key : ℤ × String) : Bool :=
  d.walletReservations.rows.any fun row => row.idempotency = key

theorem reservationKeyTaken_iff {d : WalletDb} {key : ℤ × String} :
    d.reservationKeyTaken key = true ↔ ∃ row ∈ d.walletReservations.rows, row.idempotency = key := by
  simp [reservationKeyTaken]

theorem reservationKeyTaken_eq_false {d : WalletDb} {key : ℤ × String} :
    d.reservationKeyTaken key = false ↔ ∀ row ∈ d.walletReservations.rows, row.idempotency ≠ key := by
  simp [reservationKeyTaken]

end WalletDb

/-! ## Writes -/

/-- The change of one row. -/
inductive Write
  | setCollateral (row : CollateralRow)
  | insertReservation (row : ReservationRow)
  | setReservation (reservationId : String) (remaining : ℤ) (status : ReservationStatus)
  | insertLedger (row : LedgerRow)
  | insertIdempotency (row : IdempotencyRow)
  | touchIdempotency (key : ℤ × String × String) (requestId : String)
  | insertOutbox (message : NewWalletOutboxMessage)

namespace WalletDb

/-- Neither the id nor the idempotency key of a reservation is taken. -/
def Admits (d : WalletDb) (row : ReservationRow) : Prop :=
  d.walletReservations.find? row.reservationId = none ∧
    d.reservationKeyTaken row.idempotency = false

instance (d : WalletDb) (row : ReservationRow) : Decidable (d.Admits row) :=
  inferInstanceAs (Decidable (_ ∧ _))

/-- Store a reservation that the table admits. -/
def addReservation (d : WalletDb) (row : ReservationRow) : WalletDb :=
  if h : d.Admits row then
    { d with
      walletReservations := d.walletReservations.insert row
      uniqueIdempotency := by
        rw [Table.rows_insert h.1, List.map_append, List.map_singleton, List.nodup_append]
        refine ⟨d.uniqueIdempotency, List.nodup_singleton _, ?_⟩
        rintro _ ha _ hb
        obtain ⟨x, hx, rfl⟩ := List.mem_map.1 ha
        rw [List.mem_singleton.1 hb]
        exact reservationKeyTaken_eq_false.1 h.2 x hx }
  else d

/-- A new version of a reservation. -/
def updateReservation (d : WalletDb) (reservationId : String) (remaining : ℤ)
    (status : ReservationStatus) : WalletDb :=
  { d with
    walletReservations := d.walletReservations.modify reservationId
      (fun row => row.update remaining status) fun row => row.reservationId_update remaining status
    uniqueIdempotency := by
      rw [Table.modify, List.map_map]
      have hk : ReservationRow.idempotency ∘ (fun row => if row.reservationId = reservationId then
          row.update remaining status else row) = ReservationRow.idempotency := by
        funext row
        by_cases h : row.reservationId = reservationId <;> simp [h]
      rw [hk]
      exact d.uniqueIdempotency }

/-- The effect of a write. -/
def write : Write → WalletDb → WalletDb
  | .setCollateral row, d => { d with userCollaterals := d.userCollaterals.upsert row }
  | .insertReservation row, d => d.addReservation row
  | .setReservation reservationId remaining status, d =>
    d.updateReservation reservationId remaining status
  | .insertLedger row, d => { d with walletLedger := d.walletLedger.insert row }
  | .insertIdempotency row, d => { d with walletIdempotency := d.walletIdempotency.insert row }
  | .touchIdempotency key requestId, d =>
    { d with
      walletIdempotency :=
        d.walletIdempotency.modify key (fun row => row.touch requestId)
          fun row => row.key_touch requestId }
  | .insertOutbox message, d => { d with walletOutbox := d.walletOutbox.insert message }

end WalletDb

end Wallet
