import ExchangeServer.Foundation.ReadCommitted
import ExchangeServer.Wallet.Statements

/-!
# The wallet database as a store with row locks

A write locks the row it changes, or the unique keys of the row it inserts.
Rows are never deleted, and a reservation, a ledger row, a stored reply and an
outbox message keep their content for good except for the columns `remaining`
and `status` of a reservation and the request id of a reply; that is what a
transaction may rely on after reading without a lock.
-/

namespace Wallet

open Protocol Relational Transactional

/-- What a write locks: a row, or a value of a unique key. -/
inductive Key
  | collateral (key : ℤ × Asset)
  | reservation (reservationId : String)
  | reservationIdempotency (key : ℤ × String)
  | ledger (key : ℤ × Asset × String × String)
  | idempotency (key : ℤ × String × String)
  | outbox (dedupeKey : String)
  deriving DecidableEq

/-- What is stored under a key. -/
inductive Entry
  | collateral (row : Option CollateralRow)
  | reservation (row : Option ReservationRow)
  | reservationIdempotency (taken : Bool)
  | ledger (row : Option LedgerRow)
  | idempotency (row : Option IdempotencyRow)
  | outbox (message : Option NewWalletOutboxMessage)

def Write.keys : Write → List Key
  | setCollateral row => [.collateral row.key]
  | insertReservation row =>
    [.reservation row.reservationId, .reservationIdempotency row.idempotency]
  | setReservation reservationId _ _ => [.reservation reservationId]
  | insertLedger row => [.ledger row.key]
  | insertIdempotency row => [.idempotency row.key]
  | touchIdempotency key _ => [.idempotency key]
  | insertOutbox message => [.outbox message.dedupeKey]

namespace WalletDb

/-- The part of the database that a key stands for. -/
def look : Key → WalletDb → Entry
  | .collateral key, d => .collateral (d.userCollaterals.find? key)
  | .reservation reservationId, d => .reservation (d.walletReservations.find? reservationId)
  | .reservationIdempotency key, d => .reservationIdempotency (d.reservationKeyTaken key)
  | .ledger key, d => .ledger (d.walletLedger.find? key)
  | .idempotency key, d => .idempotency (d.walletIdempotency.find? key)
  | .outbox dedupeKey, d => .outbox (d.walletOutbox.find? dedupeKey)

/-! ## Lookups after a write -/

section Reservations

variable {d : WalletDb} {row : ReservationRow}

@[simp] theorem users_addReservation : (d.addReservation row).users = d.users := by
  unfold addReservation; split <;> rfl

@[simp] theorem userCollaterals_addReservation :
    (d.addReservation row).userCollaterals = d.userCollaterals := by
  unfold addReservation; split <;> rfl

@[simp] theorem walletLedger_addReservation :
    (d.addReservation row).walletLedger = d.walletLedger := by
  unfold addReservation; split <;> rfl

@[simp] theorem walletIdempotency_addReservation :
    (d.addReservation row).walletIdempotency = d.walletIdempotency := by
  unfold addReservation; split <;> rfl

@[simp] theorem walletOutbox_addReservation :
    (d.addReservation row).walletOutbox = d.walletOutbox := by
  unfold addReservation; split <;> rfl

theorem walletReservations_addReservation (h : d.Admits row) :
    (d.addReservation row).walletReservations = d.walletReservations.insert row := by
  unfold addReservation; rw [dif_pos h]

theorem addReservation_of_not_admits (h : ¬d.Admits row) : d.addReservation row = d := by
  unfold addReservation; rw [dif_neg h]

theorem find?_addReservation (reservationId : String) :
    (d.addReservation row).walletReservations.find? reservationId =
      if d.Admits row ∧ reservationId = row.reservationId then some row
      else d.walletReservations.find? reservationId := by
  by_cases h : d.Admits row
  · rw [walletReservations_addReservation h, Table.find?_insert]
    simp [h, h.1]
  · rw [addReservation_of_not_admits h, if_neg fun hc => h hc.1]

theorem reservationKeyTaken_addReservation (key : ℤ × String) :
    (d.addReservation row).reservationKeyTaken key =
      (d.reservationKeyTaken key || decide (d.Admits row ∧ row.idempotency = key)) := by
  by_cases h : d.Admits row
  · rw [reservationKeyTaken, walletReservations_addReservation h, Table.rows_insert h.1]
    simp [reservationKeyTaken, h]
  · rw [addReservation_of_not_admits h]
    simp [h]

theorem find?_updateReservation (reservationId : String) (remaining : ℤ)
    (status : ReservationStatus) (j : String) :
    (d.updateReservation reservationId remaining status).walletReservations.find? j =
      if j = reservationId then
        (d.walletReservations.find? j).map fun row => row.update remaining status
      else d.walletReservations.find? j := by
  rw [updateReservation, Table.find?_modify]
  cases hr : d.walletReservations.find? j with
  | none => simp
  | some row =>
    have hj := Table.key_of_find? hr
    by_cases h : j = reservationId <;> simp [hj, h]

theorem mem_updateReservation {reservationId : String} {remaining : ℤ} {status : ReservationStatus}
    {r' : ReservationRow} :
    r' ∈ (d.updateReservation reservationId remaining status).walletReservations.rows ↔
      ∃ r ∈ d.walletReservations.rows,
        (if r.reservationId = reservationId then r.update remaining status else r) = r' :=
  Table.mem_modify fun row => row.reservationId_update remaining status

@[simp] theorem reservationKeyTaken_updateReservation (reservationId : String) (remaining : ℤ)
    (status : ReservationStatus) (key : ℤ × String) :
    (d.updateReservation reservationId remaining status).reservationKeyTaken key =
      d.reservationKeyTaken key := by
  rw [Bool.eq_iff_iff, reservationKeyTaken_iff, reservationKeyTaken_iff]
  simp only [mem_updateReservation]
  constructor
  · rintro ⟨_, ⟨row, hrow, rfl⟩, hkey⟩
    refine ⟨row, hrow, ?_⟩
    split at hkey
    · simpa using hkey
    · exact hkey
  · rintro ⟨row, hrow, hkey⟩
    refine ⟨_, ⟨row, hrow, rfl⟩, ?_⟩
    split
    · simpa using hkey
    · exact hkey

end Reservations

/-! ## Growth -/

/-- Everything a transaction may rely on after reading without a lock is in
`d'` as it was in `d`. -/
structure Grows (d d' : WalletDb) : Prop where
  users : d'.users = d.users
  reservation : ∀ reservationId row, d.walletReservations.find? reservationId = some row →
    ∃ row', d'.walletReservations.find? reservationId = some row' ∧ row'.SameOrder row
  ledger : ∀ key row, d.walletLedger.find? key = some row → d'.walletLedger.find? key = some row
  idempotency : ∀ key row, d.walletIdempotency.find? key = some row →
    ∃ row', d'.walletIdempotency.find? key = some row' ∧ row'.replyPayload = row.replyPayload
  outbox : ∀ key message, d.walletOutbox.find? key = some message →
    d'.walletOutbox.find? key = some message

theorem Grows.refl (d : WalletDb) : Grows d d where
  users := rfl
  reservation _ row h := ⟨row, h, .refl row⟩
  ledger _ _ h := h
  idempotency _ row h := ⟨row, h, rfl⟩
  outbox _ _ h := h

theorem Grows.trans {a b c : WalletDb} (h : Grows a b) (h' : Grows b c) : Grows a c where
  users := h'.users.trans h.users
  reservation id row hr := by
    obtain ⟨row', hr', hs⟩ := h.reservation id row hr
    obtain ⟨row'', hr'', hs'⟩ := h'.reservation id row' hr'
    exact ⟨row'', hr'', hs'.trans hs⟩
  ledger key row hr := h'.ledger key row (h.ledger key row hr)
  idempotency key row hr := by
    obtain ⟨row', hr', hp⟩ := h.idempotency key row hr
    obtain ⟨row'', hr'', hp'⟩ := h'.idempotency key row' hr'
    exact ⟨row'', hr'', hp'.trans hp⟩
  outbox key message hm := h'.outbox key message (h.outbox key message hm)

theorem Grows.isSome_ledger {d d' : WalletDb} (h : Grows d d')
    {key : ℤ × Asset × String × String} (hkey : (d.walletLedger.find? key).isSome) :
    (d'.walletLedger.find? key).isSome := by
  obtain ⟨row, hrow⟩ := Option.isSome_iff_exists.1 hkey
  rw [h.ledger key row hrow]
  rfl

theorem Grows.isSome_idempotency {d d' : WalletDb} (h : Grows d d') {key : ℤ × String × String}
    (hkey : (d.walletIdempotency.find? key).isSome) : (d'.walletIdempotency.find? key).isSome := by
  obtain ⟨row, hrow⟩ := Option.isSome_iff_exists.1 hkey
  obtain ⟨row', hrow', -⟩ := h.idempotency key row hrow
  rw [hrow']
  rfl

theorem Grows.isSome_outbox {d d' : WalletDb} (h : Grows d d') {dedupeKey : String}
    (hkey : (d.walletOutbox.find? dedupeKey).isSome) : (d'.walletOutbox.find? dedupeKey).isSome := by
  obtain ⟨message, hmessage⟩ := Option.isSome_iff_exists.1 hkey
  rw [h.outbox dedupeKey message hmessage]
  rfl

theorem grows_write (w : Write) (d : WalletDb) : Grows d (write w d) := by
  cases w with
  | setCollateral row => exact ⟨rfl, (Grows.refl d).reservation, fun _ _ h => h,
      (Grows.refl d).idempotency, fun _ _ h => h⟩
  | insertReservation row =>
    refine ⟨by simp [write], fun id r hr => ⟨r, ?_, .refl r⟩, by simp [write], ?_, by simp [write]⟩
    rw [write, find?_addReservation, if_neg]
    · exact hr
    · rintro ⟨ha, rfl⟩
      rw [ha.1] at hr
      cases hr
    · rw [write, walletIdempotency_addReservation]
      exact (Grows.refl d).idempotency
  | setReservation id remaining status =>
    refine ⟨rfl, fun j r hr => ?_, fun _ _ h => h, (Grows.refl d).idempotency, fun _ _ h => h⟩
    rw [write, find?_updateReservation, hr]
    split
    · exact ⟨_, rfl, r.sameOrder_update remaining status⟩
    · exact ⟨r, rfl, .refl r⟩
  | insertLedger row => exact ⟨rfl, (Grows.refl d).reservation,
      fun _ _ h => Table.find?_insert_of_find? h, (Grows.refl d).idempotency, fun _ _ h => h⟩
  | insertIdempotency row => exact ⟨rfl, (Grows.refl d).reservation, fun _ _ h => h,
      fun _ r h => ⟨r, Table.find?_insert_of_find? h, rfl⟩, fun _ _ h => h⟩
  | touchIdempotency key requestId =>
    refine ⟨rfl, (Grows.refl d).reservation, fun _ _ h => h, fun j r hr => ?_, fun _ _ h => h⟩
    simp only [write, Table.find?_modify, hr]
    refine ⟨_, rfl, ?_⟩
    by_cases hk : r.key = key <;> simp [hk, IdempotencyRow.touch]
  | insertOutbox message => exact ⟨rfl, (Grows.refl d).reservation, fun _ _ h => h,
      (Grows.refl d).idempotency, fun _ _ h => Table.find?_insert_of_find? h⟩

/-! ## The laws of a store with locks -/

theorem look_write_of_not_mem {w : Write} {k : Key} (h : k ∉ w.keys) (d : WalletDb) :
    look k (write w d) = look k d := by
  cases w with
  | setCollateral row =>
    cases k with
    | collateral key =>
      have hk : key ≠ row.key := by simpa [Write.keys] using h
      simp [look, write, hk]
    | _ => rfl
  | insertReservation row =>
    cases k with
    | reservation id =>
      have hk : id ≠ row.reservationId := by simpa [Write.keys] using h
      simp [look, write, find?_addReservation, hk]
    | reservationIdempotency key =>
      have hk : row.idempotency ≠ key := by simpa [Write.keys, eq_comm] using h
      simp [look, write, reservationKeyTaken_addReservation, hk]
    | _ => simp [look, write]
  | setReservation id remaining status =>
    cases k with
    | reservation j =>
      have hk : j ≠ id := by simpa [Write.keys] using h
      simp [look, write, find?_updateReservation, hk]
    | reservationIdempotency key => simp [look, write]
    | _ => rfl
  | insertLedger row =>
    cases k with
    | ledger key =>
      have hk : key ≠ row.key := by simpa [Write.keys] using h
      simp [look, write, hk]
    | _ => rfl
  | insertIdempotency row =>
    cases k with
    | idempotency key =>
      have hk : key ≠ row.key := by simpa [Write.keys] using h
      simp [look, write, hk]
    | _ => rfl
  | touchIdempotency key requestId =>
    cases k with
    | idempotency j =>
      have hk : j ≠ key := by simpa [Write.keys] using h
      simp [look, write, hk]
    | _ => rfl
  | insertOutbox message =>
    cases k with
    | outbox key =>
      have hk : key ≠ message.dedupeKey := by simpa [Write.keys] using h
      simp [look, write, hk]
    | _ => rfl

theorem look_write {w : Write} {d d' : WalletDb} (h : ∀ k ∈ w.keys, look k d = look k d') :
    ∀ k ∈ w.keys, look k (write w d) = look k (write w d') := by
  intro k hk
  cases w with
  | setCollateral row =>
    -- The new row takes the place of whatever was there.
    cases List.mem_singleton.1 hk
    simp [look, write, Table.find?_upsert_self]
  | insertReservation row =>
    have hid : d.walletReservations.find? row.reservationId =
        d'.walletReservations.find? row.reservationId := by
      simpa [look] using h (.reservation row.reservationId) (by simp [Write.keys])
    have hkey : d.reservationKeyTaken row.idempotency = d'.reservationKeyTaken row.idempotency := by
      simpa [look] using h (.reservationIdempotency row.idempotency) (by simp [Write.keys])
    have hadm : d.Admits row ↔ d'.Admits row := by
      rw [Admits, Admits, hid, hkey]
    simp only [Write.keys, List.mem_cons, List.not_mem_nil, or_false] at hk
    rcases hk with rfl | rfl
    · simp only [look, write, find?_addReservation, hid, hadm]
    · simp only [look, write, reservationKeyTaken_addReservation, hkey, hadm]
  | setReservation id remaining status =>
    cases List.mem_singleton.1 hk
    have hid : d.walletReservations.find? id = d'.walletReservations.find? id := by
      simpa [look] using h (.reservation id) (by simp [Write.keys])
    simp only [look, write, find?_updateReservation, hid]
  | insertLedger row =>
    cases List.mem_singleton.1 hk
    have hid : d.walletLedger.find? row.key = d'.walletLedger.find? row.key := by
      simpa [look] using h (.ledger row.key) (by simp [Write.keys])
    simp only [look, write, Table.find?_insert, hid]
  | insertIdempotency row =>
    cases List.mem_singleton.1 hk
    have hid : d.walletIdempotency.find? row.key = d'.walletIdempotency.find? row.key := by
      simpa [look] using h (.idempotency row.key) (by simp [Write.keys])
    simp only [look, write, Table.find?_insert, hid]
  | touchIdempotency key requestId =>
    cases List.mem_singleton.1 hk
    have hid : d.walletIdempotency.find? key = d'.walletIdempotency.find? key := by
      simpa [look] using h (.idempotency key) (by simp [Write.keys])
    simp only [look, write, Table.find?_modify, hid]
  | insertOutbox message =>
    cases List.mem_singleton.1 hk
    have hid : d.walletOutbox.find? message.dedupeKey = d'.walletOutbox.find? message.dedupeKey := by
      simpa [look] using h (.outbox message.dedupeKey) (by simp [Write.keys])
    simp only [look, write, Table.find?_insert, hid]

private theorem look_write_cases {w : Write} {d d' : WalletDb}
    (h : ∀ k ∈ w.keys, look k d = look k d') (k : Key) :
    look k (write w d) = look k (write w d') ∨
      look k (write w d) = look k d ∧ look k (write w d') = look k d' := by
  by_cases hk : k ∈ w.keys
  · exact .inl (look_write h k hk)
  · exact .inr ⟨look_write_of_not_mem hk d, look_write_of_not_mem hk d'⟩

@[simp] theorem users_write (w : Write) (d : WalletDb) : (write w d).users = d.users :=
  (grows_write w d).users

theorem Grows.write {w : Write} {d d' : WalletDb} (hd : Grows d d')
    (h : ∀ k ∈ w.keys, look k d = look k d') : Grows (write w d) (write w d') where
  users := by rw [users_write, users_write, hd.users]
  reservation id row hr := by
    rcases look_write_cases h (.reservation id) with he | ⟨he, he'⟩ <;>
      simp only [look, Entry.reservation.injEq] at *
    · exact ⟨row, he.symm.trans hr, .refl row⟩
    · rw [he']
      exact hd.reservation id row (he.symm.trans hr)
  ledger key row hr := by
    rcases look_write_cases h (.ledger key) with he | ⟨he, he'⟩ <;>
      simp only [look, Entry.ledger.injEq] at *
    · exact he.symm.trans hr
    · exact he'.trans (hd.ledger key row (he.symm.trans hr))
  idempotency key row hr := by
    rcases look_write_cases h (.idempotency key) with he | ⟨he, he'⟩ <;>
      simp only [look, Entry.idempotency.injEq] at *
    · exact ⟨row, he.symm.trans hr, rfl⟩
    · rw [he']
      exact hd.idempotency key row (he.symm.trans hr)
  outbox key message hm := by
    rcases look_write_cases h (.outbox key) with he | ⟨he, he'⟩ <;>
      simp only [look, Entry.outbox.injEq] at *
    · exact he.symm.trans hm
    · exact he'.trans (hd.outbox key message (he.symm.trans hm))

end WalletDb

/-- A statement that writes depends only on the keys it locks. -/
theorem Stmt.exec_congr {β : Type} {s : Stmt β} {v v' : WalletDb} {b : β} {ws : List Write}
    (h : s.exec v = .ok (b, ws)) (hws : ws ≠ []) (hle : WalletDb.Grows v v')
    (hk : ∀ w ∈ ws, ∀ k ∈ w.keys, WalletDb.look k v = WalletDb.look k v') :
    s.exec v' = .ok (b, ws) := by
  -- A statement reads its own row only, and it locks that by writing it.
  have collateral : ∀ {row : CollateralRow} {key}, row.key = key → ws = [.setCollateral row] →
      v.userCollaterals.find? key = v'.userCollaterals.find? key := by
    rintro row key rfl rfl
    simpa [Write.keys, WalletDb.look] using hk
  have ledger : ∀ {row : LedgerRow}, ws = [.insertLedger row] →
      v.walletLedger.find? row.key = v'.walletLedger.find? row.key := by
    rintro row rfl
    simpa [Write.keys, WalletDb.look] using hk
  cases s with
  | getIdempotentReply | selectCollateral | selectReservation | outboxDuplicateMatches =>
    -- A query writes nothing.
    cases h
    exact absurd rfl hws
  | updateCollateral update userId asset amount =>
    rcases execUpdateCollateral_ok h with ⟨-, hnil, -⟩ | ⟨old, row, hold, -, hkey, -, -, -, hrow⟩
    · exact absurd hnil hws
    · have hfind := collateral (hkey.trans (Relational.Table.key_of_find? hold)) hrow
      simp only [exec] at h ⊢
      rwa [← hfind]
  | creditCollateral userId asset amount =>
    obtain ⟨-, -, row, hkey, -, -, -, hrow⟩ := execCreditCollateral_ok h
    simp only [exec] at h ⊢
    rwa [← collateral hkey hrow, hle.users]
  | applyDelta userId asset totalDelta lockedDelta =>
    rcases execApplyDelta_ok h with ⟨-, hnil⟩ | ⟨-, -, -, row, hkey, -, -, -, hrow⟩
    · exact absurd hnil hws
    · simp only [exec] at h ⊢
      rwa [← collateral hkey hrow, hle.users]
  | insertReservation reservationId userId asset amount idempotencyKey requestId =>
    obtain ⟨-, -, -, row, rfl, rfl, rfl, rfl, -, -, rfl, rfl, rfl⟩ := execInsertReservation_ok h
    have hid : v.walletReservations.find? row.reservationId =
        v'.walletReservations.find? row.reservationId := by
      simpa [WalletDb.look] using hk _ List.mem_cons_self (.reservation row.reservationId)
        (by simp [Write.keys])
    -- The unique index over user and idempotency key is read as well.
    have hkey : v.reservationKeyTaken row.idempotency = v'.reservationKeyTaken row.idempotency := by
      simpa [WalletDb.look] using hk _ List.mem_cons_self (.reservationIdempotency row.idempotency)
        (by simp [Write.keys])
    simp only [exec] at h ⊢
    change v.reservationKeyTaken (row.userId, row.idempotencyKey) =
      v'.reservationKeyTaken (row.userId, row.idempotencyKey) at hkey
    rwa [← hid, hle.users, ← hkey]
  | updateReservation reservationId remaining status =>
    obtain ⟨row, hrow, -, -, -, rfl⟩ := execUpdateReservation_ok h
    have hid : v.walletReservations.find? row.reservationId =
        v'.walletReservations.find? row.reservationId := by
      simpa [Write.keys, WalletDb.look] using hk
    rw [Relational.Table.key_of_find? hrow] at hid
    simp only [exec] at h ⊢
    rwa [← hid]
  | insertLedger row =>
    simp only [exec] at h ⊢
    split at h
    · cases h
    · split at h
      · cases h
        rw [← ledger rfl, if_neg ‹_›, hle.users, if_pos ‹_›]
      · cases h
  | insertLedgerOnce row =>
    simp only [exec] at h ⊢
    split at h
    · cases h
      exact absurd rfl hws
    · split at h
      · cases h
        rw [← ledger rfl, if_neg ‹_›, hle.users, if_pos ‹_›]
      · cases h
  | recordIdempotentReply row =>
    have hfind : v.walletIdempotency.find? row.key = v'.walletIdempotency.find? row.key := by
      rcases execRecordIdempotentReply_ok h with ⟨old, hold, rfl⟩ | ⟨-, -, rfl⟩
      · rw [← Relational.Table.key_of_find? hold]
        simpa [Write.keys, WalletDb.look] using hk
      · simpa [Write.keys, WalletDb.look] using hk
    simp only [exec] at h ⊢
    rwa [← hfind, hle.users]
  | enqueueOutboxMessage message =>
    rcases execEnqueueOutboxMessage_ok h with ⟨-, hnil, -⟩ | ⟨-, rfl, -⟩
    · exact absurd hnil hws
    · have hfind : v.walletOutbox.find? message.dedupeKey =
          v'.walletOutbox.find? message.dedupeKey := by
        simpa [Write.keys, WalletDb.look] using hk
      simp only [exec] at h ⊢
      rwa [← hfind]

instance : Locking Stmt WalletDb Write WalletRepositoryError Key Entry where
  write := WalletDb.write
  exec := Stmt.exec
  keys := Write.keys
  look := WalletDb.look
  le := WalletDb.Grows
  le_refl := WalletDb.Grows.refl
  le_trans := WalletDb.Grows.trans
  le_write := WalletDb.grows_write
  write_mono := WalletDb.Grows.write
  look_write_of_not_mem := WalletDb.look_write_of_not_mem
  look_write := WalletDb.look_write
  exec_congr := Stmt.exec_congr

@[simp] theorem store_write (w : Write) (d : WalletDb) :
    Store.write Stmt w d = WalletDb.write w d := rfl

@[simp] theorem store_exec {β : Type} (s : Stmt β) (d : WalletDb) :
    Store.exec s d = s.exec d := rfl

/-! ## Views -/

/-- What a transaction with these writes sees of the database. -/
abbrev view (ws : List Write) (d : WalletDb) : WalletDb := Store.applyAll Stmt ws d

theorem view_cons (w : Write) (ws : List Write) (d : WalletDb) :
    view (w :: ws) d = view ws (WalletDb.write w d) := rfl

theorem view_append (ws ws' : List Write) (d : WalletDb) :
    view (ws ++ ws') d = view ws' (view ws d) := Store.applyAll_append ws ws' d

/-- The table a write changes. -/
inductive TableName
  | userCollaterals | walletReservations | walletLedger | walletIdempotency | walletOutbox
  deriving DecidableEq

def Write.table : Write → TableName
  | setCollateral _ => .userCollaterals
  | insertReservation _ | setReservation .. => .walletReservations
  | insertLedger _ => .walletLedger
  | insertIdempotency _ | touchIdempotency .. => .walletIdempotency
  | insertOutbox _ => .walletOutbox

namespace Write

@[simp] theorem table_setCollateral (row : CollateralRow) :
    (setCollateral row).table = .userCollaterals := rfl

@[simp] theorem table_insertReservation (row : ReservationRow) :
    (insertReservation row).table = .walletReservations := rfl

@[simp] theorem table_setReservation (reservationId : String) (remaining : ℤ)
    (status : ReservationStatus) :
    (setReservation reservationId remaining status).table = .walletReservations := rfl

@[simp] theorem table_insertLedger (row : LedgerRow) : (insertLedger row).table = .walletLedger :=
  rfl

@[simp] theorem table_insertOutbox (message : NewWalletOutboxMessage) :
    (insertOutbox message).table = .walletOutbox := rfl

end Write

section Frame

variable {ws : List Write} (d : WalletDb)

/-- What no single write changes, no list of them changes. -/
private theorem view_frame {α : Type} {f : WalletDb → α} {t : TableName}
    (hw : ∀ w d, Write.table w ≠ t → f (WalletDb.write w d) = f d) (h : ∀ w ∈ ws, w.table ≠ t) :
    f (view ws d) = f d := by
  induction ws generalizing d with
  | nil => rfl
  | cons w ws ih =>
    rw [view, Store.applyAll_cons, store_write, ih _ fun x hx => h x (List.mem_cons_of_mem _ hx),
      hw w d (h w List.mem_cons_self)]

theorem userCollaterals_view (h : ∀ w ∈ ws, w.table ≠ .userCollaterals) :
    (view ws d).userCollaterals = d.userCollaterals := by
  refine view_frame d (fun w d hw => ?_) h
  cases w <;> first | exact absurd rfl hw | simp [WalletDb.write, WalletDb.updateReservation]

theorem walletReservations_view (h : ∀ w ∈ ws, w.table ≠ .walletReservations) :
    (view ws d).walletReservations = d.walletReservations := by
  refine view_frame d (fun w d hw => ?_) h
  cases w <;> first | exact absurd rfl hw | rfl

theorem walletLedger_view (h : ∀ w ∈ ws, w.table ≠ .walletLedger) :
    (view ws d).walletLedger = d.walletLedger := by
  refine view_frame d (fun w d hw => ?_) h
  cases w <;> first | exact absurd rfl hw | simp [WalletDb.write, WalletDb.updateReservation]

theorem walletIdempotency_view (h : ∀ w ∈ ws, w.table ≠ .walletIdempotency) :
    (view ws d).walletIdempotency = d.walletIdempotency := by
  refine view_frame d (fun w d hw => ?_) h
  cases w <;> first | exact absurd rfl hw | simp [WalletDb.write, WalletDb.updateReservation]

theorem walletOutbox_view (h : ∀ w ∈ ws, w.table ≠ .walletOutbox) :
    (view ws d).walletOutbox = d.walletOutbox := by
  refine view_frame d (fun w d hw => ?_) h
  cases w <;> first | exact absurd rfl hw | simp [WalletDb.write, WalletDb.updateReservation]

theorem walletReservations_write_congr {d d' : WalletDb}
    (h : d'.walletReservations = d.walletReservations) (w : Write) :
    (WalletDb.write w d').walletReservations = (WalletDb.write w d).walletReservations := by
  cases w with
  | insertReservation row =>
    have hadm : d'.Admits row ↔ d.Admits row := by
      rw [WalletDb.Admits, WalletDb.Admits, WalletDb.reservationKeyTaken,
        WalletDb.reservationKeyTaken, h]
    by_cases hrow : d.Admits row
    · rw [WalletDb.write, WalletDb.write, WalletDb.walletReservations_addReservation hrow,
        WalletDb.walletReservations_addReservation (hadm.2 hrow), h]
    · rw [WalletDb.write, WalletDb.write, WalletDb.addReservation_of_not_admits hrow,
        WalletDb.addReservation_of_not_admits (mt hadm.1 hrow), h]
  | setReservation id remaining status =>
    simp only [WalletDb.write, WalletDb.updateReservation, h]
  | _ => exact h

/-- One write of a reservation between writes of other tables. -/
theorem walletReservations_view_single {before after : List Write} (w : Write)
    (hbefore : ∀ w ∈ before, w.table ≠ .walletReservations)
    (hafter : ∀ w ∈ after, w.table ≠ .walletReservations) :
    (view (before ++ w :: after) d).walletReservations =
      (WalletDb.write w d).walletReservations := by
  rw [view, Store.applyAll_append, Store.applyAll_cons, store_write]
  rw [walletReservations_view _ hafter]
  exact walletReservations_write_congr (walletReservations_view d hbefore) w

theorem grows_view (ws : List Write) : WalletDb.Grows d (view ws d) :=
  (Locking.le_applyAll ws d : Locking.le Stmt d (view ws d))

@[simp] theorem users_view (ws : List Write) : (view ws d).users = d.users :=
  (grows_view d ws).users

/-- What one write of a transaction stores for good is stored afterwards. -/
private theorem isSome_of_mem {α : Type} {f : WalletDb → Option α} {w : Write} {ws : List Write}
    (h : w ∈ ws) (hgrows : ∀ {d d'}, WalletDb.Grows d d' → (f d).isSome → (f d').isSome)
    (hwrite : ∀ d, (f (WalletDb.write w d)).isSome) (d : WalletDb) : (f (view ws d)).isSome := by
  induction ws generalizing d with
  | nil => cases h
  | cons w' ws ih =>
    rw [view_cons]
    rcases List.mem_cons.1 h with rfl | h
    · exact hgrows (grows_view _ ws) (hwrite d)
    · exact ih h _

theorem isSome_idempotency_of_mem {ws : List Write} {row : IdempotencyRow}
    (h : .insertIdempotency row ∈ ws) (d : WalletDb) :
    ((view ws d).walletIdempotency.find? row.key).isSome :=
  isSome_of_mem (f := fun d => d.walletIdempotency.find? row.key) h (fun hgrows => hgrows.isSome_idempotency)
    (fun d => d.walletIdempotency.isSome_find?_insert row) d

theorem isSome_ledger_of_mem {ws : List Write} {row : LedgerRow} (h : .insertLedger row ∈ ws)
    (d : WalletDb) : ((view ws d).walletLedger.find? row.key).isSome :=
  isSome_of_mem (f := fun d => d.walletLedger.find? row.key) h (fun hgrows => hgrows.isSome_ledger)
    (fun d => d.walletLedger.isSome_find?_insert row) d

theorem isSome_outbox_of_mem {ws : List Write} {message : NewWalletOutboxMessage}
    (h : .insertOutbox message ∈ ws) (d : WalletDb) :
    ((view ws d).walletOutbox.find? message.dedupeKey).isSome :=
  isSome_of_mem (f := fun d => d.walletOutbox.find? message.dedupeKey) h (fun hgrows => hgrows.isSome_outbox)
    (fun d => d.walletOutbox.isSome_find?_insert message) d

/-- A row of the ledger was there or is among the writes. -/
theorem mem_ledger_view {ws : List Write} {d : WalletDb} {row : LedgerRow}
    (h : row ∈ (view ws d).walletLedger.rows) :
    row ∈ d.walletLedger.rows ∨ .insertLedger row ∈ ws := by
  induction ws generalizing d with
  | nil => exact .inl h
  | cons w ws ih =>
    rw [view_cons] at h
    rcases ih h with h | h
    · cases w with
      | insertLedger row' =>
        rcases Table.mem_insert_cases h with h | rfl
        · exact .inl h
        · exact .inr List.mem_cons_self
      | insertReservation row' => exact .inl (by simpa [WalletDb.write] using h)
      | _ => exact .inl h
    · exact .inr (List.mem_cons_of_mem _ h)

/-- A message in the outbox was there or is among the writes. -/
theorem mem_outbox_view {ws : List Write} {d : WalletDb} {message : NewWalletOutboxMessage}
    (h : message ∈ (view ws d).walletOutbox.rows) :
    message ∈ d.walletOutbox.rows ∨ .insertOutbox message ∈ ws := by
  induction ws generalizing d with
  | nil => exact .inl h
  | cons w ws ih =>
    rw [view_cons] at h
    rcases ih h with h | h
    · cases w with
      | insertOutbox message' =>
        rcases Table.mem_insert_cases h with h | rfl
        · exact .inl h
        · exact .inr List.mem_cons_self
      | insertReservation row' => exact .inl (by simpa [WalletDb.write] using h)
      | _ => exact .inl h
    · exact .inr (List.mem_cons_of_mem _ h)

/-- A stored reply was there or is among the writes. -/
theorem find?_idempotency_view {ws : List Write} {d : WalletDb} {key : ℤ × String × String}
    {row : IdempotencyRow} (h : (view ws d).walletIdempotency.find? key = some row) :
    (∃ old, d.walletIdempotency.find? key = some old ∧ old.replyPayload = row.replyPayload) ∨
      d.walletIdempotency.find? key = none ∧ ∃ added, .insertIdempotency added ∈ ws ∧
        added.key = key ∧ added.replyPayload = row.replyPayload := by
  induction ws generalizing d with
  | nil => exact .inl ⟨row, h, rfl⟩
  | cons w ws ih =>
    rw [view_cons] at h
    rcases ih h with ⟨old, hold, hsame⟩ | ⟨hnone, added, hadded, hkey, hsame⟩
    · cases w with
      | insertIdempotency added =>
        rw [WalletDb.write, Table.find?_insert] at hold
        split at hold
        · next hfree =>
          cases hold
          refine .inr ⟨?_, old, List.mem_cons_self, hfree.2.symm, hsame⟩
          rw [hfree.2]
          exact hfree.1
        · exact .inl ⟨old, hold, hsame⟩
      | touchIdempotency key' requestId =>
        rw [WalletDb.write, Table.find?_modify, Option.map_eq_some_iff] at hold
        obtain ⟨before, hbefore, rfl⟩ := hold
        refine .inl ⟨before, hbefore, ?_⟩
        rw [← hsame]
        split <;> rfl
      | insertReservation row' => exact .inl ⟨old, by simpa [WalletDb.write] using hold, hsame⟩
      | _ => exact .inl ⟨old, hold, hsame⟩
    · refine .inr ⟨?_, added, List.mem_cons_of_mem _ hadded, hkey, hsame⟩
      rw [← Option.not_isSome_iff_eq_none]
      intro hsome
      have hlater := (WalletDb.grows_write w d).isSome_idempotency hsome
      rw [hnone] at hlater
      cases hlater

/-- A reservation is an order that was there or is among the writes. -/
theorem mem_reservations_view {ws : List Write} {d : WalletDb} {row : ReservationRow}
    (h : row ∈ (view ws d).walletReservations.rows) :
    (∃ before ∈ d.walletReservations.rows, row.SameOrder before) ∨
      ∃ added, .insertReservation added ∈ ws ∧ row.SameOrder added := by
  induction ws generalizing d with
  | nil => exact .inl ⟨row, h, .refl row⟩
  | cons w ws ih =>
    rw [view_cons] at h
    rcases ih h with ⟨before, hbefore, hsame⟩ | ⟨added, hadded, hsame⟩
    · cases w with
      | insertReservation added =>
        by_cases hadm : d.Admits added
        · rw [WalletDb.write, WalletDb.walletReservations_addReservation hadm] at hbefore
          rcases Table.mem_insert_cases hbefore with hbefore | rfl
          · exact .inl ⟨before, hbefore, hsame⟩
          · exact .inr ⟨before, List.mem_cons_self, hsame⟩
        · rw [WalletDb.write, WalletDb.addReservation_of_not_admits hadm] at hbefore
          exact .inl ⟨before, hbefore, hsame⟩
      | setReservation id remaining status =>
        obtain ⟨old, hold, rfl⟩ := WalletDb.mem_updateReservation.1 hbefore
        refine .inl ⟨old, hold, ?_⟩
        split at hsame
        · exact hsame.trans (old.sameOrder_update remaining status)
        · exact hsame
      | _ => exact .inl ⟨before, hbefore, hsame⟩
    · exact .inr ⟨added, List.mem_cons_of_mem _ hadded, hsame⟩

end Frame

end Wallet
