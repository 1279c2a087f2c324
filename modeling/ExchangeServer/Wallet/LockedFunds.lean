import ExchangeServer.Wallet.Balances

/-!
# Locked funds are the outstanding reservations

The invariant behind every release and settlement: what is locked of a user in
an asset is what the user's reservations still hold, and what account deltas
have locked on top. It makes the guarded updates of release and settlement
match a row whenever the checks before them pass.
-/

namespace Wallet

open Protocol Relational Transactional

/-- What the reservations of a user in an asset still hold. -/
def outstanding (d : WalletDb) (userId : ℤ) (asset : Asset) : ℤ :=
  d.walletReservations.sum fun row => amountAt row.userId row.asset row.remaining userId asset

/-- What an event of an applied account delta locks. -/
def deltaLocked (userId : ℤ) (asset : Asset) : WalletEvent → ℤ
  | .accountDeltaApplied event => amountAt event.userId event.asset event.lockedDelta userId asset
  | _ => 0

section Events

variable (u : ℤ) (a : Asset) (eventId : String)

@[simp] theorem deltaLocked_depositApplied (deposit : Deposit) (balance : BalanceUpdated) :
    deltaLocked u a (depositAppliedEvent eventId deposit balance) = 0 := rfl

@[simp] theorem deltaLocked_withdrawalApplied (withdraw : Withdraw) (balance : BalanceUpdated) :
    deltaLocked u a (withdrawalAppliedEvent eventId withdraw balance) = 0 := rfl

@[simp] theorem deltaLocked_fundsReserved (intent : PlaceOrderIntent) (reserved : FundsReserved) :
    deltaLocked u a (fundsReservedEvent eventId intent reserved) = 0 := rfl

@[simp] theorem deltaLocked_fundsReleased (release : ReleaseReservation)
    (reservation : ReservationRecord) :
    deltaLocked u a (fundsReleasedEvent eventId release reservation) = 0 := rfl

@[simp] theorem deltaLocked_tradeSettled (settle : SettleTrade) (reservation : ReservationRecord) :
    deltaLocked u a (tradeSettledEvent eventId settle reservation) = 0 := rfl

@[simp] theorem deltaLocked_accountDeltaApplied (delta : ApplyAccountDelta)
    (balance : BalanceSnapshot) :
    deltaLocked u a (accountDeltaAppliedEvent eventId delta balance) =
      amountAt delta.userId delta.asset delta.lockedDelta u a := rfl

end Events

/-- What the events of a transaction lock by account deltas. -/
def eventDeltaLocked (events : List WalletEvent) (userId : ℤ) (asset : Asset) : ℤ :=
  (events.map (deltaLocked userId asset)).sum

/-- Sum of `locked_delta` over the account deltas that a run commits. -/
def WalletProcessor.committedLockedDelta (self : WalletProcessor) (userId : ℤ) (asset : Asset) :
    List WalletTx → WalletDb → ℤ
  | [], _ => 0
  | tx :: txs, d =>
    (match (self.execute tx d).1 with
      | .ok events => eventDeltaLocked events userId asset
      | .error _ => 0) +
      self.committedLockedDelta userId asset txs (self.execute tx d).2

/-- Locked funds are the outstanding reservations and the given deltas. -/
structure Backed (d : WalletDb) (deltas : ℤ → Asset → ℤ) : Prop where
  locked : ∀ u a, d.locked u a = outstanding d u a + deltas u a
  deltas_nonneg : ∀ u a, 0 ≤ deltas u a
  active : ∀ row ∈ d.walletReservations.rows, row.status = .ACTIVE ↔ 0 < row.remaining

theorem amountAt_nonneg {userId : ℤ} {asset : Asset} {amount : ℤ} (h : 0 ≤ amount) (u : ℤ)
    (a : Asset) : 0 ≤ amountAt userId asset amount u a := by
  unfold amountAt
  split
  · exact h
  · exact le_rfl

theorem remaining_le_outstanding {d : WalletDb} {row : ReservationRow}
    (h : row ∈ d.walletReservations.rows) : row.remaining ≤ outstanding d row.userId row.asset := by
  have hself : amountAt row.userId row.asset row.remaining row.userId row.asset = row.remaining :=
    if_pos ⟨rfl, rfl⟩
  calc row.remaining
      = amountAt row.userId row.asset row.remaining row.userId row.asset := hself.symm
    _ ≤ outstanding d row.userId row.asset :=
      Table.le_sum (fun r => amountAt r.userId r.asset r.remaining row.userId row.asset)
        (fun r _ => amountAt_nonneg r.checks.2.1 _ _) h

theorem Backed.covered {d : WalletDb} {deltas : ℤ → Asset → ℤ} (h : Backed d deltas) :
    Covered d := by
  intro row hrow _
  have hle := remaining_le_outstanding hrow
  have hdelta := h.deltas_nonneg row.userId row.asset
  rw [h.locked]
  omega

theorem backed_empty (users : List ℤ) : Backed (.empty users) fun _ _ => 0 where
  locked _ _ := rfl
  deltas_nonneg _ _ := le_rfl
  active _ h := (nomatch h)

/-! ## Writes of reservations -/

section Reservations

variable {d : WalletDb}

theorem outstanding_addReservation {row : ReservationRow} (h : d.Admits row) (u : ℤ) (a : Asset) :
    outstanding (d.addReservation row) u a =
      outstanding d u a + amountAt row.userId row.asset row.remaining u a := by
  rw [outstanding, WalletDb.walletReservations_addReservation h, Table.sum_insert h.1]
  rfl

theorem ReservationRow.update_of_le {row : ReservationRow} {remaining : ℤ}
    (h : 0 ≤ remaining ∧ remaining ≤ row.amount) (status : ReservationStatus) :
    (row.update remaining status).remaining = remaining ∧
      (row.update remaining status).status = status := by
  unfold update
  rw [dif_pos h]
  exact ⟨rfl, rfl⟩

theorem outstanding_updateReservation {reservationId : String} {remaining : ℤ}
    {now : ReservationRow} (h : Reduces d reservationId remaining now)
    (status : ReservationStatus) (u : ℤ) (a : Asset) :
    outstanding (d.updateReservation reservationId remaining status) u a =
      outstanding d u a + amountAt now.userId now.asset (remaining - now.remaining) u a := by
  obtain ⟨-, huser, hasset, -⟩ := now.sameOrder_update remaining status
  have hremaining := (now.update_of_le ⟨h.nonneg, h.le_amount⟩ status).1
  rw [outstanding, WalletDb.updateReservation, Table.sum_modify _ h.found, huser, hasset, hremaining,
    outstanding]
  unfold amountAt
  split <;> omega

/-- The new version of a reservation after all writes of a transaction. -/
theorem Reduces.find?_view {reservationId : String} {remaining : ℤ} {now : ReservationRow}
    (h : Reduces d reservationId remaining now) {before after : List Write}
    (hbefore : ∀ w ∈ before, w.table ≠ .walletReservations)
    (hafter : ∀ w ∈ after, w.table ≠ .walletReservations) {status : ReservationStatus} :
    (view (before ++ .setReservation reservationId remaining status :: after)
      d).walletReservations.find? reservationId = some (now.update remaining status) := by
  rw [walletReservations_view_single d _ hbefore hafter, WalletDb.write,
    WalletDb.find?_updateReservation, if_pos rfl, h.found]
  rfl

theorem active_addReservation {row : ReservationRow} (hrow : row.status = .ACTIVE ↔ 0 < row.remaining)
    (h : ∀ r ∈ d.walletReservations.rows, r.status = .ACTIVE ↔ 0 < r.remaining) :
    ∀ r ∈ (d.addReservation row).walletReservations.rows, r.status = .ACTIVE ↔ 0 < r.remaining := by
  by_cases hadm : d.Admits row
  · rw [WalletDb.walletReservations_addReservation hadm]
    intro r hr
    rcases (Table.mem_insert hadm.1).1 hr with hr | rfl
    · exact h r hr
    · exact hrow
  · rwa [WalletDb.addReservation_of_not_admits hadm]

theorem active_updateReservation {reservationId : String} {remaining : ℤ} {now : ReservationRow}
    {status : ReservationStatus} (hred : Reduces d reservationId remaining now)
    (hstatus : status = .ACTIVE ↔ 0 < remaining)
    (h : ∀ r ∈ d.walletReservations.rows, r.status = .ACTIVE ↔ 0 < r.remaining) :
    ∀ r ∈ (d.updateReservation reservationId remaining status).walletReservations.rows,
      r.status = .ACTIVE ↔ 0 < r.remaining := by
  intro r' hr'
  obtain ⟨r, hr, rfl⟩ := WalletDb.mem_updateReservation.1 hr'
  split
  · next hid =>
    have hnow : r = now := by
      have hfind := Table.find?_of_mem hr
      rw [hid, hred.found] at hfind
      exact (Option.some.inj hfind).symm
    subst hnow
    obtain ⟨h₁, h₂⟩ := r.update_of_le ⟨hred.nonneg, hred.le_amount⟩ status
    rw [h₁, h₂]
    exact hstatus
  · exact h r hr

end Reservations

/-! ## One transaction -/

section Step

variable {self : WalletProcessor} {d : WalletDb} {deltas : ℤ → Asset → ℤ} {tx : WalletTx}
  {events : List WalletEvent} {ws : List Write}

theorem Updates.not_reservations {R : WalletDb → WalletDb → Prop} {update : CollateralUpdate} {userId : ℤ} {asset : Asset}
    {amount : ℤ} (h : Updates R d update userId asset amount ws) :
    ∀ w ∈ ws, w.table ≠ .walletReservations := fun w hw => by
  rw [h.table w hw]
  decide

theorem SettlesCollateral.not_reservations {R : WalletDb → WalletDb → Prop} {userId : ℤ}
    {settle : SettleTrade} (h : SettlesCollateral R d userId settle ws) : ∀ w ∈ ws, w.table ≠ .walletReservations :=
  fun w hw => by
    rw [h.table w hw]
    decide

theorem Enqueues.not_reservations {outbox : Table NewWalletOutboxMessage.dedupeKey}
    {messages : List NewWalletOutboxMessage} (h : Enqueues outbox messages ws) :
    ∀ w ∈ ws, w.table ≠ .walletReservations := fun w hw => by
  rw [h.table w hw]
  decide

theorem append_cons_cons {ws ws' : List Write} {w w' : Write} :
    ws ++ w :: w' :: ws' = (ws ++ [w, w']) ++ ws' := by simp

/-- The write of a reservation in a commit, if there is one. -/
inductive ReservationChange (d : WalletDb) (events : List WalletEvent) :
    Table ReservationRow.reservationId → Prop
  | unchanged (h : ∀ u a, eventLocked events u a = eventDeltaLocked events u a) :
    ReservationChange d events d.walletReservations
  | added {row : ReservationRow} (hadm : d.Admits row) (hactive : row.status = .ACTIVE)
    (hremaining : row.remaining = row.amount)
    (h : ∀ u a, eventLocked events u a =
      amountAt row.userId row.asset row.remaining u a + eventDeltaLocked events u a) :
    ReservationChange d events (d.addReservation row).walletReservations
  | reduced {reservationId remaining now} {status : ReservationStatus}
    (hreduces : Reduces d reservationId remaining now)
    (hstatus : status = .ACTIVE ↔ remaining ≠ 0)
    (h : ∀ u a, eventLocked events u a =
      amountAt now.userId now.asset (remaining - now.remaining) u a + eventDeltaLocked events u a) :
    ReservationChange d events (d.updateReservation reservationId remaining status).walletReservations

theorem Committed.reservationChange (h : Committed self Eq d tx events ws) :
    ReservationChange d events (view ws d).walletReservations := by
  cases h with
  | deposit hcredit hledger hreply hout =>
    rw [walletReservations_view _ (by simp +contextual [hreply.table, hout.table])]
    exact .unchanged fun u a => by simp [eventLocked, eventDeltaLocked, delta_depositApplied]
  | withdraw hhit hledger hreply hout =>
    rw [walletReservations_view _ (by simp +contextual [hreply.table, hout.table])]
    exact .unchanged fun u a => by simp [eventLocked, eventDeltaLocked, delta_withdrawalApplied]
  | @reserve uuid intent old row reservation reply out hhit hreservation hfree hreply hout =>
    have hview : (view ([.setCollateral row] ++ .insertReservation reservation :: reply :: out)
        d).walletReservations = (d.addReservation reservation).walletReservations :=
      walletReservations_view_single d _ (by simp)
        (by simp +contextual [hreply.table, hout.table])
    rw [List.singleton_append] at hview
    rw [hview]
    refine .added hfree hreservation.status
      (hreservation.remaining.trans hreservation.amount.symm) fun u a => ?_
    simp [eventLocked, eventDeltaLocked, delta_fundsReserved, fundsReserved, hreservation.userId,
      hreservation.asset, hreservation.remaining]
  | release hv hread h =>
    rw [hv] at hread
    obtain ⟨balance, out, hbalance, hout, rfl⟩ := h.writes
    obtain rfl := Option.some.inj (hread.symm.trans h.reduces.found)
    rw [walletReservations_view_single d _ hbalance.not_reservations hout.not_reservations]
    refine .reduced h.reduces ?_ fun u a => ?_
    · split <;> simp_all
    · simp [eventLocked, eventDeltaLocked, delta_fundsReleased, reservationFromRow]
  | settle hv hread h =>
    rw [hv] at hread
    obtain ⟨balance, out, hbalance, hout, rfl⟩ := h.writes
    obtain rfl := Option.some.inj (hread.symm.trans h.reduces.found)
    obtain ⟨-, hasset, -, -⟩ := settleRejected_eq_false.1 h.accepted
    rw [append_cons_cons, walletReservations_view_single d _ (by simpa [or_imp, forall_and] using
      hbalance.not_reservations) hout.not_reservations]
    refine .reduced h.reduces ?_ fun u a => ?_
    · split <;> simp_all
    · simp [eventLocked, eventDeltaLocked, delta_tradeSettled, ← hasset, reservationFromRow]
  | accountDelta hnonzero hledger hsign hkey htotal hlocked hout =>
    rw [walletReservations_view _ (by simp +contextual [hout.table])]
    exact .unchanged fun u a => by simp [eventLocked, eventDeltaLocked, delta_accountDeltaApplied]
  | duplicateDelta => exact .unchanged fun u a => rfl
  | reply hreply =>
    rw [walletReservations_view _ (by simp [hreply.table])]
    exact .unchanged fun u a => rfl
  | cancel hreply hout =>
    rw [walletReservations_view _ (by simp +contextual [hreply.table, hout.table])]
    exact .unchanged fun u a => rfl

/-- Every commit moves the outstanding reservations as its events say, apart
from account deltas. -/
theorem Committed.outstanding (h : Committed self Eq d tx events ws) (u : ℤ) (a : Asset) :
    outstanding (view ws d) u a + eventDeltaLocked events u a =
      Wallet.outstanding d u a + eventLocked events u a := by
  have hchange := h.reservationChange
  rw [Wallet.outstanding]
  generalize (view ws d).walletReservations = reservations at hchange ⊢
  cases hchange with
  | unchanged h =>
    rw [h]
    rfl
  | added hadm _ _ h =>
    have hout := outstanding_addReservation hadm u a
    rw [Wallet.outstanding] at hout
    rw [hout, h]
    ring
  | @reduced _ _ _ status hreduces _ h =>
    have hout := outstanding_updateReservation hreduces status u a
    rw [Wallet.outstanding] at hout
    rw [hout, h]
    ring

theorem Committed.active (h : Committed self Eq d tx events ws)
    (hactive : ∀ row ∈ d.walletReservations.rows, row.status = .ACTIVE ↔ 0 < row.remaining) :
    ∀ row ∈ (view ws d).walletReservations.rows, row.status = .ACTIVE ↔ 0 < row.remaining := by
  have hchange := h.reservationChange
  generalize (view ws d).walletReservations = reservations at hchange ⊢
  cases hchange with
  | unchanged => exact hactive
  | @added row hadm hstatus hremaining _ =>
    have hpos := row.checks.1
    exact active_addReservation (by simp [hstatus, hremaining, hpos]) hactive
  | @reduced reservationId remaining now status hreduces hstatus _ =>
    have hnonneg := hreduces.nonneg
    refine active_updateReservation hreduces (hstatus.trans ?_) hactive
    omega

theorem Committed.deltas_nonneg (h : Committed self Eq d tx events ws) (u : ℤ) (a : Asset) :
    0 ≤ eventDeltaLocked events u a := by
  cases h with
  | accountDelta _ _ hsign =>
    simpa [eventDeltaLocked, accountDeltaAppliedEvent, deltaLocked] using
      amountAt_nonneg hsign.2.1 u a
  | _ => simp [eventDeltaLocked, deltaLocked, depositAppliedEvent, withdrawalAppliedEvent,
      fundsReservedEvent, fundsReleasedEvent, tradeSettledEvent]

theorem Backed.step (h : Backed d deltas) (hc : Committed self Eq d tx events ws) :
    Backed (view ws d) fun u a => deltas u a + eventDeltaLocked events u a where
  locked u a := by
    have hmoves := (hc.moves h.covered u a).2
    have hout := hc.outstanding u a
    have hlocked := h.locked u a
    omega
  deltas_nonneg u a := add_nonneg (h.deltas_nonneg u a) (hc.deltas_nonneg u a)
  active := hc.active h.active

end Step

/-! ## Runs -/

/-- After a run, locked funds are the outstanding reservations and the deltas
the run has committed. -/
theorem backed_runAll (self : WalletProcessor) (txs : List WalletTx) {d : WalletDb}
    {deltas : ℤ → Asset → ℤ} (h : Backed d deltas) :
    Backed (self.runAll txs d) fun u a => deltas u a + self.committedLockedDelta u a txs d := by
  induction txs generalizing d deltas with
  | nil =>
    simpa [WalletProcessor.runAll, WalletProcessor.committedLockedDelta] using h
  | cons tx txs ih =>
    simp only [WalletProcessor.runAll, WalletProcessor.committedLockedDelta]
    rcases self.execute_cases tx d with ⟨e, he⟩ | ⟨he, -⟩ | ⟨events, ws, hc, he⟩
    · simpa [he] using ih h
    · simpa [he, eventDeltaLocked] using ih h
    · simpa [he, add_assoc] using ih (h.step hc)

/-- A guarded update that changes exactly one row. -/
def MatchesOneRow (update : CollateralUpdate) (userId : ℤ) (asset : Asset) (amount : ℤ)
    (d : WalletDb) : Prop :=
  ∃ old row, d.userCollaterals.find? (userId, asset) = some old ∧ row.key = old.key ∧
    (Stmt.updateCollateral update userId asset amount).exec d =
      .ok (some row.snapshot, [.setCollateral row])

theorem matchesOneRow_of_locked {d : WalletDb} {update : CollateralUpdate}
    (hupdate : update = .unlock ∨ update = .debit) {userId : ℤ} {asset : Asset} {amount : ℤ}
    (hpos : 0 < amount) (hle : amount ≤ d.locked userId asset) :
    MatchesOneRow update userId asset amount d := by
  obtain ⟨old, hold, hadm⟩ := exists_admits hupdate hpos hle
  rw [WalletDb.locked_of_find? hold] at hle
  have hchecks := old.checks
  have hnew : 0 ≤ update.locked amount old ∧ update.locked amount old ≤ update.total amount old ∧
      update.total amount old ≤ i64Max := by
    rcases hupdate with rfl | rfl <;>
      simp only [CollateralUpdate.locked, CollateralUpdate.total] <;> omega
  refine ⟨old, ⟨old.userId, old.asset, _, _, hnew⟩, hold, rfl, ?_⟩
  simp [Stmt.exec, hold, execUpdateCollateral, hadm, storeCollateral, CollateralRow.build, hnew]

/-- The guarded update of a release or a settlement whose checks on the
reservation pass. -/
theorem Backed.matchesOneRow {d : WalletDb} {deltas : ℤ → Asset → ℤ} (h : Backed d deltas)
    {reservationId : String} {row : ReservationRow}
    (hrow : d.walletReservations.find? reservationId = some row) (hactive : row.status = .ACTIVE)
    {amount : ℤ} (hpos : 0 < amount) (hle : amount ≤ row.remaining) {update : CollateralUpdate}
    (hupdate : update = .unlock ∨ update = .debit) :
    MatchesOneRow update row.userId row.asset amount d :=
  matchesOneRow_of_locked hupdate hpos (h.covered.read hrow hactive hle)

theorem locked_funds_are_outstanding_reservations (self : WalletProcessor) (users : List ℤ)
    (txs : List WalletTx) :
    (∀ u a, 0 ≤ (self.runAll txs (.empty users)).locked u a ∧
      (self.runAll txs (.empty users)).locked u a ≤ (self.runAll txs (.empty users)).total u a) ∧
    (∀ u a, (self.runAll txs (.empty users)).locked u a =
      outstanding (self.runAll txs (.empty users)) u a +
        self.committedLockedDelta u a txs (.empty users)) ∧
    (∀ row ∈ (self.runAll txs (.empty users)).walletReservations.rows,
      0 ≤ row.remaining ∧ row.remaining ≤ row.amount ∧
        (row.status = .ACTIVE ↔ 0 < row.remaining)) ∧
    (∀ (release : ReleaseReservation) (row : ReservationRow),
      (self.runAll txs (.empty users)).walletReservations.find? release.reservationId = some row →
      releaseRejected (reservationFromRow row) release = false →
      MatchesOneRow .unlock row.userId row.asset release.amount (self.runAll txs (.empty users))) ∧
    ∀ (settle : SettleTrade) (row : ReservationRow),
      (self.runAll txs (.empty users)).walletReservations.find? settle.reservationId = some row →
      settleRejected (reservationFromRow row) settle = false →
      MatchesOneRow
        (if isSameAssetReservationConsumption settle then .unlock else .debit)
        row.userId settle.debitAsset settle.debitAmount (self.runAll txs (.empty users)) := by
  have hbacked := backed_runAll self txs (backed_empty users)
  simp only [zero_add] at hbacked
  refine ⟨fun u a => ?_, hbacked.locked, fun row hrow => ?_, ?_, ?_⟩
  · have hchecks := (self.runAll txs (.empty users)).balance_checks u a
    exact ⟨hchecks.1, hchecks.2.1⟩
  · exact ⟨row.checks.2.1, row.checks.2.2, hbacked.active row hrow⟩
  · intro release row hrow haccepted
    obtain ⟨hactive, hpos, hle⟩ := releaseRejected_eq_false.1 haccepted
    exact hbacked.matchesOneRow hrow hactive hpos hle (.inl rfl)
  · intro settle row hrow haccepted
    obtain ⟨hactive, hasset, hpos, hle⟩ := settleRejected_eq_false.1 haccepted
    rw [← hasset]
    refine hbacked.matchesOneRow hrow hactive hpos hle ?_
    split
    · exact .inl rfl
    · exact .inr rfl

end Wallet
