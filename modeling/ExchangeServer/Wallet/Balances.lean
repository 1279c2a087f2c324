import ExchangeServer.Ledger.Processor
import ExchangeServer.Wallet.Runs

/-!
# Balances move as the reported events say

For a transaction that runs alone, every change of `total` and `locked` is the
change that the ledger derives from the events the transaction reports. For a
release and a settlement this rests on their guarded update matching a row,
which holds as long as every active reservation is covered by locked funds.
-/

namespace Wallet

open Protocol Relational Transactional

namespace WalletDb

variable {d : WalletDb}

theorem total_of_find? {userId : ℤ} {asset : Asset} {row : CollateralRow}
    (h : d.userCollaterals.find? (userId, asset) = some row) : d.total userId asset = row.total := by
  rw [total, h]
  rfl

theorem locked_of_find? {userId : ℤ} {asset : Asset} {row : CollateralRow}
    (h : d.userCollaterals.find? (userId, asset) = some row) : d.locked userId asset = row.locked := by
  rw [locked, h]
  rfl

/-- The columns of a balance are ordered, stored or not. -/
theorem balance_checks (d : WalletDb) (userId : ℤ) (asset : Asset) :
    0 ≤ d.locked userId asset ∧ d.locked userId asset ≤ d.total userId asset ∧
      d.total userId asset ≤ i64Max := by
  cases h : d.userCollaterals.find? (userId, asset) with
  | none =>
    simp only [locked, total, h, Option.map_none, Option.getD_none]
    exact ⟨le_rfl, le_rfl, by decide⟩
  | some row =>
    rw [total_of_find? h, locked_of_find? h]
    exact row.checks

theorem total_congr {d' : WalletDb} (h : d.userCollaterals = d'.userCollaterals) (userId : ℤ)
    (asset : Asset) : d.total userId asset = d'.total userId asset := by
  rw [total, total, h]

theorem locked_congr {d' : WalletDb} (h : d.userCollaterals = d'.userCollaterals) (userId : ℤ)
    (asset : Asset) : d.locked userId asset = d'.locked userId asset := by
  rw [locked, locked, h]

theorem total_setCollateral {row : CollateralRow} {userId : ℤ} {asset : Asset} {δ : ℤ}
    (hkey : row.key = (userId, asset)) (h : row.total = d.total userId asset + δ) (u : ℤ)
    (a : Asset) : (write (.setCollateral row) d).total u a =
      d.total u a + if userId = u ∧ asset = a then δ else 0 := by
  have hfind : (write (.setCollateral row) d).userCollaterals.find? (u, a) =
      if (u, a) = (userId, asset) then some row else d.userCollaterals.find? (u, a) := by
    rw [← hkey]
    exact Table.find?_upsert (u, a)
  by_cases hua : userId = u ∧ asset = a
  · obtain ⟨rfl, rfl⟩ := hua
    rw [if_pos rfl] at hfind
    rw [total_of_find? hfind, h, if_pos ⟨rfl, rfl⟩]
  · have hne : ¬(u, a) = (userId, asset) := fun he =>
      hua ⟨(Prod.mk.inj he).1.symm, (Prod.mk.inj he).2.symm⟩
    rw [if_neg hne] at hfind
    rw [total, hfind, if_neg hua, add_zero]
    rfl

theorem locked_setCollateral {row : CollateralRow} {userId : ℤ} {asset : Asset} {δ : ℤ}
    (hkey : row.key = (userId, asset)) (h : row.locked = d.locked userId asset + δ) (u : ℤ)
    (a : Asset) : (write (.setCollateral row) d).locked u a =
      d.locked u a + if userId = u ∧ asset = a then δ else 0 := by
  have hfind : (write (.setCollateral row) d).userCollaterals.find? (u, a) =
      if (u, a) = (userId, asset) then some row else d.userCollaterals.find? (u, a) := by
    rw [← hkey]
    exact Table.find?_upsert (u, a)
  by_cases hua : userId = u ∧ asset = a
  · obtain ⟨rfl, rfl⟩ := hua
    rw [if_pos rfl] at hfind
    rw [locked_of_find? hfind, h, if_pos ⟨rfl, rfl⟩]
  · have hne : ¬(u, a) = (userId, asset) := fun he =>
      hua ⟨(Prod.mk.inj he).1.symm, (Prod.mk.inj he).2.symm⟩
    rw [if_neg hne] at hfind
    rw [locked, hfind, if_neg hua, add_zero]
    rfl

end WalletDb

/-! ## Guarded updates that match -/

/-- Every active reservation is covered by locked funds of its user. -/
def Covered (d : WalletDb) : Prop :=
  ∀ row ∈ d.walletReservations.rows, row.status = .ACTIVE →
    row.remaining ≤ d.locked row.userId row.asset

/-- With enough locked funds a row matches. -/
theorem exists_admits {d : WalletDb} {update : CollateralUpdate}
    (hupdate : update = .unlock ∨ update = .debit)
    {userId : ℤ} {asset : Asset} {amount : ℤ} (hpos : 0 < amount)
    (hle : amount ≤ d.locked userId asset) :
    ∃ row, d.userCollaterals.find? (userId, asset) = some row ∧ update.admits amount row = true := by
  cases h : d.userCollaterals.find? (userId, asset) with
  | none =>
    rw [WalletDb.locked, h] at hle
    exact absurd hle (not_le.2 hpos)
  | some row =>
    rw [WalletDb.locked_of_find? h] at hle
    have hchecks := row.checks
    refine ⟨row, rfl, ?_⟩
    rcases hupdate with rfl | rfl
    · simpa [CollateralUpdate.admits] using hle
    · have htotal : amount ≤ row.total := by omega
      simp [CollateralUpdate.admits, hle, htotal]

theorem Updates.hits {d : WalletDb} {update : CollateralUpdate}
    (hupdate : update = .unlock ∨ update = .debit) {userId : ℤ} {asset : Asset} {amount : ℤ} {ws : List Write}
    (h : Updates Eq d update userId asset amount ws) (hpos : 0 < amount)
    (hle : amount ≤ d.locked userId asset) :
    ∃ old row, Hits d update userId asset amount old row ∧ ws = [.setCollateral row] := by
  cases h with
  | hit h => exact ⟨_, _, h, rfl⟩
  | miss hv hmiss =>
    subst hv
    obtain ⟨row, hrow, hadm⟩ := exists_admits hupdate hpos hle
    rw [hmiss row hrow] at hadm
    cases hadm

/-! ## What each kind of write does to balances -/

section Moves

variable {d : WalletDb} {userId : ℤ} {asset : Asset} {amount : ℤ} {old row : CollateralRow}

/-- Balances change by `total` and `locked`. -/
def Moves (d d' : WalletDb) (total locked : ℤ → Asset → ℤ) : Prop :=
  ∀ u a, d'.total u a = d.total u a + total u a ∧ d'.locked u a = d.locked u a + locked u a

/-- An amount at one balance. -/
def amountAt (userId : ℤ) (asset : Asset) (amount : ℤ) (u : ℤ) (a : Asset) : ℤ :=
  if userId = u ∧ asset = a then amount else 0

theorem Moves.trans {d' d'' : WalletDb} {t l t' l' : ℤ → Asset → ℤ} (h : Moves d d' t l)
    (h' : Moves d' d'' t' l') :
    Moves d d'' (fun u a => t u a + t' u a) fun u a => l u a + l' u a := by
  intro u a
  rw [(h' u a).1, (h' u a).2, (h u a).1, (h u a).2, add_assoc, add_assoc]
  exact ⟨rfl, rfl⟩

theorem Moves.of_eq {d' : WalletDb} (h : d'.userCollaterals = d.userCollaterals) :
    Moves d d' (fun _ _ => 0) fun _ _ => 0 := fun u a =>
  ⟨by rw [WalletDb.total_congr h, add_zero], by rw [WalletDb.locked_congr h, add_zero]⟩

theorem moves_setCollateral {total locked : ℤ} (hkey : row.key = (userId, asset))
    (htotal : row.total = d.total userId asset + total)
    (hlocked : row.locked = d.locked userId asset + locked) :
    Moves d (WalletDb.write (.setCollateral row) d) (amountAt userId asset total)
      (amountAt userId asset locked) := fun u a =>
  ⟨WalletDb.total_setCollateral hkey htotal u a, WalletDb.locked_setCollateral hkey hlocked u a⟩

theorem Hits.moves {update : CollateralUpdate} (h : Hits d update userId asset amount old row) :
    Moves d (WalletDb.write (.setCollateral row) d)
      (amountAt userId asset (update.total amount old - old.total))
      (amountAt userId asset (update.locked amount old - old.locked)) := by
  refine moves_setCollateral h.key ?_ ?_
  · rw [h.total, WalletDb.total_of_find? h.found]
    omega
  · rw [h.locked, WalletDb.locked_of_find? h.found]
    omega

theorem Credits.moves (h : Credits d userId asset amount row) :
    Moves d (WalletDb.write (.setCollateral row) d) (amountAt userId asset amount)
      (amountAt userId asset 0) :=
  moves_setCollateral h.key h.total (by rw [h.locked, add_zero])

end Moves

/-! ## Transactions -/

theorem releaseRejected_eq_false {reservation : ReservationRecord} {release : ReleaseReservation} :
    releaseRejected reservation release = false ↔ reservation.status = .ACTIVE ∧
      0 < release.amount ∧ release.amount ≤ reservation.remaining := by
  simp [releaseRejected, and_assoc]

theorem settleRejected_eq_false {reservation : ReservationRecord} {settle : SettleTrade} :
    settleRejected reservation settle = false ↔ reservation.status = .ACTIVE ∧
      reservation.asset = settle.debitAsset ∧ 0 < settle.debitAmount ∧
        settle.debitAmount ≤ reservation.remaining := by
  simp [settleRejected, and_assoc]

section Events

variable (u : ℤ) (a : Asset)

theorem delta_depositApplied (eventId : String) (deposit : Deposit) (balance : BalanceUpdated) :
    Ledger.totalDelta u a (depositAppliedEvent eventId deposit balance) =
        amountAt deposit.envelope.userId balance.asset deposit.amount u a ∧
      Ledger.lockedDelta u a (depositAppliedEvent eventId deposit balance) = 0 := by
  simp [Ledger.totalDelta, Ledger.lockedDelta, Ledger.ledgerRecordFromWalletEvent,
    Ledger.depositEntries, depositAppliedEvent, amountAt]

theorem delta_withdrawalApplied (eventId : String) (withdraw : Withdraw)
    (balance : BalanceUpdated) :
    Ledger.totalDelta u a (withdrawalAppliedEvent eventId withdraw balance) =
        amountAt withdraw.envelope.userId balance.asset (-withdraw.amount) u a ∧
      Ledger.lockedDelta u a (withdrawalAppliedEvent eventId withdraw balance) = 0 := by
  simp [Ledger.totalDelta, Ledger.lockedDelta, Ledger.ledgerRecordFromWalletEvent,
    Ledger.withdrawalEntries, withdrawalAppliedEvent, amountAt]

theorem delta_fundsReserved (eventId : String) (intent : PlaceOrderIntent)
    (reserved : FundsReserved) :
    Ledger.totalDelta u a (fundsReservedEvent eventId intent reserved) = 0 ∧
      Ledger.lockedDelta u a (fundsReservedEvent eventId intent reserved) =
        amountAt intent.envelope.userId reserved.asset reserved.amount u a := by
  simp [Ledger.totalDelta, Ledger.lockedDelta, Ledger.ledgerRecordFromWalletEvent,
    Ledger.fundsReservedEntries, fundsReservedEvent, amountAt]

theorem delta_fundsReleased (eventId : String) (release : ReleaseReservation)
    (reservation : ReservationRecord) :
    Ledger.totalDelta u a (fundsReleasedEvent eventId release reservation) = 0 ∧
      Ledger.lockedDelta u a (fundsReleasedEvent eventId release reservation) =
        amountAt reservation.userId reservation.asset (-release.amount) u a := by
  simp [Ledger.totalDelta, Ledger.lockedDelta, Ledger.ledgerRecordFromWalletEvent,
    Ledger.fundsReleasedEntries, fundsReleasedEvent, amountAt]

theorem delta_tradeSettled (eventId : String) (settle : SettleTrade)
    (reservation : ReservationRecord) :
    Ledger.totalDelta u a (tradeSettledEvent eventId settle reservation) =
        amountAt reservation.userId settle.debitAsset (-settle.debitAmount) u a +
          amountAt reservation.userId settle.creditAsset settle.creditAmount u a ∧
      Ledger.lockedDelta u a (tradeSettledEvent eventId settle reservation) =
        amountAt reservation.userId settle.debitAsset (-settle.debitAmount) u a := by
  simp [Ledger.totalDelta, Ledger.lockedDelta, Ledger.ledgerRecordFromWalletEvent,
    Ledger.tradeSettledEntries, tradeSettledEvent, amountAt]

theorem delta_accountDeltaApplied (eventId : String) (delta : ApplyAccountDelta)
    (balance : BalanceSnapshot) :
    Ledger.totalDelta u a (accountDeltaAppliedEvent eventId delta balance) =
        amountAt delta.userId delta.asset delta.totalDelta u a ∧
      Ledger.lockedDelta u a (accountDeltaAppliedEvent eventId delta balance) =
        amountAt delta.userId delta.asset delta.lockedDelta u a := by
  simp [Ledger.totalDelta, Ledger.lockedDelta, Ledger.ledgerRecordFromWalletEvent,
    Ledger.accountDeltaEntries, accountDeltaAppliedEvent, amountAt]

end Events

/-- What a list of events says about the balances. -/
def eventTotal (events : List WalletEvent) (u : ℤ) (a : Asset) : ℤ :=
  (events.map (Ledger.totalDelta u a)).sum

def eventLocked (events : List WalletEvent) (u : ℤ) (a : Asset) : ℤ :=
  (events.map (Ledger.lockedDelta u a)).sum

section

variable {self : WalletProcessor} {d : WalletDb} {u : ℤ} {a : Asset}

theorem SettlesCollateral.moves {settle : SettleTrade} {userId : ℤ} {ws : List Write}
    (h : SettlesCollateral Eq d userId settle ws) (hpos : 0 < settle.debitAmount)
    (hle : settle.debitAmount ≤ d.locked userId settle.debitAsset) :
    Moves d (view ws d)
      (fun u a => amountAt userId settle.debitAsset (-settle.debitAmount) u a +
        amountAt userId settle.creditAsset settle.creditAmount u a)
      fun u a => amountAt userId settle.debitAsset (-settle.debitAmount) u a := by
  cases h with
  | unlock hsame h =>
    obtain ⟨old, row, hhit, rfl⟩ := h.hits (.inl rfl) hpos hle
    simp only [isSameAssetReservationConsumption, Bool.and_eq_true, decide_eq_true_eq] at hsame
    intro u a
    have hmoves := hhit.moves u a
    simp only [CollateralUpdate.total, CollateralUpdate.locked, amountAt, ← hsame.1, ← hsame.2]
      at hmoves ⊢
    rw [view_cons]
    refine ⟨hmoves.1.trans ?_, hmoves.2.trans ?_⟩ <;> split <;> omega
  | transfer hsame hdebit hcredit =>
    obtain ⟨old, row, hhit, rfl⟩ := hdebit.hits (.inr rfl) hpos hle
    intro u a
    have hmoves := (hhit.moves.trans hcredit.moves) u a
    simp only [CollateralUpdate.total, CollateralUpdate.locked, amountAt] at hmoves ⊢
    rw [view_append]
    refine ⟨hmoves.1.trans ?_, hmoves.2.trans ?_⟩
    · split <;> omega
    · split <;> split <;> omega

theorem Covered.read {reservationId : String} {read : ReservationRow} {amount : ℤ}
    (hcovered : Covered d) (hread : d.walletReservations.find? reservationId = some read)
    (hactive : read.status = .ACTIVE) (hle : amount ≤ read.remaining) :
    amount ≤ d.locked read.userId read.asset :=
  hle.trans (hcovered read (Table.mem_of_find? hread) hactive)

/-- Writes of other tables after some writes of balances leave the balances. -/
theorem moves_frame (balance : List Write) {rest : List Write} {t l : ℤ → Asset → ℤ}
    (h : Moves d (view balance d) t l) (hrest : ∀ w ∈ rest, w.table ≠ .userCollaterals) :
    Moves d (view (balance ++ rest) d) t l := by
  intro u a
  have heq : (view (balance ++ rest) d).userCollaterals = (view balance d).userCollaterals := by
    rw [view_append]
    exact userCollaterals_view _ hrest
  rw [WalletDb.total_congr heq, WalletDb.locked_congr heq]
  exact h u a

private theorem moves_single {row : CollateralRow} {rest : List Write} {t l t' l' : ℤ → Asset → ℤ}
    (h : Moves d (WalletDb.write (.setCollateral row) d) t l)
    (hrest : ∀ w ∈ rest, w.table ≠ .userCollaterals) (ht : ∀ u a, t u a = t' u a)
    (hl : ∀ u a, l u a = l' u a) : Moves d (view (.setCollateral row :: rest) d) t' l' := by
  intro u a
  have hmoves := moves_frame [.setCollateral row] h hrest u a
  rwa [ht, hl] at hmoves

/-- Every commit moves the balances as its events say. -/
theorem Committed.moves {tx : WalletTx} {events : List WalletEvent} {ws : List Write}
    (hcovered : Covered d) (h : Committed self Eq d tx events ws) :
    Moves d (view ws d) (eventTotal events) (eventLocked events) := by
  cases h with
  | deposit hcredit hledger hreply hout =>
    refine moves_single hcredit.moves (by simp +contextual [hreply.table, hout.table])
      (fun u a => ?_) fun u a => ?_
    · simp [eventTotal, delta_depositApplied, balanceUpdated]
    · simp [eventLocked, delta_depositApplied, amountAt]
  | withdraw hhit hledger hreply hout =>
    refine moves_single hhit.moves (by simp +contextual [hreply.table, hout.table])
      (fun u a => ?_) fun u a => ?_
    · simp [eventTotal, delta_withdrawalApplied, balanceUpdated, CollateralUpdate.total]
    · simp [eventLocked, delta_withdrawalApplied, CollateralUpdate.locked, amountAt]
  | reserve hhit hreservation hfree hreply hout =>
    refine moves_single hhit.moves (by simp +contextual [hreply.table, hout.table])
      (fun u a => ?_) fun u a => ?_
    · simp [eventTotal, delta_fundsReserved, CollateralUpdate.total, amountAt]
    · simp [eventLocked, delta_fundsReserved, CollateralUpdate.locked, fundsReserved]
  | release hv hread h =>
    rw [hv] at hread
    obtain ⟨balance, out, hbalance, hout, rfl⟩ := h.writes
    obtain rfl := Option.some.inj (hread.symm.trans h.reduces.found)
    obtain ⟨hactive, hpos, hle⟩ := releaseRejected_eq_false.1 h.accepted
    obtain ⟨old, row, hhit, rfl⟩ := hbalance.hits (.inl rfl) hpos (hcovered.read hread hactive hle)
    refine moves_single hhit.moves (by simp +contextual [hout.table]) (fun u a => ?_) fun u a => ?_
    · simp [eventTotal, delta_fundsReleased, CollateralUpdate.total, amountAt]
    · simp [eventLocked, delta_fundsReleased, CollateralUpdate.locked]
  | settle hv hread h =>
    rw [hv] at hread
    obtain ⟨balance, out, hbalance, hout, rfl⟩ := h.writes
    obtain rfl := Option.some.inj (hread.symm.trans h.reduces.found)
    obtain ⟨hactive, hasset, hpos, hle⟩ := settleRejected_eq_false.1 h.accepted
    have hlocked := hcovered.read hread hactive hle
    change _ ≤ d.locked _ (reservationFromRow _).asset at hlocked
    rw [hasset] at hlocked
    refine moves_frame balance (fun u a => ?_) (by simp +contextual [hout.table])
    simpa [eventTotal, eventLocked, delta_tradeSettled] using hbalance.moves hpos hlocked u a
  | @accountDelta delta row out hnonzero hledger hsign hkey htotal hlocked hout =>
    have hfirst : Moves d (WalletDb.write (.insertLedger (deltaLedgerRow delta)) d)
        (fun _ _ => 0) fun _ _ => 0 := .of_eq rfl
    have hmoves := hfirst.trans (moves_setCollateral hkey htotal hlocked)
    refine moves_frame [.insertLedger (deltaLedgerRow delta), .setCollateral row] (fun u a => ?_)
      (by simp +contextual [hout.table])
    simpa [eventTotal, eventLocked, delta_accountDeltaApplied] using hmoves u a
  | duplicateDelta => exact .of_eq rfl
  | reply hreply =>
    refine .of_eq (userCollaterals_view _ (by simp [hreply.table]))
  | cancel hreply hout =>
    exact .of_eq (userCollaterals_view _ (by simp +contextual [hreply.table, hout.table]))

end

end Wallet
