import ExchangeServer.Wallet.LockedFunds

/-!
# The wallet's own ledger adds up to the balances

Every transaction that changes the total of a balance writes what it changes
into `wallet_ledger`. A settlement writes a debit and a credit, and changes the
balance by both or, when it consumes a reservation in its own asset, by neither.

## Main results

- `Committed.ledgerSum`: a commit moves the sums of the ledger as its events say
- `ledger_adds_up_to_balance`: sums and totals after every run
-/

namespace Wallet

open Protocol Relational Transactional

/-- The sum of the ledger over a user and an asset. -/
def ledgerSum (d : WalletDb) (userId : ℤ) (asset : Asset) : ℤ :=
  d.walletLedger.sum fun row => amountAt row.userId row.asset row.amount userId asset

section

variable {self : WalletProcessor} {d : WalletDb} {tx : WalletTx} {events : List WalletEvent}
  {ws : List Write}

theorem ledgerSum_congr {d' : WalletDb} (h : d'.walletLedger = d.walletLedger) (u : ℤ)
    (a : Asset) : ledgerSum d' u a = ledgerSum d u a := by
  rw [ledgerSum, ledgerSum, h]

theorem ledgerSum_insertLedger {row : LedgerRow} (h : d.walletLedger.find? row.key = none) (u : ℤ)
    (a : Asset) : ledgerSum (WalletDb.write (.insertLedger row) d) u a =
      ledgerSum d u a + amountAt row.userId row.asset row.amount u a :=
  Table.sum_insert h _

/-- One ledger row between writes of other tables. -/
theorem ledgerSum_view_single (before : List Write) {after : List Write} {row : LedgerRow}
    (hbefore : ∀ w ∈ before, w.table ≠ .walletLedger)
    (hafter : ∀ w ∈ after, w.table ≠ .walletLedger)
    (hfree : d.walletLedger.find? row.key = none) (u : ℤ) (a : Asset) :
    ledgerSum (view (before ++ .insertLedger row :: after) d) u a =
      ledgerSum d u a + amountAt row.userId row.asset row.amount u a := by
  have hsame : (view before d).walletLedger = d.walletLedger := walletLedger_view d hbefore
  rw [view_append, view_cons, ledgerSum_congr (walletLedger_view _ hafter),
    ledgerSum_insertLedger (by rw [hsame, hfree]), ledgerSum_congr hsame]

/-- The two ledger rows of a settlement. -/
theorem ledgerSum_view_pair {before after : List Write} {row row' : LedgerRow}
    (hbefore : ∀ w ∈ before, w.table ≠ .walletLedger)
    (hafter : ∀ w ∈ after, w.table ≠ .walletLedger)
    (hfree : d.walletLedger.find? row.key = none) (hfree' : d.walletLedger.find? row'.key = none)
    (hne : row'.key ≠ row.key) (u : ℤ) (a : Asset) :
    ledgerSum (view (before ++ .insertLedger row :: .insertLedger row' :: after) d) u a =
      ledgerSum d u a + amountAt row.userId row.asset row.amount u a +
        amountAt row'.userId row'.asset row'.amount u a := by
  have hsame : (view before d).walletLedger = d.walletLedger := walletLedger_view d hbefore
  have hsecond : (WalletDb.write (.insertLedger row) (view before d)).walletLedger.find? row'.key =
      none := by
    change ((view before d).walletLedger.insert row).find? row'.key = none
    rw [hsame, Table.find?_insert_of_ne hne, hfree']
  rw [view_append, view_cons, view_cons, ledgerSum_congr (walletLedger_view _ hafter),
    ledgerSum_insertLedger hsecond, ledgerSum_insertLedger (by rw [hsame, hfree]),
    ledgerSum_congr hsame]

/-- Every commit moves the sums of the ledger as its events say. -/
theorem Committed.ledgerSum (h : Committed self Eq d tx events ws) (u : ℤ) (a : Asset) :
    ledgerSum (view ws d) u a = Wallet.ledgerSum d u a + eventTotal events u a := by
  cases h with
  | @deposit deposit row reply out hcredit hledger hreply hout =>
    refine (ledgerSum_view_single [.setCollateral row] (by simp)
      (by simp +contextual [hreply.table, hout.table]) hledger u a).trans ?_
    simp [eventTotal, delta_depositApplied, depositLedgerRow, balanceUpdated]
  | @withdraw withdraw old row reply out hhit hledger hreply hout =>
    refine (ledgerSum_view_single [.setCollateral row] (by simp)
      (by simp +contextual [hreply.table, hout.table]) hledger u a).trans ?_
    simp [eventTotal, delta_withdrawalApplied, withdrawLedgerRow, balanceUpdated]
  | reserve hhit hreservation hfree hreply hout =>
    rw [ledgerSum_congr (walletLedger_view _ (by simp +contextual [hreply.table, hout.table]))]
    simp [eventTotal, delta_fundsReserved]
  | release hv hread h =>
    obtain ⟨balance, out, hbalance, hout, rfl⟩ := h.writes
    rw [ledgerSum_congr (walletLedger_view _
      (by simp +contextual [or_imp, hbalance.table, hout.table]))]
    simp [eventTotal, delta_fundsReleased]
  | @settle settle v read now ws hv hread h =>
    rw [hv] at hread
    obtain ⟨balance, out, hbalance, hout, rfl⟩ := h.writes
    obtain rfl := Option.some.inj (hread.symm.trans h.reduces.found)
    have hkinds : (creditLedgerRow (reservationFromRow read).userId settle).key ≠
        (debitLedgerRow (reservationFromRow read).userId settle).key := by
      simp [LedgerRow.key, creditLedgerRow, debitLedgerRow]
    refine (ledgerSum_view_pair (by simp +contextual [hbalance.table])
      (by simp +contextual [hout.table]) h.debit_free h.credit_free hkinds u a).trans ?_
    simp [eventTotal, delta_tradeSettled, debitLedgerRow, creditLedgerRow, add_assoc]
  | @accountDelta delta row out hnonzero hledger hsign hkey htotal hlocked hout =>
    refine (ledgerSum_view_single [] (by simp) (by simp +contextual [hout.table])
      hledger u a).trans ?_
    simp [eventTotal, delta_accountDeltaApplied, deltaLedgerRow]
  | duplicateDelta => simp [eventTotal]
  | reply hreply =>
    rw [ledgerSum_congr (walletLedger_view _ (by simp [hreply.table]))]
    simp [eventTotal]
  | cancel hreply hout =>
    rw [ledgerSum_congr (walletLedger_view _ (by simp +contextual [hreply.table, hout.table]))]
    simp [eventTotal]

end

/-- What a run keeps: locked funds are backed, and the ledger sums to the totals. -/
structure Balanced (d : WalletDb) : Prop where
  backed : ∃ deltas, Backed d deltas
  ledger : ∀ u a, ledgerSum d u a = d.total u a

theorem balanced_empty (users : List ℤ) : Balanced (.empty users) :=
  ⟨⟨_, backed_empty users⟩, fun _ _ => rfl⟩

theorem Balanced.step {self : WalletProcessor} {d : WalletDb} {tx : WalletTx}
    {events : List WalletEvent} {ws : List Write} (h : Balanced d)
    (hc : Committed self Eq d tx events ws) : Balanced (view ws d) := by
  obtain ⟨deltas, hbacked⟩ := h.backed
  refine ⟨⟨_, hbacked.step hc⟩, fun u a => ?_⟩
  rw [hc.ledgerSum, h.ledger, (hc.moves hbacked.covered u a).1]

/-- The wallet's own ledger adds up to the balances after every run. -/
theorem ledger_adds_up_to_balance (self : WalletProcessor) (users : List ℤ) (txs : List WalletTx)
    (u : ℤ) (a : Asset) :
    ledgerSum (self.runAll txs (.empty users)) u a = (self.runAll txs (.empty users)).total u a :=
  (self.inv_runAll (fun _ _ _ _ h hc => h.step hc) txs (balanced_empty users)).ledger u a

end Wallet
