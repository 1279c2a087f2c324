import ExchangeServer.Wallet.Commits

/-!
# Runs of transactions, one at a time

A transaction that runs alone either leaves the database as it was or commits
what `Committed` says of equality; a run is any sequence of transactions.
-/

namespace Wallet

open Protocol Relational Transactional Program

namespace WalletProcessor

variable (self : WalletProcessor)

/-- The outcome of a transaction that runs alone. -/
def execute (tx : WalletTx) (d : WalletDb) :
    Except WalletRepositoryError (List WalletEvent) × WalletDb :=
  (self.program tx).run d d

/-- The database after a run. -/
def runAll : List WalletTx → WalletDb → WalletDb
  | [], d => d
  | tx :: txs, d => runAll txs (self.execute tx d).2

/-- Nothing has happened, or exactly one commit. -/
theorem execute_cases (tx : WalletTx) (d : WalletDb) :
    (∃ e, self.execute tx d = (.error e, d)) ∨
      (self.execute tx d = (.ok [], d) ∧
        ∃ delta, tx = .accountDelta delta ∧ delta.totalDelta = 0 ∧ delta.lockedDelta = 0) ∨
      ∃ events ws, Committed self Eq d tx events ws ∧ self.execute tx d = (.ok events, view ws d) := by
  let Q := fun (r : Except WalletRepositoryError (List WalletEvent)) (d' : WalletDb)
      (_ : List Write) => (∃ e, (r, d') = (.error e, d)) ∨
        ((r, d') = (.ok [], d) ∧
          ∃ delta, tx = .accountDelta delta ∧ delta.totalDelta = 0 ∧ delta.lockedDelta = 0) ∨
        ∃ events ws, Committed self Eq d tx events ws ∧ (r, d') = (.ok events, view ws d)
  let C : Contract WalletDb Write WalletRepositoryError := ⟨fun _ _ => True, fun _ d' => d' = d⟩
  have hwlp : (self.program tx).wlp Eq C d [] Q := by
    refine wlp_program reads_eq (fun _ => rfl) (fun e d' _ hd => .inl ⟨e, by rw [hd]⟩)
      (fun delta htx hzero => .inr (.inl ⟨rfl, delta, htx, hzero⟩)) fun events ws h => ⟨trivial, ?_⟩
    rintro d' rfl
    exact .inr (.inr ⟨events, ws, h, rfl⟩)
  rcases run_of_wlp hwlp with ⟨e, he, hd⟩ | ⟨_, h⟩
  · exact .inl ⟨e, Prod.ext he hd⟩
  · exact h

/-- A property that every commit keeps holds after every run. -/
theorem inv_runAll {self : WalletProcessor} {d : WalletDb} {I : WalletDb → Prop}
    (hI : ∀ d tx events ws, I d → Committed self Eq d tx events ws → I (view ws d))
    (txs : List WalletTx) (h : I d) : I (self.runAll txs d) := by
  induction txs generalizing d with
  | nil => exact h
  | cons tx txs ih =>
    refine ih ?_
    rcases execute_cases self tx d with ⟨e, he⟩ | ⟨he, -⟩ | ⟨events, ws, hc, he⟩
    · rwa [he]
    · rwa [he]
    · rw [he]
      exact hI d tx events ws h hc

end WalletProcessor

/-- A deposit and a reservation of half of it. -/
def depositAndReserve : List WalletTx :=
  let envelope (idempotencyKey : String) : CommandEnvelope :=
    { requestId := "r", userId := 1, idempotencyKey, replyPartition := 0 }
  [.deposit { envelope := envelope "k1", asset := .USDC, amount := 100, referenceId := "ref" },
   .reserve "u1"
    { envelope := envelope "k2", orderId := 1, marketId := 1, marketName := "BTC-PERP",
      side := .LONG, orderType := .LIMIT, quantity := 1, price := 50, marginAsset := .USDC,
      requiredMargin := 50, leverage := 1, reduceOnly := false }]

end Wallet
