import ExchangeServer.Wallet.StoredText

/-!
# Which account deltas are accepted

A delta changes `total` and `locked` of a balance by signed amounts. The
statement that stores the sums has two conditions: the inner one asks for a
valid sum, the outer one for deltas that would be a valid balance by
themselves. The outer one comes first, so a delta that takes something away is
refused even where the balance covers it. What is said here is said of storable
texts; `runRefusing_applyAccountDelta` has the condition.
-/

namespace Wallet

open Protocol Relational Transactional Program

/-! ## Queueing messages -/

/-- The outbox takes the messages: no partition is negative, and a dedupe key is
free or stores an equal message. -/
def OutboxAdmits (outbox : Table NewWalletOutboxMessage.dedupeKey) :
    List NewWalletOutboxMessage → Prop
  | [] => True
  | message :: messages =>
    (∀ partition ∈ message.partition, 0 ≤ partition) ∧
      match outbox.find? message.dedupeKey with
      | some stored => stored = message ∧ OutboxAdmits outbox messages
      | none => OutboxAdmits (outbox.insert message) messages

theorem open_enqueueOutboxMessagesInTx (messages : List NewWalletOutboxMessage) :
    (enqueueOutboxMessagesInTx messages).Open := by
  induction messages with
  | nil => exact open_pure ()
  | cons message messages ih =>
    refine open_bind (open_perform _) fun rowsAffected => ?_
    have hrest : ∀ accepted : Bool, ((if accepted then enqueueOutboxMessagesInTx messages
        else fail .idempotencyConflict) : Tx Unit).Open := fun accepted => by
      split
      · exact ih
      · exact open_fail _
    by_cases hrows : rowsAffected = 0
    · rw [if_pos hrows]
      exact open_bind (open_perform _) hrest
    · rw [if_neg hrows]
      exact open_bind (open_pure true) hrest

/-- A message the outbox takes is stored, and the next one meets what it has left. -/
theorem eval_enqueue_cons {d : WalletDb} {message : NewWalletOutboxMessage}
    (messages : List NewWalletOutboxMessage)
    (hpartition : ∀ partition ∈ message.partition, 0 ≤ partition) :
    (enqueueOutboxMessagesInTx (message :: messages)).eval d =
      match d.walletOutbox.find? message.dedupeKey with
      | some stored =>
        if stored = message then (enqueueOutboxMessagesInTx messages).eval d
        else .error .idempotencyConflict
      | none =>
        (enqueueOutboxMessagesInTx messages).eval
          { d with walletOutbox := d.walletOutbox.insert message } := by
  rw [enqueueOutboxMessagesInTx]
  cases hfound : d.walletOutbox.find? message.dedupeKey with
  | none =>
    have hexec : (Stmt.enqueueOutboxMessage message).exec d = .ok (1, [.insertOutbox message]) := by
      rw [Stmt.exec, hfound, execEnqueueOutboxMessage, if_pos hpartition]
    rw [eval_bind_ok (eval_perform_of_exec hexec), if_neg Nat.one_ne_zero,
      eval_bind_ok (eval_pure true _)]
    rfl
  | some stored =>
    have hexec : (Stmt.enqueueOutboxMessage message).exec d = .ok (0, []) := by
      rw [Stmt.exec, hfound, execEnqueueOutboxMessage, if_pos hpartition]
    have hmatches : (Stmt.outboxDuplicateMatches message).exec d =
        .ok (decide (stored = message), []) := by
      rw [Stmt.exec, hfound]
      simp only [Option.some.injEq]
    rw [eval_bind_ok (eval_perform_of_exec hexec), if_pos rfl, outboxDuplicateMatchesInTx,
      eval_bind_ok (eval_perform_of_exec hmatches)]
    by_cases heq : stored = message
    · simp [heq]
    · simp [heq]

/-- A negative partition is refused, whatever is stored. -/
theorem eval_enqueue_of_partition {d : WalletDb} {message : NewWalletOutboxMessage}
    (messages : List NewWalletOutboxMessage)
    (hpartition : ¬∀ partition ∈ message.partition, 0 ≤ partition) :
    (enqueueOutboxMessagesInTx (message :: messages)).eval d =
      .error (.storage .checkViolation) := by
  have hexec : (Stmt.enqueueOutboxMessage message).exec d = .error (.storage .checkViolation) := by
    rw [Stmt.exec]
    unfold execEnqueueOutboxMessage
    rw [if_neg hpartition]
    rfl
  rw [enqueueOutboxMessagesInTx]
  refine eval_bind_error ?_
  rw [eval_perform]
  exact congrArg (Except.map _) hexec

/-- Only the outbox changes when messages are queued. -/
theorem eval_enqueue_of_admits {messages : List NewWalletOutboxMessage} {d : WalletDb}
    (h : OutboxAdmits d.walletOutbox messages) :
    ∃ outbox, (enqueueOutboxMessagesInTx messages).eval d =
      .ok ((), { d with walletOutbox := outbox }) := by
  induction messages generalizing d with
  | nil => exact ⟨d.walletOutbox, rfl⟩
  | cons message messages ih =>
    obtain ⟨hpartition, hrest⟩ := h
    rw [eval_enqueue_cons messages hpartition]
    cases hfound : d.walletOutbox.find? message.dedupeKey with
    | none =>
      rw [hfound] at hrest
      exact ih (d := { d with walletOutbox := d.walletOutbox.insert message }) hrest
    | some stored =>
      rw [hfound] at hrest
      dsimp only
      rw [if_pos hrest.1]
      exact ih hrest.2

theorem eval_enqueue_of_not_admits {messages : List NewWalletOutboxMessage} {d : WalletDb}
    (h : ¬OutboxAdmits d.walletOutbox messages) :
    ∃ e, (enqueueOutboxMessagesInTx messages).eval d = .error e := by
  induction messages generalizing d with
  | nil => exact absurd trivial h
  | cons message messages ih =>
    by_cases hpartition : ∀ partition ∈ message.partition, 0 ≤ partition
    · rw [eval_enqueue_cons messages hpartition]
      cases hfound : d.walletOutbox.find? message.dedupeKey with
      | none =>
        refine ih (d := { d with walletOutbox := d.walletOutbox.insert message }) fun hrest => ?_
        exact h ⟨hpartition, by rw [hfound]; exact hrest⟩
      | some stored =>
        dsimp only
        split
        · next heq =>
          refine ih fun hrest => ?_
          exact h ⟨hpartition, by rw [hfound]; exact ⟨heq, hrest⟩⟩
        · exact ⟨_, rfl⟩
    · exact ⟨.storage .checkViolation, eval_enqueue_of_partition messages hpartition⟩

/-! ## The rule for account deltas -/

/-- The ledger row of a delta. -/
def AccountDeltaUpdate.ledgerRow (delta : AccountDeltaUpdate) : LedgerRow where
  userId := delta.userId
  asset := delta.asset
  amount := delta.totalDelta
  kind := delta.kind
  referenceId := delta.referenceId

/-- The balance a delta leads to. -/
def AccountDeltaUpdate.sum (delta : AccountDeltaUpdate) (d : WalletDb) : BalanceSnapshot where
  total := d.total delta.userId delta.asset + delta.totalDelta
  locked := d.locked delta.userId delta.asset + delta.lockedDelta

/-- The columns are those of a balance. -/
def BalanceSnapshot.Valid (balance : BalanceSnapshot) : Prop :=
  0 ≤ balance.locked ∧ balance.locked ≤ balance.total

instance (balance : BalanceSnapshot) : Decidable balance.Valid :=
  inferInstanceAs (Decidable (_ ∧ _))

section Rule

variable (delta : AccountDeltaUpdate) (outboxBuilder : BalanceSnapshot → List NewWalletOutboxMessage)
  (d : WalletDb)

/-- A delta commits exactly when its sum is a valid balance: the row becomes the
sum and the ledger gets the row of the delta, or nothing changes. -/
def AcceptedWhenValid : Prop :=
  let outcome := (applyAccountDeltaWithOutbox delta outboxBuilder).run d d
  if (delta.sum d).Valid then
    outcome.1 = .ok (some (delta.sum d)) ∧ ∃ (row : CollateralRow)
      (outbox : Table NewWalletOutboxMessage.dedupeKey),
        row.key = (delta.userId, delta.asset) ∧ row.snapshot = delta.sum d ∧
          outcome.2 =
            { d with
              userCollaterals := d.userCollaterals.upsert row
              walletLedger := d.walletLedger.insert delta.ledgerRow
              walletOutbox := outbox }
  else outcome = (.error .invalidAccountDelta, d)

/-- The user exists, and a delta with a valid sum takes nothing away, locks no
more than it adds, and has messages that the outbox takes. -/
def TakesNothingAway : Prop :=
  delta.userId ∈ d.users ∧
    ((delta.sum d).Valid → (0 ≤ delta.lockedDelta ∧ delta.lockedDelta ≤ delta.totalDelta) ∧
      OutboxAdmits d.walletOutbox (outboxBuilder (delta.sum d)))

variable {delta outboxBuilder d}

/-- A stored balance plus a delta that is a balance itself is a valid balance. -/
theorem valid_sum (hlocked : 0 ≤ delta.lockedDelta) (hle : delta.lockedDelta ≤ delta.totalDelta) :
    (delta.sum d).Valid := by
  rw [BalanceSnapshot.Valid, AccountDeltaUpdate.sum, WalletDb.total, WalletDb.locked]
  cases d.userCollaterals.find? (delta.userId, delta.asset) with
  | none =>
    simp only [Option.map_none, Option.getD_none]
    omega
  | some row =>
    have hchecks := row.checks
    simp only [Option.map_some, Option.getD_some]
    omega

/-- A delta that is a balance itself passes both conditions. -/
private theorem exec_applyDelta_eq (hlocked : 0 ≤ delta.lockedDelta)
    (hle : delta.lockedDelta ≤ delta.totalDelta) (huser : delta.userId ∈ d.users) :
    (Stmt.applyDelta delta.userId delta.asset delta.totalDelta delta.lockedDelta).exec d =
      storeCollateral delta.userId delta.asset (delta.sum d).total (delta.sum d).locked some := by
  rw [Stmt.exec]
  unfold execApplyDelta
  rw [if_pos ⟨by omega, hlocked, hle⟩]
  simp only [AccountDeltaUpdate.sum, WalletDb.total, WalletDb.locked]
  cases d.userCollaterals.find? (delta.userId, delta.asset) with
  | none =>
    simp only [Option.map_none, Option.getD_none, zero_add]
    exact if_pos huser
  | some row =>
    have hchecks := row.checks
    exact if_pos ⟨by omega, by omega, by omega⟩

theorem exec_applyDelta_of_balance (hlocked : 0 ≤ delta.lockedDelta)
    (hle : delta.lockedDelta ≤ delta.totalDelta) (huser : delta.userId ∈ d.users)
    (hrange : (delta.sum d).total ≤ i64Max) :
    ∃ row : CollateralRow, row.key = (delta.userId, delta.asset) ∧ row.snapshot = delta.sum d ∧
      (Stmt.applyDelta delta.userId delta.asset delta.totalDelta delta.lockedDelta).exec d =
        .ok (some (delta.sum d), [.setCollateral row]) := by
  obtain ⟨hnonneg, hcovered⟩ := valid_sum (d := d) hlocked hle
  refine ⟨⟨delta.userId, delta.asset, (delta.sum d).total, (delta.sum d).locked,
    hnonneg, hcovered, hrange⟩, rfl, rfl, ?_⟩
  rw [exec_applyDelta_eq hlocked hle huser]
  unfold storeCollateral CollateralRow.build
  rw [dif_pos ⟨hnonneg, hcovered, hrange⟩]
  rfl

/-- The outer condition refuses every other delta, whatever the balance. -/
theorem exec_applyDelta_of_not_balance
    (h : ¬(0 ≤ delta.lockedDelta ∧ delta.lockedDelta ≤ delta.totalDelta)) :
    (Stmt.applyDelta delta.userId delta.asset delta.totalDelta delta.lockedDelta).exec d =
      .ok (none, []) := by
  rw [Stmt.exec]
  unfold execApplyDelta
  rw [if_neg fun hsigns => h hsigns.2]

section New

variable (hnonzero : ¬(delta.totalDelta = 0 ∧ delta.lockedDelta = 0))
  (hfree : d.walletLedger.find? delta.ledgerRow.key = none)

include hfree in
/-- The ledger row of a new delta is inserted first. -/
private theorem exec_insertLedgerOnce (huser : delta.userId ∈ d.users) :
    (Stmt.insertLedgerOnce delta.ledgerRow).exec d = .ok (true, [.insertLedger delta.ledgerRow]) := by
  rw [Stmt.exec, hfree, if_neg (by simp)]
  exact if_pos huser

include hnonzero hfree in
/-- It violates a foreign key when the user is unknown. -/
theorem run_unknown_user (huser : delta.userId ∉ d.users) :
    (applyAccountDeltaWithOutbox delta outboxBuilder).run d d =
      (.error (.storage .foreignKeyViolation), d) := by
  have hexec : (Stmt.insertLedgerOnce delta.ledgerRow).exec d =
      .error (.storage .foreignKeyViolation) := by
    rw [Stmt.exec, hfree, if_neg (by simp)]
    exact if_neg huser
  rw [applyAccountDeltaWithOutbox, if_neg hnonzero]
  exact run_perform_error hexec

include hnonzero hfree in
/-- A delta the outer condition refuses is rolled back. -/
theorem run_not_balance (huser : delta.userId ∈ d.users)
    (h : ¬(0 ≤ delta.lockedDelta ∧ delta.lockedDelta ≤ delta.totalDelta)) :
    (applyAccountDeltaWithOutbox delta outboxBuilder).run d d = (.error .invalidAccountDelta, d) := by
  rw [applyAccountDeltaWithOutbox, if_neg hnonzero]
  let afterLedger : WalletDb := { d with walletLedger := d.walletLedger.insert delta.ledgerRow }
  have hexec := exec_applyDelta_of_not_balance (d := afterLedger) h
  refine (run_perform_ok (exec_insertLedgerOnce hfree huser)).trans ?_
  rw [if_pos rfl]
  refine (run_perform_ok (S := Stmt) hexec).trans ?_
  rfl

include hnonzero hfree in
/-- A delta that is a balance itself is stored and commits with its messages. -/
theorem run_balance (outboxBuilder : BalanceSnapshot → List NewWalletOutboxMessage)
    (huser : delta.userId ∈ d.users) (hlocked : 0 ≤ delta.lockedDelta)
    (hle : delta.lockedDelta ≤ delta.totalDelta) (hrange : (delta.sum d).total ≤ i64Max) :
    ∃ row : CollateralRow, row.key = (delta.userId, delta.asset) ∧ row.snapshot = delta.sum d ∧
      (applyAccountDeltaWithOutbox delta outboxBuilder).run d d =
        outcome d (((enqueueOutboxMessagesInTx (outboxBuilder (delta.sum d))).eval
          { d with
            userCollaterals := d.userCollaterals.upsert row
            walletLedger := d.walletLedger.insert delta.ledgerRow }).map
              fun answer => (some (delta.sum d), answer.2)) := by
  let afterLedger : WalletDb := { d with walletLedger := d.walletLedger.insert delta.ledgerRow }
  -- The balance is read after the ledger row is there, which leaves it as it was.
  obtain ⟨row, hkey, hrow, hexec⟩ :=
    exec_applyDelta_of_balance (d := afterLedger) hlocked hle huser hrange
  refine ⟨row, hkey, hrow, ?_⟩
  rw [applyAccountDeltaWithOutbox, if_neg hnonzero]
  refine (run_perform_ok (exec_insertLedgerOnce hfree huser)).trans ?_
  rw [if_pos rfl]
  refine (run_perform_ok hexec).trans ?_
  exact run_commit_of_open (open_enqueueOutboxMessagesInTx _) (some (delta.sum d)) d _

/-- A delta commits exactly when its sum is a valid balance if and only if the
user exists and a delta with a valid sum takes nothing away. -/
theorem accepted_when_valid_iff (hnonzero : ¬(delta.totalDelta = 0 ∧ delta.lockedDelta = 0))
    (hfree : d.walletLedger.find? delta.ledgerRow.key = none)
    (hrange : (delta.sum d).total ≤ i64Max) :
    AcceptedWhenValid delta outboxBuilder d ↔ TakesNothingAway delta outboxBuilder d := by
  by_cases huser : delta.userId ∈ d.users
  · by_cases hsigns : 0 ≤ delta.lockedDelta ∧ delta.lockedDelta ≤ delta.totalDelta
    · -- Such a delta has a valid sum, and only its messages can stop it.
      have hvalid : (delta.sum d).Valid := valid_sum hsigns.1 hsigns.2
      obtain ⟨row, hkey, hrow, hrun⟩ :=
        run_balance hnonzero hfree outboxBuilder huser hsigns.1 hsigns.2 hrange
      simp only [AcceptedWhenValid, TakesNothingAway, if_pos hvalid, hrun]
      by_cases hadmits : OutboxAdmits d.walletOutbox (outboxBuilder (delta.sum d))
      · obtain ⟨outbox, hqueued⟩ := eval_enqueue_of_admits (d := { d with
          userCollaterals := d.userCollaterals.upsert row
          walletLedger := d.walletLedger.insert delta.ledgerRow }) hadmits
        rw [hqueued]
        exact ⟨fun _ => ⟨huser, fun _ => ⟨hsigns, hadmits⟩⟩,
          fun _ => ⟨rfl, row, outbox, hkey, hrow, rfl⟩⟩
      · obtain ⟨e, hrefused⟩ := eval_enqueue_of_not_admits (d := { d with
          userCollaterals := d.userCollaterals.upsert row
          walletLedger := d.walletLedger.insert delta.ledgerRow }) hadmits
        rw [hrefused]
        constructor
        · intro h
          cases h.1
        · intro h
          exact absurd (h.2 hvalid).2 hadmits
    · -- Any other delta is refused, rightly so when its sum is not valid.
      rw [AcceptedWhenValid, TakesNothingAway, run_not_balance hnonzero hfree huser hsigns]
      by_cases hvalid : (delta.sum d).Valid
      · rw [if_pos hvalid]
        constructor
        · intro h
          cases h.1
        · intro h
          exact absurd (h.2 hvalid).1 hsigns
      · rw [if_neg hvalid]
        exact ⟨fun _ => ⟨huser, fun h => absurd h hvalid⟩, fun _ => rfl⟩
  · rw [AcceptedWhenValid, TakesNothingAway, run_unknown_user hnonzero hfree huser]
    constructor
    · intro h
      split at h
      · cases h.1
      · cases h
    · intro h
      exact absurd h.1 huser

end New

/-- A database that refuses other texts treats a delta with storable ones alike. -/
theorem runRefusing_applyAccountDelta {takes : Key → Bool}
    (hledger : Fits takes [delta.kind, delta.referenceId] [.ledger delta.ledgerRow.key])
    (hmessages : ∀ balance, ∀ m ∈ outboxBuilder balance,
      (Stmt.enqueueOutboxMessage m).Storable takes) :
    (applyAccountDeltaWithOutbox delta outboxBuilder).runRefusing (unstorable takes) d d =
      (applyAccountDeltaWithOutbox delta outboxBuilder).run d d := by
  refine runRefusing_eq_run ?_
  unfold applyAccountDeltaWithOutbox
  split
  · exact each_pure none
  refine each_bind (each_perform (unstorable_eq_none.2 hledger)) fun inserted => ?_
  split
  · refine each_bind (each_perform (unstorable_eq_none.2 (Stmt.storable_applyDelta _ _ _ _)))
      fun balance => ?_
    cases balance with
    | none => exact each_bind each_rollbackTx fun _ => each_fail _
    | some snapshot =>
      refine each_bind (each_enqueueOutboxMessagesInTx (hmessages snapshot)) fun _ => ?_
      exact each_bind each_commitTx fun _ => each_pure _
  · exact each_bind each_commitTx fun _ => each_pure none

end Rule

/-- A user with a balance of 100. -/
def paidUp : WalletDb where
  users := [1]
  userCollaterals := Table.empty.upsert ⟨1, .USDC, 100, 0, by decide⟩
  walletReservations := .empty
  walletLedger := .empty
  walletIdempotency := .empty
  walletOutbox := .empty
  uniqueIdempotency := (WalletDb.empty [1]).uniqueIdempotency

def tradeFee : AccountDeltaUpdate :=
  { userId := 1, asset := .USDC, totalDelta := -5, lockedDelta := 0, kind := "TRADE_FEE"
    referenceId := "fill:7:fee:0:1:TAKER" }

def fundingReceived : AccountDeltaUpdate :=
  { userId := 1, asset := .USDC, totalDelta := 5, lockedDelta := 0, kind := "FUNDING_PAYMENT"
    referenceId := "funding:1:2:payment:0:p" }

theorem accepted_when_valid_payment :
    AcceptedWhenValid fundingReceived (fun _ => []) paidUp :=
  (accepted_when_valid_iff (by decide) rfl (by decide)).2
    ⟨List.mem_singleton.2 rfl, fun _ => ⟨by decide, trivial⟩⟩

/-- A fee of 5 is refused although the balance is 100. -/
theorem fee_refused : ¬AcceptedWhenValid tradeFee (fun _ => []) paidUp := by
  intro h
  have hrefused : (applyAccountDeltaWithOutbox tradeFee fun _ => []).run paidUp paidUp =
      (.error .invalidAccountDelta, paidUp) := rfl
  rw [AcceptedWhenValid, hrefused, if_pos (by decide)] at h
  cases h.1

end Wallet
