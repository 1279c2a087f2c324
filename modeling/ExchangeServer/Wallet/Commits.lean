import ExchangeServer.Wallet.Transactions

/-!
# What the transactions commit

Weakest preconditions of the statements, and from them one theorem for each
transaction: whenever it commits, it commits what `Committed` says. The
theorems hold for every relation `R` between reads without a lock and the
committed database along which the database only grows.
-/

namespace Wallet

open Protocol Relational Transactional Program WalletDb

/-- What is read without a lock stays true in the sense of `Grows`. -/
structure Reads (R : WalletDb → WalletDb → Prop) : Prop where
  refl : ∀ d, R d d
  grows : ∀ {v d}, R v d → Grows v d

theorem reads_eq : Reads Eq := ⟨fun _ => rfl, fun h => h ▸ Grows.refl _⟩

theorem reads_grows : Reads Grows := ⟨Grows.refl, id⟩

section Statements

variable {R : WalletDb → WalletDb → Prop} {C : Contract WalletDb Write WalletRepositoryError}
  {d : WalletDb} {ws : List Write}

private theorem wlp_stmt {β : Type} {s : Stmt β} {Q : Except WalletRepositoryError β → WalletDb →
    List Write → Prop} (hf : ∀ e, C.fails e d)
    (h : ∀ v b ws', s.exec v = .ok (b, ws') → Observed R v (view ws d) ws' →
      Q (.ok b) d (ws ++ ws')) : (perform s).wlp R C d ws Q :=
  ⟨fun e _ => hf e, h⟩

theorem wlp_getIdempotentReply_read {userId : ℤ} {commandType idempotencyKey : String}
    {Q : Except WalletRepositoryError (Option WalletReply) → WalletDb → List Write → Prop}
    (hf : ∀ e, C.fails e d)
    (h : ∀ v, Observed R v (view ws d) ([] : List Write) →
      Q (.ok ((v.walletIdempotency.find? (userId, commandType, idempotencyKey)).map
        IdempotencyRow.replyPayload)) d ws) :
    (getIdempotentReply userId commandType idempotencyKey).wlp R C d ws Q := by
  refine wlp_stmt hf fun v b ws' he hv => ?_
  cases he
  simpa using h v hv

theorem wlp_getIdempotentReply {userId : ℤ} {commandType idempotencyKey : String}
    {Q : Except WalletRepositoryError (Option WalletReply) → WalletDb → List Write → Prop}
    (hf : ∀ e, C.fails e d) (h : ∀ reply, Q (.ok reply) d ws) :
    (getIdempotentReply userId commandType idempotencyKey).wlp R C d ws Q :=
  wlp_getIdempotentReply_read hf fun _ _ => h _

theorem wlp_updateCollateral (hR : Reads R) {update : CollateralUpdate} {userId : ℤ} {asset : Asset}
    {amount : ℤ}
    {Q : Except WalletRepositoryError (Option BalanceSnapshot) → WalletDb → List Write → Prop}
    (hf : ∀ e, C.fails e d)
    (hnone : ∀ v, R v (view ws d) → (∀ row, v.userCollaterals.find? (userId, asset) = some row →
      update.admits amount row = false) → Q (.ok none) d ws)
    (hsome : ∀ old row, Hits (view ws d) update userId asset amount old row →
      Q (.ok (some row.snapshot)) d (ws ++ [.setCollateral row])) :
    (perform (Stmt.updateCollateral update userId asset amount)).wlp R C d ws Q := by
  refine wlp_stmt hf fun v b ws' he hv => ?_
  rcases execUpdateCollateral_ok he with
    ⟨rfl, rfl, hmiss⟩ | ⟨old, row, hold, ha, hk, ht, hl, rfl, rfl⟩
  · simpa using hnone v (hv.rel hR.refl) hmiss
  · obtain rfl := hv.eq_of_ne_nil (by simp)
    exact hsome old row ⟨hold, ha, hk.trans (Table.key_of_find? hold), ht, hl⟩

/-- A guarded update whose number of rows is not looked at. -/
theorem wlp_updateCollateral_ignored (hR : Reads R) {update : CollateralUpdate} {userId : ℤ}
    {asset : Asset} {amount : ℤ}
    {Q : Except WalletRepositoryError (Option BalanceSnapshot) → WalletDb → List Write → Prop}
    (hf : ∀ e, C.fails e d)
    (h : ∀ answer ws', Updates R (view ws d) update userId asset amount ws' →
      Q (.ok answer) d (ws ++ ws')) :
    (perform (Stmt.updateCollateral update userId asset amount)).wlp R C d ws Q := by
  refine wlp_updateCollateral hR hf (fun v hv hmiss => ?_) fun old row hhit => h _ _ (.hit hhit)
  simpa using h none [] (.miss hv hmiss)

theorem wlp_creditCollateral {userId : ℤ} {asset : Asset} {amount : ℤ}
    {Q : Except WalletRepositoryError BalanceSnapshot → WalletDb → List Write → Prop}
    (hf : ∀ e, C.fails e d)
    (h : ∀ row, Credits (view ws d) userId asset amount row →
      Q (.ok row.snapshot) d (ws ++ [.setCollateral row])) :
    (perform (Stmt.creditCollateral userId asset amount)).wlp R C d ws Q := by
  refine wlp_stmt hf fun v b ws' he hv => ?_
  obtain ⟨hneg, -, row, hk, ht, hl, rfl, rfl⟩ := execCreditCollateral_ok he
  obtain rfl := hv.eq_of_ne_nil (by simp)
  exact h row ⟨hneg, hk, ht, hl⟩

theorem wlp_upsertDelta {userId : ℤ} {asset : Asset} {totalDelta lockedDelta : ℤ}
    {Q : Except WalletRepositoryError (Option BalanceSnapshot) → WalletDb → List Write → Prop}
    (hf : ∀ e, C.fails e d) (hnone : Q (.ok none) d ws)
    (hsome : ∀ row : CollateralRow, 0 ≤ totalDelta ∧ 0 ≤ lockedDelta ∧ lockedDelta ≤ totalDelta →
      row.key = (userId, asset) → row.total = (view ws d).total userId asset + totalDelta →
      row.locked = (view ws d).locked userId asset + lockedDelta →
      Q (.ok (some row.snapshot)) d (ws ++ [.setCollateral row])) :
    (perform (Stmt.applyDelta userId asset totalDelta lockedDelta)).wlp R C d ws Q := by
  refine wlp_stmt hf fun v b ws' he hv => ?_
  rcases execApplyDelta_ok he with ⟨rfl, rfl⟩ | ⟨h₁, h₂, h₃, row, hk, ht, hl, rfl, rfl⟩
  · simpa using hnone
  · obtain rfl := hv.eq_of_ne_nil (by simp)
    exact hsome row ⟨h₁, h₂, h₃⟩ hk ht hl

theorem wlp_currentAvailableInTx {userId : ℤ} {asset : Asset}
    {Q : Except WalletRepositoryError ℤ → WalletDb → List Write → Prop}
    (hf : ∀ e, C.fails e d) (h : ∀ available, Q (.ok available) d ws) :
    (currentAvailableInTx userId asset).wlp R C d ws Q := by
  rw [currentAvailableInTx, wlp_bind]
  refine wlp_stmt hf fun v b ws' he _ => ?_
  cases he
  cases (v.userCollaterals.find? (userId, asset)) <;> simpa using h _

theorem wlp_insertReservation {uuid : String} {intent : PlaceOrderIntent}
    {Q : Except WalletRepositoryError Unit → WalletDb → List Write → Prop}
    (hf : ∀ e, C.fails e d)
    (h : ∀ row, IsReservation uuid intent row → (view ws d).Admits row →
      Q (.ok ()) d (ws ++ [.insertReservation row])) :
    (perform (Stmt.insertReservation ("res_" ++ uuid) intent.envelope.userId intent.marginAsset
      intent.requiredMargin intent.envelope.idempotencyKey intent.envelope.requestId)).wlp
      R C d ws Q := by
  refine wlp_stmt hf fun v b ws' he hv => ?_
  obtain ⟨hid, hkey, -, row, h₁, h₂, h₃, h₄, h₅, h₆, h₇, h₈, rfl⟩ := execInsertReservation_ok he
  obtain rfl := hv.eq_of_ne_nil (by simp)
  refine h row ⟨h₁, h₂, h₃, h₄, h₅, h₆, h₇, h₈⟩ ⟨?_, ?_⟩
  · rw [h₁]
    simpa using hid
  · rw [ReservationRow.idempotency, h₂, h₇]
    exact hkey

theorem wlp_reservationInTx (hR : Reads R) {reservationId : String}
    {Q : Except WalletRepositoryError ReservationRecord → WalletDb → List Write → Prop}
    (hf : ∀ e, C.fails e d) (he : ∀ e, Q (.error e) d ws)
    (h : ∀ v read, R v (view ws d) → v.walletReservations.find? reservationId = some read →
      Q (.ok (reservationFromRow read)) d ws) :
    (reservationInTx reservationId).wlp R C d ws Q := by
  rw [reservationInTx, wlp_bind]
  refine wlp_stmt hf fun v b ws' hexec hv => ?_
  cases hexec
  cases hread : v.walletReservations.find? reservationId with
  | none => simpa using he _
  | some read => simpa using h v read (hv.rel hR.refl) hread

theorem wlp_updateReservation {reservationId : String} {remaining : ℤ} {status : ReservationStatus}
    {Q : Except WalletRepositoryError ReservationRecord → WalletDb → List Write → Prop}
    (hf : ∀ e, C.fails e d)
    (h : ∀ now, Reduces (view ws d) reservationId remaining now →
      Q (.ok (reservationFromRow (now.update remaining status))) d
        (ws ++ [.setReservation reservationId remaining status])) :
    (perform (Stmt.updateReservation reservationId remaining status)).wlp R C d ws Q := by
  refine wlp_stmt hf fun v b ws' he hv => ?_
  obtain ⟨now, hnow, h₁, h₂, rfl, rfl⟩ := execUpdateReservation_ok he
  obtain rfl := hv.eq_of_ne_nil (by simp)
  rw [Table.key_of_find? hnow]
  exact h now ⟨hnow, h₁, h₂⟩

theorem wlp_insertLedgerInTx {userId : ℤ} {asset : Asset} {amount : ℤ} {kind referenceId : String}
    {Q : Except WalletRepositoryError Unit → WalletDb → List Write → Prop}
    (hf : ∀ e, C.fails e d)
    (h : (view ws d).walletLedger.find? (userId, asset, kind, referenceId) = none →
      Q (.ok ()) d (ws ++ [.insertLedger { userId, asset, amount, kind, referenceId }])) :
    (insertLedgerInTx userId asset amount kind referenceId).wlp R C d ws Q := by
  refine wlp_stmt hf fun v b ws' he hv => ?_
  simp only [Stmt.exec] at he
  split at he
  · cases he
  · next hfree =>
    split at he
    · cases he
      obtain rfl := hv.eq_of_ne_nil (by simp)
      exact h (by simpa [LedgerRow.key] using hfree)
    · cases he

theorem wlp_insertLedgerOnce (hR : Reads R) {row : LedgerRow}
    {Q : Except WalletRepositoryError Bool → WalletDb → List Write → Prop}
    (hf : ∀ e, C.fails e d)
    (hstored : ∀ v, R v (view ws d) → (v.walletLedger.find? row.key).isSome = true →
      Q (.ok false) d ws)
    (hadded : (view ws d).walletLedger.find? row.key = none →
      Q (.ok true) d (ws ++ [.insertLedger row])) :
    (perform (Stmt.insertLedgerOnce row)).wlp R C d ws Q := by
  refine wlp_stmt hf fun v b ws' he hv => ?_
  simp only [Stmt.exec] at he
  split at he
  · next hsome =>
    cases he
    simpa using hstored v (hv.rel hR.refl) hsome
  · next hfree =>
    split at he
    · cases he
      obtain rfl := hv.eq_of_ne_nil (by simp)
      exact hadded (by simpa using hfree)
    · cases he

theorem wlp_recordIdempotentReplyInTx {envelope : CommandEnvelope} {commandType : String}
    {reply : WalletReply} {Q : Except WalletRepositoryError Unit → WalletDb → List Write → Prop}
    (hf : ∀ e, C.fails e d)
    (h : ∀ w, StoresReply (view ws d).walletIdempotency (replyRow envelope commandType reply) w →
      Q (.ok ()) d (ws ++ [w])) :
    (recordIdempotentReplyInTx envelope.userId commandType envelope.idempotencyKey
      envelope.requestId reply).wlp R C d ws Q := by
  refine wlp_stmt hf fun v b ws' he hv => ?_
  rcases execRecordIdempotentReply_ok he with ⟨old, hold, rfl⟩ | ⟨hfree, -, rfl⟩
  · obtain rfl := hv.eq_of_ne_nil (by simp)
    rw [Table.key_of_find? hold]
    exact h _ (show StoresReply _ (replyRow envelope commandType reply) _ from .kept hold)
  · obtain rfl := hv.eq_of_ne_nil (by simp)
    exact h _ (show StoresReply _ (replyRow envelope commandType reply) _ from .added hfree)

theorem wlp_enqueueOutboxMessagesInTx (hR : Reads R) {messages : List NewWalletOutboxMessage}
    {Q : Except WalletRepositoryError Unit → WalletDb → List Write → Prop}
    (hf : ∀ e, C.fails e d) (he : ∀ e ws, Q (.error e) d ws)
    (h : ∀ out, Enqueues (view ws d).walletOutbox messages out → Q (.ok ()) d (ws ++ out)) :
    (enqueueOutboxMessagesInTx messages).wlp R C d ws Q := by
  induction messages generalizing ws with
  | nil => simpa [enqueueOutboxMessagesInTx] using h [] .nil
  | cons message messages ih =>
    rw [enqueueOutboxMessagesInTx, wlp_bind]
    refine wlp_stmt hf fun v b ws' hexec hv => ?_
    rcases execEnqueueOutboxMessage_ok hexec with ⟨rfl, rfl, -⟩ | ⟨rfl, rfl, hfree⟩
    · simp only [if_true, wlp_bind, List.append_nil]
      refine wlp_stmt hf fun v' b ws' hexec' hv' => ?_
      cases hexec'
      -- A message that is stored already is compared, field by field.
      by_cases hmatch : v'.walletOutbox.find? message.dedupeKey = some message
      · simp only [hmatch, decide_true, if_true, List.append_nil]
        have hstored := (hR.grows (hv'.rel hR.refl)).outbox _ _ hmatch
        exact ih fun out hout => h out (.stored hstored hout)
      · simpa [hmatch] using he _ _
    · obtain rfl := hv.eq_of_ne_nil (by simp)
      simp only [Nat.one_ne_zero, if_false, wlp_bind, wlp_pure, if_true]
      refine ih fun out hout => ?_
      rw [List.append_assoc]
      refine h _ (.added hfree ?_)
      rwa [view, Store.applyAll_append] at hout

end Statements

/-! ## Transactions -/

section Transactions

variable {R : WalletDb → WalletDb → Prop} {C : Contract WalletDb Write WalletRepositoryError}
  {d : WalletDb} {self : WalletProcessor}

/-- What a caller of a transaction owes at its commit. -/
def OnCommit {α : Type} (R : WalletDb → WalletDb → Prop)
    (C : Contract WalletDb Write WalletRepositoryError) (d : WalletDb)
    (Q : Except WalletRepositoryError α → WalletDb → List Write → Prop) (a : α) (ws : List Write) :
    Prop :=
  C.commits d ws ∧ ∀ d', R (view ws d) d' → Q (.ok a) d' []

theorem wlp_applyDeposit (hR : Reads R) {deposit : Deposit}
    {Q : Except WalletRepositoryError BalanceUpdated → WalletDb → List Write → Prop}
    (hf : ∀ e, C.fails e d) (he : ∀ e d' ws, R d d' → Q (.error e) d' ws)
    (hc : ∀ balance ws, Committed self R d (.deposit deposit)
      [depositAppliedEvent (depositDedupeKey deposit) deposit balance] ws →
      OnCommit R C d Q balance ws) :
    (self.applyDeposit deposit).wlp R C d [] Q := by
  rw [WalletProcessor.applyDeposit, applyDepositWithOutbox, wlp_bind]
  refine wlp_creditCollateral hf fun row hcredit => ?_
  dsimp only
  rw [wlp_bind]
  refine wlp_insertLedgerInTx hf fun hledger => ?_
  dsimp only
  rw [wlp_bind]
  refine wlp_recordIdempotentReplyInTx hf fun reply hreply => ?_
  dsimp only
  rw [wlp_bind]
  refine wlp_enqueueOutboxMessagesInTx hR hf (fun e ws => he e d ws (hR.refl d)) fun out hout => ?_
  dsimp only
  rw [wlp_bind, wlp_commitTx]
  rw [walletOutbox_view _ (by simp [hreply.table])] at hout
  exact hc _ _ (.deposit hcredit hledger hreply hout)

theorem wlp_applyWithdraw (hR : Reads R) {withdraw : Withdraw}
    {Q : Except WalletRepositoryError BalanceUpdated → WalletDb → List Write → Prop}
    (hf : ∀ e, C.fails e d) (he : ∀ e d' ws, R d d' → Q (.error e) d' ws)
    (hc : ∀ balance ws, Committed self R d (.withdraw withdraw)
      [withdrawalAppliedEvent (withdrawDedupeKey withdraw) withdraw balance] ws →
      OnCommit R C d Q balance ws) :
    (self.applyWithdraw withdraw).wlp R C d [] Q := by
  rw [WalletProcessor.applyWithdraw, applyWithdrawWithOutbox, wlp_bind]
  refine wlp_updateCollateral hR hf (fun _ _ _ => ?_) fun old row hhit => ?_
  -- No balance covers the amount: what is available is read, and nothing is left.
  · dsimp only
    rw [wlp_bind]
    refine wlp_currentAvailableInTx hf fun available => ?_
    dsimp only
    rw [wlp_bind, wlp_rollbackTx]
    exact fun d' hd => he _ d' [] hd
  · dsimp only
    rw [wlp_bind]
    refine wlp_insertLedgerInTx hf fun hledger => ?_
    dsimp only
    rw [wlp_bind]
    refine wlp_recordIdempotentReplyInTx hf fun reply hreply => ?_
    dsimp only
    rw [wlp_bind]
    refine wlp_enqueueOutboxMessagesInTx hR hf (fun e ws => he e d ws (hR.refl d))
      fun out hout => ?_
    dsimp only
    rw [wlp_bind, wlp_commitTx]
    rw [walletOutbox_view _ (by simp [hreply.table])] at hout
    exact hc _ _ (.withdraw hhit hledger hreply hout)

theorem wlp_reserveFunds (hR : Reads R) {uuid : String} {intent : PlaceOrderIntent}
    {Q : Except WalletRepositoryError FundsReserved → WalletDb → List Write → Prop}
    (hf : ∀ e, C.fails e d) (he : ∀ e d' ws, R d d' → Q (.error e) d' ws)
    (hc : ∀ ws, Committed self R d (.reserve uuid intent)
      [fundsReservedEvent (fundsReservedEventId ("res_" ++ uuid)) intent (fundsReserved uuid intent)]
      ws → OnCommit R C d Q (fundsReserved uuid intent) ws) :
    (self.reserveFunds uuid intent).wlp R C d [] Q := by
  rw [WalletProcessor.reserveFunds, reserveFundsWithOutbox, wlp_bind]
  refine wlp_updateCollateral hR hf (fun _ _ _ => ?_) fun old row hhit => ?_
  · dsimp only
    rw [wlp_bind]
    refine wlp_currentAvailableInTx hf fun available => ?_
    dsimp only
    rw [wlp_bind, wlp_rollbackTx]
    exact fun d' hd => he _ d' [] hd
  · dsimp only
    rw [wlp_bind]
    refine wlp_insertReservation hf fun reservation hreservation hfree => ?_
    dsimp only
    rw [wlp_bind]
    refine wlp_recordIdempotentReplyInTx hf fun reply hreply => ?_
    dsimp only
    rw [wlp_bind]
    refine wlp_enqueueOutboxMessagesInTx hR hf (fun e ws => he e d ws (hR.refl d))
      fun out hout => ?_
    dsimp only
    rw [wlp_bind, wlp_commitTx]
    rw [walletIdempotency_view _ (by simp)] at hreply
    rw [walletOutbox_view _ (by simp [hreply.table])] at hout
    exact hc _ (.reserve hhit hreservation hfree hreply hout)

theorem wlp_releaseReadReservation (hR : Reads R) {release : ReleaseReservation}
    {reservation : ReservationRecord}
    {Q : Except WalletRepositoryError ReservationRecord → WalletDb → List Write → Prop}
    (hf : ∀ e, C.fails e d) (he : ∀ e d' ws, R d d' → Q (.error e) d' ws)
    (hc : ∀ now updated ws, Releases self R d release reservation now ws →
      updated.SameOrder now → OnCommit R C d Q (reservationFromRow updated) ws) :
    (releaseReadReservation release reservation fun reservation =>
      [self.releaseMessage release reservation]).wlp R C d [] Q := by
  unfold releaseReadReservation
  split
  · rw [wlp_bind, wlp_rollbackTx]
    exact fun d' hd => he _ d' [] hd
  · next haccepted =>
    rw [wlp_bind]
    refine wlp_updateCollateral_ignored hR hf fun _ balance hbalance => ?_
    dsimp only
    rw [wlp_bind]
    refine wlp_updateReservation hf fun now hnow => ?_
    dsimp only
    rw [wlp_bind]
    refine wlp_enqueueOutboxMessagesInTx hR hf (fun e ws => he e d ws (hR.refl d))
      fun out hout => ?_
    dsimp only
    rw [wlp_bind, wlp_commitTx]
    simp only [List.nil_append] at hnow hout
    have htable : ∀ w ∈ balance, w.table ≠ .walletReservations ∧ w.table ≠ .walletOutbox := by
      intro w hw
      rw [hbalance.table w hw]
      decide
    -- The row that the update finds is that of the committed table.
    have hfound : d.walletReservations.find? release.reservationId = some now := by
      rw [← walletReservations_view d fun w hw => (htable w hw).1]
      exact hnow.found
    rw [walletOutbox_view _ (by simpa [or_imp, forall_and] using fun w hw => (htable w hw).2),
      self.releaseMessage_congr release (now.sameOrder_update _ _)] at hout
    exact hc now _ _ ⟨by simpa using haccepted, ⟨hfound, hnow.nonneg, hnow.le_amount⟩,
      balance, out, hbalance, hout, by simp⟩ (now.sameOrder_update _ _)

theorem wlp_applyRelease (hR : Reads R) {release : ReleaseReservation}
    {Q : Except WalletRepositoryError ReservationRecord → WalletDb → List Write → Prop}
    (hf : ∀ e, C.fails e d) (he : ∀ e d' ws, R d d' → Q (.error e) d' ws)
    (hc : ∀ reservation ws, Committed self R d (.release release)
      [fundsReleasedEvent (releaseDedupeKey release) release reservation] ws →
      OnCommit R C d Q reservation ws) :
    (self.applyRelease release).wlp R C d [] Q := by
  rw [WalletProcessor.applyRelease, releaseReservationWithOutbox, wlp_bind]
  refine wlp_reservationInTx hR hf (fun e => he e d [] (hR.refl d)) fun v read hv hread => ?_
  refine wlp_releaseReadReservation hR hf he fun now updated ws h hsame => hc _ ws ?_
  rw [fundsReleasedEvent_congr _ _ hsame]
  exact .release hv hread h

theorem wlp_settleCollateral (hR : Reads R) {userId : ℤ} {settle : SettleTrade}
    {Q : Except WalletRepositoryError Unit → WalletDb → List Write → Prop}
    (hf : ∀ e, C.fails e d)
    (h : ∀ balance, SettlesCollateral R d userId settle balance → Q (.ok ()) d balance) :
    (settleCollateral userId settle).wlp R C d [] Q := by
  rw [settleCollateral, settlementCollateralEffect]
  by_cases hsame : isSameAssetReservationConsumption settle = true
  · simp only [hsame, if_true]
    rw [wlp_bind]
    refine wlp_updateCollateral_ignored hR hf fun _ balance hbalance => ?_
    exact h balance (.unlock hsame hbalance)
  · simp only [hsame]
    rw [Bool.not_eq_true] at hsame
    rw [if_neg Bool.false_ne_true]
    dsimp only
    rw [wlp_bind]
    refine wlp_updateCollateral_ignored hR hf fun _ balance hbalance => ?_
    dsimp only
    rw [wlp_bind]
    refine wlp_creditCollateral hf fun row hcredit => ?_
    exact h _ (.transfer hsame hbalance hcredit)

theorem wlp_settleReadReservation (hR : Reads R) {settle : SettleTrade}
    {reservation : ReservationRecord}
    {Q : Except WalletRepositoryError ReservationRecord → WalletDb → List Write → Prop}
    (hf : ∀ e, C.fails e d) (he : ∀ e d' ws, R d d' → Q (.error e) d' ws)
    (hc : ∀ now updated ws, Settles self R d settle reservation now ws →
      updated.SameOrder now → OnCommit R C d Q (reservationFromRow updated) ws) :
    (settleReadReservation settle reservation fun reservation =>
      [self.settleMessage settle reservation]).wlp R C d [] Q := by
  unfold settleReadReservation
  split
  · rw [wlp_bind, wlp_rollbackTx]
    exact fun d' hd => he _ d' [] hd
  · next haccepted =>
    rw [wlp_bind]
    refine wlp_settleCollateral hR hf fun balance hbalance => ?_
    dsimp only
    rw [wlp_bind]
    refine wlp_insertLedgerInTx hf fun hdebit => ?_
    dsimp only
    rw [wlp_bind]
    refine wlp_insertLedgerInTx hf fun hcredit => ?_
    dsimp only
    rw [wlp_bind]
    refine wlp_updateReservation hf fun now hnow => ?_
    dsimp only
    rw [wlp_bind]
    refine wlp_enqueueOutboxMessagesInTx hR hf (fun e ws => he e d ws (hR.refl d))
      fun out hout => ?_
    dsimp only
    rw [wlp_bind, wlp_commitTx]
    have htable : ∀ w ∈ balance, w.table ≠ .walletReservations ∧ w.table ≠ .walletOutbox ∧
        w.table ≠ .walletLedger := by
      intro w hw
      rw [hbalance.table w hw]
      decide
    have hledger := walletLedger_view d fun w hw => (htable w hw).2.2
    have hdebit' : d.walletLedger.find? (debitLedgerRow reservation.userId settle).key = none := by
      rw [← hledger]
      exact hdebit
    -- The row of the debit, inserted just before, has another kind.
    have hcredit' : d.walletLedger.find? (creditLedgerRow reservation.userId settle).key = none := by
      rw [view, Store.applyAll_append] at hcredit
      change ((view balance d).walletLedger.insert _).find? _ = none at hcredit
      rwa [hledger, Table.find?_insert_of_ne (by simp [LedgerRow.key])] at hcredit
    have hfound : d.walletReservations.find? settle.reservationId = some now := by
      rw [← hnow.found, walletReservations_view]
      simpa [or_imp, forall_and] using fun w hw => (htable w hw).1
    rw [walletOutbox_view _ (by simpa [or_imp, forall_and] using fun w hw => (htable w hw).2.1),
      self.settleMessage_congr settle (now.sameOrder_update _ _)] at hout
    exact hc now _ _ ⟨by simpa using haccepted, hdebit', hcredit',
      ⟨hfound, hnow.nonneg, hnow.le_amount⟩, balance, out, hbalance, hout, by simp [debitLedgerRow,
        creditLedgerRow]⟩ (now.sameOrder_update _ _)

theorem wlp_applySettle (hR : Reads R) {settle : SettleTrade}
    {Q : Except WalletRepositoryError ReservationRecord → WalletDb → List Write → Prop}
    (hf : ∀ e, C.fails e d) (he : ∀ e d' ws, R d d' → Q (.error e) d' ws)
    (hc : ∀ reservation ws, Committed self R d (.settle settle)
      [tradeSettledEvent (settleDedupeKey settle) settle reservation] ws →
      OnCommit R C d Q reservation ws) :
    (self.applySettle settle).wlp R C d [] Q := by
  rw [WalletProcessor.applySettle, settleTradeWithOutbox, wlp_bind]
  refine wlp_reservationInTx hR hf (fun e => he e d [] (hR.refl d)) fun v read hv hread => ?_
  refine wlp_settleReadReservation hR hf he fun now updated ws h hsame => hc _ ws ?_
  rw [tradeSettledEvent_congr _ _ hsame]
  exact .settle hv hread h

/-- An account delta commits nothing at all when it is zero, and nothing new
when its ledger row is there. -/
theorem wlp_applyDelta (hR : Reads R) {delta : ApplyAccountDelta}
    {Q : Except WalletRepositoryError (Option BalanceSnapshot) → WalletDb → List Write → Prop}
    (hf : ∀ e, C.fails e d) (he : ∀ e d' ws, R d d' → Q (.error e) d' ws)
    (hzero : delta.totalDelta = 0 ∧ delta.lockedDelta = 0 → Q (.ok none) d [])
    (hduplicate : Committed self R d (.accountDelta delta) [] [] → OnCommit R C d Q none [])
    (hc : ∀ balance ws, Committed self R d (.accountDelta delta)
      [accountDeltaAppliedEvent (accountDeltaDedupeKey delta) delta balance] ws →
      OnCommit R C d Q (some balance) ws) :
    (self.applyDelta delta).wlp R C d [] Q := by
  rw [WalletProcessor.applyDelta, applyAccountDeltaWithOutbox]
  split
  · next h => exact hzero h
  · next hnonzero =>
    rw [wlp_bind]
    refine wlp_insertLedgerOnce hR hf (fun v hv hstored => ?_) fun hledger => ?_
    · dsimp only
      rw [if_neg Bool.false_ne_true, wlp_bind, wlp_commitTx]
      exact hduplicate (.duplicateDelta hv hstored)
    · dsimp only
      rw [if_pos rfl, wlp_bind]
      refine wlp_upsertDelta hf ?_ fun row hsign hkey htotal hlocked => ?_
      · dsimp only
        rw [wlp_bind, wlp_rollbackTx]
        exact fun d' hd => he _ d' [] hd
      · dsimp only
        rw [wlp_bind]
        refine wlp_enqueueOutboxMessagesInTx hR hf (fun e ws => he e d ws (hR.refl d))
          fun out hout => ?_
        dsimp only
        rw [wlp_bind, wlp_commitTx]
        rw [walletOutbox_view _ (by simp)] at hout
        exact hc _ _ (.accountDelta hnonzero hledger hsign hkey htotal hlocked hout)

theorem wlp_recordIdempotentReply {envelope : CommandEnvelope} {commandType : String}
    {reply : WalletReply} {Q : Except WalletRepositoryError Unit → WalletDb → List Write → Prop}
    (hf : ∀ e, C.fails e d)
    (hc : ∀ ws, Committed self R d (.reply envelope commandType reply) [] ws →
      OnCommit R C d Q () ws) :
    (recordIdempotentReply envelope.userId commandType envelope.idempotencyKey envelope.requestId
      reply).wlp R C d [] Q := by
  rw [recordIdempotentReply, wlp_bind]
  refine wlp_recordIdempotentReplyInTx hf fun w hreply => ?_
  exact hc _ (.reply hreply)

theorem wlp_recordCancel (hR : Reads R) {intent : CancelOrderIntent}
    {Q : Except WalletRepositoryError Unit → WalletDb → List Write → Prop}
    (hf : ∀ e, C.fails e d) (he : ∀ e d' ws, R d d' → Q (.error e) d' ws)
    (hc : ∀ ws, Committed self R d (.cancel intent) [] ws → OnCommit R C d Q () ws) :
    (self.recordCancel intent).wlp R C d [] Q := by
  rw [WalletProcessor.recordCancel, recordIdempotentReplyWithOutbox, wlp_bind]
  refine wlp_recordIdempotentReplyInTx hf fun reply hreply => ?_
  dsimp only
  rw [wlp_bind]
  refine wlp_enqueueOutboxMessagesInTx hR hf (fun e ws => he e d ws (hR.refl d)) fun out hout => ?_
  rw [walletOutbox_view _ (by simp [hreply.table])] at hout
  exact hc _ (.cancel hreply hout)

/-- Whatever the processor's transactions commit is what `Committed` says. -/
theorem wlp_program (hR : Reads R) {tx : WalletTx}
    {Q : Except WalletRepositoryError (List WalletEvent) → WalletDb → List Write → Prop}
    (hf : ∀ e, C.fails e d) (he : ∀ e d' ws, R d d' → Q (.error e) d' ws)
    (hzero : ∀ delta, tx = .accountDelta delta → delta.totalDelta = 0 ∧ delta.lockedDelta = 0 →
      Q (.ok []) d [])
    (hc : ∀ events ws, Committed self R d tx events ws → OnCommit R C d Q events ws) :
    (self.program tx).wlp R C d [] Q := by
  cases tx with
  | deposit deposit =>
    rw [WalletProcessor.program, wlp_bind]
    exact wlp_applyDeposit hR hf he fun _ ws h => hc _ ws h
  | withdraw withdraw =>
    rw [WalletProcessor.program, wlp_bind]
    exact wlp_applyWithdraw hR hf he fun _ ws h => hc _ ws h
  | reserve uuid intent =>
    rw [WalletProcessor.program, wlp_bind]
    exact wlp_reserveFunds hR hf he fun ws h => hc _ ws h
  | release release =>
    rw [WalletProcessor.program, WalletProcessor.releaseReservation, wlp_bind, wlp_bind]
    exact wlp_applyRelease hR hf he fun _ ws h => hc _ ws h
  | settle settle =>
    rw [WalletProcessor.program, WalletProcessor.settleTrade, wlp_bind, wlp_bind]
    exact wlp_applySettle hR hf he fun _ ws h => hc _ ws h
  | accountDelta delta =>
    rw [WalletProcessor.program, WalletProcessor.applyAccountDelta, wlp_bind, wlp_bind]
    exact wlp_applyDelta hR hf he (hzero delta rfl) (fun h => hc _ _ h) fun _ ws h => hc _ ws h
  | reply envelope commandType reply =>
    rw [WalletProcessor.program, WalletProcessor.recordReply, wlp_bind, wlp_bind]
    exact wlp_recordIdempotentReply hf fun ws h => hc _ ws h
  | cancel intent =>
    rw [WalletProcessor.program, wlp_bind]
    exact wlp_recordCancel hR hf he fun ws h => hc _ ws h

end Transactions

end Wallet
