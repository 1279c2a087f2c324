import ExchangeServer.Foundation.KeyText
import ExchangeServer.Foundation.LockOrder
import ExchangeServer.Wallet.Deliveries

/-!
# When the wallet does not deadlock

Deliveries lock balances, ledger rows, reservations, stored replies and outbox
messages, in this order; an account delta locks its ledger row first, which no other
transaction locks. A settlement locks two balances of a user, that of the debit and
then that of the credit, so the wallet does not deadlock when the assets have an order
that every settlement follows. Two settlements of a user in opposite directions do wait
for each other.

## Main results

- `wallet_deadlockFree`: deliveries that follow an order of the assets
- `opposite_settlements_stuck`: two settlements that do not
-/

namespace Wallet

open Protocol Relational Transactional Program KeyText

/-- The ledger rows of account deltas. -/
def deltaKinds : List String := ["TRADE_FEE", "FUNDING_PAYMENT", "ACCOUNT_DELTA"]

/-- The order of the locks, given one of the assets. An engine input is queued behind a
wallet event. -/
def lockRank (order : Asset → Fin 7) : Key → ℕ
  | .ledger (_, _, kind, _) =>
    if kind ∈ deltaKinds then 0 else if kind = "TRADE_CREDIT" then 9 else 8
  | .collateral (_, asset) => 1 + order asset
  | .reservation _ | .reservationIdempotency _ => 10
  | .idempotency _ => 11
  | .outbox dedupeKey => if dedupeKey.toList.head? = some 'e' then 13 else 12

theorem lockRank_lt (order : Asset → Fin 7) (k : Key) : lockRank order k < 14 := by
  cases k with
  | ledger key =>
    rw [lockRank]
    split
    · decide
    · split <;> decide
  | collateral key =>
    have hlt := (order key.2).isLt
    rw [lockRank]
    omega
  | outbox dedupeKey =>
    rw [lockRank]
    split <;> decide
  | _ => simp [lockRank]

/-! ## What a statement locks -/

section Locked

variable {d : WalletDb} {ws : List Write} {k : Key}

theorem mem_held_singleton {w : Write} : k ∈ Locking.held Stmt [w] ↔ k ∈ w.keys := by
  rw [Locking.mem_held]
  constructor
  · rintro ⟨w', hw', hk⟩
    rwa [List.mem_singleton.1 hw'] at hk
  · exact fun hk => ⟨w, List.mem_singleton_self w, hk⟩

theorem locked_updateCollateral {update : CollateralUpdate} {userId : ℤ} {asset : Asset} {amount : ℤ}
    {b : Option BalanceSnapshot}
    (h : (Stmt.updateCollateral update userId asset amount).exec d = .ok (b, ws))
    (hk : k ∈ Locking.held Stmt ws) : k = .collateral (userId, asset) := by
  rcases execUpdateCollateral_ok h with ⟨-, rfl, -⟩ | ⟨old, row, hold, -, hkey, -, -, -, rfl⟩
  · cases hk
  · obtain rfl := List.mem_singleton.1 (mem_held_singleton.1 hk)
    rw [hkey, Table.key_of_find? hold]

theorem locked_creditCollateral {userId : ℤ} {asset : Asset} {amount : ℤ} {b : BalanceSnapshot}
    (h : (Stmt.creditCollateral userId asset amount).exec d = .ok (b, ws))
    (hk : k ∈ Locking.held Stmt ws) : k = .collateral (userId, asset) := by
  obtain ⟨-, -, row, hkey, -, -, -, rfl⟩ := execCreditCollateral_ok h
  obtain rfl := List.mem_singleton.1 (mem_held_singleton.1 hk)
  rw [hkey]

theorem locked_applyDelta {userId : ℤ} {asset : Asset} {totalDelta lockedDelta : ℤ}
    {b : Option BalanceSnapshot}
    (h : (Stmt.applyDelta userId asset totalDelta lockedDelta).exec d = .ok (b, ws))
    (hk : k ∈ Locking.held Stmt ws) : k = .collateral (userId, asset) := by
  rcases execApplyDelta_ok h with ⟨-, rfl⟩ | ⟨-, -, -, row, hkey, -, -, -, rfl⟩
  · cases hk
  · obtain rfl := List.mem_singleton.1 (mem_held_singleton.1 hk)
    rw [hkey]

theorem locked_insertLedger {row : LedgerRow} {b : Unit}
    (h : (Stmt.insertLedger row).exec d = .ok (b, ws)) (hk : k ∈ Locking.held Stmt ws) :
    k = .ledger row.key := by
  simp only [Stmt.exec] at h
  split at h
  · cases h
  · split at h
    · cases h
      exact List.mem_singleton.1 (mem_held_singleton.1 hk)
    · cases h

theorem locked_insertLedgerOnce {row : LedgerRow} {b : Bool}
    (h : (Stmt.insertLedgerOnce row).exec d = .ok (b, ws)) (hk : k ∈ Locking.held Stmt ws) :
    k = .ledger row.key := by
  simp only [Stmt.exec] at h
  split at h
  · cases h
    cases hk
  · split at h
    · cases h
      exact List.mem_singleton.1 (mem_held_singleton.1 hk)
    · cases h

theorem lockRank_insertReservation {order : Asset → Fin 7} {reservationId : String} {userId : ℤ}
    {asset : Asset} {amount : ℤ} {idempotencyKey requestId : String} {b : Unit}
    (h : (Stmt.insertReservation reservationId userId asset amount idempotencyKey requestId).exec d =
      .ok (b, ws)) (hk : k ∈ Locking.held Stmt ws) : lockRank order k = 10 := by
  obtain ⟨-, -, -, row, -, -, -, -, -, -, -, -, rfl⟩ := execInsertReservation_ok h
  rcases List.mem_pair.1 (mem_held_singleton.1 hk) with rfl | rfl <;> rfl

theorem lockRank_updateReservation {order : Asset → Fin 7} {reservationId : String} {remaining : ℤ}
    {status : ReservationStatus} {b : ReservationRecord}
    (h : (Stmt.updateReservation reservationId remaining status).exec d = .ok (b, ws))
    (hk : k ∈ Locking.held Stmt ws) : lockRank order k = 10 := by
  obtain ⟨row, -, -, -, -, rfl⟩ := execUpdateReservation_ok h
  obtain rfl := List.mem_singleton.1 (mem_held_singleton.1 hk)
  rfl

theorem lockRank_recordIdempotentReply {order : Asset → Fin 7} {row : IdempotencyRow} {b : Unit}
    (h : (Stmt.recordIdempotentReply row).exec d = .ok (b, ws)) (hk : k ∈ Locking.held Stmt ws) :
    lockRank order k = 11 := by
  rcases execRecordIdempotentReply_ok h with ⟨old, -, rfl⟩ | ⟨-, -, rfl⟩
  · obtain rfl := List.mem_singleton.1 (mem_held_singleton.1 hk)
    rfl
  · obtain rfl := List.mem_singleton.1 (mem_held_singleton.1 hk)
    rfl

theorem locked_enqueueOutboxMessage {message : NewWalletOutboxMessage} {b : ℕ}
    (h : (Stmt.enqueueOutboxMessage message).exec d = .ok (b, ws))
    (hk : k ∈ Locking.held Stmt ws) : k = .outbox message.dedupeKey := by
  rcases execEnqueueOutboxMessage_ok h with ⟨-, rfl, -⟩ | ⟨-, rfl, -⟩
  · cases hk
  · exact List.mem_singleton.1 (mem_held_singleton.1 hk)

end Locked

/-! ## Parts of transactions -/

section Parts

variable {order : Asset → Fin 7} {ws : List Write} {α : Type}

theorem climbs_recordIdempotentReplyInTx {userId : ℤ}
    {commandType idempotencyKey requestId : String} {replyPayload : WalletReply}
    {Q : Unit → List Write → Prop} (hws : Below Stmt (lockRank order) ws 11)
    (hQ : ∀ ws', Below Stmt (lockRank order) ws' 12 → Q () ws') :
    (recordIdempotentReplyInTx userId commandType idempotencyKey requestId replyPayload).Climbs
      (lockRank order) ws Q :=
  climbs_perform_at hws le_rfl (fun _ _ _ he _ hk => lockRank_recordIdempotentReply he hk)
    fun _ => hQ

/-- Messages that are queued in the order of their locks. -/
theorem climbs_enqueueOutboxMessagesInTx {messages : List NewWalletOutboxMessage} {m : ℕ}
    {Q : Unit → List Write → Prop} (hws : Below Stmt (lockRank order) ws m)
    (hsorted : (messages.map fun message => lockRank order (.outbox message.dedupeKey)).Pairwise (· < ·))
    (hle : ∀ message ∈ messages, m ≤ lockRank order (.outbox message.dedupeKey))
    (hQ : ∀ ws', Q () ws') :
    (enqueueOutboxMessagesInTx messages).Climbs (lockRank order) ws Q := by
  induction messages generalizing ws m with
  | nil => exact hQ ws
  | cons message messages ih =>
    rw [List.map_cons, List.pairwise_cons] at hsorted
    refine climbs_bind (climbs_perform_at hws (hle message List.mem_cons_self) ?_ ?_)
    · intro d b ws' he k hk
      rw [locked_enqueueOutboxMessage he hk]
    · intro rowsAffected ws' hws'
      have hrest : (enqueueOutboxMessagesInTx messages).Climbs (lockRank order) ws' Q := by
        refine ih hws' hsorted.2 fun other hother => ?_
        exact hsorted.1 _ (List.mem_map_of_mem hother)
      let next : Bool → Tx Unit := fun accepted =>
        if accepted then enqueueOutboxMessagesInTx messages else fail .idempotencyConflict
      have hnext : ∀ accepted, (next accepted).Climbs (lockRank order) ws' Q := by
        intro accepted
        cases accepted
        · trivial
        · exact hrest
      by_cases hrows : rowsAffected = 0
      · simp only [if_pos hrows]
        refine climbs_bind (climbs_perform_read (fun d b ws'' he => ?_) hnext)
        cases he
        rfl
      · simp only [if_neg hrows]
        exact climbs_bind (hnext true)

/-- A transaction that queues one message and commits. -/
theorem climbs_enqueue_commit {message : NewWalletOutboxMessage} {a : α}
    (hws : Below Stmt (lockRank order) ws 12)
    (hmessage : 12 ≤ lockRank order (.outbox message.dedupeKey)) :
    (do
      enqueueOutboxMessagesInTx [message]
      commitTx
      return a : Tx α).Climbs (lockRank order) ws fun _ ws => ws = [] := by
  refine climbs_bind (climbs_enqueueOutboxMessagesInTx hws (List.pairwise_singleton _ _) ?_ ?_)
  · intro other hother
    rw [List.mem_singleton.1 hother]
    exact hmessage
  · exact fun _ => rfl

/-- An outbox message comes after everything else. -/
theorem le_lockRank_outbox (order : Asset → Fin 7) (dedupeKey : String) :
    12 ≤ lockRank order (.outbox dedupeKey) := by
  rw [lockRank]
  split <;> decide

end Parts

/-! ## Transactions -/

section Transactions

variable {order : Asset → Fin 7} {self : WalletProcessor}

theorem lockRank_collateral (order : Asset → Fin 7) (key : ℤ × Asset) :
    lockRank order (.collateral key) = 1 + order key.2 ∧ 1 + (order key.2 : ℕ) < 8 := by
  have hlt := (order key.2).isLt
  exact ⟨rfl, by omega⟩

theorem climbs_applyDeposit (deposit : Deposit) :
    (self.applyDeposit deposit).Climbs (lockRank order) [] fun _ ws => ws = [] := by
  refine climbs_bind (climbs_perform_at (m := 0) (below_nil 0) (Nat.zero_le _)
    (n := 1 + order deposit.asset) (fun d b ws he k hk => ?_) fun row ws hws => ?_)
  · rw [locked_creditCollateral he hk]
    rfl
  · have hlt := (order deposit.asset).isLt
    refine climbs_bind (climbs_perform_at hws (n := 8) (by omega) (fun d b ws he k hk => ?_)
      fun _ ws hws => climbs_bind (climbs_recordIdempotentReplyInTx
        (fun k hk => (hws k hk).trans_le (by decide)) fun ws hws => ?_))
    · rw [locked_insertLedger he hk]
      rfl
    · exact climbs_enqueue_commit hws (le_lockRank_outbox _ _)

theorem climbs_applyWithdraw (withdraw : Withdraw) :
    (self.applyWithdraw withdraw).Climbs (lockRank order) [] fun _ ws => ws = [] := by
  refine climbs_bind (climbs_perform_at (m := 0) (below_nil 0) (Nat.zero_le _)
    (n := 1 + order withdraw.asset) (fun d b ws he k hk => ?_) fun row ws hws => ?_)
  · rw [locked_updateCollateral he hk]
    rfl
  · cases row with
    | none =>
      refine climbs_bind (climbs_bind (climbs_perform_read (fun d b ws' he => ?_) fun row => ?_))
      · cases he
        rfl
      · cases row <;> trivial
    | some row =>
      have hlt := (order withdraw.asset).isLt
      refine climbs_bind (climbs_perform_at hws (n := 8) (by omega) (fun d b ws he k hk => ?_)
        fun _ ws hws => climbs_bind (climbs_recordIdempotentReplyInTx
          (fun k hk => (hws k hk).trans_le (by decide)) fun ws hws => ?_))
      · rw [locked_insertLedger he hk]
        rfl
      · exact climbs_enqueue_commit hws (le_lockRank_outbox _ _)

/-- Wallet events and engine inputs differ in their first letter. -/
theorem lockRank_outbox_event {dedupeKey : String} (h : dedupeKey.toList.head? = some 'w') :
    lockRank order (.outbox dedupeKey) = 12 := by
  rw [lockRank, h]
  decide

theorem lockRank_outbox_input {dedupeKey : String} (h : dedupeKey.toList.head? = some 'e') :
    lockRank order (.outbox dedupeKey) = 13 := by
  rw [lockRank, h]
  decide

/-- The event of a reservation is queued before the engine input. -/
theorem lockRank_reserveMessages (order : Asset → Fin 7) (intent : PlaceOrderIntent)
    (reserved : FundsReserved) :
    (self.reserveMessages intent reserved).map
      (fun message => lockRank order (.outbox message.dedupeKey)) = [12, 13] := by
  have hevent : (fundsReservedEventId reserved.reservationId).toList.head? = some 'w' :=
    head?_toList_append (by decide)
  have hinput : (placeOrderDedupeKey intent.envelope).toList.head? = some 'e' :=
    head?_toList_append (head?_toList_append (head?_toList_append (by decide)))
  rw [WalletProcessor.reserveMessages, List.map_cons, List.map_singleton]
  exact congrArg₂ (fun m n => [m, n]) (lockRank_outbox_event hevent) (lockRank_outbox_input hinput)

theorem climbs_reserveFunds (uuid : String) (intent : PlaceOrderIntent) :
    (self.reserveFunds uuid intent).Climbs (lockRank order) [] fun _ ws => ws = [] := by
  refine climbs_bind (climbs_perform_at (m := 0) (below_nil 0) (Nat.zero_le _)
    (n := 1 + order intent.marginAsset) (fun d b ws he k hk => ?_) fun row ws hws => ?_)
  · rw [locked_updateCollateral he hk]
    rfl
  · cases row with
    | none =>
      refine climbs_bind (climbs_bind (climbs_perform_read (fun d b ws' he => ?_) fun row => ?_))
      · cases he
        rfl
      · cases row <;> trivial
    | some row =>
      have hlt := (order intent.marginAsset).isLt
      refine climbs_bind (climbs_perform_at hws (n := 10) (by omega)
        (fun d b ws he k hk => lockRank_insertReservation he hk) fun _ ws hws =>
          climbs_bind (climbs_recordIdempotentReplyInTx hws fun ws hws =>
            climbs_bind (climbs_enqueueOutboxMessagesInTx (m := 12) hws ?_
              (fun message _ => le_lockRank_outbox order message.dedupeKey) fun _ => rfl)))
      rw [lockRank_reserveMessages]
      decide

theorem climbs_recordCancel (intent : CancelOrderIntent) :
    (self.recordCancel intent).Climbs (lockRank order) [] fun _ ws => ws = [] :=
  climbs_bind (climbs_recordIdempotentReplyInTx (below_nil 11) fun _ hws =>
    climbs_bind (climbs_enqueueOutboxMessagesInTx hws (List.pairwise_singleton _ _)
      (fun message _ => le_lockRank_outbox order message.dedupeKey) fun _ => rfl))

theorem climbs_recordReply (envelope : CommandEnvelope) (commandType : String)
    (reply : WalletReply) :
    (WalletProcessor.recordReply envelope commandType reply).Climbs (lockRank order) []
      fun _ ws => ws = [] :=
  climbs_bind (climbs_bind (climbs_recordIdempotentReplyInTx (below_nil 11) fun _ _ => rfl))

/-- The reservation of a transaction is read before anything is locked. -/
theorem climbs_reservationInTx {reservationId : String} {α : Type}
    {f : ReservationRecord → Tx α} {Q : α → List Write → Prop}
    (hf : ∀ reservation, (f reservation).Climbs (lockRank order) [] Q) :
    (reservationInTx reservationId >>= f).Climbs (lockRank order) [] Q := by
  refine climbs_bind (climbs_bind (climbs_perform_read (fun d b ws he => ?_) fun row => ?_))
  · cases he
    rfl
  · cases row with
    | none => trivial
    | some reservation => exact hf reservation

theorem climbs_applyRelease (release : ReleaseReservation) :
    (self.applyRelease release).Climbs (lockRank order) [] fun _ ws => ws = [] := by
  refine climbs_reservationInTx fun reservation => ?_
  rw [releaseReadReservation]
  split
  · trivial
  · refine climbs_bind (climbs_perform_at (m := 0) (below_nil 0) (Nat.zero_le _)
      (n := 1 + order reservation.asset) (fun d b ws he k hk => ?_) fun row ws hws => ?_)
    · rw [locked_updateCollateral he hk]
      rfl
    · have hlt := (order reservation.asset).isLt
      exact climbs_bind (climbs_perform_at hws (n := 10) (by omega)
        (fun d b ws he k hk => lockRank_updateReservation he hk) fun updated ws hws =>
          climbs_enqueue_commit (fun k hk => (hws k hk).trans_le (by decide))
            (le_lockRank_outbox _ _))

/-- The assets of a settlement are in order. -/
def InOrder (order : Asset → Fin 7) (settle : SettleTrade) : Prop :=
  settle.debitAsset ≠ settle.creditAsset → order settle.debitAsset < order settle.creditAsset

/-- The balances of a settlement. -/
theorem climbs_settleCollateral {userId : ℤ} {settle : SettleTrade} {Q : Unit → List Write → Prop}
    (horder : InOrder order settle)
    (hQ : ∀ ws, Below Stmt (lockRank order) ws 8 → Q () ws) :
    (settleCollateral userId settle).Climbs (lockRank order) [] Q := by
  have hdebit := lockRank_collateral order (userId, settle.debitAsset)
  have hcredit := lockRank_collateral order (userId, settle.creditAsset)
  rw [settleCollateral]
  split
  · refine climbs_bind (climbs_perform_at (m := 0) (below_nil 0) (Nat.zero_le _)
      (n := 1 + order settle.debitAsset) (fun d b ws he k hk => ?_) fun row ws hws => ?_)
    · rw [locked_updateCollateral he hk]
      rfl
    · exact hQ ws fun k hk => (hws k hk).trans_le hdebit.2
  · by_cases hsame : settle.debitAsset = settle.creditAsset
    · -- The balance of the credit is locked already.
      refine climbs_bind (climbs_perform_same (j := .collateral (userId, settle.debitAsset))
        (fun k hk => absurd hk List.not_mem_nil)
        (fun d b ws he k hk => locked_updateCollateral he hk) fun row ws hws => ?_)
      refine climbs_bind (climbs_perform_same hws (fun d b ws he k hk => ?_) fun row ws hws => ?_)
      · rw [hsame]
        exact locked_creditCollateral he hk
      · refine hQ ws fun k hk => ?_
        rw [hws k hk, hdebit.1]
        exact hdebit.2
    · have hlt : (order settle.debitAsset : ℕ) < order settle.creditAsset := horder hsame
      refine climbs_bind (climbs_perform_at (m := 0) (below_nil 0) (Nat.zero_le _)
        (n := 1 + order settle.debitAsset) (fun d b ws he k hk => ?_) fun row ws hws => ?_)
      · rw [locked_updateCollateral he hk]
        rfl
      · refine climbs_bind (climbs_perform_at hws (n := 1 + order settle.creditAsset) (by omega)
          (fun d b ws he k hk => ?_) fun row ws hws => ?_)
        · rw [locked_creditCollateral he hk]
          rfl
        · exact hQ ws fun k hk => (hws k hk).trans_le hcredit.2

theorem climbs_applySettle {settle : SettleTrade} (horder : InOrder order settle) :
    (self.applySettle settle).Climbs (lockRank order) [] fun _ ws => ws = [] := by
  refine climbs_reservationInTx fun reservation => ?_
  rw [settleReadReservation]
  split
  · trivial
  · refine climbs_bind (climbs_settleCollateral horder fun ws hws =>
      climbs_bind (climbs_perform_at hws le_rfl (fun d b ws he k hk => ?_) fun _ ws hws =>
        climbs_bind (climbs_perform_at hws le_rfl (fun d b ws he k hk => ?_) fun _ ws hws =>
          climbs_bind (climbs_perform_at hws le_rfl
            (fun d b ws he k hk => lockRank_updateReservation he hk) fun updated ws hws =>
              climbs_enqueue_commit (fun k hk => (hws k hk).trans_le (by decide))
                (le_lockRank_outbox _ _)))))
    · rw [locked_insertLedger he hk]
      rfl
    · rw [locked_insertLedger he hk]
      rfl

/-- The ledger row of an account delta is locked before its balance. -/
theorem climbs_applyDelta {delta : ApplyAccountDelta} (hkind : delta.kind ∈ deltaKinds) :
    (self.applyDelta delta).Climbs (lockRank order) [] fun _ ws => ws = [] := by
  rw [WalletProcessor.applyDelta, applyAccountDeltaWithOutbox]
  split
  · rfl
  · refine climbs_bind (climbs_perform_at (m := 0) (below_nil 0) le_rfl
      (fun d b ws he k hk => ?_) fun inserted ws hws => ?_)
    · rw [locked_insertLedgerOnce he hk]
      exact if_pos hkind
    · cases inserted with
      | false => rfl
      | true =>
        refine climbs_bind (climbs_perform_at hws (n := 1 + order delta.asset) (by omega)
          (fun d b ws he k hk => ?_) fun balance ws hws => ?_)
        · rw [locked_applyDelta he hk]
          rfl
        · have hlt := (order delta.asset).isLt
          cases balance with
          | none => trivial
          | some snapshot =>
            exact climbs_enqueue_commit (fun k hk => (hws k hk).trans_le (by omega))
              (le_lockRank_outbox _ _)

end Transactions

/-! ## Deliveries -/

section Deliveries

variable {order : Asset → Fin 7} {self : WalletProcessor}

/-- The settlements that a delivery asks for are in order. -/
def Delivery.InOrder (order : Asset → Fin 7) (delivery : Delivery) : Prop :=
  ∀ settle, delivery.Issues (.settle settle) → Wallet.InOrder order settle

/-- The account deltas of engine events are of three kinds. -/
theorem deltaKind_of_engineEvent {event : EngineEvent} {delta : ApplyAccountDelta}
    (h : .applyAccountDelta delta ∈ engineWalletCommandsFromEngineEvent event) :
    delta.kind ∈ deltaKinds := by
  cases event with
  | tradeExecuted trade =>
    rcases List.mem_append.1 h with h | h
    · obtain ⟨settlement, -, heq⟩ := List.mem_map.1 h
      cases heq
    · obtain ⟨i, hi, heq⟩ := List.mem_mapIdx.1 h
      cases heq
      exact List.mem_cons_self
  | fundingPaymentApplied event =>
    obtain ⟨i, hi, heq⟩ := List.mem_mapIdx.1 h
    cases heq
    exact List.mem_cons_of_mem _ List.mem_cons_self
  | accountDelta event =>
    cases List.mem_singleton.1 h
    exact List.mem_cons_of_mem _ (List.mem_cons_of_mem _ List.mem_cons_self)
  | orderCancelled event | orderExpired event | reservationReleased event =>
    simp only [engineWalletCommandsFromEngineEvent, releaseReservationCommand] at h
    split at h
    · cases h
    · cases List.mem_singleton.1 h
  | _ => cases h

theorem climbs_processEngineCommand {command : EngineWalletCommand}
    (hsettle : ∀ settle, command = .settleTrade settle → InOrder order settle)
    (hdelta : ∀ delta, command = .applyAccountDelta delta → delta.kind ∈ deltaKinds) :
    (self.processEngineCommand command).Climbs (lockRank order) [] fun _ ws => ws = [] := by
  cases command with
  | releaseReservation release =>
    exact climbs_bind (climbs_mono (climbs_applyRelease release) fun _ _ hws => hws)
  | settleTrade settle =>
    exact climbs_bind (climbs_mono (climbs_applySettle (hsettle settle rfl)) fun _ _ hws => hws)
  | applyAccountDelta delta =>
    refine climbs_bind (climbs_mono (climbs_applyDelta (hdelta delta rfl)) fun balance _ hws => ?_)
    cases balance <;> exact hws

/-- The stored reply of an earlier delivery, or the command itself. -/
theorem climbs_existing {envelope : CommandEnvelope} {commandType : String}
    {p : Tx WalletProcessResult} (hp : p.Climbs (lockRank order) [] fun _ ws => ws = []) :
    (do
      let existing ← getIdempotentReply envelope.userId commandType envelope.idempotencyKey
      match existingReply existing envelope.requestId with
      | some reply => return replyResult reply
      | none => p : Tx WalletProcessResult).Climbs (lockRank order) [] fun _ ws => ws = [] := by
  refine climbs_bind (climbs_perform_read (fun d b ws he => ?_) fun reply => ?_)
  · cases he
    rfl
  · cases existingReply reply envelope.requestId with
    | none => exact hp
    | some reply => rfl

theorem climbs_processCommand {uuid : String} {command : WalletCommand}
    (hsettle : ∀ settle, command = .settleTrade settle → InOrder order settle) :
    (self.processCommand uuid command).Climbs (lockRank order) [] fun _ ws => ws = [] := by
  cases command with
  | placeOrderIntent intent =>
    refine climbs_existing (climbs_bind (climbs_attempt (climbs_mono (climbs_reserveFunds uuid intent)
      fun _ _ hws => hws) fun e => ?_))
    cases e with
    | insufficientFunds available => exact climbs_recordReply _ _ _
    | _ => trivial
  | cancelOrderIntent intent =>
    exact climbs_existing (climbs_bind (climbs_mono (climbs_recordCancel intent) fun _ _ hws => hws))
  | deposit deposit =>
    exact climbs_existing (climbs_bind (climbs_mono (climbs_applyDeposit deposit) fun _ _ hws => hws))
  | withdraw withdraw =>
    refine climbs_existing (climbs_bind (climbs_attempt (climbs_mono (climbs_applyWithdraw withdraw)
      fun _ _ hws => hws) fun e => ?_))
    cases e with
    | insufficientFunds available => exact climbs_recordReply _ _ _
    | _ => trivial
  | releaseReservation release =>
    exact climbs_bind (climbs_mono (climbs_applyRelease release) fun _ _ hws => hws)
  | settleTrade settle =>
    exact climbs_bind (climbs_mono (climbs_applySettle (hsettle settle rfl)) fun _ _ hws => hws)

theorem climbs_processEngineCommands {commands : List EngineWalletCommand}
    (hsettle : ∀ settle, .settleTrade settle ∈ commands → InOrder order settle)
    (hdelta : ∀ delta, .applyAccountDelta delta ∈ commands → delta.kind ∈ deltaKinds) :
    (processEngineCommands self commands).Climbs (lockRank order) [] fun _ _ => True := by
  induction commands with
  | nil => trivial
  | cons command commands ih =>
    refine climbs_bind (climbs_mono (climbs_processEngineCommand ?_ ?_) ?_)
    · rintro settle rfl
      exact hsettle settle List.mem_cons_self
    · rintro delta rfl
      exact hdelta delta List.mem_cons_self
    · rintro _ _ rfl
      exact ih (fun settle h => hsettle settle (List.mem_cons_of_mem _ h))
        fun delta h => hdelta delta (List.mem_cons_of_mem _ h)

theorem climbs_deliver {delivery : Delivery} (h : delivery.InOrder order) :
    (self.deliver delivery).Climbs (lockRank order) [] fun _ _ => True := by
  cases delivery with
  | command uuid command =>
    refine climbs_bind (climbs_mono (climbs_processCommand ?_) fun _ _ _ => trivial)
    rintro settle rfl
    exact h settle .settle
  | event event =>
    exact climbs_processEngineCommands (fun settle hmem => h settle (.engineCommand hmem))
      fun delta hmem => deltaKind_of_engineEvent hmem

end Deliveries

/-- After any schedule of deliveries whose settlements follow an order of the assets, no
deliveries wait for each other in a circle, and behind every one there is one that has
ended or has a next step. -/
theorem wallet_deadlockFree (self : WalletProcessor) (users : List ℤ) (order : Asset → Fin 7)
    (actions : List (Action Delivery))
    (horder : ∀ t delivery, .start t delivery ∈ actions → delivery.InOrder order)
    (σ : DeliverySystem) (h : self.deliverAll users actions = some σ) :
    σ.DeadlockFree self.deliver := by
  have hordered : System.Ordered (lockRank order) σ := by
    refine (System.ordered_initial (lockRank order) (WalletDb.empty users)).steps
      (fun t delivery hstart => ?_) h
    exact climbs_deliver (horder t delivery hstart)
  exact hordered.deadlockFree (System.wellFounded_of_bounded (lockRank_lt order))

/-! ## Two settlements -/

section Opposite

/-- User 1 deposits 100 of an asset, under the key `key`. -/
def depositOfAsset (asset : Asset) (key : String) : Delivery :=
  .command "" (.deposit
    { envelope := { requestId := "r", userId := 1, idempotencyKey := key, replyPartition := 0 },
      asset, amount := 100, referenceId := key })

/-- User 1 reserves 50 of an asset, with the random value `uuid`. -/
def reserveOfAsset (asset : Asset) (uuid : String) : Delivery :=
  .command uuid (.placeOrderIntent
    { envelope :=
        { requestId := "r", userId := 1, idempotencyKey := uuid, replyPartition := 0 },
      orderId := 1, marketId := 1, marketName := "BTC-USDC", side := .LONG, orderType := .LIMIT,
      quantity := 1, price := 50, marginAsset := asset, requiredMargin := 50, leverage := 1,
      reduceOnly := false })

/-- The reservation pays for the other asset. -/
def settleFor (debitAsset creditAsset : Asset) (reservationId : String) : Delivery :=
  .command "" (.settleTrade
    { fillId := 1, reservationId, debitAsset, debitAmount := 50, creditAsset, creditAmount := 50 })

/-- The actions of a session that commits after `n` statements. -/
def runAlone (t n : ℕ) (delivery : Delivery) : List (Action Delivery) :=
  .start t delivery :: List.replicate n (.exec t) ++ [.commit t, .close t]

/-- A settlement of USDC for BTC has locked its debit, and another settlement waits
behind it. -/
def settlementsInOrder : List (Action Delivery) :=
  runAlone 0 5 (depositOfAsset .USDC "a") ++ runAlone 0 6 (reserveOfAsset .USDC "u") ++
    runAlone 0 6 (reserveOfAsset .USDC "v") ++
    [.start 1 (settleFor .USDC .BTC "res_u"), .start 2 (settleFor .USDC .BTC "res_v"),
      .exec 1, .exec 2, .exec 1]

theorem wallet_deadlockFree_settlements :
    ∃ σ, WalletProcessor.new.deliverAll [1] settlementsInOrder = some σ ∧
      σ.owner (.collateral (1, .USDC)) = some 1 ∧ ∀ t, ¬Relation.TransGen σ.WaitsFor t t := by
  have hfinal : (WalletProcessor.new.deliverAll [1] settlementsInOrder).map (fun σ =>
      σ.owner (.collateral (1, .USDC))) = some (some 1) := by decide
  obtain ⟨σ, hσ, howner⟩ := Option.map_eq_some_iff.1 hfinal
  let order : Asset → Fin 7 := fun asset => if asset = .USDC then 0 else 1
  have horder : ∀ t delivery, .start t delivery ∈ settlementsInOrder → delivery.InOrder order := by
    intro t delivery hstart
    simp only [settlementsInOrder, runAlone, List.mem_append, List.mem_cons, List.mem_replicate,
      List.not_mem_nil, Action.start.injEq, reduceCtorEq, and_false, or_false] at hstart
    rcases hstart with ((⟨-, rfl⟩ | ⟨-, rfl⟩) | ⟨-, rfl⟩) | ⟨-, rfl⟩ | ⟨-, rfl⟩ <;> intro settle h <;>
      cases h <;> exact fun _ => by decide
  exact ⟨σ, hσ, howner, (wallet_deadlockFree .new [1] order _ horder σ hσ).not_in_circle⟩

/-- A settlement of USDC for BTC and one of BTC for USDC have locked their debits. -/
def oppositeSettlements : List (Action Delivery) :=
  runAlone 0 5 (depositOfAsset .USDC "a") ++ runAlone 0 5 (depositOfAsset .BTC "b") ++
    runAlone 0 6 (reserveOfAsset .USDC "u") ++ runAlone 0 6 (reserveOfAsset .BTC "v") ++
    [.start 1 (settleFor .USDC .BTC "res_u"), .start 2 (settleFor .BTC .USDC "res_v"),
      .exec 1, .exec 2, .exec 1, .exec 2]

/-- The session has neither ended nor a next step. -/
def Stuck (self : WalletProcessor) (σ : DeliverySystem) (t : ℕ) : Bool :=
  (match σ.sessions t with
    | some ⟨_, .ret _, _⟩ => false
    | _ => true) &&
    [Action.exec t, .commit t, .rollback t].all fun a => (σ.step self.deliver a).isNone

theorem not_canGoOn {self : WalletProcessor} {σ : DeliverySystem} {t : ℕ}
    (h : Stuck self σ t = true) : ¬σ.CanGoOn self.deliver t := by
  rw [Stuck, Bool.and_eq_true, List.all_eq_true] at h
  rintro (⟨l, result, ws, hs⟩ | ⟨a, ha, hstep⟩)
  · rw [hs] at h
    exact Bool.false_ne_true h.1
  · have hnone := h.2 a ha
    rw [Option.isNone_iff_eq_none] at hnone
    rw [hnone] at hstep
    exact Bool.false_ne_true hstep

theorem opposite_settlements_stuck :
    ∃ σ, WalletProcessor.new.deliverAll [1] oppositeSettlements = some σ ∧
      ∀ t ∈ [1, 2], ¬σ.CanGoOn WalletProcessor.new.deliver t := by
  have hstuck : (WalletProcessor.new.deliverAll [1] oppositeSettlements).map (fun σ =>
      [1, 2].all (Stuck .new σ)) = some true := by decide
  obtain ⟨σ, hσ, hall⟩ := Option.map_eq_some_iff.1 hstuck
  exact ⟨σ, hσ, fun t ht => not_canGoOn (List.all_eq_true.1 hall t ht)⟩

end Opposite

end Wallet
