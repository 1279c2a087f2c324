import ExchangeServer.Foundation.KeyText
import ExchangeServer.Wallet.Deliveries

/-!
# Where the rows of the wallet come from

Every message in the outbox was queued by one of the wallet's transactions
together with the stored reply, the ledger row or the reservation that the same
transaction wrote, and its dedupe key tells which transaction that was. This is
what uniqueness across deliveries rests on: whoever meets a message under a
dedupe key knows what else is stored.
-/

namespace Wallet

open Protocol Relational Transactional Program

/-! ## Dedupe keys -/

/-- The kinds of messages the wallet queues. -/
inductive MessageKind
  | depositApplied | withdrawalApplied | fundsReserved | fundsReleased | tradeSettled
  | accountDeltaApplied | placeOrder | cancelOrder

/-- What the dedupe keys of a kind start with. -/
def MessageKind.head : MessageKind → String
  | depositApplied => "wallet-event:deposit-applied:"
  | withdrawalApplied => "wallet-event:withdrawal-applied:"
  | fundsReserved => "wallet-event:funds-reserved:"
  | fundsReleased => "wallet-event:funds-released:"
  | tradeSettled => "wallet-event:trade-settled:"
  | accountDeltaApplied => "wallet-event:account-delta-applied:"
  | placeOrder => "engine-input:place-order:"
  | cancelOrder => "engine-input:cancel-order:"

/-- Keys of different kinds differ. -/
theorem MessageKind.head_injective {a b : MessageKind} {s t : String}
    (h : a.head ++ s = b.head ++ t) : a = b := by
  by_contra hne
  refine KeyText.append_ne_of_apart ?_ s t h
  cases a <;> cases b <;> first | exact absurd rfl hne | decide

/-- The dedupe key of a command of a user. -/
def MessageKind.userKey (kind : MessageKind) (envelope : CommandEnvelope) : String :=
  kind.head ++ toString envelope.userId ++ ":" ++ envelope.idempotencyKey

theorem MessageKind.userKey_eq (kind : MessageKind) (envelope : CommandEnvelope) :
    kind.userKey envelope = kind.head ++ (toString envelope.userId ++ ":" ++ envelope.idempotencyKey) := by
  simp only [userKey, String.append_assoc]

theorem MessageKind.userKey_congr (kind : MessageKind) {envelope envelope' : CommandEnvelope}
    (huser : envelope.userId = envelope'.userId)
    (hkey : envelope.idempotencyKey = envelope'.idempotencyKey) :
    kind.userKey envelope = kind.userKey envelope' := by
  rw [userKey, userKey, huser, hkey]

/-- The dedupe key of a command tells its user and idempotency key. -/
theorem MessageKind.userKey_injective (kind : MessageKind) {envelope envelope' : CommandEnvelope}
    (h : kind.userKey envelope = kind.userKey envelope') :
    envelope.userId = envelope'.userId ∧ envelope.idempotencyKey = envelope'.idempotencyKey := by
  rw [userKey_eq, userKey_eq] at h
  obtain ⟨huser, hkey⟩ := KeyText.split_left (KeyText.colonFree_int _) (KeyText.colonFree_int _)
    ((String.append_right_inj _).1 h)
  exact ⟨KeyText.toString_int_inj huser, hkey⟩

private theorem append_two (h a b : String) : h ++ a ++ ":" ++ b = h ++ (a ++ ":" ++ b) := by
  simp only [String.append_assoc]

private theorem append_three (h a b c : String) :
    h ++ a ++ ":" ++ b ++ ":" ++ c = h ++ (a ++ ":" ++ b ++ ":" ++ c) := by
  simp only [String.append_assoc]

private theorem append_four (h a b c e : String) :
    h ++ a ++ ":" ++ b ++ ":" ++ c ++ ":" ++ e = h ++ (a ++ ":" ++ b ++ ":" ++ c ++ ":" ++ e) := by
  simp only [String.append_assoc]

theorem releaseDedupeKey_eq (release : ReleaseReservation) :
    releaseDedupeKey release = MessageKind.fundsReleased.head ++
      (release.reservationId ++ ":" ++ release.reason ++ ":" ++ toString release.amount) :=
  append_three MessageKind.fundsReleased.head _ _ _

theorem settleDedupeKey_eq (settle : SettleTrade) :
    settleDedupeKey settle = MessageKind.tradeSettled.head ++
      (toString settle.fillId ++ ":" ++ settle.reservationId) :=
  append_two MessageKind.tradeSettled.head _ _

theorem accountDeltaDedupeKey_eq (delta : ApplyAccountDelta) :
    accountDeltaDedupeKey delta = MessageKind.accountDeltaApplied.head ++
      (delta.kind ++ ":" ++ delta.referenceId ++ ":" ++ toString delta.userId ++ ":" ++
        delta.asset.name) :=
  append_four MessageKind.accountDeltaApplied.head _ _ _ _

/-- The messages of a reservation have different keys. -/
theorem placeOrderDedupeKey_ne (envelope : CommandEnvelope) (reservationId : String) :
    placeOrderDedupeKey envelope ≠ fundsReservedEventId reservationId := by
  intro heq
  have hhead : MessageKind.placeOrder.head ++
      (toString envelope.userId ++ ":" ++ envelope.idempotencyKey) =
        MessageKind.fundsReserved.head ++ reservationId :=
    (MessageKind.placeOrder.userKey_eq envelope).symm.trans heq
  cases MessageKind.head_injective hhead

/-! ## Origins -/

/-- The columns of a reservation that an order gives it for good. -/
structure OrderOf (uuid : String) (intent : PlaceOrderIntent) (row : ReservationRow) : Prop where
  reservationId : row.reservationId = "res_" ++ uuid
  userId : row.userId = intent.envelope.userId
  asset : row.asset = intent.marginAsset
  amount : row.amount = intent.requiredMargin
  idempotencyKey : row.idempotencyKey = intent.envelope.idempotencyKey

theorem IsReservation.orderOf {uuid : String} {intent : PlaceOrderIntent} {row : ReservationRow}
    (h : IsReservation uuid intent row) : OrderOf uuid intent row :=
  ⟨h.reservationId, h.userId, h.asset, h.amount, h.idempotencyKey⟩

theorem OrderOf.congr {uuid : String} {intent : PlaceOrderIntent} {row row' : ReservationRow}
    (h : OrderOf uuid intent row) (hsame : row'.SameOrder row) : OrderOf uuid intent row' := by
  obtain ⟨h₁, h₂, h₃, h₄, h₅, -⟩ := hsame
  exact ⟨h₁.trans h.reservationId, h₂.trans h.userId, h₃.trans h.asset, h₄.trans h.amount,
    h₅.trans h.idempotencyKey⟩

/-- A reply to a command is stored. -/
def Replied (d : WalletDb) (commandType : String) (envelope : CommandEnvelope) : Prop :=
  (d.walletIdempotency.find? (envelope.userId, commandType, envelope.idempotencyKey)).isSome

/-- The transaction that has queued a message, with what it has stored besides. -/
inductive Origin (self : WalletProcessor) (d : WalletDb) : NewWalletOutboxMessage → Prop
  | deposit {deposit balance} (hreply : Replied d "Deposit" deposit.envelope)
    (hledger : (d.walletLedger.find? (depositLedgerRow deposit).key).isSome)
    (hasset : balance.asset = deposit.asset) : Origin self d (self.depositMessage deposit balance)
  | withdraw {withdraw balance} (hreply : Replied d "Withdraw" withdraw.envelope)
    (hledger : (d.walletLedger.find? (withdrawLedgerRow withdraw).key).isSome)
    (hasset : balance.asset = withdraw.asset) :
    Origin self d (self.withdrawMessage withdraw balance)
  | reserved {uuid intent row}
    (hrow : d.walletReservations.find? ("res_" ++ uuid) = some row)
    (horder : OrderOf uuid intent row) :
    Origin self d (self.fundsReservedMessage intent (fundsReserved uuid intent))
  | placeOrder {uuid intent row} (hrow : d.walletReservations.find? ("res_" ++ uuid) = some row)
    (horder : OrderOf uuid intent row) :
    Origin self d (self.placeOrderMessage intent (fundsReserved uuid intent))
  | cancel {intent} (hreply : Replied d "CancelOrderIntent" intent.envelope) :
    Origin self d (self.cancelMessage intent)
  | release {release reservation} : Origin self d (self.releaseMessage release reservation)
  | settle {settle reservation} : Origin self d (self.settleMessage settle reservation)
  | accountDelta {delta balance} : Origin self d (self.accountDeltaMessage delta balance)

section

variable {self : WalletProcessor} {d d' : WalletDb} {message : NewWalletOutboxMessage}

theorem Replied.mono {commandType : String} {envelope : CommandEnvelope} (hgrows : d.Grows d')
    (h : Replied d commandType envelope) : Replied d' commandType envelope :=
  hgrows.isSome_idempotency h

theorem Origin.mono (hgrows : d.Grows d') (h : Origin self d message) : Origin self d' message := by
  cases h with
  | deposit hreply hledger hasset =>
    exact .deposit (hreply.mono hgrows) (hgrows.isSome_ledger hledger) hasset
  | withdraw hreply hledger hasset =>
    exact .withdraw (hreply.mono hgrows) (hgrows.isSome_ledger hledger) hasset
  | reserved hrow horder =>
    obtain ⟨row', hrow', hsame⟩ := hgrows.reservation _ _ hrow
    exact .reserved hrow' (horder.congr hsame)
  | placeOrder hrow horder =>
    obtain ⟨row', hrow', hsame⟩ := hgrows.reservation _ _ hrow
    exact .placeOrder hrow' (horder.congr hsame)
  | cancel hreply => exact .cancel (hreply.mono hgrows)
  | release => exact .release
  | settle => exact .settle
  | accountDelta => exact .accountDelta

/-- The kind of a message by its origin. -/
theorem Origin.kind_cases (h : Origin self d message) {kind : MessageKind} {rest : String}
    (hkey : message.dedupeKey = kind.head ++ rest) :
    match kind with
    | .depositApplied => ∃ deposit balance, message = self.depositMessage deposit balance ∧
        Replied d "Deposit" deposit.envelope ∧
        (d.walletLedger.find? (depositLedgerRow deposit).key).isSome ∧ balance.asset = deposit.asset
    | .withdrawalApplied => ∃ withdraw balance, message = self.withdrawMessage withdraw balance ∧
        Replied d "Withdraw" withdraw.envelope ∧
        (d.walletLedger.find? (withdrawLedgerRow withdraw).key).isSome ∧
        balance.asset = withdraw.asset
    | .fundsReserved => ∃ uuid intent row,
        message = self.fundsReservedMessage intent (fundsReserved uuid intent) ∧
        d.walletReservations.find? ("res_" ++ uuid) = some row ∧ OrderOf uuid intent row
    | .placeOrder => ∃ uuid intent row,
        message = self.placeOrderMessage intent (fundsReserved uuid intent) ∧
        d.walletReservations.find? ("res_" ++ uuid) = some row ∧ OrderOf uuid intent row
    | .cancelOrder => ∃ intent, message = self.cancelMessage intent ∧
        Replied d "CancelOrderIntent" intent.envelope
    | .fundsReleased | .tradeSettled | .accountDeltaApplied => True := by
  cases h with
  | @deposit deposit balance hreply hledger hasset =>
    obtain rfl := MessageKind.head_injective
      (((MessageKind.depositApplied.userKey_eq deposit.envelope).symm).trans hkey)
    exact ⟨deposit, balance, rfl, hreply, hledger, hasset⟩
  | @withdraw withdraw balance hreply hledger hasset =>
    obtain rfl := MessageKind.head_injective
      (((MessageKind.withdrawalApplied.userKey_eq withdraw.envelope).symm).trans hkey)
    exact ⟨withdraw, balance, rfl, hreply, hledger, hasset⟩
  | @reserved uuid intent row hrow horder =>
    have hhead : MessageKind.fundsReserved.head ++ ("res_" ++ uuid) = kind.head ++ rest := hkey
    obtain rfl := MessageKind.head_injective hhead
    exact ⟨uuid, intent, row, rfl, hrow, horder⟩
  | @placeOrder uuid intent row hrow horder =>
    obtain rfl := MessageKind.head_injective
      (((MessageKind.placeOrder.userKey_eq intent.envelope).symm).trans hkey)
    exact ⟨uuid, intent, row, rfl, hrow, horder⟩
  | @cancel intent hreply =>
    obtain rfl := MessageKind.head_injective
      (((MessageKind.cancelOrder.userKey_eq intent.envelope).symm).trans hkey)
    exact ⟨intent, rfl, hreply⟩
  | @release release reservation =>
    obtain rfl := MessageKind.head_injective ((releaseDedupeKey_eq release).symm.trans hkey)
    trivial
  | @settle settle reservation =>
    obtain rfl := MessageKind.head_injective ((settleDedupeKey_eq settle).symm.trans hkey)
    trivial
  | @accountDelta delta balance =>
    obtain rfl := MessageKind.head_injective ((accountDeltaDedupeKey_eq delta).symm.trans hkey)
    trivial

/-! ## What a transaction stores with its messages -/

/-- Only the messages given are queued. -/
theorem Enqueues.mem {outbox : Table NewWalletOutboxMessage.dedupeKey}
    {messages : List NewWalletOutboxMessage} {ws : List Write} (h : Enqueues outbox messages ws)
    (hmem : .insertOutbox message ∈ ws) : message ∈ messages := by
  induction h with
  | nil => cases hmem
  | stored _ _ ih => exact List.mem_cons_of_mem _ (ih hmem)
  | added _ _ ih =>
    rcases List.mem_cons.1 hmem with heq | hmem
    · cases heq
      exact List.mem_cons_self
    · exact List.mem_cons_of_mem _ (ih hmem)

/-- A transaction that stores a reply leaves one stored. -/
theorem StoresReply.replied {envelope : CommandEnvelope} {commandType : String} {reply : WalletReply}
    {w : Write} {ws : List Write}
    (h : StoresReply d.walletIdempotency (replyRow envelope commandType reply) w) (hw : w ∈ ws) :
    Replied (view ws d) commandType envelope := by
  cases h with
  | added _ => exact isSome_idempotency_of_mem hw d
  | @kept old hold =>
    refine (grows_view d ws).isSome_idempotency ?_
    change (d.walletIdempotency.find? (replyRow envelope commandType reply).key).isSome
    rw [hold]
    rfl

/-- A new reservation is found under its id when the transaction commits. -/
theorem find?_reserved (row : CollateralRow) {reservation : ReservationRow} {reply : Write}
    {out : List Write} (hfree : d.Admits reservation) (hreply : reply.table = .walletIdempotency)
    (hout : ∀ w ∈ out, w.table = .walletOutbox) :
    (view (.setCollateral row :: .insertReservation reservation :: reply :: out)
      d).walletReservations.find? reservation.reservationId = some reservation := by
  have hafter : ∀ w ∈ reply :: out, w.table ≠ .walletReservations := by
    intro w hw
    rcases List.mem_cons.1 hw with rfl | hw
    · rw [hreply]
      decide
    · rw [hout w hw]
      decide
  have hview : (view ([.setCollateral row] ++ .insertReservation reservation :: reply :: out)
      d).walletReservations = (WalletDb.write (.insertReservation reservation) d).walletReservations :=
    walletReservations_view_single d _ (by simp) hafter
  rw [List.singleton_append] at hview
  rw [hview, WalletDb.write, WalletDb.find?_addReservation, if_pos ⟨hfree, rfl⟩]

variable {R : WalletDb → WalletDb → Prop} {tx : WalletTx} {events : List WalletEvent}
  {ws : List Write}

/-- What a transaction has stored besides a message that it queues. -/
theorem Committed.origin (h : Committed self R d tx events ws) (hmem : .insertOutbox message ∈ ws) :
    Origin self (view ws d) message := by
  cases h with
  | deposit hcredit hledger hreply hout =>
    simp only [List.mem_cons, reduceCtorEq, false_or] at hmem
    rcases hmem with rfl | hmem
    · exact absurd hreply.table (by simp)
    · cases List.mem_singleton.1 (hout.mem hmem)
      exact .deposit (hreply.replied (by simp)) (isSome_ledger_of_mem (by simp) d) rfl
  | withdraw hhit hledger hreply hout =>
    simp only [List.mem_cons, reduceCtorEq, false_or] at hmem
    rcases hmem with rfl | hmem
    · exact absurd hreply.table (by simp)
    · cases List.mem_singleton.1 (hout.mem hmem)
      exact .withdraw (hreply.replied (by simp)) (isSome_ledger_of_mem (by simp) d) rfl
  | @reserve uuid intent old row reservation reply out hhit hreservation hfree hreply hout =>
    have hrow := find?_reserved row hfree hreply.table hout.table
    rw [hreservation.reservationId] at hrow
    simp only [List.mem_cons, reduceCtorEq, false_or] at hmem
    rcases hmem with rfl | hmem
    · exact absurd hreply.table (by simp)
    · -- The event and the engine input of one reservation.
      rcases List.mem_cons.1 (hout.mem hmem) with rfl | hmem
      · exact .reserved hrow hreservation.orderOf
      · cases List.mem_singleton.1 hmem
        exact .placeOrder hrow hreservation.orderOf
  | release hv hread h =>
    obtain ⟨balance, out, hbalance, hout, rfl⟩ := h.writes
    rcases List.mem_append.1 hmem with hmem | hmem
    · exact absurd (hbalance.table _ hmem) (by simp)
    · simp only [List.mem_cons, reduceCtorEq, false_or] at hmem
      cases List.mem_singleton.1 (hout.mem hmem)
      exact .release
  | settle hv hread h =>
    obtain ⟨balance, out, hbalance, hout, rfl⟩ := h.writes
    rcases List.mem_append.1 hmem with hmem | hmem
    · exact absurd (hbalance.table _ hmem) (by simp)
    · simp only [List.mem_cons, reduceCtorEq, false_or] at hmem
      cases List.mem_singleton.1 (hout.mem hmem)
      exact .settle
  | accountDelta hnonzero hledger hsign hkey htotal hlocked hout =>
    simp only [List.mem_cons, reduceCtorEq, false_or] at hmem
    cases List.mem_singleton.1 (hout.mem hmem)
    exact .accountDelta
  | duplicateDelta => cases hmem
  | reply hreply =>
    cases List.mem_singleton.1 hmem
    exact absurd hreply.table (by simp)
  | cancel hreply hout =>
    rcases List.mem_cons.1 hmem with rfl | hmem'
    · exact absurd hreply.table (by simp)
    · cases List.mem_singleton.1 (hout.mem hmem')
      exact .cancel (hreply.replied List.mem_cons_self)

/-- Only reservations and cancellations queue inputs for the engine. -/
theorem Committed.engineInput (h : Committed self R d tx events ws)
    (hmem : .insertOutbox message ∈ ws) {command : EngineCommand}
    (hpayload : message.payload = .engineCommand command) :
    (∃ uuid intent, tx = .reserve uuid intent ∧
      command = .placeOrder (intent.intoReservedOrder ("res_" ++ uuid))) ∨
    ∃ intent, tx = .cancel intent ∧ command = .cancelOrder intent.intoEngineCancelOrder := by
  cases h with
  | deposit hcredit hledger hreply hout | withdraw hhit hledger hreply hout =>
    simp only [List.mem_cons, reduceCtorEq, false_or] at hmem
    rcases hmem with rfl | hmem
    · exact absurd hreply.table (by simp)
    · cases List.mem_singleton.1 (hout.mem hmem)
      cases hpayload
  | @reserve uuid intent old balance reservation reply out hhit hreservation hfree hreply hout =>
    simp only [List.mem_cons, reduceCtorEq, false_or] at hmem
    rcases hmem with rfl | hmem
    · exact absurd hreply.table (by simp)
    · rcases List.mem_cons.1 (hout.mem hmem) with rfl | hmem
      · cases hpayload
      · cases List.mem_singleton.1 hmem
        exact .inl ⟨uuid, intent, rfl, (OutboxPayload.engineCommand.inj hpayload).symm⟩
  | release hv hread h | settle hv hread h =>
    obtain ⟨balance, out, hbalance, hout, rfl⟩ := h.writes
    simp only [List.mem_append, List.mem_cons, reduceCtorEq, false_or] at hmem
    rcases hmem with hmem | hmem
    · exact absurd (hbalance.table _ hmem) (by simp)
    · cases List.mem_singleton.1 (hout.mem hmem)
      cases hpayload
  | accountDelta hnonzero hledger hsign hkey htotal hlocked hout =>
    simp only [List.mem_cons, reduceCtorEq, false_or] at hmem
    cases List.mem_singleton.1 (hout.mem hmem)
    cases hpayload
  | duplicateDelta => cases hmem
  | reply hreply =>
    cases List.mem_singleton.1 hmem
    exact absurd hreply.table (by simp)
  | cancel hreply hout =>
    rcases List.mem_cons.1 hmem with rfl | hmem'
    · exact absurd hreply.table (by simp)
    · cases List.mem_singleton.1 (hout.mem hmem')
      exact .inr ⟨_, rfl, (OutboxPayload.engineCommand.inj hpayload).symm⟩

end

/-! ## Reachable wallets -/

/-- Nothing is stored that a command leaves behind without a stored reply. -/
structure Registered (processor : WalletProcessor) (d : WalletDb) : Prop where
  outbox : ∀ message ∈ d.walletOutbox.rows, Origin processor d message
  reservations : ∀ row ∈ d.walletReservations.rows,
    (d.walletIdempotency.find? (row.userId, "PlaceOrderIntent", row.idempotencyKey)).isSome
  withdrawals : ∀ row ∈ d.walletLedger.rows, row.kind = "WITHDRAW" →
    (d.walletIdempotency.find? (row.userId, "Withdraw", row.referenceId)).isSome

theorem registered_empty (self : WalletProcessor) (users : List ℤ) :
    Registered self (.empty users) where
  outbox _ h := absurd h List.not_mem_nil
  reservations _ h := absurd h List.not_mem_nil
  withdrawals _ h := absurd h List.not_mem_nil

/-- The account deltas of an engine event have kinds of their own. -/
theorem kind_of_engineEvent {event : EngineEvent} {delta : ApplyAccountDelta}
    (h : .applyAccountDelta delta ∈ engineWalletCommandsFromEngineEvent event) :
    delta.kind ∈ ["TRADE_FEE", "FUNDING_PAYMENT", "ACCOUNT_DELTA"] := by
  have hrelease : ∀ id amount reason,
      .applyAccountDelta delta ∉ releaseReservationCommand id amount reason := by
    intro id amount reason h
    unfold releaseReservationCommand at h
    split at h <;> simp at h
  cases event with
  | orderCancelled | orderExpired | reservationReleased => exact absurd h (hrelease _ _ _)
  | tradeExecuted event =>
    rcases List.mem_append.1 h with h | h
    · obtain ⟨settlement, -, heq⟩ := List.mem_map.1 h
      cases heq
    · obtain ⟨i, hi, heq⟩ := List.mem_mapIdx.1 h
      cases heq
      simp
  | fundingPaymentApplied event =>
    obtain ⟨i, hi, heq⟩ := List.mem_mapIdx.1 h
    cases heq
    simp
  | accountDelta event =>
    cases List.mem_singleton.1 h
    simp
  | _ => cases h

theorem Delivery.Issues.kind {delivery : Delivery} {delta : ApplyAccountDelta}
    (h : delivery.Issues (.accountDelta delta)) :
    delta.kind ∈ ["TRADE_FEE", "FUNDING_PAYMENT", "ACCOUNT_DELTA"] := by
  generalize htx : WalletTx.accountDelta delta = tx at h
  cases h with
  | @engineCommand event command hmem =>
    cases command with
    | applyAccountDelta delta' =>
      cases htx
      exact kind_of_engineEvent hmem
    | _ => cases htx
  | _ => cases htx

section

variable {self : WalletProcessor} {d : WalletDb} {tx : WalletTx} {delivery : Delivery}
  {events : List WalletEvent} {ws : List Write}

/-- A new withdrawal in the ledger comes with the reply to its command. -/
theorem Committed.withdrawal {R : WalletDb → WalletDb → Prop} (hissues : delivery.Issues tx)
    (h : Committed self R d tx events ws) {row : LedgerRow} (hmem : .insertLedger row ∈ ws)
    (hkind : row.kind = "WITHDRAW") :
    ((view ws d).walletIdempotency.find? (row.userId, "Withdraw", row.referenceId)).isSome := by
  have hqueued : ∀ {outbox messages out}, Enqueues outbox messages out →
      .insertLedger row ∉ out := fun hout hmem => absurd (hout.table _ hmem) (by simp)
  cases h with
  | deposit hcredit hledger hreply hout =>
    simp only [List.mem_cons, reduceCtorEq, false_or, Write.insertLedger.injEq] at hmem
    rcases hmem with rfl | rfl | hmem
    · exact absurd hkind (by simp [depositLedgerRow])
    · exact absurd hreply.table (by simp)
    · exact absurd hmem (hqueued hout)
  | withdraw hhit hledger hreply hout =>
    simp only [List.mem_cons, reduceCtorEq, false_or, Write.insertLedger.injEq] at hmem
    rcases hmem with rfl | rfl | hmem
    · exact hreply.replied (by simp)
    · exact absurd hreply.table (by simp)
    · exact absurd hmem (hqueued hout)
  | reserve hhit hreservation hfree hreply hout =>
    simp only [List.mem_cons, reduceCtorEq, false_or] at hmem
    rcases hmem with rfl | hmem
    · exact absurd hreply.table (by simp)
    · exact absurd hmem (hqueued hout)
  | release hv hread h =>
    obtain ⟨balance, out, hbalance, hout, rfl⟩ := h.writes
    simp only [List.mem_append, List.mem_cons, reduceCtorEq, false_or] at hmem
    rcases hmem with hmem | hmem
    · exact absurd (hbalance.table _ hmem) (by simp)
    · exact absurd hmem (hqueued hout)
  | settle hv hread h =>
    obtain ⟨balance, out, hbalance, hout, rfl⟩ := h.writes
    simp only [List.mem_append, List.mem_cons, reduceCtorEq, false_or,
      Write.insertLedger.injEq] at hmem
    rcases hmem with hmem | rfl | rfl | hmem
    · exact absurd (hbalance.table _ hmem) (by simp)
    · exact absurd hkind (by simp [debitLedgerRow])
    · exact absurd hkind (by simp [creditLedgerRow])
    · exact absurd hmem (hqueued hout)
  | @accountDelta delta row' out hnonzero hledger hsign hkey htotal hlocked hout =>
    simp only [List.mem_cons, reduceCtorEq, false_or, Write.insertLedger.injEq] at hmem
    rcases hmem with rfl | hmem
    · -- No event of the engine names this kind.
      have hkinds := hissues.kind
      change delta.kind = "WITHDRAW" at hkind
      rw [hkind] at hkinds
      exact absurd hkinds (by decide)
    · exact absurd hmem (hqueued hout)
  | duplicateDelta => cases hmem
  | reply hreply =>
    cases List.mem_singleton.1 hmem
    exact absurd hreply.table (by simp)
  | cancel hreply hout =>
    rcases List.mem_cons.1 hmem with rfl | hmem'
    · exact absurd hreply.table (by simp)
    · exact absurd hmem' (hqueued hout)

/-- Reservations are made by orders, with the reply to the command. -/
theorem Committed.reserves {R : WalletDb → WalletDb → Prop} (h : Committed self R d tx events ws)
    {row : ReservationRow} (hmem : .insertReservation row ∈ ws) :
    ∃ uuid intent, tx = .reserve uuid intent ∧ OrderOf uuid intent row ∧
      Replied (view ws d) "PlaceOrderIntent" intent.envelope := by
  have hqueued : ∀ {outbox messages out}, Enqueues outbox messages out →
      .insertReservation row ∉ out := fun hout hmem => absurd (hout.table _ hmem) (by simp)
  cases h with
  | deposit hcredit hledger hreply hout | withdraw hhit hledger hreply hout =>
    simp only [List.mem_cons, reduceCtorEq, false_or] at hmem
    rcases hmem with rfl | hmem
    · exact absurd hreply.table (by simp)
    · exact absurd hmem (hqueued hout)
  | @reserve uuid intent old _ _ _ _ hhit hreservation hfree hreply hout =>
    simp only [List.mem_cons, reduceCtorEq, false_or, Write.insertReservation.injEq] at hmem
    rcases hmem with rfl | rfl | hmem
    · exact ⟨uuid, intent, rfl, hreservation.orderOf, hreply.replied (by simp)⟩
    · exact absurd hreply.table (by simp)
    · exact absurd hmem (hqueued hout)
  | release hv hread h | settle hv hread h =>
    obtain ⟨balance, out, hbalance, hout, rfl⟩ := h.writes
    simp only [List.mem_append, List.mem_cons, reduceCtorEq, false_or] at hmem
    rcases hmem with hmem | hmem
    · exact absurd (hbalance.table _ hmem) (by simp)
    · exact absurd hmem (hqueued hout)
  | accountDelta hnonzero hledger hsign hkey htotal hlocked hout =>
    simp only [List.mem_cons, reduceCtorEq, false_or] at hmem
    exact absurd hmem (hqueued hout)
  | duplicateDelta => cases hmem
  | reply hreply =>
    cases List.mem_singleton.1 hmem
    exact absurd hreply.table (by simp)
  | cancel hreply hout =>
    rcases List.mem_cons.1 hmem with rfl | hmem'
    · exact absurd hreply.table (by simp)
    · exact absurd hmem' (hqueued hout)

/-- A new reservation comes with the reply to its command. -/
theorem Committed.reservation {R : WalletDb → WalletDb → Prop}
    (h : Committed self R d tx events ws) {row : ReservationRow}
    (hmem : .insertReservation row ∈ ws) :
    ((view ws d).walletIdempotency.find?
      (row.userId, "PlaceOrderIntent", row.idempotencyKey)).isSome := by
  obtain ⟨uuid, intent, -, hrow, hreplied⟩ := h.reserves hmem
  rw [hrow.userId, hrow.idempotencyKey]
  exact hreplied

/-- Every commit of a delivery keeps the wallet registered. -/
theorem Registered.commit (hregistered : Registered self d) (h : delivery.Commits self d ws) :
    Registered self (view ws d) := by
  obtain ⟨tx, events, hissues, hcommitted⟩ := h
  have hgrows := grows_view d ws
  refine ⟨fun message hmem => ?_, fun row hrow => ?_, fun row hrow hkind => ?_⟩
  · rcases mem_outbox_view hmem with hmem | hmem
    · exact (hregistered.outbox message hmem).mono hgrows
    · exact hcommitted.origin hmem
  · rcases mem_reservations_view hrow with ⟨before, hbefore, hsame⟩ | ⟨added, hadded, hsame⟩
    · obtain ⟨-, huser, -, -, hkey, -⟩ := hsame
      rw [huser, hkey]
      exact hgrows.isSome_idempotency (hregistered.reservations before hbefore)
    · obtain ⟨-, huser, -, -, hkey, -⟩ := hsame
      rw [huser, hkey]
      exact hcommitted.reservation hadded
  · rcases mem_ledger_view hrow with hrow | hmem
    · exact hgrows.isSome_idempotency (hregistered.withdrawals row hrow hkind)
    · exact hcommitted.withdrawal hissues hmem hkind

theorem users_deliverAll {users : List ℤ} {actions : List (Action Delivery)}
    {σ : DeliverySystem} (h : self.deliverAll users actions = some σ) : σ.committed.users = users :=
  inv_deliverAll (I := fun d _ => d.users = users) rfl
    (fun d _ _ ws husers _ => (users_view d ws).trans husers) h

/-- Whatever is delivered, the wallet is registered. -/
theorem registered_deliverAll {users : List ℤ} {actions : List (Action Delivery)}
    {σ : DeliverySystem} (h : self.deliverAll users actions = some σ) :
    Registered self σ.committed :=
  inv_deliverAll (I := fun d _ => Registered self d) (registered_empty self users)
    (fun _ _ _ _ hregistered hcommits => hregistered.commit hcommits) h

/-! ## Free dedupe keys -/

private theorem Registered.origin (h : Registered self d) {key : String}
    {message : NewWalletOutboxMessage} (hfind : d.walletOutbox.find? key = some message) :
    Origin self d message ∧ message.dedupeKey = key :=
  ⟨h.outbox message (Table.mem_of_find? hfind), Table.key_of_find? hfind⟩

/-- No message of a command is stored before there is a reply to it, when
messages of its kind come with one. -/
private theorem Registered.userKey_free (h : Registered self d) {kind : MessageKind}
    {commandType : String} {envelope : CommandEnvelope}
    (hkind : ∀ {message}, Origin self d message → message.dedupeKey = kind.userKey envelope →
      ∃ envelope', message.dedupeKey = kind.userKey envelope' ∧ Replied d commandType envelope')
    (hreply : ¬Replied d commandType envelope) :
    d.walletOutbox.find? (kind.userKey envelope) = none := by
  by_contra hsome
  obtain ⟨message, hfind⟩ := Option.ne_none_iff_exists'.1 hsome
  obtain ⟨horigin, hkey⟩ := h.origin hfind
  obtain ⟨envelope', hkey', hreply'⟩ := hkind horigin hkey
  obtain ⟨huser, hidempotency⟩ := kind.userKey_injective (hkey'.symm.trans hkey)
  rw [Replied, huser, hidempotency] at hreply'
  exact hreply hreply'

theorem Registered.deposit_free (h : Registered self d) {deposit : Deposit}
    (hreply : ¬Replied d "Deposit" deposit.envelope) :
    d.walletOutbox.find? (depositDedupeKey deposit) = none := by
  change d.walletOutbox.find? (MessageKind.depositApplied.userKey deposit.envelope) = none
  refine h.userKey_free (fun horigin hkey => ?_) hreply
  obtain ⟨deposit', balance, rfl, hreply', -, -⟩ :=
    horigin.kind_cases (hkey.trans (MessageKind.depositApplied.userKey_eq deposit.envelope))
  exact ⟨deposit'.envelope, rfl, hreply'⟩

theorem Registered.withdraw_free (h : Registered self d) {withdraw : Withdraw}
    (hreply : ¬Replied d "Withdraw" withdraw.envelope) :
    d.walletOutbox.find? (withdrawDedupeKey withdraw) = none := by
  change d.walletOutbox.find? (MessageKind.withdrawalApplied.userKey withdraw.envelope) = none
  refine h.userKey_free (fun horigin hkey => ?_) hreply
  obtain ⟨withdraw', balance, rfl, hreply', -, -⟩ :=
    horigin.kind_cases (hkey.trans (MessageKind.withdrawalApplied.userKey_eq withdraw.envelope))
  exact ⟨withdraw'.envelope, rfl, hreply'⟩

theorem Registered.cancel_free (h : Registered self d) {intent : CancelOrderIntent}
    (hreply : ¬Replied d "CancelOrderIntent" intent.envelope) :
    d.walletOutbox.find? (cancelOrderDedupeKey intent.envelope) = none := by
  change d.walletOutbox.find? (MessageKind.cancelOrder.userKey intent.envelope) = none
  refine h.userKey_free (fun horigin hkey => ?_) hreply
  obtain ⟨intent', rfl, hreply'⟩ :=
    horigin.kind_cases (hkey.trans (MessageKind.cancelOrder.userKey_eq intent.envelope))
  exact ⟨intent'.envelope, rfl, hreply'⟩

/-- The ledger has no row of a withdrawal before there is a reply to it. -/
theorem Registered.withdrawal_free (h : Registered self d) {withdraw : Withdraw}
    (hreply : ¬Replied d "Withdraw" withdraw.envelope) :
    d.walletLedger.find? (withdrawLedgerRow withdraw).key = none := by
  by_contra hsome
  obtain ⟨row, hfind⟩ := Option.ne_none_iff_exists'.1 hsome
  have hkey := Table.key_of_find? hfind
  simp only [LedgerRow.key, withdrawLedgerRow, Prod.mk.injEq] at hkey
  obtain ⟨huser, -, hkind, hreference⟩ := hkey
  have hreplied := h.withdrawals row (Table.mem_of_find? hfind) hkind
  rw [huser, hreference] at hreplied
  exact hreply hreplied

/-- No reservation has the key of an order before there is a reply to it. -/
theorem Registered.reservationKey_free (h : Registered self d) {envelope : CommandEnvelope}
    (hreply : ¬Replied d "PlaceOrderIntent" envelope) :
    d.reservationKeyTaken (envelope.userId, envelope.idempotencyKey) = false := by
  refine WalletDb.reservationKeyTaken_eq_false.2 fun row hrow hkey => hreply ?_
  have hreplied := h.reservations row hrow
  rw [ReservationRow.idempotency, Prod.mk.injEq] at hkey
  rw [hkey.1, hkey.2] at hreplied
  exact hreplied

/-- The event of a reservation is not stored before the reservation. -/
theorem Registered.reserved_free (h : Registered self d) {uuid : String}
    (hid : d.walletReservations.find? ("res_" ++ uuid) = none) :
    d.walletOutbox.find? (fundsReservedEventId ("res_" ++ uuid)) = none := by
  by_contra hsome
  obtain ⟨message, hfind⟩ := Option.ne_none_iff_exists'.1 hsome
  obtain ⟨horigin, hkey⟩ := h.origin hfind
  obtain ⟨uuid', intent, row, rfl, hrow, -⟩ :=
    horigin.kind_cases (show _ = MessageKind.fundsReserved.head ++ ("res_" ++ uuid) from hkey)
  have hid' : "res_" ++ uuid' = "res_" ++ uuid := (String.append_right_inj _).1 hkey
  rw [hid', hid] at hrow
  cases hrow

/-- An order is not stored before its reservation. -/
theorem Registered.placeOrder_free (h : Registered self d) {envelope : CommandEnvelope}
    (htaken : d.reservationKeyTaken (envelope.userId, envelope.idempotencyKey) = false) :
    d.walletOutbox.find? (placeOrderDedupeKey envelope) = none := by
  by_contra hsome
  obtain ⟨message, hfind⟩ := Option.ne_none_iff_exists'.1 hsome
  obtain ⟨horigin, hkey⟩ := h.origin hfind
  obtain ⟨uuid, intent, row, rfl, hrow, horder⟩ :=
    horigin.kind_cases (hkey.trans (MessageKind.placeOrder.userKey_eq envelope))
  obtain ⟨huser, hidempotency⟩ := MessageKind.placeOrder.userKey_injective hkey
  refine WalletDb.reservationKeyTaken_eq_false.1 htaken row (Table.mem_of_find? hrow) ?_
  rw [ReservationRow.idempotency, horder.userId, horder.idempotencyKey, huser, hidempotency]

/-- The same event of a deposit is not stored before its ledger row. -/
theorem Registered.deposit_new (h : Registered self d) {deposit : Deposit} {balance : BalanceUpdated}
    (hasset : balance.asset = deposit.asset)
    (hledger : d.walletLedger.find? (depositLedgerRow deposit).key = none) :
    d.walletOutbox.find? (depositDedupeKey deposit) ≠ some (self.depositMessage deposit balance) := by
  intro hfind
  obtain ⟨horigin, hkey⟩ := h.origin hfind
  obtain ⟨deposit', balance', hmessage, -, hledger', hasset'⟩ :=
    horigin.kind_cases (hkey.trans (MessageKind.depositApplied.userKey_eq deposit.envelope))
  -- The stored event names the user, the asset and the reference of its ledger row.
  have hpayload := congrArg NewWalletOutboxMessage.payload hmessage
  simp only [WalletProcessor.depositMessage, walletEventOutboxMessage, depositAppliedEvent,
    OutboxPayload.walletEvent.injEq, WalletEvent.depositApplied.injEq,
    WalletDepositApplied.mk.injEq] at hpayload
  obtain ⟨-, -, huser, hassets, -, hreference, -, -⟩ := hpayload
  have hrow : (depositLedgerRow deposit').key = (depositLedgerRow deposit).key := by
    simp only [depositLedgerRow, LedgerRow.key, ← hasset, ← hasset', huser, hassets, hreference]
  rw [hrow, hledger] at hledger'
  cases hledger'

/-- The same event of a withdrawal is not stored before its ledger row. -/
theorem Registered.withdraw_new (h : Registered self d) {withdraw : Withdraw}
    {balance : BalanceUpdated} (hasset : balance.asset = withdraw.asset)
    (hledger : d.walletLedger.find? (withdrawLedgerRow withdraw).key = none) :
    d.walletOutbox.find? (withdrawDedupeKey withdraw) ≠
      some (self.withdrawMessage withdraw balance) := by
  intro hfind
  obtain ⟨horigin, hkey⟩ := h.origin hfind
  obtain ⟨withdraw', balance', hmessage, -, hledger', hasset'⟩ :=
    horigin.kind_cases (hkey.trans (MessageKind.withdrawalApplied.userKey_eq withdraw.envelope))
  have hkeys := congrArg NewWalletOutboxMessage.dedupeKey hmessage
  obtain ⟨huser, hidempotency⟩ := MessageKind.withdrawalApplied.userKey_injective hkeys
  have hpayload := congrArg NewWalletOutboxMessage.payload hmessage
  simp only [WalletProcessor.withdrawMessage, walletEventOutboxMessage, withdrawalAppliedEvent,
    OutboxPayload.walletEvent.injEq, WalletEvent.withdrawalApplied.injEq,
    WalletWithdrawalApplied.mk.injEq] at hpayload
  obtain ⟨-, -, -, hassets, -, -, -, -⟩ := hpayload
  have hrow : (withdrawLedgerRow withdraw').key = (withdrawLedgerRow withdraw).key := by
    simp only [withdrawLedgerRow, LedgerRow.key, ← hasset, ← hasset', huser, hassets, hidempotency]
  rw [hrow, hledger] at hledger'
  cases hledger'

end

end Wallet
