import ExchangeServer.Foundation.Refusals
import ExchangeServer.Wallet.Deliveries

/-!
# Text that the database stores

A `TEXT` or `JSONB` value has no NUL character, and an entry of a unique index is
at most a third of a page. A statement with another text is refused whatever the
tables hold. What an index takes depends on how well an entry compresses, so it
is a parameter here.

The rest of the wallet's model takes texts to be storable. A transaction whose
statements are runs as it does there (`runRefusing_eq_run`), and what deliveries
lead to when the other statements are refused, they also lead to there.

## Main results

- `unstorable_eq_none`: the statements that are not refused for their texts
- `each_enqueueOutboxMessagesInTx`: messages that are queued
- `exists_deliverAll_of_within`: deliveries to a database that refuses the others
-/

namespace Wallet

open Protocol Relational Transactional Program

/-! ## Texts -/

/-- Text without a NUL character. -/
def StorableText (text : String) : Prop := Char.ofNat 0 ∉ text.toList

instance (text : String) : Decidable (StorableText text) :=
  inferInstanceAs (Decidable (_ ∉ _))

@[simp] theorem storableText_append {s t : String} :
    StorableText (s ++ t) ↔ StorableText s ∧ StorableText t := by
  simp [StorableText]

@[simp] theorem storableText_nat_repr (n : ℕ) : StorableText n.repr := by
  intro h
  rw [Nat.repr, String.toList_ofList] at h
  exact absurd (Nat.isDigit_of_mem_toDigits (by decide) (by decide) h) (by decide)

/-- Decimal numbers are storable. -/
@[simp] theorem storableText_int_repr (i : ℤ) : StorableText i.repr := by
  cases i with
  | ofNat n => exact storableText_nat_repr n
  | negSucc n =>
    exact storableText_append (s := "-").2 ⟨by decide, storableText_nat_repr (n + 1)⟩

/-- The texts are storable and the indexes take the entries. -/
def Fits (takes : Key → Bool) (texts : List String) (entries : List Key) : Prop :=
  (∀ text ∈ texts, StorableText text) ∧ ∀ key ∈ entries, takes key = true

/-! ## The texts of a statement -/

/-- The texts in `reply_payload`. -/
def replyTexts : WalletReply → List String
  | .fundsReserved reserved => [reserved.requestId, reserved.reservationId]
  | .insufficientFunds insufficient => [insufficient.requestId]
  | .balanceUpdated balance => [balance.requestId]
  | .commandAccepted accepted => [accepted.requestId]
  | .commandRejected rejected => [rejected.requestId, rejected.reason]

def walletEventTexts : WalletEvent → List String
  | .fundsReserved event => event.eventId.toList ++ [event.requestId, event.reservationId]
  | .fundsReleased event => event.eventId.toList ++ [event.reservationId, event.reason]
  | .tradeSettled event => event.eventId.toList ++ [event.reservationId]
  | .depositApplied event => event.eventId.toList ++ [event.requestId, event.referenceId]
  | .withdrawalApplied event => event.eventId.toList ++ [event.requestId, event.destination]
  | .accountDeltaApplied event => event.eventId.toList ++ [event.kind, event.referenceId]

def envelopeTexts (envelope : CommandEnvelope) : List String :=
  [envelope.requestId, envelope.idempotencyKey]

def engineCommandTexts : EngineCommand → List String
  | .placeOrder order =>
    order.inputId.toList ++ envelopeTexts order.envelope ++ [order.reservationId, order.marketName]
  | .cancelOrder cancel => cancel.inputId.toList ++ envelopeTexts cancel.envelope
  | .liquidatePosition liquidate =>
    liquidate.inputId.toList ++ envelopeTexts liquidate.envelope ++
      [liquidate.liquidationId, liquidate.marketName] ++ liquidate.requestSource.toList
  | .markPriceUpdated update => update.inputId.toList ++ [update.sourceStatus]
  | .fundingRateUpdated update => update.inputId.toList ++ [update.fundingIntervalId]
  | .fundingSettlementTick tick => tick.inputId.toList ++ [tick.fundingIntervalId]

/-- The texts in `payload`. -/
def payloadTexts : OutboxPayload → List String
  | .walletEvent event => walletEventTexts event
  | .engineCommand command => engineCommandTexts command

def messageTexts (message : NewWalletOutboxMessage) : List String :=
  [message.dedupeKey, message.topic, message.messageKey, message.payloadType] ++
    payloadTexts message.payload

namespace Stmt

/-- The texts that are bound to a statement. -/
def texts {β : Type} : Stmt β → List String
  | getIdempotentReply _ commandType idempotencyKey => [commandType, idempotencyKey]
  | updateCollateral .. | creditCollateral .. | applyDelta .. | selectCollateral .. => []
  | insertReservation reservationId _ _ _ idempotencyKey requestId =>
    [reservationId, idempotencyKey, requestId]
  | selectReservation reservationId | updateReservation reservationId .. => [reservationId]
  | insertLedger row | insertLedgerOnce row => [row.kind, row.referenceId]
  | recordIdempotentReply row =>
    [row.commandType, row.idempotencyKey, row.requestId] ++ replyTexts row.replyPayload
  | enqueueOutboxMessage message | outboxDuplicateMatches message => messageTexts message

/-- The entries with texts that a statement makes in unique indexes. -/
def entries {β : Type} : Stmt β → List Key
  | insertReservation reservationId userId _ _ idempotencyKey _ =>
    [.reservation reservationId, .reservationIdempotency (userId, idempotencyKey)]
  | insertLedger row | insertLedgerOnce row => [.ledger row.key]
  | recordIdempotentReply row => [.idempotency row.key]
  | enqueueOutboxMessage message => [.outbox message.dedupeKey]
  | _ => []

/-- The database stores the texts of a statement. -/
def Storable (takes : Key → Bool) {β : Type} (s : Stmt β) : Prop := Fits takes s.texts s.entries

section Balances

variable {takes : Key → Bool} (userId : ℤ) (asset : Asset)

@[simp] theorem storable_updateCollateral (update : CollateralUpdate) (amount : ℤ) :
    (updateCollateral update userId asset amount).Storable takes := by
  simp [Storable, Fits, texts, entries]

@[simp] theorem storable_creditCollateral (amount : ℤ) :
    (creditCollateral userId asset amount).Storable takes := by
  simp [Storable, Fits, texts, entries]

@[simp] theorem storable_applyDelta (totalDelta lockedDelta : ℤ) :
    (applyDelta userId asset totalDelta lockedDelta).Storable takes := by
  simp [Storable, Fits, texts, entries]

@[simp] theorem storable_selectCollateral : (selectCollateral userId asset).Storable takes := by
  simp [Storable, Fits, texts, entries]

end Balances

end Stmt

/-- How a statement is refused for its texts. -/
def unstorable (takes : Key → Bool) (β : Type) (s : Stmt β) : Option WalletRepositoryError :=
  if ∀ text ∈ s.texts, StorableText text then
    if ∀ key ∈ s.entries, takes key = true then none else some (.storage .programLimitExceeded)
  else some (.storage .invalidCharacter)

theorem unstorable_eq_none {takes : Key → Bool} {β : Type} {s : Stmt β} :
    unstorable takes β s = none ↔ s.Storable takes := by
  unfold unstorable Stmt.Storable Fits
  split
  · next htexts => split <;> simp_all
  · next htexts => simp [htexts]

/-- Queueing storable messages is refused nothing. -/
theorem each_enqueueOutboxMessagesInTx {takes : Key → Bool} {messages : List NewWalletOutboxMessage}
    (h : ∀ m ∈ messages, (Stmt.enqueueOutboxMessage m).Storable takes) :
    (enqueueOutboxMessagesInTx messages).Each fun β s => unstorable takes β s = none := by
  induction messages with
  | nil => exact each_pure ()
  | cons message messages ih =>
    obtain ⟨htexts, hentries⟩ := h message List.mem_cons_self
    have hmatches : (Stmt.outboxDuplicateMatches message).Storable takes :=
      ⟨htexts, fun _ hkey => absurd hkey List.not_mem_nil⟩
    have hrest : ∀ accepted : Bool, ((if accepted then enqueueOutboxMessagesInTx messages
        else fail .idempotencyConflict) : Tx Unit).Each fun β s => unstorable takes β s = none := by
      intro accepted
      split
      · exact ih fun m hm => h m (List.mem_cons_of_mem _ hm)
      · exact each_fail _
    rw [enqueueOutboxMessagesInTx]
    refine each_bind (each_perform (unstorable_eq_none.2 ⟨htexts, hentries⟩)) fun rowsAffected => ?_
    by_cases hrows : rowsAffected = 0
    · rw [if_pos hrows]
      exact each_bind (each_perform (unstorable_eq_none.2 hmatches)) hrest
    · rw [if_neg hrows]
      exact each_bind (each_pure true) hrest

/-! ## Deliveries -/

/-- The effect of a schedule when statements are refused for their texts. -/
def WalletProcessor.deliverAllWithin (self : WalletProcessor) (takes : Key → Bool)
    (users : List ℤ) (actions : List (Action Delivery)) : Option DeliverySystem :=
  (System.initial (.empty users) : DeliverySystem).stepsRefusing (unstorable takes) self.deliver
    actions

/-- What holds after every schedule also holds when statements are refused. -/
theorem exists_deliverAll_of_within {self : WalletProcessor} {takes : Key → Bool}
    {users : List ℤ} {actions : List (Action Delivery)} {σ : DeliverySystem}
    (h : self.deliverAllWithin takes users actions = some σ) :
    ∃ actions', self.deliverAll users actions' = some σ :=
  System.exists_steps_of_refusing h

end Wallet
