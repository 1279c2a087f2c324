import ExchangeServer.Wallet.Origins

/-!
# One effect for each command

A command of a user is known by its user, its kind and its idempotency key.
However often it is delivered, with whatever body, at most one of its deliveries
commits more than the stored reply. The stored reply does not guarantee this:
it is read outside the transaction, and two deliveries can both find none. What
does is the message that every effect queues: its dedupe key tells the command,
and the row that comes with a stored message refuses a second effect.
-/

namespace Wallet

open Protocol Relational Transactional Program

/-! ## Commands and their effects -/

/-- The commands of users. -/
inductive CommandKind
  | deposit | withdraw | placeOrder | cancelOrder
  deriving DecidableEq

/-- What tells a command of a user from all others. -/
structure CommandId where
  userId : ℤ
  kind : CommandKind
  idempotencyKey : String
  deriving DecidableEq

/-- The command with an envelope. -/
def CommandId.of (kind : CommandKind) (envelope : CommandEnvelope) : CommandId where
  userId := envelope.userId
  kind := kind
  idempotencyKey := envelope.idempotencyKey

/-- The command that a delivery carries, if it comes from a user. -/
def Delivery.commandId : Delivery → Option CommandId
  | .command _ (.deposit deposit) => some (.of .deposit deposit.envelope)
  | .command _ (.withdraw withdraw) => some (.of .withdraw withdraw.envelope)
  | .command _ (.placeOrderIntent intent) => some (.of .placeOrder intent.envelope)
  | .command _ (.cancelOrderIntent intent) => some (.of .cancelOrder intent.envelope)
  | .command _ (.releaseReservation _) | .command _ (.settleTrade _) | .event _ => none

/-- Writes of a commit that do more than store a reply. -/
def hasEffect (ws : List Write) : Bool := ws.any fun w => w.table ≠ .walletIdempotency

/-- The commits that are effects of a command. -/
def effects (log : List (Delivery × List Write)) (id : CommandId) : List (Delivery × List Write) :=
  log.filter fun entry => entry.1.commandId = some id && hasEffect entry.2

/-- All that deliveries of a command have written. -/
def writesOf (log : List (Delivery × List Write)) (id : CommandId) : List Write :=
  (log.filter fun entry => entry.1.commandId = some id).flatMap Prod.snd

namespace Write

def isBalance (w : Write) : Bool := w.table = .userCollaterals

def isReservation (w : Write) : Bool := w.table = .walletReservations

def isEngineInput : Write → Bool
  | insertOutbox { payload := .engineCommand _, .. } => true
  | _ => false

end Write

/-! ## The message of an effect -/

/-- The kind of the message that an effect of a command queues. -/
def CommandKind.message : CommandKind → MessageKind
  | deposit => .depositApplied
  | withdraw => .withdrawalApplied
  | placeOrder => .placeOrder
  | cancelOrder => .cancelOrder

theorem CommandKind.message_injective {a b : CommandKind} (h : a.message = b.message) : a = b := by
  cases a <;> cases b <;> first | rfl | cases h

/-- The dedupe key of that message. -/
def CommandId.dedupeKey (id : CommandId) : String :=
  id.kind.message.head ++ toString id.userId ++ ":" ++ id.idempotencyKey

theorem CommandId.dedupeKey_injective {id id' : CommandId} (h : id.dedupeKey = id'.dedupeKey) :
    id = id' := by
  obtain ⟨userId, kind, key⟩ := id
  obtain ⟨userId', kind', key'⟩ := id'
  simp only [dedupeKey, String.append_assoc] at h
  obtain rfl := CommandKind.message_injective (MessageKind.head_injective h)
  rw [String.append_right_inj, ← String.append_assoc, ← String.append_assoc] at h
  obtain ⟨huser, hkey⟩ := KeyText.split_left (KeyText.colonFree_int _) (KeyText.colonFree_int _) h
  rw [KeyText.toString_int_inj huser, hkey]

section

variable {self : WalletProcessor} {d : WalletDb} {delivery : Delivery} {ws out : List Write}
  {id : CommandId}

/-- Queueing one message writes it, or meets it in the outbox. -/
theorem Enqueues.single {outbox : Table NewWalletOutboxMessage.dedupeKey}
    {message : NewWalletOutboxMessage} (h : Enqueues outbox [message] out) :
    (outbox.find? message.dedupeKey = some message ∧ out = []) ∨
      outbox.find? message.dedupeKey = none ∧ out = [.insertOutbox message] := by
  cases h with
  | stored hfind hrest =>
    cases hrest
    exact .inl ⟨hfind, rfl⟩
  | added hfind hrest =>
    cases hrest
    exact .inr ⟨hfind, rfl⟩

/-- A reservation queues both of its messages for the first time. -/
theorem Registered.reserve_messages (h : Registered self d) {uuid : String}
    {intent : PlaceOrderIntent} {reservation : ReservationRow}
    (hreservation : IsReservation uuid intent reservation) (hfree : d.Admits reservation)
    (hout : Enqueues d.walletOutbox (self.reserveMessages intent (fundsReserved uuid intent)) out) :
    d.walletOutbox.find? (placeOrderDedupeKey intent.envelope) = none ∧
      out = (self.reserveMessages intent (fundsReserved uuid intent)).map .insertOutbox := by
  have hreserved : d.walletOutbox.find? (fundsReservedEventId ("res_" ++ uuid)) = none := by
    refine h.reserved_free ?_
    rw [← hreservation.reservationId]
    exact hfree.1
  have horder : d.walletOutbox.find? (placeOrderDedupeKey intent.envelope) = none := by
    refine h.placeOrder_free ?_
    have htaken := hfree.2
    rwa [ReservationRow.idempotency, hreservation.userId, hreservation.idempotencyKey] at htaken
  refine ⟨horder, ?_⟩
  cases hout with
  | stored hfind hrest => cases hreserved.symm.trans hfind
  | added hfind hrest =>
    rcases hrest.single with ⟨hstored, -⟩ | ⟨-, rfl⟩
    · have hne : (self.placeOrderMessage intent (fundsReserved uuid intent)).dedupeKey ≠
          (self.fundsReservedMessage intent (fundsReserved uuid intent)).dedupeKey :=
        placeOrderDedupeKey_ne intent.envelope ("res_" ++ uuid)
      rw [Table.find?_insert_of_ne hne] at hstored
      cases horder.symm.trans hstored
    · rfl

/-- The writes of a commit that is an effect of a command. -/
structure Effect (d : WalletDb) (id : CommandId) (ws : List Write) : Prop where
  free : d.walletOutbox.find? id.dedupeKey = none
  queued : ∃ message, .insertOutbox message ∈ ws ∧ message.dedupeKey = id.dedupeKey
  balances : ws.countP Write.isBalance ≤ 1
  reservations : ws.countP Write.isReservation ≤ 1
  engineInputs : ws.countP Write.isEngineInput ≤ 1

/-- Whatever a command commits is a stored reply alone, or a first effect. -/
theorem Registered.effect (h : Registered self d) (hcommits : delivery.Commits self d ws)
    (hid : delivery.commandId = some id) :
    (∀ w ∈ ws, w.table = .walletIdempotency) ∨ Effect d id ws := by
  obtain ⟨tx, events, hissues, hcommitted⟩ := hcommits
  cases hissues with
  | @deposit uuid deposit =>
    cases hid
    cases hcommitted with
    | @deposit _ row reply out hcredit hledger hreply hout =>
      rcases hout.single with ⟨hstored, -⟩ | ⟨hfree, rfl⟩
      · exact absurd hstored (h.deposit_new rfl hledger)
      · refine .inr ⟨hfree, ⟨self.depositMessage deposit (balanceUpdated
          deposit.envelope.requestId deposit.asset row), by simp, rfl⟩, ?_, ?_, ?_⟩ <;>
          cases hreply <;> exact Nat.le_of_ble_eq_true rfl
  | @withdraw uuid withdraw =>
    cases hid
    cases hcommitted with
    | @withdraw _ old row reply out hhit hledger hreply hout =>
      rcases hout.single with ⟨hstored, -⟩ | ⟨hfree, rfl⟩
      · exact absurd hstored (h.withdraw_new rfl hledger)
      · refine .inr ⟨hfree, ⟨self.withdrawMessage withdraw (balanceUpdated
          withdraw.envelope.requestId withdraw.asset row), by simp, rfl⟩, ?_, ?_, ?_⟩ <;>
          cases hreply <;> exact Nat.le_of_ble_eq_true rfl
  | @placeOrder uuid intent =>
    cases hid
    cases hcommitted with
    | reserve hhit hreservation hfree hreply hout =>
      obtain ⟨hkey, rfl⟩ := h.reserve_messages hreservation hfree hout
      refine .inr ⟨hkey, ⟨self.placeOrderMessage intent (fundsReserved uuid intent),
        by simp [WalletProcessor.reserveMessages], rfl⟩, ?_, ?_, ?_⟩ <;>
        cases hreply <;> exact Nat.le_of_ble_eq_true rfl
  | @cancelOrder uuid intent =>
    cases hid
    cases hcommitted with
    | cancel hreply hout =>
      rcases hout.single with ⟨-, rfl⟩ | ⟨hfree, rfl⟩
      · exact .inl (by simpa using hreply.table)
      · refine .inr ⟨hfree, ⟨self.cancelMessage intent, by simp, rfl⟩, ?_, ?_, ?_⟩ <;>
          cases hreply <;> exact Nat.le_of_ble_eq_true rfl
  | withdrawRefused | placeOrderRefused =>
    cases hcommitted with
    | reply hreply => exact .inl (by simpa using hreply.table)
  | release | settle | engineCommand => cases hid

/-- The effects so far, with the message that each of them has queued. -/
structure EffectsOnce (processor : WalletProcessor) (d : WalletDb)
    (log : List (Delivery × List Write)) : Prop where
  registered : Registered processor d
  once : ∀ id, (effects log id).length ≤ 1
  queued : ∀ id, effects log id ≠ [] → (d.walletOutbox.find? id.dedupeKey).isSome
  writes : ∀ id, ∀ entry ∈ log, entry.1.commandId = some id →
    (∀ w ∈ entry.2, w.table = .walletIdempotency) ∨
      hasEffect entry.2 = true ∧ entry.2.countP Write.isBalance ≤ 1 ∧
        entry.2.countP Write.isReservation ≤ 1 ∧ entry.2.countP Write.isEngineInput ≤ 1

theorem Effect.hasEffect (h : Effect d id ws) : Wallet.hasEffect ws = true := by
  obtain ⟨message, hmem, -⟩ := h.queued
  exact List.any_eq_true.2 ⟨_, hmem, by simp⟩

theorem hasEffect_eq_false (h : ∀ w ∈ ws, w.table = .walletIdempotency) : hasEffect ws = false := by
  simpa [hasEffect] using h

/-- A commit of a delivery keeps the effects unique. -/
theorem EffectsOnce.commit {log : List (Delivery × List Write)} (h : EffectsOnce self d log)
    (hcommits : delivery.Commits self d ws) :
    EffectsOnce self (view ws d) (log ++ [(delivery, ws)]) := by
  have hgrows := grows_view d ws
  have hnew : ∀ id, effects (log ++ [(delivery, ws)]) id = effects log id ∨
      effects (log ++ [(delivery, ws)]) id = effects log id ++ [(delivery, ws)] ∧ Effect d id ws := by
    intro id
    rw [effects, List.filter_append]
    by_cases hid : delivery.commandId = some id
    · rcases h.registered.effect hcommits hid with hreply | heffect
      · left
        simp [effects, hasEffect_eq_false hreply]
      · right
        simp [effects, hid, heffect.hasEffect, heffect]
    · left
      simp [effects, hid]
  refine ⟨h.registered.commit hcommits, fun id => ?_, fun id hne => ?_, fun id entry hentry hid => ?_⟩
  · rcases hnew id with heq | ⟨heq, heffect⟩
    · rw [heq]
      exact h.once id
    · have hnil : effects log id = [] := by
        by_contra hne
        have hsome := h.queued id hne
        rw [heffect.free] at hsome
        cases hsome
      rw [heq, hnil]
      exact le_rfl
  · rcases hnew id with heq | ⟨heq, heffect⟩
    · rw [heq] at hne
      exact hgrows.isSome_outbox (h.queued id hne)
    · obtain ⟨message, hmem, hkey⟩ := heffect.queued
      rw [← hkey]
      exact isSome_outbox_of_mem hmem d
  · rcases List.mem_append.1 hentry with hentry | hentry
    · exact h.writes id entry hentry hid
    · cases List.mem_singleton.1 hentry
      rcases h.registered.effect hcommits hid with hreply | heffect
      · exact .inl hreply
      · exact .inr ⟨heffect.hasEffect, heffect.balances, heffect.reservations,
          heffect.engineInputs⟩

theorem effectsOnce_deliverAll {users : List ℤ} {actions : List (Action Delivery)}
    {σ : DeliverySystem} (h : self.deliverAll users actions = some σ) :
    EffectsOnce self σ.committed σ.log := by
  refine inv_deliverAll ⟨registered_empty self users, fun _ => Nat.zero_le _,
    fun _ hne => absurd rfl hne, fun _ _ h => absurd h List.not_mem_nil⟩ ?_ h
  exact fun _ _ _ _ honce hcommits => honce.commit hcommits

/-- Deliveries of a command write no more of a sort than they have effects. -/
theorem countP_writesOf_le {p : Write → Bool} {log : List (Delivery × List Write)}
    (hp : ∀ w, w.table = .walletIdempotency → p w = false)
    (hlog : ∀ entry ∈ log, entry.1.commandId = some id →
      (∀ w ∈ entry.2, w.table = .walletIdempotency) ∨
        hasEffect entry.2 = true ∧ entry.2.countP p ≤ 1) :
    (writesOf log id).countP p ≤ (effects log id).length := by
  induction log with
  | nil => exact le_rfl
  | cons entry log ih =>
    have hrest := ih fun e he => hlog e (List.mem_cons_of_mem _ he)
    by_cases hid : entry.1.commandId = some id
    · have hwrites : writesOf (entry :: log) id = entry.2 ++ writesOf log id := by
        simp [writesOf, hid]
      rw [hwrites, List.countP_append]
      rcases hlog entry List.mem_cons_self hid with hreply | ⟨heffect, hcount⟩
      · have hzero : entry.2.countP p = 0 :=
          List.countP_eq_zero.2 fun w hw => by simp [hp w (hreply w hw)]
        have heffects : effects (entry :: log) id = effects log id := by
          simp [effects, hasEffect_eq_false hreply]
        rw [heffects]
        omega
      · have heffects : effects (entry :: log) id = entry :: effects log id := by
          simp [effects, hid, heffect]
        rw [heffects, List.length_cons]
        omega
    · have hwrites : writesOf (entry :: log) id = writesOf log id := by
        simp [writesOf, hid]
      have heffects : effects (entry :: log) id = effects log id := by
        simp [effects, hid]
      rwa [hwrites, heffects]

end

/-- Whatever is delivered to however many workers, and wherever they stop, the
deliveries of a command commit at most one effect, with at most one balance
change, one reservation and one engine input. -/
theorem effect_at_most_once (self : WalletProcessor) (users : List ℤ)
    (actions : List (Action Delivery)) (σ : DeliverySystem)
    (h : self.deliverAll users actions = some σ) (id : CommandId) :
    (effects σ.log id).length ≤ 1 ∧ (writesOf σ.log id).countP Write.isBalance ≤ 1 ∧
      (writesOf σ.log id).countP Write.isReservation ≤ 1 ∧
      (writesOf σ.log id).countP Write.isEngineInput ≤ 1 := by
  have honce := effectsOnce_deliverAll h
  have hlength := honce.once id
  have hbalance : (writesOf σ.log id).countP Write.isBalance ≤ (effects σ.log id).length := by
    refine countP_writesOf_le (fun w hw => by simp [Write.isBalance, hw]) fun entry hentry hid => ?_
    exact (honce.writes id entry hentry hid).imp_right fun ⟨heffect, hcount, _⟩ => ⟨heffect, hcount⟩
  have hreservation : (writesOf σ.log id).countP Write.isReservation ≤
      (effects σ.log id).length := by
    refine countP_writesOf_le (fun w hw => by simp [Write.isReservation, hw])
      fun entry hentry hid => ?_
    exact (honce.writes id entry hentry hid).imp_right fun ⟨heffect, _, hcount, _⟩ =>
      ⟨heffect, hcount⟩
  have hinput : (writesOf σ.log id).countP Write.isEngineInput ≤ (effects σ.log id).length := by
    refine countP_writesOf_le (fun w hw => ?_) fun entry hentry hid => ?_
    · cases w <;> first | rfl | exact absurd hw (by simp)
    · exact (honce.writes id entry hentry hid).imp_right fun ⟨heffect, _, _, hcount⟩ =>
        ⟨heffect, hcount⟩
  exact ⟨hlength, by omega, by omega, by omega⟩

/-- A deposit of user 1 under the key `k`. -/
def depositOf (amount : ℤ) (referenceId : String) : WalletCommand :=
  .deposit
    { envelope := { requestId := "r", userId := 1, idempotencyKey := "k", replyPartition := 0 },
      asset := .USDC, amount, referenceId }

/-- Two deposits under one key with different bodies; both look for a stored
reply before either has one, and the second fails at its message. -/
def twoDeposits : List (Action Delivery) :=
  [.start 0 (.command "u" (depositOf 100 "a")), .start 1 (.command "u" (depositOf 200 "b")),
   .exec 0, .exec 1, .exec 0, .exec 0, .exec 0, .exec 0, .commit 0,
   .exec 1, .exec 1, .exec 1, .exec 1, .exec 1, .close 1]

theorem effect_at_most_once_twoDeposits :
    ∃ σ, WalletProcessor.new.deliverAll [1] twoDeposits = some σ ∧
      (effects σ.log ⟨1, .deposit, "k"⟩).length ≤ 1 := by
  have hsome : (WalletProcessor.new.deliverAll [1] twoDeposits).isSome := by decide
  obtain ⟨σ, hσ⟩ := Option.isSome_iff_exists.1 hsome
  exact ⟨σ, hσ, (effect_at_most_once .new [1] twoDeposits σ hσ ⟨1, .deposit, "k"⟩).1⟩

end Wallet
