import ExchangeServer.Wallet.Answers
import ExchangeServer.Wallet.FundedOrders

/-!
# What a success acknowledges

A command that finds a reply under its key answers with it, whatever asset and
amount the command names that has stored it. A success acknowledges the command
at hand when the effect under its key has that command's asset and amount; this
holds in a run exactly when no command reads the success of another one.

## Main definitions

- `Write.carriesOut`: the write that carries out what a command asks for
- `Acknowledged`: the effect under the key of a command is its own
- `misreads`: a command reads the success of another one

## Main results

- `Attributed.commit`: the outbox tells which effect has been committed under a key
- `acknowledged_iff`: when every success acknowledges the command at hand
-/

namespace Wallet

open Protocol Relational Transactional Program

/-! ## Requests and what carries them out -/

/-- The asset and the amount that a command of a user asks for. -/
def Delivery.request : Delivery → Option (Asset × ℤ)
  | .command _ (.deposit deposit) => some (deposit.asset, deposit.amount)
  | .command _ (.withdraw withdraw) => some (withdraw.asset, withdraw.amount)
  | .command _ (.placeOrderIntent intent) => some (intent.marginAsset, intent.requiredMargin)
  | .command _ (.cancelOrderIntent _) | .command _ (.releaseReservation _)
  | .command _ (.settleTrade _) | .event _ => none

/-- The write that carries out what a command asks for: a ledger row or a
reservation with its user, asset and amount. -/
def Write.carriesOut : Delivery → Write → Bool
  | .command _ (.deposit deposit), insertLedger row =>
    row.kind = "DEPOSIT" && row.userId = deposit.envelope.userId && row.asset = deposit.asset &&
      row.amount = deposit.amount
  | .command _ (.withdraw withdraw), insertLedger row =>
    row.kind = "WITHDRAW" && row.userId = withdraw.envelope.userId &&
      row.asset = withdraw.asset && row.amount = -withdraw.amount
  | .command _ (.placeOrderIntent intent), insertReservation row =>
    row.userId = intent.envelope.userId && row.asset = intent.marginAsset &&
      row.amount = intent.requiredMargin
  | _, _ => false

namespace Write

variable {uuid : String}

@[simp] theorem carriesOut_deposit {row : LedgerRow} {deposit : Deposit} :
    (insertLedger row).carriesOut (.command uuid (.deposit deposit)) = true ↔
      row.kind = "DEPOSIT" ∧ row.userId = deposit.envelope.userId ∧ row.asset = deposit.asset ∧
        row.amount = deposit.amount := by
  simp [carriesOut, and_assoc]

@[simp] theorem carriesOut_withdraw {row : LedgerRow} {withdraw : Withdraw} :
    (insertLedger row).carriesOut (.command uuid (.withdraw withdraw)) = true ↔
      row.kind = "WITHDRAW" ∧ row.userId = withdraw.envelope.userId ∧
        row.asset = withdraw.asset ∧ row.amount = -withdraw.amount := by
  simp [carriesOut, and_assoc]

@[simp] theorem carriesOut_placeOrder {row : ReservationRow} {intent : PlaceOrderIntent} :
    (insertReservation row).carriesOut (.command uuid (.placeOrderIntent intent)) = true ↔
      row.userId = intent.envelope.userId ∧ row.asset = intent.marginAsset ∧
        row.amount = intent.requiredMargin := by
  simp [carriesOut, and_assoc]

/-- Only rows of the ledger and reservations carry out commands. -/
theorem carriesOut_of_table {w : Write} (hledger : w.table ≠ .walletLedger)
    (hreservation : w.table ≠ .walletReservations) (delivery : Delivery) :
    w.carriesOut delivery = false := by
  cases w with
  | insertLedger row => exact absurd rfl hledger
  | insertReservation row => exact absurd rfl hreservation
  | _ =>
    cases delivery with
    | event event => rfl
    | command uuid command => cases command <;> rfl

end Write

/-- The asset and the amount that the message of an effect names. -/
def NewWalletOutboxMessage.request (message : NewWalletOutboxMessage) : Option (Asset × ℤ) :=
  match message.payload with
  | .walletEvent (.depositApplied event) => some (event.asset, event.amount)
  | .walletEvent (.withdrawalApplied event) => some (event.asset, event.amount)
  | .engineCommand (.placeOrder order) => some (order.marginAsset, order.reservedMarginAmount)
  | _ => none

/-- The outbox holds the message of a command, with the asset and the amount of this one. -/
def Told (d : WalletDb) (delivery : Delivery) : Prop :=
  ∃ id message, delivery.commandId = some id ∧
    d.walletOutbox.find? id.dedupeKey = some message ∧ message.request = delivery.request

theorem Told.mono {d d' : WalletDb} {delivery : Delivery} (hgrows : d.Grows d')
    (h : Told d delivery) : Told d' delivery := by
  obtain ⟨id, message, hid, hfind, hrequest⟩ := h
  exact ⟨id, message, hid, hgrows.outbox _ _ hfind, hrequest⟩

theorem Told.message {d : WalletDb} {delivery : Delivery} {id : CommandId} (h : Told d delivery)
    (hid : delivery.commandId = some id) : ∃ message,
      d.walletOutbox.find? id.dedupeKey = some message ∧ message.request = delivery.request := by
  obtain ⟨id', message, hid', hfind, hrequest⟩ := h
  obtain rfl := Option.some.inj (hid.symm.trans hid')
  exact ⟨message, hfind, hrequest⟩

/-! ## What the commit of an effect leaves behind -/

section Commits

variable {self : WalletProcessor} {d : WalletDb} {delivery : Delivery} {ws : List Write}
  {id : CommandId}

/-- A message that a transaction queues after its other writes can be looked up. -/
private theorem find?_queued (before : List Write) {out : List Write}
    {messages : List NewWalletOutboxMessage} (h : Enqueues d.walletOutbox messages out)
    (hbefore : ∀ w ∈ before, w.table ≠ .walletOutbox) {message : NewWalletOutboxMessage}
    (hmem : message ∈ messages) :
    (view (before ++ out) d).walletOutbox.find? message.dedupeKey = some message :=
  Table.find?_of_mem (h.stored_view hbefore message hmem)

/-- A message among the writes of a transaction is one of those it queues last. -/
private theorem mem_queued (before : List Write) {outbox : Table NewWalletOutboxMessage.dedupeKey}
    {out : List Write} {messages : List NewWalletOutboxMessage} (h : Enqueues outbox messages out)
    (hbefore : ∀ w ∈ before, w.table ≠ .walletOutbox) {message : NewWalletOutboxMessage}
    (hmem : .insertOutbox message ∈ before ++ out) : message ∈ messages := by
  rcases List.mem_append.1 hmem with hmem | hmem
  · exact absurd rfl (hbefore _ hmem)
  · exact h.mem hmem

/-- An effect leaves its message in the outbox. -/
theorem Delivery.Commits.told (h : delivery.Commits self d ws) (hid : delivery.commandId = some id)
    (heffect : hasEffect ws = true) : Told (view ws d) delivery := by
  obtain ⟨tx, events, hissues, hcommitted⟩ := h
  cases hissues with
  | @deposit uuid deposit =>
    cases hcommitted with
    | @deposit _ row reply out hcredit hledger hreply hout =>
      have hfind := find?_queued
        [.setCollateral row, .insertLedger (depositLedgerRow deposit), reply] hout
        (by simp [hreply.table]) List.mem_cons_self
      exact ⟨_, _, rfl, hfind, rfl⟩
  | @withdraw uuid withdraw =>
    cases hcommitted with
    | @withdraw _ old row reply out hhit hledger hreply hout =>
      have hfind := find?_queued
        [.setCollateral row, .insertLedger (withdrawLedgerRow withdraw), reply] hout
        (by simp [hreply.table]) List.mem_cons_self
      exact ⟨_, _, rfl, hfind, rfl⟩
  | @placeOrder uuid intent =>
    cases hcommitted with
    | @reserve _ _ old row reservation reply out hhit hreservation hfree hreply hout =>
      have hfind := find?_queued [.setCollateral row, .insertReservation reservation, reply] hout
        (by simp [hreply.table]) (List.mem_cons_of_mem _ List.mem_cons_self)
      exact ⟨_, _, rfl, hfind, rfl⟩
  | @cancelOrder uuid intent =>
    cases hcommitted with
    | @cancel _ reply out hreply hout =>
      have hfind := find?_queued [reply] hout (by simp [hreply.table]) List.mem_cons_self
      exact ⟨_, _, rfl, hfind, rfl⟩
  | withdrawRefused | placeOrderRefused =>
    cases hcommitted with
    | reply hreply =>
      rw [hasEffect_eq_false (by simpa using hreply.table)] at heffect
      cases heffect
  | release | settle | engineCommand => cases hid

/-- An effect carries out the commands under its key that ask for the same. -/
theorem Delivery.Commits.carriesOut_iff (h : delivery.Commits self d ws)
    (hid : delivery.commandId = some id) (heffect : hasEffect ws = true) {other : Delivery}
    (hother : other.commandId = some id) : ws.any (Write.carriesOut other) = true ↔
      other.request.isSome = true ∧ other.request = delivery.request := by
  have hrest : ∀ {ws : List Write}, (∀ w ∈ ws, w.table ≠ .walletLedger ∧
      w.table ≠ .walletReservations) → ws.any (Write.carriesOut other) = false := fun hws =>
    List.any_eq_false.2 fun w hw => by
      simp [Write.carriesOut_of_table (hws w hw).1 (hws w hw).2 other]
  -- The one row that may carry out a command is between the balance and the reply.
  have hsingle : ∀ {row : CollateralRow} {w reply : Write} {out : List Write},
      reply.table = .walletIdempotency → (∀ w ∈ out, w.table = .walletOutbox) →
      ((.setCollateral row :: w :: reply :: out).any (Write.carriesOut other) = true ↔
        w.carriesOut other = true) := by
    intro row w reply out hreply hout
    have htail : (reply :: out).any (Write.carriesOut other) = false :=
      hrest (by simp +contextual [or_imp, hreply, hout])
    have hhead : (Write.setCollateral row).carriesOut other = false :=
      Write.carriesOut_of_table (by simp) (by simp) other
    rw [List.any_cons, List.any_cons, htail, hhead, Bool.or_false, Bool.false_or]
  obtain ⟨tx, events, hissues, hcommitted⟩ := h
  -- Two commands under one key are of one kind, so one row tells of both.
  obtain ⟨uuid', command, rfl⟩ : ∃ uuid command, other = .command uuid command := by
    cases other with
    | event event => cases hother
    | command uuid command => exact ⟨uuid, command, rfl⟩
  cases hissues with
  | deposit =>
    cases hid
    cases hcommitted with
    | deposit hcredit hledger hreply hout =>
      rw [hsingle hreply.table hout.table]
      cases command <;> simp only [Delivery.commandId, CommandId.of, Option.some.injEq,
        CommandId.mk.injEq, reduceCtorEq, false_and, and_false] at hother
      simp only [Write.carriesOut_deposit, depositLedgerRow, Delivery.request, hother.1,
        Option.isSome_some, true_and, Option.some.injEq, Prod.mk.injEq]
      exact and_congr eq_comm eq_comm
  | withdraw =>
    cases hid
    cases hcommitted with
    | withdraw hhit hledger hreply hout =>
      rw [hsingle hreply.table hout.table]
      cases command <;> simp only [Delivery.commandId, CommandId.of, Option.some.injEq,
        CommandId.mk.injEq, reduceCtorEq, false_and, and_false] at hother
      simp only [Write.carriesOut_withdraw, withdrawLedgerRow, Delivery.request, hother.1,
        Option.isSome_some, true_and, Option.some.injEq, Prod.mk.injEq, neg_inj]
      exact and_congr eq_comm eq_comm
  | placeOrder =>
    cases hid
    cases hcommitted with
    | reserve hhit hreservation hfree hreply hout =>
      rw [hsingle hreply.table hout.table]
      cases command <;> simp only [Delivery.commandId, CommandId.of, Option.some.injEq,
        CommandId.mk.injEq, reduceCtorEq, false_and, and_false] at hother
      simp only [Write.carriesOut_placeOrder, hreservation.userId, hreservation.asset,
        hreservation.amount, Delivery.request, hother.1, Option.isSome_some, true_and,
        Option.some.injEq, Prod.mk.injEq]
      exact and_congr eq_comm eq_comm
  | cancelOrder =>
    cases hid
    cases hcommitted with
    | cancel hreply hout =>
      rw [hrest (by simp +contextual [or_imp, hreply.table, hout.table])]
      cases command <;> simp only [Delivery.commandId, CommandId.of, Option.some.injEq,
        CommandId.mk.injEq, reduceCtorEq, false_and, and_false] at hother
      exact iff_of_false Bool.false_ne_true fun h => Bool.false_ne_true h.1
  | withdrawRefused | placeOrderRefused =>
    cases hcommitted with
    | reply hreply =>
      rw [hasEffect_eq_false (by simpa using hreply.table)] at heffect
      cases heffect
  | release | settle | engineCommand => cases hid

/-- The command that a transaction carries out. -/
def WalletTx.commandId : WalletTx → Option CommandId
  | .deposit body => some (.of .deposit body.envelope)
  | .withdraw body => some (.of .withdraw body.envelope)
  | .reserve _ intent => some (.of .placeOrder intent.envelope)
  | .cancel intent => some (.of .cancelOrder intent.envelope)
  | .release _ | .settle _ | .accountDelta _ | .reply .. => none

theorem Delivery.Issues.commandId {tx : WalletTx} (h : delivery.Issues tx)
    (htx : tx.commandId = some id) : delivery.commandId = some id := by
  cases h with
  | deposit | withdraw | placeOrder | cancelOrder => exact htx
  | @engineCommand event command _ => cases command <;> cases htx
  | withdrawRefused | placeOrderRefused | release | settle => cases htx

/-- A message under the dedupe key of a command is queued by that command alone. -/
theorem Delivery.Commits.commandId_of_queued (h : delivery.Commits self d ws)
    {message : NewWalletOutboxMessage} (hmem : .insertOutbox message ∈ ws)
    (hkey : message.dedupeKey = id.dedupeKey) : delivery.commandId = some id := by
  -- The heads of the other messages are not those of commands.
  have hforeign : ∀ (kind : MessageKind) (rest : String), message.dedupeKey = kind.head ++ rest →
      kind ∈ [.fundsReserved, .fundsReleased, .tradeSettled, .accountDeltaApplied] →
      delivery.commandId = some id := by
    intro kind rest heq hkind
    rw [hkey, CommandId.dedupeKey, String.append_assoc, String.append_assoc] at heq
    rw [← MessageKind.head_injective heq] at hkind
    obtain ⟨userId, command, idempotencyKey⟩ := id
    cases command <;> simp [CommandKind.message] at hkind
  obtain ⟨tx, events, hissues, hcommitted⟩ := h
  cases hcommitted with
  | @deposit deposit row reply out hcredit hledger hreply hout =>
    obtain rfl := List.mem_singleton.1 (mem_queued [_, _, reply] hout (by simp [hreply.table]) hmem)
    exact hissues.commandId (congrArg some (CommandId.dedupeKey_injective hkey))
  | @withdraw withdraw old row reply out hhit hledger hreply hout =>
    obtain rfl := List.mem_singleton.1 (mem_queued [_, _, reply] hout (by simp [hreply.table]) hmem)
    exact hissues.commandId (congrArg some (CommandId.dedupeKey_injective hkey))
  | @reserve uuid intent old row reservation reply out hhit hreservation hfree hreply hout =>
    -- A reservation queues two messages, the event and the engine input.
    have hqueued := mem_queued [_, _, reply] hout (by simp [hreply.table]) hmem
    rcases List.mem_cons.1 hqueued with rfl | hqueued
    · exact hforeign .fundsReserved ("res_" ++ uuid) rfl (by simp)
    · obtain rfl := List.mem_singleton.1 hqueued
      exact hissues.commandId (congrArg some (CommandId.dedupeKey_injective hkey))
  | @release release v read now ws hv hread h =>
    obtain ⟨balance, out, hbalance, hout, rfl⟩ := h.writes
    simp only [List.mem_append, List.mem_cons, reduceCtorEq, false_or] at hmem
    rcases hmem with hmem | hmem
    · exact absurd (hbalance.table _ hmem) (by simp)
    · obtain rfl := List.mem_singleton.1 (hout.mem hmem)
      exact hforeign .fundsReleased _ (releaseDedupeKey_eq release) (by simp)
  | @settle settle v read now ws hv hread h =>
    obtain ⟨balance, out, hbalance, hout, rfl⟩ := h.writes
    simp only [List.mem_append, List.mem_cons, reduceCtorEq, false_or] at hmem
    rcases hmem with hmem | hmem
    · exact absurd (hbalance.table _ hmem) (by simp)
    · obtain rfl := List.mem_singleton.1 (hout.mem hmem)
      exact hforeign .tradeSettled _ (settleDedupeKey_eq settle) (by simp)
  | @accountDelta delta row out hnonzero hledger hsign hkey htotal hlocked hout =>
    obtain rfl := List.mem_singleton.1 (mem_queued [_, _] hout (by simp) hmem)
    exact hforeign .accountDeltaApplied _ (accountDeltaDedupeKey_eq delta) (by simp)
  | duplicateDelta => cases hmem
  | @reply envelope commandType reply w hreply =>
    cases List.mem_singleton.1 hmem
    exact absurd hreply.table (by simp)
  | @cancel intent reply out hreply hout =>
    obtain rfl := List.mem_singleton.1 (mem_queued [reply] hout (by simp [hreply.table]) hmem)
    exact hissues.commandId (congrArg some (CommandId.dedupeKey_injective hkey))

/-- A success is stored together with the effect that it reports. -/
theorem Delivery.Commits.success (h : delivery.Commits self d ws) {reply : WalletReply}
    (hreply : replyOf (view ws d) id = some reply) (hsucceeds : succeeds reply = true) :
    replyOf d id = some reply ∨ delivery.commandId = some id ∧ hasEffect ws = true := by
  rcases h.replyOf_cases hreply with hold | ⟨hnone, hid, hspends⟩
  · exact .inl hold
  · refine .inr ⟨hid, ?_⟩
    obtain ⟨tx, events, hissues, hcommitted⟩ := h
    cases hissues with
    | deposit =>
      cases hcommitted with
      | deposit => simp [hasEffect]
    | cancelOrder =>
      cases hid
      have hcancel := hreply.symm.trans (hcommitted.replyOf_cancel hnone)
      obtain rfl := Option.some.inj hcancel
      cases hsucceeds
    | withdraw | withdrawRefused | placeOrder | placeOrderRefused =>
      cases hid
      rcases hspends rfl with ⟨heffect, -⟩ | ⟨-, hrefuses⟩
      · exact heffect
      · rw [refuses_of_succeeds hsucceeds] at hrefuses
        cases hrefuses
    | release | settle | engineCommand => cases hid

/-- The transactions of commands that ask for an amount. -/
private def WalletTx.moves : WalletTx → Bool
  | .deposit _ | .withdraw _ | .reserve .. => true
  | .release _ | .settle _ | .accountDelta _ | .reply .. | .cancel _ => false

private theorem Committed.hasEffect {R : WalletDb → WalletDb → Prop} {tx : WalletTx}
    {events : List WalletEvent} (h : Committed self R d tx events ws) (htx : tx.moves = true) :
    Wallet.hasEffect ws = true := by
  cases h with
  | deposit | withdraw | reserve => simp [Wallet.hasEffect]
  | release | settle | accountDelta | duplicateDelta | reply | cancel => cases htx

end Commits

/-! ## Which effect a message tells -/

/-- Every message of a command tells its one effect, and a stored success comes
with a message. -/
structure Attributed (processor : WalletProcessor) (d : WalletDb)
    (log : List (Delivery × List Write)) : Prop where
  once : EffectsOnce processor d log
  told : ∀ id message, d.walletOutbox.find? id.dedupeKey = some message →
    ∃ entry, effects log id = [entry] ∧ message.request = entry.1.request ∧
      ∀ other : Delivery, other.commandId = some id →
        (entry.2.any (Write.carriesOut other) = true ↔
          other.request.isSome = true ∧ other.request = entry.1.request)
  succeeded : ∀ id reply, replyOf d id = some reply → succeeds reply = true →
    (d.walletOutbox.find? id.dedupeKey).isSome

section Attribution

variable {self : WalletProcessor} {d : WalletDb} {log : List (Delivery × List Write)}
  {delivery : Delivery} {ws : List Write} {id : CommandId}

theorem attributed_empty (self : WalletProcessor) (users : List ℤ) :
    Attributed self (.empty users) [] where
  once := ⟨registered_empty self users, fun _ => Nat.zero_le _, fun _ hne => absurd rfl hne,
    fun _ _ h => absurd h List.not_mem_nil⟩
  told _ _ hfind := nomatch hfind
  succeeded _ _ hreply := nomatch hreply

/-- Every commit of a delivery keeps the messages with their effects. -/
theorem Attributed.commit (h : Attributed self d log) (hcommits : delivery.Commits self d ws) :
    Attributed self (view ws d) (log ++ [(delivery, ws)]) := by
  have hgrows := grows_view d ws
  have honce := h.once.commit hcommits
  refine ⟨honce, fun id message hfind => ?_, fun id reply hreply hsucceeds => ?_⟩
  · have hlength := honce.once id
    rw [effects, List.filter_append, List.length_append] at hlength
    rw [effects, List.filter_append]
    cases hold : d.walletOutbox.find? id.dedupeKey with
    | some old =>
      -- The effect is in the log already, so this commit is not another one.
      obtain rfl := Option.some.inj ((hgrows.outbox _ _ hold).symm.trans hfind)
      obtain ⟨entry, hentry, htold⟩ := h.told id old hold
      change List.filter _ log = [entry] at hentry
      rw [hentry, List.length_singleton] at hlength
      have hnil := List.eq_nil_of_length_eq_zero (Nat.le_zero.1 (Nat.le_of_add_le_add_left hlength))
      rw [hentry, hnil]
      exact ⟨entry, rfl, htold⟩
    | none =>
      have hkey := Table.key_of_find? hfind
      rcases mem_outbox_view (Table.mem_of_find? hfind) with hmem | hmem
      · exact absurd hkey (Table.find?_eq_none_iff.1 hold message hmem)
      · -- The message is new, and so is the effect, the only one in the log.
        have hid := hcommits.commandId_of_queued hmem hkey
        have heffect : hasEffect ws = true := List.any_eq_true.2 ⟨_, hmem, by simp⟩
        obtain ⟨message', hfind', hrequest⟩ := (hcommits.told hid heffect).message hid
        obtain rfl := Option.some.inj (hfind.symm.trans hfind')
        have hself : [(delivery, ws)].filter (fun entry => entry.1.commandId = some id &&
            hasEffect entry.2) = [(delivery, ws)] := by simp [hid, heffect]
        rw [hself, List.length_singleton] at hlength
        have hnil :=
          List.eq_nil_of_length_eq_zero (Nat.le_zero.1 (Nat.le_of_add_le_add_right hlength))
        rw [hself, hnil]
        exact ⟨_, rfl, hrequest, fun _ => hcommits.carriesOut_iff hid heffect⟩
  · rcases hcommits.success hreply hsucceeds with hold | ⟨hid, heffect⟩
    · exact hgrows.isSome_outbox (h.succeeded id reply hold hsucceeds)
    · obtain ⟨message, hfind, -⟩ := (hcommits.told hid heffect).message hid
      rw [hfind]
      rfl

end Attribution

/-! ## Runs with their answers -/

/-- The deliveries in progress, with the replies that those processed are answered. -/
abbrev AnsweringSystem :=
  System Stmt WalletRepositoryError (List WalletReply) WalletDb Write Key Delivery

/-- The effect of a schedule on the empty wallet of some users, with the answers. -/
def WalletProcessor.answerAll (self : WalletProcessor) (users : List ℤ)
    (actions : List (Action Delivery)) : Option AnsweringSystem :=
  (System.initial (.empty users) : AnsweringSystem).steps self.answer actions

/-- A delivery that has been processed, with its replies. -/
def answered (σ : AnsweringSystem) (t : ℕ) : Option (Delivery × List WalletReply) :=
  match σ.sessions t with
  | some ⟨delivery, .ret (.ok replies), _⟩ => some (delivery, replies)
  | _ => none

/-- The effect under the key of a command has been committed, and it has carried
out this command. -/
def Acknowledged (log : List (Delivery × List Write)) (delivery : Delivery) : Prop :=
  ∃ id entry, delivery.commandId = some id ∧ effects log id = [entry] ∧
    entry.2.any (Write.carriesOut delivery) = true

/-- Every success that a deposit, a withdrawal or an order is answered acknowledges it. -/
def Acknowledges (σ : AnsweringSystem) : Prop :=
  ∀ t delivery replies, answered σ t = some (delivery, replies) →
    delivery.request.isSome = true → replies.any succeeds = true → Acknowledged σ.log delivery

/-- The action lets a command that has just been taken up read the stored success of
another delivery under its key, whose asset or amount is another one. -/
def WalletProcessor.misreads (self : WalletProcessor) (σ : AnsweringSystem) :
    Action Delivery → Prop
  | .exec t => ∃ delivery id entry, σ.sessions t = some ⟨delivery, self.answer delivery, []⟩ ∧
      delivery.commandId = some id ∧ delivery.request.isSome = true ∧
      (replyOf σ.committed id).any succeeds = true ∧
      entry ∈ effects σ.log id ∧ entry.1.request ≠ delivery.request
  | .start .. | .commit _ | .rollback _ | .close _ => False

section Runs

variable {self : WalletProcessor} {delivery : Delivery} {id : CommandId}

theorem contract_commits {tx : WalletTx} (hissues : delivery.Issues tx) {d : WalletDb}
    {events : List WalletEvent} {ws : List Write}
    (h : Committed self WalletDb.Grows d tx events ws) : (self.contract delivery).commits d ws :=
  ⟨tx, events, hissues, h⟩

theorem wlp_answer_contract (self : WalletProcessor) (delivery : Delivery) (d : WalletDb) :
    (self.answer delivery).wlp WalletDb.Grows (self.contract delivery) d [] fun _ _ _ => True := by
  cases delivery with
  | command uuid command =>
    rw [WalletProcessor.answer, wlp_bind]
    exact wlp_processCommand reads_grows (fun _ _ => trivial) (fun _ _ _ => trivial)
      (fun _ _ => trivial) (fun _ _ _ _ hissues h => contract_commits hissues h) d
  | event event =>
    rw [WalletProcessor.answer, wlp_bind]
    have hcommands := wlp_processEngineCommands (C := self.contract (.event event)) reads_grows
      (fun _ _ => trivial) (fun _ hmem _ _ _ h => contract_commits (.engineCommand hmem) h) d
    refine wlp_mono hcommands fun result d ws _ => ?_
    cases result <;> trivial

theorem attributed_answerAll {users : List ℤ} {actions : List (Action Delivery)}
    {σ : AnsweringSystem} (h : self.answerAll users actions = some σ) :
    Attributed self σ.committed σ.log :=
  System.commits_of_steps (wlp_answer_contract self) (I := Attributed self)
    (fun _ _ _ _ hattributed hcommits => hattributed.commit hcommits) h
    (attributed_empty self users)

/-- What a command ends with that has found no stored reply. -/
def EndsTold (delivery : Delivery) (result : Except WalletRepositoryError (List WalletReply))
    (d : WalletDb) (_ : List Write) : Prop :=
  ∀ replies, result = .ok replies → replies.any succeeds = true → Told d delivery

/-- A command looks for a stored reply first and goes on with `next`: it answers with
the stored reply, or carries itself out. -/
structure LooksUp (processor : WalletProcessor) (delivery : Delivery) (id : CommandId)
    (next : Option WalletReply → Tx (List WalletReply)) : Prop where
  commandId : delivery.commandId = some id
  program : processor.answer delivery =
    .stmt (.getIdempotentReply id.userId id.kind.commandType id.idempotencyKey) next
  stored : ∀ reply, ∃ replies, next (some reply) = .ret (.ok replies) ∧
    replies.any succeeds = succeeds reply
  fresh : ∀ d, (next none).wlp WalletDb.Grows (processor.contract delivery) d [] (EndsTold delivery)

/-- Answering with the stored reply if there is one, and carrying out the command if not. -/
private theorem looksUp_of (kind : CommandKind) {envelope : CommandEnvelope}
    {p : Tx WalletProcessResult} (hid : delivery.commandId = some (.of kind envelope))
    (hanswer : self.answer delivery = (do
      let existing ← getIdempotentReply envelope.userId kind.commandType envelope.idempotencyKey
      match existingReply existing envelope.requestId with
      | some reply => return replyResult reply
      | none => p : Tx WalletProcessResult) >>= fun result => pure result.walletReplies)
    (hp : ∀ d, p.wlp WalletDb.Grows (self.contract delivery) d [] fun result d _ =>
      ∀ out, result = .ok out → out.walletReplies.any succeeds = true → Told d delivery) :
    ∃ id next, LooksUp self delivery id next := by
  refine ⟨.of kind envelope, _, hid, hanswer, fun reply => ⟨_, rfl, ?_⟩, fun d => ?_⟩
  · cases reply <;> rfl
  · change (p >>= fun result => pure result.walletReplies).wlp _ _ _ _ _
    rw [wlp_bind]
    refine wlp_mono (hp d) fun result d ws h => ?_
    cases result with
    | error e => nofun
    | ok out =>
      rintro replies ⟨⟩
      exact h out rfl

theorem exists_looksUp (self : WalletProcessor) (hrequest : delivery.request.isSome = true) :
    ∃ id next, LooksUp self delivery id next := by
  have htold : ∀ {tx events d d' ws}, delivery.Issues tx → tx.moves = true →
      (∃ id, delivery.commandId = some id) → Committed self WalletDb.Grows d tx events ws →
      WalletDb.Grows (view ws d) d' → Told d' delivery := by
    rintro tx events d d' ws hissues htx ⟨id, hid⟩ h hgrows
    exact ((contract_commits hissues h).told hid (h.hasEffect htx)).mono hgrows
  cases delivery with
  | event event => cases hrequest
  | command uuid command =>
    cases command with
    | deposit deposit =>
      refine looksUp_of .deposit rfl rfl fun d => ?_
      rw [wlp_bind]
      refine wlp_applyDeposit reads_grows (fun _ => trivial) (fun e d' ws _ out h => by cases h)
        fun balance ws h => ⟨contract_commits .deposit h, ?_⟩
      rintro d' hd _ ⟨⟩ _
      exact htold .deposit rfl ⟨_, rfl⟩ h hd
    | withdraw withdraw =>
      refine looksUp_of .withdraw rfl rfl fun d => ?_
      rw [wlp_bind, wlp_attempt]
      refine wlp_applyWithdraw reads_grows (fun _ => trivial) (fun e d' ws _ d'' _ => ?_)
        fun balance ws h => ⟨contract_commits .withdraw h, ?_⟩
      · cases e with
        | insufficientFunds available =>
          dsimp only
          rw [WalletProcessor.recordReply, wlp_bind]
          refine wlp_recordIdempotentReply (fun _ => trivial) fun ws h =>
            ⟨contract_commits .withdrawRefused h, ?_⟩
          rintro d' hd _ ⟨⟩ ⟨⟩
        | _ => rintro out ⟨⟩
      · rintro d' hd _ ⟨⟩ _
        exact htold .withdraw rfl ⟨_, rfl⟩ h hd
    | placeOrderIntent intent =>
      refine looksUp_of .placeOrder rfl rfl fun d => ?_
      rw [wlp_bind, wlp_attempt]
      refine wlp_reserveFunds reads_grows (fun _ => trivial) (fun e d' ws _ d'' _ => ?_)
        fun ws h => ⟨contract_commits .placeOrder h, ?_⟩
      · cases e with
        | insufficientFunds available =>
          dsimp only
          rw [WalletProcessor.recordReply, wlp_bind]
          refine wlp_recordIdempotentReply (fun _ => trivial) fun ws h =>
            ⟨contract_commits .placeOrderRefused h, ?_⟩
          rintro d' hd _ ⟨⟩ ⟨⟩
        | _ => rintro out ⟨⟩
      · rintro d' hd _ ⟨⟩ _
        exact htold .placeOrder rfl ⟨_, rfl⟩ h hd
    | cancelOrderIntent _ | releaseReservation _ | settleTrade _ => cases hrequest

/-- Every command has not looked for its reply yet, or will end with its own effect told. -/
def Tracks (processor : WalletProcessor) (σ : AnsweringSystem) : Prop :=
  ∀ t s, σ.sessions t = some s → s.label.request.isSome = true →
    s.cont = processor.answer s.label ∧ s.writes = [] ∨
      SoundFor WalletDb.Grows (processor.contract s.label) (EndsTold s.label) s.cont s.writes
        σ.committed

/-- A command that has looked for its reply, and has not read that of another one. -/
private theorem soundFor_lookup {σ : AnsweringSystem}
    (hattributed : Attributed self σ.committed σ.log)
    {next : Option WalletReply → Tx (List WalletReply)} (hlooks : LooksUp self delivery id next)
    (hown : (replyOf σ.committed id).any succeeds = true →
      ∀ entry ∈ effects σ.log id, entry.1.request = delivery.request) :
    SoundFor WalletDb.Grows (self.contract delivery) (EndsTold delivery)
      (next (replyOf σ.committed id)) [] σ.committed := by
  cases hreply : replyOf σ.committed id with
  | none => exact fun d _ _ => hlooks.fresh d
  | some reply =>
    obtain ⟨replies, hnext, hany⟩ := hlooks.stored reply
    rw [hnext]
    rintro d hd - _ ⟨⟩ hsucceeds
    rw [hany] at hsucceeds
    obtain ⟨message, hmessage⟩ :=
      Option.isSome_iff_exists.1 (hattributed.succeeded id reply hreply hsucceeds)
    obtain ⟨entry, hentry, hrequest, -⟩ := hattributed.told id message hmessage
    have hsame : entry.1.request = delivery.request := by
      refine hown ?_ entry ?_
      · rw [hreply]
        exact hsucceeds
      · rw [hentry]
        exact List.mem_singleton.2 rfl
    exact Told.mono hd ⟨id, message, hlooks.commandId, hmessage, hrequest.trans hsame⟩

/-- Every step that is no misreading keeps the commands on their way. -/
theorem Tracks.step {σ σ' : AnsweringSystem} {a : Action Delivery} (h : Tracks self σ)
    (howned : System.Owned σ) (hattributed : Attributed self σ.committed σ.log)
    (hstep : System.Step self.answer σ a σ') (ha : ¬self.misreads σ a) : Tracks self σ' := by
  intro u r hu hrequest
  cases hstep with
  | start hs =>
    rcases System.update_cases hu with ⟨-, he⟩ | ⟨-, hu⟩
    · cases he
      exact .inl ⟨rfl, rfl⟩
    · exact h u r hu hrequest
  | refused hs he | close hs =>
    rcases System.update_cases hu with ⟨-, ⟨⟩⟩ | ⟨-, hu⟩
    exact h u r hu hrequest
  | @exec t l ws β s next b ws' hs he hfree =>
    rcases System.update_cases hu with ⟨rfl, hr⟩ | ⟨-, hu⟩
    · cases hr
      rcases h u _ hs hrequest with ⟨hcont, hws⟩ | hsound
      · obtain ⟨id, next', hlooks⟩ := exists_looksUp self hrequest
        have hprogram := hcont.trans hlooks.program
        cases hprogram
        cases hws
        cases he
        refine .inr (soundFor_lookup hattributed hlooks fun hsucceeds entry hentry => ?_)
        by_contra hne
        rw [← hlooks.program] at hs
        exact ha ⟨l, id, entry, hs, hlooks.commandId, hrequest, hsucceeds, hentry, hne⟩
      · exact .inr (hsound.exec reliable_le he)
    · exact h u r hu hrequest
  | @commit t l next ws hs =>
    rcases System.update_cases hu with ⟨rfl, hr⟩ | ⟨hut, hu⟩
    · cases hr
      rcases h u _ hs hrequest with ⟨hcont, -⟩ | hsound
      · obtain ⟨id, next', hlooks⟩ := exists_looksUp self hrequest
        cases hcont.trans hlooks.program
      · exact .inr (hsound.after_commit reliable_le)
    · exact (h u r hu hrequest).imp_right fun hsound =>
        hsound.mono reliable_le (Locking.le_applyAll ws _) (howned.look_commit hut hu hs)
  | rollback hs =>
    rcases System.update_cases hu with ⟨rfl, hr⟩ | ⟨-, hu⟩
    · cases hr
      rcases h u _ hs hrequest with ⟨hcont, -⟩ | hsound
      · obtain ⟨id, next', hlooks⟩ := exists_looksUp self hrequest
        cases hcont.trans hlooks.program
      · exact .inr (hsound.after_rollback reliable_le)
    · exact h u r hu hrequest

theorem answered_eq_some {σ : AnsweringSystem} {t : ℕ} {replies : List WalletReply} :
    answered σ t = some (delivery, replies) ↔
      ∃ ws, σ.sessions t = some ⟨delivery, .ret (.ok replies), ws⟩ := by
  constructor
  · intro h
    unfold answered at h
    split at h
    · next hs =>
      cases h
      exact ⟨_, hs⟩
    · cases h
  · rintro ⟨ws, hs⟩
    rw [answered, hs]

private theorem answered_update {σ : AnsweringSystem} {t : ℕ} {replies : List WalletReply}
    {ws : List Write} :
    answered
      { σ with
        sessions := Function.update σ.sessions t (some ⟨delivery, .ret (.ok replies), ws⟩) } t =
      some (delivery, replies) :=
  answered_eq_some.2 ⟨ws, Function.update_self ..⟩

theorem Tracks.acknowledges {σ : AnsweringSystem} (h : Tracks self σ)
    (hattributed : Attributed self σ.committed σ.log) : Acknowledges σ := by
  intro t delivery replies hanswered hrequest hsucceeds
  obtain ⟨ws, hs⟩ := answered_eq_some.1 hanswered
  rcases h t _ hs hrequest with ⟨hcont, -⟩ | hsound
  · obtain ⟨id, next, hlooks⟩ := exists_looksUp self hrequest
    cases hcont.trans hlooks.program
  · have htold := hsound.result reliable_le replies rfl hsucceeds
    obtain ⟨id, message, hid, hfind, hsame⟩ := htold
    obtain ⟨entry, hentry, hmessage, hcarries⟩ := hattributed.told id message hfind
    exact ⟨id, entry, hid, hentry, (hcarries delivery hid).2 ⟨hrequest, hsame.symm.trans hmessage⟩⟩

/-- A command that reads the success of another one answers with it at once. -/
theorem not_acknowledges_of_misreads {σ : AnsweringSystem} {a : Action Delivery}
    (hattributed : Attributed self σ.committed σ.log) (ha : self.misreads σ a) :
    ∃ σ', σ.step self.answer a = some σ' ∧ ¬Acknowledges σ' := by
  cases a with
  | exec t =>
    obtain ⟨delivery, id, entry, hs, hid, hrequest, hreplied, hentry, hne⟩ := ha
    obtain ⟨reply, hreply, hsucceeds⟩ := (Option.any_eq_true _ _).1 hreplied
    obtain ⟨id', next, hlooks⟩ := exists_looksUp self hrequest
    obtain rfl := Option.some.inj (hid.symm.trans hlooks.commandId)
    obtain ⟨replies, hnext, hany⟩ := hlooks.stored reply
    have hexec : Store.exec (S := Stmt) (.getIdempotentReply id.userId id.kind.commandType
        id.idempotencyKey) (Store.applyAll Stmt ([] : List Write) σ.committed) =
          .ok (some reply, []) := congrArg (fun reply => Except.ok (reply, [])) hreply
    rw [hlooks.program] at hs
    have hstep : σ.step self.answer (.exec t) = _ := System.step_read hs hexec
    rw [hnext] at hstep
    refine ⟨_, hstep, fun hall => ?_⟩
    obtain ⟨id', own, hid', hown, hcarries⟩ :=
      hall t delivery replies answered_update hrequest (hany.trans hsucceeds)
    obtain rfl := Option.some.inj (hid.symm.trans hid')
    obtain ⟨message, hmessage⟩ :=
      Option.isSome_iff_exists.1 (hattributed.succeeded id reply hreply hsucceeds)
    obtain ⟨entry', heffects, -, hcarries'⟩ := hattributed.told id message hmessage
    have hentry' : entry = entry' := List.mem_singleton.1 (heffects ▸ hentry)
    have hown' : own = entry' := (List.cons.inj (hown.symm.trans heffects)).1
    rw [hown', hcarries' delivery hid] at hcarries
    rw [hentry'] at hne
    exact hne hcarries.2.symm
  | start | commit | rollback | close => exact ha.elim

theorem tracks_initial (self : WalletProcessor) (d : WalletDb) : Tracks self (System.initial d) :=
  fun _ _ hs => nomatch hs

theorem answerAll_succ {users : List ℤ} {actions : List (Action Delivery)} {n : ℕ}
    {a : Action Delivery} (ha : actions[n]? = some a) :
    self.answerAll users (actions.take (n + 1)) =
      (self.answerAll users (actions.take n)).bind fun σ => σ.step self.answer a := by
  rw [List.take_add_one, ha, WalletProcessor.answerAll, Option.toList_some, System.steps_append]
  refine congrArg _ (funext fun σ => ?_)
  change (σ.step self.answer a).bind some = _
  exact Option.bind_fun_some _

end Runs

/-- In every run, whatever is delivered to however many workers, every success that a
deposit, a withdrawal or an order is answered acknowledges it exactly when no command
reads the success of another asset or amount under its key. -/
theorem acknowledged_iff (self : WalletProcessor) (users : List ℤ)
    (actions : List (Action Delivery)) :
    (∀ n σ, self.answerAll users (actions.take n) = some σ → Acknowledges σ) ↔
      ∀ n σ a, self.answerAll users (actions.take n) = some σ → actions[n]? = some a →
        ¬self.misreads σ a := by
  constructor
  · intro h n σ a hσ ha hmisreads
    obtain ⟨σ', hstep, hnot⟩ :=
      not_acknowledges_of_misreads (attributed_answerAll hσ) hmisreads
    refine hnot (h (n + 1) σ' ?_)
    rw [answerAll_succ ha, hσ, Option.bind_some, hstep]
  · intro h n
    suffices htracks : ∀ σ, self.answerAll users (actions.take n) = some σ → Tracks self σ from
      fun σ hσ => (htracks σ hσ).acknowledges (attributed_answerAll hσ)
    induction n with
    | zero =>
      intro σ hσ
      cases hσ
      exact tracks_initial self _
    | succ n ih =>
      intro σ hσ
      cases ha : actions[n]? with
      | none =>
        rw [List.take_add_one, ha, Option.toList_none, List.append_nil] at hσ
        exact ih σ hσ
      | some a =>
        rw [answerAll_succ ha] at hσ
        obtain ⟨τ, hτ, hstep⟩ := Option.bind_eq_some_iff.1 hσ
        exact (ih τ hτ).step (System.sound_of_steps (wlp_answer_contract self) hτ).1
          (attributed_answerAll hτ) (System.step_cases hstep) (h n τ a hτ ha)

/-- A deposit of 5 under the key `k`, and after it one of 7 under the same key. -/
def reusedKey : List (Action Delivery) :=
  [.start 0 (.command "u" (depositOf 5 "a")), .exec 0, .exec 0, .exec 0, .exec 0, .exec 0,
   .commit 0, .start 1 (.command "v" (depositOf 7 "b")), .exec 1]

/-- The second deposit is answered with a balance, and 7 has never been credited. -/
theorem reusedKey_not_acknowledged :
    ∃ σ, WalletProcessor.new.answerAll [1] reusedKey = some σ ∧
      answered σ 1 = some (.command "v" (depositOf 7 "b"), [.balanceUpdated
        { requestId := "r", asset := .USDC, total := 5, locked := 0 }]) ∧
      (∀ entry ∈ σ.log, entry.2.any (Write.carriesOut (.command "v" (depositOf 7 "b"))) = false) ∧
      ¬Acknowledges σ := by
  have hfinal : (WalletProcessor.new.answerAll [1] reusedKey).map (fun σ => (answered σ 1,
      σ.log.all fun entry =>
        !entry.2.any (Write.carriesOut (.command "v" (depositOf 7 "b"))))) =
      some (some (.command "v" (depositOf 7 "b"), [.balanceUpdated
        { requestId := "r", asset := .USDC, total := 5, locked := 0 }]), true) := by
    decide
  obtain ⟨σ, hσ, hvalues⟩ := Option.map_eq_some_iff.1 hfinal
  obtain ⟨hanswered, hnone⟩ := Prod.mk.inj hvalues
  have hcarries : ∀ entry ∈ σ.log,
      entry.2.any (Write.carriesOut (.command "v" (depositOf 7 "b"))) = false := by
    simpa using hnone
  refine ⟨σ, hσ, hanswered, hcarries, fun hall => ?_⟩
  obtain ⟨id, entry, -, hentry, hany⟩ := hall 1 _ _ hanswered rfl rfl
  have hmem : entry ∈ σ.log := List.mem_of_mem_filter (hentry ▸ List.mem_singleton.2 rfl)
  rw [hcarries entry hmem] at hany
  cases hany

end Wallet
