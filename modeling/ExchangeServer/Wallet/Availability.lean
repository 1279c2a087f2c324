import ExchangeServer.Wallet.Origins
import ExchangeServer.Wallet.StoredText

/-!
# Which commands stop the wallet

The task of a partition of the command topic saves the offset of a record after
its command and ends with an error when the command does; it then meets the same
record again after every restart. In a wallet that deliveries lead to, no
constraint of the database refuses a command of a user except in two cases: a
deposit whose reference was used before under another idempotency key, and a
deposit that takes a balance out of the range of its column. Besides, a command
may carry text that the database does not store: a handler passes on a
reference, a destination and the name of a market as they are.

## Main results

- `consumeCommand_ok_iff`: the commands that do not stop the task
- `depositRef_stops`: a reference that is used twice
-/

namespace Wallet

open Protocol Relational Transactional Program

/-! ## The task of a partition -/

/-- The database and the saved offset of a partition of the command topic. -/
structure CommandPartition where
  database : WalletDb
  nextOffset : ℤ

/-- One record of `run_command_partition`: its offset is saved after its command,
and an error of the command ends the task. -/
def WalletProcessor.consumeCommand (self : WalletProcessor) (takes : Key → Bool) (uuid : String)
    (command : WalletCommand) (partition : CommandPartition) :
    Except WalletRepositoryError Unit × CommandPartition :=
  match (self.processCommand uuid command).runRefusing (unstorable takes) partition.database
      partition.database with
  | (.ok _, database) => (.ok (), { database, nextOffset := partition.nextOffset + 1 })
  | (.error error, database) => (.error error, { partition with database })

/-- The commands that the server's handlers publish for the users there are. -/
inductive Admitted (users : List ℤ) : WalletCommand → Prop
  | deposit {deposit : Deposit} (huser : deposit.envelope.userId ∈ users)
    (hkey : deposit.envelope.idempotencyKey ≠ "")
    (hamount : 1 ≤ deposit.amount ∧ deposit.amount ≤ i64Max) : Admitted users (.deposit deposit)
  | withdraw {withdraw : Withdraw} (huser : withdraw.envelope.userId ∈ users)
    (hkey : withdraw.envelope.idempotencyKey ≠ "")
    (hamount : 1 ≤ withdraw.amount ∧ withdraw.amount ≤ i64Max) : Admitted users (.withdraw withdraw)
  | placeOrder {intent : PlaceOrderIntent} (huser : intent.envelope.userId ∈ users)
    (hkey : intent.envelope.idempotencyKey ≠ "") (hmargin : 0 < intent.requiredMargin) :
    Admitted users (.placeOrderIntent intent)
  | cancelOrder {intent : CancelOrderIntent} (huser : intent.envelope.userId ∈ users)
    (hkey : intent.envelope.idempotencyKey ≠ "") : Admitted users (.cancelOrderIntent intent)

/-- Nothing refuses the command. Its key is storable, and a reply is stored under it or
the command can be stored: a deposit has a new reference and stays in range, the
funds of a withdrawal or an order are missing or the random reservation id of the
order is new, and all texts that are written are storable. -/
def Accepts (self : WalletProcessor) (takes : Key → Bool) (d : WalletDb) (uuid : String) :
    WalletCommand → Prop
  | .deposit deposit =>
    let envelope := deposit.envelope
    StorableText envelope.idempotencyKey ∧ (Replied d "Deposit" envelope ∨
      d.walletLedger.find? (depositLedgerRow deposit).key = none ∧
        d.total envelope.userId deposit.asset + deposit.amount ≤ i64Max ∧
        Fits takes [envelope.requestId, deposit.referenceId, self.walletEventsTopic]
          [.ledger (depositLedgerRow deposit).key,
            .idempotency (envelope.userId, "Deposit", envelope.idempotencyKey),
            .outbox (depositDedupeKey deposit)])
  | .withdraw withdraw =>
    let envelope := withdraw.envelope
    StorableText envelope.idempotencyKey ∧ (Replied d "Withdraw" envelope ∨
      Fits takes [envelope.requestId]
        [.idempotency (envelope.userId, "Withdraw", envelope.idempotencyKey)] ∧
      (d.total envelope.userId withdraw.asset - d.locked envelope.userId withdraw.asset <
          withdraw.amount ∨
        Fits takes [withdraw.destination, self.walletEventsTopic]
          [.ledger (withdrawLedgerRow withdraw).key, .outbox (withdrawDedupeKey withdraw)]))
  | .placeOrderIntent intent =>
    let envelope := intent.envelope
    StorableText envelope.idempotencyKey ∧ (Replied d "PlaceOrderIntent" envelope ∨
      Fits takes [envelope.requestId]
        [.idempotency (envelope.userId, "PlaceOrderIntent", envelope.idempotencyKey)] ∧
      (d.total envelope.userId intent.marginAsset - d.locked envelope.userId intent.marginAsset <
          intent.requiredMargin ∨
        d.walletReservations.find? ("res_" ++ uuid) = none ∧
          Fits takes [uuid, intent.marketName, self.walletEventsTopic, self.engineInputTopic]
            [.reservation ("res_" ++ uuid),
              .reservationIdempotency (envelope.userId, envelope.idempotencyKey),
              .outbox (fundsReservedEventId ("res_" ++ uuid)),
              .outbox (placeOrderDedupeKey envelope)]))
  | .cancelOrderIntent intent =>
    let envelope := intent.envelope
    StorableText envelope.idempotencyKey ∧ (Replied d "CancelOrderIntent" envelope ∨
      Fits takes [envelope.requestId, self.engineInputTopic]
        [.idempotency (envelope.userId, "CancelOrderIntent", envelope.idempotencyKey),
          .outbox (cancelOrderDedupeKey envelope)])
  -- No handler publishes these.
  | .releaseReservation _ | .settleTrade _ => True

/-! ## Statements that are not refused -/

section Statements

variable {d : WalletDb} {ws : List Write}

/-- A balance within its constraints is stored. -/
theorem storeCollateral_of_checks {β : Type} {userId : ℤ} {asset : Asset} {total locked : ℤ}
    (answer : BalanceSnapshot → β) (h : 0 ≤ locked ∧ locked ≤ total ∧ total ≤ i64Max) :
    ∃ row : CollateralRow, storeCollateral userId asset total locked answer =
      .ok (answer row.snapshot, [.setCollateral row]) := by
  refine ⟨⟨userId, asset, total, locked, h⟩, ?_⟩
  unfold storeCollateral CollateralRow.build
  rw [dif_pos h]

theorem exec_creditCollateral {userId : ℤ} {asset : Asset} {amount : ℤ} (hamount : 0 ≤ amount)
    (huser : userId ∈ d.users) (htotal : d.total userId asset + amount ≤ i64Max) :
    ∃ row : CollateralRow, (Stmt.creditCollateral userId asset amount).exec d =
      .ok (row.snapshot, [.setCollateral row]) := by
  rw [WalletDb.total] at htotal
  rw [Stmt.exec]
  unfold execCreditCollateral
  rw [if_neg (by omega)]
  cases hfound : d.userCollaterals.find? (userId, asset) with
  | none =>
    rw [hfound] at htotal
    simp only [Option.map_none, Option.getD_none] at htotal
    dsimp only
    rw [if_pos huser]
    exact storeCollateral_of_checks id ⟨le_rfl, hamount, by omega⟩
  | some old =>
    rw [hfound] at htotal
    simp only [Option.map_some, Option.getD_some] at htotal
    have hchecks := old.checks
    exact storeCollateral_of_checks id ⟨hchecks.1, by omega, htotal⟩

/-- A credit out of the range of the column is refused. -/
theorem exec_creditCollateral_of_lt {userId : ℤ} {asset : Asset} {amount : ℤ} (hamount : 0 ≤ amount)
    (huser : userId ∈ d.users) (htotal : i64Max < d.total userId asset + amount) :
    ∃ e, (Stmt.creditCollateral userId asset amount).exec d = .error e := by
  have hrefused : ∀ {userId total locked : ℤ} {asset : Asset}, i64Max < total →
      ∃ e, storeCollateral userId asset total locked id = .error e := by
    intro userId total locked asset hlt
    unfold storeCollateral CollateralRow.build
    rw [dif_neg fun h => absurd h.2.2 (not_le.2 hlt)]
    exact ⟨_, rfl⟩
  rw [WalletDb.total] at htotal
  rw [Stmt.exec]
  unfold execCreditCollateral
  rw [if_neg (by omega)]
  cases hfound : d.userCollaterals.find? (userId, asset) with
  | none =>
    rw [hfound] at htotal
    simp only [Option.map_none, Option.getD_none, zero_add] at htotal
    dsimp only
    rw [if_pos huser]
    exact hrefused htotal
  | some old =>
    rw [hfound] at htotal
    exact hrefused htotal

/-- A withdrawal and a reservation leave a balance within its constraints, or alone when
too little of it is free. -/
theorem exec_updateCollateral {update : CollateralUpdate} (userId : ℤ) (asset : Asset) {amount : ℤ}
    (hamount : 0 < amount) (hupdate : update = .withdraw ∨ update = .reserve) :
    (d.total userId asset - d.locked userId asset < amount ∧
        (Stmt.updateCollateral update userId asset amount).exec d = .ok (none, [])) ∨
      amount ≤ d.total userId asset - d.locked userId asset ∧ ∃ row : CollateralRow,
        (Stmt.updateCollateral update userId asset amount).exec d =
          .ok (some row.snapshot, [.setCollateral row]) := by
  rw [Stmt.exec, WalletDb.total, WalletDb.locked]
  cases hfound : d.userCollaterals.find? (userId, asset) with
  | none => exact .inl ⟨by simpa using hamount, rfl⟩
  | some old =>
    have hchecks := old.checks
    have hadmits : update.admits amount old = decide (amount ≤ old.total - old.locked) := by
      rcases hupdate with rfl | rfl <;> rfl
    rw [execUpdateCollateral, hadmits]
    simp only [Option.map_some, Option.getD_some]
    by_cases hle : amount ≤ old.total - old.locked
    · right
      rw [if_pos (decide_eq_true hle)]
      refine ⟨hle, ?_⟩
      rcases hupdate with rfl | rfl
      · have hnew : 0 ≤ old.locked ∧ old.locked ≤ old.total - amount ∧
            old.total - amount ≤ i64Max := ⟨hchecks.1, by omega, by omega⟩
        exact storeCollateral_of_checks some hnew
      · have hnew : 0 ≤ old.locked + amount ∧ old.locked + amount ≤ old.total ∧
            old.total ≤ i64Max := ⟨by omega, by omega, hchecks.2.2⟩
        exact storeCollateral_of_checks some hnew
    · left
      rw [if_neg (by simpa using hle)]
      exact ⟨not_le.1 hle, rfl⟩

theorem exec_insertReservation {uuid : String} {intent : PlaceOrderIntent}
    (hmargin : 0 < intent.requiredMargin)
    (hid : d.walletReservations.find? ("res_" ++ uuid) = none)
    (htaken : d.reservationKeyTaken (intent.envelope.userId, intent.envelope.idempotencyKey) = false)
    (huser : intent.envelope.userId ∈ d.users) :
    ∃ row : ReservationRow, (Stmt.insertReservation ("res_" ++ uuid) intent.envelope.userId
      intent.marginAsset intent.requiredMargin intent.envelope.idempotencyKey
      intent.envelope.requestId).exec d = .ok ((), [.insertReservation row]) := by
  rw [Stmt.exec, hid, htaken]
  unfold execInsertReservation
  rw [dif_pos hmargin, if_neg (by simp), if_pos huser]
  exact ⟨_, rfl⟩

theorem exec_insertReservation_of_taken {uuid : String} (intent : PlaceOrderIntent)
    (hid : d.walletReservations.find? ("res_" ++ uuid) ≠ none) :
    ∃ e, (Stmt.insertReservation ("res_" ++ uuid) intent.envelope.userId intent.marginAsset
      intent.requiredMargin intent.envelope.idempotencyKey intent.envelope.requestId).exec d =
        .error e := by
  rw [Stmt.exec, Option.isSome_iff_ne_none.2 hid]
  unfold execInsertReservation
  split
  · exact ⟨_, rfl⟩
  · exact ⟨_, rfl⟩

theorem exec_recordIdempotentReply (row : IdempotencyRow) (huser : row.userId ∈ d.users) :
    ∃ w : Write, (Stmt.recordIdempotentReply row).exec d = .ok ((), [w]) ∧
      w.table = .walletIdempotency := by
  rw [Stmt.exec]
  cases d.walletIdempotency.find? row.key with
  | none => exact ⟨_, if_pos huser, rfl⟩
  | some old => exact ⟨_, rfl, rfl⟩

theorem exec_insertLedger (row : LedgerRow) (huser : row.userId ∈ d.users)
    (hfree : d.walletLedger.find? row.key = none) :
    (Stmt.insertLedger row).exec d = .ok ((), [.insertLedger row]) := by
  rw [Stmt.exec, hfree, if_neg (by simp), if_pos huser]

/-- A message without a partition of its own is queued under a free key. -/
theorem exec_enqueue_free {message : NewWalletOutboxMessage} (hpartition : message.partition = none)
    (hfree : (view ws d).walletOutbox.find? message.dedupeKey = none) :
    (Stmt.enqueueOutboxMessage message).exec (view ws d) = .ok (1, [.insertOutbox message]) := by
  rw [Stmt.exec]
  unfold execEnqueueOutboxMessage
  rw [hfree, hpartition, if_pos (by simp)]

/-- Messages that are queued without a conflict: they have no partition of their own
and free keys, each its own. -/
structure QueuedFreely (d : WalletDb) (ws : List Write) (messages : List NewWalletOutboxMessage) :
    Prop where
  partition : ∀ m ∈ messages, m.partition = none
  free : ∀ m ∈ messages, (view ws d).walletOutbox.find? m.dedupeKey = none
  keys : (messages.map NewWalletOutboxMessage.dedupeKey).Nodup

theorem QueuedFreely.head {message : NewWalletOutboxMessage} {messages : List NewWalletOutboxMessage}
    (h : QueuedFreely d ws (message :: messages)) :
    (Stmt.enqueueOutboxMessage message).exec (view ws d) = .ok (1, [.insertOutbox message]) :=
  exec_enqueue_free (h.partition message List.mem_cons_self) (h.free message List.mem_cons_self)

/-- The keys of the other messages stay free. -/
theorem QueuedFreely.tail {message : NewWalletOutboxMessage} {messages : List NewWalletOutboxMessage}
    (h : QueuedFreely d ws (message :: messages)) :
    QueuedFreely d (ws ++ [.insertOutbox message]) messages := by
  have hkeys := h.keys
  rw [List.map_cons, List.nodup_cons] at hkeys
  refine ⟨fun m hm => h.partition m (List.mem_cons_of_mem _ hm), fun m hm => ?_, hkeys.2⟩
  have hne : m.dedupeKey ≠ message.dedupeKey :=
    fun heq => hkeys.1 (heq ▸ List.mem_map_of_mem hm)
  rw [view_append]
  change ((view ws d).walletOutbox.insert message).find? m.dedupeKey = none
  rw [Table.find?_insert_of_ne hne]
  exact h.free m (List.mem_cons_of_mem _ hm)

/-- Such messages are queued. -/
theorem wlp_enqueue_free {C : Contract WalletDb Write WalletRepositoryError}
    {Q : Except WalletRepositoryError Unit → WalletDb → List Write → Prop}
    {messages : List NewWalletOutboxMessage} (h : QueuedFreely d ws messages)
    (hQ : ∀ out, Q (.ok ()) d (ws ++ out)) : (enqueueOutboxMessagesInTx messages).wlp Eq C d ws Q := by
  induction messages generalizing ws with
  | nil => simpa [enqueueOutboxMessagesInTx] using hQ []
  | cons message messages ih =>
    rw [enqueueOutboxMessagesInTx, wlp_bind]
    refine wlp_perform_of_exec h.head ?_
    simp only [Nat.one_ne_zero, if_false, wlp_bind, wlp_pure, if_true]
    refine ih h.tail fun out => ?_
    rw [List.append_assoc]
    exact hQ _

end Statements

/-! ## Statements that are answered -/

section Answers

variable {takes : Key → Bool} {d : WalletDb} {ws : List Write}

/-- A program that runs alone has a result when its statements are storable and answered. -/
theorem isOk_run_iff {α : Type} {p : Tx α} :
    (∃ a, (p.runRefusing (unstorable takes) d d).1 = .ok a) ↔
      p.Answered (fun _ s => s.Storable takes) d [] Succeeds := by
  have h : (∃ a, (p.runRefusing (unstorable takes) d d).1 = .ok a) ↔
      p.Answered (fun β s => unstorable takes β s = none) d [] Succeeds :=
    @isOk_runRefusing_iff _ _ _ _ _ _ (unstorable takes) p d []
  simp only [unstorable_eq_none] at h
  exact h

/-- Messages that meet no conflict are queued when they are storable. -/
theorem answered_enqueue_free {Q : Except WalletRepositoryError Unit → WalletDb → List Write → Prop}
    {messages : List NewWalletOutboxMessage} (h : QueuedFreely d ws messages)
    (hQ : ∀ out, Q (.ok ()) d (ws ++ out)) :
    (enqueueOutboxMessagesInTx messages).Answered (fun _ s => s.Storable takes) d ws Q ↔
      ∀ m ∈ messages, (Stmt.enqueueOutboxMessage m).Storable takes := by
  induction messages generalizing ws with
  | nil => simpa [enqueueOutboxMessagesInTx] using hQ []
  | cons message messages ih =>
    rw [enqueueOutboxMessagesInTx, answered_bind, answered_perform_of_exec h.head,
      List.forall_mem_cons]
    refine and_congr_right fun _ => ?_
    simp only [Nat.one_ne_zero, if_false, answered_bind, answered_pure, if_true]
    refine ih h.tail fun out => ?_
    rw [List.append_assoc]
    exact hQ _

/-- A command looks for a stored reply first and answers with it. -/
theorem answered_reply_or {envelope : CommandEnvelope} {commandType : String}
    (hcommand : StorableText commandType) {p : Tx WalletProcessResult} :
    (do
      let existing ← getIdempotentReply envelope.userId commandType envelope.idempotencyKey
      match existingReply existing envelope.requestId with
      | some reply => return replyResult reply
      | none => p : Tx WalletProcessResult).Answered (fun _ s => s.Storable takes) d [] Succeeds ↔
    StorableText envelope.idempotencyKey ∧ (Replied d commandType envelope ∨
      p.Answered (fun _ s => s.Storable takes) d [] Succeeds) := by
  rw [answered_bind, getIdempotentReply, answered_perform_of_exec rfl]
  refine and_congr ?_ ?_
  · simp [Stmt.Storable, Fits, Stmt.texts, Stmt.entries, hcommand]
  · rw [Replied]
    cases hfound : d.walletIdempotency.find?
        (envelope.userId, commandType, envelope.idempotencyKey) with
    | none => simp [hfound, existingReply]
    | some row => simp [hfound, existingReply, Succeeds]

/-- A reply and messages under free keys are stored when they are storable. -/
theorem answered_reply_enqueue {α : Type} {row : IdempotencyRow}
    {messages : List NewWalletOutboxMessage} {p : Tx α}
    {Q : Except WalletRepositoryError α → WalletDb → List Write → Prop} (huser : row.userId ∈ d.users)
    (houtbox : ∀ w ∈ ws, w.table ≠ .walletOutbox)
    (hpartition : ∀ m ∈ messages, m.partition = none)
    (hfree : ∀ m ∈ messages, d.walletOutbox.find? m.dedupeKey = none)
    (hkeys : (messages.map NewWalletOutboxMessage.dedupeKey).Nodup)
    (hp : ∀ ws, p.Answered (fun _ s => s.Storable takes) d ws Q) :
    (do
      perform (.recordIdempotentReply row)
      enqueueOutboxMessagesInTx messages
      p : Tx α).Answered (fun _ s => s.Storable takes) d ws Q ↔
    (Stmt.recordIdempotentReply row).Storable takes ∧
      ∀ m ∈ messages, (Stmt.enqueueOutboxMessage m).Storable takes := by
  obtain ⟨w, hexec, htable⟩ := exec_recordIdempotentReply (d := view ws d) row (by rwa [users_view])
  rw [answered_bind, answered_perform_of_exec hexec]
  refine and_congr_right fun _ => ?_
  dsimp only
  rw [answered_bind]
  refine answered_enqueue_free ⟨hpartition, fun m hm => ?_, hkeys⟩ fun out => hp _
  rw [walletOutbox_view _ fun w' hw' => ?_]
  · exact hfree m hm
  · rcases List.mem_append.1 hw' with hw' | hw'
    · exact houtbox w' hw'
    · rw [List.mem_singleton.1 hw', htable]
      decide

/-- A refusal is stored when it is storable. -/
theorem answered_recordReply {envelope : CommandEnvelope} {commandType : String}
    {reply : WalletReply} (huser : envelope.userId ∈ d.users) :
    (WalletProcessor.recordReply envelope commandType reply).Answered
        (fun _ s => s.Storable takes) d [] Succeeds ↔
      (Stmt.recordIdempotentReply (replyRow envelope commandType reply)).Storable takes := by
  obtain ⟨w, hexec, -⟩ := exec_recordIdempotentReply (replyRow envelope commandType reply) huser
  rw [WalletProcessor.recordReply, recordIdempotentReply, answered_bind, answered_bind,
    recordIdempotentReplyInTx]
  refine (answered_perform_of_exec hexec).trans (and_iff_left ?_)
  exact ⟨_, rfl⟩

/-- A refusal for missing funds is stored by a transaction of its own. -/
theorem answered_insufficient {α : Type} {userId : ℤ} {asset : Asset}
    {Q : Except WalletRepositoryError α → WalletDb → List Write → Prop} {C : Prop}
    (hQ : ∀ available, Q (.error (.insufficientFunds available)) d [] ↔ C) :
    (do
      let available ← currentAvailableInTx userId asset
      rollbackTx
      fail (.insufficientFunds available) : Tx α).Answered (fun _ s => s.Storable takes) d [] Q ↔
    C := by
  rw [currentAvailableInTx, answered_bind, answered_bind, answered_perform_of_exec rfl]
  rw [and_iff_right (Stmt.storable_selectCollateral userId asset)]
  have hrest : ∀ available : ℤ, (do
      rollbackTx
      fail (.insufficientFunds available) : Tx α).Answered (fun _ s => s.Storable takes) d [] Q ↔
      C := by
    intro available
    rw [answered_bind, answered_rollbackTx]
    exact answered_fail.trans (hQ available)
  dsimp only
  cases (view [] d).userCollaterals.find? (userId, asset) with
  | none => exact hrest 0
  | some row => exact hrest (row.total - row.locked)

end Answers

/-! ## What is written for a command -/

section Written

variable {takes : Key → Bool} {self : WalletProcessor}

theorem storable_reply {envelope : CommandEnvelope} {commandType : String} {reply : WalletReply}
    {texts : List String} (hcommand : StorableText commandType)
    (hkey : StorableText envelope.idempotencyKey)
    (hreply : replyTexts reply = envelope.requestId :: texts) :
    (Stmt.recordIdempotentReply (replyRow envelope commandType reply)).Storable takes ↔
      Fits takes (envelope.requestId :: texts)
        [.idempotency (envelope.userId, commandType, envelope.idempotencyKey)] := by
  simp [Stmt.Storable, Fits, Stmt.texts, Stmt.entries, replyRow, IdempotencyRow.key, hcommand, hkey,
    hreply]

theorem storable_walletEvent {topic dedupeKey messageKey : String} {event : WalletEvent} :
    (Stmt.enqueueOutboxMessage
        (walletEventOutboxMessage topic dedupeKey messageKey event)).Storable takes ↔
      Fits takes (dedupeKey :: topic :: messageKey :: walletEventTexts event)
        [.outbox dedupeKey] := by
  have htype : StorableText "WalletEvent" := by decide
  simp [Stmt.Storable, Fits, Stmt.texts, Stmt.entries, messageTexts, payloadTexts,
    walletEventOutboxMessage, htype]

theorem storable_engineCommand {topic dedupeKey : String} {command : EngineCommand} :
    (Stmt.enqueueOutboxMessage (engineCommandOutboxMessage topic dedupeKey command)).Storable takes ↔
      Fits takes (dedupeKey :: topic :: engineCommandTexts command) [.outbox dedupeKey] := by
  have htype : StorableText "EngineCommand" := by decide
  simp [Stmt.Storable, Fits, Stmt.texts, Stmt.entries, messageTexts, payloadTexts,
    engineCommandOutboxMessage, engineInputKey, htype]

theorem storableText_head (kind : MessageKind) : StorableText kind.head := by
  cases kind <;> decide

/-- A dedupe key is storable when the idempotency key is. -/
theorem storableText_userKey (kind : MessageKind) {envelope : CommandEnvelope}
    (hkey : StorableText envelope.idempotencyKey) : StorableText (kind.userKey envelope) := by
  have hcolon : StorableText ":" := by decide
  simp [MessageKind.userKey, storableText_head, hcolon, hkey]

theorem storableText_engineInputId {kind : String} (hkind : StorableText kind)
    {envelope : CommandEnvelope} (hkey : StorableText envelope.idempotencyKey) :
    StorableText (engineInputId kind envelope) := by
  have hcolon : StorableText ":" := by decide
  have hhead : StorableText "engine-input:" := by decide
  change StorableText ("engine-input:" ++ kind ++ ":" ++ toString envelope.userId ++ ":" ++
    envelope.idempotencyKey)
  simp [hcolon, hhead, hkind, hkey]

theorem storable_depositMessage {deposit : Deposit} {balance : BalanceUpdated}
    (hkey : StorableText deposit.envelope.idempotencyKey)
    (hrequest : balance.requestId = deposit.envelope.requestId) :
    (Stmt.enqueueOutboxMessage (self.depositMessage deposit balance)).Storable takes ↔
      Fits takes [self.walletEventsTopic, deposit.envelope.requestId, deposit.referenceId]
        [.outbox (depositDedupeKey deposit)] := by
  have hdedupe : StorableText (depositDedupeKey deposit) :=
    storableText_userKey .depositApplied hkey
  rw [WalletProcessor.depositMessage, storable_walletEvent]
  simp [Fits, walletEventTexts, depositAppliedEvent, hdedupe, hrequest]

theorem storable_withdrawMessage {withdraw : Withdraw} {balance : BalanceUpdated}
    (hkey : StorableText withdraw.envelope.idempotencyKey)
    (hrequest : balance.requestId = withdraw.envelope.requestId) :
    (Stmt.enqueueOutboxMessage (self.withdrawMessage withdraw balance)).Storable takes ↔
      Fits takes [self.walletEventsTopic, withdraw.envelope.requestId, withdraw.destination]
        [.outbox (withdrawDedupeKey withdraw)] := by
  have hdedupe : StorableText (withdrawDedupeKey withdraw) :=
    storableText_userKey .withdrawalApplied hkey
  rw [WalletProcessor.withdrawMessage, storable_walletEvent]
  simp [Fits, walletEventTexts, withdrawalAppliedEvent, hdedupe, hrequest]

theorem storable_fundsReservedMessage {uuid : String} {intent : PlaceOrderIntent} :
    (Stmt.enqueueOutboxMessage
        (self.fundsReservedMessage intent (fundsReserved uuid intent))).Storable takes ↔
      Fits takes [self.walletEventsTopic, intent.envelope.requestId, "res_" ++ uuid]
        [.outbox (fundsReservedEventId ("res_" ++ uuid))] := by
  have hevent : StorableText (fundsReservedEventId ("res_" ++ uuid)) ↔
      StorableText ("res_" ++ uuid) := storableText_append.trans (and_iff_right (by decide))
  rw [WalletProcessor.fundsReservedMessage, storable_walletEvent]
  simp only [Fits, fundsReserved, walletEventTexts, fundsReservedEvent, Int.toString_eq_repr,
    Option.toList_some, List.cons_append, List.nil_append, List.mem_cons, List.not_mem_nil, or_false,
    forall_eq_or_imp, forall_eq, hevent, storableText_int_repr, true_and]
  grind

theorem storable_placeOrderMessage {uuid : String} {intent : PlaceOrderIntent}
    (hkey : StorableText intent.envelope.idempotencyKey) :
    (Stmt.enqueueOutboxMessage
        (self.placeOrderMessage intent (fundsReserved uuid intent))).Storable takes ↔
      Fits takes [self.engineInputTopic, intent.envelope.requestId, "res_" ++ uuid,
        intent.marketName] [.outbox (placeOrderDedupeKey intent.envelope)] := by
  have hdedupe : StorableText (placeOrderDedupeKey intent.envelope) :=
    storableText_userKey .placeOrder hkey
  have hinput : StorableText (engineInputId "place-order" intent.envelope) :=
    storableText_engineInputId (by decide) hkey
  rw [WalletProcessor.placeOrderMessage, storable_engineCommand]
  simp [-storableText_append, Fits, engineCommandTexts, PlaceOrderIntent.intoReservedOrder,
    envelopeTexts, fundsReserved, hdedupe, hinput, hkey]

/-- Both messages of a reservation. -/
theorem storable_reserveMessages {uuid : String} {intent : PlaceOrderIntent}
    (hkey : StorableText intent.envelope.idempotencyKey) :
    (∀ m ∈ self.reserveMessages intent (fundsReserved uuid intent),
        (Stmt.enqueueOutboxMessage m).Storable takes) ↔
      Fits takes [self.walletEventsTopic, intent.envelope.requestId, "res_" ++ uuid]
          [.outbox (fundsReservedEventId ("res_" ++ uuid))] ∧
        Fits takes [self.engineInputTopic, intent.envelope.requestId, "res_" ++ uuid,
          intent.marketName] [.outbox (placeOrderDedupeKey intent.envelope)] := by
  rw [WalletProcessor.reserveMessages, List.forall_mem_cons, List.forall_mem_singleton,
    storable_fundsReservedMessage, storable_placeOrderMessage hkey]

theorem storable_cancelMessage {intent : CancelOrderIntent}
    (hkey : StorableText intent.envelope.idempotencyKey) :
    (Stmt.enqueueOutboxMessage (self.cancelMessage intent)).Storable takes ↔
      Fits takes [self.engineInputTopic, intent.envelope.requestId]
        [.outbox (cancelOrderDedupeKey intent.envelope)] := by
  have hdedupe : StorableText (cancelOrderDedupeKey intent.envelope) :=
    storableText_userKey .cancelOrder hkey
  have hinput : StorableText (engineInputId "cancel-order" intent.envelope) :=
    storableText_engineInputId (by decide) hkey
  rw [WalletProcessor.cancelMessage, storable_engineCommand]
  simp [Fits, engineCommandTexts, CancelOrderIntent.intoEngineCancelOrder, envelopeTexts, hdedupe,
    hinput, hkey]

end Written

/-! ## Commands -/

section Commands

variable {self : WalletProcessor} {takes : Key → Bool} {d : WalletDb} {uuid : String}

private theorem answered_deposit (hregistered : Registered self d) {deposit : Deposit}
    (huser : deposit.envelope.userId ∈ d.users) (hamount : 1 ≤ deposit.amount) :
    (self.processDeposit deposit).Answered (fun _ s => s.Storable takes) d [] Succeeds ↔
      Accepts self takes d uuid (.deposit deposit) := by
  refine (answered_reply_or (by decide)).trans
    (and_congr_right fun hkey => or_congr_right' fun hreply => ?_)
  rw [answered_bind, WalletProcessor.applyDeposit, applyDepositWithOutbox, answered_bind]
  by_cases hrange : d.total deposit.envelope.userId deposit.asset + deposit.amount ≤ i64Max
  swap
  · obtain ⟨e, hrefused⟩ := exec_creditCollateral_of_lt (by omega) huser (not_le.1 hrange)
    exact iff_of_false (not_answered_perform hrefused) fun h => hrange h.2.1
  obtain ⟨row, hcredit⟩ := exec_creditCollateral (by omega) huser hrange
  rw [answered_perform_of_exec hcredit, and_iff_right (Stmt.storable_creditCollateral _ _ _)]
  dsimp only
  rw [answered_bind, insertLedgerInTx]
  by_cases hledger : d.walletLedger.find? (depositLedgerRow deposit).key = none
  swap
  · have hrefused : (Stmt.insertLedger (depositLedgerRow deposit)).exec
        (view ([] ++ [.setCollateral row]) d) = .error (.storage .uniqueViolation) := by
      rw [Stmt.exec]
      exact if_pos (Option.isSome_iff_ne_none.2 hledger)
    exact iff_of_false (not_answered_perform hrefused) fun h => hledger h.1
  rw [answered_perform_of_exec (exec_insertLedger (depositLedgerRow deposit) huser hledger),
    and_iff_right hledger, and_iff_right hrange]
  dsimp only
  rw [recordIdempotentReplyInTx, answered_reply_enqueue huser (by simp)
    (by simp [WalletProcessor.depositMessage, walletEventOutboxMessage]) (fun m hm => ?_) (by simp)
    fun ws => ?_]
  · have hkind : StorableText "DEPOSIT" := by decide
    rw [List.forall_mem_singleton, storable_depositMessage hkey rfl]
    refine Iff.trans (and_congr_right fun _ => and_congr_left fun _ =>
      storable_reply (by decide) hkey rfl) ?_
    simp only [Stmt.Storable, Fits, Stmt.texts, Stmt.entries, depositLedgerRow, List.mem_cons,
      List.not_mem_nil, or_false, forall_eq_or_imp, forall_eq, hkind, true_and]
    grind
  · cases List.mem_singleton.1 hm
    exact hregistered.deposit_free hreply
  · rw [answered_bind, answered_commitTx]
    exact ⟨_, rfl⟩

private theorem answered_withdraw (hregistered : Registered self d) {withdraw : Withdraw}
    (huser : withdraw.envelope.userId ∈ d.users) (hamount : 1 ≤ withdraw.amount) :
    (self.processWithdraw withdraw).Answered (fun _ s => s.Storable takes) d [] Succeeds ↔
      Accepts self takes d uuid (.withdraw withdraw) := by
  refine (answered_reply_or (by decide)).trans
    (and_congr_right fun hkey => or_congr_right' fun hreply => ?_)
  rw [answered_bind, answered_attempt, WalletProcessor.applyWithdraw, applyWithdrawWithOutbox,
    answered_bind]
  have hpos : 0 < withdraw.amount := by omega
  have hcommand : StorableText "Withdraw" := by decide
  rcases exec_updateCollateral (d := d) withdraw.envelope.userId withdraw.asset hpos (.inl rfl) with
    ⟨hshort, hmiss⟩ | ⟨hle, row, hhit⟩
  · rw [answered_perform_of_exec hmiss, and_iff_right (Stmt.storable_updateCollateral _ _ _ _),
      and_iff_left (.inl hshort)]
    exact answered_insufficient fun available =>
      (answered_recordReply huser).trans (storable_reply hcommand hkey rfl)
  · rw [answered_perform_of_exec hhit, and_iff_right (Stmt.storable_updateCollateral _ _ _ _),
      or_iff_right (not_lt.2 hle)]
    dsimp only
    rw [answered_bind, insertLedgerInTx]
    have hledger := hregistered.withdrawal_free hreply
    rw [answered_perform_of_exec (exec_insertLedger (withdrawLedgerRow withdraw) huser hledger)]
    dsimp only
    rw [recordIdempotentReplyInTx, answered_reply_enqueue huser (by simp)
      (by simp [WalletProcessor.withdrawMessage, walletEventOutboxMessage]) (fun m hm => ?_)
      (by simp) fun ws => ?_]
    · have hkind : StorableText "WITHDRAW" := by decide
      rw [List.forall_mem_singleton, storable_withdrawMessage hkey rfl]
      refine Iff.trans (and_congr_right fun _ => and_congr_left fun _ =>
        storable_reply hcommand hkey rfl) ?_
      simp only [Stmt.Storable, Fits, Stmt.texts, Stmt.entries, withdrawLedgerRow, List.mem_cons,
        List.not_mem_nil, or_false, forall_eq_or_imp, forall_eq, hkind, hkey, true_and]
      grind
    · cases List.mem_singleton.1 hm
      exact hregistered.withdraw_free hreply
    · rw [answered_bind, answered_commitTx]
      exact ⟨_, rfl⟩

private theorem answered_placeOrder (hregistered : Registered self d) {intent : PlaceOrderIntent}
    (huser : intent.envelope.userId ∈ d.users) (hmargin : 0 < intent.requiredMargin) :
    (self.reserveAndForward uuid intent).Answered (fun _ s => s.Storable takes) d [] Succeeds ↔
      Accepts self takes d uuid (.placeOrderIntent intent) := by
  refine (answered_reply_or (by decide)).trans
    (and_congr_right fun hkey => or_congr_right' fun hreply => ?_)
  rw [answered_bind, answered_attempt, WalletProcessor.reserveFunds, reserveFundsWithOutbox,
    answered_bind]
  have hcommand : StorableText "PlaceOrderIntent" := by decide
  rcases exec_updateCollateral (d := d) intent.envelope.userId intent.marginAsset hmargin
    (.inr rfl) with ⟨hshort, hmiss⟩ | ⟨hle, row, hhit⟩
  · rw [answered_perform_of_exec hmiss, and_iff_right (Stmt.storable_updateCollateral _ _ _ _),
      and_iff_left (.inl hshort)]
    exact answered_insufficient fun available =>
      (answered_recordReply huser).trans (storable_reply hcommand hkey rfl)
  · rw [answered_perform_of_exec hhit, and_iff_right (Stmt.storable_updateCollateral _ _ _ _),
      or_iff_right (not_lt.2 hle)]
    dsimp only
    rw [answered_bind]
    have htaken := hregistered.reservationKey_free hreply
    by_cases hid : d.walletReservations.find? ("res_" ++ uuid) = none
    swap
    · obtain ⟨e, hrefused⟩ := exec_insertReservation_of_taken intent
        (d := view [.setCollateral row] d) hid
      exact iff_of_false (not_answered_perform hrefused) fun h => hid h.2.1
    obtain ⟨reservation, hinsert⟩ := exec_insertReservation
      (d := view [.setCollateral row] d) hmargin hid htaken huser
    rw [answered_perform_of_exec hinsert, and_iff_right hid]
    dsimp only
    have hne := placeOrderDedupeKey_ne intent.envelope ("res_" ++ uuid)
    rw [recordIdempotentReplyInTx, answered_reply_enqueue huser (by simp) (fun m hm => ?_)
      (fun m hm => ?_) ?_ fun ws => ?_]
    · have hid' : StorableText ("res_" ++ uuid) ↔ StorableText uuid :=
        storableText_append.trans (and_iff_right (by decide))
      refine Iff.trans (and_congr_right fun _ => and_congr (storable_reply hcommand hkey rfl)
        (storable_reserveMessages hkey)) ?_
      simp only [Stmt.Storable, Fits, Stmt.texts, Stmt.entries, List.mem_cons, List.not_mem_nil,
        or_false, forall_eq_or_imp, forall_eq, hkey, hid', true_and]
      grind
    · exact List.nodup_cons.2 ⟨fun hmem => hne (List.mem_singleton.1 hmem).symm,
        List.nodup_singleton _⟩
    · rcases List.mem_cons.1 hm with rfl | hm
      · rfl
      · cases List.mem_singleton.1 hm
        rfl
    · rcases List.mem_cons.1 hm with rfl | hm
      · exact hregistered.reserved_free hid
      · cases List.mem_singleton.1 hm
        exact hregistered.placeOrder_free htaken
    · rw [answered_bind, answered_commitTx]
      exact ⟨_, rfl⟩

private theorem answered_cancel (hregistered : Registered self d) {intent : CancelOrderIntent}
    (huser : intent.envelope.userId ∈ d.users) :
    (self.forwardCancel intent).Answered (fun _ s => s.Storable takes) d [] Succeeds ↔
      Accepts self takes d uuid (.cancelOrderIntent intent) := by
  have hcommand : StorableText "CancelOrderIntent" := by decide
  refine (answered_reply_or hcommand).trans
    (and_congr_right fun hkey => or_congr_right' fun hreply => ?_)
  rw [answered_bind, WalletProcessor.recordCancel, recordIdempotentReplyWithOutbox,
    recordIdempotentReplyInTx, answered_reply_enqueue huser (by simp)
    (by simp [WalletProcessor.cancelMessage, engineCommandOutboxMessage]) (fun m hm => ?_) (by simp)
    fun ws => ?_]
  · rw [List.forall_mem_singleton, storable_cancelMessage hkey]
    refine Iff.trans (and_congr_left fun _ => storable_reply hcommand hkey rfl) ?_
    simp only [Fits, List.mem_cons, List.not_mem_nil, or_false, forall_eq_or_imp, forall_eq]
    grind
  · cases List.mem_singleton.1 hm
    exact hregistered.cancel_free hreply
  · rw [answered_commitTx]
    exact ⟨_, rfl⟩

/-- An admitted command of a registered wallet has a result exactly when it is accepted. -/
theorem processCommand_ok_iff (hregistered : Registered self d) {command : WalletCommand}
    (hadmitted : Admitted d.users command) :
    (∃ result, ((self.processCommand uuid command).runRefusing (unstorable takes) d d).1 =
        .ok result) ↔ Accepts self takes d uuid command := by
  rw [isOk_run_iff]
  cases hadmitted with
  | deposit huser _ hamount => exact answered_deposit hregistered huser hamount.1
  | withdraw huser _ hamount => exact answered_withdraw hregistered huser hamount.1
  | placeOrder huser _ hmargin => exact answered_placeOrder hregistered huser hmargin
  | cancelOrder huser _ => exact answered_cancel hregistered huser

end Commands

/-- Whatever has been delivered, an admitted command ends with a result exactly
when nothing refuses it, and only then the offset of its record is saved. -/
theorem consumeCommand_ok_iff (self : WalletProcessor) (takes : Key → Bool) (users : List ℤ)
    (actions : List (Action Delivery)) (σ : DeliverySystem)
    (hreach : self.deliverAllWithin takes users actions = some σ) (uuid : String)
    (command : WalletCommand) (hadmitted : Admitted users command) (nextOffset : ℤ) :
    ((self.consumeCommand takes uuid command ⟨σ.committed, nextOffset⟩).1 = .ok () ∧
        (self.consumeCommand takes uuid command ⟨σ.committed, nextOffset⟩).2.nextOffset =
          nextOffset + 1) ↔
      Accepts self takes σ.committed uuid command := by
  obtain ⟨actions', hreach'⟩ := exists_deliverAll_of_within hreach
  rw [← users_deliverAll hreach'] at hadmitted
  rw [← processCommand_ok_iff (registered_deliverAll hreach') hadmitted]
  unfold WalletProcessor.consumeCommand
  dsimp only
  rcases (self.processCommand uuid command).runRefusing (unstorable takes) σ.committed σ.committed
    with ⟨_ | result, database⟩
  · refine iff_of_false ?_ ?_
    · rintro ⟨⟨⟩, -⟩
    · rintro ⟨result, ⟨⟩⟩
  · exact iff_of_true ⟨rfl, rfl⟩ ⟨result, rfl⟩

/-- A command that does not stop the task leaves the database that it leaves where no text
is refused. -/
theorem consumeCommand_database {self : WalletProcessor} {takes : Key → Bool} {uuid : String}
    {command : WalletCommand} {partition : CommandPartition}
    (h : (self.consumeCommand takes uuid command partition).1 = .ok ()) :
    (self.consumeCommand takes uuid command partition).2.database =
      ((self.processCommand uuid command).run partition.database partition.database).2 := by
  have hrun := @run_of_runRefusing _ _ _ _ _ _ (unstorable takes) partition.database
    partition.database (self.processCommand uuid command)
  unfold WalletProcessor.consumeCommand at h ⊢
  cases hresult : (self.processCommand uuid command).runRefusing (unstorable takes)
      partition.database partition.database with
  | mk result database =>
    rw [hresult] at h hrun
    cases result with
    | error e => cases h
    | ok result => exact (congrArg Prod.snd (hrun rfl)).symm

/-! ## A reference that is used twice -/

/-- The bytes of the texts in an index entry. -/
def Key.textBytes : Key → ℕ
  | .collateral _ => 0
  | .reservation reservationId => reservationId.utf8ByteSize
  | .reservationIdempotency (_, idempotencyKey) => idempotencyKey.utf8ByteSize
  | .ledger (_, _, kind, referenceId) => kind.utf8ByteSize + referenceId.utf8ByteSize
  | .idempotency (_, commandType, idempotencyKey) =>
    commandType.utf8ByteSize + idempotencyKey.utf8ByteSize
  | .outbox dedupeKey => dedupeKey.utf8ByteSize

/-- Indexes that store their entries as they are, in 2704 bytes at most; the other
columns and the headers take less than a hundred of them. -/
def uncompressed (key : Key) : Bool := key.textBytes ≤ 2604

/-- A deposit of 100 by user 1 with reference `ref`. -/
def depositRef (idempotencyKey : String) : WalletCommand :=
  .deposit
    { envelope := { requestId := "r", userId := 1, idempotencyKey, replyPartition := 0 },
      asset := .USDC, amount := 100, referenceId := "ref" }

/-- One such deposit. -/
def depositOnce : List (Action Delivery) :=
  [.start 0 (.command "u" (depositRef "k1")), .exec 0, .exec 0, .exec 0, .exec 0, .exec 0, .commit 0]

theorem admitted_depositRef (idempotencyKey : String) (h : idempotencyKey ≠ "") :
    Admitted [1] (depositRef idempotencyKey) :=
  .deposit (by simp) h (show (1 : ℤ) ≤ 100 ∧ (100 : ℤ) ≤ i64Max by decide)

theorem consumeCommand_ok_iff_depositRef :
    ∃ σ, WalletProcessor.new.deliverAllWithin uncompressed [1] depositOnce = some σ ∧
      (((WalletProcessor.new.consumeCommand uncompressed "v" (depositRef "k2")
            ⟨σ.committed, 1⟩).1 = .ok () ∧
          (WalletProcessor.new.consumeCommand uncompressed "v" (depositRef "k2")
            ⟨σ.committed, 1⟩).2.nextOffset = 1 + 1) ↔
        Accepts .new uncompressed σ.committed "v" (depositRef "k2")) := by
  have hsome : (WalletProcessor.new.deliverAllWithin uncompressed [1] depositOnce).isSome := by
    decide +kernel
  obtain ⟨σ, hσ⟩ := Option.isSome_iff_exists.1 hsome
  exact ⟨σ, hσ, consumeCommand_ok_iff .new uncompressed [1] depositOnce σ hσ "v" (depositRef "k2")
    (admitted_depositRef "k2" (by decide)) 1⟩

/-- The same reference under another idempotency key ends the task, and every
restart meets the record again. -/
theorem depositRef_stops :
    ∃ σ, WalletProcessor.new.deliverAllWithin uncompressed [1] depositOnce = some σ ∧
      Admitted [1] (depositRef "k2") ∧
      (WalletProcessor.new.consumeCommand uncompressed "v" (depositRef "k2") ⟨σ.committed, 1⟩).1 =
        .error (.storage .uniqueViolation) ∧
      (WalletProcessor.new.consumeCommand uncompressed "v" (depositRef "k2")
        ⟨σ.committed, 1⟩).2.nextOffset = 1 := by
  have hfinal : (WalletProcessor.new.deliverAllWithin uncompressed [1] depositOnce).map (fun σ =>
      (decide ((WalletProcessor.new.consumeCommand uncompressed "v" (depositRef "k2")
          ⟨σ.committed, 1⟩).1 = .error (.storage .uniqueViolation)),
        (WalletProcessor.new.consumeCommand uncompressed "v" (depositRef "k2")
          ⟨σ.committed, 1⟩).2.nextOffset)) = some (true, 1) := by decide +kernel
  obtain ⟨σ, hσ, hvalues⟩ := Option.map_eq_some_iff.1 hfinal
  rw [Prod.mk.injEq, decide_eq_true_eq] at hvalues
  exact ⟨σ, hσ, admitted_depositRef "k2" (by decide), hvalues⟩

end Wallet
