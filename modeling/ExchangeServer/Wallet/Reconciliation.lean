import ExchangeServer.Wallet.LockedFunds

/-!
# Wallet and ledger reconcile unless a release repeats

The ledger rebuilds balances from the wallet events queued in the outbox. Every
committed change of a balance queues an event of its own with one exception: a
release whose reservation, reason and amount equal those of an earlier release
meets the message of the earlier one under its dedupe key, takes it for its own
and commits the change without an event. Runs reconcile exactly when that does
not happen; otherwise the ledger shows more locked funds than the wallet.
-/

namespace Wallet

open Protocol Relational Transactional Program

/-- A quantity of the wallet events among the payloads. -/
def ofWalletEvent (f : WalletEvent → ℤ) : OutboxPayload → ℤ
  | .walletEvent event => f event
  | .engineCommand _ => 0

/-- A quantity summed over all wallet events in the outbox. -/
def outboxSum (f : WalletEvent → ℤ) (d : WalletDb) : ℤ :=
  d.walletOutbox.sum fun message => ofWalletEvent f message.payload

/-- The ledger's balances are the wallet's. -/
structure Reconciled (d : WalletDb) : Prop where
  total : ∀ u a, outboxSum (Ledger.totalDelta u a) d = d.total u a
  locked : ∀ u a, outboxSum (Ledger.lockedDelta u a) d = d.locked u a

/-- A step from `d` to `d'` that changes a balance has queued a new wallet event. -/
def RecordsChange (d d' : WalletDb) : Prop :=
  (∃ u a, d'.total u a ≠ d.total u a ∨ d'.locked u a ≠ d.locked u a) →
    ∃ message event, d.walletOutbox.find? message.dedupeKey = none ∧
      d'.walletOutbox.find? message.dedupeKey = some message ∧
        message.payload = .walletEvent event

/-- A release that will be accepted although its message is in the outbox. -/
def Repeats (self : WalletProcessor) (d : WalletDb) (tx : WalletTx) : Prop :=
  ∃ release row, tx = .release release ∧
    d.walletReservations.find? release.reservationId = some row ∧
    releaseRejected (reservationFromRow row) release = false ∧
    d.walletOutbox.find? (releaseDedupeKey release) =
      some (self.releaseMessage release (reservationFromRow row))

namespace WalletProcessor

variable (self : WalletProcessor)

/-- Every step of a run that changes a balance has queued a new wallet event. -/
def RecordsChanges : List WalletTx → WalletDb → Prop
  | [], _ => True
  | tx :: txs, d => RecordsChange d (self.execute tx d).2 ∧ RecordsChanges txs (self.execute tx d).2

/-- No step of a run repeats a release. -/
def RepeatFree : List WalletTx → WalletDb → Prop
  | [], _ => True
  | tx :: txs, d => ¬Repeats self d tx ∧ RepeatFree txs (self.execute tx d).2

end WalletProcessor

/-! ## A repeated release commits -/

section Repeated

variable {d : WalletDb}

theorem remaining_of_accepted {row : ReservationRow} {release : ReleaseReservation}
    (h : releaseRejected (reservationFromRow row) release = false) :
    0 ≤ row.remaining - release.amount ∧ row.remaining - release.amount ≤ row.amount := by
  obtain ⟨-, hpos, hle⟩ := releaseRejected_eq_false.1 h
  have hchecks := row.checks
  simp only [reservationFromRow] at hle
  omega

/-- Queueing a message that is stored already succeeds and writes nothing. -/
theorem wlp_enqueue_stored {C : Contract WalletDb Write WalletRepositoryError} {ws : List Write}
    {message : NewWalletOutboxMessage}
    {Q : Except WalletRepositoryError Unit → WalletDb → List Write → Prop}
    (hpartition : message.partition = none)
    (hstored : (view ws d).walletOutbox.find? message.dedupeKey = some message)
    (h : Q (.ok ()) d ws) : (enqueueOutboxMessagesInTx [message]).wlp Eq C d ws Q := by
  have hinsert : (Stmt.enqueueOutboxMessage message).exec (view ws d) = .ok (0, []) := by
    simp [Stmt.exec, execEnqueueOutboxMessage, hpartition, hstored]
  have hmatches : (Stmt.outboxDuplicateMatches message).exec (view ws d) = .ok (true, []) := by
    simp [Stmt.exec, hstored]
  rw [enqueueOutboxMessagesInTx, wlp_bind]
  refine wlp_perform_of_exec hinsert ?_
  simp only [if_true, List.append_nil, wlp_bind]
  refine wlp_perform_of_exec hmatches ?_
  simpa [enqueueOutboxMessagesInTx] using h

/-- A release succeeds when it is accepted, its balance update matches and its
message is stored already. -/
theorem WalletProcessor.execute_release_ok (self : WalletProcessor) {release : ReleaseReservation}
    {row : ReservationRow} (hrow : d.walletReservations.find? release.reservationId = some row)
    (haccepted : releaseRejected (reservationFromRow row) release = false)
    (hmatch : MatchesOneRow .unlock row.userId row.asset release.amount d)
    (hout : d.walletOutbox.find? (releaseDedupeKey release) =
      some (self.releaseMessage release (reservationFromRow row))) :
    ∃ events, (self.execute (.release release) d).1 = .ok events := by
  obtain ⟨old, new, -, -, hunlock⟩ := hmatch
  have hread : (Stmt.selectReservation release.reservationId).exec (view [] d) =
      .ok (some (reservationFromRow row), []) := by
    simp [Stmt.exec, hrow]
  have hupdate : ∀ status, (Stmt.updateReservation release.reservationId
      (row.remaining - release.amount) status).exec (view [.setCollateral new] d) =
      .ok (reservationFromRow (row.update (row.remaining - release.amount) status),
        [.setReservation release.reservationId (row.remaining - release.amount) status]) := by
    intro status
    have hview : (view [.setCollateral new] d).walletReservations = d.walletReservations :=
      walletReservations_view d (by simp)
    rw [Stmt.exec, hview, hrow, execUpdateReservation, if_pos (remaining_of_accepted haccepted),
      Table.key_of_find? hrow]
  refine run_of_wlp_total (Q := fun r _ => ∃ events, r = .ok events) ?_
  rw [program, releaseReservation, applyRelease, releaseReservationWithOutbox, reservationInTx]
  simp only [wlp_bind]
  refine wlp_perform_of_exec hread ?_
  simp only [wlp_pure, releaseReadReservation, haccepted]
  rw [if_neg Bool.false_ne_true]
  simp only [wlp_bind]
  refine wlp_perform_of_exec hunlock ?_
  refine wlp_perform_of_exec (hupdate _) ?_
  refine wlp_enqueue_stored rfl ?_ ?_
  · rw [walletOutbox_view _ (by simp), self.releaseMessage_congr release (row.sameOrder_update _ _)]
    exact hout
  · exact ⟨trivial, fun d' _ => ⟨_, rfl⟩⟩

end Repeated

/-! ## Messages and what they leave behind -/

/-- A row apart from the outbox by which a queued event can be recognized: the
transaction that has queued it cannot commit again. Releases leave none. -/
def Traced (d : WalletDb) (message : NewWalletOutboxMessage) : Prop :=
  match message.payload with
  | .walletEvent (.depositApplied event) =>
    (d.walletLedger.find? (event.userId, event.asset, "DEPOSIT", event.referenceId)).isSome
  | .walletEvent (.withdrawalApplied event) =>
    ∃ key, message.dedupeKey =
        "wallet-event:withdrawal-applied:" ++ toString event.userId ++ ":" ++ key ∧
      (d.walletLedger.find? (event.userId, event.asset, "WITHDRAW", key)).isSome
  | .walletEvent (.fundsReserved event) =>
    (d.walletReservations.find? event.reservationId).isSome
  | .walletEvent (.tradeSettled event) =>
    (d.walletLedger.find?
      (event.userId, event.debitAsset, "TRADE_DEBIT", toString event.fillId)).isSome
  | .walletEvent (.accountDeltaApplied event) =>
    (d.walletLedger.find? (event.userId, event.asset, event.kind, event.referenceId)).isSome
  | .walletEvent (.fundsReleased _) | .engineCommand _ => True

/-- Every message in the outbox is traced. -/
def Recorded (d : WalletDb) : Prop := ∀ message ∈ d.walletOutbox.rows, Traced d message

theorem Traced.mono {d d' : WalletDb} (hgrows : d.Grows d') {message : NewWalletOutboxMessage}
    (h : Traced d message) : Traced d' message := by
  unfold Traced at *
  split
  all_goals simp only [*] at h
  · exact hgrows.isSome_ledger h
  · obtain ⟨key, hkey, hrow⟩ := h
    exact ⟨key, hkey, hgrows.isSome_ledger hrow⟩
  · obtain ⟨row, hrow⟩ := Option.isSome_iff_exists.1 h
    obtain ⟨row', hrow', -⟩ := hgrows.reservation _ row hrow
    rw [hrow']
    rfl
  · exact hgrows.isSome_ledger h
  · exact hgrows.isSome_ledger h
  · trivial
  · trivial

/-- Queueing inserts the messages whose keys are free. -/
theorem Enqueues.walletOutbox {d : WalletDb} {messages : List NewWalletOutboxMessage}
    {out : List Write} (h : Enqueues d.walletOutbox messages out) :
    (view out d).walletOutbox = messages.foldl Table.insert d.walletOutbox := by
  generalize hd : d.walletOutbox = outbox at h
  induction h generalizing d with
  | nil => exact hd
  | stored hstored _ ih =>
    rw [ih hd, List.foldl_cons, Table.insert_of_find? hstored]
  | @added outbox message messages out hfree _ ih =>
    rw [view_cons, List.foldl_cons]
    exact ih (show (WalletDb.write (.insertOutbox message) d).walletOutbox = _ by rw [← hd]; rfl)

/-- Messages are queued after writes of balances and then of other tables. -/
theorem walletOutbox_view_enqueues {d : WalletDb} (balance rest : List Write) {out : List Write}
    {messages : List NewWalletOutboxMessage} (hbalance : ∀ w ∈ balance, w.table = .userCollaterals)
    (hrest : ∀ w ∈ rest, w.table ≠ .walletOutbox) (h : Enqueues d.walletOutbox messages out) :
    (view (balance ++ (rest ++ out)) d).walletOutbox =
      messages.foldl Table.insert d.walletOutbox := by
  have hview : (view (balance ++ rest) d).walletOutbox = d.walletOutbox := by
    refine walletOutbox_view d fun w hw => ?_
    rcases List.mem_append.1 hw with hw | hw
    · rw [hbalance w hw]
      decide
    · exact hrest w hw
  rw [← List.append_assoc, view_append, ← hview]
  exact Enqueues.walletOutbox (hview.symm ▸ h)

/-! ## What a commit does to the outbox -/

/-- The messages of a commit that are inserted or met in the outbox. -/
inductive Queues (self : WalletProcessor) (d : WalletDb) (tx : WalletTx) (d' : WalletDb) :
    List WalletEvent → Prop
  | silent (inputs : List NewWalletOutboxMessage)
    (hinputs : ∀ message ∈ inputs, ∃ command, message.payload = .engineCommand command)
    (hout : d'.walletOutbox = inputs.foldl Table.insert d.walletOutbox) : Queues self d tx d' []
  | fresh {message event} (inputs : List NewWalletOutboxMessage)
    (hpayload : message.payload = .walletEvent event)
    (hfree : d.walletOutbox.find? message.dedupeKey = none) (htraced : Traced d' message)
    (hinputs : ∀ message ∈ inputs, ∃ command, message.payload = .engineCommand command)
    (hout : d'.walletOutbox = inputs.foldl Table.insert (d.walletOutbox.insert message)) :
    Queues self d tx d' [event]
  | repeated {event} (h : Repeats self d tx) (hout : d'.walletOutbox = d.walletOutbox) :
    Queues self d tx d' [event]

/-- A message that was queued and leaves a trace that is still free is new. -/
theorem Recorded.free {d : WalletDb} (h : Recorded d) {message : NewWalletOutboxMessage}
    {out : List Write} {messages : List NewWalletOutboxMessage}
    (hout : Enqueues d.walletOutbox (message :: messages) out) (htrace : ¬Traced d message) :
    d.walletOutbox.find? message.dedupeKey = none := by
  cases hout with
  | stored hstored _ => exact absurd (h message (Table.mem_of_find? hstored)) htrace
  | added hfree _ => exact hfree

section Step

variable {self : WalletProcessor} {d : WalletDb} {tx : WalletTx} {events : List WalletEvent}
  {ws : List Write}

theorem traced_depositMessage {deposit : Deposit} {row : CollateralRow} :
    Traced d (self.depositMessage deposit
      (balanceUpdated deposit.envelope.requestId deposit.asset row)) ↔
      (d.walletLedger.find? (depositLedgerRow deposit).key).isSome := Iff.rfl

theorem traced_withdrawMessage {withdraw : Withdraw} {row : CollateralRow} :
    Traced d (self.withdrawMessage withdraw
      (balanceUpdated withdraw.envelope.requestId withdraw.asset row)) ↔
      (d.walletLedger.find? (withdrawLedgerRow withdraw).key).isSome := by
  constructor
  · rintro ⟨key, hkey, hrow⟩
    rw [← (String.append_right_inj _).1 hkey] at hrow
    exact hrow
  · exact fun h => ⟨_, rfl, h⟩

theorem traced_settleMessage {settle : SettleTrade} {reservation : ReservationRecord} :
    Traced d (self.settleMessage settle reservation) ↔
      (d.walletLedger.find? (debitLedgerRow reservation.userId settle).key).isSome := Iff.rfl

theorem traced_accountDeltaMessage {delta : ApplyAccountDelta} {balance : BalanceSnapshot} :
    Traced d (self.accountDeltaMessage delta balance) ↔
      (d.walletLedger.find? (deltaLedgerRow delta).key).isSome := Iff.rfl

private theorem not_isSome {α : Type} {o : Option α} (h : o = none) : ¬o.isSome = true := by
  rw [h]
  exact Bool.false_ne_true

theorem engineCommand_payload (topic dedupeKey : String) (command : EngineCommand) :
    ∀ message ∈ [engineCommandOutboxMessage topic dedupeKey command],
      ∃ command, message.payload = .engineCommand command := by
  intro message hmessage
  rw [List.mem_singleton.1 hmessage]
  exact ⟨command, rfl⟩

theorem Committed.queues (hrecorded : Recorded d) (h : Committed self Eq d tx events ws) :
    Queues self d tx (view ws d) events := by
  cases h with
  | @deposit deposit row reply out hcredit hledger hreply hout =>
    refine .fresh [] rfl (hrecorded.free hout (mt traced_depositMessage.1 (not_isSome hledger)))
      (traced_depositMessage.2 (isSome_ledger_of_mem (by simp) d)) (by simp) ?_
    exact walletOutbox_view_enqueues [_] [_, reply] (by simp) (by simp [hreply.table]) hout
  | @withdraw withdraw old row reply out hhit hledger hreply hout =>
    refine .fresh [] rfl (hrecorded.free hout (mt traced_withdrawMessage.1 (not_isSome hledger)))
      (traced_withdrawMessage.2 (isSome_ledger_of_mem (by simp) d)) (by simp) ?_
    exact walletOutbox_view_enqueues [_] [_, reply] (by simp) (by simp [hreply.table]) hout
  | @reserve uuid intent old row reservation reply out hhit hreservation hfree hreply hout =>
    have hview : (view ([.setCollateral row] ++ .insertReservation reservation :: reply :: out)
        d).walletReservations = (d.addReservation reservation).walletReservations :=
      walletReservations_view_single d _ (by simp)
        (by simp +contextual [hreply.table, hout.table])
    have hid := hfree.1
    rw [hreservation.reservationId] at hid
    refine .fresh [_] rfl (hrecorded.free hout (not_isSome hid)) ?_
      (engineCommand_payload self.engineInputTopic (placeOrderDedupeKey intent.envelope)
        (.placeOrder (intent.intoReservedOrder ("res_" ++ uuid)))) ?_
    · change ((view _ d).walletReservations.find? ("res_" ++ uuid)).isSome
      rw [List.singleton_append] at hview
      rw [hview, WalletDb.find?_addReservation, if_pos ⟨hfree, hreservation.reservationId.symm⟩]
      rfl
    · exact walletOutbox_view_enqueues [_] [_, reply] (by simp) (by simp [hreply.table]) hout
  | @release release v read now ws hv hread h =>
    rw [hv] at hread
    obtain ⟨balance, out, hbalance, hout, rfl⟩ := h.writes
    obtain rfl := Option.some.inj (hread.symm.trans h.reduces.found)
    cases hout with
    | stored hstored hrest =>
      refine .repeated ⟨release, read, rfl, hread, h.accepted, hstored⟩ ?_
      exact (walletOutbox_view_enqueues balance [_] hbalance.table (by simp)
        (.stored hstored hrest)).trans (Table.insert_of_find? hstored)
    | added hfree hrest =>
      refine .fresh [] rfl hfree trivial (by simp) ?_
      exact walletOutbox_view_enqueues balance [_] hbalance.table (by simp) (.added hfree hrest)
  | @settle settle v read now ws hv hread h =>
    rw [hv] at hread
    obtain ⟨balance, out, hbalance, hout, rfl⟩ := h.writes
    obtain rfl := Option.some.inj (hread.symm.trans h.reduces.found)
    refine .fresh [] rfl (hrecorded.free hout (mt traced_settleMessage.1 (not_isSome h.debit_free)))
      (traced_settleMessage.2 (isSome_ledger_of_mem ?_ d)) (by simp) ?_
    · simp [reservationFromRow]
    · exact walletOutbox_view_enqueues balance [_, _, _] hbalance.table (by simp) hout
  | @accountDelta delta row out hnonzero hledger hsign hkey htotal hlocked hout =>
    refine .fresh [] rfl (hrecorded.free hout (mt traced_accountDeltaMessage.1 (not_isSome hledger)))
      (traced_accountDeltaMessage.2 (isSome_ledger_of_mem (by simp) d)) (by simp) ?_
    exact walletOutbox_view_enqueues [] [_, _] (by simp) (by simp) hout
  | duplicateDelta => exact .silent [] (by simp) rfl
  | reply hreply =>
    exact .silent [] (by simp) (walletOutbox_view d (by simp [hreply.table]))
  | @cancel intent reply out hreply hout =>
    exact .silent [_] (engineCommand_payload _ _ _)
      (walletOutbox_view_enqueues [] [reply] (by simp) (by simp [hreply.table]) hout)

end Step

/-! ## Sums over the outbox -/

theorem outboxSum_inputs {inputs : List NewWalletOutboxMessage}
    (hinputs : ∀ message ∈ inputs, ∃ command, message.payload = .engineCommand command)
    (f : WalletEvent → ℤ) (outbox : Table NewWalletOutboxMessage.dedupeKey) :
    (inputs.foldl Table.insert outbox).sum (fun message => ofWalletEvent f message.payload) =
      outbox.sum fun message => ofWalletEvent f message.payload := by
  induction inputs generalizing outbox with
  | nil => rfl
  | cons message inputs ih =>
    rw [List.foldl_cons, ih fun m hm => hinputs m (List.mem_cons_of_mem _ hm)]
    cases hfind : outbox.find? message.dedupeKey with
    | none =>
      obtain ⟨command, hcommand⟩ := hinputs message List.mem_cons_self
      rw [Table.sum_insert hfind, hcommand, ofWalletEvent, add_zero]
    | some stored => rw [Table.insert_of_find? hfind]

theorem find?_inputs {inputs : List NewWalletOutboxMessage}
    {outbox : Table NewWalletOutboxMessage.dedupeKey} {key : String}
    {message : NewWalletOutboxMessage} (h : outbox.find? key = some message) :
    (inputs.foldl Table.insert outbox).find? key = some message := by
  induction inputs generalizing outbox with
  | nil => exact h
  | cons input inputs ih => exact ih (Table.find?_insert_of_find? h)

theorem mem_inputs {inputs : List NewWalletOutboxMessage}
    {outbox : Table NewWalletOutboxMessage.dedupeKey} {message : NewWalletOutboxMessage}
    (h : message ∈ (inputs.foldl Table.insert outbox).rows) :
    message ∈ outbox.rows ∨ message ∈ inputs := by
  induction inputs generalizing outbox with
  | nil => exact .inl h
  | cons input inputs ih =>
    rcases ih h with h | h
    · rcases Table.mem_insert_cases h with h | rfl
      · exact .inl h
      · exact .inr List.mem_cons_self
    · exact .inr (List.mem_cons_of_mem _ h)

section Queues

variable {self : WalletProcessor} {d d' : WalletDb} {tx : WalletTx} {events : List WalletEvent}

theorem Queues.outboxSum (h : Queues self d tx d' events) (hnew : ¬Repeats self d tx)
    (f : WalletEvent → ℤ) : outboxSum f d' = outboxSum f d + (events.map f).sum := by
  cases h with
  | silent inputs hinputs hout =>
    rw [Wallet.outboxSum, hout, outboxSum_inputs hinputs]
    simp [Wallet.outboxSum]
  | fresh inputs hpayload hfree _ hinputs hout =>
    rw [Wallet.outboxSum, hout, outboxSum_inputs hinputs, Table.sum_insert hfree, hpayload]
    simp [Wallet.outboxSum, ofWalletEvent]
  | repeated h _ => exact absurd h hnew

/-- Without a repeated release the outbox of a step that reports an event has a
new one. -/
theorem Queues.exists_new (h : Queues self d tx d' events) (hnew : ¬Repeats self d tx)
    (hevents : events ≠ []) :
    ∃ message event, d.walletOutbox.find? message.dedupeKey = none ∧
      d'.walletOutbox.find? message.dedupeKey = some message ∧
        message.payload = .walletEvent event := by
  cases h with
  | silent => exact absurd rfl hevents
  | @fresh message event inputs hpayload hfree _ _ hout =>
    refine ⟨message, event, hfree, ?_, hpayload⟩
    rw [hout]
    exact find?_inputs (Table.find?_insert_self hfree)
  | repeated h _ => exact absurd h hnew

theorem Queues.recorded (h : Queues self d tx d' events) (hgrows : d.Grows d')
    (hrecorded : Recorded d) : Recorded d' := by
  have traced_input : ∀ {message : NewWalletOutboxMessage},
      (∃ command, message.payload = .engineCommand command) → Traced d' message := by
    rintro message ⟨command, hcommand⟩
    rw [Traced, hcommand]
    trivial
  intro message hmessage
  cases h with
  | silent inputs hinputs hout =>
    rw [hout] at hmessage
    rcases mem_inputs hmessage with h | h
    · exact (hrecorded message h).mono hgrows
    · exact traced_input (hinputs message h)
  | fresh inputs hpayload hfree htraced hinputs hout =>
    rw [hout] at hmessage
    rcases mem_inputs hmessage with h | h
    · rcases (Table.mem_insert hfree).1 h with h | rfl
      · exact (hrecorded message h).mono hgrows
      · exact htraced
    · exact traced_input (hinputs message h)
  | repeated _ hout =>
    rw [hout] at hmessage
    exact (hrecorded message hmessage).mono hgrows

end Queues

/-! ## One transaction -/

section Execute

variable {self : WalletProcessor} {d : WalletDb} {deltas : ℤ → Asset → ℤ}

/-- A transaction that does not repeat a release moves the ledger's balances
with the wallet's. -/
structure Follows (d d' : WalletDb) : Prop where
  total : ∀ u a, outboxSum (Ledger.totalDelta u a) d' - d'.total u a =
    outboxSum (Ledger.totalDelta u a) d - d.total u a
  locked : ∀ u a, outboxSum (Ledger.lockedDelta u a) d' - d'.locked u a =
    outboxSum (Ledger.lockedDelta u a) d - d.locked u a
  records : RecordsChange d d'

theorem Follows.refl (d : WalletDb) : Follows d d where
  total _ _ := rfl
  locked _ _ := rfl
  records := fun ⟨_, _, h⟩ => by simp at h

theorem follows_execute (hbacked : Backed d deltas) (hrecorded : Recorded d) {tx : WalletTx}
    (hnew : ¬Repeats self d tx) : Follows d (self.execute tx d).2 := by
  rcases self.execute_cases tx d with ⟨e, he⟩ | ⟨he, -⟩ | ⟨events, ws, hc, he⟩
  · rw [he]
    exact .refl d
  · rw [he]
    exact .refl d
  · have hqueues := hc.queues hrecorded
    have hmoves := hc.moves hbacked.covered
    rw [he]
    refine ⟨fun u a => ?_, fun u a => ?_, fun ⟨u, a, hchange⟩ => ?_⟩
    · rw [hqueues.outboxSum hnew, (hmoves u a).1, eventTotal]
      ring
    · rw [hqueues.outboxSum hnew, (hmoves u a).2, eventLocked]
      ring
    · refine hqueues.exists_new hnew fun hnil => ?_
      subst hnil
      rw [(hmoves u a).1, (hmoves u a).2] at hchange
      simp [eventTotal, eventLocked] at hchange

/-- A repeated release commits, unlocks its amount and leaves the outbox as it was. -/
theorem execute_repeated (hbacked : Backed d deltas) {tx : WalletTx} (h : Repeats self d tx) :
    ∃ u a amount, 0 < amount ∧ (self.execute tx d).2.walletOutbox = d.walletOutbox ∧
      Moves d (self.execute tx d).2 (fun _ _ => 0) (amountAt u a (-amount)) := by
  obtain ⟨release, row, rfl, hrow, haccepted, hout⟩ := h
  obtain ⟨hactive, hpos, hle⟩ := releaseRejected_eq_false.1 haccepted
  have hmatch := hbacked.matchesOneRow hrow hactive hpos hle (.inl rfl)
  obtain ⟨events, hok⟩ := self.execute_release_ok hrow haccepted hmatch hout
  refine ⟨row.userId, row.asset, release.amount, hpos, ?_⟩
  rcases self.execute_cases (.release release) d with ⟨e, he⟩ | ⟨-, _, ⟨⟩, -⟩ | ⟨events, ws, hc, he⟩
  · rw [he] at hok
    cases hok
  · have hmoves := hc.moves hbacked.covered
    rw [he]
    cases hc with
    | release hv hread hreleases =>
      obtain ⟨balance, out, hbalance, hqueued, rfl⟩ := hreleases.writes
      obtain rfl := Option.some.inj (hrow.symm.trans hreleases.reduces.found)
      refine ⟨?_, fun u a => ?_⟩
      · exact (walletOutbox_view_enqueues balance [_] hbalance.table (by simp) hqueued).trans
          (Table.insert_of_find? hout)
      · simpa [eventTotal, eventLocked, delta_fundsReleased, reservationFromRow] using hmoves u a

/-- What the ledger shows as locked beyond what is locked. -/
def excess (d : WalletDb) (u : ℤ) (a : Asset) : ℤ :=
  outboxSum (Ledger.lockedDelta u a) d - d.locked u a

theorem excess_execute_repeated (hbacked : Backed d deltas) {tx : WalletTx}
    (h : Repeats self d tx) :
    (∀ u a, excess d u a ≤ excess (self.execute tx d).2 u a) ∧
      ∃ u a, excess d u a < excess (self.execute tx d).2 u a := by
  obtain ⟨u, a, amount, hpos, hout, hmoves⟩ := execute_repeated hbacked h
  have hsum : ∀ f, outboxSum f (self.execute tx d).2 = outboxSum f d := fun f => by
    rw [outboxSum, hout, outboxSum]
  refine ⟨fun u' a' => ?_, u, a, ?_⟩
  · have hmoved := (hmoves u' a').2
    unfold amountAt at hmoved
    rw [excess, excess, hsum]
    split at hmoved <;> omega
  · have hmoved := (hmoves u a).2
    rw [amountAt, if_pos ⟨rfl, rfl⟩] at hmoved
    rw [excess, excess, hsum]
    omega

theorem recorded_execute (self : WalletProcessor) (hrecorded : Recorded d) (tx : WalletTx) :
    Recorded (self.execute tx d).2 := by
  rcases self.execute_cases tx d with ⟨e, he⟩ | ⟨he, -⟩ | ⟨events, ws, hc, he⟩
  · rwa [he]
  · rwa [he]
  · rw [he]
    exact (hc.queues hrecorded).recorded (grows_view d ws) hrecorded

theorem backed_execute (self : WalletProcessor) (hbacked : Backed d deltas) (tx : WalletTx) :
    ∃ deltas, Backed (self.execute tx d).2 deltas :=
  ⟨_, backed_runAll self [tx] hbacked⟩

end Execute

/-! ## Runs -/

section Runs

variable {self : WalletProcessor} {d : WalletDb} {deltas : ℤ → Asset → ℤ}

theorem excess_mono (hbacked : Backed d deltas) (hrecorded : Recorded d) (txs : List WalletTx)
    (u : ℤ) (a : Asset) : excess d u a ≤ excess (self.runAll txs d) u a := by
  induction txs generalizing d deltas with
  | nil => exact le_rfl
  | cons tx txs ih =>
    obtain ⟨deltas', hbacked'⟩ := backed_execute self hbacked tx
    refine le_trans ?_ (ih hbacked' (recorded_execute self hrecorded tx))
    by_cases h : Repeats self d tx
    · exact (excess_execute_repeated hbacked h).1 u a
    · exact ((follows_execute hbacked hrecorded h).locked u a).ge

theorem excess_lt_of_not_repeatFree (hbacked : Backed d deltas) (hrecorded : Recorded d)
    {txs : List WalletTx} (h : ¬self.RepeatFree txs d) :
    ∃ u a, excess d u a < excess (self.runAll txs d) u a := by
  induction txs generalizing d deltas with
  | nil => exact absurd trivial h
  | cons tx txs ih =>
    obtain ⟨deltas', hbacked'⟩ := backed_execute self hbacked tx
    have hrecorded' := recorded_execute self hrecorded tx
    by_cases hrepeats : Repeats self d tx
    · obtain ⟨u, a, hlt⟩ := (excess_execute_repeated hbacked hrepeats).2
      exact ⟨u, a, hlt.trans_le (excess_mono hbacked' hrecorded' txs u a)⟩
    · obtain ⟨u, a, hlt⟩ := ih hbacked' hrecorded' fun hrest => h ⟨hrepeats, hrest⟩
      refine ⟨u, a, lt_of_eq_of_lt ?_ hlt⟩
      exact ((follows_execute hbacked hrecorded hrepeats).locked u a).symm

/-- Along a run without repeated releases the ledger follows the wallet. -/
theorem follows_runAll (hbacked : Backed d deltas) (hrecorded : Recorded d) {txs : List WalletTx}
    (h : self.RepeatFree txs d) :
    (∀ u a, outboxSum (Ledger.totalDelta u a) (self.runAll txs d) - (self.runAll txs d).total u a =
      outboxSum (Ledger.totalDelta u a) d - d.total u a) ∧
    (∀ u a, excess (self.runAll txs d) u a = excess d u a) ∧ self.RecordsChanges txs d := by
  induction txs generalizing d deltas with
  | nil => exact ⟨fun _ _ => rfl, fun _ _ => rfl, trivial⟩
  | cons tx txs ih =>
    obtain ⟨deltas', hbacked'⟩ := backed_execute self hbacked tx
    have hstep := follows_execute hbacked hrecorded h.1
    obtain ⟨htotal, hlocked, hrecords⟩ := ih hbacked' (recorded_execute self hrecorded tx) h.2
    refine ⟨fun u a => ?_, fun u a => ?_, hstep.records, hrecords⟩
    · exact (htotal u a).trans (hstep.total u a)
    · exact (hlocked u a).trans (hstep.locked u a)

end Runs

theorem wallet_and_ledger_reconcile_iff (self : WalletProcessor) (users : List ℤ)
    (txs : List WalletTx) :
    (Reconciled (self.runAll txs (.empty users)) ∧ self.RecordsChanges txs (.empty users)) ↔
      self.RepeatFree txs (.empty users) := by
  have hbacked := backed_empty users
  have hrecorded : Recorded (.empty users) := fun _ h => nomatch h
  constructor
  · rintro ⟨hreconciled, -⟩
    by_contra hrepeats
    obtain ⟨u, a, hlt⟩ := excess_lt_of_not_repeatFree hbacked hrecorded hrepeats
    have hfinal : excess (self.runAll txs (.empty users)) u a = 0 := by
      rw [excess, hreconciled.locked u a, sub_self]
    exact absurd hlt (by rw [hfinal]; exact lt_irrefl 0)
  · intro h
    obtain ⟨htotal, hlocked, hrecords⟩ := follows_runAll hbacked hrecorded h
    exact ⟨⟨fun u a => sub_eq_zero.1 (htotal u a), fun u a => sub_eq_zero.1 (hlocked u a)⟩, hrecords⟩

/-- Two partial releases of one reservation for the same reason and amount. -/
def repeatedRelease : List WalletTx :=
  let release : ReleaseReservation :=
    { reservationId := "res_u1", amount := 10, reason := "reservation_released:PARTIAL_FILL" }
  depositAndReserve ++ [.release release, .release release]

theorem repeatedRelease_not_reconciled :
    ¬Reconciled (WalletProcessor.new.runAll repeatedRelease (.empty [1])) := fun h =>
  absurd (h.locked 1 .USDC) (by decide)

end Wallet
