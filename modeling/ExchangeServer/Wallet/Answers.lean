import ExchangeServer.Wallet.StoredReplies

/-!
# What a command is answered

The commands of a user are in one partition of the topic and are processed one
at a time, so nobody else stores a reply under the key of a command while it is
processed. The command then answers with the reply that is stored under its
key, for the request at hand, and commits only when none is stored yet.

## Main results

- `wlp_answer`: what a command commits and answers
- `Delivery.Commits.stores`: the reply that a commit stores
- `Delivery.Commits.engineInput`: the engine inputs that a commit queues
-/

namespace Wallet

open Protocol Relational Transactional Program

/-- The kind and the envelope of a command that a user waits for. -/
def userCommand : WalletCommand → Option (CommandKind × CommandEnvelope)
  | .deposit deposit => some (.deposit, deposit.envelope)
  | .withdraw withdraw => some (.withdraw, withdraw.envelope)
  | .placeOrderIntent intent => some (.placeOrder, intent.envelope)
  | .cancelOrderIntent intent => some (.cancelOrder, intent.envelope)
  | .releaseReservation _ | .settleTrade _ => none

/-- The command of a user that is delivered. -/
def Delivery.userCommand : Delivery → Option (CommandKind × CommandEnvelope)
  | .command _ body => Wallet.userCommand body
  | .event _ => none

theorem Delivery.commandId_eq (delivery : Delivery) :
    delivery.commandId = delivery.userCommand.map fun user => .of user.1 user.2 := by
  cases delivery with
  | event event => rfl
  | command uuid command => cases command <;> rfl

/-- What the wallet does with a delivery, and the replies that it publishes. -/
def WalletProcessor.answer (self : WalletProcessor) : Delivery → Tx (List WalletReply)
  | .command uuid command => do
    let result ← self.processCommand uuid command
    return result.walletReplies
  | .event event => do
    processEngineCommands self (engineWalletCommandsFromEngineEvent event)
    return []

/-- The stored reply of its command is touched by a delivery alone. -/
def Delivery.Owns (delivery : Delivery) (key : Key) : Prop :=
  ∃ id, delivery.commandId = some id ∧ key = .idempotency id.replyKey

/-- A delivery commits these writes into `d`, the first of its command that
store a reply. -/
def WalletProcessor.answerContract (self : WalletProcessor) (delivery : Delivery) :
    Contract WalletDb Write WalletRepositoryError where
  commits d ws := delivery.Commits self d ws ∧
    ∀ id, delivery.commandId = some id → replyOf d id = none
  fails _ _ := True

/-- The reply of a command is the stored one, for the request at hand. -/
def AnswersStored (d : WalletDb) (user : CommandKind × CommandEnvelope)
    (replies : List WalletReply) : Prop :=
  ∃ stored, replyOf d (.of user.1 user.2) = some stored ∧
    replies = [replyWithRequestId user.2.requestId stored]

/-- What a delivery ends with. -/
def Delivery.Answered (delivery : Delivery) (result : Except WalletRepositoryError (List WalletReply))
    (d : WalletDb) (_ : List Write) : Prop :=
  ∀ user replies, delivery.userCommand = some user → result = .ok replies →
    AnswersStored d user replies

theorem reads_rely (own : Key → Prop) : Reads (Rely Stmt own) where
  refl := (reliable_rely own).refl
  grows h := h.1

/-- What a delivery owns is what others leave alone. -/
theorem replyOf_of_rely {delivery : Delivery} {d d' : WalletDb} (h : Rely Stmt delivery.Owns d d')
    {id : CommandId} (hid : delivery.commandId = some id) : replyOf d id = replyOf d' id := by
  have hlook : WalletDb.look (.idempotency id.replyKey) d =
      WalletDb.look (.idempotency id.replyKey) d' := h.2 _ ⟨id, hid, rfl⟩
  simp only [WalletDb.look, Entry.idempotency.injEq] at hlook
  rw [replyOf, replyOf, hlook]

/-! ## The reply that a transaction stores -/

section Stores

variable {self : WalletProcessor} {R : WalletDb → WalletDb → Prop} {d : WalletDb} {ws : List Write}

/-- Messages are stored elsewhere than replies. -/
theorem Enqueues.table_ne {outbox : Table NewWalletOutboxMessage.dedupeKey}
    {messages : List NewWalletOutboxMessage} (h : Enqueues outbox messages ws) :
    ∀ w ∈ ws, w.table ≠ .walletIdempotency := by
  intro w hw htable
  cases (h.table w hw).symm.trans htable

/-- A first reply among writes of other tables is found afterwards. -/
theorem StoresReply.replyOf_view {after : List Write} {w : Write} {kind : CommandKind}
    {envelope : CommandEnvelope} {reply : WalletReply}
    (h : StoresReply d.walletIdempotency (replyRow envelope kind.commandType reply) w)
    (before : List Write) (hbefore : ∀ w ∈ before, w.table ≠ .walletIdempotency)
    (hafter : ∀ w ∈ after, w.table ≠ .walletIdempotency)
    (hnone : replyOf d (.of kind envelope) = none) :
    replyOf (view (before ++ w :: after) d) (.of kind envelope) = some reply := by
  have hfree : d.walletIdempotency.find? (replyRow envelope kind.commandType reply).key = none :=
    Option.map_eq_none_iff.1 hnone
  cases h with
  | kept hold => exact absurd (hfree.symm.trans hold) nofun
  | added =>
    have hfind : (view (before ++ .insertIdempotency (replyRow envelope kind.commandType reply) ::
        after) d).walletIdempotency.find? (replyRow envelope kind.commandType reply).key =
          some (replyRow envelope kind.commandType reply) := by
      rw [view_append, view_cons, walletIdempotency_view _ hafter]
      change ((view before d).walletIdempotency.insert _).find? _ = _
      rw [walletIdempotency_view _ hbefore, Table.find?_insert_self hfree]
    exact congrArg (Option.map IdempotencyRow.replyPayload) hfind

theorem Committed.replyOf_deposit {deposit : Deposit} {balance : BalanceUpdated}
    (h : Committed self R d (.deposit deposit)
      [depositAppliedEvent (depositDedupeKey deposit) deposit balance] ws)
    (hnone : replyOf d (.of .deposit deposit.envelope) = none) :
    replyOf (view ws d) (.of .deposit deposit.envelope) = some (.balanceUpdated balance) ∧
      balance.requestId = deposit.envelope.requestId := by
  generalize hevents : [depositAppliedEvent (depositDedupeKey deposit) deposit balance] = events at h
  cases h with
  | @deposit _ row reply out hcredit hledger hreply hout =>
    have hbalance : balance = balanceUpdated deposit.envelope.requestId deposit.asset row := by
      obtain ⟨requestId, asset, total, locked⟩ := balance
      simpa [depositAppliedEvent, balanceUpdated] using hevents
    rw [hbalance]
    refine ⟨?_, rfl⟩
    exact StoresReply.replyOf_view hreply [.setCollateral row, .insertLedger _]
      (by simp) hout.table_ne hnone

theorem Committed.replyOf_withdraw {withdraw : Withdraw} {balance : BalanceUpdated}
    (h : Committed self R d (.withdraw withdraw)
      [withdrawalAppliedEvent (withdrawDedupeKey withdraw) withdraw balance] ws)
    (hnone : replyOf d (.of .withdraw withdraw.envelope) = none) :
    replyOf (view ws d) (.of .withdraw withdraw.envelope) = some (.balanceUpdated balance) ∧
      balance.requestId = withdraw.envelope.requestId := by
  generalize hevents :
    [withdrawalAppliedEvent (withdrawDedupeKey withdraw) withdraw balance] = events at h
  cases h with
  | @withdraw _ old row reply out hhit hledger hreply hout =>
    have hbalance : balance = balanceUpdated withdraw.envelope.requestId withdraw.asset row := by
      obtain ⟨requestId, asset, total, locked⟩ := balance
      simpa [withdrawalAppliedEvent, balanceUpdated] using hevents
    rw [hbalance]
    refine ⟨?_, rfl⟩
    exact StoresReply.replyOf_view hreply [.setCollateral row, .insertLedger _]
      (by simp) hout.table_ne hnone

theorem Committed.replyOf_reserve {uuid : String} {intent : PlaceOrderIntent}
    {events : List WalletEvent} (h : Committed self R d (.reserve uuid intent) events ws)
    (hnone : replyOf d (.of .placeOrder intent.envelope) = none) :
    replyOf (view ws d) (.of .placeOrder intent.envelope) =
      some (.fundsReserved (fundsReserved uuid intent)) := by
  cases h with
  | @reserve _ _ old row reservation reply out hhit hreservation hfree hreply hout =>
    exact StoresReply.replyOf_view hreply [.setCollateral row, .insertReservation reservation]
      (by simp) hout.table_ne hnone

theorem Committed.replyOf_reply (kind : CommandKind) {envelope : CommandEnvelope}
    {reply : WalletReply} {events : List WalletEvent}
    (h : Committed self R d (.reply envelope kind.commandType reply) events ws)
    (hnone : replyOf d (.of kind envelope) = none) :
    replyOf (view ws d) (.of kind envelope) = some reply := by
  cases h with
  | reply hreply => exact StoresReply.replyOf_view hreply [] (by simp) (by simp) hnone

theorem Committed.replyOf_cancel {intent : CancelOrderIntent} {events : List WalletEvent}
    (h : Committed self R d (.cancel intent) events ws)
    (hnone : replyOf d (.of .cancelOrder intent.envelope) = none) :
    replyOf (view ws d) (.of .cancelOrder intent.envelope) =
      some (.commandAccepted { requestId := intent.envelope.requestId }) := by
  cases h with
  | cancel hreply hout =>
    exact StoresReply.replyOf_view hreply [] (by simp) hout.table_ne hnone

end Stores

/-! ## What a command ends with -/

section Answer

variable {self : WalletProcessor} {delivery : Delivery} {user : CommandKind × CommandEnvelope}

theorem Delivery.commandId_of_user (huser : delivery.userCommand = some user) :
    delivery.commandId = some (.of user.1 user.2) := by
  rw [Delivery.commandId_eq, huser]
  rfl

/-- A commit while nothing is stored meets the contract. -/
theorem answerContract_commits (huser : delivery.userCommand = some user) {d : WalletDb}
    (hnone : replyOf d (.of user.1 user.2) = none) {tx : WalletTx} (hissues : delivery.Issues tx)
    {events : List WalletEvent} {ws : List Write}
    (h : Committed self (Rely Stmt delivery.Owns) d tx events ws) :
    (self.answerContract delivery).commits d ws := by
  refine ⟨⟨tx, events, hissues, h.mono fun _ _ hr => hr.1⟩, fun id hid => ?_⟩
  rw [delivery.commandId_of_user huser] at hid
  obtain rfl := Option.some.inj hid
  exact hnone

/-- The stored reply, or the program that has looked for it in vain. -/
theorem wlp_existing_stored (huser : delivery.userCommand = some user)
    {C : Contract WalletDb Write WalletRepositoryError}
    {Q : Except WalletRepositoryError WalletProcessResult → WalletDb → List Write → Prop}
    {p : Tx WalletProcessResult} {d : WalletDb} (hf : ∀ e, C.fails e d)
    (hsome : ∀ reply, replyOf d (.of user.1 user.2) = some reply →
      Q (.ok (replyResult (replyWithRequestId user.2.requestId reply))) d [])
    (hnone : replyOf d (.of user.1 user.2) = none → p.wlp (Rely Stmt delivery.Owns) C d [] Q) :
    (do
      let existing ←
        getIdempotentReply user.2.userId user.1.commandType user.2.idempotencyKey
      match existingReply existing user.2.requestId with
      | some reply => return replyResult reply
      | none => p : Tx WalletProcessResult).wlp (Rely Stmt delivery.Owns) C d [] Q := by
  rw [wlp_bind]
  refine wlp_getIdempotentReply_read hf fun v hv => ?_
  have hread : (v.walletIdempotency.find? (user.2.userId, user.1.commandType,
      user.2.idempotencyKey)).map IdempotencyRow.replyPayload = replyOf d (.of user.1 user.2) :=
    replyOf_of_rely (hv.rel (reads_rely _).refl) (delivery.commandId_of_user huser)
  rw [hread]
  dsimp only
  cases hstored : replyOf d (.of user.1 user.2) with
  | none => exact hnone hstored
  | some reply => exact hsome reply hstored

/-- The answer after a commit that has stored it, or after nothing at all. -/
theorem answersStored_of_rely (huser : delivery.userCommand = some user) {d d' : WalletDb}
    (hd : Rely Stmt delivery.Owns d d') {reply : WalletReply}
    (hreply : replyOf d (.of user.1 user.2) = some reply)
    (hrequest : replyWithRequestId user.2.requestId reply = reply) :
    AnswersStored d' user [reply] := by
  refine ⟨reply, ?_, by rw [hrequest]⟩
  rw [← hreply]
  exact (replyOf_of_rely hd (delivery.commandId_of_user huser)).symm

/-- What a command of a user ends with. -/
theorem wlp_processCommand_user {uuid : String} {command : WalletCommand}
    (huser : userCommand command = some user) (d : WalletDb) :
    (self.processCommand uuid command).wlp (Rely Stmt (Delivery.command uuid command).Owns)
      (self.answerContract (.command uuid command)) d [] fun result d _ =>
        ∀ out, result = .ok out → AnswersStored d user out.walletReplies := by
  have hsome : ∀ {kind : CommandKind} {envelope : CommandEnvelope} {reply : WalletReply},
      replyOf d (.of kind envelope) = some reply → ∀ out : WalletProcessResult,
        (.ok (replyResult (replyWithRequestId envelope.requestId reply)) :
          Except WalletRepositoryError WalletProcessResult) = .ok out →
        AnswersStored d (kind, envelope) out.walletReplies := by
    rintro kind envelope reply hreply out ⟨⟩
    exact ⟨reply, hreply, rfl⟩
  have huser' : (Delivery.command uuid command).userCommand = some user := huser
  -- The stored reply is none until this command stores one.
  have hkept : ∀ {d d' : WalletDb}, Rely Stmt (Delivery.command uuid command).Owns d d' →
      replyOf d (.of user.1 user.2) = none → replyOf d' (.of user.1 user.2) = none := by
    intro d d' hd hnone
    rw [← replyOf_of_rely hd (Delivery.commandId_of_user huser'), hnone]
  cases command with
  | placeOrderIntent intent =>
    cases huser
    refine wlp_existing_stored huser' (fun _ => trivial) (fun _ => hsome) fun hnone => ?_
    rw [wlp_bind, wlp_attempt]
    refine wlp_reserveFunds (reads_rely _) (fun _ => trivial) (fun e d' ws hd d'' hd' => ?_)
      fun ws h => ⟨answerContract_commits huser' hnone .placeOrder h, ?_⟩
    · -- Only a lack of funds is answered; that is a transaction of its own.
      have hnone' := hkept hd' (hkept hd hnone)
      cases e with
      | insufficientFunds available =>
        dsimp only
        rw [WalletProcessor.recordReply, wlp_bind]
        refine wlp_recordIdempotentReply (fun _ => trivial) fun ws h =>
          ⟨answerContract_commits huser' hnone' .placeOrderRefused h, ?_⟩
        rintro d' hd _ ⟨⟩
        exact answersStored_of_rely huser' hd
          (Committed.replyOf_reply .placeOrder h hnone') rfl
      | _ => rintro out ⟨⟩
    · rintro d' hd _ ⟨⟩
      exact answersStored_of_rely huser' hd (h.replyOf_reserve hnone) rfl
  | cancelOrderIntent intent =>
    cases huser
    refine wlp_existing_stored huser' (fun _ => trivial) (fun _ => hsome) fun hnone => ?_
    rw [wlp_bind]
    refine wlp_recordCancel (reads_rely _) (fun _ => trivial) (fun e d' ws hd out h => by cases h)
      fun ws h => ⟨answerContract_commits huser' hnone .cancelOrder h, ?_⟩
    rintro d' hd _ ⟨⟩
    exact answersStored_of_rely huser' hd (h.replyOf_cancel hnone) rfl
  | deposit deposit =>
    cases huser
    refine wlp_existing_stored huser' (fun _ => trivial) (fun _ => hsome) fun hnone => ?_
    rw [wlp_bind]
    refine wlp_applyDeposit (reads_rely _) (fun _ => trivial) (fun e d' ws hd out h => by cases h)
      fun balance ws h => ⟨answerContract_commits huser' hnone .deposit h, ?_⟩
    obtain ⟨hstored, hrequest⟩ := h.replyOf_deposit hnone
    rintro d' hd _ ⟨⟩
    exact answersStored_of_rely huser' hd hstored (by rw [replyWithRequestId, ← hrequest])
  | withdraw withdraw =>
    cases huser
    refine wlp_existing_stored huser' (fun _ => trivial) (fun _ => hsome) fun hnone => ?_
    rw [wlp_bind, wlp_attempt]
    refine wlp_applyWithdraw (reads_rely _) (fun _ => trivial) (fun e d' ws hd d'' hd' => ?_)
      fun balance ws h => ⟨answerContract_commits huser' hnone .withdraw h, ?_⟩
    · have hnone' := hkept hd' (hkept hd hnone)
      cases e with
      | insufficientFunds available =>
        dsimp only
        rw [WalletProcessor.recordReply, wlp_bind]
        refine wlp_recordIdempotentReply (fun _ => trivial) fun ws h =>
          ⟨answerContract_commits huser' hnone' .withdrawRefused h, ?_⟩
        rintro d' hd _ ⟨⟩
        exact answersStored_of_rely huser' hd
          (Committed.replyOf_reply .withdraw h hnone') rfl
      | _ => rintro out ⟨⟩
    · obtain ⟨hstored, hrequest⟩ := h.replyOf_withdraw hnone
      rintro d' hd _ ⟨⟩
      exact answersStored_of_rely huser' hd hstored (by rw [replyWithRequestId, ← hrequest])
  | releaseReservation release => cases huser
  | settleTrade settle => cases huser

/-- What a delivery commits and ends with. -/
theorem wlp_answer (self : WalletProcessor) (delivery : Delivery) (d : WalletDb) :
    (self.answer delivery).wlp (Rely Stmt delivery.Owns) (self.answerContract delivery) d []
      delivery.Answered := by
  have hnone : ∀ (result : Except WalletRepositoryError (List WalletReply)) (d : WalletDb),
      delivery.userCommand = none → delivery.Answered result d [] := by
    intro result d huser user replies huser' _
    rw [huser] at huser'
    cases huser'
  have hcontract : delivery.userCommand = none → ∀ tx d events ws, delivery.Issues tx →
      Committed self (Rely Stmt delivery.Owns) d tx events ws →
      (self.answerContract delivery).commits d ws := by
    intro huser tx d events ws hissues h
    refine ⟨⟨tx, events, hissues, h.mono fun _ _ hr => hr.1⟩, fun id hid => ?_⟩
    rw [Delivery.commandId_eq, huser] at hid
    cases hid
  cases delivery with
  | command uuid command =>
    rw [WalletProcessor.answer, wlp_bind]
    cases huser : userCommand command with
    | none =>
      -- A release or a settlement is answered to nobody.
      refine wlp_processCommand (reads_rely _) (fun _ _ => trivial) (fun _ d ws user replies => nofun)
        (fun result d => hnone _ d huser) (hcontract huser) d
    | some user =>
      refine wlp_mono (wlp_processCommand_user huser d) fun result d ws hresult => ?_
      cases result with
      | error e => exact fun _ _ _ => nofun
      | ok out =>
        rintro user' replies huser' ⟨⟩
        obtain rfl := Option.some.inj (huser.symm.trans huser')
        exact hresult out rfl
  | event event =>
    rw [WalletProcessor.answer, wlp_bind]
    have hprogram := wlp_processEngineCommands (C := self.answerContract (.event event))
      (reads_rely (Delivery.event event).Owns) (fun _ _ => trivial)
      (fun command hmem d events ws h => hcontract rfl _ d events ws (.engineCommand hmem) h) d
    refine wlp_mono hprogram fun result d ws _ => ?_
    cases result with
    | error e => exact fun _ _ _ => nofun
    | ok _ => exact fun user replies huser => nomatch huser

end Answer

/-! ## What a commit stores and queues -/

/-- The request that an engine input of a user names. -/
def engineInputRequestId : EngineCommand → Option String
  | .placeOrder command => some command.envelope.requestId
  | .cancelOrder command => some command.envelope.requestId
  | .liquidatePosition _ | .markPriceUpdated _ | .fundingRateUpdated _
  | .fundingSettlementTick _ => none

/-- The replies that a command of a kind may store. -/
def CommandKind.stores : CommandKind → WalletReply → Bool
  | deposit, .balanceUpdated _ => true
  | withdraw, .balanceUpdated _ | withdraw, .insufficientFunds _ => true
  | placeOrder, .fundsReserved _ | placeOrder, .insufficientFunds _ => true
  | cancelOrder, .commandAccepted _ => true
  | _, _ => false

section Stores

variable {self : WalletProcessor} {delivery : Delivery} {user : CommandKind × CommandEnvelope}
  {d : WalletDb} {ws : List Write}

/-- The commit of a command that has stored nothing yet stores its reply. -/
theorem Delivery.Commits.stores (h : delivery.Commits self d ws)
    (huser : delivery.userCommand = some user) (hnone : replyOf d (.of user.1 user.2) = none) :
    ∃ stored, replyOf (view ws d) (.of user.1 user.2) = some stored ∧
      replyWithRequestId user.2.requestId stored = stored ∧ user.1.stores stored = true := by
  obtain ⟨tx, events, hissues, hcommitted⟩ := h
  cases hissues with
  | deposit =>
    cases huser
    have hcommitted' := hcommitted
    cases hcommitted' with
    | deposit hcredit hledger hreply hout =>
      exact ⟨_, (hcommitted.replyOf_deposit hnone).1, rfl, rfl⟩
  | withdraw =>
    cases huser
    have hcommitted' := hcommitted
    cases hcommitted' with
    | withdraw hhit hledger hreply hout =>
      exact ⟨_, (hcommitted.replyOf_withdraw hnone).1, rfl, rfl⟩
  | placeOrder =>
    cases huser
    exact ⟨_, hcommitted.replyOf_reserve hnone, rfl, rfl⟩
  | cancelOrder =>
    cases huser
    exact ⟨_, hcommitted.replyOf_cancel hnone, rfl, rfl⟩
  | withdrawRefused =>
    cases huser
    exact ⟨_, hcommitted.replyOf_reply .withdraw hnone, rfl, rfl⟩
  | placeOrderRefused =>
    cases huser
    exact ⟨_, hcommitted.replyOf_reply .placeOrder hnone, rfl, rfl⟩
  | release | settle | engineCommand => cases huser

/-- The key of the reply that a write stores is that of the command. -/
theorem Delivery.Commits.replyKey (h : delivery.Commits self d ws) {w : Write} (hw : w ∈ ws)
    {key : ℤ × String × String} (hkey : .idempotency key ∈ w.keys) :
    ∃ id, delivery.commandId = some id ∧ key = id.replyKey := by
  have htable : w.table = .walletIdempotency := by
    cases w <;> first | rfl | simp [Write.keys] at hkey
  have hstores : ∀ {row : IdempotencyRow} {reply : Write},
      StoresReply d.walletIdempotency row reply → w = reply → key = row.key := by
    rintro row reply hreply rfl
    cases hreply <;> exact Key.idempotency.inj (List.mem_singleton.1 hkey)
  have hqueued : ∀ {outbox messages out}, Enqueues outbox messages out → w ∉ out := by
    intro outbox messages out hout hmem
    rw [hout.table w hmem] at htable
    cases htable
  -- An effect writes a balance, a row, the reply and the messages.
  have heffect : ∀ {balance added reply : Write} {row : IdempotencyRow} {outbox messages out},
      balance.table ≠ .walletIdempotency → added.table ≠ .walletIdempotency →
      StoresReply d.walletIdempotency row reply → Enqueues outbox messages out →
      w ∈ balance :: added :: reply :: out → key = row.key := by
    intro balance added reply row outbox messages out hbalance hadded hreply hout hw
    simp only [List.mem_cons] at hw
    rcases hw with rfl | rfl | hw | hw
    · exact absurd htable hbalance
    · exact absurd htable hadded
    · exact hstores hreply hw
    · exact absurd hw (hqueued hout)
  obtain ⟨tx, events, hissues, hcommitted⟩ := h
  cases hissues with
  | deposit =>
    cases hcommitted with
    | deposit hcredit hledger hreply hout =>
      exact ⟨_, rfl, heffect (by simp) (by simp) hreply hout hw⟩
  | withdraw =>
    cases hcommitted with
    | withdraw hhit hledger hreply hout =>
      exact ⟨_, rfl, heffect (by simp) (by simp) hreply hout hw⟩
  | placeOrder =>
    cases hcommitted with
    | reserve hhit hreservation hfree hreply hout =>
      exact ⟨_, rfl, heffect (by simp) (by simp) hreply hout hw⟩
  | withdrawRefused | placeOrderRefused =>
    -- A refusal writes nothing but the reply.
    cases hcommitted with
    | reply hreply => exact ⟨_, rfl, hstores hreply (List.mem_singleton.1 hw)⟩
  | cancelOrder =>
    cases hcommitted with
    | cancel hreply hout =>
      rcases List.mem_cons.1 hw with hw | hw
      · exact ⟨_, rfl, hstores hreply hw⟩
      · exact absurd hw (hqueued hout)
  | @release uuid release =>
    exact absurd htable (hcommitted.not_idempotency (.releaseReservation release) w hw)
  | @settle uuid settle =>
    exact absurd htable (hcommitted.not_idempotency (.settleTrade settle) w hw)
  | @engineCommand event command => exact absurd htable (hcommitted.not_idempotency command w hw)

/-- Only the effect of a command queues an input, and it names the request. -/
theorem Delivery.Commits.engineInput (h : delivery.Commits self d ws)
    {message : NewWalletOutboxMessage} (hmem : .insertOutbox message ∈ ws)
    {command : EngineCommand} (hpayload : message.payload = .engineCommand command) :
    hasEffect ws = true ∧ ∃ user, delivery.userCommand = some user ∧
      engineInputRequestId command = some user.2.requestId := by
  refine ⟨List.any_eq_true.2 ⟨_, hmem, by simp⟩, ?_⟩
  obtain ⟨tx, events, hissues, hcommitted⟩ := h
  rcases hcommitted.engineInput hmem hpayload with ⟨uuid, intent, rfl, rfl⟩ | ⟨intent, rfl, rfl⟩
  · generalize htx : WalletTx.reserve uuid intent = tx at hissues
    cases hissues with
    | placeOrder =>
      cases htx
      exact ⟨_, rfl, rfl⟩
    | @engineCommand event command _ => cases command <;> cases htx
    | _ => cases htx
  · generalize htx : WalletTx.cancel intent = tx at hissues
    cases hissues with
    | cancelOrder =>
      cases htx
      exact ⟨_, rfl, rfl⟩
    | @engineCommand event command _ => cases command <;> cases htx
    | _ => cases htx

end Stores

end Wallet
