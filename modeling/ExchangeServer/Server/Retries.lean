import ExchangeServer.Server.Consistency

/-!
# Retried requests

A user submits a command twice under one idempotency key. The wallet processes
both records and answers each of them with the reply it has stored under the
key, but it sends an input to the engine for the first only. The record of the
second request is complete exactly when the stored reply is final by itself:
when the order was refused for want of funds.

## Main results

- `retry_answered_iff`: when both requests are answered
-/

namespace Server

open Protocol Relational Transactional Wallet

namespace Exchange

variable {self : WalletProcessor} {partitionOf : ℤ → ℕ} {σ σ' : Exchange} {a : ExchangeAction}
  {user : CommandKind × CommandEnvelope}

/-- The user of a request reads a complete record with a final result. -/
def Answered (σ : Exchange) (user : CommandKind × CommandEnvelope) : Prop :=
  ∃ record, σ.server.getForUser user.2.requestId user.2.userId = some record ∧
    record.complete = true ∧ isFinalResult (some (requestKind user.1)) record.result = true

/-- A command that was submitted twice under one key; the wallet has processed
both records. -/
structure Retried (partitionOf : ℤ → ℕ) (σ : Exchange) (kind : CommandKind)
    (first second : CommandEnvelope) : Prop where
  sameUser : second.userId = first.userId
  sameKey : second.idempotencyKey = first.idempotencyKey
  records : ∃ m n, m < n ∧ n < σ.offsets (partitionOf first.userId) ∧
    σ.At (partitionOf first.userId) m (kind, first) ∧ σ.At (partitionOf first.userId) n (kind, second)

/-- The engine input that a message of the outbox carries. -/
def queuedInput (message : NewWalletOutboxMessage) : Option EngineCommand :=
  match message.payload with
  | .engineCommand command => some command
  | .walletEvent _ => none

/-- The engine has answered all inputs, and the server has read all replies. -/
structure Delivered (σ : Exchange) : Prop where
  relayed : ∀ command ∈ σ.wallet.committed.walletOutbox.rows.filterMap queuedInput,
    command ∈ σ.engineInputs
  answered : σ.engineReplies.length = σ.engineInputs.length
  walletReplies : σ.walletRepliesRead = σ.walletReplies.length
  engineReplies : σ.engineRepliesRead = σ.engineReplies.length

/-- The action commits the effect of a command; for an order, its reservation. -/
def commitsEffect (id : CommandId) (σ : Exchange) : ExchangeAction → Bool
  | .commit task => (σ.wallet.sessions task).any fun session =>
      session.label.commandId = some id && hasEffect session.writes
  | _ => false

theorem effects_step {id : CommandId} (hstep : Step self partitionOf σ a σ') :
    effects σ'.wallet.log id = [] ↔ effects σ.wallet.log id = [] ∧ commitsEffect id σ a = false := by
  cases hstep with
  | commit hwallet =>
    cases hwallet with
    | @commit t delivery next ws hs =>
      simp [effects, commitsEffect, hs]
  | consume hcommand hwallet | consumeEvent hwallet | exec hwallet | rollback hwallet
  | stop hwallet | saveOffset hpublished hwallet =>
    rw [(hwallet.committed_eq (by simp)).2]
    simp [commitsEffect]
  | _ => simp [commitsEffect]

/-- The commit log has no effect of a command when no step has committed one. -/
theorem effects_run (id : CommandId) {actions : List ExchangeAction}
    (h : Machine.run (Exchange.step self partitionOf) σ actions = some σ') :
    effects σ'.wallet.log id = [] ↔ effects σ.wallet.log id = [] ∧
      Machine.Along (Exchange.step self partitionOf) (fun τ act => commitsEffect id τ act = false) σ
        actions := by
  induction actions generalizing σ with
  | nil =>
    cases h
    exact ⟨fun hnil => ⟨hnil, Machine.along_nil⟩, And.left⟩
  | cons act actions ih =>
    obtain ⟨τ, hτ, h⟩ := Option.bind_eq_some_iff.1 h
    rw [ih h, effects_step (step_cases hτ), Machine.along_cons, and_assoc]
    simp [hτ]

/-- A record whose results are all the same. -/
theorem answered_iff_of_results {channel : ℕ} {results : List ReplyResult}
    (h : σ.Followed user channel results) {result : ReplyResult} (hmem : result ∈ results)
    (hall : ∀ other ∈ results, other = result) :
    σ.Answered user ↔ isFinalResult (some (requestKind user.1)) result = true := by
  have hlast : results.getLast? = some result := by
    rw [List.getLast?_eq_some_getLast (List.ne_nil_of_mem hmem)]
    exact congrArg some (hall _ (List.getLast_mem _))
  rw [Answered, getForUser_of_tracks h.tracks]
  simp [recordOf, PendingRequest.toRecord, hlast]

/-- The stored reply is final by itself for a refused order only. -/
theorem isFinalResult_stored {kind : CommandKind} (hkind : kind = .placeOrder ∨ kind = .cancelOrder)
    {stored : WalletReply} (hstores : kind.stores stored = true) (requestId : String) :
    isFinalResult (some (requestKind kind)) (.wallet (replyWithRequestId requestId stored)) = true ↔
      kind = .placeOrder ∧ refuses stored = true := by
  rcases hkind with rfl | rfl <;> cases stored <;>
    simp_all [CommandKind.stores, isFinalResult, requestKind, replyWithRequestId, refuses]

/-- A processed record that the engine has not answered has the stored reply
for its result. -/
theorem Consistent.answered_iff (h : Consistent self partitionOf σ) (hdelivered : σ.Delivered)
    {p n : ℕ} (hat : σ.At p n user) (hn : n < σ.offsets p)
    (hnone : ∀ reply ∈ σ.engineReplies, engineReplyRequestId reply ≠ user.2.requestId)
    {stored : WalletReply}
    (hstored : replyOf σ.wallet.committed (.of user.1 user.2) = some stored) :
    σ.Answered user ↔ isFinalResult (some (requestKind user.1))
      (.wallet (replyWithRequestId user.2.requestId stored)) = true := by
  obtain ⟨channel, results, hfollowed⟩ := h.served.followed p n user hat
  refine answered_iff_of_results hfollowed ?_ fun result hresult => ?_
  · obtain ⟨stored', hstored', hmem⟩ := h.stored.answered p n user hn hat
    obtain rfl := Option.some.inj (hstored.symm.trans hstored')
    obtain ⟨k, hk, hreply⟩ := List.mem_iff_getElem.1 hmem
    refine hfollowed.read k _ ?_ ?_ (walletReplyRequestId_replyWithRequestId _ _)
    · rw [hdelivered.walletReplies]
      exact hk
    · rw [List.getElem?_eq_getElem hk, hreply]
  · rcases hfollowed.sources result hresult with ⟨reply, hreply, hid, rfl⟩ | ⟨reply, hreply, hid, -⟩
    · rw [h.walletReply hat hstored hreply hid]
    · exact absurd hid (hnone reply hreply)

/-- After every run, both requests of a retried order or cancellation are
answered exactly when it is an order and no step has reserved funds for it. -/
theorem retry_answered_iff (self : WalletProcessor) (partitionOf : ℤ → ℕ) (users : List ℤ)
    (actions : List ExchangeAction) (σ : Exchange)
    (hrun : run self partitionOf users actions = some σ) (kind : CommandKind)
    (hkind : kind = .placeOrder ∨ kind = .cancelOrder) (first second : CommandEnvelope)
    (hretried : σ.Retried partitionOf kind first second) (hdelivered : σ.Delivered) :
    σ.Answered (kind, first) ∧ σ.Answered (kind, second) ↔
      kind = .placeOrder ∧ Machine.Along (Exchange.step self partitionOf)
        (fun τ act => commitsEffect (.of kind first) τ act = false) (initial users) actions := by
  have h := consistent_of_run hrun
  obtain ⟨m, n, hmn, hn, hfirst, hsecond⟩ := hretried.records
  have hsame : CommandId.of kind second = CommandId.of kind first := by
    rw [CommandId.of, CommandId.of, hretried.sameUser, hretried.sameKey]
  obtain ⟨stored, hstored, -⟩ := h.stored.answered _ m _ (by omega) hfirst
  have hstored' : replyOf σ.wallet.committed (.of kind second) = some stored := by
    rw [hsame]
    exact hstored
  have hstores : kind.stores stored = true := by
    obtain ⟨-, user, -, hid, -, hstores, -⟩ := h.stored.first _ stored hstored
    have huser : user.1 = kind := congrArg CommandId.kind hid
    rwa [huser] at hstores
  -- The engine does not know the second request.
  have hsecond_iff : σ.Answered (kind, second) ↔ kind = .placeOrder ∧ refuses stored = true := by
    rw [h.answered_iff hdelivered hsecond hn (fun reply hreply hid => ?_) hstored']
    · exact isFinalResult_stored hkind hstores _
    · exact (h.engineReply hsecond hreply hid).2 m _ hmn hfirst hsame.symm
  have hrefused : kind = .placeOrder →
      (refuses stored = true ↔ effects σ.wallet.log (.of kind first) = []) := by
    rintro rfl
    have hagrees := h.stored.agrees (.of .placeOrder first) rfl
    rw [Agrees, hstored] at hagrees
    rcases hagrees with ⟨hsucceeds, heffects⟩ | ⟨hrefuses, heffects⟩
    · simp [refuses_of_succeeds hsucceeds, heffects]
    · simp [hrefuses, heffects]
  have halong := effects_run (.of kind first) hrun
  constructor
  · rintro ⟨-, hanswered⟩
    obtain ⟨rfl, hrefuses⟩ := hsecond_iff.1 hanswered
    exact ⟨rfl, (halong.1 ((hrefused rfl).1 hrefuses)).2⟩
  · rintro ⟨rfl, hnever⟩
    have heffects := halong.2 ⟨rfl, hnever⟩
    have hrefuses := (hrefused rfl).2 heffects
    refine ⟨?_, hsecond_iff.2 ⟨rfl, hrefuses⟩⟩
    rw [h.answered_iff hdelivered hfirst (by omega) (fun reply hreply hid => ?_) hstored]
    · exact (isFinalResult_stored hkind hstores _).2 ⟨rfl, hrefuses⟩
    · exact (h.engineReply hfirst hreply hid).1 heffects

def envelopeOf (requestId idempotencyKey : String) : CommandEnvelope where
  requestId := requestId
  userId := 1
  idempotencyKey := idempotencyKey
  replyPartition := 0

/-- An order of user 1 for 60 under the key `k`. -/
def orderOfSixty (requestId : String) (orderId : ℤ) : WalletCommand :=
  .placeOrderIntent
    { envelope := envelopeOf requestId "k", orderId, marketId := 7, marketName := "SOL-PERP",
      side := .LONG, orderType := .LIMIT, quantity := 1, price := 60, marginAsset := .USDC,
      requiredMargin := 60, leverage := 1, reduceOnly := false }

/-- The order is submitted twice, and there are no funds. -/
def refusedOrder : List ExchangeAction :=
  [.submit (orderOfSixty "r1" 1), .submit (orderOfSixty "r2" 2),
   .consume 0 "u", .exec 0, .exec 0, .exec 0, .rollback 0, .rollback 0, .exec 0, .commit 0,
   .publish 0, .saveOffset 0,
   .consume 0 "v", .exec 0, .publish 0, .saveOffset 0, .readWalletReply, .readWalletReply]

theorem retry_answered_iff_refusedOrder :
    let σ := (run .new (fun _ => 0) [1] refusedOrder).get (by decide)
    σ.Answered (.placeOrder, envelopeOf "r1" "k") ∧ σ.Answered (.placeOrder, envelopeOf "r2" "k") :=
  (retry_answered_iff .new (fun _ => 0) [1] refusedOrder _ (Option.some_get _).symm .placeOrder
    (.inl rfl) (envelopeOf "r1" "k") (envelopeOf "r2" "k")
    ⟨rfl, rfl, 0, 1, by decide, by decide, ⟨orderOfSixty "r1" 1, by decide, rfl⟩,
      ⟨orderOfSixty "r2" 2, by decide, rfl⟩⟩
    ⟨by decide, by decide, by decide, by decide⟩).2 ⟨rfl, by decide⟩

/-- The order is submitted twice with enough funds: the wallet reserves them and
the engine accepts the order of the first request. -/
def reservedOrder : List ExchangeAction :=
  [.submit (.deposit
      { envelope := envelopeOf "d" "d", asset := .USDC, amount := 100, referenceId := "f" }),
   .submit (orderOfSixty "r1" 1), .submit (orderOfSixty "r2" 2),
   .consume 0 "u", .exec 0, .exec 0, .exec 0, .exec 0, .exec 0, .commit 0, .publish 0, .saveOffset 0,
   .consume 0 "u", .exec 0, .exec 0, .exec 0, .exec 0, .exec 0, .exec 0, .commit 0, .publish 0,
   .saveOffset 0,
   .consume 0 "v", .exec 0, .publish 0, .saveOffset 0, .relay "engine-input:place-order:1:k",
   .answer (.orderAccepted
      { requestId := "r1", sourceInputId := none, sourceInputOffset := none, orderId := 1,
        reservationId := "res_u" }),
   .readWalletReply, .readWalletReply, .readWalletReply, .readEngineReply]

theorem reservedOrder_not_answered :
    ∃ σ, run .new (fun _ => 0) [1] reservedOrder = some σ ∧
      σ.Retried (fun _ => 0) .placeOrder (envelopeOf "r1" "k") (envelopeOf "r2" "k") ∧ σ.Delivered ∧
      ¬(σ.Answered (.placeOrder, envelopeOf "r1" "k") ∧
        σ.Answered (.placeOrder, envelopeOf "r2" "k")) := by
  refine ⟨(run .new (fun _ => 0) [1] reservedOrder).get (by decide), (Option.some_get _).symm,
    ⟨rfl, rfl, 1, 2, by decide, by decide, ⟨orderOfSixty "r1" 1, by decide, rfl⟩,
      ⟨orderOfSixty "r2" 2, by decide, rfl⟩⟩,
    ⟨by decide, by decide, by decide, by decide⟩, ?_⟩
  rintro ⟨-, record, hrecord, hcomplete, -⟩
  have hread : (((run .new (fun _ => 0) [1] reservedOrder).get (by decide)).server.getForUser
      "r2" 1).map ReplyRecord.complete = some false := by decide
  change ReplyState.getForUser _ "r2" 1 = some record at hrecord
  rw [hrecord, Option.map_some, hcomplete] at hread
  cases hread

end Exchange

end Server
