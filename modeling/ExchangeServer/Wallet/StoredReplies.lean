import ExchangeServer.Wallet.AtMostOnce

/-!
# Stored replies and effects

A withdrawal and an order store their success in the transaction of the effect,
but a refusal for want of funds in a later transaction of its own, and whichever
reply is stored first stays. The stored replies tell the truth as long as no
effect commits while a refusal of the same command is stored; the first commit
of that kind leaves a refusal next to an effect.
-/

namespace Wallet

open Protocol Relational Transactional Program

/-- Replies that report an effect. -/
def succeeds : WalletReply → Bool
  | .balanceUpdated _ | .fundsReserved _ => true
  | .insufficientFunds _ | .commandAccepted _ | .commandRejected _ => false

/-- Replies that report missing funds. -/
def refuses : WalletReply → Bool
  | .insufficientFunds _ => true
  | .balanceUpdated _ | .fundsReserved _ | .commandAccepted _ | .commandRejected _ => false

theorem refuses_of_succeeds {reply : WalletReply} (h : succeeds reply = true) :
    refuses reply = false := by
  cases reply <;> first | rfl | cases h

/-- The column `command_type`. -/
def CommandKind.commandType : CommandKind → String
  | deposit => "Deposit"
  | withdraw => "Withdraw"
  | placeOrder => "PlaceOrderIntent"
  | cancelOrder => "CancelOrderIntent"

theorem CommandKind.commandType_injective {a b : CommandKind} (h : a.commandType = b.commandType) :
    a = b := by
  cases a <;> cases b <;> first | rfl | exact absurd h (by decide)

/-- The commands that are refused for want of funds. -/
def CommandKind.spends : CommandKind → Bool
  | withdraw | placeOrder => true
  | deposit | cancelOrder => false

/-- The key of the stored reply of a command. -/
def CommandId.replyKey (id : CommandId) : ℤ × String × String :=
  (id.userId, id.kind.commandType, id.idempotencyKey)

theorem CommandId.replyKey_injective {id id' : CommandId} (h : id.replyKey = id'.replyKey) :
    id = id' := by
  obtain ⟨userId, kind, key⟩ := id
  obtain ⟨userId', kind', key'⟩ := id'
  simp only [replyKey, Prod.mk.injEq] at h
  obtain ⟨rfl, hkind, rfl⟩ := h
  rw [CommandKind.commandType_injective hkind]

/-- The stored reply of a command. -/
def replyOf (d : WalletDb) (id : CommandId) : Option WalletReply :=
  (d.walletIdempotency.find? id.replyKey).map IdempotencyRow.replyPayload

/-- Every stored reply of a withdrawal or an order is a success exactly when its
effect has been committed, and a refusal only when it has not. -/
def Truthful (σ : DeliverySystem) : Prop :=
  ∀ id reply, id.kind.spends = true → replyOf σ.committed id = some reply →
    (succeeds reply = true ↔ effects σ.log id ≠ []) ∧ (refuses reply = true → effects σ.log id = [])

/-- The action commits an effect of a command whose stored reply refuses it. -/
def overrules (σ : DeliverySystem) : Action Delivery → Bool
  | .commit t =>
    match σ.sessions t with
    | some session =>
      hasEffect session.writes && (session.label.commandId.any fun id =>
        id.kind.spends && (replyOf σ.committed id).any refuses)
    | none => false
  | .start .. | .exec _ | .rollback _ | .close _ => false

section

variable {self : WalletProcessor} {d : WalletDb} {delivery : Delivery} {ws : List Write}
  {id : CommandId}

theorem replyOf_mono {d' : WalletDb} (hgrows : d.Grows d') {reply : WalletReply}
    (h : replyOf d id = some reply) : replyOf d' id = some reply := by
  obtain ⟨row, hrow, rfl⟩ := Option.map_eq_some_iff.1 h
  obtain ⟨row', hrow', hsame⟩ := hgrows.idempotency _ row hrow
  rw [replyOf, hrow', Option.map_some, hsame]

theorem StoresReply.inserted {stored : Table IdempotencyRow.key} {row row' : IdempotencyRow}
    {w : Write} (h : StoresReply stored row w) (hw : .insertIdempotency row' = w) : row' = row := by
  cases h with
  | added => exact Write.insertIdempotency.inj hw
  | kept => cases hw

/-- Engine events store no replies. -/
theorem Committed.not_idempotency {R : WalletDb → WalletDb → Prop} (command : EngineWalletCommand)
    {events : List WalletEvent} (h : Committed self R d command.tx events ws) :
    ∀ w ∈ ws, w.table ≠ .walletIdempotency := by
  intro w hw htable
  have hqueued : ∀ {outbox messages out}, Enqueues outbox messages out → w ∉ out := by
    intro outbox messages out hout hmem
    rw [hout.table w hmem] at htable
    cases htable
  cases command with
  | releaseReservation release =>
    cases h with
    | release hv hread h =>
      obtain ⟨balance, out, hbalance, hout, rfl⟩ := h.writes
      simp only [List.mem_append, List.mem_cons] at hw
      rcases hw with hw | rfl | hw
      · rw [hbalance.table w hw] at htable
        cases htable
      · cases htable
      · exact hqueued hout hw
  | settleTrade settle =>
    cases h with
    | settle hv hread h =>
      obtain ⟨balance, out, hbalance, hout, rfl⟩ := h.writes
      simp only [List.mem_append, List.mem_cons] at hw
      rcases hw with hw | rfl | rfl | rfl | hw
      · rw [hbalance.table w hw] at htable
        cases htable
      · cases htable
      · cases htable
      · cases htable
      · exact hqueued hout hw
  | applyAccountDelta delta =>
    cases h with
    | accountDelta hnonzero hledger hsign hkey htotal hlocked hout =>
      simp only [List.mem_cons] at hw
      rcases hw with rfl | rfl | hw
      · cases htable
      · cases htable
      · exact hqueued hout hw
    | duplicateDelta => cases hw

/-- The reply a command stores: its success together with its effect, or a refusal alone. -/
theorem Delivery.Commits.reply (h : delivery.Commits self d ws) {row : IdempotencyRow}
    (hmem : .insertIdempotency row ∈ ws) : ∃ id, delivery.commandId = some id ∧
      row.key = id.replyKey ∧ (id.kind.spends = true →
        hasEffect ws = true ∧ succeeds row.replyPayload = true ∨
          hasEffect ws = false ∧ refuses row.replyPayload = true) := by
  have hqueued : ∀ {outbox messages out}, Enqueues outbox messages out →
      .insertIdempotency row ∉ out := fun hout hmem => absurd (hout.table _ hmem) (by simp [Write.table])
  have hengine : ∀ command {events}, Committed self WalletDb.Grows d (EngineWalletCommand.tx command)
      events ws → False := fun command _ hc => hc.not_idempotency command _ hmem rfl
  obtain ⟨tx, events, hissues, hcommitted⟩ := h
  cases hissues with
  | deposit =>
    cases hcommitted with
    | deposit hcredit hledger hreply hout =>
      simp only [List.mem_cons, reduceCtorEq, false_or] at hmem
      rcases hmem with hmem | hmem
      · obtain rfl := hreply.inserted hmem
        exact ⟨_, rfl, rfl, fun h => by cases h⟩
      · exact absurd hmem (hqueued hout)
  | withdraw =>
    cases hcommitted with
    | withdraw hhit hledger hreply hout =>
      simp only [List.mem_cons, reduceCtorEq, false_or] at hmem
      rcases hmem with hmem | hmem
      · obtain rfl := hreply.inserted hmem
        exact ⟨_, rfl, rfl, fun _ => .inl ⟨rfl, rfl⟩⟩
      · exact absurd hmem (hqueued hout)
  | placeOrder =>
    cases hcommitted with
    | reserve hhit hreservation hfree hreply hout =>
      simp only [List.mem_cons, reduceCtorEq, false_or] at hmem
      rcases hmem with hmem | hmem
      · obtain rfl := hreply.inserted hmem
        exact ⟨_, rfl, rfl, fun _ => .inl ⟨rfl, rfl⟩⟩
      · exact absurd hmem (hqueued hout)
  | withdrawRefused | placeOrderRefused =>
    -- A refusal is a transaction of its own, without an effect.
    cases hcommitted with
    | reply hreply =>
      have heffect : hasEffect [_] = false := hasEffect_eq_false (by simpa using hreply.table)
      obtain rfl := hreply.inserted (List.mem_singleton.1 hmem)
      exact ⟨_, rfl, rfl, fun _ => .inr ⟨heffect, rfl⟩⟩
  | cancelOrder =>
    cases hcommitted with
    | cancel hreply hout =>
      rcases List.mem_cons.1 hmem with hmem | hmem
      · obtain rfl := hreply.inserted hmem
        exact ⟨_, rfl, rfl, fun h => by cases h⟩
      · exact absurd hmem (hqueued hout)
  | @release uuid release => exact (hengine (.releaseReservation release) hcommitted).elim
  | @settle uuid settle => exact (hengine (.settleTrade settle) hcommitted).elim
  | @engineCommand event command => exact (hengine command hcommitted).elim

/-- An effect of a command comes with a stored reply. -/
theorem Delivery.Commits.replied (h : delivery.Commits self d ws)
    (hid : delivery.commandId = some id) : (replyOf (view ws d) id).isSome := by
  rw [replyOf, Option.isSome_map]
  obtain ⟨tx, events, hissues, hcommitted⟩ := h
  cases hissues with
  | deposit =>
    cases hid
    cases hcommitted with
    | deposit hcredit hledger hreply hout => exact hreply.replied (by simp)
  | withdraw =>
    cases hid
    cases hcommitted with
    | withdraw hhit hledger hreply hout => exact hreply.replied (by simp)
  | placeOrder =>
    cases hid
    cases hcommitted with
    | reserve hhit hreservation hfree hreply hout => exact hreply.replied (by simp)
  | cancelOrder =>
    cases hid
    cases hcommitted with
    | cancel hreply hout => exact hreply.replied List.mem_cons_self
  | withdrawRefused | placeOrderRefused =>
    cases hid
    cases hcommitted with
    | reply hreply => exact hreply.replied List.mem_cons_self
  | release | settle | engineCommand => cases hid

/-- What is stored as the reply of a command after a commit. -/
theorem Delivery.Commits.replyOf_cases (h : delivery.Commits self d ws) {reply : WalletReply}
    (hreply : replyOf (view ws d) id = some reply) :
    replyOf d id = some reply ∨ replyOf d id = none ∧ delivery.commandId = some id ∧
      (id.kind.spends = true → hasEffect ws = true ∧ succeeds reply = true ∨
        hasEffect ws = false ∧ refuses reply = true) := by
  obtain ⟨row, hrow, rfl⟩ := Option.map_eq_some_iff.1 hreply
  rcases find?_idempotency_view hrow with ⟨old, hold, hsame⟩ | ⟨hnone, added, hadded, hkey, hsame⟩
  · left
    rw [replyOf, hold, Option.map_some, hsame]
  · right
    obtain ⟨id', hid', hkey', hspends⟩ := h.reply hadded
    obtain rfl := CommandId.replyKey_injective (hkey.symm.trans hkey')
    rw [hsame] at hspends
    exact ⟨by rw [replyOf, hnone]; rfl, hid', hspends⟩

/-! ## The invariant -/

/-- What is stored about a command that spends, next to its effects. -/
def Agrees (d : WalletDb) (log : List (Delivery × List Write)) (id : CommandId) : Prop :=
  match replyOf d id with
  | none => effects log id = []
  | some reply =>
    succeeds reply = true ∧ effects log id ≠ [] ∨ refuses reply = true ∧ effects log id = []

theorem effects_append_of_ne {log : List (Delivery × List Write)}
    (h : delivery.commandId = some id → hasEffect ws = false) :
    effects (log ++ [(delivery, ws)]) id = effects log id := by
  rw [effects, List.filter_append, effects]
  by_cases hid : delivery.commandId = some id
  · simp [h hid]
  · simp [hid]

theorem effects_append_ne_nil {log : List (Delivery × List Write)}
    (hid : delivery.commandId = some id) (heffect : hasEffect ws = true) :
    effects (log ++ [(delivery, ws)]) id ≠ [] := by
  rw [effects, List.filter_append]
  simp [hid, heffect]

/-- A commit keeps the agreement unless it overrules a refusal. -/
theorem Agrees.commit {log : List (Delivery × List Write)} (h : Agrees d log id)
    (hspends : id.kind.spends = true) (hcommits : delivery.Commits self d ws)
    (hrefused : delivery.commandId = some id → hasEffect ws = true →
      (replyOf d id).any refuses = false) :
    Agrees (view ws d) (log ++ [(delivery, ws)]) id := by
  unfold Agrees at h ⊢
  -- A new effect brings a success, unless a refusal is stored already.
  by_cases heffect : delivery.commandId = some id ∧ hasEffect ws = true
  · obtain ⟨hid, heffect⟩ := heffect
    obtain ⟨reply, hreply⟩ := Option.isSome_iff_exists.1 (hcommits.replied hid)
    rw [hreply]
    refine .inl ⟨?_, effects_append_ne_nil hid heffect⟩
    rcases hcommits.replyOf_cases hreply with hold | ⟨-, -, hnew⟩
    · have hnot := hrefused hid heffect
      rw [hold] at h hnot
      rcases h with ⟨hsucceeds, -⟩ | ⟨hrefuses, -⟩
      · exact hsucceeds
      · exact absurd (hrefuses.symm.trans hnot) nofun
    · rcases hnew hspends with ⟨-, hsucceeds⟩ | ⟨hnone, -⟩
      · exact hsucceeds
      · exact absurd (heffect.symm.trans hnone) nofun
  · have hsame : effects (log ++ [(delivery, ws)]) id = effects log id :=
      effects_append_of_ne fun hid => by simpa using not_and.1 heffect hid
    rw [hsame]
    cases hreply : replyOf (view ws d) id with
    | none =>
      cases hold : replyOf d id with
      | none =>
        rw [hold] at h
        exact h
      | some reply =>
        rw [replyOf_mono (grows_view d ws) hold] at hreply
        cases hreply
    | some reply =>
      rcases hcommits.replyOf_cases hreply with hold | ⟨hnone, hid, hnew⟩
      · rw [hold] at h
        exact h
      · rw [hnone] at h
        rcases hnew hspends with ⟨hyes, -⟩ | ⟨-, hrefuses⟩
        · exact absurd ⟨hid, hyes⟩ heffect
        · exact .inr ⟨hrefuses, h⟩

theorem Agrees.truthful {σ : DeliverySystem}
    (h : ∀ id : CommandId, id.kind.spends = true → Agrees σ.committed σ.log id) : Truthful σ := by
  intro id reply hspends hreply
  have hagrees := h id hspends
  unfold Agrees at hagrees
  rw [hreply] at hagrees
  rcases hagrees with ⟨hsucceeds, heffects⟩ | ⟨hrefuses, heffects⟩
  · refine ⟨⟨fun _ => heffects, fun _ => hsucceeds⟩, fun hrefuses => ?_⟩
    rw [refuses_of_succeeds hsucceeds] at hrefuses
    cases hrefuses
  · refine ⟨⟨fun hsucceeds => ?_, fun hne => absurd heffects hne⟩, fun _ => heffects⟩
    rw [refuses_of_succeeds hsucceeds] at hrefuses
    cases hrefuses

/-! ## Every state of a schedule -/

theorem deliverAll_succ {users : List ℤ} {actions : List (Action Delivery)} {n : ℕ}
    {a : Action Delivery} (ha : actions[n]? = some a) :
    self.deliverAll users (actions.take (n + 1)) =
      (self.deliverAll users (actions.take n)).bind fun σ => σ.step self.deliver a := by
  rw [List.take_add_one, ha, WalletProcessor.deliverAll, Option.toList_some, System.steps_append]
  refine congrArg _ (funext fun σ => ?_)
  change (σ.step self.deliver a).bind some = _
  exact Option.bind_fun_some _

/-- A step that does not overrule a refusal keeps the agreement. -/
theorem agrees_step {users : List ℤ} {actions : List (Action Delivery)} {σ σ' : DeliverySystem}
    {a : Action Delivery} (hσ : self.deliverAll users actions = some σ)
    (h : ∀ id : CommandId, id.kind.spends = true → Agrees σ.committed σ.log id)
    (hstep : σ.step self.deliver a = some σ') (ha : overrules σ a = false) :
    ∀ id : CommandId, id.kind.spends = true → Agrees σ'.committed σ'.log id := by
  intro id hspends
  cases System.step_cases hstep with
  | @commit t delivery next ws hs =>
    refine (h id hspends).commit hspends (commits_deliverAll hσ hs) fun hid heffect => ?_
    simp only [overrules, hs, heffect, hid, hspends, Bool.true_and, Option.any_some] at ha
    exact ha
  | _ => exact h id hspends

/-- A step that overrules a refusal leaves it next to an effect. -/
theorem not_truthful_of_overrules {σ σ' : DeliverySystem} {a : Action Delivery}
    (hstep : σ.step self.deliver a = some σ') (ha : overrules σ a = true) : ¬Truthful σ' := by
  intro htruthful
  cases System.step_cases hstep with
  | @commit t delivery next ws hs =>
    simp only [overrules, hs, Bool.and_eq_true, Option.any_eq_true] at ha
    obtain ⟨heffect, id, hid, hspends, reply, hreply, hrefuses⟩ := ha
    have hlater := (htruthful id reply hspends (replyOf_mono (grows_view _ ws) hreply)).2 hrefuses
    exact effects_append_ne_nil hid heffect hlater
  | _ => cases ha

end

/-- In every run the stored replies are truthful in all its states exactly when
no step overrules a refusal. -/
theorem truthful_iff (self : WalletProcessor) (users : List ℤ) (actions : List (Action Delivery))
    (hrun : (self.deliverAll users actions).isSome) :
    (∀ n σ, self.deliverAll users (actions.take n) = some σ → Truthful σ) ↔
      ∀ n σ a, self.deliverAll users (actions.take n) = some σ → actions[n]? = some a →
        overrules σ a = false := by
  constructor
  · intro h n σ a hσ ha
    rw [Bool.eq_false_iff]
    intro hoverrules
    have hnext : (self.deliverAll users (actions.take (n + 1))).isSome := by
      rw [← List.take_append_drop (n + 1) actions, WalletProcessor.deliverAll, System.steps_append,
        Option.isSome_bind] at hrun
      exact Option.isSome_of_any hrun
    obtain ⟨σ', hσ'⟩ := Option.isSome_iff_exists.1 hnext
    have hstep := hσ'
    rw [deliverAll_succ ha, hσ, Option.bind_some] at hstep
    exact not_truthful_of_overrules hstep hoverrules (h (n + 1) σ' hσ')
  · intro h n
    -- The agreement is the invariant, and truthfulness follows from it.
    suffices hagrees : ∀ σ, self.deliverAll users (actions.take n) = some σ →
        ∀ id : CommandId, id.kind.spends = true → Agrees σ.committed σ.log id from
      fun σ hσ => Agrees.truthful (hagrees σ hσ)
    induction n with
    | zero =>
      intro σ hσ id _
      cases hσ
      rfl
    | succ n ih =>
      intro σ hσ
      cases ha : actions[n]? with
      | none =>
        rw [List.take_add_one, ha, Option.toList_none, List.append_nil] at hσ
        exact ih σ hσ
      | some a =>
        rw [deliverAll_succ ha] at hσ
        obtain ⟨τ, hτ, hstep⟩ := Option.bind_eq_some_iff.1 hσ
        exact agrees_step hτ (ih τ hτ) hstep (h n τ a hτ ha)

/-- A withdrawal of 50 by user 1 under the key `k`. -/
def withdrawFifty : Delivery :=
  .command "u" (.withdraw
    { envelope := { requestId := "r", userId := 1, idempotencyKey := "k", replyPartition := 0 },
      asset := .USDC, amount := 50, destination := "d" })

/-- The withdrawal is delivered twice. Both deliveries look for a stored reply;
the first finds no funds. A deposit comes in before it stores its refusal, and
the second withdraws. -/
def refusedAndWithdrawn : List (Action Delivery) :=
  [.start 0 withdrawFifty, .start 1 withdrawFifty, .exec 0, .exec 1,
   .exec 0, .exec 0, .rollback 0, .rollback 0,
   .start 2 (.command "u" (depositOf 100 "a")), .exec 2, .exec 2, .exec 2, .exec 2, .exec 2, .commit 2,
   .exec 0, .commit 0,
   .exec 1, .exec 1, .exec 1, .exec 1, .commit 1, .close 0, .close 1, .close 2]

theorem truthful_iff_refusedAndWithdrawn :
    (∀ n σ, WalletProcessor.new.deliverAll [1] (refusedAndWithdrawn.take n) = some σ →
        Truthful σ) ↔
      ∀ n σ a, WalletProcessor.new.deliverAll [1] (refusedAndWithdrawn.take n) = some σ →
        refusedAndWithdrawn[n]? = some a → overrules σ a = false :=
  truthful_iff .new [1] refusedAndWithdrawn (by decide)

theorem refusedAndWithdrawn_not_truthful :
    ∃ σ, WalletProcessor.new.deliverAll [1] refusedAndWithdrawn = some σ ∧
      (∀ t < 3, (σ.sessions t).isNone) ∧ ¬Truthful σ := by
  have hfinal : (WalletProcessor.new.deliverAll [1] refusedAndWithdrawn).map (fun σ =>
      ((replyOf σ.committed ⟨1, .withdraw, "k"⟩).map refuses,
        (effects σ.log ⟨1, .withdraw, "k"⟩).length,
        (List.range 3).all fun t => (σ.sessions t).isNone)) = some (some true, 1, true) := by
    decide
  obtain ⟨σ, hσ, hvalues⟩ := Option.map_eq_some_iff.1 hfinal
  simp only [Prod.mk.injEq, Option.map_eq_some_iff, List.all_eq_true, List.mem_range] at hvalues
  obtain ⟨⟨reply, hreply, hrefuses⟩, hlength, hclosed⟩ := hvalues
  refine ⟨σ, hσ, hclosed, fun htruthful => ?_⟩
  have hnil := (htruthful ⟨1, .withdraw, "k"⟩ reply rfl hreply).2 hrefuses
  rw [hnil] at hlength
  cases hlength

end Wallet
