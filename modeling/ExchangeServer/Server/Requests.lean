import ExchangeServer.Foundation.Machine
import ExchangeServer.Server.Replies
import ExchangeServer.Wallet.Answers

/-!
# Requests through the exchange

The server, the wallet and the engine with the topics between them. The server
gives a request a fresh id, registers a waiter and publishes the command with
the user as its key, so that all commands of a user are in one partition. The
wallet has a task for each partition of its two input topics, which processes
one record at a time, publishes the replies and saves the offset; a task that
stops starts again from the saved offset. The relay publishes the engine inputs
of the outbox, the engine answers each record of its topic once, and the server
reads the two topics of replies.
-/

namespace Server

open Protocol Transactional Wallet

/-- The kind of request that the handler of a command registers. -/
def requestKind : CommandKind → RequestKind
  | .deposit => .deposit
  | .withdraw => .withdraw
  | .placeOrder => .placeOrder
  | .cancelOrder => .cancelOrder

/-- The session of the task of a partition of the wallet commands. -/
def commandTask (partition : ℕ) : ℕ := 2 * partition

/-- The session of the task of a partition of the engine events. -/
def eventTask (partition : ℕ) : ℕ := 2 * partition + 1

/-- The topics, the three processes, and how far their readers are. -/
structure Exchange where
  commands : ℕ → List WalletCommand
  offsets : ℕ → ℕ
  wallet : System Stmt WalletRepositoryError (List WalletReply) WalletDb Write Key Delivery
  published : ℕ → Bool
  walletReplies : List WalletReply
  engineInputs : List EngineCommand
  engineReplies : List EngineReply
  server : ReplyState
  walletRepliesRead : ℕ
  engineRepliesRead : ℕ
  requestIds : List String

inductive ExchangeAction
  | submit (command : WalletCommand)
  | submitFailed (command : WalletCommand)
  | consume (partition : ℕ) (uuid : String)
  | consumeEvent (partition : ℕ) (event : EngineEvent)
  | exec (task : ℕ)
  | commit (task : ℕ)
  | rollback (task : ℕ)
  | stop (task : ℕ)
  | publish (partition : ℕ)
  | saveOffset (partition : ℕ)
  | relay (dedupeKey : String)
  | answer (reply : EngineReply)
  | readWalletReply
  | readEngineReply

namespace Exchange

/-- Nothing has happened yet. -/
def initial (users : List ℤ) : Exchange where
  commands := fun _ => []
  offsets := fun _ => 0
  wallet := .initial (.empty users)
  published := fun _ => false
  walletReplies := []
  engineInputs := []
  engineReplies := []
  server := .default
  walletRepliesRead := 0
  engineRepliesRead := 0
  requestIds := []

/-- The wallet after a step of one of its sessions. -/
def work (self : WalletProcessor) (σ : Exchange) (a : Action Delivery) : Option Exchange :=
  (σ.wallet.step self.answer a).map fun wallet => { σ with wallet }

/-- The effect of an action, if it is possible now. The partition of a command
is a function of the user, who is the key of the record. -/
def step (self : WalletProcessor) (partitionOf : ℤ → ℕ) (σ : Exchange) :
    ExchangeAction → Option Exchange
  | .submit command =>
    match userCommand command with
    | some (kind, envelope) =>
      -- Request ids are fresh UUIDs.
      if envelope.requestId ∈ σ.requestIds then none
      else
        let partition := partitionOf envelope.userId
        some { σ with
          server := σ.server.registerWaiter envelope.requestId envelope.userId (requestKind kind)
          commands := Function.update σ.commands partition (σ.commands partition ++ [command])
          requestIds := envelope.requestId :: σ.requestIds }
    | none => none
  | .submitFailed command =>
    match userCommand command with
    | some (kind, envelope) =>
      if envelope.requestId ∈ σ.requestIds then none
      else
        -- The waiter is registered first and removed when the record cannot be sent.
        some { σ with
          server := (σ.server.registerWaiter envelope.requestId envelope.userId
            (requestKind kind)).remove envelope.requestId
          requestIds := envelope.requestId :: σ.requestIds }
    | none => none
  | .consume partition uuid =>
    match (σ.commands partition)[σ.offsets partition]? with
    | some command => σ.work self (.start (commandTask partition) (.command uuid command))
    | none => none
  | .consumeEvent partition event => σ.work self (.start (eventTask partition) (.event event))
  | .exec task => σ.work self (.exec task)
  | .commit task => σ.work self (.commit task)
  | .rollback task => σ.work self (.rollback task)
  | .stop task =>
    (σ.work self (.close task)).map fun σ =>
      { σ with published := Function.update σ.published task false }
  | .publish partition =>
    -- Replies go out when the transaction is over and before the offset is saved.
    match σ.wallet.sessions (commandTask partition) with
    | some ⟨_, .ret (.ok replies), _⟩ =>
      if σ.published (commandTask partition) then none
      else
        some { σ with
          walletReplies := σ.walletReplies ++ replies
          published := Function.update σ.published (commandTask partition) true }
    | _ => none
  | .saveOffset partition =>
    if σ.published (commandTask partition) then
      (σ.work self (.close (commandTask partition))).map fun σ =>
        { σ with
          published := Function.update σ.published (commandTask partition) false
          offsets := Function.update σ.offsets partition (σ.offsets partition + 1) }
    else none
  | .relay dedupeKey =>
    match σ.wallet.committed.walletOutbox.find? dedupeKey with
    | some { payload := .engineCommand command, .. } =>
      some { σ with engineInputs := σ.engineInputs ++ [command] }
    | _ => none
  | .answer reply =>
    -- The engine answers its inputs in order.
    match σ.engineInputs[σ.engineReplies.length]? with
    | some command =>
      if engineInputRequestId command = some (engineReplyRequestId reply) then
        some { σ with engineReplies := σ.engineReplies ++ [reply] }
      else none
    | none => none
  | .readWalletReply =>
    match σ.walletReplies[σ.walletRepliesRead]? with
    | some reply =>
      some { σ with
        server := σ.server.resolveWalletReply reply
        walletRepliesRead := σ.walletRepliesRead + 1 }
    | none => none
  | .readEngineReply =>
    match σ.engineReplies[σ.engineRepliesRead]? with
    | some reply =>
      some { σ with
        server := σ.server.resolveEngineReply reply
        engineRepliesRead := σ.engineRepliesRead + 1 }
    | none => none

/-- The effect of a run from the start. -/
def run (self : WalletProcessor) (partitionOf : ℤ → ℕ) (users : List ℤ)
    (actions : List ExchangeAction) : Option Exchange :=
  Machine.run (step self partitionOf) (initial users) actions

/-- The record with this number in a partition is this command of a user. -/
def At (σ : Exchange) (partition n : ℕ) (user : CommandKind × CommandEnvelope) : Prop :=
  ∃ command, (σ.commands partition)[n]? = some command ∧ userCommand command = some user

/-- Everything a step can do. -/
inductive Step (self : WalletProcessor) (partitionOf : ℤ → ℕ) (σ : Exchange) :
    ExchangeAction → Exchange → Prop
  | submit {command kind envelope} (huser : userCommand command = some (kind, envelope))
      (hfresh : envelope.requestId ∉ σ.requestIds) :
    Step self partitionOf σ (.submit command)
      { σ with
        server := σ.server.registerWaiter envelope.requestId envelope.userId (requestKind kind)
        commands := Function.update σ.commands (partitionOf envelope.userId)
          (σ.commands (partitionOf envelope.userId) ++ [command])
        requestIds := envelope.requestId :: σ.requestIds }
  | submitFailed {command kind envelope} (huser : userCommand command = some (kind, envelope))
      (hfresh : envelope.requestId ∉ σ.requestIds) :
    Step self partitionOf σ (.submitFailed command)
      { σ with
        server := (σ.server.registerWaiter envelope.requestId envelope.userId
          (requestKind kind)).remove envelope.requestId
        requestIds := envelope.requestId :: σ.requestIds }
  | consume {partition uuid command wallet}
      (hcommand : (σ.commands partition)[σ.offsets partition]? = some command)
      (hwallet : System.Step self.answer σ.wallet
        (.start (commandTask partition) (.command uuid command)) wallet) :
    Step self partitionOf σ (.consume partition uuid) { σ with wallet }
  | consumeEvent {partition event wallet}
      (hwallet : System.Step self.answer σ.wallet (.start (eventTask partition) (.event event))
        wallet) :
    Step self partitionOf σ (.consumeEvent partition event) { σ with wallet }
  | exec {task wallet} (hwallet : System.Step self.answer σ.wallet (.exec task) wallet) :
    Step self partitionOf σ (.exec task) { σ with wallet }
  | commit {task wallet} (hwallet : System.Step self.answer σ.wallet (.commit task) wallet) :
    Step self partitionOf σ (.commit task) { σ with wallet }
  | rollback {task wallet} (hwallet : System.Step self.answer σ.wallet (.rollback task) wallet) :
    Step self partitionOf σ (.rollback task) { σ with wallet }
  | stop {task wallet} (hwallet : System.Step self.answer σ.wallet (.close task) wallet) :
    Step self partitionOf σ (.stop task)
      { σ with wallet, published := Function.update σ.published task false }
  | publish {partition delivery replies ws}
      (hsession : σ.wallet.sessions (commandTask partition) =
        some ⟨delivery, .ret (.ok replies), ws⟩) :
    Step self partitionOf σ (.publish partition)
      { σ with
        walletReplies := σ.walletReplies ++ replies
        published := Function.update σ.published (commandTask partition) true }
  | saveOffset {partition wallet} (hpublished : σ.published (commandTask partition) = true)
      (hwallet : System.Step self.answer σ.wallet (.close (commandTask partition)) wallet) :
    Step self partitionOf σ (.saveOffset partition)
      { σ with
        wallet
        published := Function.update σ.published (commandTask partition) false
        offsets := Function.update σ.offsets partition (σ.offsets partition + 1) }
  | relay {dedupeKey message command}
      (hmessage : σ.wallet.committed.walletOutbox.find? dedupeKey = some message)
      (hpayload : message.payload = .engineCommand command) :
    Step self partitionOf σ (.relay dedupeKey)
      { σ with engineInputs := σ.engineInputs ++ [command] }
  | answer {reply command} (hcommand : σ.engineInputs[σ.engineReplies.length]? = some command)
      (hrequest : engineInputRequestId command = some (engineReplyRequestId reply)) :
    Step self partitionOf σ (.answer reply)
      { σ with engineReplies := σ.engineReplies ++ [reply] }
  | readWalletReply {reply} (hreply : σ.walletReplies[σ.walletRepliesRead]? = some reply) :
    Step self partitionOf σ .readWalletReply
      { σ with
        server := σ.server.resolveWalletReply reply
        walletRepliesRead := σ.walletRepliesRead + 1 }
  | readEngineReply {reply} (hreply : σ.engineReplies[σ.engineRepliesRead]? = some reply) :
    Step self partitionOf σ .readEngineReply
      { σ with
        server := σ.server.resolveEngineReply reply
        engineRepliesRead := σ.engineRepliesRead + 1 }

theorem work_eq_some {self : WalletProcessor} {σ σ' : Exchange} {a : Action Delivery}
    (h : σ.work self a = some σ') :
    ∃ wallet, System.Step self.answer σ.wallet a wallet ∧ σ' = { σ with wallet } := by
  obtain ⟨wallet, hwallet, rfl⟩ := Option.map_eq_some_iff.1 h
  exact ⟨wallet, System.step_cases hwallet, rfl⟩

theorem step_cases {self : WalletProcessor} {partitionOf : ℤ → ℕ} {σ σ' : Exchange}
    {a : ExchangeAction} (h : σ.step self partitionOf a = some σ') :
    Step self partitionOf σ a σ' := by
  cases a with
  | submit command =>
    simp only [step] at h
    split at h
    · next kind envelope huser =>
      split at h
      · cases h
      · next hfresh =>
        cases h
        exact .submit huser hfresh
    · cases h
  | submitFailed command =>
    simp only [step] at h
    split at h
    · next kind envelope huser =>
      split at h
      · cases h
      · next hfresh =>
        cases h
        exact .submitFailed huser hfresh
    · cases h
  | consume partition uuid =>
    simp only [step] at h
    split at h
    · next command hcommand =>
      obtain ⟨wallet, hwallet, rfl⟩ := work_eq_some h
      exact .consume hcommand hwallet
    · cases h
  | consumeEvent partition event =>
    obtain ⟨wallet, hwallet, rfl⟩ := work_eq_some h
    exact .consumeEvent hwallet
  | exec task =>
    obtain ⟨wallet, hwallet, rfl⟩ := work_eq_some h
    exact .exec hwallet
  | commit task =>
    obtain ⟨wallet, hwallet, rfl⟩ := work_eq_some h
    exact .commit hwallet
  | rollback task =>
    obtain ⟨wallet, hwallet, rfl⟩ := work_eq_some h
    exact .rollback hwallet
  | stop task =>
    obtain ⟨τ, hτ, rfl⟩ := Option.map_eq_some_iff.1 h
    obtain ⟨wallet, hwallet, rfl⟩ := work_eq_some hτ
    exact .stop hwallet
  | publish partition =>
    simp only [step] at h
    split at h
    · next hsession =>
      split at h
      · cases h
      · cases h
        exact .publish hsession
    · cases h
  | saveOffset partition =>
    simp only [step] at h
    split at h
    · next hpublished =>
      obtain ⟨τ, hτ, rfl⟩ := Option.map_eq_some_iff.1 h
      obtain ⟨wallet, hwallet, rfl⟩ := work_eq_some hτ
      exact .saveOffset hpublished hwallet
    · cases h
  | relay dedupeKey =>
    simp only [step] at h
    split at h
    · next hmessage =>
      cases h
      exact .relay hmessage rfl
    · cases h
  | answer reply =>
    simp only [step] at h
    split at h
    · next command hcommand =>
      split at h
      · next hrequest =>
        cases h
        exact .answer hcommand hrequest
      · cases h
    · cases h
  | readWalletReply =>
    simp only [step] at h
    split at h
    · next hreply =>
      cases h
      exact .readWalletReply hreply
    · cases h
  | readEngineReply =>
    simp only [step] at h
    split at h
    · next hreply =>
      cases h
      exact .readEngineReply hreply
    · cases h

/-- Whatever every step keeps holds after every run that starts with it. -/
theorem inv_of_run {self : WalletProcessor} {partitionOf : ℤ → ℕ} {P : Exchange → Prop}
    (hstep : ∀ {σ σ' a}, P σ → Step self partitionOf σ a σ' → P σ') {users : List ℤ}
    {actions : List ExchangeAction} {σ : Exchange}
    (h : run self partitionOf users actions = some σ) (h₀ : P (initial users)) : P σ :=
  Machine.inv_of_run (fun hσ hs => hstep hσ (step_cases hs)) h h₀

end Exchange

end Server
