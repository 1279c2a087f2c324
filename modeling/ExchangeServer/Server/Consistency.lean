import ExchangeServer.Server.Requests

/-!
# Records, replies and requests

What holds in every state of the exchange. The tasks of the wallet work on the
records at their offsets, every record has a request id of its own, a reply is
stored by the first record of its command and published for every record, and
the server has processed for a request what the two topics of replies hold for
it.

## Main results

- `Working.step`, `Recorded.step`, `Stored.step`, `Served.step`: what every step keeps
- `consistent_of_run`: the states of a run
- `Consistent.walletReply`, `Consistent.engineReply`: where a reply comes from
-/

namespace Server

open Protocol Relational Transactional Wallet

namespace Exchange

variable {self : WalletProcessor} {partitionOf : ℤ → ℕ} {σ σ' : Exchange} {a : ExchangeAction}

/-! ## The partitions of the commands -/

theorem getElem?_submit {f : ℕ → List WalletCommand} {partition p n : ℕ}
    {command command' : WalletCommand} :
    (Function.update f partition (f partition ++ [command]) p)[n]? = some command' ↔
      (f p)[n]? = some command' ∨ p = partition ∧ n = (f p).length ∧ command = command' := by
  by_cases hp : p = partition
  · subst hp
    rw [Function.update_self, List.getElem?_append]
    by_cases hn : n < (f p).length
    · have hne : n ≠ (f p).length := by omega
      simp [hn, hne]
    · have hnone : (f p)[n]? = none := List.getElem?_eq_none (by omega)
      rw [if_neg hn, hnone, List.getElem?_singleton]
      by_cases heq : n = (f p).length
      · simp [heq]
      · have hpos : n - (f p).length ≠ 0 := by omega
        simp [heq, hpos]
  · simp [hp]

theorem At.unique {p n : ℕ} {user user' : CommandKind × CommandEnvelope} (h : σ.At p n user)
    (h' : σ.At p n user') : user = user' := by
  obtain ⟨command, hcommand, huser⟩ := h
  obtain ⟨command', hcommand', huser'⟩ := h'
  obtain rfl := Option.some.inj (hcommand.symm.trans hcommand')
  exact Option.some.inj (huser.symm.trans huser')

theorem At.lt_length {p n : ℕ} {user : CommandKind × CommandEnvelope} (h : σ.At p n user) :
    n < (σ.commands p).length := by
  obtain ⟨command, hcommand, -⟩ := h
  exact (List.getElem?_eq_some_iff.1 hcommand).1

/-- A record after a submission was there before or is the new one. -/
theorem at_submit {server : ReplyState} {requestIds : List String} {partition p n : ℕ}
    {command : WalletCommand} {user user' : CommandKind × CommandEnvelope}
    (huser : userCommand command = some user) :
    ({ σ with
        server
        commands := Function.update σ.commands partition (σ.commands partition ++ [command])
        requestIds } : Exchange).At p n user' ↔
      σ.At p n user' ∨ p = partition ∧ n = (σ.commands p).length ∧ user = user' := by
  simp only [At, getElem?_submit]
  constructor
  · rintro ⟨command', hcommand' | ⟨hp, hn, rfl⟩, huser'⟩
    · exact .inl ⟨command', hcommand', huser'⟩
    · exact .inr ⟨hp, hn, Option.some.inj (huser.symm.trans huser')⟩
  · rintro (⟨command', hcommand', huser'⟩ | ⟨hp, hn, rfl⟩)
    · exact ⟨command', .inl hcommand', huser'⟩
    · exact ⟨command, .inr ⟨hp, hn, rfl⟩, huser⟩

/-! ## The tasks of the wallet -/

/-- The record that a session works on: the one at the saved offset of its
partition, or an engine event. -/
def Task (σ : Exchange) (task : ℕ) (delivery : Delivery) : Prop :=
  (∃ partition uuid command, task = commandTask partition ∧ delivery = .command uuid command ∧
    (σ.commands partition)[σ.offsets partition]? = some command) ∨
  ∃ partition event, task = eventTask partition ∧ delivery = .event event

/-- The sessions work on their records and owe the answers to them. -/
structure Working (processor : WalletProcessor) (partitionOf : ℤ → ℕ) (σ : Exchange) : Prop where
  owned : System.Owned σ.wallet
  sound : System.AllSoundFor (fun delivery => Rely Stmt delivery.Owns) processor.answerContract
    Delivery.Answered σ.wallet
  tasks : ∀ t s, σ.wallet.sessions t = some s → σ.Task t s.label
  logged : ∀ (p n : ℕ) command, (σ.commands p)[n]? = some command →
    ∃ user, userCommand command = some user ∧ p = partitionOf user.2.userId

theorem commandTask_inj {p q : ℕ} (h : commandTask p = commandTask q) : p = q := by
  simp only [commandTask] at h
  omega

theorem commandTask_ne_eventTask (p q : ℕ) : commandTask p ≠ eventTask q := by
  simp only [commandTask, eventTask]
  omega

/-- The task of a partition works on the record at its offset. -/
theorem Task.command {partition : ℕ} {delivery : Delivery}
    (h : σ.Task (commandTask partition) delivery) : ∃ uuid command,
      delivery = .command uuid command ∧
        (σ.commands partition)[σ.offsets partition]? = some command := by
  rcases h with ⟨p, uuid, command, hp, hdelivery, hcommand⟩ | ⟨q, event, hq, -⟩
  · obtain rfl := commandTask_inj hp
    exact ⟨uuid, command, hdelivery, hcommand⟩
  · exact absurd hq (commandTask_ne_eventTask partition q)

/-- A command is processed by the task of the partition of its user. -/
theorem Working.task_of_user (h : Working self partitionOf σ) {t : ℕ} {delivery : Delivery}
    (htask : σ.Task t delivery) {user : CommandKind × CommandEnvelope}
    (huser : delivery.userCommand = some user) :
    t = commandTask (partitionOf user.2.userId) ∧
      σ.At (partitionOf user.2.userId) (σ.offsets (partitionOf user.2.userId)) user := by
  rcases htask with ⟨p, uuid, command, rfl, rfl, hcommand⟩ | ⟨q, event, -, rfl⟩
  · obtain ⟨user', huser', rfl⟩ := h.logged p _ command hcommand
    obtain rfl := Option.some.inj (huser'.symm.trans huser)
    exact ⟨rfl, command, hcommand, huser⟩
  · cases huser

theorem user_of_commandId {delivery : Delivery} {id : CommandId} (h : delivery.commandId = some id) :
    ∃ user, delivery.userCommand = some user ∧ CommandId.of user.1 user.2 = id := by
  rw [Delivery.commandId_eq] at h
  exact Option.map_eq_some_iff.1 h

/-- No two sessions process the same command. -/
theorem Working.task_unique (h : Working self partitionOf σ) {t u : ℕ} {delivery delivery' : Delivery}
    (ht : σ.Task t delivery) (hu : σ.Task u delivery') {id : CommandId}
    (hid : delivery.commandId = some id) (hid' : delivery'.commandId = some id) : t = u := by
  obtain ⟨user, huser, rfl⟩ := user_of_commandId hid
  obtain ⟨user', huser', heq⟩ := user_of_commandId hid'
  have hsame : user'.2.userId = user.2.userId := congrArg CommandId.userId heq
  rw [(h.task_of_user ht huser).1, (h.task_of_user hu huser').1, hsame]

/-- Commits stay within what the other sessions rely on. -/
theorem Working.rely (h : Working self partitionOf σ) {t : ℕ} {delivery : Delivery}
    {next : Tx (List WalletReply)} {ws : List Write}
    (hs : σ.wallet.sessions t = some ⟨delivery, .commit next, ws⟩)
    (hcommits : (self.answerContract delivery).commits σ.wallet.committed ws) {u : ℕ}
    {s : Session Stmt WalletRepositoryError (List WalletReply) Write Delivery} (hut : u ≠ t)
    (hu : σ.wallet.sessions u = some s) :
    Rely Stmt s.label.Owns σ.wallet.committed (view ws σ.wallet.committed) := by
  refine ⟨grows_view _ ws, fun k hk => ?_⟩
  obtain ⟨id, hid, rfl⟩ := hk
  refine (Locking.look_applyAll_of_not_mem (fun hheld => ?_) _).symm
  obtain ⟨w, hw, hkey⟩ := Locking.mem_held.1 hheld
  obtain ⟨id', hid', hsame⟩ := hcommits.1.replyKey hw hkey
  obtain rfl := CommandId.replyKey_injective hsame
  exact hut (h.task_unique (h.tasks u s hu) (h.tasks t _ hs) hid hid')

theorem Working.work (h : Working self partitionOf σ) {act : Action Delivery}
    {wallet : System Stmt WalletRepositoryError (List WalletReply) WalletDb Write Key Delivery}
    (hwallet : System.Step self.answer σ.wallet act wallet)
    (hstart : ∀ t delivery, act = .start t delivery → σ.Task t delivery) :
    Working self partitionOf { σ with wallet } where
  owned := System.owned_step h.owned hwallet
  sound := System.allSoundFor_step (fun _ => reliable_rely _) (wlp_answer self) h.owned h.sound
    (fun _ _ _ _ hs hcommits _ _ hut hu => h.rely hs hcommits hut hu) hwallet
  tasks t s hs := by
    rcases hwallet.session hs with ⟨s', hs', hlabel⟩ | hact
    · have htask := h.tasks t s' hs'
      rwa [hlabel] at htask
    · exact hstart t s.label hact
  logged := h.logged

theorem Working.step (h : Working self partitionOf σ) (hstep : Step self partitionOf σ a σ') :
    Working self partitionOf σ' := by
  cases hstep with
  | @submit command kind envelope huser hfresh =>
    -- A new record comes behind the one that a task is at.
    refine ⟨h.owned, h.sound, fun t s hs => ?_, fun p n command' hcommand' => ?_⟩
    · rcases h.tasks t s hs with ⟨p, uuid, command', ht, hs, hcommand'⟩ | hevent
      · exact .inl ⟨p, uuid, command', ht, hs, getElem?_submit.2 (.inl hcommand')⟩
      · exact .inr hevent
    · rcases getElem?_submit.1 hcommand' with hcommand' | ⟨rfl, -, rfl⟩
      · exact h.logged p n command' hcommand'
      · exact ⟨_, huser, rfl⟩
  | @consume partition uuid command wallet hcommand hwallet =>
    refine h.work hwallet fun t delivery hact => ?_
    cases hact
    exact .inl ⟨partition, uuid, command, rfl, rfl, hcommand⟩
  | consumeEvent hwallet =>
    refine h.work hwallet fun t delivery hact => ?_
    cases hact
    exact .inr ⟨_, _, rfl, rfl⟩
  | exec hwallet | commit hwallet | rollback hwallet => exact h.work hwallet (by simp)
  | stop hwallet =>
    have hworking := h.work hwallet (by simp)
    exact ⟨hworking.owned, hworking.sound, hworking.tasks, hworking.logged⟩
  | @saveOffset partition wallet hpublished hwallet =>
    have hworking := h.work hwallet (by simp)
    refine ⟨hworking.owned, hworking.sound, fun t s hs => ?_, hworking.logged⟩
    -- The task of this partition has no session any more.
    have hne : t ≠ commandTask partition := by
      rintro rfl
      cases hwallet with
      | close _ =>
        rcases System.update_cases hs with ⟨-, ⟨⟩⟩ | ⟨hne, -⟩
        exact hne rfl
    rcases hworking.tasks t s hs with ⟨p, uuid, command, ht, hs, hcommand⟩ | hevent
    · have hp : p ≠ partition := by
        rintro rfl
        exact hne ht
      refine .inl ⟨p, uuid, command, ht, hs, ?_⟩
      change (σ.commands p)[Function.update σ.offsets partition _ p]? = some command
      rwa [Function.update_of_ne hp]
    · exact .inr hevent
  | submitFailed | publish | relay | answer | readWalletReply | readEngineReply =>
    exact ⟨h.owned, h.sound, h.tasks, h.logged⟩

/-! ## The request ids -/

/-- Every record has a request id of its own. -/
structure Recorded (σ : Exchange) : Prop where
  fresh : ∀ p n user, σ.At p n user → user.2.requestId ∈ σ.requestIds
  distinct : ∀ p n user p' n' user', σ.At p n user → σ.At p' n' user' →
    user.2.requestId = user'.2.requestId → p = p' ∧ n = n'

theorem Recorded.step (h : Recorded σ) (hstep : Step self partitionOf σ a σ') : Recorded σ' := by
  cases hstep with
  | @submit command kind envelope huser hfresh =>
    have hnew : ∀ {p n user}, σ.At p n user → user.2.requestId ≠ envelope.requestId := by
      intro p n user hat heq
      exact hfresh (heq ▸ h.fresh p n user hat)
    refine ⟨fun p n user hat => ?_, fun p n user p' n' user' hat hat' hid => ?_⟩
    · rcases (at_submit huser).1 hat with hat | ⟨-, -, rfl⟩
      · exact List.mem_cons_of_mem _ (h.fresh p n user hat)
      · exact List.mem_cons_self
    · rcases (at_submit huser).1 hat with hat | ⟨rfl, rfl, rfl⟩
      · rcases (at_submit huser).1 hat' with hat' | ⟨-, -, rfl⟩
        · exact h.distinct p n user p' n' user' hat hat' hid
        · exact absurd hid (hnew hat)
      · rcases (at_submit huser).1 hat' with hat' | ⟨rfl, rfl, -⟩
        · exact absurd hid.symm (hnew hat')
        · exact ⟨rfl, rfl⟩
  | submitFailed huser hfresh =>
    exact ⟨fun p n user hat => List.mem_cons_of_mem _ (h.fresh p n user hat), h.distinct⟩
  | _ => exact ⟨h.fresh, h.distinct⟩

/-! ## The stored replies -/

/-- The reply to a command is stored and published. -/
def HasAnswer (σ : Exchange) (user : CommandKind × CommandEnvelope) : Prop :=
  ∃ stored, replyOf σ.wallet.committed (.of user.1 user.2) = some stored ∧
    replyWithRequestId user.2.requestId stored ∈ σ.walletReplies

/-- A stored reply is that of the first record with its command. -/
def FirstAnswer (σ : Exchange) (partitionOf : ℤ → ℕ) (id : CommandId) (stored : WalletReply) : Prop :=
  ∃ n user, σ.At (partitionOf id.userId) n user ∧ .of user.1 user.2 = id ∧
    replyWithRequestId user.2.requestId stored = stored ∧ user.1.stores stored = true ∧
    ∀ m user', m < n → σ.At (partitionOf id.userId) m user' → .of user'.1 user'.2 ≠ id

/-- What is stored and published, next to the records of the commands. -/
structure Stored (partitionOf : ℤ → ℕ) (σ : Exchange) : Prop where
  offsets : ∀ p, σ.offsets p ≤ (σ.commands p).length
  first : ∀ id stored, replyOf σ.wallet.committed id = some stored →
    σ.FirstAnswer partitionOf id stored
  answered : ∀ p n user, n < σ.offsets p → σ.At p n user → σ.HasAnswer user
  published : ∀ t, σ.published t = true →
    ∃ p user, t = commandTask p ∧ σ.At p (σ.offsets p) user ∧ σ.HasAnswer user
  replies : ∀ reply ∈ σ.walletReplies, ∃ p n user stored, σ.At p n user ∧
    replyOf σ.wallet.committed (.of user.1 user.2) = some stored ∧
    reply = replyWithRequestId user.2.requestId stored
  agrees : ∀ id : CommandId, id.kind.spends = true → Agrees σ.wallet.committed σ.wallet.log id
  inputs : ∀ message ∈ σ.wallet.committed.walletOutbox.rows, ∀ command,
    message.payload = .engineCommand command → ∃ (user : CommandKind × CommandEnvelope) (stored : _),
      engineInputRequestId command = some user.2.requestId ∧
      effects σ.wallet.log (.of user.1 user.2) ≠ [] ∧
      replyOf σ.wallet.committed (.of user.1 user.2) = some stored ∧
      replyWithRequestId user.2.requestId stored = stored

variable {user : CommandKind × CommandEnvelope}

theorem FirstAnswer.submit {server : ReplyState} {requestIds : List String} {partition : ℕ}
    {command : WalletCommand} (huser : userCommand command = some user) {id : CommandId}
    {stored : WalletReply} (h : σ.FirstAnswer partitionOf id stored) :
    ({ σ with
        server
        commands := Function.update σ.commands partition (σ.commands partition ++ [command])
        requestIds } : Exchange).FirstAnswer partitionOf id stored := by
  obtain ⟨n, user', hat, hid, hrequest, hstores, hfirst⟩ := h
  refine ⟨n, user', (at_submit huser).2 (.inl hat), hid, hrequest, hstores, fun m other hm hat' => ?_⟩
  rcases (at_submit huser).1 hat' with hat' | ⟨-, rfl, -⟩
  · exact hfirst m other hm hat'
  · exact absurd hat.lt_length (by omega)

/-- A step of the wallet that commits nothing. -/
theorem Stored.work (h : Stored partitionOf σ)
    {wallet : System Stmt WalletRepositoryError (List WalletReply) WalletDb Write Key Delivery}
    (hsame : wallet.committed = σ.wallet.committed ∧ wallet.log = σ.wallet.log) :
    Stored partitionOf { σ with wallet } := by
  obtain ⟨committed, owner, sessions, log⟩ := wallet
  obtain ⟨rfl, rfl⟩ := hsame
  exact ⟨h.offsets, h.first, h.answered, h.published, h.replies, h.agrees, h.inputs⟩

/-- The commit of a command stores its reply, and nothing was stored before. -/
theorem Stored.first_commit (h : Stored partitionOf σ) (hworking : Working self partitionOf σ)
    {t : ℕ} {delivery : Delivery} (htask : σ.Task t delivery)
    (huser : delivery.userCommand = some user) {ws : List Write}
    (hcommits : (self.answerContract delivery).commits σ.wallet.committed ws) {stored : WalletReply}
    (hstored : replyOf (view ws σ.wallet.committed) (.of user.1 user.2) = some stored) :
    σ.FirstAnswer partitionOf (.of user.1 user.2) stored := by
  have hnone := hcommits.2 _ (Delivery.commandId_of_user huser)
  obtain ⟨stored', hstored', hrequest, hstores⟩ := hcommits.1.stores huser hnone
  obtain rfl := Option.some.inj (hstored.symm.trans hstored')
  have hat := (hworking.task_of_user htask huser).2
  refine ⟨_, user, hat, rfl, hrequest, hstores, fun m other hm hat' hid => ?_⟩
  -- An earlier record with the command has been answered from a stored reply.
  obtain ⟨earlier, hearlier, -⟩ := h.answered _ m other hm hat'
  rw [hid] at hearlier
  exact absurd (hnone.symm.trans hearlier) nofun

/-- The commit of a session. -/
theorem Stored.commit (h : Stored partitionOf σ) (hworking : Working self partitionOf σ) {t : ℕ}
    {delivery : Delivery} {next : Tx (List WalletReply)} {ws : List Write}
    (hs : σ.wallet.sessions t = some ⟨delivery, .commit next, ws⟩)
    {wallet : System Stmt WalletRepositoryError (List WalletReply) WalletDb Write Key Delivery}
    (hcommitted : wallet.committed = view ws σ.wallet.committed)
    (hlog : wallet.log = σ.wallet.log ++ [(delivery, ws)]) :
    Stored partitionOf { σ with wallet } := by
  obtain ⟨committed, owner, sessions, log⟩ := wallet
  obtain rfl : committed = view ws σ.wallet.committed := hcommitted
  obtain rfl : log = σ.wallet.log ++ [(delivery, ws)] := hlog
  have hcommits := (hworking.sound t _ hs).commits (reliable_rely _)
  have hgrows := grows_view σ.wallet.committed ws
  have hanswer : ∀ {user}, σ.HasAnswer user →
      ({ σ with wallet := ⟨view ws σ.wallet.committed, owner, sessions,
        σ.wallet.log ++ [(delivery, ws)]⟩ } : Exchange).HasAnswer user := by
    rintro user ⟨stored, hstored, hmem⟩
    exact ⟨stored, replyOf_mono hgrows hstored, hmem⟩
  refine ⟨h.offsets, fun id stored hstored => ?_, fun p n user hn hat => ?_, fun t ht => ?_,
    fun reply hreply => ?_, fun id hspends => ?_, fun message hmessage command hpayload => ?_⟩
  · rcases hcommits.1.replyOf_cases hstored with hold | ⟨-, hid, -⟩
    · exact h.first id stored hold
    · obtain ⟨user, huser, rfl⟩ := user_of_commandId hid
      exact h.first_commit hworking (hworking.tasks t _ hs) huser hcommits hstored
  · exact hanswer (h.answered p n user hn hat)
  · obtain ⟨p, user, ht, hat, hhas⟩ := h.published t ht
    exact ⟨p, user, ht, hat, hanswer hhas⟩
  · obtain ⟨p, n, user, stored, hat, hstored, hreply⟩ := h.replies reply hreply
    exact ⟨p, n, user, stored, hat, replyOf_mono hgrows hstored, hreply⟩
  · refine (h.agrees id hspends).commit hspends hcommits.1 fun hid _ => ?_
    rw [hcommits.2 id hid]
    rfl
  · rcases mem_outbox_view hmessage with hold | hnew
    · obtain ⟨user, stored, hrequest, heffects, hstored, hself⟩ := h.inputs message hold command hpayload
      refine ⟨user, stored, hrequest, fun hnil => heffects ?_, replyOf_mono hgrows hstored, hself⟩
      rw [effects, List.filter_append] at hnil
      exact (List.append_eq_nil_iff.1 hnil).1
    · -- The input is queued by the transaction that stores the reply.
      obtain ⟨heffect, user, huser, hrequest⟩ := hcommits.1.engineInput hnew hpayload
      have hid := Delivery.commandId_of_user huser
      obtain ⟨stored, hstored, hself, -⟩ := hcommits.1.stores huser (hcommits.2 _ hid)
      exact ⟨user, stored, hrequest, effects_append_ne_nil hid heffect, hstored, hself⟩

/-- The replies that a session publishes. -/
theorem Working.replies (h : Working self partitionOf σ) {partition : ℕ} {delivery : Delivery}
    {replies : List WalletReply} {ws : List Write}
    (hs : σ.wallet.sessions (commandTask partition) = some ⟨delivery, .ret (.ok replies), ws⟩) :
    ∃ user stored, σ.At partition (σ.offsets partition) user ∧
      replyOf σ.wallet.committed (.of user.1 user.2) = some stored ∧
      replies = [replyWithRequestId user.2.requestId stored] := by
  obtain ⟨uuid, command, rfl, hcommand⟩ := (h.tasks _ _ hs).command
  obtain ⟨user, huser, -⟩ := h.logged _ _ command hcommand
  have hanswered := (h.sound _ _ hs).result (reliable_rely _)
  obtain ⟨stored, hstored, hreplies⟩ := hanswered user replies huser rfl
  exact ⟨user, stored, ⟨command, hcommand, huser⟩, hstored, hreplies⟩

theorem Stored.step (h : Stored partitionOf σ) (hworking : Working self partitionOf σ)
    (hstep : Step self partitionOf σ a σ') : Stored partitionOf σ' := by
  cases hstep with
  | @submit command kind envelope huser hfresh =>
    refine ⟨fun p => ?_, fun id stored hstored => (h.first id stored hstored).submit huser,
      fun p n user hn hat => ?_, fun t ht => ?_, fun reply hreply => ?_, h.agrees, h.inputs⟩
    · have hle := h.offsets p
      change σ.offsets p ≤ (Function.update σ.commands _ _ p).length
      by_cases hp : p = partitionOf envelope.userId
      · subst hp
        rw [Function.update_self, List.length_append]
        omega
      · rwa [Function.update_of_ne hp]
    · rcases (at_submit huser).1 hat with hat | ⟨-, rfl, -⟩
      · exact h.answered p n user hn hat
      · -- The offset has not passed the new record.
        exact absurd (h.offsets p) (by simpa using hn)
    · obtain ⟨p, user, ht, hat, hhas⟩ := h.published t ht
      exact ⟨p, user, ht, (at_submit huser).2 (.inl hat), hhas⟩
    · obtain ⟨p, n, user, stored, hat, hstored⟩ := h.replies reply hreply
      exact ⟨p, n, user, stored, (at_submit huser).2 (.inl hat), hstored⟩
  | consume hcommand hwallet | consumeEvent hwallet | exec hwallet | rollback hwallet =>
    exact h.work (hwallet.committed_eq (by simp))
  | commit hwallet =>
    cases hwallet with
    | commit hs => exact h.commit hworking hs rfl rfl
  | @stop task wallet hwallet =>
    have hstored := h.work (hwallet.committed_eq (by simp))
    refine ⟨hstored.offsets, hstored.first, hstored.answered, fun t ht => ?_, hstored.replies,
      hstored.agrees, hstored.inputs⟩
    refine hstored.published t ?_
    -- The task that stops has nothing published any more.
    by_cases hne : t = task
    · subst hne
      simp at ht
    · simpa [Function.update_of_ne hne] using ht
  | @publish partition delivery replies ws hs =>
    obtain ⟨user, stored, hat, hstored, rfl⟩ := hworking.replies hs
    have hanswer : ∀ {user : CommandKind × CommandEnvelope} {added : List WalletReply},
        σ.HasAnswer user → ∃ stored, replyOf σ.wallet.committed (.of user.1 user.2) = some stored ∧
          replyWithRequestId user.2.requestId stored ∈ σ.walletReplies ++ added := by
      rintro user added ⟨stored, hstored, hmem⟩
      exact ⟨stored, hstored, List.mem_append_left _ hmem⟩
    refine ⟨h.offsets, h.first, fun p n user hn hat => hanswer (h.answered p n user hn hat),
      fun t ht => ?_, fun reply hreply => ?_, h.agrees, h.inputs⟩
    · by_cases hne : t = commandTask partition
      · exact ⟨partition, user, hne, hat, stored, hstored, List.mem_append_right _ (by simp)⟩
      · simp only [Function.update_of_ne hne] at ht
        obtain ⟨p, user, ht, hat, hhas⟩ := h.published t ht
        exact ⟨p, user, ht, hat, hanswer hhas⟩
    · rcases List.mem_append.1 hreply with hreply | hreply
      · exact h.replies reply hreply
      · exact ⟨partition, _, user, stored, hat, hstored, List.mem_singleton.1 hreply⟩
  | @saveOffset partition wallet hpublished hwallet =>
    have hstored := h.work (hwallet.committed_eq (by simp))
    obtain ⟨p, user, hp, hat, hhas⟩ := hstored.published _ hpublished
    obtain rfl := commandTask_inj hp
    refine ⟨fun p => ?_, hstored.first, fun p n user' hn hat' => ?_, fun t ht => ?_,
      hstored.replies, hstored.agrees, hstored.inputs⟩
    · by_cases hp : p = partition
      · subst hp
        have hlt := hat.lt_length
        simpa using hlt
      · simpa [Function.update_of_ne hp] using hstored.offsets p
    · by_cases hp : p = partition
      · subst hp
        simp only [Function.update_self] at hn
        rcases Nat.lt_succ_iff_lt_or_eq.1 hn with hlt | rfl
        · exact hstored.answered p n user' hlt hat'
        · -- The record whose offset is saved is the one that was answered.
          obtain rfl := At.unique hat hat'
          exact hhas
      · simp only [Function.update_of_ne hp] at hn
        exact hstored.answered p n user' hn hat'
    · by_cases hne : t = commandTask partition
      · subst hne
        simp at ht
      · simp only [Function.update_of_ne hne] at ht
        obtain ⟨q, user', rfl, hat', hhas'⟩ := hstored.published t ht
        have hq : q ≠ partition := by
          rintro rfl
          exact hne rfl
        have hsame : Function.update σ.offsets partition (σ.offsets partition + 1) q = σ.offsets q :=
          Function.update_of_ne hq _ _
        refine ⟨q, user', rfl, ?_, hhas'⟩
        change σ.At q (Function.update σ.offsets partition _ q) user'
        rw [hsame]
        exact hat'
  | submitFailed | relay | answer | readWalletReply | readEngineReply =>
    exact ⟨h.offsets, h.first, h.answered, h.published, h.replies, h.agrees, h.inputs⟩

/-! ## The records of the server -/

@[simp] theorem walletReplyRequestId_replyWithRequestId (requestId : String) (reply : WalletReply) :
    walletReplyRequestId (replyWithRequestId requestId reply) = requestId := by
  cases reply <;> rfl

/-- The results that the server has processed for a command. -/
structure Followed (σ : Exchange) (user : CommandKind × CommandEnvelope) (channel : ℕ)
    (results : List ReplyResult) : Prop where
  tracks : Tracks user.2.requestId user.2.userId (requestKind user.1) channel results σ.server
  sources : ∀ result ∈ results,
    (∃ reply ∈ σ.walletReplies, walletReplyRequestId reply = user.2.requestId ∧
      result = .wallet reply) ∨
    ∃ reply ∈ σ.engineReplies, engineReplyRequestId reply = user.2.requestId ∧
      result = .engine reply
  read : ∀ (n : ℕ) reply, n < σ.walletRepliesRead → σ.walletReplies[n]? = some reply →
    walletReplyRequestId reply = user.2.requestId → .wallet reply ∈ results

/-- The topics the server reads, and the records it keeps. -/
structure Served (σ : Exchange) : Prop where
  fresh : Fresh σ.server
  read : σ.walletRepliesRead ≤ σ.walletReplies.length
  engineInputs : ∀ command ∈ σ.engineInputs, ∃ message ∈ σ.wallet.committed.walletOutbox.rows,
    message.payload = .engineCommand command
  engineReplies : ∀ reply ∈ σ.engineReplies, ∃ command ∈ σ.engineInputs,
    engineInputRequestId command = some (engineReplyRequestId reply)
  followed : ∀ p n user, σ.At p n user → ∃ channel results, σ.Followed user channel results

/-- A step of the server that brings no result for a request. -/
theorem tracks_apply_none {requestId : String} {userId : ℤ} {kind : RequestKind} {channel : ℕ}
    {results : List ReplyResult} {server : ReplyState}
    (h : Tracks requestId userId kind channel results server) {action : ReplyAction}
    (hkeeps : ¬action.Resets requestId) (hnone : action.result? requestId = none) :
    Tracks requestId userId kind channel results (server.apply action) := by
  have htracks := tracks_apply h hkeeps
  rwa [hnone, Option.toList_none, List.append_nil] at htracks

/-- A step that the server takes no part in. -/
theorem Served.followed_of_same (h : Served σ) {p n : ℕ} (hat : σ.At p n user)
    (hserver : σ'.server = σ.server) (hreplies : σ'.walletReplies = σ.walletReplies)
    (hread : σ'.walletRepliesRead = σ.walletRepliesRead)
    (hengine : σ'.engineReplies = σ.engineReplies) :
    ∃ channel results, σ'.Followed user channel results := by
  obtain ⟨channel, results, hfollowed⟩ := h.followed p n user hat
  refine ⟨channel, results, ?_, ?_, ?_⟩
  · rw [hserver]
    exact hfollowed.tracks
  · rw [hreplies, hengine]
    exact hfollowed.sources
  · rw [hread, hreplies]
    exact hfollowed.read

theorem Served.wallet (h : Served σ)
    {wallet : System Stmt WalletRepositoryError (List WalletReply) WalletDb Write Key Delivery}
    (hgrows : σ.wallet.committed.Grows wallet.committed) : Served { σ with wallet } where
  fresh := h.fresh
  read := h.read
  engineInputs command hcommand := by
    obtain ⟨message, hmessage, hpayload⟩ := h.engineInputs command hcommand
    have hfind := hgrows.outbox _ _ (Table.find?_of_mem hmessage)
    exact ⟨message, Table.mem_of_find? hfind, hpayload⟩
  engineReplies := h.engineReplies
  followed p n user hat := h.followed_of_same hat rfl rfl rfl rfl

/-- Every step of the wallet lets its data grow. -/
theorem grows_wallet
    {wallet : System Stmt WalletRepositoryError (List WalletReply) WalletDb Write Key Delivery}
    {act : Action Delivery} (hwallet : System.Step self.answer σ.wallet act wallet) :
    σ.wallet.committed.Grows wallet.committed := by
  cases hwallet with
  | commit hs => exact grows_view _ _
  | _ => exact .refl _

theorem Served.step (h : Served σ) (hrecorded : Recorded σ) (hstored : Stored partitionOf σ)
    (hstep : Step self partitionOf σ a σ') : Served σ' := by
  cases hstep with
  | @submit command kind envelope huser hfresh =>
    refine ⟨fresh_apply h.fresh (.registerWaiter _ _ _), h.read, h.engineInputs, h.engineReplies,
      fun p n user hat => ?_⟩
    rcases (at_submit huser).1 hat with hat | ⟨-, -, rfl⟩
    · have hne : user.2.requestId ≠ envelope.requestId := by
        intro heq
        exact hfresh (heq ▸ hrecorded.fresh p n user hat)
      have hkeeps : ¬(ReplyAction.registerWaiter envelope.requestId envelope.userId
          (requestKind kind)).Resets user.2.requestId := fun heq => hne heq.symm
      obtain ⟨channel, results, hfollowed⟩ := h.followed p n user hat
      exact ⟨channel, results, tracks_apply_none hfollowed.tracks hkeeps rfl, hfollowed.sources,
        hfollowed.read⟩
    · refine ⟨σ.server.channels, [], tracks_register h.fresh, nofun, fun n reply hn hreply hid => ?_⟩
      -- A published reply belongs to an earlier request.
      obtain ⟨p, m, user, stored, hat, -, rfl⟩ := hstored.replies reply (List.mem_of_getElem? hreply)
      rw [walletReplyRequestId_replyWithRequestId] at hid
      exact absurd (hid ▸ hrecorded.fresh p m user hat) hfresh
  | @submitFailed command kind envelope huser hfresh =>
    have hregistered := fresh_apply h.fresh
      (.registerWaiter envelope.requestId envelope.userId (requestKind kind))
    refine ⟨fresh_apply hregistered (.remove envelope.requestId), h.read, h.engineInputs,
      h.engineReplies, fun p n user hat => ?_⟩
    -- The waiter that comes and goes is that of another request.
    have hne : user.2.requestId ≠ envelope.requestId := by
      intro heq
      exact hfresh (heq ▸ hrecorded.fresh p n user hat)
    obtain ⟨channel, results, hfollowed⟩ := h.followed p n user hat
    have hkeeps : ¬(ReplyAction.registerWaiter envelope.requestId envelope.userId
        (requestKind kind)).Resets user.2.requestId := fun heq => hne heq.symm
    have hkeeps' : ¬(ReplyAction.remove envelope.requestId).Resets user.2.requestId :=
      fun heq => hne heq.symm
    have htracks := tracks_apply_none (tracks_apply_none hfollowed.tracks hkeeps rfl) hkeeps' rfl
    exact ⟨channel, results, htracks, hfollowed.sources, hfollowed.read⟩
  | consume hcommand hwallet | consumeEvent hwallet | exec hwallet | rollback hwallet
  | commit hwallet => exact h.wallet (grows_wallet hwallet)
  | stop hwallet | saveOffset hpublished hwallet =>
    have hserved := h.wallet (grows_wallet hwallet)
    exact ⟨hserved.fresh, hserved.read, hserved.engineInputs, hserved.engineReplies,
      fun p n user hat => hserved.followed_of_same hat rfl rfl rfl rfl⟩
  | @publish partition delivery replies ws hs =>
    refine ⟨h.fresh, ?_, h.engineInputs, h.engineReplies, fun p n user hat => ?_⟩
    · have hread := h.read
      simp only [List.length_append]
      omega
    · obtain ⟨channel, results, hfollowed⟩ := h.followed p n user hat
      refine ⟨channel, results, hfollowed.tracks, fun result hresult => ?_, fun m reply hm hreply => ?_⟩
      · rcases hfollowed.sources result hresult with ⟨reply, hreply, hid⟩ | hengine
        · exact .inl ⟨reply, List.mem_append_left _ hreply, hid⟩
        · exact .inr hengine
      · -- The server has read none of the new replies.
        have hread := h.read
        refine hfollowed.read m reply hm ?_
        rwa [List.getElem?_append_left (show m < σ.walletReplies.length by
          change m < σ.walletRepliesRead at hm
          omega)] at hreply
  | @relay dedupeKey message command hmessage hpayload =>
    refine ⟨h.fresh, h.read, fun input hinput => ?_, fun reply hreply => ?_, fun p n user hat => ?_⟩
    · rcases List.mem_append.1 hinput with hinput | hinput
      · exact h.engineInputs input hinput
      · rw [List.mem_singleton.1 hinput]
        exact ⟨message, Table.mem_of_find? hmessage, hpayload⟩
    · obtain ⟨input, hinput, hid⟩ := h.engineReplies reply hreply
      exact ⟨input, List.mem_append_left _ hinput, hid⟩
    · exact h.followed_of_same hat rfl rfl rfl rfl
  | @answer reply command hcommand hrequest =>
    refine ⟨h.fresh, h.read, h.engineInputs, fun reply' hreply' => ?_, fun p n user hat => ?_⟩
    · rcases List.mem_append.1 hreply' with hreply' | hreply'
      · exact h.engineReplies reply' hreply'
      · rw [List.mem_singleton.1 hreply']
        exact ⟨command, List.mem_of_getElem? hcommand, hrequest⟩
    · obtain ⟨channel, results, hfollowed⟩ := h.followed p n user hat
      refine ⟨channel, results, hfollowed.tracks, fun result hresult => ?_, hfollowed.read⟩
      rcases hfollowed.sources result hresult with hwallet | ⟨reply', hreply', hid⟩
      · exact .inl hwallet
      · exact .inr ⟨reply', List.mem_append_left _ hreply', hid⟩
  | @readWalletReply reply hreply =>
    refine ⟨fresh_apply h.fresh (.resolveWalletReply reply), ?_, h.engineInputs, h.engineReplies,
      fun p n user hat => ?_⟩
    · exact (List.getElem?_eq_some_iff.1 hreply).1
    · obtain ⟨channel, results, hfollowed⟩ := h.followed p n user hat
      have hkeeps : ¬(ReplyAction.resolveWalletReply reply).Resets user.2.requestId := id
      have htracks := tracks_apply hfollowed.tracks hkeeps
      refine ⟨channel, _, htracks, fun result hresult => ?_, fun m reply' hm hreply' hid => ?_⟩
      · rcases List.mem_append.1 hresult with hresult | hresult
        · exact hfollowed.sources result hresult
        · obtain ⟨hid, rfl⟩ : walletReplyRequestId reply = user.2.requestId ∧
              .wallet reply = result := by
            simpa [ReplyAction.result?] using hresult
          exact .inl ⟨reply, List.mem_of_getElem? hreply, hid, rfl⟩
      · rcases Nat.lt_succ_iff_lt_or_eq.1 hm with hlt | rfl
        · exact List.mem_append_left _ (hfollowed.read m reply' hlt hreply' hid)
        · obtain rfl := Option.some.inj (hreply.symm.trans hreply')
          exact List.mem_append_right _ (by simp [ReplyAction.result?, hid])
  | @readEngineReply reply hreply =>
    refine ⟨fresh_apply h.fresh (.resolveEngineReply reply), h.read, h.engineInputs,
      h.engineReplies, fun p n user hat => ?_⟩
    obtain ⟨channel, results, hfollowed⟩ := h.followed p n user hat
    have hkeeps : ¬(ReplyAction.resolveEngineReply reply).Resets user.2.requestId := id
    have htracks := tracks_apply hfollowed.tracks hkeeps
    refine ⟨channel, _, htracks, fun result hresult => ?_, fun m reply' hm hreply' hid => ?_⟩
    · rcases List.mem_append.1 hresult with hresult | hresult
      · exact hfollowed.sources result hresult
      · obtain ⟨hid, rfl⟩ : engineReplyRequestId reply = user.2.requestId ∧
            .engine reply = result := by
          simpa [ReplyAction.result?] using hresult
        exact .inr ⟨reply, List.mem_of_getElem? hreply, hid, rfl⟩
    · exact List.mem_append_left _ (hfollowed.read m reply' hm hreply' hid)

/-! ## Every state of a run -/

/-- What holds in every state. -/
structure Consistent (processor : WalletProcessor) (partitionOf : ℤ → ℕ) (σ : Exchange) : Prop where
  working : Working processor partitionOf σ
  recorded : Recorded σ
  stored : Stored partitionOf σ
  served : Served σ

theorem not_at_initial {users : List ℤ} {p n : ℕ} : ¬(initial users).At p n user := by
  rintro ⟨command, hcommand, -⟩
  simp [initial] at hcommand

theorem replyOf_initial (users : List ℤ) (id : CommandId) :
    replyOf (initial users).wallet.committed id = none := rfl

theorem consistent_initial (users : List ℤ) : Consistent self partitionOf (initial users) where
  working :=
    { owned := System.owned_initial _
      sound := fun _ _ hs => nomatch hs
      tasks := fun _ _ hs => nomatch hs
      logged := fun p n command hcommand => by simp [initial] at hcommand }
  recorded :=
    { fresh := fun _ _ _ hat => absurd hat not_at_initial
      distinct := fun _ _ _ _ _ _ hat => absurd hat not_at_initial }
  stored :=
    { offsets := fun _ => Nat.le_refl _
      first := fun id stored h => by
        rw [replyOf_initial] at h
        cases h
      answered := fun _ _ _ _ hat => absurd hat not_at_initial
      published := fun t ht => by cases ht
      replies := fun _ hreply => absurd hreply List.not_mem_nil
      agrees := fun id _ => by
        unfold Agrees
        rw [replyOf_initial]
        rfl
      inputs := fun _ hmessage => absurd hmessage List.not_mem_nil }
  served :=
    { fresh := fresh_default
      read := Nat.le_refl _
      engineInputs := fun _ hcommand => absurd hcommand List.not_mem_nil
      engineReplies := fun _ hreply => absurd hreply List.not_mem_nil
      followed := fun _ _ _ hat => absurd hat not_at_initial }

theorem consistent_of_run {users : List ℤ} {actions : List ExchangeAction}
    (h : run self partitionOf users actions = some σ) : Consistent self partitionOf σ :=
  inv_of_run (fun hσ hstep => ⟨hσ.working.step hstep, hσ.recorded.step hstep,
    hσ.stored.step hσ.working hstep, hσ.served.step hσ.recorded hσ.stored hstep⟩) h
    (consistent_initial users)

/-- The reply of the wallet to a record is the stored one. -/
theorem Consistent.walletReply (h : Consistent self partitionOf σ) {p n : ℕ} (hat : σ.At p n user)
    {stored : WalletReply} (hstored : replyOf σ.wallet.committed (.of user.1 user.2) = some stored)
    {reply : WalletReply} (hreply : reply ∈ σ.walletReplies)
    (hid : walletReplyRequestId reply = user.2.requestId) :
    reply = replyWithRequestId user.2.requestId stored := by
  obtain ⟨p', n', user', stored', hat', hstored', rfl⟩ := h.stored.replies reply hreply
  rw [walletReplyRequestId_replyWithRequestId] at hid
  obtain ⟨rfl, rfl⟩ := h.recorded.distinct p' n' user' p n user hat' hat hid
  obtain rfl := hat'.unique hat
  rw [Option.some.inj (hstored.symm.trans hstored')]

/-- The engine answers only the first record of a command, and only for an effect. -/
theorem Consistent.engineReply (h : Consistent self partitionOf σ) {p n : ℕ} (hat : σ.At p n user)
    {reply : EngineReply} (hreply : reply ∈ σ.engineReplies)
    (hid : engineReplyRequestId reply = user.2.requestId) :
    effects σ.wallet.log (.of user.1 user.2) ≠ [] ∧
      ∀ m other, m < n → σ.At p m other →
        CommandId.of other.1 other.2 ≠ CommandId.of user.1 user.2 := by
  obtain ⟨command, hcommand, hrequest⟩ := h.served.engineReplies reply hreply
  obtain ⟨message, hmessage, hpayload⟩ := h.served.engineInputs command hcommand
  obtain ⟨user', stored, hrequest', heffects, hstored, hself⟩ :=
    h.stored.inputs message hmessage command hpayload
  obtain ⟨n', first, hat', hsame, hself', -, hfirst⟩ := h.stored.first _ stored hstored
  have hfirstId : first.2.requestId = user.2.requestId := by
    have hstoredId := congrArg walletReplyRequestId (hself'.trans hself.symm)
    rw [walletReplyRequestId_replyWithRequestId, walletReplyRequestId_replyWithRequestId] at hstoredId
    have huserId := Option.some.inj (hrequest'.symm.trans hrequest)
    rw [hstoredId, huserId, hid]
  obtain ⟨rfl, rfl⟩ := h.recorded.distinct _ n' first p n user hat' hat hfirstId
  obtain rfl := hat'.unique hat
  rw [hsame]
  exact ⟨heffects, hfirst⟩

end Exchange

end Server
