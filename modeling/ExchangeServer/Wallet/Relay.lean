import ExchangeServer.Foundation.Machine
import ExchangeServer.Wallet.Database
import Mathlib.Data.List.Sort

/-!
# The outbox relay

The rows of `wallet_outbox` with all columns that the relay reads or writes, the
statements that claim, mark and requeue them, and the loop of a relay as one step
at a time: requeue what is stale, claim a batch, and for each claimed message
publish it and mark its row. Any number of relays work on one table, wallet
transactions insert rows between their steps, and a relay may stop anywhere. A
statement that the database refuses ends the relay as well.

Time is the reading of the database clock that each statement uses. The order in
which `UPDATE .. RETURNING` lists the claimed rows, the rows that other
transactions hold locked, and the partition the producer picks for a key are
open; the broker keeps one list of records for each topic and partition. Metrics
are only read and are left out.
-/

namespace Wallet

open Protocol Relational

/-! ## Rows -/

inductive OutboxStatus
  | PENDING | PROCESSING | PUBLISHED
  deriving DecidableEq

/-- The largest value of an `INTEGER` column. -/
def i32Max : ℕ := 2 ^ 31 - 1

/-- A row of `wallet_outbox`. -/
structure OutboxRow where
  outboxId : ℕ
  message : NewWalletOutboxMessage
  status : OutboxStatus
  attempts : ℕ
  nextAttemptAt : ℤ
  lastError : Option String
  publishedPartition : Option ℕ
  publishedOffset : Option ℕ
  publishedAt : Option ℤ
  updatedAt : ℤ
  attemptsLe : attempts ≤ i32Max
  deriving DecidableEq

namespace OutboxRow

/-- A row as a wallet transaction inserts it. -/
def new (outboxId : ℕ) (message : NewWalletOutboxMessage) (now : ℤ) : OutboxRow where
  outboxId := outboxId
  message := message
  status := .PENDING
  attempts := 0
  nextAttemptAt := now
  lastError := none
  publishedPartition := none
  publishedOffset := none
  publishedAt := none
  updatedAt := now
  attemptsLe := Nat.zero_le _

/-- The `SET` list of `CLAIM_OUTBOX_MESSAGES_SQL`. -/
def claim (row : OutboxRow) (now : ℤ) : OutboxRow :=
  if h : row.attempts < i32Max then
    { row with status := .PROCESSING, attempts := row.attempts + 1, updatedAt := now, attemptsLe := h }
  else row

/-- The `SET` list of `MARK_OUTBOX_PUBLISHED_SQL`. -/
def markPublished (row : OutboxRow) (partition offset : ℕ) (now : ℤ) : OutboxRow :=
  { row with
    status := .PUBLISHED
    publishedPartition := some partition
    publishedOffset := some offset
    lastError := none
    publishedAt := some now
    updatedAt := now }

/-- The `SET` list of `MARK_OUTBOX_PENDING_SQL`. -/
def markPending (row : OutboxRow) (error : String) (now : ℤ) : OutboxRow :=
  { row with
    status := .PENDING
    lastError := some error
    nextAttemptAt := now + 5
    updatedAt := now }

/-- `REQUEUE_STALE_OUTBOX_MESSAGES_SQL`, row by row. -/
def requeue (row : OutboxRow) (staleAfterSeconds now : ℤ) : OutboxRow :=
  if row.status = .PROCESSING ∧ row.updatedAt ≤ now - staleAfterSeconds then
    { row with
      status := .PENDING
      lastError := some "requeued stale PROCESSING message"
      nextAttemptAt := now
      updatedAt := now }
  else row

@[simp] theorem outboxId_claim (row : OutboxRow) (now : ℤ) :
    (row.claim now).outboxId = row.outboxId := by
  unfold claim
  split <;> rfl

@[simp] theorem message_claim (row : OutboxRow) (now : ℤ) :
    (row.claim now).message = row.message := by
  unfold claim
  split <;> rfl

@[simp] theorem outboxId_markPublished (row : OutboxRow) (partition offset : ℕ) (now : ℤ) :
    (row.markPublished partition offset now).outboxId = row.outboxId := rfl

@[simp] theorem outboxId_markPending (row : OutboxRow) (error : String) (now : ℤ) :
    (row.markPending error now).outboxId = row.outboxId := rfl

@[simp] theorem outboxId_requeue (row : OutboxRow) (staleAfterSeconds now : ℤ) :
    (row.requeue staleAfterSeconds now).outboxId = row.outboxId := by
  unfold requeue
  split <;> rfl

@[simp] theorem message_requeue (row : OutboxRow) (staleAfterSeconds now : ℤ) :
    (row.requeue staleAfterSeconds now).message = row.message := by
  unfold requeue
  split <;> rfl

@[simp] theorem attempts_requeue (row : OutboxRow) (staleAfterSeconds now : ℤ) :
    (row.requeue staleAfterSeconds now).attempts = row.attempts := by
  unfold requeue
  split <;> rfl

theorem claim_of_lt {row : OutboxRow} (h : row.attempts < i32Max) {now : ℤ} :
    row.claim now = { row with
      status := .PROCESSING, attempts := row.attempts + 1, updatedAt := now, attemptsLe := h } := by
  rw [claim, dif_pos h]

/-- The requeue leaves no PUBLISHED row that it did not find. -/
theorem requeue_of_published {row : OutboxRow} {staleAfterSeconds now : ℤ}
    (h : (row.requeue staleAfterSeconds now).status = .PUBLISHED) :
    row.requeue staleAfterSeconds now = row := by
  unfold requeue at h ⊢
  split
  · next hstale =>
    rw [if_pos hstale] at h
    cases h
  · rfl

theorem requeue_of_processing {row : OutboxRow} {staleAfterSeconds now : ℤ}
    (h : (row.requeue staleAfterSeconds now).status = .PROCESSING) :
    row.requeue staleAfterSeconds now = row := by
  unfold requeue at h ⊢
  split
  · next hstale =>
    rw [if_pos hstale] at h
    cases h
  · rfl

end OutboxRow

/-- The table `wallet_outbox`. -/
abbrev OutboxTable := Table OutboxRow.outboxId

/-- A claimed message, as `claim_outbox_messages` returns it. -/
structure WalletOutboxMessage where
  outboxId : ℕ
  message : NewWalletOutboxMessage
  attempts : ℕ
  deriving DecidableEq

def outboxMessageFromRow (row : OutboxRow) : WalletOutboxMessage where
  outboxId := row.outboxId
  message := row.message
  attempts := row.attempts

/-! ## The claim -/

/-- The rows that are due and not locked, by `outbox_id`. -/
def dueRows (table : OutboxTable) (now : ℤ) (locked : List ℕ) : List OutboxRow :=
  (table.rows.filter fun row =>
    row.status = .PENDING ∧ row.nextAttemptAt ≤ now ∧ row.outboxId ∉ locked).insertionSort
      fun a b => a.outboxId ≤ b.outboxId

/-- The rows of the common table expression `claimed`. -/
def claimable (table : OutboxTable) (now : ℤ) (limit : ℕ) (locked : List ℕ) : List OutboxRow :=
  (dueRows table now locked).take limit

/-- The table after a claim of the rows with these ids. -/
def claimRows (table : OutboxTable) (now : ℤ) (ids : List ℕ) : OutboxTable :=
  table.map (fun row => if row.outboxId ∈ ids then row.claim now else row) fun row => by
    split <;> simp

/-! ## Relays -/

structure RelaySettings where
  walletEventsTopic : String
  engineInputTopic : String
  batchLimit : ℕ
  staleAfterSeconds : ℤ

/-- Where a relay is in its loop. -/
inductive RelayState
  /-- at the top of the loop -/
  | polling
  /-- stale rows are requeued, a batch is to be claimed -/
  | requeued
  /-- the first of the messages is to be published -/
  | sending (message : WalletOutboxMessage) (rest : List WalletOutboxMessage)
  /-- the broker has stored the message, its row is to be marked -/
  | accepted (message : WalletOutboxMessage) (partition offset : ℕ)
    (rest : List WalletOutboxMessage)
  /-- publishing has failed, the row is to be marked -/
  | failed (message : WalletOutboxMessage) (error : String) (rest : List WalletOutboxMessage)

/-- The next message of a batch, or the next round. -/
def RelayState.next : List WalletOutboxMessage → RelayState
  | [] => .polling
  | message :: rest => .sending message rest

/-- The messages of a batch that are not marked yet. -/
def RelayState.batch : RelayState → List WalletOutboxMessage
  | polling | requeued => []
  | sending message rest | accepted message _ _ rest | failed message _ rest => message :: rest

@[simp] theorem RelayState.batch_next (messages : List WalletOutboxMessage) :
    (RelayState.next messages).batch = messages := by
  cases messages <;> rfl

/-- A record as the broker stores it. -/
structure BrokerRecord where
  key : String
  value : OutboxPayload
  deriving DecidableEq

/-- The record of a message. -/
def NewWalletOutboxMessage.record (message : NewWalletOutboxMessage) : BrokerRecord where
  key := message.messageKey
  value := message.payload

/-- What has happened to rows so far. -/
inductive OutboxEvent
  | inserted (outboxId : ℕ)
  | claimed (outboxId : ℕ)
  | published (outboxId : ℕ)
  deriving DecidableEq

/-- The outbox, the broker, the relays, and the history of the rows. -/
structure RelaySystem where
  outbox : OutboxTable
  broker : String → ℕ → List BrokerRecord
  relays : ℕ → Option RelayState
  history : List OutboxEvent

inductive RelayAction
  /-- a wallet transaction that inserts a message commits -/
  | insert (outboxId : ℕ) (message : NewWalletOutboxMessage) (now : ℤ)
  | start (relay : ℕ)
  | requeue (relay : ℕ) (now : ℤ)
  /-- `returned` lists the claimed rows in the order of `RETURNING` -/
  | claim (relay : ℕ) (now : ℤ) (locked returned : List ℕ)
  | publish (relay partition : ℕ)
  /-- a publication that fails may have reached the broker all the same -/
  | publishFails (relay : ℕ) (error : String) (stored : Option ℕ)
  | markPublished (relay : ℕ) (now : ℤ)
  | markPending (relay : ℕ) (now : ℤ)
  | crash (relay : ℕ)

namespace RelaySystem

/-- The empty outbox. -/
def initial : RelaySystem where
  outbox := .empty
  broker := fun _ _ => []
  relays := fun _ => none
  history := []

/-- The system with a relay at another place of its loop. -/
def setRelay (σ : RelaySystem) (relay : ℕ) (state : Option RelayState) : RelaySystem :=
  { σ with relays := Function.update σ.relays relay state }

/-- The system after the broker has stored a record. -/
def store (σ : RelaySystem) (topic : String) (partition : ℕ) (record : BrokerRecord) :
    RelaySystem :=
  { σ with
    broker := fun t p =>
      if t = topic ∧ p = partition then σ.broker t p ++ [record] else σ.broker t p }

/-- The producer may send a message to a partition. -/
def mayPublish (settings : RelaySettings) (message : NewWalletOutboxMessage) (partition : ℕ) : Bool :=
  (message.topic = settings.walletEventsTopic || message.topic = settings.engineInputTopic) &&
    message.partition.all fun p => p = (partition : ℤ)

/-- The effect of an action, if it is possible now. -/
def step (settings : RelaySettings) (σ : RelaySystem) : RelayAction → Option RelaySystem
  | .insert outboxId message now =>
    -- `BIGSERIAL` and `UNIQUE` over the dedupe keys
    if (σ.outbox.find? outboxId).isNone ∧
        ∀ row ∈ σ.outbox.rows, row.message.dedupeKey ≠ message.dedupeKey then
      some { σ with
        outbox := σ.outbox.insert (.new outboxId message now)
        history := σ.history ++ [.inserted outboxId] }
    else none
  | .start relay =>
    match σ.relays relay with
    | none => some (σ.setRelay relay (some .polling))
    | some _ => none
  | .requeue relay now =>
    match σ.relays relay with
    | some .polling =>
      some { σ.setRelay relay (some .requeued) with
        outbox := σ.outbox.map (fun row => row.requeue settings.staleAfterSeconds now)
          fun row => row.outboxId_requeue settings.staleAfterSeconds now }
    | _ => none
  | .claim relay now locked returned =>
    match σ.relays relay with
    | some .requeued =>
      let claimed := claimable σ.outbox now settings.batchLimit locked
      if returned.Perm (claimed.map OutboxRow.outboxId) then
        -- A counter out of range refuses the statement.
        if ∀ row ∈ claimed, row.attempts < i32Max then
          let outbox := claimRows σ.outbox now returned
          some { σ.setRelay relay (some (.next
              ((returned.filterMap outbox.find?).map outboxMessageFromRow))) with
            outbox
            history := σ.history ++ returned.map .claimed }
        else some (σ.setRelay relay none)
      else none
    | _ => none
  | .publish relay partition =>
    match σ.relays relay with
    | some (.sending message rest) =>
      if mayPublish settings message.message partition then
        some { (σ.store message.message.topic partition message.message.record).setRelay relay
            (some (.accepted message partition
              (σ.broker message.message.topic partition).length rest)) with
          history := σ.history ++ [.published message.outboxId] }
      else none
    | _ => none
  | .publishFails relay error stored =>
    match σ.relays relay with
    | some (.sending message rest) =>
      match stored with
      | none => some (σ.setRelay relay (some (.failed message error rest)))
      -- The broker may have stored a record that it has not confirmed.
      | some partition =>
        if mayPublish settings message.message partition then
          some ((σ.store message.message.topic partition message.message.record).setRelay relay
            (some (.failed message error rest)))
        else none
    | _ => none
  | .markPublished relay now =>
    match σ.relays relay with
    | some (.accepted message partition offset rest) =>
      some { σ.setRelay relay (some (.next rest)) with
        outbox := σ.outbox.modify message.outboxId (fun row => row.markPublished partition offset now)
          fun row => row.outboxId_markPublished partition offset now }
    | _ => none
  | .markPending relay now =>
    match σ.relays relay with
    | some (.failed message error rest) =>
      some { σ.setRelay relay (some (.next rest)) with
        outbox := σ.outbox.modify message.outboxId (fun row => row.markPending error now)
          fun row => row.outboxId_markPending error now }
    | _ => none
  | .crash relay =>
    match σ.relays relay with
    | some _ => some (σ.setRelay relay none)
    | none => none

/-- Everything a step can do. -/
inductive Step (settings : RelaySettings) (σ : RelaySystem) : RelayAction → RelaySystem → Prop
  | insert {outboxId message now} (hid : σ.outbox.find? outboxId = none)
    (hkey : ∀ row ∈ σ.outbox.rows, row.message.dedupeKey ≠ message.dedupeKey) :
    Step settings σ (.insert outboxId message now)
      { σ with
        outbox := σ.outbox.insert (.new outboxId message now)
        history := σ.history ++ [.inserted outboxId] }
  | start {relay} (hr : σ.relays relay = none) :
    Step settings σ (.start relay) (σ.setRelay relay (some .polling))
  | requeue {relay now} (hr : σ.relays relay = some .polling) :
    Step settings σ (.requeue relay now)
      { σ.setRelay relay (some .requeued) with
        outbox := σ.outbox.map (fun row => row.requeue settings.staleAfterSeconds now)
          fun row => row.outboxId_requeue settings.staleAfterSeconds now }
  | claim {relay now locked returned} (hr : σ.relays relay = some .requeued)
    (hreturned : returned.Perm
      ((claimable σ.outbox now settings.batchLimit locked).map OutboxRow.outboxId))
    (hattempts : ∀ row ∈ claimable σ.outbox now settings.batchLimit locked, row.attempts < i32Max) :
    Step settings σ (.claim relay now locked returned)
      { σ.setRelay relay (some (.next ((returned.filterMap
          (claimRows σ.outbox now returned).find?).map outboxMessageFromRow))) with
        outbox := claimRows σ.outbox now returned
        history := σ.history ++ returned.map .claimed }
  | claimRefused {relay now locked returned} (hr : σ.relays relay = some .requeued) :
    Step settings σ (.claim relay now locked returned) (σ.setRelay relay none)
  | publish {relay partition message rest} (hr : σ.relays relay = some (.sending message rest)) :
    Step settings σ (.publish relay partition)
      { (σ.store message.message.topic partition message.message.record).setRelay relay
          (some (.accepted message partition
            (σ.broker message.message.topic partition).length rest)) with
        history := σ.history ++ [.published message.outboxId] }
  | publishFails {relay error message rest} (hr : σ.relays relay = some (.sending message rest)) :
    Step settings σ (.publishFails relay error none)
      (σ.setRelay relay (some (.failed message error rest)))
  | publishLost {relay error partition message rest}
    (hr : σ.relays relay = some (.sending message rest)) :
    Step settings σ (.publishFails relay error (some partition))
      ((σ.store message.message.topic partition message.message.record).setRelay relay
        (some (.failed message error rest)))
  | markPublished {relay now message partition offset rest}
    (hr : σ.relays relay = some (.accepted message partition offset rest)) :
    Step settings σ (.markPublished relay now)
      { σ.setRelay relay (some (.next rest)) with
        outbox := σ.outbox.modify message.outboxId (fun row => row.markPublished partition offset now)
          fun row => row.outboxId_markPublished partition offset now }
  | markPending {relay now message error rest}
    (hr : σ.relays relay = some (.failed message error rest)) :
    Step settings σ (.markPending relay now)
      { σ.setRelay relay (some (.next rest)) with
        outbox := σ.outbox.modify message.outboxId (fun row => row.markPending error now)
          fun row => row.outboxId_markPending error now }
  | crash {relay state} (hr : σ.relays relay = some state) :
    Step settings σ (.crash relay) (σ.setRelay relay none)

theorem step_cases {settings : RelaySettings} {σ σ' : RelaySystem} {a : RelayAction}
    (h : σ.step settings a = some σ') : Step settings σ a σ' := by
  cases a with
  | insert outboxId message now =>
    simp only [step, Option.isNone_iff_eq_none] at h
    split at h
    · next hfree =>
      cases h
      exact .insert hfree.1 hfree.2
    · cases h
  | start relay =>
    simp only [step] at h
    split at h
    · next hr =>
      cases h
      exact .start hr
    · cases h
  | requeue relay now =>
    simp only [step] at h
    split at h
    · next hr =>
      cases h
      exact .requeue hr
    · cases h
  | claim relay now locked returned =>
    simp only [step] at h
    split at h
    · next hr =>
      split at h
      · next hreturned =>
        split at h
        · next hattempts =>
          cases h
          exact .claim hr hreturned hattempts
        · cases h
          exact .claimRefused hr
      · cases h
    · cases h
  | publish relay partition =>
    simp only [step] at h
    split at h
    · next message rest hr =>
      split at h
      · cases h
        exact .publish hr
      · cases h
    · cases h
  | publishFails relay error stored =>
    simp only [step] at h
    split at h
    · next message rest hr =>
      split at h
      · cases h
        exact .publishFails hr
      · split at h
        · cases h
          exact .publishLost hr
        · cases h
    · cases h
  | markPublished relay now =>
    simp only [step] at h
    split at h
    · next hr =>
      cases h
      exact .markPublished hr
    · cases h
  | markPending relay now =>
    simp only [step] at h
    split at h
    · next hr =>
      cases h
      exact .markPending hr
    · cases h
  | crash relay =>
    simp only [step] at h
    split at h
    · next hr =>
      cases h
      exact .crash hr
    · cases h

/-- The effect of a run on the empty outbox. -/
def runAll (settings : RelaySettings) (actions : List RelayAction) : Option RelaySystem :=
  Machine.run (step settings) initial actions

end RelaySystem

end Wallet
