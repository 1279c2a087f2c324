import ExchangeServer.Wallet.AccountDeltas
import ExchangeServer.Wallet.Relay
import Mathlib.Data.List.Dedup
import Mathlib.Data.List.Induction

/-!
# Enqueueing into the outbox

The table `wallet_outbox` with all its columns and the two functions that insert
into it: one message in a transaction of its own, and a list of messages inside
the transaction of another operation. A message whose dedupe key is stored is
compared with the stored row and either passed over or refused.

The texts of a message are taken to be storable (`Stmt.Storable`), as in the
wallet's transactions, which `eval_messages` connects with this table.

The loop over a list sees the rows of its earlier rounds. What it does is stated
against the table with these rows, `insertAll`, and then against the table before
it and the messages that come first in the list.

## Main results

- `enqueue_all_or_nothing`: a list of messages, in a transaction
- `enqueueOutboxMessage_eq`: one message
- `eval_messages`: the wallet's transactions see the messages of the table
-/

namespace Wallet

open Relational Transactional Program

/-- The column of `UNIQUE(dedupe_key)`. -/
def OutboxRow.dedupeKey (row : OutboxRow) : String := row.message.dedupeKey

/-- `wallet_outbox` and the last number its sequence has given. The number that a
transaction has drawn and dropped is given again here; nothing depends on it. -/
structure Outbox where
  rows : Table OutboxRow.dedupeKey
  idSeq : ℕ
  ids : ∀ row ∈ rows.rows, row.outboxId ≤ idSeq
  uniqueIds : (rows.rows.map OutboxRow.outboxId).Nodup

namespace Outbox

def empty : Outbox where
  rows := .empty
  idSeq := 0
  ids _ h := nomatch h
  uniqueIds := List.nodup_nil

/-- `INSERT .. ON CONFLICT(dedupe_key) DO NOTHING`. The number is drawn before a
conflict is found. -/
def insert (o : Outbox) (message : NewWalletOutboxMessage) (now : ℤ) : Outbox where
  rows := o.rows.insert (.new (o.idSeq + 1) message now)
  idSeq := o.idSeq + 1
  ids row hrow := by
    rcases Table.mem_insert_cases hrow with hrow | rfl
    · exact (o.ids row hrow).trans (Nat.le_succ _)
    · exact le_rfl
  uniqueIds := by
    by_cases h : o.rows.find? message.dedupeKey = none
    · rw [Table.rows_insert h, List.map_append, List.map_singleton, List.nodup_append]
      refine ⟨o.uniqueIds, List.nodup_singleton _, ?_⟩
      rintro id hid id' hid' rfl
      obtain ⟨row, hrow, rfl⟩ := List.mem_map.1 hid
      have hle := o.ids row hrow
      rw [List.mem_singleton.1 hid'] at hle
      exact absurd hle (Nat.not_succ_le_self o.idSeq)
    · obtain ⟨row, hrow⟩ := Option.ne_none_iff_exists'.1 h
      rw [Table.insert_of_find? hrow]
      exact o.uniqueIds

/-- The row under a dedupe key, as far as its writer has supplied it. -/
def stored (o : Outbox) (dedupeKey : String) : Option NewWalletOutboxMessage :=
  (o.rows.find? dedupeKey).map OutboxRow.message

/-! ## Statements -/

inductive Write
  | insert (message : NewWalletOutboxMessage) (now : ℤ)

def Stmt (β : Type) : Type := Outbox → Except WalletRepositoryError (β × List Write)

instance : Store Stmt Outbox Write WalletRepositoryError where
  write
    | .insert message now, o => o.insert message now
  exec statement := statement

/-- A program over the outbox alone. -/
abbrev Tx (α : Type) := Program Stmt WalletRepositoryError α

/-- `CHECK(partition IS NULL OR partition >= 0)`. -/
def PartitionFits (message : NewWalletOutboxMessage) : Prop :=
  ∀ partition ∈ message.partition, 0 ≤ partition

instance (message : NewWalletOutboxMessage) : Decidable (PartitionFits message) :=
  inferInstanceAs (Decidable (∀ partition ∈ message.partition, 0 ≤ partition))

/-- `ENQUEUE_OUTBOX_MESSAGE_SQL` for storable texts; the answer is the number of rows. -/
def enqueueOutboxMessageSql (message : NewWalletOutboxMessage) (now : ℤ) : Stmt ℕ := fun o =>
  if PartitionFits message then
    .ok (if o.rows.find? message.dedupeKey = none then 1 else 0, [.insert message now])
  else .error (.storage .checkViolation)

/-- `ENQUEUE_OUTBOX_MESSAGE_RETURNING_SQL`; the answer is the new `outbox_id`. -/
def enqueueOutboxMessageReturningSql (message : NewWalletOutboxMessage) (now : ℤ) :
    Stmt (Option ℕ) := fun o =>
  if PartitionFits message then
    .ok (if o.rows.find? message.dedupeKey = none then some (o.idSeq + 1) else none,
      [.insert message now])
  else .error (.storage .checkViolation)

/-- `OUTBOX_DUPLICATE_MATCHES_SQL`. -/
def outboxDuplicateMatchesSql (message : NewWalletOutboxMessage) : Stmt Bool := fun o =>
  .ok (o.rows.rows.any fun row =>
    row.message.dedupeKey = message.dedupeKey ∧ row.message.topic = message.topic ∧
      row.message.partition = message.partition ∧ row.message.messageKey = message.messageKey ∧
      row.message.payloadType = message.payloadType ∧ row.message.payload = message.payload, [])

/-! ## Functions -/

def outboxDuplicateMatchesInTx (message : NewWalletOutboxMessage) : Tx Bool :=
  perform (outboxDuplicateMatchesSql message)

def enqueueOutboxMessagesInTx (now : ℤ) : List NewWalletOutboxMessage → Tx Unit
  | [] => return ()
  | message :: messages => do
    let rowsAffected ← perform (enqueueOutboxMessageSql message now)
    let accepted ← if rowsAffected = 0 then outboxDuplicateMatchesInTx message else pure true
    if accepted then enqueueOutboxMessagesInTx now messages else fail .idempotencyConflict

/-- The messages in a transaction of their own, that an error rolls back. -/
def enqueueTransaction (now : ℤ) (messages : List NewWalletOutboxMessage) : Tx Unit := do
  enqueueOutboxMessagesInTx now messages
  commitTx

/-- Without a transaction around them, both statements commit. -/
def enqueueOutboxMessage (now : ℤ) (message : NewWalletOutboxMessage) : Tx (Option ℕ) := do
  let row ← perform (enqueueOutboxMessageReturningSql message now)
  commitTx
  match row with
  | some outboxId => return some outboxId
  | none =>
    let accepted ← outboxDuplicateMatchesInTx message
    if accepted then return none else fail .idempotencyConflict

/-! ## Insertions -/

theorem stored_eq_none_iff {o : Outbox} {dedupeKey : String} :
    o.stored dedupeKey = none ↔ o.rows.find? dedupeKey = none := by
  rw [stored, Option.map_eq_none_iff]

theorem dedupeKey_of_stored {o : Outbox} {dedupeKey : String} {old : NewWalletOutboxMessage}
    (h : o.stored dedupeKey = some old) : old.dedupeKey = dedupeKey := by
  obtain ⟨row, hrow, rfl⟩ := Option.map_eq_some_iff.1 h
  have hkey : row.dedupeKey = dedupeKey := Table.key_of_find? hrow
  exact hkey

/-- An insertion is seen under its key, if there was nothing. -/
theorem stored_insert (o : Outbox) (message : NewWalletOutboxMessage) (now : ℤ)
    (dedupeKey : String) :
    (o.insert message now).stored dedupeKey =
      (o.stored dedupeKey).or (if dedupeKey = message.dedupeKey then some message else none) := by
  show ((o.rows.insert (.new (o.idSeq + 1) message now)).find? dedupeKey).map _ = _
  rw [Table.find?_insert]
  by_cases hkey : dedupeKey = message.dedupeKey
  · subst hkey
    rw [if_pos rfl]
    cases hfound : o.rows.find? message.dedupeKey with
    | none =>
      rw [stored, hfound, if_pos ⟨hfound, rfl⟩]
      rfl
    | some row =>
      rw [stored, hfound, if_neg]
      · rfl
      · intro h
        have hnone := h.1.symm.trans hfound
        cases hnone
  · rw [if_neg fun h => hkey h.2, if_neg hkey, Option.or_none, stored]

/-- The table after the insertions of a list. -/
def insertAll (o : Outbox) (messages : List NewWalletOutboxMessage) (now : ℤ) : Outbox :=
  messages.foldl (fun o message => o.insert message now) o

theorem insertAll_cons (o : Outbox) (message : NewWalletOutboxMessage)
    (messages : List NewWalletOutboxMessage) (now : ℤ) :
    o.insertAll (message :: messages) now = (o.insert message now).insertAll messages now := rfl

/-- What is stored after a list: what was, or the first message with the key. -/
theorem stored_insertAll (o : Outbox) (messages : List NewWalletOutboxMessage) (now : ℤ)
    (dedupeKey : String) :
    (o.insertAll messages now).stored dedupeKey =
      (o.stored dedupeKey).or (messages.find? fun message => message.dedupeKey = dedupeKey) := by
  induction messages generalizing o with
  | nil => exact (Option.or_none ..).symm
  | cons message messages ih =>
    rw [insertAll_cons, ih, stored_insert, Option.or_assoc, List.find?_cons]
    by_cases hkey : message.dedupeKey = dedupeKey
    · simp [hkey]
    · simp [hkey, Ne.symm hkey]

theorem rows_insert (o : Outbox) (message : NewWalletOutboxMessage) (now : ℤ) :
    (o.insert message now).rows.rows =
      if o.rows.find? message.dedupeKey = none then
        o.rows.rows ++ [.new (o.idSeq + 1) message now]
      else o.rows.rows := by
  split
  · next hnone => exact Table.rows_insert hnone
  · next hsome =>
    obtain ⟨row, hrow⟩ := Option.ne_none_iff_exists'.1 hsome
    exact congrArg Table.rows (Table.insert_of_find? hrow)

/-- Rows are only added. -/
theorem prefix_insertAll (o : Outbox) (messages : List NewWalletOutboxMessage) (now : ℤ) :
    o.rows.rows <+: (o.insertAll messages now).rows.rows := by
  induction messages generalizing o with
  | nil => exact List.prefix_rfl
  | cons message messages ih =>
    have hfirst : o.rows.rows <+: (o.insert message now).rows.rows := by
      rw [rows_insert]
      split
      · exact List.prefix_append _ _
      · exact List.prefix_rfl
    exact hfirst.trans (ih _)

/-- The keys of a list that are not stored, each once. -/
def newKeys (o : Outbox) (messages : List NewWalletOutboxMessage) : List String :=
  (messages.map NewWalletOutboxMessage.dedupeKey).dedup.filter fun key =>
    o.rows.find? key = none

theorem mem_newKeys {o : Outbox} {messages : List NewWalletOutboxMessage} {key : String} :
    key ∈ o.newKeys messages ↔
      (∃ message ∈ messages, message.dedupeKey = key) ∧ o.rows.find? key = none := by
  rw [newKeys, List.mem_filter, List.mem_dedup, List.mem_map, decide_eq_true_eq]

/-- One row is added for each key that is not stored. -/
theorem length_insertAll (o : Outbox) (messages : List NewWalletOutboxMessage) (now : ℤ) :
    (o.insertAll messages now).rows.rows.length =
      o.rows.rows.length + (o.newKeys messages).length := by
  induction messages generalizing o with
  | nil => rfl
  | cons message messages ih =>
    rw [insertAll_cons, ih, rows_insert]
    have hnodup : ∀ o : Outbox, ∀ messages, (o.newKeys messages).Nodup :=
      fun o messages => (List.nodup_dedup _).filter _
    have hfind : ∀ key, (o.insert message now).rows.find? key = none ↔
        o.rows.find? key = none ∧ key ≠ message.dedupeKey := by
      intro key
      rw [← stored_eq_none_iff, stored_insert, ← stored_eq_none_iff]
      by_cases hkey : key = message.dedupeKey <;> simp [hkey]
    split
    · next hnone =>
      -- The first message has the one new key that the rest has not.
      have hperm : (o.newKeys (message :: messages)).Perm
          (message.dedupeKey :: (o.insert message now).newKeys messages) := by
        refine (List.perm_ext_iff_of_nodup (hnodup _ _) (List.nodup_cons.2 ⟨?_, hnodup _ _⟩)).2 ?_
        · intro hmem
          exact ((hfind _).1 (mem_newKeys.1 hmem).2).2 rfl
        · intro key
          rw [List.mem_cons, mem_newKeys, mem_newKeys, hfind]
          by_cases hkey : key = message.dedupeKey
          · simp [hkey, hnone]
          · simp [hkey, Ne.symm hkey]
      rw [hperm.length_eq, List.length_append, List.length_singleton, List.length_cons]
      omega
    · next hsome =>
      have hperm : (o.newKeys (message :: messages)).Perm
          ((o.insert message now).newKeys messages) := by
        refine (List.perm_ext_iff_of_nodup (hnodup _ _) (hnodup _ _)).2 fun key => ?_
        rw [mem_newKeys, mem_newKeys, hfind]
        by_cases hkey : key = message.dedupeKey
        · simp [hkey, hsome]
        · simp [hkey, Ne.symm hkey]
      rw [hperm.length_eq]

/-! ## One round of the loop -/

/-- The columns that `OUTBOX_DUPLICATE_MATCHES_SQL` compares are the same. -/
structure Agrees (message old : NewWalletOutboxMessage) : Prop where
  topic : old.topic = message.topic
  partition : old.partition = message.partition
  messageKey : old.messageKey = message.messageKey
  payloadType : old.payloadType = message.payloadType
  payload : old.payload = message.payload

theorem Agrees.refl (message : NewWalletOutboxMessage) : Agrees message message :=
  ⟨rfl, rfl, rfl, rfl, rfl⟩

theorem Agrees.eq {message old : NewWalletOutboxMessage} (h : Agrees message old)
    (hkey : old.dedupeKey = message.dedupeKey) : old = message := by
  obtain ⟨htopic, hpartition, hmessageKey, hpayloadType, hpayload⟩ := h
  cases old
  cases message
  cases hkey
  cases htopic
  cases hpartition
  cases hmessageKey
  cases hpayloadType
  cases hpayload
  rfl

/-- The stored row of a message, if there is one, agrees with it. -/
def Verified (o : Outbox) (message : NewWalletOutboxMessage) : Prop :=
  ∀ old ∈ o.stored message.dedupeKey, Agrees message old

/-- The query finds the row under the dedupe key, or none. -/
theorem outboxDuplicateMatchesSql_eq (message : NewWalletOutboxMessage) (o : Outbox) :
    ∃ found, outboxDuplicateMatchesSql message o = .ok (found, []) ∧
      (found = true ↔ ∃ old ∈ o.stored message.dedupeKey, Agrees message old) := by
  refine ⟨_, rfl, ?_⟩
  rw [List.any_eq_true]
  constructor
  · rintro ⟨row, hrow, h⟩
    obtain ⟨hkey, htopic, hpartition, hmessageKey, hpayloadType, hpayload⟩ := of_decide_eq_true h
    have hfind : o.rows.find? row.dedupeKey = some row := Table.find?_of_mem hrow
    refine ⟨row.message, ?_, htopic, hpartition, hmessageKey, hpayloadType, hpayload⟩
    show o.stored message.dedupeKey = some row.message
    rw [← hkey]
    exact congrArg (Option.map OutboxRow.message) hfind
  · rintro ⟨old, hold, hagrees⟩
    obtain ⟨row, hrow, rfl⟩ := Option.map_eq_some_iff.1 hold
    have hkey : row.dedupeKey = message.dedupeKey := Table.key_of_find? hrow
    exact ⟨row, Table.mem_of_find? hrow, decide_eq_true ⟨hkey, hagrees.topic, hagrees.partition,
      hagrees.messageKey, hagrees.payloadType, hagrees.payload⟩⟩

theorem eval_outboxDuplicateMatchesInTx (message : NewWalletOutboxMessage) (o : Outbox) :
    ∃ found, (outboxDuplicateMatchesInTx message).eval o = .ok (found, o) ∧
      (found = true ↔ ∃ old ∈ o.stored message.dedupeKey, Agrees message old) := by
  obtain ⟨found, hexec, hfound⟩ := outboxDuplicateMatchesSql_eq message o
  have heval : (perform (outboxDuplicateMatchesSql message) : Tx Bool).eval o =
      .ok (found, Store.applyAll Stmt [] o) := eval_perform_of_exec hexec
  exact ⟨found, heval, hfound⟩

theorem stored_insert_of_stored {o : Outbox} {message old : NewWalletOutboxMessage} (now : ℤ)
    (h : o.stored message.dedupeKey = some old) :
    (o.insert message now).stored message.dedupeKey = some old := by
  rw [stored_insert, h]
  rfl

section Round

variable {o : Outbox} {message : NewWalletOutboxMessage} (now : ℤ)
  (messages : List NewWalletOutboxMessage)

theorem eval_enqueue_verified (hfits : PartitionFits message) (hverified : o.Verified message) :
    (enqueueOutboxMessagesInTx now (message :: messages)).eval o =
      (enqueueOutboxMessagesInTx now messages).eval (o.insert message now) := by
  rw [enqueueOutboxMessagesInTx]
  have hexec : enqueueOutboxMessageSql message now o =
      .ok (if o.rows.find? message.dedupeKey = none then 1 else 0, [.insert message now]) :=
    if_pos hfits
  rw [eval_bind_ok (eval_perform_of_exec hexec)]
  show eval _ (o.insert message now) = _
  cases hstored : o.stored message.dedupeKey with
  | none =>
    rw [if_pos (stored_eq_none_iff.1 hstored), if_neg Nat.one_ne_zero,
      eval_bind_ok (eval_pure true _)]
    rfl
  | some old =>
    have hfound : ¬o.rows.find? message.dedupeKey = none := by
      rw [← stored_eq_none_iff, hstored]
      nofun
    obtain ⟨found, hquery, hiff⟩ := eval_outboxDuplicateMatchesInTx message (o.insert message now)
    obtain rfl : found = true :=
      hiff.2 ⟨old, stored_insert_of_stored now hstored, hverified old hstored⟩
    rw [if_neg hfound, if_pos rfl, eval_bind_ok hquery]
    rfl

theorem eval_enqueue_not_verified (hfits : PartitionFits message)
    (hverified : ¬o.Verified message) :
    (enqueueOutboxMessagesInTx now (message :: messages)).eval o = .error .idempotencyConflict := by
  rw [enqueueOutboxMessagesInTx]
  have hexec : enqueueOutboxMessageSql message now o =
      .ok (if o.rows.find? message.dedupeKey = none then 1 else 0, [.insert message now]) :=
    if_pos hfits
  rw [eval_bind_ok (eval_perform_of_exec hexec)]
  show eval _ (o.insert message now) = _
  cases hstored : o.stored message.dedupeKey with
  | none =>
    refine absurd (fun old hold => ?_) hverified
    rw [hstored] at hold
    cases hold
  | some old =>
    have hfound : ¬o.rows.find? message.dedupeKey = none := by
      rw [← stored_eq_none_iff, hstored]
      nofun
    obtain ⟨found, hquery, hiff⟩ := eval_outboxDuplicateMatchesInTx message (o.insert message now)
    obtain rfl : found = false := by
      refine Bool.eq_false_iff.2 fun htrue => hverified fun old' hold' => ?_
      obtain ⟨other, hother, hagrees⟩ := hiff.1 htrue
      rw [stored_insert_of_stored now hstored] at hother
      rw [hstored] at hold'
      obtain rfl := Option.some.inj (hother.symm.trans hold')
      exact hagrees
    rw [if_neg hfound, if_pos rfl, eval_bind_ok hquery]
    rfl

theorem eval_enqueue_not_fits (hfits : ¬PartitionFits message) :
    (enqueueOutboxMessagesInTx now (message :: messages)).eval o =
      .error (.storage .checkViolation) := by
  rw [enqueueOutboxMessagesInTx]
  have hexec : enqueueOutboxMessageSql message now o = .error (.storage .checkViolation) :=
    if_neg hfits
  refine eval_bind_error ?_
  rw [eval_perform]
  show Except.map _ (enqueueOutboxMessageSql message now o) = _
  rw [hexec]
  rfl

end Round

/-! ## A list of messages -/

/-- What is stored under a key for the message that comes after these: a row of the
table, or the row of the first of them that has the key. -/
def storedBefore (o : Outbox) (earlier : List NewWalletOutboxMessage) (dedupeKey : String) :
    Option NewWalletOutboxMessage :=
  (o.stored dedupeKey).or (earlier.find? fun message => message.dedupeKey = dedupeKey)

/-- A message agrees with what is stored under its key when its turn comes. -/
def VerifiedAfter (o : Outbox) (earlier : List NewWalletOutboxMessage)
    (message : NewWalletOutboxMessage) : Prop :=
  ∀ old ∈ o.storedBefore earlier message.dedupeKey, Agrees message old

theorem verified_insertAll {o : Outbox} {earlier : List NewWalletOutboxMessage} {now : ℤ}
    {message : NewWalletOutboxMessage} :
    (o.insertAll earlier now).Verified message ↔ o.VerifiedAfter earlier message := by
  unfold Verified VerifiedAfter storedBefore
  rw [stored_insertAll]

/-- Every message of a list fits its column and agrees with what is stored. -/
def AllVerified (o : Outbox) (messages : List NewWalletOutboxMessage) : Prop :=
  ∀ earlier message later, messages = earlier ++ message :: later →
    PartitionFits message ∧ o.VerifiedAfter earlier message

/-- A list that agrees is inserted, and what comes after it sees its rows. -/
theorem eval_enqueue_append {o : Outbox} {messages : List NewWalletOutboxMessage}
    (h : o.AllVerified messages) (now : ℤ) (later : List NewWalletOutboxMessage) :
    (enqueueOutboxMessagesInTx now (messages ++ later)).eval o =
      (enqueueOutboxMessagesInTx now later).eval (o.insertAll messages now) := by
  induction messages using List.reverseRecOn generalizing later with
  | nil => rfl
  | append_singleton messages message ih =>
    -- The last message is verified against the table with the others.
    obtain ⟨hfits, hverified⟩ := h messages message [] rfl
    have hprefix : o.AllVerified messages := fun earlier m rest hsplit =>
      h earlier m (rest ++ [message]) (by rw [hsplit, List.append_assoc, List.cons_append])
    rw [List.append_assoc, List.singleton_append, ih hprefix,
      eval_enqueue_verified now later hfits (verified_insertAll.2 hverified)]
    unfold insertAll
    rw [List.foldl_append]
    rfl

theorem eval_enqueue_of_allVerified {o : Outbox} {messages : List NewWalletOutboxMessage}
    (h : o.AllVerified messages) (now : ℤ) :
    (enqueueOutboxMessagesInTx now messages).eval o = .ok ((), o.insertAll messages now) := by
  have hrun := eval_enqueue_append h now []
  rw [List.append_nil] at hrun
  exact hrun

/-- The error of a message that is refused: the database's for a partition that does not
fit, else the repository's. -/
def refusal (message : NewWalletOutboxMessage) : WalletRepositoryError :=
  if PartitionFits message then .idempotencyConflict else .storage .checkViolation

theorem eval_enqueue_of_refused {o : Outbox} {earlier later : List NewWalletOutboxMessage}
    {message : NewWalletOutboxMessage} (hearlier : o.AllVerified earlier)
    (hmessage : ¬(PartitionFits message ∧ o.VerifiedAfter earlier message)) (now : ℤ) :
    (enqueueOutboxMessagesInTx now (earlier ++ message :: later)).eval o =
      .error (refusal message) := by
  rw [eval_enqueue_append hearlier]
  by_cases hfits : PartitionFits message
  · rw [refusal, if_pos hfits]
    refine eval_enqueue_not_verified now later hfits fun hverified => hmessage ?_
    exact ⟨hfits, verified_insertAll.1 hverified⟩
  · rw [refusal, if_neg hfits]
    exact eval_enqueue_not_fits now later hfits

/-- A list that does not agree has a first message that is refused. -/
theorem exists_refused {o : Outbox} {messages : List NewWalletOutboxMessage}
    (h : ¬o.AllVerified messages) :
    ∃ earlier message later, messages = earlier ++ message :: later ∧ o.AllVerified earlier ∧
      ¬(PartitionFits message ∧ o.VerifiedAfter earlier message) := by
  induction messages using List.reverseRecOn with
  | nil => exact absurd (fun earlier message later hsplit => by simp at hsplit) h
  | append_singleton messages last ih =>
    by_cases hmessages : o.AllVerified messages
    · refine ⟨messages, last, [], rfl, hmessages, fun hlast => h ?_⟩
      intro earlier message later hsplit
      rcases List.eq_nil_or_concat later with rfl | ⟨later, x, rfl⟩
      · obtain ⟨rfl, hlast'⟩ := List.append_inj' hsplit rfl
        cases hlast'
        exact hlast
      · have hsplit' : messages ++ [last] = (earlier ++ message :: later) ++ [x] := by
          rw [hsplit, List.concat_eq_append, List.append_assoc, List.cons_append]
        exact hmessages earlier message later (List.append_inj_left' hsplit' rfl)
    · obtain ⟨earlier, message, later, rfl, hearlier, hmessage⟩ := ih hmessages
      refine ⟨earlier, message, later ++ [last], ?_, hearlier, hmessage⟩
      rw [List.append_assoc, List.cons_append]

theorem open_enqueueOutboxMessagesInTx (now : ℤ) (messages : List NewWalletOutboxMessage) :
    (enqueueOutboxMessagesInTx now messages).Open := by
  induction messages with
  | nil => exact open_pure ()
  | cons message messages ih =>
    refine open_bind (open_perform _) fun rowsAffected => ?_
    have hrest : ∀ accepted : Bool, ((if accepted then enqueueOutboxMessagesInTx now messages
        else fail .idempotencyConflict) : Tx Unit).Open := fun accepted => by
      split
      · exact ih
      · exact open_fail _
    by_cases hrows : rowsAffected = 0
    · rw [if_pos hrows]
      exact open_bind (open_perform _) hrest
    · rw [if_neg hrows]
      exact open_bind (open_pure true) hrest

/-- The transaction happens as a whole or not at all. -/
theorem run_enqueueTransaction (o : Outbox) (now : ℤ) (messages : List NewWalletOutboxMessage) :
    (enqueueTransaction now messages).run o o =
      outcome o ((enqueueOutboxMessagesInTx now messages).eval o) := by
  unfold enqueueTransaction
  rw [run_bind_of_open (open_enqueueOutboxMessagesInTx now messages)]
  cases (enqueueOutboxMessagesInTx now messages).eval o with
  | ok r => rfl
  | error e => rfl

/-- Every message of a list that agrees has the one row under its key. -/
theorem filter_insertAll {o : Outbox} {messages : List NewWalletOutboxMessage} {now : ℤ}
    (h : o.AllVerified messages) {message : NewWalletOutboxMessage} (hmem : message ∈ messages) :
    ∃ row, (o.insertAll messages now).rows.rows.filter
        (fun row => row.dedupeKey = message.dedupeKey) = [row] ∧ Agrees message row.message := by
  obtain ⟨earlier, later, hsplit⟩ := List.append_of_mem hmem
  obtain ⟨-, hverified⟩ := h earlier message later hsplit
  obtain ⟨old, hold, hagrees⟩ : ∃ old,
      (o.insertAll messages now).stored message.dedupeKey = some old ∧ Agrees message old := by
    rw [stored_insertAll, hsplit, List.find?_append, ← Option.or_assoc]
    change ∃ old, (o.storedBefore earlier message.dedupeKey).or _ = some old ∧ _
    cases hbefore : o.storedBefore earlier message.dedupeKey with
    | none => exact ⟨message, by simp, .refl message⟩
    | some old => exact ⟨old, rfl, hverified old hbefore⟩
  obtain ⟨row, hrow, rfl⟩ := Option.map_eq_some_iff.1 hold
  exact ⟨row, Table.filter_eq_singleton hrow, hagrees⟩

/-- A list of messages is inserted if each of them fits its column and agrees with the
row that is stored under its key when its turn comes; then every key of the list has
one row, with the fields of its message, the other rows are as they were, and one row
is added for each new key. Else nothing is stored, and the first message that is
refused gives the error. -/
theorem enqueue_all_or_nothing (o : Outbox) (now : ℤ) (messages : List NewWalletOutboxMessage) :
    (((enqueueTransaction now messages).run o o).1 = .ok () ↔ o.AllVerified messages) ∧
      (∀ o', (enqueueTransaction now messages).run o o = (.ok (), o') →
        (∀ message ∈ messages, ∃ row,
          o'.rows.rows.filter (fun row => row.dedupeKey = message.dedupeKey) = [row] ∧
            Agrees message row.message) ∧
        o.rows.rows <+: o'.rows.rows ∧
        o'.rows.rows.length = o.rows.rows.length + (o.newKeys messages).length) ∧
      (∀ earlier message later, messages = earlier ++ message :: later → o.AllVerified earlier →
        ¬(PartitionFits message ∧ o.VerifiedAfter earlier message) →
        (enqueueTransaction now messages).run o o = (.error (refusal message), o)) := by
  have hrun := run_enqueueTransaction o now messages
  have hrefused : ∀ earlier message later, messages = earlier ++ message :: later →
      o.AllVerified earlier → ¬(PartitionFits message ∧ o.VerifiedAfter earlier message) →
      (enqueueTransaction now messages).run o o = (.error (refusal message), o) := by
    intro earlier message later hsplit hearlier hmessage
    subst hsplit
    rw [hrun, eval_enqueue_of_refused hearlier hmessage]
    rfl
  by_cases h : o.AllVerified messages
  · rw [eval_enqueue_of_allVerified h, outcome_ok] at hrun
    refine ⟨iff_of_true (by rw [hrun]) h, fun o' ho' => ?_, hrefused⟩
    obtain rfl : o.insertAll messages now = o' := congrArg Prod.snd (hrun.symm.trans ho')
    exact ⟨fun message hmem => filter_insertAll h hmem, prefix_insertAll o messages now,
      length_insertAll o messages now⟩
  · obtain ⟨earlier, message, later, hsplit, hearlier, hmessage⟩ := exists_refused h
    have herror := hrefused earlier message later hsplit hearlier hmessage
    rw [herror]
    refine ⟨iff_of_false nofun h, fun o' ho' => ?_, fun earlier' message' later' hs hv hm => ?_⟩
    · cases ho'
    · rw [← herror]
      exact hrefused earlier' message' later' hs hv hm

/-! ### Negative partitions -/

def depositMessageTo (partition : Option ℤ) (dedupeKey : String) : NewWalletOutboxMessage where
  dedupeKey := dedupeKey
  topic := "wallet.events"
  partition := partition
  messageKey := "1"
  payloadType := "WalletEvent"
  payload := .walletEvent (.depositApplied
    { eventId := some dedupeKey, requestId := "req", userId := 1, asset := .USDC, amount := 5,
      referenceId := "ref", total := 5, locked := 0 })

/-- The constraint refuses a message to partition -1, with which no row disagrees. -/
theorem negative_partition_refused :
    empty.VerifiedAfter [] (depositMessageTo (some (-1)) "deposit") ∧
      ((enqueueTransaction 0 [depositMessageTo (some (-1)) "deposit"]).run empty empty).1 =
        .error (.storage .checkViolation) :=
  ⟨fun _ => nofun, rfl⟩

example :
    ((enqueueTransaction 0 (["a", "b", "a"].map (depositMessageTo none))).run empty empty).1 =
      .ok () := by rfl

/-! ## One message -/

/-- A message is inserted, or it is verified against the row that is stored under its key. -/
theorem run_enqueueOutboxMessage (o : Outbox) (now : ℤ) {message : NewWalletOutboxMessage}
    (hfits : PartitionFits message) :
    (enqueueOutboxMessage now message).run o o =
      (match o.stored message.dedupeKey with
        | none => .ok (some (o.idSeq + 1))
        | some old => if old = message then .ok none else .error .idempotencyConflict,
        o.insert message now) := by
  have hexec : enqueueOutboxMessageReturningSql message now o =
      .ok (if o.rows.find? message.dedupeKey = none then some (o.idSeq + 1) else none,
        [.insert message now]) := if_pos hfits
  unfold enqueueOutboxMessage
  refine (run_perform_ok hexec).trans ?_
  show run _ (o.insert message now) (o.insert message now) = _
  cases hstored : o.stored message.dedupeKey with
  | none =>
    rw [if_pos (stored_eq_none_iff.1 hstored)]
    rfl
  | some old =>
    have hfound : ¬o.rows.find? message.dedupeKey = none := by
      rw [← stored_eq_none_iff, hstored]
      nofun
    obtain ⟨found, hquery, hiff⟩ := outboxDuplicateMatchesSql_eq message (o.insert message now)
    have hagrees : found = true ↔ old = message := by
      rw [hiff, stored_insert_of_stored now hstored]
      constructor
      · rintro ⟨old', hold', hagrees⟩
        obtain rfl := Option.some.inj hold'
        exact hagrees.eq (dedupeKey_of_stored hstored)
      · rintro rfl
        exact ⟨old, rfl, .refl old⟩
    rw [if_neg hfound]
    refine (run_perform_ok hquery).trans ?_
    by_cases heq : old = message
    · rw [if_pos (hagrees.2 heq)]
      simp [heq]
      rfl
    · rw [if_neg fun h => heq (hagrees.1 h)]
      simp [heq]
      rfl

/-! ## The outbox of the wallet's transactions -/

/-- The rows as the wallet's transactions write them. -/
def messages (o : Outbox) : Table NewWalletOutboxMessage.dedupeKey where
  rows := o.rows.rows.map OutboxRow.message
  unique := by
    rw [List.map_map]
    exact o.rows.unique

theorem find?_messages (o : Outbox) (dedupeKey : String) :
    o.messages.find? dedupeKey = o.stored dedupeKey := by
  show (o.rows.rows.map OutboxRow.message).find? _ = _
  rw [List.find?_map]
  rfl

theorem messages_insert (o : Outbox) (message : NewWalletOutboxMessage) (now : ℤ) :
    (o.insert message now).messages = o.messages.insert message := by
  refine Table.ext_rows ?_
  show (o.insert message now).rows.rows.map OutboxRow.message = _
  rw [rows_insert]
  cases hstored : o.stored message.dedupeKey with
  | none =>
    rw [if_pos (stored_eq_none_iff.1 hstored), List.map_append,
      Table.rows_insert ((find?_messages o _).trans hstored)]
    rfl
  | some old =>
    rw [if_neg, Table.insert_of_find? ((find?_messages o _).trans hstored)]
    · rfl
    · rw [← stored_eq_none_iff, hstored]
      nofun

/-- What the transactions of the wallet do to their outbox is what is done to the whole
table, seen without the columns of the relay. -/
theorem eval_messages {d : WalletDb} {o : Outbox} (h : d.walletOutbox = o.messages) (now : ℤ)
    (messages : List NewWalletOutboxMessage) :
    (Wallet.enqueueOutboxMessagesInTx messages).eval d =
      ((enqueueOutboxMessagesInTx now messages).eval o).map fun r =>
        ((), { d with walletOutbox := r.2.messages }) := by
  induction messages generalizing d o with
  | nil =>
    show Except.ok ((), d) = .ok ((), { d with walletOutbox := o.messages })
    rw [← h]
  | cons message messages ih =>
    by_cases hfits : PartitionFits message
    · rw [eval_enqueue_cons messages hfits, h, find?_messages]
      cases hstored : o.stored message.dedupeKey with
      | none =>
        have hverified : o.Verified message := fun old hold => by
          rw [hstored] at hold
          cases hold
        rw [eval_enqueue_verified now messages hfits hverified]
        exact ih (d := { d with walletOutbox := o.messages.insert message })
          (messages_insert o message now).symm
      | some old =>
        dsimp only
        have hkey := dedupeKey_of_stored hstored
        by_cases heq : old = message
        · have hverified : o.Verified message := fun old' hold' => by
            obtain rfl := Option.some.inj (hstored.symm.trans hold')
            exact heq ▸ .refl message
          rw [if_pos heq, eval_enqueue_verified now messages hfits hverified]
          refine ih ?_
          rw [h, messages_insert, Table.insert_of_find? ((find?_messages o _).trans hstored)]
        · have hverified : ¬o.Verified message := fun hverified =>
            heq ((hverified old hstored).eq hkey)
          rw [if_neg heq, eval_enqueue_not_verified now messages hfits hverified]
          rfl
    · rw [eval_enqueue_of_partition messages hfits, eval_enqueue_not_fits now messages hfits]
      rfl

end Outbox

end Wallet
