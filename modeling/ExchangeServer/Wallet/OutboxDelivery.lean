import ExchangeServer.Wallet.Relay

/-!
# What the outbox keeps

Any number of relays interleave their claims, publications, marks and requeues
with the insertions of the wallet, and may stop between any two of them. A row
is never lost: it stays with its message, it is PUBLISHED only with the place of
its record in the broker, and otherwise it is PENDING, hence claimable once it
is due, or PROCESSING, hence returned by the requeue of stale rows.

Whether PUBLISHED is final depends on the relays. A relay that was overtaken
after a requeue and whose own publication fails writes PENDING over the
PUBLISHED of the faster one, and nothing else does.

## Main results

- `outbox_keeps_rows`: no message is lost
- `published_final_iff`: when PUBLISHED is final
-/

namespace Wallet

open Protocol Relational

/-! ## The statement that claims -/

theorem mem_dueRows {table : OutboxTable} {now : ℤ} {locked : List ℕ} {row : OutboxRow} :
    row ∈ dueRows table now locked ↔ row ∈ table.rows ∧ row.status = .PENDING ∧
      row.nextAttemptAt ≤ now ∧ row.outboxId ∉ locked := by
  simp [dueRows]

theorem sorted_dueRows (table : OutboxTable) (now : ℤ) (locked : List ℕ) :
    (dueRows table now locked).Pairwise fun a b => a.outboxId ≤ b.outboxId := by
  have : Std.Total fun a b : OutboxRow => a.outboxId ≤ b.outboxId :=
    ⟨fun a b => Nat.le_total a.outboxId b.outboxId⟩
  have : IsTrans OutboxRow fun a b => a.outboxId ≤ b.outboxId := ⟨fun _ _ _ => Nat.le_trans⟩
  exact List.pairwise_insertionSort _ _

theorem nodup_dueRows (table : OutboxTable) (now : ℤ) (locked : List ℕ) :
    ((dueRows table now locked).map OutboxRow.outboxId).Nodup := by
  have hperm := (List.perm_insertionSort (fun a b : OutboxRow => a.outboxId ≤ b.outboxId)
    (table.rows.filter fun row =>
      row.status = .PENDING ∧ row.nextAttemptAt ≤ now ∧ row.outboxId ∉ locked)).map
    OutboxRow.outboxId
  exact hperm.nodup_iff.2 (table.unique.sublist (List.filter_sublist.map _))

theorem mem_dueRows_of_claimable {table : OutboxTable} {now : ℤ} {limit : ℕ} {locked : List ℕ}
    {row : OutboxRow} (h : row ∈ claimable table now limit locked) :
    row ∈ dueRows table now locked :=
  List.mem_of_mem_take h

theorem nodup_claimable (table : OutboxTable) (now : ℤ) (limit : ℕ) (locked : List ℕ) :
    ((claimable table now limit locked).map OutboxRow.outboxId).Nodup :=
  (nodup_dueRows table now locked).sublist ((List.take_sublist _ _).map _)

/-- A due row is claimed with every due row after it. -/
theorem mem_claimable_of_le {table : OutboxTable} {now : ℤ} {limit : ℕ} {locked : List ℕ}
    {a b : OutboxRow} (ha : a ∈ dueRows table now locked) (hle : a.outboxId < b.outboxId)
    (hb : b ∈ claimable table now limit locked) : a ∈ claimable table now limit locked := by
  obtain ⟨j, hj, hb⟩ := List.mem_take_iff_getElem.1 hb
  obtain ⟨i, hi, ha⟩ := List.mem_iff_getElem.1 ha
  have hij : i < j := by
    by_contra hji
    rcases Nat.lt_or_eq_of_le (not_lt.1 hji) with hji | rfl
    · have hsorted := List.pairwise_iff_getElem.1 (sorted_dueRows table now locked) j i
        (by omega) hi hji
      rw [ha, hb] at hsorted
      omega
    · rw [ha] at hb
      subst hb
      exact absurd hle (lt_irrefl _)
  exact List.mem_take_iff_getElem.2 ⟨i, by omega, ha⟩

/-- A due row is claimed, or the batch is full of rows before it. -/
theorem mem_claimable_or_full {table : OutboxTable} {now : ℤ} {locked : List ℕ} {row : OutboxRow}
    (h : row ∈ dueRows table now locked) (limit : ℕ) :
    row ∈ claimable table now limit locked ∨
      (claimable table now limit locked).length = limit ∧
        ∀ other ∈ claimable table now limit locked, other.outboxId < row.outboxId := by
  by_cases hmem : row ∈ claimable table now limit locked
  · exact .inl hmem
  · right
    constructor
    · by_contra hlength
      have hle : (dueRows table now locked).length ≤ limit := by
        simp only [claimable, List.length_take] at hlength
        omega
      exact hmem (by rwa [claimable, List.take_of_length_le hle])
    · intro other hother
      by_contra hlt
      have hne : other.outboxId ≠ row.outboxId := by
        intro heq
        have hsame := List.inj_on_of_nodup_map (nodup_dueRows table now locked)
          (mem_dueRows_of_claimable hother) h heq
        exact hmem (hsame ▸ hother)
      exact hmem (mem_claimable_of_le h (by omega) hother)

theorem find?_requeueRows (table : OutboxTable) (staleAfterSeconds now : ℤ) (id : ℕ) :
    (table.map (fun row => row.requeue staleAfterSeconds now)
      fun row => row.outboxId_requeue staleAfterSeconds now).find? id =
      (table.find? id).map fun row => row.requeue staleAfterSeconds now :=
  Table.find?_map _ id

theorem find?_claimRows (table : OutboxTable) (now : ℤ) (ids : List ℕ) (id : ℕ) :
    (claimRows table now ids).find? id =
      (table.find? id).map fun row => if row.outboxId ∈ ids then row.claim now else row :=
  Table.find?_map _ id

namespace RelaySystem

/-! ## What a step does to one row -/

/-- How often a row has been claimed. -/
def claims (σ : RelaySystem) (outboxId : ℕ) : ℕ := σ.history.count (.claimed outboxId)

/-- The row that a step marks. -/
def marked (σ : RelaySystem) : RelayAction → Option ℕ
  | .markPublished relay _ | .markPending relay _ =>
    (σ.relays relay).bind fun state => state.batch.head?.map WalletOutboxMessage.outboxId
  | _ => none

/-- What a step makes of a stored row. -/
inductive RowStep (settings : RelaySettings) (σ σ' : RelaySystem) (row : OutboxRow) :
    RelayAction → OutboxRow → Prop
  | keep {a} (hmarked : σ.marked a ≠ some row.outboxId)
    (hclaims : σ'.claims row.outboxId = σ.claims row.outboxId) :
    RowStep settings σ σ' row a row
  | requeue {relay now} (hclaims : σ'.claims row.outboxId = σ.claims row.outboxId) :
    RowStep settings σ σ' row (.requeue relay now) (row.requeue settings.staleAfterSeconds now)
  | claim {relay now locked returned} (hpending : row.status = .PENDING)
    (hreturned : row.outboxId ∈ returned) (hattempts : row.attempts < i32Max)
    (hclaims : σ'.claims row.outboxId = σ.claims row.outboxId + 1) :
    RowStep settings σ σ' row (.claim relay now locked returned) (row.claim now)
  | markPublished {relay now message partition offset rest}
    (hr : σ.relays relay = some (.accepted message partition offset rest))
    (hid : row.outboxId = message.outboxId)
    (hclaims : σ'.claims row.outboxId = σ.claims row.outboxId) :
    RowStep settings σ σ' row (.markPublished relay now) (row.markPublished partition offset now)
  | markPending {relay now message error rest}
    (hr : σ.relays relay = some (.failed message error rest))
    (hid : row.outboxId = message.outboxId)
    (hclaims : σ'.claims row.outboxId = σ.claims row.outboxId) :
    RowStep settings σ σ' row (.markPending relay now) (row.markPending error now)

variable {settings : RelaySettings} {σ σ' : RelaySystem} {a : RelayAction}

theorem count_claimed (returned : List ℕ) (hnodup : returned.Nodup) (id : ℕ) :
    (returned.map OutboxEvent.claimed).count (.claimed id) = if id ∈ returned then 1 else 0 := by
  rw [(hnodup.map fun _ _ h => OutboxEvent.claimed.inj h).count]
  simp

/-- Every stored row is stored after a step, changed as the step changes it. -/
theorem row_of_step (h : Step settings σ a σ') {row : OutboxRow}
    (hrow : σ.outbox.find? row.outboxId = some row) :
    ∃ row', σ'.outbox.find? row.outboxId = some row' ∧ RowStep settings σ σ' row a row' := by
  cases h with
  | insert hid _ =>
    refine ⟨row, Table.find?_insert_of_find? hrow, .keep nofun ?_⟩
    simp [claims]
  | start _ | claimRefused _ | publishFails _ | publishLost _ | crash _ =>
    exact ⟨row, hrow, .keep nofun rfl⟩
  | publish _ =>
    refine ⟨row, hrow, .keep nofun ?_⟩
    simp [claims]
  | @requeue relay now _ =>
    refine ⟨_, ?_, .requeue rfl⟩
    exact (find?_requeueRows _ _ _ _).trans (by rw [hrow]; rfl)
  | @claim relay now locked returned _ hreturned hattempts =>
    have hnodup : returned.Nodup := hreturned.nodup_iff.2 (nodup_claimable _ _ _ _)
    refine ⟨if row.outboxId ∈ returned then row.claim now else row, ?_, ?_⟩
    · rw [find?_claimRows, hrow]
      rfl
    · split
      · next hmem =>
        obtain ⟨row', hrow', hid⟩ := List.mem_map.1 (hreturned.mem_iff.1 hmem)
        have hdue := mem_dueRows.1 (mem_dueRows_of_claimable hrow')
        obtain rfl : row' = row := by
          have hfind := Table.find?_of_mem hdue.1
          rw [hid, hrow] at hfind
          exact (Option.some.inj hfind).symm
        refine .claim hdue.2.1 hmem (hattempts _ hrow') ?_
        simp [claims, count_claimed returned hnodup, hmem]
      · next hmem =>
        refine .keep nofun ?_
        simp [claims, count_claimed returned hnodup, hmem]
  | @markPublished relay now message partition offset rest hr =>
    by_cases hid : row.outboxId = message.outboxId
    · refine ⟨_, ?_, .markPublished hr hid rfl⟩
      rw [hid] at hrow ⊢
      exact Table.find?_modify_self (fun row => row.outboxId_markPublished partition offset now) hrow
    · refine ⟨row, ?_, .keep (by simpa [marked, hr, RelayState.batch] using Ne.symm hid) rfl⟩
      exact (Table.find?_modify_of_ne (fun row => row.outboxId_markPublished partition offset now) hid).trans hrow
  | @markPending relay now message error rest hr =>
    by_cases hid : row.outboxId = message.outboxId
    · refine ⟨_, ?_, .markPending hr hid rfl⟩
      rw [hid] at hrow ⊢
      exact Table.find?_modify_self (fun row => row.outboxId_markPending error now) hrow
    · refine ⟨row, ?_, .keep (by simpa [marked, hr, RelayState.batch] using Ne.symm hid) rfl⟩
      exact (Table.find?_modify_of_ne (fun row => row.outboxId_markPending error now) hid).trans hrow

/-- A row that a step adds is the one it inserts. -/
theorem new_of_step (h : Step settings σ a σ') {id : ℕ} (hnone : σ.outbox.find? id = none)
    {row : OutboxRow} (hrow : σ'.outbox.find? id = some row) :
    ∃ message now, a = .insert id message now ∧ row = .new id message now ∧
      σ'.history = σ.history ++ [.inserted id] := by
  cases h with
  | @insert outboxId message now hid _ =>
    by_cases heq : id = outboxId
    · subst heq
      have hself := Table.find?_insert_self (t := σ.outbox) (r := .new id message now) hid
      refine ⟨message, now, rfl, ?_, rfl⟩
      exact Option.some.inj (hrow.symm.trans hself)
    · exfalso
      have hkeep := Table.find?_insert_of_ne (t := σ.outbox) (r := .new outboxId message now) heq
      rw [hkeep, hnone] at hrow
      cases hrow
  | start _ | claimRefused _ | publishFails _ | publishLost _ | crash _ | publish _ =>
    exact absurd (hrow.symm.trans hnone) (by simp)
  | requeue _ =>
    rw [find?_requeueRows, hnone] at hrow
    cases hrow
  | claim _ _ _ =>
    rw [find?_claimRows, hnone] at hrow
    cases hrow
  | markPublished _ | markPending _ =>
    simp [Table.find?_modify, hnone] at hrow

@[simp] theorem RowStep.outboxId_eq {row row' : OutboxRow}
    (h : RowStep settings σ σ' row a row') : row'.outboxId = row.outboxId := by
  cases h <;> simp

theorem RowStep.message_eq {row row' : OutboxRow} (h : RowStep settings σ σ' row a row') :
    row'.message = row.message := by
  cases h <;> simp [OutboxRow.markPublished, OutboxRow.markPending]

/-! ## What a run keeps -/

/-- The broker holds the record of a message there. -/
def Stored (σ : RelaySystem) (message : NewWalletOutboxMessage) (partition offset : ℕ) : Prop :=
  (σ.broker message.topic partition)[offset]? = some message.record

/-- The broker only appends. -/
theorem broker_prefix (h : Step settings σ a σ') (topic : String) (partition : ℕ) :
    σ.broker topic partition <+: σ'.broker topic partition := by
  have happend : ∀ (t : String) (p : ℕ) (record : BrokerRecord),
      σ.broker topic partition <+: (σ.store t p record).broker topic partition := by
    intro t p record
    simp only [store]
    split
    · exact List.prefix_append _ _
    · exact List.prefix_refl _
  cases h with
  | publish _ | publishLost _ => exact happend _ _ _
  | _ => exact List.prefix_refl _

theorem Stored.of_step {message : NewWalletOutboxMessage} {partition offset : ℕ}
    (h : Stored σ message partition offset) (hstep : Step settings σ a σ') :
    Stored σ' message partition offset := by
  obtain ⟨records, hrecords⟩ := broker_prefix hstep message.topic partition
  unfold Stored at h ⊢
  obtain ⟨hlt, -⟩ := List.getElem?_eq_some_iff.1 h
  rw [← hrecords, List.getElem?_append_left hlt]
  exact h

theorem stored_store (σ : RelaySystem) (message : NewWalletOutboxMessage) (partition : ℕ) :
    Stored (σ.store message.topic partition message.record) message partition
      (σ.broker message.topic partition).length := by
  simp [Stored, store]

/-- What holds between the rows, the broker, the relays and the history. -/
structure Kept (σ : RelaySystem) : Prop where
  attempts : ∀ id row, σ.outbox.find? id = some row → row.attempts = σ.claims id
  unclaimed : ∀ id, σ.outbox.find? id = none → σ.claims id = 0
  published : ∀ id row, σ.outbox.find? id = some row → row.status = .PUBLISHED →
    ∃ partition offset, row.publishedPartition = some partition ∧
      row.publishedOffset = some offset ∧ Stored σ row.message partition offset
  batch : ∀ relay state, σ.relays relay = some state → ∀ message ∈ state.batch,
    ∃ row, σ.outbox.find? message.outboxId = some row ∧ row.message = message.message
  accepted : ∀ relay message partition offset rest,
    σ.relays relay = some (.accepted message partition offset rest) →
      Stored σ message.message partition offset

theorem kept_initial : Kept initial where
  attempts _ _ h := nomatch h
  unclaimed _ _ := rfl
  published _ _ h := nomatch h
  batch _ _ h := nomatch h
  accepted _ _ _ _ _ h := nomatch h

theorem relays_setRelay (σ : RelaySystem) (relay : ℕ) (state : Option RelayState) (r : ℕ) :
    (σ.setRelay relay state).relays r = if r = relay then state else σ.relays r := by
  simp [setRelay, Function.update_apply]

/-- A message that a relay holds after a step was held before, or is claimed by
the step. -/
theorem batch_of_step (h : Step settings σ a σ') {relay : ℕ} {state : RelayState}
    (hstate : σ'.relays relay = some state) {message : WalletOutboxMessage}
    (hmessage : message ∈ state.batch) :
    (∃ before, σ.relays relay = some before ∧ message ∈ before.batch) ∨
      ∃ row, σ'.outbox.find? message.outboxId = some row ∧ row.message = message.message ∧
        0 < σ'.claims message.outboxId := by
  -- A relay that takes a step holds afterwards only what it held before.
  have hmove : ∀ {r : ℕ} {before after : RelayState}, σ.relays r = some before →
      (if relay = r then some after else σ.relays relay) = some state →
      (message ∈ after.batch → message ∈ before.batch) →
      ∃ before, σ.relays relay = some before ∧ message ∈ before.batch := by
    intro r before after hr hif hbatch
    split at hif
    · next heq =>
      cases hif
      exact ⟨before, heq ▸ hr, hbatch hmessage⟩
    · exact ⟨state, hif, hmessage⟩
  cases h with
  | insert _ _ => exact .inl ⟨state, hstate, hmessage⟩
  | start hr =>
    rw [relays_setRelay] at hstate
    split at hstate
    · cases hstate
      cases hmessage
    · exact .inl ⟨state, hstate, hmessage⟩
  | claimRefused hr | crash hr =>
    rw [relays_setRelay] at hstate
    split at hstate
    · cases hstate
    · exact .inl ⟨state, hstate, hmessage⟩
  | requeue hr | publish hr | publishFails hr | publishLost hr =>
    refine .inl (hmove hr ((relays_setRelay _ _ _ _).symm.trans hstate) ?_)
    exact id
  | @claim _ now _ returned hr hreturned _ =>
    replace hstate := (relays_setRelay _ _ _ _).symm.trans hstate
    split at hstate
    · cases hstate
      rw [RelayState.batch_next] at hmessage
      obtain ⟨row, hrow, rfl⟩ := List.mem_map.1 hmessage
      obtain ⟨id, hid, hfind⟩ := List.mem_filterMap.1 hrow
      obtain rfl : row.outboxId = id := Table.key_of_find? hfind
      refine .inr ⟨row, hfind, rfl, ?_⟩
      refine List.count_pos_iff.2 (List.mem_append_right _ ?_)
      exact List.mem_map_of_mem hid
    · exact .inl ⟨state, hstate, hmessage⟩
  | markPublished hr | markPending hr =>
    refine .inl (hmove hr ((relays_setRelay _ _ _ _).symm.trans hstate) ?_)
    rw [RelayState.batch_next]
    exact List.mem_cons_of_mem _

/-- A relay waits to mark a row PUBLISHED only where the record is stored. -/
theorem accepted_of_step (h : Step settings σ a σ') {relay partition offset : ℕ}
    {message : WalletOutboxMessage} {rest : List WalletOutboxMessage}
    (hstate : σ'.relays relay = some (.accepted message partition offset rest)) :
    σ.relays relay = some (.accepted message partition offset rest) ∨
      Stored σ' message.message partition offset ∧ .published message.outboxId ∈ σ'.history := by
  have hnext : ∀ messages, some (RelayState.next messages) ≠
      some (.accepted message partition offset rest) := by
    intro messages heq
    cases messages <;> cases heq
  cases h with
  | insert _ _ => exact .inl hstate
  | start _ | claimRefused _ | crash _ | requeue _ | publishFails _ | publishLost _ =>
    replace hstate := (relays_setRelay _ _ _ _).symm.trans hstate
    split at hstate
    · cases hstate
    · exact .inl hstate
  | claim _ _ _ | markPublished _ | markPending _ =>
    replace hstate := (relays_setRelay _ _ _ _).symm.trans hstate
    split at hstate
    · exact absurd hstate (hnext _)
    · exact .inl hstate
  | publish _ =>
    replace hstate := (relays_setRelay _ _ _ _).symm.trans hstate
    split at hstate
    · cases hstate
      exact .inr ⟨stored_store σ _ _, List.mem_append_right _ (List.mem_singleton_self _)⟩
    · exact .inl hstate

/-- Only stored rows are claimed. -/
theorem claims_of_step (h : Step settings σ a σ') {id : ℕ} (hnone : σ.outbox.find? id = none) :
    σ'.claims id = σ.claims id := by
  cases h with
  | insert _ _ | publish _ => simp [claims]
  | @claim _ _ _ returned _ hreturned _ =>
    have hnodup : returned.Nodup := hreturned.nodup_iff.2 (nodup_claimable _ _ _ _)
    have hmem : id ∉ returned := by
      intro hmem
      obtain ⟨row, hrow, rfl⟩ := List.mem_map.1 (hreturned.mem_iff.1 hmem)
      have hstored := (mem_dueRows.1 (mem_dueRows_of_claimable hrow)).1
      exact Table.find?_eq_none_iff.1 hnone row hstored rfl
    simp [claims, count_claimed returned hnodup, hmem]
  | _ => rfl

/-- A row after a step is a new one, or what the step makes of a row before. -/
theorem row_cases (h : Step settings σ a σ') {id : ℕ} {row' : OutboxRow}
    (hrow' : σ'.outbox.find? id = some row') :
    (σ.outbox.find? id = none ∧ ∃ message now, a = .insert id message now ∧
        row' = .new id message now ∧ σ'.history = σ.history ++ [.inserted id]) ∨
      ∃ row, σ.outbox.find? id = some row ∧ RowStep settings σ σ' row a row' := by
  cases hrow : σ.outbox.find? id with
  | none => exact .inl ⟨rfl, new_of_step h hrow hrow'⟩
  | some row =>
    obtain rfl : row.outboxId = id := Table.key_of_find? hrow
    obtain ⟨next, hnext, hstep⟩ := row_of_step h hrow
    obtain rfl : next = row' := Option.some.inj (hnext.symm.trans hrow')
    exact .inr ⟨row, rfl, hstep⟩

theorem kept_step (hkept : Kept σ) (h : Step settings σ a σ') : Kept σ' where
  attempts id row' hrow' := by
    rcases row_cases h hrow' with ⟨hnone, message, now, -, rfl, -⟩ | ⟨row, hrow, hstep⟩
    · rw [claims_of_step h hnone, hkept.unclaimed id hnone]
      rfl
    · obtain rfl : row.outboxId = id := Table.key_of_find? hrow
      have hattempts := hkept.attempts _ row hrow
      cases hstep with
      | keep _ hclaims => rw [hclaims, hattempts]
      | requeue hclaims => rw [hclaims, OutboxRow.attempts_requeue, hattempts]
      | claim _ _ hlt hclaims =>
        rw [hclaims, OutboxRow.claim_of_lt hlt]
        exact congrArg (· + 1) hattempts
      | markPublished _ _ hclaims | markPending _ _ hclaims =>
        rw [hclaims]
        exact hattempts
  unclaimed id hnone' := by
    have hnone : σ.outbox.find? id = none := by
      cases hrow : σ.outbox.find? id with
      | none => rfl
      | some row =>
        obtain rfl : row.outboxId = id := Table.key_of_find? hrow
        obtain ⟨next, hnext, -⟩ := row_of_step h hrow
        exact absurd (hnone'.symm.trans hnext) (by simp)
    rw [claims_of_step h hnone, hkept.unclaimed id hnone]
  published id row' hrow' hstatus := by
    rcases row_cases h hrow' with ⟨-, message, now, -, rfl, -⟩ | ⟨row, hrow, hstep⟩
    · cases hstatus
    · have hbefore : row.status = .PUBLISHED → ∃ partition offset,
          row.publishedPartition = some partition ∧ row.publishedOffset = some offset ∧
            Stored σ' row.message partition offset := by
        intro hpublished
        obtain ⟨partition, offset, hp, ho, hstored⟩ := hkept.published id row hrow hpublished
        exact ⟨partition, offset, hp, ho, hstored.of_step h⟩
      cases hstep with
      | keep _ _ => exact hbefore hstatus
      | requeue _ =>
        have hsame := OutboxRow.requeue_of_published hstatus
        rw [hsame] at hstatus ⊢
        exact hbefore hstatus
      | claim _ _ hlt _ =>
        rw [OutboxRow.claim_of_lt hlt] at hstatus
        cases hstatus
      | @markPublished relay now message partition offset rest hr hid _ =>
        obtain ⟨row', hrow', hmessage⟩ := hkept.batch _ _ hr message (List.mem_cons_self ..)
        have hid' : row.outboxId = id := Table.key_of_find? hrow
        rw [← hid, hid', hrow] at hrow'
        obtain rfl : row = row' := Option.some.inj hrow'
        refine ⟨partition, offset, rfl, rfl, ?_⟩
        have hstored := (hkept.accepted _ _ _ _ _ hr).of_step h
        rw [← hmessage] at hstored
        exact hstored
      | markPending _ _ _ => cases hstatus
  batch relay state hstate message hmessage := by
    rcases batch_of_step h hstate hmessage with ⟨before, hbefore, hmem⟩ | ⟨row, hrow, heq, -⟩
    · obtain ⟨row, hrow, heq⟩ := hkept.batch relay before hbefore message hmem
      have hid : row.outboxId = message.outboxId := Table.key_of_find? hrow
      rw [← hid] at hrow ⊢
      obtain ⟨row', hrow', hstep⟩ := row_of_step h hrow
      exact ⟨row', hrow', hstep.message_eq.trans heq⟩
    · exact ⟨row, hrow, heq⟩
  accepted relay message partition offset rest hstate := by
    rcases accepted_of_step h hstate with hbefore | ⟨hstored, -⟩
    · exact (hkept.accepted _ _ _ _ _ hbefore).of_step h
    · exact hstored

theorem kept_run {actions : List RelayAction} (h : runAll settings actions = some σ) : Kept σ :=
  Machine.inv_of_run (fun hkept hstep => kept_step hkept (step_cases hstep)) h kept_initial

/-- Every row stays, with its message. -/
theorem row_of_run {actions : List RelayAction}
    (h : Machine.run (step settings) σ actions = some σ') {id : ℕ} {row : OutboxRow}
    (hrow : σ.outbox.find? id = some row) :
    ∃ row', σ'.outbox.find? id = some row' ∧ row'.message = row.message := by
  let R : RelaySystem → RelaySystem → Prop := fun σ σ' => ∀ id row,
    σ.outbox.find? id = some row →
      ∃ row', σ'.outbox.find? id = some row' ∧ row'.message = row.message
  have hR : R σ σ' := by
    refine Machine.rel_of_run (fun σ id row hrow => ⟨row, hrow, rfl⟩) ?_ ?_ h
    · intro a b c hab hbc id row hrow
      obtain ⟨row', hrow', hmessage⟩ := hab id row hrow
      obtain ⟨row'', hrow'', hmessage'⟩ := hbc id row' hrow'
      exact ⟨row'', hrow'', hmessage'.trans hmessage⟩
    · intro a b act hstep id row hrow
      obtain rfl : row.outboxId = id := Table.key_of_find? hrow
      obtain ⟨row', hrow', hrowStep⟩ := row_of_step (step_cases hstep) hrow
      exact ⟨row', hrow', hrowStep.message_eq⟩
  exact hR id row hrow

/-- What was inserted is stored. -/
theorem row_of_insert {actions : List RelayAction} (h : runAll settings actions = some σ)
    {id : ℕ} {message : NewWalletOutboxMessage} {now : ℤ}
    (hinsert : .insert id message now ∈ actions) :
    ∃ row, σ.outbox.find? id = some row ∧ row.message = message := by
  obtain ⟨before, after, rfl⟩ := List.append_of_mem hinsert
  rw [runAll, Machine.run_append] at h
  obtain ⟨τ, -, h⟩ := Option.bind_eq_some_iff.1 h
  rw [Machine.run_cons] at h
  obtain ⟨τ', hstep, h⟩ := Option.bind_eq_some_iff.1 h
  cases step_cases hstep with
  | insert hid _ =>
    have hself := Table.find?_insert_self (t := τ.outbox) (r := OutboxRow.new id message now) hid
    exact row_of_run h hself

/-- A stale row is PENDING and due after the requeue. -/
theorem requeue_stale {relay : ℕ} {now : ℤ} (h : Step settings σ (.requeue relay now) σ') {id : ℕ}
    {row : OutboxRow} (hrow : σ.outbox.find? id = some row) (hstatus : row.status = .PROCESSING)
    (hstale : row.updatedAt ≤ now - settings.staleAfterSeconds) :
    ∃ row', σ'.outbox.find? id = some row' ∧ row'.status = .PENDING ∧ row'.nextAttemptAt = now := by
  cases h with
  | requeue _ =>
    refine ⟨_, (find?_requeueRows _ _ _ _).trans (congrArg (Option.map _) hrow), ?_⟩
    simp [OutboxRow.requeue, hstatus, hstale]

/-- In every reachable state all rows that were ever inserted are stored with
their messages, the attempts of a row count its claims, and the status of a row
is what it says: a PUBLISHED row names the place of its record in the broker, a
PENDING row is taken by the next claim once it is due unless the batch is full
of rows before it, and a PROCESSING row becomes PENDING when it is stale. -/
theorem outbox_keeps_rows (settings : RelaySettings) (actions : List RelayAction)
    (σ : RelaySystem) (h : runAll settings actions = some σ) :
    (∀ id message now, .insert id message now ∈ actions →
      ∃ row, σ.outbox.find? id = some row ∧ row.message = message) ∧
    ∀ id row, σ.outbox.find? id = some row →
      row.attempts = σ.history.count (.claimed id) ∧
      match row.status with
      | .PUBLISHED =>
        ∃ partition offset record, row.publishedPartition = some partition ∧
          row.publishedOffset = some offset ∧
          (σ.broker row.message.topic partition)[offset]? = some record ∧
          record.key = row.message.messageKey ∧ record.value = row.message.payload
      | .PENDING =>
        ∀ now limit locked, row.nextAttemptAt ≤ now → id ∉ locked →
          row ∈ claimable σ.outbox now limit locked ∨
            (claimable σ.outbox now limit locked).length = limit ∧
              ∀ other ∈ claimable σ.outbox now limit locked, other.outboxId < id
      | .PROCESSING =>
        ∀ relay now σ', σ.step settings (.requeue relay now) = some σ' →
          row.updatedAt ≤ now - settings.staleAfterSeconds →
          ∃ row', σ'.outbox.find? id = some row' ∧ row'.status = .PENDING ∧
            row'.nextAttemptAt = now := by
  have hkept := kept_run h
  refine ⟨fun id message now hinsert => row_of_insert h hinsert, fun id row hrow => ?_⟩
  refine ⟨hkept.attempts id row hrow, ?_⟩
  cases hstatus : row.status with
  | PUBLISHED =>
    obtain ⟨partition, offset, hp, ho, hstored⟩ := hkept.published id row hrow hstatus
    exact ⟨partition, offset, _, hp, ho, hstored, rfl, rfl⟩
  | PENDING =>
    intro now limit locked hdue hlocked
    obtain rfl : row.outboxId = id := Table.key_of_find? hrow
    exact mem_claimable_or_full
      (mem_dueRows.2 ⟨Table.mem_of_find? hrow, hstatus, hdue, hlocked⟩) limit
  | PROCESSING =>
    intro relay now σ' hstep hstale
    exact requeue_stale (step_cases hstep) hrow hstatus hstale

/-- The message of a deposit of user 1, published under the user's key. -/
def depositMessage (dedupeKey : String) : NewWalletOutboxMessage where
  dedupeKey := dedupeKey
  topic := walletEventsTopic
  partition := none
  messageKey := "1"
  payloadType := "WalletEvent"
  payload := .walletEvent (.depositApplied
    { eventId := some dedupeKey, requestId := "r", userId := 1, asset := .USDC, amount := 100,
      referenceId := dedupeKey, total := 100, locked := 0 })

/-- The topics of the wallet, batches of up to ten rows, stale after a minute. -/
def twoTopics : RelaySettings where
  walletEventsTopic := walletEventsTopic
  engineInputTopic := "engine.input"
  batchLimit := 10
  staleAfterSeconds := 60

/-- Relay 0 claims a row and stalls. A minute later relay 1 claims it again,
publishes it and marks it; then the publication of relay 0 fails. -/
def overtaken : List RelayAction :=
  [.insert 1 (depositMessage "d") 0, .start 0, .requeue 0 1, .claim 0 1 [] [1], .start 1,
    .requeue 1 61, .claim 1 61 [] [1], .publish 1 0, .markPublished 1 62,
    .publishFails 0 "timed out" none, .markPending 0 63]

theorem outbox_keeps_rows_overtaken :
    ∃ σ, runAll twoTopics overtaken = some σ ∧
      ∃ row, σ.outbox.find? 1 = some row ∧ row.message = depositMessage "d" := by
  have hrun : (runAll twoTopics overtaken).isSome := by decide
  obtain ⟨σ, hσ⟩ := Option.isSome_iff_exists.1 hrun
  exact ⟨σ, hσ, (outbox_keeps_rows twoTopics overtaken σ hσ).1 1 _ 0 (.head _)⟩

/-! ## PUBLISHED -/

/-- A row is stored as PUBLISHED. -/
def isPublished (σ : RelaySystem) (id : ℕ) : Bool :=
  (σ.outbox.find? id).any fun row => row.status = .PUBLISHED

theorem isPublished_iff {id : ℕ} :
    σ.isPublished id ↔ ∃ row, σ.outbox.find? id = some row ∧ row.status = .PUBLISHED := by
  simp [isPublished, Option.any_eq_true]

/-- In no run does a row leave PUBLISHED or is claimed after it was. -/
def PublishedFinal (settings : RelaySettings) (actions : List RelayAction) : Prop :=
  ∀ n m σ σ', n ≤ m → runAll settings (actions.take n) = some σ →
    runAll settings (actions.take m) = some σ' → ∀ id, σ.isPublished id →
      σ'.isPublished id ∧ σ'.history.count (.claimed id) = σ.history.count (.claimed id)

/-- A relay whose publication has failed is about to mark a row that is PUBLISHED. -/
def Overwrites (σ : RelaySystem) : RelayAction → Prop
  | .markPending relay _ =>
    ∃ message error rest, σ.relays relay = some (.failed message error rest) ∧
      σ.isPublished message.outboxId
  | _ => False

/-- Only the mark of a failed publication ends PUBLISHED. -/
theorem published_of_step (h : Step settings σ a σ') (hkeeps : ¬Overwrites σ a) {id : ℕ}
    (hpublished : σ.isPublished id) : σ'.isPublished id ∧ σ'.claims id = σ.claims id := by
  obtain ⟨row, hrow, hstatus⟩ := isPublished_iff.1 hpublished
  obtain rfl : row.outboxId = id := Table.key_of_find? hrow
  obtain ⟨row', hrow', hstep⟩ := row_of_step h hrow
  have hnext : row'.status = .PUBLISHED → σ'.isPublished row.outboxId := fun hstatus' =>
    isPublished_iff.2 ⟨row', hrow', hstatus'⟩
  cases hstep with
  | keep _ hclaims => exact ⟨hnext hstatus, hclaims⟩
  | @requeue _ now hclaims =>
    have hsame : (row.requeue settings.staleAfterSeconds now).status = .PUBLISHED := by
      rw [OutboxRow.requeue, if_neg (by simp [hstatus])]
      exact hstatus
    exact ⟨hnext hsame, hclaims⟩
  | claim hpending _ _ _ => cases hstatus.symm.trans hpending
  | markPublished _ _ hclaims => exact ⟨hnext rfl, hclaims⟩
  | markPending hr hid _ => exact absurd ⟨_, _, _, hr, hid ▸ hpublished⟩ hkeeps

/-- The mark of a failed publication ends PUBLISHED. -/
theorem not_published_of_overwrites (h : Step settings σ a σ') (hoverwrites : Overwrites σ a) :
    ∃ id, σ.isPublished id ∧ ¬σ'.isPublished id := by
  cases h with
  | @markPending relay now message error rest hr =>
    obtain ⟨message', error', rest', hr', hpublished⟩ := hoverwrites
    rw [hr] at hr'
    cases hr'
    refine ⟨message.outboxId, hpublished, fun hafter => ?_⟩
    obtain ⟨row, hrow, -⟩ := isPublished_iff.1 hpublished
    obtain ⟨row', hrow', hstatus'⟩ := isPublished_iff.1 hafter
    have hself := Table.find?_modify_self (fun row => row.outboxId_markPending error now) hrow
    cases hrow'.symm.trans hself
    cases hstatus'
  | _ => exact hoverwrites.elim

/-- PUBLISHED is final in a run exactly when no relay whose publication of a row
has failed marks it after another relay has marked it PUBLISHED. -/
theorem published_final_iff (settings : RelaySettings) (actions : List RelayAction) :
    PublishedFinal settings actions ↔
      Machine.Along (step settings) (fun σ a => ¬Overwrites σ a) initial actions := by
  constructor
  · intro hfinal n σ a hσ ha hoverwrites
    have hsucc : runAll settings (actions.take (n + 1)) =
        (runAll settings (actions.take n)).bind fun s' => step settings s' a :=
      Machine.run_take_succ ha
    rw [show runAll settings (actions.take n) = some σ from hσ, Option.bind_some] at hsucc
    cases hstep : σ.step settings a with
    | none =>
      cases a with
      | markPending relay now =>
        obtain ⟨message, error, rest, hr, -⟩ := hoverwrites
        simp [step, hr] at hstep
      | _ => exact hoverwrites
    | some σ' =>
      rw [hstep] at hsucc
      obtain ⟨id, hbefore, hafter⟩ := not_published_of_overwrites (step_cases hstep) hoverwrites
      exact hafter (hfinal n (n + 1) σ σ' (Nat.le_succ n) hσ hsucc id hbefore).1
  · intro halong n m σ σ' hnm hσ hσ' id hpublished
    induction m, hnm using Nat.le_induction generalizing σ' with
    | base =>
      obtain rfl : σ = σ' := Option.some.inj (hσ.symm.trans hσ')
      exact ⟨hpublished, rfl⟩
    | succ m hnm ih =>
      cases ha : actions[m]? with
      | none =>
        have hlen := List.getElem?_eq_none_iff.1 ha
        rw [List.take_of_length_le (by omega)] at hσ'
        exact ih σ' (by rwa [List.take_of_length_le hlen])
      | some a =>
        rw [runAll, Machine.run_take_succ ha] at hσ'
        obtain ⟨τ, hτ, hstep⟩ := Option.bind_eq_some_iff.1 hσ'
        obtain ⟨hτpublished, hclaims⟩ := ih τ hτ
        obtain ⟨hpublished', hclaims'⟩ :=
          published_of_step (step_cases hstep) (halong m τ a hτ ha) hτpublished
        exact ⟨hpublished', hclaims'.trans hclaims⟩

/-- The row that relay 1 has published is PENDING again after relay 0. -/
theorem overtaken_not_publishedFinal : ¬PublishedFinal twoTopics overtaken := by
  intro hfinal
  have hbefore : (runAll twoTopics (overtaken.take 9)).map (isPublished · 1) = some true := by decide
  have hafter : (runAll twoTopics (overtaken.take 11)).map (isPublished · 1) = some false := by decide
  obtain ⟨σ, hσ, hpublished⟩ := Option.map_eq_some_iff.1 hbefore
  obtain ⟨σ', hσ', hpending⟩ := Option.map_eq_some_iff.1 hafter
  have h := (hfinal 9 11 σ σ' (by decide) hσ hσ' 1 hpublished).1
  rw [hpending] at h
  cases h

end RelaySystem

end Wallet
