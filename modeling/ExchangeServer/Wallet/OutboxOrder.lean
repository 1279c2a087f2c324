import ExchangeServer.Wallet.OutboxDelivery

/-!
# The order of publication

Rows of one topic and key are to be published in the order of their ids: the
claim takes the rows that are due by id, and the relay publishes a batch row by
row. Three things break the order in a run of one relay: `RETURNING` lists the
rows of a key in another order, a failed row waits for its retry while a later
row of its key is claimed, and the batch goes on with a later row of the key
after a failure. Without them the order holds.

## Main results

- `published_in_order`: the order holds in runs that avoid the three
-/

namespace Wallet

open Protocol Relational

/-- The stream a message belongs to. -/
def NewWalletOutboxMessage.lane (message : NewWalletOutboxMessage) : String × String :=
  (message.topic, message.messageKey)

/-- An action of a run of one relay that nobody stops. No other relay holds rows
locked. -/
def RelayAction.OfRelay (relay : ℕ) : RelayAction → Prop
  | .insert _ _ _ => True
  | .claim r _ locked _ => r = relay ∧ locked = []
  | .start r | .requeue r _ | .publish r _ | .publishFails r _ _ | .markPublished r _
  | .markPending r _ => r = relay
  | .crash _ => False

/-- Two rows were committed before either was claimed. -/
def CommittedFirst (history : List OutboxEvent) (a b : ℕ) : Prop :=
  ∃ before after, history = before ++ after ∧ .inserted a ∈ before ∧ .inserted b ∈ before ∧
    .claimed a ∉ before ∧ .claimed b ∉ before

theorem CommittedFirst.of_append {history events : List OutboxEvent} {a b : ℕ}
    (h : CommittedFirst (history ++ events) a b) (hclaimed : .claimed b ∈ history) :
    CommittedFirst history a b := by
  obtain ⟨before, after, hsplit, ha, hb, hna, hnb⟩ := h
  rcases List.append_eq_append_iff.1 hsplit with ⟨rest, rfl, -⟩ | ⟨rest, rfl, -⟩
  · exact absurd (List.mem_append_left _ hclaimed) hnb
  · exact ⟨before, rest, rfl, ha, hb, hna, hnb⟩

theorem CommittedFirst.inserted_left {history : List OutboxEvent} {a b : ℕ}
    (h : CommittedFirst history a b) : .inserted a ∈ history := by
  obtain ⟨before, after, rfl, ha, -⟩ := h
  exact List.mem_append_left _ ha

theorem CommittedFirst.inserted_right {history : List OutboxEvent} {a b : ℕ}
    (h : CommittedFirst history a b) : .inserted b ∈ history := by
  obtain ⟨before, after, rfl, -, hb, -⟩ := h
  exact List.mem_append_left _ hb

namespace RelaySystem

variable {settings : RelaySettings} {σ σ' : RelaySystem} {a : RelayAction}

/-- Of two rows of one stream that were committed before either was claimed, the
first publication of the earlier precedes every publication of the later. -/
def PublishedInOrder (σ : RelaySystem) : Prop :=
  ∀ first ∈ σ.outbox.rows, ∀ second ∈ σ.outbox.rows, first.outboxId < second.outboxId →
    first.message.lane = second.message.lane →
    CommittedFirst σ.history first.outboxId second.outboxId →
    ∀ before after, σ.history = before ++ .published second.outboxId :: after →
      .published first.outboxId ∈ before

/-- What a step of the relay must avoid: a claim that lists rows of one stream
out of order or passes over a row that waits for its retry, and a failure with a
later row of the stream in the batch. -/
def KeepsOrder (σ : RelaySystem) : RelayAction → Prop
  | .claim _ now _ returned =>
    (returned.Pairwise fun first second => ∀ row ∈ σ.outbox.rows, ∀ row' ∈ σ.outbox.rows,
      row.outboxId = first → row'.outboxId = second → row.message.lane = row'.message.lane →
        first < second) ∧
    ∀ row ∈ σ.outbox.rows, ∀ row' ∈ σ.outbox.rows, row'.outboxId ∈ returned →
      row.outboxId < row'.outboxId → row.message.lane = row'.message.lane →
      row.status = .PENDING → row.nextAttemptAt ≤ now
  | .publishFails relay _ _ =>
    ∀ state ∈ σ.relays relay, ∀ message ∈ state.batch.head?, ∀ later ∈ state.batch.tail,
      later.message.lane ≠ message.message.lane
  | _ => True

instance (σ : RelaySystem) : ∀ a, Decidable (KeepsOrder σ a)
  | .claim _ _ _ _ => inferInstanceAs (Decidable (_ ∧ _))
  | .publishFails relay _ _ => inferInstanceAs (Decidable (∀ state ∈ σ.relays relay, _))
  | .insert .. | .start _ | .requeue .. | .publish .. | .markPublished .. | .markPending ..
  | .crash _ => inferInstanceAs (Decidable True)

/-! ## The history -/

/-- What a step adds to the history. -/
theorem history_of_step (h : Step settings σ a σ') :
    ∃ events, σ'.history = σ.history ++ events ∧ ∀ event ∈ events,
      match event with
      | .inserted id => σ.outbox.find? id = none ∧ (σ'.outbox.find? id).isSome
      | .claimed id => (σ.outbox.find? id).isSome
      | .published id =>
        ∃ relay partition message rest, a = .publish relay partition ∧
          σ.relays relay = some (.sending message rest) ∧ message.outboxId = id := by
  cases h with
  | @insert outboxId message now hid _ =>
    refine ⟨[.inserted outboxId], rfl, fun event hevent => ?_⟩
    obtain rfl := List.mem_singleton.1 hevent
    refine ⟨hid, ?_⟩
    have hself := Table.find?_insert_self (t := σ.outbox) (r := .new outboxId message now) hid
    exact Option.isSome_iff_exists.2 ⟨_, hself⟩
  | @claim _ _ _ returned _ hreturned _ =>
    refine ⟨returned.map .claimed, rfl, fun event hevent => ?_⟩
    obtain ⟨id, hid, rfl⟩ := List.mem_map.1 hevent
    obtain ⟨row, hrow, rfl⟩ := List.mem_map.1 (hreturned.mem_iff.1 hid)
    have hstored := (mem_dueRows.1 (mem_dueRows_of_claimable hrow)).1
    exact Option.isSome_iff_exists.2 ⟨row, Table.find?_of_mem hstored⟩
  | publish hr =>
    refine ⟨[_], rfl, fun event hevent => ?_⟩
    obtain rfl := List.mem_singleton.1 hevent
    exact ⟨_, _, _, _, rfl, hr, rfl⟩
  | _ => exact ⟨[], (List.append_nil _).symm, fun _ h => nomatch h⟩

/-- What the history tells about the rows and the relays. -/
structure Traced (σ : RelaySystem) : Prop where
  inserted : ∀ id, .inserted id ∈ σ.history → (σ.outbox.find? id).isSome
  claimed : ∀ relay state, σ.relays relay = some state → ∀ message ∈ state.batch,
    .claimed message.outboxId ∈ σ.history
  published : ∀ id, .published id ∈ σ.history → .claimed id ∈ σ.history
  accepted : ∀ relay message partition offset rest,
    σ.relays relay = some (.accepted message partition offset rest) →
      .published message.outboxId ∈ σ.history
  marked : ∀ id row, σ.outbox.find? id = some row → row.status = .PUBLISHED →
    .published id ∈ σ.history

theorem traced_initial : Traced initial where
  inserted _ h := nomatch h
  claimed _ _ h := nomatch h
  published _ h := nomatch h
  accepted _ _ _ _ _ h := nomatch h
  marked _ _ h := nomatch h

theorem traced_step (htraced : Traced σ) (h : Step settings σ a σ') : Traced σ' := by
  obtain ⟨events, hhistory, hevents⟩ := history_of_step h
  have hmono : ∀ {event}, event ∈ σ.history → event ∈ σ'.history := fun hevent =>
    hhistory ▸ List.mem_append_left _ hevent
  refine ⟨fun id hid => ?_, fun relay state hstate message hmessage => ?_, fun id hid => ?_,
    fun relay message partition offset rest hstate => ?_, fun id row' hrow' hstatus => ?_⟩
  · rw [hhistory, List.mem_append] at hid
    rcases hid with hid | hid
    · obtain ⟨row, hrow⟩ := Option.isSome_iff_exists.1 (htraced.inserted id hid)
      obtain rfl : row.outboxId = id := Table.key_of_find? hrow
      obtain ⟨row', hrow', -⟩ := row_of_step h hrow
      exact Option.isSome_iff_exists.2 ⟨row', hrow'⟩
    · exact (hevents _ hid).2
  · rcases batch_of_step h hstate hmessage with ⟨before, hbefore, hmem⟩ | ⟨_, _, _, hclaims⟩
    · exact hmono (htraced.claimed relay before hbefore message hmem)
    · exact List.count_pos_iff.1 hclaims
  · rw [hhistory, List.mem_append] at hid
    rcases hid with hid | hid
    · exact hmono (htraced.published id hid)
    · obtain ⟨relay, partition, message, rest, -, hr, rfl⟩ := hevents _ hid
      exact hmono (htraced.claimed relay _ hr message (List.mem_cons_self ..))
  · rcases accepted_of_step h hstate with hbefore | ⟨-, hpublished⟩
    · exact hmono (htraced.accepted _ _ _ _ _ hbefore)
    · exact hpublished
  · rcases row_cases h hrow' with ⟨-, message, now, -, rfl, -⟩ | ⟨row, hrow, hstep⟩
    · cases hstatus
    · obtain rfl : row.outboxId = id := Table.key_of_find? hrow
      cases hstep with
      | keep _ _ => exact hmono (htraced.marked _ _ hrow hstatus)
      | requeue _ =>
        have hsame := OutboxRow.requeue_of_published hstatus
        rw [hsame] at hstatus
        exact hmono (htraced.marked _ _ hrow hstatus)
      | claim _ _ hlt _ =>
        rw [OutboxRow.claim_of_lt hlt] at hstatus
        cases hstatus
      | markPublished hr hid _ =>
        rw [hid]
        exact hmono (htraced.accepted _ _ _ _ _ hr)
      | markPending _ _ _ => cases hstatus

theorem mem_history_of_step (h : Step settings σ a σ') {event : OutboxEvent}
    (hevent : event ∈ σ.history) : event ∈ σ'.history := by
  obtain ⟨events, hhistory, -⟩ := history_of_step h
  exact hhistory ▸ List.mem_append_left _ hevent

/-- Rows of which the later was claimed before a step were committed first before it. -/
theorem committedFirst_before {first second : ℕ} (h : Step settings σ a σ')
    (hcommitted : CommittedFirst σ'.history first second)
    (hclaimed : .claimed second ∈ σ.history) : CommittedFirst σ.history first second := by
  obtain ⟨events, hhistory, -⟩ := history_of_step h
  rw [hhistory] at hcommitted
  exact hcommitted.of_append hclaimed

/-- A row that was inserted before a step was stored before it. -/
theorem row_before (htraced : Traced σ) (h : Step settings σ a σ') {row' : OutboxRow}
    (hrow' : row' ∈ σ'.outbox.rows) (hinserted : .inserted row'.outboxId ∈ σ.history) :
    ∃ row ∈ σ.outbox.rows, row.outboxId = row'.outboxId ∧ row.message = row'.message := by
  obtain ⟨row, hrow⟩ := Option.isSome_iff_exists.1 (htraced.inserted _ hinserted)
  have hid : row.outboxId = row'.outboxId := Table.key_of_find? hrow
  rw [← hid] at hrow
  obtain ⟨next, hnext, hstep⟩ := row_of_step h hrow
  rw [hid, Table.find?_of_mem hrow'] at hnext
  obtain rfl : row' = next := Option.some.inj hnext
  exact ⟨row, Table.mem_of_find? hrow, hid, hstep.message_eq.symm⟩

/-! ## One relay -/

/-- The messages that a relay holds. -/
def batch (σ : RelaySystem) (relay : ℕ) : List WalletOutboxMessage :=
  (σ.relays relay).elim [] RelayState.batch

theorem batch_eq {relay : ℕ} {state : RelayState} (h : σ.relays relay = some state) :
    σ.batch relay = state.batch := by
  rw [batch, h]
  rfl

/-- What a step of a run of one relay does to its batch. -/
inductive BatchStep (settings : RelaySettings) (σ σ' : RelaySystem) (relay : ℕ) : RelayAction → Prop
  | keep {act} (hbatch : σ'.batch relay = σ.batch relay) (hmarked : σ.marked act = none)
    (hclaims : ∀ id, σ'.claims id = σ.claims id) : BatchStep settings σ σ' relay act
  | claim {now returned} (hnil : σ.batch relay = [])
    (hbatch : σ'.batch relay =
      (returned.filterMap (claimRows σ.outbox now returned).find?).map outboxMessageFromRow)
    (hreturned : returned.Perm
      ((claimable σ.outbox now settings.batchLimit []).map OutboxRow.outboxId)) :
    BatchStep settings σ σ' relay (.claim relay now [] returned)
  | markPublished {now message partition offset}
    (hr : σ.relays relay = some (.accepted message partition offset (σ'.batch relay))) :
    BatchStep settings σ σ' relay (.markPublished relay now)
  | markPending {now message error}
    (hr : σ.relays relay = some (.failed message error (σ'.batch relay))) :
    BatchStep settings σ σ' relay (.markPending relay now)

theorem batch_cases (h : Step settings σ a σ') {relay : ℕ} (hone : a.OfRelay relay) :
    BatchStep settings σ σ' relay a := by
  cases h with
  | insert _ _ => exact .keep rfl rfl fun id => by simp [claims]
  | start hr | requeue hr | publish hr | publishFails hr | publishLost hr =>
    obtain rfl := hone
    refine .keep ?_ rfl fun id => by simp [claims, setRelay, store]
    simp [batch, setRelay, hr, RelayState.batch]
  | claimRefused hr =>
    obtain ⟨rfl, -⟩ := hone
    refine .keep ?_ rfl fun id => rfl
    simp [batch, setRelay, hr, RelayState.batch]
  | claim hr hreturned _ =>
    obtain ⟨rfl, rfl⟩ := hone
    refine .claim (batch_eq hr) ?_ hreturned
    simp [batch, setRelay]
  | @markPublished r now message partition offset rest hr =>
    obtain rfl := hone
    have hrest : σ.relays r = some (.accepted message partition offset
        (batch (σ.setRelay r (some (.next rest))) r)) := by
      simpa [batch, setRelay] using hr
    exact .markPublished hrest
  | @markPending r now message error rest hr =>
    obtain rfl := hone
    have hrest : σ.relays r = some (.failed message error
        (batch (σ.setRelay r (some (.next rest))) r)) := by
      simpa [batch, setRelay] using hr
    exact .markPending hrest
  | crash hr => exact hone.elim

/-- The ids of a claimed batch are those that `RETURNING` lists. -/
theorem outboxId_claimed {table : OutboxTable} {ids : List ℕ}
    (hstored : ∀ id ∈ ids, (table.find? id).isSome) :
    ((ids.filterMap table.find?).map outboxMessageFromRow).map WalletOutboxMessage.outboxId = ids := by
  induction ids with
  | nil => rfl
  | cons id ids ih =>
    obtain ⟨row, hrow⟩ := Option.isSome_iff_exists.1 (hstored id (List.mem_cons_self ..))
    have hid : row.outboxId = id := Table.key_of_find? hrow
    have hrest := ih fun id hid => hstored id (List.mem_cons_of_mem _ hid)
    rw [List.filterMap_cons_some hrow, List.map_cons, List.map_cons, hrest]
    exact congrArg (· :: ids) hid

theorem isSome_find?_claimRows {table : OutboxTable} {now : ℤ} {limit : ℕ} {locked : List ℕ}
    {returned : List ℕ}
    (hreturned : returned.Perm ((claimable table now limit locked).map OutboxRow.outboxId)) :
    ∀ id ∈ returned, ((claimRows table now returned).find? id).isSome := by
  intro id hid
  obtain ⟨row, hrow, rfl⟩ := List.mem_map.1 (hreturned.mem_iff.1 hid)
  have hstored := (mem_dueRows.1 (mem_dueRows_of_claimable hrow)).1
  rw [find?_claimRows, Table.find?_of_mem hstored]
  rfl

/-- A claim keeps the message of every row. -/
theorem message_claimRows {table : OutboxTable} {now : ℤ} {ids : List ℕ} {id : ℕ} {row : OutboxRow}
    (h : (claimRows table now ids).find? id = some row) :
    ∃ before ∈ table.rows, before.outboxId = id ∧ row.outboxId = id ∧
      row.message = before.message := by
  have hid : row.outboxId = id := Table.key_of_find? h
  rw [find?_claimRows] at h
  obtain ⟨before, hbefore, rfl⟩ := Option.map_eq_some_iff.1 h
  refine ⟨before, Table.mem_of_find? hbefore, Table.key_of_find? hbefore, hid, ?_⟩
  split <;> simp

/-- A relay waits to mark a row PENDING only after a failure. -/
theorem failed_of_step (h : Step settings σ a σ') {relay : ℕ} {message : WalletOutboxMessage}
    {error : String} {rest : List WalletOutboxMessage}
    (hstate : σ'.relays relay = some (.failed message error rest)) :
    σ.relays relay = some (.failed message error rest) ∨
      σ.relays relay = some (.sending message rest) ∧
        ∃ stored, a = .publishFails relay error stored := by
  have hnext : ∀ messages, some (RelayState.next messages) ≠
      some (.failed message error rest) := by
    intro messages heq
    cases messages <;> cases heq
  cases h with
  | insert _ _ => exact .inl hstate
  | start _ | claimRefused _ | crash _ | requeue _ | publish _ =>
    replace hstate := (relays_setRelay _ _ _ _).symm.trans hstate
    split at hstate
    · cases hstate
    · exact .inl hstate
  | claim _ _ _ | markPublished _ | markPending _ =>
    replace hstate := (relays_setRelay _ _ _ _).symm.trans hstate
    split at hstate
    · exact absurd hstate (hnext _)
    · exact .inl hstate
  | publishFails hr | publishLost hr =>
    replace hstate := (relays_setRelay _ _ _ _).symm.trans hstate
    split at hstate
    · next heq =>
      cases hstate
      subst heq
      exact .inr ⟨hr, _, rfl⟩
    · exact .inl hstate

/-- What holds in a run of one relay that keeps the order. -/
structure Ordered (relay : ℕ) (σ : RelaySystem) : Prop where
  kept : Kept σ
  traced : Traced σ
  processing : ∀ id row, σ.outbox.find? id = some row → row.status = .PROCESSING →
    id ∈ (σ.batch relay).map WalletOutboxMessage.outboxId
  sorted : (σ.batch relay).Pairwise fun first second =>
    first.message.lane = second.message.lane → first.outboxId < second.outboxId
  failed : ∀ message error rest, σ.relays relay = some (.failed message error rest) →
    ∀ later ∈ rest, later.message.lane ≠ message.message.lane
  earlier : ∀ message ∈ σ.batch relay, ∀ row ∈ σ.outbox.rows, row.outboxId < message.outboxId →
    row.message.lane = message.message.lane →
    CommittedFirst σ.history row.outboxId message.outboxId →
    .published row.outboxId ∈ σ.history ∨
      row.outboxId ∈ (σ.batch relay).map WalletOutboxMessage.outboxId
  inOrder : PublishedInOrder σ

theorem ordered_initial (relay : ℕ) : Ordered relay initial where
  kept := kept_initial
  traced := traced_initial
  processing _ _ h := nomatch h
  sorted := .nil
  failed _ _ _ h := nomatch h
  earlier _ h := nomatch h
  inOrder _ h := nomatch h

theorem Ordered.claimed_of_batch {relay : ℕ} (hordered : Ordered relay σ)
    {message : WalletOutboxMessage} (hmessage : message ∈ σ.batch relay) :
    .claimed message.outboxId ∈ σ.history := by
  cases hr : σ.relays relay with
  | none =>
    rw [batch, hr] at hmessage
    cases hmessage
  | some state => exact hordered.traced.claimed relay state hr message (batch_eq hr ▸ hmessage)

/-- When the relay publishes a row, the earlier rows of its stream are published. -/
theorem Ordered.earlier_of_publish {relay : ℕ} (hordered : Ordered relay σ)
    {message : WalletOutboxMessage} {rest : List WalletOutboxMessage}
    (hr : σ.relays relay = some (.sending message rest)) {first second : OutboxRow}
    (hfirst : first ∈ σ.outbox.rows) (hsecond : second ∈ σ.outbox.rows)
    (hid : message.outboxId = second.outboxId) (hlt : first.outboxId < second.outboxId)
    (hlane : first.message.lane = second.message.lane)
    (hcommitted : CommittedFirst σ.history first.outboxId second.outboxId) :
    .published first.outboxId ∈ σ.history := by
  have hbatch : σ.batch relay = message :: rest := batch_eq hr
  have hmem : message ∈ σ.batch relay := hbatch ▸ List.mem_cons_self ..
  obtain ⟨stored, hstored, hsame⟩ := hordered.kept.batch relay _ hr message (List.mem_cons_self ..)
  rw [hid, Table.find?_of_mem hsecond] at hstored
  obtain rfl : second = stored := Option.some.inj hstored
  rw [← hid] at hlt hcommitted
  rw [hsame] at hlane
  refine (hordered.earlier message hmem first hfirst hlt hlane hcommitted).resolve_right ?_
  intro hin
  rw [hbatch, List.map_cons, List.mem_cons] at hin
  rcases hin with heq | hin
  · omega
  · obtain ⟨later, hlater, hlaterId⟩ := List.mem_map.1 hin
    have hsorted := hordered.sorted
    rw [hbatch] at hsorted
    have hlaterLane : later.message.lane = first.message.lane := by
      obtain ⟨stored', hstored', hsame'⟩ :=
        hordered.kept.batch relay _ hr later (List.mem_cons_of_mem _ hlater)
      rw [hlaterId, Table.find?_of_mem hfirst] at hstored'
      obtain rfl : first = stored' := Option.some.inj hstored'
      rw [hsame']
    have horder := List.rel_of_pairwise_cons hsorted hlater (hlane.symm.trans hlaterLane.symm)
    omega

section Step

variable {relay : ℕ} (hordered : Ordered relay σ) (h : Step settings σ a σ')
  (hone : a.OfRelay relay)

include hordered h hone

theorem processing_step {id : ℕ} {row' : OutboxRow} (hrow' : σ'.outbox.find? id = some row')
    (hstatus : row'.status = .PROCESSING) :
    id ∈ (σ'.batch relay).map WalletOutboxMessage.outboxId := by
  rcases row_cases h hrow' with ⟨-, message, now, -, rfl, -⟩ | ⟨row, hrow, hstep⟩
  · cases hstatus
  · obtain rfl : row.outboxId = id := Table.key_of_find? hrow
    -- A row that is PROCESSING before and not marked stays in the batch.
    have hbefore : row.status = .PROCESSING → σ.marked a ≠ some row.outboxId →
        row.outboxId ∈ (σ'.batch relay).map WalletOutboxMessage.outboxId := by
      intro hprocessing hmarked
      have hmem := hordered.processing _ row hrow hprocessing
      cases batch_cases h hone with
      | keep hbatch _ _ => rwa [hbatch]
      | claim hnil _ _ =>
        rw [hnil] at hmem
        cases hmem
      | markPublished hr | markPending hr =>
        rw [batch_eq hr] at hmem
        simp only [marked, hr, RelayState.batch, Option.bind_some, List.head?_cons,
          Option.map_some, ne_eq, Option.some.injEq] at hmarked
        exact (List.mem_cons.1 hmem).resolve_left (Ne.symm hmarked)
    cases hstep with
    | keep hmarked _ => exact hbefore hstatus hmarked
    | requeue _ =>
      have hsame := OutboxRow.requeue_of_processing hstatus
      rw [hsame] at hstatus
      exact hbefore hstatus (Option.some_ne_none _).symm
    | claim _ hreturned _ hclaims =>
      cases batch_cases h hone with
      | keep _ _ hkeep =>
        rw [hkeep] at hclaims
        omega
      | claim _ hbatch hperm =>
        rw [hbatch, outboxId_claimed (isSome_find?_claimRows hperm)]
        exact hreturned
    | markPublished _ _ _ | markPending _ _ _ => cases hstatus

theorem sorted_step (hkeeps : KeepsOrder σ a) :
    (σ'.batch relay).Pairwise fun first second =>
      first.message.lane = second.message.lane → first.outboxId < second.outboxId := by
  have hsorted := hordered.sorted
  cases batch_cases h hone with
  | keep hbatch _ _ => rwa [hbatch]
  | @claim now returned _ hbatch _ =>
    rw [hbatch, List.pairwise_map, List.pairwise_filterMap]
    refine hkeeps.1.imp fun {first second} hlt row hrow row' hrow' hlane => ?_
    obtain ⟨before, hbefore, hid, hrowId, hmessage⟩ := message_claimRows hrow
    obtain ⟨before', hbefore', hid', hrowId', hmessage'⟩ := message_claimRows hrow'
    change row.message.lane = row'.message.lane at hlane
    rw [hmessage, hmessage'] at hlane
    change row.outboxId < row'.outboxId
    rw [hrowId, hrowId']
    exact hlt before hbefore before' hbefore' hid hid' hlane
  | markPublished hr | markPending hr =>
    rw [batch_eq hr] at hsorted
    exact hsorted.of_cons

theorem failed_step (hkeeps : KeepsOrder σ a) {message : WalletOutboxMessage} {error : String}
    {rest : List WalletOutboxMessage}
    (hstate : σ'.relays relay = some (.failed message error rest)) :
    ∀ later ∈ rest, later.message.lane ≠ message.message.lane := by
  rcases failed_of_step h hstate with hbefore | ⟨hsending, stored, rfl⟩
  · exact hordered.failed message error rest hbefore
  · exact hkeeps _ hsending message rfl

theorem earlier_step (hkeeps : KeepsOrder σ a) {message : WalletOutboxMessage}
    (hmessage : message ∈ σ'.batch relay) {row' : OutboxRow} (hrow' : row' ∈ σ'.outbox.rows)
    (hlt : row'.outboxId < message.outboxId) (hlane : row'.message.lane = message.message.lane)
    (hcommitted : CommittedFirst σ'.history row'.outboxId message.outboxId) :
    .published row'.outboxId ∈ σ'.history ∨
      row'.outboxId ∈ (σ'.batch relay).map WalletOutboxMessage.outboxId := by
  have hmono : ∀ {event}, event ∈ σ.history → event ∈ σ'.history := mem_history_of_step h
  rcases row_cases h (Table.find?_of_mem hrow') with ⟨hnone, _, _, rfl, -⟩ | ⟨row, hrow, hstep⟩
  · -- A row inserted now was not committed before the batch was claimed.
    cases batch_cases h hone with
    | keep hbatch _ _ =>
      have hclaimed := hordered.claimed_of_batch (hbatch ▸ hmessage)
      have hinserted := (committedFirst_before h hcommitted hclaimed).inserted_left
      have hstored := hordered.traced.inserted _ hinserted
      rw [hnone] at hstored
      cases hstored
  · have hid : row.outboxId = row'.outboxId := Table.key_of_find? hrow
    rw [hstep.message_eq] at hlane
    rw [← hid] at hlt hcommitted hrow ⊢
    have hmem := Table.mem_of_find? hrow
    have hheld : message ∈ σ.batch relay → .published row.outboxId ∈ σ.history ∨
        row.outboxId ∈ (σ.batch relay).map WalletOutboxMessage.outboxId := fun hbefore =>
      hordered.earlier message hbefore row hmem hlt hlane
        (committedFirst_before h hcommitted (hordered.claimed_of_batch hbefore))
    cases batch_cases h hone with
    | keep hbatch _ _ =>
      rw [hbatch] at hmessage ⊢
      exact (hheld hmessage).imp_left hmono
    | @claim now returned hnil hbatch hperm =>
      have hids := outboxId_claimed (isSome_find?_claimRows hperm : ∀ id ∈ returned,
        ((claimRows σ.outbox now returned).find? id).isSome)
      have hreturned : message.outboxId ∈ returned := by
        rw [← hids, ← hbatch]
        exact List.mem_map_of_mem hmessage
      rw [hbatch, hids]
      cases hstatus : row.status with
      | PUBLISHED => exact .inl (hmono (hordered.traced.marked _ row hrow hstatus))
      | PROCESSING =>
        -- Only this relay processes rows, and its batch was empty.
        have hheld := hordered.processing _ row hrow hstatus
        rw [hnil] at hheld
        cases hheld
      | PENDING =>
        -- The earlier row is due, so the claim takes it as well.
        obtain ⟨later, hlater, hlaterId⟩ := List.mem_map.1 (hperm.mem_iff.1 hreturned)
        have hlaterMem := (mem_dueRows.1 (mem_dueRows_of_claimable hlater)).1
        have hlaterLane : later.message = message.message := by
          rw [hbatch] at hmessage
          obtain ⟨claimed, hclaimed, rfl⟩ := List.mem_map.1 hmessage
          obtain ⟨id, -, hfind⟩ := List.mem_filterMap.1 hclaimed
          obtain ⟨before, hbefore, hbeforeId, hclaimedId, hsame⟩ := message_claimRows hfind
          have heq : later.outboxId = before.outboxId :=
            hlaterId.trans (hclaimedId.trans hbeforeId.symm)
          have hfindLater := Table.find?_of_mem hlaterMem
          rw [heq, Table.find?_of_mem hbefore] at hfindLater
          obtain rfl : before = later := Option.some.inj hfindLater
          exact hsame.symm
        rw [← hlaterId] at hreturned hlt
        rw [← hlaterLane] at hlane
        have hdue := hkeeps.2 row hmem later hlaterMem hreturned hlt hlane hstatus
        have hclaimable := mem_claimable_of_le
          (mem_dueRows.2 ⟨hmem, hstatus, hdue, List.not_mem_nil⟩) hlt hlater
        exact .inr (hperm.mem_iff.2 (List.mem_map_of_mem hclaimable))
    | @markPublished _ done _ _ hr =>
      have hbatch : σ.batch relay = done :: σ'.batch relay := batch_eq hr
      rcases hheld (hbatch ▸ List.mem_cons_of_mem _ hmessage) with hpublished | hin
      · exact .inl (hmono hpublished)
      · rw [hbatch, List.map_cons, List.mem_cons] at hin
        rcases hin with heq | hin
        · -- The broker had accepted the row before it was marked.
          rw [heq]
          exact .inl (hmono (hordered.traced.accepted _ _ _ _ _ hr))
        · exact .inr hin
    | @markPending _ done _ hr =>
      have hbatch : σ.batch relay = done :: σ'.batch relay := batch_eq hr
      rcases hheld (hbatch ▸ List.mem_cons_of_mem _ hmessage) with hpublished | hin
      · exact .inl (hmono hpublished)
      · rw [hbatch, List.map_cons, List.mem_cons] at hin
        rcases hin with heq | hin
        · -- The failed row has no later row of its stream behind it.
          obtain ⟨stored, hstored, hsame⟩ := hordered.kept.batch relay _ hr done (List.mem_cons_self ..)
          rw [← heq, hrow] at hstored
          obtain rfl : row = stored := Option.some.inj hstored
          rw [hsame] at hlane
          exact absurd hlane.symm (hordered.failed _ _ _ hr message hmessage)
        · exact .inr hin

theorem inOrder_step : PublishedInOrder σ' := by
  intro first' hfirst' second' hsecond' hlt hlane hcommitted before after hsplit
  obtain ⟨events, hhistory, hevents⟩ := history_of_step h
  -- Both rows were stored before, as `second'` is claimed already.
  have hstored : .claimed second'.outboxId ∈ σ.history →
      CommittedFirst σ.history first'.outboxId second'.outboxId ∧
      ∃ first ∈ σ.outbox.rows, ∃ second ∈ σ.outbox.rows,
        first.outboxId = first'.outboxId ∧ second.outboxId = second'.outboxId ∧
          first.message.lane = second.message.lane := by
    intro hclaimed
    have hbefore := committedFirst_before h hcommitted hclaimed
    obtain ⟨first, hfirst, hid, hmessage⟩ :=
      row_before hordered.traced h hfirst' hbefore.inserted_left
    obtain ⟨second, hsecond, hid', hmessage'⟩ :=
      row_before hordered.traced h hsecond' hbefore.inserted_right
    refine ⟨hbefore, first, hfirst, second, hsecond, hid, hid', ?_⟩
    rw [hmessage, hmessage']
    exact hlane
  -- A publication in this step is that of the first row of the batch.
  have hpublish : .published second'.outboxId ∈ events →
      .published first'.outboxId ∈ σ.history := by
    intro hevent
    obtain ⟨r, partition, message, rest, ha, hr, hid⟩ := hevents _ hevent
    obtain rfl : r = relay := by
      rw [ha] at hone
      exact hone
    have hclaimed : .claimed second'.outboxId ∈ σ.history :=
      hid ▸ hordered.traced.claimed r _ hr message (List.mem_cons_self ..)
    obtain ⟨hbefore, first, hfirst, second, hsecond, hfirstId, hsecondId, hlane⟩ := hstored hclaimed
    rw [← hfirstId, ← hsecondId] at hbefore hlt
    rw [← hfirstId]
    exact hordered.earlier_of_publish hr hfirst hsecond (hid.trans hsecondId.symm) hlt
      hlane hbefore
  rw [hhistory] at hsplit
  rcases List.append_eq_append_iff.1 hsplit with ⟨head, rfl, hevent⟩ | ⟨tail, hold, hnew⟩
  · exact List.mem_append_left _ (hpublish (by simp [hevent]))
  · cases tail with
    | nil =>
      rw [List.append_nil] at hold
      rw [← hold]
      rw [List.nil_append] at hnew
      exact hpublish (hnew ▸ List.mem_cons_self ..)
    | cons event tail =>
      obtain ⟨rfl, -⟩ := List.cons.inj hnew
      have hpublished : .published second'.outboxId ∈ σ.history := by simp [hold]
      obtain ⟨hbefore, first, hfirst, second, hsecond, hfirstId, hsecondId, hlane⟩ :=
        hstored (hordered.traced.published _ hpublished)
      rw [← hfirstId, ← hsecondId] at hbefore hlt
      rw [← hsecondId] at hold
      rw [← hfirstId]
      exact hordered.inOrder first hfirst second hsecond hlt hlane hbefore before tail hold

theorem ordered_step (hkeeps : KeepsOrder σ a) : Ordered relay σ' where
  kept := kept_step hordered.kept h
  traced := traced_step hordered.traced h
  processing _ _ hrow hstatus := processing_step hordered h hone hrow hstatus
  sorted := sorted_step hordered h hone hkeeps
  failed _ _ _ hstate := failed_step hordered h hone hkeeps hstate
  earlier _ hmessage _ hrow hlt hlane hcommitted :=
    earlier_step hordered h hone hkeeps hmessage hrow hlt hlane hcommitted
  inOrder := inOrder_step hordered h hone

end Step

/-- In a run of one relay, publications of which may fail and are retried, the
rows of a stream that were committed before either was claimed are published in
the order of their ids, when no step is one of the three. -/
theorem published_in_order (settings : RelaySettings) (relay : ℕ) (actions : List RelayAction)
    (hone : ∀ a ∈ actions, a.OfRelay relay)
    (hkeeps : Machine.Along (step settings) KeepsOrder initial actions) (σ : RelaySystem)
    (h : runAll settings actions = some σ) : PublishedInOrder σ := by
  have halong : Machine.Along (step settings) (fun σ a => KeepsOrder σ a ∧ a.OfRelay relay)
      initial actions := fun n s a hs ha => ⟨hkeeps n s a hs ha, hone a (List.mem_of_getElem? ha)⟩
  have hordered : Ordered relay σ :=
    Machine.inv_of_along (fun hordered ha hstep =>
      ordered_step hordered (step_cases hstep) ha.2 ha.1) halong h (ordered_initial relay)
  exact hordered.inOrder

/-- Two rows of one stream in one batch; the publication of the second fails and
is retried in the next round. -/
def retried : List RelayAction :=
  [.insert 1 (depositMessage "d1") 0, .insert 2 (depositMessage "d2") 0, .start 0, .requeue 0 1,
    .claim 0 1 [] [1, 2], .publish 0 0, .markPublished 0 2, .publishFails 0 "timed out" none,
    .markPending 0 3, .requeue 0 8, .claim 0 8 [] [2], .publish 0 0, .markPublished 0 9]

theorem published_in_order_retried :
    ∃ σ, runAll twoTopics retried = some σ ∧ PublishedInOrder σ := by
  have hrun : (runAll twoTopics retried).isSome := by decide
  obtain ⟨σ, hσ⟩ := Option.isSome_iff_exists.1 hrun
  refine ⟨σ, hσ, published_in_order twoTopics 0 retried ?_ (by decide) σ hσ⟩
  simp [retried, RelayAction.OfRelay]

/-- Two rows of one stream in one batch; the publication of the first fails, and
the batch goes on with the second. -/
def swapped : List RelayAction :=
  [.insert 1 (depositMessage "d1") 0, .insert 2 (depositMessage "d2") 0, .start 0, .requeue 0 1,
    .claim 0 1 [] [1, 2], .publishFails 0 "timed out" none, .markPending 0 2, .publish 0 0,
    .markPublished 0 3, .requeue 0 7, .claim 0 7 [] [1], .publish 0 0, .markPublished 0 8]

/-- The second row is published before the first. -/
theorem swapped_not_inOrder :
    ∃ σ, (∀ a ∈ swapped, a.OfRelay 0) ∧ runAll twoTopics swapped = some σ ∧
      ¬PublishedInOrder σ := by
  have hrun : (runAll twoTopics swapped).isSome := by decide
  obtain ⟨σ, hσ⟩ := Option.isSome_iff_exists.1 hrun
  have hhistory : (runAll twoTopics swapped).map history = some
      [.inserted 1, .inserted 2, .claimed 1, .claimed 2, .published 2, .claimed 1, .published 1] := by
    decide
  have hmessages : (runAll twoTopics swapped).map (fun σ =>
      σ.outbox.rows.map fun row => (row.outboxId, row.message.lane)) =
      some [(1, (walletEventsTopic, "1")), (2, (walletEventsTopic, "1"))] := by decide
  rw [hσ, Option.map_some, Option.some_inj] at hhistory hmessages
  refine ⟨σ, by simp [swapped, RelayAction.OfRelay], hσ, fun hinOrder => ?_⟩
  obtain ⟨first, second, hrows⟩ : ∃ first second, σ.outbox.rows = [first, second] :=
    List.length_eq_two.1 (by simpa using congrArg List.length hmessages)
  rw [hrows] at hmessages
  simp only [List.map_cons, List.map_nil, List.cons.injEq, Prod.mk.injEq, and_true] at hmessages
  obtain ⟨⟨hid, hlane⟩, hid', hlane'⟩ := hmessages
  have hbad := hinOrder first (by simp [hrows]) second (by simp [hrows]) (by omega)
    (hlane.trans hlane'.symm) ⟨[.inserted 1, .inserted 2], _, hhistory, by simp [hid], by simp [hid'],
      by simp, by simp⟩ [.inserted 1, .inserted 2, .claimed 1, .claimed 2] [.claimed 1, .published 1]
    (by rw [hhistory, hid']; rfl)
  simp [hid] at hbad

end RelaySystem

end Wallet
