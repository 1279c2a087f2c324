import ExchangeServer.Ledger.ExactlyOnce
import ExchangeServer.Wallet.AtMostOnce
import ExchangeServer.Wallet.BrokerRecords
import ExchangeServer.Wallet.Reconciliation
import Mathlib.Data.List.Perm.Subperm

/-!
# From the wallet to the ledger

Wallet transactions queue events in the outbox, relays publish the rows, and the consumers
of the ledger record what they find in the broker. The three are looked at together at any
moment: the wallet's workers, the relays and the consumers may have taken their steps in
any order, have stopped anywhere and been started again. The rows of the relays are then
those of the wallet, and the log of the consumers is what the broker holds.

At every moment the ledger has recorded some of the wallet's events, each at most once.
When the rows of the events are PUBLISHED and the records they name consumed, it has
recorded all of them, and it shows the balances of the wallet unless a release was
repeated.

## Main results

- `events_arrive_once`: nothing is invented, counted twice or lost
- `balances_arrive_iff`: when the ledger shows the balances of the wallet
-/

namespace Ledger

open Protocol Relational Transactional Wallet

/-! ## The log -/

/-- The event that a value decodes to. -/
def decodeWalletEvent : OutboxPayload → Option WalletEvent
  | .walletEvent event => some event
  | .engineCommand _ => none

/-- The record at an offset of the broker. -/
def logRecord (offset : ℕ) (record : BrokerRecord) : LogRecord :=
  ⟨offset, decodeWalletEvent record.value⟩

/-- A topic of the broker. -/
def brokerLog (σ : RelaySystem) (topic : String) : TopicLog where
  topic := topic
  records
    | .ofNat partition => (σ.broker topic partition).mapIdx logRecord
    | .negSucc _ => []
  sorted partition := by
    cases partition with
    | ofNat partition =>
      refine List.pairwise_iff_getElem.2 fun i j hi hj hij => ?_
      simpa [logRecord] using hij
    | negSucc => exact .nil

theorem mem_brokerLog {σ : RelaySystem} {topic : String} {partition : ℤ} {record : LogRecord} :
    record ∈ (brokerLog σ topic).records partition ↔
      ∃ (p offset : ℕ) (stored : BrokerRecord), partition = p ∧
        (σ.broker topic p)[offset]? = some stored ∧ record = logRecord offset stored := by
  constructor
  · intro h
    cases partition with
    | ofNat p =>
      obtain ⟨offset, hlt, rfl⟩ := List.mem_mapIdx.1 h
      exact ⟨p, offset, _, rfl, List.getElem?_eq_getElem hlt, rfl⟩
    | negSucc => cases h
  · rintro ⟨p, offset, stored, rfl, hstored, rfl⟩
    obtain ⟨hlt, rfl⟩ := List.getElem?_eq_some_iff.1 hstored
    exact List.mem_mapIdx.2 ⟨offset, hlt, rfl⟩

/-! ## Events of the outbox -/

/-- The events in the outbox of a wallet. -/
def queuedEvents (d : WalletDb) : List WalletEvent :=
  d.walletOutbox.rows.filterMap fun message => decodeWalletEvent message.payload

/-- The events that the ledger has recorded. -/
def recordedEvents (d : LedgerDb) : List WalletEvent :=
  d.ledgerEvents.rows.map LedgerEventRow.payload

/-- The rows that the relays work on are those of the wallet. -/
def SameOutbox (d : WalletDb) (σ : RelaySystem) : Prop :=
  (σ.outbox.rows.map OutboxRow.message).Perm d.walletOutbox.rows

instance (d : WalletDb) (σ : RelaySystem) : Decidable (SameOutbox d σ) :=
  inferInstanceAs (Decidable (List.Perm _ _))

section Events

variable {self : WalletProcessor} {d : WalletDb}

theorem mem_queuedEvents {event : WalletEvent} :
    event ∈ queuedEvents d ↔ ∃ message ∈ d.walletOutbox.rows, message.payload = .walletEvent event := by
  rw [queuedEvents, List.mem_filterMap]
  refine exists_congr fun message => and_congr_right fun _ => ?_
  cases message.payload <;> simp [decodeWalletEvent]

/-- Queued events have ids of their own. -/
theorem nodup_queuedEvents (hannounces : ∀ message ∈ d.walletOutbox.rows, Announces self message) :
    (queuedEvents d).Nodup := by
  have hids : ∀ messages : List NewWalletOutboxMessage,
      (∀ message ∈ messages, Announces self message) →
      ((messages.filterMap fun message => decodeWalletEvent message.payload).map eventId).Sublist
        (messages.map fun message => some message.dedupeKey) := by
    intro messages hmessages
    induction messages with
    | nil => exact .slnil
    | cons message messages ih =>
      have ih := ih fun m hm => hmessages m (List.mem_cons_of_mem _ hm)
      cases hmessages message List.mem_cons_self with
      | event event _ hpayload hid =>
        simp only [List.filterMap_cons, hpayload, decodeWalletEvent, List.map_cons, hid]
        exact ih.cons_cons _
      | input command _ hpayload =>
        simp only [List.filterMap_cons, hpayload, decodeWalletEvent, List.map_cons]
        exact ih.cons _
  have hkeys : (d.walletOutbox.rows.map fun message => some message.dedupeKey).Nodup := by
    have hmap := d.walletOutbox.unique.map (Option.some_injective String)
    rwa [List.map_map] at hmap
  exact (hkeys.sublist (hids _ hannounces)).of_map eventId

/-- A quantity summed over the outbox is summed over the queued events. -/
theorem outboxSum_eq (f : WalletEvent → ℤ) : outboxSum f d = ((queuedEvents d).map f).sum := by
  rw [outboxSum, Table.sum, queuedEvents]
  induction d.walletOutbox.rows with
  | nil => rfl
  | cons message messages ih =>
    rw [List.map_cons, List.sum_cons, ih, List.filterMap_cons]
    cases message.payload <;> simp [ofWalletEvent, decodeWalletEvent]

end Events

/-! ## The log of the wallet's events -/

section Log

variable {self : WalletProcessor} {d : WalletDb} {σ : RelaySystem}
  (hannounces : ∀ message ∈ d.walletOutbox.rows, Announces self message)
  (htopics : self.walletEventsTopic ≠ self.engineInputTopic) (hsame : SameOutbox d σ)
  (hsourced : σ.Sourced)

include hannounces htopics hsame hsourced

/-- What the topic of the events holds are queued events. -/
theorem event_of_brokerLog {partition : ℤ} {record : LogRecord}
    (h : record ∈ (brokerLog σ self.walletEventsTopic).records partition) :
    ∃ message ∈ d.walletOutbox.rows, ∃ event, message.payload = .walletEvent event ∧
      eventId event = some message.dedupeKey ∧ record.event = some event := by
  obtain ⟨p, offset, stored, -, hstored, rfl⟩ := mem_brokerLog.1 h
  obtain ⟨row, hrow, htopic, rfl⟩ := hsourced _ _ _ (List.mem_of_getElem? hstored)
  have hmem : row.message ∈ d.walletOutbox.rows := hsame.mem_iff.1 (List.mem_map_of_mem hrow)
  cases hannounces _ hmem with
  | event event _ hpayload hid =>
    refine ⟨row.message, hmem, event, hpayload, hid, ?_⟩
    simp [logRecord, NewWalletOutboxMessage.record, hpayload, decodeWalletEvent]
  | input _ hinput _ => exact absurd (htopic.symm.trans hinput) htopics

/-- The topic of the events is a log as the ledger expects it. -/
theorem exists_walletEventLog :
    ∃ log : WalletEventLog, log.toTopicLog = brokerLog σ self.walletEventsTopic := by
  refine ⟨{ brokerLog σ self.walletEventsTopic with
    decodes := ?_
    named := ?_
    consistent := ?_ }, rfl⟩
  · intro partition record hrecord
    obtain ⟨-, -, event, -, -, hevent⟩ :=
      event_of_brokerLog hannounces htopics hsame hsourced hrecord
    rw [hevent]
    rfl
  · intro partition record hrecord event hmem
    obtain ⟨message, -, event', -, hid, hevent⟩ :=
      event_of_brokerLog hannounces htopics hsame hsourced hrecord
    obtain rfl : event' = event := Option.some.inj (hevent.symm.trans hmem)
    rw [hid]
    rfl
  · intro partition partition' record hrecord record' hrecord' event hevent event' hevent' hids
    obtain ⟨message, hmessage, e, hpayload, hid, he⟩ :=
      event_of_brokerLog hannounces htopics hsame hsourced hrecord
    obtain ⟨message', hmessage', e', hpayload', hid', he'⟩ :=
      event_of_brokerLog hannounces htopics hsame hsourced hrecord'
    obtain rfl : e = event := Option.some.inj (he.symm.trans hevent)
    obtain rfl : e' = event' := Option.some.inj (he'.symm.trans hevent')
    -- Events with one id stand in one row of the outbox.
    rw [hid, hid', Option.some_inj] at hids
    obtain rfl : message = message' :=
      List.inj_on_of_nodup_map d.walletOutbox.unique hmessage hmessage' hids
    exact OutboxPayload.walletEvent.inj (hpayload.symm.trans hpayload')

end Log

/-- What the consumers have committed keeps the invariant. -/
theorem inv_consumeAll {log : WalletEventLog} {users : List ℤ} {schedule : List (Action ℤ)}
    {τ : LedgerSystem} (h : consumeAll log.toTopicLog users schedule = some τ) :
    Inv log.toTopicLog τ.committed := by
  refine System.commits_of_steps
    (fun partition d => wlp_runWalletEventPartition (log.decodes partition) d)
    (I := fun d _ => Inv log.toTopicLog d) ?_ h (inv_empty _ users)
  exact fun d _ partition ws hinv hcommits => inv_commit hinv hcommits

/-! ## Balances of the ledger -/

/-- What the stored entries add to `total` of a user in an asset. -/
def LedgerDb.total (d : LedgerDb) (userId : ℤ) (asset : Asset) : ℤ :=
  (d.ledgerEntries.map fun row =>
    if row.draft.userId = userId ∧ row.draft.asset = asset then row.draft.totalDelta else 0).sum

/-- What the stored entries add to `locked` of a user in an asset. -/
def LedgerDb.locked (d : LedgerDb) (userId : ℤ) (asset : Asset) : ℤ :=
  (d.ledgerEntries.map fun row =>
    if row.draft.userId = userId ∧ row.draft.asset = asset then row.draft.lockedDelta else 0).sum

theorem sum_rowEntries (f : LedgerEntryDraft → ℤ) (rows : List LedgerEventRow) :
    ((rows.flatMap rowEntries).map fun row => f row.draft).sum =
      ((rows.map LedgerEventRow.payload).map fun event =>
        ((ledgerRecordFromWalletEvent event).entries.map f).sum).sum := by
  induction rows with
  | nil => rfl
  | cons row rows ih =>
    rw [List.flatMap_cons, List.map_append, List.sum_append, ih]
    simp [rowEntries, Function.comp_def]

theorem Inv.total {log : TopicLog} {d : LedgerDb} (hinv : Inv log d) (userId : ℤ) (asset : Asset) :
    d.total userId asset = ((recordedEvents d).map (totalDelta userId asset)).sum := by
  rw [LedgerDb.total, hinv.entries]
  exact sum_rowEntries
    (fun draft => if draft.userId = userId ∧ draft.asset = asset then draft.totalDelta else 0) _

theorem Inv.locked {log : TopicLog} {d : LedgerDb} (hinv : Inv log d) (userId : ℤ) (asset : Asset) :
    d.locked userId asset = ((recordedEvents d).map (lockedDelta userId asset)).sum := by
  rw [LedgerDb.locked, hinv.entries]
  exact sum_rowEntries
    (fun draft => if draft.userId = userId ∧ draft.asset = asset then draft.lockedDelta else 0) _

/-! ## Arrival -/

/-- Every row of a topic is PUBLISHED, and the record that it names is consumed. -/
def Arrived (σ : RelaySystem) (topic : String) (d : LedgerDb) : Prop :=
  ∀ row ∈ σ.outbox.rows, row.message.topic = topic → row.status = .PUBLISHED ∧
    ∀ partition ∈ row.publishedPartition, ∀ offset ∈ row.publishedOffset,
      ∃ nextOffset, d.nextOffset (topic, partition) = some nextOffset ∧ offset < nextOffset

section Arrival

variable {self : WalletProcessor} {d : WalletDb} {settings : RelaySettings}
  {actions : List RelayAction} {σ : RelaySystem} {users : List ℤ} {schedule : List (Action ℤ)}
  {τ : LedgerSystem} (hannounces : ∀ message ∈ d.walletOutbox.rows, Announces self message)
  (htopics : self.walletEventsTopic ≠ self.engineInputTopic)
  (hrelays : RelaySystem.runAll settings actions = some σ) (hsame : SameOutbox d σ)
  (hledger : consumeAll (brokerLog σ self.walletEventsTopic) users schedule = some τ)

include hannounces htopics hrelays hsame hledger

/-- The ledger has recorded queued events, each at most once. -/
theorem recorded_subperm :
    Inv (brokerLog σ self.walletEventsTopic) τ.committed ∧
      (recordedEvents τ.committed).Subperm (queuedEvents d) := by
  have hsourced := RelaySystem.sourced_run hrelays
  obtain ⟨log, hlog⟩ := exists_walletEventLog hannounces htopics hsame hsourced
  have hinv : Inv log.toTopicLog τ.committed := inv_consumeAll (hlog ▸ hledger)
  refine ⟨hlog ▸ hinv, ?_⟩
  have hids : τ.committed.ledgerEvents.rows.map LedgerEventRow.logicalEventId =
      (recordedEvents τ.committed).map eventId := by
    rw [recordedEvents, List.map_map]
    exact List.map_congr_left fun row hrow => (hinv.row hrow).2.1
  have hnodup : (recordedEvents τ.committed).Nodup := (hids ▸ hinv.nodup).of_map eventId
  refine List.subperm_of_subset hnodup fun event hevent => ?_
  obtain ⟨row, hrow, rfl⟩ := List.mem_map.1 hevent
  obtain ⟨partition, record, hrecord, hpayload⟩ := (hinv.row hrow).1
  rw [hlog] at hrecord
  obtain ⟨message, hmessage, event, hevent, -, hrecorded⟩ :=
    event_of_brokerLog hannounces htopics hsame hsourced hrecord
  obtain rfl : event = row.payload := Option.some.inj (hrecorded.symm.trans hpayload)
  exact mem_queuedEvents.2 ⟨message, hmessage, hevent⟩

/-- Once the events have arrived, the ledger has recorded all of them. -/
theorem recorded_perm (harrived : Arrived σ self.walletEventsTopic τ.committed) :
    (recordedEvents τ.committed).Perm (queuedEvents d) := by
  obtain ⟨hinv, hsubperm⟩ := recorded_subperm hannounces htopics hrelays hsame hledger
  have hsourced := RelaySystem.sourced_run hrelays
  obtain ⟨log, hlog⟩ := exists_walletEventLog hannounces htopics hsame hsourced
  refine hsubperm.antisymm (List.subperm_of_subset (nodup_queuedEvents hannounces) ?_)
  intro event hevent
  obtain ⟨message, hmessage, hpayload⟩ := mem_queuedEvents.1 hevent
  obtain ⟨row, hrow, rfl⟩ := List.mem_map.1 (hsame.mem_iff.2 hmessage)
  have htopic : row.message.topic = self.walletEventsTopic := by
    cases hannounces _ hmessage with
    | event _ htopic _ _ => exact htopic
    | input _ _ hinput => cases hpayload.symm.trans hinput
  -- The record that the row names has the event, and the ledger has a row of its id.
  obtain ⟨hstatus, hconsumed⟩ := harrived row hrow htopic
  obtain ⟨partition, offset, hpartition, hoffset, hstored⟩ :=
    (RelaySystem.kept_run hrelays).published _ row (Table.find?_of_mem hrow) hstatus
  obtain ⟨nextOffset, hnext, hlt⟩ := hconsumed partition hpartition offset hoffset
  have hrecord : logRecord offset row.message.record ∈
      (brokerLog σ self.walletEventsTopic).records partition := by
    refine mem_brokerLog.2 ⟨partition, offset, _, rfl, ?_, rfl⟩
    rw [← htopic]
    exact hstored
  have hevent' : (logRecord offset row.message.record).event = some event := by
    simp [logRecord, NewWalletOutboxMessage.record, hpayload, decodeWalletEvent]
  obtain ⟨stored, hrow', hid⟩ :=
    hinv.consumed partition _ hrecord ⟨nextOffset, hnext, hlt⟩ event hevent'
  rw [← hlog] at hinv hrecord
  obtain ⟨⟨partition', record', hrecord', hevent''⟩, hpayload', -⟩ := hinv.row hrow'
  have heq := log.consistent partition' partition record' hrecord' _ hrecord stored.payload hevent''
    event hevent' (hpayload'.symm.trans hid)
  exact List.mem_map.2 ⟨stored, hrow', heq⟩

/-- Once the events have arrived, the ledger shows what is in the outbox. -/
theorem balances_of_arrived (harrived : Arrived σ self.walletEventsTopic τ.committed) (userId : ℤ)
    (asset : Asset) : τ.committed.total userId asset = outboxSum (totalDelta userId asset) d ∧
      τ.committed.locked userId asset = outboxSum (lockedDelta userId asset) d := by
  have hinv := (recorded_subperm hannounces htopics hrelays hsame hledger).1
  have hperm := recorded_perm hannounces htopics hrelays hsame hledger harrived
  constructor
  · rw [hinv.total, outboxSum_eq, (hperm.map _).sum_eq]
  · rw [hinv.locked, outboxSum_eq, (hperm.map _).sum_eq]

end Arrival

/-- Whatever the wallet's workers, the relays and the consumers have done so far, the
ledger has recorded events that the wallet has queued, each at most once; and all of them
once they have arrived. -/
theorem events_arrive_once (self : WalletProcessor)
    (htopics : self.walletEventsTopic ≠ self.engineInputTopic) (users : List ℤ)
    (deliveries : List (Action Delivery)) (w : DeliverySystem)
    (hwallet : self.deliverAll users deliveries = some w) (settings : RelaySettings)
    (actions : List RelayAction) (σ : RelaySystem)
    (hrelays : RelaySystem.runAll settings actions = some σ) (hsame : SameOutbox w.committed σ)
    (schedule : List (Action ℤ)) (τ : LedgerSystem)
    (hledger : consumeAll (brokerLog σ self.walletEventsTopic) users schedule = some τ) :
    (recordedEvents τ.committed).Subperm (queuedEvents w.committed) ∧
      (Arrived σ self.walletEventsTopic τ.committed →
        (recordedEvents τ.committed).Perm (queuedEvents w.committed)) := by
  have hannounces := announces_deliverAll hwallet
  constructor
  · exact (recorded_subperm hannounces htopics hrelays hsame hledger).2
  · exact recorded_perm hannounces htopics hrelays hsame hledger

/-- A relay that publishes these messages, one after the other. -/
def relayed (messages : List NewWalletOutboxMessage) : List RelayAction :=
  (messages.mapIdx fun i message => .insert (i + 1) message 0) ++
    [.start 0, .requeue 0 1, .claim 0 1 [] (messages.mapIdx fun i _ => i + 1)] ++
    messages.flatMap fun _ => [.publish 0 0, .markPublished 0 2]

/-- A consumer of partition 0 that commits twice. -/
def consumed : List (Action ℤ) :=
  [.start 0 0, .exec 0, .exec 0, .exec 0, .exec 0, .commit 0, .exec 0, .exec 0, .exec 0, .commit 0]

theorem events_arrive_once_deposit :
    ∃ w σ τ, WalletProcessor.new.deliverAll [1] twoDeposits = some w ∧
      RelaySystem.runAll RelaySystem.twoTopics (relayed w.committed.walletOutbox.rows) = some σ ∧
      consumeAll (brokerLog σ walletEventsTopic) [1] (consumed.take 6) = some τ ∧
      (recordedEvents τ.committed).Perm (queuedEvents w.committed) := by
  let w := (WalletProcessor.new.deliverAll [1] twoDeposits).get (by decide)
  let σ := (RelaySystem.runAll RelaySystem.twoTopics (relayed w.committed.walletOutbox.rows)).get
    (by decide)
  let τ := (consumeAll (brokerLog σ walletEventsTopic) [1] (consumed.take 6)).get (by decide)
  have hw : WalletProcessor.new.deliverAll [1] twoDeposits = some w := (Option.some_get _).symm
  have hσ : RelaySystem.runAll RelaySystem.twoTopics (relayed w.committed.walletOutbox.rows) =
      some σ := (Option.some_get _).symm
  have hτ : consumeAll (brokerLog σ walletEventsTopic) [1] (consumed.take 6) = some τ :=
    (Option.some_get _).symm
  refine ⟨w, σ, τ, hw, hσ, hτ, ?_⟩
  refine (events_arrive_once .new (by decide) [1] twoDeposits w hw _ _ σ hσ (by decide) _ τ hτ).2 ?_
  have hrows : ∀ row ∈ σ.outbox.rows, row.status = .PUBLISHED ∧ row.publishedOffset = some 0 ∧
      row.publishedPartition = some 0 := by decide
  have hnext : τ.committed.nextOffset (walletEventsTopic, 0) = some 1 := by decide
  intro row hrow _
  obtain ⟨hstatus, hoffset, hpartition⟩ := hrows row hrow
  refine ⟨hstatus, fun partition hp offset ho => ?_⟩
  cases hpartition.symm.trans hp
  cases hoffset.symm.trans ho
  exact ⟨1, hnext, by decide⟩

/-- When the events of a run of transactions have arrived, the ledger shows the balances of
the wallet exactly if the run has repeated no release. -/
theorem balances_arrive_iff (self : WalletProcessor)
    (htopics : self.walletEventsTopic ≠ self.engineInputTopic) (users : List ℤ)
    (txs : List WalletTx) (settings : RelaySettings) (actions : List RelayAction) (σ : RelaySystem)
    (hrelays : RelaySystem.runAll settings actions = some σ)
    (hsame : SameOutbox (self.runAll txs (.empty users)) σ) (schedule : List (Action ℤ))
    (τ : LedgerSystem)
    (hledger : consumeAll (brokerLog σ self.walletEventsTopic) users schedule = some τ)
    (harrived : Arrived σ self.walletEventsTopic τ.committed) :
    (∀ u a, τ.committed.total u a = (self.runAll txs (.empty users)).total u a ∧
        τ.committed.locked u a = (self.runAll txs (.empty users)).locked u a) ↔
      self.RepeatFree txs (.empty users) := by
  have hshows := balances_of_arrived (announces_runAll users txs) htopics hrelays hsame hledger
    harrived
  have hbacked := backed_empty users
  have hrecorded : Recorded (.empty users) := fun _ h => absurd h List.not_mem_nil
  constructor
  · intro hbalances
    by_contra hrepeats
    -- The ledger shows more as locked after a repeated release.
    obtain ⟨u, a, hlt⟩ := excess_lt_of_not_repeatFree hbacked hrecorded hrepeats
    have hfinal : excess (self.runAll txs (.empty users)) u a = 0 := by
      rw [excess, ← (hshows u a).2, (hbalances u a).2, sub_self]
    exact absurd hlt (by rw [hfinal]; exact lt_irrefl 0)
  · intro hfree u a
    obtain ⟨htotal, hlocked, -⟩ := follows_runAll hbacked hrecorded hfree
    constructor
    · exact (hshows u a).1.trans (sub_eq_zero.1 (htotal u a))
    · exact (hshows u a).2.trans (sub_eq_zero.1 (hlocked u a))

theorem balances_arrive_iff_depositAndReserve :
    ∃ σ τ, RelaySystem.runAll RelaySystem.twoTopics (relayed
        (WalletProcessor.new.runAll depositAndReserve (.empty [1])).walletOutbox.rows) = some σ ∧
      consumeAll (brokerLog σ walletEventsTopic) [1] consumed = some τ ∧
      τ.committed.locked 1 .USDC = 50 := by
  let d := WalletProcessor.new.runAll depositAndReserve (.empty [1])
  let σ := (RelaySystem.runAll RelaySystem.twoTopics (relayed d.walletOutbox.rows)).get (by decide)
  let τ := (consumeAll (brokerLog σ walletEventsTopic) [1] consumed).get (by decide)
  have hσ : RelaySystem.runAll RelaySystem.twoTopics (relayed d.walletOutbox.rows) = some σ :=
    (Option.some_get _).symm
  have hτ : consumeAll (brokerLog σ walletEventsTopic) [1] consumed = some τ :=
    (Option.some_get _).symm
  have hrows : ∀ row ∈ σ.outbox.rows, row.message.topic = walletEventsTopic →
      row.status = .PUBLISHED ∧ row.publishedPartition = some 0 ∧
        ∀ offset ∈ row.publishedOffset, offset < 2 := by decide
  have hnext : τ.committed.nextOffset (walletEventsTopic, 0) = some 2 := by decide
  have harrived : Arrived σ walletEventsTopic τ.committed := by
    intro row hrow htopic
    obtain ⟨hstatus, hpartition, hoffset⟩ := hrows row hrow htopic
    refine ⟨hstatus, fun partition hp offset ho => ?_⟩
    cases hpartition.symm.trans hp
    exact ⟨2, hnext, Int.ofNat_lt.2 (hoffset offset ho)⟩
  have hfree : WalletProcessor.new.RepeatFree depositAndReserve (.empty [1]) := by
    refine ⟨?_, ?_, trivial⟩
    · rintro ⟨release, row, htx, -⟩
      cases htx
    · rintro ⟨release, row, htx, -⟩
      cases htx
  have hshown := (balances_arrive_iff .new (by decide) [1] depositAndReserve _ _ σ hσ (by decide) _ τ
    hτ harrived).2 hfree
  refine ⟨σ, τ, hσ, hτ, ?_⟩
  rw [(hshown 1 .USDC).2]
  decide

end Ledger
