import ExchangeServer.Ledger.Queue

/-!
# The ledger records every event once

The outbox delivers at least once, so an event may stand in the log several
times, at later offsets or in other partitions. Whatever the order in which the
consumers take their steps and wherever they stop, the entries of the ledger are
those of the events it has recorded, each counted once, and an event whose
records have all been consumed is recorded.

The argument is one invariant of the committed data. What carries it is that a
commit either finds the event stored, or stores it with its entries, and that
the offset of a partition has passed only records whose events are stored.

## Main results

- `ledger_exactly_once`: every event is recorded exactly once
-/

namespace Ledger

open Protocol Relational Transactional Program Store

/-- The logs that the theorem is about: every record has an event, every event
has an id, and equal ids stand for equal events. -/
structure WalletEventLog extends TopicLog where
  decodes : ∀ partition, ∀ record ∈ records partition, record.event.isSome
  named : ∀ partition, ∀ record ∈ records partition, ∀ event ∈ record.event, (eventId event).isSome
  consistent : ∀ partition partition', ∀ record ∈ records partition,
    ∀ record' ∈ records partition', ∀ event ∈ record.event, ∀ event' ∈ record'.event,
      eventId event = eventId event' → event = event'

/-- An event of the log. -/
def WalletEventLog.Contains (self : WalletEventLog) (event : WalletEvent) : Prop :=
  ∃ partition, ∃ record ∈ self.records partition, record.event = some event

/-- The offset of a partition is past a record. -/
def Consumed (topic : String) (partition : ℤ) (d : LedgerDb) (record : LogRecord) : Prop :=
  ∃ nextOffset, d.nextOffset (topic, partition) = some nextOffset ∧ record.offset < nextOffset

theorem Consumed.mono {topic : String} {partition : ℤ} {d d' : LedgerDb} {record : LogRecord}
    (h : Consumed topic partition d record) (hle : LedgerDb.Grows d d') :
    Consumed topic partition d' record := by
  obtain ⟨nextOffset, hstored, hlt⟩ := h
  obtain ⟨nextOffset', hstored', hle⟩ := hle.offset _ _ hstored
  exact ⟨nextOffset', hstored', lt_of_lt_of_le hlt hle⟩

/-- A row that is refused once is refused for good. -/
theorem not_admits_mono {d d' : LedgerDb} {row : LedgerEventRow} (h : ¬d.Admits row)
    (hle : LedgerDb.Grows d d') : ¬d'.Admits row := by
  rintro ⟨hposition, hlogical⟩
  refine h ⟨?_, fun id hid => ?_⟩
  · cases hrow : d.ledgerEvents.find? row.position with
    | none => rfl
    | some stored =>
      rw [hle.event _ _ hrow] at hposition
      cases hposition
  · by_contra htaken
    rw [Bool.not_eq_false] at htaken
    obtain ⟨stored, hstored, hsame⟩ := LedgerDb.logicalTaken_iff.1 htaken
    have hstays := Table.mem_of_find? (hle.event _ _ (Table.find?_of_mem hstored))
    have htaken' := LedgerDb.logicalTaken_iff.2 ⟨stored, hstays, hsame⟩
    rw [hlogical id hid] at htaken'
    cases htaken'

/-! ## What a consumer commits -/

/-- The writes of a commit of a consumer. -/
inductive Commits (self : TopicLog) (partition : ℤ) (d : LedgerDb) : List Write → Prop
  | recorded {record event} (hmem : record ∈ self.records partition)
    (hevent : record.event = some event)
    (hprior : ∀ earlier ∈ self.records partition, earlier.offset < record.offset →
      Consumed self.topic partition d earlier)
    (hadmits : d.Admits
      (eventRow self.topic partition record.offset (ledgerRecordFromWalletEvent event))) :
    Commits self partition d
      (.insertEvent (eventRow self.topic partition record.offset (ledgerRecordFromWalletEvent event)) ::
        (ledgerRecordFromWalletEvent event).entries.map (fun draft =>
          .insertEntry ⟨(self.topic, partition, record.offset), draft⟩) ++
        [.saveOffset ⟨self.topic, partition, record.offset + 1⟩])
  | known {record event} (hmem : record ∈ self.records partition)
    (hevent : record.event = some event)
    (hprior : ∀ earlier ∈ self.records partition, earlier.offset < record.offset →
      Consumed self.topic partition d earlier)
    (hrefused : ¬d.Admits
      (eventRow self.topic partition record.offset (ledgerRecordFromWalletEvent event))) :
    Commits self partition d [.saveOffset ⟨self.topic, partition, record.offset + 1⟩]

/-- What a consumer owes; a refused statement ends it. -/
def contract (self : TopicLog) (partition : ℤ) : Contract LedgerDb Write LedgerRepositoryError where
  commits := Commits self partition
  fails _ _ := True

section Wlp

variable {C : Contract LedgerDb Write LedgerRepositoryError} (hC : ∀ e d, C.fails e d)
  {d : LedgerDb} {ws : List Write}

include hC

theorem wlp_saveQueueOffsetInTx {topic : String} {partition nextOffset : ℤ}
    {Q : Except LedgerRepositoryError Unit → LedgerDb → List Write → Prop}
    (h : Q (.ok ()) d (ws ++ [.saveOffset ⟨topic, partition, nextOffset⟩])) :
    (saveQueueOffsetInTx topic partition nextOffset).wlp LedgerDb.Grows C d ws Q := by
  refine wlp_perform.2 ⟨fun e _ => hC e d, fun v b ws' he _ => ?_⟩
  rw [execSaveQueueOffset_ok he]
  exact h

theorem wlp_insertEntries {event : Position} {drafts : List LedgerEntryDraft}
    {Q : Except LedgerRepositoryError Unit → LedgerDb → List Write → Prop}
    (h : Q (.ok ()) d (ws ++ drafts.map fun draft => .insertEntry ⟨event, draft⟩)) :
    (insertEntries event drafts).wlp LedgerDb.Grows C d ws Q := by
  induction drafts generalizing ws with
  | nil => simpa [insertEntries] using h
  | cons draft drafts ih =>
    refine wlp_bind.2 (wlp_perform.2 ⟨fun e _ => hC e d, fun v b ws' he _ => ?_⟩)
    obtain ⟨rfl, -⟩ := execInsertLedgerEntry_ok he
    refine ih ?_
    rw [List.append_assoc]
    exact h

end Wlp

/-- The offset that a transaction saves is past its record. -/
theorem consumed_view {topic : String} {partition : ℤ} {record : LogRecord} {ws : List Write}
    (hws : .saveOffset ⟨topic, partition, record.offset + 1⟩ ∈ ws) (d : LedgerDb) :
    Consumed topic partition (view ws d) record := by
  induction ws generalizing d with
  | nil => cases hws
  | cons w ws ih =>
    rw [view_cons]
    rcases List.mem_cons.1 hws with rfl | hws
    · refine Consumed.mono ?_ (grows_view ws _)
      let row : LedgerOffsetRow := ⟨topic, partition, record.offset + 1⟩
      have hoffset : (d.saveOffset row).nextOffset row.key = _ := LedgerDb.nextOffset_saveOffset row.key
      rw [if_pos rfl] at hoffset
      cases hstored : d.nextOffset row.key with
      | none =>
        rw [hstored] at hoffset
        exact ⟨_, hoffset, lt_add_one _⟩
      | some stored =>
        rw [hstored] at hoffset
        exact ⟨_, hoffset, lt_of_lt_of_le (lt_add_one _) (le_max_right _ _)⟩
    · exact ih hws _

variable {self : TopicLog} {partition : ℤ}

/-- The end of a transaction that saves the offset of its record. -/
theorem wlp_commit {record : LogRecord} {α : Type} {a : α} {d : LedgerDb} {ws : List Write}
    (hws : Commits self partition d ws)
    (hoffset : .saveOffset ⟨self.topic, partition, record.offset + 1⟩ ∈ ws) :
    (do commitTx; return a : Tx α).wlp LedgerDb.Grows (contract self partition) d ws
      fun r d' ws' => r = .ok a ∧ ws' = [] ∧ LedgerDb.Grows d d' ∧
        Consumed self.topic partition d' record := by
  refine wlp_bind.2 (wlp_commitTx.2 ⟨hws, fun d' hd' => ?_⟩)
  exact ⟨rfl, rfl, (grows_view ws d).trans hd', (consumed_view hoffset d).mono hd'⟩

/-- A consumer keeps its contract over one record, and has consumed it afterwards. -/
theorem wlp_processRecord {record : LogRecord} (hmem : record ∈ self.records partition)
    (hdecodes : record.event.isSome) {d : LedgerDb}
    (hprior : ∀ earlier ∈ self.records partition, earlier.offset < record.offset →
      Consumed self.topic partition d earlier) :
    (processRecord self.topic partition record).wlp LedgerDb.Grows (contract self partition) d []
      fun r d' ws => r = .ok () ∧ ws = [] ∧ LedgerDb.Grows d d' ∧
        Consumed self.topic partition d' record := by
  obtain ⟨event, hevent⟩ := Option.isSome_iff_exists.1 hdecodes
  rw [processRecord, hevent]
  refine wlp_bind.2 ?_
  have hfails : ∀ e d, (contract self partition).fails e d := fun _ _ => trivial
  refine wlp_mono (Q := fun r d' ws => (∃ b, r = .ok b) ∧ ws = [] ∧ LedgerDb.Grows d d' ∧
    Consumed self.topic partition d' record) ?_ ?_
  · refine wlp_bind.2 (wlp_perform.2 ⟨fun _ _ => trivial, fun v b ws he hv => ?_⟩)
    rcases execInsertLedgerEvent_ok he with ⟨hrefused, rfl, rfl⟩ | ⟨hadmits, rfl, rfl⟩
    · -- A conflict that was seen earlier is still there.
      have hrefused' := not_admits_mono hrefused (hv.rel LedgerDb.Grows.refl)
      refine wlp_bind.2 (wlp_saveQueueOffsetInTx hfails ?_)
      refine wlp_mono (wlp_commit (.known hmem hevent hprior hrefused')
        (List.mem_singleton_self _)) ?_
      · exact fun r d' ws h => ⟨⟨_, h.1⟩, h.2⟩
    · obtain rfl : v = d := hv.eq_of_ne_nil (List.cons_ne_nil _ _)
      refine wlp_bind.2 (wlp_insertEntries hfails ?_)
      refine wlp_bind.2 (wlp_saveQueueOffsetInTx hfails ?_)
      refine wlp_mono (wlp_commit (.recorded hmem hevent hprior hadmits)
        (List.mem_append_right _ (List.mem_singleton_self _))) ?_
      · exact fun r d' ws h => ⟨⟨_, h.1⟩, h.2⟩
  · rintro r d' ws ⟨⟨b, rfl⟩, h⟩
    exact ⟨rfl, h⟩

/-- A consumer keeps its contract over the rest of its records. -/
theorem wlp_processRecords {before records : List LogRecord}
    (hsplit : self.records partition = before ++ records)
    (hdecodes : ∀ record ∈ records, record.event.isSome) {d : LedgerDb}
    (hbefore : ∀ record ∈ before, Consumed self.topic partition d record) :
    (processRecords self.topic partition records).wlp LedgerDb.Grows (contract self partition) d []
      fun _ _ _ => True := by
  induction records generalizing before d with
  | nil => trivial
  | cons record records ih =>
    have hmem : record ∈ self.records partition := by simp [hsplit]
    -- Records are in the order of their offsets, so the earlier ones come before.
    have hprior : ∀ earlier ∈ self.records partition, earlier.offset < record.offset →
        Consumed self.topic partition d earlier := by
      intro earlier hearlier hlt
      have hsorted := self.sorted partition
      rw [hsplit, List.pairwise_append, List.pairwise_cons] at hsorted
      rw [hsplit] at hearlier
      rcases List.mem_append.1 hearlier with hearlier | hearlier
      · exact hbefore earlier hearlier
      · rcases List.mem_cons.1 hearlier with rfl | hearlier
        · exact absurd hlt (lt_irrefl _)
        · exact absurd hlt (not_lt_of_gt (hsorted.2.1.1 earlier hearlier))
    refine wlp_bind.2 (wlp_mono (wlp_processRecord hmem (hdecodes record (List.mem_cons_self ..))
      hprior) ?_)
    rintro r d' ws ⟨rfl, rfl, hgrows, hconsumed⟩
    have hsplit' : self.records partition = (before ++ [record]) ++ records := by
      rw [hsplit, List.append_assoc]
      rfl
    refine ih hsplit' ?_ ?_
    · exact fun record hrecord => hdecodes record (List.mem_cons_of_mem _ hrecord)
    · intro earlier hearlier
      rcases List.mem_append.1 hearlier with hearlier | hearlier
      · exact (hbefore earlier hearlier).mono hgrows
      · obtain rfl := List.mem_singleton.1 hearlier
        exact hconsumed

theorem wlp_runWalletEventPartition
    (hdecodes : ∀ record ∈ self.records partition, record.event.isSome) (d : LedgerDb) :
    (runWalletEventPartition self partition).wlp LedgerDb.Grows (contract self partition) d []
      fun _ _ _ => True := by
  refine wlp_bind.2 (wlp_perform.2 ⟨fun _ _ => trivial, fun v stored ws he hv => ?_⟩)
  cases he
  cases hstored : v.nextOffset (self.topic, partition) with
  | none =>
    have hsplit : self.records partition = [] ++ self.records partition := rfl
    exact wlp_processRecords hsplit hdecodes fun _ h => nomatch h
  | some nextOffset =>
    -- Records below the stored offset are not read again.
    let below : LogRecord → Bool := fun record => record.offset < nextOffset
    have hsplit : self.records partition =
        (self.records partition).takeWhile below ++ (self.records partition).dropWhile below :=
      List.takeWhile_append_dropWhile.symm
    refine wlp_processRecords hsplit ?_ ?_
    · exact fun record hrecord => hdecodes record ((List.dropWhile_sublist _).subset hrecord)
    · intro record hrecord
      have hlt : record.offset < nextOffset := by
        simpa [below] using List.all_eq_true.1 List.all_takeWhile record hrecord
      exact Consumed.mono ⟨nextOffset, hstored, hlt⟩ (hv.rel LedgerDb.Grows.refl)

/-! ## The invariant -/

/-- The entries of a row. -/
def rowEntries (row : LedgerEventRow) : List LedgerEntryRow :=
  (ledgerRecordFromWalletEvent row.payload).entries.map fun draft => ⟨row.position, draft⟩

/-- What holds of the committed data. -/
structure Inv (log : TopicLog) (d : LedgerDb) : Prop where
  rows : ∀ row ∈ d.ledgerEvents.rows, ∃ partition, ∃ record ∈ log.records partition, ∃ event,
    record.event = some event ∧
      row = eventRow log.topic partition record.offset (ledgerRecordFromWalletEvent event)
  entries : d.ledgerEntries = d.ledgerEvents.rows.flatMap rowEntries
  consumed : ∀ partition, ∀ record ∈ log.records partition, Consumed log.topic partition d record →
    ∀ event ∈ record.event, ∃ row ∈ d.ledgerEvents.rows, row.logicalEventId = eventId event

theorem inv_empty (self : TopicLog) (users : List ℤ) : Inv self (.empty users) where
  rows _ h := nomatch h
  entries := rfl
  consumed _ _ _ h := by
    obtain ⟨_, hstored, -⟩ := h
    cases hstored

/-- A position holds one record. -/
theorem record_eq {self : TopicLog} {partition : ℤ} {record record' : LogRecord}
    (h : record ∈ self.records partition) (h' : record' ∈ self.records partition)
    (hoffset : record.offset = record'.offset) : record = record' := by
  have hnodup : ((self.records partition).map LogRecord.offset).Nodup :=
    List.pairwise_map.2 ((self.sorted partition).imp fun h => ne_of_lt h)
  exact List.inj_on_of_nodup_map hnodup h h' hoffset

/-- What a transaction that saves the offset of a record has consumed. -/
theorem consumed_saveOffset {topic : String} {partition partition' : ℤ} {record record' : LogRecord}
    {d : LedgerDb}
    (h : Consumed topic partition' (d.saveOffset ⟨topic, partition, record.offset + 1⟩) record') :
    Consumed topic partition' d record' ∨ partition' = partition ∧ record'.offset ≤ record.offset := by
  obtain ⟨nextOffset, hstored, hlt⟩ := h
  rw [LedgerDb.nextOffset_saveOffset] at hstored
  split at hstored
  · next hkey =>
    obtain rfl : partition' = partition := congrArg Prod.snd hkey
    cases hbefore : d.nextOffset (topic, partition') with
    | none =>
      rw [hbefore] at hstored
      cases hstored
      exact .inr ⟨rfl, Int.lt_add_one_iff.1 hlt⟩
    | some stored =>
      rw [hbefore] at hstored
      cases hstored
      rcases lt_max_iff.1 hlt with hlt | hlt
      · exact .inl ⟨stored, hbefore, hlt⟩
      · exact .inr ⟨rfl, Int.lt_add_one_iff.1 hlt⟩
  · exact .inl ⟨nextOffset, hstored, hlt⟩

/-- What a transaction of a consumer has consumed was consumed before, or is its
record. -/
theorem consumed_cases {self : TopicLog} {partition partition' : ℤ} {record record' : LogRecord}
    {d : LedgerDb} (hmem : record ∈ self.records partition) (hmem' : record' ∈ self.records partition')
    (hprior : ∀ earlier ∈ self.records partition, earlier.offset < record.offset →
      Consumed self.topic partition d earlier)
    (h : Consumed self.topic partition' (d.saveOffset ⟨self.topic, partition, record.offset + 1⟩)
      record') : Consumed self.topic partition' d record' ∨ record' = record := by
  rcases consumed_saveOffset h with h | ⟨rfl, hle⟩
  · exact .inl h
  · rcases lt_or_eq_of_le hle with hlt | heq
    · exact .inl (hprior record' hmem' hlt)
    · exact .inr (record_eq hmem' hmem heq)

/-- A row that is refused has its event stored. -/
theorem stored_of_not_admits {self : TopicLog} {partition : ℤ} {d : LedgerDb} (hinv : Inv self d)
    {record : LogRecord} {event : WalletEvent} (hmem : record ∈ self.records partition)
    (hevent : record.event = some event)
    (hrefused : ¬d.Admits
      (eventRow self.topic partition record.offset (ledgerRecordFromWalletEvent event))) :
    ∃ row ∈ d.ledgerEvents.rows, row.logicalEventId = eventId event := by
  rcases not_and_or.1 hrefused with hposition | hlogical
  · -- The row at the position is that of the record itself.
    obtain ⟨row, hrow⟩ := Option.ne_none_iff_exists'.1 hposition
    have hstored := Table.mem_of_find? hrow
    obtain ⟨partition', record', hmem', event', hevent', rfl⟩ := hinv.rows row hstored
    have hkey := Table.key_of_find? hrow
    obtain ⟨-, rfl, hoffset⟩ : self.topic = self.topic ∧ partition' = partition ∧
        record'.offset = record.offset := by
      simpa [eventRow, LedgerEventRow.position] using hkey
    obtain rfl := record_eq hmem' hmem hoffset
    obtain rfl : event' = event := Option.some.inj (hevent'.symm.trans hevent)
    exact ⟨_, hstored, rfl⟩
  · push Not at hlogical
    obtain ⟨id, hid, htaken⟩ := hlogical
    obtain ⟨row, hstored, hsame⟩ := LedgerDb.logicalTaken_iff.1 (by simpa using htaken)
    exact ⟨row, hstored, hsame.trans hid.symm⟩

theorem view_insertEntries (event : Position) (drafts : List LedgerEntryDraft) (d : LedgerDb) :
    view (drafts.map fun draft => .insertEntry ⟨event, draft⟩) d =
      { d with ledgerEntries := d.ledgerEntries ++ drafts.map fun draft => ⟨event, draft⟩ } := by
  induction drafts generalizing d with
  | nil => simp [view]
  | cons draft drafts ih =>
    rw [List.map_cons, view_cons, ih]
    simp [LedgerDb.write]

/-- Every commit of a consumer keeps the invariant. -/
theorem inv_commit {self : TopicLog} {partition : ℤ} {d : LedgerDb} {ws : List Write}
    (hinv : Inv self d) (hcommits : Commits self partition d ws) : Inv self (view ws d) := by
  cases hcommits with
  | @recorded record event hmem hevent hprior hadmits =>
    let row := eventRow self.topic partition record.offset (ledgerRecordFromWalletEvent event)
    let added : LedgerDb := { d.addEvent row with
      ledgerEntries := d.ledgerEntries ++ rowEntries row }
    have hrows : added.ledgerEvents.rows = d.ledgerEvents.rows ++ [row] := by
      change (d.addEvent row).ledgerEvents.rows = _
      rw [LedgerDb.ledgerEvents_addEvent hadmits, Table.rows_insert hadmits.1]
    -- The writes together: the row, its entries and the offset.
    have hview : view (.insertEvent row ::
        (ledgerRecordFromWalletEvent event).entries.map (fun draft => .insertEntry ⟨row.position, draft⟩)
        ++ [.saveOffset ⟨self.topic, partition, record.offset + 1⟩]) d =
        added.saveOffset ⟨self.topic, partition, record.offset + 1⟩ := by
      rw [List.cons_append, view_cons, view_append, view_insertEntries]
      change LedgerDb.saveOffset _ _ = _
      refine congrArg (LedgerDb.saveOffset · _) ?_
      simp [LedgerDb.write, added, rowEntries, row, eventRow, ledgerRecordFromWalletEvent]
    refine hview ▸ ⟨fun stored hstored => ?_, ?_, fun partition' record' hmem' hconsumed => ?_⟩
    · rw [LedgerDb.ledgerEvents_saveOffset, hrows] at hstored
      rcases List.mem_append.1 hstored with hstored | hstored
      · exact hinv.rows stored hstored
      · rw [List.mem_singleton.1 hstored]
        exact ⟨partition, record, hmem, event, hevent, rfl⟩
    · rw [LedgerDb.ledgerEntries_saveOffset, LedgerDb.ledgerEvents_saveOffset, hrows,
        List.flatMap_append, List.flatMap_singleton, ← hinv.entries]
    · rw [LedgerDb.ledgerEvents_saveOffset, hrows]
      have hoffsets : ∀ {p : ℤ} {r : LogRecord}, Consumed self.topic p added r ↔
          Consumed self.topic p d r := by
        intro p r
        simp [Consumed, LedgerDb.nextOffset, added]
      intro event' hevent'
      rcases consumed_cases hmem hmem' (fun r hr hlt => hoffsets.2 (hprior r hr hlt)) hconsumed with
        hbefore | rfl
      · obtain ⟨stored, hstored, hsame⟩ :=
          hinv.consumed partition' record' hmem' (hoffsets.1 hbefore) event' hevent'
        exact ⟨stored, List.mem_append_left _ hstored, hsame⟩
      · obtain rfl : event = event' := Option.some.inj (hevent.symm.trans hevent')
        exact ⟨row, List.mem_append_right _ (List.mem_singleton_self _), rfl⟩
  | @known record event hmem hevent hprior hrefused =>
    -- The event is stored already, and only the offset moves.
    have hview : view [.saveOffset ⟨self.topic, partition, record.offset + 1⟩] d =
        d.saveOffset ⟨self.topic, partition, record.offset + 1⟩ := rfl
    refine hview ▸ ⟨fun stored hstored => ?_, ?_, fun partition' record' hmem' hconsumed => ?_⟩
    · rw [LedgerDb.ledgerEvents_saveOffset] at hstored
      exact hinv.rows stored hstored
    · rw [LedgerDb.ledgerEntries_saveOffset, LedgerDb.ledgerEvents_saveOffset, hinv.entries]
    · rw [LedgerDb.ledgerEvents_saveOffset]
      intro event' hevent'
      rcases consumed_cases hmem hmem' hprior hconsumed with hbefore | rfl
      · exact hinv.consumed partition' record' hmem' hbefore event' hevent'
      · obtain rfl : event = event' := Option.some.inj (hevent.symm.trans hevent')
        exact stored_of_not_admits hinv hmem hevent hrefused

/-! ## Every schedule -/

/-- The committed data, the locks and the running tasks. -/
abbrev LedgerSystem := System Stmt LedgerRepositoryError Unit LedgerDb Write Key ℤ

/-- The effect of a schedule: tasks are started, take steps and stop, by
partition. -/
def consumeAll (self : TopicLog) (users : List ℤ) (schedule : List (Action ℤ)) :
    Option LedgerSystem :=
  (System.initial (.empty users)).steps (runWalletEventPartition self) schedule

/-- A row of the ledger holds an event of the log under its id. -/
theorem Inv.row {log : WalletEventLog} {d : LedgerDb} (hinv : Inv log.toTopicLog d)
    {row : LedgerEventRow} (hrow : row ∈ d.ledgerEvents.rows) :
    log.Contains row.payload ∧ row.logicalEventId = eventId row.payload ∧
      row.logicalEventId.isSome := by
  obtain ⟨partition, record, hmem, event, hevent, rfl⟩ := hinv.rows row hrow
  exact ⟨⟨partition, record, hmem, hevent⟩, rfl, log.named partition record hmem event hevent⟩

/-- The ids of the recorded events are distinct. -/
theorem Inv.nodup {log : WalletEventLog} {d : LedgerDb} (hinv : Inv log.toTopicLog d) :
    (d.ledgerEvents.rows.map LedgerEventRow.logicalEventId).Nodup := by
  have hsome : d.ledgerEvents.rows.map LedgerEventRow.logicalEventId =
      (d.ledgerEvents.rows.filterMap LedgerEventRow.logicalEventId).map some := by
    have hall : ∀ row ∈ d.ledgerEvents.rows, row.logicalEventId.isSome :=
      fun row hrow => (hinv.row hrow).2.2
    generalize d.ledgerEvents.rows = rows at hall
    induction rows with
    | nil => rfl
    | cons row rows ih =>
      obtain ⟨id, hid⟩ := Option.isSome_iff_exists.1 (hall row (List.mem_cons_self ..))
      rw [List.map_cons, List.filterMap_cons_some hid, List.map_cons, hid,
        ih fun row hrow => hall row (List.mem_cons_of_mem _ hrow)]
  rw [hsome]
  exact d.uniqueLogical.map (Option.some_injective String)

theorem filter_eq_of_nodup {α β : Type} [DecidableEq β] {f : α → β} {l : List α}
    (hl : (l.map f).Nodup) {x : α} (hx : x ∈ l) : l.filter (fun y => f y = f x) = [x] := by
  induction l with
  | nil => cases hx
  | cons y l ih =>
    rw [List.map_cons, List.nodup_cons] at hl
    rcases List.mem_cons.1 hx with rfl | hx
    · have hrest : l.filter (fun y => f y = f x) = [] := by
        refine List.filter_eq_nil_iff.2 fun z hz => ?_
        have hne : f z ≠ f x := fun h => hl.1 (h ▸ List.mem_map_of_mem hz)
        simpa using hne
      rw [List.filter_cons_of_pos (by simp), hrest]
    · have hne : f y ≠ f x := fun h => hl.1 (h ▸ List.mem_map_of_mem hx)
      rw [List.filter_cons_of_neg (by simpa using hne), ih hl.2 hx]

/-- In every reachable state the recorded events are distinct events of the log
and the entries are those of the recorded events; once every record is consumed,
every event of the log is recorded in exactly one row. -/
theorem ledger_exactly_once (log : WalletEventLog) (users : List ℤ) (schedule : List (Action ℤ))
    (σ : LedgerSystem) (h : consumeAll log.toTopicLog users schedule = some σ) :
    (∃ events : List WalletEvent,
      (∀ event ∈ events, log.Contains event) ∧ (events.map eventId).Nodup ∧
      σ.committed.ledgerEvents.rows.map LedgerEventRow.logicalEventId = events.map eventId ∧
      (σ.committed.ledgerEntries.map LedgerEntryRow.draft).Perm
        (events.flatMap fun event => (ledgerRecordFromWalletEvent event).entries)) ∧
    ((∀ partition, ∀ record ∈ log.records partition,
        Consumed log.topic partition σ.committed record) →
      ∀ event, log.Contains event →
        (σ.committed.ledgerEvents.rows.filter fun row =>
          row.logicalEventId = eventId event).map LedgerEventRow.payload = [event]) := by
  have hinv : Inv log.toTopicLog σ.committed := by
    refine System.commits_of_steps
      (fun partition d => wlp_runWalletEventPartition (log.decodes partition) d)
      (I := fun d _ => Inv log.toTopicLog d) ?_ h (inv_empty _ users)
    exact fun d _ partition ws hinv hcommits => inv_commit hinv hcommits
  have hids : σ.committed.ledgerEvents.rows.map LedgerEventRow.logicalEventId =
      (σ.committed.ledgerEvents.rows.map LedgerEventRow.payload).map eventId := by
    rw [List.map_map]
    exact List.map_congr_left fun row hrow => (hinv.row hrow).2.1
  refine ⟨⟨σ.committed.ledgerEvents.rows.map LedgerEventRow.payload, ?_, ?_, hids, ?_⟩, ?_⟩
  · intro event hevent
    obtain ⟨row, hrow, rfl⟩ := List.mem_map.1 hevent
    exact (hinv.row hrow).1
  · rw [← hids]
    exact hinv.nodup
  · rw [hinv.entries, List.map_flatMap, List.flatMap_map]
    have hdrafts : ∀ row, (rowEntries row).map LedgerEntryRow.draft =
        (ledgerRecordFromWalletEvent row.payload).entries := by
      intro row
      simp [rowEntries, Function.comp_def]
    simp only [hdrafts]
    exact List.Perm.refl _
  · rintro hconsumed event ⟨partition, record, hmem, hevent⟩
    obtain ⟨row, hrow, hid⟩ :=
      hinv.consumed partition record hmem (hconsumed partition record hmem) event hevent
    have hfilter : σ.committed.ledgerEvents.rows.filter (fun row =>
        row.logicalEventId = eventId event) = [row] := by
      rw [← hid]
      exact filter_eq_of_nodup hinv.nodup hrow
    obtain ⟨⟨partition', record', hmem', hevent'⟩, hpayload, -⟩ := hinv.row hrow
    rw [hfilter, List.map_singleton]
    -- Records with one event id hold one event.
    have hsame := log.consistent partition' partition record' hmem' record hmem row.payload hevent'
      event hevent (hpayload.symm.trans hid)
    rw [hsame]

/-- A deposit that the outbox has published three times. -/
def depositEvent : WalletEvent :=
  .depositApplied
    { eventId := some "deposit", requestId := "r", userId := 1, asset := .USDC, amount := 100,
      referenceId := "ref", total := 100, locked := 0 }

/-- The deposit twice in partition 0 and once in partition 1. -/
def depositRecords (partition : ℤ) : List LogRecord :=
  if partition = 0 then [⟨0, some depositEvent⟩, ⟨1, some depositEvent⟩]
  else if partition = 1 then [⟨5, some depositEvent⟩]
  else []

theorem event_of_depositRecords {partition : ℤ} {record : LogRecord}
    (h : record ∈ depositRecords partition) : record.event = some depositEvent := by
  unfold depositRecords at h
  split at h
  · rcases List.mem_pair.1 h with rfl | rfl <;> rfl
  · split at h
    · obtain rfl := List.mem_singleton.1 h
      rfl
    · cases h

def depositLog : WalletEventLog where
  topic := walletEventsTopic
  records := depositRecords
  sorted partition := by
    unfold depositRecords
    split
    · simp
    · split <;> simp
  decodes partition record h := by
    rw [event_of_depositRecords h]
    rfl
  named partition record h event hevent := by
    rw [event_of_depositRecords h] at hevent
    cases hevent
    decide
  consistent partition partition' record h record' h' event hevent event' hevent' _ := by
    rw [event_of_depositRecords h] at hevent
    rw [event_of_depositRecords h'] at hevent'
    exact Option.some.inj (hevent.symm.trans hevent')

/-- The task of partition 0 stops before its first commit; partition 1 commits
the deposit, and partition 0 is read again. -/
def depositSchedule : List (Action ℤ) :=
  [.start 0 0, .exec 0, .exec 0, .start 1 1, .exec 1, .close 0, .exec 1, .exec 1, .exec 1,
    .commit 1, .start 0 0, .exec 0, .exec 0, .exec 0, .commit 0, .exec 0, .exec 0, .commit 0]

theorem ledger_exactly_once_deposit :
    ∃ σ, consumeAll depositLog.toTopicLog [1] depositSchedule = some σ ∧
      (σ.committed.ledgerEvents.rows.filter fun row =>
        row.logicalEventId = eventId depositEvent).map LedgerEventRow.payload = [depositEvent] := by
  have hoffsets : (consumeAll depositLog.toTopicLog [1] depositSchedule).map (fun σ =>
      (σ.committed.nextOffset (walletEventsTopic, 0), σ.committed.nextOffset (walletEventsTopic, 1))) =
      some (some 2, some 6) := by decide
  obtain ⟨σ, hσ, hoffsets⟩ := Option.map_eq_some_iff.1 hoffsets
  obtain ⟨hzero, hone⟩ := Prod.mk.inj hoffsets
  refine ⟨σ, hσ, (ledger_exactly_once depositLog [1] depositSchedule σ hσ).2 ?_ depositEvent ?_⟩
  · intro partition record hrecord
    change record ∈ depositRecords partition at hrecord
    unfold depositRecords at hrecord
    split at hrecord
    · next hpartition =>
      subst hpartition
      rcases List.mem_pair.1 hrecord with rfl | rfl <;> exact ⟨2, hzero, by decide⟩
    · split at hrecord
      · next hpartition =>
        subst hpartition
        obtain rfl := List.mem_singleton.1 hrecord
        exact ⟨6, hone, by decide⟩
      · cases hrecord
  · exact ⟨0, ⟨0, some depositEvent⟩, List.mem_cons_self .., rfl⟩

end Ledger
