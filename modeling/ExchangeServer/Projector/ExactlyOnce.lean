import ExchangeServer.Projector.Queue

/-!
# The projector applies every record exactly once

The transaction that works off a record ends by saving the offset of the next
one, so the effects of a record and the offset behind it are committed together
or not at all. Whatever the order of the steps and wherever the projector stops,
the records of a partition that have been applied are those before the stored
offset, in their order.

## Main results

- `endsIn_process`: a record's transaction saves its offset last and once
- `Inv.step`: what every step keeps
- `projector_exactly_once`: every reachable state
-/

namespace Projector

open Protocol Relational Transactional Program

/-! ## Transactions end with their offset -/

/-- The transaction ends by saving an offset, and saves none before. -/
abbrev EndsWithOffset (topic : String) (partition nextOffset : ℤ) (p : Tx Unit) : Prop :=
  EndsIn (fun w => w.area ≠ .offsets) (saveQueueOffset topic partition nextOffset) p

section EndsWithOffset

variable {topic : String} {partition nextOffset : ℤ}

theorem endsWithOffset_bind {α : Type} {area : Area} {p : Tx α} {f : α → Tx Unit}
    (h : InArea area p) (harea : area ≠ .offsets)
    (hf : ∀ a, EndsWithOffset topic partition nextOffset (f a)) :
    EndsWithOffset topic partition nextOffset (p >>= f) :=
  .bind h.isOpen (h.writes.mono fun _ hw => hw.trans_ne harea) hf

variable (topic partition nextOffset)

theorem endsWithOffset_save :
    EndsWithOffset topic partition nextOffset (saveQueueOffset topic partition nextOffset) :=
  .tail rfl

theorem endsIn_markAccepted (reservationId : String) (orderId : ℤ) :
    EndsWithOffset topic partition nextOffset
      (markAccepted reservationId orderId topic partition nextOffset) :=
  endsWithOffset_bind (inArea_loadContextByReservationInTx .orders _) (by decide) fun _ =>
    endsWithOffset_bind (inArea_updateContext _ _) (by decide) fun _ => endsWithOffset_save _ _ _

theorem endsIn_processEngineInput (input : EngineCommand) :
    EndsWithOffset topic partition nextOffset
      (processEngineInput input topic partition nextOffset) := by
  cases input with
  | placeOrder order =>
    exact endsWithOffset_bind (inArea_upsertOrderContext _ _ _ _ _ _ _ _ _ _) (by decide)
      fun _ => endsWithOffset_save _ _ _
  | liquidatePosition liquidation =>
    exact endsWithOffset_bind (inArea_upsertOrderContext _ _ _ _ _ _ _ _ _ _) (by decide)
      fun _ => endsWithOffset_save _ _ _
  | _ => exact endsWithOffset_save _ _ _

theorem endsIn_processEngineReply (reply : EngineReply) :
    EndsWithOffset topic partition nextOffset
      (processEngineReply reply topic partition nextOffset) := by
  cases reply with
  | orderAccepted reply => exact endsIn_markAccepted _ _ _ _ _
  | liquidationAccepted reply => exact endsIn_markAccepted _ _ _ _ _
  | orderRejected reply =>
    refine endsWithOffset_bind (?_ : InArea .orders _) (by decide) fun _ => endsWithOffset_save _ _ _
    cases reply.reservationId with
    | some reservationId => exact inArea_markRejected _ _
    | none => exact inArea_pure _ _
  | liquidationRejected reply =>
    exact endsWithOffset_bind (inArea_markRejected _ _) (by decide)
      fun _ => endsWithOffset_save _ _ _
  | _ => exact endsWithOffset_save _ _ _

theorem endsIn_projectOrderOpened (event : OrderOpened) :
    EndsWithOffset topic partition nextOffset
      (projectOrderOpened event topic partition nextOffset) :=
  endsWithOffset_bind (inArea_loadContextByReservationInTx .orders _) (by decide) fun _ =>
    endsWithOffset_bind (inArea_updateContext _ _) (by decide) fun _ =>
      endsWithOffset_bind (inArea_upsertOrder _ _ _ _) (by decide) fun _ =>
        endsWithOffset_save _ _ _

theorem endsIn_projectOrderCancelled (event : OrderCancelled) :
    EndsWithOffset topic partition nextOffset
      (projectOrderCancelled event topic partition nextOffset) :=
  endsWithOffset_bind (inArea_loadContextForOrderInTx .orders _ _) (by decide) fun _ =>
    endsWithOffset_bind (inArea_updateContext _ _) (by decide) fun _ =>
      endsWithOffset_bind (inArea_upsertOrder _ _ _ _) (by decide) fun _ =>
        endsWithOffset_save _ _ _

theorem endsIn_projectTradeExecuted (event : TradeExecuted) :
    EndsWithOffset topic partition nextOffset
      (projectTradeExecuted event topic partition nextOffset) := by
  refine endsWithOffset_bind (inArea_loadTradeContextsInTx .orders event) (by decide)
    fun contexts => endsWithOffset_bind (inArea_storeTradeOrders _ _ _) (by decide) fun _ =>
      endsWithOffset_bind (inArea_insertFill _ _ _) (by decide) fun insertedFill =>
        endsWithOffset_bind (inArea_updateOrderAfterFillInTx _ _) (by decide) fun _ =>
          endsWithOffset_bind (inArea_updateOrderAfterFillInTx _ _) (by decide) fun _ => ?_
  cases insertedFill with
  | true =>
    exact endsWithOffset_bind (inArea_projectNewFill _ _ _) (by decide)
      fun _ => endsWithOffset_save _ _ _
  | false => exact endsWithOffset_save _ _ _

theorem endsIn_projectOrderbookDelta (event : OrderBookDelta) :
    EndsWithOffset topic partition nextOffset
      (projectOrderbookDelta event topic partition nextOffset) := by
  refine endsWithOffset_bind (inArea_insertOrderbookEvent _ _ _ _) (by decide)
    fun inserted => ?_
  have hshould : InArea .orderbook
      (if inserted then shouldApplyOrderbookDeltaInTx event else return false : Tx Bool) := by
    cases inserted with
    | true => exact inArea_shouldApplyOrderbookDeltaInTx _ _
    | false => exact inArea_pure _ _
  refine endsWithOffset_bind hshould (by decide) fun apply => ?_
  cases apply with
  | true =>
    exact endsWithOffset_bind (inArea_applyOrderbookDelta _) (by decide)
      fun _ => endsWithOffset_save _ _ _
  | false => exact endsWithOffset_save _ _ _

theorem endsIn_projectEngineEventLog (event : EngineEvent) :
    EndsWithOffset topic partition nextOffset
      (projectEngineEventLog event topic partition nextOffset) :=
  endsWithOffset_bind (inArea_insertEngineEventLogInTx _ _ _ _) (by decide)
    fun _ => endsWithOffset_save _ _ _

/-- A record's transaction saves its offset last. -/
theorem endsIn_process (payload : Payload) :
    EndsWithOffset topic partition nextOffset (payload.process topic partition nextOffset) := by
  cases payload with
  | engineInput input => exact endsIn_processEngineInput _ _ _ _
  | engineReply reply => exact endsIn_processEngineReply _ _ _ _
  | engineEvent event =>
    cases event with
    | orderOpened event => exact endsIn_projectOrderOpened _ _ _ _
    | orderCancelled event => exact endsIn_projectOrderCancelled _ _ _ _
    | tradeExecuted event => exact endsIn_projectTradeExecuted _ _ _ _
    | orderBookDelta event => exact endsIn_projectOrderbookDelta _ _ _ _
    | _ => exact endsIn_projectEngineEventLog _ _ _ _
  | walletEvent event => exact endsWithOffset_save _ _ _
  | invalid => exact endsWithOffset_save _ _ _

end EndsWithOffset

/-! ## Offsets -/

/-- The stored offset of a partition. -/
def ProjectorDb.offset (d : ProjectorDb) (source : Source) : Option ℤ :=
  d.nextOffset source.1 source.2

theorem offset_write {w : Write} (h : w.area ≠ .offsets) (d : ProjectorDb) (source : Source) :
    (d.write w).offset source = d.offset source := by
  cases w with
  | putOffset row => exact absurd rfl h
  | _ => rfl

/-- Only the last write of a record's transaction moves an offset. -/
theorem offset_view {ws : List Write} (h : ∀ w ∈ ws, w.area ≠ .offsets) (d : ProjectorDb)
    (source : Source) : (view ws d).offset source = d.offset source := by
  induction ws generalizing d with
  | nil => rfl
  | cons w ws ih =>
    have hw := offset_write (h w List.mem_cons_self) d source
    exact (ih (fun x hx => h x (List.mem_cons_of_mem w hx)) _).trans hw

theorem offset_putOffset (row : OffsetRow) (d : ProjectorDb) (source : Source) :
    (view [.putOffset row] d).offset source =
      if source = row.key then some row.nextOffset else d.offset source := by
  show ((d.offsets.upsert row).find? (source.1, source.2)).map OffsetRow.nextOffset = _
  rw [Table.find?_upsert]
  split
  · rfl
  · rfl

/-! ## Sequences -/

/-- The data up to the number of the last position. -/
def ProjectorDb.unnumbered (d : ProjectorDb) : ProjectorDb := { d with positionIdSeq := 0 }

/-- No write depends on the number of the last position. -/
theorem unnumbered_view (ws : List Write) {d d' : ProjectorDb}
    (h : d.unnumbered = d'.unnumbered) : (view ws d).unnumbered = (view ws d').unnumbered := by
  have hwrite : ∀ (w : Write) (v : ProjectorDb),
      (v.write w).unnumbered = (v.unnumbered.write w).unnumbered := by
    intro w v
    cases w <;> rfl
  induction ws generalizing d d' with
  | nil => exact h
  | cons w ws ih =>
    refine ih ?_
    show (d.write w).unnumbered = (d'.write w).unnumbered
    rw [hwrite w d, hwrite w d', h]

theorem unnumbered_draw (added : List Write) (d : ProjectorDb) :
    (view (added.filter Write.isDraw) d).unnumbered = d.unnumbered := by
  induction added generalizing d with
  | nil => rfl
  | cons w added ih =>
    cases w with
    | drawPositionId => exact ih _
    | _ => exact ih d

theorem offset_of_unnumbered {d d' : ProjectorDb} (h : d.unnumbered = d'.unnumbered)
    (source : Source) : d.offset source = d'.offset source := by
  show (d.unnumbered.offsets.find? _).map _ = (d'.unnumbered.offsets.find? _).map _
  rw [h]

/-! ## Partitions -/

/-- The records before the stored offset and the others. -/
theorem takeWhile_append_fetchRecords (logs : PartitionLogs) (source : Source)
    (nextOffset : Option ℤ) :
    (logs.records source).takeWhile (LogRecord.isBefore nextOffset) ++
      fetchRecords logs source nextOffset = logs.records source :=
  List.takeWhile_append_dropWhile

/-- The first record that is fetched is not before the offset. -/
theorem not_isBefore_of_fetch {logs : PartitionLogs} {source : Source} {nextOffset : Option ℤ}
    {record : LogRecord} {records : List LogRecord}
    (h : fetchRecords logs source nextOffset = record :: records) :
    record.isBefore nextOffset = false := by
  have hhead := List.head?_dropWhile_not (LogRecord.isBefore nextOffset) (logs.records source)
  rw [show (logs.records source).dropWhile _ = _ from h] at hhead
  simpa using hhead

/-- One more record is before the offset that is saved with it. -/
theorem advance_offset {logs : PartitionLogs} {source : Source} {nextOffset : Option ℤ}
    {record : LogRecord} {records : List LogRecord}
    (h : fetchRecords logs source nextOffset = record :: records) :
    (logs.records source).takeWhile (LogRecord.isBefore (some (record.offset + 1))) =
        (logs.records source).takeWhile (LogRecord.isBefore nextOffset) ++ [record] ∧
      fetchRecords logs source (some (record.offset + 1)) = records := by
  have hsplit := takeWhile_append_fetchRecords logs source nextOffset
  generalize (logs.records source).takeWhile (LogRecord.isBefore nextOffset) = earlier at hsplit ⊢
  rw [h, ← List.singleton_append, ← List.append_assoc] at hsplit
  have hsorted := logs.sorted source
  rw [← hsplit, List.append_assoc, List.pairwise_append, List.singleton_append,
    List.pairwise_cons] at hsorted
  have hbefore : ∀ x ∈ earlier ++ [record], x.isBefore (some (record.offset + 1)) = true := by
    intro x hx
    have hle : x.offset < record.offset + 1 := by
      rcases List.mem_append.1 hx with hx | hx
      · have hlt := hsorted.2.2 x hx record List.mem_cons_self
        omega
      · rw [List.mem_singleton.1 hx]
        exact lt_add_one _
    exact decide_eq_true hle
  have hafter : ∀ x ∈ records, x.isBefore (some (record.offset + 1)) = false := by
    intro x hx
    have hlt := hsorted.2.1.1 x hx
    exact decide_eq_false (by omega)
  unfold fetchRecords
  rw [← hsplit, List.takeWhile_append_of_pos hbefore, List.dropWhile_append_of_pos hbefore]
  cases records with
  | nil => exact ⟨by simp, rfl⟩
  | cons x records =>
    have hx := hafter x List.mem_cons_self
    exact ⟨by simp [hx], by simp [hx]⟩

/-! ## The invariant -/

/-- The record that a commit has applied, in the commits of its partition. -/
def Commit.applied (source : Source) (c : Commit) : Option LogRecord :=
  match c.transaction with
  | .saveLog _ _ _ _ => none
  | .process payload topic partition nextOffset =>
    if (topic, partition) = source then some ⟨nextOffset - 1, payload⟩ else none

/-- The records of a partition that have been applied, one after the other. -/
def appliedRecords (source : Source) (log : List Commit) : List LogRecord :=
  log.filterMap (Commit.applied source)

/-- The transactions of a record have not saved its offset yet, or all are done. -/
def BetweenInv (logs : PartitionLogs) (source : Source) (d : ProjectorDb)
    (nextOffset : Option ℤ) (record : LogRecord) (records : List LogRecord)
    (todo : List Transaction) : Prop :=
  match todo with
  | [] => d.offset source = some (record.offset + 1) ∧
    records <+: fetchRecords logs source (some (record.offset + 1))
  | t :: todo => nextOffset = d.offset source ∧
    record :: records <+: fetchRecords logs source nextOffset ∧
    t :: todo <:+ record.transactions source

/-- What a transaction that is under way has written, and how it goes on. -/
def Within (t : Transaction) (writes : List Write) (cont : Tx Unit) : Prop :=
  (∃ all, Reaches t.program all cont ∧ writes = transactional all) ∧
    match t with
    | .saveLog _ _ _ _ =>
      cont.Atomic ∧ cont.Writes (fun w => w.area = .log) ∧ ∀ w ∈ writes, w.area = .log
    | .process _ topic partition nextOffset =>
      EndsWithOffset topic partition nextOffset cont ∧ (∀ w ∈ writes, w.area ≠ .offsets) ∨
        cont = commitTx ∧ ∃ before row, (∀ w ∈ before, w.area ≠ .offsets) ∧
          writes = before ++ [.putOffset row] ∧ row.key = (topic, partition) ∧
          row.nextOffset = nextOffset

/-- What holds of a task. -/
def TaskInv (logs : PartitionLogs) (source : Source) (d : ProjectorDb) : TaskState → Prop
  | .loading => True
  | .fetching nextOffset => nextOffset = d.offset source
  | .batch nextOffset records => nextOffset = d.offset source ∧
    records <+: fetchRecords logs source nextOffset
  | .between nextOffset record records todo =>
    BetweenInv logs source d nextOffset record records todo
  | .working nextOffset record records t todo cont writes =>
    (BetweenInv logs source d nextOffset record records (t :: todo) ∧ Within t writes cont) ∨
      (cont = .ret (.ok ()) ∧ BetweenInv logs source d nextOffset record records todo)

/-- A task knows no more of the data than its own offset. -/
theorem TaskInv.congr {logs : PartitionLogs} {source : Source} {d d' : ProjectorDb}
    {state : TaskState} (h : TaskInv logs source d state)
    (hoffset : d'.offset source = d.offset source) : TaskInv logs source d' state := by
  have hbetween : ∀ {nextOffset : Option ℤ} {record : LogRecord} {records : List LogRecord}
      {todo : List Transaction}, BetweenInv logs source d nextOffset record records todo →
      BetweenInv logs source d' nextOffset record records todo := by
    intro nextOffset record records todo h
    cases todo with
    | nil => exact ⟨hoffset.trans h.1, h.2⟩
    | cons t todo => exact ⟨h.1.trans hoffset.symm, h.2⟩
  cases state with
  | loading => trivial
  | fetching nextOffset => exact Eq.trans h hoffset.symm
  | batch nextOffset records => exact ⟨h.1.trans hoffset.symm, h.2⟩
  | between nextOffset record records todo => exact hbetween h
  | working nextOffset record records t todo cont writes =>
    exact h.imp (And.imp_left hbetween) (And.imp_right hbetween)

/-- What holds of every reachable state. -/
structure Inv (logs : PartitionLogs) (d₀ : ProjectorDb) (σ : ProjectorSystem) : Prop where
  data : σ.committed.unnumbered = (σ.log.foldl (fun d c => view c.writes d) d₀).unnumbered
  complete : ∀ c ∈ σ.log, ∃ all next, Reaches c.transaction.program all (.commit next) ∧
    c.writes = transactional all
  records : ∀ c ∈ σ.log, ∃ source, ∃ record ∈ logs.records source,
    c.transaction ∈ record.transactions source
  logged : ∀ c ∈ σ.log, (∀ source, c.applied source = none) → ∀ w ∈ c.writes, w.area = .log
  applied : ∀ source, appliedRecords source σ.log =
    (logs.records source).takeWhile (LogRecord.isBefore (σ.committed.offset source))
  offset : ∀ source nextOffset, σ.committed.offset source = some nextOffset →
    ∃ record, (appliedRecords source σ.log).getLast? = some record ∧
      nextOffset = record.offset + 1
  tasks : ∀ tasks, σ.tasks = some tasks → ∀ source, TaskInv logs source σ.committed (tasks source)

section Step

variable {logs : PartitionLogs} {d₀ : ProjectorDb} {σ : ProjectorSystem}
  {tasks : Source → TaskState} {source : Source}

/-- A step that commits nothing keeps the invariant if it keeps that of its task. -/
theorem Inv.setTask (h : Inv logs d₀ σ) (htasks : σ.tasks = some tasks) {state : TaskState}
    (hstate : TaskInv logs source σ.committed state) :
    Inv logs d₀ (σ.setTask tasks source state) := by
  refine { h with tasks := fun tasks' htasks' source' => ?_ }
  cases htasks'
  show TaskInv logs source' σ.committed (Function.update tasks source state source')
  by_cases hs : source' = source
  · subst hs
    rw [Function.update_self]
    exact hstate
  · rw [Function.update_of_ne hs]
    exact h.tasks tasks htasks source'

/-- Drawing a number moves no offset. -/
theorem Inv.draw (h : Inv logs d₀ σ) (added : List Write) : Inv logs d₀ (σ.draw added) := by
  have hdraw := unnumbered_draw added σ.committed
  have hoffset := offset_of_unnumbered hdraw
  refine { h with data := hdraw.trans h.data, applied := fun source => ?_,
                  offset := fun source n hn => ?_, tasks := fun tasks htasks source => ?_ }
  · exact (h.applied source).trans (by rw [← hoffset source]; rfl)
  · exact h.offset source n ((hoffset source).symm.trans hn)
  · exact (h.tasks tasks htasks source).congr (hoffset source)

theorem Inv.stop (h : Inv logs d₀ σ) : Inv logs d₀ { σ with tasks := none } :=
  { h with tasks := fun _ htasks => nomatch htasks }

/-- An error before the record's offset is saved. -/
theorem Inv.fail (h : Inv logs d₀ σ) (htasks : σ.tasks = some tasks) {nextOffset : Option ℤ}
    (hoffset : nextOffset = σ.committed.offset source) (e : ProjectorRepositoryError) :
    Inv logs d₀ (σ.fail tasks source nextOffset e) := by
  unfold ProjectorSystem.fail
  split
  · exact h.setTask htasks hoffset
  · exact h.stop

/-- The transactions of a record: the log of an engine event, then the record itself. -/
theorem suffix_cases {record : LogRecord} {t : Transaction} {todo : List Transaction}
    (h : t :: todo <:+ record.transactions source) :
    (∃ event, t = .saveLog event source.1 source.2 (record.offset + 1) ∧
        todo = [.process record.payload source.1 source.2 (record.offset + 1)]) ∨
      t = .process record.payload source.1 source.2 (record.offset + 1) ∧ todo = [] := by
  obtain ⟨done, hdone⟩ := h
  unfold LogRecord.transactions at hdone
  split at hdone
  · next event hpayload =>
    rw [hpayload]
    match done, hdone with
    | [], hdone =>
      cases hdone
      exact .inl ⟨event, rfl, rfl⟩
    | [u], hdone =>
      cases hdone
      exact .inr ⟨rfl, rfl⟩
    | _ :: _ :: [], hdone => cases hdone
    | _ :: _ :: _ :: _, hdone => cases hdone
  · match done, hdone with
    | [], hdone =>
      cases hdone
      exact .inr ⟨rfl, rfl⟩
    | _ :: [], hdone => cases hdone
    | _ :: _ :: _, hdone => cases hdone

/-- A transaction begins. -/
theorem within_start (t : Transaction) : Within t [] t.program := by
  refine ⟨⟨[], .start, rfl⟩, ?_⟩
  cases t with
  | saveLog event topic partition nextOffset =>
    have hlog := inArea_insertEngineEventLogInTx (engineEventLogEntry event) topic partition
      nextOffset
    refine ⟨atomic_program _, ?_, fun w hw => absurd hw List.not_mem_nil⟩
    exact writes_bind hlog.writes fun _ => trivial
  | process payload topic partition nextOffset =>
    exact .inl ⟨endsIn_process _ _ _ _, fun w hw => absurd hw List.not_mem_nil⟩

/-- A statement that is answered. -/
theorem Within.exec {t : Transaction} {writes added : List Write} {β : Type} {statement : Stmt β}
    {next : β → Tx Unit} {b : β} {d : ProjectorDb} {record : LogRecord} {todo : List Transaction}
    (h : Within t writes (.stmt statement next)) (hsuffix : t :: todo <:+ record.transactions source)
    (hoffset : record.isBefore (d.offset source) = false)
    (hexec : statement (view writes d) = .ok (b, added)) :
    Within t (writes ++ transactional added) (next b) := by
  obtain ⟨⟨all, hreaches, hall⟩, hrest⟩ := h
  refine ⟨⟨all ++ added, .stmt hreaches hexec, ?_⟩, ?_⟩
  · rw [hall, transactional, transactional, transactional, List.filter_append]
  have hmem : ∀ w ∈ transactional added, w ∈ added := fun w hw => (List.mem_filter.1 hw).1
  rcases suffix_cases hsuffix with ⟨event, rfl, -⟩ | ⟨rfl, -⟩
  -- The transaction of the log does nothing but its own writes.
  · obtain ⟨hatomic, hwrites, hwritten⟩ := hrest
    refine ⟨hatomic b, hwrites.2 b, fun w hw => ?_⟩
    rcases List.mem_append.1 hw with hw | hw
    · exact hwritten w hw
    · exact hwrites.1 _ b added hexec w (hmem w hw)
  · rcases hrest with ⟨hends, hwritten⟩ | ⟨hcommit, -⟩
    · cases hends with
      | stmt hstatement hnext =>
        refine .inl ⟨hnext b, fun w hw => ?_⟩
        rcases List.mem_append.1 hw with hw | hw
        · exact hwritten w hw
        · exact hstatement _ b added hexec w (hmem w hw)
      | tail hlast =>
        -- The offset is saved, as the stored one is not past the record.
        cases hlast
        refine .inr ⟨rfl, ?_⟩
        unfold upsertOffset at hexec
        split at hexec
        · next check =>
          have hstored : (view writes d).nextOffset source.1 source.2 = d.offset source :=
            offset_view hwritten d source
          refine ⟨writes, ⟨source.1, source.2, record.offset + 1, check⟩, hwritten, ?_, rfl, rfl⟩
          rw [hstored] at hexec
          cases hd : d.offset source with
          | none =>
            rw [hd] at hexec
            cases hexec
            rfl
          | some stored =>
            rw [hd] at hexec hoffset
            have hle : stored ≤ record.offset := not_lt.1 (of_decide_eq_false hoffset)
            simp only [Int.lt_add_one_iff.2 hle, if_true] at hexec
            cases hexec
            rfl
        · cases hexec
    · cases hcommit

/-- The end of the transaction that keeps an event in the log. -/
theorem Within.commit_log {t : Transaction} {writes : List Write} {next : Tx Unit}
    {event : EngineEvent} {topic : String} {partition nextOffset : ℤ}
    (h : Within t writes (.commit next)) (ht : t = .saveLog event topic partition nextOffset) :
    next = .ret (.ok ()) ∧ ∀ w ∈ writes, w.area = .log := by
  subst ht
  obtain ⟨-, ⟨_, hnext⟩, -, hwritten⟩ := h
  exact ⟨hnext, hwritten⟩

/-- The end of the transaction that works off a record. -/
theorem Within.commit_record {t : Transaction} {writes : List Write} {next : Tx Unit}
    {payload : Payload} {topic : String} {partition nextOffset : ℤ}
    (h : Within t writes (.commit next)) (ht : t = .process payload topic partition nextOffset)
    (d : ProjectorDb) :
    next = .ret (.ok ()) ∧ ∀ source, (view writes d).offset source =
      if source = (topic, partition) then some nextOffset else d.offset source := by
  subst ht
  obtain ⟨-, ⟨hends, -⟩ | ⟨hcommit, before, row, hbefore, rfl, hkey, hrow⟩⟩ := h
  · cases hends with
    | tail hlast => cases hlast
  · cases hcommit
    refine ⟨rfl, fun source => ?_⟩
    rw [view, Store.applyAll_append]
    refine (offset_putOffset row _ source).trans ?_
    rw [hkey, hrow]
    split
    · rfl
    · exact offset_view hbefore d source

/-- A commit of a task, with what it means for the applied records. -/
theorem Inv.commit (h : Inv logs d₀ σ) (htasks : σ.tasks = some tasks) {c : Commit}
    {state : TaskState} (hcomplete : ∃ all next,
      Reaches c.transaction.program all (.commit next) ∧ c.writes = transactional all)
    (hrecord : ∃ record ∈ logs.records source, c.transaction ∈ record.transactions source)
    (hlogged : (∀ source, c.applied source = none) → ∀ w ∈ c.writes, w.area = .log)
    (happlied : appliedRecords source (σ.log ++ [c]) =
      (logs.records source).takeWhile (LogRecord.isBefore ((view c.writes σ.committed).offset source)))
    (hoffset : ∀ nextOffset, (view c.writes σ.committed).offset source = some nextOffset →
      ∃ record, (appliedRecords source (σ.log ++ [c])).getLast? = some record ∧
        nextOffset = record.offset + 1)
    (hother : ∀ source', source' ≠ source → c.applied source' = none ∧
      (view c.writes σ.committed).offset source' = σ.committed.offset source')
    (hstate : TaskInv logs source (view c.writes σ.committed) state) :
    Inv logs d₀
      { committed := view c.writes σ.committed
        tasks := some (Function.update tasks source state)
        log := σ.log ++ [c] } := by
  -- Nothing changes for the tasks of other partitions.
  have hsame : ∀ {source' : Source}, source' ≠ source →
      appliedRecords source' (σ.log ++ [c]) = appliedRecords source' σ.log := by
    intro source' hs
    rw [appliedRecords, List.filterMap_append, List.filterMap_cons_none (hother source' hs).1]
    exact List.append_nil _
  have hcommits : ∀ {P : Commit → Prop}, (∀ x ∈ σ.log, P x) → P c → ∀ x ∈ σ.log ++ [c], P x := by
    intro P hlog hc x hx
    rcases List.mem_append.1 hx with hx | hx
    · exact hlog x hx
    · exact List.mem_singleton.1 hx ▸ hc
  refine ⟨?_, hcommits h.complete hcomplete, hcommits h.records ⟨source, hrecord⟩,
    hcommits h.logged hlogged, fun source' => ?_, fun source' n hn => ?_,
    fun tasks' htasks' source' => ?_⟩
  · rw [List.foldl_append]
    exact unnumbered_view c.writes h.data
  · by_cases hs : source' = source
    · exact hs ▸ happlied
    · rw [hsame hs, (hother source' hs).2]
      exact h.applied source'
  · by_cases hs : source' = source
    · subst hs
      exact hoffset n hn
    · rw [(hother source' hs).2] at hn
      rw [hsame hs]
      exact h.offset source' n hn
  · cases htasks'
    by_cases hs : source' = source
    · subst hs
      rw [Function.update_self]
      exact hstate
    · rw [Function.update_of_ne hs]
      exact (h.tasks tasks htasks source').congr (hother source' hs).2

/-- The record that a task is at stands in its partition. -/
theorem BetweenInv.mem {nextOffset : Option ℤ} {record : LogRecord} {records : List LogRecord}
    {t : Transaction} {todo : List Transaction} {d : ProjectorDb}
    (h : BetweenInv logs source d nextOffset record records (t :: todo)) :
    ∃ record ∈ logs.records source, t ∈ record.transactions source := by
  obtain ⟨-, hprefix, hsuffix⟩ := h
  have hmem : record ∈ fetchRecords logs source nextOffset := hprefix.subset List.mem_cons_self
  exact ⟨record, (List.dropWhile_sublist _).subset hmem, hsuffix.subset List.mem_cons_self⟩

/-- An event has been kept in the log; no offset moves. -/
theorem Inv.commit_log (h : Inv logs d₀ σ) (htasks : σ.tasks = some tasks)
    {nextOffset : Option ℤ} {record : LogRecord} {records : List LogRecord} {t u : Transaction}
    {todo : List Transaction} {writes : List Write} {next : Tx Unit} {event : EngineEvent}
    (hbetween : BetweenInv logs source σ.committed nextOffset record records (t :: u :: todo))
    (hwithin : Within t writes (.commit next))
    (ht : t = .saveLog event source.1 source.2 (record.offset + 1)) :
    Inv logs d₀
      { committed := view writes σ.committed
        tasks := some (Function.update tasks source
          (.working nextOffset record records t (u :: todo) next []))
        log := σ.log ++ [⟨t, writes⟩] } := by
  obtain ⟨hnext, hwritten⟩ := hwithin.commit_log ht
  obtain ⟨all, hreaches, hall⟩ := hwithin.1
  have hoffset : ∀ source', (view writes σ.committed).offset source' = σ.committed.offset source' :=
    offset_view (fun w hw => (hwritten w hw).trans_ne (by decide)) _
  have hnone : ∀ source', Commit.applied source' ⟨t, writes⟩ = none := by
    subst ht
    exact fun _ => rfl
  have hsame : appliedRecords source (σ.log ++ [⟨t, writes⟩]) = appliedRecords source σ.log := by
    rw [appliedRecords, List.filterMap_append, List.filterMap_cons_none (hnone source)]
    exact List.append_nil _
  refine h.commit htasks ⟨all, next, hreaches, hall⟩ hbetween.mem (fun _ => hwritten) ?_ (fun n hn => ?_)
    (fun source' _ => ⟨hnone source', hoffset source'⟩) ?_
  · rw [hsame, hoffset]
    exact h.applied source
  · rw [hoffset] at hn
    rw [hsame]
    exact h.offset source n hn
  · obtain ⟨hn, hprefix, hsuffix⟩ := hbetween
    refine .inr ⟨hnext, hn.trans (hoffset source).symm, hprefix, ?_⟩
    exact (List.suffix_cons t (u :: todo)).trans hsuffix

/-- A record has been worked off, and the offset is behind it. -/
theorem Inv.commit_record (h : Inv logs d₀ σ) (htasks : σ.tasks = some tasks)
    {nextOffset : Option ℤ} {record : LogRecord} {records : List LogRecord} {t : Transaction}
    {writes : List Write} {next : Tx Unit}
    (hbetween : BetweenInv logs source σ.committed nextOffset record records [t])
    (hwithin : Within t writes (.commit next))
    (ht : t = .process record.payload source.1 source.2 (record.offset + 1)) :
    Inv logs d₀
      { committed := view writes σ.committed
        tasks := some (Function.update tasks source
          (.working nextOffset record records t [] next []))
        log := σ.log ++ [⟨t, writes⟩] } := by
  obtain ⟨hnext, hoffset⟩ := hwithin.commit_record ht σ.committed
  obtain ⟨all, hreaches, hall⟩ := hwithin.1
  have hself : (view writes σ.committed).offset source = some (record.offset + 1) :=
    (hoffset source).trans (if_pos rfl)
  have happlied : Commit.applied source ⟨t, writes⟩ = some record := by
    subst ht
    show (if (source.1, source.2) = source then some _ else none) = _
    rw [if_pos rfl, add_sub_cancel_right]
  have hlog : appliedRecords source (σ.log ++ [⟨t, writes⟩]) =
      appliedRecords source σ.log ++ [record] := by
    rw [appliedRecords, List.filterMap_append, List.filterMap_cons_some happlied]
    rfl
  have hmem := hbetween.mem
  obtain ⟨rfl, ⟨later, hlater⟩, -⟩ := hbetween
  -- The record is the first one that is not before the stored offset.
  have hfetch : fetchRecords logs source (σ.committed.offset source) =
      record :: (records ++ later) := hlater.symm
  obtain ⟨htake, hrest⟩ := advance_offset hfetch
  refine h.commit (c := ⟨t, writes⟩) htasks ⟨all, next, hreaches, hall⟩ hmem (fun hfree => ?_) ?_ (fun n hn => ?_)
    (fun source' hs => ⟨?_, ?_⟩) ?_
  · rw [hfree source] at happlied
    cases happlied
  · rw [hlog, hself, htake, h.applied source]
  · rw [hself] at hn
    cases hn
    exact ⟨record, by rw [hlog, List.getLast?_concat], rfl⟩
  · subst ht
    exact if_neg (Ne.symm hs)
  · exact (hoffset source').trans (if_neg hs)
  · refine .inr ⟨hnext, hself, ?_⟩
    rw [hrest]
    exact List.prefix_append records later

/-- One step within a transaction. -/
theorem Inv.work (h : Inv logs d₀ σ) (htasks : σ.tasks = some tasks) {nextOffset : Option ℤ}
    {record : LogRecord} {records : List LogRecord} {t : Transaction} {todo : List Transaction}
    {cont : Tx Unit} {writes : List Write}
    (hstate : TaskInv logs source σ.committed
      (.working nextOffset record records t todo cont writes)) :
    Inv logs d₀ (σ.work tasks source nextOffset record records t todo writes cont) := by
  rcases hstate with ⟨hbetween, hwithin⟩ | ⟨rfl, hbetween⟩
  · obtain ⟨rfl, ⟨later, hlater⟩, hsuffix⟩ := id hbetween
    cases cont with
    | ret result =>
      cases result with
      | error e => exact h.fail htasks rfl e
      | ok r =>
        -- A transaction under way is not at its end.
        rcases suffix_cases hsuffix with ⟨event, rfl, -⟩ | ⟨rfl, -⟩
        · exact hwithin.2.1.elim
        · rcases hwithin.2 with ⟨hends, -⟩ | ⟨hcommit, -⟩
          · cases hends with
            | tail hlast => cases hlast
          · cases hcommit
    | stmt statement next =>
      simp only [ProjectorSystem.work]
      have hnot : record.isBefore (σ.committed.offset source) = false :=
        not_isBefore_of_fetch hlater.symm
      cases hexec : Store.exec statement (view writes σ.committed) with
      | error e => exact h.fail htasks rfl e
      | ok answer =>
        have hnext := hwithin.exec hsuffix hnot hexec
        have hoffset := offset_of_unnumbered (unnumbered_draw answer.2 σ.committed) source
        refine (h.draw answer.2).setTask htasks (TaskInv.congr ?_ hoffset)
        exact .inl ⟨hbetween, hnext⟩
    | commit next =>
      rcases suffix_cases hsuffix with ⟨event, ht, rfl⟩ | ⟨ht, rfl⟩
      · exact h.commit_log htasks hbetween hwithin ht
      · exact h.commit_record htasks hbetween hwithin ht
    | rollback next =>
      rcases suffix_cases hsuffix with ⟨event, rfl, -⟩ | ⟨rfl, -⟩
      · exact hwithin.2.1.elim
      · rcases hwithin.2 with ⟨hends, -⟩ | ⟨hcommit, -⟩
        · cases hends with
          | tail hlast => cases hlast
        · cases hcommit
  · exact h.setTask htasks hbetween

theorem transactions_ne_nil (source : Source) (record : LogRecord) :
    ∃ t todo, record.transactions source = t :: todo := by
  unfold LogRecord.transactions
  split
  · exact ⟨_, _, rfl⟩
  · exact ⟨_, _, rfl⟩

/-- Every step keeps the invariant. -/
theorem Inv.step (h : Inv logs d₀ σ) {a : Action} {σ' : ProjectorSystem}
    (hstep : step logs σ a = some σ') : Inv logs d₀ σ' := by
  cases a with
  | start =>
    simp only [Projector.step] at hstep
    split at hstep
    · cases hstep
      refine { h with tasks := fun tasks htasks source => ?_ }
      cases htasks
      trivial
    · cases hstep
  | crash =>
    -- What has been committed stays.
    cases hstep
    exact h.stop
  | fetch source count =>
    simp only [Projector.step] at hstep
    split at hstep
    · cases hstep
    · next tasks htasks =>
      have hstate := h.tasks tasks htasks source
      split at hstep
      · next nextOffset hfetching =>
        cases hstep
        rw [hfetching] at hstate
        exact h.setTask htasks ⟨hstate, List.take_prefix _ _⟩
      · cases hstep
  | advance source =>
    simp only [Projector.step] at hstep
    split at hstep
    · cases hstep
    · next tasks htasks =>
      have hstate := h.tasks tasks htasks source
      generalize tasks source = state at hstate hstep
      unfold ProjectorSystem.advance at hstep
      split at hstep
      · cases hstep
        exact h.setTask htasks rfl
      · cases hstep
      · cases hstep
        exact h.setTask htasks hstate.1
      · next nextOffset record records =>
        cases hstep
        refine h.setTask htasks ?_
        obtain ⟨t, todo, hnonempty⟩ := transactions_ne_nil source record
        have hall : t :: todo <:+ record.transactions source := hnonempty ▸ List.suffix_refl _
        rw [hnonempty]
        exact ⟨hstate.1, hstate.2, hall⟩
      · cases hstep
        exact h.setTask htasks ⟨hstate.1.symm, hstate.2⟩
      · next nextOffset record records t todo =>
        cases hstep
        exact h.setTask htasks (.inl ⟨hstate, within_start t⟩)
      · cases hstep
        exact h.work htasks hstate

end Step

/-! ## Every schedule -/

theorem inv_initial (logs : PartitionLogs) {d₀ : ProjectorDb}
    (hfresh : ∀ source, d₀.offset source = none) :
    Inv logs d₀ (ProjectorSystem.initial d₀) := by
  refine ⟨rfl, ?_, ?_, ?_, fun source => ?_, fun source n hn => ?_, fun _ htasks => nomatch htasks⟩
  · exact fun c hc => absurd hc List.not_mem_nil
  · exact fun c hc => absurd hc List.not_mem_nil
  · exact fun c hc => absurd hc List.not_mem_nil
  · show [] = (logs.records source).takeWhile (LogRecord.isBefore (d₀.offset source))
    rw [hfresh source]
    cases logs.records source <;> rfl
  · exact absurd ((hfresh source).symm.trans hn) nofun

/-- Every record is applied exactly once, in the order of its partition, by all
the writes of its transaction; the stored offset is behind the last applied
record; what else is committed are rows of the log, one for each event id. -/
theorem projector_exactly_once (logs : PartitionLogs) {d₀ : ProjectorDb}
    (hfresh : ∀ source, d₀.offset source = none) {actions : List Action} {σ : ProjectorSystem}
    (hrun : Machine.run (step logs) (.initial d₀) actions = some σ) :
    σ.committed.unnumbered = (σ.log.foldl (fun d c => view c.writes d) d₀).unnumbered ∧
    (∀ c ∈ σ.log, (∃ all next, Reaches c.transaction.program all (.commit next) ∧
        c.writes = transactional all) ∧
      (∃ source, ∃ record ∈ logs.records source,
        c.transaction ∈ record.transactions source) ∧
      ((∀ source, c.applied source = none) → ∀ w ∈ c.writes, w.area = .log)) ∧
    (∀ source, appliedRecords source σ.log =
        (logs.records source).takeWhile (LogRecord.isBefore (σ.committed.offset source)) ∧
      σ.committed.offset source =
        (appliedRecords source σ.log).getLast?.map fun record => record.offset + 1) ∧
    (σ.committed.engineEventLog.rows.map EngineEventLogRow.engineEventId).Nodup := by
  have hinv : Inv logs d₀ σ :=
    Machine.inv_of_run (P := Inv logs d₀) (fun h hstep => h.step hstep) hrun (inv_initial logs hfresh)
  refine ⟨hinv.data, fun c hc => ⟨hinv.complete c hc, hinv.records c hc, hinv.logged c hc⟩,
    fun source => ⟨hinv.applied source, ?_⟩, σ.committed.engineEventLog.unique⟩
  cases hoffset : σ.committed.offset source with
  | none =>
    have hnil : appliedRecords source σ.log = [] := by
      rw [hinv.applied source, hoffset]
      cases logs.records source <;> rfl
    rw [hnil]
    rfl
  | some nextOffset =>
    obtain ⟨record, hlast, rfl⟩ := hinv.offset source nextOffset hoffset
    rw [hlast]
    rfl

/-- One event in a partition of the event topic. -/
def markPriceLogs : PartitionLogs where
  records source :=
    if source = ("engine.events", 0) then
      [⟨0, .engineEvent (.markPriceUpdated
        { engineEventId := some "e1"
          marketId := 7
          engineSequence := 1
          engineTimestampMs := 1
          sourceInputId := none
          sourceInputOffset := none
          markPrice := 100
          indexPrice := 100
          validUntilMs := 2
          sourceSequence := 1
          sourceStatus := "OK" })⟩]
    else []
  sorted source := by
    split
    · exact List.pairwise_singleton _ _
    · exact List.Pairwise.nil

/-- The projector is started and takes the first event up, as far as a number of steps. -/
def takeUp (steps : ℕ) : List Action :=
  .start :: .advance ("engine.events", 0) :: .fetch ("engine.events", 0) 1 ::
    List.replicate steps (.advance ("engine.events", 0))

def soleMarketDb : ProjectorDb :=
  .empty [] (fun _ => none)
    (Table.empty.upsert { marketId := 7, marketName := "SOL", lastTradedPrice := 100 })

/-- The projector stops when the event is only in the log, and works it off when
it runs again. -/
theorem projector_exactly_once_restart : ∃ σ,
    Machine.run (step markPriceLogs) (.initial soleMarketDb) (takeUp 4 ++ .crash :: takeUp 9) =
      some σ ∧ σ.log.length = 3 ∧ σ.committed.offset ("engine.events", 0) = some 1 := by
  have hfresh : ∀ source, soleMarketDb.offset source = none := fun _ => rfl
  have hdone : (Machine.run (step markPriceLogs) (.initial soleMarketDb)
      (takeUp 4 ++ .crash :: takeUp 9)).map (fun σ =>
        (σ.log.length, (appliedRecords ("engine.events", 0) σ.log).map LogRecord.offset)) =
      some (3, [0]) := by
    decide +kernel
  obtain ⟨σ, hrun, hσ⟩ := Option.map_eq_some_iff.1 hdone
  obtain ⟨hlength, happlied⟩ := Prod.mk.inj hσ
  have honce := projector_exactly_once markPriceLogs hfresh hrun
  have hoffset := (honce.2.2.1 ("engine.events", 0)).2
  refine ⟨σ, hrun, hlength, hoffset.trans ?_⟩
  show Option.map ((fun n : ℤ => n + 1) ∘ LogRecord.offset) _ = _
  rw [← Option.map_map, ← List.getLast?_map, happlied]
  rfl

end Projector
