import ExchangeServer.Timeseries.CandleMerge
import ExchangeServer.Timeseries.Queue

/-!
# The timeseries service under any interleaving

The tasks of the partitions interleave, stop anywhere and are started again, and
one partition may even be read by two tasks. Their transactions are repeatable, so
what is committed is what a serial run of them commits. In that run a record comes
after all earlier records of its partition, the offset of a partition is past
exactly the records that have been committed, and the candles summarize the trades
of these records, each counted once.

## Main results

- `committed_serially`: the committed data and offsets after any schedule
- `candles_exactly_once`: the candles after any schedule
-/

namespace Timeseries

open Protocol Relational Transactional Program

/-- The trade of a record. -/
def LogRecord.trade? (record : LogRecord) : Option TradeExecuted :=
  match record.event with
  | some (.tradeExecuted trade) => some trade
  | _ => none

/-- A trade of a partition as it is recorded. -/
def tradeRecord (topic : String) (partition : ℤ) (record : LogRecord) (trade : TradeExecuted) :
    TradeRecord where
  topic := topic
  partition := partition
  offset := record.offset
  trade := trade

/-- The offset of a partition is past a record. -/
def Consumed (topic : String) (partition : ℤ) (d : TimeseriesDb) (record : LogRecord) : Prop :=
  ∃ nextOffset, d.nextOffset (topic, partition) = some nextOffset ∧ record.offset < nextOffset

theorem Consumed.mono {topic : String} {partition : ℤ} {d d' : TimeseriesDb} {record : LogRecord}
    (h : Consumed topic partition d record) (hle : TimeseriesDb.Grows d d') :
    Consumed topic partition d' record := by
  obtain ⟨nextOffset, hstored, hlt⟩ := h
  obtain ⟨nextOffset', hstored', hle⟩ := hle.offset _ _ hstored
  exact ⟨nextOffset', hstored', lt_of_lt_of_le hlt hle⟩

/-! ## One record -/

section Record

variable {topic : String} {partition : ℤ} {record : LogRecord} {d d' : TimeseriesDb} {a : Unit}

theorem processRecord_of_trade {trade : TradeExecuted} (h : record.trade? = some trade) :
    Session.processRecord topic partition record = (do
      let _ ← Session.recordTrade topic partition record.offset (record.offset + 1) trade
        (candleDraftsFromTrade trade)
      return ()) := by
  obtain ⟨offset, event⟩ := record
  cases event with
  | none => cases h
  | some event =>
    cases event with
    | tradeExecuted =>
      cases h
      rfl
    | _ => cases h

theorem processRecord_of_none (h : record.trade? = none) :
    Session.processRecord topic partition record =
      Session.saveQueueOffset topic partition (record.offset + 1) := by
  obtain ⟨offset, event⟩ := record
  cases event with
  | none => rfl
  | some event =>
    cases event with
    | tradeExecuted => cases h
    | _ => rfl

theorem atomic_saveQueueOffset (topic : String) (partition nextOffset : ℤ) :
    (Session.saveQueueOffset topic partition nextOffset).Atomic :=
  atomic_bind (open_perform _) fun _ => atomic_commitTx

theorem Session.open_upsertCandlesInTx (candles : List CandleDraft) :
    (Session.upsertCandlesInTx candles).Open := by
  induction candles with
  | nil => exact open_pure ()
  | cons candle candles ih => exact open_bind (open_perform _) fun _ => ih

theorem Session.atomic_recordTrade (topic : String) (partition offset nextOffset : ℤ)
    (trade : TradeExecuted) (candles : List CandleDraft) :
    (Session.recordTrade topic partition offset nextOffset trade candles).Atomic := by
  refine atomic_bind (open_perform _) fun inserted => atomic_bind ?_ fun _ =>
    atomic_bind (open_perform _) fun _ => ⟨inserted, rfl⟩
  cases inserted
  · exact open_pure ()
  · exact Session.open_upsertCandlesInTx candles

theorem repeatable_upsertCandlesInTx (candles : List CandleDraft) :
    (Session.upsertCandlesInTx candles).Repeatable := by
  induction candles with
  | nil => exact repeatable_pure ()
  | cons candle candles ih =>
    exact repeatable_bind (repeatable_perform (Statement.stable_upsertCandle candle)) fun _ => ih

theorem repeatable_recordTrade (topic : String) (partition offset nextOffset : ℤ)
    (trade : TradeExecuted) (candles : List CandleDraft) :
    (Session.recordTrade topic partition offset nextOffset trade candles).Repeatable := by
  refine repeatable_bind (repeatable_perform (Statement.stable_insertTrade ..)) fun inserted =>
    repeatable_bind ?_ fun _ =>
      repeatable_bind (repeatable_perform (Statement.stable_saveQueueOffset ..)) fun _ => trivial
  cases inserted
  · exact repeatable_pure ()
  · exact repeatable_upsertCandlesInTx candles

/-- The transaction of a record is one that might as well run alone. -/
theorem atomic_processRecord (topic : String) (partition : ℤ) (record : LogRecord) :
    (Session.processRecord topic partition record).Atomic ∧
      (Session.processRecord topic partition record).Repeatable := by
  cases htrade : record.trade? with
  | none =>
    rw [processRecord_of_none htrade]
    exact ⟨atomic_saveQueueOffset _ _ _, repeatable_bind
      (repeatable_perform (Statement.stable_saveQueueOffset ..)) fun _ => repeatable_commitTx⟩
  | some trade =>
    rw [processRecord_of_trade htrade]
    exact ⟨atomic_bind_pure (Session.atomic_recordTrade _ _ _ _ _ _) _,
      repeatable_bind (repeatable_recordTrade _ _ _ _ _ _) fun _ => trivial⟩

/-- The offset of a partition after one more record. -/
def advanced (stored : Option ℤ) (nextOffset : ℤ) : ℤ := stored.elim nextOffset (max · nextOffset)

theorem eval_saveQueueOffsetInTx {nextOffset : ℤ}
    (h : (Session.saveQueueOffsetInTx topic partition nextOffset).eval d = .ok (a, d')) :
    d'.timeseriesTrades = d.timeseriesTrades ∧ d'.candles = d.candles ∧
      ∀ key, d'.nextOffset key =
        if key = (topic, partition) then some (advanced (d.nextOffset key) nextOffset)
        else d.nextOffset key := by
  obtain ⟨ws, hs, rfl⟩ := eval_perform_eq_ok h
  change saveQueueOffsetSql topic partition nextOffset d = _ at hs
  by_cases hcheck : 0 ≤ nextOffset
  · rw [saveQueueOffsetSql_eq hcheck] at hs
    let row : OffsetRow := ⟨topic, partition, nextOffset, hcheck⟩
    by_cases hadvances : d.Advances row
    · rw [if_pos hadvances] at hs
      cases hs
      have hwrite : TimeseriesDb.commitWrite (.putOffset row) d =
          { d with timeseriesOffsets := d.timeseriesOffsets.upsert row } := if_pos hadvances
      have htrades : (TimeseriesDb.commitWrite (.putOffset row) d).timeseriesTrades =
          d.timeseriesTrades := by rw [hwrite]
      have hcandles : (TimeseriesDb.commitWrite (.putOffset row) d).candles = d.candles := by
        rw [hwrite]
      refine ⟨htrades, hcandles, fun key => ?_⟩
      refine (TimeseriesDb.nextOffset_commitWrite key).trans ?_
      by_cases hkey : key = (topic, partition)
      · subst hkey
        rw [if_pos ⟨hadvances, rfl⟩, if_pos rfl]
        cases hstored : d.nextOffset (topic, partition) with
        | none => rfl
        | some stored => exact congrArg some (max_eq_right (hadvances stored hstored).le).symm
      · rw [if_neg fun h => hkey h.2, if_neg hkey]
    · rw [if_neg hadvances] at hs
      cases hs
      refine ⟨rfl, rfl, fun key => ?_⟩
      by_cases hkey : key = (topic, partition)
      · subst hkey
        rw [if_pos rfl]
        simp only [TimeseriesDb.Advances, not_forall, not_lt] at hadvances
        obtain ⟨stored, hstored, hle⟩ := hadvances
        have hfound : d.nextOffset (topic, partition) = some stored := hstored
        rw [hfound]
        exact hfound.trans (congrArg some (max_eq_left hle).symm)
      · rw [if_neg hkey]
        rfl
  · rw [saveQueueOffsetSql, dif_neg hcheck] at hs
    cases hs

/-- Trades and candles are stored beside the offsets. -/
theorem nextOffset_of_writes {α : Type} {p : Session.Tx α} {b : α}
    (hp : p.Writes fun w => ∀ row, w ≠ .putOffset row) (h : p.eval d = .ok (b, d'))
    (key : String × ℤ) : d'.nextOffset key = d.nextOffset key := by
  obtain ⟨ws, hws, rfl⟩ := eval_of_writes hp h
  have hfree : Key.offset key ∉ Locking.held Statement ws := by
    intro hmem
    obtain ⟨w, hw, hk⟩ := Locking.mem_held.1 hmem
    cases w with
    | putTrade row => simp [Locking.keys, Write.keys] at hk
    | putCandle row => simp [Locking.keys, Write.keys] at hk
    | putOffset row => exact hws _ hw row rfl
  exact Entry.offset.inj (Locking.look_applyAll_of_not_mem hfree d)

theorem writes_upsertCandlesInTx (candles : List CandleDraft) :
    (Session.upsertCandlesInTx candles).Writes fun w => ∀ row, w ≠ .putOffset row := by
  induction candles with
  | nil => exact writes_pure _ ()
  | cons candle candles ih =>
    refine writes_bind (writes_perform fun d b ws he w hw row => ?_) fun _ => ih
    obtain ⟨stored, -, rfl⟩ := upsertCandle_ok_cases he
    rw [List.mem_singleton.1 hw]
    rintro ⟨⟩

/-- A trade that has been recorded is stored, and the offset is past it. -/
theorem eval_recordTrade {offset nextOffset : ℤ} {trade : TradeExecuted}
    {candles : List CandleDraft} {b : Bool}
    (h : (Session.recordTrade topic partition offset nextOffset trade candles).eval d = .ok (b, d')) :
    (d'.timeseriesTrades.find? (trade.marketId, trade.engineSequence)).isSome ∧
      ∀ key, d'.nextOffset key =
        if key = (topic, partition) then some (advanced (d.nextOffset key) nextOffset)
        else d.nextOffset key := by
  obtain ⟨inserted, d₁, hinsert, hrest⟩ := eval_bind_eq_ok h
  obtain ⟨_, d₂, hcandles, hlast⟩ := eval_bind_eq_ok hrest
  obtain ⟨_, d₃, hsave, hend⟩ := eval_bind_eq_ok hlast
  cases hend
  constructor
  · have hstored : (d₁.timeseriesTrades.find? (trade.marketId, trade.engineSequence)).isSome := by
      obtain ⟨ws, hs, rfl⟩ := eval_perform_eq_ok hinsert
      rcases insertTrade_ok hs with ⟨-, rfl, hfound⟩ | ⟨row, hkey, -, rfl, hfree⟩
      · exact hfound
      · have hfind : (TimeseriesDb.commitWrite (.putTrade row) d).timeseriesTrades.find? row.key = some row := by
          rw [TimeseriesDb.find?_commitWrite, if_pos ⟨hfree, rfl⟩]
        rw [hkey] at hfind
        exact Option.isSome_iff_exists.2 ⟨row, hfind⟩
    obtain ⟨row, hrow⟩ := Option.isSome_iff_exists.1 hstored
    have hgrows : TimeseriesDb.Grows d₁ d' :=
      TimeseriesDb.Grows.trans (le_of_eval hcandles) (le_of_eval hsave)
    exact Option.isSome_iff_exists.2 ⟨row, hgrows.trade _ _ hrow⟩
  · have hinserted : ∀ key, d₁.nextOffset key = d.nextOffset key := by
      refine nextOffset_of_writes (writes_perform fun d b ws he w hw stored => ?_) hinsert
      rcases insertTrade_ok he with ⟨-, rfl, -⟩ | ⟨row, -, -, rfl, -⟩
      · cases hw
      · rw [List.mem_singleton.1 hw]
        rintro ⟨⟩
    have hupserted : ∀ key, d₂.nextOffset key = d₁.nextOffset key := by
      cases b
      · exact nextOffset_of_writes (writes_pure _ ()) hcandles
      · exact nextOffset_of_writes (writes_upsertCandlesInTx candles) hcandles
    intro key
    rw [(eval_saveQueueOffsetInTx hsave).2.2 key, hupserted, hinserted]

/-- The offset after the transaction of a record. -/
theorem nextOffset_of_eval (h : (Session.processRecord topic partition record).eval d = .ok (a, d'))
    (key : String × ℤ) :
    d'.nextOffset key =
      if key = (topic, partition) then some (advanced (d.nextOffset key) (record.offset + 1))
      else d.nextOffset key := by
  cases htrade : record.trade? with
  | none =>
    rw [processRecord_of_none htrade] at h
    obtain ⟨_, d₁, hsave, hend⟩ := eval_bind_eq_ok h
    cases hend
    exact (eval_saveQueueOffsetInTx hsave).2.2 key
  | some trade =>
    rw [processRecord_of_trade htrade] at h
    obtain ⟨b, d₁, hrecord, hend⟩ := eval_bind_eq_ok h
    cases hend
    exact (eval_recordTrade hrecord).2 key

/-- Only a trade changes trades and candles. -/
theorem eval_of_no_trade (htrade : record.trade? = none)
    (h : (Session.processRecord topic partition record).eval d = .ok (a, d')) :
    d'.timeseriesTrades = d.timeseriesTrades ∧ d'.candles = d.candles := by
  rw [processRecord_of_none htrade] at h
  obtain ⟨_, d₁, hsave, hend⟩ := eval_bind_eq_ok h
  cases hend
  obtain ⟨htrades, hcandles, -⟩ := eval_saveQueueOffsetInTx hsave
  exact ⟨htrades, hcandles⟩

/-- A trade is recorded as by the service alone. -/
theorem eval_of_trade {trade : TradeExecuted} (htrade : record.trade? = some trade)
    (h : (Session.processRecord topic partition record).eval d = .ok (a, d')) :
    ((tradeRecord topic partition record trade).record d).2 = d' ∧
      (d'.timeseriesTrades.find? (tradeRecord topic partition record trade).key).isSome := by
  rw [processRecord_of_trade htrade] at h
  obtain ⟨b, d₁, hrecord, hend⟩ := eval_bind_eq_ok h
  cases hend
  refine ⟨?_, (eval_recordTrade hrecord).1⟩
  rw [← eval_toTx, toTx_recordTrade] at hrecord
  rw [run_record]
  exact congrArg (fun result => (outcome d result).2) hrecord

/-- The transaction of a record consumes it. -/
theorem consumed_of_eval
    (h : (Session.processRecord topic partition record).eval d = .ok (a, d')) :
    Consumed topic partition d' record := by
  refine ⟨_, (nextOffset_of_eval h _).trans (if_pos rfl), ?_⟩
  cases d.nextOffset (topic, partition) with
  | none => exact lt_add_one record.offset
  | some stored => exact (lt_add_one record.offset).trans_le (le_max_right _ _)

end Record

/-! ## Every schedule -/

/-- A record with the partition that it is read from. -/
abbrev Request := ℤ × LogRecord

/-- The transaction of a record. -/
def transaction (self : TopicLog) (request : Request) : Session.Tx Unit :=
  Session.processRecord self.topic request.1 request.2

/-- A record of the log may be committed when the earlier ones of its partition are. -/
def Allowed (self : TopicLog) (request : Request) (d : TimeseriesDb) : Prop :=
  request.2 ∈ self.records request.1 ∧
    ∀ earlier ∈ self.records request.1, earlier.offset < request.2.offset →
      Consumed self.topic request.1 d earlier

section Tasks

variable {self : TopicLog} {partition : ℤ}

/-- A task keeps its contract over the rest of its records. -/
theorem wlp_processRecords {before records : List LogRecord}
    (hsplit : self.records partition = before ++ records) {d : TimeseriesDb}
    (hbefore : ∀ record ∈ before, Consumed self.topic partition d record) :
    (Session.processRecords self.topic partition records).wlp TimeseriesDb.Grows
      (serialContract (transaction self) (Allowed self)) d [] fun _ _ _ => True := by
  induction records generalizing before d with
  | nil => trivial
  | cons record records ih =>
    have hmem : record ∈ self.records partition := by simp [hsplit]
    -- Records are in the order of their offsets, so the earlier ones come before.
    have hprior : ∀ earlier ∈ self.records partition, earlier.offset < record.offset →
        Consumed self.topic partition d earlier := by
      intro earlier hearlier hlt
      have hsorted := self.sorted partition
      rw [hsplit, List.pairwise_append, List.pairwise_cons] at hsorted
      rw [hsplit] at hearlier
      rcases List.mem_append.1 hearlier with hearlier | hearlier
      · exact hbefore earlier hearlier
      · rcases List.mem_cons.1 hearlier with rfl | hearlier
        · exact absurd hlt (lt_irrefl _)
        · exact absurd hlt (not_lt_of_gt (hsorted.2.1.1 earlier hearlier))
    obtain ⟨hatomic, hrepeatable⟩ : (transaction self (partition, record)).Atomic ∧
        (transaction self (partition, record)).Repeatable := atomic_processRecord ..
    have hallowed : Allowed self (partition, record) d := ⟨hmem, hprior⟩
    refine wlp_bind.2 (wlp_mono (wlp_serially (transaction self) hatomic hrepeatable hallowed) ?_)
    intro r d' ws hdone
    cases r with
    | error e => trivial
    | ok a =>
      obtain ⟨rfl, d₁, heval, hgrows, hgrows'⟩ := hdone a rfl
      have hsplit' : self.records partition = (before ++ [record]) ++ records := by
        rw [hsplit, List.append_assoc]
        rfl
      refine ih hsplit' fun earlier hearlier => ?_
      rcases List.mem_append.1 hearlier with hearlier | hearlier
      · exact ((hbefore earlier hearlier).mono hgrows).mono hgrows'
      · obtain rfl := List.mem_singleton.1 hearlier
        exact (consumed_of_eval heval).mono hgrows'

theorem wlp_runEngineEventPartition (self : TopicLog) (partition : ℤ) (d : TimeseriesDb) :
    (Session.runEngineEventPartition self partition).wlp TimeseriesDb.Grows
      (serialContract (transaction self) (Allowed self)) d [] fun _ _ _ => True := by
  refine wlp_bind.2 (wlp_perform.2 ⟨fun _ _ => trivial, fun v stored ws he hv => ?_⟩)
  cases he
  cases hstored : v.nextOffset (self.topic, partition) with
  | none =>
    have hsplit : self.records partition = [] ++ self.records partition := rfl
    exact wlp_processRecords hsplit fun _ h => absurd h List.not_mem_nil
  | some nextOffset =>
    -- Records below the stored offset are not read again.
    let below : LogRecord → Bool := fun record => record.offset < nextOffset
    have hsplit : self.records partition =
        (self.records partition).takeWhile below ++ (self.records partition).dropWhile below :=
      List.takeWhile_append_dropWhile.symm
    refine wlp_processRecords hsplit fun record hrecord => ?_
    have hlt : record.offset < nextOffset := by
      simpa [below] using List.all_eq_true.1 List.all_takeWhile record hrecord
    exact Consumed.mono ⟨nextOffset, hstored, hlt⟩ (hv.rel TimeseriesDb.Grows.refl)

end Tasks

/-- The committed data, the locks and the running tasks. -/
abbrev TimeseriesSystem :=
  System Statement TimeseriesRepositoryError Unit TimeseriesDb Write Key ℤ

/-- The effect of a schedule: tasks are started, take steps and stop, by
partition. -/
def consumeAll (self : TopicLog) (schedule : List (Action ℤ)) : Option TimeseriesSystem :=
  (System.initial .empty).steps (Session.runEngineEventPartition self) schedule

/-! ## Offsets -/

/-- A position holds one record. -/
theorem record_eq {self : TopicLog} {partition : ℤ} {record record' : LogRecord}
    (h : record ∈ self.records partition) (h' : record' ∈ self.records partition)
    (hoffset : record.offset = record'.offset) : record = record' := by
  have hnodup : ((self.records partition).map LogRecord.offset).Nodup :=
    List.pairwise_map.2 ((self.sorted partition).imp fun h => ne_of_lt h)
  exact List.inj_on_of_nodup_map hnodup h h' hoffset

/-- Records of the log have been committed, and the offsets are past these. -/
structure Committed (log : TopicLog) (requests : List Request) (d : TimeseriesDb) : Prop where
  logged : ∀ request ∈ requests, request.2 ∈ log.records request.1
  offsets : ∀ partition, ∀ record ∈ log.records partition,
    Consumed log.topic partition d record ↔ (partition, record) ∈ requests

theorem committed_empty (self : TopicLog) : Committed self [] .empty where
  logged _ h := absurd h List.not_mem_nil
  offsets _ _ _ := by
    refine ⟨?_, fun h => absurd h List.not_mem_nil⟩
    rintro ⟨_, hstored, -⟩
    cases hstored

/-- What is consumed after the transaction of a record. -/
theorem consumed_iff {self : TopicLog} {request : Request} {a : Unit} {d d' : TimeseriesDb}
    (hallowed : Allowed self request d) (heval : (transaction self request).eval d = .ok (a, d'))
    {partition : ℤ} {record : LogRecord} (hrecord : record ∈ self.records partition) :
    Consumed self.topic partition d' record ↔
      Consumed self.topic partition d record ∨ (partition, record) = request := by
  constructor
  · rintro ⟨nextOffset, hstored, hlt⟩
    rw [nextOffset_of_eval heval] at hstored
    split at hstored
    · next hkey =>
      obtain rfl : partition = request.1 := congrArg Prod.snd hkey
      cases hstored
      have hcases : Consumed self.topic request.1 d record ∨
          record.offset < request.2.offset + 1 := by
        cases hbefore : d.nextOffset (self.topic, request.1) with
        | none =>
          rw [hbefore] at hlt
          exact .inr hlt
        | some stored =>
          rw [hbefore] at hlt
          exact (lt_max_iff.1 hlt).imp_left fun h => ⟨stored, hbefore, h⟩
      rcases hcases with hconsumed | hlt
      · exact .inl hconsumed
      · rcases lt_or_eq_of_le (Int.lt_add_one_iff.1 hlt) with hlt | heq
        · exact .inl (hallowed.2 record hrecord hlt)
        · exact .inr (Prod.ext rfl (record_eq hrecord hallowed.1 heq))
    · exact .inl ⟨nextOffset, hstored, hlt⟩
  · rintro (hconsumed | rfl)
    · exact hconsumed.mono (le_of_eval heval)
    · exact consumed_of_eval heval

theorem Committed.step {self : TopicLog} {requests : List Request} {request : Request} {a : Unit}
    {d d' : TimeseriesDb} (h : Committed self requests d) (hallowed : Allowed self request d)
    (heval : (transaction self request).eval d = .ok (a, d')) :
    Committed self (requests ++ [request]) d' where
  logged other hother := by
    rcases List.mem_append.1 hother with hother | hother
    · exact h.logged other hother
    · rw [List.mem_singleton.1 hother]
      exact hallowed.1
  offsets partition record hrecord := by
    rw [consumed_iff hallowed heval hrecord, h.offsets partition record hrecord, List.mem_append,
      List.mem_singleton]

theorem committed_of_serially {self : TopicLog} {requests : List Request} {d : TimeseriesDb}
    (h : Serially (transaction self) (Allowed self) .empty requests d) : Committed self requests d :=
  h.inv (fun _ _ _ _ _ hcommitted hallowed heval => hcommitted.step hallowed heval)
    (committed_empty self)

/-- After any schedule the committed data is that of a serial run of records, in which
a record comes after the earlier ones of its partition, and the offset of a partition
is past exactly the records of the run. -/
theorem committed_serially (self : TopicLog) (schedule : List (Action ℤ)) (σ : TimeseriesSystem)
    (h : consumeAll self schedule = some σ) :
    ∃ requests, Serially (transaction self) (Allowed self) .empty requests σ.committed ∧
      Committed self requests σ.committed := by
  obtain ⟨requests, hserially⟩ :=
    System.serially_of_steps (wlp_runEngineEventPartition self) h
  exact ⟨requests, hserially, committed_of_serially hserially⟩

/-! ## Trades -/

/-- The trades that are stored are those of the committed records, one for each market
and sequence. -/
structure Accepted (log : TopicLog) (requests : List Request) (d : TimeseriesDb)
    (accepted : List TradeRecord) : Prop where
  recorded : Recorded d accepted
  keys : (accepted.map TradeRecord.key).Nodup
  sound : ∀ trade ∈ accepted, ∃ request ∈ requests,
    request.2.trade? = some trade.trade ∧
      trade = tradeRecord log.topic request.1 request.2 trade.trade
  complete : ∀ request ∈ requests, ∀ trade, request.2.trade? = some trade →
    ∃ old ∈ accepted, old.key = (trade.marketId, trade.engineSequence)

theorem accepted_empty (log : TopicLog) : Accepted log [] .empty [] where
  recorded := recorded_empty
  keys := List.nodup_nil
  sound _ h := absurd h List.not_mem_nil
  complete _ h := absurd h List.not_mem_nil

section Trades

variable {log : TopicLog} {requests : List Request} {request : Request} {a : Unit}
  {d d' : TimeseriesDb} {accepted : List TradeRecord}

/-- A record whose trade is known adds nothing. -/
theorem Accepted.known (h : Accepted log requests d accepted)
    (htrades : d'.timeseriesTrades = d.timeseriesTrades) (hcandles : d'.candles = d.candles)
    (hknown : ∀ trade, request.2.trade? = some trade →
      ∃ old ∈ accepted, old.key = (trade.marketId, trade.engineSequence)) :
    Accepted log (requests ++ [request]) d' accepted where
  recorded := h.recorded.congr htrades hcandles
  keys := h.keys
  sound trade htrade := by
    obtain ⟨other, hother, hsame⟩ := h.sound trade htrade
    exact ⟨other, List.mem_append_left _ hother, hsame⟩
  complete other hother trade htrade := by
    rcases List.mem_append.1 hother with hother | hother
    · exact h.complete other hother trade htrade
    · rw [List.mem_singleton.1 hother] at htrade
      exact hknown trade htrade

/-- The transaction of a record keeps the trades and their candles. -/
theorem Accepted.step (h : Accepted log requests d accepted)
    (heval : (transaction log request).eval d = .ok (a, d')) :
    ∃ accepted', Accepted log (requests ++ [request]) d' accepted' := by
  cases htrade : request.2.trade? with
  | none =>
    obtain ⟨htrades, hcandles⟩ := eval_of_no_trade htrade heval
    refine ⟨accepted, h.known htrades hcandles fun trade h => ?_⟩
    rw [htrade] at h
    cases h
  | some trade =>
    obtain ⟨hrecord, hstored⟩ := eval_of_trade htrade heval
    rcases record_cases (tradeRecord log.topic request.1 request.2 trade) d with
      ⟨htrades, hcandles⟩ | ⟨hstorable, hfree, hindices, hchecks⟩
    · rw [hrecord] at htrades hcandles
      refine ⟨accepted, h.known htrades hcandles fun other hother => ?_⟩
      obtain rfl := Option.some.inj (htrade.symm.trans hother)
      rw [htrades] at hstored
      obtain ⟨row, hrow⟩ := Option.isSome_iff_exists.1 hstored
      obtain ⟨old, hold, hkey, -⟩ := h.recorded.summary.rows row (Table.mem_of_find? hrow)
      exact ⟨old, hold, hkey.symm.trans (Table.key_of_find? hrow)⟩
    · refine ⟨accepted ++ [tradeRecord log.topic request.1 request.2 trade],
        hrecord ▸ h.recorded.accept hstorable hfree hindices hchecks, ?_, ?_, ?_⟩
      · rw [List.map_append, List.map_singleton, List.nodup_append]
        refine ⟨h.keys, List.nodup_singleton _, ?_⟩
        intro key hkey _ hnew
        obtain ⟨old, hold, rfl⟩ := List.mem_map.1 hkey
        rw [List.mem_singleton.1 hnew]
        intro heq
        have hsome := h.recorded.summary.stored old hold
        rw [heq, hfree] at hsome
        cases hsome
      · intro other hother
        rcases List.mem_append.1 hother with hother | hother
        · obtain ⟨source, hsource, hsame⟩ := h.sound other hother
          exact ⟨source, List.mem_append_left _ hsource, hsame⟩
        · rw [List.mem_singleton.1 hother]
          exact ⟨request, List.mem_append_right _ (List.mem_singleton_self _), htrade, rfl⟩
      · intro other hother trade' htrade'
        rcases List.mem_append.1 hother with hother | hother
        · obtain ⟨old, hold, hkey⟩ := h.complete other hother trade' htrade'
          exact ⟨old, List.mem_append_left _ hold, hkey⟩
        · rw [List.mem_singleton.1 hother] at htrade'
          obtain rfl := Option.some.inj (htrade.symm.trans htrade')
          exact ⟨_, List.mem_append_right _ (List.mem_singleton_self _), rfl⟩

end Trades

/-- The trades that have been consumed, each market and sequence counted once. -/
structure ConsumedTrades (log : TopicLog) (d : TimeseriesDb) (accepted : List TradeRecord) :
    Prop where
  keys : (accepted.map TradeRecord.key).Nodup
  sound : ∀ trade ∈ accepted, ∃ partition, ∃ record ∈ log.records partition,
    Consumed log.topic partition d record ∧ record.trade? = some trade.trade
  complete : ∀ partition, ∀ record ∈ log.records partition,
    Consumed log.topic partition d record → ∀ trade, record.trade? = some trade →
      ∃ old ∈ accepted, old.key = (trade.marketId, trade.engineSequence)

/-- After any schedule the stored rows are those of the consumed trades. -/
theorem exists_accepted {log : TopicLog} {schedule : List (Action ℤ)} {σ : TimeseriesSystem}
    (h : consumeAll log schedule = some σ) :
    ∃ accepted, ConsumedTrades log σ.committed accepted ∧ Recorded σ.committed accepted := by
  obtain ⟨requests, hserially⟩ := System.serially_of_steps (wlp_runEngineEventPartition log) h
  have hcommitted := committed_of_serially hserially
  obtain ⟨accepted, haccepted⟩ : ∃ accepted, Accepted log requests σ.committed accepted := by
    refine hserially.inv (I := fun requests d => ∃ accepted, Accepted log requests d accepted) ?_
      ⟨[], accepted_empty log⟩
    rintro requests request a d d' ⟨accepted, haccepted⟩ - heval
    exact haccepted.step heval
  refine ⟨accepted, ⟨haccepted.keys, fun trade htrade => ?_, ?_⟩, haccepted.recorded⟩
  · obtain ⟨request, hrequest, hsame, -⟩ := haccepted.sound trade htrade
    have hlogged := hcommitted.logged request hrequest
    exact ⟨request.1, request.2, hlogged, (hcommitted.offsets _ _ hlogged).2 hrequest, hsame⟩
  · intro partition record hrecord hconsumed trade htrade
    exact haccepted.complete _ ((hcommitted.offsets _ _ hrecord).1 hconsumed) trade htrade

/-- After any schedule the stored candles summarize the trades that have been consumed:
a bucket has a candle when it has a trade, and the candle is the summary of the trades of
the bucket. -/
theorem candles_exactly_once (log : TopicLog) (schedule : List (Action ℤ)) (σ : TimeseriesSystem)
    (h : consumeAll log schedule = some σ) :
    ∃ accepted, ConsumedTrades log σ.committed accepted ∧
      ∀ marketId, ∀ interval ∈ candleIntervals, ∀ bucketStart, interval.durationMs ∣ bucketStart →
        RowSummarizes (σ.committed.candles.find? (marketId, interval.label, bucketStart))
          (bucketTrades accepted marketId interval bucketStart) := by
  obtain ⟨accepted, hconsumed, hrecorded⟩ := exists_accepted h
  exact ⟨accepted, hconsumed, hrecorded.summary.candles⟩

/-- Two trades of one minute and between them a record without an event. -/
def minuteLog : TopicLog where
  topic := "engine.events"
  records partition :=
    if partition = 0 then
      [⟨0, some (.tradeExecuted (tradeAt 2 119000 90).trade)⟩, ⟨1, none⟩,
        ⟨2, some (.tradeExecuted (tradeAt 1 61000 100).trade)⟩]
    else []
  sorted partition := by
    split
    · simp
    · exact List.Pairwise.nil

/-- Two tasks read the same partition; the first one stops when it has stored the first
trade without having committed it, and both trades are stored by the second one. -/
def minuteSchedule : List (Action ℤ) :=
  [.start 0 0, .start 1 0, .exec 0, .exec 1, .exec 0, .exec 0, .close 0] ++
    List.replicate 7 (.exec 1) ++ [.commit 1, .exec 1, .commit 1] ++
      List.replicate 7 (.exec 1) ++ [.commit 1]

theorem committed_serially_minute :
    ∃ σ, consumeAll minuteLog minuteSchedule = some σ ∧
      ∃ requests, Serially (transaction minuteLog) (Allowed minuteLog) .empty requests σ.committed ∧
        (∀ record ∈ minuteLog.records 0, (0, record) ∈ requests) := by
  have hoffset : (consumeAll minuteLog minuteSchedule).map (fun σ =>
      σ.committed.nextOffset ("engine.events", 0)) = some (some 3) := by decide
  obtain ⟨σ, hσ, hoffset⟩ := Option.map_eq_some_iff.1 hoffset
  obtain ⟨requests, hserially, hcommitted⟩ := committed_serially minuteLog minuteSchedule σ hσ
  refine ⟨σ, hσ, requests, hserially, fun record hrecord => ?_⟩
  have hbelow : ∀ record ∈ minuteLog.records 0, record.offset < 3 := by decide
  exact (hcommitted.offsets 0 record hrecord).1 ⟨3, hoffset, hbelow record hrecord⟩

theorem candles_exactly_once_minute :
    ∃ σ accepted, consumeAll minuteLog minuteSchedule = some σ ∧
      (∃ old ∈ accepted, TradeRecord.key old = (1, 1)) ∧
      (∃ old ∈ accepted, TradeRecord.key old = (1, 2)) ∧
      RowSummarizes (σ.committed.candles.find? (1, "1m", 60000))
        (bucketTrades accepted 1 ⟨"1m", minuteMs⟩ 60000) := by
  have hoffset : (consumeAll minuteLog minuteSchedule).map (fun σ =>
      σ.committed.nextOffset ("engine.events", 0)) = some (some 3) := by decide
  obtain ⟨σ, hσ, hoffset⟩ := Option.map_eq_some_iff.1 hoffset
  obtain ⟨accepted, htrades, hcandles⟩ := candles_exactly_once minuteLog minuteSchedule σ hσ
  have hbelow : ∀ record ∈ minuteLog.records 0, record.offset < 3 := by decide
  have hconsumed : ∀ record ∈ minuteLog.records 0, Consumed "engine.events" 0 σ.committed record :=
    fun record hrecord => ⟨3, hoffset, hbelow record hrecord⟩
  have hfirst : (⟨2, some (.tradeExecuted (tradeAt 1 61000 100).trade)⟩ : LogRecord) ∈
      minuteLog.records 0 := List.mem_cons_of_mem _ (List.mem_cons_of_mem _ List.mem_cons_self)
  have hsecond : (⟨0, some (.tradeExecuted (tradeAt 2 119000 90).trade)⟩ : LogRecord) ∈
      minuteLog.records 0 := List.mem_cons_self
  exact ⟨σ, accepted, hσ, htrades.complete 0 _ hfirst (hconsumed _ hfirst) _ rfl,
    htrades.complete 0 _ hsecond (hconsumed _ hsecond) _ rfl, hcandles 1 ⟨"1m", minuteMs⟩ (by decide) 60000
      (by decide)⟩

end Timeseries
