import Mathlib.Algebra.BigOperators.Group.Finset.Basic
import Mathlib.Algebra.Order.BigOperators.Group.Finset
import Mathlib.Algebra.Order.Ring.Int
import Mathlib.Order.Bounds.Basic
import ExchangeServer.Timeseries.Repository

/-!
# Candles summarize the trades of their bucket

The upsert of a candle adds up some columns and lets sequences decide on others,
so it is right only for a trade that the candle does not have yet. The row of the
trade, which is inserted first and refused a second time, sees to that. What a
candle says is therefore a property of the set of trades of its bucket, whatever
the order in which they have come and however often.

## Main definitions

- `Summarizes`: a candle summarizes a set of trades
- `IsSummary`: the stored candles summarize the trades recorded so far
- `candles_summarize`: the candles after any records
-/

namespace Timeseries

open Protocol Relational Transactional Program

/-! ## Buckets -/

/-- A bucket has the times from its start to the start of the next one. -/
theorem bucketStartMs_eq_iff {timestampMs intervalMs bucketStart : ℤ} (hinterval : 0 < intervalMs)
    (hbucket : intervalMs ∣ bucketStart) :
    bucketStartMs timestampMs intervalMs = bucketStart ↔
      bucketStart ≤ timestampMs ∧ timestampMs < bucketStart + intervalMs := by
  have hnonneg := Int.emod_nonneg timestampMs hinterval.ne'
  have hlt := Int.emod_lt_of_pos timestampMs hinterval
  rw [bucketStartMs]
  constructor
  · intro heq
    omega
  · rintro ⟨hle, hbefore⟩
    obtain ⟨k, rfl⟩ := hbucket
    have hdiff : (timestampMs - intervalMs * k) % intervalMs = timestampMs - intervalMs * k :=
      Int.emod_eq_of_lt (by omega) (by omega)
    rw [Int.sub_mul_emod_self_left] at hdiff
    omega

/-- The intervals that the constraint on `candles` names. -/
theorem interval_label_mem {interval : CandleInterval} (h : interval ∈ candleIntervals) :
    interval.label ∈ ["1m", "5m", "15m", "1h", "1d"] ∧ 0 < interval.durationMs := by
  have hall : ∀ interval ∈ candleIntervals,
      interval.label ∈ ["1m", "5m", "15m", "1h", "1d"] ∧ 0 < interval.durationMs := by decide
  exact hall interval h

/-- A label names one interval. -/
theorem interval_eq_of_label {interval interval' : CandleInterval} (h : interval ∈ candleIntervals)
    (h' : interval' ∈ candleIntervals) (hlabel : interval.label = interval'.label) :
    interval = interval' := by
  have hall : ∀ interval ∈ candleIntervals, ∀ interval' ∈ candleIntervals,
      interval.label = interval'.label → interval = interval' := by decide
  exact hall interval h interval' h' hlabel

/-! ## Summaries -/

/-- A candle summarizes a set of trades. -/
structure Summarizes (candle : Candle) (trades : Finset TradeExecuted) : Prop where
  first : ∃ trade ∈ trades, trade.engineSequence = candle.firstEngineSequence ∧
    candle.openPrice = trade.price ∧ ∀ other ∈ trades, trade.engineSequence ≤ other.engineSequence
  last : ∃ trade ∈ trades, trade.engineSequence = candle.lastEngineSequence ∧
    candle.close = trade.price ∧ ∀ other ∈ trades, other.engineSequence ≤ trade.engineSequence
  high : IsGreatest (TradeExecuted.price '' trades) candle.high
  low : IsLeast (TradeExecuted.price '' trades) candle.low
  volume : candle.volume = ∑ trade ∈ trades, trade.quantity
  tradeCount : candle.tradeCount = trades.card

/-- The draft of a trade for an interval. -/
def draftOf (trade : TradeExecuted) (interval : CandleInterval) : CandleDraft where
  marketId := trade.marketId
  interval := interval.label
  bucketStartMs := bucketStartMs trade.engineTimestampMs interval.durationMs
  price := trade.price
  quantity := trade.quantity
  engineSequence := trade.engineSequence

section Summaries

variable {trade : TradeExecuted} {interval : CandleInterval} {trades : Finset TradeExecuted}

theorem summarizes_fresh : Summarizes (draftOf trade interval).fresh {trade} where
  first := ⟨trade, Finset.mem_singleton_self trade, rfl, rfl, by simp⟩
  last := ⟨trade, Finset.mem_singleton_self trade, rfl, rfl, by simp⟩
  high := by
    rw [Finset.coe_singleton, Set.image_singleton]
    exact isGreatest_singleton
  low := by
    rw [Finset.coe_singleton, Set.image_singleton]
    exact isLeast_singleton
  volume := (Finset.sum_singleton TradeExecuted.quantity trade).symm
  tradeCount := rfl

/-- One more trade of the bucket. -/
theorem Summarizes.merge {stored : Candle} (h : Summarizes stored trades) (hnew : trade ∉ trades) :
    Summarizes ((draftOf trade interval).merge stored) (insert trade trades) := by
  have himage : TradeExecuted.price '' ((insert trade trades : Finset TradeExecuted) : Set _) =
      insert trade.price (TradeExecuted.price '' trades) := by
    rw [Finset.coe_insert, Set.image_insert_eq]
  obtain ⟨firstTrade, hfirst, hfirstSequence, hopen, hmin⟩ := h.first
  obtain ⟨lastTrade, hlast, hlastSequence, hclose, hmax⟩ := h.last
  refine ⟨?_, ?_, ?_, ?_, ?_, ?_⟩
  · -- The new trade comes first, or the first one stays the first.
    by_cases hlt : trade.engineSequence < stored.firstEngineSequence
    · refine ⟨trade, Finset.mem_insert_self .., (min_eq_right hlt.le).symm, if_pos hlt, ?_⟩
      intro other hother
      rcases Finset.mem_insert.1 hother with rfl | hother
      · exact le_rfl
      · exact hlt.le.trans (hfirstSequence ▸ hmin other hother)
    · have hle : stored.firstEngineSequence ≤ trade.engineSequence := not_lt.1 hlt
      refine ⟨firstTrade, Finset.mem_insert_of_mem hfirst,
        hfirstSequence.trans (min_eq_left hle).symm, (if_neg hlt).trans hopen, ?_⟩
      intro other hother
      rcases Finset.mem_insert.1 hother with rfl | hother
      · exact hfirstSequence ▸ hle
      · exact hmin other hother
  · by_cases hlt : trade.engineSequence > stored.lastEngineSequence
    · refine ⟨trade, Finset.mem_insert_self .., (max_eq_right hlt.le).symm, if_pos hlt, ?_⟩
      intro other hother
      rcases Finset.mem_insert.1 hother with rfl | hother
      · exact le_rfl
      · exact (hmax other hother).trans (hlastSequence ▸ hlt.le)
    · have hle : trade.engineSequence ≤ stored.lastEngineSequence := not_lt.1 hlt
      refine ⟨lastTrade, Finset.mem_insert_of_mem hlast,
        hlastSequence.trans (max_eq_left hle).symm, (if_neg hlt).trans hclose, ?_⟩
      intro other hother
      rcases Finset.mem_insert.1 hother with rfl | hother
      · exact hlastSequence ▸ hle
      · exact hmax other hother
  · rw [himage]
    change IsGreatest _ (max stored.high trade.price)
    rw [max_comm]
    exact h.high.insert trade.price
  · rw [himage]
    change IsLeast _ (min stored.low trade.price)
    rw [min_comm]
    exact h.low.insert trade.price
  · rw [Finset.sum_insert hnew, ← h.volume]
    exact add_comm stored.volume trade.quantity
  · rw [Finset.card_insert_of_notMem hnew]
    push_cast
    rw [← h.tradeCount]
    rfl

/-- The summary of trades that fit into the columns satisfies the constraints. -/
theorem Summarizes.checks {candle : Candle} (h : Summarizes candle trades)
    (hvalid : ∀ trade ∈ trades, 0 < trade.engineSequence ∧ 0 ≤ trade.price ∧ 0 < trade.quantity)
    (hlabel : candle.interval ∈ ["1m", "5m", "15m", "1h", "1d"])
    (hstart : candle.bucketStartMs < timestampEndMs)
    (hvolume : ∑ trade ∈ trades, trade.quantity ≤ bigintMax) : candle.Checks := by
  obtain ⟨firstTrade, hfirst, hfirstSequence, hopen, hmin⟩ := h.first
  obtain ⟨lastTrade, hlast, hlastSequence, hclose, hmax⟩ := h.last
  obtain ⟨highTrade, hhigh, hhighPrice⟩ := h.high.1
  obtain ⟨lowTrade, hlow, hlowPrice⟩ := h.low.1
  -- Each trade has a quantity of one at least, so the count fits as the volume does.
  have hcard : (trades.card : ℤ) ≤ ∑ trade ∈ trades, trade.quantity := by
    have hone : ∀ trade ∈ trades, (1 : ℤ) ≤ trade.quantity := fun trade htrade => (hvalid trade htrade).2.2
    simpa using Finset.card_nsmul_le_sum trades TradeExecuted.quantity 1 hone
  have hpos : 0 < (trades.card : ℤ) := by
    have hcardPos : 0 < trades.card := Finset.card_pos.2 ⟨firstTrade, hfirst⟩
    omega
  refine ⟨hlabel, ?_, ?_, ?_, ?_, ?_, ?_, ?_, ?_, ?_, ?_, hstart⟩
  · exact hopen ▸ (hvalid firstTrade hfirst).2.1
  · exact hhighPrice ▸ (hvalid highTrade hhigh).2.1
  · exact hlowPrice ▸ (hvalid lowTrade hlow).2.1
  · exact hclose ▸ (hvalid lastTrade hlast).2.1
  · exact h.volume ▸ hpos.trans_le hcard
  · exact h.tradeCount ▸ hpos
  · exact hfirstSequence ▸ (hvalid firstTrade hfirst).1
  · exact hfirstSequence ▸ hlastSequence ▸ hmin lastTrade hlast
  · exact h.volume ▸ hvolume
  · exact h.tradeCount ▸ hcard.trans hvolume

end Summaries

/-! ## Records -/

/-- A trade as it is read from a partition. -/
structure TradeRecord where
  topic : String
  partition : ℤ
  offset : ℤ
  trade : TradeExecuted
  deriving DecidableEq

namespace TradeRecord

def key (record : TradeRecord) : ℤ × ℤ := (record.trade.marketId, record.trade.engineSequence)

def indices (record : TradeRecord) : List TradeIndex :=
  [.fill record.trade.fillId, .position record.topic record.partition record.offset]

/-- The columns of a trade satisfy the constraints of the tables. -/
def Storable (record : TradeRecord) : Prop :=
  (0 < record.trade.engineSequence ∧ 0 ≤ record.trade.engineTimestampMs ∧ 0 ≤ record.trade.price ∧
    0 < record.trade.quantity ∧ 0 ≤ record.offset) ∧ record.trade.engineTimestampMs < timestampEndMs

instance (record : TradeRecord) : Decidable record.Storable :=
  inferInstanceAs (Decidable (_ ∧ _))

/-- The row of a trade. -/
def row (record : TradeRecord) (h : record.Storable) : TradeRow where
  marketId := record.trade.marketId
  engineSequence := record.trade.engineSequence
  fillId := record.trade.fillId
  engineTimestampMs := record.trade.engineTimestampMs
  price := record.trade.price
  quantity := record.trade.quantity
  topic := record.topic
  partition := record.partition
  offsetValue := record.offset
  check := h.1

/-- Result and committed data of `record_trade`. -/
def record (self : TradeRecord) (d : TimeseriesDb) :
    Except TimeseriesRepositoryError Bool × TimeseriesDb :=
  (recordTrade self.topic self.partition self.offset (self.offset + 1) self.trade
    (candleDraftsFromTrade self.trade)).run d d

end TradeRecord

/-- The data after some records, of which some may be refused. -/
def recordAll (records : List TradeRecord) (d : TimeseriesDb) : TimeseriesDb :=
  records.foldl (fun d record => (record.record d).2) d

/-- Records of different events differ in market or sequence, in their fills and
in their positions. -/
def DistinctEvents (records : List TradeRecord) : Prop :=
  ∀ record ∈ records, ∀ other ∈ records,
    (record.key = other.key ∨ ∃ index ∈ record.indices, index ∈ other.indices) →
      record.trade = other.trade

instance (records : List TradeRecord) : Decidable (DistinctEvents records) :=
  inferInstanceAs (Decidable (∀ record ∈ records, ∀ other ∈ records,
    (record.key = other.key ∨ ∃ index ∈ record.indices, index ∈ other.indices) →
      record.trade = other.trade))

/-- The trades of a market in a bucket. -/
def bucketTrades (records : List TradeRecord) (marketId : ℤ) (interval : CandleInterval)
    (bucketStart : ℤ) : Finset TradeExecuted :=
  (records.map TradeRecord.trade).toFinset.filter fun trade =>
    trade.marketId = marketId ∧ bucketStart ≤ trade.engineTimestampMs ∧
      trade.engineTimestampMs < bucketStart + interval.durationMs

/-- The volumes of the trades fit into a column. -/
def VolumesFit (records : List TradeRecord) : Prop :=
  ∀ marketId, ∀ interval ∈ candleIntervals, ∀ bucketStart,
    ∑ trade ∈ bucketTrades records marketId interval bucketStart, trade.quantity ≤ bigintMax

/-! ## One transaction -/

section Transaction

variable {d : TimeseriesDb} {trade : TradeExecuted} {interval : CandleInterval}

/-- The candle of an interval after a trade that is new. -/
def candleAfter (d : TimeseriesDb) (trade : TradeExecuted) (interval : CandleInterval) : Candle :=
  match d.candles.find? (draftOf trade interval).key with
  | none => (draftOf trade interval).fresh
  | some stored => (draftOf trade interval).merge stored.toCandle

/-- Another candle is not looked at. -/
theorem candleAfter_upsert_of_ne {row : CandleRow} (h : (draftOf trade interval).key ≠ row.key) :
    candleAfter { d with candles := d.candles.upsert row } trade interval =
      candleAfter d trade interval := by
  rw [candleAfter, candleAfter]
  dsimp only
  rw [Table.find?_upsert_of_ne h]

theorem upsertCandle_ok (hfresh : (draftOf trade interval).fresh.Checks)
    (hafter : (candleAfter d trade interval).Checks) :
    ∃ row : CandleRow, upsertCandle (draftOf trade interval) d = .ok ((), [.putCandle row]) ∧
      row.key = (draftOf trade interval).key ∧ row.toCandle = candleAfter d trade interval := by
  rw [upsertCandle, dif_pos hfresh]
  rw [candleAfter] at hafter ⊢
  cases hfound : d.candles.find? (draftOf trade interval).key with
  | none => exact ⟨⟨_, hfresh⟩, rfl, rfl, rfl⟩
  | some stored =>
    have hkey : stored.key = (draftOf trade interval).key := Table.key_of_find? hfound
    have hmerge : ((draftOf trade interval).merge stored.toCandle).Checks := by
      simpa only [hfound] using hafter
    exact ⟨⟨_, hmerge⟩, dif_pos hmerge, hkey, rfl⟩

/-- The candles of different intervals do not meet. -/
theorem upsertCandles_ok {intervals : List CandleInterval}
    (hlabels : (intervals.map CandleInterval.label).Nodup)
    (hfresh : ∀ interval ∈ intervals, (draftOf trade interval).fresh.Checks)
    (hafter : ∀ interval ∈ intervals, (candleAfter d trade interval).Checks) :
    ∃ candles : Table CandleRow.key,
      (upsertCandlesInTx (intervals.map (draftOf trade))).eval d =
        .ok ((), { d with candles := candles }) ∧
      (∀ interval ∈ intervals, ∃ row, candles.find? (draftOf trade interval).key = some row ∧
        row.toCandle = candleAfter d trade interval) ∧
      ∀ key, (∀ interval ∈ intervals, key ≠ (draftOf trade interval).key) →
        candles.find? key = d.candles.find? key := by
  induction intervals generalizing d with
  | nil => exact ⟨d.candles, rfl, fun _ h => absurd h List.not_mem_nil, fun _ _ => rfl⟩
  | cons interval intervals ih =>
    rw [List.map_cons, List.nodup_cons] at hlabels
    have htail : ∀ other ∈ intervals, other ∈ interval :: intervals :=
      fun other => List.mem_cons_of_mem interval
    obtain ⟨row, hupsert, hkey, hrow⟩ := upsertCandle_ok (hfresh interval List.mem_cons_self)
      (hafter interval List.mem_cons_self)
    let d₁ : TimeseriesDb := { d with candles := d.candles.upsert row }
    have hfirst : (upsertCandleInTx (draftOf trade interval)).eval d = .ok ((), d₁) :=
      eval_execute hupsert
    have hne : ∀ other ∈ intervals, (draftOf trade other).key ≠ row.key := by
      intro other hother heq
      have hlabel : other.label = interval.label :=
        congrArg (fun key : CandleKey => key.2.1) (heq.trans hkey)
      exact hlabels.1 (hlabel ▸ List.mem_map_of_mem hother)
    have hsame : ∀ other ∈ intervals, candleAfter d₁ trade other = candleAfter d trade other :=
      fun other hother => candleAfter_upsert_of_ne (hne other hother)
    have hafter' : ∀ other ∈ intervals, (candleAfter d₁ trade other).Checks := by
      intro other hother
      rw [hsame other hother]
      exact hafter other (htail other hother)
    obtain ⟨candles, hrest, hnew, hkept⟩ :=
      ih hlabels.2 (fun other hother => hfresh other (htail other hother)) hafter'
    refine ⟨candles, ?_, fun other hother => ?_, fun key hall => ?_⟩
    · rw [List.map_cons, upsertCandlesInTx, eval_bind_ok hfirst, hrest]
    · rcases List.mem_cons.1 hother with rfl | hother
      · refine ⟨row, ?_, hrow⟩
        rw [← hkey, hkept row.key fun other' hother' => (hne other' hother').symm]
        exact Table.find?_upsert_self d.candles row
      · obtain ⟨row', hrow', hcandle⟩ := hnew other hother
        exact ⟨row', hrow', hcandle.trans (hsame other hother)⟩
    · have hfirstKey : key ≠ row.key := hkey ▸ hall interval List.mem_cons_self
      rw [hkept key fun other hother => hall other (htail other hother)]
      exact Table.find?_upsert_of_ne hfirstKey

theorem saveQueueOffset_ok {topic : String} {partition nextOffset : ℤ} (h : 0 ≤ nextOffset) :
    ∃ offsets, (saveQueueOffsetInTx topic partition nextOffset).eval d =
      .ok ((), { d with timeseriesOffsets := offsets }) := by
  have hsave : ∃ offsets ws, saveQueueOffsetSql topic partition nextOffset d = .ok ((), ws) ∧
      view ws d = { d with timeseriesOffsets := offsets } := by
    rw [saveQueueOffsetSql, dif_pos h]
    dsimp only
    split
    · exact ⟨_, _, rfl, rfl⟩
    · split
      · exact ⟨_, _, rfl, rfl⟩
      · exact ⟨d.timeseriesOffsets, _, rfl, rfl⟩
  obtain ⟨offsets, ws, hws, hview⟩ := hsave
  exact ⟨offsets, hview ▸ eval_execute hws⟩

theorem atomic_recordTrade (topic : String) (partition offset nextOffset : ℤ) (trade : TradeExecuted)
    (candles : List CandleDraft) :
    (recordTrade topic partition offset nextOffset trade candles).Atomic :=
  atomic_bind (open_perform _) fun inserted => atomic_bind (open_candles inserted candles) fun _ =>
    atomic_bind (open_perform _) fun _ => ⟨inserted, rfl⟩

/-- What is inserted for a record. -/
theorem insertTrade_eq {record : TradeRecord} (h : record.Storable) :
    insertTrade record.topic record.partition record.offset record.trade d =
      match d.timeseriesTrades.find? record.key with
      | some _ => .ok (false, [])
      | none =>
        if d.timeseriesTrades.Admits (record.row h) then .ok (true, [.putTrade (record.row h)])
        else .error .storage := by
  rw [insertTrade, dif_pos h.1, if_pos h.2]
  rfl

theorem run_record (record : TradeRecord) (d : TimeseriesDb) :
    record.record d = outcome d ((recordTrade record.topic record.partition record.offset
      (record.offset + 1) record.trade (candleDraftsFromTrade record.trade)).eval d) :=
  run_of_atomic (atomic_recordTrade _ _ _ _ _ _) d d

/-- A trade that is stored already changes neither trades nor candles. -/
theorem record_known {record : TradeRecord} (hstorable : record.Storable) {row : TradeRow}
    (hfound : d.timeseriesTrades.find? record.key = some row) :
    (record.record d).2.timeseriesTrades = d.timeseriesTrades ∧
      (record.record d).2.candles = d.candles := by
  have hinsert : insertTrade record.topic record.partition record.offset record.trade d =
      .ok (false, []) := by
    rw [insertTrade_eq hstorable, hfound]
  have hoffset : 0 ≤ record.offset := hstorable.1.2.2.2.2
  obtain ⟨offsets, hoffsets⟩ : ∃ offsets,
      (saveQueueOffsetInTx record.topic record.partition (record.offset + 1)).eval d =
        .ok ((), { d with timeseriesOffsets := offsets }) := saveQueueOffset_ok (by omega)
  have heval : (recordTrade record.topic record.partition record.offset (record.offset + 1)
      record.trade (candleDraftsFromTrade record.trade)).eval d =
        .ok (false, { d with timeseriesOffsets := offsets }) := by
    rw [recordTrade, eval_bind_ok (eval_execute hinsert)]
    exact eval_bind_ok hoffsets
  rw [run_record, heval]
  exact ⟨rfl, rfl⟩

/-- A trade that is new is stored, and the candles of its buckets have it. -/
theorem record_new {record : TradeRecord} (hstorable : record.Storable)
    (hfree : d.timeseriesTrades.find? record.key = none)
    (hindices : ∀ row ∈ d.timeseriesTrades.rows, ∀ index ∈ record.indices, index ∉ row.indices)
    (hfresh : ∀ interval ∈ candleIntervals, (draftOf record.trade interval).fresh.Checks)
    (hafter : ∀ interval ∈ candleIntervals, (candleAfter d record.trade interval).Checks) :
    ∃ row : TradeRow, row.key = record.key ∧ row.indices = record.indices ∧
      (record.record d).2.timeseriesTrades.toTable = d.timeseriesTrades.toTable.upsert row ∧
      (∀ interval ∈ candleIntervals, ∃ candle,
        (record.record d).2.candles.find? (draftOf record.trade interval).key = some candle ∧
          candle.toCandle = candleAfter d record.trade interval) ∧
      ∀ key, (∀ interval ∈ candleIntervals, key ≠ (draftOf record.trade interval).key) →
        (record.record d).2.candles.find? key = d.candles.find? key := by
  have hadmits : d.timeseriesTrades.Admits (record.row hstorable) :=
    fun other hother _ index hindex => hindices other hother index hindex
  have hinsert : insertTrade record.topic record.partition record.offset record.trade d =
      .ok (true, [.putTrade (record.row hstorable)]) := by
    rw [insertTrade_eq hstorable, hfree]
    exact if_pos hadmits
  have hoffset : 0 ≤ record.offset := hstorable.1.2.2.2.2
  let d₁ : TimeseriesDb := { d with timeseriesTrades := d.timeseriesTrades.put (record.row hstorable) }
  have hlabels : (candleIntervals.map CandleInterval.label).Nodup := by decide
  obtain ⟨candles, hcandles, hnew, hkept⟩ :
      ∃ candles : Table CandleRow.key,
        (upsertCandlesInTx (candleIntervals.map (draftOf record.trade))).eval d₁ =
          .ok ((), { d₁ with candles := candles }) ∧
        (∀ interval ∈ candleIntervals, ∃ row,
          candles.find? (draftOf record.trade interval).key = some row ∧
            row.toCandle = candleAfter d₁ record.trade interval) ∧
        ∀ key, (∀ interval ∈ candleIntervals, key ≠ (draftOf record.trade interval).key) →
          candles.find? key = d₁.candles.find? key :=
    upsertCandles_ok hlabels hfresh hafter
  obtain ⟨offsets, hoffsets⟩ : ∃ offsets,
      (saveQueueOffsetInTx record.topic record.partition (record.offset + 1)).eval
        { d₁ with candles := candles } =
          .ok ((), { d₁ with candles := candles, timeseriesOffsets := offsets }) :=
    saveQueueOffset_ok (by omega)
  have heval : (recordTrade record.topic record.partition record.offset (record.offset + 1)
      record.trade (candleDraftsFromTrade record.trade)).eval d =
        .ok (true, { d₁ with candles := candles, timeseriesOffsets := offsets }) := by
    rw [recordTrade, eval_bind_ok (eval_execute hinsert)]
    exact (eval_bind_ok hcandles).trans (eval_bind_ok hoffsets)
  refine ⟨record.row hstorable, rfl, rfl, ?_⟩
  rw [run_record, heval]
  exact ⟨Indexed.toTable_put hadmits, hnew, hkept⟩

theorem candleAfter_key (d : TimeseriesDb) (trade : TradeExecuted) (interval : CandleInterval) :
    ((candleAfter d trade interval).marketId, (candleAfter d trade interval).interval,
      (candleAfter d trade interval).bucketStartMs) = (draftOf trade interval).key := by
  rw [candleAfter]
  cases hfound : d.candles.find? (draftOf trade interval).key with
  | none => rfl
  | some stored => exact (Table.key_of_find? hfound : stored.key = _)

end Transaction

/-! ## Runs -/

/-- The row of a bucket is missing or summarizes its trades. -/
def RowSummarizes (found : Option CandleRow) (trades : Finset TradeExecuted) : Prop :=
  (found = none → trades = ∅) ∧ ∀ row, found = some row → Summarizes row.toCandle trades

/-- The stored candles summarize the trades recorded so far. -/
structure IsSummary (d : TimeseriesDb) (records : List TradeRecord) : Prop where
  rows : ∀ row ∈ d.timeseriesTrades.rows,
    ∃ record ∈ records, row.key = record.key ∧ row.indices = record.indices
  stored : ∀ record ∈ records, (d.timeseriesTrades.find? record.key).isSome
  candles : ∀ marketId, ∀ interval ∈ candleIntervals, ∀ bucketStart,
    interval.durationMs ∣ bucketStart →
      RowSummarizes (d.candles.find? (marketId, interval.label, bucketStart))
        (bucketTrades records marketId interval bucketStart)

section Buckets

variable {records : List TradeRecord} {record : TradeRecord} {marketId bucketStart : ℤ}
  {interval : CandleInterval} {trade : TradeExecuted}

theorem mem_bucketTrades : trade ∈ bucketTrades records marketId interval bucketStart ↔
    (∃ record ∈ records, record.trade = trade) ∧ trade.marketId = marketId ∧
      bucketStart ≤ trade.engineTimestampMs ∧
        trade.engineTimestampMs < bucketStart + interval.durationMs := by
  rw [bucketTrades, Finset.mem_filter, List.mem_toFinset, List.mem_map]

/-- The bucket that a draft names is the one that has the trade. -/
theorem draftOf_key_eq_iff (hinterval : interval ∈ candleIntervals)
    (hbucket : interval.durationMs ∣ bucketStart) :
    (draftOf trade interval).key = (marketId, interval.label, bucketStart) ↔
      trade.marketId = marketId ∧ bucketStart ≤ trade.engineTimestampMs ∧
        trade.engineTimestampMs < bucketStart + interval.durationMs := by
  rw [← bucketStartMs_eq_iff (interval_label_mem hinterval).2 hbucket]
  constructor
  · intro heq
    exact ⟨congrArg Prod.fst heq, congrArg (fun key : CandleKey => key.2.2) heq⟩
  · rintro ⟨hmarket, hstart⟩
    exact Prod.ext hmarket (Prod.ext rfl hstart)

/-- A trade is in the buckets of its drafts. -/
theorem draftOf_bucket (trade : TradeExecuted) (hinterval : interval ∈ candleIntervals) :
    interval.durationMs ∣ (draftOf trade interval).bucketStartMs ∧
      (draftOf trade interval).bucketStartMs ≤ trade.engineTimestampMs ∧
        trade.engineTimestampMs < (draftOf trade interval).bucketStartMs + interval.durationMs := by
  have hdvd : interval.durationMs ∣ (draftOf trade interval).bucketStartMs := Int.dvd_self_sub_emod
  exact ⟨hdvd, (bucketStartMs_eq_iff (interval_label_mem hinterval).2 hdvd).1 rfl⟩

/-- A draft of another interval names another bucket. -/
theorem draftOf_key_ne {other : CandleInterval} (hinterval : interval ∈ candleIntervals)
    (hother : other ∈ candleIntervals) (hne : other ≠ interval) :
    (marketId, interval.label, bucketStart) ≠ (draftOf trade other).key := by
  intro heq
  have hlabel : interval.label = other.label := congrArg (fun key : CandleKey => key.2.1) heq
  exact hne (interval_eq_of_label hother hinterval hlabel.symm)

theorem bucketTrades_append_known (h : ∃ old ∈ records, old.trade = record.trade) :
    bucketTrades (records ++ [record]) marketId interval bucketStart =
      bucketTrades records marketId interval bucketStart := by
  ext trade
  rw [mem_bucketTrades, mem_bucketTrades]
  refine and_congr_left fun _ => ⟨?_, ?_⟩
  · rintro ⟨old, hold, rfl⟩
    rcases List.mem_append.1 hold with hold | hold
    · exact ⟨old, hold, rfl⟩
    · rw [List.mem_singleton.1 hold]
      exact h
  · rintro ⟨old, hold, rfl⟩
    exact ⟨old, List.mem_append_left _ hold, rfl⟩

theorem bucketTrades_append_of_mem (h : record.trade.marketId = marketId ∧
      bucketStart ≤ record.trade.engineTimestampMs ∧
        record.trade.engineTimestampMs < bucketStart + interval.durationMs) :
    bucketTrades (records ++ [record]) marketId interval bucketStart =
      insert record.trade (bucketTrades records marketId interval bucketStart) := by
  ext trade
  rw [Finset.mem_insert, mem_bucketTrades, mem_bucketTrades]
  constructor
  · rintro ⟨⟨old, hold, rfl⟩, hbucket⟩
    rcases List.mem_append.1 hold with hold | hold
    · exact .inr ⟨⟨old, hold, rfl⟩, hbucket⟩
    · exact .inl (congrArg _ (List.mem_singleton.1 hold))
  · rintro (rfl | ⟨⟨old, hold, rfl⟩, hbucket⟩)
    · exact ⟨⟨record, List.mem_append_right _ List.mem_cons_self, rfl⟩, h⟩
    · exact ⟨⟨old, List.mem_append_left _ hold, rfl⟩, hbucket⟩

theorem bucketTrades_append_of_not_mem (h : ¬(record.trade.marketId = marketId ∧
      bucketStart ≤ record.trade.engineTimestampMs ∧
        record.trade.engineTimestampMs < bucketStart + interval.durationMs)) :
    bucketTrades (records ++ [record]) marketId interval bucketStart =
      bucketTrades records marketId interval bucketStart := by
  ext trade
  rw [mem_bucketTrades, mem_bucketTrades]
  refine and_congr_left fun hbucket => ⟨?_, ?_⟩
  · rintro ⟨old, hold, rfl⟩
    rcases List.mem_append.1 hold with hold | hold
    · exact ⟨old, hold, rfl⟩
    · exact absurd (List.mem_singleton.1 hold ▸ hbucket) h
  · rintro ⟨old, hold, rfl⟩
    exact ⟨old, List.mem_append_left _ hold, rfl⟩

/-- No bucket has more volume than all the trades. -/
theorem volumesFit_of_sum (hquantity : ∀ record ∈ records, 0 ≤ record.trade.quantity)
    (hsum : ∑ trade ∈ (records.map TradeRecord.trade).toFinset, trade.quantity ≤ bigintMax) :
    VolumesFit records := by
  intro marketId interval _ bucketStart
  refine le_trans ?_ hsum
  refine Finset.sum_le_sum_of_subset_of_nonneg (Finset.filter_subset ..) fun trade htrade _ => ?_
  obtain ⟨record, hrecord, rfl⟩ := List.mem_map.1 (List.mem_toFinset.1 htrade)
  exact hquantity record hrecord

/-- Fewer trades have less volume. -/
theorem VolumesFit.of_append (h : VolumesFit (records ++ [record]))
    (hstorable : ∀ old ∈ records ++ [record], old.Storable) : VolumesFit records := by
  intro marketId interval hinterval bucketStart
  refine le_trans ?_ (h marketId interval hinterval bucketStart)
  refine Finset.sum_le_sum_of_subset_of_nonneg ?_ fun trade htrade _ => ?_
  · intro trade htrade
    obtain ⟨⟨old, hold, heq⟩, hbucket⟩ := mem_bucketTrades.1 htrade
    exact mem_bucketTrades.2 ⟨⟨old, List.mem_append_left _ hold, heq⟩, hbucket⟩
  · obtain ⟨⟨old, hold, rfl⟩, -⟩ := mem_bucketTrades.1 htrade
    have hquantity : 0 < old.trade.quantity := (hstorable old hold).1.2.2.2.1
    exact hquantity.le

end Buckets

section Steps

variable {d : TimeseriesDb} {records : List TradeRecord} {record : TradeRecord}

/-- A trade that comes again changes no summary. -/
theorem IsSummary.record_known (h : IsSummary d records) (hstorable : record.Storable)
    (hdistinct : DistinctEvents (records ++ [record])) {row : TradeRow}
    (hfound : d.timeseriesTrades.find? record.key = some row) :
    IsSummary (record.record d).2 (records ++ [record]) := by
  obtain ⟨htrades, hcandles⟩ := Timeseries.record_known hstorable hfound
  obtain ⟨old, hold, hkey, -⟩ := h.rows row (Table.mem_of_find? hfound)
  have hsame : old.key = record.key := hkey.symm.trans (Table.key_of_find? hfound)
  have htrade : old.trade = record.trade :=
    hdistinct old (List.mem_append_left _ hold) record
      (List.mem_append_right _ List.mem_cons_self) (.inl hsame)
  refine ⟨fun row hrow => ?_, fun other hother => ?_, fun marketId interval hinterval b hb => ?_⟩
  · rw [htrades] at hrow
    obtain ⟨other, hother, hrow⟩ := h.rows row hrow
    exact ⟨other, List.mem_append_left _ hother, hrow⟩
  · rw [htrades]
    rcases List.mem_append.1 hother with hother | hother
    · exact h.stored other hother
    · rw [List.mem_singleton.1 hother, hfound]
      rfl
  · rw [hcandles, bucketTrades_append_known ⟨old, hold, htrade⟩]
    exact h.candles marketId interval hinterval b hb

/-- The candle of a new trade summarizes the trades of its bucket. -/
theorem IsSummary.candleAfter (h : IsSummary d records) {interval : CandleInterval}
    (hinterval : interval ∈ candleIntervals)
    (hnew : ∀ old ∈ records, old.trade ≠ record.trade) :
    Summarizes (candleAfter d record.trade interval)
      (bucketTrades (records ++ [record]) record.trade.marketId interval
        (draftOf record.trade interval).bucketStartMs) := by
  obtain ⟨hdvd, hmem⟩ := draftOf_bucket record.trade hinterval
  rw [bucketTrades_append_of_mem ⟨rfl, hmem⟩, Timeseries.candleAfter]
  obtain ⟨hnone, hsome⟩ := h.candles record.trade.marketId interval hinterval _ hdvd
  cases hfound : d.candles.find? (draftOf record.trade interval).key with
  | none =>
    rw [hnone hfound]
    exact summarizes_fresh
  | some stored =>
    refine (hsome stored hfound).merge fun hold => ?_
    obtain ⟨⟨old, hold, heq⟩, -⟩ := mem_bucketTrades.1 hold
    exact hnew old hold heq

/-- The trade of a free key is not recorded yet. -/
theorem IsSummary.trade_ne_of_free (h : IsSummary d records)
    (hfree : d.timeseriesTrades.find? record.key = none) :
    ∀ old ∈ records, old.trade ≠ record.trade := by
  intro old hold heq
  have hkey : old.key = record.key := by rw [TradeRecord.key, heq, TradeRecord.key]
  have hsome := h.stored old hold
  rw [hkey, hfree] at hsome
  cases hsome

/-- A trade that is stored with its candles joins the summaries of its buckets. -/
theorem IsSummary.record_stored (h : IsSummary d records) (hstorable : record.Storable)
    (hnew : ∀ old ∈ records, old.trade ≠ record.trade)
    (hfree : d.timeseriesTrades.find? record.key = none)
    (hindices : ∀ row ∈ d.timeseriesTrades.rows, ∀ index ∈ record.indices, index ∉ row.indices)
    (hfresh : ∀ interval ∈ candleIntervals, (draftOf record.trade interval).fresh.Checks)
    (hafter : ∀ interval ∈ candleIntervals,
      (Timeseries.candleAfter d record.trade interval).Checks) :
    IsSummary (record.record d).2 (records ++ [record]) := by
  have hlast : record ∈ records ++ [record] := List.mem_append_right _ List.mem_cons_self
  obtain ⟨row, hrowKey, hrowIndices, htrades, hcandles, hkept⟩ :=
    Timeseries.record_new hstorable hfree hindices hfresh hafter
  have hfind : ∀ key, (record.record d).2.timeseriesTrades.find? key =
      if key = row.key then some row else d.timeseriesTrades.find? key := by
    intro key
    exact (congrArg (Table.find? · key) htrades).trans (Table.find?_upsert key)
  refine ⟨fun other hother => ?_, fun other hother => ?_, fun marketId interval hinterval b hb => ?_⟩
  · rcases Table.mem_upsert_cases (htrades ▸ hother) with rfl | ⟨hother, -⟩
    · exact ⟨record, hlast, hrowKey, hrowIndices⟩
    · obtain ⟨old, hold, hrow⟩ := h.rows other hother
      exact ⟨old, List.mem_append_left _ hold, hrow⟩
  · rw [hfind]
    split
    · rfl
    · rename_i hne
      rcases List.mem_append.1 hother with hother | hother
      · exact h.stored other hother
      · exact absurd (congrArg TradeRecord.key (List.mem_singleton.1 hother)) (hrowKey ▸ hne)
  · by_cases hkey : (draftOf record.trade interval).key = (marketId, interval.label, b)
    · -- The bucket of the new trade.
      obtain ⟨candle, hcandle, hcandleAfter⟩ := hcandles interval hinterval
      have hmarket : record.trade.marketId = marketId := congrArg Prod.fst hkey
      have hb : (draftOf record.trade interval).bucketStartMs = b :=
        congrArg (fun key : CandleKey => key.2.2) hkey
      rw [← hkey, hcandle, ← hmarket, ← hb]
      refine ⟨fun hnone => absurd hnone (Option.some_ne_none candle), fun stored hstored => ?_⟩
      rw [← Option.some.inj hstored, hcandleAfter]
      exact h.candleAfter hinterval hnew
    · have hne : ∀ other ∈ candleIntervals,
          (marketId, interval.label, b) ≠ (draftOf record.trade other).key := by
        intro other hother
        by_cases heq : other = interval
        · rw [heq]
          exact Ne.symm hkey
        · exact draftOf_key_ne hinterval hother heq
      rw [hkept _ hne, bucketTrades_append_of_not_mem
        fun hmem => hkey ((draftOf_key_eq_iff hinterval hb).2 hmem)]
      exact h.candles marketId interval hinterval b hb

/-- A trade that is new joins the summaries of its buckets. -/
theorem IsSummary.record_new (h : IsSummary d records)
    (hstorable : ∀ old ∈ records ++ [record], old.Storable)
    (hdistinct : DistinctEvents (records ++ [record])) (hfit : VolumesFit (records ++ [record]))
    (hfree : d.timeseriesTrades.find? record.key = none) :
    IsSummary (record.record d).2 (records ++ [record]) := by
  have hlast : record ∈ records ++ [record] := List.mem_append_right _ List.mem_cons_self
  have hnew := h.trade_ne_of_free hfree
  have hindices : ∀ row ∈ d.timeseriesTrades.rows, ∀ index ∈ record.indices,
      index ∉ row.indices := by
    intro row hrow index hindex hmem
    obtain ⟨old, hold, -, hrowIndices⟩ := h.rows row hrow
    exact hnew old hold (hdistinct old (List.mem_append_left _ hold) record hlast
      (.inr ⟨index, hrowIndices ▸ hmem, hindex⟩))
  have hvalid : ∀ old ∈ records ++ [record],
      0 < old.trade.engineSequence ∧ 0 ≤ old.trade.price ∧ 0 < old.trade.quantity := by
    intro old hold
    obtain ⟨⟨hsequence, -, hprice, hquantity, -⟩, -⟩ := hstorable old hold
    exact ⟨hsequence, hprice, hquantity⟩
  have hvalidBucket : ∀ marketId interval b,
      ∀ trade ∈ bucketTrades (records ++ [record]) marketId interval b,
        0 < trade.engineSequence ∧ 0 ≤ trade.price ∧ 0 < trade.quantity := by
    intro marketId interval b trade htrade
    obtain ⟨⟨old, hold, rfl⟩, -⟩ := mem_bucketTrades.1 htrade
    exact hvalid old hold
  have hstart : ∀ interval ∈ candleIntervals,
      (draftOf record.trade interval).bucketStartMs < timestampEndMs := fun interval hinterval =>
    (draftOf_bucket record.trade hinterval).2.1.trans_lt (hstorable record hlast).2
  have hafter : ∀ interval ∈ candleIntervals,
      (Timeseries.candleAfter d record.trade interval).Checks := by
    intro interval hinterval
    have hkey := candleAfter_key d record.trade interval
    have hlabel : (Timeseries.candleAfter d record.trade interval).interval = interval.label :=
      congrArg (fun key : CandleKey => key.2.1) hkey
    have hbucket : (Timeseries.candleAfter d record.trade interval).bucketStartMs =
        (draftOf record.trade interval).bucketStartMs :=
      congrArg (fun key : CandleKey => key.2.2) hkey
    exact (h.candleAfter hinterval hnew).checks (hvalidBucket _ _ _)
      (hlabel ▸ (interval_label_mem hinterval).1) (hbucket ▸ hstart interval hinterval)
      (hfit _ interval hinterval _)
  have hfresh : ∀ interval ∈ candleIntervals, (draftOf record.trade interval).fresh.Checks := by
    intro interval hinterval
    have hmem : record.trade ∈ bucketTrades (records ++ [record]) record.trade.marketId interval
        (draftOf record.trade interval).bucketStartMs :=
      mem_bucketTrades.2 ⟨⟨record, hlast, rfl⟩, rfl, (draftOf_bucket record.trade hinterval).2⟩
    have hquantity : record.trade.quantity ≤ bigintMax :=
      (Finset.single_le_sum (fun trade htrade => (hvalidBucket _ _ _ trade htrade).2.2.le) hmem).trans
        (hfit _ interval hinterval _)
    refine summarizes_fresh.checks ?_ (interval_label_mem hinterval).1 (hstart interval hinterval) ?_
    · intro trade htrade
      rw [Finset.mem_singleton.1 htrade]
      exact hvalid record hlast
    · rw [Finset.sum_singleton]
      exact hquantity
  exact h.record_stored (hstorable record hlast) hnew hfree hindices hfresh hafter

theorem isSummary_empty : IsSummary .empty [] where
  rows := fun _ hrow => absurd hrow List.not_mem_nil
  stored := fun _ hrecord => absurd hrecord List.not_mem_nil
  candles := by
    intro marketId interval _ b _
    refine ⟨fun _ => ?_, fun row hrow => absurd hrow (Option.some_ne_none row).symm⟩
    rw [bucketTrades, List.map_nil, List.toFinset_nil, Finset.filter_empty]

/-- The candles summarize the trades after every prefix of the records. -/
theorem isSummary_recordAll (hstorable : ∀ record ∈ records, record.Storable)
    (hdistinct : DistinctEvents records) (hfit : VolumesFit records) :
    IsSummary (recordAll records .empty) records := by
  induction records using List.reverseRecOn with
  | nil => exact isSummary_empty
  | append_singleton records record ih =>
    have hold : ∀ old ∈ records, old ∈ records ++ [record] := fun old => List.mem_append_left _
    have hprefix : IsSummary (recordAll records .empty) records :=
      ih (fun old h => hstorable old (hold old h))
        (fun old h other h' => hdistinct old (hold old h) other (hold other h'))
        (hfit.of_append hstorable)
    rw [recordAll, List.foldl_append]
    cases hfound : (recordAll records .empty).timeseriesTrades.find? record.key with
    | none => exact hprefix.record_new hstorable hdistinct hfit hfound
    | some row =>
      have hlast : record ∈ records ++ [record] := List.mem_append_right _ List.mem_cons_self
      exact hprefix.record_known (hstorable record hlast) hdistinct hfound

end Steps

/-- A bucket has a candle exactly when it has a trade, and the candle summarizes
the trades of the bucket: neither their order nor their repetition counts. -/
theorem candles_summarize {records : List TradeRecord}
    (hstorable : ∀ record ∈ records, record.Storable) (hdistinct : DistinctEvents records)
    (hfit : VolumesFit records) (marketId : ℤ) {interval : CandleInterval}
    (hinterval : interval ∈ candleIntervals) {bucketStart : ℤ}
    (hbucket : interval.durationMs ∣ bucketStart) :
    (((recordAll records .empty).candles.find? (marketId, interval.label, bucketStart)).isSome ↔
      ∃ record ∈ records, record.trade.marketId = marketId ∧
        bucketStart ≤ record.trade.engineTimestampMs ∧
          record.trade.engineTimestampMs < bucketStart + interval.durationMs) ∧
    ∀ row, (recordAll records .empty).candles.find? (marketId, interval.label, bucketStart) =
        some row →
      Summarizes row.toCandle (bucketTrades records marketId interval bucketStart) := by
  obtain ⟨hnone, hsome⟩ := (isSummary_recordAll hstorable hdistinct hfit).candles marketId interval
    hinterval bucketStart hbucket
  refine ⟨⟨fun hisSome => ?_, ?_⟩, hsome⟩
  · obtain ⟨row, hrow⟩ := Option.isSome_iff_exists.1 hisSome
    obtain ⟨trade, htrade, -⟩ := (hsome row hrow).first
    obtain ⟨⟨record, hrecord, rfl⟩, hmem⟩ := mem_bucketTrades.1 htrade
    exact ⟨record, hrecord, hmem⟩
  · rintro ⟨record, hrecord, hmem⟩
    have htrade : record.trade ∈ bucketTrades records marketId interval bucketStart :=
      mem_bucketTrades.2 ⟨⟨record, hrecord, rfl⟩, hmem⟩
    by_contra hnot
    rw [Option.not_isSome_iff_eq_none] at hnot
    exact absurd (hnone hnot ▸ htrade) (Finset.notMem_empty record.trade)

/-- A trade of market 1 at some sequence, time and price. -/
def tradeAt (engineSequence engineTimestampMs price : ℤ) : TradeRecord where
  topic := "engine.events"
  partition := 0
  offset := engineSequence - 1
  trade := {
    engineEventId := none, engineSequence, engineTimestampMs, sourceInputId := none
    sourceInputOffset := none, fillId := engineSequence, marketId := 1, price, quantity := 2
    makerOrderId := 10, takerOrderId := 20, makerUserId := 1, takerUserId := 2
    makerReservationId := none, takerReservationId := none
    executionReason := .TRADE, liquidationId := none, liquidatedUserId := none
    positionSide := none, liquidationFee := none, feeDeltas := [], settlements := [] }

/-- The second trade comes first and comes again. -/
theorem candles_summarize_reordered :
    let records := [tradeAt 2 119000 90, tradeAt 1 61000 100, tradeAt 2 119000 90]
    ((recordAll records .empty).candles.find? (1, "1m", 60000)).isSome ∧
      ∀ row, (recordAll records .empty).candles.find? (1, "1m", 60000) = some row →
        Summarizes row.toCandle {(tradeAt 1 61000 100).trade, (tradeAt 2 119000 90).trade} := by
  intro records
  have hquantity : ∀ record ∈ records, 0 ≤ record.trade.quantity := by decide
  have hfit : VolumesFit records := volumesFit_of_sum hquantity (by decide)
  have hminute : (⟨"1m", minuteMs⟩ : CandleInterval) ∈ candleIntervals := by decide
  have hminuteStart : minuteMs ∣ 60000 := by decide
  obtain ⟨hisSome, hsummary⟩ := candles_summarize (by decide) (by decide) hfit 1 hminute hminuteStart
  have htrades : bucketTrades records 1 ⟨"1m", minuteMs⟩ 60000 =
      {(tradeAt 1 61000 100).trade, (tradeAt 2 119000 90).trade} := by decide
  exact ⟨hisSome.2 ⟨tradeAt 1 61000 100, by decide, by decide⟩, htrades ▸ hsummary⟩

/-- A trade before 1970 has no candle: `timeseries_trades` refuses it. -/
theorem no_candle_before_epoch :
    ¬ ∀ records : List TradeRecord,
      (∀ record ∈ records, 0 < record.trade.engineSequence ∧ 0 ≤ record.trade.price ∧
        0 < record.trade.quantity ∧ 0 ≤ record.offset) →
      DistinctEvents records → VolumesFit records →
      ∀ marketId, ∀ interval ∈ candleIntervals, ∀ bucketStart, interval.durationMs ∣ bucketStart →
        (((recordAll records .empty).candles.find?
            (marketId, interval.label, bucketStart)).isSome ↔
          ∃ record ∈ records, record.trade.marketId = marketId ∧
            bucketStart ≤ record.trade.engineTimestampMs ∧
              record.trade.engineTimestampMs < bucketStart + interval.durationMs) := by
  intro hclaim
  have hquantity : ∀ record ∈ [tradeAt 1 (-1) 100], 0 ≤ record.trade.quantity := by decide
  have hfit : VolumesFit [tradeAt 1 (-1) 100] := volumesFit_of_sum hquantity (by decide)
  have hminute : (⟨"1m", minuteMs⟩ : CandleInterval) ∈ candleIntervals := by decide
  have hiff := hclaim [tradeAt 1 (-1) 100] (by decide) (by decide) hfit 1 ⟨"1m", minuteMs⟩ hminute
    (-60000) (by decide)
  have hrefused : ((recordAll [tradeAt 1 (-1) 100] .empty).candles.find?
      (1, "1m", -60000)).isSome = false := by decide
  exact absurd (hiff.2 ⟨tradeAt 1 (-1) 100, List.mem_cons_self, by decide⟩) (by rw [hrefused]; decide)

end Timeseries
