import ExchangeServer.Timeseries.Candles
import Mathlib.Algebra.BigOperators.Ring.Finset

/-!
# Coarse candles are merges of fine ones

The trades of a coarse bucket are those of the fine buckets inside it, so the
summary of the one is the merge of the summaries of the others. Sequences and time
stamps need not agree: the fine candle with the first trade is the one with the
smallest sequence, wherever its bucket lies.

Nothing is asked of the records. Those that the database refuses, or has already,
change neither trades nor candles; the others are the trades that the candles
summarize.

## Main results

- `bucket_nested`: a fine bucket lies inside one coarse bucket
- `Summarizes.merges`: the summary of a union of disjoint sets of trades
- `coarse_candle_merges_fine`: the stored candles after any records
-/

namespace Timeseries

open Protocol Relational Transactional Program

/-! ## Nested buckets -/

/-- A multiple below another one is a whole step below it. -/
theorem add_le_of_dvd {step x y : ℤ} (hstep : 0 < step) (hx : step ∣ x) (hy : step ∣ y) (h : x < y) :
    x + step ≤ y := by
  obtain ⟨k, rfl⟩ := hx
  obtain ⟨l, rfl⟩ := hy
  have hlt : k < l := lt_of_mul_lt_mul_left h hstep.le
  calc step * k + step = step * (k + 1) := by ring
    _ ≤ step * l := mul_le_mul_of_nonneg_left hlt hstep.le

/-- The longer interval is a multiple of the shorter one. -/
theorem dvd_of_interval_lt {fine coarse : CandleInterval} (hfine : fine ∈ candleIntervals)
    (hcoarse : coarse ∈ candleIntervals) (h : fine.durationMs < coarse.durationMs) :
    fine.durationMs ∣ coarse.durationMs := by
  have hall : ∀ fine ∈ candleIntervals, ∀ coarse ∈ candleIntervals,
      fine.durationMs < coarse.durationMs → fine.durationMs ∣ coarse.durationMs := by decide
  exact hall fine hfine coarse hcoarse h

/-- A fine bucket lies inside the one coarse bucket that has its start. -/
theorem bucket_nested {fine coarse : CandleInterval} (hfine : fine ∈ candleIntervals)
    (hcoarse : coarse ∈ candleIntervals) (h : fine.durationMs < coarse.durationMs) {start : ℤ}
    (hstart : fine.durationMs ∣ start) :
    ∃! outer, coarse.durationMs ∣ outer ∧ outer ≤ start ∧
      start + fine.durationMs ≤ outer + coarse.durationMs := by
  have hpos := (interval_label_mem hfine).2
  have hposCoarse := (interval_label_mem hcoarse).2
  have hdvd := dvd_of_interval_lt hfine hcoarse h
  have houter : coarse.durationMs ∣ bucketStartMs start coarse.durationMs := Int.dvd_self_sub_emod
  obtain ⟨hle, hlt⟩ := (bucketStartMs_eq_iff hposCoarse houter).1 rfl
  refine ⟨bucketStartMs start coarse.durationMs, ⟨houter, hle, ?_⟩, ?_⟩
  · exact add_le_of_dvd hpos hstart (Int.dvd_add (hdvd.trans houter) hdvd) hlt
  · rintro other ⟨hother, hleOther, hend⟩
    exact ((bucketStartMs_eq_iff hposCoarse hother).2 ⟨hleOther, by omega⟩).symm

/-! ## Merges -/

/-- A candle is the merge of some others. -/
structure Merges (candle : Candle) (parts : Finset CandleRow) : Prop where
  first : ∃ part ∈ parts, candle.openPrice = part.openPrice ∧
    candle.firstEngineSequence = part.firstEngineSequence ∧
    ∀ other ∈ parts, other ≠ part → part.firstEngineSequence < other.firstEngineSequence
  last : ∃ part ∈ parts, candle.close = part.close ∧
    candle.lastEngineSequence = part.lastEngineSequence ∧
    ∀ other ∈ parts, other ≠ part → other.lastEngineSequence < part.lastEngineSequence
  high : IsGreatest ((fun part : CandleRow => part.high) '' parts) candle.high
  low : IsLeast ((fun part : CandleRow => part.low) '' parts) candle.low
  volume : candle.volume = ∑ part ∈ parts, part.volume
  tradeCount : candle.tradeCount = ∑ part ∈ parts, part.tradeCount

/-- The greatest value over a union is the greatest of the greatest values of its parts. -/
theorem isGreatest_of_parts {A B C : Type} [LinearOrder B] [DecidableEq A] {parts : Finset C}
    {members : C → Finset A} {value : A → B} {top : C → B} {b : B}
    (hparts : ∀ part ∈ parts, IsGreatest (value '' members part) (top part))
    (h : IsGreatest (value '' (parts.biUnion members : Finset A)) b) :
    IsGreatest (top '' parts) b := by
  have hbelow : ∀ part ∈ parts, top part ≤ b := by
    intro part hpart
    obtain ⟨a, ha, htop⟩ := (hparts part hpart).1
    rw [← htop]
    exact h.2 ⟨a, Finset.mem_biUnion.2 ⟨part, hpart, ha⟩, rfl⟩
  refine ⟨?_, ?_⟩
  · obtain ⟨a, ha, hb⟩ := h.1
    obtain ⟨part, hpart, hmem⟩ := Finset.mem_biUnion.1 ha
    have hle : b ≤ top part := hb ▸ (hparts part hpart).2 ⟨a, hmem, rfl⟩
    exact ⟨part, hpart, le_antisymm (hbelow part hpart) hle⟩
  · rintro _ ⟨part, hpart, rfl⟩
    exact hbelow part hpart

section Merging

variable {candle : Candle} {parts : Finset CandleRow} {trades : CandleRow → Finset TradeExecuted}

/-- The summary of disjoint sets of trades together is the merge of their summaries. -/
theorem Summarizes.merges (h : Summarizes candle (parts.biUnion trades))
    (hparts : ∀ part ∈ parts, Summarizes part.toCandle (trades part))
    (hdisjoint : Set.PairwiseDisjoint (parts : Set CandleRow) trades)
    (hsequences : ∀ trade ∈ parts.biUnion trades, ∀ other ∈ parts.biUnion trades,
      trade.engineSequence = other.engineSequence → trade = other) : Merges candle parts := by
  -- A trade is in one part only.
  have hunique : ∀ part ∈ parts, ∀ other ∈ parts, ∀ trade ∈ trades part, trade ∈ trades other →
      other = part := by
    intro part hpart other hother trade htrade htrade'
    by_contra hne
    exact (Finset.disjoint_left.1 (hdisjoint hother hpart hne)) htrade' htrade
  have hin : ∀ part ∈ parts, ∀ trade ∈ trades part, trade ∈ parts.biUnion trades :=
    fun part hpart trade htrade => Finset.mem_biUnion.2 ⟨part, hpart, htrade⟩
  refine ⟨?_, ?_, ?_, ?_, ?_, ?_⟩
  -- The first trade of all is the first one of the part that it is in.
  · obtain ⟨trade, htrade, hsequence, hopen, hmin⟩ := h.first
    obtain ⟨part, hpart, htradePart⟩ := Finset.mem_biUnion.1 htrade
    obtain ⟨trade', htrade', hsequence', hopen', hmin'⟩ := (hparts part hpart).first
    obtain rfl : trade' = trade := hsequences _ (hin part hpart _ htrade') _ htrade
      (le_antisymm (hmin' _ htradePart) (hmin _ (hin part hpart _ htrade')))
    refine ⟨part, hpart, hopen.trans hopen'.symm, hsequence.symm.trans hsequence', ?_⟩
    intro other hother hne
    obtain ⟨first, hfirst, hfirstSequence, -, -⟩ := (hparts other hother).first
    rw [← hsequence', ← hfirstSequence]
    refine lt_of_le_of_ne (hmin first (hin other hother _ hfirst)) fun heq => hne ?_
    obtain rfl := hsequences _ htrade _ (hin other hother _ hfirst) heq
    exact hunique part hpart other hother _ htradePart hfirst
  · obtain ⟨trade, htrade, hsequence, hclose, hmax⟩ := h.last
    obtain ⟨part, hpart, htradePart⟩ := Finset.mem_biUnion.1 htrade
    obtain ⟨trade', htrade', hsequence', hclose', hmax'⟩ := (hparts part hpart).last
    obtain rfl : trade' = trade := hsequences _ (hin part hpart _ htrade') _ htrade
      (le_antisymm (hmax _ (hin part hpart _ htrade')) (hmax' _ htradePart))
    refine ⟨part, hpart, hclose.trans hclose'.symm, hsequence.symm.trans hsequence', ?_⟩
    intro other hother hne
    obtain ⟨last, hlast, hlastSequence, -, -⟩ := (hparts other hother).last
    rw [← hsequence', ← hlastSequence]
    refine lt_of_le_of_ne (hmax last (hin other hother _ hlast)) fun heq => hne ?_
    obtain rfl := hsequences _ (hin other hother _ hlast) _ htrade heq
    exact hunique part hpart other hother _ htradePart hlast
  · exact isGreatest_of_parts (fun part hpart => (hparts part hpart).high) h.high
  · exact isGreatest_of_parts (B := ℤᵒᵈ) (fun part hpart => (hparts part hpart).low) h.low
  · rw [h.volume, Finset.sum_biUnion hdisjoint]
    exact Finset.sum_congr rfl fun part hpart => (hparts part hpart).volume.symm
  · rw [h.tradeCount, Finset.card_biUnion hdisjoint, Nat.cast_sum]
    exact Finset.sum_congr rfl fun part hpart => (hparts part hpart).tradeCount.symm

end Merging

/-! ## Records -/

section Records

variable {d : TimeseriesDb} {trade : TradeExecuted} {accepted : List TradeRecord}

/-- A candle that is stored has passed the constraints. -/
theorem checks_of_upsertCandle {interval : CandleInterval} {d' : TimeseriesDb}
    (h : (upsertCandleInTx (draftOf trade interval)).eval d = .ok ((), d')) :
    (draftOf trade interval).fresh.Checks ∧ (candleAfter d trade interval).Checks ∧
      ∃ row : CandleRow, row.key = (draftOf trade interval).key ∧
        d' = { d with candles := d.candles.upsert row } := by
  obtain ⟨ws, hs, rfl⟩ := eval_perform_eq_ok (S := Stmt) h
  change upsertCandle (draftOf trade interval) d = _ at hs
  unfold upsertCandle at hs
  unfold candleAfter
  split at hs
  · next hfresh =>
    cases hfound : d.candles.find? (draftOf trade interval).key with
    | none =>
      rw [hfound] at hs
      cases hs
      exact ⟨hfresh, hfresh, ⟨_, hfresh⟩, rfl, rfl⟩
    | some stored =>
      rw [hfound] at hs
      dsimp only at hs
      split at hs
      · next hmerge =>
        cases hs
        have hkey : stored.key = (draftOf trade interval).key := Table.key_of_find? hfound
        exact ⟨hfresh, hmerge, ⟨_, hmerge⟩, hkey, rfl⟩
      · cases hs
  · cases hs

theorem checks_of_upsertCandles {intervals : List CandleInterval} {d' : TimeseriesDb}
    (hlabels : (intervals.map CandleInterval.label).Nodup)
    (h : (upsertCandlesInTx (intervals.map (draftOf trade))).eval d = .ok ((), d')) :
    ∀ interval ∈ intervals,
      (draftOf trade interval).fresh.Checks ∧ (candleAfter d trade interval).Checks := by
  induction intervals generalizing d with
  | nil => exact fun interval hinterval => absurd hinterval List.not_mem_nil
  | cons interval intervals ih =>
    rw [List.map_cons, List.nodup_cons] at hlabels
    rw [List.map_cons, upsertCandlesInTx] at h
    obtain ⟨_, d₁, hfirst, hrest⟩ := eval_bind_eq_ok h
    obtain ⟨hfresh, hafter, row, hkey, rfl⟩ := checks_of_upsertCandle hfirst
    intro other hother
    rcases List.mem_cons.1 hother with rfl | hother
    · exact ⟨hfresh, hafter⟩
    · -- The candles before it are other candles.
      obtain ⟨hfreshOther, hafterOther⟩ := ih hlabels.2 hrest other hother
      have hne : (draftOf trade other).key ≠ row.key := by
        intro heq
        have hlabel : other.label = interval.label :=
          congrArg (fun key : CandleKey => key.2.1) (heq.trans hkey)
        exact hlabels.1 (hlabel ▸ List.mem_map_of_mem hother)
      rw [candleAfter_upsert_of_ne hne] at hafterOther
      exact ⟨hfreshOther, hafterOther⟩

/-- A record is stored with its candles, or neither trades nor candles change. -/
theorem record_cases (record : TradeRecord) (d : TimeseriesDb) :
    ((record.record d).2.timeseriesTrades = d.timeseriesTrades ∧
        (record.record d).2.candles = d.candles) ∨
      record.Storable ∧ d.timeseriesTrades.find? record.key = none ∧
        (∀ row ∈ d.timeseriesTrades.rows, ∀ index ∈ record.indices, index ∉ row.indices) ∧
        ∀ interval ∈ candleIntervals, (draftOf record.trade interval).fresh.Checks ∧
          (candleAfter d record.trade interval).Checks := by
  have hrun := run_record record d
  cases heval : (recordTrade record.topic record.partition record.offset (record.offset + 1)
      record.trade (candleDraftsFromTrade record.trade)).eval d with
  | error e =>
    rw [heval] at hrun
    exact .inl (by rw [hrun]; exact ⟨rfl, rfl⟩)
  | ok result =>
    obtain ⟨inserted, d₁, hinsert, hrest⟩ := eval_bind_eq_ok heval
    obtain ⟨ws, hs, rfl⟩ := eval_perform_eq_ok (S := Stmt) hinsert
    change insertTrade record.topic record.partition record.offset record.trade d = _ at hs
    have hstorable : record.Storable := by
      unfold insertTrade at hs
      split at hs
      · next hcheck =>
        split at hs
        · next hend => exact ⟨hcheck, hend⟩
        · cases hs
      · cases hs
    rw [insertTrade_eq hstorable] at hs
    cases hfound : d.timeseriesTrades.find? record.key with
    -- A trade that comes again adds nothing.
    | some row => exact .inl (record_known hstorable hfound)
    | none =>
      rw [hfound] at hs
      dsimp only at hs
      split at hs
      · next hadmits =>
        cases hs
        obtain ⟨⟨⟩, d₂, hcandles, -⟩ := eval_bind_eq_ok hrest
        change (upsertCandlesInTx (candleIntervals.map (draftOf record.trade))).eval _ = _ at hcandles
        -- The new row of the trade is not looked at by the candles.
        have hchecks := checks_of_upsertCandles (by decide) hcandles
        refine .inr ⟨hstorable, rfl, fun row hrow => hadmits row hrow ?_, hchecks⟩
        exact Table.find?_eq_none_iff.1 hfound row hrow
      · cases hs

/-! ## The trades that are recorded -/

/-- The candles are those of some records, which have been accepted one after the other. -/
structure Recorded (d : TimeseriesDb) (accepted : List TradeRecord) : Prop where
  summary : IsSummary d accepted
  distinct : ∀ a ∈ accepted, ∀ b ∈ accepted, a.key = b.key → a.trade = b.trade
  buckets : ∀ row ∈ d.candles.rows, ∃ interval ∈ candleIntervals,
    row.interval = interval.label ∧ interval.durationMs ∣ row.bucketStartMs

theorem recorded_empty : Recorded .empty [] where
  summary := isSummary_empty
  distinct := fun _ h => absurd h List.not_mem_nil
  buckets := fun _ h => absurd h List.not_mem_nil

theorem Recorded.congr {d' : TimeseriesDb} (h : Recorded d accepted)
    (htrades : d'.timeseriesTrades = d.timeseriesTrades) (hcandles : d'.candles = d.candles) :
    Recorded d' accepted := by
  obtain ⟨⟨hrows, hstored, hsummaries⟩, hdistinct, hbuckets⟩ := h
  refine ⟨⟨?_, ?_, ?_⟩, hdistinct, ?_⟩
  · rwa [htrades]
  · rwa [htrades]
  · rwa [hcandles]
  · rwa [hcandles]

/-- A record that is stored joins the records. -/
theorem Recorded.accept (h : Recorded d accepted) {record : TradeRecord}
    (hstorable : record.Storable) (hfree : d.timeseriesTrades.find? record.key = none)
    (hindices : ∀ row ∈ d.timeseriesTrades.rows, ∀ index ∈ record.indices, index ∉ row.indices)
    (hchecks : ∀ interval ∈ candleIntervals, (draftOf record.trade interval).fresh.Checks ∧
      (candleAfter d record.trade interval).Checks) :
    Recorded (record.record d).2 (accepted ++ [record]) := by
  have hnew := h.summary.trade_ne_of_free hfree
  have hfresh := fun interval hinterval => (hchecks interval hinterval).1
  have hafter := fun interval hinterval => (hchecks interval hinterval).2
  refine ⟨h.summary.record_stored hstorable hnew hfree hindices hfresh hafter, ?_, ?_⟩
  · -- The key of the new record is free.
    have hkey : ∀ old ∈ accepted, old.key ≠ record.key := by
      intro old hold heq
      have hsome := h.summary.stored old hold
      rw [heq, hfree] at hsome
      cases hsome
    intro a ha b hb heq
    rcases List.mem_append.1 ha with ha | ha <;> rcases List.mem_append.1 hb with hb | hb
    · exact h.distinct a ha b hb heq
    · exact absurd (heq.trans (congrArg _ (List.mem_singleton.1 hb))) (hkey a ha)
    · exact absurd (heq.symm.trans (congrArg _ (List.mem_singleton.1 ha))) (hkey b hb)
    · rw [List.mem_singleton.1 ha, List.mem_singleton.1 hb]
  · -- A candle is one of those just written, or it was there before.
    obtain ⟨-, -, -, -, -, hkept⟩ := record_new hstorable hfree hindices hfresh hafter
    intro row hrow
    by_cases hdraft : ∃ interval ∈ candleIntervals, row.key = (draftOf record.trade interval).key
    · obtain ⟨interval, hinterval, hkey⟩ := hdraft
      refine ⟨interval, hinterval, congrArg (fun key : CandleKey => key.2.1) hkey, ?_⟩
      have hstart : row.bucketStartMs = (draftOf record.trade interval).bucketStartMs :=
        congrArg (fun key : CandleKey => key.2.2) hkey
      rw [hstart]
      exact (draftOf_bucket record.trade hinterval).1
    · have hsame := hkept row.key fun interval hinterval heq => hdraft ⟨interval, hinterval, heq⟩
      rw [Table.find?_of_mem hrow] at hsame
      exact h.buckets row (Table.mem_of_find? hsame.symm)

/-- One more record. -/
theorem Recorded.step (h : Recorded d accepted) (record : TradeRecord) :
    ∃ accepted', Recorded (record.record d).2 accepted' := by
  rcases record_cases record d with ⟨htrades, hcandles⟩ | ⟨hstorable, hfree, hindices, hchecks⟩
  · exact ⟨accepted, h.congr htrades hcandles⟩
  · exact ⟨accepted ++ [record], h.accept hstorable hfree hindices hchecks⟩

theorem exists_recorded (records : List TradeRecord) :
    ∃ accepted, Recorded (recordAll records .empty) accepted := by
  induction records using List.reverseRecOn with
  | nil => exact ⟨[], recorded_empty⟩
  | append_singleton records record ih =>
    obtain ⟨accepted, h⟩ := ih
    rw [recordAll, List.foldl_append]
    exact h.step record

end Records

/-! ## Coarse and fine candles -/

/-- The candles of a market for an interval whose buckets lie between two times. -/
def candlesInside (d : TimeseriesDb) (marketId : ℤ) (interval : CandleInterval) (start stop : ℤ) :
    Finset CandleRow :=
  d.candles.rows.toFinset.filter fun row =>
    row.marketId = marketId ∧ row.interval = interval.label ∧ start ≤ row.bucketStartMs ∧
      row.bucketStartMs + interval.durationMs ≤ stop

theorem mem_candlesInside {d : TimeseriesDb} {marketId start stop : ℤ} {interval : CandleInterval}
    {row : CandleRow} : row ∈ candlesInside d marketId interval start stop ↔
      row ∈ d.candles.rows ∧ row.marketId = marketId ∧ row.interval = interval.label ∧
        start ≤ row.bucketStartMs ∧ row.bucketStartMs + interval.durationMs ≤ stop := by
  rw [candlesInside, Finset.mem_filter, List.mem_toFinset]

section Nested

variable {d : TimeseriesDb} {accepted : List TradeRecord} {fine coarse : CandleInterval}

/-- A stored candle summarizes the trades of its bucket. -/
theorem Recorded.summarizes (h : Recorded d accepted) (hfine : fine ∈ candleIntervals)
    {row : CandleRow} (hrow : row ∈ d.candles.rows) (hlabel : row.interval = fine.label) :
    fine.durationMs ∣ row.bucketStartMs ∧
      Summarizes row.toCandle (bucketTrades accepted row.marketId fine row.bucketStartMs) := by
  obtain ⟨interval, hinterval, hlabel', hdvd⟩ := h.buckets row hrow
  obtain rfl := interval_eq_of_label hfine hinterval (hlabel.symm.trans hlabel')
  refine ⟨hdvd, (h.summary.candles row.marketId fine hfine row.bucketStartMs hdvd).2 row ?_⟩
  rw [← hlabel]
  exact Table.find?_of_mem hrow

/-- A trade has a candle of every interval. -/
theorem Recorded.exists_candle (h : Recorded d accepted) (hfine : fine ∈ candleIntervals)
    {record : TradeRecord} (hrecord : record ∈ accepted) :
    ∃ row ∈ d.candles.rows, row.key = (draftOf record.trade fine).key := by
  obtain ⟨hdvd, hle, hlt⟩ := draftOf_bucket record.trade hfine
  obtain ⟨hnone, -⟩ := h.summary.candles record.trade.marketId fine hfine _ hdvd
  cases hfound : d.candles.find? (draftOf record.trade fine).key with
  | none =>
    have hmem : record.trade ∈ bucketTrades accepted record.trade.marketId fine
        (draftOf record.trade fine).bucketStartMs :=
      mem_bucketTrades.2 ⟨⟨record, hrecord, rfl⟩, rfl, hle, hlt⟩
    rw [hnone hfound] at hmem
    exact absurd hmem (Finset.notMem_empty _)
  | some row => exact ⟨row, Table.mem_of_find? hfound, Table.key_of_find? hfound⟩

/-- The trades of a coarse bucket are those of the fine buckets inside it. -/
theorem Recorded.bucketTrades_eq (h : Recorded d accepted) (hfine : fine ∈ candleIntervals)
    (hcoarse : coarse ∈ candleIntervals) (hlt : fine.durationMs < coarse.durationMs)
    {marketId start : ℤ} (hstart : coarse.durationMs ∣ start) :
    bucketTrades accepted marketId coarse start =
      (candlesInside d marketId fine start (start + coarse.durationMs)).biUnion fun row =>
        bucketTrades accepted marketId fine row.bucketStartMs := by
  have hpos := (interval_label_mem hfine).2
  have hdvd := dvd_of_interval_lt hfine hcoarse hlt
  ext trade
  rw [Finset.mem_biUnion]
  constructor
  · intro htrade
    obtain ⟨⟨record, hrecord, rfl⟩, hmarket, hle, hbefore⟩ := mem_bucketTrades.1 htrade
    obtain ⟨row, hrow, hkey⟩ := h.exists_candle hfine hrecord
    obtain ⟨hfineStart, hfineLe, hfineLt⟩ := draftOf_bucket record.trade hfine
    have hrowStart : row.bucketStartMs = (draftOf record.trade fine).bucketStartMs :=
      congrArg (fun key : CandleKey => key.2.2) hkey
    rw [← hrowStart] at hfineStart hfineLe hfineLt
    -- Neither border of the coarse bucket cuts the fine one.
    have hinside : start ≤ row.bucketStartMs ∧
        row.bucketStartMs + fine.durationMs ≤ start + coarse.durationMs := by
      constructor
      · by_contra hnot
        have hstep := add_le_of_dvd hpos hfineStart (hdvd.trans hstart) (not_le.1 hnot)
        omega
      · exact add_le_of_dvd hpos hfineStart (Int.dvd_add (hdvd.trans hstart) hdvd) (by omega)
    refine ⟨row, mem_candlesInside.2 ⟨hrow, ?_, ?_, hinside⟩,
      mem_bucketTrades.2 ⟨⟨record, hrecord, rfl⟩, hmarket, hfineLe, hfineLt⟩⟩
    · exact (congrArg Prod.fst hkey).trans hmarket
    · exact congrArg (fun key : CandleKey => key.2.1) hkey
  · rintro ⟨row, hrow, htrade⟩
    obtain ⟨-, -, -, hbegin, hend⟩ := mem_candlesInside.1 hrow
    obtain ⟨hrecord, hmarket, hle, hbefore⟩ := mem_bucketTrades.1 htrade
    exact mem_bucketTrades.2 ⟨hrecord, hmarket, by omega, by omega⟩

/-- A coarse candle is the merge of the fine candles inside its bucket. -/
theorem Recorded.merges (h : Recorded d accepted) (hfine : fine ∈ candleIntervals)
    (hcoarse : coarse ∈ candleIntervals) (hlt : fine.durationMs < coarse.durationMs)
    {row : CandleRow} (hrow : row ∈ d.candles.rows) (hlabel : row.interval = coarse.label) :
    Merges row.toCandle (candlesInside d row.marketId fine row.bucketStartMs
      (row.bucketStartMs + coarse.durationMs)) := by
  obtain ⟨hstart, hsummary⟩ := h.summarizes hcoarse hrow hlabel
  rw [h.bucketTrades_eq hfine hcoarse hlt hstart] at hsummary
  refine hsummary.merges ?_ ?_ ?_
  · intro part hpart
    obtain ⟨hpartRow, hmarket, hpartLabel, -, -⟩ := mem_candlesInside.1 hpart
    rw [← hmarket]
    exact (h.summarizes hfine hpartRow hpartLabel).2
  · -- Two candles of one trade have one key.
    intro part hpart other hother hne
    refine Finset.disjoint_left.2 fun trade htrade htrade' => hne ?_
    obtain ⟨hpartRow, hmarket, hpartLabel, -, -⟩ := mem_candlesInside.1 hpart
    obtain ⟨hotherRow, hmarket', hotherLabel, -, -⟩ := mem_candlesInside.1 hother
    obtain ⟨-, -, hle, hbefore⟩ := mem_bucketTrades.1 htrade
    obtain ⟨-, -, hle', hbefore'⟩ := mem_bucketTrades.1 htrade'
    have hpos := (interval_label_mem hfine).2
    have hbucket := (bucketStartMs_eq_iff hpos (h.summarizes hfine hpartRow hpartLabel).1).2
      ⟨hle, hbefore⟩
    have hbucket' := (bucketStartMs_eq_iff hpos (h.summarizes hfine hotherRow hotherLabel).1).2
      ⟨hle', hbefore'⟩
    have hkey : part.key = other.key := Prod.ext (hmarket.trans hmarket'.symm)
      (Prod.ext (hpartLabel.trans hotherLabel.symm) (hbucket.symm.trans hbucket'))
    have hfind := Table.find?_of_mem hpartRow
    rw [hkey, Table.find?_of_mem hotherRow] at hfind
    exact (Option.some.inj hfind).symm
  · intro trade htrade other hother hsequence
    obtain ⟨_, -, htrade⟩ := Finset.mem_biUnion.1 htrade
    obtain ⟨_, -, hother⟩ := Finset.mem_biUnion.1 hother
    obtain ⟨⟨a, ha, rfl⟩, hmarket, -⟩ := mem_bucketTrades.1 htrade
    obtain ⟨⟨b, hb, rfl⟩, hmarket', -⟩ := mem_bucketTrades.1 hother
    exact h.distinct a ha b hb (Prod.ext (hmarket.trans hmarket'.symm) hsequence)

end Nested

/-- After any records, of which some may come again or be refused: a bucket of a shorter
interval lies inside one bucket of a longer one, and a stored candle of the longer
interval is the merge of the stored candles of the shorter one inside its bucket. -/
theorem coarse_candle_merges_fine (records : List TradeRecord) {fine coarse : CandleInterval}
    (hfine : fine ∈ candleIntervals) (hcoarse : coarse ∈ candleIntervals)
    (hlt : fine.durationMs < coarse.durationMs) :
    (∀ start, fine.durationMs ∣ start →
      ∃! outer, coarse.durationMs ∣ outer ∧ outer ≤ start ∧
        start + fine.durationMs ≤ outer + coarse.durationMs) ∧
    ∀ row ∈ (recordAll records .empty).candles.rows, row.interval = coarse.label →
      coarse.durationMs ∣ row.bucketStartMs ∧
        Merges row.toCandle (candlesInside (recordAll records .empty) row.marketId fine
          row.bucketStartMs (row.bucketStartMs + coarse.durationMs)) := by
  obtain ⟨accepted, h⟩ := exists_recorded records
  refine ⟨fun start hstart => bucket_nested hfine hcoarse hlt hstart, fun row hrow hlabel => ?_⟩
  exact ⟨(h.summarizes hcoarse hrow hlabel).1, h.merges hfine hcoarse hlt hrow hlabel⟩

/-- The first trade by sequence is in the later minute. -/
theorem coarse_candle_merges_fine_reordered :
    let d := recordAll [tradeAt 2 61000 90, tradeAt 1 121000 100] .empty
    ∃ row ∈ d.candles.rows, row.interval = "5m" ∧ row.openPrice = 100 ∧
      Merges row.toCandle (candlesInside d 1 ⟨"1m", minuteMs⟩ 0 (5 * minuteMs)) := by
  intro d
  obtain ⟨row, hrow, hopen⟩ : ∃ row, d.candles.find? (1, "5m", 0) = some row ∧
      row.openPrice = 100 := ⟨_, rfl, rfl⟩
  have hkey : row.key = (1, "5m", 0) := Table.key_of_find? hrow
  have hmarket : row.marketId = 1 := congrArg Prod.fst hkey
  have hlabel : row.interval = "5m" := congrArg (fun key : CandleKey => key.2.1) hkey
  have hstart : row.bucketStartMs = 0 := congrArg (fun key : CandleKey => key.2.2) hkey
  have hfine : (⟨"1m", minuteMs⟩ : CandleInterval) ∈ candleIntervals := by decide
  have hcoarse : (⟨"5m", 5 * minuteMs⟩ : CandleInterval) ∈ candleIntervals := by decide
  have hmerges := ((coarse_candle_merges_fine [tradeAt 2 61000 90, tradeAt 1 121000 100]
    hfine hcoarse (by decide)).2 row (Table.mem_of_find? hrow) hlabel).2
  rw [hmarket, hstart, zero_add] at hmerges
  exact ⟨row, Table.mem_of_find? hrow, hlabel, hopen, hmerges⟩

end Timeseries
