import ExchangeServer.Foundation.Query
import ExchangeServer.Timeseries.Interleavings

/-!
# The candles of a market

The server answers a request for candles from the database of the timeseries
service. It checks the interval, the limit and the window of the request, and
answers with the latest buckets of the window, oldest first. Whatever the tasks of
the service have done and left undone, the answer summarizes the trades that have
been consumed.
-/

namespace Server

open Protocol Relational Timeseries

/-- The intervals that the server knows. -/
def supportedIntervals : List String := ["1m", "5m", "15m", "1h", "1d"]

def isSupportedInterval (interval : String) : Bool := interval ∈ supportedIntervals

def defaultCandleLimit : ℤ := 500

def maxCandleLimit : ℤ := 1000

/-- The first and the last millisecond of a `DateTime<Utc>`. -/
def minUtcMs : ℤ := -8334601228800000

def maxUtcMs : ℤ := 8210266876799999

/-- The first millisecond of a `TIMESTAMPTZ`. -/
def timestampStartMs : ℤ := -210866803200000

inductive MarketServiceError
  | invalidInterval | invalidLimit | invalidTimestamp | invalidTimeRange | storage
  deriving DecidableEq

/-- The window of a query; a border that is absent leaves it open. -/
def InWindow (start stop : Option ℤ) (bucketStart : ℤ) : Prop :=
  (∀ first ∈ start, first ≤ bucketStart) ∧ ∀ last ∈ stop, bucketStart < last

instance (start stop : Option ℤ) (bucketStart : ℤ) : Decidable (InWindow start stop bucketStart) :=
  inferInstanceAs (Decidable ((∀ first ∈ start, first ≤ bucketStart) ∧ ∀ last ∈ stop, bucketStart < last))

/-- The rows of the query, before they are ordered. -/
def matchingCandles (d : TimeseriesDb) (marketId : ℤ) (interval : String) (start stop : Option ℤ) :
    List CandleRow :=
  d.candles.rows.filter fun row =>
    row.marketId = marketId ∧ row.interval = interval ∧ InWindow start stop row.bucketStartMs

/-- `ORDER BY bucket_start DESC`. -/
def LaterFirst (row row' : CandleRow) : Prop := row'.bucketStartMs ≤ row.bucketStartMs

/-- `ORDER BY bucket_start ASC`. -/
def EarlierFirst (row row' : CandleRow) : Prop := row.bucketStartMs ≤ row'.bucketStartMs

instance : DecidableRel LaterFirst := fun _ _ => inferInstanceAs (Decidable (_ ≤ _))

instance : DecidableRel EarlierFirst := fun _ _ => inferInstanceAs (Decidable (_ ≤ _))

instance : Std.Total LaterFirst := ⟨fun row row' => le_total row'.bucketStartMs row.bucketStartMs⟩

instance : Std.Total EarlierFirst := ⟨fun row row' => le_total row.bucketStartMs row'.bucketStartMs⟩

instance : IsTrans CandleRow LaterFirst := ⟨fun _ _ _ h h' => le_trans h' h⟩

instance : IsTrans CandleRow EarlierFirst := ⟨fun _ _ _ h h' => le_trans h h'⟩

/-- `get_market_candles` of the database: the latest buckets, in ascending order. A
border that is no `TIMESTAMPTZ` fails the query. -/
def selectMarketCandles (d : TimeseriesDb) (marketId : ℤ) (interval : String)
    (start stop : Option ℤ) (limit : ℤ) : Option (List CandleRow) :=
  if ∀ time ∈ start.toList ++ stop.toList, timestampStartMs ≤ time then
    some ((firstBy LaterFirst limit.toNat
      (matchingCandles d marketId interval start stop)).insertionSort EarlierFirst)
  else none

def timestampMillis : Option ℤ → Except MarketServiceError (Option ℤ)
  | none => .ok none
  | some timestamp =>
    if minUtcMs ≤ timestamp ∧ timestamp ≤ maxUtcMs then .ok (some timestamp)
    else .error .invalidTimestamp

/-- `start >= end` of a window that has both borders. -/
def EmptyRange (start stop : Option ℤ) : Prop := ∃ first ∈ start, ∃ last ∈ stop, last ≤ first

instance (start stop : Option ℤ) : Decidable (EmptyRange start stop) :=
  decidable_of_iff (∃ first ∈ start.toList, ∃ last ∈ stop.toList, last ≤ first) (by
    simp [EmptyRange])

def getCandles (d : TimeseriesDb) (marketId : ℤ) (interval : String)
    (startMs endMs limit : Option ℤ) : Except MarketServiceError (List CandleRow) := do
  if !isSupportedInterval interval then
    throw .invalidInterval
  let limit := limit.getD defaultCandleLimit
  if ¬(1 ≤ limit ∧ limit ≤ maxCandleLimit) then
    throw .invalidLimit
  let start ← timestampMillis startMs
  let stop ← timestampMillis endMs
  if EmptyRange start stop then
    throw .invalidTimeRange
  match selectMarketCandles d marketId interval start stop limit with
  | some candles => return candles
  | none => throw .storage

/-- Status and body of an answer. -/
structure Response (α : Type) where
  status : ℕ
  success : Bool
  info : String
  body : Option α

structure CandleQuery where
  interval : String
  startMs : Option ℤ
  endMs : Option ℤ
  limit : Option ℤ

def badRequest {α : Type} (message : String) : Response α where
  status := 400
  success := false
  info := message
  body := none

/-- `GET /{market_id}/candles`. -/
def getMarketCandles (d : TimeseriesDb) (marketId : ℤ) (query : CandleQuery) :
    Response (List CandleRow) :=
  if marketId ≤ 0 then badRequest "market_id must be greater than zero"
  else
    match getCandles d marketId query.interval query.startMs query.endMs query.limit with
    | .ok candles => { status := 200, success := true, info := "candles fetched", body := some candles }
    | .error .invalidInterval => badRequest "unsupported candle interval"
    | .error .invalidLimit => badRequest "limit must be between 1 and 1000"
    | .error .invalidTimestamp => badRequest "start_ms and end_ms must be valid unix milliseconds"
    | .error .invalidTimeRange => badRequest "start_ms must be less than end_ms"
    | .error .storage =>
      { status := 500, success := false, info := "internal server error", body := none }

/-! ## What is answered -/

section Answers

variable {d : TimeseriesDb} {marketId : ℤ} {interval : String} {start stop limit : Option ℤ}
  {candles : List CandleRow}

/-- The candles of a market and an interval have different starts. -/
theorem pairwise_matchingCandles (d : TimeseriesDb) (marketId : ℤ) (interval : String)
    (start stop : Option ℤ) :
    (matchingCandles d marketId interval start stop).Pairwise fun row row' =>
      row.bucketStartMs ≠ row'.bucketStartMs := by
  have hkeys : d.candles.rows.Pairwise fun row row' => row.key ≠ row'.key :=
    List.pairwise_map.1 d.candles.unique
  refine (hkeys.filter _).imp_of_mem fun {row row'} hrow hrow' hne hstart => hne ?_
  obtain ⟨-, hmarket, hlabel, -⟩ := by simpa [matchingCandles] using hrow
  obtain ⟨-, hmarket', hlabel', -⟩ := by simpa [matchingCandles] using hrow'
  rw [CandleRow.key, CandleRow.key, hmarket, hmarket', hlabel, hlabel', hstart]

/-- The candles that a query answers with. -/
theorem mem_selectMarketCandles {limit : ℤ}
    (h : selectMarketCandles d marketId interval start stop limit = some candles) :
    candles.Pairwise (fun row row' => row.bucketStartMs < row'.bucketStartMs) ∧
      candles.length ≤ limit.toNat ∧
      (∀ row ∈ candles, row ∈ d.candles.rows ∧ row.marketId = marketId ∧
        row.interval = interval ∧ InWindow start stop row.bucketStartMs) ∧
      ∀ row ∈ d.candles.rows, row.marketId = marketId → row.interval = interval →
        InWindow start stop row.bucketStartMs →
          row ∈ candles ∨ candles.length = limit.toNat ∧
            ∀ other ∈ candles, row.bucketStartMs < other.bucketStartMs := by
  unfold selectMarketCandles at h
  split at h
  swap
  · cases h
  cases h
  have hperm := List.perm_insertionSort EarlierFirst (firstBy LaterFirst limit.toNat
    (matchingCandles d marketId interval start stop))
  have hsorted := List.pairwise_insertionSort EarlierFirst (firstBy LaterFirst limit.toNat
    (matchingCandles d marketId interval start stop))
  have hdistinct := hperm.symm.pairwise (pairwise_firstBy_of_symm LaterFirst (n := limit.toNat)
    (fun h => Ne.symm h) (pairwise_matchingCandles d marketId interval start stop)) fun h => h.symm
  have hmem : ∀ row, row ∈ matchingCandles d marketId interval start stop ↔
      row ∈ d.candles.rows ∧ row.marketId = marketId ∧ row.interval = interval ∧
        InWindow start stop row.bucketStartMs := by
    intro row
    simp [matchingCandles]
  refine ⟨?_, ?_, fun row hrow => ?_, fun row hrow hmarket hlabel hwindow => ?_⟩
  · exact (hsorted.and hdistinct).imp fun h => lt_of_le_of_ne h.1 h.2
  · rw [hperm.length_eq]
    exact length_firstBy_le LaterFirst _ _
  · exact (hmem row).1 (mem_of_mem_firstBy LaterFirst (hperm.mem_iff.1 hrow))
  · have hmatching := (hmem row).2 ⟨hrow, hmarket, hlabel, hwindow⟩
    by_cases hanswered : row ∈ firstBy LaterFirst limit.toNat
        (matchingCandles d marketId interval start stop)
    · exact .inl (hperm.mem_iff.2 hanswered)
    · obtain ⟨hfull, hlater⟩ := before_of_not_mem_firstBy LaterFirst hmatching hanswered
      refine .inr ⟨hperm.length_eq.trans hfull, fun other hother => ?_⟩
      have hother' := hperm.mem_iff.1 hother
      refine lt_of_le_of_ne (hlater other hother') fun heq => hanswered ?_
      -- Two candles with one start would be one candle.
      obtain ⟨hotherRow, hmarket', hlabel', -⟩ :=
        (hmem other).1 (mem_of_mem_firstBy LaterFirst hother')
      have hkey : row.key = other.key := Prod.ext (hmarket.trans hmarket'.symm)
        (Prod.ext (hlabel.trans hlabel'.symm) heq)
      have hfind := Table.find?_of_mem hrow
      rw [hkey, Table.find?_of_mem hotherRow] at hfind
      exact Option.some.inj hfind ▸ hother'

/-- What a request has passed that is answered. -/
theorem getCandles_ok (h : getCandles d marketId interval start stop limit = .ok candles) :
    interval ∈ supportedIntervals ∧
      selectMarketCandles d marketId interval start stop (limit.getD defaultCandleLimit) =
        some candles := by
  have htimestamp : ∀ {value time : Option ℤ}, timestampMillis value = .ok time → time = value := by
    intro value time h
    cases value with
    | none =>
      cases h
      rfl
    | some value =>
      rw [timestampMillis] at h
      split at h
      · cases h
        rfl
      · cases h
  simp only [getCandles, bind, Except.bind, pure, Except.pure, throw, throwThe,
    MonadExceptOf.throw] at h
  split at h
  · cases h
  · next hsupported =>
    split at h
    · cases h
    · split at h
      · cases h
      · next first hfirst =>
        split at h
        · cases h
        · next last hlast =>
          obtain rfl := htimestamp hfirst
          obtain rfl := htimestamp hlast
          split at h
          · cases h
          · split at h
            · next found hfound =>
              cases h
              have hinterval : isSupportedInterval interval = true := by simpa using hsupported
              exact ⟨of_decide_eq_true hinterval, hfound⟩
            · cases h

theorem getMarketCandles_ok {query : CandleQuery}
    (h : (getMarketCandles d marketId query).body = some candles) :
    getCandles d marketId query.interval query.startMs query.endMs query.limit = .ok candles := by
  unfold getMarketCandles at h
  split at h
  · cases h
  · split at h <;> cases h
    assumption

/-- An interval that the server knows is one that the service keeps. -/
theorem exists_interval (h : interval ∈ supportedIntervals) :
    ∃ kept ∈ candleIntervals, kept.label = interval := by
  have hall : ∀ interval ∈ supportedIntervals, ∃ kept ∈ candleIntervals, kept.label = interval := by
    decide
  exact hall interval h

end Answers

/-- The candles of an answer are the latest of their window, in ascending order, and
each summarizes the trades of its bucket. -/
structure AnswersWith (accepted : List TradeRecord) (marketId : ℤ) (query : CandleQuery)
    (interval : CandleInterval) (candles : List CandleRow) : Prop where
  label : interval ∈ candleIntervals ∧ interval.label = query.interval
  sorted : candles.Pairwise fun row row' => row.bucketStartMs < row'.bucketStartMs
  length : candles.length ≤ (query.limit.getD defaultCandleLimit).toNat
  sound : ∀ row ∈ candles, row.marketId = marketId ∧ row.interval = query.interval ∧
    interval.durationMs ∣ row.bucketStartMs ∧
    InWindow query.startMs query.endMs row.bucketStartMs ∧
    Summarizes row.toCandle (bucketTrades accepted marketId interval row.bucketStartMs)
  complete : ∀ old ∈ accepted, old.trade.marketId = marketId →
    let start := bucketStartMs old.trade.engineTimestampMs interval.durationMs
    InWindow query.startMs query.endMs start →
      (∃ row ∈ candles, row.bucketStartMs = start) ∨
        candles.length = (query.limit.getD defaultCandleLimit).toNat ∧
          ∀ row ∈ candles, start < row.bucketStartMs

/-- Whatever the tasks of the timeseries service have done, an answer of the server
summarizes the trades that have been consumed, each counted once. -/
theorem market_candles_summarize (log : TopicLog) (schedule : List (Transactional.Action ℤ))
    (σ : TimeseriesSystem) (h : consumeAll log schedule = some σ) :
    ∃ accepted, ConsumedTrades log σ.committed accepted ∧
      ∀ marketId query candles, (getMarketCandles σ.committed marketId query).body = some candles →
        ∃ interval, AnswersWith accepted marketId query interval candles := by
  obtain ⟨accepted, hconsumed, hrecorded⟩ := exists_accepted h
  refine ⟨accepted, hconsumed, fun marketId query candles hanswer => ?_⟩
  obtain ⟨hsupported, hselect⟩ := getCandles_ok (getMarketCandles_ok hanswer)
  obtain ⟨hsorted, hlength, hsound, hcomplete⟩ := mem_selectMarketCandles hselect
  obtain ⟨interval, hinterval, hlabel⟩ := exists_interval hsupported
  refine ⟨interval, ⟨hinterval, hlabel⟩, hsorted, hlength, fun row hrow => ?_, ?_⟩
  · obtain ⟨hstored, rfl, hrowLabel, hwindow⟩ := hsound row hrow
    obtain ⟨hdvd, hsummary⟩ := hrecorded.summarizes hinterval hstored (hrowLabel.trans hlabel.symm)
    exact ⟨rfl, hrowLabel, hdvd, hwindow, hsummary⟩
  · intro old hold hmarket start hwindow
    -- The bucket of a trade has a candle.
    obtain ⟨row, hrow, hkey⟩ := hrecorded.exists_candle hinterval hold
    have hrowMarket : row.marketId = marketId := (congrArg Prod.fst hkey).trans hmarket
    have hrowLabel : row.interval = query.interval :=
      (congrArg (fun key : CandleKey => key.2.1) hkey).trans hlabel
    have hrowStart : row.bucketStartMs = start := congrArg (fun key : CandleKey => key.2.2) hkey
    rcases hcomplete row hrow hrowMarket hrowLabel (hrowStart ▸ hwindow) with hin | ⟨hfull, hlater⟩
    · exact .inl ⟨row, hin, hrowStart⟩
    · exact .inr ⟨hfull, fun other hother => hrowStart ▸ hlater other hother⟩

/-- The minute of both trades of a partition that has been read twice. -/
theorem market_candles_summarize_minute :
    ∃ σ candles accepted interval, consumeAll minuteLog minuteSchedule = some σ ∧
      (getMarketCandles σ.committed 1 ⟨"1m", none, some 120000, some 10⟩).body = some candles ∧
      candles.length = 1 ∧ AnswersWith accepted 1 ⟨"1m", none, some 120000, some 10⟩ interval candles := by
  have hanswer : ((consumeAll minuteLog minuteSchedule).bind fun σ =>
      (getMarketCandles σ.committed 1 ⟨"1m", none, some 120000, some 10⟩).body.map List.length) =
        some 1 := by decide
  obtain ⟨σ, hσ, hbody⟩ := Option.bind_eq_some_iff.1 hanswer
  obtain ⟨candles, hcandles, hlength⟩ := Option.map_eq_some_iff.1 hbody
  obtain ⟨accepted, -, hanswers⟩ := market_candles_summarize minuteLog minuteSchedule σ hσ
  obtain ⟨interval, hall⟩ := hanswers 1 _ candles hcandles
  exact ⟨σ, candles, accepted, interval, hσ, hcandles, hlength, hall⟩

end Server
