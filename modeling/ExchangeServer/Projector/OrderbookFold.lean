import ExchangeServer.Foundation.LastWriter
import ExchangeServer.Projector.Orderbook

/-!
# The stored order book is the fold of the deltas

Deltas may come late, twice, or out of order. Three tables guard against that:
one knows the deltas that were seen, one the sequence of the stored book, and
every level the sequence at which it was written. Together they act like one
rule: a delta that is larger than all before it overrides the levels it names,
and any other delta changes nothing.

## Main results

- `project_ok`: what a delta that is projected does
- `orderbook_is_fold`: the book after any sequence of deltas
-/

namespace Projector

open Protocol Relational Transactional Program LastWriter

/-- The quantity that a list of levels gives for a price. -/
def quantityAt (levels : List OrderBookLevel) (price : ℤ) : Option ℤ :=
  (levels.find? fun level => level.price = price).map OrderBookLevel.quantity

/-- The levels of a side of a delta. -/
def sideLevels (event : OrderBookDelta) : BookSide → List OrderBookLevel
  | .BID => event.bids
  | .ASK => event.asks

/-- What a delta says about a level. -/
def named (event : OrderBookDelta) (key : BookSide × ℤ) : Option ℤ :=
  quantityAt (sideLevels event key.1) key.2

/-- A delta names every level at most once. -/
def NamesOnce (event : OrderBookDelta) : Prop :=
  (event.bids.map OrderBookLevel.price).Nodup ∧ (event.asks.map OrderBookLevel.price).Nodup

instance (event : OrderBookDelta) : Decidable (NamesOnce event) :=
  inferInstanceAs (Decidable (_ ∧ _))

/-- A level with a quantity and a sequence; it is absent when the quantity is
not positive. -/
def levelWith (quantity engineSequence : ℤ) : Option (ℤ × ℤ) :=
  if 0 < quantity then some (quantity, engineSequence) else none

/-- Quantity and sequence of a stored level. -/
def ProjectorDb.level (d : ProjectorDb) (key : LevelKey) : Option (ℤ × ℤ) :=
  (d.orderbookLevels.find? key).map fun row => (row.quantity, row.lastEngineSequence)

/-- The sequence of the stored book of a market. -/
def ProjectorDb.bookSequence (d : ProjectorDb) (marketId : ℤ) : Option ℤ :=
  (d.orderbookState.find? marketId).map OrderbookStateRow.engineSequence

/-- A delta has been seen. -/
def ProjectorDb.SeenDelta (d : ProjectorDb) (marketId engineSequence : ℤ) : Prop :=
  (d.orderbookEvents.find? (marketId, engineSequence)).isSome

/-! ## One level -/

section Level

variable {event : OrderBookDelta} {side : BookSide} {level : OrderBookLevel} {d d' : ProjectorDb}

/-- The stored level is older than a sequence. -/
def OlderLevel (d : ProjectorDb) (key : LevelKey) (engineSequence : ℤ) : Prop :=
  ∀ value ∈ d.level key, value.2 < engineSequence

theorem OlderLevel.row {key : LevelKey} {engineSequence : ℤ} (h : OlderLevel d key engineSequence)
    {row : OrderbookLevelRow} (hrow : d.orderbookLevels.find? key = some row) :
    row.lastEngineSequence < engineSequence :=
  h (row.quantity, row.lastEngineSequence) (by rw [ProjectorDb.level, hrow]; rfl)

/-- A level of a delta that is newer than the stored level replaces it. -/
theorem applyOrderbookLevelInTx_ok
    (hold : OlderLevel d (event.marketId, side, level.price) event.engineSequence)
    (h : (applyOrderbookLevelInTx event side level).eval d = .ok ((), d')) :
    d' = { d with orderbookLevels := d'.orderbookLevels } ∧
      ∀ key, d'.level key =
        if key = (event.marketId, side, level.price) then
          levelWith level.quantity event.engineSequence
        else d.level key := by
  unfold applyOrderbookLevelInTx at h
  split at h
  · next hzero =>
    obtain ⟨ws, hws, rfl⟩ := eval_execute_eq_ok h
    -- A level without quantity is deleted if it is stored at all.
    have hlevel : levelWith level.quantity event.engineSequence = none :=
      if_neg (not_lt_of_ge hzero)
    rw [hlevel]
    unfold deleteOrderbookLevel at hws
    split at hws
    · next hnone =>
      cases hws
      refine ⟨rfl, fun key => ?_⟩
      split
      · next hkey =>
        subst hkey
        exact Option.map_eq_none_iff.2 hnone
      · rfl
    · next row hrow =>
      rw [if_pos (hold.row hrow)] at hws
      cases hws
      refine ⟨rfl, fun key => ?_⟩
      refine (congrArg _ (Table.find?_erase _ _ key)).trans ?_
      split <;> rfl
  · next hpositive =>
    obtain ⟨ws, hws, rfl⟩ := eval_execute_eq_ok h
    -- The upsert writes the same row whether it inserts or updates.
    have hlevel : levelWith level.quantity event.engineSequence =
        some (level.quantity, event.engineSequence) := if_pos (not_le.1 hpositive)
    rw [hlevel]
    unfold upsertOrderbookLevel at hws
    split at hws
    · next hcheck =>
      let row : OrderbookLevelRow :=
        { marketId := event.marketId, side := side, price := level.price,
          quantity := level.quantity, lastEngineSequence := event.engineSequence, check := hcheck }
      have hput : ws = [.putOrderbookLevel row] := by
        dsimp only at hws
        split at hws
        · split at hws
          · cases hws
            rfl
          · cases hws
        · next stored hstored =>
          rw [if_pos (hold.row hstored)] at hws
          cases hws
          rfl
      subst hput
      refine ⟨rfl, fun key => ?_⟩
      refine (congrArg _ (Table.find?_upsert key)).trans ?_
      change _ = if key = row.key then _ else _
      split <;> rfl
    · cases hws

end Level

/-! ## One delta -/

section Delta

variable {event : OrderBookDelta} {d d' : ProjectorDb}

theorem quantityAt_cons (level : OrderBookLevel) (levels : List OrderBookLevel) (price : ℤ) :
    quantityAt (level :: levels) price =
      if price = level.price then some level.quantity else quantityAt levels price := by
  rw [quantityAt, List.find?_cons]
  by_cases h : price = level.price
  · simp [h]
  · simp [h, Ne.symm h, quantityAt]

theorem quantityAt_eq_none {levels : List OrderBookLevel} {price : ℤ}
    (h : price ∉ levels.map OrderBookLevel.price) : quantityAt levels price = none := by
  rw [quantityAt, Option.map_eq_none_iff, List.find?_eq_none]
  intro level hlevel hprice
  exact h (List.mem_map.2 ⟨level, hlevel, by simpa using hprice⟩)

/-- What the levels of one side of a delta make of a stored level. -/
def overrideSide (event : OrderBookDelta) (side : BookSide) (levels : List OrderBookLevel)
    (d : ProjectorDb) (key : LevelKey) : Option (ℤ × ℤ) :=
  if key.1 = event.marketId ∧ key.2.1 = side then
    match quantityAt levels key.2.2 with
    | some quantity => levelWith quantity event.engineSequence
    | none => d.level key
  else d.level key

/-- The levels of a side do not meet again, so each replaces an older one. -/
theorem applyOrderbookLevels_ok {side : BookSide} {levels : List OrderBookLevel}
    (hnodup : (levels.map OrderBookLevel.price).Nodup)
    (hold : ∀ level ∈ levels,
      OlderLevel d (event.marketId, side, level.price) event.engineSequence)
    (h : (applyOrderbookLevels event side levels).eval d = .ok ((), d')) :
    d' = { d with orderbookLevels := d'.orderbookLevels } ∧
      ∀ key, d'.level key = overrideSide event side levels d key := by
  induction levels generalizing d with
  | nil =>
    cases h
    refine ⟨rfl, fun key => ?_⟩
    unfold overrideSide
    split <;> rfl
  | cons level levels ih =>
    obtain ⟨_, v, hfirst, hrest⟩ := eval_bind_eq_ok h
    rw [List.map_cons, List.nodup_cons] at hnodup
    obtain ⟨hframe, hlevel⟩ := applyOrderbookLevelInTx_ok (hold level (List.mem_cons_self ..)) hfirst
    -- The prices after it are others, so their levels are as old as before.
    have hold' : ∀ other ∈ levels,
        OlderLevel v (event.marketId, side, other.price) event.engineSequence := by
      intro other hother
      have hne : (event.marketId, side, other.price) ≠ (event.marketId, side, level.price) := by
        intro he
        have hprice : other.price = level.price := congrArg (fun key : LevelKey => key.2.2) he
        exact hnodup.1 (hprice ▸ List.mem_map_of_mem hother)
      unfold OlderLevel
      rw [hlevel, if_neg hne]
      exact hold other (List.mem_cons_of_mem _ hother)
    obtain ⟨hframe', hlevel'⟩ := ih hnodup.2 hold' hrest
    refine ⟨?_, fun key => ?_⟩
    · rw [hframe', hframe]
    · rw [hlevel', overrideSide, overrideSide, quantityAt_cons, hlevel]
      obtain ⟨marketId, side', price⟩ := key
      by_cases hside : marketId = event.marketId ∧ side' = side
      · obtain ⟨rfl, rfl⟩ := hside
        by_cases hprice : price = level.price
        · -- No level after it names the price again.
          subst hprice
          simp [quantityAt_eq_none hnodup.1]
        · simp [hprice]
      · have hkey : (marketId, side', price) ≠ (event.marketId, side, level.price) := by
          intro he
          cases he
          exact hside ⟨rfl, rfl⟩
        simp [hside, hkey]

/-- A statement on the book leaves the seen deltas of it as they are. -/
theorem upsertOrderbookStateInTx_ok
    (hnewer : ∀ sequence ∈ d.bookSequence event.marketId, sequence < event.engineSequence)
    (h : (upsertOrderbookStateInTx event).eval d = .ok ((), d')) :
    d' = { d with orderbookState := d'.orderbookState } ∧
      ∀ marketId, d'.bookSequence marketId =
        if marketId = event.marketId then some event.engineSequence
        else d.bookSequence marketId := by
  obtain ⟨ws, hws, rfl⟩ := eval_execute_eq_ok h
  unfold upsertOrderbookState at hws
  split at hws
  · next hcheck =>
    let row : OrderbookStateRow :=
      { marketId := event.marketId, engineSequence := event.engineSequence,
        engineTimestampMs := event.engineTimestampMs, check := hcheck }
    have hput : ws = [.putOrderbookState row] := by
      dsimp only at hws
      split at hws
      · split at hws
        · cases hws
          rfl
        · cases hws
      · next stored hstored =>
        have hlt : stored.engineSequence < event.engineSequence := by
          apply hnewer
          rw [ProjectorDb.bookSequence, hstored]
          rfl
        rw [if_pos hlt] at hws
        cases hws
        rfl
    subst hput
    refine ⟨rfl, fun marketId => ?_⟩
    refine (congrArg _ (Table.find?_upsert marketId)).trans ?_
    change _ = if marketId = row.marketId then _ else _
    split <;> rfl
  · cases hws

/-- What a delta that is newer than the book makes of a stored level. -/
def overrideLevel (event : OrderBookDelta) (d : ProjectorDb) (key : LevelKey) :
    Option (ℤ × ℤ) :=
  if key.1 = event.marketId then
    match named event key.2 with
    | some quantity => levelWith quantity event.engineSequence
    | none => d.level key
  else d.level key

/-- A delta that is newer than everything stored of its book overrides the book. -/
theorem applyOrderbookDelta_ok (hnames : NamesOnce event)
    (hnewer : ∀ sequence ∈ d.bookSequence event.marketId, sequence < event.engineSequence)
    (hold : ∀ side price, OlderLevel d (event.marketId, side, price) event.engineSequence)
    (h : (applyOrderbookDelta event).eval d = .ok ((), d')) :
    d' = { d with
      orderbookState := d'.orderbookState
      orderbookLevels := d'.orderbookLevels } ∧
    (∀ key, d'.level key = overrideLevel event d key) ∧
    ∀ marketId, d'.bookSequence marketId =
      if marketId = event.marketId then some event.engineSequence else d.bookSequence marketId := by
  obtain ⟨_, d₁, hbids, h⟩ := eval_bind_eq_ok h
  obtain ⟨_, d₂, hasks, hstate⟩ := eval_bind_eq_ok h
  obtain ⟨hframe₁, hlevel₁⟩ := applyOrderbookLevels_ok hnames.1 (fun level _ => hold _ _) hbids
  have hold₁ : ∀ level ∈ event.asks,
      OlderLevel d₁ (event.marketId, .ASK, level.price) event.engineSequence := by
    intro level _
    unfold OlderLevel
    rw [hlevel₁, overrideSide, if_neg (by simp)]
    exact hold _ _
  obtain ⟨hframe₂, hlevel₂⟩ := applyOrderbookLevels_ok hnames.2 hold₁ hasks
  have hnewer₂ : ∀ sequence ∈ d₂.bookSequence event.marketId, sequence < event.engineSequence := by
    rw [hframe₂, hframe₁]
    exact hnewer
  obtain ⟨hframe₃, hsequence⟩ := upsertOrderbookStateInTx_ok hnewer₂ hstate
  refine ⟨?_, fun key => ?_, fun marketId => ?_⟩
  · rw [hframe₃, hframe₂, hframe₁]
  · have hlast : d'.level key = d₂.level key := by rw [hframe₃]; rfl
    rw [hlast, hlevel₂, overrideSide, hlevel₁]
    obtain ⟨marketId, side, price⟩ := key
    cases side <;> by_cases hmarket : marketId = event.marketId <;>
      simp [overrideSide, overrideLevel, named, sideLevels, hmarket]
  · have hsame : d₂.bookSequence marketId = d.bookSequence marketId := by
      rw [hframe₂, hframe₁]
      rfl
    rw [hsequence, hsame]

theorem saveQueueOffsetInTx_ok {topic : String} {partition nextOffset : ℤ}
    (h : (saveQueueOffsetInTx topic partition nextOffset).eval d = .ok ((), d')) :
    d' = { d with offsets := d'.offsets } := by
  obtain ⟨ws, hws, rfl⟩ := eval_execute_eq_ok h
  unfold upsertOffset at hws
  split at hws
  · split at hws
    · cases hws
      rfl
    · split at hws
      · cases hws
        rfl
      · cases hws
        rfl
  · cases hws

/-- The first statement tells whether the delta is new, and marks it as seen. -/
theorem insertOrderbookEvent_ok {topic : String} {partition offset : ℤ} {inserted : Bool}
    (h : (execute (insertOrderbookEvent event topic partition offset)).eval d =
      .ok (inserted, d')) :
    d' = { d with orderbookEvents := d'.orderbookEvents } ∧
      (inserted = true ↔ ¬d.SeenDelta event.marketId event.engineSequence) ∧
      ∀ marketId sequence, d'.SeenDelta marketId sequence ↔
        d.SeenDelta marketId sequence ∨
          marketId = event.marketId ∧ sequence = event.engineSequence := by
  obtain ⟨ws, hws, rfl⟩ := eval_execute_eq_ok h
  unfold insertOrderbookEvent at hws
  split at hws
  · next hcheck =>
    let row := orderbookEventRow event topic partition offset hcheck
    have hkey : row.key = (event.marketId, event.engineSequence) := rfl
    dsimp only at hws
    split at hws
    · next stored hstored =>
      -- `ON CONFLICT DO NOTHING`
      cases hws
      have hseen : d.SeenDelta event.marketId event.engineSequence :=
        Option.isSome_iff_exists.2 ⟨stored, hstored⟩
      refine ⟨rfl, by simp [hseen], fun marketId sequence => ?_⟩
      refine ⟨.inl, ?_⟩
      rintro (h | ⟨rfl, rfl⟩)
      · exact h
      · exact hseen
    · next hnone =>
      split at hws
      · next hadmits =>
        cases hws
        have hseen : ¬d.SeenDelta event.marketId event.engineSequence := by
          intro hseen
          obtain ⟨stored, hstored⟩ := Option.isSome_iff_exists.1 hseen
          exact Option.some_ne_none stored (hstored.symm.trans hnone)
        refine ⟨rfl, by simp [hseen], fun marketId sequence => ?_⟩
        unfold ProjectorDb.SeenDelta
        have hfind : (d.orderbookEvents.put row).find? (marketId, sequence) =
            if (marketId, sequence) = row.key then some row
            else d.orderbookEvents.find? (marketId, sequence) := by
          rw [Indexed.toTable_put hadmits.1, Table.find?_upsert]
        refine (congrArg (fun found => Option.isSome found = true) hfind).to_iff.trans ?_
        rw [hkey]
        by_cases hsame : marketId = event.marketId ∧ sequence = event.engineSequence
        · obtain ⟨rfl, rfl⟩ := hsame
          simp
        · have hne : (marketId, sequence) ≠ (event.marketId, event.engineSequence) :=
            fun he => hsame (Prod.mk.inj he)
          simp [hne, hsame]
      · cases hws
  · cases hws

/-- The second one compares the delta with the stored book. -/
theorem shouldApplyOrderbookDeltaInTx_ok {apply : Bool}
    (h : (shouldApplyOrderbookDeltaInTx event).eval d = .ok (apply, d')) :
    d' = d ∧
      (apply = true ↔
        ∀ sequence ∈ d.bookSequence event.marketId, sequence < event.engineSequence) := by
  cases h
  refine ⟨rfl, ?_⟩
  change (Option.map _ (d.bookSequence event.marketId)).getD true = true ↔ _
  cases d.bookSequence event.marketId with
  | none => simp
  | some sequence => simp

/-- What a delta that is projected does: it is seen, and if it is new and newer
than the book it overrides the book. -/
theorem project_ok {topic : String} {partition nextOffset : ℤ} (hnames : NamesOnce event)
    (hlevels : ∀ side price, ∀ value ∈ d.level (event.marketId, side, price),
      ∃ sequence ∈ d.bookSequence event.marketId, value.2 ≤ sequence)
    (h : (projectOrderbookDelta event topic partition nextOffset).eval d = .ok ((), d')) :
    (∀ marketId sequence, d'.SeenDelta marketId sequence ↔
      d.SeenDelta marketId sequence ∨ marketId = event.marketId ∧ sequence = event.engineSequence) ∧
    ((d.SeenDelta event.marketId event.engineSequence ∨
        ∃ sequence ∈ d.bookSequence event.marketId, event.engineSequence ≤ sequence) ∧
      (∀ key, d'.level key = d.level key) ∧
      (∀ marketId, d'.bookSequence marketId = d.bookSequence marketId) ∨
    (∀ sequence ∈ d.bookSequence event.marketId, sequence < event.engineSequence) ∧
      ¬d.SeenDelta event.marketId event.engineSequence ∧
      (∀ key, d'.level key = overrideLevel event d key) ∧
      ∀ marketId, d'.bookSequence marketId =
        if marketId = event.marketId then some event.engineSequence
        else d.bookSequence marketId) := by
  obtain ⟨inserted, d₁, hinsert, h⟩ := eval_bind_eq_ok h
  obtain ⟨apply, d₂, happly, h⟩ := eval_bind_eq_ok h
  obtain ⟨_, d₃, hbook, h⟩ := eval_bind_eq_ok h
  obtain ⟨_, d₄, hoffset, h⟩ := eval_bind_eq_ok h
  cases h
  have hframe₄ := saveQueueOffsetInTx_ok hoffset
  obtain ⟨hframe₁, hinserted, hseen⟩ := insertOrderbookEvent_ok hinsert
  have hlevel₁ : ∀ key, d₁.level key = d.level key := by
    rw [hframe₁]
    exact fun _ => rfl
  have hsequence₁ : ∀ marketId, d₁.bookSequence marketId = d.bookSequence marketId := by
    rw [hframe₁]
    exact fun _ => rfl
  -- The decision of the first two statements.
  have hdecision : d₂ = d₁ ∧ (apply = true ↔ inserted = true ∧
      ∀ sequence ∈ d.bookSequence event.marketId, sequence < event.engineSequence) := by
    cases inserted with
    | false =>
      cases happly
      exact ⟨rfl, by simp⟩
    | true =>
      obtain ⟨rfl, hnewer⟩ := shouldApplyOrderbookDeltaInTx_ok happly
      refine ⟨rfl, ?_⟩
      rw [hnewer, hsequence₁]
      simp
  obtain ⟨rfl, hdecision⟩ := hdecision
  cases apply with
  | false =>
    cases hbook
    refine ⟨?_, .inl ⟨?_, ?_, ?_⟩⟩
    · rw [hframe₄]
      exact hseen
    · -- A delta that is new and newer than the book would have been applied.
      by_contra hnot
      push Not at hnot
      exact absurd (hdecision.2 ⟨hinserted.2 hnot.1, hnot.2⟩) (by simp)
    · rw [hframe₄]
      exact hlevel₁
    · rw [hframe₄]
      exact hsequence₁
  | true =>
    obtain ⟨hnew, hnewer⟩ := hdecision.1 rfl
    have hnewer₁ : ∀ sequence ∈ d₂.bookSequence event.marketId, sequence < event.engineSequence := by
      rw [hsequence₁]
      exact hnewer
    -- No level is newer than its book.
    have hold : ∀ side price, OlderLevel d₂ (event.marketId, side, price) event.engineSequence := by
      intro side price value hvalue
      rw [hlevel₁] at hvalue
      obtain ⟨sequence, hsequence, hle⟩ := hlevels side price value hvalue
      exact lt_of_le_of_lt hle (hnewer sequence hsequence)
    obtain ⟨hframe₃, hlevel₃, hsequence₃⟩ := applyOrderbookDelta_ok hnames hnewer₁ hold hbook
    refine ⟨?_, .inr ⟨hnewer, hinserted.1 hnew, fun key => ?_, fun marketId => ?_⟩⟩
    · rw [hframe₄, hframe₃]
      exact hseen
    · have hlast : d'.level key = d₃.level key := by rw [hframe₄]; rfl
      rw [hlast, hlevel₃, overrideLevel, overrideLevel, hlevel₁]
    · have hlast : d'.bookSequence marketId = d₃.bookSequence marketId := by rw [hframe₄]; rfl
      rw [hlast, hsequence₃, hsequence₁]

end Delta

/-! ## Any sequence of deltas -/

/-- A delta as it is read from a partition. -/
structure DeltaRecord where
  event : OrderBookDelta
  topic : String
  partition : ℤ
  nextOffset : ℤ

/-- Result and committed data of the transaction of a delta. -/
def DeltaRecord.project (record : DeltaRecord) (d : ProjectorDb) :
    Except ProjectorRepositoryError Unit × ProjectorDb :=
  (projectOrderbookDelta record.event record.topic record.partition record.nextOffset).run d d

theorem DeltaRecord.atomic (record : DeltaRecord) : (projectOrderbookDelta record.event record.topic
    record.partition record.nextOffset).Atomic :=
  atomic_projectOrderbookDelta record.event record.topic record.partition record.nextOffset

/-- The data after a sequence of deltas, and the deltas that were not refused. -/
def projectDeltas (d : ProjectorDb) : List DeltaRecord → ProjectorDb × List OrderBookDelta
  | [] => (d, [])
  | record :: records =>
    match record.project d with
    | (.ok (), d') =>
      let rest := projectDeltas d' records
      (rest.1, record.event :: rest.2)
    | (.error _, d') => projectDeltas d' records

/-- The deltas of a market. -/
def ofMarket (marketId : ℤ) (deltas : List OrderBookDelta) : List OrderBookDelta :=
  deltas.filter fun event => event.marketId = marketId

/-- The fold: the deltas that are larger than all before them override the levels
they name. -/
def bookOf (deltas : List OrderBookDelta) (key : BookSide × ℤ) : Option (ℤ × ℤ) :=
  (latest named (advancing OrderBookDelta.engineSequence deltas) key).bind fun last =>
    levelWith last.2 last.1.engineSequence

/-- The stored book after the deltas that were seen. -/
structure IsFold (d : ProjectorDb) (seen : List OrderBookDelta) : Prop where
  events : ∀ marketId sequence, d.SeenDelta marketId sequence ↔
    ∃ event ∈ ofMarket marketId seen, event.engineSequence = sequence
  sequence : ∀ marketId sequence, d.bookSequence marketId = some sequence ↔
    (∃ event ∈ ofMarket marketId seen, event.engineSequence = sequence) ∧
      ∀ event ∈ ofMarket marketId seen, event.engineSequence ≤ sequence
  known : ∀ marketId, d.bookSequence marketId = none → ofMarket marketId seen = []
  levels : ∀ marketId side price,
    d.level (marketId, side, price) = bookOf (ofMarket marketId seen) (side, price)

theorem ofMarket_append_self (event : OrderBookDelta) (seen : List OrderBookDelta) :
    ofMarket event.marketId (seen ++ [event]) = ofMarket event.marketId seen ++ [event] := by
  simp [ofMarket]

theorem ofMarket_append_of_ne {event : OrderBookDelta} {marketId : ℤ}
    (h : marketId ≠ event.marketId) (seen : List OrderBookDelta) :
    ofMarket marketId (seen ++ [event]) = ofMarket marketId seen := by
  simp [ofMarket, Ne.symm h]

/-- The sequence of a level is that of a delta that names it. -/
theorem mem_of_bookOf {deltas : List OrderBookDelta} {key : BookSide × ℤ} {value : ℤ × ℤ}
    (h : bookOf deltas key = some value) :
    0 < value.1 ∧ ∃ event, latest named (advancing OrderBookDelta.engineSequence deltas) key =
      some (event, value.1) ∧ event.engineSequence = value.2 ∧ event ∈ deltas := by
  obtain ⟨⟨event, quantity⟩, hlatest, hlevel⟩ := Option.bind_eq_some_iff.1 h
  unfold levelWith at hlevel
  split at hlevel
  · next hpositive =>
    cases hlevel
    exact ⟨hpositive, event, hlatest, rfl, mem_of_mem_advancing (mem_of_latest hlatest).1⟩
  · cases hlevel

namespace IsFold

variable {d d' : ProjectorDb} {seen : List OrderBookDelta}

theorem level_le (h : IsFold d seen) {marketId : ℤ} {side : BookSide} {price : ℤ} {value : ℤ × ℤ}
    (hvalue : value ∈ d.level (marketId, side, price)) :
    ∃ sequence ∈ d.bookSequence marketId, value.2 ≤ sequence := by
  rw [h.levels] at hvalue
  obtain ⟨-, event, -, hsequence, hmem⟩ := mem_of_bookOf hvalue
  cases hbook : d.bookSequence marketId with
  | none =>
    rw [h.known marketId hbook] at hmem
    cases hmem
  | some sequence =>
    refine ⟨sequence, rfl, ?_⟩
    rw [← hsequence]
    exact ((h.sequence marketId sequence).1 hbook).2 event hmem

/-- The deltas that were seen, after one more. -/
theorem events_append (h : IsFold d seen) {event : OrderBookDelta}
    (hevents : ∀ marketId sequence, d'.SeenDelta marketId sequence ↔
      d.SeenDelta marketId sequence ∨ marketId = event.marketId ∧ sequence = event.engineSequence)
    (marketId sequence : ℤ) : d'.SeenDelta marketId sequence ↔
      ∃ e ∈ ofMarket marketId (seen ++ [event]), e.engineSequence = sequence := by
  rw [hevents, h.events]
  by_cases hmarket : marketId = event.marketId
  · subst hmarket
    rw [ofMarket_append_self]
    simp only [List.mem_append, List.mem_singleton, true_and]
    constructor
    · rintro (⟨e, he, hs⟩ | rfl)
      · exact ⟨e, .inl he, hs⟩
      · exact ⟨event, .inr rfl, rfl⟩
    · rintro ⟨e, he | rfl, hs⟩
      · exact .inl ⟨e, he, hs⟩
      · exact .inr hs.symm
  · rw [ofMarket_append_of_ne hmarket]
    simp [hmarket]

/-- A delta that is not newer than the book changes no fold. -/
theorem skip (h : IsFold d seen) {event : OrderBookDelta}
    (hold : d.SeenDelta event.marketId event.engineSequence ∨
      ∃ sequence ∈ d.bookSequence event.marketId, event.engineSequence ≤ sequence)
    (hevents : ∀ marketId sequence, d'.SeenDelta marketId sequence ↔
      d.SeenDelta marketId sequence ∨ marketId = event.marketId ∧ sequence = event.engineSequence)
    (hlevel : ∀ key, d'.level key = d.level key)
    (hbook : ∀ marketId, d'.bookSequence marketId = d.bookSequence marketId) :
    IsFold d' (seen ++ [event]) := by
  -- Some delta before it is not smaller.
  have hlarger : ∃ earlier ∈ ofMarket event.marketId seen,
      event.engineSequence ≤ earlier.engineSequence := by
    rcases hold with hseen | ⟨sequence, hsequence, hle⟩
    · obtain ⟨earlier, hearlier, he⟩ := (h.events _ _).1 hseen
      exact ⟨earlier, hearlier, he.ge⟩
    · obtain ⟨⟨earlier, hearlier, he⟩, -⟩ := (h.sequence _ _).1 hsequence
      exact ⟨earlier, hearlier, he ▸ hle⟩
  obtain ⟨earlier, hearlier, hle⟩ := hlarger
  refine ⟨h.events_append hevents, fun marketId sequence => ?_, fun marketId => ?_,
    fun marketId side price => ?_⟩ <;> by_cases hmarket : marketId = event.marketId
  · subst hmarket
    rw [hbook, h.sequence, ofMarket_append_self]
    simp only [List.mem_append, List.mem_singleton]
    constructor
    · rintro ⟨⟨e, he, hs⟩, hmax⟩
      refine ⟨⟨e, .inl he, hs⟩, ?_⟩
      rintro e' (he' | rfl)
      · exact hmax e' he'
      · exact hle.trans (hmax earlier hearlier)
    · rintro ⟨⟨e, he | rfl, hs⟩, hmax⟩
      · exact ⟨⟨e, he, hs⟩, fun e' he' => hmax e' (.inl he')⟩
      · -- The delta itself is the largest only if the earlier one is as large.
        have hsame : earlier.engineSequence = e.engineSequence :=
          le_antisymm (hs ▸ hmax earlier (.inl hearlier)) hle
        exact ⟨⟨earlier, hearlier, hsame.trans hs⟩, fun e' he' => hmax e' (.inl he')⟩
  · rw [hbook, h.sequence, ofMarket_append_of_ne hmarket]
  · subst hmarket
    intro hnone
    rw [hbook] at hnone
    rw [h.known _ hnone] at hearlier
    cases hearlier
  · rw [hbook, ofMarket_append_of_ne hmarket]
    exact h.known marketId
  · subst hmarket
    rw [hlevel, h.levels, ofMarket_append_self, bookOf, bookOf, advancing_append_of_le hearlier hle]
  · rw [hlevel, h.levels, ofMarket_append_of_ne hmarket]

/-- A delta that is newer than the book overrides the fold. -/
theorem override (h : IsFold d seen) {event : OrderBookDelta}
    (hnewer : ∀ sequence ∈ d.bookSequence event.marketId, sequence < event.engineSequence)
    (hevents : ∀ marketId sequence, d'.SeenDelta marketId sequence ↔
      d.SeenDelta marketId sequence ∨ marketId = event.marketId ∧ sequence = event.engineSequence)
    (hlevel : ∀ key, d'.level key = overrideLevel event d key)
    (hbook : ∀ marketId, d'.bookSequence marketId =
      if marketId = event.marketId then some event.engineSequence else d.bookSequence marketId) :
    IsFold d' (seen ++ [event]) := by
  -- The stored sequence is the largest so far, so the delta advances the fold.
  have hlt : ∀ earlier ∈ ofMarket event.marketId seen,
      earlier.engineSequence < event.engineSequence := by
    intro earlier hearlier
    cases hstored : d.bookSequence event.marketId with
    | none =>
      rw [h.known _ hstored] at hearlier
      cases hearlier
    | some sequence =>
      exact lt_of_le_of_lt (((h.sequence _ _).1 hstored).2 earlier hearlier) (hnewer _ hstored)
  refine ⟨h.events_append hevents, fun marketId sequence => ?_, fun marketId => ?_,
    fun marketId side price => ?_⟩ <;> by_cases hmarket : marketId = event.marketId
  · subst hmarket
    rw [hbook, if_pos rfl, ofMarket_append_self]
    simp only [List.mem_append, List.mem_singleton, Option.some.injEq]
    constructor
    · rintro rfl
      refine ⟨⟨event, .inr rfl, rfl⟩, ?_⟩
      rintro e (he | rfl)
      · exact (hlt e he).le
      · exact le_rfl
    · rintro ⟨⟨e, he | rfl, hs⟩, hmax⟩
      · exact absurd (hmax event (.inr rfl)) (not_le_of_gt (hs ▸ hlt e he))
      · exact hs
  · rw [hbook, if_neg hmarket, h.sequence, ofMarket_append_of_ne hmarket]
  · subst hmarket
    rw [hbook, if_pos rfl]
    exact fun hnone => nomatch hnone
  · rw [hbook, if_neg hmarket, ofMarket_append_of_ne hmarket]
    exact h.known marketId
  · subst hmarket
    rw [hlevel, overrideLevel, if_pos rfl, ofMarket_append_self, bookOf,
      advancing_append_of_lt hlt, latest_append, h.levels]
    cases named event (side, price) with
    | none => rfl
    | some quantity => rfl
  · rw [hlevel, overrideLevel, if_neg hmarket, h.levels, ofMarket_append_of_ne hmarket]

/-- One delta that is projected. -/
theorem project (h : IsFold d seen) {record : DeltaRecord} (hnames : NamesOnce record.event)
    (hproject : record.project d = (.ok (), d')) : IsFold d' (seen ++ [record.event]) := by
  have heval : (projectOrderbookDelta record.event record.topic record.partition
      record.nextOffset).eval d = .ok ((), d') := eval_of_run_ok record.atomic hproject
  obtain ⟨hevents, ⟨hold, hlevel, hbook⟩ | ⟨hnewer, -, hlevel, hbook⟩⟩ :=
    project_ok hnames (fun _ _ _ hvalue => h.level_le hvalue) heval
  · exact h.skip hold hevents hlevel hbook
  · exact h.override hnewer hevents hlevel hbook

/-- Any number of deltas, of which some may be refused. -/
theorem projectDeltas (h : IsFold d seen) {records : List DeltaRecord}
    (hnames : ∀ record ∈ records, NamesOnce record.event) :
    IsFold (projectDeltas d records).1 (seen ++ (projectDeltas d records).2) := by
  induction records generalizing d seen with
  | nil => simpa [Projector.projectDeltas] using h
  | cons record records ih =>
    have hrest : ∀ record ∈ records, NamesOnce record.event :=
      fun record hrecord => hnames record (List.mem_cons_of_mem _ hrecord)
    rw [Projector.projectDeltas]
    split
    · next d' hproject =>
      have hstep := h.project (hnames record (List.mem_cons_self ..)) hproject
      simpa using ih hstep hrest
    · next e d' hproject =>
      obtain rfl := eq_of_run_error record.atomic hproject
      exact ih h hrest

end IsFold

/-! ## Deltas that are not refused -/

/-- The columns of a delta satisfy the constraints of the tables: its market is
stored, and its position in the log belongs to no other delta. -/
def DeltaRecord.Storable (record : DeltaRecord) (d : ProjectorDb) : Prop :=
  0 < record.event.engineSequence ∧ 0 ≤ record.event.engineTimestampMs ∧ 0 < record.nextOffset ∧
    (d.markets.find? record.event.marketId).isSome ∧
    (∀ level ∈ record.event.bids ++ record.event.asks, 0 ≤ level.price) ∧
    ∀ row ∈ d.orderbookEvents.rows,
      (row.topic, row.partition, row.offsetValue) =
        (record.topic, record.partition, record.nextOffset - 1) →
      row.key = (record.event.marketId, record.event.engineSequence)

section Succeeds

variable {event : OrderBookDelta} {d : ProjectorDb}

theorem applyOrderbookLevelInTx_succeeds (side : BookSide) {level : OrderBookLevel}
    (hsequence : 0 < event.engineSequence) (hmarket : (d.markets.find? event.marketId).isSome)
    (hprice : 0 ≤ level.price) : ∃ d', (applyOrderbookLevelInTx event side level).eval d =
      .ok ((), d') ∧ d'.markets = d.markets := by
  unfold applyOrderbookLevelInTx
  split
  · have hdelete : ∃ ws, deleteOrderbookLevel (event.marketId, side, level.price)
        event.engineSequence d = .ok ((), ws) ∧ (view ws d).markets = d.markets := by
      unfold deleteOrderbookLevel
      split
      · exact ⟨_, rfl, rfl⟩
      · split
        · exact ⟨_, rfl, rfl⟩
        · exact ⟨_, rfl, rfl⟩
    obtain ⟨ws, hws, hsame⟩ := hdelete
    exact ⟨_, eval_execute hws, hsame⟩
  · next hquantity =>
    have hcheck : 0 ≤ level.price ∧ 0 < level.quantity ∧ 0 < event.engineSequence :=
      ⟨hprice, not_le.1 hquantity, hsequence⟩
    have hupsert : ∃ ws, upsertOrderbookLevel event.marketId side level.price level.quantity
        event.engineSequence d = .ok ((), ws) ∧ (view ws d).markets = d.markets := by
      simp only [upsertOrderbookLevel, dif_pos hcheck]
      split
      · exact ⟨_, if_pos hmarket, rfl⟩
      · split
        · exact ⟨_, rfl, rfl⟩
        · exact ⟨_, rfl, rfl⟩
    obtain ⟨ws, hws, hsame⟩ := hupsert
    exact ⟨_, eval_execute hws, hsame⟩

theorem applyOrderbookLevels_succeeds (side : BookSide) {levels : List OrderBookLevel}
    (hsequence : 0 < event.engineSequence) (hmarket : (d.markets.find? event.marketId).isSome)
    (hprices : ∀ level ∈ levels, 0 ≤ level.price) :
    ∃ d', (applyOrderbookLevels event side levels).eval d = .ok ((), d') ∧
      d'.markets = d.markets := by
  induction levels generalizing d with
  | nil => exact ⟨d, rfl, rfl⟩
  | cons level levels ih =>
    obtain ⟨v, hfirst, hsame⟩ := applyOrderbookLevelInTx_succeeds side hsequence hmarket
      (hprices level (List.mem_cons_self ..))
    obtain ⟨d', hrest, hsame'⟩ := ih (hsame ▸ hmarket)
      fun level hlevel => hprices level (List.mem_cons_of_mem _ hlevel)
    exact ⟨d', (eval_bind_ok hfirst).trans hrest, hsame'.trans hsame⟩

theorem applyOrderbookDelta_succeeds (hsequence : 0 < event.engineSequence)
    (htimestamp : 0 ≤ event.engineTimestampMs) (hmarket : (d.markets.find? event.marketId).isSome)
    (hprices : ∀ level ∈ event.bids ++ event.asks, 0 ≤ level.price) :
    ∃ d', (applyOrderbookDelta event).eval d = .ok ((), d') := by
  obtain ⟨d₁, hbids, hsame₁⟩ := applyOrderbookLevels_succeeds .BID hsequence hmarket
    fun level hlevel => hprices level (List.mem_append_left _ hlevel)
  obtain ⟨d₂, hasks, hsame₂⟩ := applyOrderbookLevels_succeeds .ASK hsequence
    (hsame₁ ▸ hmarket) fun level hlevel => hprices level (List.mem_append_right _ hlevel)
  have hmarket₂ : (d₂.markets.find? event.marketId).isSome := by rwa [hsame₂, hsame₁]
  have hcheck : 0 < event.engineSequence ∧ 0 ≤ event.engineTimestampMs := ⟨hsequence, htimestamp⟩
  have hstate : ∃ ws, upsertOrderbookState event d₂ = .ok ((), ws) := by
    simp only [upsertOrderbookState, dif_pos hcheck]
    split
    · exact ⟨_, if_pos hmarket₂⟩
    · split
      · exact ⟨_, rfl⟩
      · exact ⟨_, rfl⟩
  obtain ⟨ws, hws⟩ := hstate
  exact ⟨view ws d₂, (eval_bind_ok hbids).trans ((eval_bind_ok hasks).trans (eval_execute hws))⟩

theorem saveQueueOffsetInTx_succeeds {topic : String} {partition nextOffset : ℤ}
    (h : 0 ≤ nextOffset) :
    ∃ d', (saveQueueOffsetInTx topic partition nextOffset).eval d = .ok ((), d') := by
  have hoffset : ∃ ws, upsertOffset topic partition nextOffset d = .ok ((), ws) := by
    simp only [upsertOffset, dif_pos h]
    split
    · exact ⟨_, rfl⟩
    · split
      · exact ⟨_, rfl⟩
      · exact ⟨_, rfl⟩
  obtain ⟨ws, hws⟩ := hoffset
  exact ⟨view ws d, eval_execute hws⟩

/-- A delta that satisfies the constraints is projected. -/
theorem DeltaRecord.project_succeeds {record : DeltaRecord} (h : record.Storable d) :
    (record.project d).1 = .ok () := by
  obtain ⟨hsequence, htimestamp, hoffset, hmarket, hprices, hposition⟩ := h
  have hcheck : 0 < record.event.engineSequence ∧ 0 ≤ record.event.engineTimestampMs ∧
      0 ≤ record.nextOffset - 1 := ⟨hsequence, htimestamp, by omega⟩
  let row := orderbookEventRow record.event record.topic record.partition (record.nextOffset - 1)
    hcheck
  have hinsert : ∃ inserted ws, insertOrderbookEvent record.event record.topic record.partition
      (record.nextOffset - 1) d = .ok (inserted, ws) ∧ (view ws d).markets = d.markets := by
    simp only [insertOrderbookEvent, dif_pos hcheck]
    split
    · exact ⟨_, _, rfl, rfl⟩
    · have hadmits : d.orderbookEvents.Admits row := by
        intro x hx hne j hj hjx
        obtain rfl := List.mem_singleton.1 hj
        exact hne (hposition x hx (List.mem_singleton.1 hjx).symm)
      exact ⟨_, _, if_pos ⟨hadmits, hmarket⟩, rfl⟩
  obtain ⟨inserted, ws, hinsert, hsame⟩ := hinsert
  -- The two branches of the transaction may both be taken or left out.
  have hdecide : ∃ apply, (if inserted then shouldApplyOrderbookDeltaInTx record.event
      else return false : Tx Bool).eval (view ws d) = .ok (apply, view ws d) := by
    cases inserted
    · exact ⟨false, rfl⟩
    · exact ⟨_, rfl⟩
  obtain ⟨apply, hdecide⟩ := hdecide
  have happly : ∃ d', (if apply then applyOrderbookDelta record.event else return () : Tx Unit).eval
      (view ws d) = .ok ((), d') := by
    cases apply
    · exact ⟨_, rfl⟩
    · exact applyOrderbookDelta_succeeds hsequence htimestamp (hsame ▸ hmarket) hprices
  obtain ⟨d₁, happly⟩ := happly
  obtain ⟨d₂, hsave⟩ : ∃ d', (saveQueueOffsetInTx record.topic record.partition
      record.nextOffset).eval d₁ = .ok ((), d') := saveQueueOffsetInTx_succeeds hoffset.le
  have heval : (projectOrderbookDelta record.event record.topic record.partition
      record.nextOffset).eval d = .ok ((), d₂) :=
    (eval_bind_ok (eval_execute hinsert)).trans ((eval_bind_ok hdecide).trans
      ((eval_bind_ok happly).trans (eval_bind_ok hsave)))
  rw [DeltaRecord.project, run_of_atomic record.atomic, heval]
  rfl

end Succeeds

/-! ## The order book -/

/-- No delta has been projected. -/
def ProjectorDb.NoBook (d : ProjectorDb) : Prop :=
  d.orderbookEvents.rows = [] ∧ d.orderbookState.rows = [] ∧ d.orderbookLevels.rows = []

theorem isFold_nil {d : ProjectorDb} (h : d.NoBook) : IsFold d [] := by
  obtain ⟨hevents, hstate, hlevels⟩ := h
  have hsequence : ∀ marketId, d.bookSequence marketId = none := by
    intro marketId
    simp [ProjectorDb.bookSequence, Table.find?, hstate]
  refine ⟨fun marketId sequence => ?_, fun marketId sequence => ?_, fun _ _ => rfl,
    fun marketId side price => ?_⟩
  · simp [ProjectorDb.SeenDelta, Table.find?, hevents, ofMarket]
  · simp [hsequence, ofMarket]
  · simp [ProjectorDb.level, Table.find?, hlevels, bookOf, ofMarket, advancing, advancingAfter]

/-- After any sequence of deltas, of which those in `seen` were not refused, the
stored sequence of a market is the largest that was seen, and a level is stored
exactly when the last delta that names it among those that were larger than all
before them has a positive quantity, with that quantity and the sequence of that
delta. A delta that satisfies the constraints of the tables is not refused. -/
theorem orderbook_is_fold (d : ProjectorDb) (records : List DeltaRecord) (hempty : d.NoBook)
    (hnames : ∀ record ∈ records, NamesOnce record.event) :
    let book := (projectDeltas d records).1
    let seen := (projectDeltas d records).2
    (∀ marketId sequence, book.bookSequence marketId = some sequence ↔
      (∃ event ∈ ofMarket marketId seen, event.engineSequence = sequence) ∧
        ∀ event ∈ ofMarket marketId seen, event.engineSequence ≤ sequence) ∧
    (∀ marketId side price quantity sequence,
      book.level (marketId, side, price) = some (quantity, sequence) ↔
        0 < quantity ∧ ∃ event,
          latest named (advancing OrderBookDelta.engineSequence (ofMarket marketId seen))
            (side, price) = some (event, quantity) ∧ event.engineSequence = sequence) ∧
    (∀ row ∈ book.orderbookLevels.rows, 0 < row.quantity ∧
      ∃ sequence, book.bookSequence row.marketId = some sequence ∧
        row.lastEngineSequence ≤ sequence) ∧
    ∀ (record : DeltaRecord) (d' : ProjectorDb), record.Storable d' →
      (record.project d').1 = .ok () := by
  have hfold : IsFold (projectDeltas d records).1 (projectDeltas d records).2 := by
    simpa using (isFold_nil hempty).projectDeltas hnames
  refine ⟨hfold.sequence, fun marketId side price quantity sequence => ?_, fun row hrow => ?_,
    fun record d' hstorable => record.project_succeeds hstorable⟩
  · rw [hfold.levels]
    constructor
    · intro hlevel
      obtain ⟨hpositive, event, hlatest, hsequence, -⟩ := mem_of_bookOf hlevel
      exact ⟨hpositive, event, hlatest, hsequence⟩
    · rintro ⟨hpositive, event, hlatest, rfl⟩
      rw [bookOf, hlatest]
      exact if_pos hpositive
  · refine ⟨row.check.2.1, ?_⟩
    have hlevel : (projectDeltas d records).1.level row.key =
        some (row.quantity, row.lastEngineSequence) := by
      rw [ProjectorDb.level, Table.find?_of_mem hrow]
      rfl
    obtain ⟨sequence, hsequence, hle⟩ := hfold.level_le hlevel
    exact ⟨sequence, hsequence, hle⟩

/-- A delta of market 7 with one level on the side of the buyers. -/
def bidDelta (engineSequence price quantity : ℤ) : OrderBookDelta where
  engineEventId := none
  engineSequence := engineSequence
  engineTimestampMs := 0
  sourceInputId := none
  sourceInputOffset := none
  marketId := 7
  bids := [⟨price, quantity⟩]
  asks := []

/-- The third delta comes late and the fifth is a repetition of the second. -/
def bidRecords : List DeltaRecord :=
  [⟨bidDelta 1 100 10, "engine.events", 0, 1⟩, ⟨bidDelta 3 100 4, "engine.events", 0, 2⟩,
    ⟨bidDelta 2 100 8, "engine.events", 0, 3⟩, ⟨bidDelta 4 101 0, "engine.events", 0, 4⟩,
    ⟨bidDelta 3 100 4, "engine.events", 0, 5⟩]

def bidMarkets : ProjectorDb :=
  .empty [] (fun _ => none) (Table.empty.insert ⟨7, "SOL-PERP", 0⟩)

theorem orderbook_is_fold_bids :
    (projectDeltas bidMarkets bidRecords).1.level (7, .BID, 100) = some (4, 3) := by
  have hfold := orderbook_is_fold bidMarkets bidRecords ⟨rfl, rfl, rfl⟩ (by decide)
  exact (hfold.2.1 7 .BID 100 4 3).2 ⟨by decide, bidDelta 3 100 4, by decide, by decide⟩

end Projector
