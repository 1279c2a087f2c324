import Mathlib.Data.List.Sort
import ExchangeServer.Projector.OrderbookFold

/-!
# Snapshots of the order book and live deltas

The server reads a snapshot in three separate queries: the sequence of the
book, its bids, its asks. Deltas that are projected in between are in the levels
but not in the sequence, so a client that goes on from the sequence applies them
a second time, to levels that have them already.

## Main definitions

- `getOrderbookSnapshot`: a snapshot of three states of the database
- `catchUp`: what a client makes of a snapshot and the deltas it holds
- `snapshot_catches_up`: the result is the stored book, wherever the reads fall
-/

namespace Projector

open Protocol Relational Transactional Program LastWriter

/-! ## The server -/

structure OrderBookSnapshot where
  marketId : ℤ
  engineSequence : ℤ
  engineTimestampMs : ℤ
  bids : List OrderBookLevel
  asks : List OrderBookLevel
  deriving DecidableEq

/-- `WHERE market_id=$1 AND side=..`. -/
def levelRows (d : ProjectorDb) (marketId : ℤ) (side : BookSide) : List OrderbookLevelRow :=
  d.orderbookLevels.rows.filter fun row => row.marketId = marketId ∧ row.side = side

/-- `ORDER BY price DESC` for bids and `ASC` for asks. -/
def orderByPrice : BookSide → List OrderbookLevelRow → List OrderbookLevelRow
  | .BID => List.insertionSort fun row row' => row'.price ≤ row.price
  | .ASK => List.insertionSort fun row row' => row.price ≤ row'.price

/-- The answer to the query of a side; a negative `LIMIT` is refused. -/
def getLevels (d : ProjectorDb) (marketId : ℤ) (side : BookSide) (depth : ℤ) :
    Option (List OrderBookLevel) :=
  if depth < 0 then none
  else
    some (((orderByPrice side (levelRows d marketId side)).take depth.toNat).map fun row =>
      { price := row.price, quantity := row.quantity })

/-- A snapshot whose three queries see three states of the database. -/
def getOrderbookSnapshot (marketId depth : ℤ) (atState atBids atAsks : ProjectorDb) :
    Option OrderBookSnapshot := do
  let state := atState.orderbookState.find? marketId
  let bids ← getLevels atBids marketId .BID depth
  let asks ← getLevels atAsks marketId .ASK depth
  return {
    marketId
    engineSequence := (state.map OrderbookStateRow.engineSequence).getD 0
    engineTimestampMs := (state.map OrderbookStateRow.engineTimestampMs).getD 0
    bids
    asks }

/-! ## The client -/

/-- A book of one market: the quantity of each level there is. -/
abbrev Book := BookSide × ℤ → Option ℤ

/-- A quantity that is not positive removes the level. -/
def storedQuantity (quantity : ℤ) : Option ℤ := if quantity ≤ 0 then none else some quantity

def setOrRemove (side : BookSide) (book : Book) (level : OrderBookLevel) : Book :=
  Function.update book (side, level.price) (storedQuantity level.quantity)

def applyDelta (book : Book) (event : OrderBookDelta) : Book :=
  event.asks.foldl (setOrRemove .ASK) (event.bids.foldl (setOrRemove .BID) book)

/-- The book of a snapshot. -/
def OrderBookSnapshot.book (snapshot : OrderBookSnapshot) : Book := fun key =>
  quantityAt (match key.1 with | .BID => snapshot.bids | .ASK => snapshot.asks) key.2

/-- The snapshot with the deltas that are newer. -/
def catchUp (snapshot : OrderBookSnapshot) (deltas : List OrderBookDelta) : Book :=
  (deltas.filter fun event => snapshot.engineSequence < event.engineSequence).foldl applyDelta
    snapshot.book

/-- The stored book of a market. -/
def ProjectorDb.book (d : ProjectorDb) (marketId : ℤ) : Book := fun key =>
  (d.level (marketId, key)).map Prod.fst

/-! ## Levels that are read -/

section Levels

variable {d : ProjectorDb} {marketId : ℤ} {side : BookSide}

theorem orderByPrice_perm (side : BookSide) (rows : List OrderbookLevelRow) :
    (orderByPrice side rows).Perm rows := by
  cases side
  · exact List.perm_insertionSort _ rows
  · exact List.perm_insertionSort _ rows

/-- The rows of a side have different prices. -/
theorem nodup_levelRows (d : ProjectorDb) (marketId : ℤ) (side : BookSide) :
    ((levelRows d marketId side).map OrderbookLevelRow.price).Nodup := by
  have hkeys : d.orderbookLevels.rows.Pairwise fun row row' => row.key ≠ row'.key :=
    List.pairwise_map.1 d.orderbookLevels.unique
  refine List.pairwise_map.2 ((hkeys.filter _).imp_of_mem fun {row row'} hrow hrow' hne hprice => ?_)
  simp only [levelRows, List.mem_filter, decide_eq_true_eq] at hrow hrow'
  apply hne
  rw [OrderbookLevelRow.key, OrderbookLevelRow.key, hrow.2.1, hrow'.2.1, hrow.2.2, hrow'.2.2, hprice]

theorem quantityAt_eq_some_iff {levels : List OrderBookLevel}
    (hnodup : (levels.map OrderBookLevel.price).Nodup) {price quantity : ℤ} :
    quantityAt levels price = some quantity ↔ (⟨price, quantity⟩ : OrderBookLevel) ∈ levels := by
  induction levels with
  | nil => simp [quantityAt]
  | cons level levels ih =>
    rw [List.map_cons, List.nodup_cons] at hnodup
    rw [quantityAt_cons, List.mem_cons]
    by_cases hprice : price = level.price
    · subst hprice
      rw [if_pos rfl, Option.some.injEq]
      constructor
      · rintro rfl
        exact .inl rfl
      · rintro (heq | hmem)
        · exact (congrArg OrderBookLevel.quantity heq).symm
        · exact absurd (List.mem_map.2 ⟨_, hmem, rfl⟩) hnodup.1
    · rw [if_neg hprice, ih hnodup.2]
      constructor
      · exact .inr
      · rintro (heq | hmem)
        · exact absurd (congrArg OrderBookLevel.price heq) hprice
        · exact hmem

/-- With enough depth the levels of a side are the stored ones. -/
theorem getLevels_of_depth {depth : ℤ} (h : ((levelRows d marketId side).length : ℤ) ≤ depth) :
    ∃ levels, getLevels d marketId side depth = some levels ∧
      ∀ price, quantityAt levels price = d.book marketId (side, price) := by
  have hdepth : ¬depth < 0 := by omega
  have hlength : (orderByPrice side (levelRows d marketId side)).length ≤ depth.toNat := by
    rw [(orderByPrice_perm side _).length_eq]
    omega
  refine ⟨_, if_neg hdepth, fun price => ?_⟩
  rw [List.take_of_length_le hlength]
  have hperm := (orderByPrice_perm side (levelRows d marketId side)).map fun row =>
    (⟨row.price, row.quantity⟩ : OrderBookLevel)
  have hnodup : (((orderByPrice side (levelRows d marketId side)).map fun row =>
      (⟨row.price, row.quantity⟩ : OrderBookLevel)).map OrderBookLevel.price).Nodup := by
    rw [(hperm.map OrderBookLevel.price).nodup_iff, List.map_map]
    exact nodup_levelRows d marketId side
  ext quantity
  rw [quantityAt_eq_some_iff hnodup, hperm.mem_iff, List.mem_map]
  rw [ProjectorDb.book, ProjectorDb.level, Option.map_map, Option.map_eq_some_iff]
  constructor
  · rintro ⟨row, hrow, hlevel⟩
    simp only [levelRows, List.mem_filter, decide_eq_true_eq] at hrow
    obtain ⟨hmem, hmarket, hside⟩ := hrow
    have hprice : row.price = price := congrArg OrderBookLevel.price hlevel
    have hkey : row.key = (marketId, side, price) := by
      rw [OrderbookLevelRow.key, hmarket, hside, hprice]
    exact ⟨row, hkey ▸ Table.find?_of_mem hmem, congrArg OrderBookLevel.quantity hlevel⟩
  · rintro ⟨row, hrow, rfl⟩
    have hkey : row.key = (marketId, side, price) := Table.key_of_find? hrow
    refine ⟨row, ?_, ?_⟩
    · simp only [levelRows, List.mem_filter, decide_eq_true_eq]
      exact ⟨Table.mem_of_find? hrow, congrArg Prod.fst hkey, congrArg (fun k => k.2.1) hkey⟩
    · exact congrArg (fun p => (⟨p, row.quantity⟩ : OrderBookLevel)) (congrArg (fun k => k.2.2) hkey)

end Levels

/-! ## Deltas that are applied -/

section Client

/-- The levels of a side override the book. -/
private theorem foldl_setOrRemove {side : BookSide} {levels : List OrderBookLevel}
    (hnodup : (levels.map OrderBookLevel.price).Nodup) (book : Book) (key : BookSide × ℤ) :
    levels.foldl (setOrRemove side) book key =
      if key.1 = side then
        match quantityAt levels key.2 with
        | some quantity => storedQuantity quantity
        | none => book key
      else book key := by
  induction levels generalizing book with
  | nil =>
    rw [List.foldl_nil]
    split <;> rfl
  | cons level levels ih =>
    rw [List.map_cons, List.nodup_cons] at hnodup
    rw [List.foldl_cons, ih hnodup.2, quantityAt_cons]
    obtain ⟨side', price⟩ := key
    by_cases hside : side' = side
    · subst hside
      by_cases hprice : price = level.price
      · subst hprice
        simp [quantityAt_eq_none hnodup.1, setOrRemove]
      · simp [hprice, setOrRemove]
    · simp [hside, setOrRemove]

/-- A delta overrides the levels it names. -/
theorem applyDelta_apply {event : OrderBookDelta} (hnames : NamesOnce event) (book : Book)
    (key : BookSide × ℤ) :
    applyDelta book event key =
      match named event key with
      | some quantity => storedQuantity quantity
      | none => book key := by
  rw [applyDelta, foldl_setOrRemove hnames.2, foldl_setOrRemove hnames.1]
  obtain ⟨side, price⟩ := key
  cases side <;> simp [named, sideLevels]

/-- After some deltas a level is what the last delta that names it tells of it. -/
theorem foldl_applyDelta {deltas : List OrderBookDelta} (hnames : ∀ event ∈ deltas, NamesOnce event)
    (book : Book) (key : BookSide × ℤ) :
    deltas.foldl applyDelta book key =
      match latest named deltas key with
      | some last => storedQuantity last.2
      | none => book key := by
  induction deltas using List.reverseRecOn with
  | nil => rfl
  | append_singleton deltas event ih =>
    have hevent := hnames event (List.mem_append_right _ (List.mem_singleton_self event))
    rw [List.foldl_append, List.foldl_cons, List.foldl_nil, applyDelta_apply hevent, latest_append,
      ih fun e he => hnames e (List.mem_append_left _ he)]
    cases named event key with
    | none => rfl
    | some quantity => rfl

/-- The stored book in terms of the deltas that were seen. -/
theorem IsFold.book {d : ProjectorDb} {seen : List OrderBookDelta} (h : IsFold d seen) (marketId : ℤ)
    (key : BookSide × ℤ) : d.book marketId key =
      (latest named (advancing OrderBookDelta.engineSequence (ofMarket marketId seen)) key).bind
        fun last => storedQuantity last.2 := by
  obtain ⟨side, price⟩ := key
  rw [ProjectorDb.book, h.levels, bookOf]
  cases latest named (advancing OrderBookDelta.engineSequence (ofMarket marketId seen))
      (side, price) with
  | none => rfl
  | some last =>
    change (levelWith last.2 last.1.engineSequence).map Prod.fst = storedQuantity last.2
    rw [levelWith, storedQuantity]
    by_cases hpositive : 0 < last.2
    · rw [if_pos hpositive, if_neg (not_le.2 hpositive)]
      rfl
    · rw [if_neg hpositive, if_pos (not_lt.1 hpositive)]
      rfl

end Client

/-! ## Commits between the reads -/

/-- The data after some deltas. -/
def afterDeltas (d : ProjectorDb) (records : List DeltaRecord) : ProjectorDb :=
  (projectDeltas d records).1

/-- The deltas that were committed. -/
def committedDeltas (d : ProjectorDb) (records : List DeltaRecord) : List OrderBookDelta :=
  (projectDeltas d records).2

theorem committedDeltas_append (d : ProjectorDb) (records records' : List DeltaRecord) :
    committedDeltas d (records ++ records') =
      committedDeltas d records ++ committedDeltas (afterDeltas d records) records' := by
  induction records generalizing d with
  | nil => rfl
  | cons record records ih =>
    rw [committedDeltas, List.cons_append, projectDeltas, committedDeltas, afterDeltas,
      projectDeltas]
    split
    · next d' hproject =>
      exact congrArg (record.event :: ·) (ih d')
    · next e d' hproject =>
      exact ih d'

/-- Every committed delta names its levels once when every delta does. -/
theorem namesOnce_of_committed {d : ProjectorDb} {records : List DeltaRecord}
    (hnames : ∀ record ∈ records, NamesOnce record.event) {event : OrderBookDelta}
    (hevent : event ∈ committedDeltas d records) : NamesOnce event := by
  induction records generalizing d with
  | nil => cases hevent
  | cons record records ih =>
    have hrest : ∀ record ∈ records, NamesOnce record.event :=
      fun record hrecord => hnames record (List.mem_cons_of_mem _ hrecord)
    rw [committedDeltas, projectDeltas] at hevent
    split at hevent
    · next d' hproject =>
      rcases List.mem_cons.1 hevent with rfl | hevent
      · exact hnames record List.mem_cons_self
      · exact ih hrest hevent
    · next e d' hproject =>
      exact ih hrest hevent

theorem ofMarket_append (marketId : ℤ) (deltas deltas' : List OrderBookDelta) :
    ofMarket marketId (deltas ++ deltas') = ofMarket marketId deltas ++ ofMarket marketId deltas' :=
  List.filter_append _ _

section Reads

variable {d : ProjectorDb} {seen : List OrderBookDelta} {marketId : ℤ}

/-- A delta that was seen has a positive sequence. -/
theorem IsFold.sequence_pos (h : IsFold d seen) {event : OrderBookDelta}
    (hevent : event ∈ ofMarket marketId seen) : 0 < event.engineSequence := by
  have hseen : d.SeenDelta marketId event.engineSequence := (h.events _ _).2 ⟨event, hevent, rfl⟩
  obtain ⟨row, hrow⟩ := Option.isSome_iff_exists.1 hseen
  have hkey : row.engineSequence = event.engineSequence :=
    congrArg Prod.snd (Table.key_of_find? hrow)
  rw [← hkey]
  exact row.check.1

/-- A delta is newer than all that were seen exactly when it is newer than the
sequence of the book, which a snapshot gives as 0 when there is none. -/
theorem IsFold.newer_iff (h : IsFold d seen) {event : OrderBookDelta}
    (hpos : 0 < event.engineSequence) :
    (∀ earlier ∈ ofMarket marketId seen, earlier.engineSequence < event.engineSequence) ↔
      (d.bookSequence marketId).getD 0 < event.engineSequence := by
  cases hbook : d.bookSequence marketId with
  | none =>
    rw [h.known marketId hbook]
    exact ⟨fun _ => hpos, fun _ _ hmem => absurd hmem List.not_mem_nil⟩
  | some sequence =>
    obtain ⟨⟨last, hlast, hsequence⟩, hmax⟩ := (h.sequence marketId sequence).1 hbook
    constructor
    · intro hall
      exact hsequence ▸ hall last hlast
    · intro hlt earlier hearlier
      exact (hmax earlier hearlier).trans_lt hlt

/-- The deltas of a market that are newer than its stored book. -/
def newerDeltas (d : ProjectorDb) (marketId : ℤ) (deltas : List OrderBookDelta) :
    List OrderBookDelta :=
  (ofMarket marketId deltas).filter fun event =>
    (d.bookSequence marketId).getD 0 < event.engineSequence

/-- The book after increasing deltas: the newer ones override what was stored. -/
theorem IsFold.book_after (h : IsFold d seen) {records : List DeltaRecord}
    (hnames : ∀ record ∈ records, NamesOnce record.event)
    (hincreasing : (ofMarket marketId (committedDeltas d records)).Pairwise
      fun event event' => event.engineSequence < event'.engineSequence) (key : BookSide × ℤ) :
    (afterDeltas d records).book marketId key =
      match latest named (newerDeltas d marketId (committedDeltas d records)) key with
      | some last => storedQuantity last.2
      | none => d.book marketId key := by
  have hafter : IsFold (afterDeltas d records) (seen ++ committedDeltas d records) :=
    h.projectDeltas hnames
  have hpos : ∀ event ∈ ofMarket marketId (committedDeltas d records), 0 < event.engineSequence := by
    intro event hevent
    have hmem : event ∈ ofMarket marketId (seen ++ committedDeltas d records) := by
      rw [ofMarket_append]
      exact List.mem_append_right _ hevent
    exact hafter.sequence_pos hmem
  have hnewer : ((ofMarket marketId (committedDeltas d records)).filter fun event =>
      ∀ earlier ∈ ofMarket marketId seen, earlier.engineSequence < event.engineSequence) =
        newerDeltas d marketId (committedDeltas d records) := by
    refine List.filter_congr fun event hevent => ?_
    exact decide_eq_decide.2 (h.newer_iff (hpos event hevent))
  rw [hafter.book, ofMarket_append, advancing_append_of_increasing _ hincreasing, hnewer,
    latest_append_list, h.book]
  cases latest named (newerDeltas d marketId (committedDeltas d records)) key with
  | none => rfl
  | some last => rfl

/-- A side that is read later has the newer deltas up to then, and applying them
again changes nothing. -/
theorem IsFold.reapply (h : IsFold d seen) {records records' : List DeltaRecord}
    (hnames : ∀ record ∈ records ++ records', NamesOnce record.event)
    (hincreasing : (ofMarket marketId (committedDeltas d (records ++ records'))).Pairwise
      fun event event' => event.engineSequence < event'.engineSequence) (key : BookSide × ℤ) :
    (match latest named (newerDeltas d marketId (committedDeltas d (records ++ records'))) key with
      | some last => storedQuantity last.2
      | none => (afterDeltas d records).book marketId key) =
      (afterDeltas d (records ++ records')).book marketId key := by
  rw [h.book_after hnames hincreasing]
  cases hlatest : latest named
      (newerDeltas d marketId (committedDeltas d (records ++ records'))) key with
  | some last => rfl
  | none =>
    rw [committedDeltas_append, ofMarket_append] at hincreasing
    have hfirst := (List.pairwise_append.1 hincreasing).1
    -- No newer delta names the level, so none has changed it before the read.
    have hnone : latest named (newerDeltas d marketId (committedDeltas d records)) key = none := by
      rw [latest_eq_none_iff] at hlatest ⊢
      intro event hevent
      refine hlatest event ?_
      rw [committedDeltas_append, newerDeltas, ofMarket_append, List.filter_append]
      exact List.mem_append_left _ hevent
    have hnames' : ∀ record ∈ records, NamesOnce record.event :=
      fun record hrecord => hnames record (List.mem_append_left _ hrecord)
    dsimp only
    rw [h.book_after hnames' hfirst, hnone]

end Reads

theorem afterDeltas_append (d : ProjectorDb) (records records' : List DeltaRecord) :
    afterDeltas d (records ++ records') = afterDeltas (afterDeltas d records) records' := by
  induction records generalizing d with
  | nil => rfl
  | cons record records ih =>
    rw [afterDeltas, List.cons_append, projectDeltas, afterDeltas, afterDeltas, projectDeltas]
    split
    · next d' hproject => exact ih d'
    · next e d' hproject => exact ih d'

/-- A client that holds the deltas of a market, which are projected before, between
and after the three queries of a snapshot, and applies the newer ones to it ends
with the stored book. -/
theorem snapshot_catches_up (d : ProjectorDb) (hempty : d.NoBook) (earlier : List DeltaRecord)
    (beforeState beforeBids beforeAsks later : List DeltaRecord)
    (hearlier : ∀ record ∈ earlier, NamesOnce record.event)
    (hnames : ∀ record ∈ beforeState ++ (beforeBids ++ (beforeAsks ++ later)),
      NamesOnce record.event) (marketId depth : ℤ) :
    let start := afterDeltas d earlier
    let atState := afterDeltas start beforeState
    let atBids := afterDeltas atState beforeBids
    let atAsks := afterDeltas atBids beforeAsks
    let deltas := ofMarket marketId
      (committedDeltas start (beforeState ++ (beforeBids ++ (beforeAsks ++ later))))
    (deltas.Pairwise fun event event' => event.engineSequence < event'.engineSequence) →
    ((levelRows atBids marketId .BID).length : ℤ) ≤ depth →
    ((levelRows atAsks marketId .ASK).length : ℤ) ≤ depth →
    ∃ snapshot, getOrderbookSnapshot marketId depth atState atBids atAsks = some snapshot ∧
      catchUp snapshot deltas = (afterDeltas atAsks later).book marketId := by
  intro start atState atBids atAsks deltas hincreasing hbidDepth haskDepth
  have hstart : IsFold start (committedDeltas d earlier) := by
    have hfold := (isFold_nil hempty).projectDeltas hearlier
    rwa [List.nil_append] at hfold
  have hstate : IsFold atState (committedDeltas d earlier ++ committedDeltas start beforeState) :=
    hstart.projectDeltas fun record hrecord => hnames record (List.mem_append_left _ hrecord)
  have hrest : ∀ record ∈ beforeBids ++ (beforeAsks ++ later), NamesOnce record.event :=
    fun record hrecord => hnames record (List.mem_append_right _ hrecord)
  obtain ⟨bids, hbids, hbidBook⟩ := getLevels_of_depth hbidDepth
  obtain ⟨asks, hasks, haskBook⟩ := getLevels_of_depth haskDepth
  let snapshot : OrderBookSnapshot := {
    marketId
    engineSequence :=
      ((atState.orderbookState.find? marketId).map OrderbookStateRow.engineSequence).getD 0
    engineTimestampMs :=
      ((atState.orderbookState.find? marketId).map OrderbookStateRow.engineTimestampMs).getD 0
    bids
    asks }
  have hsnapshot : getOrderbookSnapshot marketId depth atState atBids atAsks = some snapshot := by
    rw [getOrderbookSnapshot, hbids, hasks]
    rfl
  refine ⟨snapshot, hsnapshot, ?_⟩
  have hdeltas : deltas = ofMarket marketId (committedDeltas start beforeState) ++
      ofMarket marketId (committedDeltas atState (beforeBids ++ (beforeAsks ++ later))) := by
    change ofMarket marketId (committedDeltas start _) = _
    rw [committedDeltas_append, ofMarket_append]
  have hlater : (ofMarket marketId (committedDeltas atState
      (beforeBids ++ (beforeAsks ++ later)))).Pairwise
        fun event event' => event.engineSequence < event'.engineSequence := by
    rw [hdeltas] at hincreasing
    exact (List.pairwise_append.1 hincreasing).2.1
  -- What was projected before the first query is not newer than the snapshot.
  have happlied : (deltas.filter fun event => snapshot.engineSequence < event.engineSequence) =
      newerDeltas atState marketId
        (committedDeltas atState (beforeBids ++ (beforeAsks ++ later))) := by
    rw [hdeltas, List.filter_append]
    have hold : ((ofMarket marketId (committedDeltas start beforeState)).filter fun event =>
        snapshot.engineSequence < event.engineSequence) = [] := by
      refine List.filter_eq_nil_iff.2 fun event hevent hnewer => ?_
      have hseen : event ∈ ofMarket marketId
          (committedDeltas d earlier ++ committedDeltas start beforeState) := by
        rw [ofMarket_append]
        exact List.mem_append_right _ hevent
      have hlt := (hstate.newer_iff (hstate.sequence_pos hseen)).2 (of_decide_eq_true hnewer)
      exact lt_irrefl _ (hlt event hseen)
    rw [hold, List.nil_append]
    rfl
  have hmember : ∀ event ∈ newerDeltas atState marketId
      (committedDeltas atState (beforeBids ++ (beforeAsks ++ later))), NamesOnce event := by
    intro event hevent
    have hcommitted := List.mem_of_mem_filter (List.mem_of_mem_filter hevent)
    exact namesOnce_of_committed hrest hcommitted
  have hfinal : afterDeltas atAsks later =
      afterDeltas atState (beforeBids ++ (beforeAsks ++ later)) := by
    rw [afterDeltas_append, afterDeltas_append]
  have hatAsks : atAsks = afterDeltas atState (beforeBids ++ beforeAsks) := by
    rw [afterDeltas_append]
  funext key
  rw [catchUp, happlied, foldl_applyDelta hmember, hfinal]
  obtain ⟨side, price⟩ := key
  -- Each side was read at a time of its own, and what came before is applied again.
  cases side with
  | BID =>
    refine Eq.trans ?_ (hstate.reapply hrest hlater (.BID, price))
    rw [show snapshot.book (.BID, price) = _ from hbidBook price]
  | ASK =>
    rw [← List.append_assoc] at hrest hlater ⊢
    refine Eq.trans ?_ (hstate.reapply hrest hlater (.ASK, price))
    rw [show snapshot.book (.ASK, price) = _ from haskBook price, hatAsks]

/-- A delta of market 7 on both sides as it is read from the log. -/
def bothSides (engineSequence bid ask : ℤ) : DeltaRecord where
  event := { bidDelta engineSequence 100 bid with asks := [⟨101, ask⟩] }
  topic := "engine.events"
  partition := 0
  nextOffset := engineSequence

/-- The asks of the snapshot have the third delta, its sequence is that of the first. -/
theorem snapshot_catches_up_between :
    let atState := afterDeltas bidMarkets [bothSides 1 10 5]
    let atBids := afterDeltas atState [bothSides 2 8 0]
    let atAsks := afterDeltas atBids [bothSides 3 0 6]
    ∃ snapshot, getOrderbookSnapshot 7 50 atState atBids atAsks = some snapshot ∧
      catchUp snapshot (ofMarket 7 (committedDeltas bidMarkets
        [bothSides 1 10 5, bothSides 2 8 0, bothSides 3 0 6, bothSides 4 7 2])) =
          (afterDeltas atAsks [bothSides 4 7 2]).book 7 :=
  snapshot_catches_up bidMarkets ⟨rfl, rfl, rfl⟩ [] [bothSides 1 10 5] [bothSides 2 8 0]
    [bothSides 3 0 6] [bothSides 4 7 2] (by decide) (by decide) 7 50 (by decide) (by decide)
    (by decide)

end Projector
