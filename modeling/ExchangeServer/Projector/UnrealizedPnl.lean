import ExchangeServer.Projector.Frames
import ExchangeServer.Projector.SignedPositions

/-!
# Unrealized results are current

Every open position carries the result it would have at the last traded price of
its market. The operations on positions do not keep this by themselves; the
projection of a trade marks all positions of its market afterwards, and touches
no others.

## Main results

- `touches_projectPositionForFillInTx`: a fill touches positions of its market only
- `eval_refreshPositionPnl`: what marking does
- `unrealizedPnl_is_current`: the invariant over runs of trades
-/

namespace Projector

open Protocol Relational Transactional Program

/-- Only positions of a market may be new or changed. -/
structure Touches (marketId : ℤ) (d d' : ProjectorDb) : Prop where
  markets : d'.markets = d.markets
  positions : ∀ row ∈ d'.positions.rows, row ∈ d.positions.rows ∨ row.marketId = marketId

/-- A position shows the result at a price. -/
def PositionRow.MarkedAt (row : PositionRow) (price : ℤ) : Prop :=
  row.unrealizedPnl = Projector.unrealizedPnl row.side row.averagePrice price row.quantity

/-- Every position shows the result at the last traded price of its market. -/
def MarkedToMarket (d : ProjectorDb) : Prop :=
  ∀ row ∈ d.positions.rows, ∃ market, d.markets.find? row.marketId = some market ∧
    row.MarkedAt market.lastTradedPrice

/-! ## Fills -/

theorem Touches.refl (marketId : ℤ) (d : ProjectorDb) : Touches marketId d d :=
  ⟨rfl, fun _ => .inl⟩

theorem Touches.trans {marketId : ℤ} {a b c : ProjectorDb} (h : Touches marketId a b)
    (h' : Touches marketId b c) : Touches marketId a c := by
  refine ⟨h'.markets.trans h.markets, fun row hrow => ?_⟩
  rcases h'.positions row hrow with hrow | hmarket
  · exact h.positions row hrow
  · exact .inr hmarket

/-- The write leaves the markets, and the positions of other markets, as they are. -/
def Write.Touches (marketId : ℤ) : Write → Prop
  | putMarket _ => False
  | putPosition row => row.marketId = marketId
  | _ => True

theorem touches_write {marketId : ℤ} {w : Write} (h : w.Touches marketId) (d : ProjectorDb) :
    Touches marketId d (d.write w) := by
  cases w with
  | putMarket row => exact h.elim
  | putPosition row =>
    refine ⟨rfl, fun x hx => ?_⟩
    rcases Indexed.mem_put_cases hx with rfl | hx
    · exact .inr h
    · exact .inl hx
  | deletePosition positionId => exact ⟨rfl, fun x hx => .inl (Table.mem_erase.1 hx).1⟩
  | _ => exact ⟨rfl, fun _ => .inl⟩

theorem touches_view {marketId : ℤ} {ws : List Write} (h : ∀ w ∈ ws, w.Touches marketId)
    (d : ProjectorDb) : Touches marketId d (view ws d) := by
  induction ws generalizing d with
  | nil => exact .refl marketId d
  | cons w ws ih =>
    have hw : Touches marketId d (d.write w) := touches_write (h w List.mem_cons_self) d
    exact hw.trans (ih (fun x hx => h x (List.mem_cons_of_mem w hx)) _)

section Fills

variable {d d' : ProjectorDb} {context : StoredOrderContext} {row : PositionRow}
  {orderId fillId price quantity initialMargin engineTimestampMs : ℤ}

theorem touches_insertOpenPositionInTx
    (h : (insertOpenPositionInTx context orderId fillId quantity price initialMargin
      engineTimestampMs).eval d = .ok ((), d')) : Touches context.marketId d d' := by
  have hwrites : (insertOpenPositionInTx context orderId fillId quantity price initialMargin
      engineTimestampMs).Writes (Write.Touches context.marketId) := by
    refine writes_bind (writes_perform fun v b ws hs w hw => ?_) fun positionId =>
      writes_bind (writes_perform fun v b ws hs w hw => ?_) fun _ =>
        writes_perform fun v b ws hs w hw => ?_
    · cases hs
      rw [List.mem_singleton.1 hw]
      trivial
    · change insertPosition _ _ _ _ _ _ _ v = _ at hs
      unfold insertPosition at hs
      split at hs
      · simp only at hs
        split at hs
        · cases hs
          rw [List.mem_singleton.1 hw]
          rfl
        · cases hs
      · cases hs
    · change insertPositionFill _ _ v = _ at hs
      unfold insertPositionFill at hs
      split at hs
      · cases hs
        rw [List.mem_singleton.1 hw]
        trivial
      · cases hs
  obtain ⟨ws, hws, rfl⟩ := eval_of_writes hwrites h
  exact touches_view hws d

/-- A new version of a stored position. -/
theorem touches_updatePosition {averagePrice : Option ℤ} (hrow : row ∈ d.positions.rows)
    (h : (execute (updatePosition row.positionId quantity initialMargin averagePrice)).eval d =
      .ok ((), d')) : Touches row.marketId d d' := by
  have hfind : d.positions.find? row.positionId = some row := Table.find?_of_mem hrow
  obtain ⟨ws, hs, rfl⟩ := eval_execute_eq_ok h
  refine touches_view (fun w hw => ?_) d
  simp only [updatePosition, hfind] at hs
  split at hs
  · cases hs
    rw [List.mem_singleton.1 hw]
    rfl
  · cases hs

/-- The closed position and its link are no positions. -/
theorem same_insertClosedPositionInTx {position : StoredPosition} {closeReason : CloseType}
    {closedPositionId : ℤ}
    (h : (insertClosedPositionInTx position context orderId fillId quantity price initialMargin
      engineTimestampMs closeReason).eval d = .ok (closedPositionId, d')) :
    d'.positions = d.positions ∧ d'.markets = d.markets := by
  obtain ⟨positionId, v, hdraw, h⟩ := eval_bind_eq_ok h
  obtain ⟨_, v', hinsert, h⟩ := eval_bind_eq_ok h
  obtain ⟨_, v'', hlink, h⟩ := eval_bind_eq_ok h
  cases h
  obtain ⟨ws, hs, rfl⟩ := eval_execute_eq_ok hdraw
  cases hs
  obtain ⟨ws, hs, rfl⟩ := eval_execute_eq_ok hinsert
  unfold insertClosedPosition at hs
  split at hs
  · simp only at hs
    split at hs
    · cases hs
      obtain ⟨ws, hs, rfl⟩ := eval_execute_eq_ok hlink
      unfold insertClosedPositionFill at hs
      split at hs
      · cases hs
        exact ⟨rfl, rfl⟩
      · cases hs
    · cases hs
  · cases hs

theorem touches_reduceOrReversePositionInTx {executionReason : ExecutionReason}
    (hrow : row ∈ d.positions.rows) (hmarket : row.marketId = context.marketId)
    (h : (reduceOrReversePositionInTx row.stored context orderId fillId price quantity
      engineTimestampMs executionReason).eval d = .ok ((), d')) :
    Touches context.marketId d d' := by
  obtain ⟨closedPositionId, v, hclosed, h⟩ := eval_bind_eq_ok h
  obtain ⟨hpositions, hmarkets⟩ := same_insertClosedPositionInTx hclosed
  have hsame : Touches context.marketId d v :=
    ⟨hmarkets, fun x hx => .inl (hpositions ▸ hx)⟩
  split at h
  · have hkept : row ∈ v.positions.rows := hpositions ▸ hrow
    exact hsame.trans (hmarket ▸ touches_updatePosition hkept h)
  · obtain ⟨_, v₁, htransfer, h⟩ := eval_bind_eq_ok h
    obtain ⟨_, v₂, hdelete, h⟩ := eval_bind_eq_ok h
    have htransferred : Touches context.marketId v v₁ := by
      obtain ⟨ws, hs, rfl⟩ := eval_execute_eq_ok htransfer
      refine touches_view (fun w hw => ?_) v
      unfold copyPositionFills at hs
      simp only at hs
      split at hs
      · cases hs
        obtain ⟨link, -, rfl⟩ := List.mem_map.1 hw
        trivial
      · cases hs
    have hdeleted : Touches context.marketId v₁ v₂ := by
      obtain ⟨ws, hs, rfl⟩ := eval_execute_eq_ok hdelete
      cases hs
      exact touches_view (by simp [Write.Touches]) v₁
    refine hsame.trans (htransferred.trans (hdeleted.trans ?_))
    simp only at h
    split at h
    · exact touches_insertOpenPositionInTx h
    · cases h
      exact .refl _ _

/-- A fill touches positions of its market only. -/
theorem touches_projectPositionForFillInTx {executionReason : ExecutionReason}
    (h : (projectPositionForFillInTx context orderId fillId price quantity engineTimestampMs
      executionReason).eval d = .ok ((), d')) : Touches context.marketId d d' := by
  unfold projectPositionForFillInTx loadPositionForUpdateInTx at h
  rw [eval_bind_ok (eval_query _ _)] at h
  cases hposition : d.position context.userId context.marketId with
  | none =>
    simp only [hposition, Option.map_none] at h
    split at h
    · cases h
      exact .refl _ _
    · exact touches_insertOpenPositionInTx h
  | some row =>
    obtain ⟨hrow, howner⟩ := position_eq_some_iff.1 hposition
    have hmarket : row.marketId = context.marketId := congrArg Prod.snd howner
    simp only [hposition, Option.map_some] at h
    split at h
    · cases h
      exact .refl _ _
    · split at h
      · obtain ⟨_, v, hupdate, hlink⟩ := eval_bind_eq_ok h
        have hupdated : Touches context.marketId d v :=
          hmarket ▸ touches_updatePosition hrow hupdate
        refine hupdated.trans ?_
        obtain ⟨ws, hs, rfl⟩ := eval_execute_eq_ok hlink
        unfold insertPositionFill at hs
        split at hs
        · cases hs
          exact touches_view (by simp [Write.Touches]) v
        · cases hs
      · exact touches_reduceOrReversePositionInTx hrow hmarket h

end Fills

/-! ## Marks -/

/-- The version of a position that is marked to a price. -/
def PositionRow.mark (row : PositionRow) (price : ℤ) : PositionRow :=
  { row with unrealizedPnl := Projector.unrealizedPnl row.side row.averagePrice price row.quantity }

theorem mark_eq_mark {row row' : PositionRow} {price : ℤ} (h : row.mark price = row'.mark price) :
    row.positionId = row'.positionId ∧
      Projector.unrealizedPnl row.side row.averagePrice price row.quantity =
        Projector.unrealizedPnl row'.side row'.averagePrice price row'.quantity := by
  simp only [PositionRow.mark, PositionRow.mk.injEq] at h
  exact ⟨h.1, h.2.2.2.2.2.2.1⟩

/-- The positions after one has been marked. -/
theorem find?_mark {d : ProjectorDb} {row : PositionRow} (hrow : row ∈ d.positions.rows)
    (price positionId : ℤ) : (d.setPosition (row.mark price)).positions.find? positionId =
      (d.positions.find? positionId).map fun x =>
        if positionId = row.positionId then x.mark price else x := by
  have hadmits : d.positions.Admits (row.mark price) := admits_version hrow rfl rfl
  unfold ProjectorDb.setPosition
  simp only [Indexed.toTable_put hadmits, Table.find?_upsert]
  by_cases hid : positionId = row.positionId
  · subst hid
    have hkey : row.positionId = (row.mark price).positionId := rfl
    rw [Table.find?_of_mem hrow, if_pos hkey]
    exact (congrArg some (if_pos rfl)).symm
  · have hne : ¬positionId = (row.mark price).positionId := hid
    simp [hid, hne]

/-- Marking stored positions one after the other is marking them all. -/
theorem eval_refreshPositionPnl (price : ℤ) (rows : List PositionRow) {d : ProjectorDb}
    (hrows : ∀ row ∈ rows, ∃ stored, d.positions.find? row.positionId = some stored ∧
      stored.mark price = row.mark price) :
    ∃ d', (refreshPositionPnl price rows).eval d = .ok ((), d') ∧ d'.markets = d.markets ∧
      ∀ positionId, d'.positions.find? positionId = (d.positions.find? positionId).map fun row =>
        if positionId ∈ rows.map PositionRow.positionId then row.mark price else row := by
  induction rows generalizing d with
  | nil => exact ⟨d, rfl, rfl, fun positionId => by simp⟩
  | cons row rows ih =>
    obtain ⟨stored, hfind, hsame⟩ := hrows row List.mem_cons_self
    have hstored : stored ∈ d.positions.rows := Table.mem_of_find? hfind
    obtain ⟨hid, hpnl⟩ := mark_eq_mark hsame
    have hupdate : updateUnrealizedPnl row.positionId
        (unrealizedPnl row.side row.averagePrice price row.quantity) d =
        .ok ((), [.putPosition (stored.mark price)]) := by
      rw [updateUnrealizedPnl, hfind, ← hpnl]
      rfl
    have hmark := find?_mark hstored price
    have hrest : ∀ x ∈ rows, ∃ y,
        (d.setPosition (stored.mark price)).positions.find? x.positionId = some y ∧
          y.mark price = x.mark price := by
      intro x hx
      obtain ⟨y, hy, hyx⟩ := hrows x (List.mem_cons_of_mem row hx)
      rw [hmark, hy]
      refine ⟨_, rfl, ?_⟩
      split
      · exact hyx
      · exact hyx
    obtain ⟨d', heval, hmarkets, hd'⟩ := ih hrest
    refine ⟨d', (eval_bind_ok (eval_execute hupdate)).trans heval, hmarkets, fun positionId => ?_⟩
    rw [hd', hmark, Option.map_map]
    refine congrArg (fun f => Option.map f _) (funext fun x => ?_)
    simp only [Function.comp_apply, hid, List.map_cons, List.mem_cons]
    by_cases hhead : positionId = row.positionId
    · simp only [hhead, if_true, true_or]
      split <;> rfl
    · simp only [hhead, if_false, false_or]

/-- All positions of a market are marked, and no others change. -/
theorem eval_refreshPositionPnlForMarketInTx_marks (marketId price : ℤ) (d : ProjectorDb) :
    ∃ d', (refreshPositionPnlForMarketInTx marketId price).eval d = .ok ((), d') ∧
      d'.markets = d.markets ∧ ∀ row' ∈ d'.positions.rows, ∃ row ∈ d.positions.rows,
        row' = if row.marketId = marketId then row.mark price else row := by
  let rows := d.positions.rows.filter fun row => row.marketId = marketId
  have hstored : ∀ row ∈ rows, ∃ stored, d.positions.find? row.positionId = some stored ∧
      stored.mark price = row.mark price :=
    fun row hrow => ⟨row, Table.find?_of_mem (List.mem_filter.1 hrow).1, rfl⟩
  obtain ⟨d', heval, hmarkets, hd'⟩ := eval_refreshPositionPnl price rows hstored
  refine ⟨d', (eval_bind_ok (eval_query _ d)).trans heval, hmarkets, fun row' hrow' => ?_⟩
  have hfind := hd' row'.positionId
  rw [Table.find?_of_mem hrow'] at hfind
  obtain ⟨row, hrow, hmarked⟩ := Option.map_eq_some_iff.1 hfind.symm
  have hid := Table.key_of_find? hrow
  refine ⟨row, Table.mem_of_find? hrow, hmarked.symm.trans ?_⟩
  have hlisted : row'.positionId ∈ rows.map PositionRow.positionId ↔ row.marketId = marketId := by
    rw [← hid, List.mem_map]
    constructor
    · rintro ⟨x, hx, hxid⟩
      obtain ⟨hxmem, hxmarket⟩ := List.mem_filter.1 hx
      have hsame := Table.find?_of_mem hxmem
      rw [hxid, Table.find?_of_mem (Table.mem_of_find? hrow)] at hsame
      cases hsame
      exact of_decide_eq_true hxmarket
    · intro hmarket
      exact ⟨row, List.mem_filter.2 ⟨Table.mem_of_find? hrow, decide_eq_true hmarket⟩, rfl⟩
  simp only [hlisted]

/-! ## Trades -/

section Trades

variable {d d' : ProjectorDb} {event : TradeExecuted} {maker taker : StoredOrderContext}

/-- The projection of a new fill keeps all positions marked. -/
theorem markedToMarket_projectNewFill (hmarked : MarkedToMarket d)
    (hmarket : (d.markets.find? event.marketId).isSome) (hmaker : maker.marketId = event.marketId)
    (htaker : taker.marketId = event.marketId)
    (h : (projectNewFill event maker taker).eval d = .ok ((), d')) : MarkedToMarket d' := by
  obtain ⟨_, v₁, hprice, h⟩ := eval_bind_eq_ok h
  obtain ⟨_, v₂, hfill, h⟩ := eval_bind_eq_ok h
  obtain ⟨_, v₃, hfill', hrefresh⟩ := eval_bind_eq_ok h
  obtain ⟨market, hmarket⟩ := Option.isSome_iff_exists.1 hmarket
  have hpriced : v₁ = { d with
      markets := d.markets.upsert { market with lastTradedPrice := event.price } } := by
    obtain ⟨ws, hs, rfl⟩ := eval_execute_eq_ok hprice
    rw [updateLastTradedPrice, hmarket] at hs
    cases hs
    rfl
  have hmaker' := touches_projectPositionForFillInTx hfill
  have htaker' := touches_projectPositionForFillInTx hfill'
  rw [hmaker] at hmaker'
  rw [htaker] at htaker'
  have htouches : Touches event.marketId v₁ v₃ := hmaker'.trans htaker'
  obtain ⟨w, heval, hmarkets, hrows⟩ :=
    eval_refreshPositionPnlForMarketInTx_marks event.marketId event.price v₃
  obtain rfl : d' = w := by
    rw [hrefresh] at heval
    exact congrArg Prod.snd (Except.ok.inj heval)
  have hid : market.marketId = event.marketId := Table.key_of_find? hmarket
  have hfinal : d'.markets = d.markets.upsert { market with lastTradedPrice := event.price } := by
    rw [hmarkets, htouches.markets, hpriced]
  intro row' hrow'
  obtain ⟨row, hrow, rfl⟩ := hrows row' hrow'
  rw [hfinal]
  by_cases hrowMarket : row.marketId = event.marketId
  · rw [if_pos hrowMarket]
    refine ⟨{ market with lastTradedPrice := event.price }, ?_, rfl⟩
    have hkey : (row.mark event.price).marketId = market.marketId := hrowMarket.trans hid.symm
    rw [hkey]
    exact Table.find?_upsert_self _ _
  · rw [if_neg hrowMarket]
    -- A position of another market has not been touched, and its market neither.
    have hbefore : row ∈ d.positions.rows := by
      have hold := (htouches.positions row hrow).resolve_right hrowMarket
      rw [hpriced] at hold
      exact hold
    obtain ⟨stored, hstored, hmark⟩ := hmarked row hbefore
    refine ⟨stored, ?_, hmark⟩
    have hne : row.marketId ≠ market.marketId := fun heq => hrowMarket (heq.trans hid)
    rw [Table.find?_upsert, if_neg hne]
    exact hstored

theorem markedToMarket_of_same (hsame : SamePositions d d') (hmarked : MarkedToMarket d) :
    MarkedToMarket d' := by
  unfold MarkedToMarket
  rw [hsame.positions, hsame.markets]
  exact hmarked

/-- The contexts of both orders of a trade are for its market, whose row exists. -/
def OwnMarket (d : ProjectorDb) (event : TradeExecuted) : Prop :=
  (d.markets.find? event.marketId).isSome ∧
    ∀ contexts d', (loadTradeContextsInTx event).eval d = .ok (contexts, d') →
      contexts.1.marketId = event.marketId ∧ contexts.2.marketId = event.marketId

/-- The projection of a trade keeps all positions marked. -/
theorem markedToMarket_eval {topic : String} {partition nextOffset : ℤ}
    (hmarked : MarkedToMarket d) (hown : OwnMarket d event)
    (h : (projectTradeExecuted event topic partition nextOffset).eval d = .ok ((), d')) :
    MarkedToMarket d' := by
  obtain ⟨contexts, v, hload, htrade⟩ := eval_bind_eq_ok h
  obtain ⟨hmaker, htaker⟩ := hown.2 contexts v hload
  have hv : v = d := eq_of_inArea (fun area => inArea_loadTradeContextsInTx area event) hload
  obtain ⟨_, v₁, hstore, htrade⟩ := eval_bind_eq_ok htrade
  obtain ⟨insertedFill, v₂, hinsert, htrade⟩ := eval_bind_eq_ok htrade
  obtain ⟨_, v₃, hupdate, htrade⟩ := eval_bind_eq_ok htrade
  obtain ⟨_, v₄, hupdate', htrade⟩ := eval_bind_eq_ok htrade
  obtain ⟨_, v₅, hfill, htrade⟩ := eval_bind_eq_ok htrade
  obtain ⟨_, v₆, hoffset, hcommit⟩ := eval_bind_eq_ok htrade
  cases hcommit
  have horders : SamePositions d v₄ := by
    have hstored : SamePositions v v₁ := .of_writes (inArea_storeTradeOrders _ _ _) (by decide) hstore
    have hinserted : SamePositions v₁ v₂ := .of_writes (inArea_insertFill _ _ _) (by decide) hinsert
    have hupdated : SamePositions v₂ v₃ :=
      .of_writes (inArea_updateOrderAfterFillInTx _ _) (by decide) hupdate
    have hupdated' : SamePositions v₃ v₄ :=
      .of_writes (inArea_updateOrderAfterFillInTx _ _) (by decide) hupdate'
    exact hv ▸ ((hstored.trans hinserted).trans hupdated).trans hupdated'
  have hbefore : MarkedToMarket v₄ := markedToMarket_of_same horders hmarked
  have hafter : MarkedToMarket v₅ := by
    split at hfill
    · exact markedToMarket_projectNewFill hbefore (horders.markets ▸ hown.1) hmaker htaker hfill
    · cases hfill
      exact hbefore
  exact markedToMarket_of_same
    (.of_writes (inArea_saveQueueOffsetInTx _ _ _) (by decide) hoffset) hafter

/-- Trades are projected one after the other, each committing or not, and what
happens between them leaves positions and markets as they are. -/
inductive TradeRun (d : ProjectorDb) : ProjectorDb → Prop
  | start : TradeRun d d
  | other {v v' : ProjectorDb} (before : TradeRun d v) (same : SamePositions v v') : TradeRun d v'
  | trade {v : ProjectorDb} (before : TradeRun d v) (event : TradeExecuted) (topic : String)
      (partition nextOffset : ℤ) (own : OwnMarket v event) :
      TradeRun d ((projectTradeExecuted event topic partition nextOffset).run v v).2

/-- Stored unrealized results are always current. -/
theorem unrealizedPnl_is_current (hmarked : MarkedToMarket d) (hrun : TradeRun d d') :
    MarkedToMarket d' := by
  induction hrun with
  | start => exact hmarked
  | other before same ih => exact markedToMarket_of_same same ih
  | @trade v before event topic partition nextOffset own ih =>
    rw [run_of_atomic (atomic_projectTradeExecuted event topic partition nextOffset)]
    cases heval : (projectTradeExecuted event topic partition nextOffset).eval v with
    | error e => exact ih
    | ok result => exact markedToMarket_eval ih own heval

end Trades

/-- A trade of market 7 between orders 1 and 2. -/
def tradeOfOrders (price quantity : ℤ) : TradeExecuted where
  engineEventId := none
  engineSequence := 9
  engineTimestampMs := 9
  sourceInputId := none
  sourceInputOffset := none
  fillId := 9
  marketId := 7
  price := price
  quantity := quantity
  makerOrderId := 1
  takerOrderId := 2
  makerUserId := 1
  takerUserId := 1
  makerReservationId := none
  takerReservationId := none
  executionReason := .TRADE
  liquidationId := none
  liquidatedUserId := none
  positionSide := none
  liquidationFee := none
  feeDeltas := []
  settlements := []

/-- The next trade, at another price. -/
def nextTrade : TradeExecuted :=
  { tradeOfOrders 120 3 with
    engineSequence := 10
    fillId := 10 }

/-- The outcome of the first trade. -/
def tradedOnce : Except ProjectorRepositoryError Unit × ProjectorDb :=
  (projectTradeExecuted (tradeOfOrders 110 5) "engine.events" 0 1).run tradedDb tradedDb

/-- The outcome of the next one. -/
def tradedTwice : Except ProjectorRepositoryError Unit × ProjectorDb :=
  (projectTradeExecuted nextTrade "engine.events" 0 2).run tradedOnce.2 tradedOnce.2

private theorem ownMarket_of_load {d : ProjectorDb} {event : TradeExecuted}
    (hmarket : (d.markets.find? event.marketId).isSome)
    (hload : ((loadTradeContextsInTx event).eval d).map
      (fun r => (r.1.1.marketId, r.1.2.marketId)) = .ok (event.marketId, event.marketId)) :
    OwnMarket d event := by
  refine ⟨hmarket, fun contexts d' h => ?_⟩
  rw [h] at hload
  exact Prod.mk.inj (Except.ok.inj hload)

/-- Both trades commit, and the 16 that were bought show a gain of 112 at the second price. -/
theorem unrealizedPnl_is_current_trades :
    tradedOnce.1 = .ok () ∧ tradedTwice.1 = .ok () ∧ MarkedToMarket tradedTwice.2 ∧
      tradedTwice.2.positions.rows.map PositionRow.unrealizedPnl = [112] := by
  have hempty : ∀ row, row ∉ tradedDb.positions.rows := fun row => List.not_mem_nil
  have hfirst : OwnMarket tradedDb (tradeOfOrders 110 5) := ownMarket_of_load (by decide) rfl
  have hnext : OwnMarket tradedOnce.2 nextTrade := ownMarket_of_load (by decide +kernel) rfl
  have hrun : TradeRun tradedDb tradedTwice.2 :=
    .trade (.trade .start (tradeOfOrders 110 5) "engine.events" 0 1 hfirst) nextTrade
      "engine.events" 0 2 hnext
  exact ⟨rfl, rfl, unrealizedPnl_is_current (fun row hrow => absurd hrow (hempty row)) hrun,
    by decide +kernel⟩

end Projector
