import ExchangeServer.Projector.MarketModel

/-!
# Statements and the read model of one market

Each statement of a transaction is followed in the read models of the markets:
that of the market it is about changes as the model says, the others stay.

## Main results

- `market_congr`: what the read model of a market depends on
- `market_upsertOrder`, `market_setsStatus`: orders and their statuses
- `market_insertFill`, `market_updateOrderAfterFill`: fills
- `market_projectNewFill`: positions
-/

namespace Projector

open Protocol Relational Transactional Program

/-! ## Statuses of events -/

theorem ofEvent_eq_some {s s' : ContextStatus} (h : s.ofEvent = some s') : s' = s := by
  cases s <;> cases h <;> rfl

/-- A status after a change depends on what events have given before. -/
def OfEvents (change : ContextStatus → ContextStatus) : Prop :=
  ∀ s : ContextStatus, (change s).ofEvent = some (change (s.ofEvent.getD .PENDING))

theorem ofEvents_opened : OfEvents ContextStatus.opened := by
  intro s
  cases s <;> rfl

theorem ofEvents_cancelled : OfEvents fun _ => .CANCELLED := fun _ => rfl

theorem ofEvents_afterFill (quantity filled : ℤ) : OfEvents fun s =>
    s.afterFill (contextStatusForOrderStatus (orderStatusAfterFill quantity filled)) := by
  intro s
  unfold orderStatusAfterFill
  split
  · cases s <;> rfl
  · cases s <;> rfl

theorem ofEvent_accepted (s : ContextStatus) : s.accepted.ofEvent = s.ofEvent := by
  cases s <;> rfl

theorem ofEvent_rejected (s : ContextStatus) : s.rejected.ofEvent = s.ofEvent := by
  cases s <;> rfl

/-! ## Statements -/

/-- A change of the value of one key, seen where a condition on the keys holds. -/
theorem guarded_update {K α : Type} [DecidableEq K] (P : K → Prop) [DecidablePred P]
    (f v : K → Option α) (k : K) :
    (fun j => if P j then if j = k then v j else f j else none) =
      if P k then Function.update (fun j => if P j then f j else none) k (v k)
      else fun j => if P j then f j else none := by
  by_cases hk : P k
  · rw [if_pos hk]
    funext j
    by_cases hj : j = k
    · rw [hj, if_pos hk, if_pos rfl, Function.update_self]
    · rw [Function.update_of_ne hj, if_neg hj]
  · rw [if_neg hk]
    funext j
    by_cases hj : j = k
    · rw [hj, if_neg hk, if_neg hk]
    · rw [if_neg hj]

section Statements

variable {d d' : ProjectorDb} {c : Catalogue}

theorem ProjectorDb.eventStatus_congr (h : d'.orderContexts = d.orderContexts)
    (reservationId : String) : d'.eventStatus reservationId = d.eventStatus reservationId := by
  unfold ProjectorDb.eventStatus
  rw [h]

/-- What is not in the read model of a market does not change it. -/
theorem market_congr (horders : d'.orders = d.orders) (hfills : d'.fills = d.fills)
    (hpositions : d'.positions = d.positions)
    (hstatus : ∀ reservationId, d'.eventStatus reservationId = d.eventStatus reservationId)
    (marketId : ℤ) : d'.market c marketId = d.market c marketId := by
  unfold ProjectorDb.market ProjectorDb.position
  simp only [horders, hfills, hpositions, hstatus]

theorem market_of_same (horders : SameOrders d d') (hpositions : SamePositions d d')
    (marketId : ℤ) : d'.market c marketId = d.market c marketId :=
  market_congr horders.orders horders.fills hpositions.positions
    (ProjectorDb.eventStatus_congr horders.orderContexts) marketId

theorem market_setsOrder {orderId : ℤ} {row : Option OrderRow} (h : SetsOrder d d' orderId row)
    (hpositions : SamePositions d d') (marketId : ℤ) :
    d'.market c marketId = if c.marketId orderId = marketId then
      (d.market c marketId).setOrder orderId row else d.market c marketId := by
  have hstatus := ProjectorDb.eventStatus_congr h.contexts
  have hposition : ∀ userId, d'.position userId marketId = d.position userId marketId := by
    intro userId
    rw [ProjectorDb.position, hpositions.positions, ProjectorDb.position]
  have hguarded := guarded_update (fun k => c.marketId k = marketId) (fun k => d.orders.find? k)
    (fun _ => row) orderId
  unfold ProjectorDb.market MarketModel.setOrder
  simp only [hstatus, h.fills, hposition, h.order]
  rw [hguarded]
  split <;> rfl

theorem market_upsertOrder {context : StoredOrderContext} {orderId : ℤ} {status : OrderStatus}
    {onConflict : OrderRow → Option OrderRow}
    (h : (execute (upsertOrder context orderId status onConflict)).eval d = .ok ((), d'))
    (hkey : ∀ stored, ∀ row ∈ onConflict stored, row.orderId = stored.orderId) (marketId : ℤ) :
    d'.market c marketId = if c.marketId orderId = marketId then
      (d.market c marketId).upsertOrder context orderId status onConflict
      else d.market c marketId := by
  have hpositions : SamePositions d d' := .of_writes (inArea_upsertOrder _ _ _ _) (by decide) h
  obtain ⟨check, hsets⟩ := upsertOrder_ok h hkey
  rw [market_setsOrder hsets hpositions]
  split
  · next hmarket =>
    have horder : (d.market c marketId).orders orderId = d.orders.find? orderId := if_pos hmarket
    rw [MarketModel.upsertOrder, dif_pos check, horder]
  · rfl

/-- A change of the status of one context by an event. -/
theorem market_setsStatus {reservationId : String} {change : ContextStatus → ContextStatus}
    (horders : d'.orders = d.orders) (hfills : d'.fills = d.fills)
    (hpositions : d'.positions = d.positions)
    (hstored : (d.orderContexts.find? reservationId).isSome) (hchange : OfEvents change)
    (hstatus : ∀ k, (d'.orderContexts.find? k).map OrderContextRow.status =
      (d.orderContexts.find? k).map fun row =>
        if k = reservationId then change row.status else row.status) (marketId : ℤ) :
    d'.market c marketId = if (c.context reservationId).marketId = marketId then
      (d.market c marketId).setStatus reservationId change else d.market c marketId := by
  have hevent : ∀ k, d'.eventStatus k = if k = reservationId then
      some (change ((d.eventStatus k).getD .PENDING)) else d.eventStatus k := by
    intro k
    have hk := hstatus k
    have hbind : ∀ v : ProjectorDb, v.eventStatus k =
        ((v.orderContexts.find? k).map OrderContextRow.status).bind ContextStatus.ofEvent := by
      intro v
      rw [ProjectorDb.eventStatus, Option.bind_map]
      rfl
    rw [hbind, hbind, hk]
    split
    · next hsame =>
      obtain ⟨row, hrow⟩ := Option.isSome_iff_exists.1 hstored
      rw [hsame, hrow]
      exact hchange row.status
    · rfl
  have hguarded := guarded_update (fun k => (c.context k).marketId = marketId) d.eventStatus
    (fun k => some (change ((d.eventStatus k).getD .PENDING))) reservationId
  unfold ProjectorDb.market MarketModel.setStatus ProjectorDb.position
  simp only [horders, hfills, hpositions, hevent]
  rw [hguarded]
  split
  · next hmarket =>
    subst hmarket
    simp
  · rfl

/-- The fills of a market, as the catalogue knows them. -/
def FillsListed (c : Catalogue) (d : ProjectorDb) : Prop :=
  ∀ fill ∈ d.fills.rows, fill.marketId = c.fillMarket fill.fillId ∧
    c.marketId fill.makerOrderId = fill.marketId ∧ c.marketId fill.takerOrderId = fill.marketId

theorem FillsListed.of_same (h : FillsListed c d) (hfills : d'.fills = d.fills) :
    FillsListed c d' := by
  rw [FillsListed, hfills]
  exact h

/-- The fills of an order are fills of its market. -/
theorem filledQuantity_market (hfills : FillsListed c d) {orderId marketId : ℤ}
    (hmarket : c.marketId orderId = marketId) :
    (d.market c marketId).filledQuantity orderId = d.filledQuantity orderId := by
  rw [filledQuantity_eq]
  unfold MarketModel.filledQuantity ProjectorDb.market Table.sum
  unfold FillsListed at hfills
  simp only
  generalize d.fills.rows = rows at hfills
  induction rows with
  | nil => rfl
  | cons fill rows ih =>
    obtain ⟨-, hmaker, htaker⟩ := hfills fill List.mem_cons_self
    have hrest := ih fun x hx => hfills x (List.mem_cons_of_mem fill hx)
    rw [List.map_cons, List.sum_cons, List.filter_cons]
    by_cases hfill : fill.marketId = marketId
    · rw [if_pos (decide_eq_true hfill), List.map_cons, List.sum_cons, hrest]
    · -- A fill of another market names other orders.
      have hother : filledBy fill.makerOrderId fill.takerOrderId fill.quantity orderId = 0 := by
        refine if_neg (not_or.2 ⟨fun h => hfill ?_, fun h => hfill ?_⟩)
        · rw [← hmaker, h, hmarket]
        · rw [← htaker, h, hmarket]
      rw [if_neg (by simpa using hfill), hrest, hother, zero_add]

/-- A trade is new to the tables when it is new to its market. -/
theorem isNew_iff (hfills : FillsListed c d) {event : TradeExecuted}
    (hfillMarket : c.fillMarket event.fillId = event.marketId) {row : FillRow}
    (hid : row.fillId = event.fillId)
    (hindex : row.indices = [(event.marketId, event.engineSequence)]) :
    (d.fills.find? event.fillId = none ∧ d.fills.Admits row) ↔
      (d.market c event.marketId).IsNew event := by
  unfold MarketModel.IsNew ProjectorDb.market
  simp only [List.mem_filter, decide_eq_true_eq]
  constructor
  · rintro ⟨hfree, hadmits⟩ fill ⟨hfill, hmarket⟩
    have hne : fill.fillId ≠ event.fillId := Table.find?_eq_none_iff.1 hfree fill hfill
    refine ⟨hne, fun hsequence => hadmits fill hfill (hid ▸ hne) (event.marketId, event.engineSequence)
      (hindex ▸ List.mem_singleton_self _) ?_⟩
    rw [FillRow.indices, hmarket, hsequence]
    exact List.mem_singleton_self _
  · intro hnew
    refine ⟨Table.find?_eq_none_iff.2 fun fill hfill hsame => ?_, fun fill hfill _ j hj hj' => ?_⟩
    · -- The catalogue has one market for the id of a fill.
      have hmarket : fill.marketId = event.marketId := by
        rw [(hfills fill hfill).1, hsame, hfillMarket]
      exact (hnew fill ⟨hfill, hmarket⟩).1 hsame
    · rw [hindex] at hj
      obtain rfl := List.mem_singleton.1 hj
      obtain ⟨hmarket, hsequence⟩ := Prod.mk.inj (List.mem_singleton.1 hj')
      exact (hnew fill ⟨hfill, hmarket.symm⟩).2 hsequence.symm

/-- What the insertion of the fill of a trade has done. -/
theorem market_insertFill {event : TradeExecuted} {maker taker : StoredOrderContext} {b : Bool}
    (hfills : FillsListed c d) (hfillMarket : c.fillMarket event.fillId = event.marketId)
    (h : (execute (insertFill event maker taker)).eval d = .ok (b, d')) :
    (b = true ↔ (d.market c event.marketId).IsNew event) ∧
      (∀ marketId, d'.market c marketId = if event.marketId = marketId ∧ b = true then
        (d.market c marketId).insertFill event maker taker else d.market c marketId) ∧
      ∀ fill ∈ d'.fills.rows, fill ∈ d.fills.rows ∨ ∃ check, fill = fillRow event maker taker check := by
  obtain ⟨ws, hs, rfl⟩ := eval_execute_eq_ok h
  unfold insertFill at hs
  split at hs
  · next check =>
    have hnew : (d.fills.find? event.fillId = none ∧
        d.fills.Admits (fillRow event maker taker check)) ↔ (d.market c event.marketId).IsNew event :=
      isNew_iff hfills hfillMarket rfl rfl
    simp only at hs
    split at hs
    · next hfree =>
      split at hs
      · cases hs
        have hrows : (d.fills.put (fillRow event maker taker check)).rows =
            d.fills.rows ++ [fillRow event maker taker check] := by
          have hnone : d.fills.find? (fillRow event maker taker check).fillId = none := hfree.1
          rw [Indexed.toTable_put hfree.2, Table.upsert, if_pos hnone, Table.rows_insert hnone]
        refine ⟨iff_of_true rfl (hnew.1 hfree), fun marketId => ?_, fun fill hfill => ?_⟩
        · have hmarket : (view [.putFill (fillRow event maker taker check)] d).market c marketId =
              { d.market c marketId with
                fills := (d.fills.put (fillRow event maker taker check)).rows.filter fun fill =>
                  fill.marketId = marketId } := rfl
          rw [hmarket, hrows, List.filter_append, List.filter_singleton]
          by_cases hm : event.marketId = marketId
          · rw [if_pos ⟨hm, rfl⟩, MarketModel.insertFill, dif_pos check]
            simp [fillRow, hm, ProjectorDb.market]
          · rw [if_neg fun hand => hm hand.1]
            simp [fillRow, hm, ProjectorDb.market]
        · change fill ∈ (d.fills.put (fillRow event maker taker check)).rows at hfill
          rw [hrows, List.mem_append, List.mem_singleton] at hfill
          exact hfill.imp_right fun heq => ⟨check, heq⟩
      · cases hs
    · next hold =>
      cases hs
      refine ⟨iff_of_false (by decide) fun hisNew => hold (hnew.2 hisNew), fun marketId => ?_,
        fun fill hfill => .inl hfill⟩
      rw [if_neg fun hand => absurd hand.2 (by decide)]
      rfl
  · cases hs

/-- The contexts are those of before, changed by a function. -/
def ChangesContexts (d d' : ProjectorDb) (f : String → OrderContextRow → OrderContextRow) : Prop :=
  ∀ k, d'.orderContexts.find? k = (d.orderContexts.find? k).map (f k)

/-- A context with the status that the fills of its order give it. -/
def OrderContextRow.filled (row : OrderContextRow) (quantity filled : ℤ) : OrderContextRow :=
  { row with
    status := row.status.afterFill
      (contextStatusForOrderStatus (orderStatusAfterFill quantity filled)) }

/-- What the statuses of an order become after one of its fills. -/
theorem market_updateOrderAfterFill {context : StoredOrderContext} {orderId : ℤ}
    (hfills : FillsListed c d) (hcontext : context.reservationId = some (c.reservationId orderId))
    (hstored : (d.orderContexts.find? (c.reservationId orderId)).isSome)
    (hnames : ∀ k row, d.orderContexts.find? k = some row → row.orderId = some orderId →
      k = c.reservationId orderId)
    (h : (updateOrderAfterFillInTx context orderId).eval d = .ok ((), d')) :
    d'.fills = d.fills ∧ (∀ k, (d'.orders.find? k).isSome = (d.orders.find? k).isSome) ∧
      (ChangesContexts d d' fun k row => if k = c.reservationId orderId then
        row.filled context.quantity (d.filledQuantity orderId) else row) ∧
      ∀ marketId, d'.market c marketId = if c.marketId orderId = marketId then
        (d.market c marketId).updateOrderAfterFill context orderId (c.reservationId orderId)
        else d.market c marketId := by
  obtain ⟨filledQuantity, v, hsum, h⟩ := eval_bind_eq_ok h
  obtain ⟨_, v', horder, hstatus⟩ := eval_bind_eq_ok h
  obtain ⟨rfl, rfl⟩ : filledQuantity = d.filledQuantity orderId ∧ v = d := by
    obtain ⟨ws, hs, rfl⟩ := eval_execute_eq_ok hsum
    unfold selectFilledQuantity at hs
    split at hs
    · cases hs
      exact ⟨rfl, rfl⟩
    · cases hs
  have hsets := updateOrderStatus_ok horder
  have hmaps := updateContextStatus_ok hstatus
  have hpositions : SamePositions v v' := by
    obtain ⟨ws, hs, rfl⟩ := eval_execute_eq_ok horder
    unfold updateOrderStatus at hs
    split at hs
    · cases hs
      exact .refl v
    · split at hs
      · cases hs
        exact .refl v
      · cases hs
        exact ⟨rfl, rfl, rfl, rfl⟩
  have hpositions' : d'.positions = v'.positions := by
    obtain ⟨ws, hs, rfl⟩ := eval_execute_eq_ok hstatus
    cases hs
    rw [view_putOrderContexts (fun row : OrderContextRow =>
      { row with status := row.status.afterFill _ })]
  -- No other context has the id of the order.
  have hcontexts : ChangesContexts v d' fun k row => if k = c.reservationId orderId then
      row.filled context.quantity (v.filledQuantity orderId) else row := by
    intro k
    rw [hmaps.contexts, hsets.contexts, hcontext]
    refine Option.map_congr fun row hrow => ?_
    refine if_congr ⟨fun h => ?_, fun h => ?_⟩ rfl rfl
    · exact h.elim (hnames k row hrow) fun hk => Option.some.inj hk
    · exact .inr (congrArg some h)
  refine ⟨hmaps.fills.trans hsets.fills, fun k => ?_, hcontexts, fun marketId => ?_⟩
  · rw [hmaps.orders, hsets.order]
    split
    · next hk => rw [hk, Option.isSome_map]
    · rfl
  · have hstatus' : ∀ k, (d'.orderContexts.find? k).map OrderContextRow.status =
        (v'.orderContexts.find? k).map fun row => if k = c.reservationId orderId then
          row.status.afterFill (contextStatusForOrderStatus
            (orderStatusAfterFill context.quantity (v.filledQuantity orderId)))
          else row.status := by
      intro k
      rw [hcontexts k, hsets.contexts, Option.map_map]
      refine Option.map_congr fun row _ => ?_
      simp only [Function.comp_apply, OrderContextRow.filled]
      split <;> rfl
    rw [market_setsStatus hmaps.orders hmaps.fills hpositions' (hsets.contexts ▸ hstored)
      (ofEvents_afterFill _ _) hstatus', market_setsOrder hsets hpositions]
    show (if c.marketId orderId = marketId then _ else _) = _
    split
    · next hmarket =>
      have horder : (v.market c marketId).orders orderId = v.orders.find? orderId := if_pos hmarket
      rw [MarketModel.updateOrderAfterFill, filledQuantity_market hfills hmarket, horder]
    · rfl

/-- A fill does to the position of its user what the model does. -/
theorem Change.after {fill : PositionFill} (htables : PositionTables d) (h : Change d fill d') :
    (fill.position d').map PositionRow.unnumbered =
      fill.after ((fill.position d).map PositionRow.unnumbered) := by
  cases h with
  | ignores reduceOnly side =>
    cases held : fill.position d with
    | none => rw [Option.map_none, PositionFill.after, if_pos reduceOnly]
    | some row =>
      have hside : row.unnumbered.side = fill.context.side := side row held
      rw [Option.map_some, PositionFill.after, if_pos hside, if_pos reduceOnly]
  | opens flat notReduceOnly check stored =>
    have hnot : ¬fill.context.reduceOnly = true := by simp [notReduceOnly]
    rw [held_openPosition htables flat check, flat, Option.map_none, PositionFill.after,
      if_neg hnot, dif_pos check]
    rfl
  | increases row held side notReduceOnly check =>
    have hnot : ¬fill.context.reduceOnly = true := by simp [notReduceOnly]
    have hside : row.unnumbered.side = fill.context.side := side
    have hcheck : 0 < addI64 row.unnumbered.quantity fill.quantity := check
    rw [held_increased held check, held, Option.map_some, Option.map_some, PositionFill.after,
      if_pos hside, if_neg hnot, dif_pos hcheck]
    rfl
  | reduces row held side check less =>
    have hside : ¬row.unnumbered.side = fill.context.side := side
    have hless : 0 < row.unnumbered.quantity - fill.quantity := less
    rw [held_reduced held check less, held, Option.map_some, Option.map_some, PositionFill.after,
      if_neg hside, dif_pos hless]
    rfl
  | closes row held side all =>
    have hside : ¬row.unnumbered.side = fill.context.side := side
    have hall : fill.quantity = row.unnumbered.quantity := all
    have hless : ¬0 < row.unnumbered.quantity - fill.quantity := by omega
    have hleft : ¬0 < fill.quantity - row.unnumbered.quantity := by omega
    rw [flat_closing held, held, Option.map_none, Option.map_some, PositionFill.after,
      if_neg hside, dif_neg hless, dif_neg hleft]
  | reverses row held side left stored =>
    have hside : ¬row.unnumbered.side = fill.context.side := side
    have hleft : 0 < fill.quantity - row.unnumbered.quantity := left
    have hless : ¬0 < row.unnumbered.quantity - fill.quantity := by omega
    rw [held_reversed htables held left, held, Option.map_some, Option.map_some,
      PositionFill.after, if_neg hside, dif_neg hless, dif_pos hleft]
    rfl

/-- Where only positions change, the read model of a market changes with them. -/
theorem market_positions (hsame : SameOrders d d') {marketId : ℤ} {positions : ℤ → Option PositionRow}
    (h : ∀ userId, (d'.position userId marketId).map PositionRow.unnumbered = positions userId) :
    d'.market c marketId = { d.market c marketId with positions := positions } := by
  have hstatus := ProjectorDb.eventStatus_congr hsame.orderContexts
  unfold ProjectorDb.market
  simp only [hsame.orders, hsame.fills, hstatus, h]

theorem market_project {fill : PositionFill} (htables : PositionTables d)
    (h : fill.project.eval d = .ok ((), d')) (marketId : ℤ) :
    d'.market c marketId = if fill.context.marketId = marketId then
      (d.market c marketId).project fill else d.market c marketId := by
  have hchange := change_of_project htables h
  have hsame : SameOrders d d' :=
    .of_writes (inArea_projectPositionForFillInTx _ _ _ _ _ _ _) (by decide) h
  have hother : ∀ userId, fill.owner ≠ (userId, marketId) →
      d'.position userId marketId = d.position userId marketId :=
    fun userId hne => hchange.others htables hne
  split
  · next hmarket =>
    refine market_positions hsame fun userId => ?_
    subst hmarket
    by_cases huser : userId = fill.context.userId
    · rw [huser, Function.update_self]
      exact hchange.after htables
    · rw [Function.update_of_ne huser, hother userId fun howner => huser (Prod.mk.inj howner).1.symm]
      rfl
  · next hmarket =>
    refine market_positions hsame fun userId => ?_
    rw [hother userId fun howner => hmarket (Prod.mk.inj howner).2]

/-- Marking the positions of a market changes each where it is stored. -/
theorem eval_refreshPositionPnlForMarketInTx_finds (marketId price : ℤ) (d : ProjectorDb) :
    ∃ d', (refreshPositionPnlForMarketInTx marketId price).eval d = .ok ((), d') ∧
      d'.markets = d.markets ∧ ∀ positionId, d'.positions.find? positionId =
        (d.positions.find? positionId).map fun row =>
          if row.marketId = marketId then row.mark price else row := by
  let rows := d.positions.rows.filter fun row => row.marketId = marketId
  have hstored : ∀ row ∈ rows, ∃ stored, d.positions.find? row.positionId = some stored ∧
      stored.mark price = row.mark price :=
    fun row hrow => ⟨row, Table.find?_of_mem (List.mem_filter.1 hrow).1, rfl⟩
  obtain ⟨d', heval, hmarkets, hd'⟩ := eval_refreshPositionPnl price rows hstored
  refine ⟨d', (eval_bind_ok (eval_query _ d)).trans heval, hmarkets, fun positionId => ?_⟩
  rw [hd']
  refine Option.map_congr fun row hrow => if_congr ?_ rfl rfl
  -- The listed numbers are those of the positions of the market.
  rw [List.mem_map]
  constructor
  · rintro ⟨x, hx, rfl⟩
    obtain ⟨hxmem, hxmarket⟩ := List.mem_filter.1 hx
    rw [Table.find?_of_mem hxmem] at hrow
    cases hrow
    exact of_decide_eq_true hxmarket
  · intro hmarket
    exact ⟨row, List.mem_filter.2 ⟨Table.mem_of_find? hrow, decide_eq_true hmarket⟩,
      Table.key_of_find? hrow⟩

/-- The positions by their owners after those of a market have been marked. -/
theorem position_refreshPositionPnlForMarketInTx {marketId price : ℤ}
    (h : (refreshPositionPnlForMarketInTx marketId price).eval d = .ok ((), d'))
    (userId market : ℤ) : d'.position userId market = (d.position userId market).map fun row =>
      if market = marketId then row.mark price else row := by
  obtain ⟨w, heval, -, hfind⟩ := eval_refreshPositionPnlForMarketInTx_finds marketId price d
  obtain rfl : d' = w := by
    rw [h] at heval
    exact congrArg Prod.snd (Except.ok.inj heval)
  have howner : ∀ row : PositionRow,
      (if row.marketId = marketId then row.mark price else row).owner = row.owner := by
    intro row
    split <;> rfl
  cases held : d.position userId market with
  | none =>
    refine position_eq_none_iff.2 fun row' hrow' => ?_
    have hrow := hfind row'.positionId
    rw [Table.find?_of_mem hrow'] at hrow
    obtain ⟨row, hrow, rfl⟩ := Option.map_eq_some_iff.1 hrow.symm
    rw [howner]
    exact position_eq_none_iff.1 held row (Table.mem_of_find? hrow)
  | some row =>
    obtain ⟨hrow, hheld⟩ := position_eq_some_iff.1 held
    have hmarket : row.marketId = market := congrArg Prod.snd hheld
    have hmarked := hfind row.positionId
    rw [Table.find?_of_mem hrow, Option.map_some, hmarket] at hmarked
    have hkept := howner row
    rw [hmarket] at hkept
    exact position_eq_some_iff.2 ⟨Table.mem_of_find? hmarked, hkept.trans hheld⟩

theorem market_refreshPositionPnlForMarketInTx {marketId price : ℤ}
    (h : (refreshPositionPnlForMarketInTx marketId price).eval d = .ok ((), d')) (market : ℤ) :
    d'.market c market = if marketId = market then (d.market c market).mark price
      else d.market c market := by
  have hsame : SameOrders d d' :=
    .of_writes (inArea_refreshPositionPnlForMarketInTx _ _) (by decide) h
  have hposition := position_refreshPositionPnlForMarketInTx h
  split
  · next hmarket =>
    refine market_positions hsame fun userId => ?_
    rw [hposition, Option.map_map]
    show _ = ((d.position userId market).map PositionRow.unnumbered).map fun row => row.mark price
    rw [Option.map_map]
    refine Option.map_congr fun row _ => ?_
    simp only [Function.comp_apply, if_pos hmarket.symm]
    rfl
  · next hmarket =>
    refine market_positions hsame fun userId => ?_
    rw [hposition]
    simp only [if_neg (Ne.symm hmarket), Option.map_id']

theorem market_updateLastTradedPrice {marketId price : ℤ}
    (h : (execute (updateLastTradedPrice marketId price)).eval d = .ok ((), d')) (market : ℤ) :
    d'.market c market = d.market c market := by
  obtain ⟨ws, hs, rfl⟩ := eval_execute_eq_ok h
  unfold updateLastTradedPrice at hs
  split at hs
  · cases hs
    rfl
  · cases hs
    rfl

/-- The positions of both users after a new fill. -/
theorem market_projectNewFill {event : TradeExecuted} {maker taker : StoredOrderContext}
    (htables : PositionTables d) (hmaker : maker.marketId = event.marketId)
    (htaker : taker.marketId = event.marketId)
    (h : (projectNewFill event maker taker).eval d = .ok ((), d')) (marketId : ℤ) :
    d'.market c marketId = if event.marketId = marketId then
      (d.market c marketId).projectNewFill event maker taker else d.market c marketId := by
  obtain ⟨_, v₁, hprice, h⟩ := eval_bind_eq_ok h
  obtain ⟨_, v₂, hmade, h⟩ := eval_bind_eq_ok h
  obtain ⟨_, v₃, htook, hrefresh⟩ := eval_bind_eq_ok h
  let makerFill := positionFill event maker event.makerOrderId
  let takerFill := positionFill event taker event.takerOrderId
  have hmade : makerFill.project.eval v₁ = .ok ((), v₂) := hmade
  have htook : takerFill.project.eval v₂ = .ok ((), v₃) := htook
  have htables₁ : PositionTables v₁ := (quiet_updateLastTradedPrice hprice).tables htables
  have htables₂ : PositionTables v₂ := (change_of_project htables₁ hmade).tables htables₁
  have hmade' := market_project (c := c) htables₁ hmade marketId
  have htook' := market_project (c := c) htables₂ htook marketId
  rw [market_refreshPositionPnlForMarketInTx hrefresh, htook', hmade',
    market_updateLastTradedPrice hprice]
  have hmaker : makerFill.context.marketId = event.marketId := hmaker
  have htaker : takerFill.context.marketId = event.marketId := htaker
  rw [hmaker, htaker]
  by_cases hmarket : event.marketId = marketId
  · simp only [if_pos hmarket]
    rfl
  · simp only [if_neg hmarket]

end Statements

end Projector
