import ExchangeServer.Projector.Processor

/-!
# What the statements do to one order

An order is followed by its number and its reservation. The context under the
reservation, the row under the number and the sum of the fills that name it are
what is stored of it; each statement changes one of the three, or is about
another order and changes none.

## Main results

- `updateContext_ok`, `upsertOrder_ok`, `insertFill_ok` and others: what a
  statement has done
- `Keeps.of_same`: the other parts of a transaction
-/

namespace Projector

open Protocol Relational Transactional Program

/-- A reservation has the order of this number, and no other has. -/
def Own (reservationId : String) (orderId : ℤ) (d : ProjectorDb) : Prop :=
  ∀ k row, d.orderContexts.find? k = some row → ∀ x ∈ row.orderId,
    (x = orderId ↔ k = reservationId)

/-- What is stored of an order is the same. -/
structure Keeps (reservationId : String) (orderId : ℤ) (d d' : ProjectorDb) : Prop where
  context : d'.orderContexts.find? reservationId = d.orderContexts.find? reservationId
  order : d'.orders.find? orderId = d.orders.find? orderId
  filled : d'.filledQuantity orderId = d.filledQuantity orderId
  own : Own reservationId orderId d → Own reservationId orderId d'

theorem Keeps.of_same {d d' : ProjectorDb} (h : SameOrders d d') (reservationId : String)
    (orderId : ℤ) : Keeps reservationId orderId d d' where
  context := by rw [h.orderContexts]
  order := by rw [h.orders]
  filled := by rw [ProjectorDb.filledQuantity, h.fills, ProjectorDb.filledQuantity]
  own hown := by
    unfold Own
    rw [h.orderContexts]
    exact hown

theorem Keeps.refl (reservationId : String) (orderId : ℤ) (d : ProjectorDb) :
    Keeps reservationId orderId d d := .of_same (.refl d) _ _

theorem Keeps.trans {reservationId : String} {orderId : ℤ} {a b c : ProjectorDb}
    (h : Keeps reservationId orderId a b) (h' : Keeps reservationId orderId b c) :
    Keeps reservationId orderId a c :=
  ⟨h'.context.trans h.context, h'.order.trans h.order, h'.filled.trans h.filled,
    fun hown => h'.own (h.own hown)⟩

section Statements

variable {d d' : ProjectorDb}

theorem filledQuantity_of_fills (h : d'.fills = d.fills) (orderId : ℤ) :
    d'.filledQuantity orderId = d.filledQuantity orderId := by
  rw [ProjectorDb.filledQuantity, h, ProjectorDb.filledQuantity]

/-! ## Contexts -/

/-- Only contexts have changed, and these by a function. -/
structure MapsContexts (d d' : ProjectorDb) (f : String → OrderContextRow → OrderContextRow) :
    Prop where
  contexts : ∀ k, d'.orderContexts.find? k = (d.orderContexts.find? k).map (f k)
  orders : d'.orders = d.orders
  fills : d'.fills = d.fills

/-- The contexts keep their owners when the numbers that are new are right. -/
theorem MapsContexts.own {f : String → OrderContextRow → OrderContextRow}
    (h : MapsContexts d d' f) {reservationId : String} {orderId : ℤ}
    (hown : Own reservationId orderId d)
    (hnew : ∀ k row, d.orderContexts.find? k = some row → ∀ x ∈ (f k row).orderId,
      x ∈ row.orderId ∨ (x = orderId ↔ k = reservationId)) : Own reservationId orderId d' := by
  intro k row' hrow' x hx
  rw [h.contexts, Option.map_eq_some_iff] at hrow'
  obtain ⟨row, hrow, rfl⟩ := hrow'
  exact (hnew k row hrow x hx).elim (hown k row hrow x) id

/-- Changes of other contexts keep an order. -/
theorem MapsContexts.keeps {f : String → OrderContextRow → OrderContextRow}
    (h : MapsContexts d d' f) {reservationId : String} {orderId : ℤ}
    (hsame : ∀ row, d.orderContexts.find? reservationId = some row → f reservationId row = row)
    (hnew : ∀ k row, d.orderContexts.find? k = some row → ∀ x ∈ (f k row).orderId,
      x ∈ row.orderId ∨ (x = orderId ↔ k = reservationId)) : Keeps reservationId orderId d d' where
  context := by
    rw [h.contexts]
    cases hrow : d.orderContexts.find? reservationId with
    | none => rfl
    | some row => exact congrArg some (hsame row hrow)
  order := by rw [h.orders]
  filled := filledQuantity_of_fills h.fills orderId
  own hown := h.own hown hnew

theorem updateContext_ok {reservationId : String} {change : OrderContextRow → OrderContextRow}
    (h : (execute (updateContext reservationId change)).eval d = .ok ((), d'))
    (hkey : ∀ row, (change row).reservationId = row.reservationId) :
    MapsContexts d d' fun k row => if k = reservationId then change row else row := by
  obtain ⟨ws, hs, rfl⟩ := eval_execute_eq_ok h
  unfold updateContext at hs
  cases hrow : d.orderContexts.find? reservationId with
  | none =>
    rw [hrow] at hs
    cases hs
    refine ⟨fun k => ?_, rfl, rfl⟩
    show d.orderContexts.find? k = _
    by_cases hk : k = reservationId
    · rw [hk, hrow]
      rfl
    · simp [hk]
  | some row =>
    rw [hrow] at hs
    simp only at hs
    split at hs
    · next hadmits =>
      cases hs
      refine ⟨fun k => ?_, rfl, rfl⟩
      show (d.orderContexts.put (change row)).find? k = _
      have hid : (change row).reservationId = reservationId :=
        (hkey row).trans (Table.key_of_find? hrow)
      rw [Indexed.find?_put hadmits, hid]
      by_cases hk : k = reservationId
      · rw [if_pos hk, hk, hrow]
        simp
      · simp [hk]
    · cases hs

theorem view_putOrderContexts (f : OrderContextRow → OrderContextRow) (rows : List OrderContextRow)
    (d : ProjectorDb) :
    view (rows.map fun row => .putOrderContext (f row)) d =
      { d with orderContexts := rows.foldl (fun t row => t.put (f row)) d.orderContexts } := by
  induction rows generalizing d with
  | nil => rfl
  | cons row rows ih => exact ih _

theorem updateContextStatus_ok {orderId : ℤ} {reservationId : Option String}
    {status : ContextStatus}
    (h : (execute (updateContextStatus orderId reservationId status)).eval d = .ok ((), d')) :
    MapsContexts d d' fun k row =>
      if row.orderId = some orderId ∨ some k = reservationId then
        { row with status := row.status.afterFill status }
      else row := by
  obtain ⟨ws, hs, rfl⟩ := eval_execute_eq_ok h
  cases hs
  let f : OrderContextRow → OrderContextRow := fun row =>
    { row with status := row.status.afterFill status }
  have hview := view_putOrderContexts f (d.contextsOf orderId reservationId) d
  rw [hview]
  have hnodup : ((d.contextsOf orderId reservationId).map OrderContextRow.reservationId).Nodup :=
    d.orderContexts.unique.sublist (List.filter_sublist.map _)
  have hstored : ∀ row ∈ d.contextsOf orderId reservationId,
      d.orderContexts.find? row.reservationId = some row :=
    fun row hrow => Table.find?_of_mem (List.mem_filter.1 hrow).1
  obtain ⟨hin, hout⟩ := Indexed.find?_foldl_put (f := f) (fun _ => rfl) (fun _ => rfl) hnodup hstored
  refine ⟨fun k => ?_, rfl, rfl⟩
  show ((d.contextsOf orderId reservationId).foldl _ d.orderContexts).find? k = _
  cases hrow : d.orderContexts.find? k with
  | none =>
    refine (hout k fun hmem => ?_).trans hrow
    obtain ⟨row, hrow', rfl⟩ := List.mem_map.1 hmem
    rw [hstored row hrow'] at hrow
    cases hrow
  | some row =>
    obtain rfl : row.reservationId = k := Table.key_of_find? hrow
    by_cases hof : row.orderId = some orderId ∨ some row.reservationId = reservationId
    · have hmem : row ∈ d.contextsOf orderId reservationId :=
        List.mem_filter.2 ⟨Table.mem_of_find? hrow, by simpa using hof⟩
      rw [hin row hmem, Option.map_some, if_pos hof]
    · rw [Option.map_some, if_neg hof, ← hrow]
      refine hout _ fun hmem => hof ?_
      obtain ⟨other, hother, hkey⟩ := List.mem_map.1 hmem
      obtain rfl : other = row := by
        have hfind := hstored other hother
        rw [hkey, hrow] at hfind
        exact (Option.some.inj hfind).symm
      simpa using (List.mem_filter.1 hother).2

/-- An input changes the data of its context, or stores it. -/
theorem upsertOrderContext_ok {reservationId requestId : String} {userId marketId : ℤ}
    {marketName : String} {side : SideType} {orderType : DbOrderType} {quantity price : ℤ}
    {reduceOnly : Bool}
    (h : (execute (upsertOrderContext reservationId requestId userId marketId marketName side
      orderType quantity price reduceOnly)).eval d = .ok ((), d')) :
    ∃ row : OrderContextRow, row.reservationId = reservationId ∧ row.quantity = quantity ∧
      row.orderId = (d.orderContexts.find? reservationId).bind OrderContextRow.orderId ∧
      row.status = ((d.orderContexts.find? reservationId).map OrderContextRow.status).getD .PENDING ∧
      (∀ k, d'.orderContexts.find? k = if k = reservationId then some row else d.orderContexts.find? k) ∧
      d'.orders = d.orders ∧ d'.fills = d.fills := by
  obtain ⟨ws, hs, rfl⟩ := eval_execute_eq_ok h
  unfold upsertOrderContext at hs
  split at hs
  · simp only at hs
    split at hs
    · next hadmits =>
      cases hs
      exact ⟨_, rfl, rfl, rfl, rfl, Indexed.find?_put hadmits.2, rfl, rfl⟩
    · cases hs
  · cases hs

/-! ## Orders -/

/-- The row of an order after an insertion with what is done to a stored one. -/
def upserted (context : StoredOrderContext) (orderId : ℤ) (status : OrderStatus)
    (onConflict : OrderRow → Option OrderRow)
    (check : 0 < context.quantity ∧ 0 ≤ context.price ∧ 0 ≤ context.margin) :
    Option OrderRow → OrderRow
  | none => insertOrderRow context orderId status check
  | some stored => (onConflict stored).getD stored

/-- Only the row of one order has changed. -/
structure SetsOrder (d d' : ProjectorDb) (orderId : ℤ) (row : Option OrderRow) : Prop where
  order : ∀ k, d'.orders.find? k = if k = orderId then row else d.orders.find? k
  contexts : d'.orderContexts = d.orderContexts
  fills : d'.fills = d.fills

theorem SetsOrder.own {orderId k : ℤ} {reservationId : String} {row : Option OrderRow}
    (h : SetsOrder d d' k row) (hown : Own reservationId orderId d) :
    Own reservationId orderId d' := by
  unfold Own
  rw [h.contexts]
  exact hown

/-- A change of another order keeps an order. -/
theorem SetsOrder.keeps {orderId k : ℤ} {row : Option OrderRow} (h : SetsOrder d d' k row)
    (hne : k ≠ orderId) (reservationId : String) : Keeps reservationId orderId d d' where
  context := by rw [h.contexts]
  order := by rw [h.order, if_neg hne.symm]
  filled := filledQuantity_of_fills h.fills orderId
  own := h.own

theorem setsOrder_same (orderId : ℤ) (d : ProjectorDb) :
    SetsOrder d d orderId (d.orders.find? orderId) := by
  refine ⟨fun k => ?_, rfl, rfl⟩
  by_cases hk : k = orderId
  · rw [if_pos hk, hk]
  · rw [if_neg hk]

theorem setsOrder_put (row : OrderRow) {orderId : ℤ} (hid : row.orderId = orderId)
    (d : ProjectorDb) : SetsOrder d (view [.putOrder row] d) orderId (some row) := by
  refine ⟨fun k => ?_, rfl, rfl⟩
  show (d.orders.upsert row).find? k = _
  rw [Table.find?_upsert, hid]

theorem upsertOrder_ok {context : StoredOrderContext} {orderId : ℤ} {status : OrderStatus}
    {onConflict : OrderRow → Option OrderRow}
    (h : (execute (upsertOrder context orderId status onConflict)).eval d = .ok ((), d'))
    (hkey : ∀ stored, ∀ row ∈ onConflict stored, row.orderId = stored.orderId) :
    ∃ check, SetsOrder d d' orderId
      (some (upserted context orderId status onConflict check (d.orders.find? orderId))) := by
  obtain ⟨ws, hs, rfl⟩ := eval_execute_eq_ok h
  unfold upsertOrder at hs
  split at hs
  · next check =>
    refine ⟨check, ?_⟩
    cases hrow : d.orders.find? orderId with
    | none =>
      rw [hrow] at hs
      simp only at hs
      split at hs
      · cases hs
        exact setsOrder_put (insertOrderRow context orderId status check) rfl d
      · cases hs
    | some stored =>
      rw [hrow] at hs
      simp only at hs
      split at hs
      · next hconflict =>
        cases hs
        rw [upserted, hconflict, Option.getD_none, ← hrow]
        exact setsOrder_same orderId d
      · next row hconflict =>
        cases hs
        have hid : row.orderId = orderId :=
          (hkey stored row hconflict).trans (Table.key_of_find? hrow)
        rw [upserted, hconflict]
        exact setsOrder_put row hid d
  · cases hs

theorem updateOrderStatus_ok {orderId : ℤ} {status : OrderStatus}
    (h : (execute (updateOrderStatus orderId status)).eval d = .ok ((), d')) :
    SetsOrder d d' orderId ((d.orders.find? orderId).map fun stored =>
      { stored with status := if stored.status = .CANCELLED then .CANCELLED else status }) := by
  obtain ⟨ws, hs, rfl⟩ := eval_execute_eq_ok h
  unfold updateOrderStatus at hs
  cases hrow : d.orders.find? orderId with
  | none =>
    rw [hrow] at hs
    cases hs
    have hsame := setsOrder_same orderId d
    rw [hrow] at hsame
    exact hsame
  | some stored =>
    rw [hrow] at hs
    simp only at hs
    rw [Option.map_some]
    split at hs
    · next hcancelled =>
      cases hs
      have hsame := setsOrder_same orderId d
      rw [hrow] at hsame
      rw [if_pos hcancelled, ← hcancelled]
      exact hsame
    · next hcancelled =>
      cases hs
      rw [if_neg hcancelled]
      have hid : stored.orderId = orderId := Table.key_of_find? hrow
      exact setsOrder_put { stored with status := status } hid d

/-! ## Loading -/

theorem eval_maybeContextByOrderIdInTx (orderId : ℤ) (d : ProjectorDb) :
    (maybeContextByOrderIdInTx orderId).eval d =
      .ok ((d.contextByOrderId orderId).or ((d.orders.find? orderId).map OrderRow.storedContext),
        d) := by
  unfold maybeContextByOrderIdInTx
  rw [eval_bind_ok (eval_query _ _)]
  cases d.contextByOrderId orderId with
  | none => rfl
  | some context => rfl

/-- The context of an order as far as it is stored. -/
def ProjectorDb.storedContext (d : ProjectorDb) (reservationId : Option String) (orderId : ℤ) :
    Option StoredOrderContext :=
  (reservationId.bind d.contextByReservation).or
    ((d.contextByOrderId orderId).or ((d.orders.find? orderId).map OrderRow.storedContext))

theorem eval_maybeLoadContextForOrderInTx (reservationId : Option String) (orderId : ℤ)
    (d : ProjectorDb) :
    (maybeLoadContextForOrderInTx reservationId orderId).eval d =
      .ok (d.storedContext reservationId orderId, d) := by
  cases reservationId with
  | none => exact eval_maybeContextByOrderIdInTx orderId d
  | some reservationId =>
    unfold maybeLoadContextForOrderInTx maybeContextByReservationInTx
    rw [eval_bind_ok (eval_query _ _)]
    unfold ProjectorDb.storedContext
    rw [Option.bind_some]
    cases d.contextByReservation reservationId with
    | none => exact eval_maybeContextByOrderIdInTx orderId d
    | some context => rfl

/-- The reservation of a synthetic context. -/
def syntheticReservation (event : TradeExecuted) (participant : TradeParticipant) :
    Option String :=
  (participant.reservationId event).or
    (event.liquidationId.map fun liquidationId => liquidationId ++ ":" ++ participant.label)

/-- The context with which a participant of a trade is projected: the stored one,
or a synthetic one when there is none. -/
def Loaded (d : ProjectorDb) (event : TradeExecuted) (participant : TradeParticipant)
    (context : StoredOrderContext) : Prop :=
  d.storedContext (participant.reservationId event) (participant.orderId event) = some context ∨
    d.storedContext (participant.reservationId event) (participant.orderId event) = none ∧
      isSyntheticLiquidationOrAdlTrade event = true ∧
      context.reservationId = syntheticReservation event participant

theorem orSynthetic_ok {event : TradeExecuted} {participant : TradeParticipant}
    {stored : Option StoredOrderContext} {marketName : String} {counterpartSide : Option SideType}
    {context : StoredOrderContext}
    (h : (orSynthetic stored event participant marketName counterpartSide).eval d =
      .ok (context, d')) :
    stored = some context ∨
      stored = none ∧ context.reservationId = syntheticReservation event participant := by
  cases stored with
  | some stored =>
    cases h
    exact .inl rfl
  | none =>
    refine .inr ⟨rfl, ?_⟩
    unfold orSynthetic syntheticLiquidationContext at h
    simp only at h
    split at h
    · cases h
    · cases h
      rfl

theorem orMissing_ok {event : TradeExecuted} {participant : TradeParticipant}
    {stored : Option StoredOrderContext} {context : StoredOrderContext}
    (h : (orMissing stored event participant).eval d = .ok (context, d')) :
    stored = some context := by
  cases stored with
  | some stored =>
    cases h
    rfl
  | none => cases h

/-- Loading the contexts of a trade. -/
theorem loadTradeContextsInTx_ok {event : TradeExecuted}
    {contexts : StoredOrderContext × StoredOrderContext}
    (h : (loadTradeContextsInTx event).eval d = .ok (contexts, d')) :
    d' = d ∧ Loaded d event .maker contexts.1 ∧ Loaded d event .taker contexts.2 := by
  refine ⟨eq_of_inArea (fun area => inArea_loadTradeContextsInTx area event) h, ?_⟩
  unfold loadTradeContextsInTx at h
  rw [eval_bind_ok (eval_maybeLoadContextForOrderInTx _ _ d),
    eval_bind_ok (eval_maybeLoadContextForOrderInTx _ _ d)] at h
  split at h
  · next hsynthetic =>
    obtain ⟨marketName, v, -, h⟩ := eval_bind_eq_ok h
    obtain ⟨maker, v₁, hmaker, h⟩ := eval_bind_eq_ok h
    obtain ⟨taker, v₂, htaker, h⟩ := eval_bind_eq_ok h
    cases h
    refine ⟨(orSynthetic_ok hmaker).imp_right fun hnone => ?_,
      (orSynthetic_ok htaker).imp_right fun hnone => ?_⟩
    · exact ⟨hnone.1, hsynthetic, hnone.2⟩
    · exact ⟨hnone.1, hsynthetic, hnone.2⟩
  · obtain ⟨maker, v₁, hmaker, h⟩ := eval_bind_eq_ok h
    obtain ⟨taker, v₂, htaker, h⟩ := eval_bind_eq_ok h
    cases h
    exact ⟨.inl (orMissing_ok hmaker), .inl (orMissing_ok htaker)⟩

/-! ## Fills -/

/-- A fill counts for the two orders it names. -/
def filledBy (makerOrderId takerOrderId quantity orderId : ℤ) : ℤ :=
  if makerOrderId = orderId ∨ takerOrderId = orderId then quantity else 0

theorem filledQuantity_eq (d : ProjectorDb) (orderId : ℤ) :
    d.filledQuantity orderId = d.fills.sum fun fill =>
      filledBy fill.makerOrderId fill.takerOrderId fill.quantity orderId := by
  unfold ProjectorDb.filledQuantity Table.sum
  induction d.fills.rows with
  | nil => rfl
  | cons fill rows ih =>
    rw [List.map_cons, List.sum_cons, ← ih, List.filter_cons, filledBy]
    by_cases h : fill.makerOrderId = orderId ∨ fill.takerOrderId = orderId
    · simp [h]
    · simp [h]

theorem filledQuantity_nonneg (d : ProjectorDb) (orderId : ℤ) : 0 ≤ d.filledQuantity orderId := by
  rw [filledQuantity_eq]
  refine Table.sum_nonneg fun fill _ => ?_
  have hcheck := fill.check
  unfold filledBy
  split <;> omega

/-- No fill has the id of a trade, or its place in its market. -/
def NewFill (d : ProjectorDb) (event : TradeExecuted) : Prop :=
  ∀ fill ∈ d.fills.rows, fill.fillId ≠ event.fillId ∧
    (fill.marketId, fill.engineSequence) ≠ (event.marketId, event.engineSequence)

theorem insertFill_ok {event : TradeExecuted} {maker taker : StoredOrderContext} {b : Bool}
    (h : (execute (insertFill event maker taker)).eval d = .ok (b, d')) :
    d'.orderContexts = d.orderContexts ∧ d'.orders = d.orders ∧ 0 < event.quantity ∧
      (NewFill d event ∨ b = true → ∀ orderId, d'.filledQuantity orderId = d.filledQuantity orderId +
        filledBy event.makerOrderId event.takerOrderId event.quantity orderId) ∧
      (b = false → d' = d) := by
  obtain ⟨ws, hs, rfl⟩ := eval_execute_eq_ok h
  unfold insertFill at hs
  split at hs
  · next check =>
    simp only at hs
    split at hs
    · next hnew =>
      split at hs
      · cases hs
        refine ⟨rfl, rfl, check.2.1, fun _ orderId => ?_, fun hb => absurd hb (by decide)⟩
        have hfills : (view [.putFill (fillRow event maker taker check)] d).fills =
            d.fills.put (fillRow event maker taker check) := rfl
        have hfree : d.fills.find? (fillRow event maker taker check).fillId = none := hnew.1
        rw [filledQuantity_eq, filledQuantity_eq, hfills, Indexed.toTable_put hnew.2,
          Table.sum_upsert_of_none hfree]
        rfl
      · cases hs
    · next hold =>
      cases hs
      refine ⟨rfl, rfl, check.2.1, fun hnew => absurd ?_ hold, fun _ => rfl⟩
      have hnew : NewFill d event := hnew.resolve_right (by decide)
      refine ⟨Table.find?_eq_none_iff.2 fun fill hfill => (hnew fill hfill).1, fun fill hfill _ j hj hj' => ?_⟩
      obtain rfl : j = (event.marketId, event.engineSequence) := List.mem_singleton.1 hj
      exact (hnew fill hfill).2 (List.mem_singleton.1 hj').symm
  · cases hs

/-- The fill of a trade of two other orders keeps an order. -/
theorem keeps_insertFill {event : TradeExecuted} {maker taker : StoredOrderContext} {b : Bool}
    {orderId : ℤ} (hmaker : event.makerOrderId ≠ orderId) (htaker : event.takerOrderId ≠ orderId)
    (h : (execute (insertFill event maker taker)).eval d = .ok (b, d')) (reservationId : String) :
    Keeps reservationId orderId d d' := by
  obtain ⟨hcontexts, horders, -, hnew, hold⟩ := insertFill_ok h
  cases b with
  | false => exact hold rfl ▸ .refl _ _ _
  | true =>
    refine ⟨by rw [hcontexts], by rw [horders], ?_, fun hown => ?_⟩
    · rw [hnew (.inr rfl), filledBy, if_neg (not_or.2 ⟨hmaker, htaker⟩), add_zero]
    · unfold Own
      rw [hcontexts]
      exact hown

end Statements

end Projector
