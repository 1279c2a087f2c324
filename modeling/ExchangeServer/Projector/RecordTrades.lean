import ExchangeServer.Projector.RecordSteps

/-!
# What a trade does to the read model

A trade is projected in many steps: both orders are listed, their contexts are
told their numbers, the fill is stored, the statuses follow it, and last come
the positions. Each step is followed in the contexts and in the read model of
each market.

## Main results

- `effect_projectTradeExecuted`: what a trade does that waits for its contexts
- `effect_process`: what any record does
-/

namespace Projector

open Protocol Relational Transactional Program

section Contexts

variable {c : Catalogue} {d d' v : ProjectorDb} {reservationId : String} {orderId : ℤ}

/-- Only what is reported of one reservation has changed, which is known. -/
structure ReportsContext (c : Catalogue) (d d' : ProjectorDb) (reservationId : String)
    (report : Report) : Prop where
  known : ContextsKnown c d'
  stored : ∀ k, (d'.orderContexts.find? k).isSome = (d.orderContexts.find? k).isSome
  report : ∀ k, d'.report k = if k = reservationId then report else d.report k

/-- What the change of the report leaves alone is the same everywhere. -/
theorem ReportsContext.field_eq {B : Type} {report : Report}
    (h : ReportsContext c d d' reservationId report) (field : Report → B)
    (hfield : field report = field (d.report reservationId)) (k : String) :
    field (d'.report k) = field (d.report k) := by
  rw [h.report]
  split
  · next hk => rw [hk, hfield]
  · rfl

theorem reportsContext_put {row row' : OrderContextRow} (hknown : ContextsKnown c d)
    (hrow : d.orderContexts.find? reservationId = some row)
    (hput : ∀ k, d'.orderContexts.find? k =
      if k = reservationId then some row' else d.orderContexts.find? k)
    (hinput : row'.input = row.input)
    (hnames : ∀ orderId ∈ row'.orderId, c.Names reservationId orderId) :
    ReportsContext c d d' reservationId row'.report := by
  refine ⟨hknown.put hput (hinput.trans (hknown.context _ row hrow)) hnames, fun k => ?_,
    report_put hput⟩
  rw [hput]
  split
  · next hk =>
    rw [hk, hrow]
    rfl
  · rfl

/-- A context is told the number of its order. -/
theorem reportsContext_updateContextOrderIdInTx (hknown : ContextsKnown c d)
    (hnames : c.Names reservationId orderId)
    (hstored : (d.orderContexts.find? reservationId).isSome)
    (h : (updateContextOrderIdInTx (some reservationId) orderId).eval d = .ok ((), d')) :
    ReportsContext c d d' reservationId { d.report reservationId with orderId := some orderId } ∧
      d'.orders = d.orders ∧ d'.fills = d.fills ∧ d'.positions = d.positions := by
  obtain ⟨row, hrow⟩ := Option.isSome_iff_exists.1 hstored
  have hset := setsContext_updateContext hrow h fun _ => rfl
  have hid : row.orderId.getD orderId = orderId := by
    cases hknows : row.orderId with
    | none => rfl
    | some x => exact (hknown.names _ row hrow x hknows).1.symm.trans hnames.1
  have hreports := reportsContext_put hknown hrow hset.context rfl fun x hx => by
    cases hx
    rw [hid]
    exact hnames
  refine ⟨?_, hset.orders, hset.fills, hset.positions.positions⟩
  rw [ProjectorDb.report_of_find? hrow]
  have hreport : OrderContextRow.report { row with orderId := some (row.orderId.getD orderId) } =
      { row.report with orderId := some orderId } := by
    rw [hid]
    rfl
  rw [← hreport]
  exact hreports

/-- A context gets the status that the fills of its order give it. -/
theorem reportsContext_filled {quantity filled : ℤ} (hknown : ContextsKnown c d)
    (hstored : (d.orderContexts.find? reservationId).isSome)
    (h : ChangesContexts d d' fun k row =>
      if k = reservationId then row.filled quantity filled else row) :
    ∃ status : ContextStatus, status.ofEvent ≠ none ∧
      ReportsContext c d d' reservationId { d.report reservationId with status := status } := by
  obtain ⟨row, hrow⟩ := Option.isSome_iff_exists.1 hstored
  have hput : ∀ k, d'.orderContexts.find? k =
      if k = reservationId then some (row.filled quantity filled) else d.orderContexts.find? k := by
    intro k
    rw [h]
    by_cases hk : k = reservationId
    · rw [if_pos hk, hk, hrow]
      exact congrArg some (if_pos rfl)
    · simp only [if_neg hk, Option.map_id']
  refine ⟨(row.filled quantity filled).status, ?_, ?_⟩
  · have hof := ofEvents_afterFill quantity filled row.status
    intro hnone
    exact absurd (hnone.symm.trans hof) (Option.some_ne_none _).symm
  · rw [ProjectorDb.report_of_find? hrow]
    exact reportsContext_put hknown hrow hput rfl (hknown.names _ row hrow)

end Contexts

section Trades

variable {c : Catalogue} {d d' v : ProjectorDb} {event : TradeExecuted}

/-- The orders of a trade and its market are in the catalogue, and the contexts of
both orders are stored. -/
structure TradeKnown (c : Catalogue) (d : ProjectorDb) (event : TradeExecuted) : Prop where
  names : ∀ participant : TradeParticipant,
    c.Names (c.reservationId (participant.orderId event)) (participant.orderId event)
  market : ∀ participant : TradeParticipant, c.marketId (participant.orderId event) = event.marketId
  stored : ∀ participant : TradeParticipant,
    (d.orderContexts.find? (c.reservationId (participant.orderId event))).isSome

/-- The reservations of the orders of a trade. -/
def Catalogue.maker (c : Catalogue) (event : TradeExecuted) : String :=
  c.reservationId event.makerOrderId

def Catalogue.taker (c : Catalogue) (event : TradeExecuted) : String :=
  c.reservationId event.takerOrderId

/-- Both orders of a trade are listed and their contexts know them. -/
structure OrdersStored (c : Catalogue) (event : TradeExecuted) (d d' : ProjectorDb) : Prop where
  known : ContextsKnown c d'
  stored : ∀ k, (d'.orderContexts.find? k).isSome = (d.orderContexts.find? k).isSome
  orderId : ∀ k, (d'.report k).orderId = if k = c.taker event then some event.takerOrderId
    else if k = c.maker event then some event.makerOrderId else (d.report k).orderId
  status : ∀ k, (d'.report k).status = (d.report k).status
  rejectReason : ∀ k, (d'.report k).rejectReason = (d.report k).rejectReason
  orders : ∀ k, (d'.orders.find? k).isSome →
    (d.orders.find? k).isSome ∨ k = event.makerOrderId ∨ k = event.takerOrderId
  fills : d'.fills = d.fills
  market : ∀ marketId, d'.market c marketId = if event.marketId = marketId then
    ((d.market c marketId).upsertOrder (c.stored event.makerOrderId) event.makerOrderId .PENDING
      fun _ => none).upsertOrder (c.stored event.takerOrderId) event.takerOrderId .PENDING
      fun _ => none
    else d.market c marketId

theorem ordersStored (hknown : ContextsKnown c d) (htrade : TradeKnown c d event)
    (h : (storeTradeOrders event (c.stored event.makerOrderId)
      (c.stored event.takerOrderId)).eval d = .ok ((), d'))
    (hmaker : (c.stored event.makerOrderId).reservationId = some (c.maker event))
    (htaker : (c.stored event.takerOrderId).reservationId = some (c.taker event)) :
    OrdersStored c event d d' := by
  obtain ⟨_, v₁, hlistMaker, h⟩ := eval_bind_eq_ok h
  obtain ⟨_, v₂, hlistTaker, h⟩ := eval_bind_eq_ok h
  obtain ⟨_, v₃, htellMaker, htellTaker⟩ := eval_bind_eq_ok h
  obtain ⟨check, hsets⟩ := upsertOrder_ok hlistMaker (by rintro stored row ⟨⟩)
  obtain ⟨check', hsets'⟩ := upsertOrder_ok hlistTaker (by rintro stored row ⟨⟩)
  rw [hmaker] at htellMaker
  rw [htaker] at htellTaker
  have hcontexts : v₂.orderContexts = d.orderContexts := hsets'.contexts.trans hsets.contexts
  have hreport := ProjectorDb.report_congr hcontexts
  have hknown₂ := hknown.of_same hcontexts
  obtain ⟨htold, horders, hfills, hpositions⟩ :=
    reportsContext_updateContextOrderIdInTx hknown₂ (htrade.names .maker)
      (by rw [hcontexts]; exact htrade.stored .maker) htellMaker
  obtain ⟨htold', horders', hfills', hpositions'⟩ :=
    reportsContext_updateContextOrderIdInTx htold.known (htrade.names .taker)
      (by rw [htold.stored, hcontexts]; exact htrade.stored .taker) htellTaker
  have hreport' : ∀ k, d'.report k = if k = c.taker event then
      { v₃.report (c.taker event) with orderId := some event.takerOrderId } else v₃.report k :=
    htold'.report
  have hreport₃ : ∀ k, v₃.report k = if k = c.maker event then
      { d.report (c.maker event) with orderId := some event.makerOrderId } else d.report k := by
    intro k
    rw [← hreport, ← hreport]
    exact htold.report k
  -- Telling an order its number leaves the rest of the report alone.
  have hstatus : ∀ k, (d'.report k).status = (v₂.report k).status := fun k =>
    (htold'.field_eq Report.status rfl k).trans (htold.field_eq Report.status rfl k)
  have hreason : ∀ k, (d'.report k).rejectReason = (v₂.report k).rejectReason := fun k =>
    (htold'.field_eq Report.rejectReason rfl k).trans (htold.field_eq Report.rejectReason rfl k)
  refine ⟨htold'.known, fun k => ?_, fun k => ?_, fun k => ?_, fun k => ?_, fun k hk => ?_, ?_,
    fun marketId => ?_⟩
  · rw [htold'.stored, htold.stored, hcontexts]
  · rw [hreport', hreport₃ k]
    split
    · rfl
    · split <;> rfl
  · rw [hstatus, hreport]
  · rw [hreason, hreport]
  · rw [horders', horders, hsets'.order] at hk
    split at hk
    · next heq => exact .inr (.inr heq)
    · rw [hsets.order] at hk
      split at hk
      · next heq => exact .inr (.inl heq)
      · exact .inl hk
  · exact hfills'.trans (hfills.trans (hsets'.fills.trans hsets.fills))
  · have hlisted : d'.market c marketId = v₂.market c marketId := by
      refine market_congr (horders'.trans horders) (hfills'.trans hfills)
        (hpositions'.trans hpositions) (fun k => ?_) marketId
      rw [eventStatus_eq, eventStatus_eq, hstatus]
    have hmarket : c.marketId event.makerOrderId = event.marketId := htrade.market .maker
    have hmarket' : c.marketId event.takerOrderId = event.marketId := htrade.market .taker
    rw [hlisted, market_upsertOrder hlistTaker (by rintro stored row ⟨⟩),
      market_upsertOrder hlistMaker (by rintro stored row ⟨⟩), hmarket, hmarket']
    split <;> rfl

/-- The statuses of an order follow its fills. -/
theorem statusStored {orderId : ℤ} (hknown : ContextsKnown c d) (hfills : FillsListed c d)
    (hstored : (d.orderContexts.find? (c.reservationId orderId)).isSome)
    (hreservation : (c.stored orderId).reservationId = some (c.reservationId orderId))
    (h : (updateOrderAfterFillInTx (c.stored orderId) orderId).eval d = .ok ((), d')) :
    d'.fills = d.fills ∧ (∀ k, (d'.orders.find? k).isSome = (d.orders.find? k).isSome) ∧
      (∃ status : ContextStatus, status.ofEvent ≠ none ∧
        ReportsContext c d d' (c.reservationId orderId)
          { d.report (c.reservationId orderId) with status := status }) ∧
      ∀ marketId, d'.market c marketId = if c.marketId orderId = marketId then
        (d.market c marketId).updateOrderAfterFill (c.stored orderId) orderId
          (c.reservationId orderId)
        else d.market c marketId := by
  have hnames : ∀ k row, d.orderContexts.find? k = some row → row.orderId = some orderId →
      k = c.reservationId orderId :=
    fun k row hrow hid => (hknown.names k row hrow orderId hid).2.symm
  obtain ⟨hsame, horders, hchanges, hmarket⟩ :=
    market_updateOrderAfterFill hfills hreservation hstored hnames h
  exact ⟨hsame, horders, reportsContext_filled hknown hstored hchanges, hmarket⟩

/-- The context of an order is under the reservation of the order. -/
theorem ContextsKnown.reservationId_stored {orderId : ℤ} (hknown : ContextsKnown c d)
    (hstored : (d.orderContexts.find? (c.reservationId orderId)).isSome) :
    (c.stored orderId).reservationId = some (c.reservationId orderId) := by
  obtain ⟨row, hrow⟩ := Option.isSome_iff_exists.1 hstored
  have hkey : row.reservationId = c.reservationId orderId := Table.key_of_find? hrow
  show (c.context (c.reservationId orderId)).reservationId = _
  rw [← hknown.context _ row hrow, ← hkey]
  rfl

/-- What the steps after the orders are stored leave of a trade. -/
structure FillStored (c : Catalogue) (event : TradeExecuted) (d d' : ProjectorDb) : Prop where
  known : ContextsKnown c d'
  stored : ∀ k, (d'.orderContexts.find? k).isSome = (d.orderContexts.find? k).isSome
  orderId : ∀ k, (d'.report k).orderId = (d.report k).orderId
  status : ∀ k, (d'.report k).status.ofEvent = none →
    k ≠ c.maker event ∧ k ≠ c.taker event ∧ (d'.report k).status = (d.report k).status
  rejectReason : ∀ k, (d'.report k).rejectReason = (d.report k).rejectReason
  orders : ∀ k, (d'.orders.find? k).isSome = (d.orders.find? k).isSome
  fills : FillsListed c d'

/-- The fill of a trade and the statuses of both orders after it. -/
theorem fillStored {v₁ v₂ v₃ : ProjectorDb} {insertedFill : Bool} (hknown : ContextsKnown c d)
    (htrade : TradeKnown c d event) (hfillMarket : c.fillMarket event.fillId = event.marketId)
    (hfills : FillsListed c d)
    (hinsert : (execute (insertFill event (c.stored event.makerOrderId)
      (c.stored event.takerOrderId))).eval d = .ok (insertedFill, v₁))
    (hmaker : (updateOrderAfterFillInTx (c.stored event.makerOrderId) event.makerOrderId).eval v₁ =
      .ok ((), v₂))
    (htaker : (updateOrderAfterFillInTx (c.stored event.takerOrderId) event.takerOrderId).eval v₂ =
      .ok ((), v₃)) :
    FillStored c event d v₃ ∧ (insertedFill = true ↔ (d.market c event.marketId).IsNew event) ∧
      ∀ marketId, v₃.market c marketId = if event.marketId = marketId then
        ((if insertedFill then (d.market c marketId).insertFill event (c.stored event.makerOrderId)
            (c.stored event.takerOrderId) else d.market c marketId).updateOrderAfterFill
          (c.stored event.makerOrderId) event.makerOrderId (c.maker event)).updateOrderAfterFill
          (c.stored event.takerOrderId) event.takerOrderId (c.taker event)
        else d.market c marketId := by
  have hmarket : c.marketId event.makerOrderId = event.marketId := htrade.market .maker
  have hmarket' : c.marketId event.takerOrderId = event.marketId := htrade.market .taker
  have hstored : (d.orderContexts.find? (c.maker event)).isSome := htrade.stored .maker
  have hstored' : (d.orderContexts.find? (c.taker event)).isSome := htrade.stored .taker
  obtain ⟨hcontexts, horders, -⟩ := insertFill_ok hinsert
  obtain ⟨hnew, hinserted, hrows⟩ := market_insertFill hfills hfillMarket hinsert
  have hfills₁ : FillsListed c v₁ := by
    intro fill hfill
    rcases hrows fill hfill with hold | ⟨check, rfl⟩
    · exact hfills fill hold
    · exact ⟨hfillMarket.symm, hmarket, hmarket'⟩
  have hreport₁ := ProjectorDb.report_congr hcontexts
  have hknown₁ := hknown.of_same hcontexts
  rw [← hcontexts] at hstored hstored'
  obtain ⟨hfills₂, horders₂, ⟨status, hstatus, hreports⟩, hmarket₂⟩ :=
    statusStored hknown₁ hfills₁ hstored (hknown₁.reservationId_stored hstored) hmaker
  rw [← hreports.stored] at hstored'
  obtain ⟨hfills₃, horders₃, ⟨status', hstatus', hreports'⟩, hmarket₃⟩ :=
    statusStored hreports.known (hfills₁.of_same hfills₂) hstored'
      (hreports.known.reservationId_stored hstored') htaker
  have hreport₃ : ∀ k, v₃.report k = if k = c.taker event then
      { v₂.report (c.taker event) with status := status' } else v₂.report k := hreports'.report
  have hreport₂ : ∀ k, v₂.report k = if k = c.maker event then
      { d.report (c.maker event) with status := status } else d.report k := by
    intro k
    rw [← hreport₁, ← hreport₁]
    exact hreports.report k
  refine ⟨⟨hreports'.known, fun k => ?_, fun k => ?_, fun k hnone => ?_, fun k => ?_, fun k => ?_, ?_⟩,
    hnew, fun marketId => ?_⟩
  · rw [hreports'.stored, hreports.stored, hcontexts]
  · rw [hreports'.field_eq Report.orderId rfl, hreports.field_eq Report.orderId rfl, hreport₁]
  · -- Both contexts have a status that comes from an event.
    rw [hreport₃] at hnone ⊢
    split at hnone
    · exact absurd hnone hstatus'
    · next hne =>
      rw [hreport₂] at hnone
      split at hnone
      · exact absurd hnone hstatus
      · next hne' => exact ⟨hne', hne, by rw [if_neg hne, hreport₂, if_neg hne']⟩
  · rw [hreports'.field_eq Report.rejectReason rfl, hreports.field_eq Report.rejectReason rfl, hreport₁]
  · rw [horders₃, horders₂, horders]
  · exact (hfills₁.of_same hfills₂).of_same hfills₃
  · rw [hmarket₃, hmarket₂, hinserted, hmarket, hmarket']
    by_cases hm : event.marketId = marketId
    · simp only [hm, true_and]
      rfl
    · simp only [hm, false_and, if_false]

/-- A trade is projected with stored contexts when it waits for them. -/
theorem storedContext_of_loaded {participant : TradeParticipant} {context : StoredOrderContext}
    (hwaits : Payload.Waits d (.engineEvent (.tradeExecuted event)))
    (h : Loaded d event participant context) :
    d.storedContext (participant.reservationId event) (participant.orderId event) = some context := by
  rcases h with hstored | ⟨hnone, hsynthetic, -⟩
  · exact hstored
  · have hsome := hwaits hsynthetic participant
    rw [hnone] at hsome
    cases hsome

/-- The positions come last and leave the orders alone. -/
theorem positionsStored {insertedFill : Bool} (htables : PositionTables d)
    (hmarket : ∀ participant : TradeParticipant,
      c.marketId (participant.orderId event) = event.marketId)
    (h : (if insertedFill then projectNewFill event (c.stored event.makerOrderId)
      (c.stored event.takerOrderId) else return () : Tx Unit).eval d = .ok ((), d')) :
    SameOrders d d' ∧ ∀ marketId, d'.market c marketId =
      if event.marketId = marketId ∧ insertedFill = true then
        (d.market c marketId).projectNewFill event (c.stored event.makerOrderId)
          (c.stored event.takerOrderId)
      else d.market c marketId := by
  split at h
  · next hinserted =>
    refine ⟨.of_writes (inArea_projectNewFill _ _ _) (by decide) h, fun marketId => ?_⟩
    have hmaker : (c.stored event.makerOrderId).marketId = event.marketId := hmarket .maker
    have htaker : (c.stored event.takerOrderId).marketId = event.marketId := hmarket .taker
    rw [market_projectNewFill htables hmaker htaker h]
    simp only [hinserted, and_true]
  · next hold =>
    cases h
    exact ⟨.refl d, fun marketId => (if_neg fun hand => hold hand.2).symm⟩

/-- What a trade reports of the reservations. -/
theorem reports_trade (htrade : TradeKnown c d event) (horders : OrdersStored c event d v)
    (hfill : FillStored c event v d') (k : String) :
    Reports c (.engineEvent (.tradeExecuted event)) k (d.report k) (d'.report k) := by
  refine ⟨fun hk => ?_, fun hk => ?_, ?_, fun hnone => ?_⟩
  · rw [hfill.orderId, horders.orderId]
    split
    · next heq =>
      rw [heq]
      exact congrArg some (htrade.names .taker).1.symm
    · next hne =>
      have hmaker : k = c.maker event := (hk.resolve_right fun htaker => hne htaker.symm).symm
      rw [if_pos hmaker, hmaker]
      exact congrArg some (htrade.names .maker).1.symm
  · obtain ⟨hmaker, htaker⟩ := not_or.1 hk
    rw [hfill.orderId, horders.orderId, if_neg fun heq => htaker heq.symm,
      if_neg fun heq => hmaker heq.symm]
  · rw [hfill.rejectReason, horders.rejectReason]
    rfl
  · obtain ⟨-, -, hstatus⟩ := hfill.status k hnone
    have hbefore : (d'.report k).status = (d.report k).status := hstatus.trans (horders.status k)
    exact ⟨hbefore ▸ hnone, hbefore⟩

/-- The context of each order that is stored after a trade is stored and knows it. -/
theorem orders_known_of_trade (hknown : Known c d) (htrade : TradeKnown c d event)
    (horders : OrdersStored c event d v) (hfill : FillStored c event v d') {orderId : ℤ}
    (h : (d'.orders.find? orderId).isSome) :
    ∃ row, d'.orderContexts.find? (c.reservationId orderId) = some row ∧
      row.orderId = some orderId := by
  have hreports := reports_trade htrade horders hfill
  have hcontext : (d.orderContexts.find? (c.reservationId orderId)).isSome ∧
      (d'.report (c.reservationId orderId)).orderId = some orderId := by
    rw [hfill.orders] at h
    rcases horders.orders orderId h with hold | rfl | rfl
    · obtain ⟨row, hrow, hid⟩ := hknown.orders orderId hold
      have hknows : (d.report (c.reservationId orderId)).orderId = some orderId := by
        rw [ProjectorDb.report_of_find? hrow]
        exact hid
      refine ⟨Option.isSome_iff_exists.2 ⟨row, hrow⟩, ?_⟩
      by_cases hk : (Payload.engineEvent (.tradeExecuted event)).Mentions c (c.reservationId orderId)
      · rw [(hreports _).mentioned hk, (hknown.names _ row hrow orderId hid).1]
      · rw [(hreports _).kept hk, hknows]
    · refine ⟨htrade.stored .maker, ((hreports _).mentioned (.inl rfl)).trans ?_⟩
      exact congrArg some (htrade.names .maker).1
    · refine ⟨htrade.stored .taker, ((hreports _).mentioned (.inr rfl)).trans ?_⟩
      exact congrArg some (htrade.names .taker).1
  obtain ⟨hsome, hid⟩ := hcontext
  rw [← horders.stored, ← hfill.stored] at hsome
  obtain ⟨row, hrow⟩ := Option.isSome_iff_exists.1 hsome
  rw [ProjectorDb.report_of_find? hrow] at hid
  exact ⟨row, hrow, hid⟩

/-- What is done with a trade whose contexts have been loaded. -/
theorem effect_projectTrade {topic : String} {partition nextOffset : ℤ} (hknown : Known c d)
    (htrade : TradeKnown c d event) (hfillMarket : c.fillMarket event.fillId = event.marketId)
    (htables : PositionTables d')
    (h : (projectTrade event (c.stored event.makerOrderId) (c.stored event.takerOrderId) topic
      partition nextOffset).eval d = .ok ((), d')) :
    Effect c (.engineEvent (.tradeExecuted event)) d d' := by
  have hwallet := sameWallet_of_eval h
  obtain ⟨_, v₁, hstore, h⟩ := eval_bind_eq_ok h
  obtain ⟨insertedFill, v₂, hinsert, h⟩ := eval_bind_eq_ok h
  obtain ⟨_, v₃, hmaker, h⟩ := eval_bind_eq_ok h
  obtain ⟨_, v₄, htaker, h⟩ := eval_bind_eq_ok h
  obtain ⟨_, v₅, hproject, hoffset⟩ := eval_bind_eq_ok h
  have hreservation : ∀ participant : TradeParticipant,
      (c.stored (participant.orderId event)).reservationId =
        some (c.reservationId (participant.orderId event)) :=
    fun participant => hknown.toContextsKnown.reservationId_stored (htrade.stored participant)
  have horders := ordersStored hknown.toContextsKnown htrade hstore (hreservation .maker)
    (hreservation .taker)
  have hfills₁ : FillsListed c v₁ := hknown.fills.of_same horders.fills
  have htrade₁ : TradeKnown c v₁ event :=
    ⟨htrade.names, htrade.market, fun participant => by
      rw [horders.stored]
      exact htrade.stored participant⟩
  obtain ⟨hfill, hnew, hmarket⟩ :=
    fillStored horders.known htrade₁ hfillMarket hfills₁ hinsert hmaker htaker
  have htables₄ : PositionTables v₄ := by
    have hbefore : Quiet d v₁ := .of_writes (inArea_storeTradeOrders _ _ _) (by decide) hstore
    have hinsert : Quiet v₁ v₂ := .of_writes (inArea_insertFill _ _ _) (by decide) hinsert
    have hmaker : Quiet v₂ v₃ :=
      .of_writes (inArea_updateOrderAfterFillInTx _ _) (by decide) hmaker
    have htaker : Quiet v₃ v₄ :=
      .of_writes (inArea_updateOrderAfterFillInTx _ _) (by decide) htaker
    exact (((hbefore.trans hinsert).trans hmaker).trans htaker).tables hknown.tables
  obtain ⟨hproject, hpositions⟩ := positionsStored htables₄ htrade.market hproject
  have hlast := sameModel_saveQueueOffset hoffset
  have hsame : SameOrders v₄ d' := hproject.trans hlast.orders
  refine ⟨⟨hfill.known.of_same hsame.orderContexts, hwallet.reservedAmount.trans hknown.amount,
    fun orderId horder => ?_, ?_, htables⟩, fun k => ?_, fun k => ?_, fun marketId => ?_⟩
  · rw [hsame.orders] at horder
    rw [hsame.orderContexts]
    exact orders_known_of_trade hknown htrade horders hfill horder
  · exact hfill.fills.of_same hsame.fills
  · rw [hsame.orderContexts, hfill.stored, horders.stored]
    exact (or_iff_right id).symm
  · rw [ProjectorDb.report_congr hsame.orderContexts]
    exact reports_trade htrade horders hfill k
  · have hisNew : insertedFill = true ↔ (d.market c event.marketId).IsNew event := by
      rw [hnew, MarketModel.IsNew, MarketModel.IsNew]
      unfold ProjectorDb.market
      rw [horders.fills]
    have hevent : (Payload.engineEvent (.tradeExecuted event)).marketEvent marketId =
        if event.marketId = marketId then some (.tradeExecuted event) else none := rfl
    rw [market_of_same hlast.orders hlast.positions, hpositions, hmarket, horders.market, hevent]
    by_cases hm : event.marketId = marketId
    · subst hm
      simp only [if_true, true_and, Option.elim_some]
      show _ = (d.market c event.marketId).tradeExecuted c event
      unfold MarketModel.tradeExecuted
      cases insertedFill with
      | true =>
        simp only [if_true, if_pos (hisNew.1 rfl)]
        rfl
      | false =>
        have hold : ¬(d.market c event.marketId).IsNew event := fun h => absurd (hisNew.2 h) (by decide)
        simp only [Bool.false_eq_true, if_false, if_neg hold]
        rfl
    · simp only [hm, false_and, if_false, Option.elim_none]

/-- A trade that waits for the contexts of its orders. -/
theorem effect_projectTradeExecuted {topic : String} {partition nextOffset : ℤ}
    (hknown : Known c d) (hlists : c.Lists (.engineEvent (.tradeExecuted event)))
    (hwaits : Payload.Waits d (.engineEvent (.tradeExecuted event)))
    (h : (projectTradeExecuted event topic partition nextOffset).eval d = .ok ((), d')) :
    Effect c (.engineEvent (.tradeExecuted event)) d d' := by
  obtain ⟨hnamed, hfillMarket⟩ := hlists
  obtain ⟨more, hrun, -⟩ := (FillRun.start (d := d)).trade h
  obtain ⟨contexts, v, hload, htrade⟩ := eval_bind_eq_ok h
  obtain ⟨rfl, hmaker, htaker⟩ := loadTradeContextsInTx_ok hload
  obtain ⟨hnames, hstored, -, hcontext⟩ :=
    hknown.stored (hnamed .maker).1 (storedContext_of_loaded hwaits hmaker)
  obtain ⟨hnames', hstored', -, hcontext'⟩ :=
    hknown.stored (hnamed .taker).1 (storedContext_of_loaded hwaits htaker)
  have hmakerContext : contexts.1.withOrderId event.makerOrderId = c.stored event.makerOrderId :=
    hcontext
  have htakerContext : contexts.2.withOrderId event.takerOrderId = c.stored event.takerOrderId :=
    hcontext'
  rw [hmakerContext, htakerContext] at htrade
  refine effect_projectTrade hknown ⟨fun participant => ?_, fun participant => (hnamed participant).2,
    fun participant => ?_⟩ hfillMarket (hrun.tables hknown.tables) htrade
  · cases participant with
    | maker => exact hnames
    | taker => exact hnames'
  · cases participant with
    | maker => exact hstored
    | taker => exact hstored'

end Trades

/-! ## All records -/

section Records

variable {c : Catalogue} {d d' : ProjectorDb} {topic : String} {partition nextOffset : ℤ}

/-- A record that only moves the offset. -/
theorem effect_saveQueueOffset {payload : Payload} (hknown : Known c d)
    (hinputs : ∀ k, ¬payload.Inputs k)
    (hnothing : ∀ k, ¬payload.Mentions c k ∧ payload.reason k = none)
    (hmarket : ∀ marketId, payload.marketEvent marketId = none)
    (h : (saveQueueOffset topic partition nextOffset).eval d = .ok ((), d')) :
    Effect c payload d d' :=
  effect_of_same hknown (sameModel_saveQueueOffset h) hinputs hnothing hmarket

theorem effect_processEngineInput {input : EngineCommand} (hknown : Known c d)
    (hlists : c.Lists (.engineInput input))
    (h : (processEngineInput input topic partition nextOffset).eval d = .ok ((), d')) :
    Effect c (.engineInput input) d d' := by
  cases input with
  | placeOrder order =>
    obtain ⟨_, v, hstore, hoffset⟩ := eval_bind_eq_ok h
    obtain ⟨row, hset, hreport, hinput⟩ := setsContext_upsertOrderContext hstore
    exact Effect.and_then (hset.effect_input hknown (hinput.trans hlists.symm) hreport
      (fun _ => Iff.rfl) (fun _ => ⟨id, rfl⟩) fun _ => rfl) (sameModel_saveQueueOffset hoffset)
  | liquidatePosition liquidation =>
    obtain ⟨_, v, hstore, hoffset⟩ := eval_bind_eq_ok h
    obtain ⟨row, hset, hreport, hinput⟩ := setsContext_upsertOrderContext hstore
    exact Effect.and_then (hset.effect_input hknown (hinput.trans hlists.symm) hreport
      (fun _ => Iff.rfl) (fun _ => ⟨id, rfl⟩) fun _ => rfl) (sameModel_saveQueueOffset hoffset)
  | _ => exact effect_saveQueueOffset hknown (fun _ => id) (fun _ => ⟨id, rfl⟩) (fun _ => rfl) h

theorem effect_processEngineReply {reply : EngineReply} (hknown : Known c d)
    (hlists : c.Lists (.engineReply reply))
    (h : (processEngineReply reply topic partition nextOffset).eval d = .ok ((), d')) :
    Effect c (.engineReply reply) d d' := by
  cases reply with
  | orderAccepted reply =>
    exact effect_markAccepted hknown hlists h (fun _ => Iff.rfl) (fun _ => rfl) (fun _ => id)
      fun _ => rfl
  | liquidationAccepted reply =>
    exact effect_markAccepted hknown hlists h (fun _ => Iff.rfl) (fun _ => rfl) (fun _ => id)
      fun _ => rfl
  | orderRejected reply =>
    obtain ⟨_, v, hmark, hoffset⟩ := eval_bind_eq_ok h
    refine Effect.and_then ?_ (sameModel_saveQueueOffset hoffset)
    have hreason : ∀ k, (Payload.engineReply (.orderRejected reply)).reason k =
        if reply.reservationId = some k then some (some reply.reason) else none := fun _ => rfl
    cases hreservation : reply.reservationId with
    | none =>
      rw [hreservation] at hmark
      cases hmark
      refine effect_of_same hknown (.refl d) (fun _ => id) (fun k => ⟨id, ?_⟩) fun _ => rfl
      rw [hreason, hreservation]
      rfl
    | some reservationId =>
      rw [hreservation] at hmark
      refine effect_markRejected hknown hmark (fun _ => id) (fun k => ?_) (fun _ => id) fun _ => rfl
      rw [hreason, hreservation]
      exact if_congr Option.some_inj rfl rfl
  | liquidationRejected reply =>
    obtain ⟨_, v, hmark, hoffset⟩ := eval_bind_eq_ok h
    exact Effect.and_then (effect_markRejected hknown hmark (fun _ => id) (fun _ => rfl)
      (fun _ => id) fun _ => rfl) (sameModel_saveQueueOffset hoffset)
  | _ => exact effect_saveQueueOffset hknown (fun _ => id) (fun _ => ⟨id, rfl⟩) (fun _ => rfl) h

/-- The order book is no part of the read model of orders. -/
theorem sameModel_projectOrderbookDelta {event : OrderBookDelta}
    (h : (projectOrderbookDelta event topic partition nextOffset).eval d = .ok ((), d')) :
    SameModel d d' := by
  obtain ⟨inserted, v₁, hinsert, h⟩ := eval_bind_eq_ok h
  obtain ⟨apply, v₂, happly, h⟩ := eval_bind_eq_ok h
  obtain ⟨_, v₃, hlevels, hoffset⟩ := eval_bind_eq_ok h
  have h₁ : SameModel d v₁ :=
    .of_writes (inArea_insertOrderbookEvent _ _ _ _) (by decide) (by decide) hinsert
  have h₂ : SameModel v₁ v₂ := by
    split at happly
    · exact .of_writes (inArea_shouldApplyOrderbookDeltaInTx .orderbook _) (by decide) (by decide)
        happly
    · cases happly
      exact .refl v₁
  have h₃ : SameModel v₂ v₃ := by
    split at hlevels
    · exact .of_writes (inArea_applyOrderbookDelta _) (by decide) (by decide) hlevels
    · cases hlevels
      exact .refl v₂
  exact ((h₁.trans h₂).trans h₃).trans (sameModel_saveQueueOffset hoffset)

theorem sameModel_projectEngineEventLog {event : EngineEvent}
    (h : (projectEngineEventLog event topic partition nextOffset).eval d = .ok ((), d')) :
    SameModel d d' := by
  obtain ⟨_, v, hinsert, hoffset⟩ := eval_bind_eq_ok h
  have hkept : SameModel d v :=
    .of_writes (inArea_insertEngineEventLogInTx _ _ _ _) (by decide) (by decide) hinsert
  exact hkept.trans (sameModel_saveQueueOffset hoffset)

theorem effect_processEngineEvent {event : EngineEvent} (hknown : Known c d)
    (hlists : c.Lists (.engineEvent event)) (hwaits : Payload.Waits d (.engineEvent event))
    (h : (processEngineEvent event topic partition nextOffset).eval d = .ok ((), d')) :
    Effect c (.engineEvent event) d d' := by
  cases event with
  | orderOpened event => exact effect_projectOrderOpened hknown hlists h
  | orderCancelled event => exact effect_projectOrderCancelled hknown hlists h
  | tradeExecuted event => exact effect_projectTradeExecuted hknown hlists hwaits h
  | orderBookDelta event =>
    exact effect_of_same hknown (sameModel_projectOrderbookDelta h) (fun _ => id)
      (fun _ => ⟨id, rfl⟩) fun _ => rfl
  | _ =>
    exact effect_of_same hknown (sameModel_projectEngineEventLog h) (fun _ => id)
      (fun _ => ⟨id, rfl⟩) fun _ => rfl

/-- What a record does that agrees with the catalogue and waits for its contexts. -/
theorem effect_process {payload : Payload} (hknown : Known c d) (hlists : c.Lists payload)
    (hwaits : payload.Waits d)
    (h : (payload.process topic partition nextOffset).eval d = .ok ((), d')) :
    Effect c payload d d' := by
  cases payload with
  | engineInput input => exact effect_processEngineInput hknown hlists h
  | engineReply reply => exact effect_processEngineReply hknown hlists h
  | engineEvent event => exact effect_processEngineEvent hknown hlists hwaits h
  | walletEvent event =>
    exact effect_saveQueueOffset hknown (fun _ => id) (fun _ => ⟨id, rfl⟩) (fun _ => rfl) h
  | invalid =>
    exact effect_saveQueueOffset hknown (fun _ => id) (fun _ => ⟨id, rfl⟩) (fun _ => rfl) h

end Records

end Projector
