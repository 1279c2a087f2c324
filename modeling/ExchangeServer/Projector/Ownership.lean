import ExchangeServer.Projector.OrderStatus
import ExchangeServer.Projector.RecordTrades

/-!
# Whose orders and fills they are

The records say of each order and of each reservation whose it is and in which
market. When they say the same everywhere, what is stored under an order is always
its owner's: the contexts, the order itself and the two sides of each fill. This
needs no order of the records, and synthetic contexts do not break it.

## Main results

- `Owned.process`: what the transaction of a record keeps
- `owned_of_run`: the read model after every run
-/

namespace Projector

open Protocol Relational Transactional Program

/-! ## Owners -/

/-- The users and the markets of the reservations and of the orders. -/
structure Ownership where
  ofReservation : String → ℤ × ℤ
  ofOrder : ℤ → ℤ × ℤ

def OrderContextRow.owner (row : OrderContextRow) : ℤ × ℤ := (row.userId, row.marketId)

def OrderRow.owner (row : OrderRow) : ℤ × ℤ := (row.userId, row.marketId)

def StoredOrderContext.owner (context : StoredOrderContext) : ℤ × ℤ :=
  (context.userId, context.marketId)

namespace FillRow

variable (fill : FillRow)

def userId : TradeParticipant → ℤ
  | .maker => fill.makerId
  | .taker => fill.takerId

def orderId : TradeParticipant → ℤ
  | .maker => fill.makerOrderId
  | .taker => fill.takerOrderId

def side : TradeParticipant → SideType
  | .maker => fill.makerPosition
  | .taker => fill.takerPosition

def owner (participant : TradeParticipant) : ℤ × ℤ := (fill.userId participant, fill.marketId)

end FillRow

namespace Ownership

variable (o : Ownership)

/-- The reservation and the order have one owner. -/
def Names (reservationId : String) (orderId : ℤ) : Prop :=
  o.ofReservation reservationId = o.ofOrder orderId

/-- What a record says of its orders is so. -/
def Agrees : Payload → Prop
  | .engineInput (.placeOrder order) =>
    o.ofReservation order.reservationId = (order.envelope.userId, order.marketId)
  | .engineInput (.liquidatePosition liquidation) =>
    o.ofReservation liquidation.liquidationId = (liquidation.liquidatedUserId, liquidation.marketId)
  | .engineReply (.orderAccepted reply) => o.Names reply.reservationId reply.orderId
  | .engineReply (.liquidationAccepted reply) => o.Names reply.liquidationId reply.orderId
  | .engineEvent (.orderOpened event) => o.Names event.reservationId event.orderId
  | .engineEvent (.orderCancelled event) => o.Names event.reservationId event.orderId
  | .engineEvent (.tradeExecuted event) => ∀ participant : TradeParticipant,
      (participant.userId event, event.marketId) = o.ofOrder (participant.orderId event) ∧
        ∀ reservationId ∈ syntheticReservation event participant,
          o.Names reservationId (participant.orderId event)
  | _ => True

end Ownership

/-- Everything is stored under its owner, and the orders of a fill are stored. -/
structure Owned (o : Ownership) (d : ProjectorDb) : Prop where
  contexts : ∀ reservationId row, d.orderContexts.find? reservationId = some row →
    row.owner = o.ofReservation reservationId ∧ ∀ orderId ∈ row.orderId, o.Names reservationId orderId
  orders : ∀ orderId row, d.orders.find? orderId = some row → row.owner = o.ofOrder orderId
  fills : ∀ fill ∈ d.fills.rows, ∀ participant, fill.owner participant =
    o.ofOrder (fill.orderId participant) ∧ (d.orders.find? (fill.orderId participant)).isSome

/-- A context is its order's. -/
structure Ownership.Holds (o : Ownership) (context : StoredOrderContext) (orderId : ℤ) : Prop where
  owner : context.owner = o.ofOrder orderId
  reservation : ∀ reservationId ∈ context.reservationId, o.Names reservationId orderId

theorem Ownership.Holds.withOrderId {o : Ownership} {context : StoredOrderContext} {orderId : ℤ}
    (h : o.Holds context orderId) (x : ℤ) : o.Holds (context.withOrderId x) orderId :=
  ⟨h.owner, h.reservation⟩

section Statements

variable {o : Ownership} {d d' v : ProjectorDb} {orderId : ℤ} {reservationId : String}
  {context : StoredOrderContext}

theorem Owned.of_same (h : Owned o d) (hsame : SameOrders d d') : Owned o d' := by
  obtain ⟨hcontexts, horders, hfills⟩ := hsame
  refine ⟨?_, ?_, ?_⟩
  · rw [hcontexts]
    exact h.contexts
  · rw [horders]
    exact h.orders
  · rw [hfills, horders]
    exact h.fills

theorem Owned.saveQueueOffset (h : Owned o d) {topic : String} {partition nextOffset : ℤ}
    (heval : (saveQueueOffset topic partition nextOffset).eval d = .ok ((), d')) : Owned o d' :=
  h.of_same (sameModel_saveQueueOffset heval).orders

/-- A context has been stored for its owner. -/
theorem Owned.setsContext {row : OrderContextRow} (h : Owned o d)
    (hset : SetsContext d d' reservationId row) (howner : row.owner = o.ofReservation reservationId)
    (hnames : ∀ orderId ∈ row.orderId, o.Names reservationId orderId) : Owned o d' := by
  refine ⟨fun k stored hstored => ?_, ?_, ?_⟩
  · rw [hset.context] at hstored
    split at hstored
    · next hk =>
      cases hstored
      rw [hk]
      exact ⟨howner, hnames⟩
    · exact h.contexts k stored hstored
  · rw [hset.orders]
    exact h.orders
  · rw [hset.fills, hset.orders]
    exact h.fills

/-- Contexts have changed, and not their owners. -/
theorem Owned.mapsContexts {f : String → OrderContextRow → OrderContextRow} (h : Owned o d)
    (hmaps : MapsContexts d d' f) (howner : ∀ k row, (f k row).owner = row.owner)
    (hnames : ∀ k row, d.orderContexts.find? k = some row → ∀ orderId ∈ (f k row).orderId,
      o.Names k orderId) : Owned o d' := by
  refine ⟨fun k stored hstored => ?_, ?_, ?_⟩
  · rw [hmaps.contexts, Option.map_eq_some_iff] at hstored
    obtain ⟨row, hrow, rfl⟩ := hstored
    exact ⟨(howner k row).trans (h.contexts k row hrow).1, hnames k row hrow⟩
  · rw [hmaps.orders]
    exact h.orders
  · rw [hmaps.fills, hmaps.orders]
    exact h.fills

/-- An update of a context that may tell it an order. -/
theorem Owned.updateContext {change : OrderContextRow → OrderContextRow} (h : Owned o d)
    (heval : (execute (updateContext reservationId change)).eval d = .ok ((), d'))
    (hkey : ∀ row, (change row).reservationId = row.reservationId)
    (howner : ∀ row, (change row).owner = row.owner)
    (hnames : ∀ row, d.orderContexts.find? reservationId = some row →
      ∀ x ∈ (change row).orderId, o.Names reservationId x) : Owned o d' := by
  refine h.mapsContexts (updateContext_ok heval hkey) (fun k row => ?_) fun k row hrow x hx => ?_
  · split
    · exact howner row
    · rfl
  · split at hx
    · next hk =>
      subst hk
      exact hnames row hrow x hx
    · exact (h.contexts k row hrow).2 x hx

/-- An order has changed, and not its owner. -/
theorem Owned.setsOrder {row : Option OrderRow} (h : Owned o d)
    (hset : SetsOrder d d' orderId row) (howner : ∀ r ∈ row, r.owner = o.ofOrder orderId)
    (hkept : (d.orders.find? orderId).isSome → row.isSome) : Owned o d' := by
  have hstored : ∀ k, (d.orders.find? k).isSome → (d'.orders.find? k).isSome := by
    intro k hk
    rw [hset.order]
    split
    · next heq =>
      subst heq
      exact hkept hk
    · exact hk
  refine ⟨?_, fun k r hr => ?_, fun fill hfill => ?_⟩
  · rw [hset.contexts]
    exact h.contexts
  · rw [hset.order] at hr
    split at hr
    · next heq =>
      subst heq
      exact howner r hr
    · exact h.orders k r hr
  · rw [hset.fills] at hfill
    exact fun participant => (h.fills fill hfill participant).imp_right (hstored _)

/-- The order of a context is inserted, or changed on its conflict. -/
theorem Owned.upsertOrder {status : OrderStatus} {onConflict : OrderRow → Option OrderRow}
    (h : Owned o d) (howner : context.owner = o.ofOrder orderId)
    (heval : (execute (upsertOrder context orderId status onConflict)).eval d = .ok ((), d'))
    (hkey : ∀ stored, ∀ row ∈ onConflict stored,
      row.orderId = stored.orderId ∧ row.owner = stored.owner) : Owned o d' := by
  obtain ⟨check, hset⟩ := upsertOrder_ok heval fun stored row hrow => (hkey stored row hrow).1
  refine h.setsOrder hset (fun r hr => ?_) fun _ => rfl
  cases hr
  cases hstored : d.orders.find? orderId with
  | none => exact howner
  | some stored =>
    have hbefore := h.orders orderId stored hstored
    simp only [upserted]
    cases hconflict : onConflict stored with
    | none => exact hbefore
    | some row => exact (hkey stored row hconflict).2.trans hbefore

theorem loadContextForOrderInTx_ok {reservationId : Option String}
    (heval : (loadContextForOrderInTx reservationId orderId).eval d = .ok (context, d')) :
    d.storedContext reservationId orderId = some context := by
  unfold loadContextForOrderInTx at heval
  rw [eval_bind_ok (eval_maybeLoadContextForOrderInTx _ _ d)] at heval
  cases hcontext : d.storedContext reservationId orderId with
  | none =>
    rw [hcontext] at heval
    cases heval
  | some stored =>
    rw [hcontext] at heval
    cases heval
    rfl

/-- The context that is found for an order is its own. -/
theorem Owned.storedContext (h : Owned o d) {reservationId : Option String}
    (hnamed : ∀ r ∈ reservationId, o.Names r orderId)
    (hcontext : d.storedContext reservationId orderId = some context) : o.Holds context orderId := by
  have hrow : ∀ row ∈ d.orderContexts.rows, o.Names row.reservationId orderId →
      o.Holds (d.joined row) orderId := by
    intro row hmem hnames
    refine ⟨(h.contexts _ row (Table.find?_of_mem hmem)).1.trans hnames, ?_⟩
    rintro _ ⟨⟩
    exact hnames
  unfold ProjectorDb.storedContext at hcontext
  rw [Option.or_eq_some_iff, Option.or_eq_some_iff] at hcontext
  rcases hcontext with hreservation | ⟨-, horder | ⟨-, horder⟩⟩
  · obtain ⟨r, hr, hfound⟩ := Option.bind_eq_some_iff.1 hreservation
    obtain ⟨row, hfind, rfl⟩ := Option.map_eq_some_iff.1 hfound
    refine hrow row (Table.mem_of_find? hfind) ?_
    rw [Table.key_of_find? hfind]
    exact hnamed r hr
  · obtain ⟨row, hindex, rfl⟩ := Option.map_eq_some_iff.1 horder
    obtain ⟨hmem, hj⟩ := Indexed.mem_of_byIndex hindex
    have hid : orderId ∈ row.orderId := by simpa [OrderContextRow.indices] using hj
    exact hrow row hmem ((h.contexts _ row (Table.find?_of_mem hmem)).2 orderId hid)
  · obtain ⟨row, hfind, rfl⟩ := Option.map_eq_some_iff.1 horder
    exact ⟨h.orders orderId row hfind, fun _ hr => absurd hr (Option.not_mem_none _)⟩

end Statements

/-! ## Trades -/

/-- The context with which a participant of a trade is projected: the one that is
stored, or the one that stands for it. -/
def Uses (d : ProjectorDb) (event : TradeExecuted) (participant : TradeParticipant)
    (context : StoredOrderContext) : Prop :=
  d.storedContext (participant.reservationId event) (participant.orderId event) = some context ∨
    context.owner = (participant.userId event, event.marketId) ∧
      context.reservationId = syntheticReservation event participant

section Trades

variable {o : Ownership} {d d' v : ProjectorDb} {event : TradeExecuted}
  {maker taker : StoredOrderContext}

theorem orSynthetic_uses {participant : TradeParticipant} {stored : Option StoredOrderContext}
    {marketName : String} {counterpartSide : Option SideType} {context : StoredOrderContext}
    (h : (orSynthetic stored event participant marketName counterpartSide).eval d =
      .ok (context, d')) :
    stored = some context ∨ context.owner = (participant.userId event, event.marketId) ∧
      context.reservationId = syntheticReservation event participant := by
  cases stored with
  | some stored =>
    cases h
    exact .inl rfl
  | none =>
    refine .inr ?_
    unfold orSynthetic syntheticLiquidationContext at h
    simp only at h
    split at h
    · cases h
    · cases h
      exact ⟨rfl, rfl⟩

theorem loadTradeContextsInTx_uses {contexts : StoredOrderContext × StoredOrderContext}
    (h : (loadTradeContextsInTx event).eval d = .ok (contexts, d')) :
    d' = d ∧ Uses d event .maker contexts.1 ∧ Uses d event .taker contexts.2 := by
  refine ⟨eq_of_inArea (fun area => inArea_loadTradeContextsInTx area event) h, ?_⟩
  unfold loadTradeContextsInTx at h
  rw [eval_bind_ok (eval_maybeLoadContextForOrderInTx _ _ d),
    eval_bind_ok (eval_maybeLoadContextForOrderInTx _ _ d)] at h
  split at h
  · obtain ⟨marketName, v, -, h⟩ := eval_bind_eq_ok h
    obtain ⟨maker, v₁, hmaker, h⟩ := eval_bind_eq_ok h
    obtain ⟨taker, v₂, htaker, h⟩ := eval_bind_eq_ok h
    cases h
    exact ⟨orSynthetic_uses hmaker, orSynthetic_uses htaker⟩
  · obtain ⟨maker, v₁, hmaker, h⟩ := eval_bind_eq_ok h
    obtain ⟨taker, v₂, htaker, h⟩ := eval_bind_eq_ok h
    cases h
    exact ⟨.inl (orMissing_ok hmaker), .inl (orMissing_ok htaker)⟩

/-- Whichever context a participant is projected with, it is its order's. -/
theorem Owned.uses (h : Owned o d) {participant : TradeParticipant} {context : StoredOrderContext}
    (hagrees : o.Agrees (.engineEvent (.tradeExecuted event)))
    (huses : Uses d event participant context) : o.Holds context (participant.orderId event) := by
  obtain ⟨howner, hnamed⟩ := hagrees participant
  rcases huses with hstored | ⟨hsynthetic, hreservation⟩
  · refine h.storedContext (fun r hr => hnamed r ?_) hstored
    rw [syntheticReservation, hr]
    rfl
  · refine ⟨hsynthetic.trans howner, fun r hr => hnamed r ?_⟩
    rw [← hreservation]
    exact hr

/-- What has been stored of a fill: its two contexts and its orders, when it is new. -/
theorem insertFill_cases {b : Bool}
    (h : (execute (insertFill event maker taker)).eval d = .ok (b, d')) :
    (b = false ∧ d' = d) ∨
      b = true ∧ ∃ check, d' = { d with fills := d.fills.put (fillRow event maker taker check) } ∧
        d.fills.find? event.fillId = none ∧ d.fills.Admits (fillRow event maker taker check) ∧
          (d.orders.find? event.makerOrderId).isSome ∧ (d.orders.find? event.takerOrderId).isSome := by
  obtain ⟨ws, hs, rfl⟩ := eval_execute_eq_ok h
  unfold insertFill at hs
  split at hs
  · next check =>
    simp only at hs
    split at hs
    · next hnew =>
      split at hs
      · next hstored =>
        cases hs
        exact .inr ⟨rfl, check, rfl, hnew.1, hnew.2, hstored.2.2⟩
      · cases hs
    · cases hs
      exact .inl ⟨rfl, rfl⟩
  · cases hs

theorem Owned.insertFill {b : Bool} (h : Owned o d)
    (hmaker : (maker.userId, event.marketId) = o.ofOrder event.makerOrderId)
    (htaker : (taker.userId, event.marketId) = o.ofOrder event.takerOrderId)
    (heval : (execute (insertFill event maker taker)).eval d = .ok (b, d')) : Owned o d' := by
  obtain ⟨-, rfl⟩ | ⟨-, check, rfl, hfree, hadmits, hmakerOrder, htakerOrder⟩ :=
    insertFill_cases heval
  · exact h
  · refine ⟨h.contexts, h.orders, fun fill hfill => ?_⟩
    have hfill : fill ∈ (d.fills.put (fillRow event maker taker check)).rows := hfill
    rw [Indexed.toTable_put hadmits] at hfill
    rcases Table.mem_upsert_cases hfill with rfl | ⟨hmem, -⟩
    · exact TradeParticipant.forall_iff.2 ⟨⟨hmaker, hmakerOrder⟩, htaker, htakerOrder⟩
    · exact h.fills fill hmem

/-- The statuses of an order and of its contexts after a fill. -/
theorem Owned.updateOrderAfterFillInTx {context : StoredOrderContext} {orderId : ℤ} (h : Owned o d)
    (heval : (updateOrderAfterFillInTx context orderId).eval d = .ok ((), d')) : Owned o d' := by
  obtain ⟨filled, v, hsum, hrest⟩ := eval_bind_eq_ok heval
  obtain ⟨_, w, horder, hcontexts⟩ := eval_bind_eq_ok hrest
  obtain rfl : v = d := by
    obtain ⟨ws, hs, rfl⟩ := eval_execute_eq_ok hsum
    unfold selectFilledQuantity at hs
    split at hs
    · cases hs
      rfl
    · cases hs
  have hupdated : Owned o w := by
    refine h.setsOrder (updateOrderStatus_ok horder) (fun r hr => ?_) fun hsome => ?_
    · obtain ⟨stored, hstored, rfl⟩ := Option.map_eq_some_iff.1 hr
      exact h.orders orderId stored hstored
    · rw [Option.isSome_map]
      exact hsome
  refine hupdated.mapsContexts (updateContextStatus_ok hcontexts) (fun k row => ?_)
    fun k row hrow x hx => (hupdated.contexts k row hrow).2 x ?_
  · split <;> rfl
  · split at hx <;> exact hx

theorem Owned.updateContextOrderIdInTx {reservationId : Option String} {orderId : ℤ} (h : Owned o d)
    (hnamed : ∀ r ∈ reservationId, o.Names r orderId)
    (heval : (updateContextOrderIdInTx reservationId orderId).eval d = .ok ((), d')) :
    Owned o d' := by
  cases reservationId with
  | none =>
    cases heval
    exact h
  | some reservationId =>
    refine h.updateContext heval (fun _ => rfl) (fun _ => rfl) fun row hrow x hx => ?_
    have hx : some (row.orderId.getD orderId) = some x := hx
    cases hid : row.orderId with
    | none =>
      rw [hid] at hx
      cases hx
      exact hnamed _ rfl
    | some y =>
      rw [hid] at hx
      cases hx
      exact (h.contexts _ row hrow).2 _ hid

/-- A trade is stored under the orders it names. -/
theorem Owned.projectTradeExecuted {topic : String} {partition nextOffset : ℤ} (h : Owned o d)
    (hagrees : o.Agrees (.engineEvent (.tradeExecuted event)))
    (heval : (projectTradeExecuted event topic partition nextOffset).eval d = .ok ((), d')) :
    Owned o d' := by
  obtain ⟨contexts, v, hload, htrade⟩ := eval_bind_eq_ok heval
  obtain ⟨rfl, hmaker, htaker⟩ := loadTradeContextsInTx_uses hload
  have hmaker := (h.uses hagrees hmaker).withOrderId event.makerOrderId
  have htaker := (h.uses hagrees htaker).withOrderId event.takerOrderId
  obtain ⟨_, v₁, hstore, htrade⟩ := eval_bind_eq_ok htrade
  obtain ⟨insertedFill, v₂, hinsert, htrade⟩ := eval_bind_eq_ok htrade
  obtain ⟨_, v₃, hupdate, htrade⟩ := eval_bind_eq_ok htrade
  obtain ⟨_, v₄, hupdate', htrade⟩ := eval_bind_eq_ok htrade
  obtain ⟨_, v₅, hproject, hoffset⟩ := eval_bind_eq_ok htrade
  have hstored : Owned o v₁ := by
    obtain ⟨_, w₁, hmakerOrder, hstore⟩ := eval_bind_eq_ok hstore
    obtain ⟨_, w₂, htakerOrder, hstore⟩ := eval_bind_eq_ok hstore
    obtain ⟨_, w₃, hmakerContext, htakerContext⟩ := eval_bind_eq_ok hstore
    have h₁ : Owned o w₁ := h.upsertOrder hmaker.owner hmakerOrder (by rintro stored row ⟨⟩)
    have h₂ : Owned o w₂ := h₁.upsertOrder htaker.owner htakerOrder (by rintro stored row ⟨⟩)
    exact (h₂.updateContextOrderIdInTx hmaker.reservation hmakerContext).updateContextOrderIdInTx
      htaker.reservation htakerContext
  have hmarket : ∀ {participant : TradeParticipant} {context : StoredOrderContext},
      o.Holds context (participant.orderId event) →
        (context.userId, event.marketId) = o.ofOrder (participant.orderId event) := by
    intro participant context hholds
    have hmarketId : event.marketId = context.marketId :=
      congrArg Prod.snd ((hagrees participant).1.trans hholds.owner.symm)
    rw [hmarketId]
    exact hholds.owner
  have hfilled : Owned o v₂ := hstored.insertFill (hmarket hmaker) (hmarket htaker) hinsert
  have hupdated : Owned o v₄ :=
    (hfilled.updateOrderAfterFillInTx hupdate).updateOrderAfterFillInTx hupdate'
  refine (hupdated.of_same ?_).saveQueueOffset hoffset
  split at hproject
  · exact .of_writes (inArea_projectNewFill _ _ _) (by decide) hproject
  · cases hproject
    exact .refl v₄

end Trades

/-! ## All records -/

section Records

variable {o : Ownership} {d d' : ProjectorDb} {topic : String} {partition nextOffset : ℤ}

/-- An input is stored for its owner. -/
theorem Owned.upsertOrderContext {reservationId requestId : String} {userId marketId : ℤ}
    {marketName : String} {side : SideType} {orderType : DbOrderType} {quantity price : ℤ}
    {reduceOnly : Bool} (h : Owned o d)
    (howner : o.ofReservation reservationId = (userId, marketId))
    (heval : (execute (upsertOrderContext reservationId requestId userId marketId marketName side
      orderType quantity price reduceOnly)).eval d = .ok ((), d')) : Owned o d' := by
  obtain ⟨row, hset, hreport, hinput⟩ := setsContext_upsertOrderContext heval
  have hrow : row.owner = (userId, marketId) := congrArg StoredOrderContext.owner hinput
  have hid : row.orderId = (d.report reservationId).orderId := congrArg Report.orderId hreport
  refine h.setsContext hset (hrow.trans howner.symm) fun x hx => ?_
  rw [hid] at hx
  cases hstored : d.orderContexts.find? reservationId with
  | none =>
    rw [ProjectorDb.report, hstored] at hx
    cases hx
  | some stored =>
    rw [ProjectorDb.report_of_find? hstored] at hx
    exact (h.contexts _ stored hstored).2 x hx

theorem Owned.markAccepted {reservationId : String} {orderId : ℤ} (h : Owned o d)
    (hnames : o.Names reservationId orderId)
    (heval : (markAccepted reservationId orderId topic partition nextOffset).eval d = .ok ((), d')) :
    Owned o d' := by
  obtain ⟨context, v, hload, hrest⟩ := eval_bind_eq_ok heval
  obtain ⟨rfl, -⟩ := loadContextByReservationInTx_ok hload
  obtain ⟨_, w, hupdate, hoffset⟩ := eval_bind_eq_ok hrest
  refine (h.updateContext hupdate (fun _ => rfl) (fun _ => rfl) fun row _ x hx => ?_).saveQueueOffset
    hoffset
  cases hx
  exact hnames

theorem Owned.markRejected {reservationId reason : String} (h : Owned o d)
    (heval : (markRejected reservationId reason).eval d = .ok ((), d')) : Owned o d' := by
  obtain ⟨context, v, hload, hupdate⟩ := eval_bind_eq_ok heval
  obtain ⟨rfl, -⟩ := loadContextByReservationInTx_ok hload
  exact h.updateContext hupdate (fun _ => rfl) (fun _ => rfl) fun row hrow =>
    (h.contexts _ row hrow).2

theorem Owned.projectOrderOpened {event : OrderOpened} (h : Owned o d)
    (hnames : o.Names event.reservationId event.orderId)
    (heval : (projectOrderOpened event topic partition nextOffset).eval d = .ok ((), d')) :
    Owned o d' := by
  obtain ⟨context, v, hload, hrest⟩ := eval_bind_eq_ok heval
  obtain ⟨rfl, row, hrow, rfl⟩ := loadContextByReservationInTx_ok hload
  obtain ⟨_, w, hupdate, hrest⟩ := eval_bind_eq_ok hrest
  obtain ⟨_, w', hupsert, hoffset⟩ := eval_bind_eq_ok hrest
  have hupdated : Owned o w := by
    refine h.updateContext hupdate (fun _ => rfl) (fun _ => rfl) fun row _ x hx => ?_
    cases hx
    exact hnames
  have howner : ((v.joined row).withOrderId event.orderId).owner = o.ofOrder event.orderId :=
    (h.contexts _ row hrow).1.trans hnames
  refine (hupdated.upsertOrder howner hupsert ?_).saveQueueOffset hoffset
  rintro stored row ⟨⟩
  exact ⟨rfl, rfl⟩

theorem Owned.projectOrderCancelled {event : OrderCancelled} (h : Owned o d)
    (hnames : o.Names event.reservationId event.orderId)
    (heval : (projectOrderCancelled event topic partition nextOffset).eval d = .ok ((), d')) :
    Owned o d' := by
  obtain ⟨context, v, hload, hrest⟩ := eval_bind_eq_ok heval
  obtain rfl : v = d := eq_of_inArea (fun area => inArea_loadContextForOrderInTx area _ _) hload
  obtain ⟨_, w, hupdate, hrest⟩ := eval_bind_eq_ok hrest
  obtain ⟨_, w', hupsert, hoffset⟩ := eval_bind_eq_ok hrest
  have hcontext : v.storedContext (some event.reservationId) event.orderId = some context :=
    loadContextForOrderInTx_ok hload
  have hholds := (h.storedContext (fun r hr => Option.some.inj hr ▸ hnames) hcontext).withOrderId
    event.orderId
  have hupdated : Owned o w := by
    refine h.updateContext hupdate (fun _ => rfl) (fun _ => rfl) fun row hrow x hx => ?_
    have hx : some (row.orderId.getD event.orderId) = some x := hx
    cases hid : row.orderId with
    | none =>
      rw [hid] at hx
      cases hx
      exact hnames
    | some y =>
      rw [hid] at hx
      cases hx
      exact (h.contexts _ row hrow).2 _ hid
  refine (hupdated.upsertOrder hholds.owner hupsert ?_).saveQueueOffset hoffset
  rintro stored row ⟨⟩
  exact ⟨rfl, rfl⟩

/-- The transaction of a record that says what is so. -/
theorem Owned.process {payload : Payload} (h : Owned o d) (hagrees : o.Agrees payload)
    (heval : (payload.process topic partition nextOffset).eval d = .ok ((), d')) : Owned o d' := by
  cases payload with
  | engineInput input =>
    cases input with
    | placeOrder order =>
      obtain ⟨_, v, hstore, hoffset⟩ := eval_bind_eq_ok heval
      exact (h.upsertOrderContext hagrees hstore).saveQueueOffset hoffset
    | liquidatePosition liquidation =>
      obtain ⟨_, v, hstore, hoffset⟩ := eval_bind_eq_ok heval
      exact (h.upsertOrderContext hagrees hstore).saveQueueOffset hoffset
    | _ => exact h.saveQueueOffset heval
  | engineReply reply =>
    cases reply with
    | orderAccepted reply => exact h.markAccepted hagrees heval
    | liquidationAccepted reply => exact h.markAccepted hagrees heval
    | orderRejected reply =>
      obtain ⟨_, v, hmark, hoffset⟩ := eval_bind_eq_ok heval
      refine Owned.saveQueueOffset ?_ hoffset
      cases hreservation : reply.reservationId with
      | none =>
        rw [hreservation] at hmark
        cases hmark
        exact h
      | some reservationId =>
        rw [hreservation] at hmark
        exact h.markRejected hmark
    | liquidationRejected reply =>
      obtain ⟨_, v, hmark, hoffset⟩ := eval_bind_eq_ok heval
      exact (h.markRejected hmark).saveQueueOffset hoffset
    | _ => exact h.saveQueueOffset heval
  | engineEvent event =>
    cases event with
    | orderOpened event => exact h.projectOrderOpened hagrees heval
    | orderCancelled event => exact h.projectOrderCancelled hagrees heval
    | tradeExecuted event => exact h.projectTradeExecuted hagrees heval
    | orderBookDelta event => exact h.of_same (sameModel_projectOrderbookDelta heval).orders
    | _ => exact h.of_same (sameModel_projectEngineEventLog heval).orders
  | walletEvent event => exact h.saveQueueOffset heval
  | invalid => exact h.saveQueueOffset heval

/-! ## Runs -/

theorem sameOrders_saveLog {event : EngineEvent}
    (h : (saveEngineEventLog event topic partition nextOffset).eval d = .ok ((), d')) :
    SameOrders d d' := by
  obtain ⟨_, v, hinsert, hend⟩ := eval_bind_eq_ok h
  cases hend
  exact .of_writes (inArea_insertEngineEventLogInTx _ _ _ _) (by decide) hinsert

theorem Owned.commit {t : Transaction} (h : Owned o d) (hagrees : ∀ payload ∈ t.payload, o.Agrees payload)
    (hcommit : commit d t = some d') : Owned o d' := by
  have heval := commit_eq_some_iff.1 hcommit
  cases t with
  | saveLog event topic partition nextOffset => exact h.of_same (sameOrders_saveLog heval)
  | process payload topic partition nextOffset => exact h.process (hagrees payload rfl) heval

theorem owned_empty (o : Ownership) (users : List ℤ) (amount : String → Option ℤ)
    (markets : Table MarketRow.marketId) : Owned o (.empty users amount markets) := by
  refine ⟨fun k row h => ?_, fun k row h => ?_, fun fill h => absurd h List.not_mem_nil⟩
  · cases h
  · cases h

/-- Everything is stored under its owner after every run. -/
theorem owned_of_run {ts : List Transaction} (h : Owned o d)
    (hagrees : ∀ t ∈ ts, ∀ payload ∈ t.payload, o.Agrees payload)
    (hrun : Machine.run Projector.commit d ts = some d') : Owned o d' := by
  induction ts generalizing d with
  | nil =>
    cases hrun
    exact h
  | cons t ts ih =>
    rw [Machine.run_cons] at hrun
    obtain ⟨v, hcommit, hrest⟩ := Option.bind_eq_some_iff.1 hrun
    exact ih (h.commit (hagrees t List.mem_cons_self) hcommit)
      (fun x hx => hagrees x (List.mem_cons_of_mem t hx)) hrest

end Records

/-! ## A trade of two users -/

def ownersOfReserved : Ownership where
  ofReservation reservationId := if reservationId = "r1" then (1, 7) else (2, 7)
  ofOrder orderId := if orderId = 1 then (1, 7) else (2, 7)

def placeAndTrade : List Transaction :=
  placeBoth ++ [eventRecord (.tradeExecuted tradeOfReserved) 1]

theorem agrees_placeAndTrade :
    ∀ t ∈ placeAndTrade, ∀ payload ∈ t.payload, ownersOfReserved.Agrees payload := by
  have htrade : ownersOfReserved.Agrees (.engineEvent (.tradeExecuted tradeOfReserved)) := by
    refine TradeParticipant.forall_iff.2 ⟨⟨rfl, ?_⟩, rfl, ?_⟩
    · rintro _ ⟨⟩
      rfl
    · rintro _ ⟨⟩
      rfl
  intro t ht payload hpayload
  simp only [placeAndTrade, placeBoth, List.cons_append, List.nil_append, List.mem_cons,
    List.not_mem_nil, or_false] at ht
  rcases ht with rfl | rfl | rfl
  · cases hpayload
    rfl
  · cases hpayload
    rfl
  · cases hpayload
    exact htrade

end Projector
