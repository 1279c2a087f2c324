import ExchangeServer.Projector.MarketSteps

/-!
# What a record does to the read model

A record that agrees with the catalogue does to the read model of each market
what its event does, and to the context of each reservation what it reports of
it. Neither depends on what else has been stored before.

## Main results

- `Known.stored`: the context that a transaction finds is that of the catalogue
- `Effect`: what a record does
- `effect_markAccepted`, `effect_markRejected`: replies
- `effect_projectOrderOpened`, `effect_projectOrderCancelled`: openings and
  cancellations
-/

namespace Projector

open Protocol Relational Transactional Program

/-! ## Records and the catalogue -/

/-- The context that an input stores, without what replies and events add. -/
def inputContext (reservationId requestId : String) (userId marketId : ℤ) (marketName : String)
    (side : SideType) (orderType : DbOrderType) (quantity price : ℤ) (reduceOnly : Bool) :
    StoredOrderContext where
  reservationId := some reservationId
  requestId := requestId
  orderId := none
  userId := userId
  marketId := marketId
  marketName := marketName
  side := side
  orderType := orderType
  quantity := quantity
  price := price
  margin := 0
  reduceOnly := reduceOnly

def orderContext (order : ReservedPlaceOrder) : StoredOrderContext :=
  inputContext order.reservationId order.envelope.requestId order.envelope.userId order.marketId
    order.marketName (sideToDb order.side) (orderTypeToDb order.orderType) order.quantity order.price
    order.reduceOnly

def liquidationContext (liquidation : LiquidatePosition) : StoredOrderContext :=
  inputContext liquidation.liquidationId liquidation.envelope.requestId liquidation.liquidatedUserId
    liquidation.marketId liquidation.marketName (oppositeSide liquidation.positionSide)
    (if liquidation.price = 0 then .MARKET else .LIMIT) liquidation.quantity liquidation.price true

/-- What a record says of its orders is in the catalogue. -/
def Catalogue.Lists (c : Catalogue) : Payload → Prop
  | .engineInput (.placeOrder order) => c.context order.reservationId = orderContext order
  | .engineInput (.liquidatePosition liquidation) =>
    c.context liquidation.liquidationId = liquidationContext liquidation
  | .engineReply (.orderAccepted reply) => c.Names reply.reservationId reply.orderId
  | .engineReply (.liquidationAccepted reply) => c.Names reply.liquidationId reply.orderId
  | .engineEvent (.orderOpened event) =>
    c.Names event.reservationId event.orderId ∧ c.marketId event.orderId = event.marketId
  | .engineEvent (.orderCancelled event) =>
    c.Names event.reservationId event.orderId ∧ c.marketId event.orderId = event.marketId
  | .engineEvent (.tradeExecuted event) =>
    (∀ participant : TradeParticipant,
      (∀ reservationId ∈ participant.reservationId event,
        c.Names reservationId (participant.orderId event)) ∧
      c.marketId (participant.orderId event) = event.marketId) ∧
    c.fillMarket event.fillId = event.marketId
  | _ => True

theorem TradeParticipant.forall_iff {P : TradeParticipant → Prop} :
    (∀ participant, P participant) ↔ P .maker ∧ P .taker := by
  refine ⟨fun h => ⟨h .maker, h .taker⟩, fun h participant => ?_⟩
  cases participant with
  | maker => exact h.1
  | taker => exact h.2

namespace Payload

/-- The record is the input of a reservation. -/
def Inputs (reservationId : String) : Payload → Prop
  | .engineInput (.placeOrder order) => order.reservationId = reservationId
  | .engineInput (.liquidatePosition liquidation) => liquidation.liquidationId = reservationId
  | _ => False

/-- The record tells the order of a reservation. -/
def Mentions (c : Catalogue) (reservationId : String) : Payload → Prop
  | .engineReply (.orderAccepted reply) => reply.reservationId = reservationId
  | .engineReply (.liquidationAccepted reply) => reply.liquidationId = reservationId
  | .engineEvent (.orderOpened event) => event.reservationId = reservationId
  | .engineEvent (.orderCancelled event) => event.reservationId = reservationId
  | .engineEvent (.tradeExecuted event) =>
    c.reservationId event.makerOrderId = reservationId ∨
      c.reservationId event.takerOrderId = reservationId
  | _ => False

/-- The reason of rejection that a reply leaves with a reservation: an acceptance
leaves none. -/
def reason (reservationId : String) : Payload → Option (Option String)
  | .engineReply (.orderAccepted reply) =>
    if reply.reservationId = reservationId then some none else none
  | .engineReply (.liquidationAccepted reply) =>
    if reply.liquidationId = reservationId then some none else none
  | .engineReply (.orderRejected reply) =>
    if reply.reservationId = some reservationId then some (some reply.reason) else none
  | .engineReply (.liquidationRejected reply) =>
    if reply.liquidationId = reservationId then some (some reply.reason) else none
  | _ => none

/-- The event, when it changes the orders of a market. -/
def marketEvent (marketId : ℤ) : Payload → Option EngineEvent
  | .engineEvent (.orderOpened event) =>
    if event.marketId = marketId then some (.orderOpened event) else none
  | .engineEvent (.orderCancelled event) =>
    if event.marketId = marketId then some (.orderCancelled event) else none
  | .engineEvent (.tradeExecuted event) =>
    if event.marketId = marketId then some (.tradeExecuted event) else none
  | _ => none

/-- A trade is projected with the stored contexts of its orders. -/
def Waits (d : ProjectorDb) : Payload → Prop
  | .engineEvent (.tradeExecuted event) => isSyntheticLiquidationOrAdlTrade event = true →
    ∀ participant : TradeParticipant,
      (d.storedContext (participant.reservationId event) (participant.orderId event)).isSome
  | _ => True

instance (reservationId : String) (payload : Payload) :
    Decidable (payload.Inputs reservationId) := by
  cases payload with
  | engineInput input =>
    cases input with
    | placeOrder order => exact inferInstanceAs (Decidable (_ = _))
    | liquidatePosition liquidation => exact inferInstanceAs (Decidable (_ = _))
    | _ => exact isFalse id
  | _ => exact isFalse id

instance (d : ProjectorDb) (payload : Payload) : Decidable (payload.Waits d) := by
  cases payload with
  | engineEvent event =>
    cases event with
    | tradeExecuted event =>
      have : Decidable (∀ participant : TradeParticipant,
          (d.storedContext (participant.reservationId event) (participant.orderId event)).isSome) :=
        decidable_of_iff _ TradeParticipant.forall_iff.symm
      exact inferInstanceAs (Decidable (_ → _))
    | _ => exact isTrue trivial
  | _ => exact isTrue trivial

end Payload

/-! ## What is stored agrees with the catalogue -/

/-- The contexts are those of the inputs, and their orders are theirs. -/
structure ContextsKnown (c : Catalogue) (d : ProjectorDb) : Prop where
  context : ∀ reservationId row, d.orderContexts.find? reservationId = some row →
    row.input = c.context reservationId
  names : ∀ reservationId row, d.orderContexts.find? reservationId = some row →
    ∀ orderId ∈ row.orderId, c.Names reservationId orderId

/-- Orders and fills belong to contexts that are known and to their markets. -/
structure Known (c : Catalogue) (d : ProjectorDb) : Prop extends ContextsKnown c d where
  amount : d.reservedAmount = c.amount
  orders : ∀ orderId, (d.orders.find? orderId).isSome →
    ∃ row, d.orderContexts.find? (c.reservationId orderId) = some row ∧ row.orderId = some orderId
  fills : FillsListed c d
  tables : PositionTables d

/-- The read model and what comes from the wallet are the same. -/
structure SameModel (d d' : ProjectorDb) : Prop where
  orders : SameOrders d d'
  positions : SamePositions d d'
  wallet : SameWallet d d'

section Known

variable {c : Catalogue} {d d' v : ProjectorDb}

theorem sameWallet_of_eval {α : Type} {p : Tx α} {a : α} (h : p.eval d = .ok (a, d')) :
    SameWallet d d' := by
  have hwrites : p.Writes fun _ => True := by
    clear h
    induction p with
    | ret result => trivial
    | stmt s next ih => exact ⟨fun _ _ _ _ _ _ => trivial, ih⟩
    | commit next ih => exact ih
    | rollback next ih => exact ih
  obtain ⟨ws, -, rfl⟩ := eval_of_writes hwrites h
  exact .view ws d

theorem SameModel.refl (d : ProjectorDb) : SameModel d d := ⟨.refl d, .refl d, .refl d⟩

theorem SameModel.trans (h : SameModel d v) (h' : SameModel v d') : SameModel d d' :=
  ⟨h.orders.trans h'.orders, h.positions.trans h'.positions, h.wallet.trans h'.wallet⟩

theorem SameModel.of_writes {α : Type} {p : Tx α} {a : α} {area : Area} (harea : InArea area p)
    (horders : area ≠ .orders) (hpositions : area ≠ .positions) (h : p.eval d = .ok (a, d')) :
    SameModel d d' :=
  ⟨.of_writes harea horders h, .of_writes harea hpositions h, sameWallet_of_eval h⟩

theorem sameModel_saveQueueOffset {topic : String} {partition nextOffset : ℤ}
    (h : (saveQueueOffset topic partition nextOffset).eval d = .ok ((), d')) : SameModel d d' := by
  obtain ⟨_, v, hsave, hcommit⟩ := eval_bind_eq_ok h
  cases hcommit
  exact .of_writes (inArea_saveQueueOffsetInTx _ _ _) (by decide) (by decide) hsave

/-- The tables of positions are in order while no order is taken back. -/
theorem PositionTables.of_same (h : PositionTables d) (hpositions : SamePositions d d')
    (horders : ∀ orderId, (d.orders.find? orderId).isSome → (d'.orders.find? orderId).isSome) :
    PositionTables d' := by
  refine ⟨?_, ?_, fun row hrow orderId horder => horders orderId ?_⟩
  · rw [hpositions.positions, hpositions.positionIdSeq]
    exact h.positionIds
  · rw [hpositions.closedPositions, hpositions.positionIdSeq]
    exact h.closedIds
  · rw [hpositions.positions] at hrow
    exact h.openers row hrow orderId horder

theorem ContextsKnown.of_same (h : ContextsKnown c d) (hsame : d'.orderContexts = d.orderContexts) :
    ContextsKnown c d' := by
  refine ⟨?_, ?_⟩
  · rw [hsame]
    exact h.context
  · rw [hsame]
    exact h.names

theorem Known.of_same (hknown : Known c d) (h : SameModel d d') : Known c d' where
  toContextsKnown := hknown.toContextsKnown.of_same h.orders.orderContexts
  amount := h.wallet.reservedAmount.trans hknown.amount
  orders := by
    rw [h.orders.orderContexts, h.orders.orders]
    exact hknown.orders
  fills := hknown.fills.of_same h.orders.fills
  tables := hknown.tables.of_same h.positions fun k hk => by
    rw [h.orders.orders]
    exact hk

/-- The context of an order is that of its reservation. -/
theorem Known.stored (hknown : Known c d) {reservationId : Option String} {orderId : ℤ}
    {context : StoredOrderContext} (hnamed : ∀ r ∈ reservationId, c.Names r orderId)
    (h : d.storedContext reservationId orderId = some context) :
    c.Names (c.reservationId orderId) orderId ∧
      (d.orderContexts.find? (c.reservationId orderId)).isSome ∧
      context.reservationId = some (c.reservationId orderId) ∧
      context.withOrderId orderId = c.stored orderId := by
  obtain ⟨row, hrow, hnames, rfl⟩ : ∃ row,
      d.orderContexts.find? (c.reservationId orderId) = some row ∧
        c.Names (c.reservationId orderId) orderId ∧ context = d.joined row := by
    have hbyOrder : ∀ row, d.orderContexts.byIndex (.order orderId) = some row →
        d.orderContexts.find? (c.reservationId orderId) = some row ∧
          c.Names (c.reservationId orderId) orderId := by
      intro row hindex
      obtain ⟨hrow, hj⟩ := Indexed.mem_of_byIndex hindex
      have horder : orderId ∈ row.orderId := by simpa [OrderContextRow.indices] using hj
      have hnames := hknown.names _ row (Table.find?_of_mem hrow) orderId horder
      rw [hnames.2]
      exact ⟨Table.find?_of_mem hrow, hnames⟩
    unfold ProjectorDb.storedContext at h
    rw [Option.or_eq_some_iff, Option.or_eq_some_iff] at h
    rcases h with hreservation | ⟨-, horder | ⟨hnone, hrow⟩⟩
    · obtain ⟨r, hr, hcontext⟩ := Option.bind_eq_some_iff.1 hreservation
      obtain ⟨row, hrow, rfl⟩ := Option.map_eq_some_iff.1 hcontext
      have hnames := hnamed r hr
      rw [hnames.2]
      exact ⟨row, hrow, hnames, rfl⟩
    · obtain ⟨row, hindex, rfl⟩ := Option.map_eq_some_iff.1 horder
      exact ⟨row, (hbyOrder row hindex).1, (hbyOrder row hindex).2, rfl⟩
    · -- The context of a stored order knows the order, so it was found by the id.
      obtain ⟨order, horder, -⟩ := Option.map_eq_some_iff.1 hrow
      obtain ⟨row, hfind, hid⟩ := hknown.orders orderId (Option.isSome_iff_exists.2 ⟨order, horder⟩)
      have hnot := Indexed.byIndex_eq_none_iff.1 (Option.map_eq_none_iff.1 hnone) row
        (Table.mem_of_find? hfind)
      exact absurd (by simp [OrderContextRow.indices, hid]) hnot
  have hkey : row.reservationId = c.reservationId orderId := Table.key_of_find? hrow
  refine ⟨hnames, Option.isSome_iff_exists.2 ⟨row, hrow⟩, congrArg some hkey, ?_⟩
  unfold Catalogue.stored
  rw [← hknown.context _ row hrow, ← hkey, ← hknown.amount]
  rfl

/-- A changed order belongs to its context. -/
theorem Known.setsOrder (hknown : Known c d) {orderId : ℤ} {order : OrderRow}
    {context : OrderContextRow} (h : SetsOrder d d' orderId (some order))
    (hpositions : SamePositions d d') (hwallet : SameWallet d d')
    (hcontext : d.orderContexts.find? (c.reservationId orderId) = some context)
    (hid : context.orderId = some orderId) : Known c d' where
  toContextsKnown := hknown.toContextsKnown.of_same h.contexts
  amount := hwallet.reservedAmount.trans hknown.amount
  orders k hk := by
    rw [h.contexts]
    rw [h.order] at hk
    split at hk
    · next heq =>
      subst heq
      exact ⟨context, hcontext, hid⟩
    · exact hknown.orders k hk
  fills := hknown.fills.of_same h.fills
  tables := hknown.tables.of_same hpositions fun k hk => by
    rw [h.order]
    split
    · rfl
    · exact hk

end Known

/-! ## Reports -/

/-- What replies and events have told of a reservation. -/
@[ext] structure Report where
  orderId : Option ℤ
  status : ContextStatus
  rejectReason : Option String

def OrderContextRow.report (row : OrderContextRow) : Report :=
  ⟨row.orderId, row.status, row.rejectReason⟩

/-- The report that is stored, and the one that an input starts from. -/
def ProjectorDb.report (d : ProjectorDb) (reservationId : String) : Report :=
  ((d.orderContexts.find? reservationId).map OrderContextRow.report).getD ⟨none, .PENDING, none⟩

/-- The status after a reply. -/
def ContextStatus.replied (status : ContextStatus) : Option (Option String) → ContextStatus
  | none => status
  | some none => status.accepted
  | some (some _) => status.rejected

/-- What a record does to the report of a reservation. Of the status this is what
counts before the first event. -/
structure Reports (c : Catalogue) (payload : Payload) (reservationId : String)
    (before after : Report) : Prop where
  mentioned : payload.Mentions c reservationId → after.orderId = some (c.orderId reservationId)
  kept : ¬payload.Mentions c reservationId → after.orderId = before.orderId
  rejectReason : after.rejectReason = (payload.reason reservationId).getD before.rejectReason
  status : after.status.ofEvent = none → before.status.ofEvent = none ∧
    after.status = before.status.replied (payload.reason reservationId)

/-- What a record that agrees with the catalogue does. -/
structure Effect (c : Catalogue) (payload : Payload) (d d' : ProjectorDb) : Prop where
  known : Known c d'
  stored : ∀ reservationId, (d'.orderContexts.find? reservationId).isSome ↔
    payload.Inputs reservationId ∨ (d.orderContexts.find? reservationId).isSome
  reports : ∀ reservationId,
    Reports c payload reservationId (d.report reservationId) (d'.report reservationId)
  market : ∀ marketId, d'.market c marketId =
    (payload.marketEvent marketId).elim (d.market c marketId) ((d.market c marketId).apply c)

section Effects

variable {c : Catalogue} {d d' v : ProjectorDb} {payload : Payload} {reservationId : String}

theorem ProjectorDb.report_of_find? {row : OrderContextRow}
    (h : d.orderContexts.find? reservationId = some row) : d.report reservationId = row.report := by
  rw [ProjectorDb.report, h]
  rfl

theorem ProjectorDb.report_congr (h : d'.orderContexts = d.orderContexts) (reservationId : String) :
    d'.report reservationId = d.report reservationId := by
  unfold ProjectorDb.report
  rw [h]

theorem eventStatus_eq (d : ProjectorDb) (reservationId : String) :
    d.eventStatus reservationId = (d.report reservationId).status.ofEvent := by
  rw [ProjectorDb.eventStatus, ProjectorDb.report]
  cases d.orderContexts.find? reservationId <;> rfl

/-- A record that says nothing of a reservation. -/
theorem reports_nothing (hmention : ¬payload.Mentions c reservationId)
    (hreason : payload.reason reservationId = none) (report : Report) :
    Reports c payload reservationId report report := by
  refine ⟨fun h => absurd h hmention, fun _ => rfl, ?_, fun h => ⟨h, ?_⟩⟩
  · rw [hreason]
    rfl
  · rw [hreason]
    rfl

/-- What a record does when its transaction goes on with its offset. -/
theorem Effect.and_then (h : Effect c payload d v) (hsame : SameModel v d') :
    Effect c payload d d' where
  known := h.known.of_same hsame
  stored := by
    rw [hsame.orders.orderContexts]
    exact h.stored
  reports k := by
    rw [ProjectorDb.report_congr hsame.orders.orderContexts]
    exact h.reports k
  market marketId := by
    rw [market_of_same hsame.orders hsame.positions]
    exact h.market marketId

/-- A record that is not about orders leaves the read model as it is. -/
theorem effect_of_same (hknown : Known c d) (hsame : SameModel d d')
    (hinputs : ∀ k, ¬payload.Inputs k)
    (hnothing : ∀ k, ¬payload.Mentions c k ∧ payload.reason k = none)
    (hmarket : ∀ marketId, payload.marketEvent marketId = none) : Effect c payload d d' := by
  refine Effect.and_then ⟨hknown, fun k => (or_iff_right (hinputs k)).symm, fun k => ?_, ?_⟩ hsame
  · exact reports_nothing (hnothing k).1 (hnothing k).2 _
  · intro marketId
    rw [hmarket]
    rfl

/-! ## One context -/

/-- A context with the data of its input and the right order. -/
theorem ContextsKnown.put {row : OrderContextRow} (h : ContextsKnown c d)
    (hput : ∀ k, d'.orderContexts.find? k =
      if k = reservationId then some row else d.orderContexts.find? k)
    (hinput : row.input = c.context reservationId)
    (hnames : ∀ orderId ∈ row.orderId, c.Names reservationId orderId) : ContextsKnown c d' := by
  refine ⟨fun k stored hstored => ?_, fun k stored hstored orderId hid => ?_⟩
  · rw [hput] at hstored
    split at hstored
    · next hk =>
      cases hstored
      rw [hk, hinput]
    · exact h.context k stored hstored
  · rw [hput] at hstored
    split at hstored
    · next hk =>
      cases hstored
      rw [hk]
      exact hnames orderId hid
    · exact h.names k stored hstored orderId hid

theorem report_put {row : OrderContextRow} (hput : ∀ k, d'.orderContexts.find? k =
      if k = reservationId then some row else d.orderContexts.find? k) (k : String) :
    d'.report k = if k = reservationId then row.report else d.report k := by
  unfold ProjectorDb.report
  rw [hput]
  split <;> rfl

/-- Only one context has changed. -/
structure SetsContext (d d' : ProjectorDb) (reservationId : String) (row : OrderContextRow) :
    Prop where
  context : ∀ k, d'.orderContexts.find? k =
    if k = reservationId then some row else d.orderContexts.find? k
  orders : d'.orders = d.orders
  fills : d'.fills = d.fills
  positions : SamePositions d d'
  wallet : SameWallet d d'

/-- The changed context agrees with the catalogue and still knows its order. -/
theorem SetsContext.known {row : OrderContextRow} (h : SetsContext d d' reservationId row)
    (hknown : Known c d) (hinput : row.input = c.context reservationId)
    (hnames : ∀ orderId ∈ row.orderId, c.Names reservationId orderId)
    (hkeeps : ∀ orderId ∈ (d.report reservationId).orderId, row.orderId = some orderId) :
    Known c d' where
  toContextsKnown := hknown.toContextsKnown.put h.context hinput hnames
  amount := h.wallet.reservedAmount.trans hknown.amount
  orders orderId horder := by
    rw [h.orders] at horder
    obtain ⟨stored, hstored, hid⟩ := hknown.orders orderId horder
    rw [h.context]
    split
    · next hk =>
      refine ⟨row, rfl, hkeeps orderId ?_⟩
      rw [ProjectorDb.report_of_find? (hk ▸ hstored)]
      exact hid
    · exact ⟨stored, hstored, hid⟩
  fills := hknown.fills.of_same h.fills
  tables := hknown.tables.of_same h.positions fun k hk => by
    rw [h.orders]
    exact hk

/-- A record that is about one context and no event. -/
theorem SetsContext.effect {row : OrderContextRow} (h : SetsContext d d' reservationId row)
    (hknown : Known c d) (hinput : row.input = c.context reservationId)
    (hnames : ∀ orderId ∈ row.orderId, c.Names reservationId orderId)
    (hkeeps : ∀ orderId ∈ (d.report reservationId).orderId, row.orderId = some orderId)
    (hstored : payload.Inputs reservationId ∨ (d.orderContexts.find? reservationId).isSome)
    (hevent : row.status.ofEvent = (d.report reservationId).status.ofEvent)
    (hreports : Reports c payload reservationId (d.report reservationId) row.report)
    (hothers : ∀ k, k ≠ reservationId →
      ¬payload.Inputs k ∧ ¬payload.Mentions c k ∧ payload.reason k = none)
    (hmarket : ∀ marketId, payload.marketEvent marketId = none) : Effect c payload d d' where
  known := h.known hknown hinput hnames hkeeps
  stored k := by
    rw [h.context]
    by_cases hk : k = reservationId
    · rw [if_pos hk, hk]
      exact iff_of_true rfl hstored
    · rw [if_neg hk, or_iff_right (hothers k hk).1]
  reports k := by
    rw [report_put h.context]
    by_cases hk : k = reservationId
    · rw [if_pos hk, hk]
      exact hreports
    · rw [if_neg hk]
      exact reports_nothing (hothers k hk).2.1 (hothers k hk).2.2 _
  market marketId := by
    rw [hmarket]
    refine market_congr h.orders h.fills h.positions.positions (fun k => ?_) marketId
    rw [eventStatus_eq, eventStatus_eq, report_put h.context]
    split
    · next hk =>
      rw [hk]
      exact hevent
    · rfl

/-- The row after an update of a context that is stored. -/
theorem setsContext_updateContext {row : OrderContextRow}
    {change : OrderContextRow → OrderContextRow}
    (hrow : d.orderContexts.find? reservationId = some row)
    (h : (execute (updateContext reservationId change)).eval d = .ok ((), d'))
    (hkey : ∀ row, (change row).reservationId = row.reservationId) :
    SetsContext d d' reservationId (change row) := by
  have hmaps := updateContext_ok h hkey
  refine ⟨fun k => ?_, hmaps.orders, hmaps.fills,
    .of_writes (inArea_updateContext _ _) (by decide) h, sameWallet_of_eval h⟩
  rw [hmaps.contexts]
  by_cases hk : k = reservationId
  · rw [if_pos hk, hk, hrow, Option.map_some, if_pos rfl]
  · simp only [if_neg hk, Option.map_id']

/-- The row that an input stores. -/
theorem setsContext_upsertOrderContext {requestId : String} {userId marketId : ℤ}
    {marketName : String} {side : SideType} {orderType : DbOrderType} {quantity price : ℤ}
    {reduceOnly : Bool}
    (h : (execute (upsertOrderContext reservationId requestId userId marketId marketName side
      orderType quantity price reduceOnly)).eval d = .ok ((), d')) :
    ∃ row, SetsContext d d' reservationId row ∧ row.report = d.report reservationId ∧
      row.input = inputContext reservationId requestId userId marketId marketName side orderType
        quantity price reduceOnly := by
  have hpositions : SamePositions d d' :=
    .of_writes (inArea_upsertOrderContext _ _ _ _ _ _ _ _ _ _) (by decide) h
  have hwallet := sameWallet_of_eval h
  obtain ⟨ws, hs, rfl⟩ := eval_execute_eq_ok h
  unfold upsertOrderContext at hs
  split at hs
  · simp only at hs
    split at hs
    · next hadmits =>
      cases hs
      refine ⟨_, ⟨Indexed.find?_put hadmits.2, rfl, rfl, hpositions, hwallet⟩, ?_, rfl⟩
      unfold ProjectorDb.report
      cases d.orderContexts.find? reservationId <;> rfl
    · cases hs
  · cases hs

/-! ## Inputs and replies -/

theorem ContextsKnown.names_report (hknown : ContextsKnown c d) :
    ∀ orderId ∈ (d.report reservationId).orderId, c.Names reservationId orderId := by
  intro orderId hid
  cases hrow : d.orderContexts.find? reservationId with
  | none =>
    rw [ProjectorDb.report, hrow] at hid
    cases hid
  | some row =>
    rw [ProjectorDb.report_of_find? hrow] at hid
    exact hknown.names reservationId row hrow orderId hid

/-- An input stores what the catalogue has, and reports nothing. -/
theorem SetsContext.effect_input {row : OrderContextRow} (h : SetsContext d d' reservationId row)
    (hknown : Known c d) (hinput : row.input = c.context reservationId)
    (hreport : row.report = d.report reservationId)
    (hinputs : ∀ k, payload.Inputs k ↔ reservationId = k)
    (hnothing : ∀ k, ¬payload.Mentions c k ∧ payload.reason k = none)
    (hmarket : ∀ marketId, payload.marketEvent marketId = none) : Effect c payload d d' := by
  have hid : row.orderId = (d.report reservationId).orderId := congrArg Report.orderId hreport
  refine h.effect hknown hinput (fun orderId horder => ?_) (fun orderId horder => hid.trans horder)
    (.inl ((hinputs _).2 rfl)) ?_ ?_ (fun k hk => ⟨mt (hinputs k).1 (Ne.symm hk), hnothing k⟩) hmarket
  · rw [hid] at horder
    exact hknown.toContextsKnown.names_report orderId horder
  · rw [← hreport]
    rfl
  · rw [hreport]
    exact reports_nothing (hnothing _).1 (hnothing _).2 _

theorem loadContextByReservationInTx_ok {context : StoredOrderContext}
    (h : (loadContextByReservationInTx reservationId).eval d = .ok (context, v)) :
    v = d ∧ ∃ row, d.orderContexts.find? reservationId = some row ∧ context = d.joined row := by
  refine ⟨eq_of_inArea (fun area => inArea_loadContextByReservationInTx area _) h, ?_⟩
  unfold loadContextByReservationInTx maybeContextByReservationInTx at h
  rw [eval_bind_ok (eval_query _ d), ProjectorDb.contextByReservation] at h
  cases hrow : d.orderContexts.find? reservationId with
  | none =>
    rw [hrow] at h
    cases h
  | some row =>
    rw [hrow] at h
    cases h
    exact ⟨row, rfl, rfl⟩

/-- An acceptance tells the order of its reservation. -/
theorem effect_markAccepted {orderId : ℤ} {topic : String} {partition nextOffset : ℤ}
    (hknown : Known c d) (hnames : c.Names reservationId orderId)
    (h : (markAccepted reservationId orderId topic partition nextOffset).eval d = .ok ((), d'))
    (hmentions : ∀ k, payload.Mentions c k ↔ reservationId = k)
    (hreason : ∀ k, payload.reason k = if reservationId = k then some none else none)
    (hinputs : ∀ k, ¬payload.Inputs k)
    (hmarket : ∀ marketId, payload.marketEvent marketId = none) : Effect c payload d d' := by
  obtain ⟨context, v, hload, hrest⟩ := eval_bind_eq_ok h
  obtain ⟨rfl, row, hrow, -⟩ := loadContextByReservationInTx_ok hload
  obtain ⟨_, w, hupdate, hoffset⟩ := eval_bind_eq_ok hrest
  have hset := setsContext_updateContext hrow hupdate fun _ => rfl
  have hreport := ProjectorDb.report_of_find? hrow
  refine Effect.and_then (hset.effect hknown (hknown.context _ row hrow) (fun x hx => ?_)
    (fun x hx => ?_) (.inr (Option.isSome_iff_exists.2 ⟨row, hrow⟩)) ?_ ?_ (fun k hk => ?_) hmarket)
    (sameModel_saveQueueOffset hoffset)
  · cases hx
    exact hnames
  · exact congrArg some (hnames.1.symm.trans (hknown.toContextsKnown.names_report x hx).1)
  · rw [hreport]
    exact ofEvent_accepted row.status
  · have hreason := hreason reservationId
    rw [if_pos rfl] at hreason
    rw [hreport]
    refine ⟨fun _ => congrArg some hnames.1.symm, fun hnot => absurd ((hmentions _).2 rfl) hnot, ?_,
      fun hnone => ⟨(ofEvent_accepted row.status).symm.trans hnone, ?_⟩⟩
    · rw [hreason]
      rfl
    · rw [hreason]
      rfl
  · have hne : ¬reservationId = k := Ne.symm hk
    exact ⟨hinputs k, mt (hmentions k).1 hne, (hreason k).trans (if_neg hne)⟩

/-- A rejection leaves its reason with its reservation. -/
theorem effect_markRejected {reason : String} (hknown : Known c d)
    (h : (markRejected reservationId reason).eval d = .ok ((), d'))
    (hmentions : ∀ k, ¬payload.Mentions c k)
    (hreason : ∀ k, payload.reason k = if reservationId = k then some (some reason) else none)
    (hinputs : ∀ k, ¬payload.Inputs k)
    (hmarket : ∀ marketId, payload.marketEvent marketId = none) : Effect c payload d d' := by
  obtain ⟨context, v, hload, hupdate⟩ := eval_bind_eq_ok h
  obtain ⟨rfl, row, hrow, -⟩ := loadContextByReservationInTx_ok hload
  have hset := setsContext_updateContext hrow hupdate fun _ => rfl
  have hreport := ProjectorDb.report_of_find? hrow
  refine hset.effect hknown (hknown.context _ row hrow) (hknown.names _ row hrow)
    (fun x hx => ?_) (.inr (Option.isSome_iff_exists.2 ⟨row, hrow⟩)) ?_ ?_ (fun k hk => ?_) hmarket
  · rw [hreport] at hx
    exact hx
  · rw [hreport]
    exact ofEvent_rejected row.status
  · have hreason := hreason reservationId
    rw [if_pos rfl] at hreason
    rw [hreport]
    refine ⟨fun hmention => absurd hmention (hmentions _), fun _ => rfl, ?_,
      fun hnone => ⟨(ofEvent_rejected row.status).symm.trans hnone, ?_⟩⟩
    · rw [hreason]
      rfl
    · rw [hreason]
      rfl
  · exact ⟨hinputs k, hmentions k, (hreason k).trans (if_neg (Ne.symm hk))⟩

/-! ## Openings and cancellations -/

/-- An event changes the status of a context, and the row of its order with it. -/
theorem effect_setBoth {row : OrderContextRow} {orderId marketId : ℤ}
    {change : OrderContextRow → OrderContextRow} {statusChange : ContextStatus → ContextStatus}
    {status : OrderStatus} {onConflict : OrderRow → Option OrderRow} {event : EngineEvent}
    (hknown : Known c d) (hnames : c.Names reservationId orderId)
    (hmarket : c.marketId orderId = marketId)
    (hrow : d.orderContexts.find? reservationId = some row)
    (hupdate : (execute (updateContext reservationId change)).eval d = .ok ((), v))
    (hupsert : (execute (upsertOrder (c.stored orderId) orderId status onConflict)).eval v =
      .ok ((), d'))
    (hkey : ∀ row, (change row).reservationId = row.reservationId)
    (hinput : (change row).input = row.input) (hid : (change row).orderId = some orderId)
    (hchange : (change row).status = statusChange row.status)
    (hreason : (change row).rejectReason = row.rejectReason) (hof : OfEvents statusChange)
    (hconflict : ∀ stored, ∀ order ∈ onConflict stored, order.orderId = stored.orderId)
    (happly : ∀ M : MarketModel, M.apply c event =
      (M.setStatus reservationId statusChange).upsertOrder (c.stored orderId) orderId status
        onConflict)
    (hmentions : ∀ k, payload.Mentions c k ↔ reservationId = k)
    (hnothing : ∀ k, ¬payload.Inputs k ∧ payload.reason k = none)
    (hevent : ∀ m, payload.marketEvent m = if marketId = m then some event else none) :
    Effect c payload d d' := by
  have hset := setsContext_updateContext hrow hupdate hkey
  obtain ⟨check, hsets⟩ := upsertOrder_ok hupsert hconflict
  have hpositions : SamePositions v d' := .of_writes (inArea_upsertOrder _ _ _ _) (by decide) hupsert
  have hreport := ProjectorDb.report_of_find? hrow
  have hset' : v.orderContexts.find? (c.reservationId orderId) = some (change row) := by
    rw [hset.context, if_pos hnames.2]
  have hknown' : Known c v := by
    refine hset.known hknown (hinput.trans (hknown.context _ row hrow)) (fun x hx => ?_) fun x hx => ?_
    · rw [hid] at hx
      cases hx
      exact hnames
    · rw [hid]
      exact congrArg some (hnames.1.symm.trans (hknown.toContextsKnown.names_report x hx).1)
  have hreports := ProjectorDb.report_congr hsets.contexts
  refine ⟨hknown'.setsOrder hsets hpositions (sameWallet_of_eval hupsert) hset' hid, fun k => ?_,
    fun k => ?_, fun m => ?_⟩
  · rw [hsets.contexts, hset.context, or_iff_right (hnothing k).1]
    split
    · next hk =>
      rw [hk, hrow]
      exact Iff.rfl
    · rfl
  · rw [hreports, report_put hset.context]
    by_cases hk : k = reservationId
    · rw [if_pos hk, hk, hreport]
      refine ⟨fun _ => ?_, fun hnot => absurd ((hmentions _).2 rfl) hnot, ?_, fun hnone => ?_⟩
      · rw [hnames.1]
        exact hid
      · rw [(hnothing _).2]
        exact hreason
      · have hsome := hof row.status
        have hnone : (change row).status.ofEvent = none := hnone
        rw [← hchange, hnone] at hsome
        cases hsome
    · rw [if_neg hk]
      exact reports_nothing (mt (hmentions k).1 (Ne.symm hk)) (hnothing k).2 _
  · have hcontext : (c.context reservationId).marketId = marketId := by
      rw [← hmarket, Catalogue.marketId, hnames.2]
    have hstatus : ∀ k, (v.orderContexts.find? k).map OrderContextRow.status =
        (d.orderContexts.find? k).map fun row =>
          if k = reservationId then statusChange row.status else row.status := by
      intro k
      rw [hset.context]
      by_cases hk : k = reservationId
      · rw [if_pos hk, hk, hrow, Option.map_some, Option.map_some, if_pos rfl, hchange]
      · simp only [if_neg hk]
    rw [market_upsertOrder hupsert hconflict, market_setsStatus hset.orders hset.fills
      hset.positions.positions (Option.isSome_iff_exists.2 ⟨row, hrow⟩) hof hstatus, hmarket, hcontext,
      hevent]
    split
    · exact (happly _).symm
    · rfl

theorem effect_projectOrderOpened {event : OrderOpened} {topic : String}
    {partition nextOffset : ℤ} (hknown : Known c d)
    (hlists : c.Lists (.engineEvent (.orderOpened event)))
    (h : (projectOrderOpened event topic partition nextOffset).eval d = .ok ((), d')) :
    Effect c (.engineEvent (.orderOpened event)) d d' := by
  obtain ⟨hnames, hmarket⟩ := hlists
  obtain ⟨context, v, hload, hrest⟩ := eval_bind_eq_ok h
  obtain ⟨rfl, row, hrow, rfl⟩ := loadContextByReservationInTx_ok hload
  obtain ⟨_, v₁, hupdate, hrest'⟩ := eval_bind_eq_ok hrest
  obtain ⟨_, v₂, hupsert, hoffset⟩ := eval_bind_eq_ok hrest'
  have hstored : v.storedContext (some event.reservationId) event.orderId = some (v.joined row) := by
    rw [ProjectorDb.storedContext, Option.bind_some, ProjectorDb.contextByReservation, hrow]
    rfl
  have hcontext := (hknown.stored (fun r hr => Option.some.inj hr ▸ hnames) hstored).2.2.2
  unfold upsertOrderOpenInTx at hupsert
  rw [hcontext] at hupsert
  refine Effect.and_then (effect_setBoth hknown hnames hmarket hrow hupdate hupsert
    (fun _ => rfl) rfl rfl rfl rfl ofEvents_opened (by rintro stored row ⟨⟩; rfl) (fun _ => rfl)
    (fun _ => Iff.rfl) (fun _ => ⟨id, rfl⟩) fun _ => rfl) (sameModel_saveQueueOffset hoffset)

theorem effect_projectOrderCancelled {event : OrderCancelled} {topic : String}
    {partition nextOffset : ℤ} (hknown : Known c d)
    (hlists : c.Lists (.engineEvent (.orderCancelled event)))
    (h : (projectOrderCancelled event topic partition nextOffset).eval d = .ok ((), d')) :
    Effect c (.engineEvent (.orderCancelled event)) d d' := by
  obtain ⟨hnames, hmarket⟩ := hlists
  obtain ⟨context, v, hload, hrest⟩ := eval_bind_eq_ok h
  obtain rfl : v = d := eq_of_inArea (fun area => inArea_loadContextForOrderInTx area _ _) hload
  obtain ⟨_, v₁, hupdate, hrest'⟩ := eval_bind_eq_ok hrest
  obtain ⟨_, v₂, hupsert, hoffset⟩ := eval_bind_eq_ok hrest'
  have hstored : v.storedContext (some event.reservationId) event.orderId = some context := by
    unfold loadContextForOrderInTx at hload
    rw [eval_bind_ok (eval_maybeLoadContextForOrderInTx _ _ v)] at hload
    cases hcontext : v.storedContext (some event.reservationId) event.orderId with
    | none =>
      rw [hcontext] at hload
      cases hload
    | some stored =>
      rw [hcontext] at hload
      cases hload
      rfl
  obtain ⟨-, hsome, -, hcontext⟩ :=
    hknown.stored (fun r hr => Option.some.inj hr ▸ hnames) hstored
  -- The context was found under the reservation of the event.
  rw [hnames.2] at hsome
  obtain ⟨row, hrow⟩ := Option.isSome_iff_exists.1 hsome
  unfold upsertOrderCancelledInTx at hupsert
  rw [hcontext] at hupsert
  have hid : some (row.orderId.getD event.orderId) = some event.orderId := by
    cases hknows : row.orderId with
    | none => rfl
    | some x => exact congrArg some ((hknown.names _ row hrow x hknows).1.symm.trans hnames.1)
  refine Effect.and_then (effect_setBoth hknown hnames hmarket hrow hupdate hupsert
    (fun _ => rfl) rfl hid rfl rfl ofEvents_cancelled (by rintro stored row ⟨⟩; rfl) (fun _ => rfl)
    (fun _ => Iff.rfl) (fun _ => ⟨id, rfl⟩) fun _ => rfl) (sameModel_saveQueueOffset hoffset)

end Effects

end Projector
