import ExchangeServer.Projector.Orders

/-!
# What the projector's transactions leave alone

The tables of the read model fall into areas, and every part of a transaction
writes to one of them only. What is stored in the other areas stays.

## Main results

- `SameOrders.of_writes`, `SamePositions.of_writes`: what is kept by a program
  that does not write to an area
- `area_storeTradeOrders`, `area_projectNewFill` and others: where the parts of a
  transaction write
-/

namespace Projector

open Protocol Relational Transactional Program

/-- A group of tables. -/
inductive Area
  | orders | positions | orderbook | log | offsets
  deriving DecidableEq

def Write.area : Write → Area
  | .putOrderContext _ | .putOrder _ | .putFill _ => .orders
  | .putMarket _ | .putPosition _ | .deletePosition _ | .putClosedPosition _
  | .linkPositionFill _ | .linkClosedPositionFill _ | .drawPositionId => .positions
  | .putOrderbookEvent _ | .putOrderbookState _ | .putOrderbookLevel _
  | .deleteOrderbookLevel _ => .orderbook
  | .putEngineEventLog _ => .log
  | .putOffset _ => .offsets

/-- The contexts, the orders and the fills are the same. -/
structure SameOrders (d d' : ProjectorDb) : Prop where
  orderContexts : d'.orderContexts = d.orderContexts
  orders : d'.orders = d.orders
  fills : d'.fills = d.fills

/-- The positions and the markets are the same. -/
structure SamePositions (d d' : ProjectorDb) : Prop where
  markets : d'.markets = d.markets
  positions : d'.positions = d.positions
  closedPositions : d'.closedPositions = d.closedPositions
  positionIdSeq : d'.positionIdSeq = d.positionIdSeq

/-- What no transaction of the projector changes. -/
structure SameWallet (d d' : ProjectorDb) : Prop where
  users : d'.users = d.users
  reservedAmount : d'.reservedAmount = d.reservedAmount

theorem SameOrders.refl (d : ProjectorDb) : SameOrders d d := ⟨rfl, rfl, rfl⟩

theorem SameOrders.trans {a b c : ProjectorDb} (h : SameOrders a b) (h' : SameOrders b c) :
    SameOrders a c :=
  ⟨h'.orderContexts.trans h.orderContexts, h'.orders.trans h.orders, h'.fills.trans h.fills⟩

theorem SamePositions.refl (d : ProjectorDb) : SamePositions d d := ⟨rfl, rfl, rfl, rfl⟩

theorem SamePositions.trans {a b c : ProjectorDb} (h : SamePositions a b)
    (h' : SamePositions b c) : SamePositions a c :=
  ⟨h'.markets.trans h.markets, h'.positions.trans h.positions,
    h'.closedPositions.trans h.closedPositions, h'.positionIdSeq.trans h.positionIdSeq⟩

theorem SameWallet.refl (d : ProjectorDb) : SameWallet d d := ⟨rfl, rfl⟩

theorem SameWallet.trans {a b c : ProjectorDb} (h : SameWallet a b) (h' : SameWallet b c) :
    SameWallet a c :=
  ⟨h'.users.trans h.users, h'.reservedAmount.trans h.reservedAmount⟩

/-! ## Writes -/

theorem SameOrders.write {w : Write} (h : w.area ≠ .orders) (d : ProjectorDb) :
    SameOrders d (d.write w) := by
  cases w with
  | putOrderContext | putOrder | putFill => exact absurd rfl h
  | _ => exact ⟨rfl, rfl, rfl⟩

theorem SamePositions.write {w : Write} (h : w.area ≠ .positions) (d : ProjectorDb) :
    SamePositions d (d.write w) := by
  cases w with
  | putMarket | putPosition | deletePosition | putClosedPosition | linkPositionFill
  | linkClosedPositionFill | drawPositionId => exact absurd rfl h
  | _ => exact ⟨rfl, rfl, rfl, rfl⟩

theorem SameWallet.write (w : Write) (d : ProjectorDb) : SameWallet d (d.write w) := by
  cases w <;> exact ⟨rfl, rfl⟩

theorem SameOrders.view {ws : List Write} (h : ∀ w ∈ ws, w.area ≠ .orders) (d : ProjectorDb) :
    SameOrders d (view ws d) := by
  induction ws generalizing d with
  | nil => exact .refl d
  | cons w ws ih =>
    have hw : SameOrders d (d.write w) := .write (h w List.mem_cons_self) d
    exact hw.trans (ih (fun x hx => h x (List.mem_cons_of_mem w hx)) _)

theorem SamePositions.view {ws : List Write} (h : ∀ w ∈ ws, w.area ≠ .positions)
    (d : ProjectorDb) : SamePositions d (view ws d) := by
  induction ws generalizing d with
  | nil => exact .refl d
  | cons w ws ih =>
    have hw : SamePositions d (d.write w) := .write (h w List.mem_cons_self) d
    exact hw.trans (ih (fun x hx => h x (List.mem_cons_of_mem w hx)) _)

theorem SameWallet.view (ws : List Write) (d : ProjectorDb) : SameWallet d (view ws d) := by
  induction ws generalizing d with
  | nil => exact .refl d
  | cons w ws ih => exact (SameWallet.write w d).trans (ih _)

section Programs

variable {α β : Type} {p : Tx α} {d d' : ProjectorDb} {a : α}

/-- The program is a part of a transaction and writes to one area only. -/
structure InArea (area : Area) (p : Tx α) : Prop where
  isOpen : p.Open
  writes : p.Writes fun w => w.area = area

theorem SameOrders.of_writes {area : Area} (h : InArea area p) (harea : area ≠ .orders)
    (heval : p.eval d = .ok (a, d')) : SameOrders d d' := by
  obtain ⟨ws, hws, rfl⟩ := eval_of_writes h.writes heval
  exact .view (fun w hw => hws w hw ▸ harea) d

theorem SamePositions.of_writes {area : Area} (h : InArea area p) (harea : area ≠ .positions)
    (heval : p.eval d = .ok (a, d')) : SamePositions d d' := by
  obtain ⟨ws, hws, rfl⟩ := eval_of_writes h.writes heval
  exact .view (fun w hw => hws w hw ▸ harea) d

theorem inArea_pure (area : Area) (a : α) : InArea area (pure a) := ⟨open_pure a, writes_pure _ a⟩

theorem inArea_fail (area : Area) (e : ProjectorRepositoryError) :
    InArea area (fail e : Tx α) := ⟨open_fail e, writes_fail _ e⟩

theorem inArea_bind {area : Area} {f : α → Tx β} (hp : InArea area p)
    (hf : ∀ a, InArea area (f a)) : InArea area (p >>= f) :=
  ⟨open_bind hp.isOpen fun a => (hf a).isOpen, writes_bind hp.writes fun a => (hf a).writes⟩

theorem inArea_execute {area : Area} {statement : Stmt β}
    (h : ∀ d b ws, statement d = .ok (b, ws) → ∀ w ∈ ws, w.area = area) :
    InArea area (execute statement) := ⟨open_perform _, writes_perform h⟩

/-- A query writes nothing. -/
theorem inArea_query (area : Area) (read : ProjectorDb → β) : InArea area (query read) := by
  refine ⟨open_perform _, writes_perform fun d b ws h w hw => ?_⟩
  cases h
  cases hw

end Programs

/-! ## Orders -/

theorem inArea_maybeContextByOrderIdInTx (area : Area) (orderId : ℤ) :
    InArea area (maybeContextByOrderIdInTx orderId) := by
  refine inArea_bind (inArea_query _ _) fun context => ?_
  cases context with
  | some context => exact inArea_pure _ _
  | none => exact inArea_query _ _

theorem inArea_maybeLoadContextForOrderInTx (area : Area) (reservationId : Option String)
    (orderId : ℤ) : InArea area (maybeLoadContextForOrderInTx reservationId orderId) := by
  cases reservationId with
  | none => exact inArea_maybeContextByOrderIdInTx _ _
  | some reservationId =>
    refine inArea_bind (inArea_query _ _) fun context => ?_
    cases context with
    | some context => exact inArea_pure _ _
    | none => exact inArea_maybeContextByOrderIdInTx _ _

theorem inArea_loadMarketNameInTx (area : Area) (marketId : ℤ) :
    InArea area (loadMarketNameInTx marketId) := by
  refine inArea_execute fun d b ws h w hw => ?_
  unfold selectMarketName at h
  split at h
  · cases h
    cases hw
  · cases h

theorem inArea_orSynthetic (area : Area) (context : Option StoredOrderContext)
    (event : TradeExecuted) (participant : TradeParticipant) (marketName : String)
    (counterpartSide : Option SideType) :
    InArea area (orSynthetic context event participant marketName counterpartSide) := by
  unfold orSynthetic syntheticLiquidationContext
  split
  · exact inArea_pure _ _
  · split
    · exact inArea_fail _ _
    · exact inArea_pure _ _

theorem inArea_orMissing (area : Area) (context : Option StoredOrderContext)
    (event : TradeExecuted) (participant : TradeParticipant) :
    InArea area (orMissing context event participant) := by
  unfold orMissing
  split
  · exact inArea_pure _ _
  · exact inArea_fail _ _

/-- Loading the contexts of a trade writes nothing. -/
theorem inArea_loadTradeContextsInTx (area : Area) (event : TradeExecuted) :
    InArea area (loadTradeContextsInTx event) := by
  refine inArea_bind (inArea_maybeLoadContextForOrderInTx _ _ _) fun maker =>
    inArea_bind (inArea_maybeLoadContextForOrderInTx _ _ _) fun taker => ?_
  split
  · refine inArea_bind ?_ fun marketName => inArea_bind (inArea_orSynthetic _ _ _ _ _ _) fun _ =>
      inArea_bind (inArea_orSynthetic _ _ _ _ _ _) fun _ => inArea_pure _ _
    split
    · exact inArea_loadMarketNameInTx _ _
    · exact inArea_pure _ _
  · exact inArea_bind (inArea_orMissing _ _ _ _) fun _ =>
      inArea_bind (inArea_orMissing _ _ _ _) fun _ => inArea_pure _ _

/-- What writes nothing leaves the data as it is. -/
theorem eq_of_inArea {α : Type} {p : Tx α} {d d' : ProjectorDb} {a : α}
    (h : ∀ area, InArea area p) (heval : p.eval d = .ok (a, d')) : d' = d := by
  have hnone : p.Writes fun _ => False := by
    have horders := (h .orders).writes
    have hlog := (h .log).writes
    clear heval h
    induction p with
    | ret result => trivial
    | stmt s next ih =>
      refine ⟨fun v b ws hs w hw => ?_, fun b => ih b (horders.2 b) (hlog.2 b)⟩
      have horder : w.area = .orders := horders.1 v b ws hs w hw
      exact absurd (horder.symm.trans (hlog.1 v b ws hs w hw)) (by decide)
    | commit next ih => exact ih horders hlog
    | rollback next ih => exact ih horders hlog
  obtain ⟨ws, hws, rfl⟩ := eval_of_writes hnone heval
  cases ws with
  | nil => rfl
  | cons w ws => exact (hws w List.mem_cons_self).elim

theorem inArea_upsertOrder (context : StoredOrderContext) (orderId : ℤ) (status : OrderStatus)
    (onConflict : OrderRow → Option OrderRow) :
    InArea .orders (execute (upsertOrder context orderId status onConflict)) := by
  refine inArea_execute fun d b ws h w hw => ?_
  unfold upsertOrder at h
  split at h
  · split at h
    · split at h
      · cases h
        rw [List.mem_singleton.1 hw]
        rfl
      · cases h
    · split at h
      · cases h
        cases hw
      · cases h
        rw [List.mem_singleton.1 hw]
        rfl
  · cases h

theorem inArea_updateContext (reservationId : String) (change : OrderContextRow → OrderContextRow) :
    InArea .orders (execute (updateContext reservationId change)) := by
  refine inArea_execute fun d b ws h w hw => ?_
  unfold updateContext at h
  split at h
  · cases h
    cases hw
  · simp only at h
    split at h
    · cases h
      rw [List.mem_singleton.1 hw]
      rfl
    · cases h

theorem inArea_updateContextOrderIdInTx (reservationId : Option String) (orderId : ℤ) :
    InArea .orders (updateContextOrderIdInTx reservationId orderId) := by
  cases reservationId with
  | none => exact inArea_pure _ _
  | some reservationId => exact inArea_updateContext _ _

theorem inArea_storeTradeOrders (event : TradeExecuted) (maker taker : StoredOrderContext) :
    InArea .orders (storeTradeOrders event maker taker) :=
  inArea_bind (inArea_upsertOrder _ _ _ _) fun _ => inArea_bind (inArea_upsertOrder _ _ _ _)
    fun _ => inArea_bind (inArea_updateContextOrderIdInTx _ _) fun _ =>
      inArea_updateContextOrderIdInTx _ _

theorem inArea_insertFill (event : TradeExecuted) (maker taker : StoredOrderContext) :
    InArea .orders (execute (insertFill event maker taker)) := by
  refine inArea_execute fun d b ws h w hw => ?_
  unfold insertFill at h
  split at h
  · simp only at h
    split at h
    · split at h
      · cases h
        rw [List.mem_singleton.1 hw]
        rfl
      · cases h
    · cases h
      cases hw
  · cases h

theorem inArea_updateOrderAfterFillInTx (context : StoredOrderContext) (orderId : ℤ) :
    InArea .orders (updateOrderAfterFillInTx context orderId) := by
  refine inArea_bind ?_ fun filledQuantity => inArea_bind ?_ fun _ => ?_
  · refine inArea_execute fun d b ws h w hw => ?_
    unfold selectFilledQuantity at h
    split at h
    · cases h
      cases hw
    · cases h
  · refine inArea_execute fun d b ws h w hw => ?_
    unfold updateOrderStatus at h
    split at h
    · cases h
      cases hw
    · split at h
      · cases h
        cases hw
      · cases h
        rw [List.mem_singleton.1 hw]
        rfl
  · refine inArea_execute fun d b ws h w hw => ?_
    cases h
    obtain ⟨row, -, rfl⟩ := List.mem_map.1 hw
    rfl

/-! ## Positions -/

theorem inArea_nextProjectorPositionIdInTx : InArea .positions nextProjectorPositionIdInTx := by
  refine inArea_execute fun d b ws h w hw => ?_
  cases h
  rw [List.mem_singleton.1 hw]
  rfl

theorem inArea_linkFillToOpenPositionInTx (positionId fillId : ℤ) :
    InArea .positions (linkFillToOpenPositionInTx positionId fillId) := by
  refine inArea_execute fun d b ws h w hw => ?_
  unfold insertPositionFill at h
  split at h
  · cases h
    rw [List.mem_singleton.1 hw]
    rfl
  · cases h

theorem inArea_linkFillToClosedPositionInTx (positionId fillId : ℤ) :
    InArea .positions (linkFillToClosedPositionInTx positionId fillId) := by
  refine inArea_execute fun d b ws h w hw => ?_
  unfold insertClosedPositionFill at h
  split at h
  · cases h
    rw [List.mem_singleton.1 hw]
    rfl
  · cases h

theorem inArea_insertOpenPositionInTx (context : StoredOrderContext)
    (orderId fillId quantity price initialMargin engineTimestampMs : ℤ) :
    InArea .positions (insertOpenPositionInTx context orderId fillId quantity price initialMargin
      engineTimestampMs) := by
  refine inArea_bind inArea_nextProjectorPositionIdInTx fun positionId => inArea_bind ?_ fun _ =>
    inArea_linkFillToOpenPositionInTx _ _
  refine inArea_execute fun d b ws h w hw => ?_
  unfold insertPosition at h
  split at h
  · simp only at h
    split at h
    · cases h
      rw [List.mem_singleton.1 hw]
      rfl
    · cases h
  · cases h

theorem inArea_updatePosition (positionId quantity initialMargin : ℤ) (averagePrice : Option ℤ) :
    InArea .positions (execute (updatePosition positionId quantity initialMargin averagePrice)) := by
  refine inArea_execute fun d b ws h w hw => ?_
  unfold updatePosition at h
  split at h
  · cases h
    cases hw
  · split at h
    · cases h
      rw [List.mem_singleton.1 hw]
      rfl
    · cases h

theorem inArea_increasePositionInTx (position : StoredPosition)
    (fillId quantity price addedMargin : ℤ) :
    InArea .positions (increasePositionInTx position fillId quantity price addedMargin) :=
  inArea_bind (inArea_updatePosition _ _ _ _) fun _ => inArea_linkFillToOpenPositionInTx _ _

theorem inArea_insertClosedPositionInTx (position : StoredPosition) (context : StoredOrderContext)
    (closeOrderId fillId quantity exitPrice initialMargin engineTimestampMs : ℤ)
    (closeReason : CloseType) :
    InArea .positions (insertClosedPositionInTx position context closeOrderId fillId quantity
      exitPrice initialMargin engineTimestampMs closeReason) := by
  refine inArea_bind inArea_nextProjectorPositionIdInTx fun positionId => inArea_bind ?_ fun _ =>
    inArea_bind (inArea_linkFillToClosedPositionInTx _ _) fun _ => inArea_pure _ _
  refine inArea_execute fun d b ws h w hw => ?_
  unfold insertClosedPosition at h
  split at h
  · simp only at h
    split at h
    · cases h
      rw [List.mem_singleton.1 hw]
      rfl
    · cases h
  · cases h

theorem inArea_transferOpenPositionFillsToClosedInTx (openPositionId closedPositionId : ℤ) :
    InArea .positions (transferOpenPositionFillsToClosedInTx openPositionId closedPositionId) := by
  refine inArea_execute fun d b ws h w hw => ?_
  unfold copyPositionFills at h
  simp only at h
  split at h
  · cases h
    obtain ⟨row, -, rfl⟩ := List.mem_map.1 hw
    rfl
  · cases h

theorem inArea_deleteOpenPositionInTx (positionId : ℤ) :
    InArea .positions (deleteOpenPositionInTx positionId) := by
  refine inArea_execute fun d b ws h w hw => ?_
  cases h
  rw [List.mem_singleton.1 hw]
  rfl

theorem inArea_reduceOrReversePositionInTx (position : StoredPosition)
    (context : StoredOrderContext) (orderId fillId price quantity engineTimestampMs : ℤ)
    (executionReason : ExecutionReason) :
    InArea .positions (reduceOrReversePositionInTx position context orderId fillId price quantity
      engineTimestampMs executionReason) := by
  refine inArea_bind (inArea_insertClosedPositionInTx _ _ _ _ _ _ _ _ _) fun closedPositionId => ?_
  split
  · exact inArea_updatePosition _ _ _ _
  · refine inArea_bind (inArea_transferOpenPositionFillsToClosedInTx _ _) fun _ =>
      inArea_bind (inArea_deleteOpenPositionInTx _) fun _ => ?_
    simp only
    split
    · exact inArea_insertOpenPositionInTx _ _ _ _ _ _ _
    · exact inArea_pure _ _

theorem inArea_projectPositionForFillInTx (context : StoredOrderContext)
    (orderId fillId price quantity engineTimestampMs : ℤ) (executionReason : ExecutionReason) :
    InArea .positions (projectPositionForFillInTx context orderId fillId price quantity
      engineTimestampMs executionReason) := by
  refine inArea_bind (inArea_query _ _) fun position => ?_
  cases position with
  | none =>
    simp only
    split
    · exact inArea_pure _ _
    · exact inArea_insertOpenPositionInTx _ _ _ _ _ _ _
  | some position =>
    simp only
    split
    · exact inArea_pure _ _
    · split
      · exact inArea_increasePositionInTx _ _ _ _ _
      · exact inArea_reduceOrReversePositionInTx _ _ _ _ _ _ _ _

theorem inArea_refreshPositionPnlForMarketInTx (marketId markPrice : ℤ) :
    InArea .positions (refreshPositionPnlForMarketInTx marketId markPrice) := by
  refine inArea_bind (inArea_query _ _) fun rows => ?_
  induction rows with
  | nil => exact inArea_pure _ _
  | cons row rows ih =>
    refine inArea_bind ?_ fun _ => ih
    refine inArea_execute fun d b ws h w hw => ?_
    unfold updateUnrealizedPnl at h
    split at h
    · cases h
      cases hw
    · cases h
      rw [List.mem_singleton.1 hw]
      rfl

theorem inArea_updateLastTradedPrice (marketId price : ℤ) :
    InArea .positions (execute (updateLastTradedPrice marketId price)) := by
  refine inArea_execute fun d b ws h w hw => ?_
  unfold updateLastTradedPrice at h
  split at h
  · cases h
    cases hw
  · cases h
    rw [List.mem_singleton.1 hw]
    rfl

theorem inArea_projectNewFill (event : TradeExecuted) (maker taker : StoredOrderContext) :
    InArea .positions (projectNewFill event maker taker) :=
  inArea_bind (inArea_updateLastTradedPrice _ _) fun _ =>
    inArea_bind (inArea_projectPositionForFillInTx _ _ _ _ _ _ _) fun _ =>
      inArea_bind (inArea_projectPositionForFillInTx _ _ _ _ _ _ _) fun _ =>
        inArea_refreshPositionPnlForMarketInTx _ _

/-! ## Offsets and whole transactions -/

theorem inArea_saveQueueOffsetInTx (topic : String) (partition nextOffset : ℤ) :
    InArea .offsets (saveQueueOffsetInTx topic partition nextOffset) := by
  refine inArea_execute fun d b ws h w hw => ?_
  unfold upsertOffset at h
  split at h
  · split at h
    · cases h
      rw [List.mem_singleton.1 hw]
      rfl
    · split at h
      · cases h
        rw [List.mem_singleton.1 hw]
        rfl
      · cases h
        cases hw
  · cases h

/-- A transaction ends by saving the offset. -/
theorem atomic_saveQueueOffset (topic : String) (partition nextOffset : ℤ) :
    (saveQueueOffset topic partition nextOffset).Atomic :=
  atomic_bind (inArea_saveQueueOffsetInTx topic partition nextOffset).isOpen fun _ => atomic_commitTx

theorem atomic_projectTradeExecuted (event : TradeExecuted) (topic : String)
    (partition nextOffset : ℤ) :
    (projectTradeExecuted event topic partition nextOffset).Atomic := by
  refine atomic_bind (inArea_loadTradeContextsInTx .orders event).isOpen fun contexts =>
    atomic_bind (inArea_storeTradeOrders _ _ _).isOpen fun _ =>
      atomic_bind (inArea_insertFill _ _ _).isOpen fun insertedFill =>
        atomic_bind (inArea_updateOrderAfterFillInTx _ _).isOpen fun _ =>
          atomic_bind (inArea_updateOrderAfterFillInTx _ _).isOpen fun _ => atomic_bind ?_ fun _ =>
            atomic_saveQueueOffset topic partition nextOffset
  split
  · exact (inArea_projectNewFill _ _ _).isOpen
  · exact open_pure _

end Projector
