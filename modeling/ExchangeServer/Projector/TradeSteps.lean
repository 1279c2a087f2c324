import ExchangeServer.Projector.Ownership
import ExchangeServer.Projector.PositionFills

/-!
# Every stored fill is projected twice

Only a trade stores a fill and only a new fill is projected to positions, once for
its maker and once for its taker, in the transaction that stores it. So the whole
life of the read model is a run of fills that comes in pairs, one pair for each
row of the table of fills, in the order of the rows.

## Main results

- `Traded.process`: the transaction of a record
- `traded_of_run`: every run of the projector
- `Traded.exists_row_of_history`: whose the fills of a position are
-/

namespace Projector

open Protocol Relational Transactional Program

/-! ## Transactions without fills -/

/-- No fill is stored and no position changes, but for its mark. -/
structure Still (d d' : ProjectorDb) : Prop where
  quiet : Quiet d d'
  fills : d'.fills = d.fills

section Still

variable {d d' v : ProjectorDb} {topic : String} {partition nextOffset : ℤ}

theorem Still.refl (d : ProjectorDb) : Still d d := ⟨.refl d, rfl⟩

theorem Still.trans (h : Still d v) (h' : Still v d') : Still d d' :=
  ⟨h.quiet.trans h'.quiet, h'.fills.trans h.fills⟩

theorem Still.of_writes {α : Type} {p : Tx α} {a : α} {area : Area} (h : InArea area p)
    (horders : area ≠ .orders) (hpositions : area ≠ .positions) (heval : p.eval d = .ok (a, d')) :
    Still d d' :=
  ⟨.of_writes h hpositions heval, (SameOrders.of_writes h horders heval).fills⟩

theorem still_saveQueueOffset
    (h : (saveQueueOffset topic partition nextOffset).eval d = .ok ((), d')) : Still d d' := by
  obtain ⟨_, v, hsave, hcommit⟩ := eval_bind_eq_ok h
  cases hcommit
  exact .of_writes (inArea_saveQueueOffsetInTx _ _ _) (by decide) (by decide) hsave

theorem still_upsertOrderContext {reservationId requestId : String} {userId marketId : ℤ}
    {marketName : String} {side : SideType} {orderType : DbOrderType} {quantity price : ℤ}
    {reduceOnly : Bool}
    (h : (execute (upsertOrderContext reservationId requestId userId marketId marketName side
      orderType quantity price reduceOnly)).eval d = .ok ((), d')) : Still d d' := by
  obtain ⟨row, -, -, -, -, -, -, hfills⟩ := upsertOrderContext_ok h
  exact ⟨.of_writes (inArea_upsertOrderContext _ _ _ _ _ _ _ _ _ _) (by decide) h, hfills⟩

theorem still_updateContext {reservationId : String} {change : OrderContextRow → OrderContextRow}
    (h : (execute (updateContext reservationId change)).eval d = .ok ((), d'))
    (hkey : ∀ row, (change row).reservationId = row.reservationId) : Still d d' :=
  ⟨.of_writes (inArea_updateContext _ _) (by decide) h, (updateContext_ok h hkey).fills⟩

theorem still_upsertOrder {context : StoredOrderContext} {orderId : ℤ} {status : OrderStatus}
    {onConflict : OrderRow → Option OrderRow}
    (h : (execute (upsertOrder context orderId status onConflict)).eval d = .ok ((), d'))
    (hkey : ∀ stored, ∀ row ∈ onConflict stored, row.orderId = stored.orderId) : Still d d' := by
  obtain ⟨check, hset⟩ := upsertOrder_ok h hkey
  exact ⟨.of_writes (inArea_upsertOrder _ _ _ _) (by decide) h, hset.fills⟩

theorem still_updateContextOrderIdInTx {reservationId : Option String} {orderId : ℤ}
    (h : (updateContextOrderIdInTx reservationId orderId).eval d = .ok ((), d')) : Still d d' := by
  cases reservationId with
  | none =>
    cases h
    exact .refl d
  | some reservationId => exact still_updateContext h fun _ => rfl

theorem still_storeTradeOrders {event : TradeExecuted} {maker taker : StoredOrderContext}
    (h : (storeTradeOrders event maker taker).eval d = .ok ((), d')) : Still d d' := by
  obtain ⟨_, w₁, hmakerOrder, h⟩ := eval_bind_eq_ok h
  obtain ⟨_, w₂, htakerOrder, h⟩ := eval_bind_eq_ok h
  obtain ⟨_, w₃, hmakerContext, htakerContext⟩ := eval_bind_eq_ok h
  have horders : Still d w₂ := (still_upsertOrder hmakerOrder (by rintro stored row ⟨⟩)).trans
    (still_upsertOrder htakerOrder (by rintro stored row ⟨⟩))
  exact (horders.trans (still_updateContextOrderIdInTx hmakerContext)).trans
    (still_updateContextOrderIdInTx htakerContext)

theorem still_updateOrderAfterFillInTx {context : StoredOrderContext} {orderId : ℤ}
    (h : (updateOrderAfterFillInTx context orderId).eval d = .ok ((), d')) : Still d d' := by
  refine ⟨.of_writes (inArea_updateOrderAfterFillInTx _ _) (by decide) h, ?_⟩
  obtain ⟨filled, v, hsum, h⟩ := eval_bind_eq_ok h
  obtain ⟨_, w, horder, hcontexts⟩ := eval_bind_eq_ok h
  obtain rfl : v = d := by
    obtain ⟨ws, hs, rfl⟩ := eval_execute_eq_ok hsum
    unfold selectFilledQuantity at hs
    split at hs
    · cases hs
      rfl
    · cases hs
  exact (updateContextStatus_ok hcontexts).fills.trans (updateOrderStatus_ok horder).fills

theorem still_markAccepted {reservationId : String} {orderId : ℤ}
    (h : (markAccepted reservationId orderId topic partition nextOffset).eval d = .ok ((), d')) :
    Still d d' := by
  obtain ⟨context, v, hload, hrest⟩ := eval_bind_eq_ok h
  obtain ⟨rfl, -⟩ := loadContextByReservationInTx_ok hload
  obtain ⟨_, w, hupdate, hoffset⟩ := eval_bind_eq_ok hrest
  exact (still_updateContext hupdate fun _ => rfl).trans (still_saveQueueOffset hoffset)

theorem still_markRejected {reservationId reason : String}
    (h : (markRejected reservationId reason).eval d = .ok ((), d')) : Still d d' := by
  obtain ⟨context, v, hload, hupdate⟩ := eval_bind_eq_ok h
  obtain ⟨rfl, -⟩ := loadContextByReservationInTx_ok hload
  exact still_updateContext hupdate fun _ => rfl

theorem still_projectOrderOpened {event : OrderOpened}
    (h : (projectOrderOpened event topic partition nextOffset).eval d = .ok ((), d')) :
    Still d d' := by
  obtain ⟨context, v, hload, hrest⟩ := eval_bind_eq_ok h
  obtain ⟨rfl, -⟩ := loadContextByReservationInTx_ok hload
  obtain ⟨_, w, hupdate, hrest⟩ := eval_bind_eq_ok hrest
  obtain ⟨_, w', hupsert, hoffset⟩ := eval_bind_eq_ok hrest
  have horder : Still w w' := still_upsertOrder hupsert (by rintro stored row ⟨⟩; rfl)
  exact ((still_updateContext hupdate fun _ => rfl).trans horder).trans
    (still_saveQueueOffset hoffset)

theorem still_projectOrderCancelled {event : OrderCancelled}
    (h : (projectOrderCancelled event topic partition nextOffset).eval d = .ok ((), d')) :
    Still d d' := by
  obtain ⟨context, v, hload, hrest⟩ := eval_bind_eq_ok h
  obtain rfl : v = d := eq_of_inArea (fun area => inArea_loadContextForOrderInTx area _ _) hload
  obtain ⟨_, w, hupdate, hrest⟩ := eval_bind_eq_ok hrest
  obtain ⟨_, w', hupsert, hoffset⟩ := eval_bind_eq_ok hrest
  have horder : Still w w' := still_upsertOrder hupsert (by rintro stored row ⟨⟩; rfl)
  exact ((still_updateContext hupdate fun _ => rfl).trans horder).trans
    (still_saveQueueOffset hoffset)

theorem still_projectOrderbookDelta {event : OrderBookDelta}
    (h : (projectOrderbookDelta event topic partition nextOffset).eval d = .ok ((), d')) :
    Still d d' := by
  obtain ⟨inserted, v₁, hinsert, h⟩ := eval_bind_eq_ok h
  obtain ⟨apply, v₂, happly, h⟩ := eval_bind_eq_ok h
  obtain ⟨_, v₃, hlevels, hoffset⟩ := eval_bind_eq_ok h
  have h₁ : Still d v₁ :=
    .of_writes (inArea_insertOrderbookEvent _ _ _ _) (by decide) (by decide) hinsert
  have h₂ : Still v₁ v₂ := by
    split at happly
    · exact .of_writes (inArea_shouldApplyOrderbookDeltaInTx .orderbook _) (by decide) (by decide)
        happly
    · cases happly
      exact .refl v₁
  have h₃ : Still v₂ v₃ := by
    split at hlevels
    · exact .of_writes (inArea_applyOrderbookDelta _) (by decide) (by decide) hlevels
    · cases hlevels
      exact .refl v₂
  exact ((h₁.trans h₂).trans h₃).trans (still_saveQueueOffset hoffset)

theorem still_insertEngineEventLogInTx {entry : EngineEventLogEntry}
    (h : (insertEngineEventLogInTx entry topic partition nextOffset).eval d = .ok ((), d')) :
    Still d d' :=
  .of_writes (inArea_insertEngineEventLogInTx _ _ _ _) (by decide) (by decide) h

end Still

/-! ## Pairs -/

/-- A fill as it is projected for one of its sides. -/
structure FillRow.ProjectedAs (row : FillRow) (participant : TradeParticipant)
    (fill : PositionFill) : Prop where
  fillId : fill.fillId = row.fillId
  userId : fill.context.userId = row.userId participant
  orderId : fill.orderId = row.orderId participant
  side : fill.context.side = row.side participant
  price : fill.price = row.price
  quantity : fill.quantity = row.quantity

/-- The steps of a run are those of the stored fills, for the maker and for the taker. -/
inductive InPairs : List FillRow → List FillStep → Prop
  | nil : InPairs [] []
  | snoc {rows : List FillRow} {steps : List FillStep} {row : FillRow} {maker taker : FillStep}
      (pairs : InPairs rows steps) (made : row.ProjectedAs .maker maker.fill)
      (took : row.ProjectedAs .taker taker.fill) :
      InPairs (rows ++ [row]) (steps ++ [maker, taker])

/-- A step is the projection of a stored fill. -/
theorem InPairs.exists_row {rows : List FillRow} {steps : List FillStep} (h : InPairs rows steps)
    {step : FillStep} (hstep : step ∈ steps) :
    ∃ row ∈ rows, ∃ participant, row.ProjectedAs participant step.fill := by
  induction h with
  | nil => exact absurd hstep List.not_mem_nil
  | @snoc rows steps row maker taker pairs made took ih =>
    have hlast : row ∈ rows ++ [row] := List.mem_append_right _ (List.mem_singleton_self row)
    rcases List.mem_append.1 hstep with hstep | hstep
    · obtain ⟨earlier, hearlier, hprojected⟩ := ih hstep
      exact ⟨earlier, List.mem_append_left _ hearlier, hprojected⟩
    · rcases List.mem_pair.1 hstep with rfl | rfl
      · exact ⟨row, hlast, .maker, made⟩
      · exact ⟨row, hlast, .taker, took⟩

/-! ## Runs -/

/-- A part of the life of the read model as a run of fills, the new ones two by two,
and what is known of the contexts with which they are projected. -/
structure Traded (known : PositionFill → Prop) (start : ProjectorDb) (steps : List FillStep)
    (d : ProjectorDb) : Prop where
  run : FillRun start steps d
  stored : ∃ rows, d.fills.rows = start.fills.rows ++ rows ∧ InPairs rows steps
  contexts : ∀ step ∈ steps, known step.fill

/-- What is known of the contexts of a trade. -/
def KnownTrade (known : PositionFill → Prop) (event : TradeExecuted)
    (maker taker : StoredOrderContext) : Prop :=
  known (positionFill event maker event.makerOrderId) ∧
    known (positionFill event taker event.takerOrderId)

section Traded

variable {known : PositionFill → Prop} {start d d' : ProjectorDb} {steps : List FillStep}
  {event : TradeExecuted} {topic : String} {partition nextOffset : ℤ}

theorem Traded.still (h : Traded known start steps d) (hstill : Still d d') :
    Traded known start steps d' :=
  ⟨h.run.other hstill.quiet, hstill.fills ▸ h.stored, h.contexts⟩

/-- All fills that are stored, when there were none before. -/
theorem Traded.pairs (h : Traded known start steps d) (hempty : start.fills.rows = []) :
    InPairs d.fills.rows steps := by
  obtain ⟨rows, hrows, hpairs⟩ := h.stored
  rw [hrows, hempty, List.nil_append]
  exact hpairs

/-- A trade adds its pair when its fill is new, and nothing when it is not. -/
theorem Traded.projectTrade {maker taker : StoredOrderContext} (h : Traded known start steps d)
    (hknown : KnownTrade known event maker taker)
    (heval : (projectTrade event maker taker topic partition nextOffset).eval d = .ok ((), d')) :
    ∃ steps', Traded known start steps' d' := by
  obtain ⟨_, w₁, hstore, htrade⟩ := eval_bind_eq_ok heval
  obtain ⟨insertedFill, w₂, hinsert, htrade⟩ := eval_bind_eq_ok htrade
  obtain ⟨_, w₃, hupdate, htrade⟩ := eval_bind_eq_ok htrade
  obtain ⟨_, w₄, hupdate', htrade⟩ := eval_bind_eq_ok htrade
  obtain ⟨_, w₅, hproject, hoffset⟩ := eval_bind_eq_ok htrade
  have hstored := h.still (still_storeTradeOrders hstore)
  have hupdated : Still w₂ w₄ := (still_updateOrderAfterFillInTx hupdate).trans
    (still_updateOrderAfterFillInTx hupdate')
  have hlast := still_saveQueueOffset hoffset
  obtain ⟨rfl, rfl⟩ | ⟨rfl, check, hw₂, hfree, hadmits, -, -⟩ := insertFill_cases hinsert
  · cases hproject
    exact ⟨steps, (hstored.still hupdated).still hlast⟩
  · have hquiet : Quiet w₁ w₂ := .of_writes (inArea_insertFill _ _ _) (by decide) hinsert
    have hrun : FillRun start steps w₄ := (hstored.run.other hquiet).other hupdated.quiet
    obtain ⟨v₁, v₂, v₃, hpair⟩ := hrun.newFill hproject
    have hfills : d'.fills = w₁.fills.put (fillRow event maker taker check) := by
      have hprojected : w₅.fills = w₄.fills :=
        (SameOrders.of_writes (inArea_projectNewFill _ _ _) (by decide) hproject).fills
      rw [hlast.fills, hprojected, hupdated.fills, hw₂]
    have hrows : d'.fills.rows = w₁.fills.rows ++ [fillRow event maker taker check] := by
      have hfree : w₁.fills.find? (fillRow event maker taker check).fillId = none := hfree
      rw [hfills, Indexed.toTable_put hadmits, Table.upsert, if_pos hfree, Table.rows_insert hfree]
    refine ⟨_, hpair.other hlast.quiet, ?_, fun step hstep => ?_⟩
    · obtain ⟨rows, hbefore, hpairs⟩ := hstored.stored
      refine ⟨rows ++ [fillRow event maker taker check], ?_,
        hpairs.snoc ⟨rfl, rfl, rfl, rfl, rfl, rfl⟩ ⟨rfl, rfl, rfl, rfl, rfl, rfl⟩⟩
      rw [hrows, hbefore, List.append_assoc]
    · rcases List.mem_append.1 hstep with hstep | hstep
      · exact h.contexts step hstep
      · rcases List.mem_pair.1 hstep with rfl | rfl
        · exact hknown.1
        · exact hknown.2

theorem Traded.projectTradeExecuted (h : Traded known start steps d)
    (hknown : ∀ participant context, Uses d event participant context →
      known (positionFill event (context.withOrderId (participant.orderId event))
        (participant.orderId event)))
    (heval : (projectTradeExecuted event topic partition nextOffset).eval d = .ok ((), d')) :
    ∃ steps', Traded known start steps' d' := by
  obtain ⟨contexts, w, hload, htrade⟩ := eval_bind_eq_ok heval
  obtain ⟨rfl, hmaker, htaker⟩ := loadTradeContextsInTx_uses hload
  exact h.projectTrade ⟨hknown .maker _ hmaker, hknown .taker _ htaker⟩ htrade

/-- The transaction of a record. -/
theorem Traded.process {payload : Payload} (h : Traded known start steps d)
    (hknown : ∀ event, payload = .engineEvent (.tradeExecuted event) →
      ∀ participant context, Uses d event participant context →
        known (positionFill event (context.withOrderId (participant.orderId event))
          (participant.orderId event)))
    (heval : (payload.process topic partition nextOffset).eval d = .ok ((), d')) :
    ∃ steps', Traded known start steps' d' := by
  by_cases htrade : ∃ event, payload = .engineEvent (.tradeExecuted event)
  · obtain ⟨event, rfl⟩ := htrade
    exact h.projectTradeExecuted (hknown event rfl) heval
  refine ⟨steps, h.still ?_⟩
  cases payload with
  | engineInput input =>
    cases input with
    | placeOrder order =>
      obtain ⟨_, v, hstore, hoffset⟩ := eval_bind_eq_ok heval
      exact (still_upsertOrderContext hstore).trans (still_saveQueueOffset hoffset)
    | liquidatePosition liquidation =>
      obtain ⟨_, v, hstore, hoffset⟩ := eval_bind_eq_ok heval
      exact (still_upsertOrderContext hstore).trans (still_saveQueueOffset hoffset)
    | _ => exact still_saveQueueOffset heval
  | engineReply reply =>
    cases reply with
    | orderAccepted reply => exact still_markAccepted heval
    | liquidationAccepted reply => exact still_markAccepted heval
    | orderRejected reply =>
      obtain ⟨_, v, hmark, hoffset⟩ := eval_bind_eq_ok heval
      refine Still.trans ?_ (still_saveQueueOffset hoffset)
      split at hmark
      · exact still_markRejected hmark
      · cases hmark
        exact .refl d
    | liquidationRejected reply =>
      obtain ⟨_, v, hmark, hoffset⟩ := eval_bind_eq_ok heval
      exact (still_markRejected hmark).trans (still_saveQueueOffset hoffset)
    | _ => exact still_saveQueueOffset heval
  | engineEvent event =>
    cases event with
    | orderOpened event => exact still_projectOrderOpened heval
    | orderCancelled event => exact still_projectOrderCancelled heval
    | tradeExecuted event => exact absurd ⟨event, rfl⟩ htrade
    | orderBookDelta event => exact still_projectOrderbookDelta heval
    | _ =>
      obtain ⟨_, v, hinsert, hoffset⟩ := eval_bind_eq_ok heval
      exact (still_insertEngineEventLogInTx hinsert).trans (still_saveQueueOffset hoffset)
  | walletEvent event => exact still_saveQueueOffset heval
  | invalid => exact still_saveQueueOffset heval

theorem Traded.commit {t : Transaction} (h : Traded known start steps d)
    (hknown : ∀ event, Payload.engineEvent (.tradeExecuted event) ∈ t.payload →
      ∀ participant context, Uses d event participant context →
        known (positionFill event (context.withOrderId (participant.orderId event))
          (participant.orderId event)))
    (hcommit : commit d t = some d') : ∃ steps', Traded known start steps' d' := by
  have heval := commit_eq_some_iff.1 hcommit
  cases t with
  | saveLog event topic partition nextOffset =>
    obtain ⟨_, v, hinsert, hend⟩ := eval_bind_eq_ok heval
    cases hend
    exact ⟨steps, h.still (still_insertEngineEventLogInTx hinsert)⟩
  | process payload topic partition nextOffset =>
    exact h.process (fun event hevent => hknown event (congrArg some hevent)) heval

theorem traded_start (known : PositionFill → Prop) (d : ProjectorDb) : Traded known d [] d :=
  ⟨.start, ⟨[], (List.append_nil _).symm, .nil⟩, fun _ hstep => absurd hstep List.not_mem_nil⟩

/-- Every run of the projector is a run of fills, a pair of steps for each of those
that are stored. -/
theorem traded_of_run {ts : List Transaction}
    (hrun : Machine.run Projector.commit d ts = some d') :
    ∃ steps, Traded (fun _ => True) d steps d' :=
  Machine.inv_of_run (P := fun v => ∃ steps, Traded (fun _ => True) d steps v)
    (fun ⟨_, h⟩ hcommit => h.commit (fun _ _ _ _ _ => trivial) hcommit) hrun
    ⟨[], traded_start _ d⟩

/-- A fill that is linked to a position of a user is stored, and the user is its maker
or its taker. -/
theorem Traded.exists_row_of_history (h : Traded known start steps d) (hstart : NoPositions start)
    (hempty : start.fills.rows = []) {owner : ℤ × ℤ} {fillId : ℤ} (hfill : fillId ∈ d.history owner) :
    ∃ row ∈ d.fills.rows, row.fillId = fillId ∧ ∃ participant, row.userId participant = owner.1 := by
  obtain ⟨step, hstep, howner, -, rfl⟩ :=
    ((keepsFills_of_run hstart h.run).history owner fillId).1 hfill
  obtain ⟨row, hrow, participant, hprojected⟩ := (h.pairs hempty).exists_row hstep
  refine ⟨row, hrow, hprojected.fillId.symm, participant, hprojected.userId.symm.trans ?_⟩
  exact congrArg Prod.fst howner

end Traded

end Projector
