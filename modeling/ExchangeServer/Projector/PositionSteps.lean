import ExchangeServer.Projector.Positions

/-!
# What the steps of a position do

One lemma for each function that projects a fill to a position: when its rows
have what they refer to, it is not refused, and this is the data afterwards.

What the lemmas need of the stored positions is kept by all of them: the numbers
of stored rows have been given by the sequence, and the order that opened a
position is stored.

## Main results

- `eval_insertOpenPositionInTx`, `eval_increasePositionInTx`,
  `eval_reducePosition`, `eval_closePosition`: the operations on a position
-/

namespace Projector

open Protocol Relational Transactional Program

/-- What a fill refers to is stored. -/
structure FillReferences (d : ProjectorDb) (context : StoredOrderContext) (orderId fillId : ℤ) :
    Prop where
  owner : d.References context.userId context.marketId
  order : (d.orders.find? orderId).isSome
  fill : (d.fills.find? fillId).isSome

/-- Stored rows have numbers of the sequence, and the orders that opened the
positions are stored. -/
structure PositionTables (d : ProjectorDb) : Prop where
  positionIds : ∀ row ∈ d.positions.rows, row.positionId ≤ d.positionIdSeq
  closedIds : ∀ row ∈ d.closedPositions.rows, row.positionId ≤ d.positionIdSeq
  openers : ∀ row ∈ d.positions.rows, ∀ orderId ∈ row.openOrderId, (d.orders.find? orderId).isSome

namespace ProjectorDb

/-- A new open position, linked to its fill. -/
def openPosition (d : ProjectorDb) (row : PositionRow) (fillId : ℤ) : ProjectorDb :=
  { d with
    positions := d.positions.put row
    positionIdSeq := d.positionIdSeq + 1
    positionFills := d.positionFills.upsert { positionId := row.positionId, fillId } }

/-- A new version of an open position. -/
def setPosition (d : ProjectorDb) (row : PositionRow) : ProjectorDb :=
  { d with positions := d.positions.put row }

/-- A new version of an open position, linked to one more fill. -/
def growPosition (d : ProjectorDb) (row : PositionRow) (fillId : ℤ) : ProjectorDb :=
  { d with
    positions := d.positions.put row
    positionFills := d.positionFills.upsert { positionId := row.positionId, fillId } }

/-- A new closed position, linked to its fill. -/
def recordClosed (d : ProjectorDb) (row : ClosedPositionRow) (fillId : ℤ) : ProjectorDb :=
  { d with
    closedPositions := d.closedPositions.upsert row
    positionIdSeq := d.positionIdSeq + 1
    closedPositionFills := d.closedPositionFills.upsert { positionId := row.positionId, fillId } }

/-- The fills of an open position become fills of a closed one. -/
def transferFills (d : ProjectorDb) (openPositionId closedPositionId : ℤ) : ProjectorDb :=
  { d with
    closedPositionFills :=
      (d.positionFills.rows.filter fun row => row.positionId = openPositionId).foldl
        (fun links row => links.upsert { positionId := closedPositionId, fillId := row.fillId })
        d.closedPositionFills }

end ProjectorDb

/-! ## Positions by their owner -/

section Owner

variable {d : ProjectorDb} {row : PositionRow}

theorem position_eq_some_iff {userId marketId : ℤ} :
    d.position userId marketId = some row ↔ row ∈ d.positions.rows ∧ row.owner = (userId, marketId) := by
  rw [ProjectorDb.position, Indexed.byIndex_eq_some_iff, PositionRow.indices, List.mem_singleton]
  exact and_congr_right fun _ => eq_comm

theorem position_eq_none_iff {userId marketId : ℤ} :
    d.position userId marketId = none ↔ ∀ row ∈ d.positions.rows, row.owner ≠ (userId, marketId) := by
  rw [ProjectorDb.position, Indexed.byIndex_eq_none_iff]
  refine forall₂_congr fun row _ => ?_
  rw [PositionRow.indices, List.mem_singleton]
  exact not_congr eq_comm

/-- The table admits a position of an owner who has none. -/
theorem admits_of_position_none (h : d.position row.userId row.marketId = none) :
    d.positions.Admits row := by
  intro x hx _ j hj hjx
  obtain rfl := List.mem_singleton.1 hj
  exact position_eq_none_iff.1 h x hx (List.mem_singleton.1 hjx).symm

/-- The table admits a new version of a position. -/
theorem admits_version {old : PositionRow} (h : old ∈ d.positions.rows)
    (hid : row.positionId = old.positionId) (howner : row.owner = old.owner) :
    d.positions.Admits row := by
  refine Indexed.admits_of_subset h hid ?_
  rw [PositionRow.indices, PositionRow.indices, howner]
  exact List.Subset.refl _

/-- The positions after a row with a new number, or a new version of a row. -/
theorem position_setPosition (hadmits : d.positions.Admits row)
    (hold : ∀ old, d.positions.find? row.positionId = some old → old.owner = row.owner)
    (userId marketId : ℤ) : (d.setPosition row).position userId marketId =
      if row.owner = (userId, marketId) then some row else d.position userId marketId := by
  split
  · next howner =>
    exact Indexed.byIndex_put_of_mem hadmits (List.mem_singleton.2 howner.symm)
  · next howner =>
    refine Indexed.byIndex_put_of_not_mem hadmits (fun hj => ?_) fun old hfind hj => ?_
    · exact howner (List.mem_singleton.1 hj).symm
    · exact howner ((hold old hfind).symm.trans (List.mem_singleton.1 hj).symm)

/-- The positions after a row with a new number. -/
theorem position_set_fresh (hfresh : d.positions.find? row.positionId = none)
    (hnone : d.position row.userId row.marketId = none) (userId marketId : ℤ) :
    (d.setPosition row).position userId marketId =
      if row.owner = (userId, marketId) then some row else d.position userId marketId := by
  refine position_setPosition (admits_of_position_none hnone) (fun old hfind => ?_) userId marketId
  rw [hfresh] at hfind
  cases hfind

/-- The positions after a new version of a row. -/
theorem position_set_version {old : PositionRow} (hold : old ∈ d.positions.rows)
    (hid : row.positionId = old.positionId) (howner : row.owner = old.owner)
    (userId marketId : ℤ) : (d.setPosition row).position userId marketId =
      if row.owner = (userId, marketId) then some row else d.position userId marketId := by
  refine position_setPosition (admits_version hold hid howner) (fun x hfind => ?_) userId marketId
  rw [hid, Table.find?_of_mem hold] at hfind
  cases hfind
  exact howner.symm

/-- The positions after one has been deleted. -/
theorem position_deletePosition (h : row ∈ d.positions.rows) (userId marketId : ℤ) :
    (d.deletePosition row.positionId).position userId marketId =
      if row.owner = (userId, marketId) then none else d.position userId marketId := by
  split
  · next howner => exact Indexed.byIndex_erase_of_mem h (List.mem_singleton.2 howner.symm)
  · next howner =>
    exact Indexed.byIndex_erase_of_not_mem h fun hj => howner (List.mem_singleton.1 hj).symm

end Owner

/-! ## Open positions -/

section Open

variable {d : ProjectorDb} {context : StoredOrderContext}
  {orderId fillId quantity price initialMargin engineTimestampMs : ℤ}

theorem PositionTables.fresh (h : PositionTables d) :
    d.positions.find? (d.positionIdSeq + 1) = none := by
  refine Table.find?_eq_none_iff.2 fun row hrow hid => ?_
  have hle := h.positionIds row hrow
  omega

theorem PositionTables.closedFresh (h : PositionTables d) :
    d.closedPositions.find? (d.positionIdSeq + 1) = none := by
  refine Table.find?_eq_none_iff.2 fun row hrow hid => ?_
  have hle := h.closedIds row hrow
  omega

theorem eval_linkFillToOpenPositionInTx {positionId : ℤ}
    (hposition : (d.positions.find? positionId).isSome) (hfill : (d.fills.find? fillId).isSome) :
    (linkFillToOpenPositionInTx positionId fillId).eval d =
      .ok ((), { d with positionFills := d.positionFills.upsert { positionId, fillId } }) := by
  have hinsert : insertPositionFill positionId fillId d =
      .ok ((), [.linkPositionFill { positionId, fillId }]) := if_pos ⟨hposition, hfill⟩
  exact eval_execute hinsert

theorem eval_linkFillToClosedPositionInTx {positionId : ℤ}
    (hposition : (d.closedPositions.find? positionId).isSome)
    (hfill : (d.fills.find? fillId).isSome) :
    (linkFillToClosedPositionInTx positionId fillId).eval d =
      .ok ((), { d with
        closedPositionFills := d.closedPositionFills.upsert { positionId, fillId } }) := by
  have hinsert : insertClosedPositionFill positionId fillId d =
      .ok ((), [.linkClosedPositionFill { positionId, fillId }]) := if_pos ⟨hposition, hfill⟩
  exact eval_execute hinsert

/-- The position that is stored when a fill opens one. -/
def opened (d : ProjectorDb) (context : StoredOrderContext)
    (orderId quantity price initialMargin engineTimestampMs : ℤ) (check : 0 < quantity) :
    PositionRow :=
  openPositionRow (d.positionIdSeq + 1) context orderId quantity price initialMargin
    engineTimestampMs check

theorem eval_insertOpenPositionInTx (htables : PositionTables d)
    (hrefs : FillReferences d context orderId fillId) (hquantity : 0 < quantity)
    (hnone : d.position context.userId context.marketId = none) :
    (insertOpenPositionInTx context orderId fillId quantity price initialMargin
      engineTimestampMs).eval d =
      .ok ((), d.openPosition
        (opened d context orderId quantity price initialMargin engineTimestampMs hquantity)
        fillId) := by
  let row := opened d context orderId quantity price initialMargin engineTimestampMs hquantity
  let drawn : ProjectorDb := { d with positionIdSeq := d.positionIdSeq + 1 }
  have hadmits : drawn.positions.Admits row := admits_of_position_none hnone
  have hinsert : insertPosition (d.positionIdSeq + 1) context orderId quantity price initialMargin
      engineTimestampMs drawn = .ok ((), [.putPosition row]) := by
    rw [insertPosition, dif_pos hquantity]
    exact if_pos ⟨hrefs.owner, hrefs.order, htables.fresh, hadmits⟩
  have hstored : ((drawn.setPosition row).positions.find? row.positionId).isSome := by
    rw [ProjectorDb.setPosition, Indexed.toTable_put hadmits, Table.find?_upsert_self]
    rfl
  refine (eval_bind_ok (eval_execute rfl)).trans ((eval_bind_ok (eval_execute hinsert)).trans ?_)
  exact eval_linkFillToOpenPositionInTx hstored hrefs.fill

/-- The version of a position after an increase. -/
def increased (row : PositionRow) (quantity price addedMargin : ℤ)
    (check : 0 < addI64 row.quantity quantity) : PositionRow :=
  { row with
    quantity := addI64 row.quantity quantity
    initialMargin := addI64 row.initialMargin addedMargin
    averagePrice := weightedAveragePrice row.averagePrice row.quantity price quantity
    check := check }

theorem eval_increasePositionInTx {row : PositionRow} {addedMargin : ℤ}
    (hrow : row ∈ d.positions.rows) (hfill : (d.fills.find? fillId).isSome)
    (hquantity : 0 < addI64 row.quantity quantity) :
    (increasePositionInTx row.stored fillId quantity price addedMargin).eval d =
      .ok ((), d.growPosition (increased row quantity price addedMargin hquantity) fillId) := by
  have hfind : d.positions.find? row.stored.positionId = some row := Table.find?_of_mem hrow
  have hupdate : updatePosition row.stored.positionId (addI64 row.stored.quantity quantity)
      (addI64 row.stored.initialMargin addedMargin)
      (some (weightedAveragePrice row.stored.averagePrice row.stored.quantity price quantity)) d =
      .ok ((), [.putPosition (increased row quantity price addedMargin hquantity)]) := by
    simp only [updatePosition, hfind]
    exact dif_pos hquantity
  have hadmits : d.positions.Admits (increased row quantity price addedMargin hquantity) :=
    admits_version hrow rfl rfl
  refine (eval_bind_ok (eval_execute hupdate)).trans (eval_linkFillToOpenPositionInTx ?_ hfill)
  change ((d.positions.put _).find? row.positionId).isSome
  rw [Indexed.toTable_put hadmits]
  exact Option.isSome_iff_exists.2 ⟨_, Table.find?_upsert_self _ _⟩

end Open

/-! ## Closed positions -/

section Close

variable {d : ProjectorDb} {context : StoredOrderContext} {row : PositionRow}
  {orderId fillId quantity price engineTimestampMs : ℤ} {executionReason : ExecutionReason}

/-- The closed position that is stored for what a fill closes of a position. -/
def closed (d : ProjectorDb) (row : PositionRow) (context : StoredOrderContext)
    (orderId quantity price engineTimestampMs : ℤ) (executionReason : ExecutionReason)
    (check : 0 < quantity) : ClosedPositionRow :=
  closedPositionRow (d.positionIdSeq + 1) row.stored context orderId quantity price
    (proportionalMargin row.initialMargin row.quantity quantity) engineTimestampMs
    (closeTypeFromExecutionReason executionReason) check

theorem eval_insertClosedPositionInTx {closeReason : CloseType} {closedQuantity margin : ℤ}
    (htables : PositionTables d) (hrefs : FillReferences d context orderId fillId)
    (hrow : row ∈ d.positions.rows) (hquantity : 0 < closedQuantity) :
    (insertClosedPositionInTx row.stored context orderId fillId closedQuantity price margin
      engineTimestampMs closeReason).eval d =
      .ok (d.positionIdSeq + 1, d.recordClosed
        (closedPositionRow (d.positionIdSeq + 1) row.stored context orderId closedQuantity price
          margin engineTimestampMs closeReason hquantity) fillId) := by
  let closedRow := closedPositionRow (d.positionIdSeq + 1) row.stored context orderId closedQuantity
    price margin engineTimestampMs closeReason hquantity
  let drawn : ProjectorDb := { d with positionIdSeq := d.positionIdSeq + 1 }
  have hopener : (d.orders.find? closedRow.openOrderId).isSome := by
    change (d.orders.find? (row.openOrderId.getD orderId)).isSome
    cases hopen : row.openOrderId with
    | none => exact hrefs.order
    | some opener => exact htables.openers row hrow opener hopen
  have hinsert : insertClosedPosition (d.positionIdSeq + 1) row.stored context orderId
      closedQuantity price margin engineTimestampMs closeReason drawn =
      .ok ((), [.putClosedPosition closedRow]) := by
    rw [insertClosedPosition, dif_pos hquantity]
    exact if_pos ⟨hrefs.owner, hopener, hrefs.order, htables.closedFresh⟩
  have hstored : ((d.closedPositions.upsert closedRow).find? (d.positionIdSeq + 1)).isSome :=
    Option.isSome_iff_exists.2 ⟨closedRow, Table.find?_upsert_self _ closedRow⟩
  refine (eval_bind_ok (eval_execute rfl)).trans ((eval_bind_ok (eval_execute hinsert)).trans ?_)
  refine (eval_bind_ok (eval_linkFillToClosedPositionInTx ?_ ?_)).trans ?_
  · exact hstored
  · exact hrefs.fill
  · rfl

/-- The version of a position after a partial reduction. -/
def reduced (row : PositionRow) (quantity : ℤ) (check : 0 < row.quantity - quantity) :
    PositionRow :=
  { row with
    quantity := row.quantity - quantity
    initialMargin :=
      max (row.initialMargin - proportionalMargin row.initialMargin row.quantity quantity) 0
    check := check }

/-- A smaller fill of the other side reduces the position. -/
theorem eval_reducePosition (htables : PositionTables d)
    (hrefs : FillReferences d context orderId fillId) (hrow : row ∈ d.positions.rows)
    (hquantity : 0 < quantity) (hless : 0 < row.quantity - quantity) :
    (reduceOrReversePositionInTx row.stored context orderId fillId price quantity
      engineTimestampMs executionReason).eval d =
      .ok ((), (d.recordClosed (closed d row context orderId quantity price engineTimestampMs
        executionReason hquantity) fillId).setPosition (reduced row quantity hless)) := by
  have hlt : quantity < row.stored.quantity := sub_pos.1 hless
  have hmin : min row.stored.quantity quantity = quantity := min_eq_right hlt.le
  unfold reduceOrReversePositionInTx
  simp only [hmin]
  refine (eval_bind_ok (eval_insertClosedPositionInTx htables hrefs hrow hquantity)).trans ?_
  rw [if_pos hlt]
  have hupdate : updatePosition row.stored.positionId (row.stored.quantity - quantity)
      (max (row.stored.initialMargin -
        proportionalMargin row.stored.initialMargin row.stored.quantity quantity) 0) none
      (d.recordClosed (closed d row context orderId quantity price engineTimestampMs
        executionReason hquantity) fillId) =
      .ok ((), [.putPosition (reduced row quantity hless)]) := by
    have hfind : (d.recordClosed (closed d row context orderId quantity price engineTimestampMs
        executionReason hquantity) fillId).positions.find? row.stored.positionId = some row :=
      Table.find?_of_mem hrow
    rw [updatePosition, hfind]
    exact dif_pos hless
  exact eval_execute hupdate

theorem eval_transferOpenPositionFillsToClosedInTx {openPositionId closedPositionId : ℤ}
    (h : (d.closedPositions.find? closedPositionId).isSome) :
    (transferOpenPositionFillsToClosedInTx openPositionId closedPositionId).eval d =
      .ok ((), d.transferFills openPositionId closedPositionId) := by
  have hviews : ∀ (links : List PositionFillRow) (v : ProjectorDb),
      view (links.map fun row =>
        .linkClosedPositionFill { positionId := closedPositionId, fillId := row.fillId }) v =
      { v with
        closedPositionFills := links.foldl
          (fun stored row => stored.upsert { positionId := closedPositionId, fillId := row.fillId })
          v.closedPositionFills } := by
    intro links
    induction links with
    | nil => exact fun v => rfl
    | cons link links ih => exact fun v => ih _
  have hcopy : copyPositionFills openPositionId closedPositionId d =
      .ok ((), (d.positionFills.rows.filter fun row => row.positionId = openPositionId).map
        fun row => .linkClosedPositionFill { positionId := closedPositionId, fillId := row.fillId }) :=
    if_pos h
  exact (eval_execute hcopy).trans (congrArg (fun v => Except.ok ((), v)) (hviews _ d))

/-- The data after a fill has closed the whole position. -/
def ProjectorDb.closePosition (d : ProjectorDb) (row : PositionRow) (closedRow : ClosedPositionRow)
    (fillId : ℤ) : ProjectorDb :=
  ((d.recordClosed closedRow fillId).transferFills row.positionId closedRow.positionId).deletePosition
    row.positionId

/-- What happens up to the decision whether something is left over of a fill that
closes the whole position. -/
theorem eval_closePosition (htables : PositionTables d)
    (hrefs : FillReferences d context orderId fillId) (hrow : row ∈ d.positions.rows)
    (hquantity : row.quantity ≤ quantity) :
    (reduceOrReversePositionInTx row.stored context orderId fillId price quantity
      engineTimestampMs executionReason).eval d =
      (if 0 < quantity - row.quantity then
        insertOpenPositionInTx context orderId fillId (quantity - row.quantity) price
          (proportionalMargin context.margin context.quantity (quantity - row.quantity))
          engineTimestampMs
      else return () : Tx Unit).eval (d.closePosition row (closed d row context orderId row.quantity
        price engineTimestampMs executionReason row.check) fillId) := by
  have hmin : min row.stored.quantity quantity = row.quantity := min_eq_left hquantity
  unfold reduceOrReversePositionInTx
  simp only [hmin]
  refine (eval_bind_ok (eval_insertClosedPositionInTx htables hrefs hrow row.check)).trans ?_
  have hall : ¬row.quantity < row.stored.quantity := lt_irrefl row.quantity
  rw [if_neg hall]
  have hstored : ((d.recordClosed (closed d row context orderId row.quantity price
      engineTimestampMs executionReason row.check) fillId).closedPositions.find?
      (d.positionIdSeq + 1)).isSome :=
    Option.isSome_iff_exists.2 ⟨_, Table.find?_upsert_self _ _⟩
  refine (eval_bind_ok (eval_transferOpenPositionFillsToClosedInTx hstored)).trans ?_
  refine (eval_bind_ok (eval_execute rfl)).trans ?_
  rfl

end Close

/-! ## What is kept -/

namespace PositionTables

variable {d : ProjectorDb} {row old : PositionRow} {fillId : ℤ}

theorem openPosition (h : PositionTables d) (hid : row.positionId = d.positionIdSeq + 1)
    (hopener : ∀ orderId ∈ row.openOrderId, (d.orders.find? orderId).isSome) :
    PositionTables (d.openPosition row fillId) where
  positionIds x hx := by
    show x.positionId ≤ d.positionIdSeq + 1
    rcases Indexed.mem_put_cases hx with rfl | hx
    · exact hid.le
    · exact (h.positionIds x hx).trans (by omega)
  closedIds x hx := (h.closedIds x hx).trans (lt_add_one d.positionIdSeq).le
  openers x hx := by
    rcases Indexed.mem_put_cases hx with rfl | hx
    · exact hopener
    · exact h.openers x hx

theorem setPosition (h : PositionTables d) (hold : old ∈ d.positions.rows)
    (hid : row.positionId = old.positionId) (hopener : row.openOrderId = old.openOrderId) :
    PositionTables (d.setPosition row) where
  positionIds x hx := by
    rcases Indexed.mem_put_cases hx with rfl | hx
    · exact hid.trans_le (h.positionIds old hold)
    · exact h.positionIds x hx
  closedIds := h.closedIds
  openers x hx := by
    rcases Indexed.mem_put_cases hx with rfl | hx
    · rw [hopener]
      exact h.openers old hold
    · exact h.openers x hx

theorem growPosition (h : PositionTables d) (hold : old ∈ d.positions.rows)
    (hid : row.positionId = old.positionId) (hopener : row.openOrderId = old.openOrderId) :
    PositionTables (d.growPosition row fillId) where
  positionIds := (h.setPosition hold hid hopener).positionIds
  closedIds := h.closedIds
  openers := (h.setPosition hold hid hopener).openers

theorem recordClosed (h : PositionTables d) {closedRow : ClosedPositionRow}
    (hid : closedRow.positionId = d.positionIdSeq + 1) :
    PositionTables (d.recordClosed closedRow fillId) where
  positionIds x hx := (h.positionIds x hx).trans (lt_add_one d.positionIdSeq).le
  closedIds x hx := by
    show x.positionId ≤ d.positionIdSeq + 1
    rcases Table.mem_upsert_cases hx with rfl | ⟨hx, -⟩
    · exact hid.le
    · exact (h.closedIds x hx).trans (by omega)
  openers := h.openers

theorem closePosition (h : PositionTables d) {closedRow : ClosedPositionRow}
    (hid : closedRow.positionId = d.positionIdSeq + 1) :
    PositionTables (d.closePosition row closedRow fillId) := by
  have hrecorded : PositionTables (d.recordClosed closedRow fillId) := h.recordClosed hid
  refine ⟨fun x hx => ?_, hrecorded.closedIds, fun x hx => ?_⟩
  · exact hrecorded.positionIds x (Table.mem_erase.1 hx).1
  · exact h.openers x (Table.mem_erase.1 hx).1

end PositionTables

/-! ## The position of one user -/

/-- What the projection of fills to positions refers to and does not change. -/
structure SameReferences (d d' : ProjectorDb) : Prop where
  users : d'.users = d.users
  markets : d'.markets = d.markets
  orders : d'.orders = d.orders
  fills : d'.fills = d.fills

theorem FillReferences.mono {d d' : ProjectorDb} {context : StoredOrderContext} {orderId fillId : ℤ}
    (h : FillReferences d context orderId fillId) (hsame : SameReferences d d') :
    FillReferences d' context orderId fillId := by
  refine ⟨?_, ?_, ?_⟩
  · unfold ProjectorDb.References
    rw [hsame.users, hsame.markets]
    exact h.owner
  · rw [hsame.orders]
    exact h.order
  · rw [hsame.fills]
    exact h.fill

/-- The position of one owner is replaced, and those of the others stay. -/
structure Replaces (d d' : ProjectorDb) (owner : ℤ × ℤ) (row : Option PositionRow) : Prop where
  tables : PositionTables d'
  references : SameReferences d d'
  position : ∀ userId marketId, d'.position userId marketId =
    if owner = (userId, marketId) then row else d.position userId marketId

section Replaces

variable {d : ProjectorDb} {context : StoredOrderContext} {row : PositionRow}
  {orderId fillId price quantity engineTimestampMs : ℤ} {executionReason : ExecutionReason}

/-- A fill of a user without a position opens one. -/
theorem replaces_open (htables : PositionTables d)
    (hrefs : FillReferences d context orderId fillId) (hquantity : 0 < quantity)
    (hnone : d.position context.userId context.marketId = none) (margin : ℤ) :
    ∃ d', (insertOpenPositionInTx context orderId fillId quantity price margin
      engineTimestampMs).eval d = .ok ((), d') ∧
      Replaces d d' (context.userId, context.marketId)
        (some (opened d context orderId quantity price margin engineTimestampMs hquantity)) := by
  let row := opened d context orderId quantity price margin engineTimestampMs hquantity
  have hfresh : d.positions.find? row.positionId = none := htables.fresh
  refine ⟨_, eval_insertOpenPositionInTx htables hrefs hquantity hnone, ?_, ⟨rfl, rfl, rfl, rfl⟩,
    position_set_fresh (d := d) hfresh hnone⟩
  refine htables.openPosition rfl fun opener hopener => ?_
  cases hopener
  exact hrefs.order

/-- A fill of the side of the position increases it. -/
theorem replaces_increase (htables : PositionTables d) (hrow : row ∈ d.positions.rows)
    (hfill : (d.fills.find? fillId).isSome) (hadded : 0 < addI64 row.quantity quantity)
    (margin : ℤ) :
    ∃ d', (increasePositionInTx row.stored fillId quantity price margin).eval d = .ok ((), d') ∧
      Replaces d d' row.owner (some (increased row quantity price margin hadded)) :=
  ⟨_, eval_increasePositionInTx hrow hfill hadded, htables.growPosition hrow rfl rfl,
    ⟨rfl, rfl, rfl, rfl⟩, position_set_version (d := d) hrow rfl rfl⟩

/-- A fill of the other side that is smaller than the position reduces it. -/
theorem replaces_reduce (htables : PositionTables d)
    (hrefs : FillReferences d context orderId fillId) (hrow : row ∈ d.positions.rows)
    (hquantity : 0 < quantity) (hless : 0 < row.quantity - quantity) :
    ∃ d', (reduceOrReversePositionInTx row.stored context orderId fillId price quantity
      engineTimestampMs executionReason).eval d = .ok ((), d') ∧
      Replaces d d' row.owner (some (reduced row quantity hless)) := by
  let recorded := d.recordClosed (closed d row context orderId quantity price engineTimestampMs
    executionReason hquantity) fillId
  exact ⟨_, eval_reducePosition htables hrefs hrow hquantity hless,
    (htables.recordClosed rfl).setPosition hrow rfl rfl, ⟨rfl, rfl, rfl, rfl⟩,
    position_set_version (d := recorded) hrow rfl rfl⟩

/-- What a fill that closes a position opens with what is left over. -/
structure Reverses (row : Option PositionRow) (context : StoredOrderContext) (orderId left : ℤ) :
    Prop where
  flat : left = 0 → row = none
  opens : 0 < left → ∃ opened, row = some opened ∧ opened.side = context.side ∧
    opened.quantity = left ∧ opened.openOrderId = some orderId

/-- A fill of the other side that is not smaller closes the position, and opens
one with what is left over. -/
theorem replaces_close (htables : PositionTables d)
    (hrefs : FillReferences d context orderId fillId) (hrow : row ∈ d.positions.rows)
    (howner : row.owner = (context.userId, context.marketId)) (hmore : row.quantity ≤ quantity) :
    ∃ d' row', (reduceOrReversePositionInTx row.stored context orderId fillId price quantity
      engineTimestampMs executionReason).eval d = .ok ((), d') ∧
      Replaces d d' row.owner row' ∧ Reverses row' context orderId (quantity - row.quantity) := by
  let closedRow := closed d row context orderId row.quantity price engineTimestampMs executionReason
    row.check
  let closing := d.closePosition row closedRow fillId
  have hclosing : PositionTables closing := htables.closePosition rfl
  have hposition : ∀ userId marketId, closing.position userId marketId =
      if row.owner = (userId, marketId) then none else d.position userId marketId :=
    position_deletePosition (d := d) hrow
  have hflat : closing.position context.userId context.marketId = none :=
    (hposition _ _).trans (if_pos howner)
  rw [eval_closePosition htables hrefs hrow hmore]
  split
  · next hleft =>
    let margin := proportionalMargin context.margin context.quantity (quantity - row.quantity)
    let rest := opened closing context orderId (quantity - row.quantity) price margin
      engineTimestampMs hleft
    have hrefs' : FillReferences closing context orderId fillId :=
      ⟨hrefs.owner, hrefs.order, hrefs.fill⟩
    obtain ⟨d', heval, hopened⟩ : ∃ d', (insertOpenPositionInTx context orderId fillId
        (quantity - row.quantity) price margin engineTimestampMs).eval closing = .ok ((), d') ∧
        Replaces closing d' (context.userId, context.marketId) (some rest) :=
      replaces_open hclosing hrefs' hleft hflat margin
    obtain ⟨husers, hmarkets, horders, hfills⟩ := hopened.references
    refine ⟨d', some rest, heval, ⟨hopened.tables, ⟨husers, hmarkets, horders, hfills⟩,
      fun userId marketId => ?_⟩, fun hzero => ?_, fun _ => ⟨rest, rfl, rfl, rfl, rfl⟩⟩
    · rw [hopened.position, hposition, howner]
      split <;> rfl
    · omega
  · next hleft =>
    exact ⟨closing, none, rfl, ⟨hclosing, ⟨rfl, rfl, rfl, rfl⟩, hposition⟩, fun _ => rfl,
      fun hpos => absurd hpos hleft⟩

end Replaces

end Projector
