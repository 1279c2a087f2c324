import ExchangeServer.Projector.Frames
import ExchangeServer.Projector.SignedPositions

/-!
# Runs of fills

What the projection of a fill has done when it was not refused, said once for
all branches, and runs in which fills of any users are projected one after the
other.

Between two fills other tables change and positions are marked to a price. A run
records each fill with the data before and after it, so that what is asked of a
position can be asked of the steps.

## Main results

- `change_of_project`: the data after a fill, by the branch that was taken
- `FillRun`, `FillRun.split`: runs and their parts
- `FillRun.trade`: a projected trade is a part of a run
-/

namespace Projector

open Protocol Relational Transactional Program

/-! ## One fill -/

namespace PositionFill

variable (fill : PositionFill)

/-- The position of the user of the fill. -/
def position (d : ProjectorDb) : Option PositionRow :=
  d.position fill.context.userId fill.context.marketId

/-- The part of the margin of the order that belongs to a quantity of it. -/
def share (quantity : ℤ) : ℤ :=
  proportionalMargin fill.context.margin fill.context.quantity quantity

/-- The position that is opened with a quantity of the fill. -/
def openedRow (d : ProjectorDb) (quantity : ℤ) (check : 0 < quantity) : PositionRow :=
  opened d fill.context fill.orderId quantity fill.price (fill.share quantity)
    fill.engineTimestampMs check

/-- The version of a position to which the fill has been added. -/
def increasedRow (row : PositionRow) (check : 0 < addI64 row.quantity fill.quantity) :
    PositionRow :=
  increased row fill.quantity fill.price (fill.share fill.quantity) check

/-- The closed position for the quantity of a position that the fill closes. -/
def closedRow (d : ProjectorDb) (row : PositionRow) (quantity : ℤ) (check : 0 < quantity) :
    ClosedPositionRow :=
  closed d row fill.context fill.orderId quantity fill.price fill.engineTimestampMs
    fill.executionReason check

/-- The data after the fill has closed a whole position. -/
def closing (d : ProjectorDb) (row : PositionRow) : ProjectorDb :=
  d.closePosition row (fill.closedRow d row row.quantity row.check) fill.fillId

end PositionFill

/-- What the projection of a fill does to the data, one constructor for each
branch. -/
inductive Change (d : ProjectorDb) (fill : PositionFill) : ProjectorDb → Prop
  | ignores (reduceOnly : fill.context.reduceOnly = true)
      (side : ∀ row, fill.position d = some row → row.side = fill.context.side) : Change d fill d
  | opens (flat : fill.position d = none) (notReduceOnly : fill.context.reduceOnly = false)
      (check : 0 < fill.quantity) (stored : (d.orders.find? fill.orderId).isSome) :
      Change d fill (d.openPosition (fill.openedRow d fill.quantity check) fill.fillId)
  | increases (row : PositionRow) (held : fill.position d = some row)
      (side : row.side = fill.context.side) (notReduceOnly : fill.context.reduceOnly = false)
      (check : 0 < addI64 row.quantity fill.quantity) :
      Change d fill (d.growPosition (fill.increasedRow row check) fill.fillId)
  | reduces (row : PositionRow) (held : fill.position d = some row)
      (side : row.side ≠ fill.context.side) (check : 0 < fill.quantity)
      (less : 0 < row.quantity - fill.quantity) :
      Change d fill ((d.recordClosed (fill.closedRow d row fill.quantity check)
        fill.fillId).setPosition (reduced row fill.quantity less))
  | closes (row : PositionRow) (held : fill.position d = some row)
      (side : row.side ≠ fill.context.side) (all : fill.quantity = row.quantity) :
      Change d fill (fill.closing d row)
  | reverses (row : PositionRow) (held : fill.position d = some row)
      (side : row.side ≠ fill.context.side) (left : 0 < fill.quantity - row.quantity)
      (stored : (d.orders.find? fill.orderId).isSome) :
      Change d fill ((fill.closing d row).openPosition
        (fill.openedRow (fill.closing d row) (fill.quantity - row.quantity) left) fill.fillId)

section Inversion

variable {d d' : ProjectorDb} {context : StoredOrderContext} {fill : PositionFill}
  {row : PositionRow} {orderId fillId price quantity margin engineTimestampMs : ℤ}

/-- A position has been opened, so what its fill refers to is stored. -/
theorem references_of_insertOpenPositionInTx
    (h : (insertOpenPositionInTx context orderId fillId quantity price margin
      engineTimestampMs).eval d = .ok ((), d')) :
    FillReferences d context orderId fillId ∧ 0 < quantity := by
  obtain ⟨positionId, v, hdraw, h⟩ := eval_bind_eq_ok h
  obtain ⟨_, v', hinsert, hlink⟩ := eval_bind_eq_ok h
  obtain ⟨ws, hs, rfl⟩ := eval_execute_eq_ok hdraw
  cases hs
  obtain ⟨ws, hs, rfl⟩ := eval_execute_eq_ok hinsert
  unfold insertPosition at hs
  split at hs
  · next hquantity =>
    simp only at hs
    split at hs
    · next hstored =>
      cases hs
      obtain ⟨ws, hs, rfl⟩ := eval_execute_eq_ok hlink
      unfold insertPositionFill at hs
      split at hs
      · next hlinked => exact ⟨⟨hstored.1, hstored.2.1, hlinked.2⟩, hquantity⟩
      · cases hs
    · cases hs
  · cases hs

/-- A closed position has been stored, and so has what its fill refers to. -/
theorem references_of_insertClosedPositionInTx {position : StoredPosition}
    {closeReason : CloseType} {closedPositionId : ℤ}
    (h : (insertClosedPositionInTx position context orderId fillId quantity price margin
      engineTimestampMs closeReason).eval d = .ok (closedPositionId, d')) :
    FillReferences d context orderId fillId ∧ 0 < quantity := by
  obtain ⟨positionId, v, hdraw, h⟩ := eval_bind_eq_ok h
  obtain ⟨_, v', hinsert, h⟩ := eval_bind_eq_ok h
  obtain ⟨_, v'', hlink, h⟩ := eval_bind_eq_ok h
  obtain ⟨ws, hs, rfl⟩ := eval_execute_eq_ok hdraw
  cases hs
  obtain ⟨ws, hs, rfl⟩ := eval_execute_eq_ok hinsert
  unfold insertClosedPosition at hs
  split at hs
  · next hquantity =>
    simp only at hs
    split at hs
    · next hstored =>
      cases hs
      obtain ⟨ws, hs, rfl⟩ := eval_execute_eq_ok hlink
      unfold insertClosedPositionFill at hs
      split at hs
      · next hlinked => exact ⟨⟨hstored.1, hstored.2.2.1, hlinked.2⟩, hquantity⟩
      · cases hs
    · cases hs
  · cases hs

/-- The number of an increased position is positive, and its fill is stored. -/
theorem stored_of_increasePositionInTx (hrow : row ∈ d.positions.rows)
    (h : (increasePositionInTx row.stored fillId quantity price margin).eval d = .ok ((), d')) :
    (d.fills.find? fillId).isSome ∧ 0 < addI64 row.quantity quantity := by
  have hfind : d.positions.find? row.stored.positionId = some row := Table.find?_of_mem hrow
  obtain ⟨_, v, hupdate, hlink⟩ := eval_bind_eq_ok h
  obtain ⟨ws, hs, rfl⟩ := eval_execute_eq_ok hupdate
  simp only [updatePosition, hfind] at hs
  split at hs
  · next hquantity =>
    cases hs
    obtain ⟨ws, hs, rfl⟩ := eval_execute_eq_ok hlink
    unfold insertPositionFill at hs
    split at hs
    · next hlinked => exact ⟨hlinked.2, hquantity⟩
    · cases hs
  · cases hs

/-- The position of a user is gone after it has been closed. -/
theorem position_closing (held : fill.position d = some row) (userId marketId : ℤ) :
    (fill.closing d row).position userId marketId =
      if fill.owner = (userId, marketId) then none else d.position userId marketId := by
  obtain ⟨hrow, howner⟩ := position_eq_some_iff.1 held
  have hdeleted := position_deletePosition (d := d) hrow userId marketId
  rw [howner] at hdeleted
  exact hdeleted

theorem flat_closing (held : fill.position d = some row) :
    fill.position (fill.closing d row) = none :=
  (position_closing held _ _).trans (if_pos rfl)

/-- A fill of the other side reduces, closes or reverses the position. -/
theorem change_of_other_side (htables : PositionTables d) (held : fill.position d = some row)
    (hside : row.side ≠ fill.context.side)
    (h : (reduceOrReversePositionInTx row.stored fill.context fill.orderId fill.fillId fill.price
      fill.quantity fill.engineTimestampMs fill.executionReason).eval d = .ok ((), d')) :
    Change d fill d' := by
  obtain ⟨hrow, howner⟩ := position_eq_some_iff.1 held
  -- Every branch stores a closed position first.
  obtain ⟨hrefs, hclosed⟩ : FillReferences d fill.context fill.orderId fill.fillId ∧
      0 < min row.quantity fill.quantity := by
    obtain ⟨_, v, hclose, -⟩ := eval_bind_eq_ok h
    exact references_of_insertClosedPositionInTx hclose
  have hquantity : 0 < fill.quantity := (lt_min_iff.1 hclosed).2
  by_cases hless : 0 < row.quantity - fill.quantity
  · rw [eval_reducePosition htables hrefs hrow hquantity hless] at h
    cases h
    exact .reduces row held hside hquantity hless
  · have hmore : row.quantity ≤ fill.quantity := by omega
    have hflat : fill.position (fill.closing d row) = none := flat_closing held
    rw [eval_closePosition htables hrefs hrow hmore] at h
    split at h
    · next hleft =>
      -- What is left over is opened from the data after the close.
      have hclosing : PositionTables (fill.closing d row) := htables.closePosition rfl
      have hstored : FillReferences (fill.closing d row) fill.context fill.orderId fill.fillId :=
        ⟨hrefs.owner, hrefs.order, hrefs.fill⟩
      cases h.symm.trans (eval_insertOpenPositionInTx hclosing hstored hleft hflat)
      exact .reverses row held hside hleft hrefs.order
    · next hleft =>
      cases h
      exact .closes row held hside (by omega)

/-- A fill that is not refused has done what one of the branches does. -/
theorem change_of_project (htables : PositionTables d) (h : fill.project.eval d = .ok ((), d')) :
    Change d fill d' := by
  unfold PositionFill.project projectPositionForFillInTx loadPositionForUpdateInTx at h
  rw [eval_bind_ok (eval_query _ _)] at h
  cases held : d.position fill.context.userId fill.context.marketId with
  | none =>
    simp only [held, Option.map_none] at h
    -- Without a position a fill opens one, unless its order may only reduce.
    split at h
    · next hreduce =>
      cases h
      refine .ignores hreduce fun row hrow => ?_
      exact absurd (held.symm.trans hrow) (by simp)
    · next hreduce =>
      obtain ⟨hrefs, hquantity⟩ := references_of_insertOpenPositionInTx h
      rw [eval_insertOpenPositionInTx htables hrefs hquantity held] at h
      cases h
      exact .opens held (Bool.eq_false_of_not_eq_true hreduce) hquantity hrefs.order
  | some row =>
    obtain ⟨hrow, -⟩ := position_eq_some_iff.1 held
    simp only [held, Option.map_some] at h
    split at h
    · next hignored =>
      cases h
      refine .ignores hignored.1 fun x hx => ?_
      obtain rfl := Option.some.inj (held.symm.trans hx)
      exact hignored.2
    · next hnot =>
      split at h
      · next hside =>
        obtain ⟨hfill, hquantity⟩ := stored_of_increasePositionInTx hrow h
        rw [eval_increasePositionInTx hrow hfill hquantity] at h
        cases h
        have hreduce : fill.context.reduceOnly = false :=
          Bool.eq_false_of_not_eq_true fun hreduce => hnot ⟨hreduce, hside⟩
        exact .increases row held hside hreduce hquantity
      · next hside => exact change_of_other_side htables held hside h

end Inversion

/-! ## What a change keeps -/

section Kept

variable {d d' : ProjectorDb} {fill : PositionFill} {row : PositionRow}

/-- The positions after one has been opened. -/
theorem position_openPosition (htables : PositionTables d) (hflat : fill.position d = none)
    {quantity : ℤ} (check : 0 < quantity) (userId marketId : ℤ) :
    (d.openPosition (fill.openedRow d quantity check) fill.fillId).position userId marketId =
      if fill.owner = (userId, marketId) then some (fill.openedRow d quantity check)
      else d.position userId marketId := by
  have hfresh : d.positions.find? (fill.openedRow d quantity check).positionId = none :=
    htables.fresh
  exact position_set_fresh (d := d) hfresh hflat userId marketId

/-- The positions after a new version of one. -/
theorem position_newVersion (held : fill.position d = some row) (version : PositionRow)
    (hid : version.positionId = row.positionId) (howner : version.owner = row.owner)
    (userId marketId : ℤ) : (d.setPosition version).position userId marketId =
      if fill.owner = (userId, marketId) then some version else d.position userId marketId := by
  obtain ⟨hrow, hheld⟩ := position_eq_some_iff.1 held
  have hfill : fill.owner = version.owner := (howner.trans hheld).symm
  rw [hfill]
  exact position_set_version hrow hid howner userId marketId

theorem position_increased (held : fill.position d = some row)
    (check : 0 < addI64 row.quantity fill.quantity) (userId marketId : ℤ) :
    (d.growPosition (fill.increasedRow row check) fill.fillId).position userId marketId =
      if fill.owner = (userId, marketId) then some (fill.increasedRow row check)
      else d.position userId marketId :=
  position_newVersion held (fill.increasedRow row check) rfl rfl userId marketId

theorem position_reduced (held : fill.position d = some row) (check : 0 < fill.quantity)
    (less : 0 < row.quantity - fill.quantity) (userId marketId : ℤ) :
    ((d.recordClosed (fill.closedRow d row fill.quantity check) fill.fillId).setPosition
      (reduced row fill.quantity less)).position userId marketId =
      if fill.owner = (userId, marketId) then some (reduced row fill.quantity less)
      else d.position userId marketId := by
  have hrecorded : fill.position (d.recordClosed (fill.closedRow d row fill.quantity check)
      fill.fillId) = some row := held
  exact position_newVersion hrecorded (reduced row fill.quantity less) rfl rfl userId marketId

theorem position_reversed (htables : PositionTables d) (held : fill.position d = some row)
    (left : 0 < fill.quantity - row.quantity) (userId marketId : ℤ) :
    ((fill.closing d row).openPosition
      (fill.openedRow (fill.closing d row) (fill.quantity - row.quantity) left)
      fill.fillId).position userId marketId =
      if fill.owner = (userId, marketId) then
        some (fill.openedRow (fill.closing d row) (fill.quantity - row.quantity) left)
      else d.position userId marketId := by
  have hclosing : PositionTables (fill.closing d row) := htables.closePosition rfl
  have hflat : fill.position (fill.closing d row) = none := flat_closing held
  rw [position_openPosition hclosing hflat left, position_closing held]
  split <;> rfl

/-! The position of the user of the fill, after each branch. -/

theorem held_openPosition (htables : PositionTables d) (hflat : fill.position d = none)
    {quantity : ℤ} (check : 0 < quantity) :
    fill.position (d.openPosition (fill.openedRow d quantity check) fill.fillId) =
      some (fill.openedRow d quantity check) :=
  (position_openPosition htables hflat check _ _).trans (if_pos rfl)

theorem held_increased (held : fill.position d = some row)
    (check : 0 < addI64 row.quantity fill.quantity) :
    fill.position (d.growPosition (fill.increasedRow row check) fill.fillId) =
      some (fill.increasedRow row check) :=
  (position_increased held check _ _).trans (if_pos rfl)

theorem held_reduced (held : fill.position d = some row) (check : 0 < fill.quantity)
    (less : 0 < row.quantity - fill.quantity) :
    fill.position ((d.recordClosed (fill.closedRow d row fill.quantity check)
      fill.fillId).setPosition (reduced row fill.quantity less)) =
        some (reduced row fill.quantity less) :=
  (position_reduced held check less _ _).trans (if_pos rfl)

theorem held_reversed (htables : PositionTables d) (held : fill.position d = some row)
    (left : 0 < fill.quantity - row.quantity) :
    fill.position ((fill.closing d row).openPosition
      (fill.openedRow (fill.closing d row) (fill.quantity - row.quantity) left) fill.fillId) =
        some (fill.openedRow (fill.closing d row) (fill.quantity - row.quantity) left) :=
  (position_reversed htables held left _ _).trans (if_pos rfl)

/-- A fill changes the position of its user only. -/
theorem Change.others (htables : PositionTables d) (h : Change d fill d') {userId marketId : ℤ}
    (hne : fill.owner ≠ (userId, marketId)) :
    d'.position userId marketId = d.position userId marketId := by
  cases h with
  | ignores reduceOnly side => rfl
  | opens flat notReduceOnly check stored =>
    exact (position_openPosition htables flat check _ _).trans (if_neg hne)
  | increases row held side notReduceOnly check =>
    exact (position_increased held check _ _).trans (if_neg hne)
  | reduces row held side check less =>
    exact (position_reduced held check less _ _).trans (if_neg hne)
  | closes row held side all => exact (position_closing held _ _).trans (if_neg hne)
  | reverses row held side left stored =>
    exact (position_reversed htables held left _ _).trans (if_neg hne)

/-- Numbers of the sequence are not given back. -/
theorem Change.positionIdSeq (h : Change d fill d') : d.positionIdSeq ≤ d'.positionIdSeq := by
  cases h with
  | ignores reduceOnly side => exact le_rfl
  | opens flat notReduceOnly check stored => exact (lt_add_one d.positionIdSeq).le
  | increases row held side notReduceOnly check => exact le_rfl
  | reduces row held side check less => exact (lt_add_one d.positionIdSeq).le
  | closes row held side all => exact (lt_add_one d.positionIdSeq).le
  | reverses row held side left stored =>
    exact ((lt_add_one d.positionIdSeq).trans (lt_add_one (d.positionIdSeq + 1))).le

theorem Change.tables (htables : PositionTables d) (h : Change d fill d') : PositionTables d' := by
  cases h with
  | ignores reduceOnly side => exact htables
  | opens flat notReduceOnly check stored =>
    refine htables.openPosition rfl fun orderId horder => ?_
    cases horder
    exact stored
  | increases row held side notReduceOnly check =>
    exact htables.growPosition (position_eq_some_iff.1 held).1 rfl rfl
  | reduces row held side check less =>
    exact (htables.recordClosed rfl).setPosition (position_eq_some_iff.1 held).1 rfl rfl
  | closes row held side all => exact htables.closePosition rfl
  | reverses row held side left stored =>
    have hclosing : PositionTables (fill.closing d row) := htables.closePosition rfl
    refine hclosing.openPosition rfl fun orderId horder => ?_
    cases horder
    exact stored

end Kept

/-! ## Between two fills -/

/-- The terms of a position: all but its mark to a price. -/
def PositionRow.terms (row : PositionRow) : PositionRow := { row with unrealizedPnl := 0 }

/-- Positions, closed positions and their fills stay, but for the marks; numbers
may be drawn from the sequence and lost. -/
structure Quiet (d d' : ProjectorDb) : Prop where
  tables : PositionTables d → PositionTables d'
  position : ∀ userId marketId, (d'.position userId marketId).map PositionRow.terms =
    (d.position userId marketId).map PositionRow.terms
  closedPositions : d'.closedPositions = d.closedPositions
  positionFills : d'.positionFills = d.positionFills
  closedPositionFills : d'.closedPositionFills = d.closedPositionFills
  positionIdSeq : d.positionIdSeq ≤ d'.positionIdSeq

theorem Quiet.refl (d : ProjectorDb) : Quiet d d := ⟨id, fun _ _ => rfl, rfl, rfl, rfl, le_rfl⟩

theorem Quiet.trans {a b c : ProjectorDb} (h : Quiet a b) (h' : Quiet b c) : Quiet a c where
  tables ha := h'.tables (h.tables ha)
  position userId marketId := (h'.position userId marketId).trans (h.position userId marketId)
  closedPositions := h'.closedPositions.trans h.closedPositions
  positionFills := h'.positionFills.trans h.positionFills
  closedPositionFills := h'.closedPositionFills.trans h.closedPositionFills
  positionIdSeq := h.positionIdSeq.trans h'.positionIdSeq

/-- A position that is there later was there before, on the same terms. -/
theorem Quiet.held {d d' : ProjectorDb} (h : Quiet d d') {userId marketId : ℤ} {row : PositionRow}
    (held : d'.position userId marketId = some row) :
    ∃ old, d.position userId marketId = some old ∧ old.terms = row.terms := by
  have hsame := h.position userId marketId
  rw [held] at hsame
  exact Option.map_eq_some_iff.1 hsame.symm

/-- A write that is not to the positions. -/
theorem Quiet.write {w : Write} (h : w.area ≠ .positions) (d : ProjectorDb) :
    Quiet d (d.write w) := by
  cases w with
  | putMarket | putPosition | deletePosition | putClosedPosition | linkPositionFill
  | linkClosedPositionFill | drawPositionId => exact absurd rfl h
  | putOrder order =>
    -- An order that has opened a position stays stored.
    refine ⟨fun htables => ⟨htables.positionIds, htables.closedIds, fun row hrow orderId hopen => ?_⟩,
      fun _ _ => rfl, rfl, rfl, rfl, le_rfl⟩
    show ((d.orders.upsert order).find? orderId).isSome
    rw [Table.find?_upsert]
    split
    · rfl
    · exact htables.openers row hrow orderId hopen
  | _ => exact ⟨fun htables => ⟨htables.positionIds, htables.closedIds, htables.openers⟩,
      fun _ _ => rfl, rfl, rfl, rfl, le_rfl⟩

theorem Quiet.of_writes {α : Type} {p : Tx α} {d d' : ProjectorDb} {a : α} {area : Area}
    (h : InArea area p) (harea : area ≠ .positions) (heval : p.eval d = .ok (a, d')) :
    Quiet d d' := by
  obtain ⟨ws, hws, rfl⟩ := eval_of_writes h.writes heval
  clear heval
  induction ws generalizing d with
  | nil => exact .refl d
  | cons w ws ih =>
    have hw : Quiet d (d.write w) := .write (hws w List.mem_cons_self ▸ harea) d
    exact hw.trans (ih fun x hx => hws x (List.mem_cons_of_mem w hx))

/-- A position is marked. -/
theorem quiet_updateUnrealizedPnl {positionId pnl : ℤ} {d d' : ProjectorDb}
    (h : (execute (updateUnrealizedPnl positionId pnl)).eval d = .ok ((), d')) : Quiet d d' := by
  obtain ⟨ws, hs, rfl⟩ := eval_execute_eq_ok h
  unfold updateUnrealizedPnl at hs
  cases hfind : d.positions.find? positionId with
  | none =>
    rw [hfind] at hs
    cases hs
    exact .refl d
  | some row =>
    rw [hfind] at hs
    cases hs
    have hrow : row ∈ d.positions.rows := Table.mem_of_find? hfind
    let marked : PositionRow := { row with unrealizedPnl := pnl }
    have hposition : ∀ userId marketId, (d.setPosition marked).position userId marketId =
        if marked.owner = (userId, marketId) then some marked
        else d.position userId marketId := position_set_version (d := d) hrow rfl rfl
    refine ⟨fun htables => htables.setPosition hrow rfl rfl, fun userId marketId => ?_, rfl, rfl,
      rfl, le_rfl⟩
    change Option.map _ ((d.setPosition marked).position userId marketId) = _
    rw [hposition]
    split
    · next howner =>
      rw [position_eq_some_iff.2 ⟨hrow, howner⟩]
      rfl
    · rfl

theorem quiet_refreshPositionPnlForMarketInTx {marketId markPrice : ℤ} {d d' : ProjectorDb}
    (h : (refreshPositionPnlForMarketInTx marketId markPrice).eval d = .ok ((), d')) :
    Quiet d d' := by
  have hall : ∀ (rows : List PositionRow) (v : ProjectorDb),
      (refreshPositionPnl markPrice rows).eval v = .ok ((), d') → Quiet v d' := by
    intro rows
    induction rows with
    | nil =>
      intro v hv
      cases hv
      exact .refl _
    | cons row rows ih =>
      intro v hv
      obtain ⟨_, v', hmark, hrest⟩ := eval_bind_eq_ok hv
      exact (quiet_updateUnrealizedPnl hmark).trans (ih v' hrest)
  obtain ⟨rows, v₀, hquery, hmarks⟩ := eval_bind_eq_ok h
  cases hquery
  exact hall _ d hmarks

theorem quiet_updateLastTradedPrice {marketId price : ℤ} {d d' : ProjectorDb}
    (h : (execute (updateLastTradedPrice marketId price)).eval d = .ok ((), d')) : Quiet d d' := by
  obtain ⟨ws, hs, rfl⟩ := eval_execute_eq_ok h
  unfold updateLastTradedPrice at hs
  split at hs
  · cases hs
    exact .refl d
  · cases hs
    exact ⟨fun htables => ⟨htables.positionIds, htables.closedIds, htables.openers⟩,
      fun _ _ => rfl, rfl, rfl, rfl, le_rfl⟩

/-! ## Runs -/

/-- A fill with the data before and after its projection. -/
structure FillStep where
  before : ProjectorDb
  fill : PositionFill
  after : ProjectorDb

/-- Fills are projected one after the other, with quiet times between them. -/
inductive FillRun (d : ProjectorDb) : List FillStep → ProjectorDb → Prop
  | start : FillRun d [] d
  | other {steps : List FillStep} {v v' : ProjectorDb} (run : FillRun d steps v)
      (quiet : Quiet v v') : FillRun d steps v'
  | fill {steps : List FillStep} {v v' : ProjectorDb} (run : FillRun d steps v)
      (fill : PositionFill) (projected : fill.project.eval v = .ok ((), v')) :
      FillRun d (steps ++ [⟨v, fill, v'⟩]) v'

namespace FillRun

variable {d d' : ProjectorDb} {steps later : List FillStep} {step : FillStep}

theorem tables (htables : PositionTables d) (h : FillRun d steps d') : PositionTables d' := by
  induction h with
  | start => exact htables
  | other run quiet ih => exact quiet.tables ih
  | fill run fill projected ih => exact (change_of_project ih projected).tables ih

/-- A run comes to the data in front of each of its steps. -/
theorem split (h : FillRun d (steps ++ later) d') :
    ∃ v, FillRun d steps v ∧ FillRun v later d' := by
  generalize hall : steps ++ later = all at h
  induction h generalizing later with
  | start =>
    obtain ⟨rfl, rfl⟩ := List.append_eq_nil_iff.1 hall
    exact ⟨d, .start, .start⟩
  | other run quiet ih =>
    obtain ⟨v, hbefore, hafter⟩ := ih hall
    exact ⟨v, hbefore, hafter.other quiet⟩
  | @fill all v v' run fill projected ih =>
    -- The last step belongs to the second part, unless that is empty.
    rcases List.eq_nil_or_concat' later with rfl | ⟨later, last, rfl⟩
    · rw [List.append_nil] at hall
      subst hall
      exact ⟨v', run.fill fill projected, .start⟩
    · rw [← List.append_assoc] at hall
      obtain ⟨hinit, hlast⟩ := List.append_inj' hall rfl
      obtain rfl := List.singleton_injective hlast
      obtain ⟨w, hbefore, hafter⟩ := ih hinit
      exact ⟨w, hbefore, hafter.fill fill projected⟩

/-- A step alone. -/
theorem single (h : FillRun d [step] d') :
    Quiet d step.before ∧ step.fill.project.eval step.before = .ok ((), step.after) ∧
      Quiet step.after d' := by
  generalize hone : [step] = steps at h
  induction h with
  | start => cases hone
  | other run quiet ih =>
    obtain ⟨hbefore, hprojected, hafter⟩ := ih hone
    exact ⟨hbefore, hprojected, hafter.trans quiet⟩
  | @fill all v v' run fill projected ih =>
    cases all with
    | nil =>
      obtain rfl := List.singleton_injective hone
      refine ⟨?_, projected, .refl v'⟩
      -- In front of the step nothing was projected.
      generalize hnil : ([] : List FillStep) = none at run
      clear ih projected hone
      induction run with
      | start => exact .refl d
      | other run quiet ih => exact (ih hnil).trans quiet
      | fill run fill projected ih => exact absurd hnil.symm (by simp)
    | cons x all => exact absurd hone (by simp)

/-- A run up to one of its steps. -/
theorem upTo (h : FillRun d (steps ++ step :: later) d') :
    ∃ v, FillRun d steps v ∧ Quiet v step.before ∧
      step.fill.project.eval step.before = .ok ((), step.after) ∧
        FillRun d (steps ++ [step]) step.after := by
  obtain ⟨v, hfirst, hrest⟩ := h.split
  rw [← List.singleton_append] at hrest
  obtain ⟨v', hone, -⟩ := hrest.split
  obtain ⟨hbefore, hprojected, -⟩ := hone.single
  exact ⟨v, hfirst, hbefore, hprojected, (hfirst.other hbefore).fill step.fill hprojected⟩

end FillRun

/-! ## Trades -/

/-- The fill of a trade, as it is projected for one of its orders. -/
def positionFill (event : TradeExecuted) (context : StoredOrderContext) (orderId : ℤ) :
    PositionFill where
  context := context
  orderId := orderId
  fillId := event.fillId
  price := event.price
  quantity := event.quantity
  engineTimestampMs := event.engineTimestampMs
  executionReason := event.executionReason

section Trades

variable {d v v' : ProjectorDb} {steps : List FillStep} {event : TradeExecuted}
  {maker taker : StoredOrderContext}

/-- The projection of a new fill is a run of two steps. -/
theorem FillRun.newFill (run : FillRun d steps v)
    (h : (projectNewFill event maker taker).eval v = .ok ((), v')) :
    ∃ v₁ v₂ v₃, FillRun d (steps ++ [⟨v₁, positionFill event maker event.makerOrderId, v₂⟩,
      ⟨v₂, positionFill event taker event.takerOrderId, v₃⟩]) v' := by
  obtain ⟨_, v₁, hprice, h⟩ := eval_bind_eq_ok h
  obtain ⟨_, v₂, hmaker, h⟩ := eval_bind_eq_ok h
  obtain ⟨_, v₃, htaker, hrefresh⟩ := eval_bind_eq_ok h
  have hpriced : FillRun d steps v₁ := run.other (quiet_updateLastTradedPrice hprice)
  have hmade := hpriced.fill (positionFill event maker event.makerOrderId) hmaker
  have htook := hmade.fill (positionFill event taker event.takerOrderId) htaker
  refine ⟨v₁, v₂, v₃, ?_⟩
  rw [List.append_cons]
  exact htook.other (quiet_refreshPositionPnlForMarketInTx hrefresh)

/-- The projection of a trade goes on with a run, by two steps if its fill is new. -/
theorem FillRun.trade {topic : String} {partition nextOffset : ℤ} (run : FillRun d steps v)
    (h : (projectTradeExecuted event topic partition nextOffset).eval v = .ok ((), v')) :
    ∃ more, FillRun d (steps ++ more) v' ∧ ∀ step ∈ more, step.fill.fillId = event.fillId := by
  obtain ⟨contexts, w, hload, htrade⟩ := eval_bind_eq_ok h
  obtain rfl : w = v := eq_of_inArea (fun area => inArea_loadTradeContextsInTx area event) hload
  obtain ⟨_, w₁, hstore, htrade⟩ := eval_bind_eq_ok htrade
  obtain ⟨insertedFill, w₂, hinsert, htrade⟩ := eval_bind_eq_ok htrade
  obtain ⟨_, w₃, hupdate, htrade⟩ := eval_bind_eq_ok htrade
  obtain ⟨_, w₄, hupdate', htrade⟩ := eval_bind_eq_ok htrade
  obtain ⟨_, w₅, hfill, htrade⟩ := eval_bind_eq_ok htrade
  obtain ⟨_, w₆, hoffset, hcommit⟩ := eval_bind_eq_ok htrade
  cases hcommit
  -- Orders and the fill are stored before the positions, the offset after them.
  have horders : Quiet w w₄ := by
    have hstored : Quiet w w₁ := .of_writes (inArea_storeTradeOrders _ _ _) (by decide) hstore
    have hinserted : Quiet w₁ w₂ := .of_writes (inArea_insertFill _ _ _) (by decide) hinsert
    have hupdated : Quiet w₂ w₃ :=
      .of_writes (inArea_updateOrderAfterFillInTx _ _) (by decide) hupdate
    have hupdated' : Quiet w₃ w₄ :=
      .of_writes (inArea_updateOrderAfterFillInTx _ _) (by decide) hupdate'
    exact ((hstored.trans hinserted).trans hupdated).trans hupdated'
  have hlast : Quiet w₅ v' := .of_writes (inArea_saveQueueOffsetInTx _ _ _) (by decide) hoffset
  have hbefore : FillRun d steps w₄ := run.other horders
  split at hfill
  · obtain ⟨v₁, v₂, v₃, hrun⟩ := hbefore.newFill hfill
    exact ⟨_, hrun.other hlast, by simp [positionFill]⟩
  · cases hfill
    refine ⟨[], ?_, fun step hstep => absurd hstep List.not_mem_nil⟩
    rw [List.append_nil]
    exact hbefore.other hlast

end Trades

/-! The purchase of 5 and the sale of 8 are a run. -/

def purchasedRow : PositionRow := (tradedFill .LONG 1 5).openedRow tradedDb 5 (by decide)

def purchasedDb : ProjectorDb := tradedDb.openPosition purchasedRow 1

/-- The sale closes the 5 and opens 3 on the other side. -/
def soldDb : ProjectorDb :=
  let closing := (tradedFill .SHORT 2 8).closing purchasedDb purchasedRow
  closing.openPosition ((tradedFill .SHORT 2 8).openedRow closing 3 (by decide)) 2

def purchase : FillStep := ⟨tradedDb, tradedFill .LONG 1 5, purchasedDb⟩

def sale : FillStep := ⟨purchasedDb, tradedFill .SHORT 2 8, soldDb⟩

theorem fillRun_tradedFills : FillRun tradedDb [purchase, sale] soldDb := by
  have hpurchase : (tradedFill .LONG 1 5).project.eval tradedDb = .ok ((), purchasedDb) := rfl
  have hsale : (tradedFill .SHORT 2 8).project.eval purchasedDb = .ok ((), soldDb) := rfl
  exact (FillRun.start.fill _ hpurchase).fill _ hsale

end Projector
