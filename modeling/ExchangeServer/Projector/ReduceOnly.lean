import ExchangeServer.Projector.SignedPositions

/-!
# Fills of reduce-only orders

A fill of an order that may only reduce opens no position and enlarges none. A
fill of the other side reduces the position; when it is larger than the
position, the flag is not looked at again, and what is left over opens a
position of the other side.

## Main results

- `reduceOnly_reduces_iff`: the position is only reduced exactly when no fill is
  larger than the position of the other side
-/

namespace Projector

open Protocol Relational Transactional Program

/-- The signed quantity of a user in a market. -/
def ProjectorDb.signedPosition (d : ProjectorDb) (owner : ℤ × ℤ) : ℤ :=
  match d.position owner.1 owner.2 with
  | none => 0
  | some row => row.side.signed row.quantity

/-- The signed quantity moved toward zero by what a fill of the other side can
take from it. -/
def PositionFill.reducedPosition (fill : PositionFill) (d : ProjectorDb) : ℤ :=
  match d.position fill.context.userId fill.context.marketId with
  | none => 0
  | some row =>
    if row.side = fill.context.side then row.side.signed row.quantity
    else row.side.signed (row.quantity - min fill.quantity row.quantity)

/-- The fill is projected and moves the position toward zero at most. -/
def OnlyReduces (d : ProjectorDb) (fill : PositionFill) : Prop :=
  ∃ d', fill.project.eval d = .ok ((), d') ∧
    d'.signedPosition fill.owner = fill.reducedPosition d

/-- The fill is not larger than a position of the other side. -/
def NotLarger (d : ProjectorDb) (fill : PositionFill) : Prop :=
  ∀ row, d.position fill.context.userId fill.context.marketId = some row →
    row.side ≠ fill.context.side → fill.quantity ≤ row.quantity

section

variable {d : ProjectorDb} {fill : PositionFill} {row : PositionRow}

/-- The signed quantity of an owner whose position has been replaced. -/
theorem Replaces.signedPosition_some {d' : ProjectorDb} {owner : ℤ × ℤ}
    (h : Replaces d d' owner (some row)) :
    d'.signedPosition owner = row.side.signed row.quantity := by
  unfold ProjectorDb.signedPosition
  rw [h.position, if_pos rfl]

theorem Replaces.signedPosition_none {d' : ProjectorDb} {owner : ℤ × ℤ}
    (h : Replaces d d' owner none) : d'.signedPosition owner = 0 := by
  unfold ProjectorDb.signedPosition
  rw [h.position, if_pos rfl]

/-- A reduce-only fill of a user without a position does nothing. -/
theorem project_reduceOnly_none (hreduce : fill.context.reduceOnly = true)
    (hnone : d.position fill.context.userId fill.context.marketId = none) :
    fill.project.eval d = .ok ((), d) := by
  unfold PositionFill.project projectPositionForFillInTx loadPositionForUpdateInTx
  rw [eval_bind_ok (eval_query _ _), hnone]
  simp only [Option.map_none, hreduce, if_true]
  rfl

/-- A reduce-only fill of the side of the position does nothing. -/
theorem project_reduceOnly_same_side (hreduce : fill.context.reduceOnly = true)
    (hsome : d.position fill.context.userId fill.context.marketId = some row)
    (hside : row.side = fill.context.side) : fill.project.eval d = .ok ((), d) := by
  unfold PositionFill.project projectPositionForFillInTx loadPositionForUpdateInTx
  rw [eval_bind_ok (eval_query _ _), hsome]
  have hsame : row.stored.side = fill.context.side := hside
  simp only [Option.map_some, hreduce, hsame, and_self, if_true]
  rfl

/-- A fill of the other side is projected the same way for all orders. -/
theorem project_other_side
    (hsome : d.position fill.context.userId fill.context.marketId = some row)
    (hside : row.side ≠ fill.context.side) :
    fill.project.eval d = (reduceOrReversePositionInTx row.stored fill.context fill.orderId
      fill.fillId fill.price fill.quantity fill.engineTimestampMs fill.executionReason).eval d := by
  unfold PositionFill.project projectPositionForFillInTx loadPositionForUpdateInTx
  rw [eval_bind_ok (eval_query _ _), hsome]
  have hother : ¬row.stored.side = fill.context.side := hside
  simp only [Option.map_some, hother, and_false, if_false]

/-- A fill of the other side that is not larger moves the position toward zero. -/
theorem onlyReduces_of_other_side (htables : PositionTables d)
    (hrefs : FillReferences d fill.context fill.orderId fill.fillId) (hquantity : 0 < fill.quantity)
    (hsome : d.position fill.context.userId fill.context.marketId = some row)
    (hside : row.side ≠ fill.context.side) (hle : fill.quantity ≤ row.quantity) :
    OnlyReduces d fill := by
  obtain ⟨hrow, howner⟩ := position_eq_some_iff.1 hsome
  have hreduced : fill.reducedPosition d = row.side.signed (row.quantity - fill.quantity) := by
    unfold PositionFill.reducedPosition
    rw [hsome]
    simp only [if_neg hside, min_eq_left hle]
  unfold OnlyReduces
  rw [project_other_side hsome hside, hreduced]
  by_cases hless : 0 < row.quantity - fill.quantity
  · obtain ⟨d', heval, hreplaces⟩ := replaces_reduce htables hrefs hrow hquantity hless
    rw [howner] at hreplaces
    exact ⟨d', heval, hreplaces.signedPosition_some⟩
  · have hzero : fill.quantity - row.quantity = 0 := by omega
    have hsame : row.quantity - fill.quantity = 0 := by omega
    have hmore : row.quantity ≤ fill.quantity := by omega
    obtain ⟨d', row', heval, hreplaces, hreverses⟩ := replaces_close htables hrefs hrow howner hmore
    obtain rfl := hreverses.flat hzero
    rw [howner] at hreplaces
    refine ⟨d', heval, hreplaces.signedPosition_none.trans ?_⟩
    rw [hsame]
    cases row.side <;> rfl

/-- A fill that is larger than the position of the other side reverses it. -/
theorem not_onlyReduces_of_larger (htables : PositionTables d)
    (hrefs : FillReferences d fill.context fill.orderId fill.fillId)
    (hsome : d.position fill.context.userId fill.context.marketId = some row)
    (hside : row.side ≠ fill.context.side) (hlarger : row.quantity < fill.quantity) :
    ¬OnlyReduces d fill := by
  obtain ⟨hrow, howner⟩ := position_eq_some_iff.1 hsome
  have hreduced : fill.reducedPosition d = 0 := by
    unfold PositionFill.reducedPosition
    rw [hsome]
    simp only [if_neg hside, min_eq_right hlarger.le, sub_self]
    cases row.side <;> rfl
  obtain ⟨d', row', heval, hreplaces, hreverses⟩ :=
    replaces_close htables hrefs hrow howner hlarger.le
  have hleft : 0 < fill.quantity - row.quantity := by omega
  obtain ⟨rest, rfl, hrest, hquantity, -⟩ := hreverses.opens hleft
  rw [howner] at hreplaces
  rintro ⟨d'', heval', hsame⟩
  rw [project_other_side hsome hside, heval] at heval'
  cases heval'
  have hsigned : rest.side.signed rest.quantity = 0 :=
    hreplaces.signedPosition_some.symm.trans (hsame.trans hreduced)
  have habs := rest.side.abs_signed rest.quantity
  rw [hsigned, hquantity, abs_zero, abs_of_pos hleft] at habs
  omega

/-- Reduce-only fills only reduce, exactly when they are not larger than the
position of the other side. -/
theorem reduceOnly_reduces_iff (htables : PositionTables d)
    (hrefs : FillReferences d fill.context fill.orderId fill.fillId)
    (hreduce : fill.context.reduceOnly = true) (hquantity : 0 < fill.quantity) :
    OnlyReduces d fill ↔ NotLarger d fill := by
  constructor
  · intro hreduces row hsome hside
    by_contra hlarger
    exact not_onlyReduces_of_larger htables hrefs hsome hside (lt_of_not_ge hlarger) hreduces
  · intro hnot
    cases hposition : d.position fill.context.userId fill.context.marketId with
    | none =>
      refine ⟨d, project_reduceOnly_none hreduce hposition, ?_⟩
      have howner : d.position fill.owner.1 fill.owner.2 = none := hposition
      unfold ProjectorDb.signedPosition PositionFill.reducedPosition
      rw [hposition, howner]
    | some row =>
      by_cases hside : row.side = fill.context.side
      · refine ⟨d, project_reduceOnly_same_side hreduce hposition hside, ?_⟩
        have howner : d.position fill.owner.1 fill.owner.2 = some row := hposition
        unfold ProjectorDb.signedPosition PositionFill.reducedPosition
        rw [hposition, howner]
        exact (if_pos hside).symm
      · exact onlyReduces_of_other_side htables hrefs hquantity hposition hside
          (hnot row hposition hside)

end

/-! A user who has bought 5 sells with a reduce-only order. -/

def boughtPosition : PositionRow :=
  openPositionRow 1 (tradedContext .LONG) 1 5 100 0 1 (Int.natCast_succ_pos 4)

def boughtDb : ProjectorDb :=
  { tradedDb with positions := Indexed.empty.put boughtPosition, positionIdSeq := 1 }

def reduceOnlyFill (quantity : ℤ) : PositionFill :=
  { tradedFill .SHORT 2 quantity with
    context := { tradedContext .SHORT with reduceOnly := true } }

theorem positionTables_boughtDb : PositionTables boughtDb := by
  have hrow : ∀ row ∈ boughtDb.positions.rows, row = boughtPosition := fun row hrow =>
    List.mem_singleton.1 hrow
  refine ⟨fun row h => ?_, fun row h => ?_, fun row h => ?_⟩
  · rw [hrow row h]
    decide
  · exact absurd h List.not_mem_nil
  · rw [hrow row h]
    intro orderId horder
    cases horder
    decide

/-- A fill of 3 leaves 2. -/
theorem reduceOnly_reduces_iff_smaller : OnlyReduces boughtDb (reduceOnlyFill 3) := by
  refine (reduceOnly_reduces_iff positionTables_boughtDb ⟨by decide, by decide, by decide⟩ rfl
    (by decide)).2 fun row hsome hside => ?_
  have hrow : row = boughtPosition := (Option.some.inj hsome).symm
  rw [hrow]
  decide

/-- A reduce-only fill of 8 leaves the user `SHORT`. -/
theorem reduceOnly_reverses :
    PositionTables boughtDb ∧ FillReferences boughtDb (reduceOnlyFill 8).context 2 2 ∧
      (reduceOnlyFill 8).context.reduceOnly = true ∧ ¬OnlyReduces boughtDb (reduceOnlyFill 8) := by
  have hrefs : FillReferences boughtDb (reduceOnlyFill 8).context 2 2 :=
    ⟨by decide, by decide, by decide⟩
  have hsome : boughtDb.position 1 7 = some boughtPosition := rfl
  have hside : boughtPosition.side ≠ SideType.SHORT := by decide
  have hlarger : boughtPosition.quantity < 8 := by decide
  have hreverses : ¬OnlyReduces boughtDb (reduceOnlyFill 8) :=
    not_onlyReduces_of_larger positionTables_boughtDb hrefs hsome hside hlarger
  exact ⟨positionTables_boughtDb, hrefs, rfl, hreverses⟩

end Projector
