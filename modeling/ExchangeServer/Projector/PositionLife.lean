import ExchangeServer.Foundation.AverageCost
import ExchangeServer.Projector.PositionMargins
import Mathlib.Data.List.Induction

/-!
# The life of a position

A position begins with a fill of a user who has none, or with what is left over of
a fill that reverses another. It is increased and reduced any number of times and
ends with the fill that closes it. What the reductions and the close have taken
from it is in the closed positions.

A position is a holding at average cost. Over its whole life quantities and
margins that went in are those that came out, and the results that were realized
differ from the true gain by the rounding of averages only, in favour of `LONG`
and against `SHORT` positions.

## Main results

- `weightedAveragePrice_eq`: the average is that of a holding
- `Lived.step`, `Lived.ends`: one fill in the life of a position
- `life_is_accounted`: the whole life
-/

namespace Projector

open Protocol Relational Transactional Program AverageCost

/-! ## What a step does to a position -/

/-- What the fill brings into a position: all of it when it opens or increases one,
and what is left over when it reverses one. -/
def FillStep.entry? (step : FillStep) : Option Entry :=
  let entry (quantity : ℤ) : Entry :=
    { quantity, price := step.fill.price, collateral := step.fill.takenMargin step.before }
  match step.fill.position step.before with
  | none => if step.fill.context.reduceOnly then none else some (entry step.fill.quantity)
  | some row =>
    if row.side = step.fill.context.side then
      if step.fill.context.reduceOnly then none else some (entry step.fill.quantity)
    else if row.quantity < step.fill.quantity then some (entry (step.fill.quantity - row.quantity))
    else none

/-- The closed positions that are written. -/
def FillStep.closedRows (step : FillStep) : List ClosedPositionRow :=
  step.after.closedPositions.rows.filter fun row => row ∉ step.before.closedPositions.rows

/-- How far the rounding of the average can go: less than one for each unit of the
position after an increase. -/
def FillStep.rounding (step : FillStep) : ℤ :=
  match step.fill.position step.before with
  | none => 0
  | some row =>
    if row.side = step.fill.context.side ∧ step.fill.context.reduceOnly = false then
      row.quantity + step.fill.quantity - 1
    else 0

/-- What is gained on the side: the price of what was sold less that of what was bought. -/
def SideType.gain : SideType → ℤ → ℤ → ℤ
  | LONG, entered, exited => exited - entered
  | SHORT, entered, exited => entered - exited

def FitsI64 (value : ℤ) : Prop := -2 ^ 63 ≤ value ∧ value < 2 ^ 63

/-- The numbers of a fill are those of an order, and what becomes of the position
fits. -/
structure FillStep.Fits (step : FillStep) : Prop where
  quantity : 0 < step.fill.quantity
  price : 0 ≤ step.fill.price ∧ step.fill.price < 2 ^ 63
  margin : 0 ≤ step.fill.context.margin
  increase : ∀ row, step.fill.position step.before = some row →
    row.side = step.fill.context.side → step.fill.context.reduceOnly = false →
      row.quantity + step.fill.quantity < 2 ^ 63 ∧
        row.initialMargin + step.fill.takenMargin step.before < 2 ^ 63
  result : ∀ row, step.fill.position step.before = some row →
    row.side ≠ step.fill.context.side →
      let closed := min row.quantity step.fill.quantity
      FitsI64 (row.side.gain (row.averagePrice * closed) (step.fill.price * closed))

def PositionRow.holding (row : PositionRow) : Holding where
  quantity := row.quantity
  average := row.averagePrice
  collateral := row.initialMargin

/-- A closed position, as what went out of the position. -/
def ClosedPositionRow.exit (row : ClosedPositionRow) : Exit where
  quantity := row.quantity
  average := row.entryPrice
  collateral := row.initialMargin

/-- The steps of a run that are fills of a user in a market. -/
def stepsOf (owner : ℤ × ℤ) (steps : List FillStep) : List FillStep :=
  steps.filter fun step => step.fill.owner = owner

def entriesOf (owner : ℤ × ℤ) (steps : List FillStep) : List Entry :=
  (stepsOf owner steps).filterMap FillStep.entry?

def closedRowsOf (owner : ℤ × ℤ) (steps : List FillStep) : List ClosedPositionRow :=
  (stepsOf owner steps).flatMap FillStep.closedRows

def roundingOf (owner : ℤ × ℤ) (steps : List FillStep) : ℤ :=
  ((stepsOf owner steps).map FillStep.rounding).sum

/-! ## Arithmetic -/

theorem weightedAveragePrice_eq {average quantity price fillQuantity : ℤ}
    (haverage : 0 ≤ average ∧ average < 2 ^ 63) (hprice : 0 ≤ price ∧ price < 2 ^ 63)
    (hquantity : 0 < quantity) (hfill : 0 < fillQuantity)
    (hfits : quantity + fillQuantity < 2 ^ 63) :
    weightedAveragePrice average quantity price fillQuantity =
      (average * quantity + price * fillQuantity) / (quantity + fillQuantity) := by
  let held : Holding := { quantity, average, collateral := 0 }
  let entry : Entry := { quantity := fillQuantity, price, collateral := 0 }
  have hlow : 0 ≤ (held.add entry).average :=
    le_average_add hquantity hfill haverage.1 hprice.1
  have hhigh : (held.add entry).average ≤ 2 ^ 63 - 1 :=
    average_add_le hquantity hfill (Int.le_sub_one_of_lt haverage.2)
      (Int.le_sub_one_of_lt hprice.2)
  have htotal : addI64 quantity fillQuantity = quantity + fillQuantity :=
    addI64_eq (by omega) hfits
  have hpos : ¬quantity + fillQuantity ≤ 0 := by omega
  have hpaid : 0 ≤ average * quantity + price * fillQuantity :=
    add_nonneg (mul_nonneg haverage.1 hquantity.le) (mul_nonneg hprice.1 hfill.le)
  have hleast : (-2 ^ 63 : ℤ) ≤ 0 := by decide
  unfold weightedAveragePrice
  simp only [htotal, if_neg hpos, Int.tdiv_eq_ediv_of_nonneg hpaid]
  exact clampI128ToI64_eq (hleast.trans hlow) hhigh

/-- A result that fits is the gain. -/
theorem realizedPnl_eq {side : SideType} {entryPrice exitPrice quantity : ℤ}
    (hfits : FitsI64 (side.gain (entryPrice * quantity) (exitPrice * quantity))) :
    realizedPnl side entryPrice exitPrice quantity =
      side.gain (entryPrice * quantity) (exitPrice * quantity) := by
  obtain ⟨hlow, hhigh⟩ := hfits
  unfold realizedPnl
  cases side with
  | LONG =>
    simp only [SideType.gain, ← sub_mul] at hlow hhigh ⊢
    exact clampI128ToI64_eq hlow (Int.le_sub_one_of_lt hhigh)
  | SHORT =>
    simp only [SideType.gain, ← sub_mul] at hlow hhigh ⊢
    exact clampI128ToI64_eq hlow (Int.le_sub_one_of_lt hhigh)

theorem SideType.gain_add (side : SideType) (entered entered' exited exited' : ℤ) :
    side.gain (entered + entered') (exited + exited') =
      side.gain entered exited + side.gain entered' exited' := by
  cases side <;> simp only [gain] <;> ring

/-- Less paid is more gained by `LONG` and less by `SHORT`. -/
theorem SideType.gain_sub (side : SideType) (entered exited drift : ℤ) :
    side.gain (entered - drift) exited = side.gain entered exited + side.signed drift := by
  cases side <;> simp only [gain, signed] <;> ring

/-! ## Steps -/

section Steps

variable {owner : ℤ × ℤ} {steps later : List FillStep} {step : FillStep}

theorem entriesOf_append (owner : ℤ × ℤ) (steps later : List FillStep) :
    entriesOf owner (steps ++ later) = entriesOf owner steps ++ entriesOf owner later := by
  simp [entriesOf, stepsOf]

theorem closedRowsOf_append (owner : ℤ × ℤ) (steps later : List FillStep) :
    closedRowsOf owner (steps ++ later) = closedRowsOf owner steps ++ closedRowsOf owner later := by
  simp [closedRowsOf, stepsOf]

theorem roundingOf_append (owner : ℤ × ℤ) (steps later : List FillStep) :
    roundingOf owner (steps ++ later) = roundingOf owner steps + roundingOf owner later := by
  simp [roundingOf, stepsOf]

theorem stepsOf_own (h : step.fill.owner = owner) : stepsOf owner [step] = [step] := by
  simp [stepsOf, h]

theorem stepsOf_other (h : step.fill.owner ≠ owner) : stepsOf owner [step] = [] := by
  simp [stepsOf, h]

theorem entriesOf_own (h : step.fill.owner = owner) :
    entriesOf owner [step] = step.entry?.toList := by
  unfold entriesOf
  rw [stepsOf_own h]
  cases hentry : step.entry? <;> simp [hentry]

theorem closedRowsOf_own (h : step.fill.owner = owner) :
    closedRowsOf owner [step] = step.closedRows := by
  unfold closedRowsOf
  rw [stepsOf_own h]
  exact List.append_nil _

theorem roundingOf_own (h : step.fill.owner = owner) : roundingOf owner [step] = step.rounding := by
  unfold roundingOf
  rw [stepsOf_own h]
  exact List.sum_singleton

theorem closedRows_of_same (h : step.after.closedPositions = step.before.closedPositions) :
    step.closedRows = [] := by
  unfold FillStep.closedRows
  rw [h]
  exact List.filter_eq_nil_iff.2 fun row hrow => by simp [hrow]

/-- The row that is stored with a new number is the only one that is written. -/
theorem closedRows_of_recorded {row : ClosedPositionRow}
    (h : step.after.closedPositions = step.before.closedPositions.upsert row)
    (hfresh : step.before.closedPositions.find? row.positionId = none) :
    step.closedRows = [row] := by
  have hnew : row ∉ step.before.closedPositions.rows :=
    fun hrow => Table.find?_eq_none_iff.1 hfresh row hrow rfl
  have hold : step.before.closedPositions.rows.filter
      (fun row => row ∉ step.before.closedPositions.rows) = [] :=
    List.filter_eq_nil_iff.2 fun x hx => by simp [hx]
  unfold FillStep.closedRows
  rw [h, Table.upsert, if_pos hfresh, Table.rows_insert hfresh, List.filter_append, hold]
  simp [hnew]

end Steps

/-! ## A living position -/

/-- The number of the open position of a user in a market. -/
def ProjectorDb.heldId (d : ProjectorDb) (owner : ℤ × ℤ) : Option ℤ :=
  (d.position owner.1 owner.2).map PositionRow.positionId

/-- The position of a user after a part of its life: the step that has opened it, and
those that followed. -/
structure Lived (owner : ℤ × ℤ) (opening : FillStep) (middle : List FillStep) (d : ProjectorDb)
    (row : PositionRow) : Prop where
  held : d.position owner.1 owner.2 = some row
  side : row.side = opening.fill.context.side
  margin : 0 ≤ row.initialMargin
  average : 0 ≤ row.averagePrice ∧ row.averagePrice < 2 ^ 63
  balanced : Balanced row.holding (entriesOf owner (opening :: middle))
    ((closedRowsOf owner middle).map ClosedPositionRow.exit) (roundingOf owner middle)
  results : ∀ closed ∈ closedRowsOf owner middle, closed.realizedPnl =
    row.side.gain (closed.entryPrice * closed.quantity) (closed.exitPrice * closed.quantity)

namespace Lived

variable {owner : ℤ × ℤ} {opening : FillStep} {middle : List FillStep} {d d' : ProjectorDb}
  {fill : PositionFill} {row row' : PositionRow}

/-- A mark to a price changes nothing. -/
theorem quiet (h : Lived owner opening middle d row) (hquiet : Quiet d d') :
    ∃ row', Lived owner opening middle d' row' ∧ row'.positionId = row.positionId := by
  have hterms := hquiet.position owner.1 owner.2
  rw [h.held] at hterms
  obtain ⟨row', held', hsame⟩ := Option.map_eq_some_iff.1 hterms
  have hside : row'.terms.side = row.terms.side := congrArg PositionRow.side hsame
  have hmargin : row'.terms.initialMargin = row.terms.initialMargin :=
    congrArg PositionRow.initialMargin hsame
  have haverage : row'.terms.averagePrice = row.terms.averagePrice :=
    congrArg PositionRow.averagePrice hsame
  have hholding : row'.terms.holding = row.terms.holding := congrArg PositionRow.holding hsame
  have hid : row'.terms.positionId = row.terms.positionId := congrArg PositionRow.positionId hsame
  change row'.side = row.side at hside
  change row'.initialMargin = row.initialMargin at hmargin
  change row'.averagePrice = row.averagePrice at haverage
  change row'.holding = row.holding at hholding
  exact ⟨row', ⟨held', hside.trans h.side, hmargin ▸ h.margin, haverage ▸ h.average,
    hholding ▸ h.balanced, hside ▸ h.results⟩, hid⟩

/-- A step of another user changes nothing. -/
theorem other (h : Lived owner opening middle d row) (htables : PositionTables d)
    (hchange : Change d fill d') (hother : fill.owner ≠ owner) :
    Lived owner opening (middle ++ [⟨d, fill, d'⟩]) d' row := by
  have hsteps : stepsOf owner [⟨d, fill, d'⟩] = [] := stepsOf_other hother
  have hentries : entriesOf owner (opening :: (middle ++ [⟨d, fill, d'⟩])) =
      entriesOf owner (opening :: middle) := by
    rw [← List.cons_append, entriesOf_append]
    simp [entriesOf, hsteps]
  have hrows : closedRowsOf owner (middle ++ [⟨d, fill, d'⟩]) = closedRowsOf owner middle := by
    rw [closedRowsOf_append]
    simp [closedRowsOf, hsteps]
  have hrounding : roundingOf owner (middle ++ [⟨d, fill, d'⟩]) = roundingOf owner middle := by
    rw [roundingOf_append]
    simp [roundingOf, hsteps]
  refine ⟨(hchange.others htables hother).trans h.held, h.side, h.margin, h.average, ?_, ?_⟩
  · rw [hentries, hrows, hrounding]
    exact h.balanced
  · rw [hrows]
    exact h.results

/-- A step of the user, put together from what it does. -/
theorem extend (h : Lived owner opening middle d row) (step : FillStep)
    (hown : step.fill.owner = owner) (held' : step.after.position owner.1 owner.2 = some row')
    (hside : row'.side = row.side) (hmargin : 0 ≤ row'.initialMargin)
    (haverage : 0 ≤ row'.averagePrice ∧ row'.averagePrice < 2 ^ 63)
    (hbalanced : Balanced row'.holding
      (entriesOf owner (opening :: middle) ++ step.entry?.toList)
      ((closedRowsOf owner middle).map ClosedPositionRow.exit ++
        step.closedRows.map ClosedPositionRow.exit) (roundingOf owner middle + step.rounding))
    (hresults : ∀ closed ∈ step.closedRows, closed.realizedPnl =
      row.side.gain (closed.entryPrice * closed.quantity) (closed.exitPrice * closed.quantity)) :
    Lived owner opening (middle ++ [step]) step.after row' := by
  refine ⟨held', hside.trans h.side, hmargin, haverage, ?_, fun closed hclosed => ?_⟩
  · -- What the step adds to each list comes last.
    rw [← List.cons_append, entriesOf_append, closedRowsOf_append, roundingOf_append,
      entriesOf_own hown, closedRowsOf_own hown, roundingOf_own hown, List.map_append]
    exact hbalanced
  · rw [hside]
    rw [closedRowsOf_append, closedRowsOf_own hown] at hclosed
    rcases List.mem_append.1 hclosed with hold | hnew
    · exact h.results closed hold
    · exact hresults closed hnew

/-- A fill that is ignored. -/
theorem ignored (h : Lived fill.owner opening middle d row)
    (hreduce : fill.context.reduceOnly = true) (hside : row.side = fill.context.side) :
    Lived fill.owner opening (middle ++ [⟨d, fill, d⟩]) d row := by
  have held : fill.position d = some row := h.held
  have hentry : FillStep.entry? ⟨d, fill, d⟩ = none := by
    simp only [FillStep.entry?, held, hside, hreduce, if_true]
  have hrows : FillStep.closedRows ⟨d, fill, d⟩ = [] := closedRows_of_same rfl
  have hrounding : FillStep.rounding ⟨d, fill, d⟩ = 0 := by
    simp [FillStep.rounding, held, hreduce]
  refine h.extend ⟨d, fill, d⟩ rfl h.held rfl h.margin h.average ?_ ?_
  · rw [hentry, hrows, hrounding]
    simpa using h.balanced
  · rw [hrows]
    exact fun closed hclosed => absurd hclosed List.not_mem_nil

/-- An increase is an entry into the holding. -/
theorem increased (h : Lived fill.owner opening middle d row)
    (hside : row.side = fill.context.side) (hreduce : fill.context.reduceOnly = false)
    (check : 0 < addI64 row.quantity fill.quantity)
    (hfits : FillStep.Fits ⟨d, fill, d.growPosition (fill.increasedRow row check) fill.fillId⟩) :
    Lived fill.owner opening
      (middle ++ [⟨d, fill, d.growPosition (fill.increasedRow row check) fill.fillId⟩])
      (d.growPosition (fill.increasedRow row check) fill.fillId) (fill.increasedRow row check) := by
  have held : fill.position d = some row := h.held
  have hpos : 0 < row.quantity := row.check
  let step : FillStep := ⟨d, fill, d.growPosition (fill.increasedRow row check) fill.fillId⟩
  let entry : Entry :=
    { quantity := fill.quantity, price := fill.price, collateral := fill.takenMargin d }
  have hentry : step.entry? = some entry := by
    simp only [step, entry, FillStep.entry?, held, hside, hreduce, Bool.false_eq_true, if_true,
      if_false]
  have hrows : step.closedRows = [] := closedRows_of_same rfl
  have hrounding : step.rounding = row.quantity + fill.quantity - 1 := by
    simp only [step, FillStep.rounding, held, hside, hreduce, and_self, if_true]
  have htaken : fill.takenMargin d = fill.share fill.quantity := by
    simp only [PositionFill.takenMargin, held, hside, hreduce, Bool.false_eq_true, if_true,
      if_false]
  have hshare : 0 ≤ fill.share fill.quantity := proportionalMargin_nonneg hfits.margin
  obtain ⟨hquantity, hmargin⟩ := hfits.increase row held hside hreduce
  have hmarginFits : row.initialMargin + fill.share fill.quantity < 2 ^ 63 := htaken ▸ hmargin
  have hmargin' : addI64 row.initialMargin (fill.share fill.quantity) =
      row.initialMargin + fill.share fill.quantity :=
    addI64_eq (add_nonneg h.margin hshare) hmarginFits
  -- Neither number wraps and the average is not clamped.
  have haverage : weightedAveragePrice row.averagePrice row.quantity fill.price fill.quantity =
      (row.holding.add entry).average :=
    weightedAveragePrice_eq h.average hfits.price hpos hfits.quantity hquantity
  -- The new version is the holding with the entry added.
  have hholding : (fill.increasedRow row check).holding = row.holding.add entry := by
    have hquantity' : addI64 row.quantity fill.quantity = row.quantity + fill.quantity :=
      addI64_eq (add_pos hpos hfits.quantity).le hquantity
    simp only [PositionRow.holding, PositionFill.increasedRow, Projector.increased, hquantity',
      hmargin', haverage]
    simp only [Holding.add, entry, htaken]
  have hbalanced : Balanced (row.holding.add entry)
      (entriesOf fill.owner (opening :: middle) ++ [entry]) _ _ :=
    h.balanced.add hpos hfits.quantity
  have hlow : 0 ≤ (row.holding.add entry).average :=
    le_average_add hpos hfits.quantity h.average.1 hfits.price.1
  have hhigh : (row.holding.add entry).average ≤ 2 ^ 63 - 1 :=
    average_add_le hpos hfits.quantity (Int.le_sub_one_of_lt h.average.2)
      (Int.le_sub_one_of_lt hfits.price.2)
  refine h.extend step rfl (held_increased held check) rfl
    ?_ ?_ ?_ ?_
  · show 0 ≤ addI64 row.initialMargin (fill.share fill.quantity)
    rw [hmargin']
    exact add_nonneg h.margin hshare
  · show 0 ≤ weightedAveragePrice _ _ _ _ ∧ weightedAveragePrice _ _ _ _ < 2 ^ 63
    rw [haverage]
    exact ⟨hlow, Int.lt_of_le_sub_one hhigh⟩
  · rw [hholding, hentry, hrows, hrounding, List.map_nil, List.append_nil]
    exact hbalanced
  · rw [hrows]
    exact fun closed hclosed => absurd hclosed List.not_mem_nil

/-- What a fill of the other side takes from the position. -/
theorem closedRow_spec (h : Lived fill.owner opening middle d row)
    (hside : row.side ≠ fill.context.side) {quantity : ℤ} (check : 0 < quantity)
    (hquantity : quantity = min row.quantity fill.quantity)
    (hfits : FillStep.Fits ⟨d, fill, d'⟩) :
    (fill.closedRow d row quantity check).realizedPnl =
      row.side.gain (row.averagePrice * quantity) (fill.price * quantity) := by
  have hresult := hfits.result row h.held hside
  simp only [← hquantity] at hresult
  exact realizedPnl_eq hresult

/-- A reduction is an exit from the holding. -/
theorem reduced (h : Lived fill.owner opening middle d row) (htables : PositionTables d)
    (hside : row.side ≠ fill.context.side) (check : 0 < fill.quantity)
    (less : 0 < row.quantity - fill.quantity)
    (hfits : FillStep.Fits ⟨d, fill, (d.recordClosed (fill.closedRow d row fill.quantity check)
      fill.fillId).setPosition (Projector.reduced row fill.quantity less)⟩) :
    Lived fill.owner opening
      (middle ++ [⟨d, fill, (d.recordClosed (fill.closedRow d row fill.quantity check)
        fill.fillId).setPosition (Projector.reduced row fill.quantity less)⟩])
      ((d.recordClosed (fill.closedRow d row fill.quantity check) fill.fillId).setPosition
        (Projector.reduced row fill.quantity less)) (Projector.reduced row fill.quantity less) := by
  have held : fill.position d = some row := h.held
  let closed : ClosedPositionRow := fill.closedRow d row fill.quantity check
  let step : FillStep := ⟨d, fill, (d.recordClosed closed fill.fillId).setPosition
    (Projector.reduced row fill.quantity less)⟩
  have hmore : ¬row.quantity < fill.quantity := by omega
  have hentry : step.entry? = none := by
    simp only [step, FillStep.entry?, held, hside, hmore, if_false]
  have hrows : step.closedRows = [closed] := closedRows_of_recorded rfl htables.closedFresh
  have hrounding : step.rounding = 0 := by
    simp only [step, FillStep.rounding, held, hside, false_and, if_false]
  have hresult : closed.realizedPnl =
      row.side.gain (row.averagePrice * fill.quantity) (fill.price * fill.quantity) :=
    h.closedRow_spec hside check (min_eq_right (by omega)).symm hfits
  -- The part of the margin is at most what is there, so nothing is cut off.
  have hleft : 0 ≤ row.initialMargin - closed.initialMargin :=
    sub_nonneg.2 (proportionalMargin_le h.margin)
  have hmargin : (Projector.reduced row fill.quantity less).initialMargin =
      row.initialMargin - closed.initialMargin := max_eq_left hleft
  have hholding : (Projector.reduced row fill.quantity less).holding =
      row.holding.take closed.exit := by
    simp only [PositionRow.holding, hmargin]
    rfl
  have hbalanced : Balanced (row.holding.take closed.exit) _
      ((closedRowsOf fill.owner middle).map ClosedPositionRow.exit ++ [closed.exit]) _ :=
    h.balanced.take rfl
  refine h.extend step rfl (held_reduced held check less)
    rfl ?_ h.average ?_ ?_
  · rw [hmargin]
    exact hleft
  · rw [hholding, hentry, hrows, hrounding]
    simpa using hbalanced
  · rw [hrows]
    intro c hc
    obtain rfl := List.mem_singleton.1 hc
    exact hresult

/-- One fill of the user after which the position is still open. -/
theorem step (h : Lived owner opening middle d row) (htables : PositionTables d)
    (hchange : Change d fill d') (hown : fill.owner = owner) (hfits : FillStep.Fits ⟨d, fill, d'⟩)
    (hlives : d'.heldId owner = some row.positionId) :
    ∃ row', Lived owner opening (middle ++ [⟨d, fill, d'⟩]) d' row' ∧
      row'.positionId = row.positionId := by
  subst hown
  have held : fill.position d = some row := h.held
  cases hchange with
  | ignores reduceOnly side => exact ⟨row, h.ignored reduceOnly (side row held), rfl⟩
  | opens flat notReduceOnly check stored => cases flat.symm.trans held
  | increases old hold side notReduceOnly check =>
    cases held.symm.trans hold
    exact ⟨_, h.increased side notReduceOnly check hfits, rfl⟩
  | reduces old hold side check less =>
    cases held.symm.trans hold
    exact ⟨_, h.reduced htables side check less hfits, rfl⟩
  | closes old hold side all =>
    have hnone : (fill.closing d old).heldId fill.owner = none :=
      congrArg _ (flat_closing hold)
    cases hnone.symm.trans hlives
  | reverses old hold side left stored =>
    -- What is left over is another position, with another number.
    have hopened := held_reversed htables hold left
    have hid : some (d.positionIdSeq + 1 + 1) = some row.positionId :=
      (congrArg (Option.map PositionRow.positionId) hopened).symm.trans hlives
    have hle := htables.positionIds row (position_eq_some_iff.1 held).1
    have heq := Option.some.inj hid
    omega

/-- The fill that closes the position writes one closed position for all that is left. -/
theorem ends (h : Lived owner opening middle d row) (htables : PositionTables d)
    (hchange : Change d fill d') (hown : fill.owner = owner) (hfits : FillStep.Fits ⟨d, fill, d'⟩)
    (hgone : d'.heldId owner ≠ some row.positionId) :
    ∃ closed, FillStep.closedRows ⟨d, fill, d'⟩ = [closed] ∧ closed.quantity = row.quantity ∧
      closed.entryPrice = row.averagePrice ∧ closed.initialMargin = row.initialMargin ∧
      closed.realizedPnl =
        row.side.gain (closed.entryPrice * closed.quantity) (closed.exitPrice * closed.quantity) := by
  subst hown
  have held : fill.position d = some row := h.held
  -- Any later version of the position would have its number.
  have hkept : ∀ version, d'.position fill.owner.1 fill.owner.2 = some version →
      version.positionId ≠ row.positionId := by
    intro version hversion hid
    exact hgone ((congrArg (Option.map PositionRow.positionId) hversion).trans (congrArg some hid))
  have hmargin : proportionalMargin row.initialMargin row.quantity row.quantity =
      row.initialMargin := proportionalMargin_all h.margin row.check
  cases hchange with
  | ignores reduceOnly side => exact absurd rfl (hkept row held)
  | opens flat notReduceOnly check stored => cases flat.symm.trans held
  | increases old hold side notReduceOnly check =>
    cases held.symm.trans hold
    have hincreased := held_increased held check
    exact absurd rfl (hkept (fill.increasedRow row check) hincreased)
  | reduces old hold side check less =>
    cases held.symm.trans hold
    have hreduced := held_reduced held check less
    exact absurd rfl (hkept (Projector.reduced row fill.quantity less) hreduced)
  | closes old hold side all =>
    cases held.symm.trans hold
    have hresult := h.closedRow_spec side row.check (min_eq_left all.ge).symm hfits
    exact ⟨fill.closedRow d row row.quantity row.check,
      closedRows_of_recorded rfl htables.closedFresh, rfl, rfl, hmargin, hresult⟩
  | reverses old hold side left stored =>
    cases held.symm.trans hold
    have hresult := h.closedRow_spec side row.check
      (min_eq_left (sub_pos.1 left).le).symm hfits
    exact ⟨fill.closedRow d row row.quantity row.check,
      closedRows_of_recorded rfl htables.closedFresh, rfl, rfl, hmargin, hresult⟩

end Lived

/-- The fill that opens a position is its first entry. -/
theorem lived_opening {owner : ℤ × ℤ} {fill : PositionFill} {d d' : ProjectorDb} {positionId : ℤ}
    (htables : PositionTables d) (hchange : Change d fill d') (hown : fill.owner = owner)
    (hfits : FillStep.Fits ⟨d, fill, d'⟩) (hnew : d.heldId owner ≠ some positionId)
    (hlives : d'.heldId owner = some positionId) :
    ∃ row, Lived owner ⟨d, fill, d'⟩ [] d' row ∧ row.positionId = positionId := by
  subst hown
  -- An opened row is the holding of its entry.
  have hopened : ∀ (v : ProjectorDb) (quantity : ℤ) (check : 0 < quantity),
      d'.position fill.owner.1 fill.owner.2 = some (fill.openedRow v quantity check) →
        fill.takenMargin d = fill.share quantity →
        FillStep.entry? ⟨d, fill, d'⟩ = some
          { quantity, price := fill.price, collateral := fill.takenMargin d } →
        ∃ row, Lived fill.owner ⟨d, fill, d'⟩ [] d' row ∧ row.positionId = positionId := by
    intro v quantity check held htaken hentry
    have hid : some (fill.openedRow v quantity check).positionId = some positionId :=
      (congrArg (Option.map PositionRow.positionId) held).symm.trans hlives
    let entry : Entry := { quantity, price := fill.price, collateral := fill.share quantity }
    have hown : (FillStep.mk d fill d').fill.owner = fill.owner := rfl
    have hentries : entriesOf fill.owner [⟨d, fill, d'⟩] = [entry] := by
      rw [entriesOf_own hown, hentry, htaken]
      rfl
    refine ⟨fill.openedRow v quantity check, ⟨held, rfl, proportionalMargin_nonneg hfits.margin,
      hfits.price, ?_, ?_⟩, Option.some.inj hid⟩
    · rw [hentries]
      exact Balanced.single entry
    · exact fun closed hclosed => absurd hclosed List.not_mem_nil
  cases hchange with
  | ignores reduceOnly side => exact absurd hlives hnew
  | opens flat notReduceOnly check stored =>
    refine hopened d fill.quantity check
      (held_openPosition htables flat check) ?_ ?_
    · simp only [PositionFill.takenMargin, flat, notReduceOnly, Bool.false_eq_true, if_false]
    · simp only [FillStep.entry?, flat, notReduceOnly, Bool.false_eq_true, if_false]
  | increases row held side notReduceOnly check =>
    have hincreased := held_increased held check
    have hsame : d.heldId fill.owner = some positionId :=
      (congrArg (Option.map PositionRow.positionId) held).trans
        ((congrArg (Option.map PositionRow.positionId) hincreased).symm.trans hlives)
    exact absurd hsame hnew
  | reduces row held side check less =>
    have hreduced := held_reduced held check less
    have hsame : d.heldId fill.owner = some positionId :=
      (congrArg (Option.map PositionRow.positionId) held).trans
        ((congrArg (Option.map PositionRow.positionId) hreduced).symm.trans hlives)
    exact absurd hsame hnew
  | closes row held side all =>
    have hnone : (fill.closing d row).heldId fill.owner = none :=
      congrArg _ (flat_closing held)
    cases hnone.symm.trans hlives
  | reverses row held side left stored =>
    have hless : row.quantity < fill.quantity := sub_pos.1 left
    refine hopened (fill.closing d row) (fill.quantity - row.quantity) left
      (held_reversed htables held left) ?_ ?_
    · simp only [PositionFill.takenMargin, held, side, hless, if_true, if_false]
    · simp only [FillStep.entry?, held, side, hless, if_true, if_false]

/-! ## Lives -/

/-- A part of a run is the life of a position: it is opened, it stays open in the
middle, and then it is closed. -/
structure Life (owner : ℤ × ℤ) (opening : FillStep) (middle : List FillStep)
    (closing : FillStep) (positionId : ℤ) : Prop where
  opener : opening.fill.owner = owner
  new : opening.before.heldId owner ≠ some positionId
  lives : ∀ step ∈ opening :: middle, step.after.heldId owner = some positionId
  closer : closing.fill.owner = owner
  gone : closing.after.heldId owner ≠ some positionId

/-- What went into a position over its life is what came out. -/
structure Accounted (side : SideType) (entries : List Entry)
    (closedRows : List ClosedPositionRow) (rounding : ℤ) : Prop where
  quantity : (closedRows.map ClosedPositionRow.quantity).sum = (entries.map Entry.quantity).sum
  margin : (closedRows.map ClosedPositionRow.initialMargin).sum =
    (entries.map Entry.collateral).sum
  results : ∃ drift, 0 ≤ drift ∧ drift ≤ rounding ∧
    (closedRows.map ClosedPositionRow.realizedPnl).sum =
      side.gain (cost entries) (closedRows.map fun row => row.exitPrice * row.quantity).sum +
        side.signed drift

section Lives

variable {owner : ℤ × ℤ} {opening closing : FillStep} {middle : List FillStep}
  {d d' : ProjectorDb} {positionId : ℤ}

/-- The position is alive after each part of the middle. -/
theorem exists_lived (htables : PositionTables d) (hrun : FillRun d (opening :: middle) d')
    (hown : opening.fill.owner = owner) (hnew : opening.before.heldId owner ≠ some positionId)
    (hlives : ∀ step ∈ opening :: middle, step.after.heldId owner = some positionId)
    (hfits : ∀ step ∈ opening :: middle, step.fill.owner = owner → step.Fits) :
    ∃ row, Lived owner opening middle d' row ∧ row.positionId = positionId := by
  induction middle using List.reverseRecOn generalizing d' with
  | nil =>
    obtain ⟨hbefore, hprojected, hafter⟩ := hrun.single
    have hchange := change_of_project (hbefore.tables htables) hprojected
    obtain ⟨row, hrow, hid⟩ := lived_opening (hbefore.tables htables) hchange hown
      (hfits opening List.mem_cons_self hown) hnew (hlives opening List.mem_cons_self)
    obtain ⟨row', hrow', hid'⟩ := hrow.quiet hafter
    exact ⟨row', hrow', hid'.trans hid⟩
  | append_singleton middle step ih =>
    -- The step comes between two quiet times.
    rw [← List.cons_append] at hrun hlives hfits
    obtain ⟨v, hfirst, hlast⟩ := hrun.split
    obtain ⟨hbefore, hprojected, hafter⟩ := hlast.single
    obtain ⟨row₀, hrow₀, hid₀⟩ := ih hfirst
      (fun x hx => hlives x (List.mem_append_left _ hx))
      (fun x hx => hfits x (List.mem_append_left _ hx))
    obtain ⟨row₁, hrow₁, hid₁⟩ := hrow₀.quiet hbefore
    have hstep : step ∈ opening :: middle ++ [step] :=
      List.mem_append_right _ (List.mem_singleton_self _)
    have hstored : PositionTables step.before := hbefore.tables (hfirst.tables htables)
    have hchange := change_of_project hstored hprojected
    have hid : row₁.positionId = positionId := hid₁.trans hid₀
    obtain ⟨row₂, hrow₂, hid₂⟩ : ∃ row₂, Lived owner opening (middle ++ [step]) step.after row₂ ∧
        row₂.positionId = positionId := by
      by_cases hother : step.fill.owner = owner
      · obtain ⟨row₂, hrow₂, hid₂⟩ := hrow₁.step hstored hchange hother (hfits step hstep hother)
          (by rw [hid]; exact hlives step hstep)
        exact ⟨row₂, hrow₂, hid₂.trans hid⟩
      · exact ⟨row₁, hrow₁.other hstored hchange hother, hid⟩
    obtain ⟨row₃, hrow₃, hid₃⟩ := hrow₂.quiet hafter
    exact ⟨row₃, hrow₃, hid₃.trans hid₂⟩

/-- The position is alive in front of the next step. -/
theorem exists_lived_before {step : FillStep} {later : List FillStep} (htables : PositionTables d)
    (hrun : FillRun d (opening :: middle ++ step :: later) d')
    (hown : opening.fill.owner = owner) (hnew : opening.before.heldId owner ≠ some positionId)
    (hlives : ∀ step ∈ opening :: middle, step.after.heldId owner = some positionId)
    (hfits : ∀ step ∈ opening :: middle, step.fill.owner = owner → step.Fits) :
    PositionTables step.before ∧ Change step.before step.fill step.after ∧
      ∃ row, Lived owner opening middle step.before row ∧ row.positionId = positionId := by
  obtain ⟨v, hfirst, hbefore, hprojected, -⟩ := hrun.upTo
  have hstored : PositionTables step.before := hbefore.tables (hfirst.tables htables)
  obtain ⟨row, hrow, hid⟩ := exists_lived htables hfirst hown hnew hlives hfits
  obtain ⟨row', hrow', hid'⟩ := hrow.quiet hbefore
  exact ⟨hstored, change_of_project hstored hprojected, row', hrow', hid'.trans hid⟩

/-- A closed position takes a margin between nothing and all that is left. -/
theorem Lived.closed_margin {fill : PositionFill} {row : PositionRow}
    (h : Lived owner opening middle d row) (htables : PositionTables d)
    (hchange : Change d fill d') (hown : fill.owner = owner) :
    ∀ closed ∈ FillStep.closedRows ⟨d, fill, d'⟩,
      0 ≤ closed.initialMargin ∧ closed.initialMargin ≤ row.initialMargin := by
  subst hown
  have held : fill.position d = some row := h.held
  have hpart : ∀ quantity, 0 ≤ proportionalMargin row.initialMargin row.quantity quantity ∧
      proportionalMargin row.initialMargin row.quantity quantity ≤ row.initialMargin :=
    fun _ => ⟨proportionalMargin_nonneg h.margin, proportionalMargin_le h.margin⟩
  have hnone : d'.closedPositions = d.closedPositions →
      ∀ closed ∈ FillStep.closedRows ⟨d, fill, d'⟩,
        0 ≤ closed.initialMargin ∧ closed.initialMargin ≤ row.initialMargin := by
    intro hsame closed hclosed
    rw [closedRows_of_same hsame] at hclosed
    exact absurd hclosed List.not_mem_nil
  have hone : ∀ (quantity : ℤ) (check : 0 < quantity),
      d'.closedPositions = d.closedPositions.upsert (fill.closedRow d row quantity check) →
      ∀ closed ∈ FillStep.closedRows ⟨d, fill, d'⟩,
        0 ≤ closed.initialMargin ∧ closed.initialMargin ≤ row.initialMargin := by
    intro quantity check hrecorded closed hclosed
    rw [closedRows_of_recorded hrecorded htables.closedFresh] at hclosed
    obtain rfl := List.mem_singleton.1 hclosed
    exact hpart quantity
  cases hchange with
  | ignores reduceOnly side => exact hnone rfl
  | opens flat notReduceOnly check stored => exact hnone rfl
  | increases old hold side notReduceOnly check => exact hnone rfl
  | reduces old hold side check less =>
    cases held.symm.trans hold
    exact hone fill.quantity check rfl
  | closes old hold side all =>
    cases held.symm.trans hold
    exact hone row.quantity row.check rfl
  | reverses old hold side left stored =>
    cases held.symm.trans hold
    exact hone row.quantity row.check rfl

/-- What has been realized, all together. -/
theorem sum_realizedPnl {side : SideType} {rows : List ClosedPositionRow}
    (h : ∀ closed ∈ rows, closed.realizedPnl =
      side.gain (closed.entryPrice * closed.quantity) (closed.exitPrice * closed.quantity)) :
    (rows.map ClosedPositionRow.realizedPnl).sum =
      side.gain (basis (rows.map ClosedPositionRow.exit))
        (rows.map fun row => row.exitPrice * row.quantity).sum := by
  induction rows with
  | nil => cases side <;> rfl
  | cons row rows ih =>
    have hrest := ih fun closed hclosed => h closed (List.mem_cons_of_mem row hclosed)
    simp only [basis, List.map_cons, List.sum_cons] at hrest ⊢
    rw [side.gain_add, hrest, h row List.mem_cons_self]
    rfl

/-- The accounts of a position that has been closed. -/
theorem Lived.accounted {row : PositionRow} {closed : ClosedPositionRow}
    (h : Lived owner opening middle d row) (hown : closing.fill.owner = owner)
    (hrows : closing.closedRows = [closed]) (hquantity : closed.quantity = row.quantity)
    (hentry : closed.entryPrice = row.averagePrice)
    (hmargin : closed.initialMargin = row.initialMargin)
    (hresult : closed.realizedPnl = row.side.gain (closed.entryPrice * closed.quantity)
      (closed.exitPrice * closed.quantity)) :
    Accounted row.side (entriesOf owner (opening :: middle))
      (closedRowsOf owner (middle ++ [closing])) (roundingOf owner middle) := by
  let rows := closedRowsOf owner (middle ++ [closing])
  have hall : rows = closedRowsOf owner middle ++ [closed] := by
    rw [← hrows, ← closedRowsOf_own hown]
    exact closedRowsOf_append owner middle [closing]
  have hbalanced : Balanced (row.holding.take closed.exit) (entriesOf owner (opening :: middle))
      (rows.map ClosedPositionRow.exit) (roundingOf owner middle) := by
    rw [hall, List.map_append]
    exact h.balanced.take hentry
  have hresults : ∀ x ∈ rows, x.realizedPnl =
      row.side.gain (x.entryPrice * x.quantity) (x.exitPrice * x.quantity) := by
    intro x hx
    rw [hall] at hx
    rcases List.mem_append.1 hx with hold | hlast
    · exact h.results x hold
    · obtain rfl := List.mem_singleton.1 hlast
      exact hresult
  -- Nothing is left of the position.
  have hempty : (row.holding.take closed.exit).quantity = 0 := sub_eq_zero.2 hquantity.symm
  have hnone : (row.holding.take closed.exit).collateral = 0 := sub_eq_zero.2 hmargin.symm
  refine ⟨?_, ?_, ?_⟩
  · have htotal := hbalanced.quantity
    rw [hempty, add_zero, List.map_map] at htotal
    exact htotal
  · have htotal := hbalanced.collateral
    rw [hnone, add_zero, List.map_map] at htotal
    exact htotal
  · obtain ⟨drift, hnonneg, hle, hcost⟩ := hbalanced.drift
    rw [hempty, mul_zero, add_zero] at hcost
    refine ⟨drift, hnonneg, hle, ?_⟩
    rw [sum_realizedPnl hresults, ← row.side.gain_sub]
    exact congrArg (fun paid => row.side.gain paid _) (eq_sub_of_add_eq hcost)

/-- A position's whole life is accounted for: closed quantities and margins sum up to
what went in, each margin is between nothing and what was left, the average lies
between the entry prices so far, and the realized results are the true gain up to the
rounding of averages. -/
theorem life_is_accounted {earlier later : List FillStep} (htables : PositionTables d)
    (hrun : FillRun d (earlier ++ (opening :: middle ++ closing :: later)) d')
    (hlife : Life owner opening middle closing positionId)
    (hfits : ∀ step ∈ opening :: middle ++ [closing], step.fill.owner = owner → step.Fits) :
    Accounted opening.fill.context.side (entriesOf owner (opening :: middle))
      (closedRowsOf owner (middle ++ [closing])) (roundingOf owner middle) ∧
    (∀ step ∈ middle ++ [closing], step.fill.owner = owner → ∀ closed ∈ step.closedRows,
      ∃ row, step.before.position owner.1 owner.2 = some row ∧
        0 ≤ closed.initialMargin ∧ closed.initialMargin ≤ row.initialMargin) ∧
    ∀ front step back, opening :: middle = front ++ step :: back →
      ∀ row, step.after.position owner.1 owner.2 = some row →
        Within (entriesOf owner (front ++ [step])) row.averagePrice := by
  obtain ⟨v, hearlier, hrun⟩ := hrun.split
  have hstored : PositionTables v := hearlier.tables htables
  have hmiddle : ∀ step ∈ opening :: middle, step.fill.owner = owner → step.Fits :=
    fun step hstep => hfits step (List.mem_append_left _ hstep)
  obtain ⟨hbefore, hchange, row, hrow, hid⟩ :=
    exists_lived_before hstored hrun hlife.opener hlife.new hlife.lives hmiddle
  have hlast : closing ∈ opening :: middle ++ [closing] :=
    List.mem_append_right _ (List.mem_singleton_self _)
  refine ⟨?_, fun step hstep hown closed hclosed => ?_, fun front step back hsplit row held => ?_⟩
  · obtain ⟨closed, hrows, hquantity, hentry, hmargin, hresult⟩ := hrow.ends hbefore hchange
      hlife.closer (hfits closing hlast hlife.closer) (hid ▸ hlife.gone)
    rw [← hrow.side]
    exact hrow.accounted hlife.closer hrows hquantity hentry hmargin hresult
  · rcases List.mem_append.1 hstep with hstep | hstep
    · -- The position is alive in front of each step in the middle.
      obtain ⟨front, back, rfl⟩ := List.append_of_mem hstep
      have hbelongs : ∀ x ∈ opening :: front, x ∈ opening :: (front ++ step :: back) := by
        intro x hx
        exact List.mem_append_left (step :: back) hx
      have hrun' : FillRun v (opening :: front ++ step :: (back ++ closing :: later)) d' := by
        simpa using hrun
      obtain ⟨hbefore', hchange', row', hrow', -⟩ := exists_lived_before hstored hrun'
        hlife.opener hlife.new (fun x hx => hlife.lives x (hbelongs x hx))
        fun x hx => hmiddle x (hbelongs x hx)
      exact ⟨row', hrow'.held, hrow'.closed_margin hbefore' hchange' hown closed hclosed⟩
    · obtain rfl := List.mem_singleton.1 hstep
      exact ⟨row, hrow.held, hrow.closed_margin hbefore hchange hown closed hclosed⟩
  · have hrun' : FillRun v (front ++ step :: (back ++ closing :: later)) d' := by
      rw [hsplit] at hrun
      simpa using hrun
    obtain ⟨-, -, -, -, hupTo⟩ := hrun'.upTo
    -- The part up to the step begins with the opening as well.
    obtain ⟨init, hinit, hpart⟩ : ∃ init, front ++ [step] = opening :: init ∧
        ∀ x ∈ opening :: init, x ∈ opening :: middle := by
      cases front with
      | nil =>
        obtain ⟨rfl, rfl⟩ := List.cons.inj hsplit
        exact ⟨[], rfl, fun x hx => List.mem_append_left _ hx⟩
      | cons first front =>
        obtain ⟨rfl, rfl⟩ := List.cons.inj hsplit
        refine ⟨front ++ [step], rfl, fun x hx => ?_⟩
        show x ∈ opening :: (front ++ step :: back)
        rw [List.append_cons]
        exact List.mem_append_left back hx
    rw [hinit] at hupTo ⊢
    obtain ⟨row', hrow', -⟩ := exists_lived hstored hupTo hlife.opener hlife.new
      (fun x hx => hlife.lives x (hpart x hx)) fun x hx => hmiddle x (hpart x hx)
    cases hrow'.held.symm.trans held
    exact hrow'.balanced.within

end Lives

/-! A user buys 5 at 100 and 4 at 110, sells 3 of them at 120 and then 8 at 105. -/

/-- Two orders with two fills each. -/
def livedDb : ProjectorDb :=
  { tradedDb with
    fills := (tradedDb.fills.put (fillOfOrder 3 (Int.natCast_succ_pos 2))).put
      (fillOfOrder 4 (Int.natCast_succ_pos 3)) }

def livedFill (side : SideType) (orderId fillId price quantity : ℤ) : PositionFill :=
  { tradedFill side orderId quantity with
    fillId
    price
    engineTimestampMs := fillId }

/-- The step that projects a fill. -/
def FillStep.next (d : ProjectorDb) (fill : PositionFill) : FillStep :=
  match fill.project.eval d with
  | .ok (_, d') => ⟨d, fill, d'⟩
  | .error _ => ⟨d, fill, d⟩

def firstBuy : FillStep := .next livedDb (livedFill .LONG 1 1 100 5)

def secondBuy : FillStep := .next firstBuy.after (livedFill .LONG 1 2 110 4)

def firstSale : FillStep := .next secondBuy.after (livedFill .SHORT 2 3 120 3)

def lastSale : FillStep := .next firstSale.after (livedFill .SHORT 2 4 105 8)

theorem fillRun_next {d v : ProjectorDb} {steps : List FillStep} (h : FillRun d steps v)
    (fill : PositionFill) (hok : (fill.project.eval v).toOption.isSome) :
    FillRun d (steps ++ [.next v fill]) (FillStep.next v fill).after := by
  unfold FillStep.next
  cases heval : fill.project.eval v with
  | error e =>
    rw [heval] at hok
    cases hok
  | ok result => exact h.fill fill heval

theorem fillRun_livedFills :
    FillRun livedDb [firstBuy, secondBuy, firstSale, lastSale] lastSale.after := by
  have hfirst : FillRun livedDb [firstBuy] firstBuy.after :=
    fillRun_next .start _ (by decide +kernel)
  have hsecond : FillRun livedDb [firstBuy, secondBuy] secondBuy.after :=
    fillRun_next hfirst _ (by decide +kernel)
  have hthird : FillRun livedDb [firstBuy, secondBuy, firstSale] firstSale.after :=
    fillRun_next hsecond _ (by decide +kernel)
  exact fillRun_next hthird _ (by decide +kernel)

theorem life_livedFills : Life (1, 7) firstBuy [secondBuy, firstSale] lastSale 1 where
  opener := by decide +kernel
  new := by decide +kernel
  lives := by decide +kernel
  closer := by decide +kernel
  gone := by decide +kernel

instance (value : ℤ) : Decidable (FitsI64 value) := inferInstanceAs (Decidable (_ ∧ _))

theorem fits_livedFills : ∀ step ∈ [firstBuy, secondBuy, firstSale] ++ [lastSale],
    step.fill.owner = (1, 7) → step.Fits := by
  have hchecks : ∀ step ∈ [firstBuy, secondBuy, firstSale] ++ [lastSale],
      0 < step.fill.quantity ∧ (0 ≤ step.fill.price ∧ step.fill.price < 2 ^ 63) ∧
        0 ≤ step.fill.context.margin := by decide +kernel
  have hincrease : ∀ step ∈ [firstBuy, secondBuy, firstSale] ++ [lastSale],
      ∀ row ∈ step.fill.position step.before, row.side = step.fill.context.side →
        step.fill.context.reduceOnly = false → row.quantity + step.fill.quantity < 2 ^ 63 ∧
          row.initialMargin + step.fill.takenMargin step.before < 2 ^ 63 := by decide +kernel
  have hresult : ∀ step ∈ [firstBuy, secondBuy, firstSale] ++ [lastSale],
      ∀ row ∈ step.fill.position step.before, row.side ≠ step.fill.context.side →
        FitsI64 (row.side.gain (row.averagePrice * min row.quantity step.fill.quantity)
          (step.fill.price * min row.quantity step.fill.quantity)) := by decide +kernel
  intro step hstep _
  obtain ⟨hquantity, hprice, hmargin⟩ := hchecks step hstep
  exact ⟨hquantity, hprice, hmargin, hincrease step hstep, hresult step hstep⟩

/-- The 9 that were bought with a margin of 11 have all been closed, and the results of
48 and 6 are the gain of 50 and what the average of 104 leaves out. -/
theorem life_is_accounted_reversed :
    ((closedRowsOf (1, 7) [firstSale, lastSale]).map ClosedPositionRow.quantity).sum = 9 ∧
      ((closedRowsOf (1, 7) [firstSale, lastSale]).map ClosedPositionRow.initialMargin).sum = 11 ∧
      (closedRowsOf (1, 7) [firstSale, lastSale]).map ClosedPositionRow.realizedPnl = [48, 6] ∧
      ∃ drift, 0 ≤ drift ∧ drift ≤ 8 ∧
        ((closedRowsOf (1, 7) [firstSale, lastSale]).map ClosedPositionRow.realizedPnl).sum =
          50 + drift := by
  have htables : PositionTables livedDb :=
    ⟨fun row hrow => absurd hrow List.not_mem_nil, fun row hrow => absurd hrow List.not_mem_nil,
      fun row hrow => absurd hrow List.not_mem_nil⟩
  have hrun : FillRun livedDb ([] ++ (firstBuy :: [secondBuy, firstSale] ++ lastSale :: []))
      lastSale.after := fillRun_livedFills
  have haccounted := (life_is_accounted htables hrun life_livedFills fits_livedFills).1
  obtain ⟨drift, hnonneg, hle, hresults⟩ := haccounted.results
  refine ⟨haccounted.quantity.trans (by decide +kernel), haccounted.margin.trans (by decide +kernel),
    by decide +kernel, drift, hnonneg, hle.trans (by decide +kernel), hresults.trans ?_⟩
  have hgain : SideType.gain .LONG (cost (entriesOf (1, 7) [firstBuy, secondBuy, firstSale]))
      ((closedRowsOf (1, 7) [firstSale, lastSale]).map fun row => row.exitPrice * row.quantity).sum =
        50 := by decide +kernel
  exact congrArg (· + drift) hgain

end Projector
