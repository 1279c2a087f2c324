import ExchangeServer.Projector.FillRuns
import Mathlib.Algebra.BigOperators.Ring.List
import Mathlib.Algebra.Order.BigOperators.Group.List

/-!
# The margin that fills take from their order

An order locks a margin. Each of its fills brings a part of it into the position
of the user, in proportion to the quantity, rounded down but never to nothing.

The parts add up to no more than the whole as long as rounding up to one is never
needed, that is, as long as an order has at least as much margin as quantity. An
order with less margin is overdrawn when it is filled in pieces of one.

## Main results

- `proportionalMargin_mul_le`: a part is at most in proportion if nothing is rounded up
- `Change.takes`: where the part of a fill goes
- `neverOverdrawn_iff`: the parts of an order over whole runs
-/

namespace Projector

open Protocol Relational Transactional Program

/-! ## Parts of a margin -/

section Shares

variable {margin quantity target : ℤ}

theorem clampI128ToI64_le {value : ℤ} (h : -2 ^ 63 ≤ value) : clampI128ToI64 value ≤ value :=
  max_le h (min_le_left _ _)

theorem clampI128ToI64_eq {value : ℤ} (hlow : -2 ^ 63 ≤ value) (hhigh : value ≤ 2 ^ 63 - 1) :
    clampI128ToI64 value = value := by
  unfold clampI128ToI64
  rw [min_eq_left hhigh, max_eq_right hlow]

theorem proportionalMargin_nonneg (hmargin : 0 ≤ margin) :
    0 ≤ proportionalMargin margin quantity target := by
  unfold proportionalMargin
  split
  · exact le_rfl
  · split
    · exact hmargin
    · exact zero_le_one.trans (le_max_left _ _)

/-- No part is larger than the whole. -/
theorem proportionalMargin_le (hmargin : 0 ≤ margin) :
    proportionalMargin margin quantity target ≤ margin := by
  unfold proportionalMargin
  split
  · exact hmargin
  · next hpositive =>
    split
    · exact le_rfl
    · exact max_le (by omega) (min_le_right _ _)

/-- The part for the whole quantity is the whole. -/
theorem proportionalMargin_all (hmargin : 0 ≤ margin) (hquantity : 0 < quantity) :
    proportionalMargin margin quantity quantity = margin := by
  unfold proportionalMargin
  split
  · omega
  · exact if_pos le_rfl

/-- Without rounding up a part is at most in proportion. -/
theorem proportionalMargin_mul_le (hquantity : 0 < quantity) (htarget : 0 < target)
    (hmargin : margin = 0 ∨ quantity ≤ margin) :
    quantity * proportionalMargin margin quantity target ≤ margin * target := by
  rcases hmargin with rfl | hmargin
  · have hzero : proportionalMargin 0 quantity target = 0 := if_pos (.inl le_rfl)
    rw [hzero, mul_zero, zero_mul]
  · have hpos : ¬(margin ≤ 0 ∨ quantity ≤ 0 ∨ target ≤ 0) := by omega
    unfold proportionalMargin
    rw [if_neg hpos]
    split
    · next hall =>
      rw [mul_comm]
      exact mul_le_mul_of_nonneg_left hall (by omega)
    · -- The part in proportion is one at least, so the lower limit does not matter.
      have hprod : 0 ≤ margin * target := mul_nonneg (by omega) htarget.le
      have hone : 1 ≤ margin * target / quantity := by
        rw [Int.le_ediv_iff_mul_le hquantity, one_mul]
        exact hmargin.trans (le_mul_of_one_le_right (by omega) htarget)
      have hpart : max 1 (min (clampI128ToI64 (margin * target / quantity)) margin) ≤
          margin * target / quantity :=
        max_le hone ((min_le_left _ _).trans (clampI128ToI64_le (by omega)))
      rw [Int.tdiv_eq_ediv_of_nonneg hprod]
      calc quantity * max 1 (min (clampI128ToI64 (margin * target / quantity)) margin)
          ≤ quantity * (margin * target / quantity) := mul_le_mul_of_nonneg_left hpart hquantity.le
        _ ≤ margin * target := Int.mul_ediv_self_le hquantity.ne'

/-- Where the margin is smaller than the quantity, a piece of one takes one. -/
theorem proportionalMargin_one (hmargin : 0 < margin) (hless : margin < quantity) :
    proportionalMargin margin quantity 1 = 1 := by
  have hpos : ¬(margin ≤ 0 ∨ quantity ≤ 0 ∨ (1 : ℤ) ≤ 0) := by omega
  have hmore : ¬quantity ≤ 1 := by omega
  have hzero : (margin * 1).tdiv quantity = 0 := by
    rw [mul_one]
    exact Int.tdiv_eq_zero_of_lt hmargin.le hless
  unfold proportionalMargin
  rw [if_neg hpos, if_neg hmore, hzero]
  have hclamp : clampI128ToI64 0 = 0 := by decide
  simp only [hclamp, min_eq_left hmargin.le]
  decide

end Shares

/-! ## The part of a fill -/

/-- The margin that the projection of a fill takes from the context of its order:
what a new position starts with, or what is added to the position. -/
def PositionFill.takenMargin (fill : PositionFill) (d : ProjectorDb) : ℤ :=
  match fill.position d with
  | none => if fill.context.reduceOnly then 0 else fill.share fill.quantity
  | some row =>
    if row.side = fill.context.side then
      if fill.context.reduceOnly then 0 else fill.share fill.quantity
    else if row.quantity < fill.quantity then fill.share (fill.quantity - row.quantity)
    else 0

/-- Where the margin of a fill goes. -/
structure Takes (d d' : ProjectorDb) (fill : PositionFill) (margin : ℤ) : Prop where
  opened : ∀ row', fill.position d' = some row' →
    (∀ row, fill.position d = some row → row.positionId ≠ row'.positionId) →
      row'.initialMargin = margin
  increased : ∀ row row', fill.position d = some row → fill.position d' = some row' →
    row.positionId = row'.positionId → row.side = fill.context.side →
      fill.context.reduceOnly = false → row'.initialMargin = addI64 row.initialMargin margin

section Taken

variable {d d' : ProjectorDb} {fill : PositionFill} {row : PositionRow}

/-- A new position starts with the margin of its fill, and an increased one gets it
added. -/
theorem Change.takes (htables : PositionTables d) (h : Change d fill d') :
    Takes d d' fill (fill.takenMargin d) := by
  unfold PositionFill.takenMargin
  cases h with
  | ignores reduceOnly side =>
    refine ⟨fun row' held' hnew => absurd rfl (hnew row' held'), ?_⟩
    intro row row' held held' hid hside hreduce
    exact absurd (reduceOnly.symm.trans hreduce) (by decide)
  | opens flat notReduceOnly check stored =>
    simp only [flat, notReduceOnly, Bool.false_eq_true, if_false]
    refine ⟨fun row' held' hnew => ?_, ?_⟩
    · have hopened := held_openPosition htables flat check
      cases held'.symm.trans hopened
      rfl
    · intro row row' held
      exact absurd (flat.symm.trans held) (by simp)
  | increases row held side notReduceOnly check =>
    have hincreased := held_increased held check
    simp only [held, side, notReduceOnly, Bool.false_eq_true, if_true, if_false]
    refine ⟨fun row' held' hnew => ?_, ?_⟩
    · cases held'.symm.trans hincreased
      exact absurd rfl (hnew row held)
    · intro old row' hold held' hid hside hreduce
      cases held'.symm.trans hincreased
      obtain rfl := Option.some.inj (held.symm.trans hold)
      rfl
  | reduces row held side check less =>
    have hreduced := held_reduced held check less
    refine ⟨fun row' held' hnew => ?_, ?_⟩
    · cases held'.symm.trans hreduced
      exact absurd rfl (hnew row held)
    · intro old row' hold held' hid hside
      cases held.symm.trans hold
      exact absurd hside side
  | closes row held side all =>
    have hclosed : fill.position (fill.closing d row) = none := flat_closing held
    refine ⟨fun row' held' => ?_, fun old row' hold held' => ?_⟩
    · exact absurd (hclosed.symm.trans held') (by simp)
    · exact absurd (hclosed.symm.trans held') (by simp)
  | reverses row held side left stored =>
    -- The new position takes the part of what is left over.
    have hopened := held_reversed htables held left
    simp only [held, side, if_false, sub_pos.1 left, if_true]
    refine ⟨fun row' held' hnew => ?_, ?_⟩
    · cases held'.symm.trans hopened
      rfl
    · intro old row' hold held' hid hside
      obtain rfl := Option.some.inj (held.symm.trans hold)
      exact absurd hside side

end Taken

/-! ## An order over a run -/

/-- The steps of a run that are fills of an order. -/
def fillsOf (context : StoredOrderContext) (steps : List FillStep) : List FillStep :=
  steps.filter fun step => step.fill.context = context

def filledQuantity (context : StoredOrderContext) (steps : List FillStep) : ℤ :=
  ((fillsOf context steps).map fun step => step.fill.quantity).sum

/-- The margin that the fills of an order have taken from it. -/
def takenMargins (context : StoredOrderContext) (steps : List FillStep) : ℤ :=
  ((fillsOf context steps).map fun step => step.fill.takenMargin step.before).sum

/-- In no run do the fills of an order take more than its margin. -/
def NeverOverdrawn (context : StoredOrderContext) : Prop :=
  ∀ (d d' : ProjectorDb) (steps : List FillStep), PositionTables d → FillRun d steps d' →
    (∀ step ∈ fillsOf context steps, 0 < step.fill.quantity) →
      filledQuantity context steps ≤ context.quantity →
        takenMargins context steps ≤ context.margin

/-- A fill takes at most in proportion to its quantity, if nothing is rounded up. -/
theorem takenMargin_mul_le {fill : PositionFill} (hquantity : 0 < fill.context.quantity)
    (hmargin : fill.context.margin = 0 ∨ fill.context.quantity ≤ fill.context.margin)
    (hfill : 0 < fill.quantity) (d : ProjectorDb) :
    fill.context.quantity * fill.takenMargin d ≤ fill.context.margin * fill.quantity := by
  have hnonneg : 0 ≤ fill.context.margin := by omega
  have hnone : fill.context.quantity * 0 ≤ fill.context.margin * fill.quantity := by
    rw [mul_zero]
    exact mul_nonneg hnonneg hfill.le
  have hshare := proportionalMargin_mul_le hquantity hfill hmargin
  unfold PositionFill.takenMargin
  split
  · split
    · exact hnone
    · exact hshare
  · next row held =>
    have hrow : 0 < row.quantity := row.check
    split
    · split
      · exact hnone
      · exact hshare
    · split
      · next hless =>
        -- A reversal takes the part of what is left over.
        calc fill.context.quantity * fill.share (fill.quantity - row.quantity)
            ≤ fill.context.margin * (fill.quantity - row.quantity) :=
              proportionalMargin_mul_le hquantity (sub_pos.2 hless) hmargin
          _ ≤ fill.context.margin * fill.quantity :=
              mul_le_mul_of_nonneg_left (by omega) hnonneg
      · exact hnone

/-- An order with a margin that is not smaller than its quantity is never overdrawn. -/
theorem neverOverdrawn_of_le {context : StoredOrderContext} (hquantity : 0 < context.quantity)
    (hmargin : context.margin = 0 ∨ context.quantity ≤ context.margin) :
    NeverOverdrawn context := by
  intro d d' steps htables hrun hfills hfilled
  -- Multiplied with the quantity of the order there is nothing to round.
  have hsum : context.quantity * takenMargins context steps ≤
      context.margin * filledQuantity context steps := by
    unfold takenMargins filledQuantity
    rw [← List.sum_map_mul_left, ← List.sum_map_mul_left]
    refine List.sum_le_sum fun step hstep => ?_
    have hpos := hfills step hstep
    have hcontext : step.fill.context = context :=
      of_decide_eq_true (List.mem_filter.1 hstep).2
    subst hcontext
    exact takenMargin_mul_le hquantity hmargin hpos step.before
  have hall : context.quantity * takenMargins context steps ≤
      context.quantity * context.margin :=
    calc context.quantity * takenMargins context steps
        ≤ context.margin * filledQuantity context steps := hsum
      _ ≤ context.margin * context.quantity := mul_le_mul_of_nonneg_left hfilled (by omega)
      _ = context.quantity * context.margin := mul_comm _ _
  exact le_of_mul_le_mul_left hall hquantity

/-! ## An order that is filled in pieces of one -/

section Overdrawn

variable {context : StoredOrderContext}

/-- The row of an order with this context and the number 1. -/
def orderOf (context : StoredOrderContext)
    (check : 0 < context.quantity ∧ 0 ≤ context.margin) : OrderRow where
  orderId := 1
  userId := context.userId
  marketId := context.marketId
  marketName := context.marketName
  side := context.side
  quantity := context.quantity
  orderType := context.orderType
  price := 1
  status := .OPEN
  margin := context.margin
  reduceOnly := context.reduceOnly
  check := ⟨check.1, zero_le_one, check.2⟩

def marketOf (context : StoredOrderContext) : MarketRow where
  marketId := context.marketId
  marketName := context.marketName
  lastTradedPrice := 1

/-- The order is stored, and nothing has been filled yet. -/
def orderedDb (context : StoredOrderContext)
    (check : 0 < context.quantity ∧ 0 ≤ context.margin) : ProjectorDb :=
  { ProjectorDb.empty [context.userId] (fun _ => none) (Table.empty.upsert (marketOf context)) with
    orders := Table.empty.upsert (orderOf context check) }

/-- A fill of one of the order. -/
def pieceOf (context : StoredOrderContext) (fillId : ℤ) : PositionFill where
  context := context
  orderId := 1
  fillId := fillId
  price := 1
  quantity := 1
  engineTimestampMs := fillId
  executionReason := .TRADE

/-- The row of a fill of one, a trade with another user. -/
def pieceRow (context : StoredOrderContext) (fillId : ℤ) (check : 0 < fillId) : FillRow where
  fillId := fillId
  marketId := context.marketId
  engineSequence := fillId
  makerId := context.userId
  takerId := context.userId + 1
  makerOrderId := 1
  takerOrderId := 2
  price := 1
  quantity := 1
  makerPosition := context.side
  takerPosition := if context.side = .LONG then .SHORT else .LONG
  executedAtMs := fillId
  check := ⟨zero_le_one, zero_lt_one, check⟩

/-- What is stored after a number of pieces. -/
structure FilledInPieces (context : StoredOrderContext) (n : ℕ) (steps : List FillStep)
    (d : ProjectorDb) : Prop where
  tables : PositionTables d
  owner : d.References context.userId context.marketId
  order : (d.orders.find? 1).isSome
  fills : ∀ row ∈ d.fills.rows, row.fillId ≤ n ∧ row.engineSequence ≤ n
  net : ∃ net : Net, net.sum = context.side.signed n ∧
    HoldsNet d (context.userId, context.marketId) net
  pieces : ∀ step ∈ steps, step.fill.context = context ∧ step.fill.quantity = 1 ∧
    step.fill.takenMargin step.before = 1
  length : steps.length = n

theorem filledInPieces_zero (check : 0 < context.quantity ∧ 0 ≤ context.margin) :
    FilledInPieces context 0 [] (orderedDb context check) where
  tables := ⟨fun row hrow => absurd hrow List.not_mem_nil,
    fun row hrow => absurd hrow List.not_mem_nil, fun row hrow => absurd hrow List.not_mem_nil⟩
  owner := ⟨List.mem_singleton_self _, Option.isSome_iff_exists.2
    ⟨_, Table.find?_upsert_self Table.empty (marketOf context)⟩⟩
  order := Option.isSome_iff_exists.2
    ⟨_, Table.find?_upsert_self Table.empty (orderOf context check)⟩
  fills row hrow := absurd hrow List.not_mem_nil
  net := by
    refine ⟨⟨0, 0⟩, ?_, rfl⟩
    cases context.side <;> rfl
  pieces step hstep := absurd hstep List.not_mem_nil
  length := rfl

/-- The order takes one for each piece, while the position is on its side. -/
theorem takenMargin_piece {d : ProjectorDb} {n : ℕ} {net : Net} {fillId : ℤ}
    (hreduce : context.reduceOnly = false) (hmargin : 0 < context.margin)
    (hless : context.margin < context.quantity) (hsum : net.sum = context.side.signed n)
    (hnet : HoldsNet d (context.userId, context.marketId) net) :
    (pieceOf context fillId).takenMargin d = 1 := by
  have hone : (pieceOf context fillId).share 1 = 1 := proportionalMargin_one hmargin hless
  have hnot : (pieceOf context fillId).context.reduceOnly = false := hreduce
  unfold HoldsNet at hnet
  unfold PositionFill.takenMargin
  cases held : (pieceOf context fillId).position d with
  | none =>
    simp only [hnot, Bool.false_eq_true, if_false]
    exact hone
  | some row =>
    have hrow : d.position context.userId context.marketId = some row := held
    rw [hrow] at hnet
    -- Pieces of the order are all that the user has bought or sold.
    have hside : row.side = context.side := by
      have hquantity : 0 < row.quantity := row.check
      have hsigned := hnet.1.trans hsum
      by_contra hne
      rw [SideType.signed_of_ne hne] at hsigned
      cases hs : context.side <;> simp only [hs, SideType.signed] at hsigned <;> omega
    have hown : row.side = (pieceOf context fillId).context.side := hside
    simp only [hown, hnot, Bool.false_eq_true, if_true, if_false]
    exact hone

/-- One more piece. -/
theorem FilledInPieces.succ {n : ℕ} {steps : List FillStep} {d₀ d : ProjectorDb}
    (h : FilledInPieces context n steps d) (hrun : FillRun d₀ steps d)
    (hreduce : context.reduceOnly = false) (hmargin : 0 < context.margin)
    (hless : context.margin < context.quantity) (hfits : (n : ℤ) + 1 < 2 ^ 63) :
    ∃ steps' d', FillRun d₀ steps' d' ∧ FilledInPieces context (n + 1) steps' d' := by
  -- The trade is stored first, which the positions take no notice of.
  have hpos : (0 : ℤ) < n + 1 := by omega
  let row := pieceRow context (n + 1) hpos
  let stored : ProjectorDb := { d with fills := d.fills.put row }
  have hadmits : d.fills.Admits row := by
    intro x hx _ j hj hjx
    have hle := (h.fills x hx).2
    obtain rfl := List.mem_singleton.1 hj
    have hsequence : (n : ℤ) + 1 = x.engineSequence :=
      congrArg Prod.snd (List.mem_singleton.1 hjx)
    omega
  have hquiet : Quiet d stored := .write (w := .putFill row) (fun harea => nomatch harea) d
  have hfill : (stored.fills.find? (n + 1)).isSome := by
    change ((d.fills.put row).find? (n + 1)).isSome
    rw [Indexed.find?_put hadmits]
    exact Option.isSome_iff_exists.2 ⟨row, if_pos rfl⟩
  have hrefs : FillReferences stored context 1 (n + 1) := ⟨h.owner, h.order, hfill⟩
  -- It is projected without an error, as the net position fits.
  obtain ⟨net, hsum, hnet⟩ := h.net
  have hsigned : net.sum + (pieceOf context (n + 1)).signed = context.side.signed (n + 1) := by
    rw [hsum, SideType.signed_add]
    rfl
  have hsumFits : |net.sum + (pieceOf context (n + 1)).signed| < 2 ^ 63 := by
    rw [hsigned, SideType.abs_signed, abs_of_pos hpos]
    exact hfits
  obtain ⟨d', heval, hadds⟩ := project_net (pieceOf context (n + 1)) (hquiet.tables h.tables) hrefs
    hreduce zero_lt_one hnet hsumFits
  refine ⟨steps ++ [⟨stored, pieceOf context (n + 1), d'⟩], d', (hrun.other hquiet).fill _ heval,
    hadds.tables, ?_, ?_, ?_, ⟨_, ?_, hadds.net⟩, ?_, ?_⟩
  · unfold ProjectorDb.References
    rw [hadds.references.users, hadds.references.markets]
    exact h.owner
  · rw [hadds.references.orders]
    exact h.order
  · intro x hx
    rw [hadds.references.fills] at hx
    push_cast
    rcases Indexed.mem_put_cases hx with rfl | hx
    · exact ⟨le_rfl, le_rfl⟩
    · have hle := h.fills x hx
      omega
  · exact hsigned.trans (by push_cast; rfl)
  · intro step hstep
    rcases List.mem_append.1 hstep with hstep | hlast
    · exact h.pieces step hstep
    · obtain rfl := List.mem_singleton.1 hlast
      exact ⟨rfl, rfl, takenMargin_piece hreduce hmargin hless hsum hnet⟩
  · rw [List.length_append, h.length]
    rfl

/-- An order can be filled in any number of pieces of one that is left of it. -/
theorem exists_filledInPieces (check : 0 < context.quantity ∧ 0 ≤ context.margin)
    (hreduce : context.reduceOnly = false) (hmargin : 0 < context.margin)
    (hless : context.margin < context.quantity) (n : ℕ) (hfits : (n : ℤ) < 2 ^ 63) :
    ∃ steps d', FillRun (orderedDb context check) steps d' ∧ FilledInPieces context n steps d' := by
  induction n with
  | zero => exact ⟨[], _, .start, filledInPieces_zero check⟩
  | succ n ih =>
    push_cast at hfits
    obtain ⟨steps, d, hrun, hpieces⟩ := ih (by omega)
    exact hpieces.succ hrun hreduce hmargin hless hfits

/-- One piece more than the margin has overdrawn the order. -/
theorem not_neverOverdrawn (hreduce : context.reduceOnly = false) (hmargin : 0 < context.margin)
    (hless : context.margin < context.quantity) (hfits : context.quantity < 2 ^ 63) :
    ¬NeverOverdrawn context := by
  intro hnever
  obtain ⟨m, hm⟩ := Int.eq_ofNat_of_zero_le hmargin.le
  have check : 0 < context.quantity ∧ 0 ≤ context.margin := ⟨by omega, hmargin.le⟩
  have hcount : ((m + 1 : ℕ) : ℤ) < 2 ^ 63 := by push_cast; omega
  obtain ⟨steps, d', hrun, h⟩ := exists_filledInPieces check hreduce hmargin hless (m + 1) hcount
  have hown : fillsOf context steps = steps :=
    List.filter_eq_self.2 fun step hstep => decide_eq_true (h.pieces step hstep).1
  have hfilled : filledQuantity context steps = m + 1 := by
    unfold filledQuantity
    rw [hown, List.map_congr_left fun step hstep => (h.pieces step hstep).2.1]
    simp [h.length]
  have htaken : takenMargins context steps = m + 1 := by
    unfold takenMargins
    rw [hown, List.map_congr_left fun step hstep => (h.pieces step hstep).2.2]
    simp [h.length]
  have hle := hnever _ d' steps (filledInPieces_zero check).tables hrun (fun step hstep => ?_)
    (by omega)
  · omega
  · rw [hown] at hstep
    rw [(h.pieces step hstep).2.1]
    exact zero_lt_one

end Overdrawn

/-- The fills of an order take at most its margin in every run, exactly when it has
no margin or at least as much margin as quantity. -/
theorem neverOverdrawn_iff {context : StoredOrderContext} (hreduce : context.reduceOnly = false)
    (hmargin : 0 ≤ context.margin) (hquantity : 0 < context.quantity)
    (hfits : context.quantity < 2 ^ 63) :
    NeverOverdrawn context ↔ context.margin = 0 ∨ context.quantity ≤ context.margin := by
  constructor
  · intro hnever
    by_contra hnot
    have hpos : 0 < context.margin := by omega
    have hless : context.margin < context.quantity := by omega
    exact not_neverOverdrawn hreduce hpos hless hfits hnever
  · intro hmargin
    exact neverOverdrawn_of_le hquantity hmargin

theorem neverOverdrawn_iff_eight : NeverOverdrawn (tradedContext .LONG) ↔
    (tradedContext .LONG).margin = 0 ∨
      (tradedContext .LONG).quantity ≤ (tradedContext .LONG).margin :=
  neverOverdrawn_iff rfl (by decide) (by decide) (by decide)

/-- Margin 1 for a quantity of 10: the second fill of one overdraws it. -/
def thinContext : StoredOrderContext :=
  { tradedContext .LONG with quantity := 10, margin := 1 }

theorem thinContext_overdrawn : 0 ≤ thinContext.margin ∧ 0 < thinContext.quantity ∧
    thinContext.reduceOnly = false ∧ ¬NeverOverdrawn thinContext := by
  have hoverdrawn : ¬NeverOverdrawn thinContext :=
    not_neverOverdrawn rfl (by decide) (by decide) (by decide)
  exact ⟨by decide, by decide, rfl, hoverdrawn⟩

end Projector
