import ExchangeServer.Projector.PositionSteps

/-!
# Positions equal the signed sum of fills

A position is kept as a side and a quantity and is changed in four ways. Seen
from outside it is one number, the sum of the quantities of the user's fills in
the market, with a minus sign for those of the `SHORT` side, and the order that
last took that number away from zero or across it.

## Main results

- `project_net`: one fill adds its signed quantity
- `holdsNet_of_projected`: and so do the fills of a run
- `positions_are_signed_sums`: positions after any sequence of fills
-/

namespace Projector

open Protocol Relational Transactional Program

/-! ## Signed sums -/

/-- A fill as it is projected to the position of one of its two users. -/
structure PositionFill where
  context : StoredOrderContext
  orderId : ℤ
  fillId : ℤ
  price : ℤ
  quantity : ℤ
  engineTimestampMs : ℤ
  executionReason : ExecutionReason

def PositionFill.project (fill : PositionFill) : Tx Unit :=
  projectPositionForFillInTx fill.context fill.orderId fill.fillId fill.price fill.quantity
    fill.engineTimestampMs fill.executionReason

def SideType.signed : SideType → ℤ → ℤ
  | LONG, quantity => quantity
  | SHORT, quantity => -quantity

/-- The side of a signed quantity. -/
def sideOf (sum : ℤ) : SideType := if 0 < sum then .LONG else .SHORT

def PositionFill.signed (fill : PositionFill) : ℤ := fill.context.side.signed fill.quantity

/-- A signed sum of fills, and the order of the fill that last took it away from
zero or across it. -/
structure Net where
  sum : ℤ
  openOrderId : ℤ
  deriving DecidableEq

/-- The sum leaves zero, or changes its sign. -/
def Opens (before after : ℤ) : Prop := before = 0 ∨ before * after < 0

instance (before after : ℤ) : Decidable (Opens before after) :=
  inferInstanceAs (Decidable (_ ∨ _))

def Net.add (net : Net) (fill : PositionFill) : Net where
  sum := net.sum + fill.signed
  openOrderId := if Opens net.sum (net.sum + fill.signed) then fill.orderId else net.openOrderId

def PositionFill.owner (fill : PositionFill) : ℤ × ℤ := (fill.context.userId, fill.context.marketId)

/-- The fills of a user in a market, summed up. -/
def netOf (owner : ℤ × ℤ) (fills : List PositionFill) : Net :=
  (fills.filter fun fill => fill.owner = owner).foldl Net.add ⟨0, 0⟩

theorem netOf_append_self (fills : List PositionFill) (fill : PositionFill) :
    netOf fill.owner (fills ++ [fill]) = (netOf fill.owner fills).add fill := by
  simp [netOf]

theorem netOf_append_of_ne {owner : ℤ × ℤ} {fill : PositionFill} (h : fill.owner ≠ owner)
    (fills : List PositionFill) : netOf owner (fills ++ [fill]) = netOf owner fills := by
  simp [netOf, h]

/-- The position of a user in a market is a signed sum. -/
def HoldsNet (d : ProjectorDb) (owner : ℤ × ℤ) (net : Net) : Prop :=
  match d.position owner.1 owner.2 with
  | none => net.sum = 0
  | some row => row.side.signed row.quantity = net.sum ∧ row.openOrderId = some net.openOrderId

/-! ## One fill -/

namespace SideType

theorem signed_add (side : SideType) (x y : ℤ) :
    side.signed (x + y) = side.signed x + side.signed y := by
  cases side with
  | LONG => rfl
  | SHORT => exact neg_add x y

theorem signed_of_ne {side other : SideType} (h : other ≠ side) (x : ℤ) :
    other.signed x = -side.signed x := by
  cases side <;> cases other <;> simp_all [signed]

theorem abs_signed (side : SideType) (x : ℤ) : |side.signed x| = |x| := by
  cases side with
  | LONG => rfl
  | SHORT => exact abs_neg x

/-- Signed quantities of one side do not open a position one after the other. -/
theorem not_opens (side : SideType) {x y : ℤ} (hx : 0 < x) (hy : 0 ≤ y) :
    ¬Opens (side.signed x) (side.signed y) := by
  have hprod : 0 ≤ x * y := mul_nonneg hx.le hy
  rintro (hzero | hneg)
  · cases side <;> simp only [signed] at hzero <;> omega
  · cases side <;> simp only [signed, neg_mul_neg] at hneg <;> omega

/-- Signed quantities of both sides do. -/
theorem opens_of_ne {side other : SideType} (h : other ≠ side) {x y : ℤ} (hx : 0 < x)
    (hy : 0 < y) : Opens (side.signed x) (other.signed y) := by
  refine .inr ?_
  have hprod : 0 < x * y := mul_pos hx hy
  rw [signed_of_ne h]
  cases side <;> simp only [signed, mul_neg, neg_mul, neg_neg] <;> omega

end SideType

/-- Sums that fit are formed without overflow. -/
theorem addI64_eq {x y : ℤ} (hlow : 0 ≤ x + y) (hhigh : x + y < 2 ^ 63) : addI64 x y = x + y := by
  unfold addI64
  rw [Int.bmod_eq_emod_of_lt] <;> rw [Int.emod_eq_of_lt] <;> omega

/-- What the projection of a fill to positions does. -/
structure Adds (d d' : ProjectorDb) (fill : PositionFill) (net : Net) : Prop where
  tables : PositionTables d'
  references : SameReferences d d'
  net : HoldsNet d' fill.owner (net.add fill)
  others : ∀ userId marketId, fill.owner ≠ (userId, marketId) →
    d'.position userId marketId = d.position userId marketId

section OneFill

variable {d : ProjectorDb} {fill : PositionFill} {net : Net} {row : PositionRow}

theorem holdsNet_of_some {owner : ℤ × ℤ} (h : d.position owner.1 owner.2 = some row)
    (hsum : row.side.signed row.quantity = net.sum)
    (hopen : row.openOrderId = some net.openOrderId) : HoldsNet d owner net := by
  unfold HoldsNet
  rw [h]
  exact ⟨hsum, hopen⟩

theorem holdsNet_of_none {owner : ℤ × ℤ} (h : d.position owner.1 owner.2 = none)
    (hsum : net.sum = 0) : HoldsNet d owner net := by
  unfold HoldsNet
  rw [h]
  exact hsum

theorem Replaces.adds_some {d' : ProjectorDb} (h : Replaces d d' fill.owner (some row))
    (hsum : row.side.signed row.quantity = net.sum + fill.signed)
    (hopen : row.openOrderId = some (net.add fill).openOrderId) : Adds d d' fill net where
  tables := h.tables
  references := h.references
  net := holdsNet_of_some ((h.position _ _).trans (if_pos rfl)) hsum hopen
  others userId marketId hne := (h.position userId marketId).trans (if_neg hne)

theorem Replaces.adds_none {d' : ProjectorDb} (h : Replaces d d' fill.owner none)
    (hsum : net.sum + fill.signed = 0) : Adds d d' fill net where
  tables := h.tables
  references := h.references
  net := holdsNet_of_none ((h.position _ _).trans (if_pos rfl)) hsum
  others userId marketId hne := (h.position userId marketId).trans (if_neg hne)

/-- A fill of a user without a position opens one. -/
theorem adds_of_flat (htables : PositionTables d)
    (hrefs : FillReferences d fill.context fill.orderId fill.fillId) (hquantity : 0 < fill.quantity)
    (hnone : d.position fill.context.userId fill.context.marketId = none) (hsum : net.sum = 0)
    (margin : ℤ) :
    ∃ d', (insertOpenPositionInTx fill.context fill.orderId fill.fillId fill.quantity fill.price
      margin fill.engineTimestampMs).eval d = .ok ((), d') ∧ Adds d d' fill net := by
  obtain ⟨d', heval, hreplaces⟩ := replaces_open htables hrefs hquantity hnone margin
  refine ⟨d', heval, hreplaces.adds_some ?_ ?_⟩
  · show fill.signed = net.sum + fill.signed
    omega
  · show some fill.orderId = some (if Opens net.sum _ then _ else _)
    rw [if_pos (.inl hsum)]

/-- A fill of the side of the position increases it. -/
theorem adds_of_same_side (htables : PositionTables d)
    (hrefs : FillReferences d fill.context fill.orderId fill.fillId) (hquantity : 0 < fill.quantity)
    (hrow : row ∈ d.positions.rows) (howner : row.owner = fill.owner)
    (hside : row.side = fill.context.side) (hsum : row.side.signed row.quantity = net.sum)
    (hopen : row.openOrderId = some net.openOrderId) (hfits : |net.sum + fill.signed| < 2 ^ 63)
    (margin : ℤ) :
    ∃ d', (increasePositionInTx row.stored fill.fillId fill.quantity fill.price margin).eval d =
      .ok ((), d') ∧ Adds d d' fill net := by
  have hpos : 0 < row.quantity := row.check
  have htotal : net.sum + fill.signed = row.side.signed (row.quantity + fill.quantity) := by
    rw [SideType.signed_add, hsum, hside]
    rfl
  have hadd : addI64 row.quantity fill.quantity = row.quantity + fill.quantity := by
    rw [htotal, SideType.abs_signed] at hfits
    exact addI64_eq (by omega) (abs_lt.1 hfits).2
  have hadded : 0 < addI64 row.quantity fill.quantity := by omega
  obtain ⟨d', heval, hreplaces⟩ := replaces_increase htables hrow hrefs.fill hadded margin
  rw [howner] at hreplaces
  refine ⟨d', heval, hreplaces.adds_some ?_ ?_⟩
  · show row.side.signed (addI64 row.quantity fill.quantity) = net.sum + fill.signed
    rw [hadd, htotal]
  · show row.openOrderId = some (if Opens net.sum (net.sum + fill.signed) then _ else _)
    rw [htotal, ← hsum, if_neg (row.side.not_opens hpos (by omega)), hopen]

/-- A fill of the other side takes its quantity from the position. -/
theorem sum_of_other_side (hside : fill.context.side ≠ row.side)
    (hsum : row.side.signed row.quantity = net.sum) :
    net.sum + fill.signed = row.side.signed (row.quantity - fill.quantity) := by
  have hsigned : fill.signed = -row.side.signed fill.quantity := SideType.signed_of_ne hside _
  have hsplit := row.side.signed_add (row.quantity - fill.quantity) fill.quantity
  rw [sub_add_cancel] at hsplit
  omega

/-- A fill of the other side that is smaller than the position reduces it. -/
theorem adds_of_smaller (htables : PositionTables d)
    (hrefs : FillReferences d fill.context fill.orderId fill.fillId) (hquantity : 0 < fill.quantity)
    (hrow : row ∈ d.positions.rows) (howner : row.owner = fill.owner)
    (hside : fill.context.side ≠ row.side) (hsum : row.side.signed row.quantity = net.sum)
    (hopen : row.openOrderId = some net.openOrderId) (hless : 0 < row.quantity - fill.quantity) :
    ∃ d', (reduceOrReversePositionInTx row.stored fill.context fill.orderId fill.fillId fill.price
      fill.quantity fill.engineTimestampMs fill.executionReason).eval d = .ok ((), d') ∧
      Adds d d' fill net := by
  have htotal := sum_of_other_side hside hsum
  obtain ⟨d', heval, hreplaces⟩ := replaces_reduce htables hrefs hrow hquantity hless
  rw [howner] at hreplaces
  refine ⟨d', heval, hreplaces.adds_some htotal.symm ?_⟩
  show row.openOrderId = some (if Opens net.sum (net.sum + fill.signed) then _ else _)
  rw [htotal, ← hsum, if_neg (row.side.not_opens row.check hless.le), hopen]

/-- A fill of the other side that is not smaller closes the position, and opens
one with what is left over. -/
theorem adds_of_not_smaller (htables : PositionTables d)
    (hrefs : FillReferences d fill.context fill.orderId fill.fillId)
    (hrow : row ∈ d.positions.rows) (howner : row.owner = fill.owner)
    (hside : fill.context.side ≠ row.side) (hsum : row.side.signed row.quantity = net.sum)
    (hmore : row.quantity ≤ fill.quantity) :
    ∃ d', (reduceOrReversePositionInTx row.stored fill.context fill.orderId fill.fillId fill.price
      fill.quantity fill.engineTimestampMs fill.executionReason).eval d = .ok ((), d') ∧
      Adds d d' fill net := by
  have htotal := sum_of_other_side hside hsum
  obtain ⟨d', row', heval, hreplaces, hreverses⟩ := replaces_close htables hrefs hrow howner hmore
  rw [howner] at hreplaces
  refine ⟨d', heval, ?_⟩
  by_cases hleft : 0 < fill.quantity - row.quantity
  · obtain ⟨rest, rfl, hrest, hquantity, hopened⟩ := hreverses.opens hleft
    have hturned : net.sum + fill.signed =
        fill.context.side.signed (fill.quantity - row.quantity) := by
      rw [htotal, ← neg_sub row.quantity, SideType.signed_of_ne hside]
      cases row.side <;> simp [SideType.signed]
    refine hreplaces.adds_some ?_ ?_
    · rw [hrest, hquantity, hturned]
    · show rest.openOrderId = some (if Opens net.sum (net.sum + fill.signed) then _ else _)
      rw [hturned, ← hsum, if_pos (SideType.opens_of_ne hside row.check hleft), hopened]
  · have hzero : fill.quantity - row.quantity = 0 := by omega
    obtain rfl := hreverses.flat hzero
    have hsame : row.quantity - fill.quantity = 0 := by omega
    refine hreplaces.adds_none ?_
    rw [htotal, hsame]
    cases row.side <;> rfl

/-- The projection of a fill is not refused and adds its signed quantity. -/
theorem project_net (fill : PositionFill) (htables : PositionTables d)
    (hrefs : FillReferences d fill.context fill.orderId fill.fillId)
    (hreduce : fill.context.reduceOnly = false) (hquantity : 0 < fill.quantity)
    (hnet : HoldsNet d fill.owner net) (hfits : |net.sum + fill.signed| < 2 ^ 63) :
    ∃ d', fill.project.eval d = .ok ((), d') ∧ Adds d d' fill net := by
  unfold PositionFill.project projectPositionForFillInTx loadPositionForUpdateInTx
  rw [eval_bind_ok (eval_query _ _)]
  unfold HoldsNet at hnet
  cases hposition : d.position fill.context.userId fill.context.marketId with
  | none =>
    rw [show d.position fill.owner.1 fill.owner.2 = none from hposition] at hnet
    simp only [Option.map_none, hreduce, Bool.false_eq_true, if_false]
    exact adds_of_flat htables hrefs hquantity hposition hnet _
  | some row =>
    rw [show d.position fill.owner.1 fill.owner.2 = some row from hposition] at hnet
    obtain ⟨hsum, hopen⟩ := hnet
    obtain ⟨hrow, howner⟩ := position_eq_some_iff.1 hposition
    simp only [Option.map_some, hreduce, Bool.false_eq_true, false_and, if_false]
    by_cases hside : row.side = fill.context.side
    · rw [if_pos (show row.stored.side = fill.context.side from hside)]
      exact adds_of_same_side htables hrefs hquantity hrow howner hside hsum hopen hfits _
    · rw [if_neg (show ¬row.stored.side = fill.context.side from hside)]
      by_cases hless : 0 < row.quantity - fill.quantity
      · exact adds_of_smaller htables hrefs hquantity hrow howner (Ne.symm hside) hsum hopen hless
      · exact adds_of_not_smaller htables hrefs hrow howner (Ne.symm hside) hsum (by omega)

end OneFill

/-! ## Between two fills -/

/-- What is seen of a position in the sum of its fills. -/
def PositionRow.exposure (row : PositionRow) : SideType × ℤ × Option ℤ :=
  (row.side, row.quantity, row.openOrderId)

/-- Between two fills other rows may be stored, and positions may be marked to a
price. -/
structure Undisturbed (d d' : ProjectorDb) : Prop where
  tables : PositionTables d → PositionTables d'
  position : ∀ userId marketId, (d'.position userId marketId).map PositionRow.exposure =
    (d.position userId marketId).map PositionRow.exposure

theorem Undisturbed.refl (d : ProjectorDb) : Undisturbed d d := ⟨id, fun _ _ => rfl⟩

theorem Undisturbed.trans {a b c : ProjectorDb} (h : Undisturbed a b) (h' : Undisturbed b c) :
    Undisturbed a c :=
  ⟨fun ha => h'.tables (h.tables ha), fun userId marketId =>
    (h'.position userId marketId).trans (h.position userId marketId)⟩

theorem Undisturbed.holdsNet {d d' : ProjectorDb} {owner : ℤ × ℤ} {net : Net}
    (h : Undisturbed d d') (hnet : HoldsNet d owner net) : HoldsNet d' owner net := by
  have hsame := h.position owner.1 owner.2
  unfold HoldsNet at hnet
  cases hposition : d.position owner.1 owner.2 with
  | none =>
    rw [hposition] at hnet hsame
    exact holdsNet_of_none (Option.map_eq_none_iff.1 hsame) hnet
  | some row =>
    rw [hposition] at hnet hsame
    obtain ⟨row', hposition', hexposure⟩ := Option.map_eq_some_iff.1 hsame
    obtain ⟨hside, hquantity, hopen⟩ : row'.side = row.side ∧ row'.quantity = row.quantity ∧
        row'.openOrderId = row.openOrderId := by simpa [PositionRow.exposure] using hexposure
    refine holdsNet_of_some hposition' ?_ (hopen.trans hnet.2)
    rw [hside, hquantity]
    exact hnet.1

/-- The refresh of the unrealized results is no disturbance, and is not refused. -/
theorem eval_refreshPositionPnlForMarketInTx (marketId markPrice : ℤ) (d : ProjectorDb) :
    ∃ d', (refreshPositionPnlForMarketInTx marketId markPrice).eval d = .ok ((), d') ∧
      Undisturbed d d' := by
  have hone : ∀ (positionId pnl : ℤ) (v : ProjectorDb), ∃ v',
      (execute (updateUnrealizedPnl positionId pnl)).eval v = .ok ((), v') ∧ Undisturbed v v' := by
    intro positionId pnl v
    cases hfind : v.positions.find? positionId with
    | none =>
      have hupdate : updateUnrealizedPnl positionId pnl v = .ok ((), []) := by
        rw [updateUnrealizedPnl, hfind]
      exact ⟨v, eval_execute hupdate, .refl v⟩
    | some row =>
      have hrow : row ∈ v.positions.rows := Table.mem_of_find? hfind
      let marked : PositionRow := { row with unrealizedPnl := pnl }
      have hupdate : updateUnrealizedPnl positionId pnl v = .ok ((), [.putPosition marked]) := by
        rw [updateUnrealizedPnl, hfind]
      have hposition : ∀ userId marketId, (v.setPosition marked).position userId marketId =
          if marked.owner = (userId, marketId) then some marked
          else v.position userId marketId :=
        position_set_version (d := v) hrow rfl rfl
      refine ⟨v.setPosition marked, eval_execute hupdate,
        fun htables => htables.setPosition hrow rfl rfl, fun userId marketId => ?_⟩
      rw [hposition]
      split
      · next howner =>
        rw [position_eq_some_iff.2 ⟨hrow, howner⟩]
        rfl
      · rfl
  have hall : ∀ (rows : List PositionRow) (v : ProjectorDb), ∃ v',
      (refreshPositionPnl markPrice rows).eval v = .ok ((), v') ∧ Undisturbed v v' := by
    intro rows
    induction rows with
    | nil => exact fun v => ⟨v, rfl, .refl v⟩
    | cons row rows ih =>
      intro v
      obtain ⟨v₁, heval₁, hsame₁⟩ := hone row.positionId
        (unrealizedPnl row.side row.averagePrice markPrice row.quantity) v
      obtain ⟨v₂, heval₂, hsame₂⟩ := ih v₁
      exact ⟨v₂, (eval_bind_ok heval₁).trans heval₂, hsame₁.trans hsame₂⟩
  obtain ⟨d', heval, hsame⟩ := hall (d.positions.rows.filter fun row => row.marketId = marketId) d
  exact ⟨d', (eval_bind_ok (eval_query _ d)).trans heval, hsame⟩

/-! ## Any sequence of fills -/

/-- Fills are projected one after the other, and other things may happen before
each of them. -/
inductive ProjectedFills (d : ProjectorDb) : List PositionFill → ProjectorDb → Prop
  | start : ProjectedFills d [] d
  | other {fills : List PositionFill} {v v' : ProjectorDb} (before : ProjectedFills d fills v)
      (same : Undisturbed v v') : ProjectedFills d fills v'
  | fill {fills : List PositionFill} {v v' : ProjectorDb} {fill : PositionFill}
      (before : ProjectedFills d fills v)
      (references : FillReferences v fill.context fill.orderId fill.fillId)
      (projected : fill.project.eval v = .ok ((), v')) : ProjectedFills d (fills ++ [fill]) v'

/-- A fill that can be projected in a sequence with these sums. -/
structure Summable (fill : PositionFill) : Prop where
  notReduceOnly : fill.context.reduceOnly = false
  positive : 0 < fill.quantity

/-- The running sums of fills fit. -/
def SumsFit (fills : List PositionFill) : Prop :=
  ∀ owner n, |(netOf owner (fills.take n)).sum| < 2 ^ 63

theorem SumsFit.of_append {fills fills' : List PositionFill} (h : SumsFit (fills ++ fills')) :
    SumsFit fills := by
  intro owner n
  have hle := h owner (min n fills.length)
  rwa [List.take_append_of_le_length (min_le_right _ _), ← List.take_take, List.take_length] at hle

/-- Positions and fills after a run. -/
theorem holdsNet_of_projected {d d' : ProjectorDb} {fills : List PositionFill}
    (htables : PositionTables d) (hflat : d.positions.rows = [])
    (hfills : ∀ fill ∈ fills, Summable fill) (hfits : SumsFit fills)
    (hrun : ProjectedFills d fills d') :
    PositionTables d' ∧ ∀ owner, HoldsNet d' owner (netOf owner fills) := by
  induction hrun with
  | start =>
    refine ⟨htables, fun owner => holdsNet_of_none (position_eq_none_iff.2 fun row hrow => ?_) rfl⟩
    rw [hflat] at hrow
    cases hrow
  | other before same ih =>
    obtain ⟨hv, hnet⟩ := ih hfills hfits
    exact ⟨same.tables hv, fun owner => same.holdsNet (hnet owner)⟩
  | @fill fills v v' fill before references projected ih =>
    obtain ⟨hv, hnet⟩ := ih (fun x hx => hfills x (List.mem_append_left _ hx)) hfits.of_append
    have hfill : Summable fill := hfills fill (List.mem_append_right _ (List.mem_singleton_self _))
    have hsum : |(netOf fill.owner fills).sum + fill.signed| < 2 ^ 63 := by
      have hlast := hfits fill.owner (fills ++ [fill]).length
      rwa [List.take_length, netOf_append_self] at hlast
    obtain ⟨w, heval, hadds⟩ := project_net _ hv references hfill.notReduceOnly hfill.positive
      (hnet fill.owner) hsum
    obtain rfl : v' = w := by
      rw [projected] at heval
      exact congrArg Prod.snd (Except.ok.inj heval)
    refine ⟨hadds.tables, fun owner => ?_⟩
    by_cases howner : fill.owner = owner
    · subst howner
      rw [netOf_append_self]
      exact hadds.net
    · rw [netOf_append_of_ne howner]
      have hother := hadds.others owner.1 owner.2 howner
      have hbefore := hnet owner
      unfold HoldsNet at hbefore ⊢
      rwa [hother]

/-- The rows of an owner are those of a signed sum. -/
structure StoresNet (d : ProjectorDb) (owner : ℤ × ℤ) (net : Net) : Prop where
  flat : net.sum = 0 → d.positions.rows.filter (fun row => row.owner = owner) = []
  open_ : net.sum ≠ 0 → ∃ row, d.positions.rows.filter (fun row => row.owner = owner) = [row] ∧
    row.side = sideOf net.sum ∧ row.quantity = |net.sum| ∧ row.openOrderId = some net.openOrderId

theorem HoldsNet.storesNet {d : ProjectorDb} {owner : ℤ × ℤ} {net : Net}
    (h : HoldsNet d owner net) : StoresNet d owner net := by
  unfold HoldsNet at h
  cases hposition : d.position owner.1 owner.2 with
  | none =>
    rw [hposition] at h
    have hnone : d.positions.rows.filter (fun row => row.owner = owner) = [] := by
      refine List.filter_eq_nil_iff.2 fun row hrow => ?_
      simpa using position_eq_none_iff.1 hposition row hrow
    exact ⟨fun _ => hnone, fun hne => absurd h hne⟩
  | some row =>
    rw [hposition] at h
    obtain ⟨hsum, hopen⟩ := h
    have hone : d.positions.rows.filter (fun row => row.owner = owner) = [row] := by
      have hindex := Indexed.filter_eq_singleton hposition
      simpa [PositionRow.indices, eq_comm] using hindex
    have hpos : 0 < row.quantity := row.check
    have hside : row.side = sideOf net.sum ∧ row.quantity = |net.sum| := by
      rw [← hsum]
      cases row.side with
      | LONG => exact ⟨(if_pos hpos).symm, (abs_of_pos hpos).symm⟩
      | SHORT =>
        have hneg : ¬0 < -row.quantity := by omega
        exact ⟨(if_neg hneg).symm, ((abs_neg _).trans (abs_of_pos hpos)).symm⟩
    refine ⟨fun hzero => ?_, fun _ => ⟨row, hone, hside.1, hside.2, hopen⟩⟩
    have habs := hside.2
    rw [hzero, abs_zero] at habs
    omega

/-- Positions equal the signed sum of fills: starting without positions, the
rows of every user in every market are those of the signed sum of the fills
projected so far, and the next fill is not refused. -/
theorem positions_are_signed_sums {d d' : ProjectorDb} {fills : List PositionFill}
    (hclosed : ∀ row ∈ d.closedPositions.rows, row.positionId ≤ d.positionIdSeq)
    (hflat : d.positions.rows = []) (hfills : ∀ fill ∈ fills, Summable fill)
    (hfits : SumsFit fills) (hrun : ProjectedFills d fills d') :
    (∀ owner, StoresNet d' owner (netOf owner fills)) ∧
      ∀ fill, Summable fill → SumsFit (fills ++ [fill]) →
        FillReferences d' fill.context fill.orderId fill.fillId →
          ∃ d'', fill.project.eval d' = .ok ((), d'') := by
  have hnone : ∀ row, row ∉ d.positions.rows := fun row => hflat ▸ List.not_mem_nil
  have htables : PositionTables d :=
    ⟨fun row hrow => absurd hrow (hnone row), hclosed, fun row hrow => absurd hrow (hnone row)⟩
  obtain ⟨hkept, hnet⟩ := holdsNet_of_projected htables hflat hfills hfits hrun
  refine ⟨fun owner => (hnet owner).storesNet, fun fill hfill hmore hrefs => ?_⟩
  have hsum : |(netOf fill.owner fills).sum + fill.signed| < 2 ^ 63 := by
    have hlast := hmore fill.owner (fills ++ [fill]).length
    rwa [List.take_length, netOf_append_self] at hlast
  obtain ⟨d'', heval, -⟩ := project_net _ hkept hrefs hfill.notReduceOnly hfill.positive
    (hnet fill.owner) hsum
  exact ⟨d'', heval⟩

/-! A user buys 5 and then sells 8 with another order. -/

def tradedContext (side : SideType) : StoredOrderContext where
  reservationId := none
  requestId := ""
  orderId := none
  userId := 1
  marketId := 7
  marketName := "SOL"
  side := side
  orderType := .LIMIT
  quantity := 8
  price := 100
  margin := 10
  reduceOnly := false

def tradedFill (side : SideType) (orderId quantity : ℤ) : PositionFill where
  context := tradedContext side
  orderId := orderId
  fillId := orderId
  price := 100
  quantity := quantity
  engineTimestampMs := orderId
  executionReason := .TRADE

def tradedOrder (orderId : ℤ) : OrderRow where
  orderId := orderId
  userId := 1
  marketId := 7
  marketName := "SOL"
  side := .LONG
  orderType := .LIMIT
  quantity := 8
  price := 100
  status := .OPEN
  margin := 10
  reduceOnly := false
  check := by decide

def fillOfOrder (orderId : ℤ) (check : 0 < orderId) : FillRow where
  fillId := orderId
  marketId := 7
  engineSequence := orderId
  makerId := 1
  takerId := 2
  makerOrderId := orderId
  takerOrderId := orderId
  price := 100
  quantity := 5
  makerPosition := .LONG
  takerPosition := .SHORT
  executedAtMs := 1
  check := ⟨by decide, by decide, check⟩

def tradedDb : ProjectorDb :=
  { ProjectorDb.empty [1] (fun _ => none)
      (Table.empty.upsert { marketId := 7, marketName := "SOL", lastTradedPrice := 100 }) with
    orders := (Table.empty.upsert (tradedOrder 1)).upsert (tradedOrder 2)
    fills := (Indexed.empty.put (fillOfOrder 1 (by decide))).put (fillOfOrder 2 (by decide)) }

def tradedFills : List PositionFill := [tradedFill .LONG 1 5, tradedFill .SHORT 2 8]

theorem sumsFit_tradedFills : SumsFit tradedFills := by
  intro owner n
  by_cases howner : (1, 7) = owner
  · subst howner
    match n with
    | 0 => decide
    | 1 => decide
    | n + 2 =>
      have hall : tradedFills.take (n + 2) = tradedFills :=
        List.take_of_length_le (Nat.le_add_left 2 n)
      rw [hall]
      decide
  · have hother : (tradedFills.take n).filter (fun fill => fill.owner = owner) = [] := by
      refine List.filter_eq_nil_iff.2 fun fill hfill => ?_
      have hmem : ∀ fill ∈ tradedFills, fill.owner = (1, 7) := by simp [tradedFills, tradedFill,
        PositionFill.owner, tradedContext]
      simpa [hmem fill (List.mem_of_mem_take hfill)] using howner
    unfold netOf
    rw [hother]
    decide

theorem summable_tradedFills : ∀ fill ∈ tradedFills, Summable fill := by
  intro fill hfill
  rcases List.mem_pair.1 hfill with rfl | rfl
  · exact ⟨rfl, by decide⟩
  · exact ⟨rfl, by decide⟩

theorem projected_tradedFills : ∃ d', ProjectedFills tradedDb tradedFills d' := by
  have hfirst : FillReferences tradedDb (tradedContext .LONG) 1 1 :=
    ⟨by decide, by decide, by decide⟩
  have hsecond : FillReferences tradedDb (tradedContext .SHORT) 2 2 :=
    ⟨by decide, by decide, by decide⟩
  have hempty : ∀ row, row ∉ tradedDb.positions.rows := fun row => List.not_mem_nil
  have hclosed : ∀ row, row ∉ tradedDb.closedPositions.rows := fun row => List.not_mem_nil
  have htables : PositionTables tradedDb :=
    ⟨fun row hrow => absurd hrow (hempty row), fun row hrow => absurd hrow (hclosed row),
      fun row hrow => absurd hrow (hempty row)⟩
  have hnet : HoldsNet tradedDb (1, 7) ⟨0, 0⟩ := holdsNet_of_none rfl rfl
  obtain ⟨d₁, heval₁, hadds₁⟩ := project_net (tradedFill .LONG 1 5) htables hfirst rfl
    (by decide) hnet (by decide)
  have hkept := hsecond.mono hadds₁.references
  obtain ⟨d', heval₂, -⟩ := project_net (tradedFill .SHORT 2 8) hadds₁.tables hkept rfl
    (by decide) hadds₁.net (by decide)
  exact ⟨d', .fill (.fill .start hfirst heval₁) hkept heval₂⟩

/-- After the sale the user is `SHORT` 3, opened by the order of the sale. -/
theorem positions_are_signed_sums_reversed :
    ∃ d', ProjectedFills tradedDb tradedFills d' ∧
      ∃ row, d'.positions.rows.filter (fun row => row.owner = (1, 7)) = [row] ∧
        row.side = .SHORT ∧ row.quantity = 3 ∧ row.openOrderId = some 2 := by
  obtain ⟨d', hrun⟩ := projected_tradedFills
  have hsums := positions_are_signed_sums (by decide) rfl summable_tradedFills sumsFit_tradedFills
    hrun
  have hnet : netOf (1, 7) tradedFills = ⟨-3, 2⟩ := by decide
  obtain ⟨row, hrows, hside, hquantity, hopen⟩ := (hsums.1 (1, 7)).open_ (by decide)
  rw [hnet] at hside hquantity hopen
  exact ⟨d', hrun, row, hrows, hside, hquantity, hopen⟩

end Projector
