import ExchangeServer.Projector.OrderSteps
import ExchangeServer.Projector.SignedPositions

/-!
# The sides of a liquidation trade

A participant of a liquidation whose order has no context is projected with a
synthetic one. Its side comes from the side of the liquidated position when the
event names it, and then the stored side of the other participant is not looked
at. Without it the side is opposite to the other's.

## Main results

- `opposite_sides_iff`: when the two sides of a trade are opposite
- `synthetic_side_equals_stored`: they need not be
-/

namespace Projector

open Protocol Relational Transactional Program

@[simp] theorem oppositeDbSide_ne (side : SideType) : oppositeDbSide side ≠ side := by
  cases side <;> decide

@[simp] theorem oppositeSide_ne (side : Side) : oppositeSide side ≠ sideToDb side := by
  cases side <;> decide

/-- The order of this participant closes the liquidated position: the user is the one
that is liquidated or, when the event names none, the taker. -/
def Closes (event : TradeExecuted) (participant : TradeParticipant) : Prop :=
  match event.liquidatedUserId with
  | some userId => participant.userId event = userId
  | none => participant = .taker

instance (event : TradeExecuted) (participant : TradeParticipant) :
    Decidable (Closes event participant) := by
  unfold Closes
  split <;> infer_instance

theorem closes_of_some {event : TradeExecuted} {userId : ℤ}
    (h : event.liquidatedUserId = some userId) (participant : TradeParticipant) :
    Closes event participant ↔ participant.userId event = userId := by
  unfold Closes
  rw [h]

theorem closes_of_none {event : TradeExecuted} (h : event.liquidatedUserId = none)
    (participant : TradeParticipant) : Closes event participant ↔ participant = .taker := by
  unfold Closes
  rw [h]

/-- What the stored sides and the event have to say for the sides of the trade to be
opposite, in an event that names the side of the liquidated position. A stored side
is that side when the other participant closes the position, and the opposite one
when not; without a context, one participant closes it and one does not. -/
def SidesAgree (event : TradeExecuted) (positionSide : Side) :
    Option SideType → Option SideType → Prop
  | some _, some _ => True
  | some makerSide, none => makerSide = sideToDb positionSide ↔ Closes event .taker
  | none, some takerSide => takerSide = sideToDb positionSide ↔ Closes event .maker
  | none, none => Closes event .maker ↔ ¬Closes event .taker

/-! ## The side of a synthetic context -/

/-- The other side is looked at only if the event does not name the position's. -/
theorem syntheticLiquidationSide_of_counterpart {event : TradeExecuted}
    (h : event.positionSide = none) (participant : TradeParticipant) (counterpartSide : SideType) :
    syntheticLiquidationSide event participant (some counterpartSide) =
      some (oppositeDbSide counterpartSide) := by
  unfold syntheticLiquidationSide
  rw [h]
  rfl

theorem syntheticLiquidationSide_of_position {event : TradeExecuted} {positionSide : Side}
    (h : event.positionSide = some positionSide) (participant : TradeParticipant)
    (counterpartSide : Option SideType) :
    syntheticLiquidationSide event participant counterpartSide =
      some (if Closes event participant then oppositeSide positionSide
        else sideToDb positionSide) := by
  unfold syntheticLiquidationSide
  rw [h]
  cases hliquidated : event.liquidatedUserId with
  | some userId =>
    rw [if_congr (closes_of_some hliquidated participant) rfl rfl]
  | none =>
    rw [if_congr (closes_of_none hliquidated participant) rfl rfl]
    cases participant <;> rfl

/-- The side of a participant that has no context, or the stored side. -/
theorem orSynthetic_side {stored : Option StoredOrderContext} {event : TradeExecuted}
    {participant : TradeParticipant} {marketName : String} {counterpartSide : Option SideType}
    {context : StoredOrderContext} {d d' : ProjectorDb}
    (h : (orSynthetic stored event participant marketName counterpartSide).eval d =
      .ok (context, d')) :
    some context.side =
      (stored.map StoredOrderContext.side).or
        (syntheticLiquidationSide event participant counterpartSide) := by
  cases stored with
  | some stored =>
    cases h
    rfl
  | none =>
    unfold orSynthetic syntheticLiquidationContext at h
    simp only at h
    split at h
    · cases h
    · next side hside =>
      cases h
      rw [hside]
      rfl

/-- Two sides are opposite if each is stored, or found from the event and the other. -/
theorem sides_ne_iff {event : TradeExecuted} {makerSide takerSide : Option SideType}
    {maker taker : SideType} (hsynthetic : makerSide = none ∨ takerSide = none)
    (hmaker : some maker = makerSide.or (syntheticLiquidationSide event .maker takerSide))
    (htaker : some taker = takerSide.or (syntheticLiquidationSide event .taker makerSide)) :
    maker ≠ taker ↔ ∀ positionSide ∈ event.positionSide,
      SidesAgree event positionSide makerSide takerSide := by
  cases hposition : event.positionSide with
  | none =>
    -- Without a position the counterpart's side decides, or the two defaults.
    refine iff_of_true ?_ nofun
    match makerSide, takerSide with
    | some makerSide, some takerSide => exact absurd hsynthetic (by simp)
    | some makerSide, none =>
      rw [syntheticLiquidationSide_of_counterpart hposition] at htaker
      obtain rfl : maker = makerSide := Option.some.inj hmaker
      obtain rfl : taker = oppositeDbSide maker := Option.some.inj htaker
      exact (oppositeDbSide_ne maker).symm
    | none, some takerSide =>
      rw [syntheticLiquidationSide_of_counterpart hposition] at hmaker
      obtain rfl : taker = takerSide := Option.some.inj htaker
      obtain rfl : maker = oppositeDbSide taker := Option.some.inj hmaker
      exact oppositeDbSide_ne taker
    | none, none =>
      unfold syntheticLiquidationSide at hmaker htaker
      rw [hposition] at hmaker htaker
      obtain rfl : maker = .LONG := Option.some.inj hmaker
      obtain rfl : taker = .SHORT := Option.some.inj htaker
      decide
  | some positionSide =>
    rw [syntheticLiquidationSide_of_position hposition] at hmaker htaker
    have hnamed : (∀ side ∈ some positionSide, SidesAgree event side makerSide takerSide) ↔
        SidesAgree event positionSide makerSide takerSide := by simp
    rw [hnamed]
    match makerSide, takerSide with
    | some makerSide, some takerSide => exact absurd hsynthetic (by simp)
    | some makerSide, none =>
      obtain rfl : maker = makerSide := Option.some.inj hmaker
      obtain rfl := Option.some.inj htaker
      show _ ↔ (maker = sideToDb positionSide ↔ Closes event .taker)
      split
      · next hcloses => cases maker <;> cases positionSide <;> simp [hcloses, oppositeSide, sideToDb]
      · next hcloses => simp [hcloses]
    | none, some takerSide =>
      obtain rfl : taker = takerSide := Option.some.inj htaker
      obtain rfl := Option.some.inj hmaker
      show _ ↔ (taker = sideToDb positionSide ↔ Closes event .maker)
      split
      · next hcloses => cases taker <;> cases positionSide <;> simp [hcloses, oppositeSide, sideToDb]
      · next hcloses => simp [hcloses, eq_comm]
    | none, none =>
      obtain rfl := Option.some.inj hmaker
      obtain rfl := Option.some.inj htaker
      -- The two sides differ exactly when one of the two users closes.
      show _ ↔ (Closes event .maker ↔ ¬Closes event .taker)
      by_cases hmakerCloses : Closes event .maker <;>
        by_cases htakerCloses : Closes event .taker <;>
        simp [hmakerCloses, htakerCloses, eq_comm]

/-! ## Trades -/

/-- The sides of a trade with a synthetic context are opposite exactly when the event
does not name the side of the liquidated position, or the stored sides and the users
agree with it. -/
theorem opposite_sides_iff {event : TradeExecuted} {maker taker : StoredOrderContext}
    {d d' : ProjectorDb} (h : (loadTradeContextsInTx event).eval d = .ok ((maker, taker), d'))
    (hsynthetic : d.storedContext event.makerReservationId event.makerOrderId = none ∨
      d.storedContext event.takerReservationId event.takerOrderId = none) :
    maker.side ≠ taker.side ↔ ∀ positionSide ∈ event.positionSide,
      SidesAgree event positionSide
        ((d.storedContext event.makerReservationId event.makerOrderId).map StoredOrderContext.side)
        ((d.storedContext event.takerReservationId event.takerOrderId).map
          StoredOrderContext.side) := by
  unfold loadTradeContextsInTx at h
  rw [eval_bind_ok (eval_maybeLoadContextForOrderInTx _ _ d),
    eval_bind_ok (eval_maybeLoadContextForOrderInTx _ _ d)] at h
  split at h
  · obtain ⟨marketName, d₁, -, h⟩ := eval_bind_eq_ok h
    obtain ⟨makerContext, d₂, hmaker, h⟩ := eval_bind_eq_ok h
    obtain ⟨takerContext, d₃, htaker, h⟩ := eval_bind_eq_ok h
    cases h
    refine sides_ne_iff ?_ (orSynthetic_side hmaker) (orSynthetic_side htaker)
    exact hsynthetic.imp (fun hnone => by rw [hnone]; rfl) (fun hnone => by rw [hnone]; rfl)
  · -- A plain trade has both contexts.
    obtain ⟨makerContext, d₁, hmaker, h⟩ := eval_bind_eq_ok h
    obtain ⟨takerContext, d₂, htaker, h⟩ := eval_bind_eq_ok h
    rw [orMissing_ok hmaker, orMissing_ok htaker] at hsynthetic
    rcases hsynthetic with hnone | hnone <;> cases hnone

/-! ### The order of a liquidation rests in the book

A `LONG` position is liquidated by an order of the engine, which rests in the book
until user 1 buys. The event does not name the liquidated user, so the maker counts
as the one that does not close the position. -/

def restingLiquidation (positionSide : Option Side) (liquidatedUserId : Option ℤ) :
    TradeExecuted where
  engineEventId := some "event-3"
  engineSequence := 3
  engineTimestampMs := 3
  sourceInputId := none
  sourceInputOffset := none
  fillId := 3
  marketId := 7
  price := 95
  quantity := 5
  makerOrderId := 9
  takerOrderId := 1
  makerUserId := 2
  takerUserId := 1
  makerReservationId := none
  takerReservationId := none
  executionReason := .LIQUIDATION
  liquidationId := some "liq-1"
  liquidatedUserId := liquidatedUserId
  positionSide := positionSide
  liquidationFee := none
  feeDeltas := []
  settlements := []

/-- The sides of the trade as they are loaded. -/
def loadedSides (event : TradeExecuted) : Option (SideType × SideType) :=
  match (loadTradeContextsInTx event).eval tradedDb with
  | .ok ((maker, taker), _) => some (maker.side, taker.side)
  | .error _ => none

example : loadedSides (restingLiquidation none none) = some (.SHORT, .LONG) := by decide

example : loadedSides (restingLiquidation (some .LONG) (some 2)) = some (.SHORT, .LONG) := by decide

/-- Both sides are `LONG` without the user that is liquidated. -/
theorem synthetic_side_equals_stored :
    tradedDb.storedContext none 9 = none ∧
      ∃ maker taker d',
        (loadTradeContextsInTx (restingLiquidation (some .LONG) none)).eval tradedDb =
          .ok ((maker, taker), d') ∧ maker.side = .LONG ∧ taker.side = .LONG :=
  ⟨by decide, _, _, _, rfl, rfl, rfl⟩

theorem opposite_sides_iff_named :
    ∃ maker taker d',
      (loadTradeContextsInTx (restingLiquidation (some .LONG) (some 2))).eval tradedDb =
        .ok ((maker, taker), d') ∧ maker.side ≠ taker.side := by
  obtain ⟨maker, taker, d', hload⟩ : ∃ maker taker d',
      (loadTradeContextsInTx (restingLiquidation (some .LONG) (some 2))).eval tradedDb =
        .ok ((maker, taker), d') := ⟨_, _, _, rfl⟩
  refine ⟨maker, taker, d', hload, (opposite_sides_iff hload (.inl (by decide))).2 ?_⟩
  -- The order of user 1 is `LONG`, and user 1 does not close the position.
  intro positionSide hposition
  obtain rfl : .LONG = positionSide := Option.some.inj hposition
  show SidesAgree _ _ none (some .LONG)
  unfold SidesAgree
  decide

end Projector
