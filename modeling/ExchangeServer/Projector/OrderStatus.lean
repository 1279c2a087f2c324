import ExchangeServer.Foundation.Machine
import ExchangeServer.Projector.OrderSteps
import ExchangeServer.Projector.UnrealizedPnl

/-!
# One status in two tables

The status of an order stands in its context and, once the order has an event,
in the row of the order. Openings, trades, cancellations and replies write both,
each by a list of cases of its own. The lists agree except that an opening makes
a `PARTIAL` row `OPEN` again and leaves the context as it is.

The argument is one invariant, kept by every transaction: the two statuses are
the same and follow from what has been filled, or say `CANCELLED`. A trade
writes an order several times; what holds in between is a weaker statement.

## Main results

- `Story.step`: a transaction that does not open a partially filled order keeps
  the invariant
- `one_story`: the statuses after every run of such transactions
-/

namespace Projector

open Protocol Relational Transactional Program

/-! ## Statuses -/

def ProjectorDb.orderStatus (d : ProjectorDb) (orderId : ℤ) : Option OrderStatus :=
  (d.orders.find? orderId).map OrderRow.status

/-- The status of an order that is not cancelled, by what has been filled of it. -/
def statusOf (quantity filled : ℤ) : OrderStatus :=
  if filled = 0 then .OPEN else orderStatusAfterFill quantity filled

theorem statusOf_zero (quantity : ℤ) : statusOf quantity 0 = .OPEN := if_pos rfl

theorem statusOf_of_pos {filled : ℤ} (h : 0 < filled) (quantity : ℤ) :
    statusOf quantity filled = orderStatusAfterFill quantity filled := if_neg h.ne'

theorem orderStatusAfterFill_cases (quantity filled : ℤ) :
    orderStatusAfterFill quantity filled = .FILLED ∧ quantity ≤ filled ∨
      orderStatusAfterFill quantity filled = .PARTIAL ∧ filled < quantity := by
  unfold orderStatusAfterFill
  by_cases h : quantity ≤ filled
  · exact .inl ⟨if_pos h, h⟩
  · exact .inr ⟨if_neg h, not_le.1 h⟩

theorem statusOf_cases (quantity filled : ℤ) :
    statusOf quantity filled = .OPEN ∧ filled = 0 ∨
      statusOf quantity filled = .FILLED ∧ quantity ≤ filled ∨
        statusOf quantity filled = .PARTIAL ∧ filled < quantity := by
  unfold statusOf
  by_cases h : filled = 0
  · exact .inl ⟨if_pos h, h⟩
  · rw [if_neg h]
    exact .inr (orderStatusAfterFill_cases quantity filled)

/-- The status in a context against the one in the row of the order, if there is
one, and what has been filled. -/
def Tells (quantity filled : ℤ) (context : ContextStatus) : Option OrderStatus → Prop
  | none => context.opened = .OPEN ∧ filled = 0
  | some status => context = contextStatusForOrderStatus status ∧
      (status = .CANCELLED ∨ status = statusOf quantity filled)

section Tells

variable {quantity filled : ℤ} {context : ContextStatus} {status : Option OrderStatus}

/-- A status of a context that goes with a row. -/
theorem Tells.known {s : OrderStatus} (h : Tells quantity filled context (some s)) :
    context = .OPEN ∨ context = .PARTIAL ∨ context = .FILLED ∨ context = .CANCELLED := by
  obtain ⟨rfl, rfl | rfl⟩ := h
  · exact .inr (.inr (.inr rfl))
  · rcases statusOf_cases quantity filled with h | h | h <;> rw [h.1] <;> simp [contextStatusForOrderStatus]

theorem Tells.cancelled_iff (h : Tells quantity filled context status) :
    context = .CANCELLED ↔ status = some .CANCELLED := by
  cases status with
  | none =>
    refine iff_of_false (fun hc => ?_) nofun
    rw [hc] at h
    exact absurd h.1 (by decide)
  | some s =>
    rw [h.1]
    cases s <;> decide

theorem Tells.accepted (h : Tells quantity filled context status) :
    Tells quantity filled context.accepted status := by
  cases status with
  | none => exact ⟨by cases context <;> first | rfl | exact absurd h.1 (by decide), h.2⟩
  | some s =>
    have hsame : context.accepted = context := by
      rcases h.known with rfl | rfl | rfl | rfl <;> rfl
    rw [hsame]
    exact h

theorem Tells.rejected (h : Tells quantity filled context status) :
    Tells quantity filled context.rejected status := by
  cases status with
  | none => exact ⟨by cases context <;> first | rfl | exact absurd h.1 (by decide), h.2⟩
  | some s =>
    have hsame : context.rejected = context := by
      rcases h.known with rfl | rfl | rfl | rfl <;> rfl
    rw [hsame]
    exact h

/-- An opening goes with both statuses, unless the order is partially filled. -/
theorem Tells.opened (h : Tells quantity filled context status) (hnotPart : status ≠ some .PARTIAL) :
    Tells quantity filled context.opened (some ((status.map OrderStatus.opened).getD .OPEN)) := by
  cases status with
  | none =>
    obtain ⟨hopened, rfl⟩ := h
    exact ⟨hopened, .inr (statusOf_zero quantity).symm⟩
  | some s =>
    obtain ⟨rfl, hs⟩ := h
    have hsame : s.opened = s := by
      rcases hs with rfl | rfl
      · rfl
      · rcases statusOf_cases quantity filled with hs | hs | hs
        · rw [hs.1]
          rfl
        · rw [hs.1]
          rfl
        · exact absurd (congrArg some hs.1) hnotPart
    show (contextStatusForOrderStatus s).opened = contextStatusForOrderStatus s.opened ∧
      (s.opened = .CANCELLED ∨ s.opened = statusOf quantity filled)
    rw [hsame]
    refine ⟨?_, hs⟩
    cases s <;> first | rfl | simp [OrderStatus.opened] at hsame

theorem Tells.cancelled (quantity filled : ℤ) :
    Tells quantity filled .CANCELLED (some .CANCELLED) := ⟨rfl, .inl rfl⟩

end Tells

/-! ## The invariant -/

/-- Both tables tell the same of an order. -/
structure Story (reservationId : String) (orderId quantity : ℤ) (d : ProjectorDb) : Prop where
  own : Own reservationId orderId d
  stored : ∃ context, d.orderContexts.find? reservationId = some context ∧
    context.quantity = quantity ∧ (d.orderStatus orderId ≠ none → context.orderId = some orderId) ∧
    Tells quantity (d.filledQuantity orderId) context.status (d.orderStatus orderId)

/-- The story goes on: with more filled, and cancelled only if it was, or by the
transaction. -/
structure Continues (reservationId : String) (orderId quantity more : ℤ) (cancels : Prop)
    (d d' : ProjectorDb) : Prop where
  story : Story reservationId orderId quantity d'
  filled : d'.filledQuantity orderId = d.filledQuantity orderId + more
  nonneg : 0 ≤ more
  cancelled : d.orderStatus orderId = some .CANCELLED → d'.orderStatus orderId = some .CANCELLED
  cancels : d'.orderStatus orderId = some .CANCELLED →
    d.orderStatus orderId = some .CANCELLED ∨ cancels

section Order

variable {reservationId : String} {orderId quantity : ℤ} {d d' : ProjectorDb}

theorem Keeps.orderStatus (h : Keeps reservationId orderId d d') :
    d'.orderStatus orderId = d.orderStatus orderId := by
  rw [ProjectorDb.orderStatus, h.order, ProjectorDb.orderStatus]

theorem Story.keeps (hstory : Story reservationId orderId quantity d)
    (h : Keeps reservationId orderId d d') : Story reservationId orderId quantity d' := by
  refine ⟨h.own hstory.own, ?_⟩
  rw [h.context, h.orderStatus, h.filled]
  exact hstory.stored

theorem Story.continues (hstory : Story reservationId orderId quantity d)
    (h : Keeps reservationId orderId d d') (cancels : Prop) :
    Continues reservationId orderId quantity 0 cancels d d' where
  story := hstory.keeps h
  filled := by rw [h.filled, add_zero]
  nonneg := le_refl 0
  cancelled hc := h.orderStatus.trans hc
  cancels hc := .inl (h.orderStatus.symm.trans hc)

theorem Continues.keeps {more : ℤ} {cancels : Prop} {v : ProjectorDb}
    (h : Continues reservationId orderId quantity more cancels d v)
    (hkeeps : Keeps reservationId orderId v d') :
    Continues reservationId orderId quantity more cancels d d' where
  story := h.story.keeps hkeeps
  filled := hkeeps.filled.trans h.filled
  nonneg := h.nonneg
  cancelled hc := hkeeps.orderStatus.trans (h.cancelled hc)
  cancels hc := h.cancels (hkeeps.orderStatus.symm.trans hc)

/-- The number in the context of the order is the order's. -/
theorem Own.orderId_of_mem (hown : Own reservationId orderId d) {context : OrderContextRow}
    (hfind : d.orderContexts.find? reservationId = some context) {x : ℤ} (hx : x ∈ context.orderId) :
    x = orderId :=
  (hown reservationId context hfind x hx).2 rfl

theorem Own.getD_orderId (hown : Own reservationId orderId d) {context : OrderContextRow}
    (hfind : d.orderContexts.find? reservationId = some context) :
    context.orderId.getD orderId = orderId := by
  cases hid : context.orderId with
  | none => rfl
  | some x => exact hown.orderId_of_mem hfind hid

/-- A change of the context alone. -/
theorem Story.mapContexts {f : String → OrderContextRow → OrderContextRow}
    (hstory : Story reservationId orderId quantity d) (h : MapsContexts d d' f)
    (hown : Own reservationId orderId d')
    (hquantity : ∀ context, d.orderContexts.find? reservationId = some context →
      (f reservationId context).quantity = context.quantity)
    (horder : ∀ context, context.orderId = some orderId →
      (f reservationId context).orderId = some orderId)
    (htells : ∀ context, Tells quantity (d.filledQuantity orderId) context.status
        (d.orderStatus orderId) →
      Tells quantity (d.filledQuantity orderId) (f reservationId context).status
        (d.orderStatus orderId)) (cancels : Prop) :
    Continues reservationId orderId quantity 0 cancels d d' := by
  have hstatus : d'.orderStatus orderId = d.orderStatus orderId := by
    rw [ProjectorDb.orderStatus, h.orders, ProjectorDb.orderStatus]
  obtain ⟨context, hfind, hq, hknown, htold⟩ := hstory.stored
  refine ⟨⟨hown, f reservationId context, ?_, (hquantity context hfind).trans hq, ?_, ?_⟩, ?_,
    le_refl 0, ?_, ?_⟩
  · rw [h.contexts, hfind, Option.map_some]
  · rw [hstatus]
    exact fun hrow => horder context (hknown hrow)
  · rw [hstatus, filledQuantity_of_fills h.fills]
    exact htells context htold
  · rw [filledQuantity_of_fills h.fills, add_zero]
  · exact hstatus.trans
  · exact fun hc => .inl (hstatus.symm.trans hc)

/-! ## Inputs, replies and offsets -/

/-- What ends a transaction. -/
theorem keeps_saveQueueOffset {topic : String} {partition nextOffset : ℤ}
    (h : (saveQueueOffset topic partition nextOffset).eval d = .ok ((), d')) :
    Keeps reservationId orderId d d' := by
  obtain ⟨_, v, hsave, hcommit⟩ := eval_bind_eq_ok h
  cases hcommit
  exact .of_same (.of_writes (inArea_saveQueueOffsetInTx _ _ _) (by decide) hsave) _ _

/-- An input stores a context without a status, or leaves the status. -/
theorem Story.upsertOrderContext {k requestId : String} {userId marketId : ℤ} {marketName : String}
    {side : SideType} {orderType : DbOrderType} {q price : ℤ} {reduceOnly : Bool}
    (hstory : Story reservationId orderId quantity d) (hq : k = reservationId → q = quantity)
    (h : (execute (upsertOrderContext k requestId userId marketId marketName side orderType q price
      reduceOnly)).eval d = .ok ((), d')) (cancels : Prop) :
    Continues reservationId orderId quantity 0 cancels d d' := by
  obtain ⟨row, hkey, hquantity, hid, hstatus, hcontexts, horders, hfills⟩ := upsertOrderContext_ok h
  have hsame : d'.orderStatus orderId = d.orderStatus orderId := by
    rw [ProjectorDb.orderStatus, horders, ProjectorDb.orderStatus]
  have hfilled := filledQuantity_of_fills hfills orderId
  have hown : Own reservationId orderId d' := by
    intro j stored hstored x hx
    rw [hcontexts] at hstored
    split at hstored
    · next hj =>
      cases hstored
      rw [hid] at hx
      obtain ⟨old, hold, hx⟩ := Option.bind_eq_some_iff.1 hx
      exact hj ▸ hstory.own k old hold x hx
    · exact hstory.own j stored hstored x hx
  obtain ⟨context, hfind, hcontext, hknown, htold⟩ := hstory.stored
  refine ⟨⟨hown, ?_⟩, by rw [hfilled, add_zero], le_refl 0, hsame.trans,
    fun hc => .inl (hsame.symm.trans hc)⟩
  rw [hsame, hfilled, hcontexts]
  by_cases hk : reservationId = k
  · rw [if_pos hk]
    rw [← hk, hfind] at hid hstatus
    refine ⟨row, rfl, hquantity.trans (hq hk.symm), fun hrow => hid.trans (hknown hrow), ?_⟩
    rw [hstatus]
    exact htold
  · rw [if_neg hk]
    exact ⟨context, hfind, hcontext, hknown, htold⟩

/-- A reply that accepts an order. -/
theorem Story.markAccepted {k : String} {x : ℤ} {topic : String} {partition nextOffset : ℤ}
    (hstory : Story reservationId orderId quantity d) (hnames : x = orderId ↔ k = reservationId)
    (h : (markAccepted k x topic partition nextOffset).eval d = .ok ((), d')) (cancels : Prop) :
    Continues reservationId orderId quantity 0 cancels d d' := by
  obtain ⟨_, v, hload, hrest⟩ := eval_bind_eq_ok h
  obtain rfl : v = d := eq_of_inArea (fun area => inArea_loadContextByReservationInTx area _) hload
  obtain ⟨_, w, hupdate, hoffset⟩ := eval_bind_eq_ok hrest
  have hmaps := updateContext_ok hupdate fun _ => rfl
  refine (hstory.mapContexts hmaps (hmaps.own hstory.own ?_) ?_ ?_ ?_ cancels).keeps
    (keeps_saveQueueOffset hoffset)
  · intro j row hrow y hy
    split at hy
    · next hj =>
      cases hy
      exact .inr (hj ▸ hnames)
    · exact .inl hy
  · intro context hfind
    split <;> rfl
  · intro context hid
    split
    · next hk => exact congrArg some (hnames.2 hk.symm)
    · exact hid
  · intro context htold
    split
    · exact htold.accepted
    · exact htold

/-- A reply that rejects an order. -/
theorem Story.markRejected {k reason : String} (hstory : Story reservationId orderId quantity d)
    (h : (markRejected k reason).eval d = .ok ((), d')) (cancels : Prop) :
    Continues reservationId orderId quantity 0 cancels d d' := by
  obtain ⟨_, v, hload, hupdate⟩ := eval_bind_eq_ok h
  obtain rfl : v = d := eq_of_inArea (fun area => inArea_loadContextByReservationInTx area _) hload
  have hmaps := updateContext_ok hupdate fun _ => rfl
  refine hstory.mapContexts hmaps (hmaps.own hstory.own ?_) ?_ ?_ ?_ cancels
  · intro j row hrow y hy
    refine .inl ?_
    split at hy <;> exact hy
  · intro context hfind
    split <;> rfl
  · intro context hid
    split <;> exact hid
  · intro context htold
    split
    · exact htold.rejected
    · exact htold

/-! ## Openings and cancellations -/

/-- Both rows of an order get a new status. -/
theorem Story.setBoth {v : ProjectorDb} {change : OrderContextRow → OrderContextRow}
    {row : OrderRow} {s : OrderStatus}
    (hstory : Story reservationId orderId quantity d)
    (hmaps : MapsContexts d v fun k row => if k = reservationId then change row else row)
    (hsets : SetsOrder v d' orderId (some row)) (hrow : row.status = s)
    (hchange : ∀ context, d.orderContexts.find? reservationId = some context →
      (change context).quantity = context.quantity ∧ (change context).orderId = some orderId)
    (htells : ∀ context, d.orderContexts.find? reservationId = some context →
      Tells quantity (d.filledQuantity orderId) context.status (d.orderStatus orderId) →
      Tells quantity (d.filledQuantity orderId) (change context).status (some s))
    {cancels : Prop} (hkept : d.orderStatus orderId = some .CANCELLED → s = .CANCELLED)
    (hcancels : s = .CANCELLED → d.orderStatus orderId = some .CANCELLED ∨ cancels) :
    Continues reservationId orderId quantity 0 cancels d d' := by
  have hown : Own reservationId orderId v := by
    refine hmaps.own hstory.own fun k context hfind x hx => ?_
    split at hx
    · next hk =>
      rw [(hchange context (hk ▸ hfind)).2] at hx
      exact .inr (iff_of_true (Option.some.inj hx).symm hk)
    · exact .inl hx
  have hstatus : d'.orderStatus orderId = some s := by
    rw [ProjectorDb.orderStatus, hsets.order, if_pos rfl, Option.map_some, hrow]
  have hfilled := filledQuantity_of_fills (hsets.fills.trans hmaps.fills) orderId
  obtain ⟨context, hfind, hq, hknown, htold⟩ := hstory.stored
  refine ⟨⟨hsets.own hown, change context, ?_, (hchange context hfind).1.trans hq, ?_, ?_⟩, ?_,
    le_refl 0, ?_, ?_⟩
  · rw [hsets.contexts, hmaps.contexts, hfind, Option.map_some, if_pos rfl]
  · exact fun _ => (hchange context hfind).2
  · rw [hstatus, hfilled]
    exact htells context hfind htold
  · rw [hfilled, add_zero]
  · intro hc
    rw [hstatus, hkept hc]
  · intro hc
    rw [hstatus] at hc
    exact hcancels (Option.some.inj hc)

/-- A transaction that changes the rows of another order. -/
theorem keeps_setBoth {v : ProjectorDb} {k : String} {x : ℤ}
    {change : OrderContextRow → OrderContextRow} {row : Option OrderRow}
    (hkey : k ≠ reservationId) (hx : x ≠ orderId)
    (hmaps : MapsContexts d v fun j row => if j = k then change row else row)
    (hsets : SetsOrder v d' x row)
    (hchange : ∀ context, d.orderContexts.find? k = some context →
      ∀ y ∈ (change context).orderId, y ∈ context.orderId ∨ y = x) :
    Keeps reservationId orderId d d' := by
  refine (hmaps.keeps ?_ fun j context hfind y hy => ?_).trans (hsets.keeps hx reservationId)
  · exact fun context _ => if_neg hkey.symm
  · split at hy
    · next hj =>
      refine (hchange context (hj ▸ hfind) y hy).imp_right fun hyx => ?_
      exact iff_of_false (hyx.trans_ne hx) (hj.trans_ne hkey)
    · exact .inl hy

theorem Story.projectOrderOpened {event : OrderOpened} {topic : String} {partition nextOffset : ℤ}
    (hstory : Story reservationId orderId quantity d)
    (hnames : event.orderId = orderId ↔ event.reservationId = reservationId)
    (hnotPart : event.orderId = orderId → d.orderStatus orderId ≠ some .PARTIAL)
    (h : (projectOrderOpened event topic partition nextOffset).eval d = .ok ((), d'))
    (cancels : Prop) : Continues reservationId orderId quantity 0 cancels d d' := by
  obtain ⟨context, v, hload, hrest⟩ := eval_bind_eq_ok h
  obtain rfl : v = d := eq_of_inArea (fun area => inArea_loadContextByReservationInTx area _) hload
  obtain ⟨_, v₁, hupdate, hrest'⟩ := eval_bind_eq_ok hrest
  obtain ⟨_, v₂, hupsert, hoffset⟩ := eval_bind_eq_ok hrest'
  have hmaps := updateContext_ok hupdate fun _ => rfl
  obtain ⟨check, hsets⟩ := upsertOrder_ok hupsert (by rintro stored row ⟨⟩; rfl)
  by_cases hid : event.orderId = orderId
  · -- The row of the order is set to what an opening makes of it, if it is there.
    obtain rfl := hnames.1 hid
    subst hid
    refine (hstory.setBoth hmaps hsets (s := (v.orderStatus event.orderId |>.map
      OrderStatus.opened).getD .OPEN) ?_ ?_ ?_ ?_ ?_).keeps (keeps_saveQueueOffset hoffset)
    · rw [ProjectorDb.orderStatus, ← hmaps.orders]
      cases v₁.orders.find? event.orderId <;> rfl
    · exact fun context _ => ⟨rfl, rfl⟩
    · exact fun context _ htold => htold.opened (hnotPart rfl)
    · intro hc
      rw [hc]
      rfl
    · intro hc
      refine .inl ?_
      cases hs : v.orderStatus event.orderId with
      | none =>
        rw [hs] at hc
        cases hc
      | some s =>
        rw [hs] at hc
        cases s <;> first | rfl | cases hc
  · refine hstory.continues (Keeps.trans ?_ (keeps_saveQueueOffset hoffset)) cancels
    refine keeps_setBoth (mt hnames.2 hid) hid hmaps hsets fun context _ y hy => .inr ?_
    exact (Option.some.inj hy).symm

theorem Story.projectOrderCancelled {event : OrderCancelled} {topic : String}
    {partition nextOffset : ℤ} (hstory : Story reservationId orderId quantity d)
    (hnames : event.orderId = orderId ↔ event.reservationId = reservationId)
    (h : (projectOrderCancelled event topic partition nextOffset).eval d = .ok ((), d')) :
    Continues reservationId orderId quantity 0 (event.orderId = orderId) d d' := by
  obtain ⟨context, v, hload, hrest⟩ := eval_bind_eq_ok h
  obtain rfl : v = d := eq_of_inArea (fun area => inArea_loadContextForOrderInTx area _ _) hload
  obtain ⟨_, v₁, hupdate, hrest'⟩ := eval_bind_eq_ok hrest
  obtain ⟨_, v₂, hupsert, hoffset⟩ := eval_bind_eq_ok hrest'
  have hmaps := updateContext_ok hupdate fun _ => rfl
  obtain ⟨check, hsets⟩ := upsertOrder_ok hupsert (by rintro stored row ⟨⟩; rfl)
  by_cases hid : event.orderId = orderId
  · obtain rfl := hnames.1 hid
    subst hid
    refine (hstory.setBoth hmaps hsets (s := .CANCELLED) ?_ ?_ ?_ ?_ ?_).keeps
      (keeps_saveQueueOffset hoffset)
    · cases v₁.orders.find? event.orderId <;> rfl
    · exact fun context hfind => ⟨rfl, congrArg some (hstory.own.getD_orderId hfind)⟩
    · exact fun context _ _ => .cancelled _ _
    · exact fun _ => rfl
    · exact fun _ => .inr rfl
  · refine hstory.continues (Keeps.trans ?_ (keeps_saveQueueOffset hoffset)) _
    refine keeps_setBoth (mt hnames.2 hid) hid hmaps hsets fun context _ y hy => ?_
    rcases Option.getD_eq_iff.1 (Option.some.inj hy) with hold | ⟨-, hnew⟩
    · exact .inl hold
    · exact .inr hnew.symm

/-! ## Trades -/

/-- The context with which an order of a trade is projected: the reservation's
exactly when the order is the one that is followed. -/
structure Follows (reservationId : String) (orderId quantity x : ℤ)
    (context : StoredOrderContext) : Prop where
  reservation : x = orderId ↔ context.reservationId = some reservationId
  quantity : x = orderId → context.quantity = quantity

/-- What holds within the projection of a trade: the order is cancelled in both
tables or in none, and maybe stored already and known to its context. -/
structure InTrade (reservationId : String) (orderId quantity : ℤ) (cancelled listed known : Prop)
    (d : ProjectorDb) : Prop where
  own : Own reservationId orderId d
  stored : ∃ context, d.orderContexts.find? reservationId = some context ∧
    context.quantity = quantity ∧ (context.status = .CANCELLED ↔ cancelled) ∧
    (known → context.orderId = some orderId)
  order : d.orderStatus orderId = some .CANCELLED ↔ cancelled
  listed : listed → d.orderStatus orderId ≠ none

/-- An order of a trade after both statuses have been written. -/
structure Told (reservationId : String) (orderId quantity : ℤ) (cancelled : Prop)
    (d : ProjectorDb) : Prop extends InTrade reservationId orderId quantity cancelled True True d where
  told : ∃ context, d.orderContexts.find? reservationId = some context ∧
    ∃ s, d.orderStatus orderId = some s ∧ context.status = contextStatusForOrderStatus s ∧
      (s = .CANCELLED ∨ s = orderStatusAfterFill quantity (d.filledQuantity orderId))

variable {cancelled listed known : Prop} {x : ℤ} {context : StoredOrderContext}

theorem Story.inTrade (hstory : Story reservationId orderId quantity d) :
    InTrade reservationId orderId quantity (d.orderStatus orderId = some .CANCELLED) False False d := by
  obtain ⟨row, hfind, hq, -, htold⟩ := hstory.stored
  exact ⟨hstory.own, ⟨row, hfind, hq, htold.cancelled_iff, False.elim⟩, Iff.rfl, False.elim⟩

theorem InTrade.keeps (h : InTrade reservationId orderId quantity cancelled listed known d)
    (hkeeps : Keeps reservationId orderId d d') :
    InTrade reservationId orderId quantity cancelled listed known d' := by
  refine ⟨hkeeps.own h.own, ?_, ?_, ?_⟩
  · rw [hkeeps.context]
    exact h.stored
  · rw [hkeeps.orderStatus]
    exact h.order
  · rw [hkeeps.orderStatus]
    exact h.listed

theorem InTrade.of_same (h : InTrade reservationId orderId quantity cancelled listed known d)
    (hcontexts : d'.orderContexts = d.orderContexts) (horders : d'.orders = d.orders) :
    InTrade reservationId orderId quantity cancelled listed known d' := by
  have hstatus : d'.orderStatus orderId = d.orderStatus orderId := by
    rw [ProjectorDb.orderStatus, horders, ProjectorDb.orderStatus]
  refine ⟨?_, hcontexts ▸ h.stored, hstatus ▸ h.order, hstatus ▸ h.listed⟩
  unfold Own
  rw [hcontexts]
  exact h.own

theorem Told.keeps (h : Told reservationId orderId quantity cancelled d)
    (hkeeps : Keeps reservationId orderId d d') :
    Told reservationId orderId quantity cancelled d' := by
  refine ⟨h.toInTrade.keeps hkeeps, ?_⟩
  rw [hkeeps.context, hkeeps.orderStatus, hkeeps.filled]
  exact h.told

/-- After a fill this is the story. -/
theorem Told.story (h : Told reservationId orderId quantity cancelled d)
    (hfilled : 0 < d.filledQuantity orderId) : Story reservationId orderId quantity d := by
  obtain ⟨context, hfind, hq, -, hid⟩ := h.stored
  obtain ⟨context', hfind', s, hs, hcontext, hstatus⟩ := h.told
  obtain rfl : context' = context := Option.some.inj (hfind'.symm.trans hfind)
  refine ⟨h.own, context', hfind, hq, fun _ => hid trivial, ?_⟩
  rw [hs]
  exact ⟨hcontext, hstatus.imp_right fun hs => hs.trans (statusOf_of_pos hfilled quantity).symm⟩

/-- The order is stored. -/
theorem InTrade.insertOrderIfMissingInTx
    (hfollows : Follows reservationId orderId quantity x context)
    (h : InTrade reservationId orderId quantity cancelled listed known d)
    (heval : (insertOrderIfMissingInTx context x).eval d = .ok ((), d')) :
    InTrade reservationId orderId quantity cancelled (listed ∨ x = orderId) known d' ∧
      d'.fills = d.fills := by
  obtain ⟨check, hsets⟩ := upsertOrder_ok heval fun stored row hrow => nomatch hrow
  refine ⟨?_, hsets.fills⟩
  by_cases hx : x = orderId
  · subst hx
    have hstatus : d'.orderStatus x = some ((d.orderStatus x).getD .PENDING) := by
      rw [ProjectorDb.orderStatus, hsets.order, if_pos rfl, ProjectorDb.orderStatus]
      cases d.orders.find? x <;> rfl
    refine ⟨hsets.own h.own, hsets.contexts ▸ h.stored, ?_, fun _ => ?_⟩
    · rw [hstatus, ← h.order]
      cases d.orderStatus x with
      | none => exact iff_of_false (by decide) nofun
      | some s => exact Iff.rfl
    · rw [hstatus]
      exact Option.some_ne_none _
  · have hkeeps := h.keeps (hsets.keeps hx reservationId)
    exact ⟨hkeeps.own, hkeeps.stored, hkeeps.order, fun hl => hkeeps.listed (hl.resolve_right hx)⟩

/-- The context knows the order. -/
theorem InTrade.updateContextOrderIdInTx
    (hfollows : Follows reservationId orderId quantity x context)
    (h : InTrade reservationId orderId quantity cancelled listed known d)
    (heval : (updateContextOrderIdInTx context.reservationId x).eval d = .ok ((), d')) :
    InTrade reservationId orderId quantity cancelled listed (known ∨ x = orderId) d' ∧
      d'.fills = d.fills := by
  cases hk : context.reservationId with
  | none =>
    rw [hk] at heval
    cases heval
    -- The order that is followed has its reservation.
    have hx : x ≠ orderId := fun hx => absurd (hk.symm.trans (hfollows.reservation.1 hx)) nofun
    obtain ⟨row, hfind, hq, hc, hid⟩ := h.stored
    exact ⟨⟨h.own, ⟨row, hfind, hq, hc, fun hn => hid (hn.resolve_right hx)⟩, h.order, h.listed⟩, rfl⟩
  | some k =>
    rw [hk] at heval
    have hmaps := updateContext_ok heval fun _ => rfl
    refine ⟨?_, hmaps.fills⟩
    have hnames : x = orderId ↔ k = reservationId := by
      rw [hfollows.reservation, hk, Option.some_inj]
    have hown : Own reservationId orderId d' := by
      refine hmaps.own h.own fun j row hfind y hy => ?_
      split at hy
      · next hj =>
        rcases Option.getD_eq_iff.1 (Option.some.inj hy) with hold | ⟨-, rfl⟩
        · exact .inl hold
        · rw [hj]
          exact .inr hnames
      · exact .inl hy
    have hstatus : d'.orderStatus orderId = d.orderStatus orderId := by
      rw [ProjectorDb.orderStatus, hmaps.orders, ProjectorDb.orderStatus]
    obtain ⟨row, hfind, hq, hc, hid⟩ := h.stored
    refine ⟨hown, ?_, hstatus ▸ h.order, hstatus ▸ h.listed⟩
    rw [hmaps.contexts, hfind, Option.map_some]
    refine ⟨_, rfl, ?_⟩
    by_cases hj : reservationId = k
    · rw [if_pos hj]
      refine ⟨hq, hc, fun _ => ?_⟩
      rw [hnames.2 hj.symm]
      exact congrArg some (h.own.getD_orderId hfind)
    · rw [if_neg hj]
      exact ⟨hq, hc, fun hn => hid (hn.resolve_right fun hx => hj (hnames.1 hx).symm)⟩

/-- The orders of a trade are stored and known. -/
theorem InTrade.storeTradeOrders {event : TradeExecuted} {maker taker : StoredOrderContext}
    (hmaker : Follows reservationId orderId quantity event.makerOrderId maker)
    (htaker : Follows reservationId orderId quantity event.takerOrderId taker)
    (h : InTrade reservationId orderId quantity cancelled False False d)
    (heval : (storeTradeOrders event maker taker).eval d = .ok ((), d')) :
    InTrade reservationId orderId quantity cancelled
        (event.makerOrderId = orderId ∨ event.takerOrderId = orderId)
        (event.makerOrderId = orderId ∨ event.takerOrderId = orderId) d' ∧
      d'.fills = d.fills := by
  obtain ⟨_, v₁, heval₁, hrest₁⟩ := eval_bind_eq_ok heval
  obtain ⟨_, v₂, heval₂, hrest₂⟩ := eval_bind_eq_ok hrest₁
  obtain ⟨_, v₃, heval₃, heval₄⟩ := eval_bind_eq_ok hrest₂
  obtain ⟨h₁, hfills₁⟩ := h.insertOrderIfMissingInTx hmaker heval₁
  obtain ⟨h₂, hfills₂⟩ := h₁.insertOrderIfMissingInTx htaker heval₂
  obtain ⟨h₃, hfills₃⟩ := h₂.updateContextOrderIdInTx hmaker heval₃
  obtain ⟨h₄, hfills₄⟩ := h₃.updateContextOrderIdInTx htaker heval₄
  refine ⟨?_, hfills₄.trans (hfills₃.trans (hfills₂.trans hfills₁))⟩
  simpa only [false_or] using h₄

/-- Both statuses of the order are written. -/
theorem InTrade.updateOrderAfterFillInTx
    (hfollows : Follows reservationId orderId quantity orderId context)
    (h : InTrade reservationId orderId quantity cancelled True True d)
    (heval : (updateOrderAfterFillInTx context orderId).eval d = .ok ((), d')) :
    Told reservationId orderId quantity cancelled d' ∧ d'.fills = d.fills := by
  obtain ⟨filled, v, hselect, hrest⟩ := eval_bind_eq_ok heval
  obtain ⟨rfl, rfl⟩ : v = d ∧ filled = d.filledQuantity orderId := by
    obtain ⟨ws, hs, rfl⟩ := eval_execute_eq_ok hselect
    unfold selectFilledQuantity at hs
    split at hs
    · cases hs
      exact ⟨rfl, rfl⟩
    · cases hs
  obtain ⟨_, v₁, hupdate, hcontexts⟩ := eval_bind_eq_ok hrest
  have hsets := updateOrderStatus_ok hupdate
  have hmaps := updateContextStatus_ok hcontexts
  rw [hfollows.quantity rfl] at hsets hmaps
  have hfills : d'.fills = v.fills := hmaps.fills.trans hsets.fills
  refine ⟨?_, hfills⟩
  have hown : Own reservationId orderId d' := by
    refine hmaps.own (hsets.own h.own) fun k row _ y hy => .inl ?_
    split at hy <;> exact hy
  obtain ⟨row, hfind, hq, hc, hid⟩ := h.stored
  -- The context under the reservation is among the contexts of the order.
  have hfind' : d'.orderContexts.find? reservationId = some { row with
      status := row.status.afterFill (contextStatusForOrderStatus
        (orderStatusAfterFill quantity (v.filledQuantity orderId))) } := by
    rw [hmaps.contexts, hsets.contexts, hfind, Option.map_some, if_pos (.inl (hid trivial))]
  obtain ⟨stored, hstored⟩ := Option.ne_none_iff_exists'.1 (h.listed trivial)
  obtain ⟨orderRow, hrow, rfl⟩ := Option.map_eq_some_iff.1 hstored
  let s : OrderStatus := if orderRow.status = .CANCELLED then .CANCELLED
    else orderStatusAfterFill quantity (v.filledQuantity orderId)
  have hstatus : d'.orderStatus orderId = some s := by
    rw [ProjectorDb.orderStatus, hmaps.orders, hsets.order, if_pos rfl, hrow]
    rfl
  have hnot : orderStatusAfterFill quantity (v.filledQuantity orderId) ≠ .CANCELLED := by
    rcases orderStatusAfterFill_cases quantity (v.filledQuantity orderId) with hs | hs <;>
      rw [hs.1] <;> decide
  have hcancelled : orderRow.status = .CANCELLED ↔ cancelled := by
    rw [← h.order, hstored, Option.some_inj]
  -- Both updates leave a cancellation as it is, so they agree.
  have hagree : row.status.afterFill (contextStatusForOrderStatus
      (orderStatusAfterFill quantity (v.filledQuantity orderId))) =
        contextStatusForOrderStatus s := by
    unfold ContextStatus.afterFill
    by_cases hyes : cancelled
    · rw [if_pos (hc.2 hyes), hc.2 hyes]
      show _ = contextStatusForOrderStatus (if _ then _ else _)
      rw [if_pos (hcancelled.2 hyes)]
      rfl
    · rw [if_neg (mt hc.1 hyes)]
      show _ = contextStatusForOrderStatus (if _ then _ else _)
      rw [if_neg (mt hcancelled.1 hyes)]
  have hs : s = .CANCELLED ↔ cancelled := by
    rw [← hcancelled]
    show (if _ then _ else _) = _ ↔ _
    split
    · next hyes => exact iff_of_true rfl hyes
    · next hno => exact iff_of_false hnot hno
  refine ⟨⟨hown, ⟨_, hfind', hq, ?_, fun _ => hid trivial⟩, ?_, fun _ => ?_⟩, _, hfind', s, hstatus, hagree, ?_⟩
  · show row.status.afterFill _ = .CANCELLED ↔ _
    rw [hagree, ← hs]
    cases s <;> decide
  · rw [hstatus, Option.some_inj, hs]
  · rw [hstatus]
    exact Option.some_ne_none _
  · rw [filledQuantity_of_fills hfills]
    show (if _ then _ else _) = _ ∨ (if _ then _ else _) = _
    split
    · exact .inl rfl
    · exact .inr rfl

/-- The statuses of another order of the trade are written. -/
theorem keeps_updateOrderAfterFillInTx (hown : Own reservationId orderId d)
    (hfollows : Follows reservationId orderId quantity x context) (hx : x ≠ orderId)
    (heval : (updateOrderAfterFillInTx context x).eval d = .ok ((), d')) :
    Keeps reservationId orderId d d' := by
  obtain ⟨filled, v, hselect, hrest⟩ := eval_bind_eq_ok heval
  obtain rfl : v = d := by
    obtain ⟨ws, hs, rfl⟩ := eval_execute_eq_ok hselect
    unfold selectFilledQuantity at hs
    split at hs
    · cases hs
      rfl
    · cases hs
  obtain ⟨_, v₁, hupdate, hcontexts⟩ := eval_bind_eq_ok hrest
  have hsets := updateOrderStatus_ok hupdate
  have hmaps := updateContextStatus_ok hcontexts
  refine (hsets.keeps hx reservationId).trans (hmaps.keeps ?_ fun k row _ y hy => .inl ?_)
  · intro row hfind
    rw [hsets.contexts] at hfind
    refine if_neg (not_or.2 ⟨fun hid => hx (hown.orderId_of_mem hfind hid), fun hk => hx ?_⟩)
    exact hfollows.reservation.2 hk.symm
  · split at hy <;> exact hy

/-- Other orders are stored and known. -/
theorem keeps_storeTradeOrders {event : TradeExecuted} {maker taker : StoredOrderContext}
    (hmaker : Follows reservationId orderId quantity event.makerOrderId maker)
    (htaker : Follows reservationId orderId quantity event.takerOrderId taker)
    (hmaker' : event.makerOrderId ≠ orderId) (htaker' : event.takerOrderId ≠ orderId)
    (heval : (storeTradeOrders event maker taker).eval d = .ok ((), d')) :
    Keeps reservationId orderId d d' := by
  have hinsert : ∀ {y : ℤ} {c : StoredOrderContext} {v v' : ProjectorDb}, y ≠ orderId →
      (insertOrderIfMissingInTx c y).eval v = .ok ((), v') → Keeps reservationId orderId v v' := by
    intro y c v v' hy hv
    obtain ⟨check, hsets⟩ := upsertOrder_ok hv fun stored row hrow => nomatch hrow
    exact hsets.keeps hy reservationId
  have hupdate : ∀ {y : ℤ} {c : StoredOrderContext} {v v' : ProjectorDb},
      Follows reservationId orderId quantity y c → y ≠ orderId →
      (updateContextOrderIdInTx c.reservationId y).eval v = .ok ((), v') →
      Keeps reservationId orderId v v' := by
    intro y c v v' hc hy hv
    cases hk : c.reservationId with
    | none =>
      rw [hk] at hv
      cases hv
      exact .refl _ _ _
    | some k =>
      rw [hk] at hv
      have hne : k ≠ reservationId := fun hkey => hy (hc.reservation.2 (hk.trans (congrArg some hkey)))
      have hmaps := updateContext_ok hv fun _ => rfl
      refine hmaps.keeps (fun row _ => if_neg hne.symm) fun j row _ z hz => ?_
      split at hz
      · next hj =>
        rcases Option.getD_eq_iff.1 (Option.some.inj hz) with hold | ⟨-, rfl⟩
        · exact .inl hold
        · exact .inr (iff_of_false hy (hj.trans_ne hne))
      · exact .inl hz
  obtain ⟨_, v₁, heval₁, hrest₁⟩ := eval_bind_eq_ok heval
  obtain ⟨_, v₂, heval₂, hrest₂⟩ := eval_bind_eq_ok hrest₁
  obtain ⟨_, v₃, heval₃, heval₄⟩ := eval_bind_eq_ok hrest₂
  exact (((hinsert hmaker' heval₁).trans (hinsert htaker' heval₂)).trans
    (hupdate hmaker hmaker' heval₃)).trans (hupdate htaker htaker' heval₄)

/-- A trade names the order together with its reservation: no other reservation
stands at the order, and the reservation at no other order. -/
def NamesOrder (reservationId : String) (orderId : ℤ) (event : TradeExecuted)
    (participant : TradeParticipant) : Prop :=
  (participant.orderId event = orderId →
      ∀ r ∈ participant.reservationId event, r = reservationId) ∧
    (participant.orderId event ≠ orderId →
      syntheticReservation event participant ≠ some reservationId)

/-- A trade for which a synthetic context may be made does not name the order by
its number alone before its context has that number. -/
def FindsContext (d : ProjectorDb) (orderId : ℤ) (event : TradeExecuted)
    (participant : TradeParticipant) : Prop :=
  participant.orderId event = orderId → isSyntheticLiquidationOrAdlTrade event = true →
    participant.reservationId event = none → (d.contextByOrderId orderId).isSome

/-- The context of the order is found by its number once it has it. -/
theorem contextByOrderId_of_known {row : OrderContextRow}
    (hfind : d.orderContexts.find? reservationId = some row) (hid : row.orderId = some orderId) :
    d.contextByOrderId orderId = some (d.joined row) := by
  have hindex : ContextIndex.order orderId ∈ row.indices := by simp [OrderContextRow.indices, hid]
  have hrow := Indexed.byIndex_eq_some_iff.2 ⟨Table.mem_of_find? hfind, hindex⟩
  rw [ProjectorDb.contextByOrderId, hrow, Option.map_some]

/-- Whose context is found by the number of an order. -/
theorem Own.contextByOrderId (hown : Own reservationId orderId d)
    (h : d.contextByOrderId x = some context) :
    ∃ row, d.orderContexts.find? row.reservationId = some row ∧ context = d.joined row ∧
      (x = orderId ↔ row.reservationId = reservationId) := by
  obtain ⟨row, hindex, rfl⟩ := Option.map_eq_some_iff.1 h
  obtain ⟨hmem, hid⟩ := Indexed.mem_of_byIndex hindex
  have hx : row.orderId = some x := by
    rcases List.mem_cons.1 hid with hid | hid
    · cases hid
    · cases hrow : row.orderId with
      | none => rw [hrow] at hid; cases hid
      | some y =>
        rw [hrow] at hid
        cases List.mem_singleton.1 hid
        rfl
  have hfind := Table.find?_of_mem hmem
  exact ⟨row, hfind, rfl, hown _ row hfind x hx⟩

theorem Story.follows {event : TradeExecuted} {participant : TradeParticipant}
    (hstory : Story reservationId orderId quantity d)
    (hnames : NamesOrder reservationId orderId event participant)
    (hfinds : FindsContext d orderId event participant) (hloaded : Loaded d event participant context) :
    Follows reservationId orderId quantity (participant.orderId event)
      (context.withOrderId (participant.orderId event)) := by
  obtain ⟨row, hfind, hq, hknown, -⟩ := hstory.stored
  have hjoined : d.contextByReservation reservationId = some (d.joined row) := by
    rw [ProjectorDb.contextByReservation, hfind, Option.map_some]
  have hkey : row.reservationId = reservationId := Table.key_of_find? hfind
  by_cases hx : participant.orderId event = orderId
  · -- The stored context of the order is found, by its reservation or its number.
    suffices context = d.joined row by
      subst this
      exact ⟨iff_of_true hx (congrArg some hkey), fun _ => hq⟩
    have hfound : d.storedContext (participant.reservationId event) orderId = some (d.joined row) ∨
        participant.reservationId event = none ∧ d.contextByOrderId orderId = none := by
      unfold ProjectorDb.storedContext
      cases hr : participant.reservationId event with
      | some r =>
        obtain rfl := hnames.1 hx r hr
        rw [Option.bind_some, hjoined]
        exact .inl rfl
      | none =>
        cases hc : d.contextByOrderId orderId with
        | none => exact .inr ⟨rfl, rfl⟩
        | some c =>
          obtain ⟨other, hother, rfl, hiff⟩ := hstory.own.contextByOrderId hc
          rw [hiff.1 rfl, hfind] at hother
          cases hother
          exact .inl rfl
    rcases hloaded with hloaded | ⟨hnone, hsynthetic, -⟩
    · rw [hx] at hloaded
      rcases hfound with hfound | ⟨hr, hc⟩
      · rw [hfound] at hloaded
        exact (Option.some.inj hloaded).symm
      · -- Without a context that has the number there is no row of the order either.
        rw [hr, ProjectorDb.storedContext, hc] at hloaded
        obtain ⟨orderRow, horder, -⟩ := Option.map_eq_some_iff.1 hloaded
        have hlisted : d.orderStatus orderId ≠ none := by
          rw [ProjectorDb.orderStatus, horder]
          exact Option.some_ne_none _
        rw [contextByOrderId_of_known hfind (hknown hlisted)] at hc
        cases hc
    · rw [hx] at hnone
      rcases hfound with hfound | ⟨hr, hc⟩
      · rw [hfound] at hnone
        cases hnone
      · have hsome := hfinds hx hsynthetic hr
        rw [hc] at hsome
        cases hsome
  · -- None of the lookups for another order ends at the reservation.
    refine ⟨iff_of_false hx fun hr => ?_, fun h => absurd h hx⟩
    have hr : context.reservationId = some reservationId := hr
    rcases hloaded with hloaded | ⟨-, -, hsynthetic⟩
    · rcases Option.or_eq_some_iff.1 hloaded with hbound | ⟨-, hloaded⟩
      · obtain ⟨r, hreservation, hbound⟩ := Option.bind_eq_some_iff.1 hbound
        obtain ⟨other, hother, rfl⟩ := Option.map_eq_some_iff.1 hbound
        refine hnames.2 hx ?_
        rw [syntheticReservation, hreservation, Option.some_or]
        exact (congrArg some (Table.key_of_find? hother).symm).trans hr
      · rcases Option.or_eq_some_iff.1 hloaded with hbound | ⟨-, hbound⟩
        · obtain ⟨other, -, rfl, hiff⟩ := hstory.own.contextByOrderId hbound
          exact hx (hiff.2 (Option.some.inj hr))
        · obtain ⟨orderRow, -, rfl⟩ := Option.map_eq_some_iff.1 hbound
          cases hr
    · exact hnames.2 hx (hsynthetic.symm.trans hr)

/-- A trade fills the order and sets both statuses, or is of two other orders. -/
theorem Story.projectTradeExecuted {event : TradeExecuted} {topic : String}
    {partition nextOffset : ℤ} (hstory : Story reservationId orderId quantity d)
    (hnames : ∀ participant, NamesOrder reservationId orderId event participant)
    (hfinds : ∀ participant, FindsContext d orderId event participant)
    (hnew : event.makerOrderId = orderId ∨ event.takerOrderId = orderId → NewFill d event)
    (h : (projectTradeExecuted event topic partition nextOffset).eval d = .ok ((), d'))
    (cancels : Prop) :
    Continues reservationId orderId quantity
      (filledBy event.makerOrderId event.takerOrderId event.quantity orderId) cancels d d' := by
  obtain ⟨contexts, v, hload, htrade⟩ := eval_bind_eq_ok h
  obtain ⟨rfl, hloaded, hloaded'⟩ := loadTradeContextsInTx_ok hload
  have hmaker := hstory.follows (hnames .maker) (hfinds .maker) hloaded
  have htaker := hstory.follows (hnames .taker) (hfinds .taker) hloaded'
  obtain ⟨_, v₁, hstore, hrest₁⟩ := eval_bind_eq_ok htrade
  obtain ⟨insertedFill, v₂, hinsert, hrest₂⟩ := eval_bind_eq_ok hrest₁
  obtain ⟨_, v₃, hupdate, hrest₃⟩ := eval_bind_eq_ok hrest₂
  obtain ⟨_, v₄, hupdate', hrest₄⟩ := eval_bind_eq_ok hrest₃
  obtain ⟨_, v₅, hfill, hoffset⟩ := eval_bind_eq_ok hrest₄
  -- Positions and offsets come last.
  have hend : Keeps reservationId orderId v₄ d' := by
    refine Keeps.trans ?_ (keeps_saveQueueOffset hoffset)
    split at hfill
    · exact .of_same (.of_writes (inArea_projectNewFill _ _ _) (by decide) hfill) _ _
    · cases hfill
      exact .refl _ _ _
  by_cases hof : event.makerOrderId = orderId ∨ event.takerOrderId = orderId
  · obtain ⟨hstored, hfills⟩ := hstory.inTrade.storeTradeOrders hmaker htaker hstore
    obtain ⟨hcontexts, horders, hpos, hadded, -⟩ := insertFill_ok hinsert
    have hinserted := hstored.of_same hcontexts horders
    have hfilled : v₂.filledQuantity orderId = v.filledQuantity orderId + event.quantity := by
      have hnew' : NewFill v₁ event := by
        unfold NewFill
        rw [hfills]
        exact hnew hof
      rw [hadded (.inl hnew'), filledBy, if_pos hof, filledQuantity_of_fills hfills]
    have hin : InTrade reservationId orderId quantity
        (v.orderStatus orderId = some .CANCELLED) True True v₂ :=
      ⟨hinserted.own, by simpa [hof] using hinserted.stored, hinserted.order,
        fun _ => hinserted.listed hof⟩
    have htold : Told reservationId orderId quantity (v.orderStatus orderId = some .CANCELLED) v₄ ∧
        v₄.filledQuantity orderId = v₂.filledQuantity orderId := by
      -- The order is the maker's, the taker's or, in a trade with itself, both.
      by_cases hmaker' : event.makerOrderId = orderId
      · have hupdated := hin.updateOrderAfterFillInTx (hmaker' ▸ hmaker) (hmaker' ▸ hupdate)
        by_cases htaker' : event.takerOrderId = orderId
        · have hupdated' := hupdated.1.toInTrade.updateOrderAfterFillInTx (htaker' ▸ htaker)
            (htaker' ▸ hupdate')
          exact ⟨hupdated'.1, filledQuantity_of_fills (hupdated'.2.trans hupdated.2) orderId⟩
        · have hkeeps := keeps_updateOrderAfterFillInTx hupdated.1.own htaker htaker' hupdate'
          exact ⟨hupdated.1.keeps hkeeps,
            hkeeps.filled.trans (filledQuantity_of_fills hupdated.2 orderId)⟩
      · have hkeeps := keeps_updateOrderAfterFillInTx hin.own hmaker hmaker' hupdate
        have htaker' : event.takerOrderId = orderId := hof.resolve_left hmaker'
        have hupdated' := (hin.keeps hkeeps).updateOrderAfterFillInTx (htaker' ▸ htaker)
          (htaker' ▸ hupdate')
        exact ⟨hupdated'.1, (filledQuantity_of_fills hupdated'.2 orderId).trans hkeeps.filled⟩
    obtain ⟨htold, hfilled'⟩ := htold
    have hnonneg := filledQuantity_nonneg v orderId
    have hpositive : 0 < v₄.filledQuantity orderId := by omega
    refine Continues.keeps ⟨htold.story hpositive, ?_, ?_, ?_, ?_⟩ hend
    · rw [filledBy, if_pos hof, hfilled', hfilled]
    · rw [filledBy, if_pos hof]
      exact hpos.le
    · exact htold.order.2
    · exact fun hc => .inl (htold.order.1 hc)
  · rw [filledBy, if_neg hof]
    obtain ⟨hmaker', htaker'⟩ := not_or.1 hof
    have hstored := keeps_storeTradeOrders hmaker htaker hmaker' htaker' hstore
    have hinserted := keeps_insertFill hmaker' htaker' hinsert reservationId
    have hupdated := keeps_updateOrderAfterFillInTx (hinserted.own (hstored.own hstory.own)) hmaker
      hmaker' hupdate
    have hupdated' := keeps_updateOrderAfterFillInTx
      (hupdated.own (hinserted.own (hstored.own hstory.own))) htaker htaker' hupdate'
    exact hstory.continues ((((hstored.trans hinserted).trans hupdated).trans hupdated').trans hend) _

end Order

/-! ## Runs -/

/-- What a record says of an order, it says of the order and of its reservation. -/
def Payload.Names (reservationId : String) (orderId quantity : ℤ) : Payload → Prop
  | .engineInput (.placeOrder order) =>
    order.reservationId = reservationId → order.quantity = quantity
  | .engineInput (.liquidatePosition liquidation) =>
    liquidation.liquidationId = reservationId → liquidation.quantity = quantity
  | .engineReply (.orderAccepted reply) =>
    reply.orderId = orderId ↔ reply.reservationId = reservationId
  | .engineReply (.liquidationAccepted reply) =>
    reply.orderId = orderId ↔ reply.liquidationId = reservationId
  | .engineEvent (.orderOpened event) =>
    event.orderId = orderId ↔ event.reservationId = reservationId
  | .engineEvent (.orderCancelled event) =>
    event.orderId = orderId ↔ event.reservationId = reservationId
  | .engineEvent (.tradeExecuted event) =>
    ∀ participant, NamesOrder reservationId orderId event participant
  | _ => True

/-- Each trade of the order comes once, and no cancellation after it is filled. -/
def Payload.InOrder (orderId : ℤ) (d : ProjectorDb) : Payload → Prop
  | .engineEvent (.orderCancelled event) =>
    event.orderId = orderId → d.orderStatus orderId ≠ some .FILLED
  | .engineEvent (.tradeExecuted event) =>
    event.makerOrderId = orderId ∨ event.takerOrderId = orderId → NewFill d event
  | _ => True

/-- The order is not opened while it is partially filled, and its trades find its
context. -/
def Payload.Agrees (orderId : ℤ) (d : ProjectorDb) : Payload → Prop
  | .engineEvent (.orderOpened event) =>
    event.orderId = orderId → d.orderStatus orderId ≠ some .PARTIAL
  | .engineEvent (.tradeExecuted event) => ∀ participant, FindsContext d orderId event participant
  | _ => True

/-- What a record adds to the fills of an order. -/
def Payload.filled (orderId : ℤ) : Payload → ℤ
  | .engineEvent (.tradeExecuted event) =>
    filledBy event.makerOrderId event.takerOrderId event.quantity orderId
  | _ => 0

/-- The record cancels the order. -/
def Payload.Cancels (orderId : ℤ) : Payload → Prop
  | .engineEvent (.orderCancelled event) => event.orderId = orderId
  | _ => False

/-- The record that a transaction works off. -/
def Transaction.payload : Transaction → Option Payload
  | saveLog _ _ _ _ => none
  | process payload _ _ _ => some payload

def Transaction.filled (orderId : ℤ) (t : Transaction) : ℤ :=
  (t.payload.map (Payload.filled orderId)).getD 0

def Transaction.Cancels (orderId : ℤ) (t : Transaction) : Prop :=
  ∃ payload ∈ t.payload, payload.Cancels orderId

section Runs

variable {reservationId : String} {orderId quantity : ℤ} {d d' : ProjectorDb}

/-- What a record does to an order. -/
theorem Story.process {payload : Payload} {topic : String} {partition nextOffset : ℤ}
    (hstory : Story reservationId orderId quantity d)
    (hnames : payload.Names reservationId orderId quantity) (hinOrder : payload.InOrder orderId d)
    (hagrees : payload.Agrees orderId d)
    (h : (payload.process topic partition nextOffset).eval d = .ok ((), d')) :
    Continues reservationId orderId quantity (payload.filled orderId) (payload.Cancels orderId) d d' := by
  -- Events that are only logged.
  have hlog : ∀ {event : EngineEvent} {cancels : Prop},
      (projectEngineEventLog event topic partition nextOffset).eval d = .ok ((), d') →
      Continues reservationId orderId quantity 0 cancels d d' := by
    intro event cancels hlog
    obtain ⟨_, v, hinsert, hoffset⟩ := eval_bind_eq_ok hlog
    have hsame : SameOrders d v :=
      .of_writes (inArea_insertEngineEventLogInTx _ _ _ _) (by decide) hinsert
    exact hstory.continues (Keeps.trans (.of_same hsame _ _) (keeps_saveQueueOffset hoffset)) _
  cases payload with
  | engineInput input =>
    cases input with
    | placeOrder order =>
      obtain ⟨_, v, hsave, hoffset⟩ := eval_bind_eq_ok h
      exact (hstory.upsertOrderContext hnames hsave _).keeps (keeps_saveQueueOffset hoffset)
    | liquidatePosition liquidation =>
      obtain ⟨_, v, hsave, hoffset⟩ := eval_bind_eq_ok h
      exact (hstory.upsertOrderContext hnames hsave _).keeps (keeps_saveQueueOffset hoffset)
    | _ => exact hstory.continues (keeps_saveQueueOffset h) _
  | engineReply reply =>
    cases reply with
    | orderAccepted reply => exact hstory.markAccepted hnames h _
    | liquidationAccepted reply => exact hstory.markAccepted hnames h _
    | orderRejected reply =>
      obtain ⟨_, v, hmark, hoffset⟩ := eval_bind_eq_ok h
      refine Continues.keeps ?_ (keeps_saveQueueOffset hoffset)
      split at hmark
      · exact hstory.markRejected hmark _
      · cases hmark
        exact hstory.continues (.refl _ _ _) _
    | liquidationRejected reply =>
      obtain ⟨_, v, hmark, hoffset⟩ := eval_bind_eq_ok h
      exact (hstory.markRejected hmark _).keeps (keeps_saveQueueOffset hoffset)
    | _ => exact hstory.continues (keeps_saveQueueOffset h) _
  | engineEvent event =>
    cases event with
    | orderOpened event => exact hstory.projectOrderOpened hnames hagrees h _
    | orderCancelled event => exact hstory.projectOrderCancelled hnames h
    | tradeExecuted event => exact hstory.projectTradeExecuted hnames hagrees hinOrder h _
    | orderBookDelta event =>
      obtain ⟨inserted, v₁, hinsert, hrest₁⟩ := eval_bind_eq_ok h
      obtain ⟨apply, v₂, happly, hrest₂⟩ := eval_bind_eq_ok hrest₁
      obtain ⟨_, v₃, hlevels, hoffset⟩ := eval_bind_eq_ok hrest₂
      have h₁ : SameOrders d v₁ :=
        .of_writes (inArea_insertOrderbookEvent _ _ _ _) (by decide) hinsert
      have h₂ : SameOrders v₁ v₂ := by
        split at happly
        · exact .of_writes (inArea_shouldApplyOrderbookDeltaInTx .orderbook _) (by decide) happly
        · cases happly
          exact .refl _
      have h₃ : SameOrders v₂ v₃ := by
        split at hlevels
        · exact .of_writes (inArea_applyOrderbookDelta _) (by decide) hlevels
        · cases hlevels
          exact .refl _
      exact hstory.continues
        (Keeps.trans (.of_same ((h₁.trans h₂).trans h₃) _ _) (keeps_saveQueueOffset hoffset)) _
    | _ => exact hlog h
  | walletEvent event => exact hstory.continues (keeps_saveQueueOffset h) _
  | invalid => exact hstory.continues (keeps_saveQueueOffset h) _

/-- The conditions on a transaction where it stands. -/
def Proper (orderId : ℤ) (d : ProjectorDb) (t : Transaction) : Prop :=
  ∀ payload ∈ t.payload, payload.InOrder orderId d ∧ payload.Agrees orderId d

/-- What a transaction does to an order. -/
theorem Story.step {t : Transaction} (hstory : Story reservationId orderId quantity d)
    (hnames : ∀ payload ∈ t.payload, payload.Names reservationId orderId quantity)
    (hproper : Proper orderId d t) (h : commit d t = some d') :
    Continues reservationId orderId quantity (t.filled orderId) (t.Cancels orderId) d d' := by
  have heval := commit_eq_some_iff.1 h
  cases t with
  | saveLog event topic partition nextOffset =>
    obtain ⟨_, v, hinsert, hcommit⟩ := eval_bind_eq_ok heval
    cases hcommit
    have hsame : SameOrders d d' :=
      .of_writes (inArea_insertEngineEventLogInTx _ _ _ _) (by decide) hinsert
    exact hstory.continues (.of_same hsame _ _) _
  | process payload topic partition nextOffset =>
    obtain ⟨hinOrder, hagrees⟩ := hproper payload rfl
    have hcontinues := hstory.process (hnames payload rfl) hinOrder hagrees heval
    exact { hcontinues with cancels := fun hc => (hcontinues.cancels hc).imp_right fun h => ⟨payload, rfl, h⟩ }

/-- A filled order stays filled. -/
theorem Continues.full {more : ℤ} {cancels : Prop} (hstory : Story reservationId orderId quantity d)
    (h : Continues reservationId orderId quantity more cancels d d') (hnot : ¬cancels)
    (hfull : d.orderStatus orderId = some .FILLED) : d'.orderStatus orderId = some .FILLED := by
  obtain ⟨context, -, hq, -, htold⟩ := hstory.stored
  have hpos := context.check.1
  rw [hfull] at htold
  have hreached : quantity ≤ d.filledQuantity orderId := by
    rcases statusOf_cases quantity (d.filledQuantity orderId) with hs | hs | hs
    · rcases htold.2 with h | h
      · cases h
      · rw [hs.1] at h
        cases h
    · exact hs.2
    · rcases htold.2 with h | h
      · cases h
      · rw [hs.1] at h
        cases h
  -- Fills are never taken back.
  have hmore := h.nonneg
  have hfilled := h.filled
  obtain ⟨context', -, -, -, htold'⟩ := h.story.stored
  cases hstatus : d'.orderStatus orderId with
  | none =>
    rw [hstatus] at htold'
    have hzero := htold'.2
    omega
  | some s =>
    rw [hstatus] at htold'
    rcases htold'.2 with rfl | rfl
    · rcases h.cancels hstatus with hc | hc
      · rw [hfull] at hc
        cases hc
      · exact absurd hc hnot
    · rcases statusOf_cases quantity (d'.filledQuantity orderId) with hs | hs | hs
      · omega
      · rw [hs.1]
      · omega

/-- What a run of transactions does to an order. -/
theorem Story.run {ts : List Transaction} (hstory : Story reservationId orderId quantity d)
    (hnames : ∀ t ∈ ts, ∀ payload ∈ t.payload, payload.Names reservationId orderId quantity)
    (hproper : Machine.Along commit (Proper orderId) d ts)
    (hrun : Machine.run commit d ts = some d') :
    Continues reservationId orderId quantity (ts.map (Transaction.filled orderId)).sum
        (∃ t ∈ ts, t.Cancels orderId) d d' ∧
      (∀ t ∈ ts, 0 ≤ t.filled orderId) ∧
      (d.orderStatus orderId = some .FILLED → d'.orderStatus orderId = some .FILLED) := by
  induction ts generalizing d with
  | nil =>
    cases hrun
    exact ⟨hstory.continues (.refl _ _ _) _, fun t ht => absurd ht List.not_mem_nil, id⟩
  | cons t ts ih =>
    obtain ⟨v, hstep, hrun⟩ := Option.bind_eq_some_iff.1 hrun
    obtain ⟨hfirst, hproper⟩ := Machine.along_cons.1 hproper
    have hcontinues := hstory.step (hnames t List.mem_cons_self) hfirst hstep
    have hnames' : ∀ x ∈ ts, ∀ payload ∈ x.payload, payload.Names reservationId orderId quantity :=
      fun x hx => hnames x (List.mem_cons_of_mem t hx)
    obtain ⟨hrest, hnonneg, hfull⟩ := ih hcontinues.story hnames' (hproper v hstep) hrun
    have hstays : d.orderStatus orderId = some .FILLED → v.orderStatus orderId = some .FILLED := by
      intro hfilled
      refine hcontinues.full hstory ?_ hfilled
      -- A cancellation would find the order filled.
      rintro ⟨payload, hpayload, hcancels⟩
      have hinOrder := (hfirst payload hpayload).1
      unfold Payload.Cancels at hcancels
      split at hcancels
      · exact hinOrder hcancels hfilled
      · exact hcancels
    refine ⟨⟨hrest.story, ?_, ?_, hrest.cancelled ∘ hcontinues.cancelled, fun hc => ?_⟩, ?_,
      hfull ∘ hstays⟩
    · rw [List.map_cons, List.sum_cons, hrest.filled, hcontinues.filled, add_assoc]
    · rw [List.map_cons, List.sum_cons]
      exact add_nonneg hcontinues.nonneg hrest.nonneg
    · rcases hrest.cancels hc with hc | ⟨x, hx, hc⟩
      · exact (hcontinues.cancels hc).imp_right fun hc => ⟨t, List.mem_cons_self, hc⟩
      · exact .inr ⟨x, List.mem_cons_of_mem t hx, hc⟩
    · intro x hx
      rcases List.mem_cons.1 hx with rfl | hx
      · exact hcontinues.nonneg
      · exact hnonneg x hx

/-- The context of an order as its input has left it, before its first event. -/
structure Placed (reservationId : String) (orderId quantity : ℤ) (d : ProjectorDb) : Prop where
  own : Own reservationId orderId d
  stored : ∃ context, d.orderContexts.find? reservationId = some context ∧
    context.quantity = quantity ∧ context.status = .PENDING
  order : d.orders.find? orderId = none
  fills : ∀ fill ∈ d.fills.rows, fill.makerOrderId ≠ orderId ∧ fill.takerOrderId ≠ orderId

theorem Placed.story (h : Placed reservationId orderId quantity d) :
    Story reservationId orderId quantity d ∧ d.filledQuantity orderId = 0 := by
  have hfilled : d.filledQuantity orderId = 0 := by
    rw [filledQuantity_eq, Table.sum_congr (g := fun _ => 0) fun fill hfill => ?_]
    · simp [Table.sum]
    · exact if_neg (not_or.2 (h.fills fill hfill))
  have hstatus : d.orderStatus orderId = none := by
    rw [ProjectorDb.orderStatus, h.order]
    rfl
  obtain ⟨context, hfind, hq, hpending⟩ := h.stored
  refine ⟨⟨h.own, context, hfind, hq, fun hlisted => absurd hstatus hlisted, ?_⟩, hfilled⟩
  rw [hstatus, hfilled, hpending]
  exact ⟨rfl, rfl⟩

/-- An input places its order when nothing is known of the order yet. -/
theorem placed_of_placeOrder {order : ReservedPlaceOrder} {topic : String}
    {partition nextOffset : ℤ} (hnew : d.orderContexts.find? order.reservationId = none)
    (hown : ∀ k row, d.orderContexts.find? k = some row → row.orderId ≠ some orderId)
    (horder : d.orders.find? orderId = none)
    (hfills : ∀ fill ∈ d.fills.rows, fill.makerOrderId ≠ orderId ∧ fill.takerOrderId ≠ orderId)
    (h : commit d (.process (.engineInput (.placeOrder order)) topic partition nextOffset) = some d') :
    Placed order.reservationId orderId order.quantity d' := by
  obtain ⟨_, v, hsave, hoffset⟩ := eval_bind_eq_ok (commit_eq_some_iff.1 h)
  obtain ⟨_, w, hsave', hcommit⟩ := eval_bind_eq_ok hoffset
  cases hcommit
  obtain ⟨row, -, hquantity, hid, hstatus, hcontexts, horders, hfills'⟩ := upsertOrderContext_ok hsave
  have hsame : SameOrders v d' :=
    .of_writes (inArea_saveQueueOffsetInTx _ _ _) (by decide) hsave'
  rw [hnew] at hid hstatus
  refine ⟨fun k stored hstored x hx => ?_, ⟨row, ?_, hquantity, hstatus⟩, ?_, ?_⟩
  · rw [hsame.orderContexts, hcontexts] at hstored
    split at hstored
    · cases hstored
      rw [hid] at hx
      cases hx
    · next hk =>
      refine iff_of_false (fun hxo => hown k stored hstored ?_) hk
      rw [← hxo]
      exact hx
  · rw [hsame.orderContexts, hcontexts, if_pos rfl]
  · rw [hsame.orders, horders, horder]
  · rw [hsame.fills, hfills']
    exact hfills

/-- In a run that never opens a partially filled order, both tables have the same
status, which is that of the fills unless the order is cancelled, and final when
it is `FILLED` or `CANCELLED`. -/
theorem one_story {ts : List Transaction} (hplaced : Placed reservationId orderId quantity d)
    (hnames : ∀ t ∈ ts, ∀ payload ∈ t.payload, payload.Names reservationId orderId quantity)
    (hproper : Machine.Along commit (Proper orderId) d ts)
    (hrun : Machine.run commit d ts = some d') :
    (∀ row, d'.orders.find? orderId = some row →
      ∃ context, d'.orderContexts.find? reservationId = some context ∧
        context.orderId = some orderId ∧ context.status = contextStatusForOrderStatus row.status) ∧
    ((∃ t ∈ ts, 0 < t.filled orderId) → (∀ t ∈ ts, ¬t.Cancels orderId) →
      d'.orderStatus orderId = some (if quantity ≤ (ts.map (Transaction.filled orderId)).sum
        then .FILLED else .PARTIAL)) ∧
    ∀ n v status, Machine.run commit d (ts.take n) = some v → v.orderStatus orderId = some status →
      status = .FILLED ∨ status = .CANCELLED → d'.orderStatus orderId = some status := by
  obtain ⟨hstory, hunfilled⟩ := hplaced.story
  obtain ⟨hcontinues, hnonneg, -⟩ := hstory.run hnames hproper hrun
  obtain ⟨context, hfind, -, hknown, htold⟩ := hcontinues.story.stored
  have hfilled := hcontinues.filled
  rw [hunfilled, zero_add] at hfilled
  refine ⟨fun row hrow => ?_, fun ⟨t, ht, hpos⟩ hnot => ?_, fun n v status hv hstatus hfinal => ?_⟩
  · have hstatus : d'.orderStatus orderId = some row.status := by
      rw [ProjectorDb.orderStatus, hrow]
      rfl
    rw [hstatus] at htold
    exact ⟨context, hfind, hknown (by rw [hstatus]; exact Option.some_ne_none _), htold.1⟩
  · have htotal : 0 < (ts.map (Transaction.filled orderId)).sum := by
      refine lt_of_lt_of_le hpos (List.single_le_sum (fun x hx => ?_) _ (List.mem_map_of_mem ht))
      obtain ⟨u, hu, rfl⟩ := List.mem_map.1 hx
      exact hnonneg u hu
    rw [hfilled] at htold
    cases hstatus : d'.orderStatus orderId with
    | none =>
      rw [hstatus] at htold
      exact absurd htold.2 htotal.ne'
    | some s =>
      rw [hstatus] at htold
      rcases htold.2 with rfl | rfl
      · -- Some record of the run has cancelled the order.
        have hopen : d.orderStatus orderId ≠ some .CANCELLED := by
          rw [ProjectorDb.orderStatus, hplaced.order]
          exact nofun
        obtain ⟨u, hu, hcancels⟩ := (hcontinues.cancels hstatus).resolve_left hopen
        exact absurd hcancels (hnot u hu)
      · rw [statusOf_of_pos htotal]
        rfl
  · -- A final status is kept by the rest of the run.
    rw [← List.take_append_drop n ts] at hproper hrun hnames
    obtain ⟨hbefore, hafter⟩ := Machine.along_append.1 hproper
    rw [Machine.run_append, hv, Option.bind_some] at hrun
    have hv' := (hstory.run (fun t ht => hnames t (List.mem_append_left _ ht)) hbefore hv).1
    obtain ⟨hrest, -, hfull⟩ :=
      hv'.story.run (fun t ht => hnames t (List.mem_append_right _ ht)) (hafter v hv) hrun
    rcases hfinal with rfl | rfl
    · exact hfull hstatus
    · exact hrest.cancelled hstatus

end Runs

/-! ## Two orders -/

/-- The input of an order of market 7. -/
def restingOrder (orderId userId : ℤ) (reservationId : String) (side : Side) (quantity : ℤ) :
    ReservedPlaceOrder where
  inputId := none
  envelope := ⟨reservationId, reservationId, userId, 0⟩
  orderId := orderId
  reservationId := reservationId
  marketId := 7
  marketName := "SOL"
  side := side
  orderType := .LIMIT
  quantity := quantity
  price := 100
  reduceOnly := false
  marginAsset := .USDC
  reservedMarginAmount := 10
  leverage := 1

def openingOf (orderId userId : ℤ) (reservationId : String) : OrderOpened where
  engineEventId := none
  engineSequence := orderId
  engineTimestampMs := orderId
  sourceInputId := none
  sourceInputOffset := none
  orderId := orderId
  reservationId := reservationId
  userId := userId
  marketId := 7

/-- A trade of order 1, which rests, and order 2. -/
def tradeOfReserved : TradeExecuted :=
  { tradeOfOrders 100 5 with
    takerUserId := 2
    makerReservationId := some "r1"
    takerReservationId := some "r2" }

def eventRecord (event : EngineEvent) (nextOffset : ℤ) : Transaction :=
  .process (.engineEvent event) "engine.events" 0 nextOffset

def marketDb : ProjectorDb :=
  .empty [1, 2] (fun _ => none)
    (Table.empty.upsert { marketId := 7, marketName := "SOL", lastTradedPrice := 100 })

/-- Both inputs of the trade. -/
def placeBoth : List Transaction :=
  [.process (.engineInput (.placeOrder (restingOrder 1 1 "r1" .LONG 10))) "engine.input" 0 1,
    .process (.engineInput (.placeOrder (restingOrder 2 2 "r2" .SHORT 5))) "engine.input" 0 2]

/-- The statuses of an order in both tables. -/
def statuses (orderId : ℤ) (reservationId : String) (d : ProjectorDb) :
    Option OrderStatus × Option ContextStatus :=
  (d.orderStatus orderId, (d.orderContexts.find? reservationId).map OrderContextRow.status)

/-- An opening that is projected after the first trade of its order: the order is
listed as `OPEN` again, and its context stays `PARTIAL`. -/
theorem opened_after_trade :
    (Machine.run commit marketDb
      (placeBoth ++ [eventRecord (.tradeExecuted tradeOfReserved) 1,
        eventRecord (.orderOpened (openingOf 1 1 "r1")) 2])).map (statuses 1 "r1") =
      some (some .OPEN, some .PARTIAL) := by
  decide +kernel

/-- Both orders are placed. -/
def placedDb : ProjectorDb := (Machine.run commit marketDb placeBoth).getD marketDb

theorem placed_placedDb : Placed "r1" 1 10 placedDb where
  own k row hrow x hx := by
    have hnone : ∀ row ∈ placedDb.orderContexts.rows, row.orderId = none := by decide +kernel
    rw [hnone row (Table.mem_of_find? hrow)] at hx
    cases hx
  stored := by
    have hsome : ∃ row ∈ placedDb.orderContexts.rows, row.reservationId = "r1" ∧
        row.quantity = 10 ∧ row.status = .PENDING := by decide +kernel
    obtain ⟨row, hrow, hkey, hquantity, hstatus⟩ := hsome
    exact ⟨row, hkey ▸ Table.find?_of_mem hrow, hquantity, hstatus⟩
  order := by decide +kernel
  fills := by decide +kernel

/-- Order 1 is opened and then filled in part. -/
def openThenTrade : List Transaction :=
  [eventRecord (.orderOpened (openingOf 1 1 "r1")) 1, eventRecord (.tradeExecuted tradeOfReserved) 2]

theorem names_openThenTrade :
    ∀ t ∈ openThenTrade, ∀ payload ∈ t.payload, payload.Names "r1" 1 10 := by
  intro t ht payload hpayload
  rcases List.mem_pair.1 ht with rfl | rfl
  · cases hpayload
    exact iff_of_true rfl rfl
  · cases hpayload
    intro participant
    cases participant with
    | maker => exact ⟨fun _ r hr => (Option.some.inj hr).symm, fun h => absurd rfl h⟩
    | taker => exact ⟨fun h => absurd h (by decide), fun _ => by decide +kernel⟩

theorem proper_openThenTrade : Machine.Along commit (Proper 1) placedDb openThenTrade := by
  refine Machine.along_cons.2 ⟨fun payload hpayload => ?_, fun v hv => ?_⟩
  · cases hpayload
    exact ⟨trivial, fun _ => by decide +kernel⟩
  · refine Machine.along_cons.2 ⟨fun payload hpayload => ?_, fun w _ => Machine.along_nil⟩
    cases hpayload
    have hempty : (commit placedDb (eventRecord (.orderOpened (openingOf 1 1 "r1")) 1)).map
        (fun v => v.fills.rows) = some [] := by decide +kernel
    rw [hv] at hempty
    have hrows : v.fills.rows = [] := Option.some.inj hempty
    refine ⟨fun _ fill hfill => ?_, fun participant _ hsynthetic _ => ?_⟩
    · rw [hrows] at hfill
      cases hfill
    · exact absurd hsynthetic (by decide)

/-- Half of order 1 is filled. -/
theorem one_story_half : ∃ d', Machine.run commit placedDb openThenTrade = some d' ∧
    d'.orderStatus 1 = some .PARTIAL := by
  have hsome : (Machine.run commit placedDb openThenTrade).isSome := by decide +kernel
  obtain ⟨d', hrun⟩ := Option.isSome_iff_exists.1 hsome
  have hstatus := (one_story placed_placedDb names_openThenTrade proper_openThenTrade hrun).2.1
  refine ⟨d', hrun, hstatus ⟨_, List.mem_cons_of_mem _ (List.mem_singleton_self _), by decide⟩ ?_⟩
  intro t ht
  rcases List.mem_pair.1 ht with rfl | rfl
  · rintro ⟨payload, hpayload, hcancels⟩
    cases hpayload
    exact hcancels
  · rintro ⟨payload, hpayload, hcancels⟩
    cases hpayload
    exact hcancels

end Projector
