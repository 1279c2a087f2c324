import ExchangeServer.Projector.OrderStatus
import ExchangeServer.Wallet.CrashRestart

/-!
# The end of an order in the wallet and in the projector

An order ends with `OrderCancelled` or with `OrderExpired`. The wallet takes both
for a release of what is left of the reservation. The projector sets both
statuses of the order on the first, and on the second keeps the event in the log
and nothing else.

## Main results

- `over_after_end_iff`: when the projector lists an order as over that the wallet
  has released
-/

namespace Projector

open Protocol Relational Transactional Program

/-- The statuses that an order ends with. -/
def OrderStatus.Final (status : OrderStatus) : Prop :=
  status = CANCELLED ∨ status = FILLED ∨ status = REJECTED

def ContextStatus.Final (status : ContextStatus) : Prop :=
  status = CANCELLED ∨ status = FILLED ∨ status = REJECTED

/-- An order is over in both tables, as far as they have a row of it. -/
structure Over (reservationId : String) (orderId : ℤ) (d : ProjectorDb) : Prop where
  order : ∀ status ∈ d.orderStatus orderId, status.Final
  context : ∃ row, d.orderContexts.find? reservationId = some row ∧ row.status.Final

/-- `SELECT .. FROM orders WHERE market_id=$1 AND status='OPEN'`. -/
def getOpenMarketOrders (d : ProjectorDb) (marketId : ℤ) : List OrderRow :=
  d.orders.rows.filter fun row => row.marketId = marketId ∧ row.status = .OPEN

/-- An order that is over is not listed. -/
theorem Over.not_listed {reservationId : String} {orderId marketId : ℤ} {d : ProjectorDb}
    (h : Over reservationId orderId d) :
    ∀ row ∈ getOpenMarketOrders d marketId, row.orderId ≠ orderId := by
  intro row hrow hid
  obtain ⟨hmem, hopen⟩ := List.mem_filter.1 hrow
  have hstatus : d.orderStatus orderId = some row.status := by
    rw [ProjectorDb.orderStatus, ← hid, Table.find?_of_mem hmem]
    rfl
  have hfinal := h.order row.status hstatus
  have hopen : row.status = .OPEN := (of_decide_eq_true hopen).2
  rw [hopen] at hfinal
  rcases hfinal with h | h | h <;> cases h

/-- The event ends the order and gives margin back. -/
def Ends (reservationId : String) (orderId : ℤ) : EngineEvent → Prop
  | .orderCancelled event =>
    event.orderId = orderId ∧ event.reservationId = reservationId ∧ 0 < event.releasedAmount
  | .orderExpired event =>
    event.orderId = orderId ∧ event.reservationId = reservationId ∧ 0 < event.releasedAmount
  | _ => False

def IsCancellation : EngineEvent → Prop
  | .orderCancelled _ => True
  | _ => False

/-- Processing the event, the wallet releases what a reservation still holds. -/
def Releases (self : Wallet.WalletProcessor) (event : EngineEvent) (reservationId : String)
    (w : Wallet.WalletDb) : Prop :=
  (self.processEvent event w).1 = .ok () ∧
    ∃ before after, w.walletReservations.find? reservationId = some before ∧
      (self.processEvent event w).2.walletReservations.find? reservationId = some after ∧
      0 < before.remaining ∧ after.remaining = 0

/-! ## Contexts stay -/

section Stay

variable {reservationId : String} {d d' : ProjectorDb}

theorem isSome_write (w : Write) (h : (d.orderContexts.find? reservationId).isSome) :
    ((d.write w).orderContexts.find? reservationId).isSome := by
  cases w with
  | putOrderContext row =>
    show ((d.orderContexts.put row).find? reservationId).isSome
    by_cases hadmits : d.orderContexts.Admits row
    · rw [Indexed.find?_put hadmits]
      split
      · rfl
      · exact h
    · rw [Indexed.put, dif_neg hadmits]
      exact h
  | _ => exact h

/-- A context is never deleted. -/
theorem isSome_run {ts : List Transaction} (hrun : Machine.run commit d ts = some d')
    (h : (d.orderContexts.find? reservationId).isSome) :
    (d'.orderContexts.find? reservationId).isSome := by
  refine Machine.inv_of_run (P := fun d => (d.orderContexts.find? reservationId).isSome)
    (fun {v v' t} hv hcommit => ?_) hrun h
  have hview : ∀ (ws : List Write) (u : ProjectorDb),
      (u.orderContexts.find? reservationId).isSome →
      ((view ws u).orderContexts.find? reservationId).isSome := by
    intro ws
    induction ws with
    | nil => exact fun _ hu => hu
    | cons w ws ih => exact fun u hu => ih _ (isSome_write w hu)
  have hkept := run_keeps (S := Stmt)
    (I := fun u : ProjectorDb => (u.orderContexts.find? reservationId).isSome)
    (fun _ u _ ws hu _ => hview ws u hu) t.program hv hv
  unfold commit at hcommit
  split at hcommit
  · next heq =>
    cases hcommit
    rw [heq] at hkept
    exact hkept
  · cases hcommit

end Stay

/-! ## Ends -/

section Ends

variable {reservationId : String} {orderId : ℤ} {d d' : ProjectorDb} {topic : String}
  {partition nextOffset : ℤ}

/-- A cancellation ends the order in both tables. -/
theorem over_of_cancellation {event : OrderCancelled} (horder : event.orderId = orderId)
    (hreservation : event.reservationId = reservationId)
    (hstored : (d.orderContexts.find? reservationId).isSome)
    (h : commit d (.process (.engineEvent (.orderCancelled event)) topic partition nextOffset) =
      some d') : Over reservationId orderId d' := by
  subst horder hreservation
  obtain ⟨context, v, hload, hrest⟩ := eval_bind_eq_ok (commit_eq_some_iff.1 h)
  obtain rfl : v = d := eq_of_inArea (fun area => inArea_loadContextForOrderInTx area _ _) hload
  obtain ⟨_, v₁, hupdate, hrest'⟩ := eval_bind_eq_ok hrest
  obtain ⟨_, v₂, hupsert, hoffset⟩ := eval_bind_eq_ok hrest'
  have hmaps := updateContext_ok hupdate fun _ => rfl
  obtain ⟨check, hsets⟩ := upsertOrder_ok hupsert (by rintro stored row ⟨⟩; rfl)
  have hkeeps : Keeps event.reservationId event.orderId v₂ d' := keeps_saveQueueOffset hoffset
  obtain ⟨row, hrow⟩ := Option.isSome_iff_exists.1 hstored
  refine ⟨fun status hstatus => ?_, ?_⟩
  · rw [hkeeps.orderStatus, ProjectorDb.orderStatus, hsets.order, if_pos rfl] at hstatus
    cases hstatus
    refine .inl ?_
    cases v₁.orders.find? event.orderId <;> rfl
  · rw [hkeeps.context, hsets.contexts, hmaps.contexts, hrow, Option.map_some, if_pos rfl]
    exact ⟨_, rfl, .inl rfl⟩

/-- An expiry changes no status. -/
theorem sameOrders_of_expiry {event : OrderExpired}
    (h : commit d (.process (.engineEvent (.orderExpired event)) topic partition nextOffset) =
      some d') : SameOrders d d' := by
  obtain ⟨_, v, hinsert, hoffset⟩ := eval_bind_eq_ok (commit_eq_some_iff.1 h)
  obtain ⟨_, w, hsave, hcommit⟩ := eval_bind_eq_ok hoffset
  cases hcommit
  exact SameOrders.trans (.of_writes (inArea_insertEngineEventLogInTx _ _ _ _) (by decide) hinsert)
    (.of_writes (inArea_saveQueueOffsetInTx _ _ _) (by decide) hsave)

theorem over_iff_of_same (h : SameOrders d d') :
    Over reservationId orderId d' ↔ Over reservationId orderId d := by
  have hstatus : d'.orderStatus orderId = d.orderStatus orderId := by
    rw [ProjectorDb.orderStatus, h.orders, ProjectorDb.orderStatus]
  constructor
  · rintro ⟨horder, hcontext⟩
    exact ⟨hstatus ▸ horder, h.orderContexts ▸ hcontext⟩
  · rintro ⟨horder, hcontext⟩
    exact ⟨hstatus.symm ▸ horder, h.orderContexts.symm ▸ hcontext⟩

/-- After any run, an order that ends and that the wallet releases is over for the
projector if it was cancelled, or over before. -/
theorem over_after_end_iff (self : Wallet.WalletProcessor) (w : Wallet.WalletDb)
    {ts : List Transaction} {event : EngineEvent} {v : ProjectorDb}
    (hstored : (d.orderContexts.find? reservationId).isSome)
    (hrun : Machine.run commit d ts = some v) (hends : Ends reservationId orderId event)
    (hcommit : commit v (.process (.engineEvent event) topic partition nextOffset) = some d') :
    (Releases self event reservationId w → Over reservationId orderId d') ↔
      (Releases self event reservationId w →
        IsCancellation event ∨ Over reservationId orderId v) := by
  refine imp_congr_right fun _ => ?_
  cases event with
  | orderCancelled event =>
    have hv := isSome_run hrun hstored
    exact iff_of_true (over_of_cancellation hends.1 hends.2.1 hv hcommit) (.inl trivial)
  | orderExpired event =>
    rw [over_iff_of_same (sameOrders_of_expiry hcommit)]
    exact (iff_of_eq (false_or _)).symm
  | _ => exact hends.elim

end Ends

/-! ## An order that expires -/

/-- The end of order 1 with all its margin. -/
def expiryOfOrder : OrderExpired where
  engineEventId := some "e1"
  marketId := 7
  engineSequence := 2
  engineTimestampMs := 2
  sourceInputId := none
  sourceInputOffset := none
  orderId := 1
  reservationId := "res_u1"
  userId := 1
  expiredQuantity := 10
  releasedAmount := 50
  reason := "GTD"

def cancellationOfOrder : OrderCancelled where
  engineEventId := some "e1"
  engineSequence := 2
  engineTimestampMs := 2
  sourceInputId := none
  sourceInputOffset := none
  orderId := 1
  reservationId := "res_u1"
  userId := 1
  marketId := 7
  releasedAmount := 50

/-- Order 1 is placed. -/
def openingDb : ProjectorDb :=
  (commit marketDb (.process (.engineInput (.placeOrder (restingOrder 1 1 "res_u1" .LONG 10)))
    "engine.input" 0 1)).getD marketDb

def openOrder : Transaction := eventRecord (.orderOpened (openingOf 1 1 "res_u1")) 1

/-- A wallet that holds 50 for order 1. -/
def reservedWallet : Wallet.WalletDb :=
  Wallet.WalletProcessor.new.runAll Wallet.depositAndReserve (.empty [1])

theorem releases_of_remaining {self : Wallet.WalletProcessor} {event : EngineEvent}
    {reservationId : String} {w : Wallet.WalletDb} {held : ℤ}
    (hok : (self.processEvent event w).1 = .ok ())
    (hbefore : (w.walletReservations.find? reservationId).map Wallet.ReservationRow.remaining =
      some held) (hheld : 0 < held)
    (hafter : ((self.processEvent event w).2.walletReservations.find? reservationId).map
      Wallet.ReservationRow.remaining = some 0) : Releases self event reservationId w := by
  obtain ⟨before, hfound, rfl⟩ := Option.map_eq_some_iff.1 hbefore
  obtain ⟨after, hfound', hzero⟩ := Option.map_eq_some_iff.1 hafter
  exact ⟨hok, before, after, hfound, hfound', hheld, hzero⟩

/-- The wallet releases the margin of an expired order, which stays listed. -/
theorem expired_order_stays_open :
    Releases .new (.orderExpired expiryOfOrder) "res_u1" reservedWallet ∧
      ∃ d', Machine.run commit openingDb
          [openOrder, eventRecord (.orderExpired expiryOfOrder) 2] = some d' ∧
        ¬Over "res_u1" 1 d' ∧ (getOpenMarketOrders d' 7).map OrderRow.orderId = [1] := by
  refine ⟨releases_of_remaining (by decide) (by decide) (by decide : (0 : ℤ) < 50) (by decide), ?_⟩
  have hrun : (Machine.run commit openingDb
      [openOrder, eventRecord (.orderExpired expiryOfOrder) 2]).map (fun d =>
        (d.orderStatus 1, (getOpenMarketOrders d 7).map OrderRow.orderId)) =
      some (some .OPEN, [1]) := by decide +kernel
  obtain ⟨d', hd', hseen⟩ := Option.map_eq_some_iff.1 hrun
  obtain ⟨hstatus, hlisted⟩ := Prod.mk.inj hseen
  refine ⟨d', hd', fun hover => ?_, hlisted⟩
  rcases hover.order .OPEN hstatus with h | h | h <;> cases h

/-- The same order, cancelled, is over. -/
theorem over_after_end_iff_cancelled : ∃ v d', Machine.run commit openingDb [openOrder] = some v ∧
    commit v (eventRecord (.orderCancelled cancellationOfOrder) 2) = some d' ∧
      Over "res_u1" 1 d' := by
  have hsome : ((Machine.run commit openingDb [openOrder]).bind fun v =>
      commit v (eventRecord (.orderCancelled cancellationOfOrder) 2)).isSome := by decide +kernel
  obtain ⟨d', hrun⟩ := Option.isSome_iff_exists.1 hsome
  obtain ⟨v, hv, hcommit⟩ := Option.bind_eq_some_iff.1 hrun
  have hstored : (openingDb.orderContexts.find? "res_u1").isSome := by decide +kernel
  have hreleases : Releases .new (.orderCancelled cancellationOfOrder) "res_u1" reservedWallet :=
    releases_of_remaining (by decide) (by decide) (by decide : (0 : ℤ) < 50) (by decide)
  have hends : Ends "res_u1" 1 (.orderCancelled cancellationOfOrder) := ⟨rfl, rfl, by decide⟩
  have hover := over_after_end_iff .new reservedWallet hstored hv hends hcommit
  exact ⟨v, d', hv, hcommit, hover.2 (fun _ => .inl trivial) hreleases⟩

end Projector
