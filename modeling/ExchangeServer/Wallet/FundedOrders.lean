import ExchangeServer.Wallet.AtMostOnce

/-!
# Orders and reservations

In every wallet that deliveries lead to, reservations, orders for the engine and
`FundsReserved` events correspond one to one: an order in the outbox names a
reservation of its user, asset and amount, and every reservation is named by one
order and by one event. The order and its reservation come from one intent: it was
delivered, and its commit has made the reservation and queued the order.
-/

namespace Wallet

open Protocol Relational Transactional Program

/-- The message carries an order on a reservation. -/
def OrdersReservation (message : NewWalletOutboxMessage) (reservationId : String) : Prop :=
  ∃ order, message.payload = .engineCommand (.placeOrder order) ∧ order.reservationId = reservationId

/-- The message reports a reservation. -/
def ReportsReservation (message : NewWalletOutboxMessage) (reservationId : String) : Prop :=
  ∃ event, message.payload = .walletEvent (.fundsReserved event) ∧
    event.reservationId = reservationId

/-- What an order takes over from the intent of the user, and the id of the
reservation that is made with the random value of the delivery. -/
structure Copies (uuid : String) (intent : PlaceOrderIntent) (order : ReservedPlaceOrder) :
    Prop where
  envelope : order.envelope = intent.envelope
  reservationId : order.reservationId = "res_" ++ uuid
  marginAsset : order.marginAsset = intent.marginAsset
  reservedMarginAmount : order.reservedMarginAmount = intent.requiredMargin
  orderId : order.orderId = intent.orderId
  marketId : order.marketId = intent.marketId
  marketName : order.marketName = intent.marketName
  side : order.side = intent.side
  orderType : order.orderType = intent.orderType
  quantity : order.quantity = intent.quantity
  price : order.price = intent.price
  leverage : order.leverage = intent.leverage
  reduceOnly : order.reduceOnly = intent.reduceOnly

theorem copies_intoReservedOrder {uuid : String} {intent : PlaceOrderIntent} :
    Copies uuid intent (intent.intoReservedOrder ("res_" ++ uuid)) :=
  ⟨rfl, rfl, rfl, rfl, rfl, rfl, rfl, rfl, rfl, rfl, rfl, rfl, rfl⟩

/-- Two intents that an order copies are on the same reservation. -/
theorem Copies.orderOf {uuid uuid' : String} {intent intent' : PlaceOrderIntent}
    {order : ReservedPlaceOrder} {row : ReservationRow} (h : Copies uuid intent order)
    (h' : Copies uuid' intent' order) (horder : OrderOf uuid' intent' row) :
    OrderOf uuid intent row where
  reservationId := by rw [horder.reservationId, ← h'.reservationId, h.reservationId]
  userId := by rw [horder.userId, ← h'.envelope, h.envelope]
  asset := by rw [horder.asset, ← h'.marginAsset, h.marginAsset]
  amount := by rw [horder.amount, ← h'.reservedMarginAmount, h.reservedMarginAmount]
  idempotencyKey := by rw [horder.idempotencyKey, ← h'.envelope, h.envelope]

/-- A commit of the intent has made a reservation and queued the message of its order. -/
def ReservedBy (log : List (Delivery × List Write)) (uuid : String) (intent : PlaceOrderIntent)
    (message : NewWalletOutboxMessage) : Prop :=
  ∃ ws made, (.command uuid (.placeOrderIntent intent), ws) ∈ log ∧ .insertReservation made ∈ ws ∧
    IsReservation uuid intent made ∧ .insertOutbox message ∈ ws

/-- Reservations, orders and events correspond, and an order copies the intent that
its reservation was made for. -/
structure Funded (d : WalletDb) (log : List (Delivery × List Write)) : Prop where
  oneOrder : ∀ row ∈ d.walletReservations.rows,
    ∃! message, message ∈ d.walletOutbox.rows ∧ OrdersReservation message row.reservationId
  oneEvent : ∀ row ∈ d.walletReservations.rows,
    ∃! message, message ∈ d.walletOutbox.rows ∧ ReportsReservation message row.reservationId
  order : ∀ message ∈ d.walletOutbox.rows, ∀ order,
    message.payload = .engineCommand (.placeOrder order) →
      ∃ row ∈ d.walletReservations.rows, row.reservationId = order.reservationId ∧
        row.userId = order.envelope.userId ∧ row.asset = order.marginAsset ∧
        row.amount = order.reservedMarginAmount ∧
        ∃ uuid intent, ReservedBy log uuid intent message ∧ OrderOf uuid intent row ∧
          Copies uuid intent order
  event : ∀ message ∈ d.walletOutbox.rows, ∀ event,
    message.payload = .walletEvent (.fundsReserved event) →
      ∃ row ∈ d.walletReservations.rows, row.reservationId = event.reservationId ∧
        row.userId = event.userId ∧ row.asset = event.asset ∧ row.amount = event.amount

/-! ## What the origins say -/

section

variable {self : WalletProcessor} {d : WalletDb} {message message' : NewWalletOutboxMessage}
  {id : String}

/-- Only the message of a reservation carries an order. -/
theorem Origin.of_order (h : Origin self d message) {order : ReservedPlaceOrder}
    (hpayload : message.payload = .engineCommand (.placeOrder order)) :
    ∃ uuid intent row, message = self.placeOrderMessage intent (fundsReserved uuid intent) ∧
      d.walletReservations.find? ("res_" ++ uuid) = some row ∧ OrderOf uuid intent row := by
  cases h with
  | placeOrder hrow horder => exact ⟨_, _, _, rfl, hrow, horder⟩
  | _ => cases hpayload

/-- Only the message of a reservation reports one. -/
theorem Origin.of_reserved (h : Origin self d message) {event : WalletFundsReserved}
    (hpayload : message.payload = .walletEvent (.fundsReserved event)) :
    ∃ uuid intent row, message = self.fundsReservedMessage intent (fundsReserved uuid intent) ∧
      d.walletReservations.find? ("res_" ++ uuid) = some row ∧ OrderOf uuid intent row := by
  cases h with
  | reserved hrow horder => exact ⟨_, _, _, rfl, hrow, horder⟩
  | _ => cases hpayload

/-- The order that a message carries. -/
theorem placeOrderMessage_payload {intent : PlaceOrderIntent} {reserved : FundsReserved}
    {order : ReservedPlaceOrder} (h : (self.placeOrderMessage intent reserved).payload =
      .engineCommand (.placeOrder order)) :
    order = intent.intoReservedOrder reserved.reservationId := by
  simp only [WalletProcessor.placeOrderMessage, engineCommandOutboxMessage,
    OutboxPayload.engineCommand.injEq, EngineCommand.placeOrder.injEq] at h
  exact h.symm

/-- The columns an event shares with its reservation. -/
theorem fundsReservedMessage_payload {intent : PlaceOrderIntent} {reserved : FundsReserved}
    {event : WalletFundsReserved} (h : (self.fundsReservedMessage intent reserved).payload =
      .walletEvent (.fundsReserved event)) :
    event.reservationId = reserved.reservationId ∧ event.userId = intent.envelope.userId ∧
      event.asset = reserved.asset ∧ event.amount = reserved.amount := by
  simp only [WalletProcessor.fundsReservedMessage, walletEventOutboxMessage, fundsReservedEvent,
    OutboxPayload.walletEvent.injEq, WalletEvent.fundsReserved.injEq] at h
  subst h
  exact ⟨rfl, rfl, rfl, rfl⟩

/-- Two stored orders on one reservation are the same message. -/
theorem Registered.order_unique (h : Registered self d) (hmem : message ∈ d.walletOutbox.rows)
    (hmem' : message' ∈ d.walletOutbox.rows) (horders : OrdersReservation message id)
    (horders' : OrdersReservation message' id) : message = message' := by
  obtain ⟨order, hpayload, hid⟩ := horders
  obtain ⟨order', hpayload', hid'⟩ := horders'
  obtain ⟨uuid, intent, row, rfl, hrow, horder⟩ := (h.outbox message hmem).of_order hpayload
  obtain ⟨uuid', intent', row', rfl, hrow', horder'⟩ := (h.outbox message' hmem').of_order hpayload'
  have hids : "res_" ++ uuid = "res_" ++ uuid' := by
    have hreserved : order.reservationId = "res_" ++ uuid := by
      rw [placeOrderMessage_payload hpayload]
      rfl
    have hreserved' : order'.reservationId = "res_" ++ uuid' := by
      rw [placeOrderMessage_payload hpayload']
      rfl
    exact hreserved.symm.trans (hid.trans (hid'.symm.trans hreserved'))
  rw [hids] at hrow
  obtain rfl := Option.some.inj (hrow.symm.trans hrow')
  have huser := horder.userId.symm.trans horder'.userId
  have hidempotency := horder.idempotencyKey.symm.trans horder'.idempotencyKey
  have hkey : (self.placeOrderMessage intent (fundsReserved uuid intent)).dedupeKey =
      (self.placeOrderMessage intent' (fundsReserved uuid' intent')).dedupeKey :=
    MessageKind.placeOrder.userKey_congr huser hidempotency
  exact List.inj_on_of_nodup_map d.walletOutbox.unique hmem hmem' hkey

/-- Two stored events of one reservation are the same message. -/
theorem Registered.event_unique (h : Registered self d) (hmem : message ∈ d.walletOutbox.rows)
    (hmem' : message' ∈ d.walletOutbox.rows) (hreports : ReportsReservation message id)
    (hreports' : ReportsReservation message' id) : message = message' := by
  obtain ⟨event, hpayload, hid⟩ := hreports
  obtain ⟨event', hpayload', hid'⟩ := hreports'
  obtain ⟨uuid, intent, row, rfl, hrow, horder⟩ := (h.outbox message hmem).of_reserved hpayload
  obtain ⟨uuid', intent', row', rfl, hrow', horder'⟩ :=
    (h.outbox message' hmem').of_reserved hpayload'
  have hids : "res_" ++ uuid = "res_" ++ uuid' := by
    have hreserved := (fundsReservedMessage_payload hpayload).1
    have hreserved' := (fundsReservedMessage_payload hpayload').1
    exact hreserved.symm.trans (hid.trans (hid'.symm.trans hreserved'))
  have hkey : (self.fundsReservedMessage intent (fundsReserved uuid intent)).dedupeKey =
      (self.fundsReservedMessage intent' (fundsReserved uuid' intent')).dedupeKey :=
    congrArg fundsReservedEventId hids
  exact List.inj_on_of_nodup_map d.walletOutbox.unique hmem hmem' hkey

end

/-! ## What deliveries lead to -/

/-- The part of the correspondence that the next commit relies on. -/
structure Sent (processor : WalletProcessor) (d : WalletDb) (log : List (Delivery × List Write)) :
    Prop where
  registered : Registered processor d
  ordered : ∀ row ∈ d.walletReservations.rows,
    ∃ message ∈ d.walletOutbox.rows, OrdersReservation message row.reservationId
  reported : ∀ row ∈ d.walletReservations.rows,
    ∃ message ∈ d.walletOutbox.rows, ReportsReservation message row.reservationId
  delivered : ∀ message ∈ d.walletOutbox.rows, ∀ order,
    message.payload = .engineCommand (.placeOrder order) →
      ∃ uuid intent, ReservedBy log uuid intent message ∧ Copies uuid intent order

section

variable {self : WalletProcessor} {d : WalletDb} {delivery : Delivery} {ws : List Write}

/-- Messages that a transaction queues after its other writes are stored. -/
theorem Enqueues.stored_view {before out : List Write} {messages : List NewWalletOutboxMessage}
    (h : Enqueues d.walletOutbox messages out) (hbefore : ∀ w ∈ before, w.table ≠ .walletOutbox) :
    ∀ message ∈ messages, message ∈ (view (before ++ out) d).walletOutbox.rows := by
  intro message hmem
  suffices hfind : (view (before ++ out) d).walletOutbox.find? message.dedupeKey = some message from
    Table.mem_of_find? hfind
  rw [view_append]
  generalize hd : view before d = d'
  have houtbox : d'.walletOutbox = d.walletOutbox := hd ▸ walletOutbox_view d hbefore
  clear hd
  rw [← houtbox] at h
  clear houtbox
  generalize hoff : d'.walletOutbox = outbox at h
  induction h generalizing d' with
  | nil => cases hmem
  | @stored outbox first messages out hstored _ ih =>
    rcases List.mem_cons.1 hmem with rfl | hmem
    · exact (grows_view d' out).outbox _ _ (hoff ▸ hstored)
    · exact ih hmem d' hoff
  | @added outbox first messages out hfree _ ih =>
    rw [view_cons]
    rcases List.mem_cons.1 hmem with rfl | hmem
    · refine (grows_view _ out).outbox _ _ ?_
      change (d'.walletOutbox.insert message).find? message.dedupeKey = some message
      rw [hoff]
      exact Table.find?_insert_self hfree
    · refine ih hmem _ ?_
      change d'.walletOutbox.insert first = outbox.insert first
      rw [hoff]

/-- A new reservation comes with its order and its event. -/
theorem Delivery.Commits.sends (h : delivery.Commits self d ws) {row : ReservationRow}
    (hmem : .insertReservation row ∈ ws) :
    (∃ message ∈ (view ws d).walletOutbox.rows, OrdersReservation message row.reservationId) ∧
      ∃ message ∈ (view ws d).walletOutbox.rows, ReportsReservation message row.reservationId := by
  obtain ⟨tx, events, -, hcommitted⟩ := h
  obtain ⟨uuid, intent, rfl, hrow, -⟩ := hcommitted.reserves hmem
  cases hcommitted with
  | @reserve _ _ old balance reservation reply out hhit hreservation hfree hreply hout =>
    have hbefore : ∀ w ∈ [Write.setCollateral balance, .insertReservation reservation, reply],
        w.table ≠ .walletOutbox := by simp [hreply.table]
    have hstored := hout.stored_view hbefore
    rw [hrow.reservationId]
    exact ⟨⟨_, hstored _ (List.mem_cons_of_mem _ List.mem_cons_self), _, rfl, rfl⟩,
      _, hstored _ List.mem_cons_self, _, rfl, rfl⟩

/-- The reservation of an intent. -/
theorem Committed.makes {R : WalletDb → WalletDb → Prop} {uuid : String} {intent : PlaceOrderIntent}
    {events : List WalletEvent} (h : Committed self R d (.reserve uuid intent) events ws) :
    ∃ made, .insertReservation made ∈ ws ∧ IsReservation uuid intent made := by
  cases h with
  | reserve hhit hreservation hfree hreply hout =>
    exact ⟨_, List.mem_cons_of_mem _ List.mem_cons_self, hreservation⟩

/-- Only a reservation queues an order, and it is that of the intent. -/
theorem Committed.order {R : WalletDb → WalletDb → Prop} {tx : WalletTx} {events : List WalletEvent}
    (h : Committed self R d tx events ws) {message : NewWalletOutboxMessage}
    (hmem : .insertOutbox message ∈ ws) {order : ReservedPlaceOrder}
    (hpayload : message.payload = .engineCommand (.placeOrder order)) :
    ∃ uuid intent, tx = .reserve uuid intent ∧ Copies uuid intent order := by
  rcases h.engineInput hmem hpayload with ⟨uuid, intent, rfl, horder⟩ | ⟨intent, -, hcancel⟩
  · obtain rfl := EngineCommand.placeOrder.inj horder
    exact ⟨uuid, intent, rfl, copies_intoReservedOrder⟩
  · cases hcancel

theorem Delivery.Issues.of_reserve {uuid : String} {intent : PlaceOrderIntent}
    (h : delivery.Issues (.reserve uuid intent)) :
    delivery = .command uuid (.placeOrderIntent intent) := by
  generalize htx : WalletTx.reserve uuid intent = tx at h
  cases h with
  | placeOrder =>
    cases htx
    rfl
  | @engineCommand event command _ => cases command <;> cases htx
  | _ => cases htx

/-- A new order is that of the intent that was delivered, and of its reservation. -/
theorem Delivery.Commits.copies {log : List (Delivery × List Write)} (h : delivery.Commits self d ws)
    {message : NewWalletOutboxMessage} (hmem : .insertOutbox message ∈ ws)
    {order : ReservedPlaceOrder} (hpayload : message.payload = .engineCommand (.placeOrder order)) :
    ∃ uuid intent, ReservedBy (log ++ [(delivery, ws)]) uuid intent message ∧
      Copies uuid intent order := by
  obtain ⟨tx, events, hissues, hcommitted⟩ := h
  obtain ⟨uuid, intent, rfl, hcopies⟩ := hcommitted.order hmem hpayload
  obtain ⟨made, hmade, hreservation⟩ := hcommitted.makes
  have hlogged : (.command uuid (.placeOrderIntent intent), ws) ∈ log ++ [(delivery, ws)] := by
    rw [hissues.of_reserve]
    exact List.mem_append_right _ (List.mem_singleton_self _)
  exact ⟨uuid, intent, ⟨ws, made, hlogged, hmade, hreservation, hmem⟩, hcopies⟩

theorem ReservedBy.mono {log later : List (Delivery × List Write)} {uuid : String}
    {intent : PlaceOrderIntent} {message : NewWalletOutboxMessage}
    (h : ReservedBy log uuid intent message) : ReservedBy (log ++ later) uuid intent message := by
  obtain ⟨ws, made, hlogged, hmade, hreservation, hmem⟩ := h
  exact ⟨ws, made, List.mem_append_left _ hlogged, hmade, hreservation, hmem⟩

/-- The correspondence is kept by every commit. -/
theorem Sent.commit {log : List (Delivery × List Write)} (h : Sent self d log)
    (hcommits : delivery.Commits self d ws) : Sent self (view ws d) (log ++ [(delivery, ws)]) := by
  have hgrows := grows_view d ws
  have hkept : ∀ message ∈ d.walletOutbox.rows, message ∈ (view ws d).walletOutbox.rows :=
    fun message hmem => Table.mem_of_find? (hgrows.outbox _ _ (Table.find?_of_mem hmem))
  refine ⟨h.registered.commit hcommits, fun row hrow => ?_, fun row hrow => ?_,
    fun message hmem order hpayload => ?_⟩
  · rcases mem_reservations_view hrow with ⟨before, hbefore, hsame⟩ | ⟨added, hadded, hsame⟩
    · obtain ⟨message, hmem, horders⟩ := h.ordered before hbefore
      exact ⟨message, hkept message hmem, hsame.1 ▸ horders⟩
    · rw [hsame.1]
      exact (hcommits.sends hadded).1
  · rcases mem_reservations_view hrow with ⟨before, hbefore, hsame⟩ | ⟨added, hadded, hsame⟩
    · obtain ⟨message, hmem, hreports⟩ := h.reported before hbefore
      exact ⟨message, hkept message hmem, hsame.1 ▸ hreports⟩
    · rw [hsame.1]
      exact (hcommits.sends hadded).2
  · rcases mem_outbox_view hmem with hmem | hmem
    · obtain ⟨uuid, intent, hreserved, hcopies⟩ := h.delivered message hmem order hpayload
      exact ⟨uuid, intent, hreserved.mono, hcopies⟩
    · exact hcommits.copies hmem hpayload

/-- The correspondence from its parts. -/
theorem Sent.funded {log : List (Delivery × List Write)} (h : Sent self d log) :
    Funded d log where
  oneOrder row hrow := by
    obtain ⟨message, hmem, horders⟩ := h.ordered row hrow
    refine ⟨message, ⟨hmem, horders⟩, fun message' ⟨hmem', horders'⟩ => ?_⟩
    exact h.registered.order_unique hmem' hmem horders' horders
  oneEvent row hrow := by
    obtain ⟨message, hmem, hreports⟩ := h.reported row hrow
    refine ⟨message, ⟨hmem, hreports⟩, fun message' ⟨hmem', hreports'⟩ => ?_⟩
    exact h.registered.event_unique hmem' hmem hreports' hreports
  order message hmem order hpayload := by
    obtain ⟨uuid, intent, hreserved, hcopies⟩ := h.delivered message hmem order hpayload
    obtain ⟨uuid', intent', row, hmessage, hrow, horder'⟩ :=
      (h.registered.outbox message hmem).of_order hpayload
    have hcopies' : Copies uuid' intent' order := by
      have hsame : order = intent'.intoReservedOrder ("res_" ++ uuid') :=
        placeOrderMessage_payload (hmessage ▸ hpayload)
      rw [hsame]
      exact copies_intoReservedOrder
    have horder : OrderOf uuid intent row := hcopies.orderOf hcopies' horder'
    exact ⟨row, Table.mem_of_find? hrow, horder.reservationId.trans hcopies.reservationId.symm,
      by rw [horder.userId, hcopies.envelope], horder.asset.trans hcopies.marginAsset.symm,
      horder.amount.trans hcopies.reservedMarginAmount.symm, uuid, intent, hreserved, horder, hcopies⟩
  event message hmem event hpayload := by
    obtain ⟨uuid, intent, row, rfl, hrow, horder⟩ :=
      (h.registered.outbox message hmem).of_reserved hpayload
    obtain ⟨hid, huser, hasset, hamount⟩ := fundsReservedMessage_payload hpayload
    exact ⟨row, Table.mem_of_find? hrow, horder.reservationId.trans hid.symm,
      horder.userId.trans huser.symm, horder.asset.trans hasset.symm,
      horder.amount.trans hamount.symm⟩

end

/-- Whatever is delivered, orders, reservations and events correspond one to one. -/
theorem orders_funded (self : WalletProcessor) (users : List ℤ) (actions : List (Action Delivery))
    (σ : DeliverySystem) (h : self.deliverAll users actions = some σ) :
    Funded σ.committed σ.log := by
  suffices hsent : Sent self σ.committed σ.log from hsent.funded
  refine inv_deliverAll ⟨registered_empty self users, fun _ hrow => absurd hrow List.not_mem_nil,
    fun _ hrow => absurd hrow List.not_mem_nil, fun _ hmem => absurd hmem List.not_mem_nil⟩ ?_ h
  exact fun _ _ _ _ hsent hcommits => hsent.commit hcommits

/-- User 1 deposits and places an order; the order is delivered twice. -/
def orderTwice : List (Action Delivery) :=
  let order : Delivery := .command "u1" (.placeOrderIntent
    { envelope := { requestId := "r", userId := 1, idempotencyKey := "k", replyPartition := 0 },
      orderId := 1, marketId := 1, marketName := "BTC-PERP", side := .LONG, orderType := .LIMIT,
      quantity := 1, price := 50, marginAsset := .USDC, requiredMargin := 50, leverage := 1,
      reduceOnly := false })
  [.start 0 (.command "u0" (depositOf 100 "a")), .exec 0, .exec 0, .exec 0, .exec 0, .exec 0,
   .commit 0, .start 1 order, .start 2 order, .exec 1, .exec 2, .exec 1, .exec 1, .exec 1, .exec 1,
   .exec 1, .commit 1, .exec 2, .exec 2]

theorem orders_funded_orderTwice :
    ∃ σ, WalletProcessor.new.deliverAll [1] orderTwice = some σ ∧
      σ.committed.walletReservations.rows.length = 1 ∧
      Funded σ.committed σ.log := by
  have hfinal : (WalletProcessor.new.deliverAll [1] orderTwice).map (fun σ =>
      σ.committed.walletReservations.rows.length) = some 1 := by decide
  obtain ⟨σ, hσ, hlength⟩ := Option.map_eq_some_iff.1 hfinal
  exact ⟨σ, hσ, hlength, orders_funded .new [1] orderTwice σ hσ⟩

end Wallet
