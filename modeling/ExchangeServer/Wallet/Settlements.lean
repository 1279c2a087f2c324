import ExchangeServer.Wallet.Availability
import ExchangeServer.Wallet.CrashRestart

/-!
# Trades with several legs

A trade is settled leg by leg, each in a transaction of its own that inserts a
debit and a credit row into the ledger. The rows of all legs carry the same
reference, the fill, and the ledger has one row for each user, asset, kind and
reference. Legs of one user therefore need different debit assets and different
credit assets; otherwise the later one is refused with the earlier one committed.
-/

namespace Wallet

open Protocol Relational Transactional Program

/-! ## Owners of reservations -/

/-- The users of the reservations exist. -/
def Owned (d : WalletDb) : Prop :=
  ∀ row ∈ d.walletReservations.rows, row.userId ∈ d.users

/-- A reservation is inserted for a user that exists. -/
private theorem owner_of_exec {β : Type} {s : Stmt β} {d : WalletDb} {b : β} {ws : List Write}
    {row : ReservationRow} (h : s.exec d = .ok (b, ws)) (hrow : .insertReservation row ∈ ws) :
    row.userId ∈ d.users := by
  cases s with
  | insertReservation reservationId userId asset amount idempotencyKey requestId =>
    obtain ⟨-, -, huser, added, -, hadded, -, -, -, -, -, -, rfl⟩ := execInsertReservation_ok h
    cases List.mem_singleton.1 hrow
    rwa [hadded]
  -- No other statement inserts a reservation.
  | getIdempotentReply | selectCollateral | selectReservation | outboxDuplicateMatches =>
    cases h
    exact absurd hrow List.not_mem_nil
  | updateCollateral update userId asset amount =>
    rcases execUpdateCollateral_ok h with ⟨-, rfl, -⟩ | ⟨_, _, -, -, -, -, -, -, rfl⟩
    · exact absurd hrow List.not_mem_nil
    · cases List.mem_singleton.1 hrow
  | creditCollateral userId asset amount =>
    obtain ⟨-, -, _, -, -, -, -, rfl⟩ := execCreditCollateral_ok h
    cases List.mem_singleton.1 hrow
  | applyDelta userId asset totalDelta lockedDelta =>
    rcases execApplyDelta_ok h with ⟨-, rfl⟩ | ⟨-, -, -, _, -, -, -, -, rfl⟩
    · exact absurd hrow List.not_mem_nil
    · cases List.mem_singleton.1 hrow
  | updateReservation reservationId remaining status =>
    obtain ⟨_, -, -, -, -, rfl⟩ := execUpdateReservation_ok h
    cases List.mem_singleton.1 hrow
  | insertLedger added =>
    rw [Stmt.exec] at h
    split at h
    · cases h
    · split at h
      · cases h
        cases List.mem_singleton.1 hrow
      · cases h
  | insertLedgerOnce added =>
    rw [Stmt.exec] at h
    split at h
    · cases h
      exact absurd hrow List.not_mem_nil
    · split at h
      · cases h
        cases List.mem_singleton.1 hrow
      · cases h
  | recordIdempotentReply added =>
    rcases execRecordIdempotentReply_ok h with ⟨_, -, rfl⟩ | ⟨-, -, rfl⟩
    · cases List.mem_singleton.1 hrow
    · cases List.mem_singleton.1 hrow
  | enqueueOutboxMessage message =>
    rcases execEnqueueOutboxMessage_ok h with ⟨-, rfl, -⟩ | ⟨-, rfl, -⟩
    · exact absurd hrow List.not_mem_nil
    · cases List.mem_singleton.1 hrow

theorem owned_view {β : Type} {s : Stmt β} {d : WalletDb} {b : β} {ws : List Write} (h : Owned d)
    (hexec : s.exec d = .ok (b, ws)) : Owned (view ws d) := by
  intro row hrow
  rw [users_view]
  rcases mem_reservations_view hrow with ⟨before, hbefore, hsame⟩ | ⟨added, hadded, hsame⟩
  · rw [hsame.2.1]
    exact h before hbefore
  · rw [hsame.2.1]
    exact owner_of_exec hexec hadded

theorem owned_runAll (self : WalletProcessor) (txs : List WalletTx) {d : WalletDb} (h : Owned d) :
    Owned (self.runAll txs d) := by
  induction txs generalizing d with
  | nil => exact h
  | cons tx txs ih => exact ih (run_keeps (fun _ _ _ _ hd hexec => owned_view hd hexec) _ h h)

theorem owned_empty (users : List ℤ) : Owned (.empty users) := fun _ h => (nomatch h)

/-! ## One leg -/

section Leg

variable {self : WalletProcessor} {d : WalletDb} {settle : SettleTrade} {row : ReservationRow}

/-- The balance statements of a settlement are not refused: the debit matches the
covered balance, and the credit leaves it in range. -/
private theorem wlp_settleCollateral_ok {userId : ℤ}
    {Q : Except WalletRepositoryError Unit → WalletDb → List Write → Prop}
    (hpos : 0 < settle.debitAmount) (hcredit : 0 ≤ settle.creditAmount)
    (hle : settle.debitAmount ≤ d.locked userId settle.debitAsset) (huser : userId ∈ d.users)
    (hrange : d.total userId settle.creditAsset +
      amountAt userId settle.debitAsset (-settle.debitAmount) userId settle.creditAsset +
        settle.creditAmount ≤ i64Max)
    (hQ : ∀ ws, (∀ w ∈ ws, w.table = .userCollaterals) → Q (.ok ()) d ws) :
    (settleCollateral userId settle).wlp Eq Contract.total d [] Q := by
  rw [settleCollateral, settlementCollateralEffect]
  by_cases hsame : isSameAssetReservationConsumption settle = true
  · -- The locked amount is released, and nothing is credited.
    rw [if_pos hsame]
    obtain ⟨old, row, -, -, hexec⟩ := matchesOneRow_of_locked (.inl rfl) hpos hle
    dsimp only
    rw [wlp_bind]
    refine wlp_perform_of_exec hexec (hQ _ fun w hw => ?_)
    rw [List.mem_singleton.1 hw]
    rfl
  · -- The debit comes first, so the credit may go to the balance it has lowered.
    rw [if_neg hsame]
    obtain ⟨old, row, hfound, hkey, hexec⟩ := matchesOneRow_of_locked (.inr rfl) hpos hle
    have hhit : Hits d .debit userId settle.debitAsset settle.debitAmount old row := by
      have hanswer := hexec
      rw [Stmt.exec] at hanswer
      rcases execUpdateCollateral_ok hanswer with ⟨hnone, -⟩ |
        ⟨old', row', hfound', hadmits, -, htotal, hlocked, -, hwrites⟩
      · cases hnone
      · obtain rfl := Option.some.inj (hfound.symm.trans hfound')
        cases hwrites
        exact ⟨hfound, hadmits, hkey.trans (Table.key_of_find? hfound), htotal, hlocked⟩
    have htotal := (hhit.moves userId settle.creditAsset).1
    have hdebit : CollateralUpdate.debit.total settle.debitAmount old - old.total =
        -settle.debitAmount := by
      rw [CollateralUpdate.total]
      omega
    rw [hdebit] at htotal
    have hcreditRange : (view [.setCollateral row] d).total userId settle.creditAsset +
        settle.creditAmount ≤ i64Max :=
      (congrArg (· + settle.creditAmount) htotal).trans_le hrange
    obtain ⟨credited, hcredited⟩ :=
      exec_creditCollateral hcredit (by rwa [users_view]) hcreditRange
    dsimp only
    rw [wlp_bind]
    refine wlp_perform_of_exec hexec ?_
    dsimp only
    rw [wlp_bind]
    refine wlp_perform_of_exec hcredited (hQ _ fun w hw => ?_)
    rcases List.mem_append.1 hw with hw | hw
    · rw [List.mem_singleton.1 hw]
      rfl
    · rw [List.mem_singleton.1 hw]
      rfl

/-- A leg whose checks pass, whose keys are free and whose credit is in range commits. -/
theorem execute_settle_ok (hrow : d.walletReservations.find? settle.reservationId = some row)
    (haccepted : settleRejected (reservationFromRow row) settle = false) (hcovered : Covered d)
    (huser : row.userId ∈ d.users) (hcredit : 0 ≤ settle.creditAmount)
    (hdebitFree : d.walletLedger.find? (debitLedgerRow row.userId settle).key = none)
    (hcreditFree : d.walletLedger.find? (creditLedgerRow row.userId settle).key = none)
    (hkeyFree : d.walletOutbox.find? (settleDedupeKey settle) = none)
    (hrange : d.total row.userId settle.creditAsset +
      amountAt row.userId settle.debitAsset (-settle.debitAmount) row.userId settle.creditAsset +
        settle.creditAmount ≤ i64Max) :
    ∃ events, (self.execute (.settle settle) d).1 = .ok events := by
  obtain ⟨hactive, hasset, hpos, hle⟩ := settleRejected_eq_false.1 haccepted
  have hlocked : settle.debitAmount ≤ d.locked row.userId settle.debitAsset := by
    rw [← hasset]
    exact hcovered.read hrow hactive hle
  refine run_of_wlp_total (Q := fun r _ => ∃ events, r = .ok events) ?_
  rw [WalletProcessor.program, WalletProcessor.settleTrade, WalletProcessor.applySettle,
    settleTradeWithOutbox, wlp_bind, wlp_bind, wlp_bind, reservationInTx, wlp_bind]
  have hread : (Stmt.selectReservation settle.reservationId).exec (view [] d) =
      .ok (some (reservationFromRow row), []) := by
    change Except.ok ((d.walletReservations.find? settle.reservationId).map reservationFromRow, [])
      = _
    rw [hrow]
    rfl
  refine wlp_perform_of_exec hread ?_
  change (settleReadReservation settle (reservationFromRow row) _).wlp Eq _ d [] _
  unfold settleReadReservation
  rw [if_neg (by rw [haccepted]; exact Bool.false_ne_true), wlp_bind]
  refine wlp_settleCollateral_ok hpos hcredit hlocked huser hrange fun balance hbalance => ?_
  -- The balance statements leave the other tables as they are.
  have hledger : (view balance d).walletLedger = d.walletLedger :=
    walletLedger_view _ fun w hw => by rw [hbalance w hw]; decide
  have houtbox : (view balance d).walletOutbox = d.walletOutbox :=
    walletOutbox_view _ fun w hw => by rw [hbalance w hw]; decide
  have hreservations : (view balance d).walletReservations = d.walletReservations :=
    walletReservations_view _ fun w hw => by rw [hbalance w hw]; decide
  dsimp only
  rw [wlp_bind, insertLedgerInTx]
  refine wlp_perform_of_exec (exec_insertLedger (debitLedgerRow row.userId settle)
    (by rwa [users_view]) (by rwa [hledger])) ?_
  dsimp only
  rw [wlp_bind, insertLedgerInTx]
  -- The two rows of a leg differ in their kinds.
  have hkinds : (creditLedgerRow row.userId settle).key ≠ (debitLedgerRow row.userId settle).key := by
    simp [LedgerRow.key, creditLedgerRow, debitLedgerRow]
  refine wlp_perform_of_exec (exec_insertLedger (creditLedgerRow row.userId settle)
    (by rwa [users_view]) ?_) ?_
  · rw [Store.applyAll_append]
    change ((view balance d).walletLedger.insert (debitLedgerRow row.userId settle)).find? _ = none
    rw [hledger, Table.find?_insert_of_ne hkinds]
    exact hcreditFree
  dsimp only
  rw [wlp_bind]
  have hupdate : (Stmt.updateReservation settle.reservationId
      (row.remaining - settle.debitAmount)
      (if row.remaining - settle.debitAmount = 0 then .SETTLED else .ACTIVE)).exec
        (view ((balance ++ [.insertLedger (debitLedgerRow row.userId settle)]) ++
          [.insertLedger (creditLedgerRow row.userId settle)]) d) =
      .ok (reservationFromRow (row.update (row.remaining - settle.debitAmount)
        (if row.remaining - settle.debitAmount = 0 then .SETTLED else .ACTIVE)),
        [.setReservation row.reservationId (row.remaining - settle.debitAmount)
          (if row.remaining - settle.debitAmount = 0 then .SETTLED else .ACTIVE)]) := by
    have hchecks := row.checks
    have hremaining : settle.debitAmount ≤ row.remaining := hle
    rw [Stmt.exec, view_append, view_append]
    change execUpdateReservation _ _ ((view balance d).walletReservations.find? _) = _
    rw [hreservations, hrow]
    exact if_pos ⟨by omega, by omega⟩
  refine wlp_perform_of_exec hupdate ?_
  dsimp only
  rw [wlp_bind]
  refine wlp_enqueue_free ⟨by simp [WalletProcessor.settleMessage, walletEventOutboxMessage],
    fun m hm => ?_, by simp⟩ fun out => ?_
  · cases List.mem_singleton.1 hm
    rw [view_append, view_append, view_append]
    change (view balance d).walletOutbox.find? (settleDedupeKey settle) = none
    rw [houtbox]
    exact hkeyFree
  · dsimp only
    rw [wlp_bind, wlp_commitTx]
    exact ⟨trivial, fun _ _ => ⟨_, rfl⟩⟩

/-- What a leg that has committed has found and left. -/
structure SettledLeg (d d' : WalletDb) (settle : SettleTrade) (row : ReservationRow) : Prop where
  found : d.walletReservations.find? settle.reservationId = some row
  accepted : settleRejected (reservationFromRow row) settle = false
  debit_free : d.walletLedger.find? (debitLedgerRow row.userId settle).key = none
  credit_free : d.walletLedger.find? (creditLedgerRow row.userId settle).key = none
  ledger : d'.walletLedger = (d.walletLedger.insert (debitLedgerRow row.userId settle)).insert
    (creditLedgerRow row.userId settle)
  outbox : ∀ message ∈ d'.walletOutbox.rows,
    message ∈ d.walletOutbox.rows ∨ message.dedupeKey = settleDedupeKey settle
  remaining : ∃ now, d'.walletReservations.find? settle.reservationId = some now ∧
    now.remaining = row.remaining - settle.debitAmount
  others : ∀ reservationId ≠ settle.reservationId,
    d'.walletReservations.find? reservationId = d.walletReservations.find? reservationId
  grows : d.Grows d'
  total : Covered d → ∀ u a, d'.total u a = d.total u a +
    (amountAt row.userId settle.debitAsset (-settle.debitAmount) u a +
      amountAt row.userId settle.creditAsset settle.creditAmount u a)

theorem SettledLeg.debit_stored {d' : WalletDb} (h : SettledLeg d d' settle row) :
    (d'.walletLedger.find? (debitLedgerRow row.userId settle).key).isSome := by
  obtain ⟨stored, hstored⟩ := Option.isSome_iff_exists.1
    (d.walletLedger.isSome_find?_insert (debitLedgerRow row.userId settle))
  rw [h.ledger, Table.find?_insert_of_find? hstored]
  rfl

theorem SettledLeg.credit_stored {d' : WalletDb} (h : SettledLeg d d' settle row) :
    (d'.walletLedger.find? (creditLedgerRow row.userId settle).key).isSome := by
  rw [h.ledger]
  exact Table.isSome_find?_insert _ _

theorem settledLeg_of_execute
    (h : ∃ events, (self.execute (.settle settle) d).1 = .ok events) :
    ∃ row, SettledLeg d (self.execute (.settle settle) d).2 settle row := by
  rcases self.execute_cases (.settle settle) d with
    ⟨e, he⟩ | ⟨-, _, ⟨⟩, -⟩ | ⟨events, ws, hc, he⟩
  · rw [he] at h
    exact absurd h (by simp)
  rw [he]
  -- The writes of a settlement: balances, two ledger rows, the reservation, the outbox.
  have hgrows : d.Grows (view ws d) := grows_view d ws
  have hmoves : Covered d → Moves d (view ws d) (eventTotal events) (eventLocked events) :=
    fun hcovered => hc.moves hcovered
  cases hc with
  | @settle _ v read now ws hv hread hsettles =>
    rw [hv] at hread
    obtain ⟨balance, out, hbalance, hout, rfl⟩ := hsettles.writes
    obtain rfl := Option.some.inj (hread.symm.trans hsettles.reduces.found)
    let status : ReservationStatus :=
      if read.remaining - settle.debitAmount = 0 then .SETTLED else .ACTIVE
    let settled : Write :=
      .setReservation settle.reservationId (read.remaining - settle.debitAmount) status
    have hreservations : (view (balance ++ .insertLedger (debitLedgerRow read.userId settle) ::
        .insertLedger (creditLedgerRow read.userId settle) :: settled :: out) d).walletReservations =
          (WalletDb.write settled d).walletReservations := by
      rw [append_cons_cons]
      exact walletReservations_view_single d _ (by simpa [or_imp, forall_and] using
        hbalance.not_reservations) hout.not_reservations
    refine ⟨read, hread, hsettles.accepted, hsettles.debit_free, hsettles.credit_free, ?_, ?_, ?_,
      ?_, hgrows, ?_⟩
    · have hbefore : (view balance d).walletLedger = d.walletLedger :=
        walletLedger_view _ fun w hw => by rw [hbalance.table w hw]; decide
      have hafter : ∀ d' : WalletDb, (view out d').walletLedger = d'.walletLedger := fun d' =>
        walletLedger_view d' fun w hw => by rw [hout.table w hw]; decide
      rw [view_append, view_cons, view_cons, view_cons, hafter, ← hbefore]
      rfl
    · intro message hmessage
      rcases mem_outbox_view hmessage with hmessage | hmessage
      · exact .inl hmessage
      · right
        rcases List.mem_append.1 hmessage with hmessage | hmessage
        · cases hbalance.table _ hmessage
        · simp only [List.mem_cons, reduceCtorEq, false_or] at hmessage
          cases List.mem_singleton.1 (hout.mem hmessage)
          rfl
    · refine ⟨read.update (read.remaining - settle.debitAmount) status, ?_,
        (read.update_of_le ⟨hsettles.reduces.nonneg, hsettles.reduces.le_amount⟩ status).1⟩
      refine (congrArg (fun table => table.find? settle.reservationId) hreservations).trans ?_
      change (d.updateReservation _ _ _).walletReservations.find? _ = _
      rw [WalletDb.find?_updateReservation, if_pos rfl, hread]
      rfl
    · intro reservationId hne
      refine (congrArg (fun table => table.find? reservationId) hreservations).trans ?_
      change (d.updateReservation _ _ _).walletReservations.find? _ = _
      rw [WalletDb.find?_updateReservation, if_neg hne]
    · intro hcovered u a
      have htotal := (hmoves hcovered u a).1
      rw [htotal]
      simp [eventTotal, delta_tradeSettled, reservationFromRow]

end Leg

/-! ## Lists of legs -/

/-- The settlement that a leg of a fill asks for. -/
def settleOf (fillId : ℤ) (leg : TradeSettlement) : SettleTrade where
  fillId := fillId
  reservationId := leg.reservationId
  debitAsset := leg.debitAsset
  debitAmount := leg.debitAmount
  creditAsset := leg.creditAsset
  creditAmount := leg.creditAmount

/-- The user of a reservation. -/
def ownerOf (d : WalletDb) (reservationId : String) : ℤ :=
  ((d.walletReservations.find? reservationId).map ReservationRow.userId).getD 0

/-- No two legs debit one user in one asset, and no two credit one. -/
def LegsApart (d : WalletDb) (legs : List TradeSettlement) : Prop :=
  (legs.map fun leg => (ownerOf d leg.reservationId, leg.debitAsset)).Nodup ∧
    (legs.map fun leg => (ownerOf d leg.reservationId, leg.creditAsset)).Nodup

instance (d : WalletDb) (legs : List TradeSettlement) : Decidable (LegsApart d legs) :=
  inferInstanceAs (Decidable (_ ∧ _))

/-- What the legs take from a reservation. -/
def legsDebit (reservationId : String) (legs : List TradeSettlement) : ℤ :=
  (legs.map fun leg => if leg.reservationId = reservationId then leg.debitAmount else 0).sum

/-- What a leg does to the total of a user in an asset. -/
def legNet (d : WalletDb) (u : ℤ) (a : Asset) (leg : TradeSettlement) : ℤ :=
  amountAt (ownerOf d leg.reservationId) leg.debitAsset (-leg.debitAmount) u a +
    amountAt (ownerOf d leg.reservationId) leg.creditAsset leg.creditAmount u a

def legsNet (d : WalletDb) (u : ℤ) (a : Asset) (legs : List TradeSettlement) : ℤ :=
  (legs.map (legNet d u a)).sum

theorem ownerOf_of_find? {d : WalletDb} {reservationId : String} {row : ReservationRow}
    (h : d.walletReservations.find? reservationId = some row) :
    ownerOf d reservationId = row.userId := by
  rw [ownerOf, h]
  rfl

/-- A reservation keeps its user. -/
theorem ownerOf_of_grows {d d' : WalletDb} (hgrows : d.Grows d') {reservationId : String}
    {row : ReservationRow} (h : d.walletReservations.find? reservationId = some row) :
    ownerOf d' reservationId = ownerOf d reservationId := by
  obtain ⟨row', hrow', hsame⟩ := hgrows.reservation reservationId row h
  rw [ownerOf_of_find? h, ownerOf_of_find? hrow', hsame.2.1]

/-- The reservations of the legs are stored. -/
def Stored (d : WalletDb) (legs : List TradeSettlement) : Prop :=
  ∀ leg ∈ legs, ∃ row, d.walletReservations.find? leg.reservationId = some row

theorem Stored.mono {d d' : WalletDb} {legs : List TradeSettlement} (h : Stored d legs)
    (hgrows : d.Grows d') : Stored d' legs := fun leg hleg => by
  obtain ⟨row, hrow⟩ := h leg hleg
  obtain ⟨row', hrow', -⟩ := hgrows.reservation leg.reservationId row hrow
  exact ⟨row', hrow'⟩

theorem Stored.legsApart_iff {d d' : WalletDb} {legs : List TradeSettlement} (h : Stored d legs)
    (hgrows : d.Grows d') : LegsApart d' legs ↔ LegsApart d legs := by
  have howner : ∀ leg ∈ legs, ownerOf d' leg.reservationId = ownerOf d leg.reservationId :=
    fun leg hleg => by
      obtain ⟨row, hrow⟩ := h leg hleg
      exact ownerOf_of_grows hgrows hrow
  rw [LegsApart, LegsApart,
    List.map_congr_left fun leg hleg => congrArg (Prod.mk · leg.debitAsset) (howner leg hleg),
    List.map_congr_left fun leg hleg => congrArg (Prod.mk · leg.creditAsset) (howner leg hleg)]

theorem Stored.legsNet_eq {d d' : WalletDb} {legs : List TradeSettlement} (h : Stored d legs)
    (hgrows : d.Grows d') (u : ℤ) (a : Asset) : legsNet d' u a legs = legsNet d u a legs := by
  rw [legsNet, legsNet]
  refine congrArg List.sum (List.map_congr_left fun leg hleg => ?_)
  obtain ⟨row, hrow⟩ := h leg hleg
  rw [legNet, legNet, ownerOf_of_grows hgrows hrow]

section Legs

variable {self : WalletProcessor} {d : WalletDb} {fillId : ℤ}

/-- Settlements of some legs of a fill. -/
def WalletProcessor.settleLegs (self : WalletProcessor) (fillId : ℤ) (legs : List TradeSettlement)
    (d : WalletDb) : Except WalletRepositoryError Unit × WalletDb :=
  self.runCommands (legs.map (settlementCommand fillId)) d

/-- After a leg that commits come the others. -/
theorem settleLegs_cons {leg : TradeSettlement} {legs : List TradeSettlement}
    (h : ∃ events, (self.execute (.settle (settleOf fillId leg)) d).1 = .ok events) :
    self.settleLegs fillId (leg :: legs) d =
      self.settleLegs fillId legs (self.execute (.settle (settleOf fillId leg)) d).2 := by
  obtain ⟨events, hevents⟩ := h
  have htx : (settlementCommand fillId leg).tx = .settle (settleOf fillId leg) := rfl
  rw [WalletProcessor.settleLegs, List.map_cons, self.runCommands_cons, htx]
  cases hexecute : self.execute (.settle (settleOf fillId leg)) d with
  | mk result d' =>
    rw [hexecute] at hevents
    dsimp only at hevents
    subst hevents
    rfl

/-- The first leg of a success has committed. -/
theorem execute_of_settleLegs {leg : TradeSettlement} {legs : List TradeSettlement}
    (h : (self.settleLegs fillId (leg :: legs) d).1 = .ok ()) :
    ∃ events, (self.execute (.settle (settleOf fillId leg)) d).1 = .ok events :=
  (execute_of_runCommands h).1

/-- When all legs commit, each reservation gives what its legs take. -/
theorem remaining_of_settleLegs {legs : List TradeSettlement}
    (h : (self.settleLegs fillId legs d).1 = .ok ()) {reservationId : String}
    {row : ReservationRow} (hrow : d.walletReservations.find? reservationId = some row) :
    ∃ now, (self.settleLegs fillId legs d).2.walletReservations.find? reservationId = some now ∧
      now.remaining = row.remaining - legsDebit reservationId legs := by
  induction legs generalizing d row with
  | nil => exact ⟨row, hrow, (sub_zero _).symm⟩
  | cons leg legs ih =>
    have hfirst := execute_of_settleLegs h
    obtain ⟨read, hleg⟩ := settledLeg_of_execute hfirst
    rw [settleLegs_cons hfirst] at h ⊢
    rw [legsDebit, List.map_cons, List.sum_cons]
    by_cases hid : leg.reservationId = reservationId
    · subst hid
      obtain ⟨now, hnow, hremaining⟩ := hleg.remaining
      obtain rfl : read = row := Option.some.inj (hleg.found.symm.trans hrow)
      obtain ⟨last, hlast, hsum⟩ := ih h hnow
      refine ⟨last, hlast, ?_⟩
      rw [if_pos rfl, hsum, hremaining, legsDebit, settleOf]
      ring
    · have hkept := hleg.others reservationId (Ne.symm hid)
      obtain ⟨last, hlast, hsum⟩ := ih h (hkept.trans hrow)
      refine ⟨last, hlast, ?_⟩
      rw [if_neg hid, zero_add, hsum, legsDebit]

/-- A ledger row of an earlier leg is met by every later leg. -/
private theorem free_of_settleLegs {legs : List TradeSettlement} (hstored : Stored d legs)
    (h : (self.settleLegs fillId legs d).1 = .ok ()) {leg : TradeSettlement} (hleg : leg ∈ legs) :
    d.walletLedger.find?
        (debitLedgerRow (ownerOf d leg.reservationId) (settleOf fillId leg)).key = none ∧
      d.walletLedger.find?
        (creditLedgerRow (ownerOf d leg.reservationId) (settleOf fillId leg)).key = none := by
  obtain ⟨d', hgrows, hexecute, -⟩ := exists_execute h (List.mem_map_of_mem hleg)
  obtain ⟨read, hsettled⟩ :
      ∃ read, SettledLeg d' (self.execute (.settle (settleOf fillId leg)) d').2 (settleOf fillId leg)
        read := settledLeg_of_execute hexecute
  obtain ⟨row, hrow⟩ := hstored leg hleg
  have howner : ownerOf d leg.reservationId = read.userId :=
    (ownerOf_of_grows hgrows hrow).symm.trans (ownerOf_of_find? hsettled.found)
  have hfree : ∀ {key}, d'.walletLedger.find? key = none → d.walletLedger.find? key = none := by
    intro key hnone
    rw [← Option.not_isSome_iff_eq_none] at hnone ⊢
    exact fun hsome => hnone (hgrows.isSome_ledger hsome)
  rw [howner]
  exact ⟨hfree hsettled.debit_free, hfree hsettled.credit_free⟩

/-- Legs that all commit are apart. -/
theorem legsApart_of_settleLegs {legs : List TradeSettlement} (hstored : Stored d legs)
    (h : (self.settleLegs fillId legs d).1 = .ok ()) : LegsApart d legs := by
  induction legs generalizing d with
  | nil => exact ⟨List.nodup_nil, List.nodup_nil⟩
  | cons leg legs ih =>
    have hfirst := execute_of_settleLegs h
    obtain ⟨row, hleg⟩ := settledLeg_of_execute hfirst
    have htail : Stored d legs := fun leg' hleg' => hstored leg' (List.mem_cons_of_mem _ hleg')
    rw [settleLegs_cons hfirst] at h
    have hlater := htail.mono hleg.grows
    have hapart := (htail.legsApart_iff hleg.grows).1 (ih hlater h)
    have howner : ownerOf d leg.reservationId = row.userId := ownerOf_of_find? hleg.found
    -- The rows of the first leg are there when the others run.
    have hnew : ∀ leg' ∈ legs,
        (ownerOf d leg'.reservationId, leg'.debitAsset) ≠ (row.userId, leg.debitAsset) ∧
          (ownerOf d leg'.reservationId, leg'.creditAsset) ≠ (row.userId, leg.creditAsset) := by
      intro leg' hleg'
      obtain ⟨row', hrow'⟩ := htail leg' hleg'
      obtain ⟨hdebit, hcredit⟩ := free_of_settleLegs hlater h hleg'
      rw [ownerOf_of_grows hleg.grows hrow'] at hdebit hcredit
      constructor
      · intro heq
        obtain ⟨huser, hasset⟩ := Prod.mk.inj heq
        have hkey : (debitLedgerRow (ownerOf d leg'.reservationId) (settleOf fillId leg')).key =
            (debitLedgerRow row.userId (settleOf fillId leg)).key := by
          rw [huser]
          exact congrArg (fun asset => (row.userId, asset, "TRADE_DEBIT", toString fillId)) hasset
        have hsome := hleg.debit_stored
        rw [← hkey, hdebit] at hsome
        cases hsome
      · intro heq
        obtain ⟨huser, hasset⟩ := Prod.mk.inj heq
        have hkey : (creditLedgerRow (ownerOf d leg'.reservationId) (settleOf fillId leg')).key =
            (creditLedgerRow row.userId (settleOf fillId leg)).key := by
          rw [huser]
          exact congrArg (fun asset => (row.userId, asset, "TRADE_CREDIT", toString fillId)) hasset
        have hsome := hleg.credit_stored
        rw [← hkey, hcredit] at hsome
        cases hsome
    constructor
    · rw [List.map_cons, List.nodup_cons, howner]
      refine ⟨fun hmem => ?_, hapart.1⟩
      obtain ⟨leg', hleg', heq⟩ := List.mem_map.1 hmem
      exact (hnew leg' hleg').1 heq
    · rw [List.map_cons, List.nodup_cons, howner]
      refine ⟨fun hmem => ?_, hapart.2⟩
      obtain ⟨leg', hleg', heq⟩ := List.mem_map.1 hmem
      exact (hnew leg' hleg').2 heq

/-- What lets every leg commit, whichever user it belongs to. -/
structure Ready (d : WalletDb) (fillId : ℤ) (legs : List TradeSettlement) : Prop where
  accepted : ∀ leg ∈ legs, ∃ row, d.walletReservations.find? leg.reservationId = some row ∧
    settleRejected (reservationFromRow row) (settleOf fillId leg) = false
  credit_nonneg : ∀ leg ∈ legs, 0 ≤ leg.creditAmount
  debit_free : ∀ leg ∈ legs, d.walletLedger.find?
    (debitLedgerRow (ownerOf d leg.reservationId) (settleOf fillId leg)).key = none
  credit_free : ∀ leg ∈ legs, d.walletLedger.find?
    (creditLedgerRow (ownerOf d leg.reservationId) (settleOf fillId leg)).key = none
  key_free : ∀ leg ∈ legs, ∀ message ∈ d.walletOutbox.rows,
    message.dedupeKey ≠ settleDedupeKey (settleOf fillId leg)
  in_range : ∀ k u a, d.total u a + legsNet d u a (legs.take k) ≤ i64Max

theorem Ready.stored {legs : List TradeSettlement} (h : Ready d fillId legs) : Stored d legs :=
  fun leg hleg => by
    obtain ⟨row, hrow, -⟩ := h.accepted leg hleg
    exact ⟨row, hrow⟩

/-- The first leg commits. -/
theorem Ready.execute_first {leg : TradeSettlement} {legs : List TradeSettlement}
    (h : Ready d fillId (leg :: legs)) (hcovered : Covered d) (howned : Owned d) :
    ∃ events, (self.execute (.settle (settleOf fillId leg)) d).1 = .ok events := by
  obtain ⟨row, hrow, haccepted⟩ := h.accepted leg List.mem_cons_self
  have howner : ownerOf d leg.reservationId = row.userId := ownerOf_of_find? hrow
  have hdebit := h.debit_free leg List.mem_cons_self
  have hcredit := h.credit_free leg List.mem_cons_self
  have hrange := h.in_range 1 row.userId leg.creditAsset
  have hself : amountAt row.userId leg.creditAsset leg.creditAmount row.userId leg.creditAsset =
      leg.creditAmount := if_pos ⟨rfl, rfl⟩
  rw [howner] at hdebit hcredit
  rw [legsNet, List.take_succ_cons, List.take_zero, List.map_singleton, List.sum_singleton, legNet,
    howner, hself, ← add_assoc] at hrange
  have hcreditNonneg : 0 ≤ (settleOf fillId leg).creditAmount := h.credit_nonneg leg List.mem_cons_self
  exact execute_settle_ok hrow haccepted hcovered (howned row (Table.mem_of_find? hrow))
    hcreditNonneg hdebit hcredit
    (Table.find?_eq_none_iff.2 (h.key_free leg List.mem_cons_self)) hrange

/-- The others are ready after it when they are apart from it. -/
theorem Ready.rest {leg : TradeSettlement} {legs : List TradeSettlement}
    (h : Ready d fillId (leg :: legs)) (hapart : LegsApart d (leg :: legs)) (hcovered : Covered d)
    {d' : WalletDb} {row : ReservationRow} (hleg : SettledLeg d d' (settleOf fillId leg) row) :
    Ready d' fillId legs := by
  have hmem : ∀ leg' ∈ legs, leg' ∈ leg :: legs := fun leg' => List.mem_cons_of_mem leg
  have htail : Stored d legs := fun leg' hleg' => h.stored leg' (hmem leg' hleg')
  have howner : ownerOf d leg.reservationId = row.userId := ownerOf_of_find? hleg.found
  obtain ⟨hdebits, hcredits⟩ := hapart
  rw [List.map_cons, List.nodup_cons, howner] at hdebits hcredits
  -- A reservation never changes its user.
  have hkept : ∀ leg' ∈ legs, ownerOf d' leg'.reservationId = ownerOf d leg'.reservationId :=
    fun leg' hleg' => by
      obtain ⟨row', hrow'⟩ := htail leg' hleg'
      exact ownerOf_of_grows hleg.grows hrow'
  -- Two legs on one reservation would debit one user in one asset.
  have hother : ∀ leg' ∈ legs, leg'.reservationId ≠ leg.reservationId := by
    intro leg' hleg' hid
    obtain ⟨row', hrow', haccepted'⟩ := h.accepted leg' (hmem leg' hleg')
    obtain rfl : row' = row := Option.some.inj ((hid ▸ hrow').symm.trans hleg.found)
    have hasset := (settleRejected_eq_false.1 hleg.accepted).2.1
    have hasset' := (settleRejected_eq_false.1 haccepted').2.1
    have hsame : leg'.debitAsset = leg.debitAsset := hasset'.symm.trans hasset
    refine hdebits.1 (List.mem_map.2 ⟨leg', hleg', Prod.ext ?_ hsame⟩)
    rw [hid]
    exact howner
  refine ⟨fun leg' hleg' => ?_, fun leg' hleg' => h.credit_nonneg leg' (hmem leg' hleg'),
    fun leg' hleg' => ?_, fun leg' hleg' => ?_, fun leg' hleg' message hmessage => ?_,
    fun k u a => ?_⟩
  · obtain ⟨row', hrow', haccepted'⟩ := h.accepted leg' (hmem leg' hleg')
    exact ⟨row', (hleg.others _ (hother leg' hleg')).trans hrow', haccepted'⟩
  · rw [hkept leg' hleg', hleg.ledger, Table.find?_insert_of_ne, Table.find?_insert_of_ne]
    · exact h.debit_free leg' (hmem leg' hleg')
    · intro heq
      obtain ⟨huser, hrest⟩ := Prod.mk.inj heq
      exact hdebits.1 (List.mem_map.2 ⟨leg', hleg', Prod.ext huser (Prod.mk.inj hrest).1⟩)
    · simp [LedgerRow.key, debitLedgerRow, creditLedgerRow]
  · rw [hkept leg' hleg', hleg.ledger, Table.find?_insert_of_ne, Table.find?_insert_of_ne]
    · exact h.credit_free leg' (hmem leg' hleg')
    · simp [LedgerRow.key, debitLedgerRow, creditLedgerRow]
    · intro heq
      obtain ⟨huser, hrest⟩ := Prod.mk.inj heq
      exact hcredits.1 (List.mem_map.2 ⟨leg', hleg', Prod.ext huser (Prod.mk.inj hrest).1⟩)
  · rcases hleg.outbox message hmessage with hmessage | hkey
    · exact h.key_free leg' (hmem leg' hleg') message hmessage
    · intro heq
      rw [hkey, settleDedupeKey_eq, settleDedupeKey_eq, String.append_right_inj] at heq
      exact hother leg' hleg' ((String.append_right_inj _).1 heq).symm
  · -- The sums of the rest are those of one leg more in front of the first.
    have htotal := hleg.total hcovered u a
    have hrange := h.in_range (k + 1) u a
    have hfirst : Stored d (legs.take k) := fun leg' hleg' => htail leg' (List.mem_of_mem_take hleg')
    rw [legsNet, List.take_succ_cons, List.map_cons, List.sum_cons, legNet, howner] at hrange
    rw [hfirst.legsNet_eq hleg.grows, htotal, legsNet]
    simp only [settleOf] at *
    omega

/-- Legs that are ready and apart all commit. -/
theorem settleLegs_ok {legs : List TradeSettlement} (h : Ready d fillId legs)
    (hapart : LegsApart d legs) {deltas : ℤ → Asset → ℤ} (hbacked : Backed d deltas)
    (howned : Owned d) : (self.settleLegs fillId legs d).1 = .ok () := by
  induction legs generalizing d deltas with
  | nil => rfl
  | cons leg legs ih =>
    have hfirst : ∃ events, (self.execute (.settle (settleOf fillId leg)) d).1 = .ok events :=
      h.execute_first hbacked.covered howned
    obtain ⟨row, hleg⟩ := settledLeg_of_execute hfirst
    have hrest := h.rest hapart hbacked.covered hleg
    have hstored : Stored d legs := fun leg' hleg' => h.stored leg' (List.mem_cons_of_mem _ hleg')
    have hapart' : LegsApart d legs := ⟨(List.nodup_cons.1 hapart.1).2, (List.nodup_cons.1 hapart.2).2⟩
    rw [settleLegs_cons hfirst]
    exact ih hrest ((hstored.legsApart_iff hleg.grows).2 hapart')
      (backed_runAll self [.settle (settleOf fillId leg)] hbacked)
      (owned_runAll self [.settle (settleOf fillId leg)] howned)

end Legs

/-! ## Trades -/

/-- A trade the wallet can settle: it charges no fees, its fill is new, each leg
takes a positive amount from an active reservation of the asset it debits, the
legs of a reservation take no more than it holds, and no total leaves its range
while the legs are settled one after the other. -/
structure ConsistentTrade (d : WalletDb) (trade : TradeExecuted) : Prop where
  no_fees : trade.feeDeltas = []
  new_ledger : ∀ row ∈ d.walletLedger.rows, row.referenceId ≠ toString trade.fillId
  new_outbox : ∀ message ∈ d.walletOutbox.rows, ∀ reservationId,
    message.dedupeKey ≠ "wallet-event:trade-settled:" ++ toString trade.fillId ++ ":" ++ reservationId
  active : ∀ leg ∈ trade.settlements, ∃ row, d.walletReservations.find? leg.reservationId = some row ∧
    row.status = .ACTIVE ∧ row.asset = leg.debitAsset
  debit_pos : ∀ leg ∈ trade.settlements, 0 < leg.debitAmount
  credit_nonneg : ∀ leg ∈ trade.settlements, 0 ≤ leg.creditAmount
  covered : ∀ row ∈ d.walletReservations.rows,
    legsDebit row.reservationId trade.settlements ≤ row.remaining
  in_range : ∀ k u a, d.total u a + legsNet d u a (trade.settlements.take k) ≤ i64Max

/-- Every settlement of the trade commits, and each reservation gives exactly what
its legs take. -/
def SettlesCompletely (self : WalletProcessor) (trade : TradeExecuted) (d : WalletDb) : Prop :=
  (self.processEvent (.tradeExecuted trade) d).1 = .ok () ∧
    ∀ reservationId row, d.walletReservations.find? reservationId = some row →
      ∃ now, (self.processEvent (.tradeExecuted trade) d).2.walletReservations.find? reservationId =
          some now ∧ now.remaining = row.remaining - legsDebit reservationId trade.settlements

/-- A leg takes no more than the legs of its reservation together. -/
private theorem le_legsDebit {legs : List TradeSettlement} (hpos : ∀ leg ∈ legs, 0 < leg.debitAmount)
    {leg : TradeSettlement} (hleg : leg ∈ legs) :
    leg.debitAmount ≤ legsDebit leg.reservationId legs := by
  have hnonneg : ∀ x ∈ legs.map (fun leg' =>
      if leg'.reservationId = leg.reservationId then leg'.debitAmount else 0), 0 ≤ x := by
    intro x hx
    obtain ⟨leg', hleg', rfl⟩ := List.mem_map.1 hx
    split
    · exact (hpos leg' hleg').le
    · exact le_rfl
  exact List.single_le_sum hnonneg _ (List.mem_map.2 ⟨leg, hleg, if_pos rfl⟩)

theorem ConsistentTrade.ready {d : WalletDb} {trade : TradeExecuted} (h : ConsistentTrade d trade) :
    Ready d trade.fillId trade.settlements where
  accepted leg hleg := by
    obtain ⟨row, hrow, hactive, hasset⟩ := h.active leg hleg
    have hid : row.reservationId = leg.reservationId := Table.key_of_find? hrow
    have hle := le_legsDebit h.debit_pos hleg
    have hcovered := h.covered row (Table.mem_of_find? hrow)
    rw [hid] at hcovered
    exact ⟨row, hrow, settleRejected_eq_false.2
      ⟨hactive, hasset, h.debit_pos leg hleg, hle.trans hcovered⟩⟩
  credit_nonneg := h.credit_nonneg
  debit_free leg _ := Table.find?_eq_none_iff.2 fun row hrow hkey =>
    h.new_ledger row hrow (Prod.mk.inj (Prod.mk.inj (Prod.mk.inj hkey).2).2).2
  credit_free leg _ := Table.find?_eq_none_iff.2 fun row hrow hkey =>
    h.new_ledger row hrow (Prod.mk.inj (Prod.mk.inj (Prod.mk.inj hkey).2).2).2
  key_free leg _ message hmessage := h.new_outbox message hmessage leg.reservationId
  in_range := h.in_range

/-- A trade without fees is processed leg by leg. -/
theorem processEvent_tradeExecuted (self : WalletProcessor) {trade : TradeExecuted}
    (h : trade.feeDeltas = []) (d : WalletDb) :
    self.processEvent (.tradeExecuted trade) d =
      self.settleLegs trade.fillId trade.settlements d := by
  rw [WalletProcessor.processEvent, engineWalletCommandsFromEngineEvent, h, List.mapIdx_nil,
    List.append_nil, WalletProcessor.settleLegs]

/-- A consistent trade settles completely exactly when no two of its legs debit
one user in one asset and no two credit one user in one asset. -/
theorem settles_completely_iff (self : WalletProcessor) (users : List ℤ) (txs : List WalletTx)
    {trade : TradeExecuted} (h : ConsistentTrade (self.runAll txs (.empty users)) trade) :
    SettlesCompletely self trade (self.runAll txs (.empty users)) ↔
      LegsApart (self.runAll txs (.empty users)) trade.settlements := by
  rw [SettlesCompletely, processEvent_tradeExecuted self h.no_fees]
  constructor
  · intro hsettles
    exact legsApart_of_settleLegs h.ready.stored hsettles.1
  · intro hapart
    have hok : (self.settleLegs trade.fillId trade.settlements
        (self.runAll txs (.empty users))).1 = .ok () := settleLegs_ok h.ready hapart (backed_runAll self txs (backed_empty users))
      (owned_runAll self txs (owned_empty users))
    exact ⟨hok, fun reservationId row hrow => remaining_of_settleLegs hok hrow⟩

/-- A leg that consumes what it credits leaves every total as it is. -/
private theorem legNet_of_consumption {leg : TradeSettlement} (hasset : leg.debitAsset = leg.creditAsset)
    (hamount : leg.debitAmount = leg.creditAmount) (d : WalletDb) (u : ℤ) (a : Asset) :
    legNet d u a leg = 0 := by
  rw [legNet, hasset, hamount]
  unfold amountAt
  split <;> omega

/-- A second reservation of the same user. -/
def twoReservations : List WalletTx :=
  depositAndReserve ++
    [.reserve "u2"
      { envelope := { requestId := "r", userId := 1, idempotencyKey := "k3", replyPartition := 0 }
        orderId := 2, marketId := 1, marketName := "BTC-PERP", side := .SHORT
        orderType := .LIMIT, quantity := 1, price := 50, marginAsset := .USDC
        requiredMargin := 50, leverage := 1, reduceOnly := false }]

/-- A leg that consumes 20 of the margin a reservation holds. -/
def consumption (reservationId : String) : TradeSettlement where
  reservationId := reservationId
  debitAsset := .USDC
  debitAmount := 20
  creditAsset := .USDC
  creditAmount := 20

/-- A fill of two orders of user 1 with some legs. -/
def selfTrade (legs : List TradeSettlement) : TradeExecuted where
  engineEventId := none
  engineSequence := 9
  engineTimestampMs := 1000
  sourceInputId := none
  sourceInputOffset := none
  fillId := 7
  marketId := 1
  price := 50
  quantity := 1
  makerOrderId := 1
  takerOrderId := 2
  makerUserId := 1
  takerUserId := 1
  makerReservationId := some "res_u1"
  takerReservationId := some "res_u2"
  executionReason := .TRADE
  liquidationId := none
  liquidatedUserId := none
  positionSide := none
  liquidationFee := none
  feeDeltas := []
  settlements := legs

/-- The state after both reservations. -/
def reservedTwice : WalletDb := WalletProcessor.new.runAll twoReservations (.empty [1])

/-- A deposit of another user and a reservation of it. -/
def bothReserve : List WalletTx :=
  let envelope (idempotencyKey : String) : CommandEnvelope :=
    { requestId := "r", userId := 2, idempotencyKey, replyPartition := 0 }
  twoReservations ++
    [.deposit { envelope := envelope "k4", asset := .USDC, amount := 30, referenceId := "ref" },
     .reserve "u3"
      { envelope := envelope "k5", orderId := 3, marketId := 1, marketName := "BTC-PERP",
        side := .SHORT, orderType := .LIMIT, quantity := 1, price := 50, marginAsset := .USDC,
        requiredMargin := 30, leverage := 1, reduceOnly := false }]

/-- The state after the reservations of both users. -/
def reservedByBoth : WalletDb := WalletProcessor.new.runAll bothReserve (.empty [1, 2])

/-- A fill of an order of user 1 and one of user 2. -/
def tradeOfBoth (legs : List TradeSettlement) : TradeExecuted :=
  { selfTrade legs with
    takerOrderId := 3
    takerUserId := 2
    takerReservationId := some "res_u3" }

private theorem consistent_consumptions {d : WalletDb} {trade : TradeExecuted} {ids : List String}
    (hfees : trade.feeDeltas = []) (hfill : trade.fillId = 7)
    (hlegs : trade.settlements = ids.map consumption)
    (hledger : ∀ row ∈ d.walletLedger.rows, row.referenceId ≠ toString (7 : ℤ))
    (houtbox : ∀ m ∈ d.walletOutbox.rows, KeyText.Apart m.dedupeKey MessageKind.tradeSettled.head)
    (hactive : ∀ id ∈ ids, ∃ row, d.walletReservations.find? id = some row ∧
      row.status = .ACTIVE ∧ row.asset = .USDC)
    (hcovered : ∀ row ∈ d.walletReservations.rows,
      legsDebit row.reservationId (ids.map consumption) ≤ row.remaining) :
    ConsistentTrade d trade where
  no_fees := hfees
  new_ledger := by
    rw [hfill]
    exact hledger
  new_outbox message hmessage reservationId heq := by
    rw [hfill] at heq
    refine KeyText.append_ne_of_apart (houtbox message hmessage) "" (toString (7 : ℤ) ++ ":" ++
      reservationId) ?_
    rw [String.append_empty, heq]
    exact settleDedupeKey_eq (settleOf 7 (consumption reservationId))
  active leg hleg := by
    rw [hlegs] at hleg
    obtain ⟨id, hid, rfl⟩ := List.mem_map.1 hleg
    exact hactive id hid
  debit_pos leg hleg := by
    rw [hlegs] at hleg
    obtain ⟨id, -, rfl⟩ := List.mem_map.1 hleg
    exact Int.natCast_pos.2 (Nat.succ_pos 19)
  credit_nonneg leg hleg := by
    rw [hlegs] at hleg
    obtain ⟨id, -, rfl⟩ := List.mem_map.1 hleg
    exact Int.natCast_nonneg 20
  covered := by
    rw [hlegs]
    exact hcovered
  in_range k u a := by
    have hzero : legsNet d u a ((ids.map consumption).take k) = 0 := by
      refine List.sum_eq_zero fun x hx => ?_
      obtain ⟨leg, hleg, rfl⟩ := List.mem_map.1 hx
      obtain ⟨id, -, rfl⟩ := List.mem_map.1 (List.mem_of_mem_take hleg)
      exact legNet_of_consumption rfl rfl _ _ _
    rw [hlegs, hzero, add_zero]
    exact (d.balance_checks u a).2.2

theorem settles_completely_twoUsers :
    ownerOf reservedByBoth "res_u1" = 1 ∧ ownerOf reservedByBoth "res_u3" = 2 ∧
      SettlesCompletely .new (tradeOfBoth [consumption "res_u1", consumption "res_u3"])
        reservedByBoth := by
  have hconsistent : ConsistentTrade reservedByBoth
      (tradeOfBoth [consumption "res_u1", consumption "res_u3"]) :=
    @consistent_consumptions _ _ ["res_u1", "res_u3"] rfl rfl rfl (by decide +kernel)
      (by decide +kernel) (by decide +kernel) (by decide +kernel)
  exact ⟨by decide +kernel, by decide +kernel,
    (settles_completely_iff .new [1, 2] bothReserve hconsistent).2 (by decide +kernel)⟩

/-- A fill of two orders of one user stops the wallet after its first leg. -/
theorem selfTrade_settles_half :
    ConsistentTrade reservedTwice (selfTrade [consumption "res_u1", consumption "res_u2"]) ∧
      ¬SettlesCompletely .new (selfTrade [consumption "res_u1", consumption "res_u2"])
        reservedTwice := by
  have hconsistent : ConsistentTrade reservedTwice
      (selfTrade [consumption "res_u1", consumption "res_u2"]) :=
    @consistent_consumptions _ _ ["res_u1", "res_u2"] rfl rfl rfl (by decide) (by decide)
      (by decide) (by decide)
  refine ⟨hconsistent, fun h => ?_⟩
  have hok := h.1
  rw [processEvent_tradeExecuted _ rfl] at hok
  exact absurd (legsApart_of_settleLegs hconsistent.ready.stored hok) (by decide)

end Wallet
