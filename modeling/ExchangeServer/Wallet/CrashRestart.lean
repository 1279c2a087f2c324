import ExchangeServer.Wallet.Deliveries
import ExchangeServer.Wallet.LockedFunds

/-!
# Restarts in the middle of an engine event

The commands of an engine event commit one by one, and the offset of the event
is saved after the last one. A wallet that restarts in between runs the event
again from its first command. An account delta is recognized by its ledger row
and skipped; a settlement meets its ledger row as a violated constraint and
stops the wallet; a release leaves no row behind and is made a second time, or
is rejected and stops the wallet.
-/

namespace Wallet

open Protocol Relational Transactional Program

namespace WalletProcessor

variable (self : WalletProcessor)

/-- Some commands of an event, from what is committed. -/
def runCommands (commands : List EngineWalletCommand) (d : WalletDb) :
    Except WalletRepositoryError Unit × WalletDb :=
  (processEngineCommands self commands).run d d

/-- One uninterrupted processing of an event. -/
def processEvent (event : EngineEvent) (d : WalletDb) :
    Except WalletRepositoryError Unit × WalletDb :=
  self.runCommands (engineWalletCommandsFromEngineEvent event) d

/-- What is committed when the wallet stops after `k` commands of an event. -/
def crashAfter (k : ℕ) (event : EngineEvent) (d : WalletDb) : WalletDb :=
  (self.runCommands ((engineWalletCommandsFromEngineEvent event).take k) d).2

/-- Processing an event again after a crash succeeds, and the funds, the
reservations and the ledger end as after one processing. -/
def CrashSafe (event : EngineEvent) (k : ℕ) (d : WalletDb) : Prop :=
  (self.processEvent event (self.crashAfter k event d)).1 = .ok () ∧
    (self.processEvent event (self.crashAfter k event d)).2.userCollaterals =
      (self.processEvent event d).2.userCollaterals ∧
    (self.processEvent event (self.crashAfter k event d)).2.walletReservations =
      (self.processEvent event d).2.walletReservations ∧
    (self.processEvent event (self.crashAfter k event d)).2.walletLedger =
      (self.processEvent event d).2.walletLedger

/-- A command of an event is the transaction it stands for. -/
theorem execute_tx (command : EngineWalletCommand) (d : WalletDb) :
    self.execute command.tx d =
      (((self.processEngineCommand command).run d d).1.map WalletProcessResult.walletEvents,
        ((self.processEngineCommand command).run d d).2) := by
  cases command <;> exact run_bind_pure _ _ d d

theorem runCommands_cons (command : EngineWalletCommand) (commands : List EngineWalletCommand)
    (d : WalletDb) : self.runCommands (command :: commands) d =
      match self.execute command.tx d with
      | (.ok _, d') => self.runCommands commands d'
      | (.error e, d') => (.error e, d') := by
  have hclosed : (self.processEngineCommand command).wlp Eq ⟨fun _ _ => True, fun _ _ => True⟩ d []
      fun r _ ws => ∀ a, r = .ok a → ws = [] :=
    wlp_processEngineCommand command reads_eq (fun _ _ => trivial) (fun _ _ _ _ h => nomatch h)
      (fun _ _ _ _ => rfl) (fun _ _ _ _ => trivial) d
  rw [runCommands, processEngineCommands, execute_tx]
  refine (run_bind_of_wlp hclosed).trans ?_
  rw [Store.applyAll_nil]
  cases h : (self.processEngineCommand command).run d d with
  | mk result d' => cases result <;> rfl

theorem runCommands_append (commands commands' : List EngineWalletCommand) (d : WalletDb) :
    self.runCommands (commands ++ commands') d =
      match self.runCommands commands d with
      | (.ok _, d') => self.runCommands commands' d'
      | (.error e, d') => (.error e, d') := by
  induction commands generalizing d with
  | nil => rfl
  | cons command commands ih =>
    rw [List.cons_append, runCommands_cons, runCommands_cons]
    cases h : self.execute command.tx d with
    | mk result d' =>
      cases result with
      | error e => rfl
      | ok events => exact ih d'

end WalletProcessor

section Execute

variable {self : WalletProcessor} {d : WalletDb}

theorem grows_execute (self : WalletProcessor) (tx : WalletTx) (d : WalletDb) :
    d.Grows (self.execute tx d).2 := by
  rcases self.execute_cases tx d with ⟨e, he⟩ | ⟨he, -⟩ | ⟨events, ws, -, he⟩
  · rw [he]
    exact .refl d
  · rw [he]
    exact .refl d
  · rw [he]
    exact grows_view d ws

/-- The first command of a successful run has succeeded. -/
theorem execute_of_runCommands {command : EngineWalletCommand}
    {commands : List EngineWalletCommand} (h : (self.runCommands (command :: commands) d).1 = .ok ()) :
    (∃ events, (self.execute command.tx d).1 = .ok events) ∧
      self.runCommands (command :: commands) d =
        self.runCommands commands (self.execute command.tx d).2 := by
  rw [self.runCommands_cons] at h ⊢
  cases he : self.execute command.tx d with
  | mk result d' =>
    cases result with
    | error e =>
      rw [he] at h
      cases h
    | ok events => exact ⟨⟨events, rfl⟩, rfl⟩

theorem grows_runCommands {commands : List EngineWalletCommand}
    (h : (self.runCommands commands d).1 = .ok ()) : d.Grows (self.runCommands commands d).2 := by
  induction commands generalizing d with
  | nil => exact .refl d
  | cons command commands ih =>
    obtain ⟨-, hrest⟩ := execute_of_runCommands h
    rw [hrest] at h ⊢
    exact (grows_execute self command.tx d).trans (ih h)

/-- Every command of a successful run has succeeded at some point of it. -/
theorem exists_execute {commands : List EngineWalletCommand}
    (h : (self.runCommands commands d).1 = .ok ()) {command : EngineWalletCommand}
    (hmem : command ∈ commands) :
    ∃ d', d.Grows d' ∧ (∃ events, (self.execute command.tx d').1 = .ok events) ∧
      (self.execute command.tx d').2.Grows (self.runCommands commands d).2 := by
  induction commands generalizing d with
  | nil => cases hmem
  | cons first commands ih =>
    obtain ⟨hfirst, hrest⟩ := execute_of_runCommands h
    rw [hrest] at h ⊢
    rcases List.mem_cons.1 hmem with rfl | hmem
    · exact ⟨d, .refl d, hfirst, grows_runCommands h⟩
    · obtain ⟨d', hd, hok, hgrows⟩ := ih h hmem
      exact ⟨d', (grows_execute self first.tx d).trans hd, hok, hgrows⟩

/-! ## Account deltas are recognized -/

theorem execute_zero_delta {delta : ApplyAccountDelta}
    (h : delta.totalDelta = 0 ∧ delta.lockedDelta = 0) :
    self.execute (.accountDelta delta) d = (.ok [], d) := by
  rw [WalletProcessor.execute, WalletProcessor.program, WalletProcessor.applyAccountDelta,
    WalletProcessor.applyDelta, applyAccountDeltaWithOutbox, if_pos h]
  rfl

theorem execute_known_delta {delta : ApplyAccountDelta}
    (h : (d.walletLedger.find? (deltaLedgerRow delta).key).isSome) :
    self.execute (.accountDelta delta) d = (.ok [], d) := by
  by_cases hzero : delta.totalDelta = 0 ∧ delta.lockedDelta = 0
  · exact execute_zero_delta hzero
  · have hknown : (Stmt.insertLedgerOnce (deltaLedgerRow delta)).exec (view [] d) =
        .ok (false, []) := by
      simp [Stmt.exec, h]
    refine run_of_wlp_total (Q := fun r d' => (r, d') = (.ok [], d)) ?_
    rw [WalletProcessor.program, WalletProcessor.applyAccountDelta, WalletProcessor.applyDelta,
      applyAccountDeltaWithOutbox, if_neg hzero, wlp_bind, wlp_bind, wlp_bind]
    refine wlp_perform_of_exec hknown ?_
    dsimp only
    rw [if_neg Bool.false_ne_true, wlp_bind, wlp_commitTx]
    exact ⟨trivial, fun d' hd => by rw [← hd]; rfl⟩

/-- An account delta that has succeeded is skipped from then on. -/
theorem execute_delta_again {delta : ApplyAccountDelta}
    (h : ∃ events, (self.execute (.accountDelta delta) d).1 = .ok events) {d' : WalletDb}
    (hgrows : (self.execute (.accountDelta delta) d).2.Grows d') :
    self.execute (.accountDelta delta) d' = (.ok [], d') := by
  rcases self.execute_cases (.accountDelta delta) d with
    ⟨e, he⟩ | ⟨-, _, ⟨⟩, hzero⟩ | ⟨events, ws, hc, he⟩
  · rw [he] at h
    exact absurd h (by simp)
  · exact execute_zero_delta hzero
  · rw [he] at hgrows
    cases hc with
    | accountDelta => exact execute_known_delta (hgrows.isSome_ledger (isSome_ledger_of_mem (by simp) d))
    | duplicateDelta hv hledger =>
      rw [hv] at hledger
      exact execute_known_delta (hgrows.isSome_ledger hledger)

/-- Account deltas that have succeeded are skipped from then on. -/
theorem runCommands_deltas_again {commands : List EngineWalletCommand}
    (hdeltas : ∀ command ∈ commands, ∃ delta, command = .applyAccountDelta delta)
    (h : (self.runCommands commands d).1 = .ok ()) {d' : WalletDb}
    (hgrows : (self.runCommands commands d).2.Grows d') :
    self.runCommands commands d' = (.ok (), d') := by
  induction commands generalizing d with
  | nil => rfl
  | cons command commands ih =>
    obtain ⟨hfirst, hrest⟩ := execute_of_runCommands h
    rw [hrest] at h hgrows
    obtain ⟨delta, rfl⟩ := hdeltas command List.mem_cons_self
    have hskip : self.execute (.accountDelta delta) d' = (.ok [], d') :=
      execute_delta_again hfirst ((grows_runCommands h).trans hgrows)
    rw [self.runCommands_cons, EngineWalletCommand.tx, hskip]
    exact ih (fun c hc => hdeltas c (List.mem_cons_of_mem _ hc)) h hgrows

/-! ## Settlements and releases are not -/

/-- A settlement that has succeeded never succeeds again. -/
theorem execute_settle_again {settle : SettleTrade}
    (h : ∃ events, (self.execute (.settle settle) d).1 = .ok events) {d' : WalletDb}
    (hgrows : (self.execute (.settle settle) d).2.Grows d') :
    ¬∃ events, (self.execute (.settle settle) d').1 = .ok events := by
  intro hagain
  rcases self.execute_cases (.settle settle) d with
    ⟨e, he⟩ | ⟨-, _, ⟨⟩, -⟩ | ⟨events, ws, hc, he⟩
  · rw [he] at h
    exact absurd h (by simp)
  rcases self.execute_cases (.settle settle) d' with
    ⟨e, he'⟩ | ⟨-, _, ⟨⟩, -⟩ | ⟨events', ws', hc', he'⟩
  · rw [he'] at hagain
    exact absurd hagain (by simp)
  rw [he] at hgrows
  cases hc with
  | @settle _ _ read now _ hv hread hsettles =>
    cases hc' with
    | @settle _ _ read' now' _ hv' hread' hsettles' =>
      rw [hv] at hread
      rw [hv'] at hread'
      obtain ⟨balance, out, -, -, rfl⟩ := hsettles.writes
      obtain ⟨stored, hstored, hsame⟩ := ((grows_view d _).trans hgrows).reservation _ read hread
      have huser : read'.userId = read.userId := by
        obtain rfl := Option.some.inj (hread'.symm.trans hstored)
        exact hsame.2.1
      have hsome : (d'.walletLedger.find? (debitLedgerRow read.userId settle).key).isSome :=
        hgrows.isSome_ledger (isSome_ledger_of_mem (by simp [reservationFromRow]) d)
      have hfree : d'.walletLedger.find? (debitLedgerRow read'.userId settle).key = none :=
        hsettles'.debit_free
      rw [huser] at hfree
      rw [hfree] at hsome
      cases hsome

/-- A release that succeeds takes its amount from what the reservation holds. -/
theorem execute_release_remaining {release : ReleaseReservation}
    (h : ∃ events, (self.execute (.release release) d).1 = .ok events) :
    0 < release.amount ∧ ∃ row row', d.walletReservations.find? release.reservationId = some row ∧
      (self.execute (.release release) d).2.walletReservations.find? release.reservationId =
        some row' ∧ row'.remaining = row.remaining - release.amount := by
  rcases self.execute_cases (.release release) d with
    ⟨e, he⟩ | ⟨-, _, ⟨⟩, -⟩ | ⟨events, ws, hc, he⟩
  · rw [he] at h
    exact absurd h (by simp)
  rw [he]
  cases hc with
  | @release _ v read now _ hv hread hreleases =>
    rw [hv] at hread
    obtain ⟨-, hpos, -⟩ := releaseRejected_eq_false.1 hreleases.accepted
    obtain ⟨balance, out, hbalance, hout, rfl⟩ := hreleases.writes
    obtain rfl := Option.some.inj (hread.symm.trans hreleases.reduces.found)
    exact ⟨hpos, read, _, hread,
      hreleases.reduces.find?_view hbalance.not_reservations hout.not_reservations,
      (read.update_of_le ⟨hreleases.reduces.nonneg, hreleases.reduces.le_amount⟩ _).1⟩

end Execute

/-! ## Events -/

/-- An event asks for one release, or for no release at all. -/
theorem engineCommands_cases (event : EngineEvent) :
    (∃ release, engineWalletCommandsFromEngineEvent event = [.releaseReservation release]) ∨
      ∀ command ∈ engineWalletCommandsFromEngineEvent event,
        (∃ settle, command = .settleTrade settle) ∨ ∃ delta, command = .applyAccountDelta delta := by
  cases event with
  | orderCancelled | orderExpired | reservationReleased =>
    simp only [engineWalletCommandsFromEngineEvent, releaseReservationCommand]
    split
    · exact .inr (by simp)
    · exact .inl ⟨_, rfl⟩
  | tradeExecuted event =>
    refine .inr fun command hcommand => ?_
    simp only [engineWalletCommandsFromEngineEvent, List.mem_append, List.mem_map,
      List.mem_mapIdx] at hcommand
    rcases hcommand with ⟨settlement, -, rfl⟩ | ⟨index, _, rfl⟩
    · exact .inl ⟨_, rfl⟩
    · exact .inr ⟨_, rfl⟩
  | fundingPaymentApplied event =>
    refine .inr fun command hcommand => ?_
    simp only [engineWalletCommandsFromEngineEvent, List.mem_mapIdx] at hcommand
    obtain ⟨index, _, rfl⟩ := hcommand
    exact .inr ⟨_, rfl⟩
  | accountDelta event => exact .inr (by simp [engineWalletCommandsFromEngineEvent])
  | _ => exact .inr (by simp [engineWalletCommandsFromEngineEvent])

section Events

variable {self : WalletProcessor} {event : EngineEvent} {k : ℕ} {d : WalletDb}

/-- The commands before a crash, then the others. -/
theorem processEvent_split (self : WalletProcessor) (event : EngineEvent) (k : ℕ) (d : WalletDb) :
    self.processEvent event d =
      match self.runCommands ((engineWalletCommandsFromEngineEvent event).take k) d with
      | (.ok _, d') => self.runCommands ((engineWalletCommandsFromEngineEvent event).drop k) d'
      | (.error e, d') => (.error e, d') := by
  rw [← self.runCommands_append, List.take_append_drop]
  rfl

theorem prefix_succeeds (hsucceeds : (self.processEvent event d).1 = .ok ()) (k : ℕ) :
    self.runCommands ((engineWalletCommandsFromEngineEvent event).take k) d =
      (.ok (), self.crashAfter k event d) := by
  rw [processEvent_split self event k] at hsucceeds
  cases hbefore : self.runCommands ((engineWalletCommandsFromEngineEvent event).take k) d with
  | mk result d' =>
    rw [hbefore] at hsucceeds
    cases result with
    | error e => cases hsucceeds
    | ok result => rw [WalletProcessor.crashAfter, hbefore]

/-- A crash after account deltas only loses nothing. -/
theorem crashSafe_of_deltas (hsucceeds : (self.processEvent event d).1 = .ok ())
    (hdeltas : ∀ command ∈ (engineWalletCommandsFromEngineEvent event).take k,
      ∃ delta, command = .applyAccountDelta delta) : self.CrashSafe event k d := by
  have hbefore := prefix_succeeds hsucceeds k
  have hskip : self.runCommands ((engineWalletCommandsFromEngineEvent event).take k)
      (self.crashAfter k event d) = (.ok (), self.crashAfter k event d) :=
    runCommands_deltas_again hdeltas (by rw [hbefore]) (.refl _)
  have hagain : self.processEvent event (self.crashAfter k event d) = self.processEvent event d := by
    rw [processEvent_split self event k, hskip, processEvent_split self event k d, hbefore]
  rw [WalletProcessor.CrashSafe, hagain]
  exact ⟨hsucceeds, rfl, rfl, rfl⟩

/-- A crash after a settlement stops the wallet for good. -/
theorem not_crashSafe_of_settle (hsucceeds : (self.processEvent event d).1 = .ok ())
    {settle : SettleTrade}
    (hsettle : .settleTrade settle ∈ (engineWalletCommandsFromEngineEvent event).take k) :
    ¬self.CrashSafe event k d := by
  rintro ⟨hagain, -⟩
  have hbefore := prefix_succeeds hsucceeds k
  obtain ⟨d₁, -, hfirst, hgrows⟩ := exists_execute (by rw [hbefore]) hsettle
  obtain ⟨d₂, hd₂, hsecond, -⟩ := exists_execute hagain (List.mem_of_mem_take hsettle)
  rw [hbefore] at hgrows
  exact execute_settle_again hfirst (hgrows.trans hd₂) hsecond

/-- A crash after a release stops the wallet or releases twice. -/
theorem not_crashSafe_of_release {release : ReleaseReservation}
    (hevent : engineWalletCommandsFromEngineEvent event = [.releaseReservation release])
    (hrelease : .releaseReservation release ∈ (engineWalletCommandsFromEngineEvent event).take k) :
    ¬self.CrashSafe event k d := by
  have htake : (engineWalletCommandsFromEngineEvent event).take k = [.releaseReservation release] := by
    rw [hevent] at hrelease ⊢
    cases k with
    | zero => cases hrelease
    | succ k => rw [List.take_succ_cons, List.take_nil]
  have hcrash : self.crashAfter k event d = (self.processEvent event d).2 := by
    rw [WalletProcessor.crashAfter, WalletProcessor.processEvent, htake, hevent]
  rintro ⟨hagain, -, hreservations, -⟩
  rw [hcrash] at hagain hreservations
  generalize (self.processEvent event d).2 = d' at hagain hreservations
  rw [WalletProcessor.processEvent, hevent] at hagain hreservations
  obtain ⟨hsecond, hrest⟩ := execute_of_runCommands hagain
  have hsecond' : (self.runCommands [.releaseReservation release] d').2 =
      (self.execute (.release release) d').2 := by
    rw [hrest]
    rfl
  obtain ⟨hpos, row, row', hrow, hrow', hremaining⟩ := execute_release_remaining hsecond
  rw [← hsecond', hreservations, hrow] at hrow'
  obtain rfl := Option.some.inj hrow'
  omega

theorem crashSafe_iff (self : WalletProcessor) (event : EngineEvent) (k : ℕ) (d : WalletDb)
    (hsucceeds : (self.processEvent event d).1 = .ok ()) :
    self.CrashSafe event k d ↔ ∀ command ∈ (engineWalletCommandsFromEngineEvent event).take k,
      ∃ delta, command = .applyAccountDelta delta := by
  refine ⟨fun hsafe command hcommand => ?_, crashSafe_of_deltas hsucceeds⟩
  have hmem := List.mem_of_mem_take hcommand
  rcases engineCommands_cases event with ⟨release, hevent⟩ | hevent
  · rw [hevent, List.mem_singleton] at hmem
    subst hmem
    exact absurd hsafe (not_crashSafe_of_release hevent hcommand)
  · rcases hevent command hmem with ⟨settle, rfl⟩ | hdelta
    · exact absurd hsafe (not_crashSafe_of_settle hsucceeds hcommand)
    · exact hdelta

end Events

/-- A credit from the engine. -/
def engineCredit : EngineEvent :=
  .accountDelta
    { engineEventId := some "e2", marketId := 1, engineSequence := 2, engineTimestampMs := 1,
      sourceInputId := none, sourceInputOffset := none, accountDeltaId := "delta-1", userId := 1,
      asset := .USDC, totalDelta := 5, lockedDelta := 0, reason := "INSURANCE",
      referenceId := "ins-1" }

theorem crashSafe_iff_engineCredit :
    WalletProcessor.new.CrashSafe engineCredit 1 (.empty [1]) ↔
      ∀ command ∈ (engineWalletCommandsFromEngineEvent engineCredit).take 1,
        ∃ delta, command = .applyAccountDelta delta :=
  crashSafe_iff .new engineCredit 1 (.empty [1]) (by decide)

/-- The cancellation of an order with all its margin. -/
def cancelledOrder : EngineEvent :=
  .orderCancelled
    { engineEventId := some "e1", engineSequence := 1, engineTimestampMs := 1,
      sourceInputId := none, sourceInputOffset := none, orderId := 1, reservationId := "res_u1",
      userId := 1, marketId := 1, releasedAmount := 50 }

theorem cancelledOrder_not_crashSafe :
    (WalletProcessor.new.processEvent cancelledOrder
      (WalletProcessor.new.runAll depositAndReserve (.empty [1]))).1 = .ok () ∧
    ¬WalletProcessor.new.CrashSafe cancelledOrder 1
      (WalletProcessor.new.runAll depositAndReserve (.empty [1])) :=
  ⟨by decide, fun h => absurd h.1 (by decide)⟩

end Wallet
