import ExchangeServer.Ledger.Processor
import ExchangeServer.Wallet.Origins
import ExchangeServer.Wallet.OutboxDelivery
import ExchangeServer.Wallet.Runs

/-!
# What the broker holds

A record of the broker is that of a row of the outbox, however often the relays have
published the row. A row carries an event of the wallet under the event's own id, or an
input of the engine; the two kinds have topics of their own.
-/

namespace Wallet

open Protocol Relational Transactional

/-! ## Records and rows -/

namespace RelaySystem

variable {settings : RelaySettings} {σ σ' : RelaySystem} {a : RelayAction}

/-- Every record of the broker is that of a row. -/
def Sourced (σ : RelaySystem) : Prop :=
  ∀ topic partition, ∀ record ∈ σ.broker topic partition,
    ∃ row ∈ σ.outbox.rows, row.message.topic = topic ∧ row.message.record = record

theorem mem_store {topic topic' : String} {partition partition' : ℕ}
    {record record' : BrokerRecord}
    (h : record' ∈ (σ.store topic partition record).broker topic' partition') :
    record' ∈ σ.broker topic' partition' ∨ topic' = topic ∧ record' = record := by
  simp only [store] at h
  split at h
  · next heq =>
    rcases List.mem_append.1 h with h | h
    · exact .inl h
    · exact .inr ⟨heq.1, List.mem_singleton.1 h⟩
  · exact .inl h

/-- A record after a step was there before, or is that of the message a relay sends. -/
theorem broker_of_step (h : Step settings σ a σ') {topic : String} {partition : ℕ}
    {record : BrokerRecord} (hrecord : record ∈ σ'.broker topic partition) :
    record ∈ σ.broker topic partition ∨
      ∃ relay state message, σ.relays relay = some state ∧ message ∈ state.batch ∧
        message.message.topic = topic ∧ message.message.record = record := by
  cases h with
  | publish hr | publishLost hr =>
    rcases mem_store hrecord with hrecord | ⟨rfl, rfl⟩
    · exact .inl hrecord
    · exact .inr ⟨_, _, _, hr, List.mem_cons_self .., rfl, rfl⟩
  | _ => exact .inl hrecord

theorem sourced_step (hkept : Kept σ) (hsourced : Sourced σ) (h : Step settings σ a σ') :
    Sourced σ' := by
  -- A row stays, with its message.
  have hstays : ∀ {row}, row ∈ σ.outbox.rows →
      ∃ row' ∈ σ'.outbox.rows, row'.message = row.message := by
    intro row hrow
    obtain ⟨row', hrow', hstep⟩ := row_of_step h (Table.find?_of_mem hrow)
    exact ⟨row', Table.mem_of_find? hrow', hstep.message_eq⟩
  intro topic partition record hrecord
  obtain ⟨row, hrow, htopic, hsame⟩ : ∃ row ∈ σ.outbox.rows,
      row.message.topic = topic ∧ row.message.record = record := by
    rcases broker_of_step h hrecord with hrecord | ⟨relay, state, message, hr, hmem, htopic, hsame⟩
    · exact hsourced topic partition record hrecord
    · obtain ⟨row, hrow, hmessage⟩ := hkept.batch relay state hr message hmem
      refine ⟨row, Table.mem_of_find? hrow, ?_, ?_⟩
      · rw [hmessage, htopic]
      · rw [hmessage, hsame]
  obtain ⟨row', hrow', hmessage⟩ := hstays hrow
  refine ⟨row', hrow', ?_, ?_⟩
  · rw [hmessage, htopic]
  · rw [hmessage, hsame]

theorem sourced_run {actions : List RelayAction} (h : runAll settings actions = some σ) :
    Sourced σ := by
  refine (Machine.inv_of_run (P := fun σ => Kept σ ∧ Sourced σ) (fun hσ hstep => ?_) h ?_).2
  · exact ⟨kept_step hσ.1 (step_cases hstep), sourced_step hσ.1 hσ.2 (step_cases hstep)⟩
  · exact ⟨kept_initial, fun _ _ _ h => absurd h List.not_mem_nil⟩

end RelaySystem

/-! ## Messages of the wallet -/

/-- A message of the wallet: an event under its id, or an input of the engine. -/
inductive Announces (self : WalletProcessor) (message : NewWalletOutboxMessage) : Prop
  | event (event : WalletEvent) (htopic : message.topic = self.walletEventsTopic)
    (hpayload : message.payload = .walletEvent event)
    (hid : Ledger.eventId event = some message.dedupeKey)
  | input (command : EngineCommand) (htopic : message.topic = self.engineInputTopic)
    (hpayload : message.payload = .engineCommand command)

section Announces

variable {self : WalletProcessor} {d : WalletDb} {message : NewWalletOutboxMessage}

/-- A dedupe key is not empty, so the ledger takes it for an id. -/
theorem MessageKind.filter_key (kind : MessageKind) {key rest : String}
    (h : key = kind.head ++ rest) : (some key).filter (fun id => !id.isEmpty) = some key := by
  have hne : key ≠ "" := by
    rw [h, ne_eq, String.append_eq_empty_iff, not_and_or]
    left
    cases kind <;> decide
  simp [Option.filter_some, hne]

theorem Origin.announces (h : Origin self d message) : Announces self message := by
  cases h with
  | placeOrder | cancel => exact .input _ rfl rfl
  | @deposit deposit =>
    have hid := MessageKind.depositApplied.filter_key (MessageKind.userKey_eq _ deposit.envelope)
    exact .event _ rfl rfl hid
  | @withdraw withdraw =>
    have hid := MessageKind.withdrawalApplied.filter_key (MessageKind.userKey_eq _ withdraw.envelope)
    exact .event _ rfl rfl hid
  | @reserved uuid =>
    have hkey : fundsReservedEventId ("res_" ++ uuid) =
        MessageKind.fundsReserved.head ++ ("res_" ++ uuid) := rfl
    exact .event _ rfl rfl (MessageKind.fundsReserved.filter_key hkey)
  | @release release =>
    have hid := MessageKind.fundsReleased.filter_key (releaseDedupeKey_eq release)
    exact .event _ rfl rfl hid
  | @settle settle =>
    have hid := MessageKind.tradeSettled.filter_key (settleDedupeKey_eq settle)
    exact .event _ rfl rfl hid
  | @accountDelta delta =>
    have hid := MessageKind.accountDeltaApplied.filter_key (accountDeltaDedupeKey_eq delta)
    exact .event _ rfl rfl hid

/-- A run of transactions queues messages of the wallet only. -/
theorem announces_runAll (users : List ℤ) (txs : List WalletTx) :
    ∀ message ∈ (self.runAll txs (.empty users)).walletOutbox.rows, Announces self message := by
  refine WalletProcessor.inv_runAll
    (I := fun d => ∀ message ∈ d.walletOutbox.rows, Announces self message) ?_ txs ?_
  · intro d tx events ws hd hcommitted message hmessage
    rcases mem_outbox_view hmessage with hmessage | hmessage
    · exact hd message hmessage
    · exact (hcommitted.origin hmessage).announces
  · exact fun _ h => absurd h List.not_mem_nil

/-- So do deliveries, in any order. -/
theorem announces_deliverAll {users : List ℤ} {actions : List (Action Delivery)}
    {σ : DeliverySystem} (h : self.deliverAll users actions = some σ) :
    ∀ message ∈ σ.committed.walletOutbox.rows, Announces self message :=
  fun message hmessage => ((registered_deliverAll h).outbox message hmessage).announces

end Announces

end Wallet
