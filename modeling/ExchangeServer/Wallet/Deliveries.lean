import ExchangeServer.Wallet.Commits
import ExchangeServer.Wallet.Queue

/-!
# Deliveries

A delivery is a record as the wallet takes it from a topic: a command of a user,
with the random value drawn if it makes a reservation, or an engine event. A
record is delivered again when the wallet stops before it has saved its offset,
so deliveries repeat. Whatever a delivery commits, alone or among others, is
what `Committed` says of one of the transactions it issues.
-/

namespace Wallet

open Protocol Relational Transactional Program

/-- The transaction of a command of an engine event. -/
def EngineWalletCommand.tx : EngineWalletCommand → WalletTx
  | releaseReservation release => .release release
  | settleTrade settle => .settle settle
  | applyAccountDelta delta => .accountDelta delta

inductive Delivery
  | command (uuid : String) (command : WalletCommand)
  | event (event : EngineEvent)
  deriving DecidableEq

/-- What the wallet does with a delivery. -/
def WalletProcessor.deliver (self : WalletProcessor) : Delivery → Tx Unit
  | .command uuid command => do
    let _ ← self.processCommand uuid command
    return ()
  | .event event => processEngineCommands self (engineWalletCommandsFromEngineEvent event)

/-- The transactions a delivery may commit. -/
inductive Delivery.Issues : Delivery → WalletTx → Prop
  | deposit {uuid deposit} : Issues (.command uuid (.deposit deposit)) (.deposit deposit)
  | withdraw {uuid withdraw} : Issues (.command uuid (.withdraw withdraw)) (.withdraw withdraw)
  | withdrawRefused {uuid withdraw available} :
    Issues (.command uuid (.withdraw withdraw))
      (.reply withdraw.envelope "Withdraw" (.insufficientFunds
        { requestId := withdraw.envelope.requestId, asset := withdraw.asset,
          required := withdraw.amount, available }))
  | placeOrder {uuid intent} :
    Issues (.command uuid (.placeOrderIntent intent)) (.reserve uuid intent)
  | placeOrderRefused {uuid intent available} :
    Issues (.command uuid (.placeOrderIntent intent))
      (.reply intent.envelope "PlaceOrderIntent" (.insufficientFunds
        { requestId := intent.envelope.requestId, asset := intent.marginAsset,
          required := intent.requiredMargin, available }))
  | cancelOrder {uuid intent} :
    Issues (.command uuid (.cancelOrderIntent intent)) (.cancel intent)
  | release {uuid release} :
    Issues (.command uuid (.releaseReservation release)) (.release release)
  | settle {uuid settle} : Issues (.command uuid (.settleTrade settle)) (.settle settle)
  | engineCommand {event command} (h : command ∈ engineWalletCommandsFromEngineEvent event) :
    Issues (.event event) command.tx

section

variable {R : WalletDb → WalletDb → Prop} {C : Contract WalletDb Write WalletRepositoryError}
  {self : WalletProcessor} {Q : Except WalletRepositoryError WalletProcessResult → WalletDb →
    List Write → Prop}

/-- A transaction of the processor meets its contract and leaves nothing open. -/
private theorem onCommit {tx : WalletTx}
    (hc : ∀ d events ws, Committed self R d tx events ws → C.commits d ws)
    {α : Type} {Q : Except WalletRepositoryError α → WalletDb → List Write → Prop} {a : α}
    (hQ : ∀ d, Q (.ok a) d []) {d : WalletDb} {events : List WalletEvent} {ws : List Write}
    (h : Committed self R d tx events ws) : OnCommit R C d Q a ws :=
  ⟨hc d events ws h, fun d' _ => hQ d'⟩

theorem wlp_processEngineCommand (command : EngineWalletCommand) (hR : Reads R)
    (hf : ∀ e d, C.fails e d) (he : ∀ e d ws, Q (.error e) d ws)
    (hok : ∀ result d, Q (.ok result) d [])
    (hc : ∀ d events ws, Committed self R d command.tx events ws → C.commits d ws) (d : WalletDb) :
    (self.processEngineCommand command).wlp R C d [] Q := by
  cases command with
  | releaseReservation release =>
    rw [WalletProcessor.processEngineCommand, WalletProcessor.releaseReservation, wlp_bind]
    exact wlp_applyRelease hR (hf · d) (fun e d' ws _ => he e d' ws)
      fun _ _ h => onCommit hc (fun _ => hok _ _) h
  | settleTrade settle =>
    rw [WalletProcessor.processEngineCommand, WalletProcessor.settleTrade, wlp_bind]
    exact wlp_applySettle hR (hf · d) (fun e d' ws _ => he e d' ws)
      fun _ _ h => onCommit hc (fun _ => hok _ _) h
  | applyAccountDelta delta =>
    rw [WalletProcessor.processEngineCommand, WalletProcessor.applyAccountDelta, wlp_bind]
    exact wlp_applyDelta hR (hf · d) (fun e d' ws _ => he e d' ws) (fun _ => hok _ _)
      (onCommit hc fun _ => hok _ _) fun _ _ h => onCommit hc (fun _ => hok _ _) h

/-- The stored reply of an earlier delivery, or the command itself. -/
private theorem wlp_existing {envelope : CommandEnvelope} {commandType : String}
    {p : Tx WalletProcessResult} (hf : ∀ e d, C.fails e d)
    (hok : ∀ result d, Q (.ok result) d []) {d : WalletDb} (hp : p.wlp R C d [] Q) :
    (do
      let existing ← getIdempotentReply envelope.userId commandType envelope.idempotencyKey
      match existingReply existing envelope.requestId with
      | some reply => return replyResult reply
      | none => p : Tx WalletProcessResult).wlp R C d [] Q := by
  rw [wlp_bind]
  refine wlp_getIdempotentReply (hf · d) fun reply => ?_
  dsimp only
  cases existingReply reply envelope.requestId with
  | none => exact hp
  | some reply => exact hok _ _

theorem wlp_processCommand (hR : Reads R) (hf : ∀ e d, C.fails e d)
    (he : ∀ e d ws, Q (.error e) d ws) (hok : ∀ result d, Q (.ok result) d []) {uuid : String}
    {command : WalletCommand}
    (hc : ∀ tx d events ws, Delivery.Issues (.command uuid command) tx →
      Committed self R d tx events ws → C.commits d ws) (d : WalletDb) :
    (self.processCommand uuid command).wlp R C d [] Q := by
  cases command with
  | placeOrderIntent intent =>
    refine wlp_existing hf hok ?_
    rw [wlp_bind, wlp_attempt]
    refine wlp_reserveFunds hR (hf · d) (fun e d' ws _ d'' _ => ?_)
      fun ws h => ⟨hc _ d _ ws .placeOrder h, fun d' _ => hok _ _⟩
    cases e with
    | insufficientFunds available =>
      dsimp only
      rw [WalletProcessor.recordReply, wlp_bind]
      exact wlp_recordIdempotentReply (hf · d'') fun ws h =>
        ⟨hc _ d'' _ ws .placeOrderRefused h, fun _ _ => hok _ _⟩
    | _ => exact he _ _ _
  | cancelOrderIntent intent =>
    refine wlp_existing hf hok ?_
    rw [wlp_bind]
    exact wlp_recordCancel hR (hf · d) (fun e d' ws _ => he e d' ws)
      fun ws h => ⟨hc _ d _ ws .cancelOrder h, fun _ _ => hok _ _⟩
  | deposit deposit =>
    refine wlp_existing hf hok ?_
    rw [wlp_bind]
    exact wlp_applyDeposit hR (hf · d) (fun e d' ws _ => he e d' ws)
      fun _ ws h => ⟨hc _ d _ ws .deposit h, fun _ _ => hok _ _⟩
  | withdraw withdraw =>
    refine wlp_existing hf hok ?_
    rw [wlp_bind, wlp_attempt]
    refine wlp_applyWithdraw hR (hf · d) (fun e d' ws _ d'' _ => ?_)
      fun _ ws h => ⟨hc _ d _ ws .withdraw h, fun d' _ => hok _ _⟩
    cases e with
    | insufficientFunds available =>
      dsimp only
      rw [WalletProcessor.recordReply, wlp_bind]
      exact wlp_recordIdempotentReply (hf · d'') fun ws h =>
        ⟨hc _ d'' _ ws .withdrawRefused h, fun _ _ => hok _ _⟩
    | _ => exact he _ _ _
  | releaseReservation release =>
    refine wlp_processEngineCommand (.releaseReservation release) hR hf he hok ?_ d
    exact fun d events ws h => hc _ d events ws .release h
  | settleTrade settle =>
    refine wlp_processEngineCommand (.settleTrade settle) hR hf he hok ?_ d
    exact fun d events ws h => hc _ d events ws .settle h

theorem wlp_processEngineCommands (hR : Reads R) (hf : ∀ e d, C.fails e d)
    {commands : List EngineWalletCommand}
    (hc : ∀ command ∈ commands, ∀ d events ws, Committed self R d command.tx events ws →
      C.commits d ws) (d : WalletDb) :
    (processEngineCommands self commands).wlp R C d [] fun _ _ _ => True := by
  induction commands generalizing d with
  | nil => exact trivial
  | cons command commands ih =>
    rw [processEngineCommands, wlp_bind]
    have hnext : ∀ d, (processEngineCommands self commands).wlp R C d [] fun _ _ _ => True :=
      ih fun c hmem => hc c (List.mem_cons_of_mem _ hmem)
    exact wlp_processEngineCommand command hR hf (fun _ _ _ => trivial) (fun _ d => hnext d)
      (hc command List.mem_cons_self) d

/-- Whatever a delivery commits is what `Committed` says of a transaction it issues. -/
theorem wlp_deliver (hR : Reads R) (hf : ∀ e d, C.fails e d) {delivery : Delivery}
    (hc : ∀ tx d events ws, delivery.Issues tx → Committed self R d tx events ws →
      C.commits d ws) (d : WalletDb) :
    (self.deliver delivery).wlp R C d [] fun _ _ _ => True := by
  cases delivery with
  | command uuid command =>
    rw [WalletProcessor.deliver, wlp_bind]
    exact wlp_processCommand hR hf (fun _ _ _ => trivial) (fun _ _ => trivial) hc d
  | event event =>
    exact wlp_processEngineCommands hR hf
      (fun command hmem d events ws h => hc _ d events ws (.engineCommand hmem) h) d

end

/-! ## Any number of wallet workers -/

/-- The deliveries in progress, their locks, what is committed and the commits so far. -/
abbrev DeliverySystem := System Stmt WalletRepositoryError Unit WalletDb Write Key Delivery

/-- The effect of a schedule on the empty wallet of some users. -/
def WalletProcessor.deliverAll (self : WalletProcessor) (users : List ℤ)
    (actions : List (Action Delivery)) : Option DeliverySystem :=
  (System.initial (.empty users) : DeliverySystem).steps self.deliver actions

/-- A delivery commits these writes into `d`. -/
def Delivery.Commits (delivery : Delivery) (self : WalletProcessor) (d : WalletDb)
    (ws : List Write) : Prop :=
  ∃ tx events, delivery.Issues tx ∧ Committed self WalletDb.Grows d tx events ws

/-- What a delivery may commit, as a contract. -/
def WalletProcessor.contract (self : WalletProcessor) (delivery : Delivery) :
    Contract WalletDb Write WalletRepositoryError where
  commits d ws := delivery.Commits self d ws
  fails _ _ := True

theorem wlp_contract (self : WalletProcessor) (delivery : Delivery) (d : WalletDb) :
    (self.deliver delivery).wlp WalletDb.Grows (self.contract delivery) d [] fun _ _ _ => True := by
  refine wlp_deliver reads_grows (fun _ _ => trivial) ?_ d
  exact fun tx _ events _ hissues hcommitted => ⟨tx, events, hissues, hcommitted⟩

/-- A session that is about to commit commits what its delivery may. -/
theorem commits_deliverAll {self : WalletProcessor} {users : List ℤ}
    {actions : List (Action Delivery)} {σ : DeliverySystem}
    (h : self.deliverAll users actions = some σ) {t : ℕ} {delivery : Delivery} {next : Tx Unit}
    {ws : List Write} (hs : σ.sessions t = some ⟨delivery, .commit next, ws⟩) :
    delivery.Commits self σ.committed ws :=
  ((System.sound_of_steps (wlp_contract self) h).2 t _ hs).commits

/-- An invariant of the committed data and the commits so far holds after every
schedule when every commit of a delivery keeps it. -/
theorem inv_deliverAll {self : WalletProcessor} {users : List ℤ}
    {I : WalletDb → List (Delivery × List Write) → Prop} (h₀ : I (.empty users) [])
    (hI : ∀ d log delivery ws, I d log → delivery.Commits self d ws →
      I (view ws d) (log ++ [(delivery, ws)]))
    {actions : List (Action Delivery)} {σ : DeliverySystem}
    (h : self.deliverAll users actions = some σ) : I σ.committed σ.log :=
  System.commits_of_steps (wlp_contract self) hI h h₀

end Wallet
