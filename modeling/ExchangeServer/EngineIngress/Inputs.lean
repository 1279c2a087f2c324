import ExchangeServer.Foundation.KeyText
import ExchangeServer.Wallet.EngineInputs
import ExchangeServer.Wallet.Outbox

/-!
# Inputs that the ingress tool queues

The tool takes a mark price, a funding rate or a funding settlement tick and
enqueues it in the outbox of the wallet. The dedupe key is the input's own id, or
the numbers of its source when it has none, after a head for its kind. The two
share the text after the head, so an id may spell what the source of another input
is written as.

## Main results

- `key_eq_iff`: inputs with one key have one identity, or one spells the other
- `queued_once_iff`: when every distinct input is queued exactly once
- `spelled_input_refused`: an input that is refused
-/

namespace EngineIngress

open Protocol KeyText
open Wallet (NewWalletOutboxMessage Outbox WalletRepositoryError)

/-! ## The tool -/

def commandName : EngineCommand → String
  | .markPriceUpdated _ => "MarkPriceUpdated"
  | .fundingRateUpdated _ => "FundingRateUpdated"
  | .fundingSettlementTick _ => "FundingSettlementTick"
  | .placeOrder _ => "PlaceOrder"
  | .cancelOrder _ => "CancelOrder"
  | .liquidatePosition _ => "LiquidatePosition"

def engineCommandDedupeKey : EngineCommand → Except String String
  | .markPriceUpdated input => .ok
    (match input.inputId with
      | some inputId => "engine-input:mark-price:" ++ inputId
      | none => "engine-input:mark-price:" ++ (toString input.marketId ++ ":" ++
          toString input.sourceSequence ++ ":" ++ toString input.sourceTimestampMs))
  | .fundingRateUpdated input => .ok
    (match input.inputId with
      | some inputId => "engine-input:funding-rate:" ++ inputId
      | none => "engine-input:funding-rate:" ++ (toString input.marketId ++ ":" ++
          input.fundingIntervalId ++ ":" ++ toString input.sourceTimestampMs))
  | .fundingSettlementTick input => .ok
    (match input.inputId with
      | some inputId => "engine-input:funding-settlement-tick:" ++ inputId
      | none => "engine-input:funding-settlement-tick:" ++ (toString input.marketId ++ ":" ++
          input.fundingIntervalId ++ ":" ++ toString input.settleAtMs))
  | other => .error ("unsupported engine input '" ++ commandName other ++
      "'; engine-ingress only queues mark/funding inputs")

def engineCommandOutboxMessage (command : EngineCommand) (topic : String) :
    Except String NewWalletOutboxMessage := do
  let dedupeKey ← engineCommandDedupeKey command
  return Wallet.engineCommandOutboxMessage topic dedupeKey command

/-- Why the tool fails. -/
inductive Failure
  | message (text : String)
  | enqueue (error : WalletRepositoryError)
  deriving DecidableEq

/-- What `main` does with a command it has read, and the outbox after it. -/
def queue (topic : String) (now : ℤ) (command : EngineCommand) (outbox : Outbox) :
    Except Failure (Option ℕ) × Outbox :=
  match engineCommandOutboxMessage command topic with
  | .error text => (.error (.message text), outbox)
  | .ok message =>
    let (answer, outbox') := (Outbox.enqueueOutboxMessage now message).run outbox outbox
    (answer.mapError .enqueue, outbox')

/-! ## Inputs and their identity -/

/-- A command that the tool takes. -/
inductive Input
  | markPrice (input : MarkPriceUpdatedInput)
  | fundingRate (input : FundingRateUpdatedInput)
  | fundingSettlementTick (input : FundingSettlementTickInput)
  deriving DecidableEq

inductive Kind
  | markPrice | fundingRate | fundingSettlementTick
  deriving DecidableEq

/-- What an input without an id is known by. -/
inductive Source
  | markPrice (marketId sourceSequence sourceTimestampMs : ℤ)
  | fundingRate (marketId : ℤ) (fundingIntervalId : String) (sourceTimestampMs : ℤ)
  | fundingSettlementTick (marketId : ℤ) (fundingIntervalId : String) (settleAtMs : ℤ)
  deriving DecidableEq

inductive Identity
  | given (kind : Kind) (inputId : String)
  | derived (source : Source)
  deriving DecidableEq

/-- The head of the keys of a kind. -/
def Kind.head : Kind → String
  | markPrice => "engine-input:mark-price:"
  | fundingRate => "engine-input:funding-rate:"
  | fundingSettlementTick => "engine-input:funding-settlement-tick:"

namespace Source

def kind : Source → Kind
  | markPrice _ _ _ => .markPrice
  | fundingRate _ _ _ => .fundingRate
  | fundingSettlementTick _ _ _ => .fundingSettlementTick

/-- The source as the keys spell it. -/
def text : Source → String
  | markPrice marketId sourceSequence sourceTimestampMs =>
    toString marketId ++ ":" ++ toString sourceSequence ++ ":" ++ toString sourceTimestampMs
  | fundingRate marketId fundingIntervalId sourceTimestampMs =>
    toString marketId ++ ":" ++ fundingIntervalId ++ ":" ++ toString sourceTimestampMs
  | fundingSettlementTick marketId fundingIntervalId settleAtMs =>
    toString marketId ++ ":" ++ fundingIntervalId ++ ":" ++ toString settleAtMs

end Source

namespace Input

def command : Input → EngineCommand
  | markPrice input => .markPriceUpdated input
  | fundingRate input => .fundingRateUpdated input
  | fundingSettlementTick input => .fundingSettlementTick input

def inputId : Input → Option String
  | markPrice input => input.inputId
  | fundingRate input => input.inputId
  | fundingSettlementTick input => input.inputId

def source : Input → Source
  | markPrice input => .markPrice input.marketId input.sourceSequence input.sourceTimestampMs
  | fundingRate input => .fundingRate input.marketId input.fundingIntervalId input.sourceTimestampMs
  | fundingSettlementTick input =>
    .fundingSettlementTick input.marketId input.fundingIntervalId input.settleAtMs

def kind (input : Input) : Kind := input.source.kind

/-- An input is known by its kind and its id or, without one, by its source. -/
def identity (input : Input) : Identity :=
  match input.inputId with
  | some inputId => .given input.kind inputId
  | none => .derived input.source

def key (input : Input) : String := input.kind.head ++ input.inputId.getD input.source.text

def message (topic : String) (input : Input) : NewWalletOutboxMessage :=
  Wallet.engineCommandOutboxMessage topic input.key input.command

/-- The id of an input is the text for the source of another one, which has no id. -/
def Spells (a b : Input) : Prop :=
  a.kind = b.kind ∧ b.inputId = none ∧ a.inputId = some b.source.text

theorem command_inj {a b : Input} (h : a.command = b.command) : a = b := by
  cases a <;> cases b <;> cases h <;> rfl

theorem message_inj {topic : String} {a b : Input} (h : a.message topic = b.message topic) :
    a = b := by
  have hpayload : Wallet.OutboxPayload.engineCommand a.command = .engineCommand b.command :=
    congrArg NewWalletOutboxMessage.payload h
  exact command_inj (Wallet.OutboxPayload.engineCommand.inj hpayload)

/-- The tool writes the key that is said here. -/
theorem engineCommandOutboxMessage_command (topic : String) (input : Input) :
    engineCommandOutboxMessage input.command topic = .ok (input.message topic) := by
  have hkey : engineCommandDedupeKey input.command = .ok input.key := by
    unfold key
    cases input with
    | markPrice input | fundingRate input | fundingSettlementTick input =>
      unfold engineCommandDedupeKey
      show Except.ok _ = Except.ok (_ ++ input.inputId.getD _)
      cases input.inputId <;> rfl
  unfold engineCommandOutboxMessage
  rw [hkey]
  rfl

end Input

/-! ## When two keys are equal -/

/-- The first number ends at the first colon, the last one starts after the last. -/
theorem between_numbers_inj {m m' t t' : ℤ} {s s' : String}
    (h : toString m ++ ":" ++ s ++ ":" ++ toString t =
      toString m' ++ ":" ++ s' ++ ":" ++ toString t') : m = m' ∧ s = s' ∧ t = t' := by
  obtain ⟨hleft, ht⟩ := split_right (colonFree_int t) (colonFree_int t') h
  obtain ⟨hm, hs⟩ := split_left (colonFree_int m) (colonFree_int m') hleft
  exact ⟨toString_int_inj hm, hs, toString_int_inj ht⟩

theorem Source.text_inj {a b : Source} (hkind : a.kind = b.kind) (h : a.text = b.text) : a = b := by
  cases a with
  | markPrice =>
    cases b with
    | markPrice =>
      obtain ⟨rfl, hsequence, rfl⟩ := between_numbers_inj h
      rw [toString_int_inj hsequence]
    | fundingRate | fundingSettlementTick => cases hkind
  | fundingRate =>
    cases b with
    | fundingRate =>
      obtain ⟨rfl, rfl, rfl⟩ := between_numbers_inj h
      rfl
    | markPrice | fundingSettlementTick => cases hkind
  | fundingSettlementTick =>
    cases b with
    | fundingSettlementTick =>
      obtain ⟨rfl, rfl, rfl⟩ := between_numbers_inj h
      rfl
    | markPrice | fundingRate => cases hkind

theorem Kind.apart {a b : Kind} (h : a ≠ b) : Apart a.head b.head := by
  cases a <;> cases b <;> first | exact absurd rfl h | decide

theorem Kind.head_append_inj {a b : Kind} {s t : String} :
    a.head ++ s = b.head ++ t ↔ a = b ∧ s = t := by
  constructor
  · intro h
    obtain rfl : a = b := by
      by_contra hne
      exact append_ne_of_apart (Kind.apart hne) s t h
    exact ⟨rfl, append_left_cancel h⟩
  · rintro ⟨rfl, rfl⟩
    rfl

theorem Source.eq_iff {a b : Source} : a = b ↔ a.kind = b.kind ∧ a.text = b.text :=
  ⟨fun h => h ▸ ⟨rfl, rfl⟩, fun h => Source.text_inj h.1 h.2⟩

namespace Input

theorem identity_of_some {input : Input} {inputId : String} (h : input.inputId = some inputId) :
    input.identity = .given input.kind inputId := by
  unfold identity
  rw [h]

theorem identity_of_none {input : Input} (h : input.inputId = none) :
    input.identity = .derived input.source := by
  unfold identity
  rw [h]

/-- Two inputs have one key when they have one identity or one spells the other. -/
theorem key_eq_iff {a b : Input} :
    a.key = b.key ↔ a.identity = b.identity ∨ a.Spells b ∨ b.Spells a := by
  unfold key
  rw [Kind.head_append_inj]
  unfold Spells
  -- Ids are compared with ids and sources with sources, unless one spells the other.
  cases ha : a.inputId with
  | some inputId =>
    cases hb : b.inputId with
    | some inputId' =>
      rw [identity_of_some ha, identity_of_some hb, Identity.given.injEq]
      simp
    | none =>
      rw [identity_of_some ha, identity_of_none hb]
      simp
  | none =>
    cases hb : b.inputId with
    | some inputId =>
      rw [identity_of_none ha, identity_of_some hb]
      simp [eq_comm]
    | none =>
      rw [identity_of_none ha, identity_of_none hb, Identity.derived.injEq, Source.eq_iff]
      simp [kind]

end Input

/-! ## Queueing -/

/-- The outbox after a sequence of inputs, each at its time. -/
def queued (topic : String) (calls : List (Input × ℤ)) (outbox : Outbox) : Outbox :=
  calls.foldl (fun outbox call => (queue topic call.2 call.1.command outbox).2) outbox

/-- The inputs of a sequence of calls. -/
def inputsOf (calls : List (Input × ℤ)) : List Input := calls.map Prod.fst

@[simp] theorem inputsOf_cons (call : Input × ℤ) (calls : List (Input × ℤ)) :
    inputsOf (call :: calls) = call.1 :: inputsOf calls := rfl

@[simp] theorem inputsOf_append (calls calls' : List (Input × ℤ)) :
    inputsOf (calls ++ calls') = inputsOf calls ++ inputsOf calls' := List.map_append

theorem queue_command (topic : String) (now : ℤ) (input : Input) (outbox : Outbox) :
    queue topic now input.command outbox =
      (match outbox.stored input.key with
        | none => .ok (some (outbox.idSeq + 1))
        | some old =>
          if old = input.message topic then .ok none else .error (.enqueue .idempotencyConflict),
        outbox.insert (input.message topic) now) := by
  have hfits : Outbox.PartitionFits (input.message topic) := fun partition => nofun
  have hrun := Outbox.run_enqueueOutboxMessage outbox now hfits
  have hkey : (input.message topic).dedupeKey = input.key := rfl
  unfold queue
  rw [Input.engineCommandOutboxMessage_command]
  dsimp only
  rw [hrun, hkey]
  cases outbox.stored input.key with
  | none => rfl
  | some old =>
    dsimp only
    split <;> rfl

theorem stored_queued (topic : String) (calls : List (Input × ℤ)) (outbox : Outbox) (key : String) :
    (queued topic calls outbox).stored key =
      (outbox.stored key).or
        (((inputsOf calls).find? fun input => input.key = key).map (Input.message topic)) := by
  induction calls generalizing outbox with
  | nil => exact (Option.or_none ..).symm
  | cons call calls ih =>
    have hstep : (queue topic call.2 call.1.command outbox).2 =
        outbox.insert (call.1.message topic) call.2 := by rw [queue_command]
    show (queued topic calls (queue topic call.2 call.1.command outbox).2).stored key = _
    have hinput : (call.1.message topic).dedupeKey = call.1.key := rfl
    rw [hstep, ih, Outbox.stored_insert, Option.or_assoc, hinput, inputsOf_cons, List.find?_cons]
    by_cases hkey : call.1.key = key
    · simp [hkey]
    · simp [hkey, Ne.symm hkey]

/-- The answer to an input is decided by the first one before it that has its key. -/
theorem answer_queued (topic : String) (earlier : List (Input × ℤ)) (input : Input) (now : ℤ) :
    (queue topic now input.command (queued topic earlier .empty)).1 =
      match (inputsOf earlier).find? fun other => other.key = input.key with
      | none => .ok (some ((queued topic earlier .empty).idSeq + 1))
      | some first =>
        if first = input then .ok none else .error (.enqueue .idempotencyConflict) := by
  have hstored := stored_queued topic earlier .empty input.key
  rw [queue_command]
  cases hfirst : (inputsOf earlier).find? fun other => other.key = input.key with
  | none =>
    rw [hfirst] at hstored
    rw [hstored]
    rfl
  | some first =>
    rw [hfirst] at hstored
    rw [hstored]
    show (if first.message topic = input.message topic then _ else _) = _
    exact if_congr ⟨Input.message_inj, fun h => h ▸ rfl⟩ rfl rfl

/-- The answer that an input should get after others: it is inserted if none of them has
its identity, and else compared with the first that has. -/
structure AnsweredRightly (earlier : List Input) (input : Input)
    (answer : Except Failure (Option ℕ)) : Prop where
  inserted : (∃ outboxId, answer = .ok (some outboxId)) ↔
    ∀ other ∈ earlier, other.identity ≠ input.identity
  known : answer = .ok none ↔
    (earlier.find? fun other => other.identity = input.identity) = some input
  conflict : answer = .error (.enqueue .idempotencyConflict) ↔
    ∃ first, (earlier.find? fun other => other.identity = input.identity) = some first ∧
      first ≠ input

/-- Each answer to a sequence of inputs is the right one. -/
def QueuedOnce (topic : String) (calls : List (Input × ℤ)) : Prop :=
  ∀ earlier input now later, calls = earlier ++ (input, now) :: later →
    AnsweredRightly (inputsOf earlier) input
      (queue topic now input.command (queued topic earlier .empty)).1

/-- Among inputs of which none spells another, keys are as good as identities. -/
theorem answeredRightly_of_key {topic : String} {earlier : List (Input × ℤ)} {input : Input}
    {now : ℤ} (h : ∀ other ∈ inputsOf earlier,
      other.key = input.key ↔ other.identity = input.identity) :
    AnsweredRightly (inputsOf earlier) input
      (queue topic now input.command (queued topic earlier .empty)).1 := by
  -- The first with the key is the first with the identity.
  have hfind : ((inputsOf earlier).find? fun other => other.key = input.key) =
      (inputsOf earlier).find? fun other => other.identity = input.identity :=
    List.find?_congr fun other hother => decide_eq_decide.2 (h other hother)
  rw [answer_queued, hfind]
  cases hfirst : (inputsOf earlier).find? fun other => other.identity = input.identity with
  | none =>
    have hnone : ∀ other ∈ inputsOf earlier, other.identity ≠ input.identity := by
      simpa using hfirst
    refine ⟨iff_of_true ⟨_, rfl⟩ hnone, iff_of_false nofun ?_, iff_of_false nofun ?_⟩
    · rw [hfirst]
      nofun
    · rintro ⟨first, hsome, -⟩
      rw [hfirst] at hsome
      cases hsome
  | some first =>
    have hmem := List.mem_of_find?_eq_some hfirst
    have hidentity : first.identity = input.identity := by simpa using List.find?_some hfirst
    have hsome : ¬∀ other ∈ inputsOf earlier, other.identity ≠ input.identity :=
      fun hnone => hnone first hmem hidentity
    by_cases heq : first = input
    · exact ⟨iff_of_false (by simp [heq]) hsome, by simp [heq, hfirst], by simp [heq, hfirst]⟩
    · exact ⟨iff_of_false (by simp [heq]) hsome, by simp [heq, hfirst], by simp [heq, hfirst]⟩

/-- An input is not inserted after another one with its key. -/
theorem not_inserted_of_key {topic : String} {earlier : List (Input × ℤ)} {input other : Input}
    {now : ℤ} (hother : other ∈ inputsOf earlier) (hkey : other.key = input.key) :
    ¬∃ outboxId, (queue topic now input.command (queued topic earlier .empty)).1 =
      .ok (some outboxId) := by
  rw [answer_queued]
  cases hfirst : (inputsOf earlier).find? fun other => other.key = input.key with
  | none => exact absurd hkey (by simpa using List.find?_eq_none.1 hfirst other hother)
  | some first =>
    dsimp only
    split <;> simp

/-- No input before one that is the first with its identity has its key. -/
theorem QueuedOnce.key_ne {topic : String} {calls earlier later : List (Input × ℤ)}
    {first second : Input} {now : ℤ} (h : QueuedOnce topic calls)
    (hsplit : calls = earlier ++ (second, now) :: later) (hfirst : first ∈ inputsOf earlier)
    (hfresh : ∀ other ∈ inputsOf earlier, other.identity ≠ second.identity) :
    first.key ≠ second.key := by
  intro hkey
  have hinserted := (h earlier second now later hsplit).inserted.2 hfresh
  exact not_inserted_of_key hfirst hkey hinserted

/-- The first call with the identity of an input. -/
theorem exists_first {calls : List (Input × ℤ)} {input : Input} (h : input ∈ inputsOf calls) :
    ∃ earlier first now later, calls = earlier ++ (first, now) :: later ∧
      first.identity = input.identity ∧
      ∀ other ∈ inputsOf earlier, other.identity ≠ input.identity := by
  obtain ⟨call, hcall, rfl⟩ := List.mem_map.1 h
  obtain ⟨first, hfirst⟩ : ∃ first,
      (calls.find? fun other => other.1.identity = call.1.identity) = some first := by
    rw [← Option.isSome_iff_exists, List.find?_isSome]
    exact ⟨call, hcall, decide_eq_true rfl⟩
  obtain ⟨hidentity, earlier, later, hsplit, hbefore⟩ := List.find?_eq_some_iff_append.1 hfirst
  refine ⟨earlier, first.1, first.2, later, hsplit, of_decide_eq_true hidentity, ?_⟩
  intro other hother
  obtain ⟨before, hmem, rfl⟩ := List.mem_map.1 hother
  simpa using hbefore before hmem

/-- Every distinct input is queued exactly once, and the others are compared with it,
exactly when no input has an id that spells the source of another one. -/
theorem queued_once_iff (topic : String) (calls : List (Input × ℤ)) :
    QueuedOnce topic calls ↔
      ∀ a ∈ inputsOf calls, ∀ b ∈ inputsOf calls, ¬a.Spells b := by
  constructor
  · intro h a ha b hb hspells
    have hne : a.identity ≠ b.identity := by
      rw [Input.identity_of_some hspells.2.2, Input.identity_of_none hspells.2.1]
      nofun
    have hkey : a.key = b.key := Input.key_eq_iff.2 (.inr (.inl hspells))
    -- Whichever identity comes second is not inserted the first time it is there.
    obtain ⟨before, first, now, after, hsplit, hfirst, hbefore⟩ := exists_first ha
    obtain ⟨before', first', now', after', hsplit', hfirst', hbefore'⟩ := exists_first hb
    have hkeys : first.key = first'.key := by
      rw [Input.key_eq_iff.2 (.inl hfirst), Input.key_eq_iff.2 (.inl hfirst'), hkey]
    rcases List.append_eq_append_iff.1 (hsplit.symm.trans hsplit') with
      ⟨between, rfl, htail⟩ | ⟨between, rfl, htail⟩
    · cases between with
      | nil =>
        obtain ⟨hcall, -⟩ := List.cons.inj htail
        exact hne (hfirst.symm.trans ((congrArg (fun c => c.1.identity) hcall).trans hfirst'))
      | cons call between =>
        obtain ⟨rfl, -⟩ := List.cons.inj htail
        have hmem : first ∈ inputsOf (before ++ (first, now) :: between) := by simp
        rw [← hfirst'] at hbefore'
        exact h.key_ne hsplit' hmem hbefore' hkeys
    · cases between with
      | nil =>
        obtain ⟨hcall, -⟩ := List.cons.inj htail
        exact hne (hfirst.symm.trans ((congrArg (fun c => c.1.identity) hcall.symm).trans hfirst'))
      | cons call between =>
        obtain ⟨rfl, -⟩ := List.cons.inj htail
        have hmem : first' ∈ inputsOf (before' ++ (first', now') :: between) := by simp
        rw [← hfirst] at hbefore
        exact h.key_ne hsplit hmem hbefore hkeys.symm
  · intro h earlier input now later hsplit
    refine answeredRightly_of_key fun other hother => ?_
    have hmem : other ∈ inputsOf calls := by
      rw [hsplit, inputsOf_append]
      exact List.mem_append_left _ hother
    have hinput : input ∈ inputsOf calls := by simp [hsplit]
    rw [Input.key_eq_iff]
    exact or_iff_left fun hspells => hspells.elim (h other hmem input hinput)
      (h input hinput other hmem)

/-! ### A price that another input's id spells -/

/-- A mark price of market 1 with sequence number 5. -/
def markPriceInput (inputId : Option String) (markPrice : ℤ) : Input :=
  .markPrice
    { inputId := inputId, marketId := 1, markPrice := markPrice, indexPrice := 99
      sourceTimestampMs := 9, publishedAtMs := 10, validUntilMs := 20, sourceSequence := 5
      sourceStatus := "VALID" }

example : (markPriceInput none 100).key = "engine-input:mark-price:1:5:9" := by decide

/-- Nothing before the second input has its identity, and it is refused. -/
theorem spelled_input_refused :
    (markPriceInput (some "1:5:9") 100).identity ≠ (markPriceInput none 101).identity ∧
      (queue "engine.input" 1 (markPriceInput none 101).command
        (queued "engine.input" [(markPriceInput (some "1:5:9") 100, 0)] .empty)).1 =
        .error (.enqueue .idempotencyConflict) :=
  ⟨by decide, by rfl⟩

end EngineIngress
