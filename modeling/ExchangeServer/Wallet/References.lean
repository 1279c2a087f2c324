import ExchangeServer.Foundation.KeyText
import ExchangeServer.Wallet.Queue

/-!
# References of balance changes

A trade, a funding event and an account delta change balances by commands that
carry a reference. The ledger has one row for each user, asset, kind and
reference, and a command whose row is there already is passed over. Two commands
must therefore differ in one of the four unless they are one command read twice.

A funding event with an empty id writes nothing before its payments, so the
payments of two such events can be taken for each other.

## Main results

- `ledgerKey_eq`: commands with one row are one command, or payments of two events
  with empty ids
- `nothing_swallowed_iff`: when no balance change is taken for another one
- `empty_ids_collide`: two payments with one row
-/

namespace Wallet

open Protocol KeyText

/-! ## Events -/

/-- An event of the engine that changes balances. -/
inductive BalanceEvent
  | trade (event : TradeExecuted)
  | funding (event : FundingPaymentApplied)
  | delta (event : AccountDelta)
  deriving DecidableEq

namespace BalanceEvent

def engineEvent : BalanceEvent → EngineEvent
  | trade event => .tradeExecuted event
  | funding event => .fundingPaymentApplied event
  | delta event => .accountDelta event

def engineEventId : BalanceEvent → Option String
  | trade event => event.engineEventId
  | funding event => event.engineEventId
  | delta event => event.engineEventId

/-- Market and sequence number. -/
def place : BalanceEvent → ℤ × ℤ
  | trade event => (event.marketId, event.engineSequence)
  | funding event => (event.marketId, event.engineSequence)
  | delta event => (event.marketId, event.engineSequence)

/-- The change with an index among the commands of the event. -/
def changeAt (event : BalanceEvent) (index : ℕ) : Option ApplyAccountDelta :=
  match (engineWalletCommandsFromEngineEvent event.engineEvent)[index]? with
  | some (.applyAccountDelta change) => some change
  | _ => none

end BalanceEvent

/-- The columns of `UNIQUE(user_id, asset, kind, reference_id)` for a change. -/
def ApplyAccountDelta.ledgerKey (change : ApplyAccountDelta) : ℤ × Asset × String × String :=
  (change.userId, change.asset, change.kind, change.referenceId)

/-- Events that the engine has given different places and ids. An id of a funding
event that is not empty has no colon and is no other event's. -/
structure Distinct (events : List BalanceEvent) : Prop where
  places : ∀ a ∈ events, ∀ b ∈ events, a.place = b.place → a = b
  fills : ∀ a b, .trade a ∈ events → .trade b ∈ events → a.fillId = b.fillId → a = b
  deltas : ∀ a b, .delta a ∈ events → .delta b ∈ events → a.accountDeltaId = b.accountDeltaId → a = b
  ids : ∀ a, .funding a ∈ events → ∀ id ∈ a.engineEventId, id ≠ "" →
    ColonFree id ∧ ∀ b ∈ events, b.engineEventId = some id → b = .funding a
  positions : ∀ a, .funding a ∈ events → ∀ payment ∈ a.payments, ColonFree payment.positionId

/-- Two funding events with empty ids pay one user for one position, in one asset and
at one index. -/
def PaidAlike (a b : FundingPaymentApplied) (index : ℕ) : Prop :=
  a.engineEventId = some "" ∧ b.engineEventId = some "" ∧
    ∃ payment ∈ a.payments[index]?, ∃ payment' ∈ b.payments[index]?,
      payment.userId = payment'.userId ∧ payment.asset = payment'.asset ∧
        payment.positionId = payment'.positionId

/-! ## The changes of an event -/

/-- The change for a fee. -/
def feeChange (fillId : ℤ) (index : ℕ) (fee : FeeDelta) : ApplyAccountDelta where
  userId := fee.userId
  asset := fee.asset
  totalDelta := negI64 fee.amount
  lockedDelta := 0
  kind := "TRADE_FEE"
  referenceId := "fill:" ++ toString fillId ++ ":fee:" ++ toString index ++ ":" ++
    toString fee.userId ++ ":" ++ fee.feeType

/-- The change for a payment. -/
def paymentChange (eventReference : String) (index : ℕ) (payment : FundingPayment) :
    ApplyAccountDelta where
  userId := payment.userId
  asset := payment.asset
  totalDelta := payment.amount
  lockedDelta := 0
  kind := "FUNDING_PAYMENT"
  referenceId := eventReference ++ ":payment:" ++ toString index ++ ":" ++ payment.positionId

/-- What the references of a funding event start with. -/
def eventReference (event : FundingPaymentApplied) : String :=
  event.engineEventId.getD
    ("funding:" ++ toString event.marketId ++ ":" ++ toString event.engineSequence)

theorem changeAt_trade {event : TradeExecuted} {index : ℕ} {change : ApplyAccountDelta}
    (h : (BalanceEvent.trade event).changeAt index = some change) :
    ∃ i fee, index = event.settlements.length + i ∧
      change = feeChange event.fillId i fee := by
  unfold BalanceEvent.changeAt BalanceEvent.engineEvent engineWalletCommandsFromEngineEvent at h
  dsimp only at h
  by_cases hindex : index < event.settlements.length
  · -- A settlement is no change.
    rw [List.getElem?_append_left (by simpa using hindex), List.getElem?_map] at h
    cases hsettlement : event.settlements[index]? with
    | none =>
      rw [hsettlement] at h
      cases h
    | some settlement =>
      rw [hsettlement] at h
      cases h
  · obtain ⟨i, rfl⟩ := Nat.exists_eq_add_of_le (Nat.le_of_not_lt hindex)
    rw [List.getElem?_append_right (by simp), List.length_map, Nat.add_sub_cancel_left,
      List.getElem?_mapIdx] at h
    cases hfee : event.feeDeltas[i]? with
    | none =>
      rw [hfee] at h
      cases h
    | some fee =>
      rw [hfee] at h
      cases h
      exact ⟨i, fee, rfl, rfl⟩

theorem changeAt_funding {event : FundingPaymentApplied} {index : ℕ} {change : ApplyAccountDelta} :
    (BalanceEvent.funding event).changeAt index = some change ↔
      ∃ payment, event.payments[index]? = some payment ∧
        change = paymentChange (eventReference event) index payment := by
  unfold BalanceEvent.changeAt BalanceEvent.engineEvent engineWalletCommandsFromEngineEvent
  dsimp only
  rw [List.getElem?_mapIdx]
  cases event.payments[index]? with
  | none => simp
  | some payment =>
    show some (paymentChange (eventReference event) index payment) = some change ↔ _
    simp [eq_comm]

theorem changeAt_delta {event : AccountDelta} {index : ℕ} {change : ApplyAccountDelta}
    (h : (BalanceEvent.delta event).changeAt index = some change) :
    index = 0 ∧ change.kind = "ACCOUNT_DELTA" ∧ change.referenceId = event.accountDeltaId := by
  cases index with
  | zero =>
    cases h
    exact ⟨rfl, rfl, rfl⟩
  | succ index => cases h

/-- The kind of the changes of an event. -/
def BalanceEvent.kind : BalanceEvent → String
  | trade _ => "TRADE_FEE"
  | funding _ => "FUNDING_PAYMENT"
  | delta _ => "ACCOUNT_DELTA"

theorem kind_of_changeAt {event : BalanceEvent} {index : ℕ} {change : ApplyAccountDelta}
    (h : event.changeAt index = some change) : change.kind = event.kind := by
  cases event with
  | trade event =>
    obtain ⟨i, fee, -, rfl⟩ := changeAt_trade h
    rfl
  | funding event =>
    obtain ⟨payment, -, rfl⟩ := changeAt_funding.1 h
    rfl
  | delta event => exact (changeAt_delta h).2.1

/-! ## Changes with one row -/

theorem feeChange_inj {fillId fillId' : ℤ} {i j : ℕ} {fee fee' : FeeDelta}
    (h : (feeChange fillId i fee).referenceId = (feeChange fillId' j fee').referenceId) :
    fillId = fillId' ∧ i = j := by
  have hform : ∀ (fillId : ℤ) (i : ℕ) (fee : FeeDelta), (feeChange fillId i fee).referenceId =
      "fill:" ++ (toString fillId ++ ":" ++ ("fee:" ++ (toString i ++ ":" ++
        (toString fee.userId ++ ":" ++ fee.feeType)))) := by
    intro fillId i fee
    have hsplit : ":fee:" = ":" ++ "fee:" := by decide
    show "fill:" ++ toString fillId ++ ":fee:" ++ toString i ++ ":" ++ toString fee.userId ++ ":" ++
      fee.feeType = _
    rw [hsplit]
    simp only [String.append_assoc]
  rw [hform, hform] at h
  obtain ⟨hfill, h⟩ := split_left (colonFree_int fillId) (colonFree_int fillId') (append_left_cancel h)
  obtain ⟨hindex, -⟩ := split_left (colonFree_nat_repr i) (colonFree_nat_repr j) (append_left_cancel h)
  exact ⟨toString_int_inj hfill, Nat.repr_inj.1 hindex⟩

theorem paymentChange_inj {reference reference' : String} {i j : ℕ}
    {payment payment' : FundingPayment} (hposition : ColonFree payment.positionId)
    (hposition' : ColonFree payment'.positionId)
    (h : (paymentChange reference i payment).referenceId =
      (paymentChange reference' j payment').referenceId) :
    reference = reference' ∧ i = j ∧ payment.positionId = payment'.positionId := by
  -- Position and index have no colon, so they are what follows the last two.
  obtain ⟨h, hpositions⟩ := split_right hposition hposition' h
  have hform : ∀ (reference : String) (i : ℕ), reference ++ ":payment:" ++ toString i =
      reference ++ ":payment" ++ ":" ++ toString i := by
    intro reference i
    have hsplit : ":payment:" = ":payment" ++ ":" := by decide
    rw [hsplit, String.append_assoc, String.append_assoc, String.append_assoc, String.append_assoc]
  rw [hform, hform] at h
  obtain ⟨h, hindex⟩ := split_right (colonFree_nat_repr i) (colonFree_nat_repr j) h
  have hreference : reference = reference' := by
    rw [← String.toList_inj, String.toList_append, String.toList_append] at h
    exact String.toList_inj.1 (List.append_cancel_right h)
  exact ⟨hreference, Nat.repr_inj.1 hindex, hpositions⟩

/-- Events with one reference are one event, or have empty ids. -/
theorem eventReference_eq {events : List BalanceEvent} (h : Distinct events)
    {a b : FundingPaymentApplied} (ha : .funding a ∈ events) (hb : .funding b ∈ events)
    (heq : eventReference a = eventReference b) :
    a = b ∨ a.engineEventId = some "" ∧ b.engineEventId = some "" := by
  -- A derived reference has a colon.
  have hderived : ∀ m s : ℤ, ¬ColonFree ("funding:" ++ toString m ++ ":" ++ toString s) := by
    intro m s hfree
    refine hfree ?_
    rw [String.toList_append, String.toList_append]
    exact List.mem_append_left _ (List.mem_append_right _ (by decide))
  -- An id that is given, empty or not, has no colon.
  have hfree : ∀ a, .funding a ∈ events → ∀ id ∈ a.engineEventId, ColonFree id := by
    intro a ha id hid
    by_cases hempty : id = ""
    · rw [hempty]
      unfold ColonFree
      decide
    · exact (h.ids a ha id hid hempty).1
  unfold eventReference at heq
  cases hid : a.engineEventId with
  | none =>
    cases hid' : b.engineEventId with
    | none =>
      rw [hid, hid'] at heq
      obtain ⟨hleft, hsequence⟩ := split_right (colonFree_int _) (colonFree_int _) heq
      have hplace : (BalanceEvent.funding a).place = (BalanceEvent.funding b).place :=
        Prod.ext (toString_int_inj (append_left_cancel hleft)) (toString_int_inj hsequence)
      exact .inl (BalanceEvent.funding.inj (h.places _ ha _ hb hplace))
    | some id =>
      -- One is derived and the other given.
      rw [hid, hid'] at heq
      obtain rfl : _ = id := heq
      exact absurd (hfree b hb _ hid') (hderived _ _)
  | some id =>
    cases hid' : b.engineEventId with
    | none =>
      rw [hid, hid'] at heq
      obtain rfl : id = _ := heq
      exact absurd (hfree a ha _ hid) (hderived _ _)
    | some id' =>
      rw [hid, hid'] at heq
      obtain rfl : id = id' := heq
      by_cases hempty : id = ""
      · exact .inr ⟨by rw [hempty], by rw [hempty]⟩
      · have hsame := (h.ids a ha id hid hempty).2 _ hb hid'
        exact .inl (BalanceEvent.funding.inj hsame).symm

/-- Changes with one row are one change, or payments that are paid alike. -/
theorem ledgerKey_eq {events : List BalanceEvent} (h : Distinct events) {a b : BalanceEvent}
    (ha : a ∈ events) (hb : b ∈ events) {i j : ℕ} {change change' : ApplyAccountDelta}
    (hchange : a.changeAt i = some change) (hchange' : b.changeAt j = some change')
    (heq : change.ledgerKey = change'.ledgerKey) :
    a = b ∧ i = j ∨ i = j ∧ ∃ event event', a = .funding event ∧ b = .funding event' ∧
      PaidAlike event event' i := by
  unfold ApplyAccountDelta.ledgerKey at heq
  obtain ⟨huser, hasset, hkind, hreference⟩ : change.userId = change'.userId ∧
      change.asset = change'.asset ∧ change.kind = change'.kind ∧
      change.referenceId = change'.referenceId := by simpa using heq
  have hkinds : a.kind = b.kind := by
    rw [← kind_of_changeAt hchange, hkind, kind_of_changeAt hchange']
  cases a with
  | trade a =>
    cases b with
    | trade b =>
      obtain ⟨i, fee, rfl, rfl⟩ := changeAt_trade hchange
      obtain ⟨j, fee', rfl, rfl⟩ := changeAt_trade hchange'
      obtain ⟨hfill, rfl⟩ := feeChange_inj hreference
      obtain rfl := h.fills a b ha hb hfill
      exact .inl ⟨rfl, rfl⟩
    | funding b | delta b => exact absurd hkinds (by simp [BalanceEvent.kind])
  | funding a =>
    cases b with
    | funding b =>
      obtain ⟨payment, hpayment, rfl⟩ := changeAt_funding.1 hchange
      obtain ⟨payment', hpayment', rfl⟩ := changeAt_funding.1 hchange'
      have hposition := h.positions a ha payment (List.mem_of_getElem? hpayment)
      have hposition' := h.positions b hb payment' (List.mem_of_getElem? hpayment')
      obtain ⟨hevents, rfl, hpositions⟩ := paymentChange_inj hposition hposition' hreference
      rcases eventReference_eq h ha hb hevents with rfl | ⟨hempty, hempty'⟩
      · exact .inl ⟨rfl, rfl⟩
      · exact .inr ⟨rfl, a, b, rfl, rfl, hempty, hempty', payment, hpayment, payment', hpayment',
          huser, hasset, hpositions⟩
    | trade b | delta b => exact absurd hkinds (by simp [BalanceEvent.kind])
  | delta a =>
    cases b with
    | delta b =>
      obtain ⟨rfl, -, hid⟩ := changeAt_delta hchange
      obtain ⟨rfl, -, hid'⟩ := changeAt_delta hchange'
      obtain rfl := h.deltas a b ha hb (by rw [← hid, hreference, hid'])
      exact .inl ⟨rfl, rfl⟩
    | trade b | funding b => exact absurd hkinds (by simp [BalanceEvent.kind])

/-- Two different changes of the events never have one row of the ledger. -/
def NothingSwallowed (events : List BalanceEvent) : Prop :=
  ∀ a ∈ events, ∀ b ∈ events, ∀ i j change change', a.changeAt i = some change →
    b.changeAt j = some change' → ¬(a = b ∧ i = j) → change.ledgerKey ≠ change'.ledgerKey

/-- No change is taken for another one exactly when no two funding events with empty
ids are paid alike. -/
theorem nothing_swallowed_iff {events : List BalanceEvent} (h : Distinct events) :
    NothingSwallowed events ↔ ∀ a b, .funding a ∈ events → .funding b ∈ events → a ≠ b →
      ∀ index, ¬PaidAlike a b index := by
  constructor
  · rintro hnothing a b ha hb hne index
      ⟨hempty, hempty', payment, hpayment, payment', hpayment', huser, hasset, hposition⟩
    have hchange := changeAt_funding.2 ⟨payment, hpayment, rfl⟩
    have hchange' := changeAt_funding.2 ⟨payment', hpayment', rfl⟩
    refine hnothing _ ha _ hb index index _ _ hchange hchange' ?_ ?_
    · exact fun hsame => hne (BalanceEvent.funding.inj hsame.1)
    · -- Both references are the part of the payment alone.
      unfold eventReference ApplyAccountDelta.ledgerKey paymentChange
      rw [hempty, hempty', huser, hasset, hposition]
      rfl
  · intro hapart a ha b hb i j change change' hchange hchange' hne heq
    rcases ledgerKey_eq h ha hb hchange hchange' heq with
      hsame | ⟨hindex, event, event', rfl, rfl, halike⟩
    · exact hne hsame
    · refine hapart event event' ha hb ?_ i halike
      rintro rfl
      exact hne ⟨rfl, hindex⟩

/-! ### Two funding events with empty ids -/

/-- A funding event of market 7 that pays user 1 for a position. -/
def fundingEvent (engineEventId : Option String) (engineSequence : ℤ) : FundingPaymentApplied where
  engineEventId := engineEventId
  marketId := 7
  engineSequence := engineSequence
  engineTimestampMs := engineSequence
  sourceInputId := none
  sourceInputOffset := none
  fundingIntervalId := "interval"
  payments := [{ userId := 1, positionId := "p1", side := .LONG, asset := .USDC, amount := 3 }]

def fundingEvents (engineEventId engineEventId' : Option String) : List BalanceEvent :=
  [.funding (fundingEvent engineEventId 1), .funding (fundingEvent engineEventId' 2)]

theorem distinct_fundingEvents {engineEventId engineEventId' : Option String}
    (hid : engineEventId = some "") (hid' : engineEventId' = none ∨ engineEventId' = some "") :
    Distinct (fundingEvents engineEventId engineEventId') := by
  have hfunding : ∀ a, .funding a ∈ fundingEvents engineEventId engineEventId' →
      a = fundingEvent engineEventId 1 ∨ a = fundingEvent engineEventId' 2 := by
    simp [fundingEvents]
  refine ⟨?_, by simp [fundingEvents], by simp [fundingEvents], ?_, ?_⟩
  · intro a ha b hb hplace
    rcases List.mem_pair.1 ha with rfl | rfl <;> rcases List.mem_pair.1 hb with rfl | rfl
    · rfl
    · have hsequence : (1 : ℤ) = 2 := congrArg Prod.snd hplace
      omega
    · have hsequence : (2 : ℤ) = 1 := congrArg Prod.snd hplace
      omega
    · rfl
  · intro a ha id hmem hempty
    have hnone : a.engineEventId = none ∨ a.engineEventId = some "" := by
      rcases hfunding a ha with rfl | rfl
      · exact .inr hid
      · exact hid'
    rcases hnone with hnone | hsome
    · rw [hnone] at hmem
      cases hmem
    · rw [hsome] at hmem
      exact absurd (Option.some.inj hmem).symm hempty
  · intro a ha payment hpayment
    have hposition : payment.positionId = "p1" := by
      rcases hfunding a ha with rfl | rfl <;> rw [List.mem_singleton.1 hpayment]
    rw [hposition]
    unfold ColonFree
    decide

/-- The second payment is taken for the first. -/
theorem empty_ids_collide :
    Distinct (fundingEvents (some "") (some "")) ∧
      ¬NothingSwallowed (fundingEvents (some "") (some "")) := by
  refine ⟨distinct_fundingEvents rfl (.inr rfl), fun h => ?_⟩
  exact h (.funding (fundingEvent (some "") 1)) (by simp [fundingEvents])
    (.funding (fundingEvent (some "") 2)) (by simp [fundingEvents]) 0 0 _ _ rfl rfl
    (fun hsame => absurd hsame.1 (by decide)) rfl

theorem nothing_swallowed_iff_absent :
    NothingSwallowed (fundingEvents (some "") none) := by
  refine (nothing_swallowed_iff (distinct_fundingEvents rfl (.inl rfl))).2 ?_
  rintro a b ha hb hne index ⟨hempty, hempty', -⟩
  have hfirst : ∀ c, .funding c ∈ fundingEvents (some "") none → c.engineEventId = some "" →
      c = fundingEvent (some "") 1 := by
    intro c hc hid
    rcases List.mem_pair.1 hc with hc | hc
    · exact BalanceEvent.funding.inj hc
    · rw [BalanceEvent.funding.inj hc] at hid
      cases hid
  exact hne ((hfirst a ha hempty).trans (hfirst b hb hempty').symm)

end Wallet
