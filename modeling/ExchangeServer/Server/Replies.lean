import ExchangeServer.Protocol.Wallet
import Mathlib.Data.List.Pairwise

/-!
# The reply state of the server

A record for each request that a user waits for. A reply of the wallet or of
the engine replaces the result of its record, says anew whether the record is
complete, and is sent to the waiter of the record when it is the first that
completes it. The two topics are read by tasks of their own, each step under one
lock, so the replies of a request are processed in any order.

The waiter gets the first final reply and nothing else. The record keeps a final
reply exactly when no reply that is not final is processed after one that is.

## Main results

- `final_answer_kept_iff`: when a final answer is kept
-/

namespace Server

open Protocol

inductive RequestKind
  | deposit | withdraw | placeOrder | cancelOrder
  deriving DecidableEq

inductive ReplyResult
  | pending
  | wallet (reply : WalletReply)
  | engine (reply : EngineReply)
  deriving DecidableEq

def isFinalResult : Option RequestKind → ReplyResult → Bool
  | some .deposit, .wallet (.balanceUpdated _) => true
  | some .deposit, .wallet (.commandRejected _) => true
  | some .withdraw, .wallet (.balanceUpdated _) => true
  | some .withdraw, .wallet (.insufficientFunds _) => true
  | some .withdraw, .wallet (.commandRejected _) => true
  | some .placeOrder, .wallet (.insufficientFunds _) => true
  | some .placeOrder, .wallet (.commandRejected _) => true
  | some .placeOrder, .engine (.orderAccepted _) => true
  | some .placeOrder, .engine (.orderRejected _) => true
  | some .cancelOrder, .wallet (.commandRejected _) => true
  | some .cancelOrder, .engine (.cancelAccepted _) => true
  | some .cancelOrder, .engine (.cancelRejected _) => true
  | none, .pending => false
  | none, _ => true
  | _, _ => false

def walletReplyRequestId : WalletReply → String
  | .fundsReserved reply => reply.requestId
  | .insufficientFunds reply => reply.requestId
  | .balanceUpdated reply => reply.requestId
  | .commandAccepted reply => reply.requestId
  | .commandRejected reply => reply.requestId

def engineReplyRequestId : EngineReply → String
  | .orderAccepted reply => reply.requestId
  | .orderRejected reply => reply.requestId
  | .cancelAccepted reply => reply.requestId
  | .cancelRejected reply => reply.requestId
  | .liquidationAccepted reply => reply.requestId
  | .liquidationRejected reply => reply.requestId

structure ReplyRecord where
  requestId : String
  kind : Option RequestKind
  complete : Bool
  result : ReplyResult
  deriving DecidableEq

/-- A record; its waiter is the number of a channel. -/
structure PendingRequest where
  requestId : String
  userId : Option ℤ
  kind : Option RequestKind
  result : ReplyResult
  waiter : Option ℕ
  complete : Bool
  deriving DecidableEq

def PendingRequest.toRecord (self : PendingRequest) : ReplyRecord where
  requestId := self.requestId
  kind := self.kind
  complete := self.complete
  result := self.result

/-- The records, the number of channels created so far, and what was sent over
them. -/
structure ReplyState where
  records : String → Option PendingRequest
  channels : ℕ
  sent : List (ℕ × ReplyRecord)

namespace ReplyState

def default : ReplyState where
  records := fun _ => none
  channels := 0
  sent := []

/-- The receiver of the waiter is the channel `self.channels`. -/
def registerWaiter (self : ReplyState) (requestId : String) (userId : ℤ) (kind : RequestKind) :
    ReplyState where
  records := Function.update self.records requestId (some
    { requestId, userId := some userId, kind := some kind, result := .pending,
      waiter := some self.channels, complete := false })
  channels := self.channels + 1
  sent := self.sent

def remove (self : ReplyState) (requestId : String) : ReplyState :=
  { self with records := Function.update self.records requestId none }

def resolve (self : ReplyState) (requestId : String) (result : ReplyResult) : ReplyState :=
  match self.records requestId with
  | some record =>
    let complete := isFinalResult record.kind result
    let record := { record with result, complete }
    if complete then
      { self with
        records := Function.update self.records requestId (some { record with waiter := none })
        sent := self.sent ++ record.waiter.toList.map fun waiter => (waiter, record.toRecord) }
    else { self with records := Function.update self.records requestId (some record) }
  | none =>
    { self with
      records := Function.update self.records requestId (some
        { requestId, userId := none, kind := none, complete := result ≠ .pending, result,
          waiter := none }) }

def resolveWalletReply (self : ReplyState) (reply : WalletReply) : ReplyState :=
  self.resolve (walletReplyRequestId reply) (.wallet reply)

def resolveEngineReply (self : ReplyState) (reply : EngineReply) : ReplyState :=
  self.resolve (engineReplyRequestId reply) (.engine reply)

def getForUser (self : ReplyState) (requestId : String) (userId : ℤ) : Option ReplyRecord :=
  ((self.records requestId).filter fun record => record.userId = some userId).map
    PendingRequest.toRecord

end ReplyState

/-! ## Sequences of steps -/

/-- What the handlers and the two consumers do to the state. -/
inductive ReplyAction
  | registerWaiter (requestId : String) (userId : ℤ) (kind : RequestKind)
  | remove (requestId : String)
  | resolveWalletReply (reply : WalletReply)
  | resolveEngineReply (reply : EngineReply)

namespace ReplyAction

/-- The handler of a request starts or drops its record. -/
def Resets (requestId : String) : ReplyAction → Prop
  | registerWaiter id _ _ | remove id => id = requestId
  | resolveWalletReply _ | resolveEngineReply _ => False

/-- The result for a request that an action brings. -/
def result? (requestId : String) : ReplyAction → Option ReplyResult
  | resolveWalletReply reply =>
    if walletReplyRequestId reply = requestId then some (.wallet reply) else none
  | resolveEngineReply reply =>
    if engineReplyRequestId reply = requestId then some (.engine reply) else none
  | registerWaiter .. | remove _ => none

end ReplyAction

namespace ReplyState

def apply (self : ReplyState) : ReplyAction → ReplyState
  | .registerWaiter requestId userId kind => self.registerWaiter requestId userId kind
  | .remove requestId => self.remove requestId
  | .resolveWalletReply reply => self.resolveWalletReply reply
  | .resolveEngineReply reply => self.resolveEngineReply reply

def applyAll (self : ReplyState) (actions : List ReplyAction) : ReplyState :=
  actions.foldl apply self

end ReplyState

/-- The results for a request, in the order in which they are processed. -/
def resultsOf (requestId : String) (actions : List ReplyAction) : List ReplyResult :=
  actions.filterMap (ReplyAction.result? requestId)

/-- The record of a request after these results. -/
def recordOf (requestId : String) (userId : ℤ) (kind : RequestKind) (channel : ℕ)
    (results : List ReplyResult) : PendingRequest where
  requestId := requestId
  userId := some userId
  kind := some kind
  result := results.getLast?.getD .pending
  waiter := if results.any (isFinalResult (some kind)) then none else some channel
  complete := results.getLast?.any (isFinalResult (some kind))

theorem recordOf_append (requestId : String) (userId : ℤ) (kind : RequestKind) (channel : ℕ)
    (results : List ReplyResult) (result : ReplyResult) :
    recordOf requestId userId kind channel (results ++ [result]) =
      { recordOf requestId userId kind channel results with
        result
        complete := isFinalResult (some kind) result
        waiter :=
          if isFinalResult (some kind) result then none
          else (recordOf requestId userId kind channel results).waiter } := by
  cases hfinal : isFinalResult (some kind) result <;> simp [recordOf, hfinal]

/-- What the waiter of a request is sent for these results. -/
def answerOf (requestId : String) (kind : RequestKind) (results : List ReplyResult) :
    List ReplyRecord :=
  (results.find? (isFinalResult (some kind))).toList.map fun result =>
    { requestId, kind := some kind, complete := true, result }

/-- What the server has sent over a channel. -/
def ReplyState.sentTo (self : ReplyState) (channel : ℕ) : List ReplyRecord :=
  (self.sent.filter fun message => message.1 = channel).map Prod.snd

/-- A state whose channels have numbers below the next one. -/
structure Fresh (σ : ReplyState) : Prop where
  waiters : ∀ id record channel, σ.records id = some record → record.waiter = some channel →
    channel < σ.channels
  sent : ∀ message ∈ σ.sent, message.1 < σ.channels

/-- The record of a request and its channel after these results. -/
structure Tracks (requestId : String) (userId : ℤ) (kind : RequestKind) (channel : ℕ)
    (results : List ReplyResult) (σ : ReplyState) : Prop where
  record : σ.records requestId = some (recordOf requestId userId kind channel results)
  others : ∀ id record, id ≠ requestId → σ.records id = some record →
    record.waiter ≠ some channel
  sent : σ.sentTo channel = answerOf requestId kind results
  created : channel < σ.channels

section Resolve

variable {σ : ReplyState} {id : String} {result : ReplyResult}

theorem channels_resolve : (σ.resolve id result).channels = σ.channels := by
  unfold ReplyState.resolve
  split
  · dsimp only
    split <;> rfl
  · rfl

theorem resolve_of_final {record : PendingRequest} (h : σ.records id = some record)
    (hfinal : isFinalResult record.kind result = true) :
    σ.resolve id result =
      { σ with
        records := Function.update σ.records id
          (some { record with result, complete := true, waiter := none })
        sent := σ.sent ++ record.waiter.toList.map fun waiter =>
          (waiter, { requestId := record.requestId, kind := record.kind, complete := true, result }) } := by
  simp only [ReplyState.resolve, h, hfinal, if_true]
  rfl

theorem resolve_of_not_final {record : PendingRequest} (h : σ.records id = some record)
    (hfinal : isFinalResult record.kind result = false) :
    σ.resolve id result =
      { σ with
        records := Function.update σ.records id
          (some { record with result, complete := false }) } := by
  simp [ReplyState.resolve, h, hfinal]

theorem resolve_of_none (h : σ.records id = none) :
    σ.resolve id result =
      { σ with
        records := Function.update σ.records id (some
          { requestId := id, userId := none, kind := none, complete := result ≠ .pending, result,
            waiter := none }) } := by
  simp [ReplyState.resolve, h]

/-- A waiter after a reply was the waiter of the same request before. -/
theorem waiter_of_resolve {id' : String} {record' : PendingRequest} {channel : ℕ}
    (h : (σ.resolve id result).records id' = some record') (hwaiter : record'.waiter = some channel) :
    ∃ record, σ.records id' = some record ∧ record.waiter = some channel := by
  by_cases hid : id' = id
  · subst hid
    cases hrecord : σ.records id' with
    | none =>
      rw [resolve_of_none hrecord] at h
      simp only [Function.update_self, Option.some.injEq] at h
      subst h
      cases hwaiter
    | some record =>
      cases hfinal : isFinalResult record.kind result with
      | true =>
        rw [resolve_of_final hrecord hfinal] at h
        simp only [Function.update_self, Option.some.injEq] at h
        subst h
        cases hwaiter
      | false =>
        rw [resolve_of_not_final hrecord hfinal] at h
        simp only [Function.update_self, Option.some.injEq] at h
        subst h
        exact ⟨record, rfl, hwaiter⟩
  · refine ⟨record', ?_, hwaiter⟩
    unfold ReplyState.resolve at h
    split at h
    · dsimp only at h
      split at h <;> simpa only [Function.update_of_ne hid] using h
    · simpa only [Function.update_of_ne hid] using h

/-- A reply is sent to the waiter of its request only. -/
theorem sent_of_resolve {message : ℕ × ReplyRecord} (h : message ∈ (σ.resolve id result).sent) :
    message ∈ σ.sent ∨ ∃ record, σ.records id = some record ∧ record.waiter = some message.1 := by
  cases hrecord : σ.records id with
  | none =>
    rw [resolve_of_none hrecord] at h
    exact .inl h
  | some record =>
    cases hfinal : isFinalResult record.kind result with
    | false =>
      rw [resolve_of_not_final hrecord hfinal] at h
      exact .inl h
    | true =>
      rw [resolve_of_final hrecord hfinal] at h
      rcases List.mem_append.1 h with h | h
      · exact .inl h
      · obtain ⟨waiter, hwaiter, rfl⟩ := List.mem_map.1 h
        exact .inr ⟨record, rfl, Option.mem_toList.1 hwaiter⟩

theorem sentTo_resolve_of_ne {channel : ℕ}
    (h : ∀ record, σ.records id = some record → record.waiter ≠ some channel) :
    (σ.resolve id result).sentTo channel = σ.sentTo channel := by
  cases hrecord : σ.records id with
  | none => rw [resolve_of_none hrecord, ReplyState.sentTo, ReplyState.sentTo]
  | some record =>
    cases hfinal : isFinalResult record.kind result with
    | false => rw [resolve_of_not_final hrecord hfinal, ReplyState.sentTo, ReplyState.sentTo]
    | true =>
      have hne := h record hrecord
      rw [resolve_of_final hrecord hfinal, ReplyState.sentTo, ReplyState.sentTo, List.filter_append,
        List.map_append]
      cases hwaiter : record.waiter with
      | none => simp
      | some waiter =>
        have hne : waiter ≠ channel := fun heq => hne (hwaiter.trans (congrArg some heq))
        simp [hne]

end Resolve

theorem fresh_apply {σ : ReplyState} (h : Fresh σ) (action : ReplyAction) :
    Fresh (σ.apply action) := by
  have hresolve : ∀ id result, Fresh (σ.resolve id result) := by
    intro id result
    refine ⟨fun id' record' channel hrecord' hwaiter => ?_, fun message hmessage => ?_⟩
    · obtain ⟨record, hrecord, hwaiter⟩ := waiter_of_resolve hrecord' hwaiter
      rw [channels_resolve]
      exact h.waiters id' record channel hrecord hwaiter
    · rw [channels_resolve]
      rcases sent_of_resolve hmessage with hmessage | ⟨record, hrecord, hwaiter⟩
      · exact h.sent message hmessage
      · exact h.waiters id record _ hrecord hwaiter
  cases action with
  | registerWaiter requestId userId kind =>
    refine ⟨fun id record channel hrecord hwaiter => ?_, fun message hmessage => ?_⟩
    · by_cases hid : id = requestId
      · subst hid
        simp only [ReplyState.apply, ReplyState.registerWaiter, Function.update_self,
          Option.some.injEq] at hrecord
        subst hrecord
        cases hwaiter
        exact Nat.lt_succ_self _
      · simp only [ReplyState.apply, ReplyState.registerWaiter, Function.update_of_ne hid] at hrecord
        exact Nat.lt_succ_of_lt (h.waiters id record channel hrecord hwaiter)
    · exact Nat.lt_succ_of_lt (h.sent message hmessage)
  | remove requestId =>
    refine ⟨fun id record channel hrecord hwaiter => ?_, h.sent⟩
    by_cases hid : id = requestId
    · subst hid
      simp [ReplyState.apply, ReplyState.remove] at hrecord
    · simp only [ReplyState.apply, ReplyState.remove, Function.update_of_ne hid] at hrecord
      exact h.waiters id record channel hrecord hwaiter
  | resolveWalletReply reply => exact hresolve _ _
  | resolveEngineReply reply => exact hresolve _ _

theorem fresh_applyAll {σ : ReplyState} (h : Fresh σ) (actions : List ReplyAction) :
    Fresh (σ.applyAll actions) := by
  induction actions generalizing σ with
  | nil => exact h
  | cons action actions ih => exact ih (fresh_apply h action)

theorem fresh_default : Fresh .default where
  waiters _ _ _ h := nomatch h
  sent _ h := nomatch h

/-! ## The record of one request -/

section Tracks

variable {requestId : String} {userId : ℤ} {kind : RequestKind} {channel : ℕ}
  {results : List ReplyResult} {σ : ReplyState}

theorem tracks_register (h : Fresh σ) :
    Tracks requestId userId kind σ.channels [] (σ.registerWaiter requestId userId kind) where
  record := by simp [ReplyState.registerWaiter, recordOf]
  others id record hid hrecord hwaiter := by
    simp only [ReplyState.registerWaiter, Function.update_of_ne hid] at hrecord
    exact absurd (h.waiters id record _ hrecord hwaiter) (Nat.lt_irrefl _)
  sent := by
    have hnil : σ.sent.filter (fun message => message.1 = σ.channels) = [] := by
      refine List.filter_eq_nil_iff.2 fun message hmessage => ?_
      simpa using Nat.ne_of_lt (h.sent message hmessage)
    simp [ReplyState.sentTo, ReplyState.registerWaiter, answerOf, hnil]
  created := Nat.lt_succ_self _

theorem answerOf_append (result : ReplyResult) :
    answerOf requestId kind (results ++ [result]) =
      answerOf requestId kind results ++
        if isFinalResult (some kind) result ∧ ¬results.any (isFinalResult (some kind)) then
          [{ requestId, kind := some kind, complete := true, result }]
        else [] := by
  unfold answerOf
  rw [List.find?_append]
  cases hfind : results.find? (isFinalResult (some kind)) with
  | none =>
    have hany : results.any (isFinalResult (some kind)) = false := by
      simpa using hfind
    cases hfinal : isFinalResult (some kind) result <;> simp [hfinal, hany]
  | some final =>
    have hany : results.any (isFinalResult (some kind)) = true :=
      List.any_eq_true.2 ⟨final, List.mem_of_find?_eq_some hfind, List.find?_some hfind⟩
    simp [hany]

/-- A reply to the request itself. -/
theorem tracks_resolve_self (h : Tracks requestId userId kind channel results σ)
    (result : ReplyResult) :
    Tracks requestId userId kind channel (results ++ [result]) (σ.resolve requestId result) where
  record := by
    rw [recordOf_append]
    cases hfinal : isFinalResult (some kind) result with
    | true =>
      rw [resolve_of_final h.record hfinal]
      simp
    | false =>
      rw [resolve_of_not_final h.record hfinal]
      simp
  others id record hid hrecord hwaiter := by
    obtain ⟨before, hbefore, hwaiter⟩ := waiter_of_resolve hrecord hwaiter
    exact h.others id before hid hbefore hwaiter
  sent := by
    rw [answerOf_append]
    cases hfinal : isFinalResult (some kind) result with
    | true =>
      rw [resolve_of_final h.record hfinal, ReplyState.sentTo, List.filter_append, List.map_append]
      change σ.sentTo channel ++ _ = _
      rw [h.sent]
      by_cases hany : results.any (isFinalResult (some kind)) = true <;> simp [recordOf, hany]
    | false =>
      rw [resolve_of_not_final h.record hfinal, ReplyState.sentTo]
      change σ.sentTo channel = _
      simp [h.sent]
  created := by
    rw [channels_resolve]
    exact h.created

/-- A reply to another request. -/
theorem tracks_resolve_of_ne (h : Tracks requestId userId kind channel results σ) {id : String}
    (hid : id ≠ requestId) (result : ReplyResult) :
    Tracks requestId userId kind channel results (σ.resolve id result) where
  record := by
    rw [← h.record]
    unfold ReplyState.resolve
    split
    · dsimp only
      split <;> exact Function.update_of_ne hid.symm _ _
    · exact Function.update_of_ne hid.symm _ _
  others id' record hid' hrecord hwaiter := by
    obtain ⟨before, hbefore, hwaiter⟩ := waiter_of_resolve hrecord hwaiter
    exact h.others id' before hid' hbefore hwaiter
  sent := by
    rw [sentTo_resolve_of_ne fun record hrecord => h.others id record hid hrecord]
    exact h.sent
  created := by
    rw [channels_resolve]
    exact h.created

theorem tracks_apply (h : Tracks requestId userId kind channel results σ) {action : ReplyAction}
    (hkeeps : ¬action.Resets requestId) :
    Tracks requestId userId kind channel (results ++ (action.result? requestId).toList)
      (σ.apply action) := by
  have hresolve : ∀ id result, Tracks requestId userId kind channel
      (results ++ (if id = requestId then some result else none).toList) (σ.resolve id result) := by
    intro id result
    by_cases hid : id = requestId
    · subst hid
      simpa using tracks_resolve_self h result
    · simpa [hid] using tracks_resolve_of_ne h hid result
  cases action with
  | resolveWalletReply reply => exact hresolve _ _
  | resolveEngineReply reply => exact hresolve _ _
  | registerWaiter id user kind' =>
    have hid : requestId ≠ id := fun heq => hkeeps heq.symm
    simp only [ReplyAction.result?, Option.toList_none, List.append_nil]
    refine ⟨?_, fun id' record hid' hrecord hwaiter => ?_, h.sent, Nat.lt_succ_of_lt h.created⟩
    · exact (Function.update_of_ne hid _ _).trans h.record
    · by_cases heq : id' = id
      · subst heq
        simp only [ReplyState.apply, ReplyState.registerWaiter, Function.update_self,
          Option.some.injEq] at hrecord
        subst hrecord
        cases hwaiter
        exact absurd h.created (Nat.lt_irrefl _)
      · simp only [ReplyState.apply, ReplyState.registerWaiter, Function.update_of_ne heq] at hrecord
        exact h.others id' record hid' hrecord hwaiter
  | remove id =>
    have hid : requestId ≠ id := fun heq => hkeeps heq.symm
    simp only [ReplyAction.result?, Option.toList_none, List.append_nil]
    refine ⟨?_, fun id' record hid' hrecord hwaiter => ?_, h.sent, h.created⟩
    · exact (Function.update_of_ne hid _ _).trans h.record
    · by_cases heq : id' = id
      · subst heq
        simp [ReplyState.apply, ReplyState.remove] at hrecord
      · simp only [ReplyState.apply, ReplyState.remove, Function.update_of_ne heq] at hrecord
        exact h.others id' record hid' hrecord hwaiter

theorem tracks_applyAll (h : Tracks requestId userId kind channel results σ)
    {actions : List ReplyAction} (hkeeps : ∀ action ∈ actions, ¬action.Resets requestId) :
    Tracks requestId userId kind channel (results ++ resultsOf requestId actions)
      (σ.applyAll actions) := by
  induction actions generalizing σ results with
  | nil => simpa [resultsOf, ReplyState.applyAll] using h
  | cons action actions ih =>
    have hstep := ih (tracks_apply h (hkeeps action (List.mem_cons_self ..)))
      fun action haction => hkeeps action (List.mem_cons_of_mem _ haction)
    have hresults : results ++ resultsOf requestId (action :: actions) =
        results ++ (action.result? requestId).toList ++ resultsOf requestId actions := by
      unfold resultsOf
      cases hresult : action.result? requestId <;> simp [hresult]
    rw [hresults]
    exact hstep

end Tracks

/-! ## Final answers -/

/-- Once a final reply has been processed, the owner always reads a complete
record with a final reply, and the waiter is sent the first of them and nothing
else. -/
def FinalAnswerKept (requestId : String) (userId : ℤ) (kind : RequestKind) (σ : ReplyState)
    (actions : List ReplyAction) : Prop :=
  let registered := σ.registerWaiter requestId userId kind
  (∀ done rest, actions = done ++ rest →
    (∃ result ∈ resultsOf requestId done, isFinalResult (some kind) result) →
    ∃ record, (registered.applyAll done).getForUser requestId userId = some record ∧
      record.complete ∧ record.result ∈ resultsOf requestId done ∧
        isFinalResult (some kind) record.result) ∧
  (registered.applyAll actions).sentTo σ.channels =
    ((resultsOf requestId actions).find? (isFinalResult (some kind))).toList.map fun result =>
      { requestId, kind := some kind, complete := true, result }

/-- The owner reads the last result of the request. -/
theorem getForUser_of_tracks {requestId : String} {userId : ℤ} {kind : RequestKind} {channel : ℕ}
    {results : List ReplyResult} {σ : ReplyState}
    (h : Tracks requestId userId kind channel results σ) :
    σ.getForUser requestId userId =
      some (recordOf requestId userId kind channel results).toRecord := by
  have howner : (recordOf requestId userId kind channel results).userId = some userId := rfl
  simp [ReplyState.getForUser, h.record, Option.filter, howner]

/-- After any steps of the server, a request that is registered once keeps its
final answer in every sequence of replies exactly when every reply that is
processed after a final one is final. -/
theorem final_answer_kept_iff (before actions : List ReplyAction) (requestId : String) (userId : ℤ)
    (kind : RequestKind) (hkeeps : ∀ action ∈ actions, ¬action.Resets requestId) :
    FinalAnswerKept requestId userId kind (ReplyState.default.applyAll before) actions ↔
      (resultsOf requestId actions).Pairwise fun earlier later =>
        isFinalResult (some kind) earlier → isFinalResult (some kind) later := by
  let final := isFinalResult (some kind)
  have htracks : ∀ done rest, actions = done ++ rest →
      Tracks requestId userId kind (ReplyState.default.applyAll before).channels
        (resultsOf requestId done)
        (((ReplyState.default.applyAll before).registerWaiter requestId userId kind).applyAll done) := by
    intro done rest hsplit
    refine tracks_applyAll (tracks_register (fresh_applyAll fresh_default before)) ?_
    intro action haction
    exact hkeeps action (hsplit ▸ List.mem_append_left _ haction)
  constructor
  · rintro ⟨hkept, -⟩
    rw [List.pairwise_iff_getElem]
    intro i j hi hj hij hfinal
    -- The steps up to the one that brings the later result.
    have hsplit : resultsOf requestId actions =
        (resultsOf requestId actions).take (j + 1) ++ (resultsOf requestId actions).drop (j + 1) :=
      (List.take_append_drop _ _).symm
    obtain ⟨done, rest, hactions, hdone, -⟩ := List.filterMap_eq_append_iff.1 hsplit
    have hlast : (resultsOf requestId done).getLast? = some (resultsOf requestId actions)[j] := by
      rw [resultsOf, hdone, List.take_succ_eq_append_getElem hj]
      exact List.getLast?_concat
    have hmem : (resultsOf requestId actions)[i] ∈ resultsOf requestId done := by
      rw [resultsOf, hdone]
      exact List.mem_take_iff_getElem.2 ⟨i, by omega, rfl⟩
    obtain ⟨record, hrecord, -, -, hresult⟩ := hkept done rest hactions ⟨_, hmem, hfinal⟩
    rw [getForUser_of_tracks (htracks done rest hactions)] at hrecord
    obtain rfl := Option.some.inj hrecord
    simpa [recordOf, PendingRequest.toRecord, hlast] using hresult
  · intro hpairwise
    refine ⟨fun done rest hactions hexists => ?_, ?_⟩
    · obtain ⟨result, hmem, hfinal⟩ := hexists
      obtain ⟨init, last, hinit⟩ : ∃ init last, resultsOf requestId done = init ++ [last] :=
        ⟨_, _, (List.dropLast_concat_getLast (List.ne_nil_of_mem hmem)).symm⟩
      have hlast : final last := by
        rw [hactions, resultsOf, List.filterMap_append, List.pairwise_append] at hpairwise
        have hdone := hpairwise.1
        change (resultsOf requestId done).Pairwise _ at hdone
        rw [hinit, List.pairwise_append] at hdone
        rw [hinit] at hmem
        rcases List.mem_append.1 hmem with hmem | hmem
        · exact hdone.2.2 result hmem last (List.mem_singleton_self _) hfinal
        · rw [← List.mem_singleton.1 hmem]
          exact hfinal
      refine ⟨_, getForUser_of_tracks (htracks done rest hactions), ?_, ?_, ?_⟩
      · simpa [recordOf, PendingRequest.toRecord, hinit] using hlast
      · simp [recordOf, PendingRequest.toRecord, hinit]
      · simpa [recordOf, PendingRequest.toRecord, hinit] using hlast
    · exact (htracks actions [] (List.append_nil _).symm).sent

/-- The reply of the engine to an order is read before that of the wallet. -/
def engineFirst : List ReplyAction :=
  [.resolveEngineReply (.orderAccepted
      { requestId := "r", sourceInputId := none, sourceInputOffset := none, orderId := 1,
        reservationId := "res" }),
    .resolveWalletReply (.fundsReserved
      { requestId := "r", reservationId := "res", asset := .USDC, amount := 100 })]

theorem final_answer_kept_iff_walletFirst :
    FinalAnswerKept "r" 1 .placeOrder (ReplyState.default.applyAll []) engineFirst.reverse :=
  (final_answer_kept_iff [] engineFirst.reverse "r" 1 .placeOrder
    (by simp [engineFirst, ReplyAction.Resets])).2 (by decide)

/-- The accepted order is incomplete again. -/
theorem engineFirst_not_kept :
    ¬FinalAnswerKept "r" 1 .placeOrder (ReplyState.default.applyAll []) engineFirst := by
  rintro ⟨hkept, -⟩
  obtain ⟨record, hrecord, hcomplete, -⟩ := hkept engineFirst [] (List.append_nil _).symm
    ⟨_, List.mem_cons_self .., rfl⟩
  have hread : ((((ReplyState.default.applyAll []).registerWaiter "r" 1 .placeOrder).applyAll
      engineFirst).getForUser "r" 1).map ReplyRecord.complete = some false := by decide
  simp [hrecord, hcomplete] at hread

end Server
