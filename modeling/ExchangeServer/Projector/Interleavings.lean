import ExchangeServer.Projector.OrderStatus
import ExchangeServer.Projector.RecordTrades
import ExchangeServer.Projector.Turns

/-!
# Interleavings of the projector's tasks

What the read model is in the end does not depend on whose turn it was, as long
as the records agree about what they are about and no trade of a liquidation is
projected with a synthetic context while the one of its order is on its way.

## Main results

- `Shown.effect`: what one more record adds
- `shown_of_run`: the read model shows the records that have been worked off
- `interleavings_agree`: two runs that work off all records
- `interleavings_disagree`: what happens when the conditions are not met
-/

namespace Projector

open Protocol Relational Transactional Program

/-! ## What the records have made -/

/-- The read model of a market before its first event. -/
def MarketModel.empty : MarketModel := ⟨fun _ => none, fun _ => none, [], fun _ => none⟩

/-- The status after some replies, before the first event: an acceptance counts
wherever it stands. -/
def replyStatus (reasons : List (Option String)) : ContextStatus :=
  if none ∈ reasons then .ACCEPTED else if reasons = [] then .PENDING else .REJECTED

theorem replyStatus_replied (reasons : List (Option String)) (reason : Option (Option String)) :
    (replyStatus reasons).replied reason = replyStatus (reasons ++ reason.toList) := by
  have hcases : replyStatus reasons = .ACCEPTED ∧ none ∈ reasons ∨
      replyStatus reasons ≠ .ACCEPTED ∧ (replyStatus reasons).ofEvent = none ∧ none ∉ reasons := by
    unfold replyStatus
    by_cases hmem : none ∈ reasons
    · exact .inl ⟨if_pos hmem, hmem⟩
    · rw [if_neg hmem]
      split
      · exact .inr ⟨by decide, rfl, hmem⟩
      · exact .inr ⟨by decide, rfl, hmem⟩
  cases reason with
  | none => rw [Option.toList_none, List.append_nil, ContextStatus.replied]
  | some reason =>
    have hne : reasons ++ [reason] ≠ [] := List.append_ne_nil_of_right_ne_nil _ (by simp)
    rw [Option.toList_some]
    cases reason with
    | none =>
      have hafter : replyStatus (reasons ++ [none]) = .ACCEPTED := if_pos (by simp)
      rw [hafter, ContextStatus.replied]
      rcases hcases with ⟨heq, -⟩ | ⟨-, hnone, -⟩
      · rw [heq]
        rfl
      · generalize replyStatus reasons = status at hnone
        cases status <;> first | rfl | cases hnone
    | some reason =>
      rw [ContextStatus.replied]
      rcases hcases with ⟨heq, hmem⟩ | ⟨hnot, hnone, hmem⟩
      · have hafter : replyStatus (reasons ++ [some reason]) = .ACCEPTED :=
          if_pos (List.mem_append_left _ hmem)
        rw [heq, hafter]
        rfl
      · have hmem' : none ∉ reasons ++ [some reason] := by simpa using hmem
        have hafter : replyStatus (reasons ++ [some reason]) = .REJECTED := by
          rw [replyStatus, if_neg hmem', if_neg hne]
        rw [hafter]
        generalize replyStatus reasons = status at hnot hnone
        cases status <;> first | rfl | exact absurd rfl hnot | cases hnone

theorem replyStatus_congr {reasons reasons' : List (Option String)}
    (h : ∀ reason, reason ∈ reasons ↔ reason ∈ reasons') :
    replyStatus reasons = replyStatus reasons' := by
  have hnil : reasons = [] ↔ reasons' = [] := by
    rw [List.eq_nil_iff_forall_not_mem, List.eq_nil_iff_forall_not_mem]
    exact forall_congr' fun reason => not_congr (h reason)
  unfold replyStatus
  rw [if_congr (h none) rfl (if_congr hnil rfl rfl)]

/-- The read model shows the records that have been worked off, and nothing else. -/
structure Shown (c : Catalogue) (payloads : List Payload) (d : ProjectorDb) : Prop where
  known : Known c d
  stored : ∀ reservationId, (d.orderContexts.find? reservationId).isSome ↔
    ∃ payload ∈ payloads, payload.Inputs reservationId
  mentioned : ∀ reservationId, (∃ payload ∈ payloads, payload.Mentions c reservationId) →
    (d.report reservationId).orderId = some (c.orderId reservationId)
  unmentioned : ∀ reservationId, (∀ payload ∈ payloads, ¬payload.Mentions c reservationId) →
    (d.report reservationId).orderId = none
  rejectReason : ∀ reservationId, (d.report reservationId).rejectReason =
    (payloads.filterMap (Payload.reason reservationId)).getLast?.join
  status : ∀ reservationId, (d.report reservationId).status.ofEvent = none →
    (d.report reservationId).status = replyStatus (payloads.filterMap (Payload.reason reservationId))
  market : ∀ marketId, d.market c marketId =
    (payloads.filterMap (Payload.marketEvent marketId)).foldl (fun M event => M.apply c event) .empty

section Shown

variable {c : Catalogue} {payloads : List Payload} {d d' : ProjectorDb}

theorem shown_empty (c : Catalogue) (users : List ℤ) (markets : Table MarketRow.marketId) :
    Shown c [] (.empty users c.amount markets) where
  known := by
    refine ⟨⟨fun r row h => ?_, fun r row h => ?_⟩, rfl, fun k h => ?_, fun fill h => ?_, ?_⟩
    · cases h
    · cases h
    · cases h
    · cases h
    · exact ⟨fun row h => absurd h List.not_mem_nil, fun row h => absurd h List.not_mem_nil,
        fun row h => absurd h List.not_mem_nil⟩
  stored r := iff_of_false Bool.false_ne_true fun ⟨payload, h, _⟩ => absurd h List.not_mem_nil
  mentioned r := fun ⟨payload, h, _⟩ => absurd h List.not_mem_nil
  unmentioned r _ := rfl
  rejectReason r := rfl
  status r _ := rfl
  market marketId := by
    refine MarketModel.ext (funext fun k => ?_) (funext fun r => ?_) rfl rfl
    · exact ite_self none
    · exact ite_self none

theorem Shown.of_same (h : Shown c payloads d) (hsame : SameModel d d') : Shown c payloads d' := by
  have hreport := ProjectorDb.report_congr hsame.orders.orderContexts
  refine ⟨h.known.of_same hsame, ?_, ?_, ?_, ?_, ?_, fun marketId => ?_⟩
  · rw [hsame.orders.orderContexts]
    exact h.stored
  · simp only [hreport]
    exact h.mentioned
  · simp only [hreport]
    exact h.unmentioned
  · simp only [hreport]
    exact h.rejectReason
  · simp only [hreport]
    exact h.status
  · rw [market_of_same hsame.orders hsame.positions]
    exact h.market marketId

/-- One more record has been worked off. -/
theorem Shown.effect {payload : Payload} (h : Shown c payloads d) (heffect : Effect c payload d d') :
    Shown c (payloads ++ [payload]) d' := by
  have hexists : ∀ P : Payload → Prop,
      (∃ p ∈ payloads ++ [payload], P p) ↔ (∃ p ∈ payloads, P p) ∨ P payload := by
    intro P
    simp only [List.mem_append, List.mem_singleton, or_and_right, exists_or, exists_eq_left]
  have hfilterMap : ∀ {B : Type} (f : Payload → Option B),
      (payloads ++ [payload]).filterMap f = payloads.filterMap f ++ (f payload).toList := by
    intro B f
    rw [List.filterMap_append]
    cases hf : f payload with
    | none => rw [List.filterMap_cons_none hf]; rfl
    | some b => rw [List.filterMap_cons_some hf]; rfl
  refine ⟨heffect.known, fun r => ?_, fun r hmentions => ?_, fun r hmentions => ?_, fun r => ?_,
    fun r hnone => ?_, fun marketId => ?_⟩
  · rw [heffect.stored, hexists, h.stored, or_comm]
  · by_cases hlast : payload.Mentions c r
    · exact (heffect.reports r).mentioned hlast
    · rw [(heffect.reports r).kept hlast]
      exact h.mentioned r (((hexists _).1 hmentions).resolve_right hlast)
  · rw [(heffect.reports r).kept (hmentions payload (by simp))]
    exact h.unmentioned r fun p hp => hmentions p (List.mem_append_left _ hp)
  · rw [(heffect.reports r).rejectReason, h.rejectReason, hfilterMap]
    cases hreason : payload.reason r with
    | none => rw [Option.toList_none, List.append_nil, Option.getD_none]
    | some reason => rw [Option.toList_some, List.getLast?_concat]; rfl
  · obtain ⟨hbefore, hstatus⟩ := (heffect.reports r).status hnone
    rw [hstatus, h.status r hbefore, hfilterMap, replyStatus_replied]
  · rw [heffect.market, hfilterMap, List.foldl_append, ← h.market]
    cases payload.marketEvent marketId <;> rfl

end Shown

/-! ## Runs -/

/-- The market whose orders an event tells of. -/
def Payload.eventMarket : Payload → Option ℤ
  | .engineEvent (.orderOpened event) => some event.marketId
  | .engineEvent (.orderCancelled event) => some event.marketId
  | .engineEvent (.tradeExecuted event) => some event.marketId
  | _ => none

theorem Payload.eventMarket_of_marketEvent {payload : Payload} {marketId : ℤ}
    (h : (payload.marketEvent marketId).isSome) : payload.eventMarket = some marketId := by
  have hsome : ∀ {event : EngineEvent} {market : ℤ},
      (if market = marketId then some event else none).isSome → some market = some marketId := by
    intro event market h
    by_cases hm : market = marketId
    · rw [hm]
    · rw [if_neg hm] at h
      cases h
  cases payload with
  | engineEvent event =>
    cases event with
    | orderOpened event => exact hsome h
    | orderCancelled event => exact hsome h
    | tradeExecuted event => exact hsome h
    | _ => cases h
  | _ => cases h

/-- The events of one market are in one partition. -/
def EventsTogether (logs : PartitionLogs) : Prop :=
  ∀ source source', ∀ record ∈ logs.records source, ∀ record' ∈ logs.records source',
    ∀ marketId ∈ record.payload.eventMarket, record'.payload.eventMarket = some marketId →
      source = source'

/-- The records agree about what they are about: with the catalogue, and those that
come through different partitions in the reason they leave with a reservation. -/
structure Consistent (c : Catalogue) (logs : PartitionLogs) : Prop where
  lists : ∀ source, ∀ record ∈ logs.records source, c.Lists record.payload
  reason : ∀ reservationId source source', ∀ record ∈ logs.records source,
    ∀ record' ∈ logs.records source', ∀ reason ∈ record.payload.reason reservationId,
      ∀ reason' ∈ record'.payload.reason reservationId, source = source' ∨ reason = reason'

/-- A record that is worked off in this turn waits for the contexts of its orders. -/
def Projection.Waits (σ : Projection) (source : Source) : Prop :=
  ∀ t ∈ (σ.todo source).head?, (commit σ.db t).isSome →
    ∀ payload ∈ t.payload, payload.Waits σ.db

instance (σ : Projection) (source : Source) : Decidable (σ.Waits source) :=
  inferInstanceAs (Decidable (∀ t ∈ (σ.todo source).head?, _ → ∀ payload ∈ t.payload, _))

section Runs

variable {c : Catalogue} {logs : PartitionLogs} {d : ProjectorDb} {σ σ' : Projection}
  {source : Source} {sources sources' : List Source}

/-- What has been worked off of each partition, and what it has made. -/
structure Projected (c : Catalogue) (logs : PartitionLogs) (σ : Projection) : Prop where
  ordered : σ.Ordered logs
  shown : Shown c σ.payloads σ.db

theorem Projected.turn (h : Projected c logs σ)
    (hlists : ∀ source, ∀ record ∈ logs.records source, c.Lists record.payload)
    (hwaits : σ.Waits source) (hturn : σ.turn source = some σ') : Projected c logs σ' := by
  refine ⟨h.ordered.turn hturn, ?_⟩
  obtain ⟨record, records, hrecords, ⟨todo, -, rfl⟩ | ⟨t, todo, d, htodo, hcommit, rfl⟩⟩ :=
    Projection.turn_eq_some hturn
  · exact h.shown
  · have heval := commit_eq_some_iff.1 hcommit
    have hsuffix := h.ordered.todo source record records hrecords
    rw [htodo] at hsuffix
    rcases suffix_cases hsuffix with ⟨event, rfl, rfl⟩ | ⟨rfl, rfl⟩
    · -- The log is no part of the read model.
      obtain ⟨_, v, hinsert, hend⟩ := eval_bind_eq_ok heval
      cases hend
      have hsame : SameModel σ.db d :=
        .of_writes (inArea_insertEngineEventLogInTx _ _ _ _) (by decide) (by decide) hinsert
      exact h.shown.of_same hsame
    · have hmem : record ∈ logs.records source :=
        h.ordered.mem_of_left (hrecords ▸ List.mem_cons_self)
      have hhead : _ ∈ (σ.todo source).head? := congrArg List.head? htodo
      have hwait : record.payload.Waits σ.db :=
        hwaits _ hhead (Option.isSome_iff_exists.2 ⟨d, hcommit⟩) _ rfl
      have heffect := effect_process h.shown.known (hlists source record hmem) hwait heval
      have hpayloads : (σ.committed source d record records []).payloads =
          σ.payloads ++ [record.payload] := List.map_append
      rw [hpayloads]
      exact h.shown.effect heffect

/-- The read model at the end of a run shows the records that have been worked off. -/
theorem shown_of_run {users : List ℤ} {markets : Table MarketRow.marketId}
    (hlists : ∀ source, ∀ record ∈ logs.records source, c.Lists record.payload)
    (hrun : Machine.run Projection.turn (.initial logs (.empty users c.amount markets)) sources =
      some σ)
    (hwaits : Machine.Along Projection.turn Projection.Waits
      (.initial logs (.empty users c.amount markets)) sources) : Projected c logs σ :=
  Machine.inv_of_along (fun h hwait hturn => h.turn hlists hwait hturn) hwaits hrun
    ⟨Projection.ordered_initial _ _, shown_empty c users markets⟩

/-- The same contents, up to the numbers of the positions. -/
structure SameContents (d d' : ProjectorDb) : Prop where
  orders : ∀ orderId, d.orders.find? orderId = d'.orders.find? orderId
  orderContexts : ∀ reservationId,
    d.orderContexts.find? reservationId = d'.orderContexts.find? reservationId
  fills : ∀ fillId, d.fills.find? fillId = d'.fills.find? fillId
  positions : ∀ userId marketId, (d.position userId marketId).map PositionRow.unnumbered =
    (d'.position userId marketId).map PositionRow.unnumbered

/-- A context is its input and what has been reported of it. -/
theorem OrderContextRow.eq_of_input {row row' : OrderContextRow} (hinput : row.input = row'.input)
    (hreport : row.report = row'.report) : row = row' := by
  cases row
  cases row'
  cases hinput
  cases hreport
  rfl

/-- What the markets and the contexts show is the contents. -/
theorem sameContents_of_market {d' : ProjectorDb}
    (hmarket : ∀ marketId, d.market c marketId = d'.market c marketId)
    (hcontexts : ∀ reservationId,
      d.orderContexts.find? reservationId = d'.orderContexts.find? reservationId) :
    SameContents d d' := by
  have hfills : ∀ fill, fill ∈ d.fills.rows ↔ fill ∈ d'.fills.rows := by
    intro fill
    have hsame : (d.market c fill.marketId).fills = (d'.market c fill.marketId).fills := by
      rw [hmarket]
    have hmem : ∀ v : ProjectorDb, fill ∈ (v.market c fill.marketId).fills ↔ fill ∈ v.fills.rows :=
      fun v => List.mem_filter.trans (and_iff_left (decide_eq_true rfl))
    rw [← hmem, ← hmem, hsame]
  refine ⟨fun orderId => ?_, hcontexts, fun fillId => Option.ext fun fill => ?_,
    fun userId marketId => ?_⟩
  · have hsame : (d.market c (c.marketId orderId)).orders orderId =
        (d'.market c (c.marketId orderId)).orders orderId := by rw [hmarket]
    have horder : ∀ v : ProjectorDb,
        (v.market c (c.marketId orderId)).orders orderId = v.orders.find? orderId :=
      fun v => if_pos rfl
    rw [← horder, ← horder, hsame]
  · have hfind : ∀ v : ProjectorDb,
        v.fills.find? fillId = some fill ↔ fill ∈ v.fills.rows ∧ fill.fillId = fillId := by
      refine fun v => ⟨fun h => ⟨Table.mem_of_find? h, Table.key_of_find? h⟩, ?_⟩
      rintro ⟨hmem, rfl⟩
      exact Table.find?_of_mem hmem
    rw [hfind, hfind, hfills]
  · exact congrFun (congrArg MarketModel.positions (hmarket marketId)) userId

/-- The same records have been worked off. -/
theorem mem_payloads_iff (hlanes : SameLanes Prod.fst σ.done σ'.done) (payload : Payload) :
    payload ∈ σ.payloads ↔ payload ∈ σ'.payloads := by
  rw [Projection.payloads, List.mem_map, Projection.payloads, List.mem_map]
  exact exists_congr fun entry => and_congr_left fun _ => hlanes.mem_iff

theorem filterMap_payloads {B : Type} (f : Payload → Option B) (σ : Projection) :
    σ.payloads.filterMap f = σ.done.filterMap fun entry => f entry.2.payload :=
  List.filterMap_map

/-- The events of a market come through one partition. -/
theorem Projected.market_eq (h : Projected c logs σ) (h' : Projected c logs σ')
    (htogether : EventsTogether logs) (hlanes : SameLanes Prod.fst σ.done σ'.done) (marketId : ℤ) :
    σ.db.market c marketId = σ'.db.market c marketId := by
  rw [h.shown.market, h'.shown.market, filterMap_payloads, filterMap_payloads,
    hlanes.filterMap_eq fun a ha b hb hfa hfb => htogether a.1 b.1 a.2 (h.ordered.mem_records ha)
      b.2 (h.ordered.mem_records hb) marketId (Payload.eventMarket_of_marketEvent hfa)
      (Payload.eventMarket_of_marketEvent hfb)]

/-- What is reported of a reservation depends on its market and on which replies
there are, and not on their order. -/
theorem Projected.report_eq (h : Projected c logs σ) (h' : Projected c logs σ')
    (hlogs : Consistent c logs) (hlanes : SameLanes Prod.fst σ.done σ'.done)
    (hmarket : ∀ marketId, σ.db.market c marketId = σ'.db.market c marketId)
    (reservationId : String) : σ.db.report reservationId = σ'.db.report reservationId := by
  have hpayload := mem_payloads_iff hlanes
  have hid : (σ.db.report reservationId).orderId = (σ'.db.report reservationId).orderId := by
    by_cases hmentions : ∃ payload ∈ σ.payloads, payload.Mentions c reservationId
    · obtain ⟨payload, hmem, hmention⟩ := hmentions
      rw [h.shown.mentioned reservationId ⟨payload, hmem, hmention⟩,
        h'.shown.mentioned reservationId ⟨payload, (hpayload payload).1 hmem, hmention⟩]
    · push Not at hmentions
      rw [h.shown.unmentioned reservationId hmentions, h'.shown.unmentioned reservationId
        fun payload hmem => hmentions payload ((hpayload payload).2 hmem)]
  have hreason : (σ.db.report reservationId).rejectReason =
      (σ'.db.report reservationId).rejectReason := by
    rw [h.shown.rejectReason, h'.shown.rejectReason, filterMap_payloads, filterMap_payloads,
      hlanes.getLast?_filterMap fun a ha b hb x hx y hy => hlogs.reason reservationId a.1 b.1 a.2
        (h.ordered.mem_records ha) b.2 (h.ordered.mem_records hb) x hx y hy]
  have hstatus : (σ.db.report reservationId).status = (σ'.db.report reservationId).status := by
    -- Either an event has given the status, and its market shows it, or the replies have.
    have hshown : ∀ v : ProjectorDb,
        (v.market c (c.context reservationId).marketId).statuses reservationId =
          (v.report reservationId).status.ofEvent :=
      fun v => (if_pos rfl).trans (eventStatus_eq v reservationId)
    have hevent : (σ.db.report reservationId).status.ofEvent =
        (σ'.db.report reservationId).status.ofEvent := by
      rw [← hshown, ← hshown, hmarket]
    cases hof : (σ.db.report reservationId).status.ofEvent with
    | none =>
      rw [h.shown.status reservationId hof,
        h'.shown.status reservationId (hevent.symm.trans hof)]
      refine replyStatus_congr fun reason => ?_
      rw [List.mem_filterMap, List.mem_filterMap]
      exact exists_congr fun payload => and_congr_left fun _ => hpayload payload
    | some status => rw [← ofEvent_eq_some hof, ← ofEvent_eq_some (hevent.symm.trans hof)]
  exact Report.ext hid hstatus hreason

/-- Two runs in which the same records have been worked off, those of each partition
in the same order. -/
theorem Projected.sameContents (h : Projected c logs σ) (h' : Projected c logs σ')
    (hlogs : Consistent c logs) (htogether : EventsTogether logs)
    (hlanes : SameLanes Prod.fst σ.done σ'.done) : SameContents σ.db σ'.db := by
  have hmarket := h.market_eq h' htogether hlanes
  refine sameContents_of_market hmarket fun r => ?_
  have hstored : (σ.db.orderContexts.find? r).isSome ↔ (σ'.db.orderContexts.find? r).isSome := by
    rw [h.shown.stored, h'.shown.stored]
    exact exists_congr fun payload => and_congr_left fun _ => mem_payloads_iff hlanes payload
  cases hrow : σ.db.orderContexts.find? r with
  | none =>
    rw [hrow] at hstored
    exact (Option.not_isSome_iff_eq_none.1 fun hsome => Bool.false_ne_true (hstored.2 hsome)).symm
  | some row =>
    rw [hrow] at hstored
    obtain ⟨row', hrow'⟩ := Option.isSome_iff_exists.1 (hstored.1 rfl)
    have hinput : row.input = row'.input := by
      rw [h.shown.known.context r row hrow, h'.shown.known.context r row' hrow']
    have hreport := h.report_eq h' hlogs hlanes hmarket r
    rw [ProjectorDb.report_of_find? hrow, ProjectorDb.report_of_find? hrow'] at hreport
    rw [hrow', OrderContextRow.eq_of_input hinput hreport]

/-- Whatever the order of the turns, the read model is the same when all records
have been worked off. -/
theorem interleavings_agree {users : List ℤ} {markets : Table MarketRow.marketId}
    (hlogs : Consistent c logs) (htogether : EventsTogether logs)
    (hrun : Machine.run Projection.turn (.initial logs (.empty users c.amount markets)) sources =
      some σ)
    (hrun' : Machine.run Projection.turn (.initial logs (.empty users c.amount markets)) sources' =
      some σ')
    (hwaits : Machine.Along Projection.turn Projection.Waits
      (.initial logs (.empty users c.amount markets)) sources)
    (hwaits' : Machine.Along Projection.turn Projection.Waits
      (.initial logs (.empty users c.amount markets)) sources')
    (hfinished : σ.Finished) (hfinished' : σ'.Finished) : SameContents σ.db σ'.db := by
  have h := shown_of_run hlogs.lists hrun hwaits
  have h' := shown_of_run hlogs.lists hrun' hwaits'
  exact h.sameContents h' hlogs htogether (h.ordered.sameLanes h'.ordered hfinished hfinished')

end Runs

/-! ## Contents of a few partitions -/

/-- Partitions with the records they have. -/
abbrev Parts := List (Source × List Payload)

/-- The records have the offsets 0, 1, ... in their partition. -/
def partitions (parts : Parts) : PartitionLogs where
  records source :=
    (((parts.find? fun part => part.1 = source).map Prod.snd).getD []).zipIdx.map fun entry =>
      ⟨entry.2, entry.1⟩
  sorted source := by
    rw [List.pairwise_map]
    generalize ((parts.find? fun part => part.1 = source).map Prod.snd).getD [] = payloads
    have hsorted : (payloads.zipIdx.map Prod.snd).Pairwise (· < ·) := by
      rw [List.zipIdx_map_snd]
      exact List.pairwise_lt_range'
    exact (List.pairwise_map.1 hsorted).imp fun h => Int.ofNat_lt.2 h

theorem mem_partitions {parts : Parts} {source : Source} {record : LogRecord}
    (h : record ∈ (partitions parts).records source) :
    ∃ part ∈ parts, part.1 = source ∧ record.payload ∈ part.2 := by
  obtain ⟨entry, hentry, rfl⟩ := List.mem_map.1 h
  have hpayload := List.fst_mem_of_mem_zipIdx hentry
  cases hpart : parts.find? fun part => part.1 = source with
  | none =>
    rw [hpart] at hpayload
    cases hpayload
  | some part =>
    rw [hpart] at hpayload
    have hsource := List.find?_some hpart
    exact ⟨part, List.mem_of_find?_eq_some hpart, of_decide_eq_true hsource, hpayload⟩

/-- A run is at its end when the listed partitions are. -/
theorem finished_of_parts {parts : Parts} {d : ProjectorDb} {σ : Projection}
    {sources : List Source}
    (hrun : Machine.run Projection.turn (.initial (partitions parts) d) sources = some σ)
    (hparts : ∀ part ∈ parts, σ.records part.1 = []) : σ.Finished := by
  have hordered : σ.Ordered (partitions parts) :=
    Machine.inv_of_run (fun h hturn => h.turn hturn) hrun (Projection.ordered_initial _ _)
  intro source
  refine List.eq_nil_iff_forall_not_mem.2 fun record hrecord => ?_
  obtain ⟨part, hpart, rfl, -⟩ := mem_partitions (hordered.mem_of_left hrecord)
  rw [hparts part hpart] at hrecord
  cases hrecord

/-- Two markets, and none of their orders yet. -/
def marketsDb : ProjectorDb :=
  .empty [1, 2] (fun _ => none)
    ((Table.empty.upsert { marketId := 7, marketName := "SOL", lastTradedPrice := 100 }).upsert
      { marketId := 8, marketName := "ETH", lastTradedPrice := 100 })

abbrev inputs : Source := ("engine.input", 0)

abbrev moreInputs : Source := ("engine.input", 1)

abbrev replies : Source := ("engine.replies", 0)

abbrev moreReplies : Source := ("engine.replies", 1)

abbrev events : Source := ("engine.events", 0)

abbrev moreEvents : Source := ("engine.events", 1)

/-- Several turns of one task after another. -/
def turns (counts : List (Source × ℕ)) : List Source :=
  counts.flatMap fun entry => List.replicate entry.2 entry.1

def placing (order : ReservedPlaceOrder) : Payload := .engineInput (.placeOrder order)

def accepting (reservationId : String) (orderId : ℤ) : Payload :=
  .engineReply (.orderAccepted ⟨reservationId, none, none, orderId, reservationId⟩)

def rejecting (reservationId reason : String) : Payload :=
  .engineReply (.orderRejected ⟨reservationId, none, none, some reservationId, reason⟩)

def trading (event : TradeExecuted) : Payload := .engineEvent (.tradeExecuted event)

/-- The order that closes a position of user 2. -/
def closing : LiquidatePosition where
  inputId := none
  envelope := ⟨"l1", "l1", 2, 0⟩
  liquidationId := "l1"
  marketId := 7
  marketName := "SOL"
  liquidatedUserId := 2
  positionSide := .LONG
  quantity := 5
  price := 0
  requestSource := none

def liquidating : TradeExecuted :=
  { tradeOfReserved with
    takerReservationId := some "l1"
    executionReason := .LIQUIDATION
    liquidationId := some "l1"
    liquidatedUserId := some 2
    positionSide := some .LONG }

/-- A liquidation with all that is told of its orders. -/
def liquidationParts : Parts :=
  [(inputs, [placing (restingOrder 1 1 "r1" .LONG 10), .engineInput (.liquidatePosition closing)]),
    (replies, [accepting "r1" 1, .engineReply (.liquidationAccepted ⟨"l1", none, none, "l1", 2⟩)]),
    (events, [.engineEvent (.orderOpened (openingOf 1 1 "r1")), trading liquidating])]

def liquidationCatalogue : Catalogue where
  amount _ := none
  context reservationId :=
    if reservationId = "r1" then orderContext (restingOrder 1 1 "r1" .LONG 10)
    else liquidationContext closing
  orderId reservationId := if reservationId = "r1" then 1 else 2
  reservationId orderId := if orderId = 1 then "r1" else "l1"
  fillMarket _ := 7

def inputsFirst : List Source := turns [(inputs, 4), (replies, 4), (events, 6)]

def eventsFirst : List Source := turns [(events, 3), (inputs, 4), (events, 6), (replies, 4)]

def lateInput : List Source := turns [(inputs, 2), (events, 6), (inputs, 2), (replies, 4)]

/-- What is seen of a read model: contexts, an order and a fill. -/
def glance (d : ProjectorDb) :
    List (Option OrderContextRow) × Option OrderRow × Option FillRow :=
  (["r1", "l1"].map d.orderContexts.find?, d.orders.find? 1, d.fills.find? 9)

theorem SameContents.glance {d d' : ProjectorDb} (h : SameContents d d') :
    Projector.glance d = Projector.glance d' := by
  unfold Projector.glance
  rw [h.orders, h.fills, List.map_congr_left fun r _ => h.orderContexts r]

/-- What is seen after a run that has worked off all records. -/
def seen (parts : Parts) (sources : List Source) :
    Option (List (Option OrderContextRow) × Option OrderRow × Option FillRow) :=
  (Machine.run Projection.turn (.initial (partitions parts) marketsDb) sources).bind fun σ =>
    if parts.all fun part => (σ.records part.1).isEmpty then some (glance σ.db) else none

theorem seen_eq_some {parts : Parts} {sources : List Source}
    (h : (seen parts sources).isSome) : ∃ σ,
      Machine.run Projection.turn (.initial (partitions parts) marketsDb) sources = some σ ∧
        σ.Finished ∧ seen parts sources = some (glance σ.db) := by
  obtain ⟨view, hview⟩ := Option.isSome_iff_exists.1 h
  obtain ⟨σ, hrun, hif⟩ := Option.bind_eq_some_iff.1 hview
  obtain ⟨hall, hglance⟩ := Option.ite_none_right_eq_some.1 hif
  refine ⟨σ, hrun, finished_of_parts hrun fun part hpart => ?_, hview.trans hglance.symm⟩
  exact List.isEmpty_iff.1 (List.all_eq_true.1 hall part hpart)

/-! ## Runs that agree and runs that do not -/

theorem consistent_liquidation :
    Consistent liquidationCatalogue (partitions liquidationParts) := by
  have hlists : ∀ part ∈ liquidationParts, ∀ payload ∈ part.2,
      liquidationCatalogue.Lists payload := by
    have htrade : liquidationCatalogue.Lists (trading liquidating) := by
      refine ⟨TradeParticipant.forall_iff.2 ⟨⟨?_, rfl⟩, ?_, rfl⟩, rfl⟩
      · rintro _ ⟨⟩
        exact ⟨rfl, rfl⟩
      · rintro _ ⟨⟩
        exact ⟨rfl, rfl⟩
    simp only [liquidationParts, List.forall_mem_cons, List.not_mem_nil, false_implies,
      implies_true, and_true]
    exact ⟨⟨rfl, rfl⟩, ⟨⟨rfl, rfl⟩, rfl, rfl⟩, ⟨⟨rfl, rfl⟩, rfl⟩, htrade⟩
  -- No reservation is rejected.
  have hreason : ∀ part ∈ liquidationParts, ∀ payload ∈ part.2,
      ∀ r, ∀ reason ∈ payload.reason r, reason = none := by
    have hnothing : ∀ r : String, ∀ reason ∈ (none : Option (Option String)), reason = none :=
      fun _ _ h => absurd h (Option.not_mem_none _)
    have haccepted : ∀ s r : String, ∀ reason ∈ (if s = r then some (none : Option String) else none),
        reason = none := by
      intro s r reason h
      exact (Option.some.inj (Option.ite_none_right_eq_some.1 h).2).symm
    simp only [liquidationParts, List.forall_mem_cons, List.not_mem_nil, false_implies,
      implies_true, and_true]
    exact ⟨⟨hnothing, hnothing⟩, ⟨haccepted "r1", haccepted "l1"⟩, hnothing, hnothing⟩
  refine ⟨fun source record hrecord => ?_, fun r source source' record hrecord record' hrecord'
    reason hof reason' hof' => .inr ?_⟩
  · obtain ⟨part, hpart, -, hpayload⟩ := mem_partitions hrecord
    exact hlists part hpart _ hpayload
  · obtain ⟨part, hpart, -, hpayload⟩ := mem_partitions hrecord
    obtain ⟨part', hpart', -, hpayload'⟩ := mem_partitions hrecord'
    rw [hreason part hpart _ hpayload r reason hof, hreason part' hpart' _ hpayload' r reason' hof']

theorem eventsTogether_partitions {parts : Parts}
    (h : ∀ part ∈ parts, ∀ part' ∈ parts, ∀ payload ∈ part.2, ∀ payload' ∈ part'.2,
      ∀ marketId ∈ payload.eventMarket, payload'.eventMarket = some marketId → part.1 = part'.1) :
    EventsTogether (partitions parts) := by
  intro source source' record hrecord record' hrecord' marketId hmarket hmarket'
  obtain ⟨part, hpart, rfl, hpayload⟩ := mem_partitions hrecord
  obtain ⟨part', hpart', rfl, hpayload'⟩ := mem_partitions hrecord'
  exact h part hpart part' hpart' _ hpayload _ hpayload' marketId hmarket hmarket'

/-- The events wait for the inputs in one run and come between the replies in the
other, and the liquidation fills its order. -/
theorem interleavings_agree_liquidation : ∃ σ σ',
    Machine.run Projection.turn (.initial (partitions liquidationParts) marketsDb) inputsFirst =
      some σ ∧
    Machine.run Projection.turn (.initial (partitions liquidationParts) marketsDb) eventsFirst =
      some σ' ∧
    SameContents σ.db σ'.db ∧ (statuses 2 "l1" σ.db) = (some .FILLED, some .FILLED) := by
  have hseen : (seen liquidationParts inputsFirst).isSome := by decide +kernel
  have hseen' : (seen liquidationParts eventsFirst).isSome := by decide +kernel
  obtain ⟨σ, hrun, hfinished, -⟩ := seen_eq_some hseen
  obtain ⟨σ', hrun', hfinished', -⟩ := seen_eq_some hseen'
  have hwaits : Machine.Along Projection.turn Projection.Waits
      (.initial (partitions liquidationParts) marketsDb) inputsFirst := by decide +kernel
  have hwaits' : Machine.Along Projection.turn Projection.Waits
      (.initial (partitions liquidationParts) marketsDb) eventsFirst := by decide +kernel
  have htogether : EventsTogether (partitions liquidationParts) :=
    eventsTogether_partitions (by decide +kernel)
  have hstatuses : (Machine.run Projection.turn (.initial (partitions liquidationParts) marketsDb)
      inputsFirst).map (fun σ => statuses 2 "l1" σ.db) = some (some .FILLED, some .FILLED) := by
    decide +kernel
  rw [hrun] at hstatuses
  exact ⟨σ, σ', hrun, hrun', interleavings_agree consistent_liquidation htogether hrun hrun' hwaits
    hwaits' hfinished hfinished', Option.some.inj hstatuses⟩

/-! ## Runs that do not agree -/

/-- The reservations that a record names. -/
def Payload.reservations : Payload → List String
  | .engineReply (.orderAccepted reply) => [reply.reservationId]
  | .engineReply (.liquidationAccepted reply) => [reply.liquidationId]
  | .engineReply (.orderRejected reply) => reply.reservationId.toList
  | .engineReply (.liquidationRejected reply) => [reply.liquidationId]
  | .engineEvent (.orderOpened event) => [event.reservationId]
  | .engineEvent (.orderCancelled event) => [event.reservationId]
  | .engineEvent (.tradeExecuted event) =>
    event.makerReservationId.toList ++ event.takerReservationId.toList
  | _ => []

/-- Every order has its input. -/
def EveryInput (logs : PartitionLogs) : Prop :=
  ∀ source, ∀ record ∈ logs.records source, ∀ reservationId ∈ record.payload.reservations,
    ∃ source', ∃ record' ∈ logs.records source', record'.payload.Inputs reservationId

/-- All runs that work off all records have the same contents at their end. -/
def Agree (logs : PartitionLogs) (d : ProjectorDb) : Prop :=
  ∀ (sources sources' : List Source) (σ σ' : Projection),
    Machine.run Projection.turn (.initial logs d) sources = some σ →
      Machine.run Projection.turn (.initial logs d) sources' = some σ' →
        σ.Finished → σ'.Finished → SameContents σ.db σ'.db

theorem everyInput_partitions {parts : Parts}
    (h : ∀ part ∈ parts, ∀ payload ∈ part.2, ∀ reservationId ∈ payload.reservations,
      ∃ part' ∈ parts, ∃ record ∈ (partitions parts).records part'.1,
        record.payload.Inputs reservationId) : EveryInput (partitions parts) := by
  intro source record hrecord reservationId hnamed
  obtain ⟨part, hpart, -, hpayload⟩ := mem_partitions hrecord
  obtain ⟨part', -, record', hrecord', hinputs⟩ := h part hpart _ hpayload reservationId hnamed
  exact ⟨part'.1, record', hrecord', hinputs⟩

theorem not_agree_of_seen {parts : Parts} {sources sources' : List Source}
    (h : (seen parts sources).isSome) (h' : (seen parts sources').isSome)
    (hne : seen parts sources ≠ seen parts sources') : ¬Agree (partitions parts) marketsDb := by
  intro hagree
  obtain ⟨σ, hrun, hfinished, hseen⟩ := seen_eq_some h
  obtain ⟨σ', hrun', hfinished', hseen'⟩ := seen_eq_some h'
  refine hne ?_
  rw [hseen, hseen', (hagree _ _ _ _ hrun hrun' hfinished hfinished').glance]

/-- A reservation with two inputs. -/
def twoInputs : Parts :=
  [(inputs, [placing (restingOrder 1 1 "r1" .LONG 10)]),
    (moreInputs, [placing (restingOrder 1 1 "r1" .LONG 5)])]

/-- Replies that give a reservation two orders. -/
def twoOrders : Parts :=
  [(inputs, [placing (restingOrder 1 1 "r1" .LONG 10)]), (replies, [accepting "r1" 1]),
    (moreReplies, [accepting "r1" 2])]

/-- An acceptance and a rejection of one reservation. -/
def twoReplies : Parts :=
  [(inputs, [placing (restingOrder 1 1 "r1" .LONG 10)]), (replies, [accepting "r1" 1]),
    (moreReplies, [rejecting "r1" "late"])]

/-- Events that put an order into two markets. -/
def twoMarkets : Parts :=
  [(inputs, [placing (restingOrder 1 1 "r1" .LONG 10), placing (restingOrder 2 2 "r2" .SHORT 5)]),
    (events, [trading tradeOfReserved]),
    (moreEvents, [.engineEvent (.orderOpened { openingOf 1 1 "r1" with marketId := 8 })])]

/-- An order of the other market. -/
def elsewhere (orderId userId : ℤ) (reservationId : String) (side : Side) : Payload :=
  placing { restingOrder orderId userId reservationId side 5 with
    marketId := 8
    marketName := "ETH" }

/-- Fills of two markets with one id. -/
def twoFills : Parts :=
  [(inputs, [placing (restingOrder 1 1 "r1" .LONG 10), placing (restingOrder 2 2 "r2" .SHORT 5),
      elsewhere 3 1 "r3" .LONG, elsewhere 4 2 "r4" .SHORT]),
    (events, [trading tradeOfReserved]),
    (moreEvents, [trading { tradeOfReserved with
      marketId := 8
      makerOrderId := 3
      takerOrderId := 4
      makerReservationId := some "r3"
      takerReservationId := some "r4" }])]

/-- Contents with two schedules each. In the first the input of the liquidation is
late; in the others records do not agree. -/
def disagreements : List (Parts × List Source × List Source) :=
  [(liquidationParts, inputsFirst, lateInput),
    (twoInputs, turns [(inputs, 2), (moreInputs, 2)], turns [(moreInputs, 2), (inputs, 2)]),
    (twoOrders, turns [(inputs, 2), (replies, 2), (moreReplies, 2)],
      turns [(inputs, 2), (moreReplies, 2), (replies, 2)]),
    (twoReplies, turns [(inputs, 2), (replies, 2), (moreReplies, 2)],
      turns [(inputs, 2), (moreReplies, 2), (replies, 2)]),
    (twoMarkets, turns [(inputs, 4), (events, 3), (moreEvents, 3)],
      turns [(inputs, 4), (moreEvents, 3), (events, 3)]),
    (twoFills, turns [(inputs, 8), (events, 3), (moreEvents, 3)],
      turns [(inputs, 8), (moreEvents, 3), (events, 3)])]

/-- The inputs are all there and the events of each market are together, and still
the read model depends on whose turn it is. -/
def Disagree (parts : Parts) : Prop :=
  EveryInput (partitions parts) ∧ EventsTogether (partitions parts) ∧
    ¬Agree (partitions parts) marketsDb

theorem disagree_of_mem : ∀ content ∈ disagreements, Disagree content.1 := by
  have hinputs : ∀ content ∈ disagreements, ∀ part ∈ content.1, ∀ payload ∈ part.2,
      ∀ reservationId ∈ payload.reservations, ∃ part' ∈ content.1,
        ∃ record ∈ (partitions content.1).records part'.1, record.payload.Inputs reservationId := by
    decide +kernel
  have htogether : ∀ content ∈ disagreements, ∀ part ∈ content.1, ∀ part' ∈ content.1,
      ∀ payload ∈ part.2, ∀ payload' ∈ part'.2, ∀ marketId ∈ payload.eventMarket,
        payload'.eventMarket = some marketId → part.1 = part'.1 := by
    decide +kernel
  have hseen : ∀ content ∈ disagreements, (seen content.1 content.2.1).isSome ∧
      (seen content.1 content.2.2).isSome ∧
        seen content.1 content.2.1 ≠ seen content.1 content.2.2 := by
    decide +kernel
  intro content hcontent
  obtain ⟨hends, hends', hne⟩ := hseen content hcontent
  exact ⟨everyInput_partitions (hinputs content hcontent),
    eventsTogether_partitions (htogether content hcontent), not_agree_of_seen hends hends' hne⟩

/-- The read model depends on the interleaving when the input of a liquidation comes
late, and when records do not agree. -/
theorem interleavings_disagree :
    Disagree liquidationParts ∧ Disagree twoInputs ∧ Disagree twoOrders ∧ Disagree twoReplies ∧
      Disagree twoMarkets ∧ Disagree twoFills := by
  obtain ⟨hlate, h⟩ := List.forall_mem_cons.1 disagree_of_mem
  obtain ⟨hinputs, h⟩ := List.forall_mem_cons.1 h
  obtain ⟨horders, h⟩ := List.forall_mem_cons.1 h
  obtain ⟨hreplies, h⟩ := List.forall_mem_cons.1 h
  obtain ⟨hmarkets, h⟩ := List.forall_mem_cons.1 h
  exact ⟨hlate, hinputs, horders, hreplies, hmarkets, (List.forall_mem_cons.1 h).1⟩

end Projector
