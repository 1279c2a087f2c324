import ExchangeServer.Ws.Subscribers

/-!
# What a client reads

The texts of a client tell it which markets it is subscribed to, and what they tell is
what the hub keeps for its session as long as it keeps anything. So a broadcast of a
market waits for a client or reaches it exactly if by then the client has been told of a
subscription to the market that it has not been told the end of. A client is welcomed
once, before anything else of the hub, under the name of its token, and gets only events
of its own accounts and of markets that it has been told of before.

## Main definitions

- `told`: the markets that some texts tell of
- `Allowed`: the texts that may follow others
- `Coherent`: what holds of a subscriber and its texts

## Main results

- `texts_follow_subscriptions`: the texts of a client in any run
-/

namespace Ws

open Machine Protocol

/-! ## Texts -/

/-- The markets that a client has been told it is subscribed to. -/
def tellOf (markets : Finset ℤ) : ClientText → Finset ℤ
  | .subscribed subscribed => markets ∪ subscribed.toFinset
  | .unsubscribed unsubscribed => markets \ unsubscribed.toFinset
  | _ => markets

def told (texts : List ClientText) : Finset ℤ := texts.foldl tellOf ∅

theorem told_append (texts : List ClientText) (text : ClientText) :
    told (texts ++ [text]) = tellOf (told texts) text := by
  rw [told, List.foldl_append]
  rfl

/-- A market that a client has been told of is one of some answer. -/
theorem exists_subscribed {texts : List ClientText} {marketId : ℤ} (h : marketId ∈ told texts) :
    ∃ markets, .subscribed markets ∈ texts ∧ marketId ∈ markets := by
  induction texts using List.reverseRecOn with
  | nil => exact absurd h (Finset.notMem_empty marketId)
  | append_singleton texts text ih =>
    rw [told_append] at h
    have hold : marketId ∈ told texts → ∃ markets, .subscribed markets ∈ texts ++ [text] ∧
        marketId ∈ markets := by
      intro hmem
      obtain ⟨markets, hsubscribed, hmarket⟩ := ih hmem
      exact ⟨markets, List.mem_append_left _ hsubscribed, hmarket⟩
    cases text with
    | subscribed markets =>
      rcases Finset.mem_union.1 h with hmem | hmem
      · exact hold hmem
      · exact ⟨markets, List.mem_append_right _ List.mem_cons_self, List.mem_toFinset.1 hmem⟩
    | unsubscribed markets => exact hold (Finset.mem_sdiff.1 h).1
    | welcome | pong | error | push => exact hold h

/-- Market ids as a session asks for them. -/
def Normal (markets : List ℤ) : Prop := markets.Pairwise (· < ·) ∧ ∀ marketId ∈ markets, 0 < marketId

theorem normal_of_normalizeMarkets {markets normalized : List ℤ}
    (h : normalizeMarkets markets = .ok normalized) : Normal normalized := by
  rw [normalizeMarkets] at h
  split at h
  · cases h
  · next hpositive =>
    cases h
    refine ⟨Finset.sortedLT_sort _ |>.pairwise, fun marketId hmem => ?_⟩
    rw [Finset.mem_sort, List.mem_toFinset] at hmem
    by_contra hle
    exact hpositive (List.any_eq_true.2 ⟨marketId, hmem, decide_eq_true (not_lt.1 hle)⟩)

/-- An event of the user's accounts that has come to the service. -/
inductive Concerns (actions : List ServiceAction) (userId : ℤ) : EventSource → Json → Prop
  | engine {partition event metadata} (h : .engineEvent partition event metadata ∈ actions)
    (huser : userId ∈ engineEventAccountUserIds event) :
    Concerns actions userId .engine (engineEventValue event)
  | wallet {partition event metadata} (h : .walletEvent partition event metadata ∈ actions)
    (huser : walletEventUserId event = userId) :
    Concerns actions userId .wallet (walletEventValue event)

/-- An event of the market that has come to the service. -/
def OfMarket (actions : List ServiceAction) (marketId : ℤ) (source : EventSource) (value : Json) :
    Prop :=
  ∃ partition event metadata, .engineEvent partition event metadata ∈ actions ∧
    engineEventMarketId event = some marketId ∧ source = .engine ∧ value = engineEventValue event

/-- A client that is `claim` has been welcomed. -/
def Welcomed (claim : Claim) (texts : List ClientText) : Prop :=
  .welcome claim.userid claim.username ∈ texts

/-- The texts that may come after others. -/
def Allowed (actions : List ServiceAction) (claim : Claim) (earlier : List ClientText) :
    ClientText → Prop
  | .welcome userId username => userId = claim.userid ∧ username = claim.username ∧
    ∀ userId username, .welcome userId username ∉ earlier
  | .subscribed markets => Welcomed claim earlier ∧ Normal markets
  | .unsubscribed markets => Welcomed claim earlier ∧ Normal markets
  | .pong _ => True
  | .error _ => True
  | .push (.accountEvent source value _) =>
    Welcomed claim earlier ∧ Concerns actions claim.userid source value
  | .push (.marketEvent marketId source value _) =>
    OfMarket actions marketId source value ∧
      ∃ markets, .subscribed markets ∈ earlier ∧ marketId ∈ markets

section Allowed

variable {actions actions' : List ServiceAction} {claim : Claim} {earlier later : List ClientText}

theorem Concerns.mono {userId : ℤ} {source : EventSource} {value : Json}
    (h : Concerns actions userId source value) (hactions : actions ⊆ actions') :
    Concerns actions' userId source value := by
  cases h with
  | engine h huser => exact .engine (hactions h) huser
  | wallet h huser => exact .wallet (hactions h) huser

/-- A push may come later, too. -/
theorem Allowed.push_mono {message : ServerMessage}
    (h : Allowed actions claim earlier (.push message)) (hearlier : earlier ⊆ later) :
    Allowed actions claim later (.push message) := by
  cases message with
  | accountEvent source value metadata => exact ⟨hearlier h.1, h.2⟩
  | marketEvent marketId source value metadata =>
    obtain ⟨hmarket, markets, hsubscribed, hmem⟩ := h
    exact ⟨hmarket, markets, hearlier hsubscribed, hmem⟩

theorem Allowed.mono {text : ClientText} (h : Allowed actions claim earlier text)
    (hactions : actions ⊆ actions') : Allowed actions' claim earlier text := by
  cases text with
  | push message =>
    cases message with
    | accountEvent source value metadata => exact ⟨h.1, h.2.mono hactions⟩
    | marketEvent marketId source value metadata =>
      obtain ⟨⟨partition, event, place, hevent, hrest⟩, hsubscribed⟩ := h
      exact ⟨⟨partition, event, place, hactions hevent, hrest⟩, hsubscribed⟩
  | welcome | subscribed | unsubscribed | pong | error => exact h

end Allowed

/-! ## Subscribers -/

/-- The markets of a future are in order. -/
def Task.Orderly {Id : Type} : Task Id → Prop
  | .subscribe _ markets => Normal markets
  | .unsubscribe _ markets => Normal markets
  | _ => True

structure Coherent (actions : List ServiceAction) (subscriber : Subscriber) : Prop where
  own : subscriber.session.Own
  orderly : ∀ task ∈ subscriber.session.tasks, task.Orderly
  told : ∀ markets, subscriber.markets = some markets →
    markets = told subscriber.session.sent ∧ subscriber.session.sessionId.isSome
  welcomed : subscriber.session.sessionId.isSome →
    Welcomed subscriber.session.claim subscriber.session.sent
  unwelcomed : subscriber.session.sessionId = none →
    ∀ userId username, .welcome userId username ∉ subscriber.session.sent
  sent : ∀ i text, subscriber.session.sent[i]? = some text →
    Allowed actions subscriber.session.claim (subscriber.session.sent.take i) text
  mailbox : ∀ message ∈ subscriber.session.mailbox,
    Allowed actions subscriber.session.claim subscriber.session.sent (.push message)

section Coherent

variable {actions actions' : List ServiceAction} {claim : Claim} {texts : List ClientText}
  {subscriber subscriber' : Subscriber}

/-- One more text that may follow. -/
theorem allowed_append {text : ClientText}
    (h : ∀ i text, texts[i]? = some text → Allowed actions claim (texts.take i) text)
    (hallowed : Allowed actions claim texts text) (i : ℕ) (other : ClientText)
    (hother : (texts ++ [text])[i]? = some other) :
    Allowed actions claim ((texts ++ [text]).take i) other := by
  rcases Nat.lt_or_ge i texts.length with hi | hi
  · rw [List.getElem?_append_left hi] at hother
    rw [List.take_append_of_le_length hi.le]
    exact h i other hother
  · rw [List.getElem?_append_right hi] at hother
    obtain ⟨hlt, rfl⟩ := List.getElem?_eq_some_iff.1 hother
    rw [List.length_singleton] at hlt
    have hi' : i = texts.length := by omega
    subst hi'
    simpa using hallowed

theorem Coherent.mono (h : Coherent actions subscriber) (hactions : actions ⊆ actions') :
    Coherent actions' subscriber where
  own := h.own
  orderly := h.orderly
  told := h.told
  welcomed := h.welcomed
  unwelcomed := h.unwelcomed
  sent i text htext := (h.sent i text htext).mono hactions
  mailbox message hmem := (h.mailbox message hmem).mono hactions

theorem coherent_started (claim : Claim) : Coherent actions (.started claim) where
  own := WsSession.own_started claim
  orderly task htask := by
    cases List.mem_singleton.1 htask
    trivial
  told _ h := by cases h
  welcomed h := absurd h Bool.false_ne_true
  unwelcomed _ _ _ h := absurd h List.not_mem_nil
  sent i text h := by
    rw [show (Subscriber.started claim).session.sent = [] from rfl, List.getElem?_nil] at h
    cases h
  mailbox _ h := absurd h List.not_mem_nil

/-- A text that tells nothing new about the session. -/
theorem Coherent.sendServerMessage (h : Coherent actions subscriber) {text : ClientText}
    (hallowed : ∀ earlier, Allowed actions subscriber.session.claim earlier text)
    (htells : ∀ markets, tellOf markets text = markets)
    (hwelcome : ∀ userId username, text ≠ .welcome userId username) :
    Coherent actions { subscriber with session := subscriber.session.sendServerMessage text } where
  own := (WsSession.continues_sendServerMessage text).own h.own
  orderly := h.orderly
  told markets hmarkets := by
    obtain ⟨htold, hready⟩ := h.told markets hmarkets
    refine ⟨htold.trans ?_, hready⟩
    exact (htells _).symm.trans (told_append _ _).symm
  welcomed hready := List.mem_append_left _ (h.welcomed hready)
  unwelcomed hnone userId username hmem := by
    rcases List.mem_append.1 hmem with hmem | hmem
    · exact h.unwelcomed hnone userId username hmem
    · exact hwelcome userId username (List.mem_singleton.1 hmem).symm
  sent := allowed_append h.sent (hallowed _)
  mailbox message hmem := (h.mailbox message hmem).push_mono (List.subset_append_left ..)

theorem Coherent.error (h : Coherent actions subscriber) (message : String) :
    Coherent actions
      { subscriber with session := subscriber.session.sendServerMessage (.error message) } :=
  h.sendServerMessage (fun _ => trivial) (fun _ => rfl) fun _ _ h => by cases h

theorem Coherent.request (h : Coherent actions subscriber) (markets : List ℤ)
    {task : Unit → List ℤ → Task Unit}
    (hnames : ∀ id markets, (task id markets).names = some id)
    (hregisters : ∀ id markets, (task id markets).registers = false)
    (horderly : ∀ id markets, Normal markets → (task id markets).Orderly) :
    Coherent actions { subscriber with session := subscriber.session.request markets task } := by
  have hgoes : subscriber.session.Continues (subscriber.session.request markets task) :=
    WsSession.continues_request markets task hnames hregisters
  have hown := hgoes.own h.own
  rw [WsSession.request] at hown ⊢
  cases hid : subscriber.session.sessionId with
  | none => exact h.error _
  | some id =>
    rw [hid] at hown
    dsimp only at hown ⊢
    cases hnormal : normalizeMarkets markets with
    | error message => exact h.error _
    | ok normalized =>
      rw [hnormal] at hown
      refine { h with own := hown, orderly := fun other hother => ?_ }
      rcases List.mem_append.1 hother with hother | hother
      · exact h.orderly other hother
      · rw [List.mem_singleton.1 hother]
        exact horderly id normalized (normal_of_normalizeMarkets hnormal)

theorem Coherent.handleFrame (h : Coherent actions subscriber) (frame : Frame) :
    Coherent actions { subscriber with session := subscriber.session.handleFrame frame } := by
  cases frame with
  | text json =>
    rw [WsSession.handleFrame, WsSession.handleText]
    cases json.bind ClientMessage.decode with
    | none => exact h.error _
    | some message =>
      cases message with
      | subscribe payload =>
        exact h.request _ (fun _ _ => rfl) (fun _ _ => rfl) fun _ _ hnormal => hnormal
      | unsubscribe payload =>
        exact h.request _ (fun _ _ => rfl) (fun _ _ => rfl) fun _ _ hnormal => hnormal
      | ping payload =>
        exact h.sendServerMessage (fun _ => trivial) (fun _ => rfl) fun _ _ h => by cases h
  | binary | continuation => exact h.error _

/-- Before its registration a client has been told of no market. -/
theorem Coherent.told_eq_empty (h : Coherent actions subscriber)
    (hnone : subscriber.session.sessionId = none) : Ws.told subscriber.session.sent = ∅ := by
  rw [Finset.eq_empty_iff_forall_notMem]
  intro marketId hmem
  obtain ⟨markets, hsubscribed, -⟩ := exists_subscribed hmem
  obtain ⟨i, hi⟩ := List.mem_iff_getElem?.1 hsubscribed
  exact h.unwelcomed hnone _ _ (List.mem_of_mem_take (h.sent i _ hi).1)

/-- A future that tells of its markets ends. -/
theorem Coherent.finish (h : Coherent actions subscriber) {i : ℕ} {text : ClientText}
    {markets : Option (Finset ℤ)} (hready : subscriber.session.sessionId.isSome)
    (hallowed : Allowed actions subscriber.session.claim subscriber.session.sent text)
    (hmarkets : markets = subscriber.markets.map fun subscribed => tellOf subscribed text) :
    Coherent actions { session := subscriber.session.finish i text, markets := markets } where
  own := (WsSession.continues_finish i text).own h.own
  orderly task htask := h.orderly task (List.mem_of_mem_eraseIdx htask)
  told subscribed hsubscribed := by
    obtain ⟨old, hold, rfl⟩ := Option.map_eq_some_iff.1 (hmarkets.symm.trans hsubscribed)
    refine ⟨?_, hready⟩
    rw [(h.told old hold).1]
    exact (told_append _ _).symm
  welcomed _ := List.mem_append_left _ (h.welcomed hready)
  unwelcomed hnone := by
    rw [show (subscriber.session.finish i text).sessionId = subscriber.session.sessionId from rfl] at hnone
    rw [hnone] at hready
    cases hready
  sent := allowed_append h.sent hallowed
  mailbox message hmem := (h.mailbox message hmem).push_mono (List.subset_append_left ..)

theorem Coherent.runTask (h : Coherent actions subscriber) {i : ℕ} {task : Task Unit}
    (htask : subscriber.session.tasks[i]? = some task) :
    Coherent actions (subscriber.runTask i task) := by
  have hmem := List.mem_of_getElem? htask
  have horderly := h.orderly task hmem
  cases task with
  | register =>
    refine { h with own := h.own.takesId htask (), orderly := fun other hother => ?_ }
    rcases List.mem_or_eq_of_mem_set hother with hother | rfl
    · exact h.orderly other hother
    · trivial
  | registering id =>
    have hnone := h.own.unnamed hmem rfl
    refine ⟨h.own.registered htask, fun other hother => ?_, fun markets hmarkets => ⟨?_, rfl⟩,
      fun _ => List.mem_append_right _ List.mem_cons_self, fun hnone' => ?_, ?_, fun message hmessage => ?_⟩
    · exact h.orderly other (List.mem_of_mem_eraseIdx hother)
    · cases hmarkets
      change ∅ = Ws.told (subscriber.session.sent ++ [_])
      rw [told_append, h.told_eq_empty hnone]
      rfl
    · cases hnone'
    · exact allowed_append h.sent ⟨rfl, rfl, h.unwelcomed hnone⟩
    · exact (h.mailbox message hmessage).push_mono (List.subset_append_left ..)
  | subscribe id markets =>
    have hready : subscriber.session.sessionId.isSome := by
      rw [h.own.named _ hmem id rfl]
      rfl
    exact h.finish hready ⟨h.welcomed hready, horderly⟩ rfl
  | unsubscribe id markets =>
    have hready : subscriber.session.sessionId.isSome := by
      rw [h.own.named _ hmem id rfl]
      rfl
    exact h.finish hready ⟨h.welcomed hready, horderly⟩ rfl

theorem Coherent.step (h : Coherent actions subscriber) {action : SessionAction}
    (hstep : subscriber.step action = some subscriber') : Coherent actions subscriber' := by
  cases action with
  | frame frame =>
    cases hstep
    exact h.handleFrame frame
  | poll i =>
    obtain ⟨task, htask, rfl⟩ := Option.map_eq_some_iff.1 hstep
    exact h.runTask htask
  | push =>
    obtain ⟨session, hpush, rfl⟩ := Option.map_eq_some_iff.1 hstep
    have hgoes := WsSession.continues_handlePush hpush
    rw [WsSession.handlePush] at hpush
    cases hmailbox : subscriber.session.mailbox with
    | nil =>
      rw [hmailbox] at hpush
      cases hpush
    | cons message mailbox =>
      rw [hmailbox] at hpush
      cases hpush
      have hallowed := h.mailbox message (hmailbox ▸ List.mem_cons_self)
      refine ⟨hgoes.own h.own, h.orderly, fun markets hmarkets => ?_,
        fun hready => List.mem_append_left _ (h.welcomed hready), fun hnone userId username hmem => ?_,
        allowed_append h.sent hallowed, fun other hother => ?_⟩
      · obtain ⟨htold, hready⟩ := h.told markets hmarkets
        have hsame : Ws.told (subscriber.session.sent ++ [.push message]) =
            Ws.told subscriber.session.sent := told_append _ _
        exact ⟨htold.trans hsame.symm, hready⟩
      · rcases List.mem_append.1 hmem with hmem | hmem
        · exact h.unwelcomed hnone userId username hmem
        · cases List.mem_singleton.1 hmem
      · have hold := h.mailbox other (hmailbox ▸ List.mem_cons_of_mem _ hother)
        exact hold.push_mono (List.subset_append_left ..)
  | stop =>
    cases hstep
    refine { h with own := ?_, orderly := ?_, told := ?_, mailbox := ?_ }
    · exact ⟨(Nat.add_le_add_right (Nat.zero_le _) _).trans h.own.single,
        fun task htask => absurd htask List.not_mem_nil⟩
    · exact fun task htask => absurd htask List.not_mem_nil
    · intro markets hmarkets
      cases hmarkets
    · exact fun message hmem => absurd hmem List.not_mem_nil

end Coherent

/-! ## Broadcasts -/

/-- Broadcasts of events that have come to the service. -/
inductive Routed (actions : List ServiceAction) : Broadcast → Prop
  | account {userId source value metadata} (h : Concerns actions userId source value) :
    Routed actions ⟨.account userId, .accountEvent source value metadata⟩
  | market {marketId source value metadata} (h : OfMarket actions marketId source value) :
    Routed actions ⟨.market marketId, .marketEvent marketId source value metadata⟩

section Broadcasts

variable {actions actions' : List ServiceAction} {broadcast : Broadcast} {subscriber : Subscriber}

theorem Routed.mono (h : Routed actions broadcast) (hactions : actions ⊆ actions') :
    Routed actions' broadcast := by
  cases h with
  | account h => exact .account (h.mono hactions)
  | market h =>
    obtain ⟨partition, event, metadata, hevent, hrest⟩ := h
    exact .market ⟨partition, event, metadata, hactions hevent, hrest⟩

theorem routed_engineBroadcasts {partition : ℕ} {event : EngineEvent} {metadata : StreamMetadata}
    (h : .engineEvent partition event metadata ∈ actions)
    (hmem : broadcast ∈ engineBroadcasts event metadata) : Routed actions broadcast := by
  rcases List.mem_append.1 hmem with hmem | hmem
  · obtain ⟨userId, huser, rfl⟩ := List.mem_map.1 hmem
    exact .account (.engine h ((Finset.mem_sort _).1 huser))
  · obtain ⟨marketId, hmarket, rfl⟩ := List.mem_map.1 hmem
    exact .market ⟨partition, event, metadata, h, Option.mem_toList.1 hmarket, rfl, rfl⟩

theorem routed_walletBroadcasts {partition : ℕ} {event : WalletEvent} {metadata : StreamMetadata}
    (h : .walletEvent partition event metadata ∈ actions)
    (hmem : broadcast ∈ walletBroadcasts event metadata) : Routed actions broadcast := by
  cases List.mem_singleton.1 hmem
  exact .account (.wallet h rfl)

/-- A subscriber gets what it may read. -/
theorem Coherent.receive (h : Coherent actions subscriber) (hrouted : Routed actions broadcast)
    (refuses : Bool) : Coherent actions (subscriber.receive broadcast refuses) := by
  rw [Subscriber.receive]
  split
  · next hhears =>
    split
    · refine { h with told := fun markets hmarkets => ?_ }
      cases hmarkets
    · refine { h with own := (WsSession.continues_pushed _).own h.own, mailbox := fun message hmem => ?_ }
      rcases List.mem_append.1 hmem with hmem | hmem
      · exact h.mailbox message hmem
      · rw [List.mem_singleton.1 hmem]
        cases hrouted with
        | account hconcerns =>
          obtain ⟨hsome, huser⟩ := Bool.and_eq_true_iff.1 hhears
          obtain ⟨markets, hmarkets⟩ := Option.isSome_iff_exists.1 hsome
          rw [← beq_iff_eq.1 huser] at hconcerns
          exact ⟨h.welcomed (h.told markets hmarkets).2, hconcerns⟩
        | market hmarket =>
          obtain ⟨markets, hmarkets, hmem⟩ := (Option.any_eq_true _ _).1 hhears
          have hmem := of_decide_eq_true hmem
          rw [(h.told markets hmarkets).1] at hmem
          exact ⟨hmarket, exists_subscribed hmem⟩
  · exact h

end Broadcasts

/-! ## Runs -/

structure View.Coherent (actions : List ServiceAction) (v : View) : Prop where
  routed : ∀ partition, ∀ broadcast ∈ v.routing.pending partition, Routed actions broadcast
  subscriber : ∀ subscriber, v.subscriber = some subscriber → Ws.Coherent actions subscriber

section Runs

variable {actions : List ServiceAction} {a : ServiceAction} {v v' : View} {connection : ℕ}

/-- A partition that has taken an event. -/
theorem routed_update {pending : ℕ → List Broadcast} {partition : ℕ} {broadcasts : List Broadcast}
    (h : ∀ partition, ∀ broadcast ∈ pending partition, Routed actions broadcast)
    (hnew : ∀ broadcast ∈ broadcasts, Routed actions broadcast) (other : ℕ)
    (broadcast : Broadcast) (hmem : broadcast ∈ Function.update pending partition broadcasts other) :
    Routed actions broadcast := by
  by_cases heq : other = partition
  · subst heq
    rw [Function.update_self] at hmem
    exact hnew broadcast hmem
  · rw [Function.update_of_ne heq] at hmem
    exact h other broadcast hmem

theorem View.Coherent.step (h : v.Coherent actions) (hstep : v.step connection a = some v') :
    v'.Coherent (actions ++ [a]) := by
  have hactions : actions ⊆ actions ++ [a] := List.subset_append_left ..
  have ha : a ∈ actions ++ [a] := List.mem_append_right _ List.mem_cons_self
  have hrouted : ∀ partition, ∀ broadcast ∈ v.routing.pending partition,
      Routed (actions ++ [a]) broadcast :=
    fun partition broadcast hmem => (h.routed partition broadcast hmem).mono hactions
  have hsame : v.Coherent (actions ++ [a]) :=
    ⟨hrouted, fun subscriber hsubscriber => (h.subscriber subscriber hsubscriber).mono hactions⟩
  cases a with
  | connect other claim =>
    rw [View.step] at hstep
    split at hstep
    · obtain ⟨-, heq⟩ := Option.ite_none_right_eq_some.1 hstep
      cases heq
      refine ⟨hrouted, fun subscriber hsubscriber => ?_⟩
      cases hsubscriber
      exact coherent_started claim
    · cases hstep
      exact hsame
  | session other action =>
    rw [View.step] at hstep
    split at hstep
    · obtain ⟨subscriber', hbind, rfl⟩ := Option.map_eq_some_iff.1 hstep
      obtain ⟨subscriber, hfilter, haction⟩ := Option.bind_eq_some_iff.1 hbind
      obtain ⟨hsubscriber, -⟩ := Option.filter_eq_some_iff.1 hfilter
      refine ⟨hrouted, fun after hafter => ?_⟩
      cases hafter
      exact (hsame.subscriber subscriber hsubscriber).step haction
    · cases hstep
      exact hsame
  | unregister i =>
    cases hstep
    exact hsame
  | engineEvent partition event metadata =>
    obtain ⟨routing, hrouting, rfl⟩ := Option.map_eq_some_iff.1 hstep
    obtain ⟨-, heq⟩ := Option.ite_none_right_eq_some.1 hrouting
    cases heq
    refine ⟨routed_update hrouted fun broadcast hmem => ?_, hsame.subscriber⟩
    exact routed_engineBroadcasts ha hmem
  | walletEvent partition event metadata =>
    obtain ⟨routing, hrouting, rfl⟩ := Option.map_eq_some_iff.1 hstep
    obtain ⟨-, heq⟩ := Option.ite_none_right_eq_some.1 hrouting
    cases heq
    refine ⟨routed_update hrouted fun broadcast hmem => ?_, hsame.subscriber⟩
    split at hmem
    · exact absurd hmem List.not_mem_nil
    · exact routed_walletBroadcasts ha hmem
  | broadcast partition refuses =>
    obtain ⟨⟨broadcast, routing⟩, hnext, rfl⟩ := Option.map_eq_some_iff.1 hstep
    rw [Routing.next] at hnext
    cases hpending : v.routing.pending partition with
    | nil =>
      rw [hpending] at hnext
      cases hnext
    | cons first pending =>
      rw [hpending] at hnext
      cases hnext
      have hall := hrouted partition
      rw [hpending] at hall
      refine ⟨routed_update hrouted fun other hmem => hall other (List.mem_cons_of_mem _ hmem),
        fun subscriber' hsubscriber' => ?_⟩
      obtain ⟨subscriber, hsubscriber, rfl⟩ := Option.map_eq_some_iff.1 hsubscriber'
      exact (hsame.subscriber subscriber hsubscriber).receive (hall _ List.mem_cons_self) _

theorem coherent_of_run (hrun : run (View.step connection) .new actions = some v) :
    v.Coherent actions := by
  induction actions using List.reverseRecOn generalizing v with
  | nil =>
    cases hrun
    refine ⟨fun _ _ hmem => absurd hmem List.not_mem_nil, fun _ hsubscriber => ?_⟩
    cases hsubscriber
  | append_singleton actions a ih =>
    rw [run_append] at hrun
    obtain ⟨mid, hmid, hlast⟩ := Option.bind_eq_some_iff.1 hrun
    obtain ⟨v', hstep, hend⟩ := Option.bind_eq_some_iff.1 hlast
    cases hend
    exact (ih hmid).step hstep

end Runs

/-- After any run with fewer connections than the hub has ids for, whatever the hub keeps
for the session of a client are the markets that the client has been told it is subscribed
to, and every text that the client has got might follow those before it: one welcome
under its own name, answers with markets in order, events of its own accounts, and events
of markets that an earlier text has told of. -/
theorem texts_follow_subscriptions (actions : List ServiceAction) (σ : Service)
    (hend : connections actions + 1 < sessionIdEnd)
    (hrun : run Service.step .new actions = some σ) (connection : ℕ) (session : WsSession ℕ)
    (hsession : σ.sessions connection = some session) :
    (∀ sessionId handle, session.running → session.sessionId = some sessionId →
      σ.hub.inner.sessions.lookup sessionId = some handle → handle.markets = told session.sent) ∧
    ∀ i text, session.sent[i]? = some text →
      Allowed actions session.claim (session.sent.take i) text := by
  have hview := clients_view hend hrun connection
  have hcoherent := coherent_of_run hview
  have h := hcoherent.subscriber (σ.subscriber session) (by rw [Service.view, hsession, Option.map_some])
  refine ⟨fun sessionId handle hrunning hid hknown => ?_, h.sent⟩
  have hmarkets : σ.markets session = some handle.markets := by
    rw [Service.markets_of_running hrunning hid, hknown, Option.map_some]
  exact (h.told _ hmarkets).1

/-- User 42 is welcomed, told of market 7 and sent an event of it. -/
theorem texts_follow_subscriptions_twoClients :
    ∃ σ session, run Service.step .new twoClients = some σ ∧ σ.sessions 0 = some session ∧
      session.sent.length = 3 ∧ ∀ i text, session.sent[i]? = some text →
        Allowed twoClients session.claim (session.sent.take i) text := by
  have hlength : (run Service.step .new twoClients).map (fun σ =>
      (σ.sessions 0).map fun session => session.sent.length) = some (some 3) := by decide +kernel
  obtain ⟨σ, hrun, hlength⟩ := Option.map_eq_some_iff.1 hlength
  obtain ⟨session, hsession, hlength⟩ := Option.map_eq_some_iff.1 hlength
  exact ⟨σ, session, hrun, hsession, hlength,
    (texts_follow_subscriptions twoClients σ (by decide) hrun 0 session hsession).2⟩

end Ws
