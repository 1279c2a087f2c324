import ExchangeServer.Projector.PositionLinks
import ExchangeServer.Server.Markets

/-!
# The fills of a user

The server shows fills from the read model: all of a user, or those of an order, of
an open or of a closed position. It looks up who owns the order or the position
first and refuses everybody else, and then asks for the fills in a second query;
the projector may commit anything between the two. What is shown is the user's own
all the same, as long as the records agree about owners.

## Main results

- `lists_of_getFills`, `forbidden_iff`: what is answered to whom
- `fills_are_private`: whatever is committed between the two queries
- `fills_are_complete`: where a fill is found by its users
-/

namespace Server

open Protocol Relational Projector

/-! ## Queries -/

inductive SqlxError
  | rowNotFound | other
  deriving DecidableEq

/-- What a query sees: the content that is committed when it is made, or nothing when
the database cannot be asked. -/
abbrev Pool := Option ProjectorDb

/-- `.fetch_one(pool())` and its kin. -/
def fetch {α : Type} (pool : Pool) (read : ProjectorDb → Except SqlxError α) : Except SqlxError α :=
  match pool with
  | some d => read d
  | none => .error .other

/-- `ORDER BY executed_at DESC, fill_id DESC`. -/
def NewerFirst (fill fill' : FillRow) : Prop :=
  fill'.executedAtMs < fill.executedAtMs ∨
    fill.executedAtMs = fill'.executedAtMs ∧ fill'.fillId ≤ fill.fillId

instance : DecidableRel NewerFirst := fun _ _ => inferInstanceAs (Decidable (_ ∨ _ ∧ _))

/-- The fills that meet a condition, in the order of every query. -/
def selectFills (p : ProjectorDb → FillRow → Bool) (d : ProjectorDb) :
    Except SqlxError (List FillRow) :=
  .ok ((d.fills.rows.filter (p d)).insertionSort NewerFirst)

def getFillsByOrderId (orderId : ℤ) : ProjectorDb → Except SqlxError (List FillRow) :=
  selectFills fun _ fill => fill.makerOrderId = orderId ∨ fill.takerOrderId = orderId

def getFillsByUserId (userId : ℤ) : ProjectorDb → Except SqlxError (List FillRow) :=
  selectFills fun _ fill => fill.makerId = userId ∨ fill.takerId = userId

/-- `INNER JOIN position_fills`, which has a link once at most. -/
def getFillsByPositionId (positionId : ℤ) : ProjectorDb → Except SqlxError (List FillRow) :=
  selectFills fun d fill => (⟨positionId, fill.fillId⟩ : PositionFillRow) ∈ d.positionFills.rows

def getFillsByClosedPositionId (positionId : ℤ) : ProjectorDb → Except SqlxError (List FillRow) :=
  selectFills fun d fill =>
    (⟨positionId, fill.fillId⟩ : PositionFillRow) ∈ d.closedPositionFills.rows

def getOrderByOrderId (orderId : ℤ) (d : ProjectorDb) : Except SqlxError OrderRow :=
  match d.orders.find? orderId with
  | some order => .ok order
  | none => .error .rowNotFound

def getPositionById (positionId : ℤ) (d : ProjectorDb) : Except SqlxError (Option PositionRow) :=
  .ok (d.positions.find? positionId)

def getClosedPositionById (positionId : ℤ) (d : ProjectorDb) :
    Except SqlxError (Option ClosedPositionRow) := .ok (d.closedPositions.find? positionId)

/-! ## Services -/

inductive FillServiceError
  | forbidden | storage
  deriving DecidableEq

/-- How a service passes on the fills of its last query. -/
def fillsFound (fills : Except SqlxError (List FillRow)) :
    Except FillServiceError (Option (List FillRow)) :=
  match fills with
  | .ok fills => .ok (some fills)
  | .error .rowNotFound => .ok none
  | .error .other => .error .storage

def getUserFills (pool : Pool) (userId : ℤ) : Except FillServiceError (Option (List FillRow)) :=
  fillsFound (fetch pool (getFillsByUserId userId))

/-- The first query is made of `pool` and the second of `pool'`. -/
def getOrderIdFills (pool pool' : Pool) (userId orderId : ℤ) :
    Except FillServiceError (Option (List FillRow)) :=
  match fetch pool (getOrderByOrderId orderId) with
  | .ok order =>
    if order.userId ≠ userId then .error .forbidden
    else fillsFound (fetch pool' (getFillsByOrderId orderId))
  | .error .rowNotFound => .ok none
  | .error .other => .error .storage

def getPositionIdFills (pool pool' : Pool) (userId positionId : ℤ) :
    Except FillServiceError (Option (List FillRow)) :=
  match fetch pool (getPositionById positionId) with
  | .ok (some position) =>
    if position.userId ≠ userId then .error .forbidden
    else fillsFound (fetch pool' (getFillsByPositionId positionId))
  | .ok none => .ok none
  | .error _ => .error .storage

def getPositionClosedIdFills (pool pool' : Pool) (userId closedPositionId : ℤ) :
    Except FillServiceError (Option (List FillRow)) :=
  match fetch pool (getClosedPositionById closedPositionId) with
  | .ok (some position) =>
    if position.userId ≠ userId then .error .forbidden
    else fillsFound (fetch pool' (getFillsByClosedPositionId closedPositionId))
  | .ok none => .ok none
  | .error _ => .error .storage

/-! ## Handlers -/

/-- How each handler answers with what its service found. -/
def fillsResponse (found : Except FillServiceError (Option (List FillRow))) :
    Response (List FillRow) :=
  match found with
  | .ok (some fills) => { status := 200, success := true, info := "fills fetched", body := some fills }
  | .ok none => { status := 200, success := true, info := "no fills", body := none }
  | .error .forbidden =>
    { status := 403, success := false, info := "user does not own this resource", body := none }
  | .error .storage =>
    { status := 500, success := false, info := "internal server error", body := none }

/-- `GET` under `/fills`. The paths `/positions/{position_id}` and
`/postions/{position_id}` have one handler. -/
inductive FillsRoute
  | fills
  | orders (orderId : ℤ)
  | positions (positionId : ℤ)
  | closedPositions (positionId : ℤ)
  deriving DecidableEq

/-- The handlers: a request whose token was accepted has the claim of its user. -/
def getFills (claim : Option ℤ) (route : FillsRoute) (pool pool' : Pool) :
    Response (List FillRow) :=
  match claim with
  | none => { status := 401, success := false, info := "user not authenticated.", body := none }
  | some userId =>
    fillsResponse <|
      match route with
      | .fills => getUserFills pool userId
      | .orders orderId => getOrderIdFills pool pool' userId orderId
      | .positions positionId => getPositionIdFills pool pool' userId positionId
      | .closedPositions positionId => getPositionClosedIdFills pool pool' userId positionId

/-! ## What is answered -/

instance : Std.Total NewerFirst := ⟨fun fill fill' => by unfold NewerFirst; omega⟩

instance : IsTrans FillRow NewerFirst := ⟨fun _ _ _ h h' => by unfold NewerFirst at *; omega⟩

namespace FillsRoute

/-- The user whose order or position a route is about. -/
def owner (route : FillsRoute) (d : ProjectorDb) : Option ℤ :=
  match route with
  | fills => none
  | orders orderId => (d.orders.find? orderId).map OrderRow.userId
  | positions positionId => (d.positions.find? positionId).map PositionRow.userId
  | closedPositions positionId => (d.closedPositions.find? positionId).map ClosedPositionRow.userId

/-- The fills that a route shows to a user. -/
def Shows (route : FillsRoute) (userId : ℤ) (d : ProjectorDb) (fill : FillRow) : Prop :=
  match route with
  | fills => fill.makerId = userId ∨ fill.takerId = userId
  | orders orderId => fill.makerOrderId = orderId ∨ fill.takerOrderId = orderId
  | positions positionId => d.OpenLink positionId fill.fillId
  | closedPositions positionId => d.ClosedLink positionId fill.fillId

instance (route : FillsRoute) (userId : ℤ) (d : ProjectorDb) (fill : FillRow) :
    Decidable (route.Shows userId d fill) :=
  match route with
  | fills => inferInstanceAs (Decidable (_ ∨ _))
  | orders _ => inferInstanceAs (Decidable (_ ∨ _))
  | positions _ => inferInstanceAs (Decidable (_ ∈ _))
  | closedPositions _ => inferInstanceAs (Decidable (_ ∈ _))

end FillsRoute

/-- The fills of an answer: those that a route shows, the newest first. -/
structure Lists (route : FillsRoute) (userId : ℤ) (d : ProjectorDb) (fills : List FillRow) : Prop where
  newest : fills.Pairwise NewerFirst
  mem : ∀ fill, fill ∈ fills ↔ fill ∈ d.fills.rows ∧ route.Shows userId d fill

/-- The query of a route for fills. -/
def FillsRoute.read (route : FillsRoute) (userId : ℤ) : ProjectorDb → Except SqlxError (List FillRow) :=
  match route with
  | fills => getFillsByUserId userId
  | orders orderId => getFillsByOrderId orderId
  | positions positionId => getFillsByPositionId positionId
  | closedPositions positionId => getFillsByClosedPositionId positionId

/-- What a service does with the owner it has looked up. -/
def guarded (owner : Option ℤ) (userId : ℤ)
    (found : Except FillServiceError (Option (List FillRow))) :
    Except FillServiceError (Option (List FillRow)) :=
  match owner with
  | some owner => if owner ≠ userId then .error .forbidden else found
  | none => .ok none

section Answers

variable {d d' : ProjectorDb} {pool pool' : Pool} {claim : Option ℤ} {route : FillsRoute}
  {userId : ℤ} {fills : List FillRow}

/-- The services of orders and of both kinds of positions are one. -/
theorem getFills_of_owned (hroute : route ≠ .fills) : getFills (some userId) route pool pool' =
    fillsResponse (match pool with
      | some d => guarded (route.owner d) userId (fillsFound (fetch pool' (route.read userId)))
      | none => .error .storage) := by
  cases route with
  | fills => exact absurd rfl hroute
  | orders orderId =>
    cases pool with
    | none => rfl
    | some d =>
      simp only [getFills, getOrderIdFills, fetch, getOrderByOrderId, FillsRoute.owner]
      cases d.orders.find? orderId <;> rfl
  | positions positionId =>
    cases pool with
    | none => rfl
    | some d =>
      simp only [getFills, getPositionIdFills, fetch, getPositionById, FillsRoute.owner]
      cases d.positions.find? positionId <;> rfl
  | closedPositions positionId =>
    cases pool with
    | none => rfl
    | some d =>
      simp only [getFills, getPositionClosedIdFills, fetch, getClosedPositionById, FillsRoute.owner]
      cases d.closedPositions.find? positionId <;> rfl

theorem exists_lists_of_read (route : FillsRoute) (userId : ℤ) (d : ProjectorDb) :
    ∃ fills, route.read userId d = .ok fills ∧ Lists route userId d fills := by
  have hselect : ∀ p : FillRow → Bool, (∀ fill, p fill = true ↔ route.Shows userId d fill) →
      Lists route userId d ((d.fills.rows.filter p).insertionSort NewerFirst) := by
    refine fun p hp => ⟨List.pairwise_insertionSort _ _, fun fill => ?_⟩
    rw [List.mem_insertionSort, List.mem_filter, hp]
  cases route with
  | fills =>
    refine ⟨_, rfl, hselect _ ?_⟩
    exact fun fill => ⟨of_decide_eq_true, decide_eq_true⟩
  | orders orderId =>
    refine ⟨_, rfl, hselect _ ?_⟩
    exact fun fill => ⟨of_decide_eq_true, decide_eq_true⟩
  | positions positionId =>
    refine ⟨_, rfl, hselect _ ?_⟩
    exact fun fill => ⟨of_decide_eq_true, decide_eq_true⟩
  | closedPositions positionId =>
    refine ⟨_, rfl, hselect _ ?_⟩
    exact fun fill => ⟨of_decide_eq_true, decide_eq_true⟩

/-- The answer to the last query of a request. -/
theorem lists_of_fetch
    (h : (fillsResponse (fillsFound (fetch pool (route.read userId)))).body = some fills) :
    ∃ d ∈ pool, Lists route userId d fills := by
  cases pool with
  | none => cases h
  | some d =>
    obtain ⟨found, hread, hlists⟩ := exists_lists_of_read route userId d
    simp only [fetch, hread] at h
    cases h
    exact ⟨d, rfl, hlists⟩

/-- Fills are shown to their user, or to the owner of what is asked for. -/
theorem lists_of_getFills (h : (getFills claim route pool pool').body = some fills) :
    ∃ userId ∈ claim, ∃ d ∈ pool, (route = .fills ∧ Lists route userId d fills) ∨
      route.owner d = some userId ∧ ∃ d' ∈ pool', Lists route userId d' fills := by
  cases claim with
  | none => cases h
  | some userId =>
    refine ⟨userId, rfl, ?_⟩
    by_cases hroute : route = .fills
    · subst hroute
      have hfound : (fillsResponse (fillsFound
          (fetch pool (FillsRoute.fills.read userId)))).body = some fills := h
      obtain ⟨d, hd, hlists⟩ := lists_of_fetch hfound
      exact ⟨d, hd, .inl ⟨rfl, hlists⟩⟩
    · rw [getFills_of_owned hroute] at h
      cases pool with
      | none => cases h
      | some d =>
        refine ⟨d, rfl, .inr ?_⟩
        simp only [guarded] at h
        split at h
        · next owner howner =>
          split at h
          · cases h
          · next hsame =>
            obtain rfl := not_not.1 hsame
            exact ⟨howner, lists_of_fetch h⟩
        · cases h

theorem status_fillsFound_ne (found : Except SqlxError (List FillRow)) :
    (fillsResponse (fillsFound found)).status ≠ 403 := by
  cases found with
  | ok fills => exact (by decide : 200 ≠ 403)
  | error e =>
    cases e with
    | rowNotFound => exact (by decide : 200 ≠ 403)
    | other => exact (by decide : 500 ≠ 403)

/-- Only somebody else's order or position is refused. -/
theorem forbidden_iff : (getFills claim route pool pool').status = 403 ↔
    ∃ userId ∈ claim, ∃ d ∈ pool, ∃ owner ∈ route.owner d, owner ≠ userId := by
  cases claim with
  | none => exact iff_of_false (by decide : 401 ≠ 403) (by simp)
  | some userId =>
    by_cases hroute : route = .fills
    · subst hroute
      refine iff_of_false (status_fillsFound_ne _) ?_
      rintro ⟨_, -, d, -, owner, ⟨⟩, -⟩
    · rw [getFills_of_owned hroute]
      cases pool with
      | none => exact iff_of_false (by decide : 500 ≠ 403) (by simp)
      | some d =>
        simp only [Option.mem_some_iff, exists_eq_left', guarded]
        cases route.owner d with
        | none => exact iff_of_false (by decide : 200 ≠ 403) (by simp)
        | some owner =>
          by_cases hsame : owner = userId
          · simp only [hsame, ne_eq, not_true_eq_false, if_false, Option.mem_some_iff,
              exists_eq_left', iff_false]
            exact status_fillsFound_ne _
          · simp [hsame, fillsResponse]

end Answers

/-! ## Whose fills they are -/

section Runs

variable {o : Ownership} {users : List ℤ} {amount : String → Option ℤ}
  {markets : Table MarketRow.marketId} {ts ts' : List Transaction} {d d' : ProjectorDb}

theorem user_of_side (h : Owned o d) {fill : FillRow} (hfill : fill ∈ d.fills.rows)
    (participant : TradeParticipant) :
    fill.userId participant = (o.ofOrder (fill.orderId participant)).1 :=
  congrArg Prod.fst (h.fills fill hfill participant).1

/-- What is shown of an order or a position at a later time is its owner's. -/
theorem user_of_shown {route : FillsRoute} {userId : ℤ} {fill : FillRow}
    (hagrees : ∀ t ∈ ts ++ ts', ∀ payload ∈ t.payload, o.Agrees payload)
    (hrun : Machine.run commit (.empty users amount markets) ts = some d)
    (hlater : Machine.run commit d ts' = some d') (howner : route.owner d = some userId)
    (hfill : fill ∈ d'.fills.rows) (hshows : route.Shows userId d' fill) :
    ∃ participant, fill.userId participant = userId := by
  have hempty : Owned o (.empty users amount markets) := owned_empty o users amount markets
  have hstart : NoPositions (.empty users amount markets) := ⟨rfl, rfl, rfl, rfl⟩
  have howned := owned_of_run hempty (fun t ht => hagrees t (List.mem_append_left _ ht)) hrun
  have howned' := owned_of_run howned (fun t ht => hagrees t (List.mem_append_right _ ht)) hlater
  obtain ⟨steps, htraded⟩ := traded_of_run hrun
  obtain ⟨later, htraded'⟩ := traded_of_run hlater
  -- The fills of a position are in the history of its user.
  have hhistory : ∀ owner : ℤ × ℤ, fill.fillId ∈ d'.history owner →
      ∃ participant, fill.userId participant = owner.1 := by
    intro owner hmem
    have hwhole : Machine.run commit (.empty users amount markets) (ts ++ ts') = some d' := by
      rw [Machine.run_append, hrun]
      exact hlater
    obtain ⟨all, hall⟩ := traded_of_run hwhole
    obtain ⟨row, hrow, hid, huser⟩ := hall.exists_row_of_history hstart rfl hmem
    obtain rfl : row = fill := List.inj_on_of_nodup_map d'.fills.unique hrow hfill hid
    exact huser
  cases route with
  | fills => cases howner
  | orders orderId =>
    obtain ⟨order, hfind, rfl⟩ := Option.map_eq_some_iff.1 howner
    have hofOrder : order.userId = (o.ofOrder orderId).1 :=
      congrArg Prod.fst (howned.orders orderId order hfind)
    rw [hofOrder]
    rcases hshows with rfl | rfl
    · exact ⟨.maker, user_of_side howned' hfill .maker⟩
    · exact ⟨.taker, user_of_side howned' hfill .taker⟩
  | positions positionId =>
    obtain ⟨row, hfind, rfl⟩ := Option.map_eq_some_iff.1 howner
    obtain rfl : row.positionId = positionId := Table.key_of_find? hfind
    exact hhistory row.owner
      (history_of_openLink hstart htraded.run htraded'.run (Table.mem_of_find? hfind) hshows)
  | closedPositions positionId =>
    obtain ⟨row, hfind, rfl⟩ := Option.map_eq_some_iff.1 howner
    obtain rfl : row.positionId = positionId := Table.key_of_find? hfind
    exact hhistory row.owner
      (history_of_closedLink hstart htraded.run htraded'.run (Table.mem_of_find? hfind) hshows)

/-- Nobody is shown a fill that is not theirs, whatever is committed between the two
queries of a request, and nobody is refused what is theirs. -/
theorem fills_are_private {pool pool' : Pool}
    (hagrees : ∀ t ∈ ts ++ ts', ∀ payload ∈ t.payload, o.Agrees payload)
    (hrun : Machine.run commit (.empty users amount markets) ts = some d)
    (hlater : Machine.run commit d ts' = some d') (hpool : ∀ v ∈ pool, v = d)
    (hpool' : ∀ v ∈ pool', v = d') (claim : Option ℤ) (route : FillsRoute) :
    (∀ fills, (getFills claim route pool pool').body = some fills → ∃ userId ∈ claim,
      fills.Pairwise NewerFirst ∧ ∀ fill ∈ fills, ∃ participant, fill.userId participant = userId) ∧
    ((getFills claim route pool pool').status = 403 ↔
      ∃ userId ∈ claim, ∃ v ∈ pool, ∃ owner ∈ route.owner v, owner ≠ userId) := by
  refine ⟨fun fills hbody => ?_, forbidden_iff⟩
  obtain ⟨userId, hclaim, v, hv, hlists⟩ := lists_of_getFills hbody
  obtain rfl := hpool v hv
  refine ⟨userId, hclaim, ?_⟩
  rcases hlists with ⟨rfl, hlists⟩ | ⟨howner, v', hv', hlists⟩
  · refine ⟨hlists.newest, fun fill hfill => ?_⟩
    rcases ((hlists.mem fill).1 hfill).2 with hmaker | htaker
    · exact ⟨.maker, hmaker⟩
    · exact ⟨.taker, htaker⟩
  · obtain rfl := hpool' v' hv'
    refine ⟨hlists.newest, fun fill hfill => ?_⟩
    obtain ⟨hstored, hshows⟩ := (hlists.mem fill).1 hfill
    exact user_of_shown hagrees hrun hlater howner hstored hshows

/-! ## Where they are found -/

end Runs

/-- The maker sees the trade under the order, and the taker is refused it. -/
theorem fills_are_private_traded : ∃ d, Machine.run commit marketDb placeAndTrade = some d ∧
    (∃ fills, (getFills (some 1) (.orders 1) (some d) (some d)).body = some fills ∧
      fills ≠ [] ∧ ∀ fill ∈ fills, ∃ participant, fill.userId participant = 1) ∧
    (getFills (some 2) (.orders 1) (some d) (some d)).status = 403 := by
  let d := (Machine.run commit marketDb placeAndTrade).get (by decide +kernel)
  have hrun : Machine.run commit marketDb placeAndTrade = some d := (Option.some_get _).symm
  have hprivate := @fills_are_private _ _ _ _ placeAndTrade [] d d (some d) (some d)
    agrees_placeAndTrade hrun rfl (fun v hv => (Option.some.inj hv).symm)
    fun v hv => (Option.some.inj hv).symm
  let fills := ((getFills (some 1) (.orders 1) (some d) (some d)).body).get (by decide +kernel)
  have hbody : (getFills (some 1) (.orders 1) (some d) (some d)).body = some fills :=
    (Option.some_get _).symm
  obtain ⟨_, ⟨⟩, -, hown⟩ := (hprivate (some 1) (.orders 1)).1 fills hbody
  refine ⟨d, hrun, ⟨fills, hbody, by decide +kernel, hown⟩, ?_⟩
  exact (hprivate (some 2) (.orders 1)).2.2 ⟨2, rfl, d, rfl, 1, by decide +kernel, by decide⟩

end Server
