import ExchangeServer.Ws.Indexes
import ExchangeServer.Ws.Session

/-!
# The sessions that the hub knows

A session that was dropped as stale may still subscribe, and its id then stays in a market
of the hub for ever. On the sessions that the hub knows its indexes agree all the same,
whatever is called: `AgreeKnown` needs no condition on the calls, as `Agree` does. For
each call there is what it does to the session of one id.
-/

namespace Ws

/-- The sessions of a user are known, and each known session is in its markets. -/
structure AgreeKnown (state : HubState) : Prop where
  users : ∀ userId sessionId, sessionId ∈ state.users.members userId ↔
    ∃ session, state.sessions.lookup sessionId = some session ∧ session.userId = userId
  markets : ∀ marketId sessionId session, state.sessions.lookup sessionId = some session →
    (sessionId ∈ state.markets.members marketId ↔ marketId ∈ session.markets)
  usersPruned : state.users.Pruned

section Hub

variable {state : HubState} {sessionId other : ℕ} {userId marketId : ℤ}

theorem agreeKnown_empty : AgreeKnown .empty where
  users := agree_empty.users
  markets _ sessionId session h :=
    absurd (h.symm.trans (Finmap.lookup_empty sessionId)) (Option.some_ne_none session)
  usersPruned := SetMap.pruned_empty

theorem lookup_subscribeMarkets_self (markets : List ℤ) :
    (subscribeMarkets state sessionId markets).sessions.lookup sessionId =
      (state.sessions.lookup sessionId).map fun session =>
        { session with markets := session.markets ∪ markets.toFinset } := by
  induction markets generalizing state with
  | nil => simp [subscribeMarkets]
  | cons marketId markets ih =>
    have hfirst : (subscribeMarket sessionId state marketId).sessions.lookup sessionId = _ :=
      lookup_modifySession_self
    rw [subscribeMarkets, List.foldl_cons, ← subscribeMarkets, ih, hfirst, Option.map_map]
    congr 1
    funext session
    simp [Finset.union_insert, Finset.insert_union]

theorem lookup_subscribeMarkets_of_ne (hne : other ≠ sessionId) (markets : List ℤ) :
    (subscribeMarkets state sessionId markets).sessions.lookup other =
      state.sessions.lookup other := by
  induction markets generalizing state with
  | nil => rfl
  | cons marketId markets ih => exact ih.trans (lookup_modifySession_of_ne hne)

theorem mem_markets_subscribeMarkets (markets : List ℤ) :
    other ∈ (subscribeMarkets state sessionId markets).markets.members marketId ↔
      (other = sessionId ∧ marketId ∈ markets) ∨ other ∈ state.markets.members marketId := by
  induction markets generalizing state with
  | nil => simp [subscribeMarkets]
  | cons first markets ih =>
    rw [subscribeMarkets, List.foldl_cons, ← subscribeMarkets, ih, subscribeMarket,
      SetMap.mem_members_add, List.mem_cons]
    tauto

theorem lookup_unsubscribeMarkets_self (markets : List ℤ) :
    (unsubscribeMarkets state sessionId markets).sessions.lookup sessionId =
      (state.sessions.lookup sessionId).map fun session =>
        { session with markets := session.markets \ markets.toFinset } := by
  induction markets generalizing state with
  | nil => simp [unsubscribeMarkets]
  | cons marketId markets ih =>
    have hfirst : (unsubscribeMarket sessionId state marketId).sessions.lookup sessionId = _ :=
      lookup_modifySession_self
    rw [unsubscribeMarkets, List.foldl_cons, ← unsubscribeMarkets, ih, hfirst, Option.map_map]
    congr 1
    funext session
    simp only [Function.comp_apply, List.toFinset_cons, SessionHandle.mk.injEq, true_and]
    ext market
    simp only [Finset.mem_sdiff, Finset.mem_erase, Finset.mem_insert, List.mem_toFinset]
    tauto

theorem lookup_unsubscribeMarkets_of_ne (hne : other ≠ sessionId) (markets : List ℤ) :
    (unsubscribeMarkets state sessionId markets).sessions.lookup other =
      state.sessions.lookup other := by
  induction markets generalizing state with
  | nil => rfl
  | cons marketId markets ih => exact ih.trans (lookup_modifySession_of_ne hne)

theorem mem_markets_unsubscribeMarkets (markets : List ℤ) :
    other ∈ (unsubscribeMarkets state sessionId markets).markets.members marketId ↔
      other ∈ state.markets.members marketId ∧ ¬(other = sessionId ∧ marketId ∈ markets) := by
  induction markets generalizing state with
  | nil => simp [unsubscribeMarkets]
  | cons first markets ih =>
    rw [unsubscribeMarkets, List.foldl_cons, ← unsubscribeMarkets, ih, unsubscribeMarket,
      SetMap.mem_members_prune, List.mem_cons]
    tauto

theorem users_subscribeMarkets (markets : List ℤ) :
    (subscribeMarkets state sessionId markets).users = state.users := by
  induction markets generalizing state with
  | nil => rfl
  | cons marketId markets ih => exact ih

theorem users_unsubscribeMarkets (markets : List ℤ) :
    (unsubscribeMarkets state sessionId markets).users = state.users := by
  induction markets generalizing state with
  | nil => rfl
  | cons marketId markets ih => exact ih

/-- The users of the sessions stay, so the sessions of each user do. -/
theorem AgreeKnown.users_of_lookup {state' : HubState} (h : AgreeKnown state)
    (husers : state'.users = state.users)
    (hlookup : ∀ other, (state'.sessions.lookup other).map SessionHandle.userId =
      (state.sessions.lookup other).map SessionHandle.userId) (userId : ℤ) (other : ℕ) :
    other ∈ state'.users.members userId ↔
      ∃ session, state'.sessions.lookup other = some session ∧ session.userId = userId := by
  have hsame := hlookup other
  rw [husers, h.users]
  simp only [← Option.map_eq_some_iff, hsame]

theorem AgreeKnown.subscribeMarkets (h : AgreeKnown state) (markets : List ℤ) :
    AgreeKnown (Ws.subscribeMarkets state sessionId markets) where
  users := by
    refine h.users_of_lookup (users_subscribeMarkets markets) fun other => ?_
    by_cases heq : other = sessionId
    · rw [heq, lookup_subscribeMarkets_self, Option.map_map]
      rfl
    · rw [lookup_subscribeMarkets_of_ne heq]
  markets marketId other session hsession := by
    rw [mem_markets_subscribeMarkets]
    by_cases heq : other = sessionId
    · subst heq
      rw [lookup_subscribeMarkets_self] at hsession
      obtain ⟨old, hold, rfl⟩ := Option.map_eq_some_iff.1 hsession
      simp [h.markets marketId other old hold, or_comm]
    · rw [lookup_subscribeMarkets_of_ne heq] at hsession
      simp [heq, h.markets marketId other session hsession]
  usersPruned := by
    rw [users_subscribeMarkets]
    exact h.usersPruned

theorem AgreeKnown.unsubscribeMarkets (h : AgreeKnown state) (markets : List ℤ) :
    AgreeKnown (Ws.unsubscribeMarkets state sessionId markets) where
  users := by
    refine h.users_of_lookup (users_unsubscribeMarkets markets) fun other => ?_
    by_cases heq : other = sessionId
    · rw [heq, lookup_unsubscribeMarkets_self, Option.map_map]
      rfl
    · rw [lookup_unsubscribeMarkets_of_ne heq]
  markets marketId other session hsession := by
    rw [mem_markets_unsubscribeMarkets]
    by_cases heq : other = sessionId
    · subst heq
      rw [lookup_unsubscribeMarkets_self] at hsession
      obtain ⟨old, hold, rfl⟩ := Option.map_eq_some_iff.1 hsession
      simp [h.markets marketId other old hold]
    · rw [lookup_unsubscribeMarkets_of_ne heq] at hsession
      simp [heq, h.markets marketId other session hsession]
  usersPruned := by
    rw [users_unsubscribeMarkets]
    exact h.usersPruned

/-- A new session is in no market. -/
theorem AgreeKnown.register (h : AgreeKnown state) (hnew : state.sessions.lookup sessionId = none)
    (hunheard : ∀ marketId, sessionId ∉ state.markets.members marketId) :
    AgreeKnown (Ws.register state sessionId userId) where
  users userId' other := by
    rw [Ws.register, SetMap.mem_members_add, h.users]
    by_cases heq : other = sessionId
    · rw [heq, Finmap.lookup_insert, hnew]
      simp [eq_comm]
    · rw [Finmap.lookup_insert_of_ne _ heq]
      simp [heq]
  markets marketId other session hsession := by
    rw [Ws.register] at hsession ⊢
    by_cases heq : other = sessionId
    · rw [heq, Finmap.lookup_insert] at hsession
      cases hsession
      rw [heq]
      simp [hunheard marketId]
    · rw [Finmap.lookup_insert_of_ne _ heq] at hsession
      exact h.markets marketId other session hsession
  usersPruned := h.usersPruned.add

theorem mem_markets_removeSessionLocked
    (hmem : other ∈ (removeSessionLocked state sessionId).markets.members marketId) :
    other ∈ state.markets.members marketId := by
  cases hfound : state.sessions.lookup sessionId with
  | none => rwa [removeSessionLocked_of_none hfound] at hmem
  | some session =>
    rw [removeSessionLocked_of_some hfound] at hmem
    exact (SetMap.mem_members_pruneAll.1 hmem).1

theorem AgreeKnown.removeSessionLocked (h : AgreeKnown state) :
    AgreeKnown (Ws.removeSessionLocked state sessionId) := by
  cases hfound : state.sessions.lookup sessionId with
  | none =>
    rw [removeSessionLocked_of_none hfound]
    exact h
  | some session =>
    rw [removeSessionLocked_of_some hfound]
    refine ⟨fun userId other => ?_, fun marketId other session' hsession' => ?_,
      h.usersPruned.prune⟩
    · rw [SetMap.mem_members_prune, h.users]
      by_cases heq : other = sessionId
      · rw [heq, Finmap.lookup_erase, hfound]
        simp [eq_comm]
      · rw [Finmap.lookup_erase_ne heq]
        simp [heq]
    · by_cases heq : other = sessionId
      · rw [heq, Finmap.lookup_erase] at hsession'
        cases hsession'
      · rw [Finmap.lookup_erase_ne heq] at hsession'
        rw [SetMap.mem_members_pruneAll, h.markets marketId other session' hsession']
        simp [heq]

section Stale

variable (stale : Finset ℕ)

/-- What removing sessions keeps. -/
theorem foldl_removeSessionLocked_keeps {P : HubState → Prop} (hP : P state)
    (hstep : ∀ state sessionId, P state → P (removeSessionLocked state sessionId)) :
    P (stale.val.foldl removeSessionLocked state) := by
  induction stale using Finset.induction_on generalizing state with
  | empty => exact hP
  | insert sessionId stale hnew ih =>
    rw [Finset.insert_val_of_notMem hnew, Multiset.foldl_cons]
    exact ih (hstep state sessionId hP)

theorem lookup_foldl_removeSessionLocked_eq :
    (stale.val.foldl removeSessionLocked state).sessions.lookup other =
      if other ∈ stale then none else state.sessions.lookup other := by
  induction stale using Finset.induction_on generalizing state with
  | empty => rfl
  | insert sessionId stale hnew ih =>
    rw [Finset.insert_val_of_notMem hnew, Multiset.foldl_cons, ih]
    by_cases heq : other = sessionId
    · rw [heq, lookup_removeSessionLocked_self, if_pos (Finset.mem_insert_self ..), ite_self]
    · rw [lookup_removeSessionLocked_of_ne heq]
      simp [heq]

end Stale

/-- A session that is sent a message and refuses is dropped. -/
theorem lookup_sendToSessionsLocked (sessions : Finset ℕ) (refuses : ℕ → Bool) :
    (sendToSessionsLocked state sessions refuses).1.sessions.lookup other =
      if other ∈ sessions ∧ refuses other then none else state.sessions.lookup other := by
  rw [sendToSessionsLocked, lookup_foldl_removeSessionLocked_eq]
  simp only [Finset.mem_filter]
  by_cases hmem : other ∈ sessions ∧ refuses other
  · cases hlookup : state.sessions.lookup other with
    | none => simp
    | some session => simp [hmem.1, hmem.2]
  · rw [if_neg hmem, if_neg fun h => hmem ⟨h.1.1, h.2⟩]

theorem mem_sendToSessionsLocked (sessions : Finset ℕ) (refuses : ℕ → Bool) :
    other ∈ (sendToSessionsLocked state sessions refuses).2 ↔
      other ∈ sessions ∧ (state.sessions.lookup other).isSome ∧ refuses other = false := by
  simp [sendToSessionsLocked, and_assoc]

/-- The sessions that a broadcast is for. -/
def HubState.targets (state : HubState) : Target → Finset ℕ
  | .account userId => state.users.members userId
  | .market marketId => state.markets.members marketId

theorem broadcast_eq (target : Target) (refuses : ℕ → Bool) :
    state.broadcast target refuses = sendToSessionsLocked state (state.targets target) refuses := by
  cases target <;> rfl

theorem AgreeKnown.broadcast (h : AgreeKnown state) (target : Target) (refuses : ℕ → Bool) :
    AgreeKnown (state.broadcast target refuses).1 := by
  rw [broadcast_eq]
  exact foldl_removeSessionLocked_keeps _ h fun _ _ h => h.removeSessionLocked

theorem mem_markets_broadcast (target : Target) (refuses : ℕ → Bool)
    (hmem : other ∈ (state.broadcast target refuses).1.markets.members marketId) :
    other ∈ state.markets.members marketId := by
  rw [broadcast_eq] at hmem
  refine foldl_removeSessionLocked_keeps (P := fun state' => other ∈ state'.markets.members marketId →
    other ∈ state.markets.members marketId) _ id (fun _ _ h hmem => ?_) hmem
  exact h (mem_markets_removeSessionLocked hmem)

/-- Without sessions no user has any. -/
theorem AgreeKnown.users_eq_empty (h : AgreeKnown state)
    (hnone : ∀ sessionId, state.sessions.lookup sessionId = none) : state.users = ∅ := by
  refine Finmap.ext_lookup fun userId => ?_
  rw [Finmap.lookup_empty]
  cases hlookup : state.users.lookup userId with
  | none => rfl
  | some members =>
    obtain ⟨sessionId, hmem⟩ : members.Nonempty := by
      rw [Finset.nonempty_iff_ne_empty]
      rintro rfl
      exact h.usersPruned userId hlookup
    have hmembers : sessionId ∈ state.users.members userId := by
      rw [SetMap.members, hlookup]
      exact hmem
    obtain ⟨session, hsession, -⟩ := (h.users userId sessionId).1 hmembers
    exact absurd (hsession.symm.trans (hnone sessionId)) (Option.some_ne_none session)

end Hub

end Ws
