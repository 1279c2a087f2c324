import ExchangeServer.Foundation.Machine
import ExchangeServer.Ws.Hub

/-!
# The indexes of the hub

The users and the markets of the hub are indexes of its sessions. Every call
keeps them so, with one exception: `subscribe_markets` adds a session to a market
without asking whether the hub still has the session. A session that was removed
as stale is alive and may subscribe, and its id is then never removed.

## Main definitions

- `Agree`: the indexes are those of the sessions
- `Regular`: calls before which a subscribing session is known
- `indexes_agree`: the runs of regular calls
-/

namespace Ws

/-- The indexes name exactly the sessions and have no empty entries. -/
structure Agree (state : HubState) : Prop where
  users : ∀ userId sessionId, sessionId ∈ state.users.members userId ↔
    ∃ session, state.sessions.lookup sessionId = some session ∧ session.userId = userId
  markets : ∀ marketId sessionId, sessionId ∈ state.markets.members marketId ↔
    ∃ session, state.sessions.lookup sessionId = some session ∧ marketId ∈ session.markets
  usersPruned : state.users.Pruned
  marketsPruned : state.markets.Pruned

theorem agree_empty : Agree .empty where
  users userId sessionId := by
    constructor
    · intro h
      exact absurd h (SetMap.members_empty (V := ℕ) userId ▸ Finset.notMem_empty sessionId)
    · rintro ⟨session, h, -⟩
      exact absurd (h.symm.trans (Finmap.lookup_empty sessionId)) (Option.some_ne_none session)
  markets marketId sessionId := by
    constructor
    · intro h
      exact absurd h (SetMap.members_empty (V := ℕ) marketId ▸ Finset.notMem_empty sessionId)
    · rintro ⟨session, h, -⟩
      exact absurd (h.symm.trans (Finmap.lookup_empty sessionId)) (Option.some_ne_none session)
  usersPruned := SetMap.pruned_empty
  marketsPruned := SetMap.pruned_empty

/-! ## One call -/

section Calls

variable {state : HubState} {sessionId : ℕ} {userId marketId : ℤ}

/-- A new session is known to its user and to no market. -/
theorem Agree.register (h : Agree state) (hnew : state.sessions.lookup sessionId = none) :
    Agree (Ws.register state sessionId userId) where
  users userId' other := by
    rw [Ws.register, SetMap.mem_members_add, h.users]
    by_cases heq : other = sessionId
    · rw [heq, Finmap.lookup_insert, hnew]
      simp only [and_true, Option.some.injEq, exists_eq_left', reduceCtorEq, false_and, exists_false,
        or_false]
      exact eq_comm
    · rw [Finmap.lookup_insert_of_ne _ heq]
      simp only [heq, and_false, false_or]
  markets marketId other := by
    rw [Ws.register, h.markets]
    by_cases heq : other = sessionId
    · rw [heq, Finmap.lookup_insert, hnew]
      simp only [Option.some.injEq, exists_eq_left', reduceCtorEq, false_and, exists_false,
        Finset.notMem_empty]
    · rw [Finmap.lookup_insert_of_ne _ heq]
  usersPruned := h.usersPruned.add
  marketsPruned := h.marketsPruned

/-- A session that leaves is forgotten by its user and by its markets. -/
theorem Agree.removeSessionLocked (h : Agree state) :
    Agree (Ws.removeSessionLocked state sessionId) := by
  cases hfound : state.sessions.lookup sessionId with
  | none =>
    rw [removeSessionLocked_of_none hfound]
    exact h
  | some session =>
    rw [removeSessionLocked_of_some hfound]
    refine ⟨fun userId other => ?_, fun marketId other => ?_, h.usersPruned.prune,
      h.marketsPruned.pruneAll⟩
    · rw [SetMap.mem_members_prune, h.users]
      by_cases heq : other = sessionId
      · rw [heq, Finmap.lookup_erase, hfound]
        simp only [Option.some.injEq, exists_eq_left', and_true, reduceCtorEq, false_and,
          exists_false, iff_false, not_and, not_not]
        exact fun huser => huser.symm
      · rw [Finmap.lookup_erase_ne heq]
        simp only [heq, and_false, not_false_iff, and_true]
    · rw [SetMap.mem_members_pruneAll, h.markets]
      by_cases heq : other = sessionId
      · rw [heq, Finmap.lookup_erase, hfound]
        simp only [Option.some.injEq, exists_eq_left', and_true, reduceCtorEq, false_and,
          exists_false, iff_false, not_and, not_not, imp_self]
      · rw [Finmap.lookup_erase_ne heq]
        simp only [heq, and_false, not_false_iff, and_true]

theorem Agree.sendToSessionsLocked (h : Agree state) (sessions : Finset ℕ) (refuses : ℕ → Bool) :
    Agree (Ws.sendToSessionsLocked state sessions refuses).1 := by
  have hstale : ∀ (stale : Finset ℕ) {state : HubState}, Agree state →
      Agree (stale.val.foldl Ws.removeSessionLocked state) := by
    intro stale
    induction stale using Finset.induction_on with
    | empty => exact id
    | insert sessionId stale hnew ih =>
      intro state h
      rw [Finset.insert_val_of_notMem hnew, Multiset.foldl_cons]
      exact ih h.removeSessionLocked
  exact hstale _ h

/-- A session that the hub has may subscribe. -/
theorem Agree.subscribeMarket (h : Agree state)
    (hknown : (state.sessions.lookup sessionId).isSome) :
    Agree (Ws.subscribeMarket sessionId state marketId) := by
  obtain ⟨session, hsession⟩ := Option.isSome_iff_exists.1 hknown
  refine ⟨fun userId other => ?_, fun marketId' other => ?_, h.usersPruned, h.marketsPruned.add⟩
  · rw [Ws.subscribeMarket, h.users]
    by_cases heq : other = sessionId
    · rw [heq, lookup_modifySession_self, hsession]
      simp only [Option.map_some, Option.some.injEq, exists_eq_left']
    · rw [lookup_modifySession_of_ne heq]
  · rw [Ws.subscribeMarket, SetMap.mem_members_add, h.markets]
    by_cases heq : other = sessionId
    · rw [heq, lookup_modifySession_self, hsession]
      simp only [Option.map_some, Option.some.injEq, exists_eq_left', and_true, Finset.mem_insert]
    · rw [lookup_modifySession_of_ne heq]
      simp only [heq, and_false, false_or]

/-- Any session may unsubscribe. -/
theorem Agree.unsubscribeMarket (h : Agree state) :
    Agree (Ws.unsubscribeMarket sessionId state marketId) := by
  refine ⟨fun userId other => ?_, fun marketId' other => ?_, h.usersPruned, h.marketsPruned.prune⟩
  · rw [Ws.unsubscribeMarket, h.users]
    by_cases heq : other = sessionId
    · rw [heq, lookup_modifySession_self]
      cases state.sessions.lookup sessionId with
      | none => rfl
      | some session => simp only [Option.map_some, Option.some.injEq, exists_eq_left']
    · rw [lookup_modifySession_of_ne heq]
  · rw [Ws.unsubscribeMarket, SetMap.mem_members_prune, h.markets]
    by_cases heq : other = sessionId
    · rw [heq, lookup_modifySession_self]
      cases state.sessions.lookup sessionId with
      | none => simp only [Option.map_none, reduceCtorEq, false_and, exists_false]
      | some session =>
        simp only [Option.map_some, Option.some.injEq, exists_eq_left', and_true, Finset.mem_erase]
        exact and_comm
    · rw [lookup_modifySession_of_ne heq]
      simp only [heq, and_false, not_false_iff, and_true]

theorem isSome_lookup_subscribeMarket {other : ℕ} :
    ((Ws.subscribeMarket sessionId state marketId).sessions.lookup other).isSome =
      (state.sessions.lookup other).isSome := by
  rw [Ws.subscribeMarket]
  by_cases heq : other = sessionId
  · rw [heq, lookup_modifySession_self, Option.isSome_map]
  · rw [lookup_modifySession_of_ne heq]

theorem Agree.subscribeMarkets (h : Agree state) {markets : List ℤ}
    (hknown : markets = [] ∨ (state.sessions.lookup sessionId).isSome) :
    Agree (Ws.subscribeMarkets state sessionId markets) := by
  induction markets generalizing state with
  | nil => exact h
  | cons marketId markets ih =>
    have hsome : (state.sessions.lookup sessionId).isSome :=
      hknown.resolve_left (List.cons_ne_nil marketId markets)
    exact ih (h.subscribeMarket hsome) (.inr (isSome_lookup_subscribeMarket.trans hsome))

theorem Agree.unsubscribeMarkets (h : Agree state) (markets : List ℤ) :
    Agree (Ws.unsubscribeMarkets state sessionId markets) := by
  induction markets generalizing state with
  | nil => exact h
  | cons marketId markets ih => exact ih h.unsubscribeMarket

end Calls

/-! ## Sessions do not come back -/

section Ids

variable {state : HubState} {sessionId other : ℕ}

theorem lookup_removeSessionLocked_none (h : state.sessions.lookup other = none) :
    (Ws.removeSessionLocked state sessionId).sessions.lookup other = none := by
  by_cases heq : other = sessionId
  · rw [heq]
    exact lookup_removeSessionLocked_self
  · rw [lookup_removeSessionLocked_of_ne heq]
    exact h

theorem lookup_foldl_removeSessionLocked (stale : Finset ℕ)
    (h : state.sessions.lookup other = none) :
    (stale.val.foldl Ws.removeSessionLocked state).sessions.lookup other = none := by
  induction stale using Finset.induction_on generalizing state with
  | empty => exact h
  | insert sessionId stale hnew ih =>
    rw [Finset.insert_val_of_notMem hnew, Multiset.foldl_cons]
    exact ih (lookup_removeSessionLocked_none h)

theorem lookup_modifySession_none {f : Finset ℤ → Finset ℤ}
    (h : state.sessions.lookup other = none) :
    (modifySession state sessionId f).lookup other = none := by
  by_cases heq : other = sessionId
  · rw [heq, lookup_modifySession_self, ← heq, h]
    rfl
  · rw [lookup_modifySession_of_ne heq]
    exact h

theorem lookup_subscribeMarkets_none (markets : List ℤ)
    (h : state.sessions.lookup other = none) :
    (Ws.subscribeMarkets state sessionId markets).sessions.lookup other = none := by
  induction markets generalizing state with
  | nil => exact h
  | cons marketId markets ih => exact ih (lookup_modifySession_none h)

theorem lookup_unsubscribeMarkets_none (markets : List ℤ)
    (h : state.sessions.lookup other = none) :
    (Ws.unsubscribeMarkets state sessionId markets).sessions.lookup other = none := by
  induction markets generalizing state with
  | nil => exact h
  | cons marketId markets ih => exact ih (lookup_modifySession_none h)

end Ids

/-! ## Runs -/

/-- The indexes agree, and the ids of sessions are those that were handed out. -/
structure Sound (hub : Hub) : Prop where
  agree : Agree hub.inner
  below : ∀ sessionId, sessionId ∈ hub.taken ∨ sessionId ∈ hub.returned →
    sessionId < hub.nextSessionId
  apart : ∀ sessionId ∈ hub.taken, sessionId ∉ hub.returned
  known : ∀ sessionId, sessionId ∉ hub.returned → hub.inner.sessions.lookup sessionId = none

/-- A session that subscribes to some market is known to the hub; and the counter
of session ids has not come to its end. -/
def Regular (hub : Hub) : HubCall → Prop
  | .takeSessionId => hub.nextSessionId + 1 < sessionIdEnd
  | .subscribeMarkets sessionId markets =>
    markets = [] ∨ (hub.inner.sessions.lookup sessionId).isSome
  | _ => True

instance (hub : Hub) : (call : HubCall) → Decidable (Regular hub call)
  | .takeSessionId => inferInstanceAs (Decidable (_ < _))
  | .subscribeMarkets .. => inferInstanceAs (Decidable (_ ∨ _))
  | .register .. => isTrue trivial
  | .unregister .. => isTrue trivial
  | .unsubscribeMarkets .. => isTrue trivial
  | .broadcastAccount .. => isTrue trivial
  | .broadcastMarket .. => isTrue trivial

/-- The session was registered and has left. -/
def Gone (sessionId : ℕ) (hub : Hub) : Prop :=
  sessionId ∈ hub.returned ∧ hub.inner.sessions.lookup sessionId = none

theorem sound_new : Sound .new where
  agree := agree_empty
  below sessionId h := absurd h (by
    rintro (h | h)
    · exact Finset.notMem_empty sessionId h
    · exact Finset.notMem_empty sessionId h)
  apart sessionId h := absurd h (Finset.notMem_empty sessionId)
  known sessionId _ := Finmap.lookup_empty sessionId

section Steps

variable {hub hub' : Hub} {sessionId : ℕ}

/-- A call that neither hands out nor returns an id. -/
theorem Sound.of_inner {inner : HubState} (h : Sound hub) (hagree : Agree inner)
    (hnone : ∀ other, hub.inner.sessions.lookup other = none → inner.sessions.lookup other = none) :
    Sound { hub with inner := inner } where
  agree := hagree
  below := h.below
  apart := h.apart
  known other hother := hnone other (h.known other hother)

theorem Sound.takeSessionId (h : Sound hub) (hend : hub.nextSessionId + 1 < sessionIdEnd) :
    Sound { hub with
      nextSessionId := (hub.nextSessionId + 1) % sessionIdEnd
      taken := insert hub.nextSessionId hub.taken } where
  agree := h.agree
  below sessionId hsessionId := by
    rw [Nat.mod_eq_of_lt hend, Nat.lt_succ_iff]
    rcases hsessionId with hsessionId | hsessionId
    · rcases Finset.mem_insert.1 hsessionId with rfl | hsessionId
      · exact le_rfl
      · exact (h.below sessionId (.inl hsessionId)).le
    · exact (h.below sessionId (.inr hsessionId)).le
  apart sessionId hsessionId hreturned := by
    rcases Finset.mem_insert.1 hsessionId with rfl | hsessionId
    · exact absurd (h.below hub.nextSessionId (.inr hreturned)) (lt_irrefl _)
    · exact h.apart sessionId hsessionId hreturned
  known := h.known

theorem Sound.register {userId : ℤ} (h : Sound hub) (htaken : sessionId ∈ hub.taken) :
    Sound { hub with
      inner := Ws.register hub.inner sessionId userId
      taken := hub.taken.erase sessionId
      returned := insert sessionId hub.returned } where
  agree := h.agree.register (h.known sessionId (h.apart sessionId htaken))
  below other hother := by
    rcases hother with hother | hother
    · exact h.below other (.inl (Finset.mem_of_mem_erase hother))
    · rcases Finset.mem_insert.1 hother with rfl | hother
      · exact h.below other (.inl htaken)
      · exact h.below other (.inr hother)
  apart other hother hreturned := by
    rcases Finset.mem_insert.1 hreturned with rfl | hreturned
    · exact Finset.notMem_erase other hub.taken hother
    · exact h.apart other (Finset.mem_of_mem_erase hother) hreturned
  known other hother := by
    have hne : other ≠ sessionId := fun heq => hother (heq ▸ Finset.mem_insert_self ..)
    have hold : other ∉ hub.returned := fun hmem => hother (Finset.mem_insert_of_mem hmem)
    exact (Finmap.lookup_insert_of_ne _ hne).trans (h.known other hold)

/-- Every regular call keeps the hub sound, and a session that has left stays away. -/
theorem Sound.call (h : Sound hub) {call : HubCall} (hregular : Regular hub call)
    (hcall : hub.call call = some hub') :
    Sound hub' ∧ ∀ sessionId, Gone sessionId hub → Gone sessionId hub' := by
  have hinner : ∀ {inner : HubState}, Agree inner →
      (∀ other, hub.inner.sessions.lookup other = none → inner.sessions.lookup other = none) →
      some { hub with inner := inner } = some hub' →
        Sound hub' ∧ ∀ sessionId, Gone sessionId hub → Gone sessionId hub' := by
    intro inner hagree hnone heq
    obtain rfl := Option.some.inj heq
    exact ⟨h.of_inner hagree hnone, fun other hgone => ⟨hgone.1, hnone other hgone.2⟩⟩
  cases call with
  | takeSessionId =>
    obtain rfl := Option.some.inj hcall
    exact ⟨h.takeSessionId hregular, fun _ hgone => hgone⟩
  | register sessionId userId =>
    obtain ⟨htaken, heq⟩ := Option.ite_none_right_eq_some.1 hcall
    obtain rfl := Option.some.inj heq
    refine ⟨h.register htaken, fun other hgone => ⟨Finset.mem_insert_of_mem hgone.1, ?_⟩⟩
    have hne : other ≠ sessionId := fun heq => h.apart sessionId htaken (heq ▸ hgone.1)
    exact (Finmap.lookup_insert_of_ne _ hne).trans hgone.2
  | unregister sessionId =>
    obtain ⟨-, heq⟩ := Option.ite_none_right_eq_some.1 hcall
    exact hinner h.agree.removeSessionLocked (fun _ => lookup_removeSessionLocked_none) heq
  | subscribeMarkets sessionId markets =>
    obtain ⟨-, heq⟩ := Option.ite_none_right_eq_some.1 hcall
    exact hinner (h.agree.subscribeMarkets hregular)
      (fun _ => lookup_subscribeMarkets_none markets) heq
  | unsubscribeMarkets sessionId markets =>
    obtain ⟨-, heq⟩ := Option.ite_none_right_eq_some.1 hcall
    exact hinner (h.agree.unsubscribeMarkets markets)
      (fun _ => lookup_unsubscribeMarkets_none markets) heq
  | broadcastAccount userId refuses =>
    exact hinner (h.agree.sendToSessionsLocked _ refuses)
      (fun _ => lookup_foldl_removeSessionLocked _) hcall
  | broadcastMarket marketId refuses =>
    exact hinner (h.agree.sendToSessionsLocked _ refuses)
      (fun _ => lookup_foldl_removeSessionLocked _) hcall

end Steps

open Machine

/-- In a run of regular calls the indexes agree with the sessions after every
call, and none of them names a session again that has left. -/
theorem indexes_agree {calls : List HubCall} {hub : Hub} (hrun : run Hub.call .new calls = some hub)
    (hregular : Along Hub.call Regular .new calls) :
    Agree hub.inner ∧ ∀ sessionId, Gone sessionId hub → ∀ later hub',
      run Hub.call hub later = some hub' → Along Hub.call Regular hub later →
        (∀ userId, sessionId ∉ hub'.inner.users.members userId) ∧
          ∀ marketId, sessionId ∉ hub'.inner.markets.members marketId := by
  have hsound : Sound hub :=
    inv_of_along (fun h hregular hcall => (h.call hregular hcall).1) hregular hrun sound_new
  refine ⟨hsound.agree, fun sessionId hgone later hub' hlater hregular' => ?_⟩
  have hboth : Sound hub' ∧ Gone sessionId hub' :=
    inv_of_along (I := fun hub => Sound hub ∧ Gone sessionId hub)
      (fun h hregular hcall =>
        have hnext := h.1.call hregular hcall
        ⟨hnext.1, hnext.2 sessionId h.2⟩)
      hregular' hlater ⟨hsound, hgone⟩
  obtain ⟨hsound', -, hnone⟩ := hboth
  refine ⟨fun userId hmem => ?_, fun marketId hmem => ?_⟩
  · obtain ⟨session, hsession, -⟩ := (hsound'.agree.users userId sessionId).1 hmem
    exact absurd (hsession.symm.trans hnone) (Option.some_ne_none session)
  · obtain ⟨session, hsession, -⟩ := (hsound'.agree.markets marketId sessionId).1 hmem
    exact absurd (hsession.symm.trans hnone) (Option.some_ne_none session)

/-- A session subscribes and is then found full. -/
def staleCalls : List HubCall :=
  [.takeSessionId, .register 1 42, .subscribeMarkets 1 [7], .broadcastAccount 42 fun _ => true]

theorem indexes_agree_stale : ∃ hub, run Hub.call .new staleCalls = some hub ∧ Agree hub.inner := by
  have hsome : (run Hub.call .new staleCalls).isSome := by decide
  obtain ⟨hub, hrun⟩ := Option.isSome_iff_exists.1 hsome
  have hregular : Along Hub.call Regular .new staleCalls := by decide
  exact ⟨hub, hrun, (indexes_agree hrun hregular).1⟩

/-- A session that was removed as stale subscribes: the market names it for ever. -/
theorem stale_session_subscribes :
    ¬ ∀ calls hub, run Hub.call .new calls = some hub → Agree hub.inner := by
  intro hclaim
  have hstale : ∃ hub, run Hub.call .new [.takeSessionId, .register 1 42,
      .broadcastAccount 42 (fun _ => true), .subscribeMarkets 1 [7]] = some hub ∧
        1 ∈ hub.inner.markets.members 7 ∧ hub.inner.sessions.lookup 1 = none := by
    refine ⟨_, rfl, ?_, ?_⟩
    · decide
    · decide
  obtain ⟨hub, hrun, hmem, hnone⟩ := hstale
  obtain ⟨session, hsession, -⟩ := ((hclaim _ hub hrun).markets 7 1).1 hmem
  exact absurd (hsession.symm.trans hnone) (Option.some_ne_none session)

end Ws
