import Mathlib.Data.List.Perm.Basic
import ExchangeServer.Ws.KnownSessions

/-!
# What the sessions and the hub know of each other

In every run of the service the hub knows only sessions whose actors run or that wait to
be unregistered, each as its actor has asked, and every call of an actor names a session
that `register` has returned.

## Main definitions

- `WsSession.Own`: what a session keeps about itself
- `Service.Sound`: the invariant of the service

## Main results

- `Service.Sound.step`: every step keeps it
- `hub_keeps_live_sessions`: what the hub knows after any run
-/

namespace Ws

open Machine Service

/-! ## One session -/

/-- The future is that of the registration. -/
def Task.registers {Id : Type} : Task Id → Bool
  | .register | .registering _ => true
  | _ => false

/-- The id that a future to change markets has been given. -/
def Task.names {Id : Type} : Task Id → Option Id
  | .subscribe sessionId _ | .unsubscribe sessionId _ => some sessionId
  | _ => none

namespace WsSession

variable {Id : Type}

/-- A session registers once and then goes by its id. -/
structure Own (session : WsSession Id) : Prop where
  single : session.tasks.countP Task.registers + session.sessionId.toList.length ≤ 1
  named : ∀ task ∈ session.tasks, ∀ sessionId, task.names = some sessionId →
    session.sessionId = some sessionId

/-- The session goes on under its id, and does not begin another registration. -/
structure Continues (session session' : WsSession Id) : Prop where
  sessionId : session'.sessionId = session.sessionId
  claim : session'.claim = session.claim
  running : session'.running = session.running
  register : .register ∈ session'.tasks → .register ∈ session.tasks
  registering : ∀ sessionId, .registering sessionId ∈ session'.tasks →
    .registering sessionId ∈ session.tasks
  own : session.Own → session'.Own

section Own

variable {session session' : WsSession Id} {i : ℕ}

theorem own_started (claim : Claim) : (started claim : WsSession Id).Own where
  single := le_rfl
  named task htask sessionId hnames := by
    cases List.mem_singleton.1 htask
    cases hnames

theorem Own.unnamed (h : session.Own) {task : Task Id} (htask : task ∈ session.tasks)
    (hregisters : task.registers) : session.sessionId = none := by
  have hpos : 0 < session.tasks.countP Task.registers := List.countP_pos_iff.2 ⟨task, htask, hregisters⟩
  have hsingle := h.single
  cases hid : session.sessionId with
  | none => rfl
  | some sessionId =>
    rw [hid, Option.toList_some, List.length_singleton] at hsingle
    omega

/-- There is only one future of a registration. -/
theorem Own.eq_of_registers (h : session.Own) {task task' : Task Id} (htask : task ∈ session.tasks)
    (htask' : task' ∈ session.tasks) (hregisters : task.registers) (hregisters' : task'.registers) :
    task = task' := by
  have hlength : (session.tasks.filter Task.registers).length ≤ 1 := by
    rw [← List.countP_eq_length_filter]
    exact (Nat.le_add_right _ _).trans h.single
  have hmem := List.mem_filter.2 ⟨htask, hregisters⟩
  have hmem' := List.mem_filter.2 ⟨htask', hregisters'⟩
  obtain ⟨only, honly⟩ := List.length_eq_one_iff.1
    (le_antisymm hlength (List.length_pos_of_mem hmem))
  rw [honly] at hmem hmem'
  exact (List.mem_singleton.1 hmem).trans (List.mem_singleton.1 hmem').symm

theorem continues_of_tasks (htasks : session'.tasks.Sublist session.tasks)
    (hsessionId : session'.sessionId = session.sessionId) (hclaim : session'.claim = session.claim)
    (hrunning : session'.running = session.running) : session.Continues session' where
  sessionId := hsessionId
  claim := hclaim
  running := hrunning
  register hmem := htasks.subset hmem
  registering sessionId hmem := htasks.subset hmem
  own h := {
    single := by
      rw [hsessionId]
      exact (Nat.add_le_add_right htasks.countP_le _).trans h.single
    named task htask sessionId hnames := by
      rw [hsessionId]
      exact h.named task (htasks.subset htask) sessionId hnames }

theorem continues_sendServerMessage (text : ClientText) :
    session.Continues (session.sendServerMessage text) :=
  continues_of_tasks (List.Sublist.refl _) rfl rfl rfl

theorem continues_request (markets : List ℤ) (task : Id → List ℤ → Task Id)
    (hnames : ∀ sessionId markets, (task sessionId markets).names = some sessionId)
    (hregisters : ∀ sessionId markets, (task sessionId markets).registers = false) :
    session.Continues (session.request markets task) := by
  rw [request]
  cases hid : session.sessionId with
  | none => exact continues_sendServerMessage _
  | some sessionId =>
    dsimp only
    cases normalizeMarkets markets with
    | error message => exact continues_sendServerMessage _
    | ok markets =>
      have hnot : ∀ other, .registering other ≠ task sessionId markets := by
        intro other heq
        have hfalse := hregisters sessionId markets
        rw [← heq] at hfalse
        cases hfalse
      have hnone : .register ≠ task sessionId markets := by
        intro heq
        have hfalse := hregisters sessionId markets
        rw [← heq] at hfalse
        cases hfalse
      refine ⟨rfl, rfl, rfl, fun hmem => ?_, fun other hmem => ?_,
        fun h => ⟨?_, fun other hother id hid' => ?_⟩⟩
      · rcases List.mem_append.1 hmem with hmem | hmem
        · exact hmem
        · exact absurd (List.mem_singleton.1 hmem) hnone
      · rcases List.mem_append.1 hmem with hmem | hmem
        · exact hmem
        · exact absurd (List.mem_singleton.1 hmem) (hnot other)
      · change (session.tasks ++ [task sessionId markets]).countP _ + _ ≤ 1
        rw [List.countP_append, List.countP_singleton, hregisters]
        exact h.single
      · rcases List.mem_append.1 hother with hother | hother
        · exact h.named other hother id hid'
        · rw [List.mem_singleton.1 hother, hnames] at hid'
          exact hid.trans hid'

theorem continues_handleFrame (frame : Frame) : session.Continues (session.handleFrame frame) := by
  cases frame with
  | text json =>
    rw [handleFrame, handleText]
    cases json.bind ClientMessage.decode with
    | none => exact continues_sendServerMessage _
    | some message =>
      cases message with
      | subscribe payload =>
        exact continues_request _ _ (fun _ _ => rfl) fun _ _ => rfl
      | unsubscribe payload =>
        exact continues_request _ _ (fun _ _ => rfl) fun _ _ => rfl
      | ping payload => exact continues_sendServerMessage _
  | binary | continuation => exact continues_sendServerMessage _

theorem continues_handlePush (h : session.handlePush = some session') :
    session.Continues session' := by
  rw [handlePush] at h
  split at h
  · cases h
  · cases h
    exact continues_of_tasks (List.Sublist.refl _) rfl rfl rfl

theorem continues_finish (i : ℕ) (text : ClientText) : session.Continues (session.finish i text) :=
  continues_of_tasks (List.eraseIdx_sublist ..) rfl rfl rfl

theorem continues_pushed (message : ServerMessage) : session.Continues (session.pushed message) :=
  continues_of_tasks (List.Sublist.refl _) rfl rfl rfl

theorem continues_refl : session.Continues session :=
  continues_of_tasks (List.Sublist.refl _) rfl rfl rfl

theorem Own.takesId (h : session.Own) (htask : session.tasks[i]? = some .register)
    (sessionId : Id) : (session.takesId i sessionId).Own where
  single := by
    obtain ⟨hi, hregister⟩ := List.getElem?_eq_some_iff.1 htask
    change (session.tasks.set i (.registering sessionId)).countP _ + _ ≤ 1
    rw [List.countP_set hi, hregister]
    have hpos : 0 < session.tasks.countP Task.registers :=
      List.countP_pos_iff.2 ⟨.register, List.mem_of_getElem? htask, rfl⟩
    have hsingle := h.single
    change _ - 1 + 1 + _ ≤ 1
    rw [Nat.sub_add_cancel hpos]
    exact hsingle
  named task hmem id hnames := by
    rcases List.mem_or_eq_of_mem_set hmem with hmem | rfl
    · exact h.named task hmem id hnames
    · cases hnames

theorem Own.registered {sessionId : Id} (h : session.Own)
    (htask : session.tasks[i]? = some (.registering sessionId)) :
    (session.registered i sessionId).Own := by
  have hmem : .registering sessionId ∈ session.tasks := List.mem_of_getElem? htask
  have hnone : session.sessionId = none := h.unnamed hmem rfl
  refine ⟨?_, fun task htask' id hnames => ?_⟩
  · obtain ⟨hi, hregistering⟩ := List.getElem?_eq_some_iff.1 htask
    have hcount := (List.getElem_cons_eraseIdx_perm hi).countP_eq Task.registers
    rw [hregistering, List.countP_cons_of_pos rfl] at hcount
    have hsingle := h.single
    change (session.tasks.eraseIdx i).countP _ + 1 ≤ 1
    omega
  · have hnamed := h.named task (List.mem_of_mem_eraseIdx htask') id hnames
    rw [hnone] at hnamed
    cases hnamed

/-- After its registration a session has no other to come. -/
theorem Own.not_registering {sessionId other : Id} (h : session.Own)
    (htask : session.tasks[i]? = some (.registering sessionId)) :
    .registering other ∉ (session.registered i sessionId).tasks := by
  intro hmem
  have hnone := (h.registered htask).unnamed hmem rfl
  cases hnone

end Own

end WsSession

/-! ## The service -/

def ServiceAction.connects : ServiceAction → Bool
  | .connect .. => true
  | _ => false

/-- The number of connections of a run. -/
def connections (actions : List ServiceAction) : ℕ := actions.countP ServiceAction.connects

namespace Service

structure Sound (σ : Service) : Prop where
  agree : AgreeKnown σ.hub.inner
  heard : ∀ marketId, ∀ sessionId ∈ σ.hub.inner.markets.members marketId, sessionId ∈ σ.hub.returned
  below : ∀ sessionId, sessionId ∈ σ.hub.taken ∨ sessionId ∈ σ.hub.returned →
    sessionId < σ.hub.nextSessionId
  apart : ∀ sessionId ∈ σ.hub.taken, sessionId ∉ σ.hub.returned
  recipient : ∀ sessionId connection, σ.recipients sessionId = some connection ↔
    ∃ session, σ.sessions connection = some session ∧ session.sessionId = some sessionId
  registered : ∀ connection session sessionId, σ.sessions connection = some session →
    session.sessionId = some sessionId → sessionId ∈ σ.hub.returned ∧
      ∀ handle, σ.hub.inner.sessions.lookup sessionId = some handle →
        handle.userId = session.claim.userid
  live : ∀ sessionId handle, σ.hub.inner.sessions.lookup sessionId = some handle →
    sessionId ∈ σ.leaving ∨ ∃ connection session, σ.sessions connection = some session ∧
      session.sessionId = some sessionId ∧ session.running
  own : ∀ connection session, σ.sessions connection = some session → session.Own
  registering : ∀ connection session sessionId, σ.sessions connection = some session →
    .registering sessionId ∈ session.tasks → sessionId ∈ σ.hub.taken
  alone : ∀ connection connection' session session' sessionId, σ.sessions connection = some session →
    σ.sessions connection' = some session' → .registering sessionId ∈ session.tasks →
      .registering sessionId ∈ session'.tasks → connection = connection'
  left : ∀ sessionId ∈ σ.leaving, sessionId ∈ σ.hub.returned ∧
    ∀ connection session, σ.sessions connection = some session →
      session.sessionId = some sessionId → session.running = false

section Sound

variable {σ : Service} {connection connection' : ℕ} {session session' : WsSession ℕ}
  {sessionId : ℕ}

theorem sound_new : Sound .new where
  agree := agreeKnown_empty
  heard marketId sessionId hmem := by
    have hnone : sessionId ∉ SetMap.members (∅ : SetMap ℤ ℕ) marketId := by
      rw [SetMap.members_empty]
      exact Finset.notMem_empty sessionId
    exact absurd hmem hnone
  below sessionId h := by
    rcases h with h | h
    · exact absurd h (Finset.notMem_empty sessionId)
    · exact absurd h (Finset.notMem_empty sessionId)
  apart sessionId h := absurd h (Finset.notMem_empty sessionId)
  recipient sessionId connection := by
    constructor
    · intro h
      cases h
    · rintro ⟨session, h, -⟩
      cases h
  registered _ _ _ h := by cases h
  live sessionId handle h :=
    absurd (h.symm.trans (Finmap.lookup_empty sessionId)) (Option.some_ne_none handle)
  own _ _ h := by cases h
  registering _ _ _ h := by cases h
  alone _ _ _ _ _ h := by cases h
  left _ h := absurd h List.not_mem_nil

/-- No two connections have one id. -/
theorem Sound.unique (h : σ.Sound) (hsession : σ.sessions connection = some session)
    (hsession' : σ.sessions connection' = some session') (hid : session.sessionId = some sessionId)
    (hid' : session'.sessionId = some sessionId) : connection = connection' := by
  have hrecipient := (h.recipient sessionId connection).2 ⟨session, hsession, hid⟩
  have hrecipient' := (h.recipient sessionId connection').2 ⟨session', hsession', hid'⟩
  exact Option.some.inj (hrecipient.symm.trans hrecipient')

/-- The sessions go on, and the hub learns of no other session and no other user. -/
structure Continues (σ σ' : Service) : Prop where
  agree : AgreeKnown σ'.hub.inner
  heard : ∀ marketId, ∀ sessionId ∈ σ'.hub.inner.markets.members marketId,
    sessionId ∈ σ.hub.returned
  known : ∀ sessionId handle', σ'.hub.inner.sessions.lookup sessionId = some handle' →
    ∃ handle, σ.hub.inner.sessions.lookup sessionId = some handle ∧ handle'.userId = handle.userId
  hub : σ'.hub = { σ.hub with inner := σ'.hub.inner }
  recipients : σ'.recipients = σ.recipients
  sessions : ∀ connection, Option.Rel WsSession.Continues (σ.sessions connection)
    (σ'.sessions connection)
  left : σ'.leaving ⊆ σ.leaving
  leaves : ∀ sessionId ∈ σ.leaving, (σ'.hub.inner.sessions.lookup sessionId).isSome →
    sessionId ∈ σ'.leaving

variable {σ' : Service}

theorem Continues.forward (h : σ.Continues σ') (hsession : σ.sessions connection = some session) :
    ∃ session', σ'.sessions connection = some session' ∧ session.Continues session' := by
  have hrel := h.sessions connection
  rw [hsession] at hrel
  cases hsome : σ'.sessions connection with
  | none =>
    rw [hsome] at hrel
    cases hrel
  | some session' =>
    rw [hsome] at hrel
    exact ⟨session', rfl, Option.rel_some_some.1 hrel⟩

theorem Continues.back (h : σ.Continues σ') (hsession' : σ'.sessions connection = some session') :
    ∃ session, σ.sessions connection = some session ∧ session.Continues session' := by
  have hrel := h.sessions connection
  rw [hsession'] at hrel
  cases hsome : σ.sessions connection with
  | none =>
    rw [hsome] at hrel
    cases hrel
  | some session =>
    rw [hsome] at hrel
    exact ⟨session, rfl, Option.rel_some_some.1 hrel⟩

theorem Sound.continues (h : σ.Sound) (hcontinues : σ.Continues σ') : σ'.Sound where
  agree := hcontinues.agree
  heard := by
    rw [hcontinues.hub]
    exact hcontinues.heard
  below := by
    rw [hcontinues.hub]
    exact h.below
  apart := by
    rw [hcontinues.hub]
    exact h.apart
  recipient sessionId connection := by
    rw [hcontinues.recipients, h.recipient]
    constructor
    · rintro ⟨session, hsession, hid⟩
      obtain ⟨session', hsession', hgoes⟩ := hcontinues.forward hsession
      exact ⟨session', hsession', hgoes.sessionId.trans hid⟩
    · rintro ⟨session', hsession', hid⟩
      obtain ⟨session, hsession, hgoes⟩ := hcontinues.back hsession'
      exact ⟨session, hsession, hgoes.sessionId.symm.trans hid⟩
  registered connection session' sessionId hsession' hid := by
    obtain ⟨session, hsession, hgoes⟩ := hcontinues.back hsession'
    obtain ⟨hreturned, huser⟩ := h.registered connection session sessionId hsession
      (hgoes.sessionId.symm.trans hid)
    refine ⟨by rwa [hcontinues.hub], fun handle' hhandle' => ?_⟩
    obtain ⟨handle, hhandle, hsame⟩ := hcontinues.known sessionId handle' hhandle'
    rw [hsame, hgoes.claim]
    exact huser handle hhandle
  live sessionId handle' hhandle' := by
    obtain ⟨handle, hhandle, -⟩ := hcontinues.known sessionId handle' hhandle'
    rcases h.live sessionId handle hhandle with hleaving | ⟨connection, session, hsession, hid, hrunning⟩
    · exact .inl (hcontinues.leaves sessionId hleaving (Option.isSome_iff_exists.2 ⟨_, hhandle'⟩))
    · obtain ⟨session', hsession', hgoes⟩ := hcontinues.forward hsession
      exact .inr ⟨connection, session', hsession', hgoes.sessionId.trans hid,
        hgoes.running.trans hrunning⟩
  own connection session' hsession' := by
    obtain ⟨session, hsession, hgoes⟩ := hcontinues.back hsession'
    exact hgoes.own (h.own connection session hsession)
  registering connection session' sessionId hsession' hmem := by
    obtain ⟨session, hsession, hgoes⟩ := hcontinues.back hsession'
    rw [hcontinues.hub]
    exact h.registering connection session sessionId hsession (hgoes.registering sessionId hmem)
  alone connection connection' session session' sessionId hsession hsession' hmem hmem' := by
    obtain ⟨old, hold, hgoes⟩ := hcontinues.back hsession
    obtain ⟨old', hold', hgoes'⟩ := hcontinues.back hsession'
    exact h.alone connection connection' old old' sessionId hold hold'
      (hgoes.registering sessionId hmem) (hgoes'.registering sessionId hmem')
  left sessionId hleaving := by
    obtain ⟨hreturned, hstopped⟩ := h.left sessionId (hcontinues.left hleaving)
    refine ⟨by rwa [hcontinues.hub], fun connection session' hsession' hid => ?_⟩
    obtain ⟨session, hsession, hgoes⟩ := hcontinues.back hsession'
    rw [hgoes.running]
    exact hstopped connection session hsession (hgoes.sessionId.symm.trans hid)

/-! ### Steps that go on -/

theorem rel_put (hsession : σ.sessions connection = some session)
    (hgoes : session.Continues session') (other : ℕ) :
    Option.Rel WsSession.Continues (σ.sessions other)
      (Function.update σ.sessions connection (some session') other) := by
  by_cases heq : other = connection
  · subst heq
    rw [Function.update_self, hsession]
    exact .some hgoes
  · rw [Function.update_of_ne heq]
    cases σ.sessions other with
    | none => exact .none
    | some session => exact .some WsSession.continues_refl

theorem rel_refl (other : ℕ) :
    Option.Rel WsSession.Continues (σ.sessions other) (σ.sessions other) := by
  cases σ.sessions other with
  | none => exact .none
  | some session => exact .some WsSession.continues_refl

/-- A step of a session that does not call the hub. -/
theorem Sound.continues_put (h : σ.Sound) (hsession : σ.sessions connection = some session)
    (hgoes : session.Continues session') : σ.Continues (σ.put connection session') where
  agree := h.agree
  heard := h.heard
  known _ handle hhandle := ⟨handle, hhandle, rfl⟩
  hub := rfl
  recipients := rfl
  sessions := rel_put hsession hgoes
  left := List.Subset.refl _
  leaves _ hleaving _ := hleaving

/-- A future that changes the markets of its session ends. -/
theorem Sound.continues_subscribed (h : σ.Sound) (hsession : σ.sessions connection = some session)
    (hgoes : session.Continues session') (hid : session.sessionId = some sessionId)
    (markets : List ℤ) :
    σ.Continues ({ σ with
      hub := { σ.hub with inner := subscribeMarkets σ.hub.inner sessionId markets } }.put
        connection session') where
  agree := h.agree.subscribeMarkets markets
  heard marketId other hmem := by
    rcases (mem_markets_subscribeMarkets markets).1 hmem with ⟨rfl, -⟩ | hmem
    · exact (h.registered connection session other hsession hid).1
    · exact h.heard marketId other hmem
  known other handle' hhandle' := by
    change (subscribeMarkets σ.hub.inner sessionId markets).sessions.lookup other = _ at hhandle'
    by_cases heq : other = sessionId
    · rw [heq, lookup_subscribeMarkets_self] at hhandle'
      obtain ⟨handle, hhandle, rfl⟩ := Option.map_eq_some_iff.1 hhandle'
      exact ⟨handle, heq ▸ hhandle, rfl⟩
    · rw [lookup_subscribeMarkets_of_ne heq] at hhandle'
      exact ⟨handle', hhandle', rfl⟩
  hub := rfl
  recipients := rfl
  sessions := rel_put hsession hgoes
  left := List.Subset.refl _
  leaves _ hleaving _ := hleaving

theorem Sound.continues_unsubscribed (h : σ.Sound) (hsession : σ.sessions connection = some session)
    (hgoes : session.Continues session') (markets : List ℤ) :
    σ.Continues ({ σ with
      hub := { σ.hub with inner := unsubscribeMarkets σ.hub.inner sessionId markets } }.put
        connection session') where
  agree := h.agree.unsubscribeMarkets markets
  heard marketId other hmem :=
    h.heard marketId other ((mem_markets_unsubscribeMarkets markets).1 hmem).1
  known other handle' hhandle' := by
    change (unsubscribeMarkets σ.hub.inner sessionId markets).sessions.lookup other = _ at hhandle'
    by_cases heq : other = sessionId
    · rw [heq, lookup_unsubscribeMarkets_self] at hhandle'
      obtain ⟨handle, hhandle, rfl⟩ := Option.map_eq_some_iff.1 hhandle'
      exact ⟨handle, heq ▸ hhandle, rfl⟩
    · rw [lookup_unsubscribeMarkets_of_ne heq] at hhandle'
      exact ⟨handle', hhandle', rfl⟩
  hub := rfl
  recipients := rfl
  sessions := rel_put hsession hgoes
  left := List.Subset.refl _
  leaves _ hleaving _ := hleaving

/-- A task of nobody unregisters a session. -/
theorem Sound.continues_unregister (h : σ.Sound) {i : ℕ} (hleaving : σ.leaving[i]? = some sessionId) :
    σ.Continues { σ with
      hub := { σ.hub with inner := removeSessionLocked σ.hub.inner sessionId }
      leaving := σ.leaving.eraseIdx i } where
  agree := h.agree.removeSessionLocked
  heard marketId other hmem := h.heard marketId other (mem_markets_removeSessionLocked hmem)
  known other handle' hhandle' := by
    change (removeSessionLocked σ.hub.inner sessionId).sessions.lookup other = _ at hhandle'
    have hne : other ≠ sessionId := by
      rintro rfl
      rw [lookup_removeSessionLocked_self] at hhandle'
      cases hhandle'
    rw [lookup_removeSessionLocked_of_ne hne] at hhandle'
    exact ⟨handle', hhandle', rfl⟩
  hub := rfl
  recipients := rfl
  sessions := rel_refl
  left := List.eraseIdx_subset
  leaves other hother hknown := by
    obtain ⟨hi, hentry⟩ := List.getElem?_eq_some_iff.1 hleaving
    have hne : other ≠ sessionId := by
      rintro rfl
      rw [lookup_removeSessionLocked_self] at hknown
      cases hknown
    have hperm := (List.getElem_cons_eraseIdx_perm hi).mem_iff.2 hother
    rw [hentry] at hperm
    exact (List.mem_cons.1 hperm).resolve_left hne

theorem Sound.continues_send (h : σ.Sound) (broadcast : Broadcast) (refuses : ℕ → Bool)
    (routing : Routing) : σ.Continues { σ.send broadcast refuses with routing := routing } where
  agree := h.agree.broadcast broadcast.target (σ.refusesId refuses)
  heard marketId other hmem := h.heard marketId other (mem_markets_broadcast _ _ hmem)
  known other handle' hhandle' := by
    change (σ.hub.inner.broadcast broadcast.target (σ.refusesId refuses)).1.sessions.lookup other = _
      at hhandle'
    rw [broadcast_eq, lookup_sendToSessionsLocked] at hhandle'
    obtain ⟨-, hhandle⟩ := Option.ite_none_left_eq_some.1 hhandle'
    exact ⟨handle', hhandle, rfl⟩
  hub := rfl
  recipients := rfl
  sessions other := by
    change Option.Rel _ _ (σ.deliver _ _ other)
    rw [deliver]
    cases σ.sessions other with
    | none => exact .none
    | some session =>
      rw [Option.map_some]
      split
      · exact .some (WsSession.continues_pushed _)
      · exact .some WsSession.continues_refl
  left := List.Subset.refl _
  leaves _ hleaving _ := hleaving

theorem Sound.continues_routing (h : σ.Sound) (routing : Routing) :
    σ.Continues { σ with routing := routing } where
  agree := h.agree
  heard := h.heard
  known _ handle hhandle := ⟨handle, hhandle, rfl⟩
  hub := rfl
  recipients := rfl
  sessions := rel_refl
  left := List.Subset.refl _
  leaves _ hleaving _ := hleaving

/-! ### Steps that begin and end -/

/-- Another session of the service, or the one that has been put. -/
theorem sessions_put_cases (h : Function.update σ.sessions connection (some session) connection' =
    some session') :
    (connection' = connection ∧ session' = session) ∨
      (connection' ≠ connection ∧ σ.sessions connection' = some session') := by
  by_cases heq : connection' = connection
  · rw [heq, Function.update_self] at h
    exact .inl ⟨heq, (Option.some.inj h).symm⟩
  · rw [Function.update_of_ne heq] at h
    exact .inr ⟨heq, h⟩

theorem Sound.connect (h : σ.Sound) (hnew : σ.sessions connection = none) (claim : Claim) :
    (σ.put connection (.started claim)).Sound := by
  have hold : ∀ {connection' session}, σ.sessions connection' = some session →
      (σ.put connection (.started claim)).sessions connection' = some session := by
    intro connection' session hsession
    have hne : connection' ≠ connection := by
      rintro rfl
      exact Option.some_ne_none _ (hsession.symm.trans hnew)
    exact (Function.update_of_ne hne ..).trans hsession
  refine { h with
    recipient := fun sessionId other => ?_, registered := ?_, live := ?_, own := ?_
    registering := ?_, alone := ?_, left := ?_ }
  · rw [show (σ.put connection (.started claim)).recipients = σ.recipients from rfl, h.recipient]
    constructor
    · rintro ⟨session, hsession, hid⟩
      exact ⟨session, hold hsession, hid⟩
    · rintro ⟨session, hsession, hid⟩
      rcases sessions_put_cases hsession with ⟨-, rfl⟩ | ⟨-, hsession⟩
      · cases hid
      · exact ⟨session, hsession, hid⟩
  · intro other session sessionId hsession hid
    rcases sessions_put_cases hsession with ⟨-, rfl⟩ | ⟨-, hsession⟩
    · cases hid
    · exact h.registered other session sessionId hsession hid
  · intro sessionId handle hhandle
    rcases h.live sessionId handle hhandle with hleaving | ⟨other, session, hsession, hrest⟩
    · exact .inl hleaving
    · exact .inr ⟨other, session, hold hsession, hrest⟩
  · intro other session hsession
    rcases sessions_put_cases hsession with ⟨-, rfl⟩ | ⟨-, hsession⟩
    · exact WsSession.own_started claim
    · exact h.own other session hsession
  · intro other session sessionId hsession hmem
    rcases sessions_put_cases hsession with ⟨-, rfl⟩ | ⟨-, hsession⟩
    · cases List.mem_singleton.1 hmem
    · exact h.registering other session sessionId hsession hmem
  · intro other other' session session' sessionId hsession hsession' hmem hmem'
    rcases sessions_put_cases hsession with ⟨-, rfl⟩ | ⟨-, hsession⟩
    · cases List.mem_singleton.1 hmem
    · rcases sessions_put_cases hsession' with ⟨-, rfl⟩ | ⟨-, hsession'⟩
      · cases List.mem_singleton.1 hmem'
      · exact h.alone other other' session session' sessionId hsession hsession' hmem hmem'
  · intro sessionId hleaving
    obtain ⟨hreturned, hstopped⟩ := h.left sessionId hleaving
    refine ⟨hreturned, fun other session hsession hid => ?_⟩
    rcases sessions_put_cases hsession with ⟨-, rfl⟩ | ⟨-, hsession⟩
    · cases hid
    · exact hstopped other session hsession hid

/-- The state after a session has taken an id. -/
def afterTake (σ : Service) (connection : ℕ) (session : WsSession ℕ) (i : ℕ) : Service :=
  { σ with hub := { σ.hub with
      nextSessionId := (σ.hub.nextSessionId + 1) % sessionIdEnd
      taken := insert σ.hub.nextSessionId σ.hub.taken } }.put
    connection (session.takesId i σ.hub.nextSessionId)

theorem Sound.takesId (h : σ.Sound) {i : ℕ} (hsession : σ.sessions connection = some session)
    (htask : session.tasks[i]? = some .register) (hend : σ.hub.nextSessionId + 1 < sessionIdEnd) :
    (σ.afterTake connection session i).Sound := by
  have hfresh : ∀ sessionId ∈ σ.hub.taken, sessionId ≠ σ.hub.nextSessionId :=
    fun sessionId hmem => (h.below sessionId (.inl hmem)).ne
  -- Only the session itself has a future with the new id.
  have hregistering : ∀ {other : ℕ} {session' : WsSession ℕ} {sessionId : ℕ},
      (σ.afterTake connection session i).sessions other = some session' →
        .registering sessionId ∈ session'.tasks →
          (other = connection ∧ sessionId = σ.hub.nextSessionId) ∨
            ∃ old, σ.sessions other = some old ∧ .registering sessionId ∈ old.tasks := by
    intro other session' sessionId hsession' hmem
    rcases sessions_put_cases hsession' with ⟨rfl, rfl⟩ | ⟨-, hsession'⟩
    · rcases List.mem_or_eq_of_mem_set hmem with hmem | heq
      · exact .inr ⟨session, hsession, hmem⟩
      · exact .inl ⟨rfl, Task.registering.inj heq⟩
    · exact .inr ⟨session', hsession', hmem⟩
  have hsame : ∀ {other : ℕ} {session' : WsSession ℕ},
      (σ.afterTake connection session i).sessions other = some session' →
        ∃ old, σ.sessions other = some old ∧ session'.sessionId = old.sessionId ∧
          session'.claim = old.claim ∧ session'.running = old.running := by
    intro other session' hsession'
    rcases sessions_put_cases hsession' with ⟨rfl, rfl⟩ | ⟨-, hsession'⟩
    · exact ⟨session, hsession, rfl, rfl, rfl⟩
    · exact ⟨session', hsession', rfl, rfl, rfl⟩
  have hforth : ∀ {other : ℕ} {old : WsSession ℕ}, σ.sessions other = some old →
      ∃ session', (σ.afterTake connection session i).sessions other = some session' ∧
        session'.sessionId = old.sessionId ∧ session'.running = old.running := by
    intro other old hold
    by_cases heq : other = connection
    · subst heq
      obtain rfl := Option.some.inj (hsession.symm.trans hold)
      exact ⟨_, Function.update_self .., rfl, rfl⟩
    · exact ⟨old, (Function.update_of_ne heq ..).trans hold, rfl, rfl⟩
  refine { h with
    below := fun sessionId hid => ?_, apart := fun sessionId hmem hreturned => ?_
    recipient := fun sessionId other => ?_, registered := ?_, live := ?_, own := ?_
    registering := ?_, alone := ?_, left := ?_ }
  · change sessionId < (σ.hub.nextSessionId + 1) % sessionIdEnd
    rw [Nat.mod_eq_of_lt hend, Nat.lt_succ_iff]
    rcases hid with hid | hid
    · rcases Finset.mem_insert.1 hid with rfl | hid
      · exact le_rfl
      · exact (h.below sessionId (.inl hid)).le
    · exact (h.below sessionId (.inr hid)).le
  · rcases Finset.mem_insert.1 hmem with rfl | hmem
    · exact absurd (h.below _ (.inr hreturned)) (lt_irrefl _)
    · exact h.apart sessionId hmem hreturned
  · rw [show (σ.afterTake connection session i).recipients = σ.recipients from rfl, h.recipient]
    constructor
    · rintro ⟨old, hold, hid⟩
      obtain ⟨session', hsession', hid', -⟩ := hforth hold
      exact ⟨session', hsession', hid'.trans hid⟩
    · rintro ⟨session', hsession', hid⟩
      obtain ⟨old, hold, hid', -⟩ := hsame hsession'
      exact ⟨old, hold, hid'.symm.trans hid⟩
  · intro other session' sessionId hsession' hid
    obtain ⟨old, hold, hid', hclaim, -⟩ := hsame hsession'
    rw [hclaim]
    exact h.registered other old sessionId hold (hid'.symm.trans hid)
  · intro sessionId handle hhandle
    rcases h.live sessionId handle hhandle with hleaving | ⟨other, old, hold, hid, hrunning⟩
    · exact .inl hleaving
    · obtain ⟨session', hsession', hid', hrunning'⟩ := hforth hold
      exact .inr ⟨other, session', hsession', hid'.trans hid, hrunning'.trans hrunning⟩
  · intro other session' hsession'
    rcases sessions_put_cases hsession' with ⟨rfl, rfl⟩ | ⟨-, hsession'⟩
    · exact (h.own other session hsession).takesId htask _
    · exact h.own other session' hsession'
  · intro other session' sessionId hsession' hmem
    rcases hregistering hsession' hmem with ⟨-, rfl⟩ | ⟨old, hold, hmem⟩
    · exact Finset.mem_insert_self ..
    · exact Finset.mem_insert_of_mem (h.registering other old sessionId hold hmem)
  · intro other other' session₁ session₂ sessionId hsession₁ hsession₂ hmem₁ hmem₂
    rcases hregistering hsession₁ hmem₁ with ⟨rfl, rfl⟩ | ⟨old₁, hold₁, hmem₁⟩
    · rcases hregistering hsession₂ hmem₂ with ⟨rfl, -⟩ | ⟨old₂, hold₂, hmem₂⟩
      · rfl
      · exact absurd rfl (hfresh _ (h.registering other' old₂ _ hold₂ hmem₂))
    · rcases hregistering hsession₂ hmem₂ with ⟨rfl, rfl⟩ | ⟨old₂, hold₂, hmem₂⟩
      · exact absurd rfl (hfresh _ (h.registering other old₁ _ hold₁ hmem₁))
      · exact h.alone other other' old₁ old₂ sessionId hold₁ hold₂ hmem₁ hmem₂
  · intro sessionId hleaving
    obtain ⟨hreturned, hstopped⟩ := h.left sessionId hleaving
    refine ⟨hreturned, fun other session' hsession' hid => ?_⟩
    obtain ⟨old, hold, hid', -, hrunning⟩ := hsame hsession'
    rw [hrunning]
    exact hstopped other old hold (hid'.symm.trans hid)

/-- The state after a session has been registered. -/
def afterRegister (σ : Service) (connection : ℕ) (session : WsSession ℕ) (i sessionId : ℕ) :
    Service :=
  { σ with
    hub := { σ.hub with
      inner := register σ.hub.inner sessionId session.claim.userid
      taken := σ.hub.taken.erase sessionId
      returned := insert sessionId σ.hub.returned }
    recipients := Function.update σ.recipients sessionId (some connection) }.put
      connection (session.registered i sessionId)

theorem Sound.afterRegister (h : σ.Sound) {i : ℕ} (hsession : σ.sessions connection = some session)
    (hrunning : session.running) (htask : session.tasks[i]? = some (.registering sessionId)) :
    (σ.afterRegister connection session i sessionId).Sound := by
  have hmem : .registering sessionId ∈ session.tasks := List.mem_of_getElem? htask
  have htaken : sessionId ∈ σ.hub.taken := h.registering connection session sessionId hsession hmem
  have hnew : sessionId ∉ σ.hub.returned := h.apart sessionId htaken
  have hunnamed : session.sessionId = none := (h.own connection session hsession).unnamed hmem rfl
  have hunknown : σ.hub.inner.sessions.lookup sessionId = none := by
    cases hlookup : σ.hub.inner.sessions.lookup sessionId with
    | none => rfl
    | some handle =>
      rcases h.live sessionId handle hlookup with hleaving | ⟨other, old, hold, hid, -⟩
      · exact absurd (h.left sessionId hleaving).1 hnew
      · exact absurd (h.registered other old sessionId hold hid).1 hnew
  -- The id is that of no other session.
  have hne : ∀ {other : ℕ} {old : WsSession ℕ} {id : ℕ}, σ.sessions other = some old →
      old.sessionId = some id → other ≠ connection ∧ id ≠ sessionId := by
    intro other old id hold hid
    refine ⟨?_, ?_⟩
    · rintro rfl
      rw [Option.some.inj (hold.symm.trans hsession), hunnamed] at hid
      cases hid
    · rintro rfl
      exact hnew (h.registered other old id hold hid).1
  have hcases : ∀ {other : ℕ} {session' : WsSession ℕ} {id : ℕ},
      (σ.afterRegister connection session i sessionId).sessions other = some session' →
        session'.sessionId = some id →
          (other = connection ∧ id = sessionId ∧ session' = session.registered i sessionId) ∨
            (σ.sessions other = some session' ∧ other ≠ connection ∧ id ≠ sessionId) := by
    intro other session' id hsession' hid
    rcases sessions_put_cases hsession' with ⟨rfl, rfl⟩ | ⟨-, hold⟩
    · exact .inl ⟨rfl, (Option.some.inj hid).symm, rfl⟩
    · exact .inr ⟨hold, hne hold hid⟩
  have hregistering : ∀ {other : ℕ} {session' : WsSession ℕ} {id : ℕ},
      (σ.afterRegister connection session i sessionId).sessions other = some session' →
        .registering id ∈ session'.tasks → σ.sessions other = some session' ∧ other ≠ connection := by
    intro other session' id hsession' hmem'
    rcases sessions_put_cases hsession' with ⟨rfl, rfl⟩ | ⟨hother, hold⟩
    · exact absurd hmem' ((h.own other session hsession).not_registering htask)
    · exact ⟨hold, hother⟩
  refine {
    agree := ?_, heard := ?_, below := ?_, apart := ?_, recipient := fun id other => ?_
    registered := ?_, live := ?_, own := ?_, registering := ?_, alone := ?_, left := ?_ }
  · exact h.agree.register hunknown fun marketId hheard => hnew (h.heard marketId sessionId hheard)
  · exact fun marketId id hheard => Finset.mem_insert_of_mem (h.heard marketId id hheard)
  · intro id hid
    rcases hid with hid | hid
    · exact h.below id (.inl (Finset.mem_of_mem_erase hid))
    · rcases Finset.mem_insert.1 hid with rfl | hid
      · exact h.below id (.inl htaken)
      · exact h.below id (.inr hid)
  · intro id hid hreturned
    rcases Finset.mem_insert.1 hreturned with rfl | hreturned
    · exact Finset.notMem_erase id _ hid
    · exact h.apart id (Finset.mem_of_mem_erase hid) hreturned
  · change Function.update σ.recipients sessionId (some connection) id = some other ↔ _
    by_cases hid : id = sessionId
    · subst hid
      rw [Function.update_self]
      constructor
      · rintro heq
        obtain rfl := Option.some.inj heq
        exact ⟨_, Function.update_self .., rfl⟩
      · rintro ⟨session', hsession', hid'⟩
        rcases hcases hsession' hid' with ⟨rfl, -⟩ | ⟨-, -, hother⟩
        · rfl
        · exact absurd rfl hother
    · rw [Function.update_of_ne hid, h.recipient]
      constructor
      · rintro ⟨old, hold, hid'⟩
        exact ⟨old, (Function.update_of_ne (hne hold hid').1 ..).trans hold, hid'⟩
      · rintro ⟨session', hsession', hid'⟩
        rcases hcases hsession' hid' with ⟨-, heq, -⟩ | ⟨hold, -⟩
        · exact absurd heq hid
        · exact ⟨session', hold, hid'⟩
  · intro other session' id hsession' hid
    rcases hcases hsession' hid with ⟨rfl, rfl, rfl⟩ | ⟨hold, -, hother⟩
    · refine ⟨Finset.mem_insert_self .., fun handle hhandle => ?_⟩
      change (Finmap.insert _ _ _).lookup _ = _ at hhandle
      rw [Finmap.lookup_insert] at hhandle
      cases hhandle
      rfl
    · obtain ⟨hreturned, huser⟩ := h.registered other session' id hold hid
      refine ⟨Finset.mem_insert_of_mem hreturned, fun handle hhandle => huser handle ?_⟩
      exact (Finmap.lookup_insert_of_ne _ hother).symm.trans hhandle
  · intro id handle hhandle
    by_cases hid : id = sessionId
    · subst hid
      exact .inr ⟨connection, _, Function.update_self .., rfl, hrunning⟩
    · have hold : σ.hub.inner.sessions.lookup id = some handle :=
        (Finmap.lookup_insert_of_ne _ hid).symm.trans hhandle
      rcases h.live id handle hold with hleaving | ⟨other, old, hold, hid', hrunning⟩
      · exact .inl hleaving
      · exact .inr ⟨other, old, (Function.update_of_ne (hne hold hid').1 ..).trans hold, hid',
          hrunning⟩
  · intro other session' hsession'
    rcases sessions_put_cases hsession' with ⟨rfl, rfl⟩ | ⟨-, hold⟩
    · exact (h.own other session hsession).registered htask
    · exact h.own other session' hold
  · intro other session' id hsession' hmem'
    obtain ⟨hold, hother⟩ := hregistering hsession' hmem'
    refine Finset.mem_erase.2 ⟨?_, h.registering other session' id hold hmem'⟩
    rintro rfl
    exact hother (h.alone other connection session' session id hold hsession hmem' hmem)
  · intro other other' session₁ session₂ id hsession₁ hsession₂ hmem₁ hmem₂
    exact h.alone other other' session₁ session₂ id (hregistering hsession₁ hmem₁).1
      (hregistering hsession₂ hmem₂).1 hmem₁ hmem₂
  · intro id hleaving
    obtain ⟨hreturned, hstopped⟩ := h.left id hleaving
    refine ⟨Finset.mem_insert_of_mem hreturned, fun other session' hsession' hid => ?_⟩
    rcases hcases hsession' hid with ⟨-, rfl, -⟩ | ⟨hold, -⟩
    · exact absurd hreturned hnew
    · exact hstopped other session' hold hid

/-- The state after a session has stopped. -/
def afterStop (σ : Service) (connection : ℕ) (session : WsSession ℕ) : Service :=
  { σ.put connection session.stopped with leaving := σ.leaving ++ session.sessionId.toList }

theorem Sound.afterStop (h : σ.Sound) (hsession : σ.sessions connection = some session) :
    (σ.afterStop connection session).Sound := by
  have hcases : ∀ {other : ℕ} {session' : WsSession ℕ},
      (σ.afterStop connection session).sessions other = some session' →
        ∃ old, σ.sessions other = some old ∧ session'.sessionId = old.sessionId ∧
          session'.claim = old.claim ∧ (session'.running → other ≠ connection ∧ session' = old) ∧
            session'.tasks ⊆ old.tasks := by
    intro other session' hsession'
    rcases sessions_put_cases hsession' with ⟨rfl, rfl⟩ | ⟨hother, hold⟩
    · exact ⟨session, hsession, rfl, rfl, fun hrunning => absurd hrunning Bool.false_ne_true,
        List.nil_subset _⟩
    · exact ⟨session', hold, rfl, rfl, fun _ => ⟨hother, rfl⟩, List.Subset.refl _⟩
  have hforth : ∀ {other : ℕ} {old : WsSession ℕ}, σ.sessions other = some old →
      ∃ session', (σ.afterStop connection session).sessions other = some session' ∧
        session'.sessionId = old.sessionId := by
    intro other old hold
    by_cases heq : other = connection
    · subst heq
      obtain rfl := Option.some.inj (hsession.symm.trans hold)
      exact ⟨_, Function.update_self .., rfl⟩
    · exact ⟨old, (Function.update_of_ne heq ..).trans hold, rfl⟩
  refine { h with
    recipient := fun id other => ?_, registered := ?_, live := ?_, own := ?_
    registering := ?_, alone := ?_, left := ?_ }
  · rw [show (σ.afterStop connection session).recipients = σ.recipients from rfl, h.recipient]
    constructor
    · rintro ⟨old, hold, hid⟩
      obtain ⟨session', hsession', hid'⟩ := hforth hold
      exact ⟨session', hsession', hid'.trans hid⟩
    · rintro ⟨session', hsession', hid⟩
      obtain ⟨old, hold, hid', -⟩ := hcases hsession'
      exact ⟨old, hold, hid'.symm.trans hid⟩
  · intro other session' id hsession' hid
    obtain ⟨old, hold, hid', hclaim, -⟩ := hcases hsession'
    rw [hclaim]
    exact h.registered other old id hold (hid'.symm.trans hid)
  · intro id handle hhandle
    rcases h.live id handle hhandle with hleaving | ⟨other, old, hold, hid, hrunning⟩
    · exact .inl (List.mem_append_left _ hleaving)
    · by_cases heq : other = connection
      · subst heq
        obtain rfl := Option.some.inj (hsession.symm.trans hold)
        exact .inl (List.mem_append_right _ (Option.mem_toList.2 hid))
      · exact .inr ⟨other, old, (Function.update_of_ne heq ..).trans hold, hid, hrunning⟩
  · intro other session' hsession'
    rcases sessions_put_cases hsession' with ⟨rfl, rfl⟩ | ⟨-, hold⟩
    · have hown := h.own other session hsession
      refine ⟨(Nat.add_le_add_right (Nat.zero_le _) _).trans hown.single, fun task htask => ?_⟩
      exact absurd htask List.not_mem_nil
    · exact h.own other session' hold
  · intro other session' id hsession' hmem
    obtain ⟨old, hold, -, -, -, htasks⟩ := hcases hsession'
    exact h.registering other old id hold (htasks hmem)
  · intro other other' session₁ session₂ id hsession₁ hsession₂ hmem₁ hmem₂
    obtain ⟨old₁, hold₁, -, -, -, htasks₁⟩ := hcases hsession₁
    obtain ⟨old₂, hold₂, -, -, -, htasks₂⟩ := hcases hsession₂
    exact h.alone other other' old₁ old₂ id hold₁ hold₂ (htasks₁ hmem₁) (htasks₂ hmem₂)
  · intro id hleaving
    have hreturned : id ∈ σ.hub.returned := by
      rcases List.mem_append.1 hleaving with hleaving | hleaving
      · exact (h.left id hleaving).1
      · exact (h.registered connection session id hsession (Option.mem_toList.1 hleaving)).1
    refine ⟨hreturned, fun other session' hsession' hid => ?_⟩
    obtain ⟨old, hold, hid', -, hrunning, -⟩ := hcases hsession'
    cases hruns : session'.running with
    | false => rfl
    | true =>
      obtain ⟨hother, rfl⟩ := hrunning hruns
      rcases List.mem_append.1 hleaving with hleaving | hleaving
      · exact absurd ((h.left id hleaving).2 other session' hold hid) (by rw [hruns]; decide)
      · exact absurd (h.unique hold hsession hid (Option.mem_toList.1 hleaving)) hother

/-! ### Every step -/

/-- The steps of the service: its sessions and its hub go on, or a session begins, takes an
id, is registered or stops. -/
theorem step_cases (h : σ.Sound) {a : ServiceAction} (hstep : σ.step a = some σ') :
    σ.Continues σ' ∨
    (∃ connection claim, a.connects ∧ σ.sessions connection = none ∧
      σ' = σ.put connection (.started claim)) ∨
    ∃ connection session, σ.sessions connection = some session ∧ session.running ∧
      ((∃ i, session.tasks[i]? = some .register ∧ σ' = σ.afterTake connection session i) ∨
        (∃ i sessionId, session.tasks[i]? = some (.registering sessionId) ∧
          σ' = σ.afterRegister connection session i sessionId) ∨
        σ' = σ.afterStop connection session) := by
  cases a with
  | connect connection claim =>
    obtain ⟨hnone, heq⟩ := Option.ite_none_right_eq_some.1 hstep
    exact .inr (.inl ⟨connection, claim, rfl, Option.isNone_iff_eq_none.1 hnone,
      (Option.some.inj heq).symm⟩)
  | session connection action =>
    obtain ⟨session, hfilter, hstep⟩ := Option.bind_eq_some_iff.1 hstep
    obtain ⟨hsession, hrunning⟩ := Option.filter_eq_some_iff.1 hfilter
    cases action with
    | frame frame =>
      cases hstep
      exact .inl (h.continues_put hsession (WsSession.continues_handleFrame frame))
    | push =>
      obtain ⟨session', hpush, rfl⟩ := Option.map_eq_some_iff.1 hstep
      exact .inl (h.continues_put hsession (WsSession.continues_handlePush hpush))
    | stop =>
      cases hstep
      exact .inr (.inr ⟨connection, session, hsession, hrunning, .inr (.inr rfl)⟩)
    | poll i =>
      obtain ⟨task, htask, hrun⟩ := Option.bind_eq_some_iff.1 hstep
      cases task with
      | register =>
        obtain rfl := Option.some.inj hrun
        exact .inr (.inr ⟨connection, session, hsession, hrunning, .inl ⟨i, htask, rfl⟩⟩)
      | registering sessionId =>
        obtain ⟨hub, hcall, rfl⟩ := Option.map_eq_some_iff.1 hrun
        obtain ⟨-, heq⟩ := Option.ite_none_right_eq_some.1 hcall
        cases heq
        exact .inr (.inr ⟨connection, session, hsession, hrunning,
          .inr (.inl ⟨i, sessionId, htask, rfl⟩)⟩)
      | subscribe sessionId markets =>
        obtain ⟨hub, hcall, rfl⟩ := Option.map_eq_some_iff.1 hrun
        obtain ⟨-, heq⟩ := Option.ite_none_right_eq_some.1 hcall
        cases heq
        have hid := (h.own connection session hsession).named _ (List.mem_of_getElem? htask) _ rfl
        exact .inl (h.continues_subscribed hsession (WsSession.continues_finish i _) hid markets)
      | unsubscribe sessionId markets =>
        obtain ⟨hub, hcall, rfl⟩ := Option.map_eq_some_iff.1 hrun
        obtain ⟨-, heq⟩ := Option.ite_none_right_eq_some.1 hcall
        cases heq
        exact .inl (h.continues_unsubscribed hsession (WsSession.continues_finish i _) markets)
  | unregister i =>
    obtain ⟨sessionId, hleaving, hstep⟩ := Option.bind_eq_some_iff.1 hstep
    obtain ⟨hub, hcall, rfl⟩ := Option.map_eq_some_iff.1 hstep
    obtain ⟨-, heq⟩ := Option.ite_none_right_eq_some.1 hcall
    cases heq
    exact .inl (h.continues_unregister hleaving)
  | engineEvent partition event metadata | walletEvent partition event metadata =>
    obtain ⟨routing, -, rfl⟩ := Option.map_eq_some_iff.1 hstep
    exact .inl (h.continues_routing routing)
  | broadcast partition refuses =>
    obtain ⟨next, -, rfl⟩ := Option.map_eq_some_iff.1 hstep
    exact .inl (h.continues_send next.1 refuses next.2)

/-- The connections that have yet to take their ids are among some. -/
def Waiting (σ : Service) (waiting : Finset ℕ) : Prop :=
  ∀ connection session, σ.sessions connection = some session → .register ∈ session.tasks →
    connection ∈ waiting

theorem Sound.step (h : σ.Sound) {waiting : Finset ℕ} (hwaiting : σ.Waiting waiting)
    (hend : σ.hub.nextSessionId + waiting.card < sessionIdEnd) {a : ServiceAction}
    (hstep : σ.step a = some σ') : σ'.Sound := by
  rcases step_cases h hstep with hcontinues | ⟨connection, claim, -, hnew, rfl⟩ |
    ⟨connection, session, hsession, hrunning, ⟨i, htask, rfl⟩ | ⟨i, sessionId, htask, rfl⟩ | rfl⟩
  · exact h.continues hcontinues
  · exact h.connect hnew claim
  · refine h.takesId hsession htask (lt_of_le_of_lt (Nat.add_le_add_left ?_ _) hend)
    exact Finset.card_pos.2 ⟨connection,
      hwaiting connection session hsession (List.mem_of_getElem? htask)⟩
  · exact h.afterRegister hsession hrunning htask
  · exact h.afterStop hsession

/-- Every id that is taken is that of a connection that has waited. -/
theorem Waiting.step {waiting : Finset ℕ} (hwaiting : σ.Waiting waiting) (h : σ.Sound)
    {a : ServiceAction} (hstep : σ.step a = some σ') :
    ∃ waiting', σ'.Waiting waiting' ∧ σ'.hub.nextSessionId + waiting'.card ≤
      σ.hub.nextSessionId + waiting.card + a.connects.toNat := by
  rcases step_cases h hstep with hcontinues | ⟨connection, claim, hconnects, -, rfl⟩ |
    ⟨connection, session, hsession, -, ⟨i, htask, rfl⟩ | ⟨i, sessionId, htask, rfl⟩ | rfl⟩
  · refine ⟨waiting, fun other session' hsession' hmem => ?_, ?_⟩
    · obtain ⟨old, hold, hgoes⟩ := hcontinues.back hsession'
      exact hwaiting other old hold (hgoes.register hmem)
    · rw [hcontinues.hub]
      exact Nat.le_add_right _ _
  · refine ⟨insert connection waiting, fun other session' hsession' hmem => ?_, ?_⟩
    · rcases sessions_put_cases hsession' with ⟨rfl, -⟩ | ⟨-, hold⟩
      · exact Finset.mem_insert_self ..
      · exact Finset.mem_insert_of_mem (hwaiting other session' hold hmem)
    · rw [hconnects]
      change σ.hub.nextSessionId + _ ≤ _ + 1
      have hcard := Finset.card_insert_le connection waiting
      omega
  · have hmem : connection ∈ waiting :=
      hwaiting connection session hsession (List.mem_of_getElem? htask)
    refine ⟨waiting.erase connection, fun other session' hsession' hmem' => ?_, ?_⟩
    · rcases sessions_put_cases hsession' with ⟨rfl, rfl⟩ | ⟨hother, hold⟩
      · -- Its other futures are not those of a registration.
        have hown := (h.own other session hsession).takesId htask σ.hub.nextSessionId
        have htaken : .registering σ.hub.nextSessionId ∈
            (session.takesId i σ.hub.nextSessionId).tasks :=
          List.mem_set (List.getElem?_eq_some_iff.1 htask).1 _
        cases hown.eq_of_registers hmem' htaken rfl rfl
      · exact Finset.mem_erase.2 ⟨hother, hwaiting other session' hold hmem'⟩
    · have hcard := Finset.card_erase_add_one hmem
      have hmod : (σ.hub.nextSessionId + 1) % sessionIdEnd ≤ σ.hub.nextSessionId + 1 := Nat.mod_le _ _
      change (σ.hub.nextSessionId + 1) % sessionIdEnd + _ ≤ _
      omega
  · refine ⟨waiting, fun other session' hsession' hmem => ?_, Nat.le_add_right _ _⟩
    rcases sessions_put_cases hsession' with ⟨rfl, rfl⟩ | ⟨-, hold⟩
    · exact hwaiting other session hsession (List.mem_of_mem_eraseIdx hmem)
    · exact hwaiting other session' hold hmem
  · refine ⟨waiting, fun other session' hsession' hmem => ?_, Nat.le_add_right _ _⟩
    rcases sessions_put_cases hsession' with ⟨rfl, rfl⟩ | ⟨-, hold⟩
    · exact absurd hmem List.not_mem_nil
    · exact hwaiting other session' hold hmem

/-- A run with fewer connections than the hub has ids for is sound. -/
theorem Sound.run (h : σ.Sound) {waiting : Finset ℕ} (hwaiting : σ.Waiting waiting)
    {actions : List ServiceAction}
    (hend : σ.hub.nextSessionId + waiting.card + connections actions < sessionIdEnd)
    (hrun : Machine.run Service.step σ actions = some σ') : σ'.Sound := by
  induction actions generalizing σ waiting with
  | nil =>
    cases hrun
    exact h
  | cons a actions ih =>
    obtain ⟨mid, hstep, hrun⟩ := Option.bind_eq_some_iff.1 hrun
    rw [connections, List.countP_cons, ← connections] at hend
    have hnow : σ.hub.nextSessionId + waiting.card < sessionIdEnd := by omega
    obtain ⟨waiting', hwaiting', hle⟩ := hwaiting.step h hstep
    refine ih (h.step hwaiting hnow hstep) hwaiting' ?_ hrun
    have hconnects : a.connects.toNat = if a.connects = true then 1 else 0 := by
      cases a.connects <;> rfl
    omega

theorem waiting_new : Waiting .new ∅ := by
  intro connection session hsession
  cases hsession

theorem sound_of_run {actions : List ServiceAction} (hend : connections actions + 1 < sessionIdEnd)
    (hrun : Machine.run Service.step .new actions = some σ) : σ.Sound := by
  refine sound_new.run waiting_new ?_ hrun
  change 1 + 0 + connections actions < sessionIdEnd
  omega

/-! ## What the hub knows -/

/-- A future that has not ended can be polled: its call names an id that was given out. -/
theorem Sound.isSome_poll (h : σ.Sound) {i : ℕ} {task : Task ℕ}
    (hsession : σ.sessions connection = some session) (hrunning : session.running)
    (htask : session.tasks[i]? = some task) :
    (σ.step (.session connection (.poll i))).isSome := by
  have hmem := List.mem_of_getElem? htask
  have hstep : σ.step (.session connection (.poll i)) = σ.runTask connection session i task := by
    rw [Service.step, hsession, Option.filter_some_pos hrunning, Option.bind_some, sessionStep, htask,
      Option.bind_some]
  have hnamed := (h.own connection session hsession).named task hmem
  rw [hstep]
  cases task with
  | register => rfl
  | registering sessionId =>
    have htaken := h.registering connection session sessionId hsession hmem
    rw [runTask, Option.isSome_map, Hub.call, if_pos htaken]
    rfl
  | subscribe sessionId markets =>
    have hreturned := (h.registered connection session sessionId hsession (hnamed sessionId rfl)).1
    rw [runTask, Option.isSome_map, Hub.call, if_pos hreturned]
    rfl
  | unsubscribe sessionId markets =>
    have hreturned := (h.registered connection session sessionId hsession (hnamed sessionId rfl)).1
    rw [runTask, Option.isSome_map, Hub.call, if_pos hreturned]
    rfl

theorem Sound.isSome_unregister (h : σ.Sound) {i : ℕ} (hi : i < σ.leaving.length) :
    (σ.step (.unregister i)).isSome := by
  have hleaving : σ.leaving[i]? = some σ.leaving[i] := List.getElem?_eq_getElem hi
  have hreturned := (h.left σ.leaving[i] (List.getElem_mem hi)).1
  rw [Service.step, hleaving, Option.bind_some, Option.isSome_map, Hub.call, if_pos hreturned]
  rfl

end Sound

end Service

/-- After any run with fewer connections than the hub has ids for, the hub knows a session
only while its actor runs or until it is unregistered, as one of the user of its token,
and its indexes agree on the sessions it knows; once no actor runs and nobody is left to
unregister, it knows no session and no user. Neither a future nor an unregistration ever
names an id that was not given out. -/
theorem hub_keeps_live_sessions (actions : List ServiceAction) (σ : Service)
    (hend : connections actions + 1 < sessionIdEnd)
    (hrun : run Service.step .new actions = some σ) :
    (∀ sessionId handle, σ.hub.inner.sessions.lookup sessionId = some handle →
      sessionId ∈ σ.leaving ∨ ∃ connection session, σ.sessions connection = some session ∧
        session.sessionId = some sessionId ∧ session.running ∧
          handle.userId = session.claim.userid) ∧
    AgreeKnown σ.hub.inner ∧
    (σ.leaving = [] → (∀ connection session, σ.sessions connection = some session →
      session.running = false) → σ.hub.inner.sessions = ∅ ∧ σ.hub.inner.users = ∅) ∧
    (∀ connection session i, σ.sessions connection = some session → session.running →
      i < session.tasks.length → (σ.step (.session connection (.poll i))).isSome) ∧
    ∀ i < σ.leaving.length, (σ.step (.unregister i)).isSome := by
  have h := sound_of_run hend hrun
  refine ⟨fun sessionId handle hhandle => ?_, h.agree, fun hleaving hstopped => ?_,
    fun connection session i hsession hrunning hi => ?_, fun i hi => h.isSome_unregister hi⟩
  · rcases h.live sessionId handle hhandle with hleaving | ⟨connection, session, hsession, hid, hrunning⟩
    · exact .inl hleaving
    · refine .inr ⟨connection, session, hsession, hid, hrunning, ?_⟩
      exact (h.registered connection session sessionId hsession hid).2 handle hhandle
  · have hnone : ∀ sessionId, σ.hub.inner.sessions.lookup sessionId = none := by
      intro sessionId
      cases hlookup : σ.hub.inner.sessions.lookup sessionId with
      | none => rfl
      | some handle =>
        rcases h.live sessionId handle hlookup with hleft | ⟨connection, session, hsession, -, hrunning⟩
        · rw [hleaving] at hleft
          exact absurd hleft List.not_mem_nil
        · rw [hstopped connection session hsession] at hrunning
          exact absurd hrunning Bool.false_ne_true
    refine ⟨Finmap.ext_lookup fun sessionId => ?_, h.agree.users_eq_empty hnone⟩
    rw [hnone, Finmap.lookup_empty]
  · exact h.isSome_poll hsession hrunning (List.getElem?_eq_getElem hi)

/-- User 42 connects, subscribes to market 7 and goes. -/
def comesAndGoes : List ServiceAction :=
  let subscription : Json := .obj [("type", .str "Subscribe"),
    ("payload", .obj [("markets", .arr [.int 7, .int 7])])]
  [.connect 0 { userid := 42, username := "u" }, .session 0 (.poll 0), .session 0 (.poll 0),
    .session 0 (.frame (.text (some subscription))), .session 0 (.poll 0), .session 0 .stop]

theorem hub_keeps_live_sessions_comesAndGoes :
    ∃ σ, run Service.step .new comesAndGoes = some σ ∧ σ.leaving = [1] ∧
      ∀ sessionId handle, σ.hub.inner.sessions.lookup sessionId = some handle →
        sessionId ∈ σ.leaving ∨ ∃ connection session, σ.sessions connection = some session ∧
          session.sessionId = some sessionId ∧ session.running ∧
            handle.userId = session.claim.userid := by
  have hleaving : (run Service.step .new comesAndGoes).map Service.leaving = some [1] := by decide
  obtain ⟨σ, hrun, hleaving⟩ := Option.map_eq_some_iff.1 hleaving
  exact ⟨σ, hrun, hleaving, (hub_keeps_live_sessions comesAndGoes σ (by decide) hrun).1⟩

end Ws
