import ExchangeServer.Foundation.ReadCommitted

/-!
# Interleaved transactions that are as good as serial ones

A statement is stable when an answer that it has given without a write stays its
answer while the data grows. The statements that write lock what they depend on,
so a transaction of stable statements commits what it would have committed if it
had run alone at the moment of its commit. Sessions that run such transactions one
after the other leave the data as some serial run of them does, whatever the
interleaving and wherever sessions stop.

## Main definitions

- `Stable`, `Program.Repeatable`: statements and programs
- `Serially`: transactions that have succeeded one after the other

## Main results

- `Program.wlp_serially`: a transaction among others
- `System.serially_of_steps`: interleavings are serial runs of what they commit
-/

namespace Transactional

open Store Program Locking

variable {S : Type → Type} {D W ε K V L R α β : Type} [Locking S D W ε K V]

/-- An answer without a write is given again on data that has grown. -/
def Stable (s : S β) : Prop :=
  ∀ ⦃d d' : D⦄ ⦃b : β⦄, exec s d = .ok (b, []) → le S d d' → exec s d' = .ok (b, [])

/-- A stable statement that has been answered earlier is answered the same now. -/
theorem Stable.exec_of_observed {s : S β} (hs : Stable s) {v d : D} {b : β} {ws : List W}
    (he : exec s v = .ok (b, ws)) (hv : Observed (le S) v d ws) : exec s d = .ok (b, ws) := by
  rcases hv with rfl | ⟨hle, rfl⟩
  · exact he
  · exact hs he hle

namespace Program

/-- All statements of the program are stable. -/
def Repeatable : Program S ε α → Prop
  | ret _ => True
  | stmt s next => Stable s ∧ ∀ b, (next b).Repeatable
  | commit next | rollback next => next.Repeatable

theorem repeatable_pure (a : α) : (pure a : Program S ε α).Repeatable := trivial

theorem repeatable_perform {s : S α} (h : Stable s) : (perform s : Program S ε α).Repeatable :=
  ⟨h, fun _ => trivial⟩

theorem repeatable_commitTx : (commitTx : Program S ε Unit).Repeatable := trivial

theorem repeatable_bind {p : Program S ε α} {f : α → Program S ε β} (hp : p.Repeatable)
    (hf : ∀ a, (f a).Repeatable) : (p >>= f).Repeatable := by
  change (p.bind f).Repeatable
  induction p with
  | ret result =>
    cases result with
    | ok a => exact hf a
    | error e => trivial
  | stmt s next ih => exact ⟨hp.1, fun b => ih b (hp.2 b)⟩
  | commit next ih => exact ih hp
  | rollback next ih => exact ih hp

/-- A transaction that has succeeded has let the data grow. -/
theorem le_of_eval {p : Program S ε α} {d d' : D} {a : α} (h : p.eval d = .ok (a, d')) :
    le S d d' := by
  induction p generalizing d with
  | ret result =>
    cases result with
    | ok b =>
      cases h
      exact le_refl _
    | error e => cases h
  | stmt s next ih =>
    rw [eval] at h
    cases hexec : exec s d with
    | error e =>
      rw [hexec] at h
      cases h
    | ok r =>
      rw [hexec] at h
      exact le_trans (le_applyAll r.2 d) (ih r.1 h)
  | commit next ih | rollback next ih => exact ih h

/-- Work on the result of a transaction is done after its commit. -/
theorem atomic_bind_pure {p : Program S ε α} (hp : p.Atomic) (g : α → β) :
    (p >>= fun a => pure (g a)).Atomic := by
  change (p.bind fun a => pure (g a)).Atomic
  induction p with
  | ret result =>
    cases result with
    | ok a => exact hp.elim
    | error e => trivial
  | stmt s next ih => exact fun b => ih b (hp b)
  | commit next =>
    obtain ⟨a, rfl⟩ := hp
    exact ⟨g a, rfl⟩
  | rollback next => exact hp.elim

end Program

/-! ## Serial runs -/

/-- Requests whose transactions have succeeded one after the other, each on data
that allows it. -/
inductive Serially (tx : R → Program S ε α) (allowed : R → D → Prop) (d : D) : List R → D → Prop
  | nil : Serially tx allowed d [] d
  | snoc {requests request a d' d''} (h : Serially tx allowed d requests d')
    (hallowed : allowed request d') (heval : (tx request).eval d' = .ok (a, d'')) :
    Serially tx allowed d (requests ++ [request]) d''

/-- What each request keeps holds after all of them. -/
theorem Serially.inv {tx : R → Program S ε α} {allowed : R → D → Prop} {I : List R → D → Prop}
    (hstep : ∀ requests request a d d', I requests d → allowed request d →
      (tx request).eval d = .ok (a, d') → I (requests ++ [request]) d')
    {d d' : D} {requests : List R} (h : Serially tx allowed d requests d') (hd : I [] d) :
    I requests d' := by
  induction h with
  | nil => exact hd
  | snoc _ hallowed heval ih => exact hstep _ _ _ _ _ ih hallowed heval

/-- A commit is that of one request alone. -/
def serialContract (tx : R → Program S ε α) (allowed : R → D → Prop) : Contract D W ε where
  commits d ws := ∃ request a, allowed request d ∧
    (tx request).eval d = .ok (a, applyAll S ws d)
  fails _ _ := True

namespace Program

variable {C : Contract D W ε} {d : D} {ws : List W}

/-- The answers of a transaction are those that it would get now. -/
theorem wlp_of_atomic (hC : ∀ e d, C.fails e d) {p : Program S ε α}
    {Q : Except ε α → D → List W → Prop} (hp : p.Atomic) (hrepeatable : p.Repeatable)
    (hcommits : ∀ a ws', p.eval (applyAll S ws d) = .ok (a, applyAll S ws' d) →
      C.commits d ws' ∧ ∀ d', le S (applyAll S ws' d) d' → Q (.ok a) d' [])
    (herror : ∀ e ws', Q (.error e) d ws') : p.wlp (le S) C d ws Q := by
  induction p generalizing ws with
  | ret result =>
    cases result with
    | ok a => exact hp.elim
    | error e => exact herror e ws
  | stmt s next ih =>
    refine ⟨fun e _ => hC e d, fun v b ws' he hv => ?_⟩
    have hnow := hrepeatable.1.exec_of_observed he hv
    refine ih b (hp b) (hrepeatable.2 b) fun a ws'' heval => hcommits a ws'' ?_
    rw [eval, hnow]
    rwa [applyAll_append] at heval
  | commit next =>
    obtain ⟨a, rfl⟩ := hp
    obtain ⟨hcommits, hQ⟩ := hcommits a ws rfl
    exact ⟨hcommits, fun d' hd' => hQ d' hd'⟩
  | rollback next => exact hp.elim

/-- A transaction that is allowed keeps the contract; afterwards its own data has
been committed and may have grown. -/
theorem wlp_serially (tx : R → Program S ε α) {allowed : R → D → Prop} {request : R}
    (hatomic : (tx request).Atomic) (hrepeatable : (tx request).Repeatable)
    (hallowed : allowed request d) :
    (tx request).wlp (le S) (serialContract tx allowed) d [] fun r d' ws' =>
      ∀ a, r = .ok a → ws' = [] ∧ ∃ d₁, (tx request).eval d = .ok (a, d₁) ∧ le S d d₁ ∧
        le S d₁ d' := by
  refine wlp_of_atomic (fun _ _ => trivial) hatomic hrepeatable (fun a ws' heval => ?_) ?_
  · refine ⟨⟨request, a, hallowed, heval⟩, fun d' hd' a' ha' => ?_⟩
    cases ha'
    exact ⟨rfl, _, heval, le_applyAll ws' d, hd'⟩
  · intro e ws' a ha
    cases ha

end Program

/-- Every interleaving leaves the data as a serial run of the requests that it has
committed. -/
theorem System.serially_of_steps [DecidableEq K] {prog : L → Program S ε β}
    {tx : R → Program S ε α} {allowed : R → D → Prop}
    (hprog : ∀ l d, (prog l).wlp (le S) (serialContract tx allowed) d [] fun _ _ _ => True)
    {d : D} {σ : System S ε β D W K L} {as : List (Action L)}
    (h : (initial d).steps prog as = some σ) :
    ∃ requests, Serially tx allowed d requests σ.committed := by
  refine commits_of_steps (C := fun _ => serialContract tx allowed) hprog
    (I := fun d' _ => ∃ requests, Serially tx allowed d requests d') ?_ h ⟨[], .nil⟩
  rintro d' log l ws ⟨requests, hserially⟩ ⟨request, a, hallowed, heval⟩
  exact ⟨requests ++ [request], hserially.snoc hallowed heval⟩

end Transactional
