import Mathlib.Data.List.Basic
import Mathlib.Tactic.Common

/-!
# Programs that talk to a store in transactions

A program issues one statement after another and ends its transactions by a
commit or a rollback; what it does next depends on the answers it got. A
statement answers and adds its writes to the open transaction, and fails
without an answer when the store refuses it, which ends the program and drops
the open transaction.

The weakest precondition of a program is stated against the committed data of
the moment at which the open transaction ends. Statements that write are
evaluated there; a statement that only reads may have been evaluated earlier,
at a state related by `R`. With equality for `R` this is the meaning of a
program that runs alone (`run_of_wlp`); with the growth order of a store it is
the meaning of a program among others (`ReadCommitted`).

## Main definitions

- `Program`: sequences of statements, commits and rollbacks
- `Store`: the meaning of statements and of writes
- `Program.run`: a program that runs alone
- `Program.wlp`: weakest liberal preconditions
-/

namespace Transactional

variable {S : Type → Type} {ε α β γ D W : Type}

/-- A program over statements `S` with errors `ε` and results `α`. -/
inductive Program (S : Type → Type) (ε α : Type) : Type 1
  | ret (result : Except ε α)
  | stmt {β : Type} (s : S β) (next : β → Program S ε α)
  | commit (next : Program S ε α)
  | rollback (next : Program S ε α)

namespace Program

/-- Sequencing; an error ends the whole program. -/
def bind : Program S ε α → (α → Program S ε β) → Program S ε β
  | ret (.ok a), f => f a
  | ret (.error e), _ => ret (.error e)
  | stmt s next, f => stmt s fun b => (next b).bind f
  | commit next, f => commit (next.bind f)
  | rollback next, f => rollback (next.bind f)

instance : Monad (Program S ε) where
  pure a := ret (.ok a)
  bind := bind

/-- Issue one statement and return its answer. -/
def perform (s : S β) : Program S ε β := stmt s fun b => ret (.ok b)

/-- End the program with an error. -/
def fail (e : ε) : Program S ε α := ret (.error e)

/-- End the transaction and keep its writes. -/
def commitTx : Program S ε Unit := commit (ret (.ok ()))

/-- End the transaction and drop its writes. -/
def rollbackTx : Program S ε Unit := rollback (ret (.ok ()))

/-- Hand the error of a program to the caller. Leaving a program by an error
drops its open transaction. -/
def attempt : Program S ε α → Program S ε (Except ε α)
  | ret (.ok a) => ret (.ok (.ok a))
  | ret (.error e) => rollback (ret (.ok (.error e)))
  | stmt s next => stmt s fun b => (next b).attempt
  | commit next => commit next.attempt
  | rollback next => rollback next.attempt

end Program

/-- What the writes of a transaction do to the data, and what a statement
answers and writes. -/
class Store (S : Type → Type) (D W ε : outParam Type) where
  write : W → D → D
  exec : {β : Type} → S β → D → Except ε (β × List W)

namespace Store

variable [Store S D W ε]

/-- The data with the writes of a transaction, in their order. -/
def applyAll (S : Type → Type) {D W ε : Type} [Store S D W ε] (ws : List W) (d : D) : D :=
  ws.foldl (fun d w => write S w d) d

@[simp] theorem applyAll_nil (d : D) : applyAll S ([] : List W) d = d := rfl

@[simp] theorem applyAll_cons (w : W) (ws : List W) (d : D) :
    applyAll S (w :: ws) d = applyAll S ws (write S w d) := rfl

theorem applyAll_append (ws ws' : List W) (d : D) :
    applyAll S (ws ++ ws') d = applyAll S ws' (applyAll S ws d) :=
  List.foldl_append

end Store

open Store

namespace Program

variable [Store S D W ε]

/-- A program that runs alone: the committed data and the view of the open
transaction are passed along, and the committed data is what remains. -/
def run : Program S ε α → D → D → Except ε α × D
  | ret result, committed, _ => (result, committed)
  | stmt s next, committed, view =>
    match exec s view with
    | .error e => (.error e, committed)
    | .ok (b, ws) => (next b).run committed (applyAll S ws view)
  | commit next, _, view => next.run view view
  | rollback next, committed, _ => next.run committed committed

/-- What a program owes to its surroundings: a property of the committed data
and the writes at each commit, and one of the committed data at each refused
statement. -/
structure Contract (D W ε : Type) where
  commits : D → List W → Prop
  fails : ε → D → Prop

/-- A statement issued against `view` may be answered from `v`: the view
itself, or an earlier state when nothing is written. -/
def Observed (R : D → D → Prop) (v view : D) (ws : List W) : Prop :=
  v = view ∨ (R v view ∧ ws = [])

theorem Observed.eq_of_ne_nil {R : D → D → Prop} {v view : D} {ws : List W}
    (h : Observed R v view ws) (hws : ws ≠ []) : v = view :=
  h.resolve_right fun hr => hws hr.2

theorem Observed.rel {R : D → D → Prop} (hR : ∀ d, R d d) {v view : D} {ws : List W}
    (h : Observed R v view ws) : R v view := by
  rcases h with rfl | h
  · exact hR v
  · exact h.1

/-- Weakest liberal precondition at committed data `d` with open writes `ws`. -/
def wlp (R : D → D → Prop) (C : Contract D W ε) :
    Program S ε α → D → List W → (Except ε α → D → List W → Prop) → Prop
  | ret result, d, ws, Q => Q result d ws
  | stmt s next, d, ws, Q =>
    (∀ e, exec s (applyAll S ws d) = .error e → C.fails e d) ∧
      ∀ v b ws', exec s v = .ok (b, ws') → Observed R v (applyAll S ws d) ws' →
        (next b).wlp R C d (ws ++ ws') Q
  | commit next, d, ws, Q =>
    C.commits d ws ∧ ∀ d', R (applyAll S ws d) d' → next.wlp R C d' [] Q
  | rollback next, d, _, Q => ∀ d', R d d' → next.wlp R C d' [] Q

section Rules

variable {R : D → D → Prop} {C : Contract D W ε} {Q Q' : Except ε α → D → List W → Prop}

theorem wlp_mono {p : Program S ε α} {d : D} {ws : List W} (h : p.wlp R C d ws Q)
    (hQ : ∀ r d ws, Q r d ws → Q' r d ws) : p.wlp R C d ws Q' := by
  induction p generalizing d ws with
  | ret result => exact hQ _ _ _ h
  | stmt s next ih => exact ⟨h.1, fun v b ws' he ho => ih b (h.2 v b ws' he ho)⟩
  | commit next ih => exact ⟨h.1, fun d' hd => ih (h.2 d' hd)⟩
  | rollback next ih => exact fun d' hd => ih (h d' hd)

@[simp] theorem wlp_pure {a : α} {d : D} {ws : List W} :
    wlp R C (pure a : Program S ε α) d ws Q ↔ Q (.ok a) d ws := Iff.rfl

@[simp] theorem wlp_fail {e : ε} {d : D} {ws : List W} :
    wlp R C (fail e : Program S ε α) d ws Q ↔ Q (.error e) d ws := Iff.rfl

@[simp] theorem wlp_commitTx {Q : Except ε Unit → D → List W → Prop} {d : D} {ws : List W} :
    wlp R C (commitTx : Program S ε Unit) d ws Q ↔
      C.commits d ws ∧ ∀ d', R (applyAll S ws d) d' → Q (.ok ()) d' [] := Iff.rfl

@[simp] theorem wlp_rollbackTx {Q : Except ε Unit → D → List W → Prop} {d : D} {ws : List W} :
    wlp R C (rollbackTx : Program S ε Unit) d ws Q ↔ ∀ d', R d d' → Q (.ok ()) d' [] := Iff.rfl

theorem wlp_perform {s : S β} {Q : Except ε β → D → List W → Prop} {d : D} {ws : List W} :
    wlp R C (perform s) d ws Q ↔
      (∀ e, exec s (applyAll S ws d) = .error e → C.fails e d) ∧
        ∀ v b ws', exec s v = .ok (b, ws') → Observed R v (applyAll S ws d) ws' →
          Q (.ok b) d (ws ++ ws') := Iff.rfl

private theorem wlp_bind' {p : Program S ε α} {f : α → Program S ε β}
    {Q : Except ε β → D → List W → Prop} {d : D} {ws : List W} :
    (p.bind f).wlp R C d ws Q ↔ p.wlp R C d ws fun r d ws =>
      match r with
      | .ok a => (f a).wlp R C d ws Q
      | .error e => Q (.error e) d ws := by
  induction p generalizing d ws with
  | ret result => cases result <;> exact Iff.rfl
  | stmt s next ih =>
    exact and_congr_right fun _ => forall_congr' fun v => forall_congr' fun b =>
      forall_congr' fun ws' => forall_congr' fun _ => forall_congr' fun _ => ih b
  | commit next ih => exact and_congr_right fun _ => forall_congr' fun _ => forall_congr' fun _ => ih
  | rollback next ih => exact forall_congr' fun _ => forall_congr' fun _ => ih

theorem wlp_bind {p : Program S ε α} {f : α → Program S ε β}
    {Q : Except ε β → D → List W → Prop} {d : D} {ws : List W} :
    (p >>= f).wlp R C d ws Q ↔ p.wlp R C d ws fun r d ws =>
      match r with
      | .ok a => (f a).wlp R C d ws Q
      | .error e => Q (.error e) d ws := wlp_bind'

theorem wlp_attempt {p : Program S ε α} {Q : Except ε (Except ε α) → D → List W → Prop} {d : D}
    {ws : List W} :
    p.attempt.wlp R C d ws Q ↔ p.wlp R C d ws fun r d ws =>
      match r with
      | .ok a => Q (.ok (.ok a)) d ws
      | .error e => ∀ d', R d d' → Q (.ok (.error e)) d' [] := by
  induction p generalizing d ws with
  | ret result => cases result <;> exact Iff.rfl
  | stmt s next ih =>
    exact and_congr_right fun _ => forall_congr' fun v => forall_congr' fun b =>
      forall_congr' fun ws' => forall_congr' fun _ => forall_congr' fun _ => ih b
  | commit next ih => exact and_congr_right fun _ => forall_congr' fun _ => forall_congr' fun _ => ih
  | rollback next ih => exact forall_congr' fun _ => forall_congr' fun _ => ih

end Rules

/-- A program that runs alone ends in a refused statement, or with a result
that satisfies the postcondition. -/
theorem run_of_wlp {C : Contract D W ε} {p : Program S ε α} {d : D} {ws : List W}
    {Q : Except ε α → D → List W → Prop} (h : p.wlp Eq C d ws Q) :
    (∃ e, (p.run d (applyAll S ws d)).1 = .error e ∧ C.fails e (p.run d (applyAll S ws d)).2) ∨
      ∃ ws', Q (p.run d (applyAll S ws d)).1 (p.run d (applyAll S ws d)).2 ws' := by
  induction p generalizing d ws with
  | ret result => exact .inr ⟨ws, h⟩
  | stmt s next ih =>
    rw [run]
    cases he : exec s (applyAll S ws d) with
    | error e => exact .inl ⟨e, rfl, h.1 e he⟩
    | ok r =>
      obtain ⟨b, ws'⟩ := r
      have hn := ih b (h.2 _ b ws' he (.inl rfl))
      rwa [applyAll_append] at hn
  | commit next ih => exact ih (h.2 _ rfl)
  | rollback next ih => exact ih (h _ rfl)

/-- Work on the result of a program is done after it. -/
theorem run_bind_pure (p : Program S ε α) (g : α → β) (committed view : D) :
    (p >>= fun a => pure (g a)).run committed view =
      ((p.run committed view).1.map g, (p.run committed view).2) := by
  change (p.bind fun a => pure (g a)).run committed view = _
  induction p generalizing committed view with
  | ret result => cases result <;> rfl
  | stmt s next ih =>
    rw [bind, run, run]
    cases exec s view with
    | error e => rfl
    | ok r => exact ih r.1 _ _
  | commit next ih => exact ih _ _
  | rollback next ih => exact ih _ _

/-- After a program that leaves no transaction open, the next one starts from
what is committed. -/
theorem run_bind_of_wlp {C : Contract D W ε} {p : Program S ε α} {f : α → Program S ε β} {d : D}
    {ws : List W} (h : p.wlp Eq C d ws fun r _ ws' => ∀ a, r = .ok a → ws' = []) :
    (p >>= f).run d (applyAll S ws d) =
      match p.run d (applyAll S ws d) with
      | (.ok a, d') => (f a).run d' d'
      | (.error e, d') => (.error e, d') := by
  change (p.bind f).run d (applyAll S ws d) = _
  induction p generalizing d ws with
  | ret result =>
    cases result with
    | ok a => rw [h a rfl]; rfl
    | error e => rfl
  | stmt s next ih =>
    rw [bind, run, run]
    cases he : exec s (applyAll S ws d) with
    | error e => rfl
    | ok r =>
      have hn := ih r.1 (h.2 _ r.1 r.2 he (.inl rfl))
      rwa [applyAll_append] at hn
  | commit next ih => exact ih (h.2 _ rfl)
  | rollback next ih => exact ih (h _ rfl)

/-- A property that every statement keeps holds after a program that runs alone. -/
theorem run_keeps {I : D → Prop}
    (hI : ∀ {β : Type} (s : S β) (d : D) (b : β) (ws : List W), I d → exec s d = .ok (b, ws) →
      I (applyAll S ws d))
    (p : Program S ε α) {committed view : D} (hcommitted : I committed) (hview : I view) :
    I (p.run committed view).2 := by
  induction p generalizing committed view with
  | ret result => exact hcommitted
  | stmt s next ih =>
    rw [run]
    cases hexec : exec s view with
    | error e => exact hcommitted
    | ok r => exact ih r.1 hcommitted (hI s view r.1 r.2 hview hexec)
  | commit next ih => exact ih hview hview
  | rollback next ih => exact ih hcommitted hcommitted

/-- The contract of a program none of whose statements is refused. -/
def Contract.total : Contract D W ε := ⟨fun _ _ => True, fun _ _ => False⟩

/-- A statement of a program that runs alone gets the one answer there is. -/
theorem wlp_perform_of_exec {C : Contract D W ε} {s : S β}
    {Q : Except ε β → D → List W → Prop} {d : D} {ws : List W} {b : β} {ws' : List W}
    (he : exec s (applyAll S ws d) = .ok (b, ws')) (hQ : Q (.ok b) d (ws ++ ws')) :
    (perform s).wlp Eq C d ws Q := by
  refine wlp_perform.2 ⟨fun e h => ?_, fun v b' ws'' h hv => ?_⟩
  · rw [he] at h
    cases h
  · obtain rfl : v = applyAll S ws d := hv.elim id And.left
    rw [he] at h
    cases h
    exact hQ

/-- A program that meets the total contract ends with its postcondition. -/
theorem run_of_wlp_total {p : Program S ε α} {d : D} {Q : Except ε α → D → Prop}
    (h : p.wlp Eq .total d [] fun r d _ => Q r d) : Q (p.run d d).1 (p.run d d).2 := by
  rcases run_of_wlp h with ⟨_, _, hfalse⟩ | ⟨_, hQ⟩
  · exact hfalse.elim
  · exact hQ

/-! ## One transaction -/

/-- The result of a program of one transaction and the data with its writes; a
commit at the end changes neither. -/
def eval : Program S ε α → D → Except ε (α × D)
  | ret (.ok a), d => .ok (a, d)
  | ret (.error e), _ => .error e
  | stmt s next, d =>
    match exec s d with
    | .error e => .error e
    | .ok (b, ws) => (next b).eval (applyAll S ws d)
  | commit next, d => next.eval d
  | rollback next, d => next.eval d

@[simp] theorem eval_pure (a : α) (d : D) : (pure a : Program S ε α).eval d = .ok (a, d) := rfl

@[simp] theorem eval_fail (e : ε) (d : D) : (fail e : Program S ε α).eval d = .error e := rfl

@[simp] theorem eval_commitTx (d : D) : (commitTx : Program S ε Unit).eval d = .ok ((), d) := rfl

theorem eval_perform (s : S β) (d : D) :
    (perform s : Program S ε β).eval d = (exec s d).map fun r => (r.1, applyAll S r.2 d) := by
  rw [perform, eval]
  cases exec s d <;> rfl

theorem eval_perform_of_exec {s : S β} {d : D} {b : β} {ws : List W}
    (h : exec s d = .ok (b, ws)) :
    (perform s : Program S ε β).eval d = .ok (b, applyAll S ws d) := by
  rw [eval_perform, h]
  rfl

/-- What a statement that has succeeded has answered and written. -/
theorem eval_perform_eq_ok {s : S β} {d d' : D} {b : β}
    (h : (perform s : Program S ε β).eval d = .ok (b, d')) :
    ∃ ws, exec s d = .ok (b, ws) ∧ d' = applyAll S ws d := by
  rw [eval_perform] at h
  cases hexec : exec s d with
  | error e =>
    rw [hexec] at h
    cases h
  | ok r =>
    rw [hexec] at h
    cases h
    exact ⟨r.2, rfl, rfl⟩

theorem eval_bind (p : Program S ε α) (f : α → Program S ε β) (d : D) :
    (p >>= f).eval d = (p.eval d).bind fun r => (f r.1).eval r.2 := by
  change (p.bind f).eval d = _
  induction p generalizing d with
  | ret result => cases result <;> rfl
  | stmt s next ih =>
    rw [bind, eval, eval]
    cases exec s d with
    | error e => rfl
    | ok r => exact ih r.1 _
  | commit next ih => exact ih d
  | rollback next ih => exact ih d

theorem eval_bind_ok {p : Program S ε α} {f : α → Program S ε β} {d d' : D} {a : α}
    (h : p.eval d = .ok (a, d')) : (p >>= f).eval d = (f a).eval d' := by
  rw [eval_bind, h]
  rfl

theorem eval_bind_error {p : Program S ε α} {f : α → Program S ε β} {d : D} {e : ε}
    (h : p.eval d = .error e) : (p >>= f).eval d = .error e := by
  rw [eval_bind, h]
  rfl

/-- What a sequence has done when it has succeeded. -/
theorem eval_bind_eq_ok {p : Program S ε α} {f : α → Program S ε β} {d d' : D} {b : β}
    (h : (p >>= f).eval d = .ok (b, d')) :
    ∃ a v, p.eval d = .ok (a, v) ∧ (f a).eval v = .ok (b, d') := by
  rw [eval_bind] at h
  cases hp : p.eval d with
  | error e => rw [hp] at h; cases h
  | ok r =>
    rw [hp] at h
    exact ⟨r.1, r.2, rfl, h⟩

/-! ## What a program writes -/

/-- Every write of the program has a property, whatever the program finds. -/
def Writes (P : W → Prop) : Program S ε α → Prop
  | ret _ => True
  | stmt s next => (∀ d b ws, exec s d = .ok (b, ws) → ∀ w ∈ ws, P w) ∧ ∀ b, (next b).Writes P
  | commit next | rollback next => next.Writes P

theorem writes_pure (P : W → Prop) (a : α) : (pure a : Program S ε α).Writes P := trivial

theorem writes_fail (P : W → Prop) (e : ε) : (fail e : Program S ε α).Writes P := trivial

theorem writes_perform {P : W → Prop} {s : S β}
    (h : ∀ d b ws, exec s d = .ok (b, ws) → ∀ w ∈ ws, P w) :
    (perform s : Program S ε β).Writes P :=
  ⟨h, fun _ => trivial⟩

theorem writes_bind {P : W → Prop} {p : Program S ε α} {f : α → Program S ε β} (hp : p.Writes P)
    (hf : ∀ a, (f a).Writes P) : (p >>= f).Writes P := by
  change (p.bind f).Writes P
  induction p with
  | ret result =>
    cases result with
    | ok a => exact hf a
    | error e => trivial
  | stmt s next ih => exact ⟨hp.1, fun b => ih b (hp.2 b)⟩
  | commit next ih => exact ih hp
  | rollback next ih => exact ih hp

/-- A transaction that succeeds has done its writes and nothing else. -/
theorem eval_of_writes {P : W → Prop} {p : Program S ε α} {d d' : D} {a : α} (h : p.Writes P)
    (heval : p.eval d = .ok (a, d')) : ∃ ws, (∀ w ∈ ws, P w) ∧ d' = applyAll S ws d := by
  induction p generalizing d with
  | ret result =>
    cases result with
    | ok b =>
      cases heval
      exact ⟨[], fun w hw => absurd hw List.not_mem_nil, rfl⟩
    | error e => cases heval
  | stmt s next ih =>
    rw [eval] at heval
    cases hexec : exec s d with
    | error e =>
      rw [hexec] at heval
      cases heval
    | ok r =>
      rw [hexec] at heval
      obtain ⟨ws, hws, rfl⟩ := ih r.1 (h.2 r.1) heval
      refine ⟨r.2 ++ ws, fun w hw => ?_, (applyAll_append r.2 ws d).symm⟩
      rcases List.mem_append.1 hw with hw | hw
      · exact h.1 d r.1 r.2 hexec w hw
      · exact hws w hw
  | commit next ih => exact ih h heval
  | rollback next ih => exact ih h heval

/-- The program neither ends its transaction nor starts another. -/
def Open : Program S ε α → Prop
  | ret _ => True
  | stmt _ next => ∀ b, (next b).Open
  | commit _ | rollback _ => False

/-- The program is one transaction that it commits when nothing fails. -/
def Atomic : Program S ε α → Prop
  | ret (.ok _) => False
  | ret (.error _) => True
  | stmt _ next => ∀ b, (next b).Atomic
  | commit next => ∃ a, next = ret (.ok a)
  | rollback _ => False

theorem open_pure (a : α) : (pure a : Program S ε α).Open := trivial

theorem open_fail (e : ε) : (fail e : Program S ε α).Open := trivial

theorem open_perform (s : S β) : (perform s : Program S ε β).Open := fun _ => trivial

theorem open_bind {p : Program S ε α} {f : α → Program S ε β} (hp : p.Open)
    (hf : ∀ a, (f a).Open) : (p >>= f).Open := by
  change (p.bind f).Open
  induction p with
  | ret result =>
    cases result with
    | ok a => exact hf a
    | error e => trivial
  | stmt s next ih => exact fun b => ih b (hp b)
  | commit next => exact hp.elim
  | rollback next => exact hp.elim

theorem atomic_commitTx : (commitTx : Program S ε Unit).Atomic := ⟨(), rfl⟩

theorem atomic_bind {p : Program S ε α} {f : α → Program S ε β} (hp : p.Open)
    (hf : ∀ a, (f a).Atomic) : (p >>= f).Atomic := by
  change (p.bind f).Atomic
  induction p with
  | ret result =>
    cases result with
    | ok a => exact hf a
    | error e => trivial
  | stmt s next ih => exact fun b => ih b (hp b)
  | commit next => exact hp.elim
  | rollback next => exact hp.elim

/-- The outcome of a transaction: its data, or what was there before it. -/
def outcome (committed : D) : Except ε (α × D) → Except ε α × D
  | .ok (a, d) => (.ok a, d)
  | .error e => (.error e, committed)

@[simp] theorem outcome_ok (committed : D) (a : α) (d : D) :
    outcome committed (.ok (a, d) : Except ε (α × D)) = (.ok a, d) := rfl

@[simp] theorem outcome_error (committed : D) (e : ε) :
    outcome committed (.error e : Except ε (α × D)) = (.error e, committed) := rfl

/-- A statement that is answered adds its writes to the view. -/
theorem run_perform_ok {s : S α} {f : α → Program S ε β} {committed view : D} {a : α} {ws : List W}
    (h : exec s view = .ok (a, ws)) :
    (perform s >>= f).run committed view = (f a).run committed (applyAll S ws view) := by
  change (stmt s f).run committed view = _
  rw [run, h]

/-- A statement that is refused ends the program. -/
theorem run_perform_error {s : S α} {f : α → Program S ε β} {committed view : D} {e : ε}
    (h : exec s view = .error e) : (perform s >>= f).run committed view = (.error e, committed) := by
  change (stmt s f).run committed view = _
  rw [run, h]

/-- A program that leaves its transaction open hands its view to the next one. -/
theorem run_bind_of_open {p : Program S ε α} (h : p.Open) (f : α → Program S ε β)
    (committed view : D) :
    (p >>= f).run committed view =
      match p.eval view with
      | .ok (a, d) => (f a).run committed d
      | .error e => (.error e, committed) := by
  change (p.bind f).run committed view = _
  induction p generalizing view with
  | ret result => cases result <;> rfl
  | stmt s next ih =>
    rw [bind, run, eval]
    cases exec s view with
    | error e => rfl
    | ok r => exact ih r.1 (h r.1) _
  | commit next => exact h.elim
  | rollback next => exact h.elim

/-- The last part of a transaction and its commit. -/
theorem run_commit_of_open {p : Program S ε α} (h : p.Open) (b : β) (committed view : D) :
    (do
      let _ ← p
      commitTx
      return b : Program S ε β).run committed view =
      outcome committed ((p.eval view).map fun r => (b, r.2)) := by
  rw [run_bind_of_open h]
  cases p.eval view with
  | ok r => rfl
  | error e => rfl

/-- A transaction that runs alone happens as a whole or not at all. -/
theorem run_of_atomic {p : Program S ε α} (h : p.Atomic) (committed view : D) :
    p.run committed view = outcome committed (p.eval view) := by
  induction p generalizing view with
  | ret result =>
    cases result with
    | ok a => exact h.elim
    | error e => rfl
  | stmt s next ih =>
    rw [run, eval]
    cases exec s view with
    | error e => rfl
    | ok r => exact ih r.1 (h r.1) _
  | commit next =>
    obtain ⟨a, rfl⟩ := h
    rfl
  | rollback next => exact h.elim

/-- What a transaction that has committed has done. -/
theorem eval_of_run_ok {p : Program S ε α} (h : p.Atomic) {committed view d : D} {a : α}
    (hrun : p.run committed view = (.ok a, d)) : p.eval view = .ok (a, d) := by
  rw [run_of_atomic h] at hrun
  cases heval : p.eval view with
  | error e => rw [heval] at hrun; cases hrun
  | ok r => rw [heval] at hrun; cases hrun; rfl

/-- A transaction that fails leaves the data as it was. -/
theorem eq_of_run_error {p : Program S ε α} (h : p.Atomic) {committed view d : D} {e : ε}
    (hrun : p.run committed view = (.error e, d)) : d = committed := by
  rw [run_of_atomic h] at hrun
  cases heval : p.eval view with
  | error e => rw [heval] at hrun; cases hrun; rfl
  | ok r => rw [heval] at hrun; cases hrun

end Program

end Transactional
