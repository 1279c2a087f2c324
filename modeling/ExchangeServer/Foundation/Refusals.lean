import ExchangeServer.Foundation.ReadCommitted

/-!
# Stores that refuse statements beforehand

A store may refuse a statement for what it carries, whatever its data is: a text
that no column holds, a key that no index takes. Such a store is made from one that
looks at its data only. A program that runs alone then ends with a result exactly
when it does so against the other store and issues no statement that is refused
beforehand; and what an interleaving leads to is what some interleaving leads to
without these refusals, where the session has been closed instead.

## Main definitions

- `Store.refusing`, `Locking.refusing`: the store with its refusals
- `Program.Each`: every statement of a program is of a kind
- `Program.Answered`: so is every statement it issues, and it is answered

## Main results

- `Program.runRefusing_eq_run`: a program that is refused nothing
- `Program.isOk_runRefusing_iff`: a program that runs alone
- `System.exists_steps_of_refusing`: interleavings
-/

namespace Transactional

open Store

variable {S : Type → Type} {ε α β D W : Type}

/-- The store that also refuses the statements for which there is an error. -/
@[reducible] def Store.refusing [Store S D W ε] (refuses : (β : Type) → S β → Option ε) :
    Store S D W ε where
  write := Store.write S
  exec s d :=
    match refuses _ s with
    | some e => .error e
    | none => Store.exec s d

namespace Program

/-- Every statement of a program satisfies `P`, whatever the answers are. -/
def Each (P : (β : Type) → S β → Prop) : Program S ε α → Prop
  | ret _ => True
  | stmt s next => P _ s ∧ ∀ b, (next b).Each P
  | commit next => next.Each P
  | rollback next => next.Each P

section Each

variable {P : (β : Type) → S β → Prop}

theorem each_pure (a : α) : (pure a : Program S ε α).Each P := trivial

theorem each_fail (e : ε) : (fail e : Program S ε α).Each P := trivial

theorem each_commitTx : (commitTx : Program S ε Unit).Each P := trivial

theorem each_rollbackTx : (rollbackTx : Program S ε Unit).Each P := trivial

theorem each_perform {s : S β} (h : P _ s) : (perform s : Program S ε β).Each P :=
  ⟨h, fun _ => trivial⟩

theorem each_bind {p : Program S ε α} {f : α → Program S ε β} (hp : p.Each P)
    (hf : ∀ a, (f a).Each P) : (p >>= f).Each P := by
  change (p.bind f).Each P
  induction p with
  | ret result =>
    cases result with
    | ok a => exact hf a
    | error e => exact trivial
  | stmt s next ih => exact ⟨hp.1, fun b => ih b (hp.2 b)⟩
  | commit next ih => exact ih hp
  | rollback next ih => exact ih hp

end Each

variable [Store S D W ε]

/-- A program that runs alone against a store that refuses statements beforehand. -/
def runRefusing (refuses : (β : Type) → S β → Option ε) (p : Program S ε α) (committed view : D) :
    Except ε α × D :=
  @run S ε α D W (.refusing refuses) p committed view

/-- Every statement that a program issues when it runs alone satisfies `P` and is
answered, and the program ends with `Q`. -/
def Answered (P : (β : Type) → S β → Prop) :
    Program S ε α → D → List W → (Except ε α → D → List W → Prop) → Prop
  | ret result, d, ws, Q => Q result d ws
  | stmt s next, d, ws, Q =>
    P _ s ∧ match exec s (applyAll S ws d) with
      | .error _ => False
      | .ok (b, ws') => (next b).Answered P d (ws ++ ws') Q
  | commit next, d, ws, Q => next.Answered P (applyAll S ws d) [] Q
  | rollback next, d, _, Q => next.Answered P d [] Q

section Rules

variable {P : (β : Type) → S β → Prop} {Q : Except ε α → D → List W → Prop} {d : D} {ws : List W}

@[simp] theorem answered_pure {a : α} :
    (pure a : Program S ε α).Answered P d ws Q ↔ Q (.ok a) d ws := Iff.rfl

@[simp] theorem answered_fail {e : ε} :
    (fail e : Program S ε α).Answered P d ws Q ↔ Q (.error e) d ws := Iff.rfl

@[simp] theorem answered_commitTx {Q : Except ε Unit → D → List W → Prop} :
    (commitTx : Program S ε Unit).Answered P d ws Q ↔ Q (.ok ()) (applyAll S ws d) [] := Iff.rfl

@[simp] theorem answered_rollbackTx {Q : Except ε Unit → D → List W → Prop} :
    (rollbackTx : Program S ε Unit).Answered P d ws Q ↔ Q (.ok ()) d [] := Iff.rfl

/-- A statement with an answer. -/
theorem answered_perform_of_exec {s : S β} {Q : Except ε β → D → List W → Prop} {b : β}
    {ws' : List W} (he : exec s (applyAll S ws d) = .ok (b, ws')) :
    (perform s).Answered P d ws Q ↔ P _ s ∧ Q (.ok b) d (ws ++ ws') := by
  rw [perform, Answered, he]
  rfl

/-- A statement without an answer. -/
theorem not_answered_perform {s : S β} {Q : Except ε β → D → List W → Prop} {e : ε}
    (he : exec s (applyAll S ws d) = .error e) : ¬(perform s).Answered P d ws Q := by
  rw [perform, Answered, he]
  exact And.right

private theorem answered_bind' {p : Program S ε α} {f : α → Program S ε β}
    {Q : Except ε β → D → List W → Prop} :
    (p.bind f).Answered P d ws Q ↔ p.Answered P d ws fun r d ws =>
      match r with
      | .ok a => (f a).Answered P d ws Q
      | .error e => Q (.error e) d ws := by
  induction p generalizing d ws with
  | ret result => cases result <;> exact Iff.rfl
  | stmt s next ih =>
    rw [bind, Answered, Answered]
    cases exec s (applyAll S ws d) with
    | error e => exact Iff.rfl
    | ok r => exact and_congr_right fun _ => ih r.1
  | commit next ih => exact ih
  | rollback next ih => exact ih

theorem answered_bind {p : Program S ε α} {f : α → Program S ε β}
    {Q : Except ε β → D → List W → Prop} :
    (p >>= f).Answered P d ws Q ↔ p.Answered P d ws fun r d ws =>
      match r with
      | .ok a => (f a).Answered P d ws Q
      | .error e => Q (.error e) d ws := answered_bind'

theorem answered_attempt {p : Program S ε α} {Q : Except ε (Except ε α) → D → List W → Prop} :
    p.attempt.Answered P d ws Q ↔ p.Answered P d ws fun r d ws =>
      match r with
      | .ok a => Q (.ok (.ok a)) d ws
      | .error e => Q (.ok (.error e)) d [] := by
  induction p generalizing d ws with
  | ret result => cases result <;> exact Iff.rfl
  | stmt s next ih =>
    rw [attempt, Answered, Answered]
    cases exec s (applyAll S ws d) with
    | error e => exact Iff.rfl
    | ok r => exact and_congr_right fun _ => ih r.1
  | commit next ih => exact ih
  | rollback next ih => exact ih

end Rules

/-- The program ends with a result. -/
def Succeeds : Except ε α → D → List W → Prop := fun r _ _ => ∃ a, r = .ok a

section Refusals

variable {refuses : (β : Type) → S β → Option ε} {committed view : D}

theorem runRefusing_stmt {s : S β} {next : β → Program S ε α} :
    (stmt s next).runRefusing refuses committed view =
      match @exec S D W ε (.refusing refuses) _ s view with
      | .error e => (.error e, committed)
      | .ok (b, ws) => (next b).runRefusing refuses committed (applyAll S ws view) := by
  unfold runRefusing
  conv_lhs => unfold run
  cases @exec S D W ε (.refusing refuses) _ s view with
  | error e => rfl
  | ok r => rfl

theorem exec_refusing_of_some {s : S β} {e : ε} (h : refuses _ s = some e) :
    @exec S D W ε (.refusing refuses) _ s view = .error e := by
  unfold Store.refusing
  simp only [h]

theorem exec_refusing_of_none {s : S β} (h : refuses _ s = none) :
    @exec S D W ε (.refusing refuses) _ s view = exec s view := by
  unfold Store.refusing
  simp only [h]

/-- A program none of whose statements is refused beforehand. -/
theorem runRefusing_eq_run {p : Program S ε α} (h : p.Each fun β s => refuses β s = none) :
    p.runRefusing refuses committed view = p.run committed view := by
  induction p generalizing committed view with
  | ret result => rfl
  | stmt s next ih =>
    rw [runRefusing_stmt, exec_refusing_of_none h.1, run]
    cases exec s view with
    | error e => rfl
    | ok r => exact ih r.1 (h.2 r.1)
  | commit next ih => exact ih h
  | rollback next ih => exact ih h

/-- A program has a result when all of its statements are answered and none is refused
beforehand. -/
theorem isOk_runRefusing_iff {p : Program S ε α} {d : D} {ws : List W} :
    (∃ a, (p.runRefusing refuses d (applyAll S ws d)).1 = .ok a) ↔
      p.Answered (fun β s => refuses β s = none) d ws Succeeds := by
  induction p generalizing d ws with
  | ret result => exact Iff.rfl
  | stmt s next ih =>
    rw [Answered]
    cases hrefuses : refuses _ s with
    | some e =>
      rw [runRefusing_stmt, exec_refusing_of_some hrefuses]
      exact iff_of_false (by rintro ⟨a, ⟨⟩⟩) (by rintro ⟨⟨⟩, -⟩)
    | none =>
      rw [runRefusing_stmt, exec_refusing_of_none hrefuses]
      cases exec s (applyAll S ws d) with
      | error e => exact iff_of_false (by rintro ⟨a, ⟨⟩⟩) And.right
      | ok r =>
        have hnext := @ih r.1 d (ws ++ r.2)
        rw [applyAll_append] at hnext
        exact hnext.trans (iff_and_self.2 fun _ => rfl)
  | commit next ih => exact @ih (applyAll S ws d) []
  | rollback next ih => exact @ih d []

/-- Such a run is one without refusals. -/
theorem run_of_runRefusing {p : Program S ε α} {a : α}
    (h : (p.runRefusing refuses committed view).1 = .ok a) :
    p.run committed view = p.runRefusing refuses committed view := by
  induction p generalizing committed view with
  | ret result => rfl
  | stmt s next ih =>
    cases hrefuses : refuses _ s with
    | some e =>
      rw [runRefusing_stmt, exec_refusing_of_some hrefuses] at h
      cases h
    | none =>
      rw [runRefusing_stmt, exec_refusing_of_none hrefuses] at h ⊢
      rw [run]
      cases hexec : exec s view with
      | error e => rfl
      | ok r =>
        rw [hexec] at h
        exact ih r.1 h
  | commit next ih => exact ih h
  | rollback next ih => exact ih h

end Refusals

end Program

/-! ## Interleavings -/

variable {K V L : Type}

/-- Refusals add nothing to what statements write. -/
@[reducible] def Locking.refusing [Locking S D W ε K V] (refuses : (β : Type) → S β → Option ε) :
    Locking S D W ε K V where
  toStore := .refusing refuses
  keys := Locking.keys S
  look := Locking.look S
  le := Locking.le S
  le_refl := Locking.le_refl
  le_trans := Locking.le_trans
  le_write := Locking.le_write
  write_mono := Locking.write_mono
  look_write_of_not_mem := Locking.look_write_of_not_mem
  look_write := Locking.look_write
  exec_congr := by
    intro β s v v' b ws h hws hle hlook
    cases hrefuses : refuses _ s with
    | some e =>
      rw [Program.exec_refusing_of_some hrefuses] at h
      cases h
    | none =>
      rw [Program.exec_refusing_of_none hrefuses] at h ⊢
      exact Locking.exec_congr h hws hle hlook

namespace System

variable [DecidableEq K] [Locking S D W ε K V]

/-- A schedule against a store that refuses statements beforehand. -/
def stepsRefusing (refuses : (β : Type) → S β → Option ε) (prog : L → Program S ε α)
    (σ : System S ε α D W K L) (actions : List (Action L)) : Option (System S ε α D W K L) :=
  @steps S D W ε K V L α _ (.refusing refuses) prog σ actions

/-- A refusal closes the session. -/
theorem exists_step_of_refusing {refuses : (β : Type) → S β → Option ε} {prog : L → Program S ε α}
    {σ σ' : System S ε α D W K L} {a : Action L}
    (h : @step S D W ε K V L α _ (.refusing refuses) prog σ a = some σ') :
    ∃ a', σ.step prog a' = some σ' := by
  cases a with
  | start t l => exact ⟨.start t l, h⟩
  | commit t => exact ⟨.commit t, h⟩
  | rollback t => exact ⟨.rollback t, h⟩
  | close t => exact ⟨.close t, h⟩
  | exec t =>
    unfold step at h
    dsimp only at h
    split at h
    · next l β s next ws hs =>
      cases hrefuses : refuses _ s with
      | some e =>
        rw [Program.exec_refusing_of_some hrefuses] at h
        exact ⟨.close t, by rw [step, hs]; exact h⟩
      | none =>
        rw [Program.exec_refusing_of_none hrefuses] at h
        exact ⟨.exec t, by rw [step, hs]; exact h⟩
    · cases h

/-- What a schedule leads to with refusals, one leads to without. -/
theorem exists_steps_of_refusing {refuses : (β : Type) → S β → Option ε}
    {prog : L → Program S ε α} {σ σ' : System S ε α D W K L} {actions : List (Action L)}
    (h : σ.stepsRefusing refuses prog actions = some σ') :
    ∃ actions', σ.steps prog actions' = some σ' := by
  induction actions generalizing σ with
  | nil => exact ⟨[], h⟩
  | cons a actions ih =>
    obtain ⟨τ, hstep, hrest⟩ := Option.bind_eq_some_iff.1 h
    obtain ⟨a', hstep'⟩ := exists_step_of_refusing hstep
    obtain ⟨actions', hrest'⟩ := ih hrest
    refine ⟨a' :: actions', ?_⟩
    rw [steps, hstep']
    exact hrest'

end System

end Transactional
