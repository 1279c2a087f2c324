import ExchangeServer.Foundation.Program

/-!
# Executions of programs, statement by statement

Between two statements of a program the committed data may become another, so an
execution is described by the statements that were answered, each from the data
of its moment. Two things carry over to
every execution: the writes have a property that all statements guarantee, and
the program ends with the part that it ends with.

## Main definitions

- `Reaches`: what a program has written and how it goes on
- `EndsIn`: a program whose last part is known, up to which its writes have a
  property
-/

namespace Transactional

namespace Program

variable {S : Type → Type} {ε α β D W : Type} [Store S D W ε]

/-- The program has written `ws` without ending its transaction, and goes on as
`q`; each statement was answered from the data of its moment. -/
inductive Reaches (p : Program S ε α) : List W → Program S ε α → Prop
  | start : Reaches p [] p
  | stmt {γ : Type} {s : S γ} {next : γ → Program S ε α} {ws ws' : List W} {d : D} {b : γ}
      (before : Reaches p ws (.stmt s next)) (answer : Store.exec s d = .ok (b, ws')) :
      Reaches p (ws ++ ws') (next b)

/-- The program ends with `tail` or fails, and what it writes before has a
property. -/
inductive EndsIn (P : W → Prop) (tail : Program S ε α) : Program S ε α → Prop
  | tail {p : Program S ε α} (h : p = tail) : EndsIn P tail p
  | failed (e : ε) : EndsIn P tail (.ret (.error e))
  | stmt {γ : Type} {s : S γ} {next : γ → Program S ε α}
      (writes : ∀ d b ws, Store.exec s d = .ok (b, ws) → ∀ w ∈ ws, P w)
      (rest : ∀ b, EndsIn P tail (next b)) : EndsIn P tail (.stmt s next)

theorem Writes.mono {P Q : W → Prop} {p : Program S ε α} (h : p.Writes P)
    (hPQ : ∀ w, P w → Q w) : p.Writes Q := by
  induction p with
  | ret result => trivial
  | stmt s next ih =>
    exact ⟨fun d b ws hs w hw => hPQ w (h.1 d b ws hs w hw), fun b => ih b (h.2 b)⟩
  | commit next ih => exact ih h
  | rollback next ih => exact ih h

theorem EndsIn.bind {P : W → Prop} {tail : Program S ε β} {p : Program S ε α}
    {f : α → Program S ε β} (hopen : p.Open) (hwrites : p.Writes P)
    (hf : ∀ a, EndsIn P tail (f a)) : EndsIn P tail (p >>= f) := by
  change EndsIn P tail (p.bind f)
  induction p with
  | ret result =>
    cases result with
    | ok a => exact hf a
    | error e => exact .failed e
  | stmt s next ih => exact .stmt hwrites.1 fun b => ih b (hopen b) (hwrites.2 b)
  | commit next => exact hopen.elim
  | rollback next => exact hopen.elim

end Program

end Transactional
