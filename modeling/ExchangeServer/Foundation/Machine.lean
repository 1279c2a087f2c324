import Mathlib.Data.List.Basic
import Mathlib.Tactic.Common

/-!
# Runs of a machine

A machine is a function that gives the state after an action, or none when the
action is not possible. A run is a list of actions, each possible where it
stands. Whatever one step keeps, a run keeps, and its states are those after
its initial segments.

## Main results

- `inv_of_run`: invariants
- `inv_of_along`: invariants of the runs that meet a condition at each step
- `rel_of_run`: relations between the ends of a run
- `run_take_succ`: the states of a run, one after the other
-/

namespace Machine

variable {S A : Type*} {step : S → A → Option S}

/-- The state after a list of actions, if each of them is possible. -/
def run (step : S → A → Option S) (s : S) : List A → Option S
  | [] => some s
  | a :: as => (step s a).bind fun s' => run step s' as

@[simp] theorem run_nil (s : S) : run step s [] = some s := rfl

theorem run_cons (s : S) (a : A) (as : List A) :
    run step s (a :: as) = (step s a).bind fun s' => run step s' as := rfl

theorem run_append (s : S) (as as' : List A) :
    run step s (as ++ as') = (run step s as).bind fun s' => run step s' as' := by
  induction as generalizing s with
  | nil => rfl
  | cons a as ih =>
    rw [List.cons_append, run_cons, run_cons, Option.bind_assoc]
    exact congrArg _ (funext ih)

/-- One more action of a run. -/
theorem run_take_succ {s : S} {as : List A} {n : ℕ} {a : A} (ha : as[n]? = some a) :
    run step s (as.take (n + 1)) = (run step s (as.take n)).bind fun s' => step s' a := by
  rw [List.take_add_one, ha, Option.toList_some, run_append]
  refine congrArg _ (funext fun s' => ?_)
  exact Option.bind_fun_some _

/-- A property that every step keeps holds at the end of a run. -/
theorem inv_of_run {P : S → Prop} (hstep : ∀ {s s' a}, P s → step s a = some s' → P s') {s s' : S}
    {as : List A} (h : run step s as = some s') (hs : P s) : P s' := by
  induction as generalizing s with
  | nil =>
    cases h
    exact hs
  | cons a as ih =>
    obtain ⟨t, ht, h⟩ := Option.bind_eq_some_iff.1 h
    exact ih h (hstep hs ht)

/-- Every action of a run meets a condition where it stands. -/
def Along (step : S → A → Option S) (P : S → A → Prop) (s : S) (as : List A) : Prop :=
  ∀ n s' a, run step s (as.take n) = some s' → as[n]? = some a → P s' a

theorem along_cons {P : S → A → Prop} {s : S} {a : A} {as : List A} :
    Along step P s (a :: as) ↔ P s a ∧ ∀ s', step s a = some s' → Along step P s' as := by
  constructor
  · intro h
    refine ⟨h 0 s a rfl rfl, fun s' hs' n t b ht hb => h (n + 1) t b ?_ hb⟩
    rw [List.take_succ_cons, run_cons, hs']
    exact ht
  · rintro ⟨ha, h⟩ n t b ht hb
    cases n with
    | zero =>
      cases ht
      cases hb
      exact ha
    | succ n =>
      rw [List.take_succ_cons, run_cons] at ht
      obtain ⟨s', hs', ht⟩ := Option.bind_eq_some_iff.1 ht
      exact h s' hs' n t b ht hb

theorem along_nil {P : S → A → Prop} {s : S} : Along step P s [] :=
  fun _ _ _ _ h => nomatch h

theorem along_append {P : S → A → Prop} {s : S} {as as' : List A} :
    Along step P s (as ++ as') ↔
      Along step P s as ∧ ∀ s', run step s as = some s' → Along step P s' as' := by
  induction as generalizing s with
  | nil => simp [along_nil]
  | cons a as ih =>
    rw [List.cons_append, along_cons, along_cons, run_cons, and_assoc]
    refine and_congr_right fun _ => ?_
    constructor
    · intro h
      refine ⟨fun t ht => (ih.1 (h t ht)).1, fun s' hs' => ?_⟩
      obtain ⟨t, ht, hs'⟩ := Option.bind_eq_some_iff.1 hs'
      exact (ih.1 (h t ht)).2 s' hs'
    · rintro ⟨h, h'⟩ t ht
      exact ih.2 ⟨h t ht, fun s' hs' => h' s' (Option.bind_eq_some_iff.2 ⟨t, ht, hs'⟩)⟩

instance (P : S → A → Prop) [∀ s a, Decidable (P s a)] :
    ∀ s as, Decidable (Along step P s as)
  | _, [] => isTrue along_nil
  | s, a :: as =>
    match hs : step s a with
    | none => decidable_of_iff (P s a) (by simp [along_cons, hs])
    | some s' =>
      have := instDecidableAlong P s' as
      decidable_of_iff (P s a ∧ Along step P s' as) (by simp [along_cons, hs])

/-- A property that every step keeps when it meets the condition holds at the
end of a run along which the condition is met. -/
theorem inv_of_along {P : S → A → Prop} {I : S → Prop}
    (hstep : ∀ {s s' a}, I s → P s a → step s a = some s' → I s') {s s' : S} {as : List A}
    (halong : Along step P s as) (h : run step s as = some s') (hs : I s) : I s' := by
  induction as generalizing s with
  | nil =>
    cases h
    exact hs
  | cons a as ih =>
    obtain ⟨t, ht, h⟩ := Option.bind_eq_some_iff.1 h
    obtain ⟨ha, halong⟩ := along_cons.1 halong
    exact ih (halong t ht) h (hstep hs ha ht)

/-- A preorder that every step follows relates the ends of a run. -/
theorem rel_of_run {R : S → S → Prop} (hrefl : ∀ s, R s s)
    (htrans : ∀ {a b c}, R a b → R b c → R a c) (hstep : ∀ {s s' a}, step s a = some s' → R s s')
    {s s' : S} {as : List A} (h : run step s as = some s') : R s s' := by
  induction as generalizing s with
  | nil =>
    cases h
    exact hrefl _
  | cons a as ih =>
    obtain ⟨t, ht, h⟩ := Option.bind_eq_some_iff.1 h
    exact htrans (hstep ht) (ih h)

end Machine
