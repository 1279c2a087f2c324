import Mathlib.Data.Finset.Insert
import Mathlib.Data.List.DropRight
import Mathlib.Data.List.Nodup

/-!
# Sliding windows

A window remembers the last elements that have been admitted to it, up to a
capacity, and admits an element that it does not remember. A window that
remembers an element twice, or more than its capacity, cannot be built.

An element may leave the window and be admitted again, so what the window
remembers depends on all calls so far. It is always the end of the list of all
admissions.

## Main results

- `call_eq_true_iff`: which calls are answered from the window
- `order_call`: one call keeps the window at the end of the admissions
-/

/-- The end of a list is the end of what follows from its end. -/
theorem rtake_rtake_concat {α : Type*} (l : List α) (n : ℕ) (a : α) :
    (l.rtake n ++ [a]).rtake n = (l ++ [a]).rtake n := by
  cases n with
  | zero => rw [List.rtake_zero, List.rtake_zero]
  | succ n =>
    rw [List.rtake_concat_succ, List.rtake_concat_succ, List.rtake, List.rtake, List.rtake,
      List.drop_drop, List.length_drop]
    refine congrArg (fun k => l.drop k ++ [a]) ?_
    omega

/-- The elements that are remembered, the oldest first. -/
structure Window (α : Type*) (capacity : ℕ) where
  order : List α
  nodup : order.Nodup
  bounded : order.length ≤ capacity

namespace Window

variable {α : Type*} {capacity : ℕ}

def empty : Window α capacity where
  order := []
  nodup := List.nodup_nil
  bounded := Nat.zero_le capacity

theorem nodup_concat (w : Window α capacity) {a : α} (h : a ∉ w.order) : (w.order ++ [a]).Nodup := by
  rw [← List.concat_eq_append]
  exact w.nodup.concat h

/-- Remember a new element, and forget the oldest one when there are too many. -/
def remember (w : Window α capacity) (a : α) (h : a ∉ w.order) : Window α capacity where
  order := (w.order ++ [a]).rtake capacity
  nodup := (w.nodup_concat h).sublist (List.drop_sublist _ _)
  bounded := by
    rw [List.rtake, List.length_drop]
    omega

/-- Whether the window remembers an element, which it admits if not. A call
without an element changes nothing. -/
def call [DecidableEq α] (w : Window α capacity) : Option α → Bool × Window α capacity
  | none => (false, w)
  | some a => if h : a ∈ w.order then (true, w) else (false, w.remember a h)

/-- The elements that have been admitted by calls with these answers. -/
def admitted (history : List (Option α × Bool)) : List α :=
  history.filterMap fun call => if call.2 then none else call.1

theorem admitted_concat (history : List (Option α × Bool)) (a : Option α) (answer : Bool) :
    admitted (history ++ [(a, answer)]) =
      admitted history ++ (if answer then none else a).toList := by
  rw [admitted, List.filterMap_append, List.filterMap_cons, List.filterMap_nil, admitted]
  cases answer with
  | true => rfl
  | false => cases a <;> rfl

variable [DecidableEq α]

theorem call_eq_true_iff (w : Window α capacity) (a : Option α) :
    (w.call a).1 = true ↔ ∃ x, a = some x ∧ x ∈ w.order := by
  cases a with
  | none => exact iff_of_false Bool.false_ne_true fun ⟨x, hx, _⟩ => nomatch hx
  | some a =>
    rw [call]
    split
    · next h => exact iff_of_true rfl ⟨a, rfl, h⟩
    · next h =>
      refine iff_of_false Bool.false_ne_true fun ⟨x, hx, hmem⟩ => h ?_
      rw [Option.some.inj hx]
      exact hmem

/-- A call keeps the window at the end of the admissions. -/
theorem order_call {w : Window α capacity} {history : List (Option α × Bool)}
    (h : w.order = (admitted history).rtake capacity) (a : Option α) :
    (w.call a).2.order = (admitted (history ++ [(a, (w.call a).1)])).rtake capacity := by
  rw [admitted_concat]
  cases a with
  | none =>
    rw [call, if_neg Bool.false_ne_true, Option.toList_none, List.append_nil]
    exact h
  | some a =>
    rw [call]
    split
    · -- An element that is remembered is not admitted again.
      rw [if_pos rfl, Option.toList_none, List.append_nil]
      exact h
    · rw [if_neg Bool.false_ne_true, Option.toList_some]
      show (w.order ++ [a]).rtake capacity = _
      rw [h, rtake_rtake_concat]

end Window
