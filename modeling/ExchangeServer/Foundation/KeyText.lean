import Mathlib

/-!
# Text keys built from separated parts

Services build unique keys by writing a fixed head and then several parts with
a colon between them. Two such keys are equal only when their parts are, as
long as all parts but one are free of colons; keys with heads of which neither
starts the other are never equal.
-/

namespace KeyText

/-- Text without the separator. -/
def ColonFree (s : String) : Prop := ':' ∉ s.toList

theorem colonFree_append {s t : String} (hs : ColonFree s) (ht : ColonFree t) :
    ColonFree (s ++ t) := by
  unfold ColonFree at *
  rw [String.toList_append, List.mem_append]
  exact not_or.2 ⟨hs, ht⟩

theorem colonFree_nat_repr (n : ℕ) : ColonFree n.repr := by
  intro h
  rw [Nat.repr, String.toList_ofList] at h
  exact absurd (Nat.isDigit_of_mem_toDigits (by decide) (by decide) h) (by decide)

/-- Decimal numbers, with or without a sign, have no colon. -/
theorem colonFree_int (i : ℤ) : ColonFree (toString i) := by
  cases i with
  | ofNat n => exact colonFree_nat_repr n
  | negSucc n => exact colonFree_append (s := "-") (by unfold ColonFree; decide) (colonFree_nat_repr _)

/-- The first character of a key is that of its head. -/
theorem head?_toList_append {s t : String} {c : Char} (h : s.toList.head? = some c) :
    (s ++ t).toList.head? = some c := by
  rw [String.toList_append, List.head?_append, h]
  rfl

theorem toString_int_inj {i j : ℤ} (h : toString i = toString j) : i = j := Int.repr_inj.1 h

private theorem split_first {l l' m m' : List Char} (hl : ':' ∉ l) (hl' : ':' ∉ l')
    (h : l ++ ':' :: m = l' ++ ':' :: m') : l = l' ∧ m = m' := by
  induction l generalizing l' with
  | nil =>
    cases l' with
    | nil => simpa using h
    | cons c l' =>
      simp only [List.nil_append, List.cons_append, List.cons.injEq] at h
      exact absurd (h.1 ▸ List.mem_cons_self) hl'
  | cons c l ih =>
    cases l' with
    | nil =>
      simp only [List.nil_append, List.cons_append, List.cons.injEq] at h
      exact absurd (h.1 ▸ List.mem_cons_self) hl
    | cons c' l' =>
      simp only [List.cons_append, List.cons.injEq] at h
      obtain ⟨h₁, h₂⟩ := ih (fun hc => hl (List.mem_cons_of_mem _ hc))
        (fun hc => hl' (List.mem_cons_of_mem _ hc)) h.2
      exact ⟨by rw [h.1, h₁], h₂⟩

/-- The first separator splits a key when the part before it has none. -/
theorem split_left {a a' b b' : String} (ha : ColonFree a) (ha' : ColonFree a')
    (h : a ++ ":" ++ b = a' ++ ":" ++ b') : a = a' ∧ b = b' := by
  simp only [← String.toList_inj, String.toList_append, List.append_assoc] at h ⊢
  exact split_first ha ha' h

/-- The last separator splits a key when the part after it has none. -/
theorem split_right {a a' b b' : String} (hb : ColonFree b) (hb' : ColonFree b')
    (h : a ++ ":" ++ b = a' ++ ":" ++ b') : a = a' ∧ b = b' := by
  simp only [← String.toList_inj, String.toList_append, List.append_assoc] at h ⊢
  have hr := congrArg List.reverse h
  simp only [List.reverse_append, List.append_assoc] at hr
  obtain ⟨h₁, h₂⟩ := split_first (mt List.mem_reverse.1 hb) (mt List.mem_reverse.1 hb') hr
  exact ⟨List.reverse_injective h₂, List.reverse_injective h₁⟩

theorem append_left_cancel {p s t : String} (h : p ++ s = p ++ t) : s = t := by
  rw [← String.toList_inj, String.toList_append, String.toList_append] at h
  exact String.toList_inj.1 (List.append_cancel_left h)

/-- Neither of two heads starts with the other. -/
def Apart (p q : String) : Prop := ¬p.toList <+: q.toList ∧ ¬q.toList <+: p.toList

instance (p q : String) : Decidable (Apart p q) := inferInstanceAs (Decidable (_ ∧ _))

theorem append_ne_of_apart {p q : String} (h : Apart p q) (s t : String) : p ++ s ≠ q ++ t := by
  intro he
  have hp : p.toList <+: (q ++ t).toList := by rw [← he, String.toList_append]; exact ⟨_, rfl⟩
  have hq : q.toList <+: (q ++ t).toList := by rw [String.toList_append]; exact ⟨_, rfl⟩
  rcases List.prefix_or_prefix_of_prefix hp hq with hpq | hqp
  · exact h.1 hpq
  · exact h.2 hqp

end KeyText
