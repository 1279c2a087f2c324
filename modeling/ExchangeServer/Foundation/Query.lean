import Mathlib.Data.List.Sort

/-!
# The first rows of a query

The answer to a query with `ORDER BY` and `LIMIT`: the rows in an order, and only
the first of them. A row that is missing from the answer ranks behind all that are
in it, and the answer is then full.
-/

namespace Relational

variable {R : Type} (before : R → R → Prop) [DecidableRel before] {n : ℕ} {rows : List R} {r : R}

/-- `ORDER BY .. LIMIT n`. -/
def firstBy (n : ℕ) (rows : List R) : List R := (rows.insertionSort before).take n

theorem length_firstBy_le (n : ℕ) (rows : List R) : (firstBy before n rows).length ≤ n :=
  List.length_take_le n _

theorem mem_of_mem_firstBy (h : r ∈ firstBy before n rows) : r ∈ rows :=
  (List.mem_insertionSort before).1 (List.mem_of_mem_take h)

/-- What holds between any two rows holds between those of the answer. -/
theorem pairwise_firstBy_of_symm {P : R → R → Prop} (hsymm : ∀ {x y}, P x y → P y x)
    (h : rows.Pairwise P) : (firstBy before n rows).Pairwise P :=
  ((List.perm_insertionSort before rows).symm.pairwise h hsymm).sublist (List.take_sublist n _)

variable [Std.Total before] [IsTrans R before]

theorem pairwise_firstBy (n : ℕ) (rows : List R) : (firstBy before n rows).Pairwise before :=
  (List.pairwise_insertionSort before rows).sublist (List.take_sublist n _)

/-- What is missing from the answer comes after it. -/
theorem before_of_not_mem_firstBy (hr : r ∈ rows) (h : r ∉ firstBy before n rows) :
    (firstBy before n rows).length = n ∧ ∀ x ∈ firstBy before n rows, before x r := by
  have hsorted := List.pairwise_insertionSort before rows
  have hmem := (List.mem_insertionSort before).2 hr
  rw [← List.take_append_drop n (rows.insertionSort before)] at hsorted hmem
  have hdrop := (List.mem_append.1 hmem).resolve_left h
  refine ⟨?_, fun x hx => (List.pairwise_append.1 hsorted).2.2 x hx r hdrop⟩
  have hlength : n < (rows.insertionSort before).length := by
    by_contra hshort
    rw [List.drop_of_length_le (not_lt.1 hshort)] at hdrop
    exact List.not_mem_nil hdrop
  exact List.length_take_of_le hlength.le

end Relational
