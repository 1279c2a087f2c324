import Mathlib.Algebra.BigOperators.Group.Finset.Piecewise
import Mathlib.Algebra.Order.Group.Abs
import Mathlib.Algebra.Order.Ring.Int

/-!
# Sums by groups

The entries of a list fall into groups by a key. Each group has a sum, and the
sums of all groups add up to the sum of the list.
-/

namespace Relational

variable {A K : Type} [DecidableEq K] (key : A → K) (f : A → ℤ)

end Relational
