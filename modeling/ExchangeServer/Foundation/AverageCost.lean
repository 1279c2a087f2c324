import Mathlib.Algebra.BigOperators.Group.List.Basic
import Mathlib.Algebra.Order.Ring.Int
import Mathlib.Tactic.Ring

/-!
# Holdings at average cost

A holding is a quantity with one price for all of it, the average of what has
been paid, and a collateral put up for it. Whatever comes in moves the average,
which is rounded down to a whole number; whatever goes out does so at the average
of the moment and takes a part of the collateral with it.

Quantities and collateral are conserved. The average stays between the prices of
what came in, and its rounding errors add up: the cost of all entries exceeds
what is left and what has gone out, at their averages, by a drift of less than
one for each unit held at an entry.

## Main results

- `Balanced.single`, `Balanced.add`, `Balanced.take`: what each operation keeps
-/

namespace AverageCost

/-- What comes into a holding. -/
structure Entry where
  quantity : ℤ
  price : ℤ
  collateral : ℤ

/-- What goes out, at the average of the moment. -/
structure Exit where
  quantity : ℤ
  average : ℤ
  collateral : ℤ

structure Holding where
  quantity : ℤ
  average : ℤ
  collateral : ℤ

/-- What comes first is held at its own price. -/
def Entry.holding (entry : Entry) : Holding where
  quantity := entry.quantity
  average := entry.price
  collateral := entry.collateral

/-- More comes in, and the average is rounded down. -/
def Holding.add (held : Holding) (entry : Entry) : Holding where
  quantity := held.quantity + entry.quantity
  average := (held.average * held.quantity + entry.price * entry.quantity) /
    (held.quantity + entry.quantity)
  collateral := held.collateral + entry.collateral

/-- A part goes out with a part of the collateral. -/
def Holding.take (held : Holding) (exit : Exit) : Holding where
  quantity := held.quantity - exit.quantity
  average := held.average
  collateral := held.collateral - exit.collateral

/-- What has been paid for the entries. -/
def cost (entries : List Entry) : ℤ := (entries.map fun entry => entry.price * entry.quantity).sum

/-- What has gone out, at the averages of the time. -/
def basis (exits : List Exit) : ℤ := (exits.map fun exit => exit.average * exit.quantity).sum

/-- The price lies between the lowest and the highest price of the entries. -/
def Within (entries : List Entry) (price : ℤ) : Prop :=
  (∃ entry ∈ entries, entry.price ≤ price) ∧ ∃ entry ∈ entries, price ≤ entry.price

/-! ## The average -/

section Average

variable {held : Holding} {entry : Entry}

/-- The new average is not below both prices. -/
theorem le_average_add {low : ℤ} (hheld : 0 < held.quantity) (hentry : 0 < entry.quantity)
    (hlow : low ≤ held.average) (hlow' : low ≤ entry.price) : low ≤ (held.add entry).average := by
  have htotal : 0 < held.quantity + entry.quantity := add_pos hheld hentry
  refine (Int.le_ediv_iff_mul_le htotal).2 ?_
  calc low * (held.quantity + entry.quantity)
      = low * held.quantity + low * entry.quantity := mul_add _ _ _
    _ ≤ held.average * held.quantity + entry.price * entry.quantity :=
      add_le_add (mul_le_mul_of_nonneg_right hlow hheld.le)
        (mul_le_mul_of_nonneg_right hlow' hentry.le)

/-- The new average is not above both prices. -/
theorem average_add_le {high : ℤ} (hheld : 0 < held.quantity) (hentry : 0 < entry.quantity)
    (hhigh : held.average ≤ high) (hhigh' : entry.price ≤ high) :
    (held.add entry).average ≤ high := by
  have htotal : 0 < held.quantity + entry.quantity := add_pos hheld hentry
  refine Int.ediv_le_of_le_mul htotal ?_
  calc held.average * held.quantity + entry.price * entry.quantity
      ≤ high * held.quantity + high * entry.quantity :=
      add_le_add (mul_le_mul_of_nonneg_right hhigh hheld.le)
        (mul_le_mul_of_nonneg_right hhigh' hentry.le)
    _ = high * (held.quantity + entry.quantity) := (mul_add _ _ _).symm

/-- Rounding the average loses less than one for each unit held. -/
theorem cost_add (hheld : 0 < held.quantity) (hentry : 0 < entry.quantity) :
    ∃ lost, 0 ≤ lost ∧ lost ≤ held.quantity + entry.quantity - 1 ∧
      (held.add entry).average * (held.quantity + entry.quantity) + lost =
        held.average * held.quantity + entry.price * entry.quantity := by
  have htotal : 0 < held.quantity + entry.quantity := add_pos hheld hentry
  let paid := held.average * held.quantity + entry.price * entry.quantity
  refine ⟨paid % (held.quantity + entry.quantity), Int.emod_nonneg _ htotal.ne', ?_, ?_⟩
  · exact Int.le_sub_one_of_lt (Int.emod_lt_of_pos _ htotal)
  · have hdivision := Int.mul_ediv_add_emod paid (held.quantity + entry.quantity)
    rw [mul_comm] at hdivision
    exact hdivision

end Average

/-! ## Accounts -/

/-- What is held after entries and exits. The slack bounds the sum of the errors. -/
structure Balanced (held : Holding) (entries : List Entry) (exits : List Exit) (slack : ℤ) :
    Prop where
  quantity : (exits.map Exit.quantity).sum + held.quantity = (entries.map Entry.quantity).sum
  collateral : (exits.map Exit.collateral).sum + held.collateral =
    (entries.map Entry.collateral).sum
  within : Within entries held.average
  drift : ∃ drift, 0 ≤ drift ∧ drift ≤ slack ∧
    basis exits + held.average * held.quantity + drift = cost entries

namespace Balanced

variable {held : Holding} {entries : List Entry} {exits : List Exit} {slack : ℤ}

theorem single (entry : Entry) : Balanced entry.holding [entry] [] 0 where
  quantity := by simp [Entry.holding]
  collateral := by simp [Entry.holding]
  within := ⟨⟨entry, List.mem_singleton_self _, le_rfl⟩, entry, List.mem_singleton_self _, le_rfl⟩
  drift := ⟨0, le_rfl, le_rfl, by simp [basis, cost, Entry.holding]⟩

theorem add (h : Balanced held entries exits slack) {entry : Entry} (hheld : 0 < held.quantity)
    (hentry : 0 < entry.quantity) :
    Balanced (held.add entry) (entries ++ [entry]) exits
      (slack + (held.quantity + entry.quantity - 1)) where
  quantity := by
    have hquantity := h.quantity
    simp only [List.map_append, List.map_singleton, List.sum_append, List.sum_singleton,
      Holding.add]
    omega
  collateral := by
    have hcollateral := h.collateral
    simp only [List.map_append, List.map_singleton, List.sum_append, List.sum_singleton,
      Holding.add]
    omega
  within := by
    obtain ⟨⟨low, hlow, hle⟩, high, hhigh, hge⟩ := h.within
    have hlast : entry ∈ entries ++ [entry] := List.mem_append_right _ (List.mem_singleton_self _)
    refine ⟨?_, ?_⟩
    · -- The lower of the two prices is not above the new average.
      rcases le_total low.price entry.price with hless | hless
      · exact ⟨low, List.mem_append_left _ hlow, le_average_add hheld hentry hle hless⟩
      · exact ⟨entry, hlast, le_average_add hheld hentry (hless.trans hle) le_rfl⟩
    · rcases le_total high.price entry.price with hless | hless
      · exact ⟨entry, hlast, average_add_le hheld hentry (hge.trans hless) le_rfl⟩
      · exact ⟨high, List.mem_append_left _ hhigh, average_add_le hheld hentry hge hless⟩
  drift := by
    obtain ⟨drift, hnonneg, hle, hcost⟩ := h.drift
    obtain ⟨lost, hlost, hless, hpaid⟩ := cost_add hheld hentry
    refine ⟨drift + lost, add_nonneg hnonneg hlost, add_le_add hle hless, ?_⟩
    have hentries : cost (entries ++ [entry]) = cost entries + entry.price * entry.quantity := by
      simp [cost]
    calc basis exits + (held.add entry).average * (held.quantity + entry.quantity) + (drift + lost)
        = basis exits + drift +
            ((held.add entry).average * (held.quantity + entry.quantity) + lost) := by ring
      _ = basis exits + held.average * held.quantity + drift + entry.price * entry.quantity := by
          rw [hpaid]
          ring
      _ = cost (entries ++ [entry]) := by rw [hcost, hentries]

/-- What goes out keeps the balance, whatever it is, if it goes at the average. -/
theorem take (h : Balanced held entries exits slack) {exit : Exit}
    (haverage : exit.average = held.average) :
    Balanced (held.take exit) entries (exits ++ [exit]) slack where
  quantity := by
    have hquantity := h.quantity
    simp only [List.map_append, List.map_singleton, List.sum_append, List.sum_singleton,
      Holding.take]
    omega
  collateral := by
    have hcollateral := h.collateral
    simp only [List.map_append, List.map_singleton, List.sum_append, List.sum_singleton,
      Holding.take]
    omega
  within := h.within
  drift := by
    obtain ⟨drift, hnonneg, hle, hcost⟩ := h.drift
    refine ⟨drift, hnonneg, hle, ?_⟩
    have hexits : basis (exits ++ [exit]) = basis exits + held.average * exit.quantity := by
      simp [basis, haverage]
    calc basis (exits ++ [exit]) + held.average * (held.quantity - exit.quantity) + drift
        = basis exits + held.average * held.quantity + drift := by
          rw [hexits]
          ring
      _ = cost entries := hcost

end Balanced

end AverageCost
