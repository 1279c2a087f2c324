import Mathlib.Algebra.Order.Ring.Int
import Mathlib.Data.List.Induction
import Mathlib.Tactic.Common

/-!
# Last writer wins

Stamped updates arrive one after the other, late or repeatedly. A reader that
applies only an update with a larger stamp than all before it applies the
advancing updates; what it holds of a key afterwards is what the last of them
that names the key tells of it.

## Main definitions

- `advancing`: the updates with a larger stamp than all before them
- `latest`: the last update that names a key, with what it tells of it
-/

namespace LastWriter

variable {U K V : Type*} (stamp : U → ℤ) (tells : U → K → Option V)

/-- The advancing ones among updates that arrive after `seen`. -/
def advancingAfter (seen : List U) : List U → List U
  | [] => []
  | u :: us =>
    if ∀ v ∈ seen, stamp v < stamp u then u :: advancingAfter (seen ++ [u]) us
    else advancingAfter (seen ++ [u]) us

/-- The updates whose stamp is larger than those of all updates before them. -/
def advancing (us : List U) : List U := advancingAfter stamp [] us

/-- The last update that names a key, and what it tells of it. -/
def latest (us : List U) (k : K) : Option (U × V) :=
  (us.filterMap fun u => (tells u k).map fun v => (u, v)).getLast?

variable {stamp tells}

private theorem advancingAfter_append (seen us : List U) (u : U) :
    advancingAfter stamp seen (us ++ [u]) = advancingAfter stamp seen us ++
      if ∀ v ∈ seen ++ us, stamp v < stamp u then [u] else [] := by
  induction us generalizing seen with
  | nil =>
    rw [List.append_nil]
    simp only [List.nil_append, advancingAfter]
  | cons w us ih =>
    have hseen : (∀ v ∈ seen ++ w :: us, stamp v < stamp u) ↔
        ∀ v ∈ (seen ++ [w]) ++ us, stamp v < stamp u := by simp
    simp only [List.cons_append, advancingAfter, ih, hseen]
    split <;> rfl

/-- One more update. -/
theorem advancing_append (us : List U) (u : U) :
    advancing stamp (us ++ [u]) = advancing stamp us ++
      if ∀ v ∈ us, stamp v < stamp u then [u] else [] := by
  exact advancingAfter_append [] us u

theorem advancing_append_of_lt {us : List U} {u : U} (h : ∀ v ∈ us, stamp v < stamp u) :
    advancing stamp (us ++ [u]) = advancing stamp us ++ [u] := by
  rw [advancing_append, if_pos h]

theorem advancing_append_of_le {us : List U} {u v : U} (hv : v ∈ us) (h : stamp u ≤ stamp v) :
    advancing stamp (us ++ [u]) = advancing stamp us := by
  rw [advancing_append, if_neg fun hlt => absurd (hlt v hv) (not_lt_of_ge h), List.append_nil]

theorem mem_of_mem_advancing {us : List U} {u : U} (h : u ∈ advancing stamp us) : u ∈ us := by
  induction us using List.reverseRecOn with
  | nil => cases h
  | append_singleton us w ih =>
    rw [advancing_append] at h
    rcases List.mem_append.1 h with h | h
    · exact List.mem_append_left _ (ih h)
    · split at h
      · exact List.mem_append_right _ h
      · cases h

/-- Updates with increasing stamps advance when they are larger than all before them. -/
theorem advancing_append_of_increasing (us : List U) {vs : List U}
    (h : vs.Pairwise fun v w => stamp v < stamp w) :
    advancing stamp (us ++ vs) =
      advancing stamp us ++ vs.filter fun v => ∀ u ∈ us, stamp u < stamp v := by
  induction vs using List.reverseRecOn with
  | nil => simp
  | append_singleton vs v ih =>
    obtain ⟨hvs, -, hlt⟩ := List.pairwise_append.1 h
    have hadvances : (∀ u ∈ us ++ vs, stamp u < stamp v) ↔ ∀ u ∈ us, stamp u < stamp v := by
      constructor
      · intro hall u hu
        exact hall u (List.mem_append_left _ hu)
      · intro hall u hu
        rcases List.mem_append.1 hu with hu | hu
        · exact hall u hu
        · exact hlt u hu v (List.mem_singleton_self v)
    rw [← List.append_assoc, advancing_append, ih hvs, List.filter_append, List.append_assoc]
    by_cases hv : ∀ u ∈ us, stamp u < stamp v
    · rw [if_pos (hadvances.2 hv), List.filter_cons_of_pos (by simpa using hv), List.filter_nil]
    · have hnot : ¬∀ u ∈ us ++ vs, stamp u < stamp v := fun hall => hv (hadvances.1 hall)
      rw [if_neg hnot, List.filter_cons_of_neg (by simpa using hv), List.filter_nil]

@[simp] theorem latest_nil (k : K) : latest tells [] k = none := rfl

/-- One more update overrides what was told of the keys that it names. -/
theorem latest_append (us : List U) (u : U) (k : K) :
    latest tells (us ++ [u]) k =
      match tells u k with
      | some v => some (u, v)
      | none => latest tells us k := by
  rw [latest, List.filterMap_append]
  cases h : tells u k with
  | none => simp [h, latest]
  | some v => simp [h]

/-- Later updates come first. -/
theorem latest_append_list (us vs : List U) (k : K) :
    latest tells (us ++ vs) k = (latest tells vs k).or (latest tells us k) := by
  rw [latest, latest, latest, List.filterMap_append, List.getLast?_append]

theorem latest_eq_none_iff {us : List U} {k : K} :
    latest tells us k = none ↔ ∀ u ∈ us, tells u k = none := by
  rw [latest, List.getLast?_eq_none_iff, List.filterMap_eq_nil_iff]
  simp

theorem mem_of_latest {us : List U} {u : U} {v : V} {k : K} (h : latest tells us k = some (u, v)) :
    u ∈ us ∧ tells u k = some v := by
  have hmem := List.mem_of_getLast? h
  obtain ⟨w, hw, hsays⟩ := List.mem_filterMap.1 hmem
  obtain ⟨v', hv', he⟩ := Option.map_eq_some_iff.1 hsays
  cases he
  exact ⟨hw, hv'⟩

end LastWriter
