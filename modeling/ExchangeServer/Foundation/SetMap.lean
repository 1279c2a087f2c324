import Mathlib.Data.Finmap
import Mathlib.Data.Multiset.MapFold

/-!
# Maps of sets

A map from keys to sets is an index when a key whose set has become empty is
dropped. It is described by its members; dropping members is one of the cases
where the order of a loop does not count.
-/

/-- A map from keys to sets. -/
abbrev SetMap (K V : Type) : Type := Finmap fun _ : K => Finset V

namespace SetMap

variable {K V : Type} [DecidableEq K] {m : SetMap K V} {k k' : K} {v v' : V}

/-- The set of a key; a key that is missing has the empty one. -/
def members (m : SetMap K V) (k : K) : Finset V := (m.lookup k).getD ∅

/-- No key has an empty set. -/
def Pruned (m : SetMap K V) : Prop := ∀ k, m.lookup k ≠ some ∅

theorem pruned_empty : Pruned (∅ : SetMap K V) := fun k => by
  rw [Finmap.lookup_empty]
  exact (Option.some_ne_none _).symm

theorem members_empty (k : K) : members (∅ : SetMap K V) k = ∅ := by
  rw [members, Finmap.lookup_empty, Option.getD_none]

variable [DecidableEq V]

/-- `m.entry(k).or_default().insert(v)`. -/
def add (m : SetMap K V) (k : K) (v : V) : SetMap K V := m.insert k (insert v (m.members k))

/-- Removes a member, and the key with its last member. -/
def prune (m : SetMap K V) (k : K) (v : V) : SetMap K V :=
  match m.lookup k with
  | none => m
  | some s => if s.erase v = ∅ then m.erase k else m.insert k (s.erase v)

/-! ## Additions -/

theorem members_add_self : (m.add k v).members k = insert v (m.members k) := by
  rw [members, add, Finmap.lookup_insert, Option.getD_some]

theorem members_add_of_ne (h : k' ≠ k) : (m.add k v).members k' = m.members k' := by
  rw [members, add, Finmap.lookup_insert_of_ne _ h, members]

theorem mem_members_add :
    v' ∈ (m.add k v).members k' ↔ (k' = k ∧ v' = v) ∨ v' ∈ m.members k' := by
  by_cases h : k' = k
  · rw [h, members_add_self, Finset.mem_insert]
    simp only [true_and]
  · rw [members_add_of_ne h]
    simp only [h, false_and, false_or]

theorem Pruned.add (h : m.Pruned) : (m.add k v).Pruned := by
  intro j
  rw [SetMap.add]
  by_cases hj : j = k
  · rw [hj, Finmap.lookup_insert]
    intro heq
    exact Finset.insert_ne_empty v _ (Option.some.inj heq)
  · rw [Finmap.lookup_insert_of_ne _ hj]
    exact h j

/-! ## Removals -/

/-- What is left of the set of a key. -/
theorem lookup_prune_self : (m.prune k v).lookup k =
    (m.lookup k).bind fun s => if s.erase v = ∅ then none else some (s.erase v) := by
  rw [prune]
  cases hk : m.lookup k with
  | none => exact hk
  | some s =>
    dsimp only [Option.bind_some]
    split
    · exact Finmap.lookup_erase k m
    · exact Finmap.lookup_insert m

theorem lookup_prune_of_ne (h : k' ≠ k) : (m.prune k v).lookup k' = m.lookup k' := by
  rw [prune]
  split
  · rfl
  · split
    · exact Finmap.lookup_erase_ne h
    · exact Finmap.lookup_insert_of_ne m h

theorem members_prune_self : (m.prune k v).members k = (m.members k).erase v := by
  rw [members, lookup_prune_self, members]
  cases m.lookup k with
  | none => rfl
  | some s =>
    rw [Option.bind_some, Option.getD_some]
    split
    · rename_i h
      exact h.symm
    · rfl

theorem mem_members_prune :
    v' ∈ (m.prune k v).members k' ↔ v' ∈ m.members k' ∧ ¬(k' = k ∧ v' = v) := by
  by_cases h : k' = k
  · rw [h, members_prune_self, Finset.mem_erase]
    simp only [true_and, and_comm, ne_eq]
  · rw [members, lookup_prune_of_ne h, members]
    simp only [h, false_and, not_false_iff, and_true]

theorem Pruned.prune (h : m.Pruned) : (m.prune k v).Pruned := by
  intro j
  by_cases hj : j = k
  · rw [hj, lookup_prune_self]
    cases m.lookup k with
    | none => exact (Option.some_ne_none _).symm
    | some s =>
      rw [Option.bind_some]
      split
      · exact (Option.some_ne_none _).symm
      · rename_i hne
        exact fun heq => hne (Option.some.inj heq)
  · rw [lookup_prune_of_ne hj]
    exact h j

/-- What is removed first does not count. -/
theorem prune_comm (m : SetMap K V) (k k' : K) (v v' : V) :
    (m.prune k v).prune k' v' = (m.prune k' v').prune k v := by
  refine Finmap.ext_lookup fun j => ?_
  by_cases hk : j = k
  · by_cases hk' : j = k'
    · subst hk hk'
      rw [lookup_prune_self, lookup_prune_self, lookup_prune_self, lookup_prune_self]
      cases m.lookup j with
      | none => rfl
      | some s =>
        dsimp only [Option.bind_some]
        have hcomm : (s.erase v).erase v' = (s.erase v').erase v := Finset.erase_right_comm
        by_cases h : s.erase v = ∅
        · have h' : (s.erase v').erase v = ∅ := by rw [← hcomm, h, Finset.erase_empty]
          rw [if_pos h, Option.bind_none]
          split
          · rfl
          · rw [Option.bind_some, if_pos h']
        · rw [if_neg h, Option.bind_some]
          by_cases h' : s.erase v' = ∅
          · have h'' : (s.erase v).erase v' = ∅ := by rw [hcomm, h', Finset.erase_empty]
            rw [if_pos h', if_pos h'', Option.bind_none]
          · rw [if_neg h', Option.bind_some, hcomm]
    · rw [lookup_prune_of_ne hk', hk, lookup_prune_self, lookup_prune_self, ← hk,
        lookup_prune_of_ne hk']
  · by_cases hk' : j = k'
    · rw [lookup_prune_of_ne hk, hk', lookup_prune_self, lookup_prune_self, ← hk',
        lookup_prune_of_ne hk]
    · rw [lookup_prune_of_ne hk', lookup_prune_of_ne hk, lookup_prune_of_ne hk,
        lookup_prune_of_ne hk']

instance (v : V) : RightCommutative fun (m : SetMap K V) k => m.prune k v where
  right_comm m k k' := prune_comm m k k' v v

/-- Removes a member from the sets of some keys. -/
def pruneAll (m : SetMap K V) (keys : Finset K) (v : V) : SetMap K V :=
  keys.val.foldl (fun m k => m.prune k v) m

@[simp] theorem pruneAll_empty (m : SetMap K V) (v : V) : m.pruneAll ∅ v = m := rfl

theorem pruneAll_insert {keys : Finset K} (h : k ∉ keys) :
    m.pruneAll (insert k keys) v = (m.prune k v).pruneAll keys v := by
  rw [pruneAll, Finset.insert_val_of_notMem h, Multiset.foldl_cons, pruneAll]

theorem mem_members_pruneAll {keys : Finset K} :
    v' ∈ (m.pruneAll keys v).members k' ↔ v' ∈ m.members k' ∧ ¬(k' ∈ keys ∧ v' = v) := by
  induction keys using Finset.induction_on generalizing m with
  | empty => simp only [pruneAll_empty, Finset.notMem_empty, false_and, not_false_iff, and_true]
  | insert k keys hk ih =>
    rw [pruneAll_insert hk, ih, mem_members_prune, Finset.mem_insert]
    tauto

theorem pruneAll_prune_comm (m : SetMap K V) (keys : Finset K) (k : K) (v v' : V) :
    (m.prune k v').pruneAll keys v = (m.pruneAll keys v).prune k v' := by
  induction keys using Finset.induction_on generalizing m with
  | empty => rfl
  | insert key keys hkey ih => rw [pruneAll_insert hkey, prune_comm, ih, ← pruneAll_insert hkey]

theorem pruneAll_comm (m : SetMap K V) (keys keys' : Finset K) (v v' : V) :
    (m.pruneAll keys v).pruneAll keys' v' = (m.pruneAll keys' v').pruneAll keys v := by
  induction keys' using Finset.induction_on generalizing m with
  | empty => rfl
  | insert key keys' hkey ih =>
    rw [pruneAll_insert hkey, pruneAll_insert hkey, ← pruneAll_prune_comm, ih]

theorem Pruned.pruneAll {keys : Finset K} (h : m.Pruned) : (m.pruneAll keys v).Pruned := by
  induction keys using Finset.induction_on generalizing m with
  | empty => exact h
  | insert k keys hk ih =>
    rw [pruneAll_insert hk]
    exact ih h.prune

end SetMap
