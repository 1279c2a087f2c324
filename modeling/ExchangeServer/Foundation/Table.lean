import Mathlib.Algebra.Order.BigOperators.Group.List
import Mathlib.Algebra.Order.Ring.Int
import Mathlib.Data.List.Nodup
import Mathlib.Tactic.Ring

/-!
# Keyed tables

A table is a list of rows in insertion order together with the proof that no
two rows share a key, so a table that violates its `UNIQUE` constraint cannot
be built. Rows are looked up by key, inserted when the key is free, and
replaced by a new version of the row with the same key. Every quantity summed
over the rows changes by the contribution of the one row that changed.
-/

namespace Relational

/-- Rows with pairwise distinct keys. -/
structure Table {R K : Type} (key : R → K) where
  rows : List R
  unique : (rows.map key).Nodup

namespace Table

variable {R K : Type} {key : R → K}

/-- The table without rows. -/
def empty : Table key := ⟨[], List.nodup_nil⟩

@[simp] theorem rows_empty : (empty : Table key).rows = [] := rfl

theorem ext_rows {t u : Table key} (h : t.rows = u.rows) : t = u := by
  cases t; cases u; cases h; rfl

/-- Sum of a quantity over all rows. -/
def sum (t : Table key) (f : R → ℤ) : ℤ := (t.rows.map f).sum

@[simp] theorem sum_empty (f : R → ℤ) : (empty : Table key).sum f = 0 := rfl

theorem sum_congr {t : Table key} {f g : R → ℤ} (h : ∀ r ∈ t.rows, f r = g r) :
    t.sum f = t.sum g := by
  unfold sum
  rw [List.map_congr_left h]

theorem sum_nonneg {t : Table key} {f : R → ℤ} (h : ∀ r ∈ t.rows, 0 ≤ f r) : 0 ≤ t.sum f := by
  refine List.sum_nonneg fun x hx => ?_
  obtain ⟨r, hr, rfl⟩ := List.mem_map.1 hx
  exact h r hr

/-- One row contributes at most the whole sum when no contribution is negative. -/
theorem le_sum {t : Table key} (f : R → ℤ) (h : ∀ r ∈ t.rows, 0 ≤ f r) {r : R}
    (hr : r ∈ t.rows) : f r ≤ t.sum f := by
  refine List.single_le_sum (fun x hx => ?_) _ (List.mem_map_of_mem hr)
  obtain ⟨r', hr', rfl⟩ := List.mem_map.1 hx
  exact h r' hr'

/-- The rows that meet a condition. -/
def filter (t : Table key) (p : R → Bool) : Table key where
  rows := t.rows.filter p
  unique := t.unique.sublist (List.filter_sublist.map key)

theorem mem_filter {t : Table key} {p : R → Bool} {r : R} :
    r ∈ (t.filter p).rows ↔ r ∈ t.rows ∧ p r := List.mem_filter

/-- The one row that meets a condition is what is left of the table. -/
theorem filter_eq_singleton_of {t : Table key} {p : R → Bool} {r : R} (hr : r ∈ t.rows)
    (hp : p r = true) (hall : ∀ x ∈ t.rows, p x = true → x = r) : t.rows.filter p = [r] := by
  have hnodup : (t.rows.filter p).Nodup := t.unique.of_map.filter _
  have heq : ∀ x ∈ t.rows.filter p, x = r := fun x hx =>
    hall x (List.mem_filter.1 hx).1 (List.mem_filter.1 hx).2
  have hmem : r ∈ t.rows.filter p := List.mem_filter.2 ⟨hr, hp⟩
  rw [List.eq_replicate_of_mem heq] at hnodup hmem ⊢
  have hone := List.nodup_replicate.1 hnodup
  have hpos := List.length_pos_of_mem hmem
  rw [List.length_replicate] at hpos
  rw [le_antisymm hone hpos, List.replicate_one]

variable [DecidableEq K]

/-- The row with a key. -/
def find? (t : Table key) (k : K) : Option R := t.rows.find? (fun r => key r = k)

@[simp] theorem find?_empty (k : K) : (empty : Table key).find? k = none := rfl

theorem key_of_find? {t : Table key} {k : K} {r : R} (h : t.find? k = some r) : key r = k := by
  simpa using List.find?_some h

theorem mem_of_find? {t : Table key} {k : K} {r : R} (h : t.find? k = some r) : r ∈ t.rows :=
  List.mem_of_find?_eq_some h

private theorem find?_of_mem_rows {l : List R} (hl : (l.map key).Nodup) {r : R} (hr : r ∈ l) :
    l.find? (fun x => key x = key r) = some r := by
  induction l with
  | nil => cases hr
  | cons x l ih =>
    rw [List.map_cons, List.nodup_cons] at hl
    rcases List.mem_cons.1 hr with rfl | hr
    · simp
    · have hne : key x ≠ key r := fun h => hl.1 (h ▸ List.mem_map_of_mem hr)
      simpa [hne] using ih hl.2 hr

/-- A stored row is the one found under its key. -/
theorem find?_of_mem {t : Table key} {r : R} (hr : r ∈ t.rows) : t.find? (key r) = some r :=
  find?_of_mem_rows t.unique hr

theorem find?_eq_none_iff {t : Table key} {k : K} : t.find? k = none ↔ ∀ r ∈ t.rows, key r ≠ k := by
  simp [find?]

/-- The row with a key is the only one that has it. -/
theorem filter_eq_singleton {t : Table key} {k : K} {r : R} (h : t.find? k = some r) :
    t.rows.filter (fun x => key x = k) = [r] := by
  obtain rfl := key_of_find? h
  refine filter_eq_singleton_of (mem_of_find? h) (decide_eq_true rfl) fun x hx hkey => ?_
  have hfind := find?_of_mem hx
  rw [of_decide_eq_true hkey, h] at hfind
  exact (Option.some.inj hfind).symm

/-! ## Insertion -/

/-- Add a row whose key is free; a row with a stored key changes nothing. -/
def insert (t : Table key) (r : R) : Table key :=
  if h : t.find? (key r) = none then
    { rows := t.rows ++ [r]
      unique := by
        rw [List.map_append, List.map_singleton, List.nodup_append]
        refine ⟨t.unique, List.nodup_singleton _, ?_⟩
        rintro _ ha _ hb
        obtain ⟨x, hx, rfl⟩ := List.mem_map.1 ha
        rw [List.mem_singleton.1 hb]
        exact find?_eq_none_iff.1 h x hx }
  else t

theorem rows_insert {t : Table key} {r : R} (h : t.find? (key r) = none) :
    (t.insert r).rows = t.rows ++ [r] := by
  simp [insert, h]

theorem insert_of_find? {t : Table key} {r r' : R} (h : t.find? (key r) = some r') :
    t.insert r = t := by
  simp [insert, h]

theorem find?_insert {t : Table key} {r : R} (k : K) :
    (t.insert r).find? k = if t.find? (key r) = none ∧ k = key r then some r else t.find? k := by
  by_cases h : t.find? (key r) = none
  · simp only [h, true_and]
    rw [find?, rows_insert h, List.find?_append]
    by_cases hk : k = key r
    · subst hk
      rw [if_pos rfl]
      change (t.find? (key r)).or _ = _
      simp [h]
    · rw [if_neg hk]
      have hk' : key r ≠ k := Ne.symm hk
      simp [find?, hk']
  · obtain ⟨r', hr'⟩ := Option.ne_none_iff_exists'.1 h
    rw [insert_of_find? hr', hr']
    simp

@[simp] theorem find?_insert_of_ne {t : Table key} {r : R} {k : K} (h : k ≠ key r) :
    (t.insert r).find? k = t.find? k := by
  simp [find?_insert, h]

theorem find?_insert_self {t : Table key} {r : R} (h : t.find? (key r) = none) :
    (t.insert r).find? (key r) = some r := by
  simp [find?_insert, h]

theorem isSome_find?_insert (t : Table key) (r : R) : ((t.insert r).find? (key r)).isSome := by
  rw [find?_insert]
  split
  · rfl
  · next h => simpa [Option.isSome_iff_ne_none] using h

/-- Insertion never changes a stored row. -/
theorem find?_insert_of_find? {t : Table key} {r r' : R} {k : K} (h : t.find? k = some r') :
    (t.insert r).find? k = some r' := by
  rw [find?_insert]
  split
  · next hc => rw [← hc.2, h] at hc; cases hc.1
  · exact h

theorem mem_insert {t : Table key} {r x : R} (h : t.find? (key r) = none) :
    x ∈ (t.insert r).rows ↔ x ∈ t.rows ∨ x = r := by
  simp [rows_insert h]

theorem mem_insert_cases {t : Table key} {r x : R} (h : x ∈ (t.insert r).rows) :
    x ∈ t.rows ∨ x = r := by
  cases hfind : t.find? (key r) with
  | none => exact (mem_insert hfind).1 h
  | some r' =>
    rw [insert_of_find? hfind] at h
    exact .inl h

theorem sum_insert {t : Table key} {r : R} (h : t.find? (key r) = none) (f : R → ℤ) :
    (t.insert r).sum f = t.sum f + f r := by
  simp [sum, rows_insert h]

/-! ## New versions of all rows -/

/-- Replace every row by `f` of it, where `f` keeps keys. -/
def map (t : Table key) (f : R → R) (hf : ∀ r, key (f r) = key r) : Table key where
  rows := t.rows.map f
  unique := by
    rw [List.map_map]
    have hk : key ∘ f = key := funext hf
    rw [hk]
    exact t.unique

theorem find?_map {t : Table key} {f : R → R} (hf : ∀ r, key (f r) = key r) (k : K) :
    (t.map f hf).find? k = (t.find? k).map f := by
  have hk : (fun r => decide (key r = k)) ∘ f = fun r => decide (key r = k) := by
    funext r
    simp [hf]
  rw [find?, map, List.find?_map, hk]
  rfl

/-! ## New versions of a row -/

/-- Replace the row with a key by `f` of it, where `f` keeps keys. -/
def modify (t : Table key) (k : K) (f : R → R) (hf : ∀ r, key (f r) = key r) : Table key where
  rows := t.rows.map (fun r => if key r = k then f r else r)
  unique := by
    rw [List.map_map]
    have hk : key ∘ (fun r => if key r = k then f r else r) = key := by
      funext r
      by_cases h : key r = k <;> simp [h, hf]
    rw [hk]
    exact t.unique

theorem find?_modify {t : Table key} {k : K} {f : R → R} (hf : ∀ r, key (f r) = key r) (j : K) :
    (t.modify k f hf).find? j = (t.find? j).map (fun r => if key r = k then f r else r) := by
  have hk : ((fun r => decide (key r = j)) ∘ fun r => if key r = k then f r else r) =
      fun r => decide (key r = j) := by
    funext r
    by_cases h : key r = k <;> simp [h, hf]
  rw [find?, modify, List.find?_map, hk]
  rfl

@[simp] theorem find?_modify_of_ne {t : Table key} {k j : K} {f : R → R}
    (hf : ∀ r, key (f r) = key r) (h : j ≠ k) : (t.modify k f hf).find? j = t.find? j := by
  rw [find?_modify]
  cases hr : t.find? j with
  | none => rfl
  | some r => simp [key_of_find? hr, h]

theorem find?_modify_self {t : Table key} {k : K} {f : R → R} (hf : ∀ r, key (f r) = key r)
    {r : R} (h : t.find? k = some r) : (t.modify k f hf).find? k = some (f r) := by
  simp [find?_modify, h, key_of_find? h]

theorem mem_modify {t : Table key} {k : K} {f : R → R} (hf : ∀ r, key (f r) = key r) {x : R} :
    x ∈ (t.modify k f hf).rows ↔ ∃ r ∈ t.rows, (if key r = k then f r else r) = x := by
  simp [modify]

private theorem sum_map_modify {l : List R} (hl : (l.map key).Nodup) {r : R} (hr : r ∈ l) {k : K}
    (hk : key r = k) (f : R → R) (g : R → ℤ) :
    ((l.map (fun x => if key x = k then f x else x)).map g).sum =
      (l.map g).sum - g r + g (f r) := by
  subst hk
  induction l with
  | nil => cases hr
  | cons x l ih =>
    rw [List.map_cons, List.nodup_cons] at hl
    rcases List.mem_cons.1 hr with rfl | hr
    · have hrest : l.map (fun x => if key x = key r then f x else x) = l := by
        rw [List.map_congr_left (g := id) fun x hx => ?_, List.map_id]
        have hne : key x ≠ key r := fun h => hl.1 (h ▸ List.mem_map_of_mem hx)
        simp [hne]
      simp only [List.map_cons, List.sum_cons, if_pos, hrest]
      ring
    · have hne : key x ≠ key r := fun h => hl.1 (h ▸ List.mem_map_of_mem hr)
      simp only [List.map_cons, List.sum_cons, hne, if_false, ih hl.2 hr]
      ring

theorem sum_modify {t : Table key} {k : K} {f : R → R} (hf : ∀ r, key (f r) = key r) {r : R}
    (h : t.find? k = some r) (g : R → ℤ) :
    (t.modify k f hf).sum g = t.sum g - g r + g (f r) :=
  sum_map_modify t.unique (mem_of_find? h) (key_of_find? h) f g

/-- Store a row: as a new row when its key is free, else as the new version of
the row with that key. -/
def upsert (t : Table key) (r : R) : Table key :=
  if t.find? (key r) = none then t.insert r
  else { rows := t.rows.map (fun x => if key x = key r then r else x)
         unique := by
          rw [List.map_map]
          have hk : key ∘ (fun x => if key x = key r then r else x) = key := by
            funext x
            by_cases h : key x = key r <;> simp [h]
          rw [hk]
          exact t.unique }

theorem find?_upsert_self (t : Table key) (r : R) : (t.upsert r).find? (key r) = some r := by
  by_cases h : t.find? (key r) = none
  · rw [upsert, if_pos h, find?_insert_self h]
  · obtain ⟨x, hx⟩ := Option.ne_none_iff_exists'.1 h
    have hk : ((fun x => decide (key x = key r)) ∘ fun x => if key x = key r then r else x) =
        fun x => decide (key x = key r) := by
      funext x
      by_cases h : key x = key r <;> simp [h]
    rw [upsert, if_neg h, find?, List.find?_map, hk]
    change (t.find? (key r)).map _ = _
    simp [hx, key_of_find? hx]

@[simp] theorem find?_upsert_of_ne {t : Table key} {r : R} {k : K} (h : k ≠ key r) :
    (t.upsert r).find? k = t.find? k := by
  by_cases hn : t.find? (key r) = none
  · rw [upsert, if_pos hn, find?_insert_of_ne h]
  · have hk : ((fun x => decide (key x = k)) ∘ fun x => if key x = key r then r else x) =
        fun x => decide (key x = k) := by
      funext x
      by_cases hx : key x = key r <;> simp [hx]
    rw [upsert, if_neg hn, find?, List.find?_map, hk]
    change (t.find? k).map _ = _
    cases hx : t.find? k with
    | none => rfl
    | some x => simp [key_of_find? hx, h]

theorem find?_upsert {t : Table key} {r : R} (k : K) :
    (t.upsert r).find? k = if k = key r then some r else t.find? k := by
  by_cases h : k = key r
  · rw [if_pos h, h, find?_upsert_self]
  · rw [if_neg h, find?_upsert_of_ne h]

theorem sum_upsert_of_none {t : Table key} {r : R} (h : t.find? (key r) = none) (g : R → ℤ) :
    (t.upsert r).sum g = t.sum g + g r := by
  rw [upsert, if_pos h, sum_insert h]

theorem mem_upsert_cases {t : Table key} {r x : R} (h : x ∈ (t.upsert r).rows) :
    x = r ∨ x ∈ t.rows ∧ key x ≠ key r := by
  have hfind := find?_of_mem h
  by_cases hk : key x = key r
  · rw [hk, find?_upsert_self] at hfind
    exact .inl (Option.some.inj hfind).symm
  · rw [find?_upsert_of_ne hk] at hfind
    exact .inr ⟨mem_of_find? hfind, hk⟩

theorem mem_upsert_self (t : Table key) (r : R) : r ∈ (t.upsert r).rows :=
  mem_of_find? (find?_upsert_self t r)

theorem mem_upsert_of_ne {t : Table key} {r x : R} (h : x ∈ t.rows) (hk : key x ≠ key r) :
    x ∈ (t.upsert r).rows := by
  apply mem_of_find? (k := key x)
  rw [find?_upsert_of_ne hk, find?_of_mem h]

/-! ## Removal -/

theorem find?_filter (t : Table key) (p : R → Bool) (k : K) :
    (t.filter p).find? k = (t.find? k).filter p := by
  cases hk : t.find? k with
  | none =>
    rw [find?_eq_none_iff] at hk
    exact find?_eq_none_iff.2 fun r hr => hk r (mem_filter.1 hr).1
  | some r =>
    obtain rfl := key_of_find? hk
    rw [Option.filter_some]
    split
    · next hp => exact find?_of_mem (mem_filter.2 ⟨mem_of_find? hk, hp⟩)
    · next hp =>
      refine find?_eq_none_iff.2 fun x hx hkey => hp ?_
      have hfind := find?_of_mem (mem_filter.1 hx).1
      rw [hkey, hk] at hfind
      rw [Option.some.inj hfind]
      exact (mem_filter.1 hx).2

/-- Remove the row with a key. -/
def erase (t : Table key) (k : K) : Table key := t.filter (fun r => key r ≠ k)

theorem mem_erase {t : Table key} {k : K} {r : R} :
    r ∈ (t.erase k).rows ↔ r ∈ t.rows ∧ key r ≠ k := by
  rw [erase, mem_filter, decide_eq_true_eq]

theorem find?_erase (t : Table key) (k j : K) :
    (t.erase k).find? j = if j = k then none else t.find? j := by
  rw [erase, find?_filter]
  cases hj : t.find? j with
  | none => simp
  | some r => by_cases h : j = k <;> simp [key_of_find? hj, h]

end Table

end Relational
