import ExchangeServer.Foundation.Table

/-!
# Tables with further unique constraints

Besides its key a row may have other values that no second row may have, such
as the number of an account next to its name. They are the indices of the row;
a value that is absent from a row puts no constraint on it. A table carries the
proof that an index value belongs to one row only, so a row can be looked up by
it, and a row that would break a constraint is not stored.

## Main definitions

- `Indexed`: a keyed table with unique indices
- `Indexed.Admits`, `Indexed.put`: storing a row, new or a new version
- `Indexed.byIndex`: the row with an index value
-/

namespace Relational

/-- A table in which an index value determines the row. -/
structure Indexed {R K J : Type} (key : R → K) (indices : R → List J) extends Table key where
  indexed : ∀ x ∈ rows, ∀ y ∈ rows, ∀ j ∈ indices x, j ∈ indices y → key x = key y

namespace Indexed

variable {R K J : Type} {key : R → K} {indices : R → List J}

def empty : Indexed key indices where
  toTable := .empty
  indexed _ h := nomatch h

@[simp] theorem toTable_empty : (empty : Indexed key indices).toTable = .empty := rfl

/-- Two stored rows with a common index value are one row. -/
theorem eq_of_index [DecidableEq K] {t : Indexed key indices} {x y : R} (hx : x ∈ t.rows)
    (hy : y ∈ t.rows) {j : J} (hjx : j ∈ indices x) (hjy : j ∈ indices y) : x = y := by
  have hkey := t.indexed x hx y hy j hjx hjy
  have hfind := Table.find?_of_mem hx
  rw [hkey, Table.find?_of_mem hy] at hfind
  exact (Option.some.inj hfind).symm

/-- No other row has an index value of a row. -/
def Admits (t : Indexed key indices) (r : R) : Prop :=
  ∀ x ∈ t.rows, key x ≠ key r → ∀ j ∈ indices r, j ∉ indices x

/-- A new version of a row keeps its index values, or drops some of them. -/
theorem admits_of_subset {t : Indexed key indices} {r r' : R} (h : r ∈ t.rows)
    (hkey : key r' = key r) (hindices : indices r' ⊆ indices r) : t.Admits r' := by
  intro x hx hne j hj hjx
  exact hne ((t.indexed x hx r h j hjx (hindices hj)).trans hkey.symm)

section ByIndex

variable [DecidableEq J]

/-- The row with an index value. -/
def byIndex (t : Indexed key indices) (j : J) : Option R := t.rows.find? (fun r => j ∈ indices r)

theorem mem_of_byIndex {t : Indexed key indices} {j : J} {r : R} (h : t.byIndex j = some r) :
    r ∈ t.rows ∧ j ∈ indices r :=
  ⟨List.mem_of_find?_eq_some h, by simpa using List.find?_some h⟩

theorem byIndex_eq_none_iff {t : Indexed key indices} {j : J} :
    t.byIndex j = none ↔ ∀ r ∈ t.rows, j ∉ indices r := by
  simp [byIndex]

end ByIndex

variable [DecidableEq K] [DecidableEq J]

instance (t : Indexed key indices) (r : R) : Decidable (t.Admits r) :=
  inferInstanceAs (Decidable (∀ x ∈ t.rows, key x ≠ key r → ∀ j ∈ indices r, j ∉ indices x))

/-- Store a row that the table admits, new or as a new version. -/
def put (t : Indexed key indices) (r : R) : Indexed key indices :=
  if h : t.Admits r then
    { toTable := t.toTable.upsert r
      indexed := by
        intro x hx y hy j hjx hjy
        rcases Table.mem_upsert_cases hx with hxr | ⟨hx, hxr⟩
        · rcases Table.mem_upsert_cases hy with hyr | ⟨hy, hyr⟩
          · rw [hxr, hyr]
          · exact absurd hjy (h y hy hyr j (hxr ▸ hjx))
        · rcases Table.mem_upsert_cases hy with hyr | ⟨hy, hyr⟩
          · exact absurd hjx (h x hx hxr j (hyr ▸ hjy))
          · exact t.indexed x hx y hy j hjx hjy }
  else t

theorem toTable_put {t : Indexed key indices} {r : R} (h : t.Admits r) :
    (t.put r).toTable = t.toTable.upsert r := by
  rw [put, dif_pos h]

theorem mem_put_cases {t : Indexed key indices} {r x : R} (h : x ∈ (t.put r).rows) :
    x = r ∨ x ∈ t.rows := by
  by_cases hr : t.Admits r
  · rw [toTable_put hr] at h
    exact (Table.mem_upsert_cases h).imp_right And.left
  · rw [put, dif_neg hr] at h
    exact .inr h

theorem find?_put {t : Indexed key indices} {r : R} (h : t.Admits r) (k : K) :
    (t.put r).find? k = if k = key r then some r else t.find? k := by
  rw [toTable_put h, Table.find?_upsert]

/-- New versions of some stored rows, which keep their keys and index values. -/
theorem find?_foldl_put {f : R → R} (hkey : ∀ r, key (f r) = key r)
    (hindices : ∀ r, indices (f r) = indices r) {l : List R} (hnodup : (l.map key).Nodup)
    {t : Indexed key indices} (hl : ∀ r ∈ l, t.find? (key r) = some r) :
    (∀ r ∈ l, (l.foldl (fun t r => t.put (f r)) t).find? (key r) = some (f r)) ∧
      ∀ k, k ∉ l.map key → (l.foldl (fun t r => t.put (f r)) t).find? k = t.find? k := by
  induction l generalizing t with
  | nil => exact ⟨fun r hr => absurd hr List.not_mem_nil, fun k _ => rfl⟩
  | cons r l ih =>
    rw [List.map_cons, List.nodup_cons] at hnodup
    have hadmits : t.Admits (f r) := by
      have hr := Table.mem_of_find? (hl r List.mem_cons_self)
      exact admits_of_subset hr (hkey r) (hindices r ▸ List.Subset.refl _)
    have hne : ∀ x ∈ l, key x ≠ key (f r) := by
      intro x hx heq
      exact hnodup.1 ((heq.trans (hkey r)) ▸ List.mem_map_of_mem hx)
    have hrest : ∀ x ∈ l, (t.put (f r)).find? (key x) = some x := by
      intro x hx
      rw [find?_put hadmits, if_neg (hne x hx)]
      exact hl x (List.mem_cons_of_mem r hx)
    obtain ⟨hin, hout⟩ := ih hnodup.2 hrest
    refine ⟨fun x hx => ?_, fun k hk => ?_⟩
    · rcases List.mem_cons.1 hx with rfl | hx
      · rw [List.foldl_cons, hout _ hnodup.1, find?_put hadmits, if_pos (hkey x).symm]
      · exact hin x hx
    · rw [List.map_cons, List.mem_cons, not_or] at hk
      rw [List.foldl_cons, hout k hk.2, find?_put hadmits, if_neg fun h => hk.1 (h.trans (hkey r))]

/-- Remove the row with a key. -/
def erase (t : Indexed key indices) (k : K) : Indexed key indices where
  toTable := t.toTable.erase k
  indexed x hx y hy := t.indexed x (Table.mem_erase.1 hx).1 y (Table.mem_erase.1 hy).1

theorem byIndex_eq_some_iff {t : Indexed key indices} {j : J} {r : R} :
    t.byIndex j = some r ↔ r ∈ t.rows ∧ j ∈ indices r := by
  refine ⟨mem_of_byIndex, fun ⟨hr, hj⟩ => ?_⟩
  have hsome : (t.byIndex j).isSome := by
    rw [byIndex, List.find?_isSome]
    exact ⟨r, hr, by simpa using hj⟩
  obtain ⟨x, hx⟩ := Option.isSome_iff_exists.1 hsome
  obtain ⟨hxmem, hxj⟩ := mem_of_byIndex hx
  rw [hx, eq_of_index hxmem hr hxj hj]

/-- The row with an index value is the only one that has it. -/
theorem filter_eq_singleton {t : Indexed key indices} {j : J} {r : R} (h : t.byIndex j = some r) :
    t.rows.filter (fun x => j ∈ indices x) = [r] := by
  obtain ⟨hr, hj⟩ := mem_of_byIndex h
  refine Table.filter_eq_singleton_of hr (decide_eq_true hj) fun x hx hjx => ?_
  exact eq_of_index hx hr (of_decide_eq_true hjx) hj

/-- Storing a row without an index value, over none or one that has not got it
either, does not change who has it. -/
theorem byIndex_put_of_not_mem {t : Indexed key indices} {r : R} (h : t.Admits r) {j : J}
    (hj : j ∉ indices r) (hold : ∀ x, t.find? (key r) = some x → j ∉ indices x) :
    (t.put r).byIndex j = t.byIndex j := by
  refine Option.ext fun x => ?_
  rw [byIndex_eq_some_iff, byIndex_eq_some_iff, toTable_put h]
  constructor
  · rintro ⟨hx, hjx⟩
    rcases Table.mem_upsert_cases hx with rfl | ⟨hx, -⟩
    · exact absurd hjx hj
    · exact ⟨hx, hjx⟩
  · rintro ⟨hx, hjx⟩
    refine ⟨Table.mem_upsert_of_ne hx fun hk => ?_, hjx⟩
    exact hold x (hk ▸ Table.find?_of_mem hx) hjx

/-- A stored row is found by its index values. -/
theorem byIndex_put_of_mem {t : Indexed key indices} {r : R} (h : t.Admits r) {j : J}
    (hj : j ∈ indices r) : (t.put r).byIndex j = some r := by
  rw [byIndex_eq_some_iff, toTable_put h]
  exact ⟨Table.mem_upsert_self _ r, hj⟩

theorem byIndex_erase_of_mem {t : Indexed key indices} {r : R} (h : r ∈ t.rows) {j : J}
    (hj : j ∈ indices r) : (t.erase (key r)).byIndex j = none := by
  rw [byIndex_eq_none_iff]
  intro x hx hjx
  obtain ⟨hx, hne⟩ := Table.mem_erase.1 hx
  exact hne (t.indexed x hx r h j hjx hj)

theorem byIndex_erase_of_not_mem {t : Indexed key indices} {r : R} (h : r ∈ t.rows) {j : J}
    (hj : j ∉ indices r) : (t.erase (key r)).byIndex j = t.byIndex j := by
  refine Option.ext fun x => ?_
  rw [byIndex_eq_some_iff, byIndex_eq_some_iff]
  refine and_congr_left fun hjx => ?_
  refine Table.mem_erase.trans (and_iff_left_of_imp fun hx hk => ?_)
  have hsame := Table.find?_of_mem hx
  rw [hk, Table.find?_of_mem h] at hsame
  cases hsame
  exact hj hjx

end Indexed

end Relational
