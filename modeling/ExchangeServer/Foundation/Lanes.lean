import Mathlib.Data.List.Basic
import Mathlib.Tactic.Common

/-!
# Lists with the same lanes

Each element of a list has a key, and the elements with one key are a lane of
the list. Two lists with the same lanes are interleavings of them, so they have
the same elements. What is read from a single lane is the same in both.

## Main results

- `SameLanes.mem_iff`: the elements
- `SameLanes.filterMap_eq`: what one lane gives
- `SameLanes.getLast?_filterMap`: what is given last, when the lanes that give
  anything else agree with it
-/

/-- Both lists have the elements with each key in the same order. -/
def SameLanes {A K : Type*} [DecidableEq K] (key : A → K) (l l' : List A) : Prop :=
  ∀ k, l.filter (fun a => key a = k) = l'.filter fun a => key a = k

namespace SameLanes

variable {A B K : Type*} [DecidableEq K] {key : A → K} {l l' : List A} {f : A → Option B}

theorem mem_iff (h : SameLanes key l l') {a : A} : a ∈ l ↔ a ∈ l' := by
  have hlane : ∀ l : List A, a ∈ l ↔ a ∈ l.filter fun x => key x = key a := by
    intro l
    rw [List.mem_filter, decide_eq_true_eq, and_iff_left rfl]
  rw [hlane l, hlane l', h]

/-- All that is given comes from one lane. -/
theorem filterMap_eq (h : SameLanes key l l')
    (hone : ∀ a ∈ l, ∀ b ∈ l, (f a).isSome → (f b).isSome → key a = key b) :
    l.filterMap f = l'.filterMap f := by
  by_cases hgives : ∃ a ∈ l, (f a).isSome
  · obtain ⟨a, ha, hfa⟩ := hgives
    have hlane : ∀ m : List A, (∀ b ∈ m, b ∈ l) →
        m.filterMap f = (m.filter fun b => key b = key a).filterMap f := by
      intro m hm
      rw [List.filterMap_filter]
      refine List.filterMap_congr fun b hb => ?_
      by_cases hfb : (f b).isSome
      · rw [if_pos (decide_eq_true (hone b (hm b hb) a ha hfb hfa))]
      · rw [Option.not_isSome_iff_eq_none.1 hfb, ite_self]
    rw [hlane l fun b hb => hb, hlane l' fun b hb => h.mem_iff.2 hb, h]
  · have hnil : ∀ m : List A, (∀ b ∈ m, b ∈ l) → m.filterMap f = [] := by
      intro m hm
      refine List.filterMap_eq_nil_iff.2 fun b hb => ?_
      exact Option.not_isSome_iff_eq_none.1 fun hfb => hgives ⟨b, hm b hb, hfb⟩
    rw [hnil l fun b hb => hb, hnil l' fun b hb => h.mem_iff.2 hb]

/-- What is given last, when different things come from one lane only. -/
theorem getLast?_filterMap (h : SameLanes key l l')
    (hone : ∀ a ∈ l, ∀ b ∈ l, ∀ x ∈ f a, ∀ y ∈ f b, key a = key b ∨ x = y) :
    (l.filterMap f).getLast? = (l'.filterMap f).getLast? := by
  by_cases hsame : ∀ a ∈ l, ∀ b ∈ l, ∀ x ∈ f a, ∀ y ∈ f b, x = y
  · have hmem : ∀ x, x ∈ l.filterMap f ↔ x ∈ l'.filterMap f := by
      intro x
      rw [List.mem_filterMap, List.mem_filterMap]
      exact exists_congr fun a => and_congr_left fun _ => h.mem_iff
    refine Option.ext fun x => ?_
    -- All that is given is the same thing.
    have hlast : ∀ m : List A, (∀ b ∈ m, b ∈ l) →
        ((m.filterMap f).getLast? = some x ↔ x ∈ m.filterMap f) := by
      intro m hm
      refine ⟨List.mem_of_getLast?, fun hx => ?_⟩
      have hne : m.filterMap f ≠ [] := List.ne_nil_of_mem hx
      rw [List.getLast?_eq_some_getLast hne]
      obtain ⟨a, ha, hfa⟩ := List.mem_filterMap.1 (List.getLast_mem hne)
      obtain ⟨b, hb, hfb⟩ := List.mem_filterMap.1 hx
      exact congrArg some (hsame a (hm a ha) b (hm b hb) _ hfa _ hfb)
    rw [hlast l fun b hb => hb, hlast l' fun b hb => h.mem_iff.2 hb, hmem]
  · push Not at hsame
    obtain ⟨a, ha, b, hb, x, hx, y, hy, hne⟩ := hsame
    have hab : key a = key b := (hone a ha b hb x hx y hy).resolve_right hne
    have hall : ∀ z ∈ l, (f z).isSome → key z = key a := by
      intro z hz hfz
      obtain ⟨w, hw⟩ := Option.isSome_iff_exists.1 hfz
      rcases hone z hz a ha w hw x hx with hkey | rfl
      · exact hkey
      · exact ((hone z hz b hb w hw y hy).resolve_right hne).trans hab.symm
    rw [h.filterMap_eq fun z hz z' hz' hfz hfz' => (hall z hz hfz).trans (hall z' hz' hfz').symm]

end SameLanes
