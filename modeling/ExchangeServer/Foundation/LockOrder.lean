import Mathlib.Logic.Relation
import Mathlib.Order.Nat
import ExchangeServer.Foundation.ReadCommitted

/-!
# Locks that are taken in an order

Sessions that wait for each other's locks in a circle wait for ever. They never
do when each transaction takes its locks in an order that all transactions
follow: a key that it locks ranks above all the keys that it holds. Ranks then
rise along a chain of waiting sessions, so the chain does not close, and where
ranks cannot rise for ever it ends at a session that goes on.

## Main definitions

- `Program.Climbs`: programs that take their locks in an order
- `System.WaitsFor`: a session waits for a lock of another one
- `System.CanGoOn`: a session that has ended or has a next step
- `System.DeadlockFree`: sessions that do not wait for each other for ever

## Main results

- `Ordered.steps`: sessions stay ordered when programs that climb are started
- `Ordered.deadlockFree`: ordered sessions do not wait for each other for ever
-/

namespace Transactional

open Store Program Locking

variable {S : Type → Type} {D W ε K V L ι α β : Type} [Locking S D W ε K V] [Preorder ι]

namespace Program

/-- Each key that the program locks ranks above those that its transaction has
locked before; `ws` has been written so far, and `Q` holds when it succeeds. -/
def Climbs (rank : K → ι) : Program S ε α → List W → (α → List W → Prop) → Prop
  | ret (.ok a), ws, Q => Q a ws
  | ret (.error _), _, _ => True
  | stmt s next, ws, Q => ∀ d b ws', exec s d = .ok (b, ws') →
      (∀ k ∈ held S ws', k ∉ held S ws → ∀ j ∈ held S ws, rank j < rank k) ∧
        (next b).Climbs rank (ws ++ ws') Q
  | commit next, _, Q | rollback next, _, Q => next.Climbs rank [] Q

section Rules

variable {rank : K → ι} {ws : List W}

theorem climbs_mono {p : Program S ε α} {Q Q' : α → List W → Prop}
    (h : p.Climbs rank ws Q) (hQ : ∀ a ws, Q a ws → Q' a ws) : p.Climbs rank ws Q' := by
  induction p generalizing ws with
  | ret result =>
    cases result with
    | ok a => exact hQ a ws h
    | error e => trivial
  | stmt s next ih => exact fun d b ws' he => ⟨(h d b ws' he).1, ih b (h d b ws' he).2⟩
  | commit next ih => exact ih h
  | rollback next ih => exact ih h

theorem climbs_bind {p : Program S ε α} {f : α → Program S ε β} {Q : β → List W → Prop}
    (h : p.Climbs rank ws fun a ws => (f a).Climbs rank ws Q) : (p >>= f).Climbs rank ws Q := by
  change (p.bind f).Climbs rank ws Q
  induction p generalizing ws with
  | ret result =>
    cases result with
    | ok a => exact h
    | error e => trivial
  | stmt s next ih => exact fun d b ws' he => ⟨(h d b ws' he).1, ih b (h d b ws' he).2⟩
  | commit next ih => exact ih h
  | rollback next ih => exact ih h

/-- A program whose error is handed on has rolled its transaction back. -/
theorem climbs_attempt {p : Program S ε α} {Q : Except ε α → List W → Prop}
    (h : p.Climbs rank ws fun a ws => Q (.ok a) ws) (hQ : ∀ e, Q (.error e) []) :
    p.attempt.Climbs rank ws Q := by
  induction p generalizing ws with
  | ret result =>
    cases result with
    | ok a => exact h
    | error e => exact hQ e
  | stmt s next ih => exact fun d b ws' he => ⟨(h d b ws' he).1, ih b (h d b ws' he).2⟩
  | commit next ih => exact ih h
  | rollback next ih => exact ih h

/-- All that the transaction has locked ranks below `r`. -/
def Below (S : Type → Type) {D W ε K V : Type} [Locking S D W ε K V] (rank : K → ι) (ws : List W)
    (r : ι) : Prop :=
  ∀ k ∈ held S ws, rank k < r

theorem below_nil (r : ι) : Below S rank [] r := by
  intro k hk
  cases hk

/-- A statement locks keys from `m` on and leaves them below `n`. -/
theorem climbs_perform {s : S α} {Q : α → List W → Prop} {m n : ι}
    (hws : Below S rank ws m) (hle : m ≤ n)
    (hs : ∀ d b ws', exec s d = .ok (b, ws') →
      ∀ k ∈ held S ws', m ≤ rank k ∧ rank k < n)
    (hQ : ∀ b ws', Below S rank ws' n → Q b ws') :
    (perform s : Program S ε α).Climbs rank ws Q := by
  intro d b ws' he
  refine ⟨fun k hk _ j hj => (hws j hj).trans_le (hs d b ws' he k hk).1, hQ b _ ?_⟩
  intro k hk
  rw [held, List.flatMap_append] at hk
  rcases List.mem_append.1 hk with hk | hk
  · exact (hws k hk).trans_le hle
  · exact (hs d b ws' he k hk).2

/-- A statement that locks keys of one rank only. -/
theorem climbs_perform_at {rank : K → ℕ} {s : S α} {Q : α → List W → Prop} {m n : ℕ}
    (hws : Below S rank ws m) (hle : m ≤ n)
    (hs : ∀ d b ws', exec s d = .ok (b, ws') → ∀ k ∈ held S ws', rank k = n)
    (hQ : ∀ b ws', Below S rank ws' (n + 1) → Q b ws') :
    (perform s : Program S ε α).Climbs rank ws Q := by
  refine climbs_perform (fun k hk => (hws k hk).trans_le hle) (Nat.le_succ n)
    (fun d b ws' he k hk => ?_) hQ
  rw [hs d b ws' he k hk]
  exact ⟨le_rfl, Nat.lt_succ_self n⟩

/-- A statement that locks at most the one key that is locked already. -/
theorem climbs_perform_same {s : S α} {Q : α → List W → Prop} {j : K}
    (hws : ∀ k ∈ held S ws, k = j)
    (hs : ∀ d b ws', exec s d = .ok (b, ws') → ∀ k ∈ held S ws', k = j)
    (hQ : ∀ b ws', (∀ k ∈ held S ws', k = j) → Q b ws') :
    (perform s : Program S ε α).Climbs rank ws Q := by
  intro d b ws' he
  refine ⟨fun k hk hnew i hi => ?_, hQ b _ fun k hk => ?_⟩
  · rw [hs d b ws' he k hk, ← hws i hi] at hnew
    exact absurd hi hnew
  · rw [held, List.flatMap_append] at hk
    rcases List.mem_append.1 hk with hk | hk
    · exact hws k hk
    · exact hs d b ws' he k hk

/-- A statement that locks nothing. -/
theorem climbs_perform_read {s : S α} {Q : α → List W → Prop}
    (hs : ∀ d b ws', exec s d = .ok (b, ws') → ws' = []) (hQ : ∀ b, Q b ws) :
    (perform s : Program S ε α).Climbs rank ws Q := by
  intro d b ws' he
  obtain rfl := hs d b ws' he
  rw [List.append_nil]
  exact ⟨fun k hk => absurd hk List.not_mem_nil, hQ b⟩

end Rules

end Program

namespace System

/-- The next statement of a session would write under a key that another one has
locked. -/
def WaitsOn (σ : System S ε α D W K L) (t : ℕ) (k : K) (u : ℕ) : Prop :=
  ∃ (l : L) (β : Type) (s : S β) (next : β → Program S ε α) (ws : List W) (b : β) (ws' : List W),
    σ.sessions t = some ⟨l, .stmt s next, ws⟩ ∧
      exec s (applyAll S ws σ.committed) = .ok (b, ws') ∧ k ∈ held S ws' ∧
        σ.owner k = some u ∧ u ≠ t

def WaitsFor (σ : System S ε α D W K L) (t u : ℕ) : Prop := ∃ k, σ.WaitsOn t k u

/-- Every lock is held by a session that has written under it. -/
def Holds (σ : System S ε α D W K L) : Prop :=
  ∀ k t, σ.owner k = some t → ∃ s, σ.sessions t = some s ∧ k ∈ held S s.writes

/-- Every session goes on as a program that climbs. -/
def Climbing (rank : K → ι) (σ : System S ε α D W K L) : Prop :=
  ∀ t s, σ.sessions t = some s → s.cont.Climbs rank s.writes fun _ _ => True

theorem owner_of_release {owner : K → Option ℕ} {t u : ℕ} {k : K}
    (h : release owner t k = some u) : owner k = some u ∧ u ≠ t := by
  unfold release at h
  split at h
  · cases h
  · next hne =>
    refine ⟨h, ?_⟩
    rintro rfl
    exact hne h

variable {prog : L → Program S ε α} {σ σ' : System S ε α D W K L} {a : Action L}

theorem Holds.drop (h : Holds σ) (t : ℕ) : Holds (σ.drop t) := by
  intro k u hu
  obtain ⟨howner, hne⟩ := owner_of_release hu
  obtain ⟨s, hs, hk⟩ := h k u howner
  exact ⟨s, (Function.update_of_ne hne ..).trans hs, hk⟩

variable [DecidableEq K]

theorem Holds.step (h : Holds σ) (hstep : Step prog σ a σ') : Holds σ' := by
  cases hstep with
  | @start t l hs =>
    intro k u hu
    obtain ⟨s, hsu, hk⟩ := h k u hu
    have hne : u ≠ t := by
      rintro rfl
      rw [hs] at hsu
      cases hsu
    exact ⟨s, (Function.update_of_ne hne ..).trans hsu, hk⟩
  | refused hs he => exact h.drop _
  | @exec t l ws β s next b ws' hs he hfree =>
    intro k u hu
    dsimp only at hu
    split at hu
    · next hk =>
      obtain rfl := Option.some.inj hu
      refine ⟨_, Function.update_self .., ?_⟩
      obtain ⟨w, hw, hkw⟩ := mem_held.1 hk
      exact mem_held.2 ⟨w, List.mem_append_right _ hw, hkw⟩
    · obtain ⟨r, hr, hk⟩ := h k u hu
      by_cases hut : u = t
      · subst hut
        obtain rfl := Option.some.inj (hs.symm.trans hr)
        refine ⟨_, Function.update_self .., ?_⟩
        obtain ⟨w, hw, hkw⟩ := mem_held.1 hk
        exact mem_held.2 ⟨w, List.mem_append_left _ hw, hkw⟩
      · exact ⟨r, (Function.update_of_ne hut ..).trans hr, hk⟩
  | commit hs | rollback hs =>
    intro k u hu
    obtain ⟨howner, hne⟩ := owner_of_release hu
    obtain ⟨s, hsu, hk⟩ := h k u howner
    exact ⟨s, (Function.update_of_ne hne ..).trans hsu, hk⟩
  | close hs => exact h.drop _

theorem Climbing.step {rank : K → ι}
    (hprog : ∀ t l, a = .start t l → (prog l).Climbs rank [] fun _ _ => True)
    (h : Climbing rank σ) (hstep : Step prog σ a σ') : Climbing rank σ' := by
  intro u r hu
  cases hstep with
  | start hs =>
    rcases update_cases hu with ⟨rfl, he⟩ | ⟨-, hu⟩
    · cases he
      exact hprog _ _ rfl
    · exact h u r hu
  | refused hs he | close hs =>
    rcases update_cases hu with ⟨-, ⟨⟩⟩ | ⟨-, hu⟩
    exact h u r hu
  | exec hs he hfree =>
    rcases update_cases hu with ⟨rfl, hr⟩ | ⟨-, hu⟩
    · cases hr
      exact (h _ _ hs _ _ _ he).2
    · exact h u r hu
  | commit hs | rollback hs =>
    rcases update_cases hu with ⟨rfl, hr⟩ | ⟨-, hu⟩
    · cases hr
      have hclimbs := h _ _ hs
      exact hclimbs
    · exact h u r hu

/-- Sessions that climb, with their locks. -/
structure Ordered (rank : K → ι) (σ : System S ε α D W K L) : Prop where
  owned : Owned σ
  holds : Holds σ
  climbing : Climbing rank σ

omit [DecidableEq K] in
theorem ordered_initial (rank : K → ι) (d : D) :
    Ordered rank (initial d : System S ε α D W K L) where
  owned := owned_initial d
  holds := by
    intro k t ht
    cases ht
  climbing := by
    intro t s hs
    cases hs

/-- Whatever the schedule, if it starts only programs that climb. -/
theorem Ordered.steps {rank : K → ι} {actions : List (Action L)}
    (hprog : ∀ t l, .start t l ∈ actions → (prog l).Climbs rank [] fun _ _ => True)
    (h : Ordered rank σ) (hsteps : σ.steps prog actions = some σ') : Ordered rank σ' := by
  induction actions generalizing σ with
  | nil =>
    cases hsteps
    exact h
  | cons a actions ih =>
    obtain ⟨τ, hτ, hrest⟩ := Option.bind_eq_some_iff.1 hsteps
    have hstep := step_cases hτ
    refine ih (fun t l hl => hprog t l (List.mem_cons_of_mem a hl)) ⟨owned_step h.owned hstep,
      h.holds.step hstep, h.climbing.step (fun t l hl => hprog t l ?_) hstep⟩ hrest
    exact hl ▸ List.mem_cons_self

section Chains

variable {rank : K → ι}

omit [DecidableEq K] in
/-- What the owner of a lock waits for ranks above it. -/
theorem Ordered.rank_lt (h : Ordered rank σ) {t u v : ℕ} {j k : K} (hj : σ.WaitsOn t j u)
    (hk : σ.WaitsOn u k v) : rank j < rank k := by
  obtain ⟨-, -, -, -, -, -, -, -, -, -, hjowner, -⟩ := hj
  obtain ⟨l, β, s, next, ws, b, ws', hs, he, hkws, hkowner, hne⟩ := hk
  obtain ⟨r, hr, hheld⟩ := h.holds j u hjowner
  obtain rfl := Option.some.inj (hs.symm.trans hr)
  refine ((h.climbing u _ hs) _ b ws' he).1 k hkws (fun hown => hne ?_) j hheld
  -- A key that the session holds itself has no other owner.
  exact Option.some.inj (hkowner.symm.trans (h.owned u _ hs k hown))

omit [DecidableEq K] in
/-- Ranks rise along a chain of waiting sessions. -/
theorem Ordered.rank_le_of_chain (h : Ordered rank σ) {t u : ℕ}
    (hchain : Relation.TransGen σ.WaitsFor t u) :
    ∃ j k v, σ.WaitsOn t j v ∧ rank j ≤ rank k ∧ ∃ w, σ.WaitsOn w k u := by
  induction hchain with
  | single hwaits =>
    obtain ⟨k, hk⟩ := hwaits
    exact ⟨k, k, _, hk, le_rfl, _, hk⟩
  | tail _ hwaits ih =>
    obtain ⟨j, k, v, hj, hle, w, hk⟩ := ih
    obtain ⟨k', hk'⟩ := hwaits
    exact ⟨j, k', v, hj, hle.trans (h.rank_lt hk hk').le, _, hk'⟩

omit [DecidableEq K] in
/-- No session waits for itself along others. -/
theorem Ordered.not_waits_in_circle (h : Ordered rank σ) (t : ℕ) :
    ¬Relation.TransGen σ.WaitsFor t t := by
  intro hcircle
  obtain ⟨j, k, v, hj, hle, w, hk⟩ := h.rank_le_of_chain hcircle
  exact lt_irrefl _ ((h.rank_lt hk hj).trans_le hle)

/-- The session has ended, or it has a next step. -/
def CanGoOn (prog : L → Program S ε α) (σ : System S ε α D W K L) (t : ℕ) : Prop :=
  (∃ l result ws, σ.sessions t = some ⟨l, .ret result, ws⟩) ∨
    ∃ a ∈ [Action.exec t, .commit t, .rollback t], (σ.step prog a).isSome

/-- A session goes on or waits for another one. -/
theorem canGoOn_or_waitsOn (prog : L → Program S ε α) {t : ℕ} {s : Session S ε α W L} (hs : σ.sessions t = some s) :
    σ.CanGoOn prog t ∨ ∃ k u, σ.WaitsOn t k u := by
  obtain ⟨l, cont, ws⟩ := s
  cases cont with
  | ret result => exact .inl (.inl ⟨l, result, ws, hs⟩)
  | commit next => exact .inl (.inr ⟨.commit t, by simp, by simp [step, hs]⟩)
  | rollback next => exact .inl (.inr ⟨.rollback t, by simp, by simp [step, hs]⟩)
  | stmt s next =>
    cases he : exec s (applyAll S ws σ.committed) with
    | error e => exact .inl (.inr ⟨.exec t, by simp, by simp [step, hs, he]⟩)
    | ok r =>
      obtain ⟨b, ws'⟩ := r
      by_cases hfree : ∀ k ∈ held S ws', σ.owner k = none ∨ σ.owner k = some t
      · refine .inl (.inr ⟨.exec t, by simp, ?_⟩)
        simp only [step, hs, he]
        rw [if_pos hfree]
        rfl
      · push Not at hfree
        obtain ⟨k, hk, hnone, hne⟩ := hfree
        obtain ⟨u, hu⟩ := Option.ne_none_iff_exists'.1 hnone
        refine .inr ⟨k, u, l, _, s, next, ws, b, ws', hs, he, hk, hu, ?_⟩
        rintro rfl
        exact hne hu

omit [DecidableEq K] in
/-- Ranks below a bound do not rise for ever. -/
theorem wellFounded_of_bounded {rank : K → ℕ} {n : ℕ} (h : ∀ k, rank k < n) :
    WellFounded fun k j : K => rank j < rank k := by
  refine Subrelation.wf (fun {k j} hlt => ?_) (measure fun k => n - rank k).wf
  have hk := h k
  change n - rank k < n - rank j
  omega

/-- Behind every session there is one that goes on: the others in the chain wait for it. -/
theorem Ordered.exists_canGoOn (hrank : WellFounded fun k j : K => rank j < rank k)
    (h : Ordered rank σ) {t : ℕ} {s : Session S ε α W L} (hs : σ.sessions t = some s) :
    ∃ u, Relation.ReflTransGen σ.WaitsFor t u ∧ σ.CanGoOn prog u := by
  -- Induction on the key that the session waits for, from above.
  have hbehind : ∀ k t u, σ.WaitsOn t k u →
      ∃ v, Relation.ReflTransGen σ.WaitsFor t v ∧ σ.CanGoOn prog v := by
    intro k
    induction k using hrank.induction with
    | _ k ih =>
      intro t u hwaits
      have howner : σ.owner k = some u := by
        obtain ⟨-, -, -, -, -, -, -, -, -, -, howner, -⟩ := hwaits
        exact howner
      obtain ⟨s, hs, -⟩ := h.holds k u howner
      rcases canGoOn_or_waitsOn prog hs with hgo | ⟨k', v, hwaits'⟩
      · exact ⟨u, .single ⟨k, hwaits⟩, hgo⟩
      · obtain ⟨w, hchain, hgo⟩ := ih k' (h.rank_lt hwaits hwaits') u v hwaits'
        exact ⟨w, .head ⟨k, hwaits⟩ hchain, hgo⟩
  rcases canGoOn_or_waitsOn prog hs with hgo | ⟨k, u, hwaits⟩
  · exact ⟨t, .refl, hgo⟩
  · exact hbehind k t u hwaits

/-- Sessions do not wait for each other for ever. -/
structure DeadlockFree (prog : L → Program S ε α) (σ : System S ε α D W K L) : Prop where
  not_in_circle : ∀ t, ¬Relation.TransGen σ.WaitsFor t t
  goes_on : ∀ t s, σ.sessions t = some s →
    ∃ u, Relation.ReflTransGen σ.WaitsFor t u ∧ σ.CanGoOn prog u

theorem Ordered.deadlockFree (hrank : WellFounded fun k j : K => rank j < rank k)
    (h : Ordered rank σ) : σ.DeadlockFree prog where
  not_in_circle := h.not_waits_in_circle
  goes_on _ _ hs := h.exists_canGoOn hrank hs

end Chains

end System

end Transactional
