import ExchangeServer.Foundation.Program

/-!
# Interleaved programs under read committed isolation

Any number of sessions run programs against one store. A statement sees the
last committed data together with the writes of its own transaction. A write
locks the keys it touches until its transaction ends, and a statement that
would write a key locked by another session waits. A commit makes the writes of
a transaction visible and frees its locks; a session may be closed at any
point, as by a crash, which drops its open transaction.

Since a locked key cannot change, the writing statements of a transaction would
have given the same answers and writes had they all been issued at the moment
of its commit. So every commit of every interleaving meets the commit condition
of a contract that the programs meet one at a time (`commits_of_steps`).

## Main definitions

- `Locking`: stores whose writes touch keys, with a growth order
- `System`, `step`, `steps`: interleavings
- `Rely`: what a session may rely on about the others
- `SoundFor`, `Sound`: what an open session still owes

## Main results

- `SoundFor.exec`, `SoundFor.commits`: a session keeps its obligations and meets them
- `owned_step`, `allSoundFor_step`: every step keeps locks and obligations
- `commits_of_steps`: invariants of the committed data and the commit log
-/

namespace Transactional

open Store Program

/-- A store whose writes touch keys. `look k` is the part of the data that a key
stands for, and `le` says that data has only grown in the sense a program may
rely on after reading without a lock. -/
class Locking (S : Type → Type) (D W ε : outParam Type) (K V : outParam Type) extends
    Store S D W ε where
  keys : W → List K
  look : K → D → V
  le : D → D → Prop
  le_refl : ∀ d, le d d
  le_trans : ∀ {a b c}, le a b → le b c → le a c
  le_write : ∀ w d, le d (write w d)
  write_mono : ∀ {w d d'}, le d d' → (∀ k ∈ keys w, look k d = look k d') →
    le (write w d) (write w d')
  look_write_of_not_mem : ∀ {w k}, k ∉ keys w → ∀ d, look k (write w d) = look k d
  look_write : ∀ {w d d'}, (∀ k ∈ keys w, look k d = look k d') → ∀ k ∈ keys w,
    look k (write w d) = look k (write w d')
  exec_congr : ∀ {β : Type} {s : S β} {v v' : D} {b : β} {ws : List W}, exec s v = .ok (b, ws) →
    ws ≠ [] → le v v' → (∀ w ∈ ws, ∀ k ∈ keys w, look k v = look k v') →
    exec s v' = .ok (b, ws)

namespace Locking

variable {S : Type → Type} {D W ε K V : Type} [Locking S D W ε K V]

/-- The keys a transaction has locked. -/
def held (S : Type → Type) {D W ε K V : Type} [Locking S D W ε K V] (ws : List W) : List K :=
  ws.flatMap (keys S)

@[simp] theorem held_nil : held S ([] : List W) = [] := rfl

@[simp] theorem mem_held {ws : List W} {k : K} : k ∈ held S ws ↔ ∃ w ∈ ws, k ∈ keys S w := by
  simp [held]

theorem le_applyAll (ws : List W) (d : D) : le S d (applyAll S ws d) := by
  induction ws generalizing d with
  | nil => exact le_refl d
  | cons w ws ih => exact le_trans (le_write w d) (ih _)

theorem look_applyAll_of_not_mem {ws : List W} {k : K} (h : k ∉ held S ws) (d : D) :
    look S k (applyAll S ws d) = look S k d := by
  induction ws generalizing d with
  | nil => rfl
  | cons w ws ih =>
    simp only [mem_held, List.mem_cons, not_exists, not_and] at h
    have hw : k ∉ keys S w := h w (.inl rfl)
    have hws : k ∉ held S ws := by
      simpa using fun x hx => h x (.inr hx)
    rw [applyAll_cons, ih hws, look_write_of_not_mem hw]

private theorem look_write_congr {w : W} {d d' : D} (hw : ∀ k ∈ keys S w, look S k d = look S k d')
    {k : K} (h : look S k d = look S k d') : look S k (write S w d) = look S k (write S w d') := by
  by_cases hk : k ∈ keys S w
  · exact look_write hw k hk
  · rw [look_write_of_not_mem hk, look_write_of_not_mem hk, h]

/-- Data that agrees on the keys of a transaction and on `k` still agrees on `k`
after the writes of the transaction. -/
theorem look_applyAll_congr {ws : List W} {d d' : D}
    (hws : ∀ k ∈ held S ws, look S k d = look S k d') {k : K} (h : look S k d = look S k d') :
    look S k (applyAll S ws d) = look S k (applyAll S ws d') := by
  induction ws generalizing d d' with
  | nil => exact h
  | cons w ws ih =>
    have hw : ∀ j ∈ keys S w, look S j d = look S j d' :=
      fun j hj => hws j (mem_held.2 ⟨w, List.mem_cons_self, hj⟩)
    refine ih (fun j hj => look_write_congr hw (hws j ?_)) (look_write_congr hw h)
    obtain ⟨x, hx, hj⟩ := mem_held.1 hj
    exact mem_held.2 ⟨x, List.mem_cons_of_mem _ hx, hj⟩

/-- Growth is kept by the writes of a transaction on data that agrees on its keys. -/
theorem applyAll_mono {ws : List W} {d d' : D} (hle : le S d d')
    (hws : ∀ k ∈ held S ws, look S k d = look S k d') :
    le S (applyAll S ws d) (applyAll S ws d') := by
  induction ws generalizing d d' with
  | nil => exact hle
  | cons w ws ih =>
    have hw : ∀ j ∈ keys S w, look S j d = look S j d' :=
      fun j hj => hws j (mem_held.2 ⟨w, List.mem_cons_self, hj⟩)
    refine ih (write_mono hle hw) fun j hj => look_write_congr hw (hws j ?_)
    obtain ⟨x, hx, hj⟩ := mem_held.1 hj
    exact mem_held.2 ⟨x, List.mem_cons_of_mem _ hx, hj⟩

end Locking

open Locking

section System

variable {S : Type → Type} {D W ε K V L α : Type}

/-- A program that is being run, for the request `label`, with its open writes. -/
structure Session (S : Type → Type) (ε α W L : Type) where
  label : L
  cont : Program S ε α
  writes : List W

/-- Committed data, lock owners, running sessions, and all commits so far. -/
structure System (S : Type → Type) (ε α D W K L : Type) where
  committed : D
  owner : K → Option ℕ
  sessions : ℕ → Option (Session S ε α W L)
  log : List (L × List W)

/-- One step of a session; `close` is both its regular end and a crash. -/
inductive Action (L : Type)
  | start (t : ℕ) (l : L)
  | exec (t : ℕ)
  | commit (t : ℕ)
  | rollback (t : ℕ)
  | close (t : ℕ)

namespace System

/-- A system that nothing has happened in yet. -/
def initial (d : D) : System S ε α D W K L where
  committed := d
  owner := fun _ => none
  sessions := fun _ => none
  log := []

/-- Locks without those of one session. -/
def release (owner : K → Option ℕ) (t : ℕ) : K → Option ℕ :=
  fun k => if owner k = some t then none else owner k

/-- The system without a session and its open transaction. -/
def drop (σ : System S ε α D W K L) (t : ℕ) : System S ε α D W K L :=
  { σ with
    owner := release σ.owner t
    sessions := Function.update σ.sessions t none }

variable [DecidableEq K] [Locking S D W ε K V]

/-- The effect of an action, if it is possible now. -/
def step (prog : L → Program S ε α) (σ : System S ε α D W K L) :
    Action L → Option (System S ε α D W K L)
  | .start t l =>
    match σ.sessions t with
    | none => some { σ with sessions := Function.update σ.sessions t (some ⟨l, prog l, []⟩) }
    | some _ => none
  | .exec t =>
    match σ.sessions t with
    | some ⟨l, .stmt s next, ws⟩ =>
      match exec s (applyAll S ws σ.committed) with
      | .error _ => some (σ.drop t)
      | .ok (b, ws') =>
        if ∀ k ∈ held S ws', σ.owner k = none ∨ σ.owner k = some t then
          some { σ with
            owner := fun k => if k ∈ held S ws' then some t else σ.owner k
            sessions := Function.update σ.sessions t (some ⟨l, next b, ws ++ ws'⟩) }
        else none
    | _ => none
  | .commit t =>
    match σ.sessions t with
    | some ⟨l, .commit next, ws⟩ =>
      some
        { committed := applyAll S ws σ.committed
          owner := release σ.owner t
          sessions := Function.update σ.sessions t (some ⟨l, next, []⟩)
          log := σ.log ++ [(l, ws)] }
    | _ => none
  | .rollback t =>
    match σ.sessions t with
    | some ⟨l, .rollback next, _⟩ =>
      some { σ with
        owner := release σ.owner t
        sessions := Function.update σ.sessions t (some ⟨l, next, []⟩) }
    | _ => none
  | .close t =>
    match σ.sessions t with
    | some _ => some (σ.drop t)
    | none => none

/-- The effect of a schedule. -/
def steps (prog : L → Program S ε α) (σ : System S ε α D W K L) :
    List (Action L) → Option (System S ε α D W K L)
  | [] => some σ
  | a :: as => (σ.step prog a).bind fun σ' => σ'.steps prog as

theorem steps_append (prog : L → Program S ε α) (σ : System S ε α D W K L)
    (as as' : List (Action L)) :
    σ.steps prog (as ++ as') = (σ.steps prog as).bind fun σ' => σ'.steps prog as' := by
  induction as generalizing σ with
  | nil => rfl
  | cons a as ih =>
    rw [List.cons_append, steps, steps, Option.bind_assoc]
    exact congrArg _ (funext ih)

/-- Everything a step can do. -/
inductive Step (prog : L → Program S ε α) (σ : System S ε α D W K L) :
    Action L → System S ε α D W K L → Prop
  | start {t l} (hs : σ.sessions t = none) :
    Step prog σ (.start t l)
      { σ with sessions := Function.update σ.sessions t (some ⟨l, prog l, []⟩) }
  | refused {t l ws} {β : Type} {s : S β} {next e} (hs : σ.sessions t = some ⟨l, .stmt s next, ws⟩)
      (he : exec s (applyAll S ws σ.committed) = .error e) :
    Step prog σ (.exec t) (σ.drop t)
  | exec {t l ws} {β : Type} {s : S β} {next b ws'}
      (hs : σ.sessions t = some ⟨l, .stmt s next, ws⟩)
      (he : exec s (applyAll S ws σ.committed) = .ok (b, ws'))
      (hfree : ∀ k ∈ held S ws', σ.owner k = none ∨ σ.owner k = some t) :
    Step prog σ (.exec t)
      { σ with
        owner := fun k => if k ∈ held S ws' then some t else σ.owner k
        sessions := Function.update σ.sessions t (some ⟨l, next b, ws ++ ws'⟩) }
  | commit {t l next ws} (hs : σ.sessions t = some ⟨l, .commit next, ws⟩) :
    Step prog σ (.commit t)
      { committed := applyAll S ws σ.committed
        owner := release σ.owner t
        sessions := Function.update σ.sessions t (some ⟨l, next, []⟩)
        log := σ.log ++ [(l, ws)] }
  | rollback {t l next ws} (hs : σ.sessions t = some ⟨l, .rollback next, ws⟩) :
    Step prog σ (.rollback t)
      { σ with
        owner := release σ.owner t
        sessions := Function.update σ.sessions t (some ⟨l, next, []⟩) }
  | close {t s} (hs : σ.sessions t = some s) : Step prog σ (.close t) (σ.drop t)

theorem step_cases {prog : L → Program S ε α} {σ σ' : System S ε α D W K L} {a : Action L}
    (h : σ.step prog a = some σ') : Step prog σ a σ' := by
  cases a with
  | start t l =>
    simp only [step] at h
    split at h
    · next hs => cases h; exact .start hs
    · cases h
  | exec t =>
    simp only [step] at h
    split at h
    · next l β s next ws hs =>
      split at h
      · next e he => cases h; exact .refused hs he
      · next b ws' he =>
        split at h
        · next hfree => cases h; exact .exec hs he hfree
        · cases h
    · cases h
  | commit t =>
    simp only [step] at h
    split at h
    · next hs => cases h; exact .commit hs
    · cases h
  | rollback t =>
    simp only [step] at h
    split at h
    · next hs => cases h; exact .rollback hs
    · cases h
  | close t =>
    simp only [step] at h
    split at h
    · next hs => cases h; exact .close hs
    · cases h

/-- A statement that only reads is answered whatever the others have locked. -/
theorem step_read {prog : L → Program S ε α} {σ : System S ε α D W K L} {t : ℕ} {l : L} {β : Type}
    {s : S β} {next : β → Program S ε α} {ws : List W} {b : β}
    (hs : σ.sessions t = some ⟨l, .stmt s next, ws⟩)
    (he : Store.exec s (applyAll S ws σ.committed) = .ok (b, [])) :
    σ.step prog (.exec t) =
      some { σ with sessions := Function.update σ.sessions t (some ⟨l, next b, ws⟩) } := by
  simp [step, hs, he]

/-- A property kept by every step holds after every schedule. -/
theorem inv_of_steps {prog : L → Program S ε α} {P : System S ε α D W K L → Prop}
    (hstep : ∀ {σ σ' a}, P σ → Step prog σ a σ' → P σ') {σ σ' : System S ε α D W K L}
    {as : List (Action L)} (h : σ.steps prog as = some σ') (hσ : P σ) : P σ' := by
  induction as generalizing σ with
  | nil => cases h; exact hσ
  | cons a as ih =>
    obtain ⟨τ, hτ, h⟩ := Option.bind_eq_some_iff.1 h
    exact ih h (hstep hσ (step_cases hτ))

end System

/-! ## What an open session still owes -/

variable [Locking S D W ε K V]

/-- What a session may rely on about the commits of others. -/
structure Reliable (S : Type → Type) {D W ε K V : Type} [Locking S D W ε K V]
    (R : D → D → Prop) : Prop where
  refl : ∀ d, R d d
  le : ∀ {d d'}, R d d' → le S d d'
  trans : ∀ {a b c}, R a b → R b c → R a c
  applyAll : ∀ {d d'} {ws : List W}, R d d' → (∀ k ∈ held S ws, look S k d = look S k d') →
    R (applyAll S ws d) (applyAll S ws d')

theorem reliable_le : Reliable S (le S) where
  refl := le_refl
  le h := h
  trans := le_trans
  applyAll := applyAll_mono

/-- Data grows, and some keys that no other session touches stay as they are. -/
def Rely (S : Type → Type) {D W ε K V : Type} [Locking S D W ε K V] (own : K → Prop)
    (d d' : D) : Prop :=
  le S d d' ∧ ∀ k, own k → look S k d = look S k d'

theorem reliable_rely (own : K → Prop) : Reliable S (Rely S own) where
  refl d := ⟨le_refl d, fun _ _ => rfl⟩
  le h := h.1
  trans h h' := ⟨le_trans h.1 h'.1, fun k hk => (h.2 k hk).trans (h'.2 k hk)⟩
  applyAll h hws := ⟨applyAll_mono h.1 hws, fun k hk => look_applyAll_congr hws (h.2 k hk)⟩

/-- Whatever others commit from now on within `R`, without touching the locked
keys, the rest of the program meets its contract and ends with `Q`. -/
def SoundFor (R : D → D → Prop) (C : Contract D W ε) (Q : Except ε α → D → List W → Prop)
    (p : Program S ε α) (ws : List W) (d : D) : Prop :=
  ∀ d', R d d' → (∀ k ∈ held S ws, look S k d = look S k d') → p.wlp R C d' ws Q

namespace SoundFor

variable {R : D → D → Prop} {C : Contract D W ε} {Q : Except ε α → D → List W → Prop}
  {p next : Program S ε α} {ws : List W} {d : D}

theorem start (h : ∀ d, p.wlp R C d [] Q) : SoundFor R C Q p [] d :=
  fun d' _ _ => h d'

/-- Commits of others keep the obligation. -/
theorem mono (hR : Reliable S R) (h : SoundFor R C Q p ws d) {d' : D} (hd : R d d')
    (hk : ∀ k ∈ held S ws, look S k d = look S k d') : SoundFor R C Q p ws d' :=
  fun d'' hd' hk' => h d'' (hR.trans hd hd') fun k hm => (hk k hm).trans (hk' k hm)

/-- An answered statement would have got the same answer later. -/
theorem exec (hR : Reliable S R) {β : Type} {s : S β} {next : β → Program S ε α} {b : β}
    {ws' : List W} (h : SoundFor R C Q (.stmt s next) ws d)
    (he : exec s (applyAll S ws d) = .ok (b, ws')) : SoundFor R C Q (next b) (ws ++ ws') d := by
  intro d' hd hk
  have hold : ∀ k ∈ held S ws, look S k d = look S k d' := by
    intro k hm
    obtain ⟨w, hw, hm⟩ := mem_held.1 hm
    exact hk k (mem_held.2 ⟨w, List.mem_append_left _ hw, hm⟩)
  have hview := hR.applyAll hd hold
  by_cases hws : ws' = []
  · exact (h d' hd hold).2 _ b ws' he (.inr ⟨hview, hws⟩)
  · refine (h d' hd hold).2 _ b ws' ?_ (.inl rfl)
    refine exec_congr he hws (hR.le hview) fun w hw k hm => look_applyAll_congr hold (hk k ?_)
    exact mem_held.2 ⟨w, List.mem_append_right _ hw, hm⟩

theorem commits (hR : Reliable S R) (h : SoundFor R C Q (.commit next : Program S ε α) ws d) :
    C.commits d ws :=
  (h d (hR.refl d) fun _ _ => rfl).1

theorem after_commit (hR : Reliable S R) (h : SoundFor R C Q (.commit next) ws d) :
    SoundFor R C Q next [] (applyAll S ws d) :=
  fun d' hd _ => (h d (hR.refl d) fun _ _ => rfl).2 d' hd

theorem after_rollback (hR : Reliable S R) (h : SoundFor R C Q (.rollback next) ws d) :
    SoundFor R C Q next [] d :=
  fun d' hd _ => h d (hR.refl d) (fun _ _ => rfl) d' hd

theorem result (hR : Reliable S R) {r : Except ε α}
    (h : SoundFor R C Q (.ret r : Program S ε α) ws d) : Q r d ws :=
  h d (hR.refl d) fun _ _ => rfl

end SoundFor

/-- What a session owes that relies on growth alone. -/
def Sound (C : Contract D W ε) (p : Program S ε α) (ws : List W) (d : D) : Prop :=
  ∀ d', le S d d' → (∀ k ∈ held S ws, look S k d = look S k d') →
    p.wlp (le S) C d' ws fun _ _ _ => True

namespace Sound

variable {C : Contract D W ε} {p next : Program S ε α} {ws : List W} {d : D}

theorem start (h : ∀ d, p.wlp (le S) C d [] fun _ _ _ => True) : Sound C p [] d :=
  SoundFor.start h

theorem mono (h : Sound C p ws d) {d' : D} (hle : le S d d')
    (hk : ∀ k ∈ held S ws, look S k d = look S k d') : Sound C p ws d' :=
  SoundFor.mono reliable_le h hle hk

theorem exec {β : Type} {s : S β} {next : β → Program S ε α} {b : β} {ws' : List W}
    (h : Sound C (.stmt s next) ws d) (he : exec s (applyAll S ws d) = .ok (b, ws')) :
    Sound C (next b) (ws ++ ws') d :=
  SoundFor.exec reliable_le h he

theorem commits (h : Sound C (.commit next) ws d) : C.commits d ws :=
  SoundFor.commits (S := S) reliable_le h

theorem after_commit (h : Sound C (.commit next) ws d) : Sound C next [] (applyAll S ws d) :=
  SoundFor.after_commit reliable_le h

theorem after_rollback (h : Sound C (.rollback next) ws d) : Sound C next [] d :=
  SoundFor.after_rollback reliable_le h

end Sound

namespace System

/-- Every session owns the locks of its writes. -/
def Owned (σ : System S ε α D W K L) : Prop :=
  ∀ t s, σ.sessions t = some s → ∀ k ∈ held S s.writes, σ.owner k = some t

theorem owned_initial (d : D) : Owned (initial d : System S ε α D W K L) := fun _ _ h => nomatch h

/-- No two sessions hold the same lock. -/
theorem Owned.not_held_of_ne {σ : System S ε α D W K L} (h : Owned σ) {t u : ℕ} (hut : u ≠ t)
    {s r : Session S ε α W L} (hs : σ.sessions u = some s) (hr : σ.sessions t = some r) {k : K}
    (hk : k ∈ held S s.writes) : k ∉ held S r.writes := by
  intro hk'
  have ho := (h u s hs k hk).symm.trans (h t r hr k hk')
  exact hut (Option.some.inj ho)

/-- What is stored under the locks of a session survives the commit of another. -/
theorem Owned.look_commit {σ : System S ε α D W K L} (h : Owned σ) {t u : ℕ} (hut : u ≠ t)
    {s r : Session S ε α W L} (hs : σ.sessions u = some s) (hr : σ.sessions t = some r) :
    ∀ k ∈ held S s.writes, look S k σ.committed = look S k (applyAll S r.writes σ.committed) :=
  fun _ hk => (look_applyAll_of_not_mem (h.not_held_of_ne hut hs hr hk) _).symm

private theorem Owned.release {σ : System S ε α D W K L} (h : Owned σ) {t u : ℕ} (hut : u ≠ t)
    {s : Session S ε α W L} (hs : σ.sessions u = some s) :
    ∀ k ∈ held S s.writes, release σ.owner t k = some u := by
  intro k hk
  have ho := h u s hs k hk
  rw [System.release, ho, if_neg fun he => hut (Option.some.inj he)]

/-- The session with an id, among sessions of which one has been replaced. -/
theorem update_cases {σ : System S ε α D W K L} {t u : ℕ} {o : Option (Session S ε α W L)}
    {s : Session S ε α W L} (h : Function.update σ.sessions t o u = some s) :
    (u = t ∧ o = some s) ∨ u ≠ t ∧ σ.sessions u = some s := by
  by_cases hut : u = t
  · subst hut
    rw [Function.update_self] at h
    exact .inl ⟨rfl, h⟩
  · rw [Function.update_of_ne hut] at h
    exact .inr ⟨hut, h⟩

variable [DecidableEq K] {prog : L → Program S ε α}

/-- A session after a step was there before or has been started by it. -/
theorem Step.session {σ σ' : System S ε α D W K L} {a : Action L} (h : Step prog σ a σ') {t : ℕ}
    {s' : Session S ε α W L} (hs' : σ'.sessions t = some s') :
    (∃ s, σ.sessions t = some s ∧ s.label = s'.label) ∨ a = .start t s'.label := by
  cases h with
  | start hs =>
    rcases update_cases hs' with ⟨rfl, he⟩ | ⟨-, hs'⟩
    · cases he
      exact .inr rfl
    · exact .inl ⟨s', hs', rfl⟩
  | refused hs he | close hs =>
    rcases update_cases hs' with ⟨-, ⟨⟩⟩ | ⟨-, hs'⟩
    exact .inl ⟨s', hs', rfl⟩
  | exec hs he hfree | commit hs | rollback hs =>
    rcases update_cases hs' with ⟨rfl, he⟩ | ⟨-, hs'⟩
    · cases he
      exact .inl ⟨_, hs, rfl⟩
    · exact .inl ⟨s', hs', rfl⟩

/-- Only a commit changes the committed data and the commit log. -/
theorem Step.committed_eq {σ σ' : System S ε α D W K L} {a : Action L} (h : Step prog σ a σ')
    (ha : ∀ t, a ≠ .commit t) : σ'.committed = σ.committed ∧ σ'.log = σ.log := by
  cases h with
  | commit hs => exact absurd rfl (ha _)
  | _ => exact ⟨rfl, rfl⟩

/-- Every step keeps the locks with their owners. -/
theorem owned_step {σ σ' : System S ε α D W K L} {a : Action L} (h : Owned σ)
    (hstep : Step prog σ a σ') : Owned σ' := by
  intro u r hu k hk
  cases hstep with
  | @start t l hs =>
    rcases update_cases hu with ⟨rfl, he⟩ | ⟨-, hu⟩
    · cases he
      cases hk
    · exact h u r hu k hk
  | refused hs he =>
    rcases update_cases hu with ⟨-, ⟨⟩⟩ | ⟨hut, hu⟩
    exact h.release hut hu k hk
  | @exec t l ws β s next b ws' hs he hfree =>
    rcases update_cases hu with ⟨rfl, he⟩ | ⟨hut, hu⟩
    · cases he
      by_cases hk' : k ∈ held S ws'
      · exact if_pos hk'
      · refine (if_neg hk').trans ?_
        obtain ⟨w, hw, hkw⟩ := mem_held.1 hk
        rcases List.mem_append.1 hw with hw | hw
        · exact h u _ hs k (mem_held.2 ⟨w, hw, hkw⟩)
        · exact absurd (mem_held.2 ⟨w, hw, hkw⟩) hk'
    · have ho := h u r hu k hk
      refine (if_neg fun hk' => ?_).trans ho
      rcases hfree k hk' with hf | hf
      · rw [ho] at hf
        cases hf
      · exact hut (Option.some.inj (ho.symm.trans hf))
  | commit hs =>
    rcases update_cases hu with ⟨rfl, he⟩ | ⟨hut, hu⟩
    · cases he
      cases hk
    · exact h.release hut hu k hk
  | rollback hs =>
    rcases update_cases hu with ⟨rfl, he⟩ | ⟨hut, hu⟩
    · cases he
      cases hk
    · exact h.release hut hu k hk
  | close hs =>
    rcases update_cases hu with ⟨-, ⟨⟩⟩ | ⟨hut, hu⟩
    exact h.release hut hu k hk

/-- Every session owes what its request says. -/
def AllSoundFor (R : L → D → D → Prop) (C : L → Contract D W ε)
    (Q : L → Except ε α → D → List W → Prop) (σ : System S ε α D W K L) : Prop :=
  ∀ t s, σ.sessions t = some s →
    SoundFor (R s.label) (C s.label) (Q s.label) s.cont s.writes σ.committed

/-- Every step keeps the obligations of all sessions, if every commit stays
within what the other sessions rely on. -/
theorem allSoundFor_step {R : L → D → D → Prop} {C : L → Contract D W ε}
    {Q : L → Except ε α → D → List W → Prop} (hR : ∀ l, Reliable S (R l))
    (hprog : ∀ l d, (prog l).wlp (R l) (C l) d [] (Q l)) {σ σ' : System S ε α D W K L} {a : Action L}
    (howned : Owned σ) (h : AllSoundFor R C Q σ)
    (hrely : ∀ t l next ws, σ.sessions t = some ⟨l, .commit next, ws⟩ → (C l).commits σ.committed ws →
      ∀ u s, u ≠ t → σ.sessions u = some s → R s.label σ.committed (applyAll S ws σ.committed))
    (hstep : Step prog σ a σ') : AllSoundFor R C Q σ' := by
  intro u r hu
  cases hstep with
  | @start t l hs =>
    rcases update_cases hu with ⟨-, he⟩ | ⟨-, hu⟩
    · cases he
      exact .start (hprog l)
    · exact h u r hu
  | refused hs he =>
    rcases update_cases hu with ⟨-, ⟨⟩⟩ | ⟨-, hu⟩
    exact h u r hu
  | exec hs he hfree =>
    rcases update_cases hu with ⟨-, hr⟩ | ⟨-, hu⟩
    · cases hr
      exact (h _ _ hs).exec (hR _) he
    · exact h u r hu
  | @commit t l next ws hs =>
    rcases update_cases hu with ⟨-, hr⟩ | ⟨hut, hu⟩
    · cases hr
      exact (h _ _ hs).after_commit (hR _)
    · have hkeeps := hrely t l next ws hs ((h t _ hs).commits (hR l)) u r hut hu
      exact (h u r hu).mono (hR _) hkeeps (howned.look_commit hut hu hs)
  | rollback hs =>
    rcases update_cases hu with ⟨-, hr⟩ | ⟨-, hu⟩
    · cases hr
      exact (h _ _ hs).after_rollback (hR _)
    · exact h u r hu
  | close hs =>
    rcases update_cases hu with ⟨-, ⟨⟩⟩ | ⟨-, hu⟩
    exact h u r hu

/-- Every session is sound for its request. -/
def AllSound (C : L → Contract D W ε) (σ : System S ε α D W K L) : Prop :=
  ∀ t s, σ.sessions t = some s → Sound (C s.label) s.cont s.writes σ.committed

/-- Every step keeps the obligations of sessions that rely on growth alone. -/
theorem allSound_step {C : L → Contract D W ε}
    (hprog : ∀ l d, (prog l).wlp (le S) (C l) d [] fun _ _ _ => True)
    {σ σ' : System S ε α D W K L} {a : Action L} (howned : Owned σ) (h : AllSound C σ)
    (hstep : Step prog σ a σ') : AllSound C σ' :=
  allSoundFor_step (fun _ => reliable_le) hprog howned h
    (fun _ _ _ ws _ _ _ _ _ _ => le_applyAll ws _) hstep

/-- After every schedule the locks have their owners and the sessions owe what
their contracts say. -/
theorem sound_of_steps {C : L → Contract D W ε}
    (hprog : ∀ l d, (prog l).wlp (le S) (C l) d [] fun _ _ _ => True)
    {d : D} {σ : System S ε α D W K L} {as : List (Action L)}
    (h : (initial d).steps prog as = some σ) : Owned σ ∧ AllSound C σ := by
  refine inv_of_steps (P := fun σ => Owned σ ∧ AllSound C σ) ?_ h
    ⟨owned_initial d, fun _ _ hs => nomatch hs⟩
  rintro σ σ' a ⟨howned, hsound⟩ hstep
  exact ⟨owned_step howned hstep, allSound_step hprog howned hsound hstep⟩

/-- An invariant of the committed data and the commit log that every commit
allowed by the contracts keeps holds after every interleaving. -/
theorem commits_of_steps {C : L → Contract D W ε}
    (hprog : ∀ l d, (prog l).wlp (le S) (C l) d [] fun _ _ _ => True)
    {I : D → List (L × List W) → Prop}
    (hI : ∀ d log l ws, I d log → (C l).commits d ws → I (applyAll S ws d) (log ++ [(l, ws)]))
    {d : D} {σ : System S ε α D W K L} {as : List (Action L)}
    (h : (initial d).steps prog as = some σ) (h₀ : I d []) : I σ.committed σ.log := by
  refine (inv_of_steps (P := fun σ => Owned σ ∧ AllSound C σ ∧ I σ.committed σ.log) ?_ h
    ⟨owned_initial d, fun _ _ hs => (nomatch hs), h₀⟩).2.2
  rintro σ σ' a ⟨howned, hsound, hinv⟩ hstep
  refine ⟨owned_step howned hstep, allSound_step hprog howned hsound hstep, ?_⟩
  cases hstep with
  | @commit t l next ws hs => exact hI _ _ _ _ hinv (hsound t _ hs).commits
  | _ => exact hinv

end System

end System

end Transactional
