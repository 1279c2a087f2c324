import ExchangeServer.Wallet.LockedFunds

/-!
# Concurrent releases and settlements of one reservation

A release or a settlement reads its reservation without a lock and writes back
the difference it has computed, while it changes the locked balance relatively.
When another one commits between the read and the commit, its amount is lost
from `remaining`. Schedules of any number of such transactions on a reservation
lower `remaining` and `locked` by the committed amounts exactly when no commit
follows a read that another commit has made stale, given that enough is locked.
-/

namespace Wallet

open Protocol Relational Transactional Program

/-! ## The transactions and what they do from their read on -/

/-- A transaction that takes an amount from a reservation. -/
inductive ReservationTx
  | release (release : ReleaseReservation)
  | settle (settle : SettleTrade)
  deriving DecidableEq

namespace ReservationTx

def reservationId : ReservationTx → String
  | .release request => request.reservationId
  | .settle request => request.reservationId

def amount : ReservationTx → ℤ
  | .release request => request.amount
  | .settle request => request.debitAmount

/-- The statements of the transaction. -/
def program (self : WalletProcessor) : ReservationTx → Tx ReservationRecord
  | .release request => self.applyRelease request
  | .settle request => self.applySettle request

/-- The statements after the reservation has been read. -/
def afterRead (self : WalletProcessor) (reservation : ReservationRecord) :
    ReservationTx → Tx ReservationRecord
  | .release request =>
    releaseReadReservation request reservation fun reservation =>
      [self.releaseMessage request reservation]
  | .settle request =>
    settleReadReservation request reservation fun reservation =>
      [self.settleMessage request reservation]

/-- What the transaction commits after it has read `reservation`. -/
def Commits (self : WalletProcessor) (R : WalletDb → WalletDb → Prop) (reservation : ReservationRecord)
    (d : WalletDb) (ws : List Write) : ReservationTx → Prop
  | .release request => ∃ now, Releases self R d request reservation now ws
  | .settle request => ∃ now, Settles self R d request reservation now ws

/-- The read is the first statement. -/
theorem program_eq (self : WalletProcessor) (tx : ReservationTx) :
    tx.program self = .stmt (.selectReservation tx.reservationId) fun row =>
      (match row with
        | none => fail .reservationNotFound
        | some reservation => pure reservation) >>= fun reservation =>
          tx.afterRead self reservation := by
  cases tx <;> rfl

/-- The contract of a transaction that has read `reservation`. -/
def contract (self : WalletProcessor) (R : WalletDb → WalletDb → Prop)
    (reservation : ReservationRecord) (tx : ReservationTx) :
    Contract WalletDb Write WalletRepositoryError where
  commits d ws := tx.Commits self R reservation d ws
  fails _ _ := True

theorem wlp_afterRead {R : WalletDb → WalletDb → Prop} (hR : Reads R) (self : WalletProcessor)
    (reservation : ReservationRecord) (tx : ReservationTx) (d : WalletDb) :
    (tx.afterRead self reservation).wlp R (tx.contract self R reservation) d [] fun _ _ _ => True := by
  cases tx with
  | release request =>
    exact wlp_releaseReadReservation hR (fun _ => trivial) (fun _ _ _ _ => trivial)
      fun now _ _ h _ => ⟨⟨now, h⟩, fun _ _ => trivial⟩
  | settle request =>
    exact wlp_settleReadReservation hR (fun _ => trivial) (fun _ _ _ _ => trivial)
      fun now _ _ h _ => ⟨⟨now, h⟩, fun _ _ => trivial⟩

variable {self : WalletProcessor} {R : WalletDb → WalletDb → Prop}
  {reservation : ReservationRecord} {d : WalletDb} {ws : List Write} {tx : ReservationTx}

theorem Commits.amount_pos (h : tx.Commits self R reservation d ws) : 0 < tx.amount := by
  cases tx with
  | release request =>
    obtain ⟨now, h⟩ := h
    exact (releaseRejected_eq_false.1 h.accepted).2.1
  | settle request =>
    obtain ⟨now, h⟩ := h
    exact (settleRejected_eq_false.1 h.accepted).2.2.1

/-- The commit stores the difference to what was read. -/
theorem Commits.remaining (h : tx.Commits self R reservation d ws) :
    ∃ now row, d.walletReservations.find? tx.reservationId = some now ∧
      (view ws d).walletReservations.find? tx.reservationId = some row ∧ row.SameOrder now ∧
      row.remaining = reservation.remaining - tx.amount := by
  cases tx with
  | release request =>
    obtain ⟨now, h⟩ := h
    obtain ⟨balance, out, hbalance, hout, rfl⟩ := h.writes
    exact ⟨now, _, h.reduces.found,
      h.reduces.find?_view hbalance.not_reservations hout.not_reservations,
      now.sameOrder_update _ _, (now.update_of_le ⟨h.reduces.nonneg, h.reduces.le_amount⟩ _).1⟩
  | settle request =>
    obtain ⟨now, h⟩ := h
    obtain ⟨balance, out, hbalance, hout, rfl⟩ := h.writes
    rw [append_cons_cons]
    exact ⟨now, _, h.reduces.found, h.reduces.find?_view
      (by simpa [or_imp, forall_and] using hbalance.not_reservations) hout.not_reservations,
      now.sameOrder_update _ _, (now.update_of_le ⟨h.reduces.nonneg, h.reduces.le_amount⟩ _).1⟩

/-- The commit unlocks its amount if as much is locked at the moment it runs alone. -/
theorem Commits.locked (h : tx.Commits self Eq reservation d ws)
    (hle : tx.amount ≤ d.locked reservation.userId reservation.asset) :
    (view ws d).locked reservation.userId reservation.asset =
      d.locked reservation.userId reservation.asset - tx.amount := by
  have hpos := h.amount_pos
  cases tx with
  | release request =>
    obtain ⟨now, h⟩ := h
    obtain ⟨balance, out, hbalance, hout, rfl⟩ := h.writes
    obtain ⟨old, row, hhit, rfl⟩ := hbalance.hits (.inl rfl) hpos hle
    refine (moves_frame [.setCollateral row] hhit.moves ?_ _ _).2.trans ?_
    · simp +contextual [hout.table]
    · rw [amountAt, if_pos ⟨rfl, rfl⟩]
      simp only [CollateralUpdate.locked, amount]
      omega
  | settle request =>
    obtain ⟨now, h⟩ := h
    obtain ⟨balance, out, hbalance, hout, rfl⟩ := h.writes
    obtain ⟨-, hasset, -, -⟩ := settleRejected_eq_false.1 h.accepted
    rw [hasset] at hle ⊢
    refine (moves_frame balance (hbalance.moves hpos hle) ?_ _ _).2.trans ?_
    · simp +contextual [hout.table]
    · rw [amountAt, if_pos ⟨rfl, rfl⟩]
      rfl

end ReservationTx

/-! ## Schedules -/

/-- The concurrent transactions, their locks and what is committed. -/
abbrev ReservationSystem :=
  System Stmt WalletRepositoryError ReservationRecord WalletDb Write Key ReservationTx

/-- The effect of a schedule of transactions on some committed data. -/
def WalletProcessor.schedule (self : WalletProcessor) (d : WalletDb)
    (actions : List (Action ReservationTx)) : Option ReservationSystem :=
  (System.initial d : ReservationSystem).steps (fun tx => tx.program self) actions

/-- The amounts of the transactions that have committed. -/
def ReservationSystem.spent (σ : ReservationSystem) : ℤ :=
  (σ.log.map fun entry => entry.1.amount).sum

/-- `remaining` of the reservation and `locked` of its owner are lower by the
amounts of the transactions that have committed. -/
def ReservationSystem.Accounts (σ : ReservationSystem) (d : WalletDb) (row : ReservationRow) :
    Prop :=
  ∃ now, σ.committed.walletReservations.find? row.reservationId = some now ∧
    row.remaining - now.remaining = σ.spent ∧
    d.locked row.userId row.asset - σ.committed.locked row.userId row.asset = σ.spent

/-- Which sessions have read the reservation, which of their reads a commit has
made stale, and whether a session with a stale read has committed. -/
structure Watch where
  reading : ℕ → Bool
  stale : ℕ → Bool
  lost : Bool

/-- The first statement of a session is its read, and a commit makes every read
before it stale. -/
def Watch.next (watch : Watch) : Action ReservationTx → Watch
  | .start t _ =>
    { watch with
      reading := Function.update watch.reading t false
      stale := Function.update watch.stale t false }
  | .exec t => { watch with reading := Function.update watch.reading t true }
  | .commit t => { watch with stale := watch.reading, lost := watch.lost || watch.stale t }
  | .rollback _ | .close _ => watch

/-- Whether a transaction of the schedule commits although another one has
committed since it has read the reservation. -/
def commitsStaleRead (actions : List (Action ReservationTx)) : Bool :=
  (actions.foldl Watch.next ⟨fun _ => false, fun _ => false, false⟩).lost

/-! ## The invariant of a schedule -/

/-- A session of a transaction on a reservation. -/
abbrev ReservationSession :=
  Session Stmt WalletRepositoryError ReservationRecord Write ReservationTx

/-- What is known of a session that has read the reservation `row` as `read`,
when `spent` has been taken from `row` altogether: it meets its contract, and
as long as the read is not stale it goes on as if it ran alone. -/
structure ReadSession (processor : WalletProcessor) (row : ReservationRow) (committed : WalletDb)
    (spent : ℤ) (stale : Bool) (s : ReservationSession) (read : ReservationRow) : Prop where
  same : read.SameOrder row
  sound : Sound (s.label.contract processor WalletDb.Grows (reservationFromRow read)) s.cont s.writes
    committed
  bound : row.remaining - spent ≤ read.remaining
  stale_bound : stale = true → row.remaining - spent < read.remaining
  fresh : stale = false →
    committed.walletReservations.find? row.reservationId = some read ∧
      s.cont.wlp Eq (s.label.contract processor Eq (reservationFromRow read)) committed s.writes
        fun _ _ _ => True

/-- What is known of a session. -/
structure Tracked (processor : WalletProcessor) (row : ReservationRow) (committed : WalletDb) (spent : ℤ)
    (reading stale : Bool) (s : ReservationSession) : Prop where
  label : s.label.reservationId = row.reservationId
  unread : reading = false → s.cont = s.label.program processor ∧ s.writes = [] ∧ stale = false
  read : reading = true → ∃ read, ReadSession processor row committed spent stale s read

section Sessions

variable {self : WalletProcessor} {row read : ReservationRow} {committed : WalletDb} {spent : ℤ}
  {reading stale : Bool} {l : ReservationTx} {ws : List Write}

theorem ReadSession.exec {β : Type} {stmt : Stmt β} {next : β → Tx ReservationRecord}
    (h : ReadSession self row committed spent stale ⟨l, .stmt stmt next, ws⟩ read) {b : β}
    {ws' : List Write} (he : stmt.exec (view ws committed) = .ok (b, ws')) :
    ReadSession self row committed spent stale ⟨l, next b, ws ++ ws'⟩ read where
  same := h.same
  sound := h.sound.exec he
  bound := h.bound
  stale_bound := h.stale_bound
  fresh hstale := ⟨(h.fresh hstale).1, (h.fresh hstale).2.2 _ b ws' he (.inl rfl)⟩

theorem ReadSession.rollback {next : Tx ReservationRecord}
    (h : ReadSession self row committed spent stale ⟨l, .rollback next, ws⟩ read) :
    ReadSession self row committed spent stale ⟨l, next, []⟩ read where
  same := h.same
  sound := h.sound.after_rollback
  bound := h.bound
  stale_bound := h.stale_bound
  fresh hstale := ⟨(h.fresh hstale).1, (h.fresh hstale).2 _ rfl⟩

/-- The commit of a session leaves its own read stale. -/
theorem ReadSession.commit {next : Tx ReservationRecord}
    (h : ReadSession self row committed spent stale ⟨l, .commit next, ws⟩ read) :
    ReadSession self row (view ws committed) (spent + l.amount) true ⟨l, next, []⟩ read where
  same := h.same
  sound := h.sound.after_commit
  bound := by
    have hpos : 0 < l.amount := ReservationTx.Commits.amount_pos h.sound.commits
    have hbound := h.bound
    omega
  stale_bound _ := by
    have hpos : 0 < l.amount := ReservationTx.Commits.amount_pos h.sound.commits
    have hbound := h.bound
    omega
  fresh := nofun

/-- The commit of another session makes a read stale. -/
theorem ReadSession.other_commit {s : ReservationSession}
    (h : ReadSession self row committed spent stale s read) {amount : ℤ} (hpos : 0 < amount)
    (hlook : ∀ k ∈ Locking.held Stmt s.writes,
      WalletDb.look k committed = WalletDb.look k (view ws committed)) :
    ReadSession self row (view ws committed) (spent + amount) true s read where
  same := h.same
  sound := h.sound.mono (grows_view committed ws) hlook
  bound := by
    have hbound := h.bound
    omega
  stale_bound _ := by
    have hbound := h.bound
    omega
  fresh := nofun

/-- The first statement reads the reservation as it is committed. -/
theorem Tracked.first_exec {now : ReservationRow} {s : ReservationSession}
    (h : Tracked self row committed spent false stale s)
    (hnow : committed.walletReservations.find? row.reservationId = some now)
    (hsame : now.SameOrder row) (hbound : row.remaining - spent ≤ now.remaining) {β : Type}
    {stmt : Stmt β} {next : β → Tx ReservationRecord} (hcont : s.cont = .stmt stmt next) {b : β}
    {ws' : List Write} (he : stmt.exec (view s.writes committed) = .ok (b, ws')) :
    ReadSession self row committed spent stale ⟨s.label, next b, s.writes ++ ws'⟩ now := by
  obtain ⟨hprogram, hwrites, rfl⟩ := h.unread rfl
  rw [hprogram, ReservationTx.program_eq, h.label] at hcont
  rw [hwrites] at he ⊢
  cases hcont
  have hread : (Stmt.selectReservation row.reservationId).exec (view [] committed) =
      .ok (some (reservationFromRow now), []) := by
    simp [Stmt.exec, hnow]
  rw [hread] at he
  cases he
  exact
    { same := hsame
      sound := .start fun d => ReservationTx.wlp_afterRead reads_grows self _ _ d
      bound := hbound
      stale_bound := fun hstale => absurd hstale Bool.false_ne_true
      fresh := fun _ => ⟨hnow, ReservationTx.wlp_afterRead reads_eq self _ _ committed⟩ }

end Sessions

/-- What holds after every schedule. -/
structure Watched (processor : WalletProcessor) (d : WalletDb) (row : ReservationRow) (watch : Watch)
    (σ : ReservationSystem) : Prop where
  owned : σ.Owned
  sessions : ∀ t s, σ.sessions t = some s →
    Tracked processor row σ.committed σ.spent (watch.reading t) (watch.stale t) s
  reservation : ∃ now, σ.committed.walletReservations.find? row.reservationId = some now ∧
    now.SameOrder row ∧ (watch.lost = false → now.remaining = row.remaining - σ.spent) ∧
    (watch.lost = true → row.remaining - σ.spent < now.remaining)
  locked : watch.lost = false → σ.spent ≤ d.locked row.userId row.asset →
    σ.committed.locked row.userId row.asset = d.locked row.userId row.asset - σ.spent

section Schedules

variable {self : WalletProcessor} {d : WalletDb} {row : ReservationRow} {watch : Watch}
  {σ σ' : ReservationSystem}

theorem watched_initial (self : WalletProcessor)
    (hrow : d.walletReservations.find? row.reservationId = some row) :
    Watched self d row ⟨fun _ => false, fun _ => false, false⟩
      (System.initial d : ReservationSystem) where
  owned := System.owned_initial d
  sessions _ _ h := nomatch h
  reservation := ⟨row, hrow, .refl row, fun _ => (sub_zero _).symm, nofun⟩
  locked _ _ := (sub_zero _).symm

theorem spent_commit (log : List (ReservationTx × List Write)) (l : ReservationTx)
    (ws : List Write) : ((log ++ [(l, ws)]).map fun entry => entry.1.amount).sum =
      (log.map fun entry => entry.1.amount).sum + l.amount := by
  simp

/-- A session that commits has read the reservation. -/
theorem Watched.committing {t : ℕ} {l : ReservationTx} {next : Tx ReservationRecord}
    {ws : List Write} (h : Watched self d row watch σ)
    (hs : σ.sessions t = some ⟨l, .commit next, ws⟩) :
    watch.reading t = true ∧ l.reservationId = row.reservationId ∧
      ∃ read, ReadSession self row σ.committed σ.spent (watch.stale t) ⟨l, .commit next, ws⟩ read := by
  have htracked := h.sessions t _ hs
  cases hreading : watch.reading t with
  | false =>
    have hcont := (htracked.unread hreading).1
    rw [ReservationTx.program_eq] at hcont
    cases hcont
  | true => exact ⟨rfl, htracked.label, htracked.read hreading⟩

/-- What a commit leaves of the reservation: the difference to what was read,
which is the difference to what was there unless the read is stale. -/
theorem Watched.reservation_commit {t : ℕ} {l : ReservationTx} {next : Tx ReservationRecord}
    {ws : List Write} (h : Watched self d row watch σ)
    (hs : σ.sessions t = some ⟨l, .commit next, ws⟩) :
    ∃ now, (view ws σ.committed).walletReservations.find? row.reservationId = some now ∧
      now.SameOrder row ∧
      ((watch.lost || watch.stale t) = false →
        now.remaining = row.remaining - (σ.spent + l.amount)) ∧
      ((watch.lost || watch.stale t) = true →
        row.remaining - (σ.spent + l.amount) < now.remaining) := by
  obtain ⟨-, hlabel, read, hread⟩ := h.committing hs
  obtain ⟨before, hbefore, hsame, heq, hlt⟩ := h.reservation
  have hcommits : l.Commits self WalletDb.Grows (reservationFromRow read) σ.committed ws :=
    hread.sound.commits
  obtain ⟨before', now, hbefore', hnow, hsame', hremaining⟩ := hcommits.remaining
  rw [hlabel] at hbefore' hnow
  obtain rfl := Option.some.inj (hbefore.symm.trans hbefore')
  change now.remaining = read.remaining - l.amount at hremaining
  have hfresh : watch.stale t = false → before = read := fun hstale =>
    Option.some.inj (hbefore.symm.trans (hread.fresh hstale).1)
  refine ⟨now, hnow, hsame'.trans hsame, fun hlost => ?_, fun hlost => ?_⟩
  · rw [Bool.or_eq_false_iff] at hlost
    have hnot := heq hlost.1
    rw [hfresh hlost.2] at hnot
    omega
  · have hstrict : row.remaining - σ.spent < read.remaining := by
      cases hstale : watch.stale t with
      | true => exact hread.stale_bound hstale
      | false =>
        rw [← hfresh hstale]
        rw [hstale, Bool.or_false] at hlost
        exact hlt hlost
    omega

/-- A commit after a read that is not stale unlocks its amount. -/
theorem Watched.locked_commit {t : ℕ} {l : ReservationTx} {next : Tx ReservationRecord}
    {ws : List Write} (h : Watched self d row watch σ)
    (hs : σ.sessions t = some ⟨l, .commit next, ws⟩)
    (hlost : (watch.lost || watch.stale t) = false)
    (hle : σ.spent + l.amount ≤ d.locked row.userId row.asset) :
    (view ws σ.committed).locked row.userId row.asset =
      d.locked row.userId row.asset - (σ.spent + l.amount) := by
  obtain ⟨-, -, read, hread⟩ := h.committing hs
  rw [Bool.or_eq_false_iff] at hlost
  obtain ⟨-, huser, hasset, -⟩ := hread.same
  have hcommits : l.Commits self Eq (reservationFromRow read) σ.committed ws :=
    (hread.fresh hlost.2).2.1
  have hpos := hcommits.amount_pos
  have hbefore := h.locked hlost.1 (by omega)
  have hlocked := hcommits.locked (by
    change l.amount ≤ σ.committed.locked read.userId read.asset
    rw [huser, hasset]
    omega)
  change (view ws σ.committed).locked read.userId read.asset =
    σ.committed.locked read.userId read.asset - l.amount at hlocked
  rw [huser, hasset] at hlocked
  omega

theorem Watched.commit {t : ℕ} {l : ReservationTx} {next : Tx ReservationRecord} {ws : List Write}
    (h : Watched self d row watch σ) (hs : σ.sessions t = some ⟨l, .commit next, ws⟩)
    (howned : System.Owned
      { committed := view ws σ.committed
        owner := System.release σ.owner t
        sessions := Function.update σ.sessions t (some ⟨l, next, []⟩)
        log := σ.log ++ [(l, ws)] : ReservationSystem }) :
    Watched self d row (watch.next (.commit t))
      { committed := view ws σ.committed
        owner := System.release σ.owner t
        sessions := Function.update σ.sessions t (some ⟨l, next, []⟩)
        log := σ.log ++ [(l, ws)] } := by
  obtain ⟨hreading, hlabel, read, hread⟩ := h.committing hs
  have hpos : 0 < l.amount := ReservationTx.Commits.amount_pos hread.sound.commits
  refine ⟨howned, fun u s hu => ?_, ?_, fun hlost hle => ?_⟩
  · rw [ReservationSystem.spent, spent_commit]
    rcases System.update_cases hu with ⟨rfl, hr⟩ | ⟨hut, hu⟩
    · cases hr
      simp only [Watch.next, hreading]
      exact ⟨hlabel, nofun, fun _ => ⟨read, hread.commit⟩⟩
    · have htracked := h.sessions u s hu
      refine ⟨htracked.label, fun hunread => ?_, fun hread' => ?_⟩
      · obtain ⟨hcont, hwrites, -⟩ := htracked.unread hunread
        exact ⟨hcont, hwrites, hunread⟩
      · obtain ⟨read', hother⟩ := htracked.read hread'
        change watch.reading u = true at hread'
        simp only [Watch.next, hread']
        exact ⟨read', hother.other_commit hpos (h.owned.look_commit hut hu hs)⟩
  · rw [ReservationSystem.spent, spent_commit]
    exact h.reservation_commit hs
  · rw [ReservationSystem.spent, spent_commit] at hle ⊢
    exact h.locked_commit hs hlost hle

theorem Watched.step {a : Action ReservationTx} (h : Watched self d row watch σ)
    (hlabel : ∀ t tx, a = .start t tx → tx.reservationId = row.reservationId)
    (hstep : System.Step (fun tx => ReservationTx.program self tx) σ a σ') :
    Watched self d row (watch.next a) σ' := by
  have howned := System.owned_step h.owned hstep
  cases hstep with
  | @start t l hs =>
    refine ⟨howned, fun u s hu => ?_, h.reservation, h.locked⟩
    rcases System.update_cases hu with ⟨rfl, he⟩ | ⟨hut, hu⟩
    · cases he
      simp only [Watch.next, Function.update_self]
      exact ⟨hlabel u l rfl, fun _ => ⟨rfl, rfl, rfl⟩, nofun⟩
    · simp only [Watch.next, Function.update_of_ne hut]
      exact h.sessions u s hu
  | refused hs he =>
    refine ⟨howned, fun u s hu => ?_, h.reservation, h.locked⟩
    rcases System.update_cases hu with ⟨-, ⟨⟩⟩ | ⟨hut, hu⟩
    simp only [Watch.next, Function.update_of_ne hut]
    exact h.sessions u s hu
  | @exec t l ws β stmt next b ws' hs he hfree =>
    refine ⟨howned, fun u s hu => ?_, h.reservation, h.locked⟩
    rcases System.update_cases hu with ⟨rfl, hr⟩ | ⟨hut, hu⟩
    · cases hr
      have htracked := h.sessions u _ hs
      simp only [Watch.next, Function.update_self]
      refine ⟨htracked.label, nofun, fun _ => ?_⟩
      cases hreading : watch.reading u with
      | true =>
        obtain ⟨read, hread⟩ := htracked.read hreading
        exact ⟨read, hread.exec he⟩
      | false =>
        rw [hreading] at htracked
        obtain ⟨now, hnow, hsame, heq, hlt⟩ := h.reservation
        refine ⟨now, htracked.first_exec hnow hsame ?_ rfl he⟩
        cases hlost : watch.lost with
        | false => exact (heq hlost).ge
        | true => exact (hlt hlost).le
    · simp only [Watch.next, Function.update_of_ne hut]
      exact h.sessions u s hu
  | commit hs => exact h.commit hs howned
  | @rollback t l next ws hs =>
    refine ⟨howned, fun u s hu => ?_, h.reservation, h.locked⟩
    rcases System.update_cases hu with ⟨rfl, hr⟩ | ⟨hut, hu⟩
    · cases hr
      have htracked := h.sessions u _ hs
      refine ⟨htracked.label, fun hreading => ?_, fun hreading => ?_⟩
      · have hcont := (htracked.unread hreading).1
        rw [ReservationTx.program_eq] at hcont
        cases hcont
      · obtain ⟨read, hread⟩ := htracked.read hreading
        exact ⟨read, hread.rollback⟩
    · exact h.sessions u s hu
  | close hs =>
    refine ⟨howned, fun u s hu => ?_, h.reservation, h.locked⟩
    rcases System.update_cases hu with ⟨-, ⟨⟩⟩ | ⟨-, hu⟩
    exact h.sessions u s hu

/-- The invariant holds after every schedule. -/
theorem Watched.steps {actions : List (Action ReservationTx)} (h : Watched self d row watch σ)
    (hlabel : ∀ t tx, .start t tx ∈ actions → tx.reservationId = row.reservationId)
    (hsteps : σ.steps (fun tx => ReservationTx.program self tx) actions = some σ') :
    Watched self d row (actions.foldl Watch.next watch) σ' := by
  induction actions generalizing watch σ with
  | nil =>
    cases hsteps
    exact h
  | cons a actions ih =>
    obtain ⟨τ, hτ, hrest⟩ := Option.bind_eq_some_iff.1 hsteps
    refine ih (h.step (fun t tx ha => hlabel t tx ?_) (System.step_cases hτ))
      (fun t tx hmem => hlabel t tx (List.mem_cons_of_mem _ hmem)) hrest
    rw [← ha]
    exact List.mem_cons_self

end Schedules

/-- What is taken from a reservation without a lost update is not more than it held. -/
theorem Watched.spent_le {self : WalletProcessor} {d : WalletDb} {row : ReservationRow}
    {watch : Watch} {σ : ReservationSystem} (h : Watched self d row watch σ)
    (hlost : watch.lost = false) : σ.spent ≤ row.remaining := by
  obtain ⟨now, -, -, heq, -⟩ := h.reservation
  have hnow := heq hlost
  have hchecks := now.checks
  omega

/-- After a run of transactions one at a time a reservation is covered by what is locked. -/
theorem remaining_le_locked (self : WalletProcessor) (users : List ℤ) (txs : List WalletTx)
    {row : ReservationRow} (hrow : (self.runAll txs (.empty users)).walletReservations.find?
      row.reservationId = some row) :
    row.remaining ≤ (self.runAll txs (.empty users)).locked row.userId row.asset := by
  have hbacked := backed_runAll self txs (backed_empty users)
  have hle := remaining_le_outstanding (Table.mem_of_find? hrow)
  have hdeltas := hbacked.deltas_nonneg row.userId row.asset
  have hlocked := hbacked.locked row.userId row.asset
  omega

theorem accounts_iff (self : WalletProcessor) (d : WalletDb) (row : ReservationRow)
    (actions : List (Action ReservationTx)) (σ : ReservationSystem)
    (hrow : d.walletReservations.find? row.reservationId = some row)
    (hlabel : ∀ t tx, .start t tx ∈ actions → tx.reservationId = row.reservationId)
    (hschedule : self.schedule d actions = some σ) :
    (σ.Accounts d row ↔
      commitsStaleRead actions = false ∧ σ.spent ≤ d.locked row.userId row.asset) ∧
    ∀ users txs, d = self.runAll txs (.empty users) →
      (σ.Accounts d row ↔ commitsStaleRead actions = false) := by
  have hwatched := (watched_initial self hrow).steps hlabel hschedule
  obtain ⟨now, hnow, -, heq, hlt⟩ := hwatched.reservation
  have hiff : σ.Accounts d row ↔
      commitsStaleRead actions = false ∧ σ.spent ≤ d.locked row.userId row.asset := by
    constructor
    · rintro ⟨now', hnow', hremaining, hlocked⟩
      obtain rfl := Option.some.inj (hnow.symm.trans hnow')
      refine ⟨?_, ?_⟩
      · rw [Bool.eq_false_iff]
        intro hlost
        have hstrict := hlt hlost
        omega
      · have hchecks := σ.committed.balance_checks row.userId row.asset
        omega
    · rintro ⟨hlost, hle⟩
      have hremaining := heq hlost
      have hlocked := hwatched.locked hlost hle
      exact ⟨now, hnow, by omega, by omega⟩
  refine ⟨hiff, ?_⟩
  rintro users txs rfl
  refine hiff.trans (and_iff_left_of_imp fun hlost => ?_)
  exact (hwatched.spent_le hlost).trans (remaining_le_locked self users txs hrow)

/-- The reservation after a deposit of 100 of which 50 are reserved. -/
def reservedRow : ReservationRow where
  reservationId := "res_u1"
  userId := 1
  asset := .USDC
  amount := 50
  remaining := 50
  status := .ACTIVE
  idempotencyKey := "k2"
  requestId := "r"
  checks := by decide

/-- A release of a part of that reservation. -/
def partialRelease (reason : String) : ReservationTx :=
  .release { reservationId := "res_u1", amount := 10, reason }

/-- Two releases, one after the other. -/
def serialReleases : List (Action ReservationTx) :=
  [.start 0 (partialRelease "a"), .exec 0, .exec 0, .exec 0, .exec 0, .commit 0,
   .start 1 (partialRelease "b"), .exec 1, .exec 1, .exec 1, .exec 1, .commit 1]

/-- Two releases that read the reservation before the first of them commits. -/
def overlappingReleases : List (Action ReservationTx) :=
  [.start 0 (partialRelease "a"), .start 1 (partialRelease "b"), .exec 0, .exec 1,
   .exec 0, .exec 0, .exec 0, .commit 0, .exec 1, .exec 1, .exec 1, .commit 1]

theorem accounts_iff_serialReleases :
    ∃ σ, WalletProcessor.new.schedule (WalletProcessor.new.runAll depositAndReserve (.empty [1]))
        serialReleases = some σ ∧
      (σ.Accounts (WalletProcessor.new.runAll depositAndReserve (.empty [1])) reservedRow ↔
        commitsStaleRead serialReleases = false) := by
  have hsome : (WalletProcessor.new.schedule
      (WalletProcessor.new.runAll depositAndReserve (.empty [1])) serialReleases).isSome := by decide
  obtain ⟨σ, hσ⟩ := Option.isSome_iff_exists.1 hsome
  refine ⟨σ, hσ, (accounts_iff .new _ reservedRow serialReleases σ (by decide) ?_ hσ).2 [1]
    depositAndReserve rfl⟩
  intro t tx ht
  simp only [serialReleases, List.mem_cons, Action.start.injEq, reduceCtorEq, List.not_mem_nil,
    or_false, false_or] at ht
  rcases ht with ⟨-, rfl⟩ | ⟨-, rfl⟩ <;> rfl

theorem overlappingReleases_not_accounts :
    ∃ σ, WalletProcessor.new.schedule (WalletProcessor.new.runAll depositAndReserve (.empty [1]))
        overlappingReleases = some σ ∧
      ¬σ.Accounts (WalletProcessor.new.runAll depositAndReserve (.empty [1])) reservedRow := by
  have hfinal : (WalletProcessor.new.schedule
      (WalletProcessor.new.runAll depositAndReserve (.empty [1])) overlappingReleases).map
        (fun σ => ((σ.committed.walletReservations.find? "res_u1").map ReservationRow.remaining,
          σ.spent)) = some (some 40, 20) := by
    decide
  obtain ⟨σ, hσ, hvalues⟩ := Option.map_eq_some_iff.1 hfinal
  refine ⟨σ, hσ, ?_⟩
  rintro ⟨now, hnow, hremaining, -⟩
  have hfind : σ.committed.walletReservations.find? "res_u1" = some now := hnow
  rw [hfind] at hvalues
  simp only [Option.map_some, Prod.mk.injEq, Option.some.injEq] at hvalues
  rw [hvalues.1, hvalues.2] at hremaining
  exact absurd hremaining (by decide)

end Wallet
