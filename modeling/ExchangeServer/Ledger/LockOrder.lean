import ExchangeServer.Foundation.LockOrder
import ExchangeServer.Ledger.ExactlyOnce

/-!
# The ledger does not deadlock

An event may stand in two partitions, whose tasks then wait for each other's row of
the event. A transaction stores the event first and the offset last.
-/

namespace Ledger

open Protocol Relational Transactional Program

/-- The order of the locks. -/
def lockRank : Key → ℕ
  | .event _ | .logical _ => 0
  | .offset _ => 1

theorem lockRank_lt (k : Key) : lockRank k < 2 := by
  cases k <;> simp [lockRank]

section Climbs

variable {topic : String} {partition : ℤ} {ws : List Write}

theorem climbs_saveQueueOffsetInTx {nextOffset : ℤ} {Q : Unit → List Write → Prop}
    (hws : Below Stmt lockRank ws 1) (hQ : ∀ ws', Q () ws') :
    (saveQueueOffsetInTx topic partition nextOffset).Climbs lockRank ws Q := by
  refine climbs_perform hws (Nat.le_succ 1) (fun d b ws' he k hk => ?_) fun _ ws' _ => hQ ws'
  obtain ⟨w, hw, hkw⟩ := Locking.mem_held.1 hk
  rw [execSaveQueueOffset_ok he] at hw
  rw [List.mem_singleton.1 hw] at hkw
  obtain rfl := List.mem_singleton.1 hkw
  exact ⟨le_rfl, Nat.lt_succ_self 1⟩

/-- The entries of an event are locked with it. -/
theorem climbs_insertEntries {event : Position} {drafts : List LedgerEntryDraft}
    {Q : Unit → List Write → Prop} (hws : Below Stmt lockRank ws 1)
    (hQ : ∀ ws', Below Stmt lockRank ws' 1 → Q () ws') :
    (insertEntries event drafts).Climbs lockRank ws Q := by
  induction drafts generalizing ws with
  | nil => exact hQ ws hws
  | cons draft drafts ih =>
    refine climbs_bind (climbs_perform hws le_rfl (fun d b ws' he k hk => ?_) fun _ ws' hws' => ih hws')
    obtain ⟨w, hw, hkw⟩ := Locking.mem_held.1 hk
    rw [(execInsertLedgerEntry_ok he).1] at hw
    rw [List.mem_singleton.1 hw] at hkw
    cases hkw

theorem climbs_recordWalletEvent {offset nextOffset : ℤ} {record : LedgerRecord} :
    (recordWalletEvent topic partition offset nextOffset record).Climbs lockRank []
      fun _ ws => ws = [] := by
  refine climbs_bind (climbs_perform (m := 0) (n := 1) (below_nil 0) (Nat.zero_le 1) ?_
    fun inserted ws hws => ?_)
  · intro d b ws he k hk
    refine ⟨Nat.zero_le _, ?_⟩
    obtain ⟨w, hw, hkw⟩ := Locking.mem_held.1 hk
    rcases execInsertLedgerEvent_ok he with ⟨-, -, rfl⟩ | ⟨-, -, rfl⟩
    · cases hw
    · rw [List.mem_singleton.1 hw] at hkw
      rcases List.mem_cons.1 hkw with rfl | hkw
      · exact Nat.one_pos
      · obtain ⟨id, -, rfl⟩ := Option.map_eq_some_iff.1 (Option.mem_toList.1 hkw)
        exact Nat.one_pos
  · cases inserted with
    | none => exact climbs_bind (climbs_saveQueueOffsetInTx hws fun _ => rfl)
    | some event =>
      exact climbs_bind (climbs_insertEntries hws fun ws' hws' =>
        climbs_bind (climbs_saveQueueOffsetInTx hws' fun _ => rfl))

theorem climbs_processRecords (topic : String) (partition : ℤ) (records : List LogRecord) :
    (processRecords topic partition records).Climbs lockRank [] fun _ _ => True := by
  induction records with
  | nil => trivial
  | cons record records ih =>
    have hrecord : (processRecord topic partition record).Climbs lockRank [] fun _ ws => ws = [] := by
      rw [processRecord]
      cases record.event with
      | none => exact climbs_bind (climbs_saveQueueOffsetInTx (below_nil 1) fun _ => rfl)
      | some event => exact climbs_bind (climbs_mono climbs_recordWalletEvent fun _ _ hws => hws)
    refine climbs_bind (climbs_mono hrecord ?_)
    rintro _ _ rfl
    exact ih

theorem climbs_runWalletEventPartition (log : TopicLog) (partition : ℤ) :
    (runWalletEventPartition log partition).Climbs lockRank [] fun _ _ => True := by
  refine climbs_bind (climbs_perform_read (fun d b ws he => ?_) fun stored => ?_)
  · cases he
    rfl
  · exact climbs_processRecords ..

end Climbs

/-- After any schedule no tasks wait for each other in a circle, and behind every task
there is one that has ended or has a next step. -/
theorem ledger_deadlockFree (log : TopicLog) (users : List ℤ) (schedule : List (Action ℤ))
    (σ : LedgerSystem) (h : consumeAll log users schedule = some σ) :
    σ.DeadlockFree (runWalletEventPartition log) := by
  have hordered : System.Ordered lockRank σ := by
    refine (System.ordered_initial lockRank (LedgerDb.empty users)).steps
      (fun _ partition _ => ?_) h
    exact climbs_runWalletEventPartition log partition
  exact hordered.deadlockFree (System.wellFounded_of_bounded lockRank_lt)

/-- The task of partition 1 waits for the event that the task of partition 0 has stored. -/
theorem ledger_deadlockFree_deposit :
    ∃ σ, consumeAll depositLog.toTopicLog [1]
        [.start 0 0, .start 1 1, .exec 0, .exec 1, .exec 0] = some σ ∧
      ∀ t, ¬Relation.TransGen σ.WaitsFor t t := by
  have hsome : (consumeAll depositLog.toTopicLog [1]
      [.start 0 0, .start 1 1, .exec 0, .exec 1, .exec 0]).isSome := by decide
  obtain ⟨σ, hσ⟩ := Option.isSome_iff_exists.1 hsome
  exact ⟨σ, hσ, (ledger_deadlockFree depositLog.toTopicLog [1] _ σ hσ).not_in_circle⟩

end Ledger
