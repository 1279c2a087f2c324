import ExchangeServer.Foundation.LockOrder
import ExchangeServer.Timeseries.Interleavings

/-!
# The timeseries service does not deadlock

Trades of one market may come from several tasks, which then wait for each other's
candles. They take their locks in one order: the trade, its candles from the short
intervals to the long ones, and the offset.
-/

namespace Timeseries

open Protocol Relational Transactional Program

/-- The place of an interval among those of a trade. -/
def intervalRank (label : String) : ℕ := (candleIntervals.map CandleInterval.label).idxOf label

/-- The order of the locks. -/
def lockRank : Key → ℕ
  | .trade _ | .index _ => 0
  | .candle key => 1 + intervalRank key.2.1
  | .offset _ => 7

theorem lockRank_lt (k : Key) : lockRank k < 8 := by
  cases k with
  | candle key =>
    have hle : intervalRank key.2.1 ≤ 5 := List.idxOf_le_length
    rw [lockRank]
    omega
  | _ => simp [lockRank]

section Climbs

variable {topic : String} {partition : ℤ} {ws : List Write}

/-- The candles of a trade from an interval on. -/
theorem climbs_upsertCandlesInTx {candles : List CandleDraft} {r : ℕ}
    {Q : Unit → List Write → Prop} (hws : Below Statement lockRank ws (1 + r))
    (hcandles : candles.map (fun candle => intervalRank candle.interval) =
      List.range' r candles.length)
    (hend : r + candles.length ≤ 6) (hQ : ∀ ws', Below Statement lockRank ws' 7 → Q () ws') :
    (Session.upsertCandlesInTx candles).Climbs lockRank ws Q := by
  induction candles generalizing r ws with
  | nil =>
    refine hQ ws fun k hk => ?_
    have hlt := hws k hk
    rw [List.length_nil] at hend
    omega
  | cons candle candles ih =>
    rw [List.map_cons, List.length_cons, List.range'_succ, List.cons.injEq] at hcandles
    rw [List.length_cons] at hend
    refine climbs_bind (climbs_perform hws (Nat.le_succ (1 + r)) ?_ fun _ ws' hws' => ?_)
    · intro d b ws' he k hk
      obtain ⟨row, hkey, rfl⟩ := upsertCandle_ok_cases he
      obtain ⟨w, hw, hkw⟩ := Locking.mem_held.1 hk
      rw [List.mem_singleton.1 hw] at hkw
      obtain rfl := List.mem_singleton.1 hkw
      have hrank : lockRank (.candle row.key) = 1 + r := by
        rw [lockRank, hkey]
        exact congrArg (1 + ·) hcandles.1
      omega
    · exact ih hws' hcandles.2 (by omega)

theorem climbs_saveQueueOffsetInTx {nextOffset : ℤ} {Q : Unit → List Write → Prop}
    (hws : Below Statement lockRank ws 7) (hQ : ∀ ws', Q () ws') :
    (Session.saveQueueOffsetInTx topic partition nextOffset).Climbs lockRank ws Q := by
  refine climbs_perform hws (Nat.le_succ 7) (fun d b ws' he k hk => ?_) fun _ ws' _ => hQ ws'
  obtain ⟨w, hw, hkw⟩ := Locking.mem_held.1 hk
  have hoffset : ∃ row, w = .putOffset row := by
    change saveQueueOffsetSql topic partition nextOffset d = _ at he
    by_cases hcheck : 0 ≤ nextOffset
    · rw [saveQueueOffsetSql_eq hcheck] at he
      split at he
      · cases he
        exact ⟨_, List.mem_singleton.1 hw⟩
      · cases he
        cases hw
    · rw [saveQueueOffsetSql, dif_neg hcheck] at he
      cases he
  obtain ⟨row, rfl⟩ := hoffset
  obtain rfl := List.mem_singleton.1 hkw
  exact ⟨le_rfl, Nat.lt_succ_self 7⟩

theorem climbs_recordTrade {offset nextOffset : ℤ} {trade : TradeExecuted} :
    (Session.recordTrade topic partition offset nextOffset trade
      (candleDraftsFromTrade trade)).Climbs lockRank [] fun _ ws => ws = [] := by
  refine climbs_bind (climbs_perform (m := 0) (n := 1) (below_nil 0) (Nat.zero_le 1) ?_
    fun inserted ws hws => climbs_bind ?_)
  · intro d b ws he k hk
    refine ⟨Nat.zero_le _, ?_⟩
    obtain ⟨w, hw, hkw⟩ := Locking.mem_held.1 hk
    rcases insertTrade_ok he with ⟨-, rfl, -⟩ | ⟨row, -, -, rfl, -⟩
    · cases hw
    · rw [List.mem_singleton.1 hw] at hkw
      rcases List.mem_cons.1 hkw with rfl | hkw
      · exact Nat.one_pos
      · obtain ⟨index, -, rfl⟩ := List.mem_map.1 hkw
        exact Nat.one_pos
  · have hcandles : ∀ ws', Below Statement lockRank ws' 7 →
        (do
          Session.saveQueueOffsetInTx topic partition nextOffset
          commitTx
          return inserted : Session.Tx Bool).Climbs lockRank ws' fun _ ws => ws = [] :=
      fun ws' hws' => climbs_bind (climbs_saveQueueOffsetInTx hws' fun _ => rfl)
    cases inserted with
    | false => exact hcandles ws fun k hk => (hws k hk).trans_le (by decide)
    | true => exact climbs_upsertCandlesInTx (r := 0) hws rfl (by decide : 0 + 5 ≤ 6) hcandles

theorem climbs_processRecord (topic : String) (partition : ℤ) (record : LogRecord) :
    (Session.processRecord topic partition record).Climbs lockRank [] fun _ ws => ws = [] := by
  cases htrade : record.trade? with
  | none =>
    rw [processRecord_of_none htrade]
    exact climbs_bind (climbs_saveQueueOffsetInTx (below_nil 7) fun _ => rfl)
  | some trade =>
    rw [processRecord_of_trade htrade]
    exact climbs_bind (climbs_mono climbs_recordTrade fun _ _ hws => hws)

theorem climbs_processRecords (topic : String) (partition : ℤ) (records : List LogRecord) :
    (Session.processRecords topic partition records).Climbs lockRank [] fun _ _ => True := by
  induction records with
  | nil => trivial
  | cons record records ih =>
    refine climbs_bind (climbs_mono (climbs_processRecord topic partition record) ?_)
    rintro _ _ rfl
    exact ih

theorem climbs_runEngineEventPartition (log : TopicLog) (partition : ℤ) :
    (Session.runEngineEventPartition log partition).Climbs lockRank [] fun _ _ => True := by
  refine climbs_bind (climbs_perform_read (fun d b ws he => ?_) fun stored => ?_)
  · cases he
    rfl
  · exact climbs_processRecords ..

end Climbs

/-- After any schedule no tasks wait for each other in a circle, and behind every task
there is one that has ended or has a next step. -/
theorem timeseries_deadlockFree (log : TopicLog) (schedule : List (Action ℤ))
    (σ : TimeseriesSystem) (h : consumeAll log schedule = some σ) :
    σ.DeadlockFree (Session.runEngineEventPartition log) := by
  have hordered : System.Ordered lockRank σ := by
    refine (System.ordered_initial lockRank TimeseriesDb.empty).steps (fun _ partition _ => ?_) h
    exact climbs_runEngineEventPartition log partition
  exact hordered.deadlockFree (System.wellFounded_of_bounded lockRank_lt)

/-- Two tasks have read the same record, and the second one waits for the trade that the
first one has stored. -/
theorem timeseries_deadlockFree_minute :
    ∃ σ, consumeAll minuteLog [.start 0 0, .start 1 0, .exec 0, .exec 1, .exec 0] = some σ ∧
      ∀ t, ¬Relation.TransGen σ.WaitsFor t t := by
  have hsome : (consumeAll minuteLog
      [.start 0 0, .start 1 0, .exec 0, .exec 1, .exec 0]).isSome := by decide
  obtain ⟨σ, hσ⟩ := Option.isSome_iff_exists.1 hsome
  exact ⟨σ, hσ, (timeseries_deadlockFree minuteLog _ σ hσ).not_in_circle⟩

end Timeseries
