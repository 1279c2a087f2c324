import ExchangeServer.Foundation.Serial
import ExchangeServer.Timeseries.Repository

/-!
# The statements of the timeseries service and their locks

The statements of a task as data, so that sessions can be interleaved: a write
locks the unique keys of the row that it inserts, or the row that it changes. A
trade stays for good once it is stored and the offset of a partition only advances;
a statement that has found the one or the other and written nothing would find it
again.
-/

namespace Timeseries

open Protocol Relational Transactional Program

/-- `SELECT next_offset FROM timeseries_offsets ..`. -/
def TimeseriesDb.nextOffset (d : TimeseriesDb) (key : String × ℤ) : Option ℤ :=
  (d.timeseriesOffsets.find? key).map OffsetRow.nextOffset

def loadQueueOffset (topic : String) (partition : ℤ) : Stmt (Option ℤ) := fun d =>
  .ok (d.nextOffset (topic, partition), [])

/-- A statement, indexed by the type of its answer. -/
inductive Statement : Type → Type
  | loadQueueOffset (topic : String) (partition : ℤ) : Statement (Option ℤ)
  | insertTrade (topic : String) (partition offset : ℤ) (trade : TradeExecuted) : Statement Bool
  | upsertCandle (candle : CandleDraft) : Statement Unit
  | saveQueueOffset (topic : String) (partition nextOffset : ℤ) : Statement Unit

/-- What the database does with a statement. -/
def Statement.toStmt {β : Type} : Statement β → Stmt β
  | loadQueueOffset topic partition => Timeseries.loadQueueOffset topic partition
  | insertTrade topic partition offset trade => Timeseries.insertTrade topic partition offset trade
  | upsertCandle candle => Timeseries.upsertCandle candle
  | saveQueueOffset topic partition nextOffset => saveQueueOffsetSql topic partition nextOffset

/-! ## Locks -/

/-- What a write locks: a row, or a value of a unique key. -/
inductive Key
  | trade (key : ℤ × ℤ)
  | index (index : TradeIndex)
  | candle (key : CandleKey)
  | offset (key : String × ℤ)
  deriving DecidableEq

/-- What is stored under a key. -/
inductive Entry
  | trade (row : Option TradeRow)
  | index (row : Option TradeRow)
  | candle (row : Option CandleRow)
  | offset (nextOffset : Option ℤ)

def Write.keys : Write → List Key
  | putTrade row => .trade row.key :: row.indices.map .index
  | putCandle row => [.candle row.key]
  | putOffset row => [.offset row.key]

namespace TimeseriesDb

def look : Key → TimeseriesDb → Entry
  | .trade key, d => .trade (d.timeseriesTrades.find? key)
  | .index index, d => .index (d.timeseriesTrades.byIndex index)
  | .candle key, d => .candle (d.candles.find? key)
  | .offset key, d => .offset (d.nextOffset key)

/-- Neither the key of a trade nor one of its other unique values is taken. -/
def Free (d : TimeseriesDb) (row : TradeRow) : Prop :=
  d.timeseriesTrades.find? row.key = none ∧ d.timeseriesTrades.Admits row

instance (d : TimeseriesDb) (row : TradeRow) : Decidable (d.Free row) :=
  inferInstanceAs (Decidable (_ ∧ _))

/-- The offset of a partition would advance. -/
def Advances (d : TimeseriesDb) (row : OffsetRow) : Prop :=
  ∀ stored ∈ d.nextOffset row.key, stored < row.nextOffset

instance (d : TimeseriesDb) (row : OffsetRow) : Decidable (d.Advances row) :=
  inferInstanceAs (Decidable (∀ stored ∈ d.nextOffset row.key, stored < row.nextOffset))

/-- A write whose condition still holds. The writes of a statement are done under
its locks, so it does. -/
def commitWrite (w : Write) (d : TimeseriesDb) : TimeseriesDb :=
  match w with
  | .putTrade row => if d.Free row then write (.putTrade row) d else d
  | .putCandle row => write (.putCandle row) d
  | .putOffset row => if d.Advances row then write (.putOffset row) d else d

section Lookups

variable {d d' : TimeseriesDb} {row : TradeRow}

theorem free_iff : d.Free row ↔
    d.timeseriesTrades.find? row.key = none ∧
      ∀ index ∈ row.indices, d.timeseriesTrades.byIndex index = none := by
  refine and_congr_right fun hfree => ?_
  have hne := Table.find?_eq_none_iff.1 hfree
  constructor
  · intro hadmits index hindex
    exact Indexed.byIndex_eq_none_iff.2 fun other hother => hadmits other hother (hne other hother) index hindex
  · intro hnone other hother _ index hindex
    exact Indexed.byIndex_eq_none_iff.1 (hnone index hindex) other hother

theorem commitWrite_of_free (h : d.Free row) :
    (d.commitWrite (.putTrade row)).timeseriesTrades.toTable = d.timeseriesTrades.toTable.upsert row := by
  rw [commitWrite, if_pos h]
  exact Indexed.toTable_put h.2

theorem find?_commitWrite (key : ℤ × ℤ) :
    (commitWrite (.putTrade row) d).timeseriesTrades.find? key =
      if d.Free row ∧ key = row.key then some row else d.timeseriesTrades.find? key := by
  by_cases h : d.Free row
  · rw [commitWrite, if_pos h]
    simp only [h, true_and]
    exact Indexed.find?_put h.2 key
  · rw [commitWrite, if_neg h, if_neg fun hc => h hc.1]

theorem byIndex_commitWrite (index : TradeIndex) :
    (commitWrite (.putTrade row) d).timeseriesTrades.byIndex index =
      if d.Free row ∧ index ∈ row.indices then some row
      else d.timeseriesTrades.byIndex index := by
  by_cases h : d.Free row
  · rw [commitWrite, if_pos h]
    simp only [h, true_and]
    split
    · next hindex => exact Indexed.byIndex_put_of_mem h.2 hindex
    · next hindex =>
      refine Indexed.byIndex_put_of_not_mem h.2 hindex fun stored hstored => ?_
      rw [h.1] at hstored
      cases hstored
  · rw [commitWrite, if_neg h, if_neg fun hc => h hc.1]

/-- A stored offset only advances. -/
theorem nextOffset_commitWrite {row : OffsetRow} (key : String × ℤ) :
    (commitWrite (.putOffset row) d).nextOffset key =
      if d.Advances row ∧ key = row.key then some row.nextOffset else d.nextOffset key := by
  by_cases h : d.Advances row
  · rw [commitWrite, if_pos h]
    simp only [h, true_and]
    rw [nextOffset, write, Table.find?_upsert]
    split
    · rfl
    · rfl
  · rw [commitWrite, if_neg h, if_neg fun hc => h hc.1]

end Lookups

/-! ## Growth -/

/-- Trades stay and offsets advance. -/
structure Grows (d d' : TimeseriesDb) : Prop where
  trade : ∀ key row, d.timeseriesTrades.find? key = some row →
    d'.timeseriesTrades.find? key = some row
  offset : ∀ key stored, d.nextOffset key = some stored →
    ∃ stored', d'.nextOffset key = some stored' ∧ stored ≤ stored'

theorem Grows.refl (d : TimeseriesDb) : Grows d d where
  trade _ _ h := h
  offset _ stored h := ⟨stored, h, le_rfl⟩

theorem Grows.trans {a b c : TimeseriesDb} (h : Grows a b) (h' : Grows b c) : Grows a c where
  trade key row hrow := h'.trade key row (h.trade key row hrow)
  offset key stored hstored := by
    obtain ⟨stored', hstored', hle⟩ := h.offset key stored hstored
    obtain ⟨stored'', hstored'', hle'⟩ := h'.offset key stored' hstored'
    exact ⟨stored'', hstored'', hle.trans hle'⟩

theorem grows_commitWrite (w : Write) (d : TimeseriesDb) : Grows d (commitWrite w d) := by
  cases w with
  | putTrade row =>
    refine ⟨fun key stored hstored => ?_, fun key stored hstored => ⟨stored, ?_, le_rfl⟩⟩
    · rw [find?_commitWrite, if_neg]
      · exact hstored
      · rintro ⟨hfree, rfl⟩
        rw [hfree.1] at hstored
        cases hstored
    · rw [commitWrite]
      split <;> exact hstored
  | putCandle row => exact ⟨(Grows.refl d).trade, (Grows.refl d).offset⟩
  | putOffset row =>
    refine ⟨fun key stored hstored => ?_, fun key stored hstored => ?_⟩
    · rw [commitWrite]
      split <;> exact hstored
    · rw [nextOffset_commitWrite]
      split
      · next h =>
        obtain ⟨hadvances, rfl⟩ := h
        exact ⟨_, rfl, (hadvances stored hstored).le⟩
      · exact ⟨stored, hstored, le_rfl⟩

theorem look_commitWrite_of_not_mem {w : Write} {k : Key} (h : k ∉ w.keys) (d : TimeseriesDb) :
    look k (commitWrite w d) = look k d := by
  cases w with
  | putTrade row =>
    cases k with
    | trade key =>
      have hk : key ≠ row.key := by
        rintro rfl
        exact h List.mem_cons_self
      simp [look, find?_commitWrite, hk]
    | index index =>
      have hk : index ∉ row.indices := fun hindex =>
        h (List.mem_cons_of_mem _ (List.mem_map_of_mem hindex))
      simp [look, byIndex_commitWrite, hk]
    | candle key | offset key =>
      rw [commitWrite]
      split <;> rfl
  | putCandle row =>
    cases k with
    | candle key =>
      have hk : key ≠ row.key := by
        rintro rfl
        exact h List.mem_cons_self
      exact congrArg Entry.candle (Table.find?_upsert_of_ne hk)
    | _ => rfl
  | putOffset row =>
    cases k with
    | offset key =>
      have hk : key ≠ row.key := by
        rintro rfl
        exact h List.mem_cons_self
      simp [look, nextOffset_commitWrite, hk]
    | _ =>
      rw [commitWrite]
      split <;> rfl

theorem free_congr {row : TradeRow} {d d' : TimeseriesDb}
    (h : ∀ k ∈ (Write.putTrade row).keys, look k d = look k d') : d.Free row ↔ d'.Free row := by
  have hkey : d.timeseriesTrades.find? row.key = d'.timeseriesTrades.find? row.key :=
    Entry.trade.inj (h (.trade row.key) List.mem_cons_self)
  have hindex : ∀ index ∈ row.indices,
      d.timeseriesTrades.byIndex index = d'.timeseriesTrades.byIndex index := by
    intro index hindex
    exact Entry.index.inj (h (.index index) (List.mem_cons_of_mem _ (List.mem_map_of_mem hindex)))
  rw [free_iff, free_iff, hkey]
  refine and_congr_right fun _ => forall₂_congr fun index hmem => ?_
  rw [hindex index hmem]

theorem advances_congr {row : OffsetRow} {d d' : TimeseriesDb}
    (h : look (.offset row.key) d = look (.offset row.key) d') : d.Advances row ↔ d'.Advances row := by
  rw [Advances, Entry.offset.inj h]
  exact Iff.rfl

theorem look_commitWrite {w : Write} {d d' : TimeseriesDb}
    (h : ∀ k ∈ w.keys, look k d = look k d') :
    ∀ k ∈ w.keys, look k (commitWrite w d) = look k (commitWrite w d') := by
  intro k hk
  have hsame := h k hk
  cases w with
  | putTrade row =>
    have hfree := free_congr h
    rcases List.mem_cons.1 hk with rfl | hk
    · have hfind := Entry.trade.inj hsame
      simp only [look, find?_commitWrite, hfree, hfind]
    · obtain ⟨index, -, rfl⟩ := List.mem_map.1 hk
      have hfind := Entry.index.inj hsame
      simp only [look, byIndex_commitWrite, hfree, hfind]
  | putCandle row =>
    obtain rfl := List.mem_singleton.1 hk
    exact congrArg Entry.candle
      ((Table.find?_upsert_self _ row).trans (Table.find?_upsert_self _ row).symm)
  | putOffset row =>
    obtain rfl := List.mem_singleton.1 hk
    have hoffset := Entry.offset.inj hsame
    simp only [look, nextOffset_commitWrite, advances_congr hsame, hoffset]

private theorem look_commitWrite_cases {w : Write} {d d' : TimeseriesDb}
    (h : ∀ k ∈ w.keys, look k d = look k d') (k : Key) :
    look k (commitWrite w d) = look k (commitWrite w d') ∨
      look k (commitWrite w d) = look k d ∧ look k (commitWrite w d') = look k d' := by
  by_cases hk : k ∈ w.keys
  · exact .inl (look_commitWrite h k hk)
  · exact .inr ⟨look_commitWrite_of_not_mem hk d, look_commitWrite_of_not_mem hk d'⟩

theorem Grows.commitWrite {w : Write} {d d' : TimeseriesDb} (hd : Grows d d')
    (h : ∀ k ∈ w.keys, look k d = look k d') : Grows (commitWrite w d) (commitWrite w d') where
  trade key row hrow := by
    rcases look_commitWrite_cases h (.trade key) with he | ⟨he, he'⟩
    · exact (Entry.trade.inj he).symm.trans hrow
    · exact (Entry.trade.inj he').trans (hd.trade key row ((Entry.trade.inj he).symm.trans hrow))
  offset key stored hstored := by
    rcases look_commitWrite_cases h (.offset key) with he | ⟨he, he'⟩
    · exact ⟨stored, (Entry.offset.inj he).symm.trans hstored, le_rfl⟩
    · rw [Entry.offset.inj he']
      exact hd.offset key stored ((Entry.offset.inj he).symm.trans hstored)

end TimeseriesDb

/-! ## Answers -/

section Answers

variable {d d' : TimeseriesDb}

/-- A trade is there already, or it is stored. -/
theorem insertTrade_ok {topic : String} {partition offset : ℤ} {trade : TradeExecuted} {b : Bool}
    {ws : List Write} (h : insertTrade topic partition offset trade d = .ok (b, ws)) :
    (b = false ∧ ws = [] ∧
      (d.timeseriesTrades.find? (trade.marketId, trade.engineSequence)).isSome) ∨
    ∃ row : TradeRow, row.key = (trade.marketId, trade.engineSequence) ∧ b = true ∧
      ws = [.putTrade row] ∧ d.Free row := by
  unfold insertTrade at h
  split at h
  · split at h
    · dsimp only at h
      split at h
      · next stored hfound =>
        cases h
        exact .inl ⟨rfl, rfl, Option.isSome_iff_exists.2 ⟨stored, hfound⟩⟩
      · next hfound =>
        split at h
        · next hadmits =>
          cases h
          exact .inr ⟨_, rfl, rfl, rfl, hfound, hadmits⟩
        · cases h
    · cases h
  · cases h

/-- A candle is written over the one of its bucket. -/
theorem upsertCandle_ok_cases {candle : CandleDraft} {b : Unit} {ws : List Write}
    (h : upsertCandle candle d = .ok (b, ws)) :
    ∃ row : CandleRow, row.key = candle.key ∧ ws = [.putCandle row] := by
  unfold upsertCandle at h
  split at h
  · split at h
    · cases h
      exact ⟨_, rfl, rfl⟩
    · next stored hfound =>
      split at h
      · next hmerge =>
        cases h
        have hkey : stored.key = candle.key := Table.key_of_find? hfound
        exact ⟨⟨candle.merge stored.toCandle, hmerge⟩, hkey, rfl⟩
      · cases h
  · cases h

theorem saveQueueOffsetSql_eq {topic : String} {partition nextOffset : ℤ} (h : 0 ≤ nextOffset) :
    let row : OffsetRow := { topic, partition, nextOffset, check := h }
    saveQueueOffsetSql topic partition nextOffset d =
      .ok ((), if d.Advances row then [.putOffset row] else []) := by
  intro row
  rw [saveQueueOffsetSql, dif_pos h]
  dsimp only
  cases hfound : d.timeseriesOffsets.find? row.key with
  | none =>
    have hadvances : d.Advances row := by
      intro stored hstored
      rw [TimeseriesDb.nextOffset, hfound] at hstored
      cases hstored
    rw [if_pos hadvances]
  | some stored =>
    have hadvances : d.Advances row ↔ stored.nextOffset < nextOffset := by
      rw [TimeseriesDb.Advances, TimeseriesDb.nextOffset, hfound]
      simp [row]
    dsimp only
    by_cases hlt : stored.nextOffset < nextOffset
    · rw [if_pos hlt, if_pos (hadvances.2 hlt)]
    · rw [if_neg hlt, if_neg fun h => hlt (hadvances.1 h)]

theorem upsertCandle_congr {candle : CandleDraft}
    (h : d.candles.find? candle.key = d'.candles.find? candle.key) :
    upsertCandle candle d = upsertCandle candle d' := by
  rw [upsertCandle, h]
  rfl

/-- The columns of a trade that is inserted pass the constraints wherever its key
and its other unique values are free. -/
theorem insertTrade_of_free {topic : String} {partition offset : ℤ} {trade : TradeExecuted}
    {row : TradeRow} (h : insertTrade topic partition offset trade d = .ok (true, [.putTrade row]))
    (hfree : d'.Free row) :
    insertTrade topic partition offset trade d' = .ok (true, [.putTrade row]) := by
  unfold insertTrade at h
  split at h
  · next hcheck =>
    split at h
    · next hend =>
      dsimp only at h
      split at h
      · cases h
      · split at h
        · cases h
          rw [insertTrade, dif_pos hcheck, if_pos hend]
          dsimp only
          rw [hfree.1]
          exact if_pos hfree.2
        · cases h
    · cases h
  · cases h

/-- A trade that is there is found wherever it has stayed. -/
theorem insertTrade_known {topic : String} {partition offset : ℤ} {trade : TradeExecuted}
    (h : insertTrade topic partition offset trade d = .ok (false, []))
    (hd : TimeseriesDb.Grows d d') :
    insertTrade topic partition offset trade d' = .ok (false, []) := by
  unfold insertTrade at h
  split at h
  · next hcheck =>
    split at h
    · next hend =>
      dsimp only at h
      split at h
      · next stored hfound =>
        rw [insertTrade, dif_pos hcheck, if_pos hend]
        dsimp only
        rw [hd.trade _ _ hfound]
      · split at h <;> cases h
    · cases h
  · cases h

end Answers

namespace Statement

/-- A statement that writes depends only on the keys that it locks. -/
theorem exec_congr {β : Type} {s : Statement β} {v v' : TimeseriesDb} {b : β} {ws : List Write}
    (h : s.toStmt v = .ok (b, ws)) (hws : ws ≠ [])
    (hk : ∀ w ∈ ws, ∀ k ∈ w.keys, TimeseriesDb.look k v = TimeseriesDb.look k v') :
    s.toStmt v' = .ok (b, ws) := by
  cases s with
  | loadQueueOffset topic partition =>
    cases h
    exact absurd rfl hws
  | insertTrade topic partition offset trade =>
    rcases insertTrade_ok h with ⟨-, rfl, -⟩ | ⟨row, -, rfl, rfl, hfree⟩
    · exact absurd rfl hws
    · exact insertTrade_of_free h
        ((TimeseriesDb.free_congr (hk _ (List.mem_singleton_self _))).1 hfree)
  | upsertCandle candle =>
    obtain ⟨row, hkey, rfl⟩ := upsertCandle_ok_cases h
    have hlook := hk _ (List.mem_singleton_self _) (.candle row.key) (List.mem_singleton_self _)
    exact (upsertCandle_congr (hkey ▸ Entry.candle.inj hlook)).symm.trans h
  | saveQueueOffset topic partition nextOffset =>
    change saveQueueOffsetSql topic partition nextOffset v = _ at h
    change saveQueueOffsetSql topic partition nextOffset v' = _
    by_cases hcheck : 0 ≤ nextOffset
    · rw [saveQueueOffsetSql_eq hcheck] at h ⊢
      split at h
      · next hadvances =>
        cases h
        have hlook := hk _ (List.mem_singleton_self _) _ (List.mem_singleton_self _)
        rw [if_pos ((TimeseriesDb.advances_congr hlook).1 hadvances)]
      · cases h
        exact absurd rfl hws
    · rw [saveQueueOffsetSql, dif_neg hcheck] at h
      cases h

end Statement

instance : Locking Statement TimeseriesDb Write TimeseriesRepositoryError Key Entry where
  write := TimeseriesDb.commitWrite
  exec := Statement.toStmt
  keys := Write.keys
  look := TimeseriesDb.look
  le := TimeseriesDb.Grows
  le_refl := TimeseriesDb.Grows.refl
  le_trans := TimeseriesDb.Grows.trans
  le_write := TimeseriesDb.grows_commitWrite
  write_mono := TimeseriesDb.Grows.commitWrite
  look_write_of_not_mem := TimeseriesDb.look_commitWrite_of_not_mem
  look_write := TimeseriesDb.look_commitWrite
  exec_congr h hws _ hk := Statement.exec_congr h hws hk

/-- What a transaction with these writes sees of the database. -/
abbrev sessionView (ws : List Write) (d : TimeseriesDb) : TimeseriesDb := Store.applyAll Statement ws d

namespace Statement

/-- The conditions of the writes of a statement hold where it is executed. -/
theorem sessionView_eq_view {β : Type} {s : Statement β} {d : TimeseriesDb} {b : β}
    {ws : List Write} (h : s.toStmt d = .ok (b, ws)) : sessionView ws d = view ws d := by
  cases s with
  | loadQueueOffset topic partition =>
    cases h
    rfl
  | insertTrade topic partition offset trade =>
    rcases insertTrade_ok h with ⟨-, rfl, -⟩ | ⟨row, -, -, rfl, hfree⟩
    · rfl
    · exact if_pos hfree
  | upsertCandle candle =>
    obtain ⟨row, -, rfl⟩ := upsertCandle_ok_cases h
    rfl
  | saveQueueOffset topic partition nextOffset =>
    change saveQueueOffsetSql topic partition nextOffset d = _ at h
    by_cases hcheck : 0 ≤ nextOffset
    · rw [saveQueueOffsetSql_eq hcheck] at h
      split at h
      · next hadvances =>
        cases h
        exact if_pos hadvances
      · cases h
        rfl
    · rw [saveQueueOffsetSql, dif_neg hcheck] at h
      cases h

theorem stable_insertTrade (topic : String) (partition offset : ℤ) (trade : TradeExecuted) :
    Stable (insertTrade topic partition offset trade) := by
  intro d d' b h hd
  rcases insertTrade_ok h with ⟨rfl, -, -⟩ | ⟨row, -, -, hws, -⟩
  · exact insertTrade_known h hd
  · cases hws

theorem stable_upsertCandle (candle : CandleDraft) : Stable (upsertCandle candle) := by
  intro d d' b h _
  obtain ⟨row, -, hws⟩ := upsertCandle_ok_cases h
  cases hws

theorem stable_saveQueueOffset (topic : String) (partition nextOffset : ℤ) :
    Stable (saveQueueOffset topic partition nextOffset) := by
  intro d d' b h hd
  change saveQueueOffsetSql topic partition nextOffset d = _ at h
  change saveQueueOffsetSql topic partition nextOffset d' = _
  by_cases hcheck : 0 ≤ nextOffset
  · rw [saveQueueOffsetSql_eq hcheck] at h ⊢
    split at h
    · cases h
    · next hnot =>
      -- An offset that is not behind stays so.
      rw [if_neg fun hadvances => hnot fun stored hstored => ?_]
      obtain ⟨stored', hstored', hle⟩ := hd.offset _ _ hstored
      exact hle.trans_lt (hadvances stored' hstored')
  · rw [saveQueueOffsetSql, dif_neg hcheck] at h
    cases h

end Statement

end Timeseries
