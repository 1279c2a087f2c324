import ExchangeServer.Foundation.Lanes
import ExchangeServer.Projector.ExactlyOnce

/-!
# Turns of the projector's tasks

The tasks of the partitions take turns, a transaction at a time. Whoever's turn
it is, the records of each partition are worked off in their order, so that two
runs to the end have worked off the same lanes.

## Main results

- `Projection.turn_eq_some`: what a turn does
- `Projection.Ordered.turn`: each turn keeps the order of the partitions
- `Projection.Ordered.sameLanes`: two runs to the end
-/

namespace Projector

open Protocol Relational Transactional Program

/-! ## Turns -/

/-- The projector between the turns of its tasks: the data, the records of each
partition that are left, what is left to do for the first of them, and the
records that have been worked off. -/
structure Projection where
  db : ProjectorDb
  records : Source → List LogRecord
  todo : Source → List Transaction
  done : List (Source × LogRecord)

namespace Projection

/-- The projector before all records. -/
def initial (logs : PartitionLogs) (d : ProjectorDb) : Projection where
  db := d
  records := logs.records
  todo := fun _ => []
  done := []

variable (σ : Projection) (source : Source)

def setTodo (todo : List Transaction) : Projection :=
  { σ with todo := Function.update σ.todo source todo }

/-- A transaction of the first record has committed. After the last one the record
is worked off. -/
def committed (d : ProjectorDb) (record : LogRecord) (records : List LogRecord) :
    List Transaction → Projection
  | [] =>
    { db := d
      records := Function.update σ.records source records
      todo := Function.update σ.todo source []
      done := σ.done ++ [(source, record)] }
  | todo => { σ with db := d, todo := Function.update σ.todo source todo }

/-- The turn of a task: it takes up its next record, or runs the next transaction
of the one it is at. When the context of an order is missing it comes back to the
record; any other error ends the projector. -/
def turn : Option Projection :=
  match σ.records source, σ.todo source with
  | [], _ => none
  | record :: _, [] => some (σ.setTodo source (record.transactions source))
  | record :: records, t :: todo =>
    match t.program.run σ.db σ.db with
    | (.ok (), d) => some (σ.committed source d record records todo)
    | (.error e, d) =>
      if e.isMissingOrderContext then some { σ.setTodo source [] with db := d } else none

/-- All records have been worked off. -/
def Finished : Prop := ∀ source, σ.records source = []

/-- What has been worked off, in the order of the turns. -/
def payloads : List Payload := σ.done.map fun entry => entry.2.payload

variable {σ source} {σ' : Projection}

/-- A turn commits a transaction of the first record, or changes no data. -/
theorem turn_eq_some (h : σ.turn source = some σ') :
    ∃ record records, σ.records source = record :: records ∧
      ((∃ todo, todo <:+ record.transactions source ∧ σ' = σ.setTodo source todo) ∨
        ∃ t todo d, σ.todo source = t :: todo ∧ commit σ.db t = some d ∧
          σ' = σ.committed source d record records todo) := by
  unfold turn at h
  split at h
  · cases h
  · next record records hrecords _ =>
    cases h
    exact ⟨record, records, hrecords, .inl ⟨_, List.suffix_rfl, rfl⟩⟩
  · next record records t todo hrecords htodo =>
    refine ⟨record, records, hrecords, ?_⟩
    split at h
    · next d hrun =>
      cases h
      refine .inr ⟨t, todo, d, htodo, ?_, rfl⟩
      unfold commit
      rw [hrun]
    · next e d hrun =>
      -- A transaction that fails leaves the data as it was.
      have hsame : d = σ.db := by
        rw [run_of_atomic (atomic_program t)] at hrun
        cases heval : t.program.eval σ.db with
        | ok r =>
          rw [heval] at hrun
          cases hrun
        | error e' =>
          rw [heval] at hrun
          cases hrun
          rfl
      subst hsame
      split at h
      · cases h
        exact .inl ⟨[], List.nil_suffix, rfl⟩
      · cases h

/-! ## The order of the partitions -/

/-- The records of each partition are worked off in their order. -/
structure Ordered (logs : PartitionLogs) (σ : Projection) : Prop where
  lanes : ∀ source, (σ.done.filter fun entry => entry.1 = source) ++
    (σ.records source).map (Prod.mk source) = (logs.records source).map (Prod.mk source)
  todo : ∀ source record records, σ.records source = record :: records →
    σ.todo source <:+ record.transactions source

variable {logs : PartitionLogs}

theorem ordered_initial (logs : PartitionLogs) (d : ProjectorDb) : Ordered logs (initial logs d) :=
  ⟨fun _ => rfl, fun _ _ _ _ => List.nil_suffix⟩

theorem Ordered.setTodo (h : Ordered logs σ) {todo : List Transaction} {record : LogRecord}
    {records : List LogRecord} (hrecords : σ.records source = record :: records)
    (htodo : todo <:+ record.transactions source) : Ordered logs (σ.setTodo source todo) := by
  refine ⟨h.lanes, fun source' record' records' hrecords' => ?_⟩
  by_cases hs : source' = source
  · subst hs
    obtain ⟨rfl, -⟩ := List.cons.inj (hrecords.symm.trans hrecords')
    show Function.update σ.todo source' todo source' <:+ _
    rw [Function.update_self]
    exact htodo
  · show Function.update σ.todo source todo source' <:+ _
    rw [Function.update_of_ne hs]
    exact h.todo source' record' records' hrecords'

theorem Ordered.committed (h : Ordered logs σ) {d : ProjectorDb} {t : Transaction}
    {todo : List Transaction} {record : LogRecord} {records : List LogRecord}
    (hrecords : σ.records source = record :: records) (htodo : σ.todo source = t :: todo) :
    Ordered logs (σ.committed source d record records todo) := by
  cases todo with
  | nil =>
    refine ⟨fun source' => ?_, fun source' record' records' hrecords' => ?_⟩
    · show (σ.done ++ [(source, record)]).filter _ ++
        (Function.update σ.records source records source').map _ = _
      rw [List.filter_append, ← h.lanes source', List.append_assoc]
      by_cases hs : source' = source
      · subst hs
        rw [Function.update_self, hrecords, List.filter_cons, if_pos (decide_eq_true rfl)]
        rfl
      · have hne : ¬decide (source = source') = true :=
          fun heq => hs (of_decide_eq_true heq).symm
        rw [Function.update_of_ne hs, List.filter_cons, if_neg hne]
        rfl
    · show Function.update σ.todo source [] source' <:+ _
      by_cases hs : source' = source
      · rw [hs, Function.update_self]
        exact List.nil_suffix
      · have hrest : Function.update σ.records source records source' = record' :: records' := hrecords'
        rw [Function.update_of_ne hs] at hrest ⊢
        exact h.todo source' record' records' hrest
  | cons u todo =>
    have hsuffix := h.todo source record records hrecords
    rw [htodo] at hsuffix
    have hset := h.setTodo hrecords ((List.suffix_cons t (u :: todo)).trans hsuffix)
    exact ⟨hset.lanes, hset.todo⟩

theorem Ordered.turn (h : Ordered logs σ) (hturn : σ.turn source = some σ') : Ordered logs σ' := by
  obtain ⟨record, records, hrecords, ⟨todo, htodo, rfl⟩ | ⟨t, todo, d, htodo, -, rfl⟩⟩ :=
    turn_eq_some hturn
  · exact h.setTodo hrecords htodo
  · exact h.committed hrecords htodo

/-- What has been worked off of a partition is a beginning of it. -/
theorem Ordered.mem_records (h : Ordered logs σ) {entry : Source × LogRecord}
    (hentry : entry ∈ σ.done) : entry.2 ∈ logs.records entry.1 := by
  have hmem : entry ∈ (logs.records entry.1).map (Prod.mk entry.1) := by
    rw [← h.lanes entry.1]
    exact List.mem_append_left _ (List.mem_filter.2 ⟨hentry, decide_eq_true rfl⟩)
  obtain ⟨record, hrecord, heq⟩ := List.mem_map.1 hmem
  rw [← heq]
  exact hrecord

/-- What is left of a partition is its end. -/
theorem Ordered.mem_of_left (h : Ordered logs σ) {record : LogRecord}
    (hrecord : record ∈ σ.records source) : record ∈ logs.records source := by
  have hmem : (source, record) ∈ (logs.records source).map (Prod.mk source) := by
    rw [← h.lanes source]
    exact List.mem_append_right _ (List.mem_map_of_mem hrecord)
  obtain ⟨record', hrecord', heq⟩ := List.mem_map.1 hmem
  cases heq
  exact hrecord'

/-- Two runs that have worked off all records have the same lanes. -/
theorem Ordered.sameLanes (h : Ordered logs σ) (h' : Ordered logs σ') (hfinished : σ.Finished)
    (hfinished' : σ'.Finished) : SameLanes Prod.fst σ.done σ'.done := by
  intro source
  have hlane := h.lanes source
  have hlane' := h'.lanes source
  rw [hfinished, List.map_nil, List.append_nil] at hlane
  rw [hfinished', List.map_nil, List.append_nil] at hlane'
  rw [hlane, hlane']

end Projection

end Projector
