import ExchangeServer.Foundation.Executions
import ExchangeServer.Foundation.Machine
import ExchangeServer.Projector.Processor

/-!
# The projector's tasks

One task for each partition of a topic. It loads the offset that is stored for
its partition, fetches records from there on and works them off one after the
other. When the context of an order is missing it drops the rest of the batch
and fetches again from the same record; any other error ends the projector with
all its tasks.

The tasks take their steps in any order, a step being one statement or the end
of a transaction, and the projector may stop between any two steps and be
started again. A statement sees what is committed and the writes of its own
transaction. That statements wait for the locks of others is left out, which
only allows more schedules. The numbers of a sequence are given at once and not
taken back.
-/

namespace Projector

open Protocol Relational Transactional Program

/-! ## Logs -/

/-- A record of a partition. -/
structure LogRecord where
  offset : ℤ
  payload : Payload

/-- A topic and a partition of it. -/
abbrev Source := String × ℤ

/-- The content of the partitions. -/
structure PartitionLogs where
  records : Source → List LogRecord
  sorted : ∀ source,
    (records source).Pairwise fun first second => first.offset < second.offset

/-- The record is before an offset; before no offset when the partition is read
from its earliest record on. -/
def LogRecord.isBefore (nextOffset : Option ℤ) (record : LogRecord) : Bool :=
  match nextOffset with
  | none => false
  | some nextOffset => record.offset < nextOffset

def fetchRecords (logs : PartitionLogs) (source : Source) (nextOffset : Option ℤ) :
    List LogRecord :=
  (logs.records source).dropWhile (LogRecord.isBefore nextOffset)

/-- What `process_payload` does with a record, as transactions one after the
other: an engine event is kept in the log before it is projected. -/
def LogRecord.transactions (source : Source) (record : LogRecord) : List Transaction :=
  match record.payload with
  | .engineEvent event =>
    [.saveLog event source.1 source.2 (record.offset + 1),
      .process (.engineEvent event) source.1 source.2 (record.offset + 1)]
  | payload => [.process payload source.1 source.2 (record.offset + 1)]

/-! ## Tasks -/

/-- Where `run_source_partition` is. -/
inductive TaskState
  | loading
  | fetching (nextOffset : Option ℤ)
  | batch (nextOffset : Option ℤ) (records : List LogRecord)
  /-- Within a record, before the next of its transactions. -/
  | between (nextOffset : Option ℤ) (record : LogRecord) (records : List LogRecord)
    (todo : List Transaction)
  /-- Within a transaction, with its open writes. -/
  | working (nextOffset : Option ℤ) (record : LogRecord) (records : List LogRecord)
    (t : Transaction) (todo : List Transaction) (cont : Tx Unit) (writes : List Write)

/-- `nextval`, which is no part of the transaction that calls it. -/
def Write.isDraw : Write → Bool
  | drawPositionId => true
  | _ => false

/-- The writes that are part of the transaction. -/
def transactional (writes : List Write) : List Write := writes.filter fun w => !w.isDraw

/-- A transaction that has committed, with its writes. -/
structure Commit where
  transaction : Transaction
  writes : List Write

/-- The committed data, the tasks while the projector runs, and all commits so far. -/
structure ProjectorSystem where
  committed : ProjectorDb
  tasks : Option (Source → TaskState)
  log : List Commit

namespace ProjectorSystem

/-- A projector that has not been started yet. -/
def initial (d : ProjectorDb) : ProjectorSystem where
  committed := d
  tasks := none
  log := []

def setTask (σ : ProjectorSystem) (tasks : Source → TaskState) (source : Source)
    (state : TaskState) : ProjectorSystem :=
  { σ with tasks := some (Function.update tasks source state) }

/-- An error of a record: the task waits for the context, or the projector ends. -/
def fail (σ : ProjectorSystem) (tasks : Source → TaskState) (source : Source)
    (nextOffset : Option ℤ) (e : ProjectorRepositoryError) : ProjectorSystem :=
  if e.isMissingOrderContext then σ.setTask tasks source (.fetching nextOffset)
  else { σ with tasks := none }

/-- The numbers that a statement has drawn are given to nobody else. -/
def draw (σ : ProjectorSystem) (added : List Write) : ProjectorSystem :=
  { σ with committed := view (added.filter Write.isDraw) σ.committed }

/-- One step within a transaction. -/
def work (σ : ProjectorSystem) (tasks : Source → TaskState) (source : Source)
    (nextOffset : Option ℤ) (record : LogRecord) (records : List LogRecord) (t : Transaction)
    (todo : List Transaction) (writes : List Write) : Tx Unit → ProjectorSystem
  | .ret (.ok ()) => σ.setTask tasks source (.between nextOffset record records todo)
  | .ret (.error e) => σ.fail tasks source nextOffset e
  | .stmt statement next =>
    match Store.exec statement (view writes σ.committed) with
    | .error e => σ.fail tasks source nextOffset e
    | .ok (answer, added) =>
      (σ.draw added).setTask tasks source
        (.working nextOffset record records t todo (next answer) (writes ++ transactional added))
  | .commit next =>
    { committed := view writes σ.committed
      tasks := some
        (Function.update tasks source (.working nextOffset record records t todo next []))
      log := σ.log ++ [⟨t, writes⟩] }
  | .rollback next =>
    σ.setTask tasks source (.working nextOffset record records t todo next [])

/-- The next step of a task that is not about to fetch. -/
def advance (σ : ProjectorSystem) (tasks : Source → TaskState) (source : Source) :
    TaskState → Option ProjectorSystem
  | .loading =>
    some (σ.setTask tasks source (.fetching (σ.committed.nextOffset source.1 source.2)))
  | .fetching _ => none
  | .batch nextOffset [] => some (σ.setTask tasks source (.fetching nextOffset))
  | .batch nextOffset (record :: records) =>
    some (σ.setTask tasks source
      (.between nextOffset record records (record.transactions source)))
  | .between _ record records [] =>
    some (σ.setTask tasks source (.batch (some (record.offset + 1)) records))
  | .between nextOffset record records (t :: todo) =>
    some (σ.setTask tasks source
      (.working nextOffset record records t todo t.program []))
  | .working nextOffset record records t todo cont writes =>
    some (σ.work tasks source nextOffset record records t todo writes cont)

end ProjectorSystem

/-- What may happen next. A fetch may bring any number of records. -/
inductive Action
  | start
  | crash
  | fetch (source : Source) (count : ℕ)
  | advance (source : Source)

def step (logs : PartitionLogs) (σ : ProjectorSystem) : Action → Option ProjectorSystem
  | .start =>
    match σ.tasks with
    | none => some { σ with tasks := some fun _ => .loading }
    | some _ => none
  | .crash => some { σ with tasks := none }
  | .fetch source count =>
    match σ.tasks with
    | none => none
    | some tasks =>
      match tasks source with
      | .fetching nextOffset =>
        some (σ.setTask tasks source
          (.batch nextOffset ((fetchRecords logs source nextOffset).take count)))
      | _ => none
  | .advance source =>
    match σ.tasks with
    | none => none
    | some tasks => σ.advance tasks source (tasks source)

end Projector
