import ExchangeServer.Timeseries.Locks

/-!
# The consumers of the timeseries service

One task for each partition of the topic of engine events. It loads the offset
that is stored for its partition and goes through the records from there on. A
record with a trade is recorded with its candles and the next offset in one
transaction; of any other record only the next offset is stored.

The content of the partitions is fixed; a task may stop anywhere, and be started
again any number of times.
-/

namespace Timeseries

open Protocol Relational Transactional Program

/-- A record; it has no event when it has no value or one that does not decode. -/
structure LogRecord where
  offset : ℤ
  event : Option EngineEvent

/-- The content of a topic. -/
structure TopicLog where
  topic : String
  records : ℤ → List LogRecord
  sorted : ∀ partition, (records partition).Pairwise fun first second => first.offset < second.offset

/-! ## Transactions of a session -/

namespace Session

/-- A transaction over statements that lock. -/
abbrev Tx (α : Type) := Program Statement TimeseriesRepositoryError α

def loadQueueOffset (topic : String) (partition : ℤ) : Tx (Option ℤ) :=
  perform (.loadQueueOffset topic partition)

def saveQueueOffsetInTx (topic : String) (partition nextOffset : ℤ) : Tx Unit :=
  perform (.saveQueueOffset topic partition nextOffset)

def saveQueueOffset (topic : String) (partition nextOffset : ℤ) : Tx Unit := do
  saveQueueOffsetInTx topic partition nextOffset
  commitTx

def upsertCandleInTx (candle : CandleDraft) : Tx Unit := perform (.upsertCandle candle)

def upsertCandlesInTx : List CandleDraft → Tx Unit
  | [] => return ()
  | candle :: candles => do
    upsertCandleInTx candle
    upsertCandlesInTx candles

def recordTrade (topic : String) (partition offset nextOffset : ℤ) (trade : TradeExecuted)
    (candles : List CandleDraft) : Tx Bool := do
  let inserted ← perform (.insertTrade topic partition offset trade)
  (if inserted then upsertCandlesInTx candles else return () : Tx Unit)
  saveQueueOffsetInTx topic partition nextOffset
  commitTx
  return inserted

def processEngineEvent (event : EngineEvent) (topic : String) (partition offset nextOffset : ℤ) :
    Tx Unit :=
  match event with
  | .tradeExecuted trade => do
    let _ ← recordTrade topic partition offset nextOffset trade (candleDraftsFromTrade trade)
    return ()
  | _ => saveQueueOffset topic partition nextOffset

def processRecord (topic : String) (partition : ℤ) (record : LogRecord) : Tx Unit :=
  match record.event with
  | none => saveQueueOffset topic partition (record.offset + 1)
  | some event => processEngineEvent event topic partition record.offset (record.offset + 1)

def processRecords (topic : String) (partition : ℤ) : List LogRecord → Tx Unit
  | [] => return ()
  | record :: records => do
    processRecord topic partition record
    processRecords topic partition records

/-- The records from an offset on, or all of them. -/
def fetchRecords (self : TopicLog) (partition : ℤ) : Option ℤ → List LogRecord
  | none => self.records partition
  | some nextOffset => (self.records partition).dropWhile fun record => record.offset < nextOffset

/-- The task of a partition. -/
def runEngineEventPartition (self : TopicLog) (partition : ℤ) : Tx Unit := do
  let nextOffset ← loadQueueOffset self.topic partition
  processRecords self.topic partition (fetchRecords self partition nextOffset)

end Session

/-! ## A session alone -/

/-- The program with its statements as functions of the database. -/
def toTx {α : Type} : Session.Tx α → Tx α
  | .ret result => .ret result
  | .stmt s next => .stmt s.toStmt fun b => toTx (next b)
  | .commit next => .commit (toTx next)
  | .rollback next => .rollback (toTx next)

theorem toTx_bind {α β : Type} (p : Session.Tx α) (f : α → Session.Tx β) :
    toTx (p >>= f) = toTx p >>= fun a => toTx (f a) := by
  change toTx (p.bind f) = (toTx p).bind fun a => toTx (f a)
  induction p with
  | ret result => cases result <;> rfl
  | stmt s next ih => exact congrArg (Program.stmt s.toStmt) (funext ih)
  | commit next ih => exact congrArg Program.commit ih
  | rollback next ih => exact congrArg Program.rollback ih

/-- A transaction of a session that runs alone. -/
theorem eval_toTx {α : Type} (p : Session.Tx α) (d : TimeseriesDb) : (toTx p).eval d = p.eval d := by
  induction p generalizing d with
  | ret result => cases result <;> rfl
  | stmt s next ih =>
    have hexec : Store.exec (S := Stmt) s.toStmt d = s.toStmt d := rfl
    have hexec' : Store.exec s d = s.toStmt d := rfl
    rw [toTx, eval, eval, hexec, hexec']
    cases hs : s.toStmt d with
    | error e => rfl
    | ok r => exact (ih r.1 _).trans (congrArg _ (Statement.sessionView_eq_view (b := r.1) hs).symm)
  | commit next ih => exact ih d
  | rollback next ih => exact ih d

theorem toTx_upsertCandlesInTx (candles : List CandleDraft) :
    toTx (Session.upsertCandlesInTx candles) = upsertCandlesInTx candles := by
  induction candles with
  | nil => rfl
  | cons candle candles ih =>
    rw [Session.upsertCandlesInTx, toTx_bind, ih]
    rfl

theorem toTx_recordTrade (topic : String) (partition offset nextOffset : ℤ) (trade : TradeExecuted)
    (candles : List CandleDraft) :
    toTx (Session.recordTrade topic partition offset nextOffset trade candles) =
      recordTrade topic partition offset nextOffset trade candles := by
  rw [Session.recordTrade, recordTrade, toTx_bind]
  refine congrArg (execute (insertTrade topic partition offset trade) >>= ·) (funext fun inserted => ?_)
  rw [toTx_bind]
  cases inserted with
  | false => rfl
  | true =>
    rw [if_pos rfl, if_pos rfl, toTx_upsertCandlesInTx]
    rfl

/-- A session runs the transactions of the service. -/
theorem toTx_processEngineEvent (event : EngineEvent) (topic : String)
    (partition offset nextOffset : ℤ) :
    toTx (Session.processEngineEvent event topic partition offset nextOffset) =
      processEngineEvent event topic partition offset nextOffset := by
  cases event with
  | tradeExecuted trade =>
    rw [Session.processEngineEvent, toTx_bind, toTx_recordTrade]
    rfl
  | _ => rfl

end Timeseries
