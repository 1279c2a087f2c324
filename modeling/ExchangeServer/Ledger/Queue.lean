import ExchangeServer.Ledger.Repository

/-!
# The ledger's consumers

One task for each partition of `wallet.events`. It loads the offset that is
stored for its partition and goes through the records from there on: it stores
the event of a record with its entries and the next offset in one transaction,
and only the next offset when there is no event in the record or the event is
stored already.

The content of the partitions is fixed; a task may stop anywhere, and be started
again any number of times.
-/

namespace Ledger

open Protocol Transactional Program

/-- A record; it has no event when it has no value or one that does not decode. -/
structure LogRecord where
  offset : ℤ
  event : Option WalletEvent
  deriving DecidableEq

/-- The content of a topic. -/
structure TopicLog where
  topic : String
  records : ℤ → List LogRecord
  sorted : ∀ partition, (records partition).Pairwise fun first second => first.offset < second.offset

/-- A transaction of the ledger. -/
abbrev Tx (α : Type) := Program Stmt LedgerRepositoryError α

def loadQueueOffset (topic : String) (partition : ℤ) : Tx (Option ℤ) :=
  perform (.loadQueueOffset topic partition)

def saveQueueOffsetInTx (topic : String) (partition nextOffset : ℤ) : Tx Unit :=
  perform (.saveQueueOffset { topic, partition, nextOffset })

def saveQueueOffset (topic : String) (partition nextOffset : ℤ) : Tx Unit := do
  saveQueueOffsetInTx topic partition nextOffset
  commitTx

/-- The row for an event at a position. -/
def eventRow (topic : String) (partition offset : ℤ) (record : LedgerRecord) : LedgerEventRow where
  topic := topic
  partition := partition
  offsetValue := offset
  logicalEventId := record.logicalEventId
  eventType := record.eventType
  userId := record.userId
  payload := record.payload

/-- One row for each entry of a record. -/
def insertEntries (event : Position) : List LedgerEntryDraft → Tx Unit
  | [] => return ()
  | draft :: drafts => do
    perform (.insertLedgerEntry { event, draft })
    insertEntries event drafts

/-- The answer says whether the event is new. -/
def recordWalletEvent (topic : String) (partition offset nextOffset : ℤ) (record : LedgerRecord) :
    Tx Bool := do
  match ← perform (.insertLedgerEvent (eventRow topic partition offset record)) with
  | some event =>
    insertEntries event record.entries
    saveQueueOffsetInTx topic partition nextOffset
    commitTx
    return true
  | none =>
    saveQueueOffsetInTx topic partition nextOffset
    commitTx
    return false

def processRecord (topic : String) (partition : ℤ) (record : LogRecord) : Tx Unit :=
  match record.event with
  | none => saveQueueOffset topic partition (record.offset + 1)
  | some event => do
    let _ ← recordWalletEvent topic partition record.offset (record.offset + 1)
      (ledgerRecordFromWalletEvent event)
    return ()

def processRecords (topic : String) (partition : ℤ) : List LogRecord → Tx Unit
  | [] => return ()
  | record :: records => do
    processRecord topic partition record
    processRecords topic partition records

/-- The records from an offset on, or all of them. -/
def fetchRecords (self : TopicLog) (partition : ℤ) : Option ℤ → List LogRecord
  | none => self.records partition
  | some nextOffset => (self.records partition).dropWhile fun record => record.offset < nextOffset

/-- The task of a partition. -/
def runWalletEventPartition (self : TopicLog) (partition : ℤ) : Tx Unit := do
  let nextOffset ← loadQueueOffset self.topic partition
  processRecords self.topic partition (fetchRecords self partition nextOffset)

end Ledger
