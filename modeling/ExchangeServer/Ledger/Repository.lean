import ExchangeServer.Foundation.ReadCommitted
import ExchangeServer.Foundation.Table
import ExchangeServer.Ledger.Processor

/-!
# The ledger's database

The tables `ledger_events`, `ledger_entries` and `ledger_offsets`, the statements
of the ledger's transactions, and the locks they take. The surrogate key
`event_id` comes from a sequence, so rows have distinct ones; it is represented
by the position of the record, which the table keeps unique as well.

A row of `ledger_events` is inserted unless its position or its logical id is
taken. A transaction that meets an uncommitted row of another one under either
waits for it.
-/

namespace Ledger

open Protocol Relational Transactional

/-! ## Tables -/

/-- Topic, partition and offset of a record. -/
abbrev Position := String × ℤ × ℤ

structure LedgerEventRow where
  topic : String
  partition : ℤ
  offsetValue : ℤ
  logicalEventId : Option String
  eventType : String
  userId : ℤ
  payload : WalletEvent
  deriving DecidableEq

def LedgerEventRow.position (row : LedgerEventRow) : Position :=
  (row.topic, row.partition, row.offsetValue)

structure LedgerEntryRow where
  event : Position
  draft : LedgerEntryDraft
  deriving DecidableEq

structure LedgerOffsetRow where
  topic : String
  partition : ℤ
  nextOffset : ℤ
  deriving DecidableEq

def LedgerOffsetRow.key (row : LedgerOffsetRow) : String × ℤ := (row.topic, row.partition)

/-- The content of the database. -/
structure LedgerDb where
  users : List ℤ
  ledgerEvents : Table LedgerEventRow.position
  ledgerEntries : List LedgerEntryRow
  ledgerOffsets : Table LedgerOffsetRow.key
  uniqueLogical : (ledgerEvents.rows.filterMap LedgerEventRow.logicalEventId).Nodup

namespace LedgerDb

def empty (users : List ℤ) : LedgerDb where
  users := users
  ledgerEvents := .empty
  ledgerEntries := []
  ledgerOffsets := .empty
  uniqueLogical := List.nodup_nil

/-- A row with this logical id is stored. -/
def logicalTaken (d : LedgerDb) (id : String) : Bool :=
  d.ledgerEvents.rows.any fun row => row.logicalEventId = some id

theorem logicalTaken_iff {d : LedgerDb} {id : String} :
    d.logicalTaken id ↔ ∃ row ∈ d.ledgerEvents.rows, row.logicalEventId = some id := by
  simp [logicalTaken]

/-- Neither the position nor the logical id of a row is taken. -/
def Admits (d : LedgerDb) (row : LedgerEventRow) : Prop :=
  d.ledgerEvents.find? row.position = none ∧
    ∀ id ∈ row.logicalEventId, d.logicalTaken id = false

instance (d : LedgerDb) (row : LedgerEventRow) : Decidable (d.Admits row) :=
  inferInstanceAs (Decidable (_ ∧ _))

/-- Store an event that the table admits. -/
def addEvent (d : LedgerDb) (row : LedgerEventRow) : LedgerDb :=
  if h : d.Admits row then
    { d with
      ledgerEvents := d.ledgerEvents.insert row
      uniqueLogical := by
        rw [Table.rows_insert h.1, List.filterMap_append, List.nodup_append]
        refine ⟨d.uniqueLogical, ?_, ?_⟩
        · cases hid : row.logicalEventId <;> simp [hid]
        · intro id hid id' hid' heq
          obtain ⟨stored, hstored, hlogical⟩ := List.mem_filterMap.1 hid
          obtain ⟨row', hrow', hlogical'⟩ := List.mem_filterMap.1 hid'
          rw [List.mem_singleton.1 hrow', ← heq] at hlogical'
          have htaken := logicalTaken_iff.2 ⟨stored, hstored, hlogical⟩
          rw [h.2 id hlogical'] at htaken
          cases htaken }
  else d

/-- The offset that a partition is read from. -/
def nextOffset (d : LedgerDb) (key : String × ℤ) : Option ℤ :=
  (d.ledgerOffsets.find? key).map LedgerOffsetRow.nextOffset

end LedgerDb

/-- A write of a transaction. -/
inductive Write
  | insertEvent (row : LedgerEventRow)
  | insertEntry (row : LedgerEntryRow)
  | saveOffset (row : LedgerOffsetRow)
  deriving DecidableEq

/-- `ON CONFLICT DO UPDATE .. WHERE next_offset < EXCLUDED.next_offset`. -/
def LedgerDb.saveOffset (d : LedgerDb) (row : LedgerOffsetRow) : LedgerDb :=
  match d.nextOffset row.key with
  | none => { d with ledgerOffsets := d.ledgerOffsets.upsert row }
  | some stored =>
    if stored < row.nextOffset then { d with ledgerOffsets := d.ledgerOffsets.upsert row } else d

/-- The effect of a write. -/
def LedgerDb.write : Write → LedgerDb → LedgerDb
  | .insertEvent row, d => d.addEvent row
  | .insertEntry row, d => { d with ledgerEntries := d.ledgerEntries ++ [row] }
  | .saveOffset row, d => d.saveOffset row

/-! ## Statements -/

/-- Why the database refuses a statement. -/
inductive StorageError
  | checkViolation | foreignKeyViolation
  deriving DecidableEq

inductive LedgerRepositoryError
  | storage (error : StorageError)
  deriving DecidableEq

/-- A statement, indexed by the type of its answer. -/
inductive Stmt : Type → Type
  | loadQueueOffset (topic : String) (partition : ℤ) : Stmt (Option ℤ)
  | insertLedgerEvent (row : LedgerEventRow) : Stmt (Option Position)
  | insertLedgerEntry (row : LedgerEntryRow) : Stmt Unit
  | saveQueueOffset (row : LedgerOffsetRow) : Stmt Unit

/-- Execute a statement against a view of the database. -/
def Stmt.exec {β : Type} : Stmt β → LedgerDb → Except LedgerRepositoryError (β × List Write)
  | loadQueueOffset topic partition, d => .ok (d.nextOffset (topic, partition), [])
  | insertLedgerEvent row, d =>
    if 0 ≤ row.offsetValue ∧ row.logicalEventId ≠ some "" then
      if d.Admits row then
        if row.userId ∈ d.users then .ok (some row.position, [.insertEvent row])
        else .error (.storage .foreignKeyViolation)
      else .ok (none, [])
    else .error (.storage .checkViolation)
  | insertLedgerEntry row, d =>
    if row.draft.kind ≠ "" then
      if (d.ledgerEvents.find? row.event).isSome ∧ row.draft.userId ∈ d.users then
        .ok ((), [.insertEntry row])
      else .error (.storage .foreignKeyViolation)
    else .error (.storage .checkViolation)
  | saveQueueOffset row, _ =>
    if 0 ≤ row.nextOffset then .ok ((), [.saveOffset row])
    else .error (.storage .checkViolation)

/-! ## Locks -/

/-- What a write locks. -/
inductive Key
  | event (position : Position)
  | logical (id : String)
  | offset (key : String × ℤ)
  deriving DecidableEq

/-- What is stored under a key. -/
inductive Entry
  | event (row : Option LedgerEventRow)
  | logical (taken : Bool)
  | offset (nextOffset : Option ℤ)

def Write.keys : Write → List Key
  | insertEvent row => .event row.position :: (row.logicalEventId.map Key.logical).toList
  | insertEntry _ => []
  | saveOffset row => [.offset row.key]

namespace LedgerDb

def look : Key → LedgerDb → Entry
  | .event position, d => .event (d.ledgerEvents.find? position)
  | .logical id, d => .logical (d.logicalTaken id)
  | .offset key, d => .offset (d.nextOffset key)

section Events

variable {d : LedgerDb} {row : LedgerEventRow}

@[simp] theorem users_addEvent : (d.addEvent row).users = d.users := by
  unfold addEvent
  split <;> rfl

@[simp] theorem ledgerEntries_addEvent : (d.addEvent row).ledgerEntries = d.ledgerEntries := by
  unfold addEvent
  split <;> rfl

@[simp] theorem ledgerOffsets_addEvent : (d.addEvent row).ledgerOffsets = d.ledgerOffsets := by
  unfold addEvent
  split <;> rfl

@[simp] theorem nextOffset_addEvent (key : String × ℤ) :
    (d.addEvent row).nextOffset key = d.nextOffset key := by
  rw [nextOffset, ledgerOffsets_addEvent, nextOffset]

theorem ledgerEvents_addEvent (h : d.Admits row) :
    (d.addEvent row).ledgerEvents = d.ledgerEvents.insert row := by
  rw [addEvent, dif_pos h]

theorem addEvent_of_not_admits (h : ¬d.Admits row) : d.addEvent row = d := by
  rw [addEvent, dif_neg h]

theorem find?_addEvent (position : Position) :
    (d.addEvent row).ledgerEvents.find? position =
      if d.Admits row ∧ position = row.position then some row
      else d.ledgerEvents.find? position := by
  by_cases h : d.Admits row
  · rw [ledgerEvents_addEvent h, Table.find?_insert]
    simp [h, h.1]
  · rw [addEvent_of_not_admits h, if_neg fun hc => h hc.1]

theorem logicalTaken_addEvent (id : String) :
    (d.addEvent row).logicalTaken id =
      (d.logicalTaken id || decide (d.Admits row ∧ row.logicalEventId = some id)) := by
  by_cases h : d.Admits row
  · rw [logicalTaken, ledgerEvents_addEvent h, Table.rows_insert h.1]
    simp [logicalTaken, h]
  · rw [addEvent_of_not_admits h]
    simp [h]

end Events

section Offsets

variable {d : LedgerDb} {row : LedgerOffsetRow}

@[simp] theorem users_saveOffset : (d.saveOffset row).users = d.users := by
  unfold saveOffset
  split
  · rfl
  · split <;> rfl

@[simp] theorem ledgerEvents_saveOffset : (d.saveOffset row).ledgerEvents = d.ledgerEvents := by
  unfold saveOffset
  split
  · rfl
  · split <;> rfl

@[simp] theorem ledgerEntries_saveOffset :
    (d.saveOffset row).ledgerEntries = d.ledgerEntries := by
  unfold saveOffset
  split
  · rfl
  · split <;> rfl

@[simp] theorem logicalTaken_saveOffset (id : String) :
    (d.saveOffset row).logicalTaken id = d.logicalTaken id := by
  rw [logicalTaken, ledgerEvents_saveOffset, logicalTaken]

/-- A stored offset only advances. -/
theorem nextOffset_saveOffset (key : String × ℤ) :
    (d.saveOffset row).nextOffset key =
      if key = row.key then
        match d.nextOffset key with
        | none => some row.nextOffset
        | some stored => some (max stored row.nextOffset)
      else d.nextOffset key := by
  by_cases hkey : key = row.key
  · subst hkey
    rw [if_pos rfl, saveOffset]
    cases hstored : d.nextOffset row.key with
    | none => simp [nextOffset, Table.find?_upsert_self]
    | some stored =>
      by_cases hlt : stored < row.nextOffset
      · simp [hlt, nextOffset, Table.find?_upsert_self, max_eq_right hlt.le]
      · simp [hlt, hstored, max_eq_left (not_lt.1 hlt)]
  · rw [if_neg hkey, saveOffset]
    split
    · simp [nextOffset, hkey]
    · split
      · simp [nextOffset, hkey]
      · rfl

end Offsets

/-! ## Growth -/

/-- Rows stay and offsets advance. -/
structure Grows (d d' : LedgerDb) : Prop where
  users : d'.users = d.users
  event : ∀ position row, d.ledgerEvents.find? position = some row →
    d'.ledgerEvents.find? position = some row
  offset : ∀ key stored, d.nextOffset key = some stored →
    ∃ stored', d'.nextOffset key = some stored' ∧ stored ≤ stored'

theorem Grows.refl (d : LedgerDb) : Grows d d where
  users := rfl
  event _ _ h := h
  offset _ stored h := ⟨stored, h, le_rfl⟩

theorem Grows.trans {a b c : LedgerDb} (h : Grows a b) (h' : Grows b c) : Grows a c where
  users := h'.users.trans h.users
  event position row hrow := h'.event position row (h.event position row hrow)
  offset key stored hstored := by
    obtain ⟨stored', hstored', hle⟩ := h.offset key stored hstored
    obtain ⟨stored'', hstored'', hle'⟩ := h'.offset key stored' hstored'
    exact ⟨stored'', hstored'', hle.trans hle'⟩

theorem grows_write (w : Write) (d : LedgerDb) : Grows d (write w d) := by
  cases w with
  | insertEvent row =>
    refine ⟨users_addEvent, fun position stored hstored => ?_, fun key stored hstored => ?_⟩
    · rw [write, find?_addEvent, if_neg]
      · exact hstored
      · rintro ⟨hadmits, rfl⟩
        rw [hadmits.1] at hstored
        cases hstored
    · exact ⟨stored, (nextOffset_addEvent key).trans hstored, le_rfl⟩
  | insertEntry row => exact ⟨rfl, (Grows.refl d).event, (Grows.refl d).offset⟩
  | saveOffset row =>
    refine ⟨users_saveOffset, fun position stored hstored => ?_, fun key stored hstored => ?_⟩
    · rw [write, ledgerEvents_saveOffset]
      exact hstored
    · rw [write, nextOffset_saveOffset, hstored]
      split
      · exact ⟨_, rfl, le_max_left _ _⟩
      · exact ⟨stored, rfl, le_rfl⟩

theorem look_write_of_not_mem {w : Write} {k : Key} (h : k ∉ w.keys) (d : LedgerDb) :
    look k (write w d) = look k d := by
  cases w with
  | insertEvent row =>
    cases k with
    | event position =>
      have hk : position ≠ row.position := by
        rintro rfl
        exact h (List.mem_cons_self ..)
      simp [look, write, find?_addEvent, hk]
    | logical id =>
      have hk : row.logicalEventId ≠ some id := by
        intro hid
        exact h (List.mem_cons_of_mem _ (by simp [hid]))
      simp [look, write, logicalTaken_addEvent, hk]
    | offset key => simp [look, write]
  | insertEntry row => cases k <;> rfl
  | saveOffset row =>
    cases k with
    | offset key =>
      have hk : key ≠ row.key := by simpa [Write.keys] using h
      simp [look, write, nextOffset_saveOffset, hk]
    | _ => simp [look, write]

theorem admits_congr {row : LedgerEventRow} {d d' : LedgerDb}
    (h : ∀ k ∈ (Write.insertEvent row).keys, look k d = look k d') :
    d.Admits row ↔ d'.Admits row := by
  have hposition : d.ledgerEvents.find? row.position = d'.ledgerEvents.find? row.position :=
    Entry.event.inj (h (.event row.position) (List.mem_cons_self ..))
  have hlogical : ∀ id ∈ row.logicalEventId, d.logicalTaken id = d'.logicalTaken id := by
    intro id hid
    refine Entry.logical.inj (h (.logical id) (List.mem_cons_of_mem _ ?_))
    simp [Option.mem_def.1 hid]
  unfold Admits
  rw [hposition]
  refine and_congr_right fun _ => forall₂_congr fun id hid => ?_
  rw [hlogical id hid]

theorem look_write {w : Write} {d d' : LedgerDb} (h : ∀ k ∈ w.keys, look k d = look k d') :
    ∀ k ∈ w.keys, look k (write w d) = look k (write w d') := by
  intro k hk
  have hsame := h k hk
  cases w with
  | insertEvent row =>
    have hadmits := admits_congr h
    cases k with
    | event position =>
      have hfind := Entry.event.inj hsame
      simp only [look, write, find?_addEvent, hadmits, hfind]
    | logical id =>
      have htaken := Entry.logical.inj hsame
      simp only [look, write, logicalTaken_addEvent, hadmits, htaken]
    | offset key => simpa [look, write] using hsame
  | insertEntry row => cases hk
  | saveOffset row =>
    obtain rfl := List.mem_singleton.1 hk
    have hoffset := Entry.offset.inj hsame
    simp only [look, write, nextOffset_saveOffset, hoffset]

private theorem look_write_cases {w : Write} {d d' : LedgerDb}
    (h : ∀ k ∈ w.keys, look k d = look k d') (k : Key) :
    look k (write w d) = look k (write w d') ∨
      look k (write w d) = look k d ∧ look k (write w d') = look k d' := by
  by_cases hk : k ∈ w.keys
  · exact .inl (look_write h k hk)
  · exact .inr ⟨look_write_of_not_mem hk d, look_write_of_not_mem hk d'⟩

theorem Grows.write {w : Write} {d d' : LedgerDb} (hd : Grows d d')
    (h : ∀ k ∈ w.keys, look k d = look k d') : Grows (write w d) (write w d') where
  users := by rw [(grows_write w d).users, (grows_write w d').users, hd.users]
  event position row hrow := by
    rcases look_write_cases h (.event position) with he | ⟨he, he'⟩
    · exact (Entry.event.inj he).symm.trans hrow
    · exact (Entry.event.inj he').trans
        (hd.event position row ((Entry.event.inj he).symm.trans hrow))
  offset key stored hstored := by
    rcases look_write_cases h (.offset key) with he | ⟨he, he'⟩
    · exact ⟨stored, (Entry.offset.inj he).symm.trans hstored, le_rfl⟩
    · rw [Entry.offset.inj he']
      exact hd.offset key stored ((Entry.offset.inj he).symm.trans hstored)

end LedgerDb

/-! ## Answers -/

theorem execInsertLedgerEvent_ok {row : LedgerEventRow} {d : LedgerDb} {b : Option Position}
    {ws : List Write} (h : (Stmt.insertLedgerEvent row).exec d = .ok (b, ws)) :
    (¬d.Admits row ∧ b = none ∧ ws = []) ∨
      d.Admits row ∧ b = some row.position ∧ ws = [.insertEvent row] := by
  simp only [Stmt.exec] at h
  split at h
  · split at h
    · next hadmits =>
      split at h
      · cases h
        exact .inr ⟨hadmits, rfl, rfl⟩
      · cases h
    · next hadmits =>
      cases h
      exact .inl ⟨hadmits, rfl, rfl⟩
  · cases h

theorem execInsertLedgerEntry_ok {row : LedgerEntryRow} {d : LedgerDb} {b : Unit}
    {ws : List Write} (h : (Stmt.insertLedgerEntry row).exec d = .ok (b, ws)) :
    ws = [.insertEntry row] ∧ row.draft.kind ≠ "" ∧
      (d.ledgerEvents.find? row.event).isSome ∧ row.draft.userId ∈ d.users := by
  simp only [Stmt.exec] at h
  split at h
  · next hkind =>
    split at h
    · next hkeys =>
      cases h
      exact ⟨rfl, hkind, hkeys⟩
    · cases h
  · cases h

theorem execSaveQueueOffset_ok {row : LedgerOffsetRow} {d : LedgerDb} {b : Unit}
    {ws : List Write} (h : (Stmt.saveQueueOffset row).exec d = .ok (b, ws)) :
    ws = [.saveOffset row] := by
  simp only [Stmt.exec] at h
  split at h
  · cases h
    rfl
  · cases h

/-- A statement that writes depends only on the keys it locks and on rows that stay. -/
theorem Stmt.exec_congr {β : Type} {s : Stmt β} {v v' : LedgerDb} {b : β} {ws : List Write}
    (h : s.exec v = .ok (b, ws)) (hws : ws ≠ []) (hle : LedgerDb.Grows v v')
    (hk : ∀ w ∈ ws, ∀ k ∈ w.keys, LedgerDb.look k v = LedgerDb.look k v') :
    s.exec v' = .ok (b, ws) := by
  cases s with
  | loadQueueOffset topic partition =>
    cases h
    exact absurd rfl hws
  | insertLedgerEvent row =>
    rcases execInsertLedgerEvent_ok h with ⟨-, -, hnil⟩ | ⟨hadmits, rfl, rfl⟩
    · exact absurd hnil hws
    · have hadmits' := (LedgerDb.admits_congr (hk _ (List.mem_cons_self ..))).1 hadmits
      simp only [exec, if_pos hadmits] at h
      simp only [exec, if_pos hadmits', hle.users]
      exact h
  | insertLedgerEntry row =>
    obtain ⟨rfl, hkind, hevent, huser⟩ := execInsertLedgerEntry_ok h
    obtain ⟨stored, hstored⟩ := Option.isSome_iff_exists.1 hevent
    have hevent' := hle.event _ _ hstored
    simp [exec, hkind, hevent', hle.users, huser]
  | saveQueueOffset row => exact h

instance : Locking Stmt LedgerDb Write LedgerRepositoryError Key Entry where
  write := LedgerDb.write
  exec := Stmt.exec
  keys := Write.keys
  look := LedgerDb.look
  le := LedgerDb.Grows
  le_refl := LedgerDb.Grows.refl
  le_trans := LedgerDb.Grows.trans
  le_write := LedgerDb.grows_write
  write_mono := LedgerDb.Grows.write
  look_write_of_not_mem := LedgerDb.look_write_of_not_mem
  look_write := LedgerDb.look_write
  exec_congr := Stmt.exec_congr

/-- What a transaction with these writes sees of the database. -/
abbrev view (ws : List Write) (d : LedgerDb) : LedgerDb := Store.applyAll Stmt ws d

theorem view_cons (w : Write) (ws : List Write) (d : LedgerDb) :
    view (w :: ws) d = view ws (LedgerDb.write w d) := rfl

theorem view_append (ws ws' : List Write) (d : LedgerDb) :
    view (ws ++ ws') d = view ws' (view ws d) := Store.applyAll_append ws ws' d

theorem grows_view (ws : List Write) (d : LedgerDb) : LedgerDb.Grows d (view ws d) :=
  (Locking.le_applyAll ws d : Locking.le Stmt d (view ws d))

end Ledger
