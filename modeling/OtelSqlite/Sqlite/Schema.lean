import OtelSqlite.Lib.Table
import OtelSqlite.Model.Log

/-!
# The log tables, their triggers and their foreign key

The schema the migrations leave: `log_resource`, `log_event` with a cascading foreign key
to it, and the search index `logs_fts` that the triggers `logs_fts_ai` and `logs_fts_ad`
keep. A statement below includes what its triggers and cascades do. A stored event
remembers the origin of the batch that inserted it; no statement reads that field.
-/

namespace OtelSqlite.Sqlite

open OtelSqlite.Lib OtelSqlite.Model

/-- The columns of `log_resource` that an insert gives. -/
structure ResourceColumns where
  serviceName : String
  hostName : Option String
  schemaUrl : Option String
  attributesJson : String
  deriving DecidableEq, Repr

structure ResourceRow where
  columns : ResourceColumns
  createdAt : String
  deriving DecidableEq, Repr

structure EventRow where
  resourceId : String
  timestampNs : Int
  observedTimestampNs : Int
  severityNumber : Nat
  severityText : Option String
  traceId : Option Bytes
  spanId : Option Bytes
  body : Option String
  eventName : Option String
  flags : UInt32
  droppedAttributesCount : UInt32
  scopeName : Option String
  scopeVersion : Option String
  scopeAttributesJson : String
  scopeSchemaUrl : Option String
  attributesJson : String
  deriving DecidableEq, Repr

structure Event where
  row : EventRow
  origin : BatchOrigin

/-- A row of `logs_fts`. -/
structure IndexRow where
  body : String
  serviceName : String
  hostName : String
  severityText : String
  eventName : String
  scopeName : String
  deriving DecidableEq, Repr

structure Database where
  logResource : Table String ResourceRow
  logEvent : Table Int Event
  logsFts : Table Int IndexRow

namespace Database

/-- A freshly migrated database. -/
def migrated : Database := ⟨.empty, .empty, .empty⟩

/-- The `COALESCE`d columns of the insert trigger and of the rebuild. -/
def indexRow (event : EventRow) (resource : ResourceColumns) : IndexRow where
  body := event.body.getD ""
  serviceName := resource.serviceName
  hostName := resource.hostName.getD ""
  severityText := event.severityText.getD ""
  eventName := event.eventName.getD ""
  scopeName := event.scopeName.getD ""

/-- The index row of an event: its own text and that of its resource, if it has one. -/
def indexed (db : Database) (event : Event) : Option IndexRow :=
  (db.logResource.find? event.row.resourceId).map fun resource =>
    indexRow event.row resource.columns

section Statements

variable (db : Database)

/-- `INSERT INTO log_resource … ON CONFLICT (id) DO NOTHING`. -/
def insertResource (id : String) (row : ResourceRow) : Database :=
  { db with logResource := db.logResource.insertNew id row }

/-- `INSERT INTO log_event` with its trigger. `none` is a violated constraint: the resource
is missing or one of the two ids is taken. -/
def insertEvent (id : Int) (event : Event) : Option Database :=
  match db.indexed event with
  | none => none
  | some row =>
    if id ∈ db.logEvent.keys ∨ id ∈ db.logsFts.keys then none
    else some { db with
      logEvent := db.logEvent.insertNew id event
      logsFts := db.logsFts.insertNew id row }

/-- Whether `p` selects the event with this id. -/
def selects (p : Int → Event → Bool) (id : Int) : Bool :=
  match db.logEvent.find? id with
  | some event => p id event
  | none => false

/-- `DELETE FROM log_event` with its trigger. -/
def deleteEvents (p : Int → Event → Bool) : Database :=
  { db with
    logEvent := db.logEvent.filter fun id event => !p id event
    logsFts := db.logsFts.filter fun id _ => !db.selects p id }

/-- `DELETE FROM log_resource`, cascading to the events of the deleted rows. -/
def deleteResources (p : String → Bool) : Database :=
  { db.deleteEvents fun _ event =>
      p event.row.resourceId && decide (event.row.resourceId ∈ db.logResource.keys) with
    logResource := db.logResource.filter fun id _ => !p id }

/-- Whether an event refers to the resource. -/
def referenced (id : String) : Bool :=
  db.logEvent.rows.any fun row => decide (row.2.row.resourceId = id)

/-- `collect_orphan_dimensions`. -/
def collectOrphanDimensions : Database := db.deleteResources fun id => !db.referenced id

/-- The statements of `rebuild_fts`: the index as the view `logs` gives it. -/
def rebuildFts : Database :=
  { db with logsFts := db.logEvent.filterMap fun _ event => db.indexed event }

end Statements

section Lookup

variable {db db' : Database} {id id' : Int} {event event' : Event} {p : Int → Event → Bool}

theorem insertEvent_eq_some_iff : db.insertEvent id event = some db' ↔
    ∃ row, db.indexed event = some row ∧ id ∉ db.logEvent.keys ∧ id ∉ db.logsFts.keys ∧
      db' = { db with
        logEvent := db.logEvent.insertNew id event
        logsFts := db.logsFts.insertNew id row } := by
  unfold insertEvent
  split
  · next h => simp [h]
  · next row h =>
    split
    · next hid =>
      refine iff_of_false (by simp) ?_
      rintro ⟨-, -, hevent, hfts, -⟩
      exact hid.elim hevent hfts
    · next hid =>
      rw [not_or] at hid
      simp only [Option.some.injEq, h, exists_eq_left']
      exact ⟨fun h => ⟨hid.1, hid.2, h.symm⟩, fun h => h.2.2.symm⟩

theorem find?_deleteEvents :
    (db.deleteEvents p).logEvent.find? id = some event ↔
      db.logEvent.find? id = some event ∧ p id event = false := by
  rw [deleteEvents, Table.find?_filter_eq_some_iff, Bool.not_eq_true']

theorem find?_logsFts_deleteEvents {row : IndexRow} :
    (db.deleteEvents p).logsFts.find? id = some row ↔
      db.logsFts.find? id = some row ∧ db.selects p id = false := by
  rw [deleteEvents, Table.find?_filter_eq_some_iff, Bool.not_eq_true']

theorem referenced_of_find? (h : db.logEvent.find? id = some event) :
    db.referenced event.row.resourceId = true := by
  rw [referenced, List.any_eq_true]
  exact ⟨(id, event), Table.find?_eq_some_iff.mp h, by simp⟩

end Lookup

end Database

end OtelSqlite.Sqlite
