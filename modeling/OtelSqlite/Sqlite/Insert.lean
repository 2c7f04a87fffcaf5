import OtelSqlite.Sqlite.Identity
import OtelSqlite.Storage.Session

/-!
# Inserting a batch

The rows an insert pass writes. Which statements of a pass SQLite accepts is decided by
the `Attempt` of `OtelSqlite.Storage.Persist`; here the rows it inserted are put into the
tables, in one transaction. `RowIds` is the choice of ids: any choice that is free.
-/

namespace OtelSqlite.Sqlite

open OtelSqlite.Lib OtelSqlite.Model OtelSqlite.Core

/-- The id SQLite gives a new event, from the ids in use. -/
structure RowIds where
  next : List Int → Int
  fresh : ∀ ids, next ids ∉ ids

variable (libraries : Libraries) (rowIds : RowIds)

/-- The parameters bound for one record. -/
def eventRow (origin : BatchOrigin) (record : LogRecord) : EventRow where
  resourceId := resourceId libraries origin
  timestampNs := record.timeUnixNano.toInt
  observedTimestampNs := record.observedTimeUnixNano.toInt
  severityNumber := record.severityNumber.toNat
  severityText := nonEmpty record.severityText
  traceId := if record.hasTrace then some record.traceId.toList else none
  spanId := if record.hasSpan then some record.spanId.toList else none
  body := record.bodyJson.or (nonEmpty record.body)
  eventName := nonEmpty record.eventName
  flags := record.flags
  droppedAttributesCount := record.droppedAttributesCount
  scopeName := nonEmpty record.scope.name
  scopeVersion := nonEmpty record.scope.version
  scopeAttributesJson := record.scope.attributesJson
  scopeSchemaUrl := nonEmpty record.scope.schemaUrl
  attributesJson := writeAttributesJson libraries.formats record.attributes

def insertRecord (origin : BatchOrigin) (db : Database) (record : LogRecord) : Option Database :=
  db.insertEvent (rowIds.next db.logEvent.keys) ⟨eventRow libraries origin record, origin⟩

/-- The rows of a pass, in order, behind the row of their resource. -/
def writeRows (origin : BatchOrigin) (now : String) (db : Database) (records : List LogRecord) :
    Option Database :=
  records.foldlM (insertRecord libraries rowIds origin) (resolveResource libraries db origin now)

/-- One insert transaction. A pass that fails, or a constraint it violates, rolls back. -/
def insertTransaction (attempt : Storage.Attempt LogRecord)
    (batch : LogWriteBatch BatchOrigin LogRecord) (tolerant : Bool) (now : String)
    (db : Database) : Database :=
  match Storage.transaction attempt batch tolerant with
  | .error _ => db
  | .ok pass => (writeRows libraries rowIds batch.origin now db pass.inserted).getD db

/-- The statements of an insert on the tables. A statement that SQLite accepted violates no
constraint, so the row is there (`Consistent.insertRecord`). -/
def insertStatements (now : String) : Storage.Statements Database BatchOrigin LogRecord where
  upsertResource db origin := resolveResource libraries db origin now
  insertEvent db origin record := (insertRecord libraries rowIds origin db record).getD db

/-- Rows that can be written one by one are what the statements put. -/
theorem put_of_writeRows {libraries : Libraries} {rowIds : RowIds} {origin : BatchOrigin}
    {now : String} {db db' : Database} {records : List LogRecord}
    (h : writeRows libraries rowIds origin now db records = some db') :
    (insertStatements libraries rowIds now).put origin db records = db' := by
  have hrows : ∀ {db : Database}, records.foldlM (insertRecord libraries rowIds origin) db = some db' →
      records.foldl (fun db record =>
        (insertStatements libraries rowIds now).insertEvent db origin record) db = db' := by
    clear h
    induction records with
    | nil => exact fun h => Option.some.inj h
    | cons record records ih =>
      intro db h
      rw [List.foldlM_cons] at h
      obtain ⟨db₁, hfirst, hrest⟩ := Option.bind_eq_some_iff.mp h
      rw [List.foldl_cons, ← ih hrest]
      show List.foldl _ ((insertRecord libraries rowIds origin db record).getD db) records = _
      rw [hfirst, Option.getD_some]
  exact hrows h

end OtelSqlite.Sqlite
