import Mathlib.Data.List.Sort
import OtelSqlite.Lib.Fallible
import OtelSqlite.Lib.Table
import OtelSqlite.Model.Attribute

/-!
# Schema versions: inspection and migration

`inspect_schema` and `migrate_inner` over the stamps in `schema_migrations`. What the script
of a migration makes of the rest of the database, and whether it runs at all, is a parameter
(`Scripts`); it may depend on whether foreign keys are enforced. Every call to SQLite may
fail (`faults`), and a transaction that fails leaves the database as it was. A connection
logs the versions it has applied. Stamps come back in any order (`scan`); the time of a
stamp is left out.
-/

namespace OtelSqlite.Sqlite

open OtelSqlite.Lib OtelSqlite.Lib.Fallible OtelSqlite.Model

structure Migration where
  version : String
  description : String
  disableForeignKeys : Bool
  deriving DecidableEq, Repr

def migrations : List Migration := [
  { version := "000"
    description := "Canonical OTLP SQLite schema: logs, resources, contentless FTS5, metrics " ++
      "and read-side views"
    disableForeignKeys := false },
  { version := "001"
    description := "Incrementally maintained log search index: triggers keep FTS5 consistent " ++
      "with inserts and retention prunes"
    disableForeignKeys := false },
  { version := "002"
    description := "Metric retention access path: timestamp index for age-based data-point prunes"
    disableForeignKeys := false },
  { version := "003"
    description := "Mapping fidelity: scope attributes/schema URL on log events and scopes, " ++
      "metric metadata, exemplar persistence columns exposed on the read-side views"
    disableForeignKeys := false },
  { version := "004"
    description := "Metric identity includes is_monotonic and aggregation_temporality in the " ++
      "dimension UNIQUE constraint (table rebuild)"
    disableForeignKeys := true },
  { version := "005"
    description := "Logs-only sink: drop metric tables, views and indexes"
    disableForeignKeys := false }]

def latestSchemaVersion : String := (migrations.getLast?.map Migration.version).getD ""

/-- What SQLite makes of the scripts; `none` is an error of one of its statements. -/
structure Scripts (σ : Type) where
  execute : Migration → Bool → σ → Option σ
  hasTable : σ → String → Bool

/-- A database: the stamps, if their table exists, with their descriptions, and the rest. -/
structure StampedDb (σ : Type) where
  stamps : Option (Table String (Option String))
  content : σ

inductive StartupError where
  | sqlite
  | startupFailed (message : String)
  deriving DecidableEq, Repr

structure StartupConn (σ : Type) where
  db : StampedDb σ
  foreignKeys : Bool
  faults : Nat → Bool
  scan : Scan String
  applied : List String

abbrev Startup (σ : Type) := Fallible (StartupConn σ) StartupError

variable {σ : Type} (scripts : Scripts σ)

namespace StampedDb

def versions (db : StampedDb σ) : List String := (db.stamps.map Table.keys).getD []

/-- The migrations that are not stamped. -/
def pending (db : StampedDb σ) : List Migration :=
  migrations.filter fun migration => decide (migration.version ∉ db.versions)

/-- A stamp that this binary does not know yet. -/
def Newer (db : StampedDb σ) : Prop :=
  ∃ version ∈ db.versions, utf8 latestSchemaVersion < utf8 version

/-- `CREATE TABLE IF NOT EXISTS schema_migrations`. -/
def withStamps (db : StampedDb σ) : StampedDb σ :=
  { db with stamps := some (db.stamps.getD .empty) }

def hasTable (db : StampedDb σ) (name : String) : Bool :=
  if name = "schema_migrations" then db.stamps.isSome else scripts.hasTable db.content name

/-- The statements of the transaction of a migration: its script and its stamp. -/
def apply (migration : Migration) (foreignKeys : Bool) (db : StampedDb σ) : Option (StampedDb σ) :=
  match scripts.execute migration foreignKeys db.content, db.stamps with
  | some content, some stamps =>
    if migration.version ∈ stamps.keys then none
    else some ⟨some (stamps.insertNew migration.version (some migration.description)), content⟩
  | _, _ => none

end StampedDb

section Calls

/-- A connection as `sqlite::open` leaves it. -/
def StartupConn.opened (db : StampedDb σ) (faults : Nat → Bool) (scan : Scan String) :
    StartupConn σ :=
  { db, foreignKeys := true, faults, scan, applied := [] }

/-- One call has been made. -/
def StartupConn.next (c : StartupConn σ) : StartupConn σ :=
  { c with faults := fun i => c.faults (i + 1) }

/-- A call with its effect, if it does not fail. -/
def call {α : Type} (f : StartupConn σ → α × StartupConn σ) : Startup σ α := ⟨fun c =>
  if c.faults 0 = true then (.error .sqlite, c.next) else (.ok (f c.next).1, (f c.next).2)⟩

def createStamps : Startup σ Unit := call fun c => ((), { c with db := c.db.withStamps })

def tableExists (name : String) : Startup σ Bool := call fun c => (c.db.hasTable scripts name, c)

def readAppliedVersions : Startup σ (List String) := do
  let present ← tableExists scripts "schema_migrations"
  if present = false then return []
  else call fun c => (c.scan.order c.db.versions, c)

def setForeignKeys (on : Bool) : Startup σ Unit := call fun c => ((), { c with foreignKeys := on })

/-- The transaction of one migration. -/
def applyMigration (migration : Migration) : Startup σ Unit := ⟨fun c =>
  match c.faults 0, c.db.apply scripts migration c.foreignKeys with
  | false, some db =>
    (.ok (), { c.next with db, applied := c.applied ++ [migration.version] })
  | _, _ => (.error .sqlite, c.next)⟩

end Calls

section Inspect

structure SchemaStatus where
  latestKnown : String
  applied : List String
  pending : List String
  newerThanBinary : Bool
  isOtelSchema : Bool
  deriving DecidableEq, Repr

/-- Versions are sorted by their bytes. -/
def byBytes (a b : String) : Prop := utf8 a ≤ utf8 b

instance : DecidableRel byBytes := fun a b => inferInstanceAs (Decidable (utf8 a ≤ utf8 b))

def inspectSchema : Startup σ SchemaStatus := do
  let versions ← readAppliedVersions scripts
  let applied := versions.insertionSort byBytes
  let isOtelSchema ← tableExists scripts "log_event"
  return {
    latestKnown := latestSchemaVersion
    applied
    pending := (migrations.filter fun migration =>
      !applied.any fun version => version = migration.version).map Migration.version
    newerThanBinary := applied.getLast?.any fun version => utf8 latestSchemaVersion < utf8 version
    isOtelSchema }

end Inspect

section Migrate

/-- `iter().max()`: of equal elements the later one. -/
def newestOf : List String → Option String
  | [] => none
  | version :: versions =>
    some (versions.foldl (fun newest v => if utf8 v < utf8 newest then newest else v) version)

def newerMessage (newestApplied : String) : String :=
  s!"database schema version {newestApplied} is newer than the newest supported version " ++
    s!"{latestSchemaVersion}; upgrade this binary before opening it"

/-- The downgrade guard. -/
def refuseNewer (applied : List String) : Startup σ Unit :=
  match newestOf applied with
  | some newestApplied =>
    if utf8 latestSchemaVersion < utf8 newestApplied then
      fail (.startupFailed (newerMessage newestApplied))
    else pure ()
  | none => pure ()

/-- One migration, with foreign keys off around it if it asks for that. -/
def applyOne (migration : Migration) : Startup σ Unit := do
  if migration.disableForeignKeys then setForeignKeys false else pure ()
  applyMigration scripts migration
  if migration.disableForeignKeys then setForeignKeys true else pure ()

/-- The loop over the migrations, with the versions read before it. -/
def applyPending (applied : List String) (target : Option String) : List Migration → Startup σ Unit
  | [] => pure ()
  | migration :: rest =>
    if migration.version ∈ applied then applyPending applied target rest
    else if target.any (fun version => utf8 version < utf8 migration.version) then
      applyPending applied target rest
    else do
      applyOne scripts migration
      applyPending applied target rest

def migrateInner (target : Option String) : Startup σ Unit := do
  createStamps
  let applied ← readAppliedVersions scripts
  refuseNewer applied
  applyPending scripts applied target migrations

def migrate : Startup σ Unit := migrateInner scripts none

end Migrate

end OtelSqlite.Sqlite
