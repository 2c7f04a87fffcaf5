import OtelSqlite.Sqlite.Insert
import OtelSqlite.Sqlite.Maintenance

/-!
# The tables stay consistent

`Consistent` is the invariant of the three tables: the index is what the events and
resources give, every event has the resource row of its origin, and every resource row
comes from an origin. Each statement keeps it, so every command does, wherever it stops.
-/

namespace OtelSqlite.Sqlite

open OtelSqlite.Lib OtelSqlite.Lib.Fallible OtelSqlite.Model OtelSqlite.Core

variable {libraries : Libraries} {origins : List BatchOrigin} {db db' : Database} {event : Event}
  {id : Int}

structure Consistent (libraries : Libraries) (origins : List BatchOrigin) (db : Database) :
    Prop where
  index : ∀ id, db.logsFts.find? id = (db.logEvent.find? id).bind db.indexed
  event : ∀ {id event}, db.logEvent.find? id = some event →
    event.origin ∈ origins ∧ event.row.resourceId = resourceId libraries event.origin ∧
      ∃ row, db.logResource.find? event.row.resourceId = some row
  resource : ∀ {id row}, db.logResource.find? id = some row →
    ∃ origin ∈ origins, id = resourceId libraries origin ∧
      row.columns = columnsOf libraries origin

theorem consistent_migrated : Consistent libraries origins .migrated where
  index _ := rfl
  event h := by cases h
  resource h := by cases h

section Statements

theorem Consistent.indexed_isSome (h : Consistent libraries origins db)
    (hevent : db.logEvent.find? id = some event) : ∃ row, db.indexed event = some row := by
  obtain ⟨-, -, row, hrow⟩ := h.event hevent
  exact ⟨_, by rw [Database.indexed, hrow, Option.map_some]⟩

/-- A resource row that exists stays as it is. -/
theorem find?_insertResource {rid : String} {row : ResourceRow}
    (h : db.logResource.find? rid = some row) (id : String) (row' : ResourceRow) :
    (db.insertResource id row').logResource.find? rid = some row := by
  show (db.logResource.insertNew id row').find? rid = some row
  by_cases hid : rid = id
  · rw [hid] at h ⊢
    rw [Table.find?_insertNew_self, h, Option.getD_some]
  · rw [Table.find?_insertNew_of_ne hid, h]

section

variable (h : Consistent libraries origins db)
include h

theorem Consistent.resolveResource {origin : BatchOrigin} (horigin : origin ∈ origins)
    (now : String) : Consistent libraries origins (resolveResource libraries db origin now) where
  index id := by
    refine (h.index id).trans ?_
    show (db.logEvent.find? id).bind db.indexed = (db.logEvent.find? id).bind _
    cases hevent : db.logEvent.find? id with
    | none => rfl
    | some event =>
      obtain ⟨-, -, row, hrow⟩ := h.event hevent
      have hkept := find?_insertResource hrow (resourceId libraries origin)
        ⟨columnsOf libraries origin, now⟩
      show (db.logResource.find? _).map _ = ((db.insertResource _ _).logResource.find? _).map _
      rw [hrow, hkept]
  event hevent := by
    obtain ⟨hmem, hid, row, hrow⟩ := h.event hevent
    exact ⟨hmem, hid, row, find?_insertResource hrow _ _⟩
  resource {id row} hrow := by
    change (db.logResource.insertNew _ _).find? id = some row at hrow
    by_cases hid : id = resourceId libraries origin
    · subst hid
      rw [Table.find?_insertNew_self] at hrow
      cases hold : db.logResource.find? (resourceId libraries origin) with
      | none =>
        rw [hold] at hrow
        cases hrow
        exact ⟨origin, horigin, rfl, rfl⟩
      | some old =>
        rw [hold] at hrow
        cases hrow
        exact h.resource hold
    · rw [Table.find?_insertNew_of_ne hid] at hrow
      exact h.resource hrow

theorem Consistent.insertEvent (horigin : event.origin ∈ origins)
    (hid : event.row.resourceId = resourceId libraries event.origin)
    (hinsert : db.insertEvent id event = some db') : Consistent libraries origins db' := by
  obtain ⟨row, hrow, hevents, hfts, rfl⟩ := Database.insertEvent_eq_some_iff.mp hinsert
  obtain ⟨resource, hresource, -⟩ := Option.map_eq_some_iff.mp hrow
  refine ⟨fun id' => ?_, fun {id' event'} hevent' => ?_, h.resource⟩
  · show (db.logsFts.insertNew id row).find? id' =
      ((db.logEvent.insertNew id event).find? id').bind db.indexed
    rw [Table.find?_insertNew_of_notMem hfts, Table.find?_insertNew_of_notMem hevents]
    split
    · exact hrow.symm
    · exact h.index id'
  · change (db.logEvent.insertNew id event).find? id' = some event' at hevent'
    rw [Table.find?_insertNew_of_notMem hevents] at hevent'
    split at hevent'
    · cases hevent'
      exact ⟨horigin, hid, resource, hresource⟩
    · exact h.event hevent'

theorem Consistent.deleteEvents (p : Int → Event → Bool) :
    Consistent libraries origins (db.deleteEvents p) where
  index id := by
    ext row
    rw [Database.find?_logsFts_deleteEvents, h.index id, Option.bind_eq_some_iff,
      Option.bind_eq_some_iff]
    show (∃ event, db.logEvent.find? id = some event ∧ db.indexed event = some row) ∧ _ ↔
      ∃ event, (db.deleteEvents p).logEvent.find? id = some event ∧ db.indexed event = some row
    simp only [Database.find?_deleteEvents, Database.selects]
    cases hevent : db.logEvent.find? id with
    | none => simp
    | some event => simp [and_comm]
  event hevent := h.event (Database.find?_deleteEvents.mp hevent).1
  resource := h.resource

theorem Consistent.rebuildFts : Consistent libraries origins db.rebuildFts where
  index _ := Table.find?_filterMap
  event := h.event
  resource := h.resource

/-- A rebuild finds what the triggers have kept. -/
theorem Consistent.find?_rebuildFts (id : Int) :
    db.rebuildFts.logsFts.find? id = db.logsFts.find? id :=
  (Table.find?_filterMap).trans (h.index id).symm

end

/-- Deleting resources that no event refers to cascades to no event. -/
theorem deleteEvents_eq_self (db : Database) {p : Int → Event → Bool}
    (h : ∀ {id event}, db.logEvent.find? id = some event → p id event = false) :
    db.deleteEvents p = db := by
  have hevents : (db.logEvent.filter fun id event => !p id event) = db.logEvent := by
    apply Table.filter_eq_self
    intro id event hevent
    rw [h hevent, Bool.not_false]
  have hselects : ∀ id, db.selects p id = false := by
    intro id
    unfold Database.selects
    split
    · next event hevent => exact h hevent
    · rfl
  have hfts : (db.logsFts.filter fun id _ => !db.selects p id) = db.logsFts := by
    apply Table.filter_eq_self
    intro id row _
    rw [hselects, Bool.not_false]
  rw [Database.deleteEvents, hevents, hfts]

theorem collectOrphanDimensions_eq (db : Database) : db.collectOrphanDimensions =
    { db with logResource := db.logResource.filter fun id _ => db.referenced id } := by
  have hcascade := deleteEvents_eq_self db
    (p := fun _ event => !db.referenced event.row.resourceId &&
      decide (event.row.resourceId ∈ db.logResource.keys)) fun hevent => by
    rw [Database.referenced_of_find? hevent, Bool.not_true, Bool.false_and]
  rw [Database.collectOrphanDimensions, Database.deleteResources, hcascade]
  simp only [Bool.not_not]

theorem Consistent.collectOrphanDimensions (h : Consistent libraries origins db) :
    Consistent libraries origins db.collectOrphanDimensions := by
  rw [collectOrphanDimensions_eq]
  -- the resource of an event is referenced, so it stays
  have hkept : ∀ {id event}, db.logEvent.find? id = some event →
      (db.logResource.filter fun id _ => db.referenced id).find? event.row.resourceId =
        db.logResource.find? event.row.resourceId := by
    intro id event hevent
    obtain ⟨-, -, row, hrow⟩ := h.event hevent
    rw [hrow, Table.find?_filter_eq_some_iff]
    exact ⟨hrow, Database.referenced_of_find? hevent⟩
  refine ⟨fun id => ?_, fun {id event} hevent => ?_, fun {id row} hrow => ?_⟩
  · refine (h.index id).trans ?_
    show (db.logEvent.find? id).bind db.indexed = (db.logEvent.find? id).bind _
    cases hevent : db.logEvent.find? id with
    | none => rfl
    | some event =>
      show (db.logResource.find? _).map _ = ((db.logResource.filter _).find? _).map _
      rw [hkept hevent]
  · obtain ⟨hmem, hid, row, hrow⟩ := h.event hevent
    exact ⟨hmem, hid, row, (hkept hevent).trans hrow⟩
  · exact h.resource (Table.find?_filter_eq_some_iff.mp hrow).1

end Statements

section Insert

variable (rowIds : RowIds) {origin : BatchOrigin}

variable (h : Consistent libraries origins db)
include h

/-- A row of the batch finds its resource and a free id, so its insert succeeds. -/
theorem Consistent.insertRecord (horigin : origin ∈ origins)
    (hresource : ∃ row, db.logResource.find? (resourceId libraries origin) = some row)
    (record : LogRecord) :
    ∃ db', insertRecord libraries rowIds origin db record = some db' ∧
      Consistent libraries origins db' ∧ db'.logResource = db.logResource := by
  obtain ⟨resource, hrow⟩ := hresource
  have hevents := rowIds.fresh db.logEvent.keys
  have hfts : rowIds.next db.logEvent.keys ∉ db.logsFts.keys := by
    rw [← Table.find?_eq_none_iff, h.index, Table.find?_eq_none_iff.mpr hevents]
    rfl
  have hindexed : db.indexed ⟨eventRow libraries origin record, origin⟩ =
      some (Database.indexRow (eventRow libraries origin record) resource.columns) := by
    show (db.logResource.find? (resourceId libraries origin)).map _ = _
    rw [hrow, Option.map_some]
  have hinsert := Database.insertEvent_eq_some_iff.mpr ⟨_, hindexed, hevents, hfts, rfl⟩
  exact ⟨_, hinsert, h.insertEvent horigin rfl hinsert, rfl⟩

theorem Consistent.insertRecords (horigin : origin ∈ origins)
    (hresource : ∃ row, db.logResource.find? (resourceId libraries origin) = some row)
    (records : List LogRecord) :
    ∃ db', records.foldlM (Sqlite.insertRecord libraries rowIds origin) db = some db' ∧
      Consistent libraries origins db' := by
  induction records generalizing db with
  | nil => exact ⟨db, rfl, h⟩
  | cons record records ih =>
    obtain ⟨db₁, hfirst, h₁, hsame⟩ := h.insertRecord rowIds horigin hresource record
    obtain ⟨db', hrest, h'⟩ := ih h₁ (by rw [hsame]; exact hresource)
    refine ⟨db', ?_, h'⟩
    rw [List.foldlM_cons, hfirst]
    exact hrest

/-- The rows of a pass are all written. -/
theorem Consistent.writeRows (horigin : origin ∈ origins) (now : String) (records : List LogRecord)
    :
    ∃ db', writeRows libraries rowIds origin now db records = some db' ∧
      Consistent libraries origins db' :=
  (h.resolveResource horigin now).insertRecords rowIds horigin
    ⟨_, Table.find?_insertNew_self⟩ records

theorem Consistent.insertTransaction (attempt : Storage.Attempt LogRecord)
    (batch : LogWriteBatch BatchOrigin LogRecord) (horigin : batch.origin ∈ origins)
    (tolerant : Bool) (now : String) :
    Consistent libraries origins
      (insertTransaction libraries rowIds attempt batch tolerant now db) := by
  unfold Sqlite.insertTransaction
  split
  · exact h
  · next pass _ =>
    obtain ⟨db', hdb', h'⟩ := h.writeRows rowIds horigin now pass.inserted
    rw [hdb']
    exact h'

end Insert

section Upkeep

variable {α : Type} {P : Database → Prop}

theorem preserves_transaction (statements : Database → Database × α)
    (h : ∀ db, P db → P (statements db).1) :
    Preserves (fun c : Conn => P c.db) (transaction statements) := by
  intro c hc
  cases htx : c.answers.transactions 0 with
  | none =>
    rw [run_transaction_of_none htx]
    exact h c.db hc
  | some failure =>
    rw [run_transaction_of_some htx]
    exact hc

theorem keeps_db_tryCheckpointTruncate : Keeps Conn.db tryCheckpointTruncate := by
  refine Keeps.bind ?_ fun outcome => ?_
  · rintro shown c rfl
    show (checkpoint.run c).2.db = c.db
    unfold checkpoint
    dsimp only
    split <;> rfl
  · cases outcome <;> exact fun _ => .pure _

theorem keeps_db_incrementalVacuum : Keeps Conn.db incrementalVacuum := by
  rintro shown c rfl
  unfold incrementalVacuum
  dsimp only
  split <;> rfl

theorem keeps_db_databaseBytes : Keeps Conn.db databaseBytes := by
  rintro shown c rfl
  rfl

theorem keeps_db_ensureIncremental : Keeps Conn.db ensureIncremental := by
  refine Keeps.bind (fun _ _ h => h) fun mode => ?_
  split
  · exact fun _ => .pure ()
  · rintro shown c rfl
    unfold convertToIncrementalVacuum
    dsimp only
    split <;> rfl

theorem keeps_db_reclaim : Keeps Conn.db reclaim := by
  refine keeps_db_tryCheckpointTruncate.bind fun folded => ?_
  split
  · exact fun _ => .pure false
  · exact keeps_db_incrementalVacuum.bind fun _ => keeps_db_tryCheckpointTruncate

/-- What deletions of events and orphan sweeps keep. -/
structure Durable (P : Database → Prop) : Prop where
  deleteEvents : ∀ db p, P db → P (db.deleteEvents p)
  collectOrphanDimensions : ∀ db, P db → P db.collectOrphanDimensions

variable (hP : Durable P)
include hP

theorem Durable.sweepAfter (deleted : Nat) :
    Preserves (fun c : Conn => P c.db) (sweepAfter deleted) := by
  unfold Sqlite.sweepAfter
  split
  · exact preserves_transaction sweep hP.collectOrphanDimensions
  · exact .pure 0

theorem Durable.pruneBatch (cutoff : Int) :
    Preserves (fun c : Conn => P c.db) (pruneBatch cutoff) := by
  intro c hc
  exact preserves_transaction (fun db => deleteIds (expiredBatch c.scan cutoff db) db)
    (fun db hdb => hP.deleteEvents db _ hdb) c hc

theorem Durable.pruneLoop (cutoff : Int) (logEvents : Nat) (c : Conn) (hc : P c.db) :
    P (pruneLoop cutoff logEvents c).2.db := by
  induction logEvents, c using pruneLoop.induct cutoff with
  | case1 logEvents c failure c' hrun =>
    have hbatch := hP.pruneBatch cutoff c hc
    rw [hrun] at hbatch
    rw [pruneLoop_of_error hrun]
    exact hbatch
  | case2 logEvents c deleted c' hrun hshort =>
    have hbatch := hP.pruneBatch cutoff c hc
    rw [hrun] at hbatch
    rw [pruneLoop_of_short hrun hshort]
    exact hbatch
  | case3 logEvents c deleted c' hrun hfull ih =>
    have hbatch := hP.pruneBatch cutoff c hc
    rw [hrun] at hbatch
    rw [pruneLoop_of_full hrun hfull]
    exact ih hbatch

theorem Durable.prune (window : Option Nat) (now : Int) :
    Preserves (fun c : Conn => P c.db) (prune window now) := by
  refine Preserves.bind ?_ fun logEvents => (hP.sweepAfter logEvents).bind fun _ => .pure _
  cases window with
  | none => exact .pure 0
  | some window => exact fun c hc => hP.pruneLoop _ 0 c hc

theorem Durable.pruneOldestBatch : Preserves (fun c : Conn => P c.db) pruneOldestBatch := by
  intro c hc
  have hdelete := preserves_transaction (deleteIds (oldestBatch c.scan c.db))
    (fun db hdb => hP.deleteEvents db _ hdb) c hc
  unfold Sqlite.pruneOldestBatch
  dsimp only
  split
  · next h => rw [h] at hdelete; exact hdelete
  · next h => rw [h] at hdelete; exact hdelete

theorem Durable.quotaRounds (quota rounds evicted : Nat) :
    Preserves (fun c : Conn => P c.db) (quotaRounds quota rounds evicted) := by
  induction rounds generalizing evicted with
  | zero => exact .pure evicted
  | succ rounds ih =>
    refine Preserves.bind (fun _ hc => hc) fun size => ?_
    split
    · exact .pure _
    refine hP.pruneOldestBatch.bind fun deleted => ?_
    split
    · exact .pure _
    refine (keeps_db_reclaim.preserves).bind fun folded => ?_
    split
    · exact .pure _
    · exact ih _

theorem Durable.enforceSizeQuota (quota : Nat) :
    Preserves (fun c : Conn => P c.db) (enforceSizeQuota quota) := by
  refine keeps_db_databaseBytes.preserves.bind fun bytesBefore => ?_
  refine keeps_db_tryCheckpointTruncate.preserves.bind fun folded => ?_
  split
  · exact keeps_db_databaseBytes.preserves.bind fun _ => .pure _
  refine keeps_db_ensureIncremental.preserves.bind fun _ => ?_
  refine (hP.quotaRounds quota maxQuotaRounds 0).bind fun logEvents => ?_
  exact (hP.sweepAfter logEvents).bind fun _ =>
    keeps_db_databaseBytes.preserves.bind fun _ => .pure _

end Upkeep

theorem durable_consistent : Durable (Consistent libraries origins) where
  deleteEvents _ p h := h.deleteEvents p
  collectOrphanDimensions _ h := h.collectOrphanDimensions

section Commands

/-- What the writer does with its database. The answers a command comes with decide at
which of its transactions it stops. -/
inductive Command where
  | insert (attempt : Storage.Attempt LogRecord) (batch : LogWriteBatch BatchOrigin LogRecord)
      (tolerant : Bool) (now : String)
  | prune (answers : Answers) (scan : Scan (Int × Event)) (window : Option Nat) (now : Int)
  | enforceSizeQuota (autoVacuum : Int) (answers : Answers) (scan : Scan (Int × Event))
      (quota : Nat)
  | collectOrphanDimensions (answers : Answers)
  | rebuildFts (answers : Answers)

/-- The origin of an inserted batch. -/
def Command.origin? : Command → Option BatchOrigin
  | .insert _ batch _ _ => some batch.origin
  | _ => none

variable (libraries) (rowIds : RowIds)

def Command.run (db : Database) : Command → Database
  | .insert attempt batch tolerant now =>
    insertTransaction libraries rowIds attempt batch tolerant now db
  | .prune answers scan window now =>
    ((Sqlite.prune window now).run (.start db incrementalAutoVacuum answers scan)).2.db
  | .enforceSizeQuota autoVacuum answers scan quota =>
    ((Sqlite.enforceSizeQuota quota).run (.start db autoVacuum answers scan)).2.db
  | .collectOrphanDimensions answers =>
    ((transaction sweep).run (.start db incrementalAutoVacuum answers .inOrder)).2.db
  | .rebuildFts answers =>
    (Sqlite.rebuildFts.run (.start db incrementalAutoVacuum answers .inOrder)).2.db

/-- The database a sequence of commands leaves, from a freshly migrated one. -/
def runCommands (commands : List Command) : Database :=
  commands.foldl (Command.run libraries rowIds) .migrated

def originsOf (commands : List Command) : List BatchOrigin := commands.filterMap Command.origin?

variable {libraries} {rowIds}

theorem Consistent.run (h : Consistent libraries origins db) (command : Command)
    (horigin : ∀ origin, command.origin? = some origin → origin ∈ origins) :
    Consistent libraries origins (command.run libraries rowIds db) := by
  cases command with
  | insert attempt batch tolerant now =>
    exact h.insertTransaction rowIds attempt batch (horigin _ rfl) tolerant now
  | prune answers scan window now =>
    exact durable_consistent.prune window now (.start db incrementalAutoVacuum answers scan) h
  | enforceSizeQuota autoVacuum answers scan quota =>
    exact durable_consistent.enforceSizeQuota quota (.start db autoVacuum answers scan) h
  | collectOrphanDimensions answers =>
    exact preserves_transaction sweep durable_consistent.collectOrphanDimensions
      (.start db incrementalAutoVacuum answers .inOrder) h
  | rebuildFts answers =>
    exact preserves_transaction (P := Consistent libraries origins)
      (fun db => (db.rebuildFts, db.rebuildFts.logsFts.rows.length)) (fun _ hdb => hdb.rebuildFts)
      (.start db incrementalAutoVacuum answers .inOrder) h

/-- The invariant of a run, whatever the order of its commands. -/
theorem consistent_runCommands (libraries : Libraries) (rowIds : RowIds)
    (commands : List Command) :
    Consistent libraries (originsOf commands) (runCommands libraries rowIds commands) := by
  have hfold : ∀ rest : List Command, ∀ db, Consistent libraries (originsOf commands) db →
      (∀ command ∈ rest, command ∈ commands) →
      Consistent libraries (originsOf commands) (rest.foldl (Command.run libraries rowIds) db) := by
    intro rest
    induction rest with
    | nil => exact fun db h _ => h
    | cons command rest ih =>
      intro db h hmem
      refine ih _ (h.run command fun origin horigin => ?_) fun c hc =>
        hmem c (List.mem_cons_of_mem _ hc)
      exact List.mem_filterMap.mpr ⟨command, hmem command List.mem_cons_self, horigin⟩
  exact hfold commands .migrated consistent_migrated fun _ h => h

theorem Consistent.mem_keys_logsFts_iff (h : Consistent libraries origins db) (id : Int) :
    id ∈ db.logsFts.keys ↔ id ∈ db.logEvent.keys := by
  rw [Table.mem_keys_iff, Table.mem_keys_iff, h.index]
  cases hevent : db.logEvent.find? id with
  | none => simp
  | some event =>
    obtain ⟨row, hrow⟩ := h.indexed_isSome hevent
    simp [hrow]

/-- Without collisions the row under the id of an origin is the row of that origin. -/
theorem Consistent.find?_resource (h : Consistent libraries origins db)
    (hsha : Collisionless libraries origins) (hevent : db.logEvent.find? id = some event) :
    ∃ row, db.logResource.find? event.row.resourceId = some row ∧
      row.columns = columnsOf libraries event.origin := by
  obtain ⟨horigin, hid, row, hrow⟩ := h.event hevent
  obtain ⟨other, hother, hsame, hcolumns⟩ := h.resource hrow
  refine ⟨row, hrow, hcolumns.trans (hsha.columns_eq hother horigin ?_)⟩
  rw [← hsame, hid]

/-- **The tables agree after every sequence of commands.** The full-text index has one entry for
each event, with the columns of the event and of its resource; the resource of an event is there,
with the columns of the origin it came from; the sweep of orphans touches neither the events nor
the index, and a rebuild leaves the index as it is. -/
theorem tables_consistent (libraries : Libraries) (rowIds : RowIds) (commands : List Command)
    (hsha : Collisionless libraries (originsOf commands)) :
    (∀ id, id ∈ (runCommands libraries rowIds commands).logsFts.keys ↔
      id ∈ (runCommands libraries rowIds commands).logEvent.keys) ∧
    (∀ id event, (runCommands libraries rowIds commands).logEvent.find? id = some event →
      ∃ row, (runCommands libraries rowIds commands).logResource.find? event.row.resourceId =
          some row ∧ row.columns = columnsOf libraries event.origin ∧
        (runCommands libraries rowIds commands).logsFts.find? id =
          some (Database.indexRow event.row row.columns)) ∧
    ((runCommands libraries rowIds commands).collectOrphanDimensions.logEvent =
        (runCommands libraries rowIds commands).logEvent ∧
      (runCommands libraries rowIds commands).collectOrphanDimensions.logsFts =
        (runCommands libraries rowIds commands).logsFts) ∧
    ∀ id, (runCommands libraries rowIds commands).rebuildFts.logsFts.find? id =
      (runCommands libraries rowIds commands).logsFts.find? id := by
  have h := consistent_runCommands libraries rowIds commands
  generalize runCommands libraries rowIds commands = db at h ⊢
  refine ⟨h.mem_keys_logsFts_iff, fun id event hevent => ?_, ?_, h.find?_rebuildFts⟩
  · obtain ⟨row, hrow, hcolumns⟩ := h.find?_resource hsha hevent
    refine ⟨row, hrow, hcolumns, ?_⟩
    rw [h.index, hevent, Option.bind_some, Database.indexed, hrow, Option.map_some]
  · rw [collectOrphanDimensions_eq]
    exact ⟨rfl, rfl⟩

section Sample

/-- One more than the largest id in use. -/
def nextRowId : RowIds where
  next ids := ids.foldr max 0 + 1
  fresh ids := by
    have hle : ∀ id ∈ ids, id ≤ ids.foldr max 0 := by
      induction ids with
      | nil => simp
      | cons first ids ih =>
        intro id hid
        rw [List.foldr_cons]
        rcases List.mem_cons.mp hid with rfl | hid
        · omega
        · have := ih id hid
          omega
    intro hmem
    have := hle _ hmem
    omega

def sampleRecord (time : Int64) (body : String) : LogRecord where
  timeUnixNano := time
  observedTimeUnixNano := time
  severityNumber := .info
  severityText := "INFO"
  traceId := Vector.replicate 16 0
  spanId := Vector.replicate 8 0
  body := body
  bodyJson := none
  attributes := []
  droppedAttributesCount := 0
  flags := 0
  eventName := ""
  scope := ⟨"", "", "", "\x7b\x7d"⟩

def sampleBatch (schemaUrl : String) (records : List LogRecord) :
    LogWriteBatch BatchOrigin LogRecord where
  origin := ⟨none, schemaUrl⟩
  records := records
  commitSeqs := []
  segments := []

/-- The second row of a batch is poisoned. -/
def poisonedSecond : Storage.Attempt LogRecord :=
  ⟨none, none, fun i _ => if i = 1 then some .poison else none, none⟩

def allWell : Answers where
  transactions _ := none
  checkpoints _ := .completed
  vacuums _ := none
  conversions _ := none
  fileSizes _ := 1
  walSizes _ := 0

/-- The resource of the first batch is collected by the prune and comes back. -/
def sampleCommands : List Command :=
  [.insert poisonedSecond (sampleBatch "a" [sampleRecord 1 "old"]) false "2026-01-01",
    .insert poisonedSecond (sampleBatch "bb" [sampleRecord 9 "kept", sampleRecord 9 "poison"]) true
      "2026-01-02",
    .insert poisonedSecond (sampleBatch "bb" [sampleRecord 9 "a", sampleRecord 9 "b"]) false
      "2026-01-02",
    .prune allWell .inOrder (some 5) 10,
    .insert poisonedSecond (sampleBatch "a" [sampleRecord 9 "new"]) false "2026-01-03",
    .rebuildFts allWell]

theorem tables_consistent_sample :
    (runCommands lengthDigest nextRowId sampleCommands).logEvent.keys = [3, 2] ∧
      ∀ id, id ∈ (runCommands lengthDigest nextRowId sampleCommands).logsFts.keys ↔
        id ∈ (runCommands lengthDigest nextRowId sampleCommands).logEvent.keys :=
  ⟨by decide +kernel,
    (tables_consistent lengthDigest nextRowId sampleCommands
      ⟨by decide +kernel, by decide +kernel⟩).1⟩

end Sample

end Commands

end OtelSqlite.Sqlite
