import OtelSqlite.Sqlite.Identity

/-!
# Deduplication of resources

Resource rows are inserted with `ON CONFLICT (id) DO NOTHING`. While no two of the
resources collide, the table is what it would be if every upsert replaced the row
(`latest`): the id is the same only if every column is.
-/

namespace OtelSqlite.Sqlite

open OtelSqlite.Lib OtelSqlite.Model

variable (libraries : Libraries)

/-- `resolve_resource`: the row of the resource unless its id is taken. -/
def upsertResource (db : Database) (resource : Resource) (now : String) : Database :=
  db.insertResource (identity libraries resource)
    ⟨resourceColumns libraries.formats resource, now⟩

/-- What happens to the resource table: upserts, and deletions such as the sweep of
orphans. -/
inductive ResourceStep where
  | upsert (resource : Resource) (now : String)
  | delete (p : String → Bool)

def ResourceStep.run (db : Database) : ResourceStep → Database
  | .upsert resource now => upsertResource libraries db resource now
  | .delete p => db.deleteResources p

def runResourceSteps (steps : List ResourceStep) : Database :=
  steps.foldl (ResourceStep.run libraries) .migrated

/-- The columns each id has if an upsert replaces what the id had. -/
def ResourceStep.replace (columns : String → Option ResourceColumns) :
    ResourceStep → String → Option ResourceColumns
  | .upsert resource _ =>
    Function.update columns (identity libraries resource)
      (some (resourceColumns libraries.formats resource))
  | .delete p => fun id => if p id then none else columns id

def latest (steps : List ResourceStep) : String → Option ResourceColumns :=
  steps.foldl (ResourceStep.replace libraries) fun _ => none

/-- The step upserts none but these resources. -/
def ResourceStep.Within (resources : List Resource) : ResourceStep → Prop
  | .upsert resource _ => resource ∈ resources
  | .delete _ => True

/-- The columns stored under an id. -/
def Database.storedColumns (db : Database) (id : String) : Option ResourceColumns :=
  (db.logResource.find? id).map ResourceRow.columns

variable {libraries} {resources : List Resource} {db : Database}

/-- Every stored row is the one of a resource of the list. -/
def Genuine (libraries : Libraries) (resources : List Resource) (db : Database) : Prop :=
  ∀ id columns, db.storedColumns id = some columns →
    ∃ r ∈ resources, identity libraries r = id ∧ resourceColumns libraries.formats r = columns

theorem storedColumns_upsertResource (h : CollisionFree libraries resources)
    (hdb : Genuine libraries resources db) {r : Resource} (hr : r ∈ resources) (now : String) :
    (upsertResource libraries db r now).storedColumns =
      Function.update db.storedColumns (identity libraries r)
        (some (resourceColumns libraries.formats r)) := by
  funext id
  by_cases hid : id = identity libraries r
  · subst hid
    rw [Function.update_self]
    show Option.map _ (Table.find? (Table.insertNew _ _ _) _) = _
    rw [Table.find?_insertNew_self, Option.map_some]
    cases hfind : db.logResource.find? (identity libraries r) with
    | none => rfl
    | some row =>
      -- the row that stays has the columns that the upsert carried
      obtain ⟨r', hr', hid', hcolumns⟩ := hdb _ row.columns (by
        rw [Database.storedColumns, hfind, Option.map_some])
      rw [Option.getD_some, ← hcolumns, h.columns_eq hr' hr hid']
  · rw [Function.update_of_ne hid]
    exact congrArg (Option.map _) (Table.find?_insertNew_of_ne hid)

theorem storedColumns_deleteResources (db : Database) (p : String → Bool) :
    (db.deleteResources p).storedColumns = fun id => if p id then none else db.storedColumns id := by
  funext id
  show Option.map _ (Table.find? (Table.filter _ _) id) = _
  rw [Database.storedColumns]
  by_cases hp : p id = true
  · have hnone : (db.logResource.filter fun id _ => !p id).find? id = none := by
      apply Option.eq_none_iff_forall_ne_some.mpr
      intro row hrow
      have hkept := (Table.find?_filter_eq_some_iff.mp hrow).2
      rw [hp] at hkept
      cases hkept
    rw [if_pos hp, hnone, Option.map_none]
  · have hsame : (db.logResource.filter fun id _ => !p id).find? id = db.logResource.find? id := by
      ext row
      rw [Table.find?_filter_eq_some_iff]
      simp [hp]
    rw [if_neg hp, hsame]

section

variable (h : CollisionFree libraries resources)
include h

/-- One step on the table is the step that replaces, and stored rows stay genuine. -/
theorem storedColumns_run (hdb : Genuine libraries resources db) {step : ResourceStep}
    (hstep : step.Within resources) :
    (step.run libraries db).storedColumns = step.replace libraries db.storedColumns ∧
      Genuine libraries resources (step.run libraries db) := by
  cases step with
  | upsert r now =>
    have hstored := storedColumns_upsertResource h hdb hstep now
    refine ⟨hstored, fun id columns hcolumns => ?_⟩
    replace hcolumns := (congrFun hstored id).symm.trans hcolumns
    by_cases hid : id = identity libraries r
    · rw [hid, Function.update_self] at hcolumns
      exact ⟨r, hstep, hid.symm, Option.some.inj hcolumns⟩
    · rw [Function.update_of_ne hid] at hcolumns
      exact hdb id columns hcolumns
  | delete p =>
    have hstored := storedColumns_deleteResources db p
    refine ⟨hstored, fun id columns hcolumns => ?_⟩
    replace hcolumns := (congrFun hstored id).symm.trans hcolumns
    by_cases hp : p id = true
    · rw [if_pos hp] at hcolumns
      cases hcolumns
    · rw [if_neg hp] at hcolumns
      exact hdb id columns hcolumns

theorem storedColumns_foldl (hdb : Genuine libraries resources db) {steps : List ResourceStep}
    (hsteps : ∀ step ∈ steps, step.Within resources) :
    (steps.foldl (ResourceStep.run libraries) db).storedColumns =
      steps.foldl (ResourceStep.replace libraries) db.storedColumns := by
  induction steps generalizing db with
  | nil => rfl
  | cons step steps ih =>
    rw [List.forall_mem_cons] at hsteps
    obtain ⟨hstored, hgenuine⟩ := storedColumns_run h hdb hsteps.1
    rw [List.foldl_cons, List.foldl_cons, ih hgenuine hsteps.2, hstored]

/-- The id of a resource is the same exactly when the four hashed fields are. -/
theorem identity_eq_iff {a b : Resource} (ha : a ∈ resources) (hb : b ∈ resources) :
    identity libraries a = identity libraries b ↔
      a.serviceName = b.serviceName ∧ a.hostName = b.hostName ∧ a.schemaUrl = b.schemaUrl ∧
        writeAttributesJson libraries.formats a.attributes =
          writeAttributesJson libraries.formats b.attributes := by
  constructor
  · intro hid
    have hparts := congrArg ResourceColumns.parts (h.columns_eq ha hb hid)
    simpa [ResourceColumns.parts, resourceColumns] using hparts
  · rintro ⟨hservice, hhost, hschema, hjson⟩
    simp only [identity, resourceColumns, hservice, hhost, hschema, hjson]

end

variable (libraries resources)

/-- Ids agree exactly on equal fields, the table holds what the latest upserts carried,
and the hashed bytes determine their parts. -/
theorem resource_dedup_lossless (h : CollisionFree libraries resources) :
    (∀ a ∈ resources, ∀ b ∈ resources,
      (identity libraries a = identity libraries b ↔
        a.serviceName = b.serviceName ∧ a.hostName = b.hostName ∧ a.schemaUrl = b.schemaUrl ∧
          writeAttributesJson libraries.formats a.attributes =
            writeAttributesJson libraries.formats b.attributes)) ∧
      (∀ steps : List ResourceStep, (∀ step ∈ steps, step.Within resources) → ∀ id,
        (runResourceSteps libraries steps).storedColumns id = latest libraries steps id) ∧
      ∀ parts parts' : List String, (∀ p ∈ parts, p.utf8ByteSize < 2 ^ 64) →
        (∀ p ∈ parts', p.utf8ByteSize < 2 ^ 64) →
        framed (parts.map utf8) = framed (parts'.map utf8) → parts = parts' := by
  refine ⟨fun a ha b hb => identity_eq_iff h ha hb, fun steps hsteps id => ?_,
    fun parts parts' hp hp' => framed_utf8_inj hp hp'⟩
  have hmigrated : Genuine libraries resources .migrated := by
    intro id columns hcolumns
    cases hcolumns
  exact congrFun (storedColumns_foldl h hmigrated hsteps) id

section Sample

/-- The same service twice, and a resource with nothing but a schema URL. -/
def twiceAndOther : List Resource :=
  [{ id := "1", attributes := [⟨"service.name", .string "api"⟩], schemaUrl := "" },
    { id := "2", attributes := [⟨"service.name", .string "api"⟩], schemaUrl := "" },
    { id := "", attributes := [], schemaUrl := "v1" }]

theorem resource_dedup_lossless_sample :
    let steps := twiceAndOther.map fun r => ResourceStep.upsert r r.id
    (runResourceSteps lengthDigest steps).logResource.keys.length = 2 ∧
      ∀ id, (runResourceSteps lengthDigest steps).storedColumns id = latest lengthDigest steps id := by
  intro steps
  refine ⟨by decide +kernel, (resource_dedup_lossless lengthDigest twiceAndOther
    ⟨by decide +kernel, by decide +kernel⟩).2.1 steps ?_⟩
  intro step hstep
  obtain ⟨r, hr, rfl⟩ := List.mem_map.mp hstep
  exact hr

end Sample

end OtelSqlite.Sqlite
