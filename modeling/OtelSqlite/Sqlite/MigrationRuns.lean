import OtelSqlite.Sqlite.Migration

/-!
# Inspection predicts migration, and migration resumes

Inspection takes the last of the sorted stamps and migration the maximum; both ask whether
some stamp is newer than the binary. A run applies a front part of the pending list in one
transaction each and leaves the rest pending, wherever it stops; `advance` is what that part
does to the database. So the runs of any sequence together apply the list once, in order.
-/

namespace OtelSqlite.Sqlite

open OtelSqlite.Lib OtelSqlite.Lib.Fallible OtelSqlite.Model

variable {versions : List String} {migration : Migration}

section Versions

theorem lt_of_lt_of_not_lt {a b c : List UInt8} (h : a < b) (hbc : ¬c < b) : a < c := by
  by_contra hac
  exact hbc (List.lt_of_le_of_lt (List.not_lt.mp hac) h)

theorem lt_foldl_newest_iff (bound : List UInt8) (first : String) (rest : List String) :
    bound < utf8 (rest.foldl (fun newest v => if utf8 v < utf8 newest then newest else v) first) ↔
      bound < utf8 first ∨ ∃ version ∈ rest, bound < utf8 version := by
  induction rest generalizing first with
  | nil => simp
  | cons version rest ih =>
    rw [List.foldl_cons, ih, List.exists_mem_cons_iff]
    split
    · next hlt =>
      have himp : bound < utf8 version → bound < utf8 first := fun h => List.lt_trans h hlt
      tauto
    · next hnot =>
      have himp : bound < utf8 first → bound < utf8 version := fun h => lt_of_lt_of_not_lt h hnot
      tauto

/-- The guard of the migration. -/
theorem newestOf_newer_iff (bound : List UInt8) (versions : List String) :
    (∃ newest, newestOf versions = some newest ∧ bound < utf8 newest) ↔
      ∃ version ∈ versions, bound < utf8 version := by
  cases versions with
  | nil => simp [newestOf]
  | cons first rest =>
    rw [List.exists_mem_cons_iff, ← lt_foldl_newest_iff]
    simp [newestOf]

instance : Std.Total byBytes := ⟨fun _ _ => List.le_total _ _⟩

instance : IsTrans String byBytes := ⟨fun _ _ _ => List.le_trans⟩

/-- The guard of the inspection. -/
theorem getLast?_newer_iff (bound : List UInt8) (versions : List String) :
    ((versions.insertionSort byBytes).getLast?.any fun version => bound < utf8 version) = true ↔
      ∃ version ∈ versions, bound < utf8 version := by
  have hmem : ∀ version, version ∈ versions.insertionSort byBytes ↔ version ∈ versions :=
    fun version => (List.perm_insertionSort _ _).mem_iff
  have hsorted := List.pairwise_insertionSort byBytes versions
  simp only [← hmem]
  generalize versions.insertionSort byBytes = sorted at hsorted
  obtain rfl | ⟨front, last, rfl⟩ := List.eq_nil_or_concat sorted
  · simp
  · rw [List.concat_eq_append] at hsorted ⊢
    rw [List.getLast?_concat, Option.any_some, decide_eq_true_eq]
    constructor
    · intro h
      exact ⟨last, List.mem_concat_self, h⟩
    · rintro ⟨version, hversion, h⟩
      rcases List.mem_append.mp hversion with hfront | hlast
      · have hle := (List.pairwise_append.mp hsorted).2.2 version hfront last List.mem_cons_self
        exact lt_of_lt_of_not_lt h (List.not_lt.mpr hle)
      · rwa [← List.mem_singleton.mp hlast]

end Versions

section Calls

variable {σ α : Type} {scripts : Scripts σ} {c c' : StartupConn σ}
  {f : StartupConn σ → α × StartupConn σ}

theorem run_call_ok_iff {a : α} :
    (call f).run c = (.ok a, c') ↔ c.faults 0 = false ∧ f c.next = (a, c') := by
  unfold call
  dsimp only
  split
  · next hfault => simp [hfault]
  · next hfault => simp [hfault, Prod.ext_iff]

theorem run_call_of_fault (h : c.faults 0 = true) : (call f).run c = (.error .sqlite, c.next) := by
  simp only [call, h, if_true]

/-- A call succeeds with its effect or fails without one. -/
theorem run_call_cases (f : StartupConn σ → α × StartupConn σ) (c : StartupConn σ) :
    (c.faults 0 = false ∧ (call f).run c = (.ok (f c.next).1, (f c.next).2)) ∨
      (c.faults 0 = true ∧ (call f).run c = (.error .sqlite, c.next)) := by
  cases h : c.faults 0 with
  | false => exact .inl ⟨rfl, run_call_ok_iff.mpr ⟨h, rfl⟩⟩
  | true => exact .inr ⟨rfl, run_call_of_fault h⟩

/-- No call fails. -/
def StartupConn.Quiet (c : StartupConn σ) : Prop := ∀ i, c.faults i = false

theorem StartupConn.Quiet.next (h : c.Quiet) : c.next.Quiet := fun i => h (i + 1)

/-- What the calls that only read leave alone. -/
structure StartupConn.Same (c c' : StartupConn σ) : Prop where
  db : c'.db = c.db
  foreignKeys : c'.foreignKeys = c.foreignKeys
  applied : c'.applied = c.applied
  quiet : c.Quiet → c'.Quiet

theorem StartupConn.Same.next (c : StartupConn σ) : c.Same c.next := ⟨rfl, rfl, rfl, Quiet.next⟩

theorem StartupConn.Same.next_next (c : StartupConn σ) : c.Same c.next.next :=
  ⟨rfl, rfl, rfl, fun h => h.next.next⟩

theorem tableExists_cases (scripts : Scripts σ) (name : String) (c : StartupConn σ) :
    (c.faults 0 = false ∧
      (tableExists scripts name).run c = (.ok (c.next.db.hasTable scripts name), c.next)) ∨
      (c.faults 0 = true ∧ (tableExists scripts name).run c = (.error .sqlite, c.next)) :=
  run_call_cases _ c

theorem hasTable_stamps (scripts : Scripts σ) (db : StampedDb σ) :
    db.hasTable scripts "schema_migrations" = db.stamps.isSome := if_pos rfl

theorem versions_of_isNone {db : StampedDb σ} (h : db.stamps.isSome = false) :
    db.versions = [] := by
  rw [StampedDb.versions, Option.isNone_iff_eq_none.mp (Option.isSome_eq_false_iff.mp h)]
  rfl

/-- Reading the stamps returns them in some order, or one of its calls fails; either way
nothing changes. -/
theorem readAppliedVersions_cases (scripts : Scripts σ) (c : StartupConn σ) :
    (∃ versions c', (readAppliedVersions scripts).run c = (.ok versions, c') ∧ c.Same c' ∧
      versions.Perm c.db.versions) ∨
    ∃ c', (readAppliedVersions scripts).run c = (.error .sqlite, c') ∧ c.Same c' ∧
      ∃ i < 2, c.faults i = true := by
  obtain ⟨-, hpresent⟩ | ⟨h₀, hfault⟩ := tableExists_cases scripts "schema_migrations" c
  · rw [readAppliedVersions, run_bind_of_ok hpresent, hasTable_stamps]
    split_ifs with hnone
    · refine .inl ⟨[], c.next, rfl, .next c, ?_⟩
      have hempty : c.db.versions = [] := versions_of_isNone hnone
      rw [hempty]
    · obtain ⟨-, hread⟩ | ⟨h₁, hfault⟩ := run_call_cases
        (fun c : StartupConn σ => (c.scan.order c.db.versions, c)) c.next
      · exact .inl ⟨_, _, hread, .next_next c, c.scan.perm _⟩
      · exact .inr ⟨_, hfault, .next_next c, 1, by decide, h₁⟩
  · rw [readAppliedVersions, run_bind_of_error hfault]
    exact .inr ⟨_, rfl, .next c, 0, by decide, h₀⟩

/-- What inspection reports, in terms of the database; it changes nothing. -/
theorem inspectSchema_ok {status : SchemaStatus}
    (h : (inspectSchema scripts).run c = (.ok status, c')) :
    status.pending = c.db.pending.map Migration.version ∧
      (status.newerThanBinary = true ↔ c.db.Newer) ∧ c'.db = c.db := by
  rw [inspectSchema, run_bind_ok_iff] at h
  obtain ⟨versions, c₁, hread, h⟩ := h
  obtain ⟨present, c₂, htable, h⟩ := run_bind_ok_iff.mp h
  obtain ⟨-, htable⟩ := run_call_ok_iff.mp htable
  obtain ⟨versions', c₁', hread', hsame, hperm⟩ | ⟨_, hfault, -, -⟩ :=
    readAppliedVersions_cases scripts c
  · rw [hread] at hread'
    cases hread'
    cases htable
    cases h
    refine ⟨?_, ?_, hsame.db⟩
    · dsimp only [StampedDb.pending]
      congr 1
      apply List.filter_congr
      intro migration _
      have hany : ((versions.insertionSort byBytes).any fun v => decide (v = migration.version)) =
          decide (migration.version ∈ c.db.versions) := by
        rw [Bool.eq_iff_iff, List.any_eq_true, decide_eq_true_eq, ← hperm.mem_iff]
        simp
      simp [hany]
    · dsimp only
      rw [getLast?_newer_iff, StampedDb.Newer]
      simp only [hperm.mem_iff]
  · rw [hread] at hfault
    cases hfault

end Calls

section Apply

variable {σ : Type} (scripts : Scripts σ)

/-- The migrations one after another, each with the foreign keys it asks for. -/
def advance : List Migration → StampedDb σ → Option (StampedDb σ)
  | [], db => some db
  | migration :: rest, db =>
    (db.apply scripts migration !migration.disableForeignKeys).bind (advance rest)

variable {scripts} {c c' : StartupConn σ} {db db' : StampedDb σ} {migration : Migration}

theorem advance_append (ms ms' : List Migration) (db : StampedDb σ) :
    advance scripts (ms ++ ms') db = (advance scripts ms db).bind (advance scripts ms') := by
  induction ms generalizing db with
  | nil => rfl
  | cons migration ms ih =>
    show (db.apply scripts migration _).bind (advance scripts (ms ++ ms')) = _
    rw [advance, Option.bind_assoc]
    congr 1
    funext db'
    exact ih db'

/-- The connection behind a commit. -/
def StartupConn.committed (c : StartupConn σ) (migration : Migration) (db : StampedDb σ) :
    StartupConn σ :=
  { c.next with db, applied := c.applied ++ [migration.version] }

theorem applyMigration_cases (scripts : Scripts σ) (migration : Migration) (c : StartupConn σ) :
    (∃ db, c.db.apply scripts migration c.foreignKeys = some db ∧
      (applyMigration scripts migration).run c = (.ok (), c.committed migration db)) ∨
    (applyMigration scripts migration).run c = (.error .sqlite, c.next) ∧
      (c.faults 0 = false → c.db.apply scripts migration c.foreignKeys = none) := by
  unfold applyMigration
  dsimp only
  split
  · next db _ hdb => exact .inl ⟨db, hdb, rfl⟩
  · next hnot => exact .inr ⟨rfl, fun h => Option.eq_none_iff_forall_ne_some.mpr fun db => hnot db h⟩

/-- A migration commits or leaves the database as it was; it ends normally only behind a
commit, with foreign keys enforced again. If no call fails, it commits and ends normally
whenever its statements run. -/
theorem applyOne_cases (scripts : Scripts σ) (migration : Migration) (c : StartupConn σ)
    (hkeys : c.foreignKeys = true) :
    (∃ c', (applyOne scripts migration).run c = (.error .sqlite, c') ∧
      c'.db = c.db ∧ c'.applied = c.applied ∧
      (c.Quiet → c.db.apply scripts migration (!migration.disableForeignKeys) = none)) ∨
    ∃ outcome c', (applyOne scripts migration).run c = (outcome, c') ∧
      c.db.apply scripts migration (!migration.disableForeignKeys) = some c'.db ∧
      c'.applied = c.applied ++ [migration.version] ∧
      (outcome = .ok () ∧ c'.foreignKeys = true ∧ (c.Quiet → c'.Quiet) ∨
        outcome = .error .sqlite ∧ ¬c.Quiet) := by
  unfold applyOne
  cases migration.disableForeignKeys with
  | false =>
    simp only [Bool.false_eq_true, if_false, Bool.not_false]
    obtain ⟨db, hdb, hrun⟩ | ⟨hrun, hnone⟩ := applyMigration_cases scripts migration c
    · rw [run_bind_of_ok hrun]
      exact .inr ⟨_, _, rfl, hkeys ▸ hdb, rfl, .inl ⟨rfl, hkeys, fun h => h.next⟩⟩
    · rw [run_bind_of_error hrun]
      exact .inl ⟨_, rfl, rfl, rfl, fun h => hkeys ▸ hnone (h 0)⟩
  | true =>
    simp only [if_true, Bool.not_true]
    obtain ⟨-, hoff⟩ | ⟨hfault, hoff⟩ := run_call_cases
      (fun c : StartupConn σ => ((), { c with foreignKeys := false })) c
    · rw [run_bind_of_ok (m := setForeignKeys false) hoff]
      obtain ⟨db, hdb, hrun⟩ | ⟨hrun, hnone⟩ := applyMigration_cases scripts migration
        { c.next with foreignKeys := false }
      · rw [run_bind_of_ok hrun]
        right
        obtain ⟨-, hon⟩ | ⟨hfault, hon⟩ := run_call_cases
          (fun c : StartupConn σ => ((), { c with foreignKeys := true }))
          (StartupConn.committed { c.next with foreignKeys := false } migration db)
        · exact ⟨_, _, hon, hdb, rfl, .inl ⟨rfl, rfl, fun h i => h (i + 3)⟩⟩
        · exact ⟨_, _, hon, hdb, rfl, .inr ⟨rfl, fun h => Bool.false_ne_true ((h 2).symm.trans hfault)⟩⟩
      · rw [run_bind_of_error hrun]
        exact .inl ⟨_, rfl, rfl, rfl, fun h => hnone (h 1)⟩
    · rw [run_bind_of_error (m := setForeignKeys false) hoff]
      exact .inl ⟨_, rfl, rfl, rfl, fun h => absurd ((h 0).symm.trans hfault) Bool.false_ne_true⟩

end Apply

section Loop

variable {σ : Type} {scripts : Scripts σ} {c : StartupConn σ} {db : StampedDb σ}
  {ms : List Migration}

/-- The migrations of a list that the versions do not name. -/
def unapplied (versions : List String) (ms : List Migration) : List Migration :=
  ms.filter fun migration => decide (migration.version ∉ versions)

theorem unapplied_cons_of_mem (h : migration.version ∈ versions) :
    unapplied versions (migration :: ms) = unapplied versions ms := by
  simp [unapplied, h]

theorem unapplied_cons_of_notMem (h : migration.version ∉ versions) :
    unapplied versions (migration :: ms) = migration :: unapplied versions ms := by
  simp [unapplied, h]

theorem applyPending_cons_of_notMem (h : migration.version ∉ versions) :
    applyPending scripts versions none (migration :: ms) =
      (applyOne scripts migration >>= fun _ => applyPending scripts versions none ms) := by
  rw [applyPending, if_neg h, if_neg (by simp)]

/-- What a run of the loop leaves: a front part of the list is applied, the whole list unless a
call fails or a script does not run. -/
theorem applyPending_did (scripts : Scripts σ) (versions : List String) (ms : List Migration)
    (c : StartupConn σ) (hkeys : c.foreignKeys = true) :
    ∃ outcome c' front rest, (applyPending scripts versions none ms).run c = (outcome, c') ∧
      unapplied versions ms = front ++ rest ∧ advance scripts front c.db = some c'.db ∧
      c'.applied = c.applied ++ front.map Migration.version ∧
      (outcome = .ok () ∧ rest = [] ∨ outcome = .error .sqlite ∧
        (c.Quiet → advance scripts (unapplied versions ms) c.db = none)) := by
  induction ms generalizing c with
  | nil => exact ⟨_, c, [], [], rfl, rfl, rfl, (List.append_nil _).symm, .inl ⟨rfl, rfl⟩⟩
  | cons migration ms ih =>
    by_cases hmem : migration.version ∈ versions
    · rw [applyPending, if_pos hmem, unapplied_cons_of_mem hmem]
      exact ih c hkeys
    rw [applyPending_cons_of_notMem hmem, unapplied_cons_of_notMem hmem]
    obtain ⟨c', hrun, hdb, happlied, hnone⟩ |
      ⟨outcome, c', hrun, hdb, happlied, ⟨rfl, hkeys', hquiet⟩ | ⟨rfl, hloud⟩⟩ :=
      applyOne_cases scripts migration c hkeys
    · rw [run_bind_of_error hrun]
      refine ⟨_, c', [], _, rfl, rfl, ?_, ?_, .inr ⟨rfl, fun h => ?_⟩⟩
      · rw [hdb]
        rfl
      · rw [happlied, List.map_nil, List.append_nil]
      · rw [advance, hnone h, Option.bind_none]
    · rw [run_bind_of_ok hrun, advance, hdb, Option.bind_some]
      obtain ⟨outcome, c'', front, rest, hloop, hsplit, hadvance, happlied', hend⟩ := ih c' hkeys'
      refine ⟨outcome, c'', migration :: front, rest, hloop, ?_, ?_, ?_,
        hend.imp_right fun h => ⟨h.1, fun hc => h.2 (hquiet hc)⟩⟩
      · rw [hsplit, List.cons_append]
      · rw [advance, hdb]
        exact hadvance
      · rw [happlied', happlied, List.map_cons, List.append_assoc, List.singleton_append]
    · -- committed, but foreign keys could not be turned on again
      rw [run_bind_of_error hrun]
      refine ⟨_, c', [migration], _, rfl, rfl, ?_, happlied, .inr ⟨rfl, fun h => absurd h hloud⟩⟩
      rw [advance, hdb]
      rfl

end Loop

section Pending

variable {σ : Type} {scripts : Scripts σ} {db db' : StampedDb σ} {front rest : List Migration}

theorem nodup_versions : (migrations.map Migration.version).Nodup := by decide

theorem nodup_pending (db : StampedDb σ) : (db.pending.map Migration.version).Nodup :=
  (List.filter_sublist.map _).nodup nodup_versions

/-- No migration is newer than the last one. -/
theorem not_newer_of_mem (h : migration ∈ migrations) :
    ¬utf8 latestSchemaVersion < utf8 migration.version := by
  have hall : ∀ m ∈ migrations, ¬utf8 latestSchemaVersion < utf8 m.version := by decide +kernel
  exact hall migration h

@[simp] theorem versions_withStamps (db : StampedDb σ) : db.withStamps.versions = db.versions := by
  obtain ⟨_ | stamps, content⟩ := db <;> rfl

theorem pending_withStamps (db : StampedDb σ) : db.withStamps.pending = db.pending := by
  rw [StampedDb.pending, versions_withStamps]
  rfl

theorem newer_withStamps (db : StampedDb σ) : db.withStamps.Newer ↔ db.Newer := by
  rw [StampedDb.Newer, versions_withStamps]
  rfl

@[simp] theorem withStamps_withStamps (db : StampedDb σ) :
    db.withStamps.withStamps = db.withStamps := rfl

theorem withStamps_of_isSome (h : db.stamps.isSome = true) : db.withStamps = db := by
  obtain ⟨_ | stamps, content⟩ := db
  · cases h
  · rfl

theorem apply_spec {foreignKeys : Bool} (h : db.apply scripts migration foreignKeys = some db') :
    db'.stamps.isSome = true ∧
      ∀ version, version ∈ db'.versions ↔ version = migration.version ∨ version ∈ db.versions := by
  unfold StampedDb.apply at h
  split at h
  · next content stamps _ hstamps =>
    split at h
    · cases h
    · cases h
      refine ⟨rfl, fun version => ?_⟩
      rw [StampedDb.versions, StampedDb.versions, hstamps]
      exact Table.mem_keys_insertNew
  · cases h

theorem advance_spec (h : advance scripts front db = some db') (hdb : db.stamps.isSome = true) :
    db'.stamps.isSome = true ∧ ∀ version, version ∈ db'.versions ↔
      version ∈ front.map Migration.version ∨ version ∈ db.versions := by
  induction front generalizing db with
  | nil =>
    cases h
    exact ⟨hdb, by simp⟩
  | cons migration front ih =>
    obtain ⟨db₁, hfirst, hrest⟩ := Option.bind_eq_some_iff.mp h
    obtain ⟨hsome, hversions⟩ := apply_spec hfirst
    obtain ⟨hsome', hversions'⟩ := ih hrest hsome
    refine ⟨hsome', fun version => ?_⟩
    rw [hversions', hversions, List.map_cons, List.mem_cons]
    tauto

/-- What is applied is no longer pending, and no stamp becomes newer than the binary. -/
theorem pending_advance (hpending : db.pending = front ++ rest)
    (h : advance scripts front db.withStamps = some db') :
    db'.pending = rest ∧ (db'.Newer ↔ db.Newer) := by
  obtain ⟨-, hversions⟩ := advance_spec h rfl
  simp only [versions_withStamps] at hversions
  constructor
  · have hrest : (front ++ rest).filter
        (fun m => decide (m.version ∉ front.map Migration.version)) = rest := by
      have hnodup : ((front ++ rest).map Migration.version).Nodup := hpending ▸ nodup_pending db
      rw [List.map_append, List.nodup_append] at hnodup
      rw [List.filter_append, List.filter_eq_nil_iff.mpr, List.nil_append, List.filter_eq_self]
      · intro m hm
        simp only [decide_eq_true_eq]
        exact fun hfront => hnodup.2.2 _ hfront _ (List.mem_map_of_mem hm) rfl
      · intro m hm
        simpa using ⟨m, hm, rfl⟩
    rw [← hrest, ← hpending, StampedDb.pending, StampedDb.pending, List.filter_filter]
    apply List.filter_congr
    intro m _
    simp only [hversions, not_or, Bool.decide_and]
  · constructor
    · rintro ⟨version, hmem, hnewer⟩
      rcases (hversions version).mp hmem with hfront | hold
      · obtain ⟨m, hm, rfl⟩ := List.mem_map.mp hfront
        have hmig : m ∈ db.pending := hpending ▸ List.mem_append_left _ hm
        exact absurd hnewer (not_newer_of_mem (List.mem_of_mem_filter hmig))
      · exact ⟨version, hold, hnewer⟩
    · rintro ⟨version, hmem, hnewer⟩
      exact ⟨version, (hversions version).mpr (.inr hmem), hnewer⟩

end Pending

section Run

variable {σ : Type} {scripts : Scripts σ} {c : StartupConn σ} {db : StampedDb σ}
  {faults : Nat → Bool}

theorem run_refuseNewer_of_newer (h : ∃ version ∈ versions, utf8 latestSchemaVersion < utf8 version)
    :
    ∃ newest, (refuseNewer versions).run c =
      (.error (.startupFailed (newerMessage newest)), c) := by
  obtain ⟨newest, hnewest, hlt⟩ := (newestOf_newer_iff _ _).mpr h
  refine ⟨newest, ?_⟩
  simp only [refuseNewer, hnewest, if_pos hlt, run_fail]

theorem run_refuseNewer_of_not_newer
    (h : ¬∃ version ∈ versions, utf8 latestSchemaVersion < utf8 version) :
    (refuseNewer versions).run c = (.ok (), c) := by
  rw [← newestOf_newer_iff] at h
  unfold refuseNewer
  split
  · next newest hnewest =>
    rw [if_neg fun hlt => h ⟨newest, hnewest, hlt⟩, run_pure]
  · rfl

theorem unapplied_of_perm (h : versions.Perm db.versions) :
    unapplied versions migrations = db.pending := by
  apply List.filter_congr
  intro migration _
  simp only [h.mem_iff]

theorem createStamps_cases (db : StampedDb σ) (faults : Nat → Bool) (scan : Scan String) :
    (faults 0 = false ∧ createStamps.run (.opened db faults scan) =
      (.ok (), .opened db.withStamps (fun i => faults (i + 1)) scan)) ∨
    (faults 0 = true ∧ createStamps.run (.opened db faults scan) =
      (.error .sqlite, .opened db (fun i => faults (i + 1)) scan)) :=
  run_call_cases _ (.opened db faults scan)

/-- A run stops before the loop, at a failed call or at the guard, or it is the loop on the
versions in some order. -/
theorem migrate_cases (scripts : Scripts σ) (db : StampedDb σ) (faults : Nat → Bool)
    (scan : Scan String) :
    (∃ c', (migrate scripts).run (.opened db faults scan) = (.error .sqlite, c') ∧
      c'.db.withStamps = db.withStamps ∧ c'.applied = [] ∧ ∃ i < 3, faults i = true) ∨
    (∃ newest c', (migrate scripts).run (.opened db faults scan) =
      (.error (.startupFailed (newerMessage newest)), c') ∧
      c'.db = db.withStamps ∧ c'.applied = [] ∧ db.Newer) ∨
    (∃ versions c', (migrate scripts).run (.opened db faults scan) =
      (applyPending scripts versions none migrations).run c' ∧
      (StartupConn.opened db.withStamps (fun i => faults (i + 1)) scan).Same c' ∧
      versions.Perm db.versions ∧ ¬db.Newer) := by
  obtain ⟨-, hcreate⟩ | ⟨h₀, hcreate⟩ := createStamps_cases db faults scan
  · rw [migrate, migrateInner, run_bind_of_ok hcreate]
    obtain ⟨versions, c', hread, hsame, hperm⟩ | ⟨c', hread, hsame, i, hi, hfault⟩ :=
      readAppliedVersions_cases scripts
        (.opened db.withStamps (fun i => faults (i + 1)) scan)
    · replace hperm : versions.Perm db.versions := versions_withStamps db ▸ hperm
      have hguard : (∃ version ∈ versions, utf8 latestSchemaVersion < utf8 version) ↔ db.Newer := by
        simp only [hperm.mem_iff]
        rfl
      rw [run_bind_of_ok hread]
      by_cases hnewer : db.Newer
      · obtain ⟨newest, hrefuse⟩ := run_refuseNewer_of_newer (c := c') (hguard.mpr hnewer)
        rw [run_bind_of_error hrefuse]
        exact .inr (.inl ⟨newest, c', rfl, hsame.db, hsame.applied, hnewer⟩)
      · rw [run_bind_of_ok (run_refuseNewer_of_not_newer (mt hguard.mp hnewer))]
        exact .inr (.inr ⟨versions, c', rfl, hsame, hperm, hnewer⟩)
    · rw [run_bind_of_error hread]
      refine .inl ⟨c', rfl, ?_, hsame.applied, i + 1, Nat.succ_lt_succ hi, hfault⟩
      rw [hsame.db]
      rfl
  · rw [migrate, migrateInner, run_bind_of_error hcreate]
    exact .inl ⟨_, rfl, rfl, rfl, 0, by decide, h₀⟩

/-- What a run leaves, wherever it stops: a front part of the pending migrations is applied,
in order, and all of them if it ends normally. A run in which no call fails ends normally
unless the guard refuses the database or a script does not run. -/
theorem migrate_did (scripts : Scripts σ) (db : StampedDb σ) (faults : Nat → Bool)
    (scan : Scan String) :
    ∃ outcome c' front rest, (migrate scripts).run (.opened db faults scan) = (outcome, c') ∧
      db.pending = front ++ rest ∧
      advance scripts front db.withStamps = some c'.db.withStamps ∧
      c'.applied = front.map Migration.version ∧
      (outcome = .ok () ∧ rest = [] ∧ c'.db.withStamps = c'.db ∧ ¬db.Newer ∨ outcome ≠ .ok () ∧
        ((∀ i, faults i = false) → ¬db.Newer → advance scripts db.pending db.withStamps = none)) := by
  obtain ⟨c', hrun, hdb, happlied, i, -, hfault⟩ | ⟨newest, c', hrun, hdb, happlied, hnewer⟩ |
    ⟨versions, c₁, hrun, hsame, hperm, hnewer⟩ := migrate_cases scripts db faults scan
  · refine ⟨_, c', [], _, hrun, rfl, congrArg some hdb.symm, happlied, .inr ⟨nofun, fun h => ?_⟩⟩
    rw [h i] at hfault
    cases hfault
  · refine ⟨_, c', [], _, hrun, rfl, ?_, happlied, .inr ⟨nofun, fun _ h => absurd hnewer h⟩⟩
    rw [hdb, withStamps_withStamps]
    rfl
  · obtain ⟨outcome, c', front, rest, hloop, hsplit, hadvance, happlied, hend⟩ :=
      applyPending_did scripts versions migrations c₁ hsame.foreignKeys
    rw [unapplied_of_perm hperm] at hsplit hend
    rw [hsame.db] at hadvance hend
    have hstamped := withStamps_of_isSome (advance_spec hadvance rfl).1
    refine ⟨outcome, c', front, rest, hrun.trans hloop, hsplit, ?_, ?_, ?_⟩
    · rw [hstamped]
      exact hadvance
    · rw [happlied, hsame.applied]
      rfl
    · obtain ⟨rfl, hrest⟩ | ⟨rfl, hnone⟩ := hend
      · exact .inl ⟨rfl, hrest, hstamped, hnewer⟩
      · exact .inr ⟨nofun, fun hquiet _ => hnone (hsame.quiet fun i => hquiet (i + 1))⟩

/-- A run that ends normally has applied what was pending. -/
theorem migrate_ok {scan : Scan String}
    (h : (migrate scripts).run (.opened db faults scan) = (.ok (), c)) :
    advance scripts db.pending db.withStamps = some c.db ∧
      c.applied = db.pending.map Migration.version ∧ ¬db.Newer := by
  obtain ⟨outcome, c', front, rest, hrun, hsplit, hadvance, happlied, hend⟩ :=
    migrate_did scripts db faults scan
  rw [h] at hrun
  cases hrun
  obtain ⟨-, rfl, hstamped, hbelow⟩ := hend.resolve_right fun hnot => hnot.1 rfl
  rw [List.append_nil] at hsplit
  rw [hsplit, ← hstamped]
  exact ⟨hadvance, happlied, hbelow⟩

/-- A run in which no call fails gets as far as the scripts do. -/
theorem migrate_of_quiet {db' : StampedDb σ} (scan : Scan String) (hnewer : ¬db.Newer)
    (h : advance scripts db.pending db.withStamps = some db') :
    ∃ c', (migrate scripts).run (.opened db (fun _ => false) scan) = (.ok (), c') ∧ c'.db = db' ∧
      c'.applied = db.pending.map Migration.version := by
  obtain ⟨outcome, c', -, -, hrun, -, -, -, ⟨rfl, -⟩ | ⟨-, hnone⟩⟩ :=
    migrate_did scripts db (fun _ => false) scan
  · obtain ⟨hadvance, happlied, -⟩ := migrate_ok hrun
    exact ⟨c', hrun, Option.some.inj (hadvance.symm.trans h), happlied⟩
  · rw [hnone (fun _ => rfl) hnewer] at h
    cases h

/-- The guard: a database is refused iff it has a newer stamp. -/
theorem migrate_refuses_iff (scripts : Scripts σ) (scan : Scan String)
    (hquiet : ∀ i < 3, faults i = false) :
    (∃ newest c', (migrate scripts).run (.opened db faults scan) =
      (.error (.startupFailed (newerMessage newest)), c') ∧ c'.applied = [] ∧ c'.db = db) ↔
      db.Newer := by
  obtain ⟨c', -, -, -, i, hi, hfault⟩ | ⟨newest, c', hrun, hdb, happlied, hnewer⟩ |
    ⟨versions, c₁, hrun, hsame, hperm, hnewer⟩ := migrate_cases scripts db faults scan
  · rw [hquiet i hi] at hfault
    cases hfault
  · refine ⟨fun _ => hnewer, fun _ => ⟨newest, c', hrun, happlied, ?_⟩⟩
    rw [hdb, withStamps_of_isSome]
    obtain ⟨version, hversion, -⟩ := hnewer
    by_contra hnone
    rw [versions_of_isNone (Bool.eq_false_iff.mpr hnone)] at hversion
    cases hversion
  · refine ⟨?_, fun h => absurd h hnewer⟩
    rintro ⟨newest, c', hrun', -, -⟩
    obtain ⟨outcome, c₂, front, rest, hloop, -, -, -, hend⟩ :=
      applyPending_did scripts versions migrations c₁ hsame.foreignKeys
    rw [hrun, hloop] at hrun'
    cases hrun'
    simp at hend

end Run

section Resume

variable {σ : Type}

/-- Runs one after another, each on a connection of its own, and the versions they apply. -/
def migrateRuns (scripts : Scripts σ) :
    List ((Nat → Bool) × Scan String) → StampedDb σ → StampedDb σ × List String
  | [], db => (db, [])
  | (faults, scan) :: attempts, db =>
    let c := ((migrate scripts).run (.opened db faults scan)).2
    let later := migrateRuns scripts attempts c.db
    (later.1, c.applied ++ later.2)

/-- Whatever happens in them, the runs together apply a front part of what was pending. -/
theorem migrateRuns_did (scripts : Scripts σ) (attempts : List ((Nat → Bool) × Scan String))
    (db : StampedDb σ) :
    ∃ front, db.pending = front ++ (migrateRuns scripts attempts db).1.pending ∧
      advance scripts front db.withStamps = some (migrateRuns scripts attempts db).1.withStamps ∧
      (migrateRuns scripts attempts db).2 = front.map Migration.version := by
  induction attempts generalizing db with
  | nil => exact ⟨[], rfl, rfl, rfl⟩
  | cons attempt attempts ih =>
    obtain ⟨faults, scan⟩ := attempt
    obtain ⟨outcome, c, front, rest, hrun, hsplit, hadvance, happlied, -⟩ :=
      migrate_did scripts db faults scan
    obtain ⟨front', hsplit', hadvance', happlied'⟩ := ih c.db
    have hrest : c.db.pending = rest := by
      rw [← pending_withStamps]
      exact (pending_advance hsplit hadvance).1
    rw [migrateRuns, hrun]
    refine ⟨front ++ front', ?_, ?_, ?_⟩
    · rw [hsplit, ← hrest, hsplit', List.append_assoc]
    · rw [advance_append, hadvance]
      exact hadvance'
    · rw [happlied, happlied', List.map_append]

/-- Inspection says in advance what migration does: it refuses a database exactly if it has a
newer stamp, and otherwise applies the pending versions in order, so that none is pending. Runs
that stop anywhere, followed by one that ends normally, apply each of them once and end with
the database of one undisturbed run. -/
theorem schema_inspection_predicts_migration (scripts : Scripts σ) (db : StampedDb σ)
    {faults : Nat → Bool} {scan : Scan String} {status : SchemaStatus} {c : StartupConn σ}
    (hinspect : (inspectSchema scripts).run (.opened db faults scan) = (.ok status, c)) :
    (∀ faults scan, (∀ i < 3, faults i = false) → (status.newerThanBinary = true ↔
      ∃ newest c', (migrate scripts).run (.opened db faults scan) =
        (.error (.startupFailed (newerMessage newest)), c') ∧ c'.applied = [] ∧ c'.db = db)) ∧
    (∀ faults scan c', (migrate scripts).run (.opened db faults scan) = (.ok (), c') →
      status.newerThanBinary = false ∧ c'.applied = status.pending ∧
      ∀ faults scan status' c'',
        (inspectSchema scripts).run (.opened c'.db faults scan) = (.ok status', c'') →
          status'.pending = [] ∧ status'.newerThanBinary = false) ∧
    (∀ attempts faults scan c', (migrate scripts).run
        (.opened (migrateRuns scripts attempts db).1 faults scan) = (.ok (), c') →
      (migrateRuns scripts attempts db).2 ++ c'.applied = status.pending ∧ status.pending.Nodup ∧
      ∀ scan, ∃ c'', (migrate scripts).run (.opened db (fun _ => false) scan) = (.ok (), c'') ∧
        c''.applied = status.pending ∧ c''.db = c'.db) := by
  obtain ⟨hpending, hnewer, -⟩ := inspectSchema_ok hinspect
  replace hpending : status.pending = db.pending.map Migration.version := hpending
  replace hnewer : status.newerThanBinary = true ↔ db.Newer := hnewer
  refine ⟨fun faults scan hquiet => ?_, fun faults scan c' hrun => ?_,
    fun attempts faults scan c' hrun => ?_⟩
  · rw [hnewer, migrate_refuses_iff scripts scan hquiet]
  · obtain ⟨hadvance, happlied, hbelow⟩ := migrate_ok hrun
    obtain ⟨hnone, hnewer'⟩ := pending_advance (List.append_nil _).symm hadvance
    refine ⟨Bool.eq_false_iff.mpr (mt hnewer.mp hbelow), happlied.trans hpending.symm,
      fun faults scan status' c'' h => ?_⟩
    obtain ⟨hpending', hnewer'', -⟩ := inspectSchema_ok h
    refine ⟨?_, Bool.eq_false_iff.mpr fun habove => hbelow (hnewer'.mp (hnewer''.mp habove))⟩
    rw [hpending']
    exact congrArg (List.map Migration.version) hnone
  · obtain ⟨front, hsplit, hadvance, happlied⟩ := migrateRuns_did scripts attempts db
    obtain ⟨hadvance', happlied', hbelow⟩ := migrate_ok hrun
    have hbelow₀ : ¬db.Newer := by
      rwa [← (pending_advance hsplit hadvance).2, newer_withStamps]
    have hall : advance scripts db.pending db.withStamps = some c'.db := by
      rw [hsplit, advance_append, hadvance, Option.bind_some, hadvance']
    refine ⟨?_, ?_, fun scan => ?_⟩
    · rw [happlied, happlied', hpending, ← List.map_append, ← hsplit]
    · rw [hpending]
      exact nodup_pending db
    · obtain ⟨c'', hquiet, hdb, happlied''⟩ := migrate_of_quiet scan hbelow₀ hall
      exact ⟨c'', hquiet, happlied''.trans hpending.symm, hdb⟩

/-- Scripts that only count how often one is run. -/
def countingScripts : Scripts Nat where
  execute _ _ count := some (count + 1)
  hasTable _ _ := false

theorem interrupted_migration_resumes :
    (migrateRuns countingScripts [(fun i => i == 4, .inOrder)] ⟨none, 0⟩).2 = ["000"] ∧
    ∃ c', (migrate countingScripts).run
        (.opened (migrateRuns countingScripts [(fun i => i == 4, .inOrder)] ⟨none, 0⟩).1
          (fun _ => false) .inOrder) = (.ok (), c') ∧
      "000" :: c'.applied = ["000", "001", "002", "003", "004", "005"] := by
  have hinspect : (inspectSchema countingScripts).run
      (.opened ⟨none, 0⟩ (fun _ => false) .inOrder) =
      (.ok ⟨"005", [], ["000", "001", "002", "003", "004", "005"], false, false⟩, _) := rfl
  have hresumes := (schema_inspection_predicts_migration countingScripts ⟨none, 0⟩ hinspect).2.2
  have hrun : ((migrate countingScripts).run
      (.opened (migrateRuns countingScripts [(fun i => i == 4, .inOrder)] ⟨none, 0⟩).1
        (fun _ => false) .inOrder)).1 = .ok () := by decide +kernel
  exact ⟨by decide +kernel, _, Prod.ext hrun rfl, (hresumes _ _ _ _ (Prod.ext hrun rfl)).1⟩

end Resume

end OtelSqlite.Sqlite
