import OtelSqlite.Sqlite.Consistency

/-!
# Pruning again after an interruption

`prune` deletes expired events batch by batch and sweeps orphaned resources behind the
deletions of the same call. Deleting a batch leaves the unexpired events and all resources
alone, so a stopped prune differs from the database before it only in the number of
expired events that are left; the resumed prune sweeps exactly if one is left.
-/

namespace OtelSqlite.Sqlite

open OtelSqlite.Lib OtelSqlite.Lib.Fallible OtelSqlite.Storage

/-- The number of events that the retention window no longer covers. -/
def expired (cutoff : Int) (db : Database) : Nat :=
  db.logEvent.rows.countP fun row => row.2.row.timestampNs < cutoff

def unexpired (cutoff : Int) (db : Database) : Table Int Event :=
  db.logEvent.filter fun _ event => !decide (event.row.timestampNs < cutoff)

/-- An unexpired event refers to the resource. -/
def survives (cutoff : Int) (db : Database) (id : String) : Bool :=
  (unexpired cutoff db).rows.any fun row => decide (row.2.row.resourceId = id)

/-- The resources behind a prune that is not interrupted. -/
def sweptResources (cutoff : Int) (db : Database) : Table String ResourceRow :=
  if expired cutoff db = 0 then db.logResource
  else db.logResource.filter fun id _ => survives cutoff db id

/-- The second database has lost some expired events and nothing else. -/
structure Pruned (cutoff : Int) (db db' : Database) : Prop where
  resources : db'.logResource = db.logResource
  unexpired : unexpired cutoff db' = unexpired cutoff db

variable {cutoff : Int} {db db' db'' : Database}

theorem Pruned.refl (cutoff : Int) (db : Database) : Pruned cutoff db db := ⟨rfl, rfl⟩

theorem Pruned.trans (h : Pruned cutoff db db') (h' : Pruned cutoff db' db'') :
    Pruned cutoff db db'' :=
  ⟨h'.resources.trans h.resources, h'.unexpired.trans h.unexpired⟩

theorem Pruned.survives (h : Pruned cutoff db db') (id : String) :
    survives cutoff db' id = survives cutoff db id := by
  rw [Sqlite.survives, Sqlite.survives, h.unexpired]

theorem logEvent_eq_unexpired (h : expired cutoff db = 0) : db.logEvent = unexpired cutoff db := by
  symm
  apply Table.filter_eq_self
  intro id event hevent
  have hrow := List.countP_eq_zero.mp h (id, event) (Table.find?_eq_some_iff.mp hevent)
  simpa using hrow

theorem expired_eq_zero_of_logEvent (h : db'.logEvent = unexpired cutoff db) :
    expired cutoff db' = 0 := by
  rw [expired, h, List.countP_eq_zero]
  intro row hrow
  simpa using (List.mem_filter.mp hrow).2

section Batch

variable (cutoff : Int) (db : Database) (scan : Scan (Int × Event))

theorem deleteIds_expiredBatch :
    (deleteIds (expiredBatch scan cutoff db) db).2 = min pruneBatchRows (expired cutoff db) := by
  have hcount : expired cutoff db =
      ((scan.order db.logEvent.rows).filter fun row => row.2.row.timestampNs < cutoff).length := by
    rw [expired, ← (scan.perm db.logEvent.rows).countP_eq, List.countP_eq_length_filter]
  rw [hcount, ← List.length_take]
  apply Table.countP_picked
  refine ((List.take_sublist _ _).trans List.filter_sublist).subperm.trans ?_
  exact (scan.perm _).subperm

/-- A batch holds expired events only, so the others stay. -/
theorem pruned_deleteIds : Pruned cutoff db (deleteIds (expiredBatch scan cutoff db) db).1 := by
  refine ⟨rfl, ?_⟩
  have hbatch : ∀ row ∈ db.logEvent.rows, row.1 ∈ expiredBatch scan cutoff db →
      row.2.row.timestampNs < cutoff := by
    intro row hrow hid
    obtain ⟨row', hrow', hsame⟩ := List.mem_map.mp hid
    obtain ⟨hmem, hexpired⟩ := List.mem_filter.mp (List.mem_of_mem_take hrow')
    rw [← List.inj_on_of_nodup_map db.logEvent.nodup ((scan.perm _).mem_iff.mp hmem) hrow hsame]
    exact of_decide_eq_true hexpired
  have hrows : ((db.logEvent.rows.filter fun row => !decide (row.1 ∈ expiredBatch scan cutoff db)).filter
      fun row => !decide (row.2.row.timestampNs < cutoff)) =
      db.logEvent.rows.filter fun row => !decide (row.2.row.timestampNs < cutoff) := by
    rw [List.filter_filter]
    apply List.filter_congr
    intro row hrow
    by_cases hid : row.1 ∈ expiredBatch scan cutoff db
    · simp [hbatch row hrow hid]
    · simp [hid]
  simp only [unexpired, deleteIds, Database.deleteEvents, Table.filter, hrows]

theorem expired_add_length_unexpired :
    expired cutoff db + (unexpired cutoff db).rows.length = db.logEvent.rows.length := by
  have hrows := List.length_eq_length_filter_add
    (fun row : Int × Event => decide (row.2.row.timestampNs < cutoff)) (l := db.logEvent.rows)
  rw [hrows, expired, List.countP_eq_length_filter]
  rfl

theorem expired_deleteIds :
    expired cutoff (deleteIds (expiredBatch scan cutoff db) db).1 =
      expired cutoff db - pruneBatchRows := by
  have hbefore := expired_add_length_unexpired cutoff db
  have hafter := expired_add_length_unexpired cutoff (deleteIds (expiredBatch scan cutoff db) db).1
  have hdeleted := length_deleteIds (expiredBatch scan cutoff db) db
  rw [(pruned_deleteIds cutoff db scan).unexpired] at hafter
  rw [deleteIds_expiredBatch] at hdeleted
  omega

end Batch

section Loop

variable {c : Conn} {failure : FailureClass}

/-- The connection behind a batch that committed. -/
def Conn.afterBatch (c : Conn) (cutoff : Int) : Conn :=
  { c.afterTransaction with db := (deleteIds (expiredBatch c.scan cutoff c.db) c.db).1 }

theorem pruned_afterBatch (c : Conn) (cutoff : Int) :
    Pruned cutoff c.db (c.afterBatch cutoff).db := pruned_deleteIds cutoff c.db c.scan

theorem expired_afterBatch (c : Conn) (cutoff : Int) :
    expired cutoff (c.afterBatch cutoff).db = expired cutoff c.db - pruneBatchRows :=
  expired_deleteIds cutoff c.db c.scan

theorem run_pruneBatch_of_none (cutoff : Int) (h : c.answers.transactions 0 = none) :
    (pruneBatch cutoff).run c =
      (.ok (min pruneBatchRows (expired cutoff c.db)), c.afterBatch cutoff) := by
  rw [← deleteIds_expiredBatch cutoff c.db c.scan]
  exact run_transaction_of_none h

theorem run_pruneBatch_of_some (cutoff : Int) (h : c.answers.transactions 0 = some failure) :
    (pruneBatch cutoff).run c = (.error failure, c.afterTransaction) :=
  run_transaction_of_some h

theorem pruneLoop_of_few (cutoff : Int) (logEvents : Nat) (h : c.answers.transactions 0 = none)
    (hfew : expired cutoff c.db < pruneBatchRows) :
    pruneLoop cutoff logEvents c =
      (.ok (logEvents + expired cutoff c.db), c.afterBatch cutoff) := by
  have hrun := run_pruneBatch_of_none cutoff h
  rw [Nat.min_eq_right hfew.le] at hrun
  exact pruneLoop_of_short hrun hfew

theorem pruneLoop_of_many (cutoff : Int) (logEvents : Nat) (h : c.answers.transactions 0 = none)
    (hmany : pruneBatchRows ≤ expired cutoff c.db) :
    pruneLoop cutoff logEvents c =
      pruneLoop cutoff (logEvents + pruneBatchRows) (c.afterBatch cutoff) := by
  have hrun := run_pruneBatch_of_none cutoff h
  rw [Nat.min_eq_left hmany] at hrun
  exact pruneLoop_of_full hrun (Nat.lt_irrefl _)

/-- The loop makes one transaction per full batch and one more. -/
theorem pruneLoop_commits (cutoff : Int) (logEvents batches : Nat) (c : Conn)
    (hbatches : expired cutoff c.db / pruneBatchRows = batches)
    (h : ∀ i ≤ batches, c.answers.transactions i = none) :
    ∃ c', pruneLoop cutoff logEvents c = (.ok (logEvents + expired cutoff c.db), c') ∧
      c'.answers.transactions 0 = c.answers.transactions (batches + 1) ∧
      Pruned cutoff c.db c'.db ∧ expired cutoff c'.db = 0 := by
  have hpruned := pruned_afterBatch c cutoff
  have hleft := expired_afterBatch c cutoff
  induction batches generalizing c logEvents with
  | zero =>
    have hfew : expired cutoff c.db < pruneBatchRows := by
      simp only [pruneBatchRows] at hbatches ⊢
      omega
    refine ⟨c.afterBatch cutoff, pruneLoop_of_few cutoff logEvents (h 0 le_rfl) hfew, rfl,
      hpruned, ?_⟩
    omega
  | succ batches ih =>
    have hmany : pruneBatchRows ≤ expired cutoff c.db := by
      simp only [pruneBatchRows] at hbatches ⊢
      omega
    have hrest : expired cutoff (c.afterBatch cutoff).db / pruneBatchRows = batches := by
      rw [hleft]
      simp only [pruneBatchRows] at hbatches ⊢
      omega
    obtain ⟨c', hloop, hnext, hpruned', hnone⟩ := ih (logEvents + pruneBatchRows)
      (c.afterBatch cutoff) hrest (fun i hi => h (i + 1) (Nat.succ_le_succ hi))
      (pruned_afterBatch _ _) (expired_afterBatch _ _)
    have hsum : logEvents + pruneBatchRows + (expired cutoff c.db - pruneBatchRows) =
        logEvents + expired cutoff c.db := by omega
    refine ⟨c', ?_, hnext, hpruned.trans hpruned', hnone⟩
    rw [pruneLoop_of_many cutoff logEvents (h 0 (Nat.zero_le _)) hmany, hloop, hleft, hsum]

/-- The loop stopped at a transaction has deleted a full batch in each one before it. -/
theorem pruneLoop_stops (cutoff : Int) (logEvents k : Nat) (c : Conn)
    (hk : k ≤ expired cutoff c.db / pruneBatchRows)
    (h : ∀ i < k, c.answers.transactions i = none)
    (hstop : c.answers.transactions k = some failure) :
    ∃ c', pruneLoop cutoff logEvents c = (.error failure, c') ∧ Pruned cutoff c.db c'.db ∧
      expired cutoff c'.db = expired cutoff c.db - pruneBatchRows * k := by
  induction k generalizing c logEvents with
  | zero =>
    exact ⟨c.afterTransaction, pruneLoop_of_error (run_pruneBatch_of_some cutoff hstop),
      .refl _ _, rfl⟩
  | succ k ih =>
    have hleft := expired_afterBatch c cutoff
    have hmany : pruneBatchRows ≤ expired cutoff c.db := by
      simp only [pruneBatchRows] at hk ⊢
      omega
    have hrest : k ≤ expired cutoff (c.afterBatch cutoff).db / pruneBatchRows := by
      rw [hleft]
      simp only [pruneBatchRows] at hk ⊢
      omega
    obtain ⟨c', hloop, hpruned, hcount⟩ := ih (logEvents + pruneBatchRows) (c.afterBatch cutoff)
      hrest (fun i hi => h (i + 1) (Nat.succ_lt_succ hi)) hstop
    refine ⟨c', ?_, (pruned_afterBatch c cutoff).trans hpruned, ?_⟩
    · rw [pruneLoop_of_many cutoff logEvents (h 0 (Nat.succ_pos k)) hmany, hloop]
    · rw [hcount, hleft, Nat.mul_succ]
      omega

end Loop

namespace Answers

/-- Every transaction commits. -/
def committing (answers : Answers) : Answers := { answers with transactions := fun _ => none }

/-- The first `k` transactions commit and the operation is stopped at the next one. -/
def stoppedAt (answers : Answers) (k : Nat) (failure : FailureClass) : Answers :=
  { answers with transactions := fun i => if i < k then none else some failure }

end Answers

section Prune

variable {c : Conn} {window : Nat} {now : Int} {failure : FailureClass}

theorem db_sweepAfter_of_pos {deleted : Nat} (hdeleted : 0 < deleted)
    (h : c.answers.transactions 0 = none) :
    ((sweepAfter deleted).run c).2.db = c.db.collectOrphanDimensions := by
  rw [sweepAfter, if_pos hdeleted, run_transaction_of_none h]
  rfl

/-- Behind the loop, `prune` only sweeps. -/
theorem db_prune_of_ok {logEvents : Nat} {c' : Conn}
    (h : pruneLoop (retentionCutoff now window) 0 c = (.ok logEvents, c')) :
    ((prune (some window) now).run c).2.db = ((sweepAfter logEvents).run c').2.db := by
  rw [prune, run_bind_of_ok h]
  obtain ⟨a, s, hsweep⟩ | ⟨e, s, hsweep⟩ := run_cases (sweepAfter logEvents) c'
  · rw [run_bind_of_ok hsweep, hsweep]
    rfl
  · rw [run_bind_of_error hsweep, hsweep]

/-- A prune that reaches its end keeps the unexpired events and, if it deleted any event,
the resources they refer to. -/
theorem db_prune_commits (c : Conn) (window : Nat) (now : Int)
    (h : ∀ i ≤ expired (retentionCutoff now window) c.db / pruneBatchRows + 1,
      c.answers.transactions i = none) :
    ((prune (some window) now).run c).2.db.logEvent =
        unexpired (retentionCutoff now window) c.db ∧
      ((prune (some window) now).run c).2.db.logResource =
        sweptResources (retentionCutoff now window) c.db := by
  obtain ⟨c', hloop, hnext, hpruned, hnone⟩ := pruneLoop_commits (retentionCutoff now window) 0 _ c
    rfl fun i hi => h i (Nat.le_succ_of_le hi)
  have hevents := (logEvent_eq_unexpired hnone).trans hpruned.unexpired
  rw [Nat.zero_add] at hloop
  rw [db_prune_of_ok hloop, sweptResources]
  by_cases hzero : expired (retentionCutoff now window) c.db = 0
  · rw [if_pos hzero, hzero]
    exact ⟨hevents, hpruned.resources⟩
  · have hsweep := db_sweepAfter_of_pos (Nat.pos_of_ne_zero hzero) (hnext.trans (h _ le_rfl))
    rw [if_neg hzero, hsweep, collectOrphanDimensions_eq]
    refine ⟨hevents, ?_⟩
    simp only [Database.referenced, hevents, hpruned.resources]
    rfl

/-- A prune that is stopped before its sweep committed has deleted full batches. -/
theorem db_prune_stops (c : Conn) (window : Nat) (now : Int) {k : Nat}
    (hk : k ≤ expired (retentionCutoff now window) c.db / pruneBatchRows + 1)
    (h : ∀ i < k, c.answers.transactions i = none)
    (hstop : c.answers.transactions k = some failure) :
    Pruned (retentionCutoff now window) c.db ((prune (some window) now).run c).2.db ∧
      expired (retentionCutoff now window) ((prune (some window) now).run c).2.db =
        expired (retentionCutoff now window) c.db - pruneBatchRows * k := by
  rcases Nat.lt_or_ge (expired (retentionCutoff now window) c.db / pruneBatchRows) k with hlast | hloop
  · -- every batch is deleted; the sweep is not made or fails
    obtain rfl : k = expired (retentionCutoff now window) c.db / pruneBatchRows + 1 := by omega
    obtain ⟨c', hloop, hnext, hpruned, hnone⟩ := pruneLoop_commits (retentionCutoff now window) 0 _ c
      rfl fun i hi => h i (Nat.lt_succ_of_le hi)
    have hsame : ((sweepAfter (0 + expired (retentionCutoff now window) c.db)).run c').2.db =
        c'.db := by
      rw [sweepAfter]
      split
      · rw [run_transaction_of_some (hnext.trans hstop)]
        rfl
      · rfl
    rw [db_prune_of_ok hloop, hsame]
    refine ⟨hpruned, hnone.trans ?_⟩
    simp only [pruneBatchRows]
    omega
  · obtain ⟨c', hloop, hpruned, hcount⟩ := pruneLoop_stops (retentionCutoff now window) 0 k c hloop h
      hstop
    have hrun : (prune (some window) now).run c = (.error failure, c') := by
      rw [prune, run_bind_of_error hloop]
    rw [hrun]
    exact ⟨hpruned, hcount⟩

end Prune

/-- Where a prune can be stopped so that the next one with the same cutoff makes up for it:
nothing is expired, expired events are left to delete, the sweep has been made, or every
resource has an unexpired event. -/
def ResumesCleanly (window : Option Nat) (now : Int) (db : Database) (k : Nat) : Prop :=
  ∀ w ∈ window,
    expired (retentionCutoff now w) db = 0 ∨
      pruneBatchRows * k < expired (retentionCutoff now w) db ∨
      expired (retentionCutoff now w) db / pruneBatchRows + 1 < k ∨
      ∀ id ∈ db.logResource.keys, survives (retentionCutoff now w) db id = true

/-- The sweep deletes nothing exactly if every resource has an unexpired event. -/
theorem filter_survives_iff (cutoff : Int) (db : Database) :
    (∀ id, db.logResource.find? id =
      (db.logResource.filter fun id _ => survives cutoff db id).find? id) ↔
      ∀ id ∈ db.logResource.keys, survives cutoff db id = true := by
  constructor
  · intro h id hid
    obtain ⟨row, hrow⟩ := Table.mem_keys_iff.mp hid
    exact (Table.find?_filter_eq_some_iff.mp ((h id).symm.trans hrow)).2
  · intro h id
    rw [Table.filter_eq_self fun id row hrow => h id (Table.mem_keys_iff.mpr ⟨row, hrow⟩)]

section Resume

variable (db : Database)

/-- The resources after a second prune, by the expired events that the first one left. -/
theorem sweptResources_of_pruned {stopped : Database} (h : Pruned cutoff db stopped) :
    sweptResources cutoff stopped =
      if expired cutoff stopped = 0 then db.logResource
      else db.logResource.filter fun id _ => survives cutoff db id := by
  simp only [sweptResources, h.resources, h.survives]

/-- A finished prune leaves nothing to do for the next one. -/
theorem pruned_again {done : Database} (h : done.logEvent = unexpired cutoff db) :
    unexpired cutoff done = done.logEvent ∧ sweptResources cutoff done = done.logResource := by
  have hnone := expired_eq_zero_of_logEvent h
  exact ⟨(logEvent_eq_unexpired hnone).symm, if_pos hnone⟩

/-- Stopped anywhere and run again, `prune` leaves what one run leaves, unless it was
stopped between its last deletion and its sweep and the sweep had something to do. -/
theorem prune_resumes_iff (db : Database) (now autoVacuum : Int) (first second whole : Answers)
    (scan scan' scan'' : Scan (Int × Event)) (k : Nat) (failure : FailureClass)
    (window : Option Nat) :
    let once := ((prune window now).run (.start db autoVacuum whole.committing scan)).2.db
    let stopped :=
      ((prune window now).run (.start db autoVacuum (first.stoppedAt k failure) scan')).2.db
    let resumed :=
      ((prune window now).run (.start stopped autoVacuum second.committing scan'')).2.db
    ((∀ id, resumed.logEvent.find? id = once.logEvent.find? id) ∧
      ∀ id, resumed.logResource.find? id = once.logResource.find? id) ↔
      ResumesCleanly window now db k := by
  intro once stopped resumed
  cases window with
  | none => exact iff_of_true ⟨fun _ => rfl, fun _ => rfl⟩ (by simp [ResumesCleanly])
  | some w =>
    set cutoff := retentionCutoff now w with hcutoff
    have honce : once.logEvent = unexpired cutoff db ∧
        once.logResource = sweptResources cutoff db :=
      db_prune_commits (.start db autoVacuum whole.committing scan) w now fun _ _ => rfl
    have hresumed : resumed.logEvent = unexpired cutoff stopped ∧
        resumed.logResource = sweptResources cutoff stopped :=
      db_prune_commits (.start stopped autoVacuum second.committing scan'') w now fun _ _ => rfl
    have hcommits : ∀ i < k, (first.stoppedAt k failure).transactions i = none :=
      fun i hi => if_pos hi
    rw [honce.1, honce.2, hresumed.1, hresumed.2]
    simp only [ResumesCleanly, Option.mem_some_iff, forall_eq', ← hcutoff]
    rcases Nat.lt_or_ge (expired cutoff db / pruneBatchRows + 1) k with hk | hk
    · -- the whole prune was made
      have hdone : stopped.logEvent = unexpired cutoff db ∧
          stopped.logResource = sweptResources cutoff db :=
        db_prune_commits (.start db autoVacuum (first.stoppedAt k failure) scan') w now
          fun i hi => hcommits i (Nat.lt_of_le_of_lt hi hk)
      obtain ⟨hevents, hresources⟩ := pruned_again db hdone.1
      rw [hevents, hresources, hdone.1, hdone.2]
      exact iff_of_true ⟨fun _ => rfl, fun _ => rfl⟩ (.inr (.inr (.inl hk)))
    · obtain ⟨hpruned, hleft⟩ : Pruned cutoff db stopped ∧
          expired cutoff stopped = expired cutoff db - pruneBatchRows * k :=
        db_prune_stops (.start db autoVacuum (first.stoppedAt k failure) scan') w now hk hcommits
          (if_neg (Nat.lt_irrefl k))
      rw [hpruned.unexpired, sweptResources_of_pruned db hpruned, hleft, sweptResources]
      by_cases hzero : expired cutoff db = 0
      · rw [if_pos hzero, if_pos (by omega)]
        exact iff_of_true ⟨fun _ => rfl, fun _ => rfl⟩ (.inl hzero)
      rw [if_neg hzero]
      by_cases hmore : pruneBatchRows * k < expired cutoff db
      · rw [if_neg (by omega)]
        exact iff_of_true ⟨fun _ => rfl, fun _ => rfl⟩ (.inr (.inl hmore))
      · -- nothing is left to delete, so the second prune does not sweep
        rw [if_pos (by omega), filter_survives_iff]
        constructor
        · intro h
          exact .inr (.inr (.inr h.2))
        · rintro (h | h | h | h)
          · exact absurd h hzero
          · exact absurd h hmore
          · exact absurd h (Nat.not_lt.mpr hk)
          · exact ⟨fun _ => rfl, h⟩

end Resume

section Sample

/-- A database with one record, inserted as any other. -/
def oneOldEvent : Database :=
  runCommands lengthDigest nextRowId
    [.insert poisonedSecond (sampleBatch "a" [sampleRecord 1 "old"]) false "2026-01-01"]

/-- The deletion commits and the sweep does not: the next prune deletes nothing and leaves
the orphan. -/
theorem stopped_before_sweep_keeps_orphan :
    let once := ((prune (some 5) 10).run (.start oneOldEvent 2 allWell.committing .inOrder)).2.db
    let stopped :=
      ((prune (some 5) 10).run (.start oneOldEvent 2 (allWell.stoppedAt 1 .fatal) .inOrder)).2.db
    let resumed := ((prune (some 5) 10).run (.start stopped 2 allWell.committing .inOrder)).2.db
    ¬((∀ id, resumed.logEvent.find? id = once.logEvent.find? id) ∧
      ∀ id, resumed.logResource.find? id = once.logResource.find? id) := by
  intro once stopped resumed h
  have hid := h.2 (resourceId lengthDigest ⟨none, "a"⟩)
  have hdiffer : resumed.logResource.find? (resourceId lengthDigest ⟨none, "a"⟩) ≠
      once.logResource.find? (resourceId lengthDigest ⟨none, "a"⟩) := by
    decide +kernel
  exact hdiffer hid

end Sample

end OtelSqlite.Sqlite
