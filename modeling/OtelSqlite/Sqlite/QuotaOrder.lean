import OtelSqlite.Lib.Logged
import OtelSqlite.Sqlite.Consistency
import OtelSqlite.Sqlite.Eviction

/-!
# Quota eviction is oldest first and bounded

`watchedQuota` is `enforce_size_quota` with two kinds of notes: each size of the main file
that is compared with the quota, and each batch that is evicted (the sizes read only for
the report are not compared with anything). A batch takes the oldest events there are, so
over all rounds an event that is left is never older than one that is gone.
-/

namespace OtelSqlite.Sqlite

open OtelSqlite.Lib OtelSqlite.Lib.Fallible OtelSqlite.Storage

inductive QuotaAct where
  | checked (size : Nat)
  | evicted (events : Nat)
  deriving DecidableEq, Repr

namespace QuotaAct

/-- A size reading within the quota. -/
def Fits (quota : Nat) : QuotaAct → Prop
  | .checked size => size ≤ quota
  | .evicted _ => False

def eviction? : QuotaAct → Option Nat
  | .checked _ => none
  | .evicted events => some events

end QuotaAct

/-- The sizes of the batches evicted, in order. -/
def evictions (acts : List QuotaAct) : List Nat := acts.filterMap QuotaAct.eviction?

section Watched

abbrev WatchedUpkeep := Logged Conn FailureClass QuotaAct

def watchedRounds (quota : Nat) : Nat → Nat → WatchedUpkeep Nat
  | 0, evicted => pure evicted
  | rounds + 1, evicted => do
    let size ← .lift fileSize
    .note (.checked size)
    if size ≤ quota then pure evicted
    else do
      let deleted ← .lift pruneOldestBatch
      .note (.evicted deleted)
      if deleted = 0 then pure (evicted + deleted)
      else do
        let folded ← .lift reclaim
        if folded = false then pure (evicted + deleted)
        else watchedRounds quota rounds (evicted + deleted)

def watchedQuota (quota : Nat) : WatchedUpkeep QuotaReport := do
  let bytesBefore ← .lift databaseBytes
  let folded ← .lift tryCheckpointTruncate
  if folded = false then do
    let bytesAfter ← .lift databaseBytes
    return ⟨0, bytesBefore, bytesAfter⟩
  else do
    .lift ensureIncremental
    let logEvents ← watchedRounds quota maxQuotaRounds 0
    .lift (finishQuota bytesBefore logEvents)

theorem erase_watchedRounds (quota rounds evicted : Nat) :
    (watchedRounds quota rounds evicted).erase = quotaRounds quota rounds evicted := by
  induction rounds generalizing evicted with
  | zero => rfl
  | succ rounds ih =>
    simp only [watchedRounds, quotaRounds, Logged.erase_bind, Logged.erase_lift,
      Logged.erase_note, pure_bind, Logged.erase_ite, Logged.erase_pure, ih]

/-- Without its notes, the watched call is the call. -/
theorem erase_watchedQuota (quota : Nat) : (watchedQuota quota).erase = enforceSizeQuota quota := by
  simp only [watchedQuota, enforceSizeQuota, Logged.erase_bind, Logged.erase_lift,
    Logged.erase_ite, Logged.erase_pure, erase_watchedRounds]

end Watched

section Oldest

/-- The second database has lost a number of events, none of them younger than one that is
left, and nothing else. -/
structure LostOldest (db db' : Database) (events : Nat) : Prop where
  resources : db'.logResource = db.logResource
  kept : ∀ {id event}, db'.logEvent.find? id = some event → db.logEvent.find? id = some event
  oldest : ∀ {id event id' event'}, db'.logEvent.find? id = some event →
    db.logEvent.find? id' = some event' → db'.logEvent.find? id' = none →
      event'.row.timestampNs ≤ event.row.timestampNs
  count : db'.logEvent.rows.length + events = db.logEvent.rows.length

variable {db db' db'' : Database} {m n : Nat}

theorem LostOldest.refl (db : Database) : LostOldest db db 0 where
  resources := rfl
  kept h := h
  oldest _ hthere hgone := by rw [hthere] at hgone; cases hgone
  count := rfl

theorem LostOldest.trans (h : LostOldest db db' m) (h' : LostOldest db' db'' n) :
    LostOldest db db'' (m + n) where
  resources := h'.resources.trans h.resources
  kept hleft := h.kept (h'.kept hleft)
  oldest {id event id' event'} hleft hthere hgone := by
    cases hmid : db'.logEvent.find? id' with
    | none => exact h.oldest (h'.kept hleft) hthere hmid
    | some e =>
      obtain rfl := Option.some.inj ((h.kept hmid).symm.trans hthere)
      exact h'.oldest hleft hmid hgone
  count := by
    have hfirst := h.count
    have hsecond := h'.count
    omega

theorem find?_deleteIds_iff {ids : List Int} {id : Int} {event : Event} :
    (deleteIds ids db).1.logEvent.find? id = some event ↔
      db.logEvent.find? id = some event ∧ id ∉ ids := by
  rw [deleteIds, Database.find?_deleteEvents, decide_eq_false_iff_not]

/-- A row outside the batch is not older than one in it. -/
theorem le_of_notMem_oldestBatch (scan : Scan (Int × Event)) {row row' : Int × Event}
    (hrow : row ∈ db.logEvent.rows) (hleft : row.1 ∉ oldestBatch scan db)
    (hrow' : row' ∈ db.logEvent.rows) (hgone : row'.1 ∈ oldestBatch scan db) :
    row'.2.row.timestampNs ≤ row.2.row.timestampNs := by
  let older (a b : Int × Event) : Prop := a.2.row.timestampNs ≤ b.2.row.timestampNs
  let sorted := (scan.order db.logEvent.rows).insertionSort older
  have hperm : sorted.Perm db.logEvent.rows :=
    (List.perm_insertionSort _ _).trans (scan.perm _)
  have : Std.Total older := ⟨fun a b => Int.le_total _ _⟩
  have : IsTrans (Int × Event) older := ⟨fun _ _ _ => Int.le_trans⟩
  have hsorted : sorted.Pairwise older := List.pairwise_insertionSort older _
  rw [← List.take_append_drop pruneBatchRows sorted, List.pairwise_append] at hsorted
  refine hsorted.2.2 row' ?_ row ?_
  · obtain ⟨picked, hpicked, hid⟩ := List.mem_map.mp hgone
    rwa [← List.inj_on_of_nodup_map db.logEvent.nodup
      (hperm.mem_iff.mp (List.mem_of_mem_take hpicked)) hrow' hid]
  · have hmem := hperm.mem_iff.mpr hrow
    rw [← List.take_append_drop pruneBatchRows sorted, List.mem_append] at hmem
    exact hmem.resolve_left fun htake => hleft (List.mem_map_of_mem htake)

theorem lostOldest_deleteIds (scan : Scan (Int × Event)) (db : Database) :
    LostOldest db (deleteIds (oldestBatch scan db) db).1
      (min pruneBatchRows db.logEvent.rows.length) where
  resources := rfl
  kept h := (find?_deleteIds_iff.mp h).1
  oldest {id event id' event'} hleft hthere hgone := by
    obtain ⟨hrow, hid⟩ := find?_deleteIds_iff.mp hleft
    have hid' : id' ∈ oldestBatch scan db := by
      by_contra hnot
      rw [find?_deleteIds_iff.mpr ⟨hthere, hnot⟩] at hgone
      cases hgone
    exact le_of_notMem_oldestBatch scan (Table.find?_eq_some_iff.mp hrow) hid
      (Table.find?_eq_some_iff.mp hthere) hid'
  count := by
    rw [← deleteIds_oldestBatch scan db]
    exact length_deleteIds _ _

end Oldest

section Rounds

/-- What the loop does in a number of rounds. -/
structure RoundsDid (quota rounds : Nat) (db db' : Database) (acts : List QuotaAct) : Prop where
  lost : LostOldest db db' (evictions acts).sum
  batches : (evictions acts).length ≤ rounds
  bounded : ∀ events ∈ evictions acts, events ≤ pruneBatchRows
  stops : acts.Pairwise fun a b => a.Fits quota → b.eviction? = none

variable {quota rounds size deleted : Nat} {db db' db'' : Database} {acts : List QuotaAct}

theorem RoundsDid.nothing (quota rounds : Nat) (db : Database) : RoundsDid quota rounds db db [] :=
  ⟨.refl db, Nat.zero_le _, by simp [evictions], .nil⟩

theorem RoundsDid.checked (quota rounds : Nat) (db : Database) (size : Nat) :
    RoundsDid quota rounds db db [.checked size] :=
  ⟨.refl db, Nat.zero_le _, by simp [evictions, QuotaAct.eviction?], List.pairwise_singleton _ _⟩

/-- A round that evicts, and the rounds behind it. -/
theorem RoundsDid.round (hsize : ¬size ≤ quota) (hbatch : deleted ≤ pruneBatchRows)
    (h : LostOldest db db' deleted) (hrest : RoundsDid quota rounds db' db'' acts) :
    RoundsDid quota (rounds + 1) db db'' (.checked size :: .evicted deleted :: acts) where
  lost := h.trans hrest.lost
  batches := Nat.succ_le_succ hrest.batches
  bounded := List.forall_mem_cons.mpr ⟨hbatch, hrest.bounded⟩
  stops := by
    refine .cons (fun b _ hfits => absurd hfits hsize) (.cons (fun b _ hfits => ?_) hrest.stops)
    exact absurd hfits id

/-- The acts of a program are those of so many rounds, and it returns `evicted` and the
number of events it evicts. -/
def Counted (quota rounds evicted : Nat) (program : WatchedUpkeep Nat) (c : Conn) : Prop :=
  RoundsDid quota rounds c.db (program.run c).2.1.db (program.log c) ∧
    ∀ logEvents, (program.run c).1 = .ok logEvents →
      logEvents = evicted + (evictions (program.log c)).sum

theorem counted_pure (quota rounds evicted : Nat) (c : Conn) :
    Counted quota rounds evicted (pure evicted) c :=
  ⟨.nothing quota rounds c.db, fun _ h => (Except.ok.inj h).symm⟩

/-- A round behind its eviction. -/
theorem counted_reclaim {evicted : Nat} {next : WatchedUpkeep Nat} (c : Conn)
    (hnext : ∀ c, Counted quota rounds evicted next c) :
    Counted quota rounds evicted (do
      let folded ← .lift reclaim
      if folded = false then pure evicted else next) c := by
  obtain ⟨folded, c', hrun⟩ | ⟨failure, c', hrun⟩ := run_cases reclaim c
  · have hdb := keeps_db_reclaim.of_run hrun
    rw [Counted, Logged.log, Logged.run_lift_bind_of_ok hrun, ← hdb]
    split
    · exact counted_pure quota rounds evicted c'
    · exact hnext c'
  · have hdb := keeps_db_reclaim.of_run hrun
    rw [Counted, Logged.log, Logged.run_lift_bind_of_error hrun, ← hdb]
    exact ⟨.nothing quota rounds c'.db, fun _ h => by cases h⟩

theorem counted_watchedRounds (quota rounds evicted : Nat) (c : Conn) :
    Counted quota rounds evicted (watchedRounds quota rounds evicted) c := by
  induction rounds generalizing evicted c with
  | zero => exact counted_pure quota 0 evicted c
  | succ rounds ih =>
    have hsize : fileSize.run c = (.ok (c.answers.fileSizes 0), c.afterFileSize) := rfl
    rw [Counted, Logged.log, watchedRounds, Logged.run_lift_bind_of_ok hsize, Logged.run_note_bind]
    split_ifs with hfits
    · exact ⟨.checked quota (rounds + 1) c.db _, fun _ h => (Except.ok.inj h).symm⟩
    cases htx : c.answers.transactions 0 with
    | some failure =>
      rw [Logged.run_lift_bind_of_error (run_pruneOldestBatch_of_some (c := c.afterFileSize) htx)]
      exact ⟨.checked quota (rounds + 1) c.db _, fun _ h => by cases h⟩
    | none =>
      have hlost := lostOldest_deleteIds c.scan c.db
      have hbatch := Nat.min_le_left pruneBatchRows c.db.logEvent.rows.length
      have hevict : pruneOldestBatch.run c.afterFileSize =
          (.ok (min pruneBatchRows c.db.logEvent.rows.length), c.afterFileSize.afterEviction) :=
        run_pruneOldestBatch_of_none htx
      generalize min pruneBatchRows c.db.logEvent.rows.length = deleted at hlost hbatch hevict
      rw [Logged.run_lift_bind_of_ok hevict, Logged.run_note_bind]
      have hrest : Counted quota rounds (evicted + deleted) (do
          if deleted = 0 then pure (evicted + deleted)
          else do
            let folded ← .lift reclaim
            if folded = false then pure (evicted + deleted)
            else watchedRounds quota rounds (evicted + deleted)) c.afterFileSize.afterEviction := by
        split
        · exact counted_pure _ _ _ _
        · exact counted_reclaim _ (ih _)
      refine ⟨.round hfits hbatch hlost hrest.1, fun logEvents h => ?_⟩
      have hcount := hrest.2 logEvents h
      rw [hcount, Nat.add_assoc]
      rfl

end Rounds

section Call

variable {quota : Nat} {c c' : Conn}

theorem keeps_logEvent_finishQuota (bytesBefore logEvents : Nat) :
    Keeps (fun c : Conn => c.db.logEvent) (finishQuota bytesBefore logEvents) := by
  intro events
  have hsweep : Preserves (fun c : Conn => c.db.logEvent = events) (sweepAfter logEvents) := by
    unfold sweepAfter
    split
    · refine preserves_transaction (P := fun db => db.logEvent = events) sweep fun db hdb => ?_
      rw [sweep, collectOrphanDimensions_eq]
      exact hdb
    · exact .pure 0
  have hbytes : Preserves (fun c : Conn => c.db.logEvent = events) databaseBytes :=
    keeps_db_databaseBytes.preserves (Q := fun db => db.logEvent = events)
  exact hsweep.bind fun _ => hbytes.bind fun _ => .pure _

/-- Behind an eviction the call ends normally only after the sweep. -/
theorem db_finishQuota_of_ok {bytesBefore logEvents : Nat} {report : QuotaReport}
    (hevents : 0 < logEvents) (h : (finishQuota bytesBefore logEvents).run c = (.ok report, c')) :
    c'.db = c.db.collectOrphanDimensions := by
  rw [finishQuota, run_bind_ok_iff] at h
  obtain ⟨resources, c₁, hsweep, hrest⟩ := h
  obtain ⟨bytesAfter, c₂, hbytes, hreport⟩ := run_bind_ok_iff.mp hrest
  cases hreport
  rw [keeps_db_databaseBytes.of_run hbytes]
  rw [sweepAfter, if_pos hevents] at hsweep
  cases htx : c.answers.transactions 0 with
  | none =>
    rw [run_transaction_of_none htx] at hsweep
    cases hsweep
    rfl
  | some failure =>
    rw [run_transaction_of_some htx] at hsweep
    cases hsweep

/-- A call stops before its loop and changes nothing, or it is the loop and what follows. -/
theorem run_watchedQuota_cases (quota : Nat) (c : Conn) :
    (∃ outcome c', (watchedQuota quota).run c = (outcome, c', []) ∧ c'.db = c.db) ∨
      ∃ loop bytesBefore, LoopOf c loop ∧ (c.answers.checkpoints 0).reported = true ∧
        (watchedQuota quota).run c = (do
          let logEvents ← watchedRounds quota maxQuotaRounds 0
          .lift (finishQuota bytesBefore logEvents) : WatchedUpkeep QuotaReport).run loop := by
  rw [watchedQuota, Logged.run_lift_bind_of_ok run_databaseBytes,
    Logged.run_lift_bind_of_ok run_tryCheckpointTruncate]
  by_cases hreported : (c.answers.checkpoints 0).reported = true
  · have hnot : ¬(c.afterFileSize.afterWalSize.answers.checkpoints 0).reported = false := by
      show ¬(c.answers.checkpoints 0).reported = false
      rw [hreported]
      exact Bool.noConfusion
    rw [if_neg hnot]
    by_cases hconverted : c.autoVacuum = incrementalAutoVacuum ∨ c.answers.conversions 0 = none
    · obtain ⟨loop, hloop, hrun⟩ := loopOf_ensureIncremental hconverted
      rw [Logged.run_lift_bind_of_ok hrun]
      exact .inr ⟨loop, _, hloop, hreported, rfl⟩
    · obtain ⟨failure, c', -, hrun⟩ := run_ensureIncremental_of_failure
        (c := c.afterFileSize.afterWalSize.afterCheckpoint) hconverted
      have hdb := keeps_db_ensureIncremental.of_run hrun
      rw [Logged.run_lift_bind_of_error hrun]
      exact .inl ⟨_, c', rfl, hdb⟩
  · have hfailed : (c.afterFileSize.afterWalSize.answers.checkpoints 0).reported = false :=
      Bool.eq_false_of_not_eq_true hreported
    rw [if_pos hfailed, Logged.run_lift_bind_of_ok run_databaseBytes]
    exact .inl ⟨_, _, rfl, rfl⟩

/-- The outcome of a call with its acts: the rounds did them, events went in no other way,
and behind an eviction a normal end means that the orphans are swept. -/
structure QuotaDid (quota : Nat) (c c' : Conn) (outcome : Except FailureClass QuotaReport)
    (acts : List QuotaAct) : Prop where
  rounds : ∃ db, RoundsDid quota maxQuotaRounds c.db db acts ∧ c'.db.logEvent = db.logEvent
  swept : ∀ report, outcome = .ok report → 0 < (evictions acts).sum →
    ∃ db : Database, c'.db = db.collectOrphanDimensions

theorem quotaDid_watchedQuota (quota : Nat) (c : Conn) :
    QuotaDid quota c ((watchedQuota quota).run c).2.1 ((watchedQuota quota).run c).1
      ((watchedQuota quota).log c) := by
  rw [Logged.log]
  obtain ⟨outcome, c', hrun, hdb⟩ | ⟨loop, bytesBefore, hloop, -, hrun⟩ :=
    run_watchedQuota_cases quota c
  · rw [hrun]
    refine ⟨⟨c.db, .nothing _ _ _, congrArg Database.logEvent hdb⟩, fun report _ hsum => ?_⟩
    exact absurd hsum (Nat.lt_irrefl 0)
  · have hcounted := counted_watchedRounds quota maxQuotaRounds 0 loop
    rw [Counted, Logged.log, hloop.db] at hcounted
    rw [hrun]
    rcases hrounds : (watchedRounds quota maxQuotaRounds 0).run loop with ⟨failure | n, c₁, acts⟩
    · rw [hrounds] at hcounted
      rw [Logged.run_bind_of_error hrounds]
      exact ⟨⟨c₁.db, hcounted.1, rfl⟩, fun _ h => by cases h⟩
    · rw [hrounds] at hcounted
      have hsum : n = 0 + (evictions acts).sum := hcounted.2 n rfl
      rw [Logged.run_bind_of_ok hrounds, Logged.log_lift, List.append_nil]
      refine ⟨⟨c₁.db, hcounted.1, ?_⟩, fun report hok hpos => ⟨c₁.db, ?_⟩⟩
      · exact (keeps_logEvent_finishQuota bytesBefore n).of_run rfl
      · have hreport : (finishQuota bytesBefore n).run c₁ = (.ok report, _) := Prod.ext hok rfl
        rw [← Nat.zero_add (List.sum _), ← hsum] at hpos
        exact db_finishQuota_of_ok hpos hreport

/-- A checkpoint that fails, or a main file that fits behind it, ends the call. -/
theorem db_enforceSizeQuota_of_idle
    (h : (∃ failure, c.answers.checkpoints 0 = .failed failure) ∨ c.answers.fileSizes 1 ≤ quota) :
    ((enforceSizeQuota quota).run c).2.db = c.db := by
  rw [← erase_watchedQuota, Logged.run_erase]
  obtain ⟨outcome, c', hrun, hdb⟩ | ⟨loop, bytesBefore, hloop, hreported, hrun⟩ :=
    run_watchedQuota_cases quota c
  · rw [hrun]
    exact hdb
  · have hfits : c.answers.fileSizes 1 ≤ quota := by
      refine h.resolve_left fun ⟨failure, hfailed⟩ => ?_
      rw [hfailed] at hreported
      cases hreported
    have hrounds : (watchedRounds quota maxQuotaRounds 0).run loop =
        (.ok 0, loop.afterFileSize, [.checked (loop.answers.fileSizes 0)]) := by
      have hsize : fileSize.run loop = (.ok (loop.answers.fileSizes 0), loop.afterFileSize) := rfl
      rw [maxQuotaRounds, watchedRounds, Logged.run_lift_bind_of_ok hsize, Logged.run_note_bind,
        if_pos (by rw [hloop.fileSizes]; exact hfits)]
      rfl
    rw [hrun, Logged.run_bind_of_ok hrounds]
    exact hloop.db

end Call

/-- Of every call: a failed first checkpoint or a main file that then fits means that nothing
is deleted; no event that is left is older than one that was evicted; at most eight batches
of at most 5000 events are evicted, none of them behind a size that fits; and a call that
ends normally after an eviction leaves no resource without events. -/
theorem quota_eviction_oldest_first (db : Database) (autoVacuum : Int) (answers : Answers)
    (scan : Scan (Int × Event)) (quota : Nat) :
    let start := Conn.start db autoVacuum answers scan
    let outcome := ((enforceSizeQuota quota).run start).1
    let after := ((enforceSizeQuota quota).run start).2.db
    let acts := (watchedQuota quota).log start
    (watchedQuota quota).erase = enforceSizeQuota quota ∧
      ((∃ failure, answers.checkpoints 0 = .failed failure) ∨ answers.fileSizes 1 ≤ quota →
        after = db) ∧
      (∀ id event id' event', after.logEvent.find? id = some event →
        db.logEvent.find? id' = some event' → after.logEvent.find? id' = none →
          event'.row.timestampNs ≤ event.row.timestampNs) ∧
      after.logEvent.rows.length + (evictions acts).sum = db.logEvent.rows.length ∧
      (evictions acts).length ≤ 8 ∧ (∀ events ∈ evictions acts, events ≤ 5000) ∧
      (∀ before size rest, acts = before ++ .checked size :: rest → size ≤ quota →
        evictions rest = []) ∧
      (∀ report, outcome = .ok report → 0 < (evictions acts).sum →
        ∀ id ∈ after.logResource.keys, ∃ eventId event,
          after.logEvent.find? eventId = some event ∧ event.row.resourceId = id) := by
  intro start outcome after acts
  have hrun : (enforceSizeQuota quota).run start =
      (((watchedQuota quota).run start).1, ((watchedQuota quota).run start).2.1) := by
    rw [← erase_watchedQuota, Logged.run_erase]
  have hafter : after = ((watchedQuota quota).run start).2.1.db :=
    congrArg (fun r => r.2.db) hrun
  obtain ⟨⟨db', hdid, hevents⟩, hswept⟩ := quotaDid_watchedQuota quota start
  rw [← hafter] at hevents
  refine ⟨erase_watchedQuota quota, db_enforceSizeQuota_of_idle (c := start), ?_, ?_, hdid.batches,
    hdid.bounded, ?_, ?_⟩
  · intro id event id' event' hleft hthere hgone
    rw [hevents] at hleft hgone
    exact hdid.lost.oldest hleft hthere hgone
  · rw [hevents]
    exact hdid.lost.count
  · intro before size rest hacts hfits
    have hstops : acts.Pairwise fun a b => a.Fits quota → b.eviction? = none := hdid.stops
    rw [hacts, List.pairwise_append, List.pairwise_cons] at hstops
    exact List.filterMap_eq_nil_iff.mpr fun act hact => hstops.2.1.1 act hact hfits
  · intro report hok hsum id hid
    obtain ⟨swept, hcollected⟩ := hswept report (by rw [← hok]; exact (congrArg Prod.fst hrun).symm)
      hsum
    rw [← hafter, collectOrphanDimensions_eq] at hcollected
    rw [hcollected] at hid ⊢
    obtain ⟨row, hrow⟩ := Table.mem_keys_iff.mp hid
    have hreferenced := (Table.find?_filter_eq_some_iff.mp hrow).2
    simp only [Database.referenced, List.any_eq_true, decide_eq_true_eq] at hreferenced
    obtain ⟨event, hevent, hresource⟩ := hreferenced
    exact ⟨event.1, event.2, Table.find?_eq_some_iff.mpr hevent, hresource⟩

end OtelSqlite.Sqlite
