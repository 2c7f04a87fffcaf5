import OtelSqlite.Sqlite.Resume

/-!
# Retention deletes exactly the expired events

The cutoff of `prune` saturates twice: a window too long for an `i64` becomes the longest
one, and the difference does not fall below the smallest `i64`. With a clock and timestamps
that are not negative neither changes which events are older than the window. Which rows a
batch picks is left to the scan; the loop ends when no expired event is left.
-/

namespace OtelSqlite.Sqlite

open OtelSqlite.Lib OtelSqlite.Lib.Fallible OtelSqlite.Storage

/-- The event is older than the window, over the integers. Without a window none is. -/
def olderThan (window : Option Nat) (now : Int) (event : Event) : Bool :=
  window.any fun (w : Nat) => event.row.timestampNs < now - (w : Int)

theorem lt_retentionCutoff_iff {now timestamp : Int} (window : Nat) (hnow : 0 ≤ now)
    (hmax : now ≤ i64Max) (htimestamp : 0 ≤ timestamp) :
    timestamp < retentionCutoff now window ↔ timestamp < now - window := by
  simp only [retentionCutoff, i64Max, i64Min] at *
  omega

section Report

variable {c : Conn}

theorem run_sweepAfter_of_none (deleted : Nat) (h : c.answers.transactions 0 = none) :
    ∃ resources c', (sweepAfter deleted).run c = (.ok resources, c') := by
  unfold sweepAfter
  split
  · exact ⟨_, _, run_transaction_of_none h⟩
  · exact ⟨0, c, rfl⟩

/-- A prune whose transactions commit ends and reports the expired events. -/
theorem run_prune_commits (c : Conn) (window : Nat) (now : Int)
    (h : ∀ i ≤ expired (retentionCutoff now window) c.db / pruneBatchRows + 1,
      c.answers.transactions i = none) :
    ∃ resources c', (prune (some window) now).run c =
      (.ok ⟨expired (retentionCutoff now window) c.db, resources⟩, c') := by
  obtain ⟨c₁, hloop, hnext, -, -⟩ := pruneLoop_commits (retentionCutoff now window) 0 _ c rfl
    fun i hi => h i (Nat.le_succ_of_le hi)
  rw [Nat.zero_add] at hloop
  obtain ⟨resources, c₂, hsweep⟩ := run_sweepAfter_of_none
    (expired (retentionCutoff now window) c.db) (hnext.trans (h _ le_rfl))
  refine ⟨resources, c₂, ?_⟩
  rw [prune, run_bind_of_ok hloop, run_bind_of_ok hsweep, run_pure]

end Report

section Exact

variable {db : Database} {now : Int} {window : Nat}

theorem expired_eq_countP (window : Nat) (hnow : 0 ≤ now) (hmax : now ≤ i64Max)
    (htimes : ∀ row ∈ db.logEvent.rows, 0 ≤ row.2.row.timestampNs) :
    expired (retentionCutoff now window) db =
      db.logEvent.rows.countP fun row => olderThan (some window) now row.2 := by
  apply List.countP_congr
  intro row hrow
  simp only [olderThan, Option.any_some, decide_eq_true_eq]
  exact lt_retentionCutoff_iff window hnow hmax (htimes row hrow)

theorem find?_unexpired_iff (hnow : 0 ≤ now) (hmax : now ≤ i64Max)
    (htimes : ∀ row ∈ db.logEvent.rows, 0 ≤ row.2.row.timestampNs) {id : Int} {event : Event} :
    (unexpired (retentionCutoff now window) db).find? id = some event ↔
      db.logEvent.find? id = some event ∧ olderThan (some window) now event = false := by
  rw [unexpired, Table.find?_filter_eq_some_iff]
  refine and_congr_right fun hfind => ?_
  have htime := htimes (id, event) (Table.find?_eq_some_iff.mp hfind)
  have hcutoff := lt_retentionCutoff_iff window hnow hmax htime
  simp [olderThan, hcutoff]

theorem survives_iff_exists {cutoff : Int} {id : String} : survives cutoff db id = true ↔
    ∃ eventId event, (unexpired cutoff db).find? eventId = some event ∧
      event.row.resourceId = id := by
  simp only [survives, List.any_eq_true, decide_eq_true_eq, Prod.exists, Table.find?_eq_some_iff]

end Exact

/-- `prune` ends; an event is gone afterwards exactly if it is older than the window; the
report counts these events; and resources are swept exactly behind a deletion. -/
theorem retention_deletes_exactly_expired (db : Database) (autoVacuum : Int) (answers : Answers)
    (scan : Scan (Int × Event)) (window : Option Nat) (now : Int) (hnow : 0 ≤ now)
    (hmax : now ≤ i64Max) (htimes : ∀ row ∈ db.logEvent.rows, 0 ≤ row.2.row.timestampNs) :
    ∃ report c', (prune window now).run (.start db autoVacuum answers.committing scan) =
        (.ok report, c') ∧
      (∀ id event, c'.db.logEvent.find? id = some event ↔
        db.logEvent.find? id = some event ∧ olderThan window now event = false) ∧
      report.logEvents = (db.logEvent.rows.countP fun row => olderThan window now row.2) ∧
      (0 < report.logEvents → ∀ id row, c'.db.logResource.find? id = some row ↔
        db.logResource.find? id = some row ∧ ∃ eventId event,
          c'.db.logEvent.find? eventId = some event ∧ event.row.resourceId = id) ∧
      (report.logEvents = 0 → c'.db.logResource = db.logResource) := by
  cases window with
  | none =>
    refine ⟨⟨0, 0⟩, _, rfl, fun id event => ?_, ?_, fun h => absurd h (Nat.lt_irrefl 0),
      fun _ => rfl⟩
    · simp [olderThan, Conn.start]
    · simp [olderThan]
  | some w =>
    set c := Conn.start db autoVacuum answers.committing scan with hc
    obtain ⟨resources, c', hrun⟩ := run_prune_commits c w now fun _ _ => rfl
    obtain ⟨hevents, hresources⟩ := db_prune_commits c w now fun _ _ => rfl
    rw [hrun] at hevents hresources
    have hcount := expired_eq_countP w hnow hmax htimes
    refine ⟨_, c', hrun, fun id event => ?_, hcount, fun hdeleted id row => ?_, fun hnone => ?_⟩
    · rw [hevents]
      exact find?_unexpired_iff hnow hmax htimes
    · rw [hresources, hevents, sweptResources, if_neg (Nat.pos_iff_ne_zero.mp hdeleted),
        Table.find?_filter_eq_some_iff, survives_iff_exists]
      rfl
    · rw [hresources, sweptResources, if_pos hnone]
      rfl

/-- The one old record goes and takes its resource with it, for a window of five. -/
theorem retention_deletes_old_record :
    ∃ report c', (prune (some 5) 10).run (.start oneOldEvent 2 allWell.committing .inOrder) =
      (.ok report, c') ∧ report.logEvents = 1 := by
  obtain ⟨report, c', hrun, -, hcount, -⟩ := retention_deletes_exactly_expired oneOldEvent 2 allWell
    .inOrder (some 5) 10 (by decide) (by decide) (by decide +kernel)
  refine ⟨report, c', hrun, hcount.trans ?_⟩
  decide +kernel

end OtelSqlite.Sqlite
