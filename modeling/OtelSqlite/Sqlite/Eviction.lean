import OtelSqlite.Sqlite.Maintenance

/-!
# Eviction behind a blocked checkpoint

`enforce_size_quota` stops when a checkpoint fails, because the sizes it reads then say
nothing. A checkpoint that a reader blocks does not fail as a statement, and the loop goes
on. `EvictsInRound` says in terms of the answers alone when a round of the loop evicts.
-/

namespace OtelSqlite.Sqlite

open OtelSqlite.Lib OtelSqlite.Lib.Fallible OtelSqlite.Storage

variable {clean : Prop} {failure : FailureClass}

/-- What `try_checkpoint_truncate` makes of a result. -/
def CheckpointResult.reported : CheckpointResult → Bool
  | .failed _ => false
  | _ => true

/-- Every batch of events evicted had only completed checkpoints before it. -/
def NeverBlind (done : List Act) : Prop :=
  ∀ before ids after, done = before ++ .evicted ids :: after → ids ≠ [] →
    ∀ result, .checkpoint result ∈ before → result = .completed

/-- The same from the front of the log, with what is known of the checkpoints before it. -/
def Sound (clean : Prop) : List Act → Prop
  | [] => True
  | .checkpoint result :: log => Sound (clean ∧ result = .completed) log
  | .evicted ids :: log => (ids ≠ [] → clean) ∧ Sound clean log

theorem sound_iff {log : List Act} : Sound clean log ↔
    ∀ before ids after, log = before ++ .evicted ids :: after → ids ≠ [] →
      clean ∧ ∀ result, .checkpoint result ∈ before → result = .completed := by
  induction log generalizing clean with
  | nil => simp [Sound]
  | cons act log ih =>
    cases act with
    | checkpoint result =>
      rw [Sound, ih]
      constructor
      · intro h before ids after hlog hids
        obtain _ | ⟨act, before⟩ := before
        · cases hlog
        · obtain ⟨rfl, hrest⟩ := List.cons.inj hlog
          obtain ⟨⟨hclean, hresult⟩, hbefore⟩ := h before ids after hrest hids
          simpa [hresult] using ⟨hclean, hbefore⟩
      · intro h before ids after hlog hids
        obtain ⟨hclean, hbefore⟩ := h (.checkpoint result :: before) ids after
          (congrArg (List.cons _) hlog) hids
        exact ⟨⟨hclean, hbefore _ List.mem_cons_self⟩,
          fun r hr => hbefore r (List.mem_cons_of_mem _ hr)⟩
    | evicted ids =>
      rw [Sound, ih]
      constructor
      · rintro ⟨hids, h⟩ before ids' after hlog hids'
        obtain _ | ⟨act, before⟩ := before
        · cases hlog
          exact ⟨hids hids', by simp⟩
        · obtain ⟨rfl, hrest⟩ := List.cons.inj hlog
          obtain ⟨hclean, hbefore⟩ := h before ids' after hrest hids'
          simpa using ⟨hclean, hbefore⟩
      · intro h
        refine ⟨fun hids => (h [] ids log rfl hids).1, fun before ids' after hlog hids' => ?_⟩
        obtain ⟨hclean, hbefore⟩ := h (.evicted ids :: before) ids' after
          (congrArg (List.cons _) hlog) hids'
        exact ⟨hclean, fun r hr => hbefore r (List.mem_cons_of_mem _ hr)⟩

theorem neverBlind_iff_sound {done : List Act} : NeverBlind done ↔ Sound True done := by
  rw [sound_iff]
  simp [NeverBlind]

section Calls

variable {c : Conn}

theorem run_tryCheckpointTruncate :
    tryCheckpointTruncate.run c = (.ok (c.answers.checkpoints 0).reported, c.afterCheckpoint) := by
  rw [tryCheckpointTruncate, run_bind_of_ok run_attempt]
  simp only [checkpoint]
  cases c.answers.checkpoints 0 <;> rfl

theorem run_incrementalVacuum_of_none (h : c.answers.vacuums 0 = none) :
    incrementalVacuum.run c = (.ok (), c.afterVacuum) := by
  simp only [incrementalVacuum, h]

theorem run_incrementalVacuum_of_some (h : c.answers.vacuums 0 = some failure) :
    incrementalVacuum.run c = (.error failure, c.afterVacuum) := by
  simp only [incrementalVacuum, h]

theorem run_convertToIncrementalVacuum_of_none (h : c.answers.conversions 0 = none) :
    convertToIncrementalVacuum.run c =
      (.ok (), { c.afterConversion with autoVacuum := incrementalAutoVacuum }) := by
  simp only [convertToIncrementalVacuum, h]

theorem run_databaseBytes :
    databaseBytes.run c = (.ok (min (c.answers.fileSizes 0 + c.answers.walSizes 0) (2 ^ 64 - 1)),
      c.afterFileSize.afterWalSize) := rfl

end Calls

section Batch

theorem length_oldestBatch (scan : Scan (Int × Event)) (db : Database) :
    (oldestBatch scan db).length = min pruneBatchRows db.logEvent.rows.length := by
  rw [oldestBatch, List.length_map, List.length_take, List.length_insertionSort,
    (scan.perm _).length_eq]

/-- The statement deletes the whole batch it selected. -/
theorem deleteIds_oldestBatch (scan : Scan (Int × Event)) (db : Database) :
    (deleteIds (oldestBatch scan db) db).2 = min pruneBatchRows db.logEvent.rows.length := by
  rw [← length_oldestBatch scan db, oldestBatch, List.length_map]
  apply Table.countP_picked
  refine (List.take_sublist _ _).subperm.trans ?_
  exact ((List.perm_insertionSort _ _).trans (scan.perm _)).subperm

theorem length_rows_deleteIds_oldestBatch (scan : Scan (Int × Event)) (db : Database) :
    (deleteIds (oldestBatch scan db) db).1.logEvent.rows.length =
      db.logEvent.rows.length - pruneBatchRows := by
  have hrows := length_deleteIds (oldestBatch scan db) db
  rw [deleteIds_oldestBatch] at hrows
  omega

end Batch

section Rounds

/-- Round `k` of the loop evicts at least one event. -/
structure Evicts (quota : Nat) (c : Conn) (k : Nat) : Prop where
  overQuota : ∀ i ≤ k, quota < c.answers.fileSizes i
  committed : ∀ i ≤ k, c.answers.transactions i = none
  reclaimed : ∀ i < k, c.answers.vacuums i = none
  reported : ∀ j < 2 * k, (c.answers.checkpoints j).reported = true
  left : pruneBatchRows * k < c.db.logEvent.rows.length

namespace Conn

def afterEviction (c : Conn) : Conn :=
  { c.afterTransaction with
    db := (deleteIds (oldestBatch c.scan c.db) c.db).1
    done := c.done ++ [.evicted (oldestBatch c.scan c.db)] }

/-- Where a round ends that neither stops nor fails. -/
def afterRound (c : Conn) : Conn :=
  c.afterFileSize.afterEviction.afterCheckpoint.afterVacuum.afterCheckpoint

theorem done_afterRound (c : Conn) :
    c.afterRound.done = c.done ++ [.evicted (oldestBatch c.scan c.db),
      .checkpoint (c.answers.checkpoints 0), .checkpoint (c.answers.checkpoints 1)] := by
  show ((c.done ++ [.evicted (oldestBatch c.scan c.db)]) ++
    [.checkpoint (c.answers.checkpoints 0)]) ++ [.checkpoint (c.answers.checkpoints 1)] = _
  simp

theorem length_rows_afterRound (c : Conn) :
    c.afterRound.db.logEvent.rows.length = c.db.logEvent.rows.length - pruneBatchRows :=
  length_rows_deleteIds_oldestBatch c.scan c.db

end Conn

variable {quota : Nat} {c : Conn} {rounds : Nat}

theorem run_pruneOldestBatch_of_none (h : c.answers.transactions 0 = none) :
    pruneOldestBatch.run c =
      (.ok (min pruneBatchRows c.db.logEvent.rows.length), c.afterEviction) := by
  simp only [pruneOldestBatch, run_transaction_of_none h, deleteIds_oldestBatch]
  rfl

theorem run_pruneOldestBatch_of_some (h : c.answers.transactions 0 = some failure) :
    pruneOldestBatch.run c = (.error failure, c.afterTransaction) := by
  simp only [pruneOldestBatch, run_transaction_of_some h]

/-- The first round is the first one of every later one. -/
theorem evicts_succ_iff {k : Nat} : Evicts quota c (k + 1) ↔
    Evicts quota c 0 ∧ (c.answers.checkpoints 0).reported = true ∧ c.answers.vacuums 0 = none ∧
      (c.answers.checkpoints 1).reported = true ∧ Evicts quota c.afterRound k := by
  have hlength := c.length_rows_afterRound
  constructor
  · intro h
    have hleft := h.left
    rw [Nat.mul_succ] at hleft
    refine ⟨⟨fun i hi => h.overQuota i (by omega), fun i hi => h.committed i (by omega),
        fun i hi => h.reclaimed i (by omega), fun j hj => h.reported j (by omega), by omega⟩,
      h.reported 0 (by omega), h.reclaimed 0 (by omega), h.reported 1 (by omega),
      fun i hi => h.overQuota (i + 1) (by omega), fun i hi => h.committed (i + 1) (by omega),
      fun i hi => h.reclaimed (i + 1) (by omega), fun j hj => h.reported (j + 2) (by omega), ?_⟩
    omega
  · rintro ⟨hfirst, hr0, hvacuum, hr1, h⟩
    have hleft := h.left
    constructor
    · rintro (_ | i) hi
      · exact hfirst.overQuota 0 le_rfl
      · exact h.overQuota i (by omega)
    · rintro (_ | i) hi
      · exact hfirst.committed 0 le_rfl
      · exact h.committed i (by omega)
    · rintro (_ | i) hi
      · exact hvacuum
      · exact h.reclaimed i (by omega)
    · rintro (_ | _ | j) hj
      · exact hr0
      · exact hr1
      · exact h.reported j (by omega)
    · rw [Nat.mul_succ]
      omega

/-- A reported checkpoint completed unless it was blocked. -/
theorem CheckpointResult.eq_completed_iff {result : CheckpointResult}
    (h : result.reported = true) : result = .completed ↔ result ≠ .blocked := by
  cases result <;> simp_all [reported]

/-- No round evicts behind a blocked checkpoint, given what is known before the loop. -/
def Guarded (quota : Nat) (c : Conn) (rounds : Nat) (clean : Prop) : Prop :=
  ∀ k < rounds, Evicts quota c k → clean ∧ ∀ j < 2 * k, c.answers.checkpoints j ≠ .blocked

theorem guarded_of_not_evicts (h : ¬Evicts quota c 0) : Guarded quota c rounds clean := by
  rintro (_ | k) - hevicts
  · exact absurd hevicts h
  · exact absurd (evicts_succ_iff.mp hevicts).1 h

/-- A loop that evicts once and stops. -/
theorem guarded_of_single (hfirst : Evicts quota c 0)
    (hstop : ¬((c.answers.checkpoints 0).reported = true ∧ c.answers.vacuums 0 = none ∧
      (c.answers.checkpoints 1).reported = true)) : Guarded quota c (rounds + 1) clean ↔ clean := by
  refine ⟨fun h => (h 0 (by omega) hfirst).1, ?_⟩
  rintro hclean (_ | k) - hevicts
  · exact ⟨hclean, by simp⟩
  · obtain ⟨-, hr0, hvacuum, hr1, -⟩ := evicts_succ_iff.mp hevicts
    exact absurd ⟨hr0, hvacuum, hr1⟩ hstop

/-- A loop that evicts and goes on. -/
theorem guarded_succ_iff (hfirst : Evicts quota c 0)
    (hr0 : (c.answers.checkpoints 0).reported = true) (hvacuum : c.answers.vacuums 0 = none)
    (hr1 : (c.answers.checkpoints 1).reported = true) :
    Guarded quota c (rounds + 1) clean ↔ clean ∧ Guarded quota c.afterRound rounds
      ((clean ∧ c.answers.checkpoints 0 = .completed) ∧
        c.answers.checkpoints 1 = .completed) := by
  rw [CheckpointResult.eq_completed_iff hr0, CheckpointResult.eq_completed_iff hr1]
  constructor
  · intro h
    refine ⟨(h 0 (by omega) hfirst).1, fun k hk hevicts => ?_⟩
    obtain ⟨hclean, hblocked⟩ := h (k + 1) (by omega)
      (evicts_succ_iff.mpr ⟨hfirst, hr0, hvacuum, hr1, hevicts⟩)
    exact ⟨⟨⟨hclean, hblocked 0 (by omega)⟩, hblocked 1 (by omega)⟩,
      fun j hj => hblocked (j + 2) (by omega)⟩
  · rintro ⟨hclean, h⟩ (_ | k) hk hevicts
    · exact ⟨hclean, by simp⟩
    · obtain ⟨-, -, -, -, hevicts⟩ := evicts_succ_iff.mp hevicts
      obtain ⟨⟨⟨-, hb0⟩, hb1⟩, hblocked⟩ := h k (by omega) hevicts
      refine ⟨hclean, ?_⟩
      rintro (_ | _ | j) hj
      · exact hb0
      · exact hb1
      · exact hblocked j (by omega)

/-- A round that evicts nothing logs at most an empty batch. -/
theorem done_quotaRounds_of_not_evicts (rounds evicted : Nat) (h : ¬Evicts quota c 0) :
    ((quotaRounds quota (rounds + 1) evicted).run c).2.done = c.done ∨
      ((quotaRounds quota (rounds + 1) evicted).run c).2.done = c.done ++ [.evicted []] := by
  have hsize : fileSize.run c = (.ok (c.answers.fileSizes 0), c.afterFileSize) := rfl
  rw [quotaRounds, run_bind_of_ok hsize]
  split_ifs with hover
  · exact .inl rfl
  cases htx : c.answers.transactions 0 with
  | some failure =>
    rw [run_bind_of_error (run_pruneOldestBatch_of_some (c := c.afterFileSize) htx)]
    exact .inl rfl
  | none =>
    have hempty : c.db.logEvent.rows.length = 0 := by
      by_contra hrows
      refine h ⟨fun i hi => ?_, fun i hi => ?_, fun i hi => by omega, fun j hj => by omega,
        by omega⟩
      · rw [Nat.le_zero.mp hi]
        omega
      · rw [Nat.le_zero.mp hi, htx]
    have hids : oldestBatch c.scan c.db = [] :=
      List.length_eq_zero_iff.mp (by rw [length_oldestBatch, hempty, Nat.min_zero])
    rw [run_bind_of_ok (run_pruneOldestBatch_of_none (c := c.afterFileSize) htx)]
    have hdeleted : min pruneBatchRows c.afterFileSize.db.logEvent.rows.length = 0 := by
      show min pruneBatchRows c.db.logEvent.rows.length = 0
      rw [hempty, Nat.min_zero]
    rw [if_pos hdeleted]
    right
    show c.done ++ [.evicted (oldestBatch c.scan c.db)] = _
    rw [hids]

/-- A round that evicts goes on with the checkpoints. -/
theorem run_quotaRounds_of_evicts (rounds evicted : Nat) (h : Evicts quota c 0) :
    ∃ deleted, (quotaRounds quota (rounds + 1) evicted).run c = (do
      let folded ← reclaim
      if folded = false then pure (evicted + deleted)
      else quotaRounds quota rounds (evicted + deleted) : Upkeep Nat).run
        c.afterFileSize.afterEviction := by
  have hsize : fileSize.run c = (.ok (c.answers.fileSizes 0), c.afterFileSize) := rfl
  have hover := h.overQuota 0 le_rfl
  have hdeleted : ¬min pruneBatchRows c.afterFileSize.db.logEvent.rows.length = 0 := by
    have hleft : pruneBatchRows * 0 < c.afterFileSize.db.logEvent.rows.length := h.left
    simp only [pruneBatchRows]
    omega
  rw [quotaRounds, run_bind_of_ok hsize, if_neg (by omega),
    run_bind_of_ok (run_pruneOldestBatch_of_none (c := c.afterFileSize) (h.committed 0 le_rfl)),
    if_neg hdeleted]
  exact ⟨_, rfl⟩

theorem oldestBatch_ne_nil (h : Evicts quota c 0) : oldestBatch c.scan c.db ≠ [] := by
  intro hids
  have hlength := length_oldestBatch c.scan c.db
  have hleft := h.left
  rw [hids] at hlength
  simp only [pruneBatchRows, List.length_nil] at hlength hleft
  omega

theorem run_reclaim_of_continue (hr0 : (c.answers.checkpoints 0).reported = true)
    (hvacuum : c.answers.vacuums 0 = none) (hr1 : (c.answers.checkpoints 1).reported = true) :
    reclaim.run c = (.ok true, c.afterCheckpoint.afterVacuum.afterCheckpoint) := by
  rw [reclaim, run_bind_of_ok run_tryCheckpointTruncate, if_neg (by simp [hr0]),
    run_bind_of_ok (run_incrementalVacuum_of_none (c := c.afterCheckpoint) hvacuum),
    run_tryCheckpointTruncate]
  show (Except.ok (c.answers.checkpoints 1).reported, _) = _
  rw [hr1]

theorem run_reclaim_of_stop (hstop : ¬((c.answers.checkpoints 0).reported = true ∧
      c.answers.vacuums 0 = none ∧ (c.answers.checkpoints 1).reported = true)) :
    ∃ outcome c', reclaim.run c = (outcome, c') ∧ outcome ≠ .ok true ∧
      ∃ results : List CheckpointResult, c'.done = c.done ++ results.map Act.checkpoint := by
  rw [reclaim, run_bind_of_ok run_tryCheckpointTruncate]
  split_ifs with hr0
  · exact ⟨_, _, rfl, by simp, [c.answers.checkpoints 0], rfl⟩
  cases hvacuum : c.answers.vacuums 0 with
  | some failure =>
    rw [run_bind_of_error (run_incrementalVacuum_of_some (c := c.afterCheckpoint) hvacuum)]
    exact ⟨_, _, rfl, by simp, [c.answers.checkpoints 0], rfl⟩
  | none =>
    rw [run_bind_of_ok (run_incrementalVacuum_of_none (c := c.afterCheckpoint) hvacuum),
      run_tryCheckpointTruncate]
    refine ⟨_, _, rfl, ?_, [c.answers.checkpoints 0, c.answers.checkpoints 1], ?_⟩
    · intro hr1
      exact hstop ⟨by simpa using hr0, hvacuum, Except.ok.inj hr1⟩
    · exact List.append_assoc _ _ _

theorem sound_checkpoints (clean : Prop) (results : List CheckpointResult) :
    Sound clean (results.map .checkpoint) := by
  induction results generalizing clean with
  | nil => trivial
  | cons result results ih => exact ih _

/-- What the loop logs is sound exactly when no round evicts behind a blocked checkpoint. -/
theorem sound_quotaRounds_iff (quota rounds evicted : Nat) (c : Conn) (clean : Prop) :
    ∃ log, ((quotaRounds quota rounds evicted).run c).2.done = c.done ++ log ∧
      (Sound clean log ↔ Guarded quota c rounds clean) := by
  induction rounds generalizing evicted c clean with
  | zero => exact ⟨[], by simp [quotaRounds], iff_of_true trivial fun k hk => by omega⟩
  | succ rounds ih =>
    by_cases hfirst : Evicts quota c 0
    · have hids := oldestBatch_ne_nil hfirst
      obtain ⟨deleted, hrun⟩ := run_quotaRounds_of_evicts rounds evicted hfirst
      rw [hrun]
      by_cases hstop : (c.answers.checkpoints 0).reported = true ∧ c.answers.vacuums 0 = none ∧
          (c.answers.checkpoints 1).reported = true
      · obtain ⟨hr0, hvacuum, hr1⟩ := hstop
        obtain ⟨log, hlog, hsound⟩ := ih (evicted + deleted) c.afterRound
          ((clean ∧ c.answers.checkpoints 0 = .completed) ∧ c.answers.checkpoints 1 = .completed)
        rw [run_bind_of_ok (run_reclaim_of_continue (c := c.afterFileSize.afterEviction) hr0
          hvacuum hr1), if_neg (by simp)]
        refine ⟨.evicted (oldestBatch c.scan c.db) :: .checkpoint (c.answers.checkpoints 0) ::
          .checkpoint (c.answers.checkpoints 1) :: log, ?_, ?_⟩
        · refine hlog.trans ?_
          rw [c.done_afterRound]
          simp
        · rw [Sound, Sound, Sound, hsound, guarded_succ_iff hfirst hr0 hvacuum hr1]
          simp [hids]
      · obtain ⟨outcome, c', hreclaim, houtcome, results, hdone⟩ :=
          run_reclaim_of_stop (c := c.afterFileSize.afterEviction) hstop
        refine ⟨.evicted (oldestBatch c.scan c.db) :: results.map .checkpoint, ?_, ?_⟩
        · have hend : ((reclaim >>= fun folded =>
              if folded = false then pure (evicted + deleted)
              else quotaRounds quota rounds (evicted + deleted)).run
                c.afterFileSize.afterEviction).2 = c' := by
            cases outcome with
            | error failure => rw [run_bind_of_error hreclaim]
            | ok folded =>
              have hfolded : folded = false := by
                cases folded with
                | false => rfl
                | true => exact absurd rfl houtcome
              rw [run_bind_of_ok hreclaim, if_pos hfolded]
              rfl
          rw [hend, hdone]
          exact List.append_assoc c.done [.evicted (oldestBatch c.scan c.db)] _
        · rw [Sound, guarded_of_single hfirst hstop]
          simp [hids, sound_checkpoints]
    · have hguarded : Guarded quota c (rounds + 1) clean := guarded_of_not_evicts hfirst
      rcases done_quotaRounds_of_not_evicts rounds evicted hfirst with hdone | hdone
      · exact ⟨[], by rw [hdone, List.append_nil], iff_of_true trivial hguarded⟩
      · exact ⟨[.evicted []], hdone, iff_of_true ⟨fun h => absurd rfl h, trivial⟩ hguarded⟩

end Rounds

section Quota

variable {c loop : Conn}

/-- Round `k` of the eviction loop of a call evicts at least one event: no checkpoint before
it ends in an error, the file is read as over quota each time, and there are events left. -/
structure EvictsInRound (quota : Nat) (c : Conn) (k : Nat) : Prop where
  round : k < maxQuotaRounds
  converted : c.autoVacuum = incrementalAutoVacuum ∨ c.answers.conversions 0 = none
  overQuota : ∀ i ≤ k, quota < c.answers.fileSizes (i + 1)
  committed : ∀ i ≤ k, c.answers.transactions i = none
  reclaimed : ∀ i < k, c.answers.vacuums i = none
  reported : ∀ j ≤ 2 * k, (c.answers.checkpoints j).reported = true
  left : pruneBatchRows * k < c.db.logEvent.rows.length

section Keeps

variable {α : Type}

theorem keeps_done_transaction (statements : Database → Database × α) :
    Keeps Conn.done (transaction statements) := by
  rintro shown c rfl
  cases h : c.answers.transactions 0 with
  | none => rw [run_transaction_of_none h]; rfl
  | some failure => rw [run_transaction_of_some h]; rfl

theorem keeps_done_sweepAfter (deleted : Nat) : Keeps Conn.done (sweepAfter deleted) := by
  unfold sweepAfter
  split
  · exact keeps_done_transaction sweep
  · exact fun _ => .pure 0

theorem keeps_done_databaseBytes : Keeps Conn.done databaseBytes := by
  rintro shown c rfl
  rfl

theorem keeps_done_finishQuota (bytesBefore logEvents : Nat) :
    Keeps Conn.done (finishQuota bytesBefore logEvents) :=
  (keeps_done_sweepAfter logEvents).bind fun _ =>
    keeps_done_databaseBytes.bind fun _ _ => .pure _

end Keeps

/-- The loop starts one size reading and one checkpoint into the call. -/
structure LoopOf (c loop : Conn) : Prop where
  db : loop.db = c.db
  transactions : loop.answers.transactions = c.answers.transactions
  vacuums : loop.answers.vacuums = c.answers.vacuums
  fileSizes : loop.answers.fileSizes = fun i => c.answers.fileSizes (i + 1)
  checkpoints : loop.answers.checkpoints = fun j => c.answers.checkpoints (j + 1)
  done : loop.done = c.done ++ [.checkpoint (c.answers.checkpoints 0)]

theorem LoopOf.evictsInRound_iff {quota : Nat} (h : LoopOf c loop) {k : Nat} :
    EvictsInRound quota c k ↔ k < maxQuotaRounds ∧
      (c.autoVacuum = incrementalAutoVacuum ∨ c.answers.conversions 0 = none) ∧
      (c.answers.checkpoints 0).reported = true ∧ Evicts quota loop k := by
  constructor
  · intro hround
    refine ⟨hround.round, hround.converted, hround.reported 0 (by omega), ?_, ?_, ?_, ?_, ?_⟩
    · rw [h.fileSizes]
      exact hround.overQuota
    · rw [h.transactions]
      exact hround.committed
    · rw [h.vacuums]
      exact hround.reclaimed
    · rw [h.checkpoints]
      exact fun j hj => hround.reported (j + 1) (by omega)
    · rw [h.db]
      exact hround.left
  · rintro ⟨hround, hconverted, hreported, hover, hcommitted, hreclaimed, hloop, hleft⟩
    rw [h.fileSizes] at hover
    rw [h.transactions] at hcommitted
    rw [h.vacuums] at hreclaimed
    rw [h.checkpoints] at hloop
    rw [h.db] at hleft
    refine ⟨hround, hconverted, hover, hcommitted, hreclaimed, ?_, hleft⟩
    rintro (_ | j) hj
    · exact hreported
    · exact hloop j (by omega)

theorem LoopOf.guarded_iff {quota : Nat} (h : LoopOf c loop)
    (hconverted : c.autoVacuum = incrementalAutoVacuum ∨ c.answers.conversions 0 = none)
    (hreported : (c.answers.checkpoints 0).reported = true) :
    Guarded quota loop maxQuotaRounds (True ∧ c.answers.checkpoints 0 = .completed) ↔
      ∀ k, EvictsInRound quota c k → ∀ j ≤ 2 * k, c.answers.checkpoints j ≠ .blocked := by
  rw [CheckpointResult.eq_completed_iff hreported, Guarded, h.checkpoints]
  constructor
  · rintro hguarded k hround (_ | j) hj
    · exact (hguarded k hround.round (h.evictsInRound_iff.mp hround).2.2.2).1.2
    · exact (hguarded k hround.round (h.evictsInRound_iff.mp hround).2.2.2).2 j (by omega)
  · intro hblocked k hk hevicts
    have hround := h.evictsInRound_iff.mpr ⟨hk, hconverted, hreported, hevicts⟩
    exact ⟨⟨trivial, hblocked k hround 0 (by omega)⟩,
      fun j hj => hblocked k hround (j + 1) (by omega)⟩

theorem loopOf_ensureIncremental
    (h : c.autoVacuum = incrementalAutoVacuum ∨ c.answers.conversions 0 = none) :
    ∃ loop, LoopOf c loop ∧
      ensureIncremental.run c.afterFileSize.afterWalSize.afterCheckpoint = (.ok (), loop) := by
  have hmode : autoVacuumMode.run c.afterFileSize.afterWalSize.afterCheckpoint =
      (.ok c.autoVacuum, c.afterFileSize.afterWalSize.afterCheckpoint) := rfl
  rw [ensureIncremental, run_bind_of_ok hmode]
  by_cases hvacuum : c.autoVacuum = incrementalAutoVacuum
  · rw [if_pos hvacuum]
    exact ⟨c.afterFileSize.afterWalSize.afterCheckpoint, ⟨rfl, rfl, rfl, rfl, rfl, rfl⟩, rfl⟩
  · have hconversion := h.resolve_left hvacuum
    rw [if_neg hvacuum]
    refine ⟨{ c.afterFileSize.afterWalSize.afterCheckpoint.afterConversion with
      autoVacuum := incrementalAutoVacuum }, ⟨rfl, rfl, rfl, rfl, rfl, rfl⟩, ?_⟩
    exact run_convertToIncrementalVacuum_of_none
      (c := c.afterFileSize.afterWalSize.afterCheckpoint) hconversion

theorem run_ensureIncremental_of_failure
    (h : ¬(c.autoVacuum = incrementalAutoVacuum ∨ c.answers.conversions 0 = none)) :
    ∃ failure c', c'.done = c.done ∧ ensureIncremental.run c = (.error failure, c') := by
  rw [not_or] at h
  obtain ⟨failure, hfailure⟩ := Option.ne_none_iff_exists'.mp h.2
  have hmode : autoVacuumMode.run c = (.ok c.autoVacuum, c) := rfl
  refine ⟨failure, c.afterConversion, rfl, ?_⟩
  rw [ensureIncremental, run_bind_of_ok hmode, if_neg h.1]
  simp only [convertToIncrementalVacuum, hfailure]

/-- **When the size quota never evicts blindly.** All checkpoints before the batches it evicts have
completed exactly if, for each round that evicts, none of the checkpoints up to that round was
blocked. -/
theorem eviction_never_blind_iff (db : Database) (autoVacuum : Int) (answers : Answers)
    (scan : Scan (Int × Event)) (quota : Nat) :
    NeverBlind ((enforceSizeQuota quota).run (.start db autoVacuum answers scan)).2.done ↔
      ∀ k, EvictsInRound quota (.start db autoVacuum answers scan) k →
        ∀ j ≤ 2 * k, answers.checkpoints j ≠ .blocked := by
  generalize hstart : Conn.start db autoVacuum answers scan = c
  have hanswers : answers = c.answers := by rw [← hstart]; rfl
  have hdone : c.done = [] := by rw [← hstart]; rfl
  rw [hanswers, neverBlind_iff_sound, enforceSizeQuota, run_bind_of_ok run_databaseBytes,
    run_bind_of_ok run_tryCheckpointTruncate]
  show Sound True (Fallible.run (if (c.answers.checkpoints 0).reported = false then _ else _)
    c.afterFileSize.afterWalSize.afterCheckpoint).2.done ↔ _
  -- a log of one checkpoint
  have hsingle : Sound True (c.done ++ [.checkpoint (c.answers.checkpoints 0)]) := by
    rw [hdone]
    trivial
  split_ifs with hreported
  · refine iff_of_true hsingle fun k hround => ?_
    simp [hround.reported 0 (by omega)] at hreported
  rw [Bool.not_eq_false] at hreported
  by_cases hconverted : c.autoVacuum = incrementalAutoVacuum ∨ c.answers.conversions 0 = none
  · obtain ⟨loop, hloop, hrun⟩ := loopOf_ensureIncremental hconverted
    obtain ⟨log, hlog, hsound⟩ := sound_quotaRounds_iff quota maxQuotaRounds 0 loop
      (True ∧ c.answers.checkpoints 0 = .completed)
    rw [run_bind_of_ok hrun]
    have hend := after_bind (I := fun s : Conn => s.done = loop.done ++ log) hlog fun logEvents =>
      keeps_done_finishQuota (min (c.answers.fileSizes 0 + c.answers.walSizes 0) (2 ^ 64 - 1))
        logEvents _
    rw [hend, hloop.done, hdone]
    show Sound (True ∧ c.answers.checkpoints 0 = .completed) log ↔ _
    rw [hsound, hloop.guarded_iff hconverted hreported]
  · obtain ⟨failure, c', hc', hrun⟩ := run_ensureIncremental_of_failure
      (c := c.afterFileSize.afterWalSize.afterCheckpoint) hconverted
    rw [run_bind_of_error hrun]
    refine iff_of_true ?_ fun k hround => absurd hround.converted hconverted
    rw [hc']
    exact hsingle

section Reader

def oldEvent : Event where
  row := {
    resourceId := "r", timestampNs := 1, observedTimestampNs := 1, severityNumber := 9
    severityText := none, traceId := none, spanId := none, body := some "old", eventName := none
    flags := 0, droppedAttributesCount := 0, scopeName := none, scopeVersion := none
    scopeAttributesJson := "\x7b\x7d", scopeSchemaUrl := none, attributesJson := "\x7b\x7d" }
  origin := { resource := none, schemaUrl := "" }

def oneEvent : Database where
  logResource := .insertNew .empty "r" ⟨⟨"", none, none, "\x7b\x7d"⟩, "2026-01-01"⟩
  logEvent := .insertNew .empty 1 oldEvent
  logsFts := .insertNew .empty 1 ⟨"old", "", "", "", "", ""⟩

/-- A reader that stays: every checkpoint is blocked, and the file stays over quota. -/
def busyReader : Answers where
  transactions _ := none
  checkpoints _ := .blocked
  vacuums _ := none
  conversions _ := none
  fileSizes _ := 2
  walSizes _ := 1

end Reader

/-- The first checkpoint is blocked, and the event is evicted all the same. -/
theorem blocked_checkpoint_evicts :
    ¬NeverBlind ((enforceSizeQuota 1).run
      (.start oneEvent incrementalAutoVacuum busyReader .inOrder)).2.done := by
  have hdone : ((enforceSizeQuota 1).run
      (.start oneEvent incrementalAutoVacuum busyReader .inOrder)).2.done =
        [.checkpoint .blocked, .evicted [1], .checkpoint .blocked, .checkpoint .blocked,
          .evicted []] := by
    decide +kernel
  intro h
  have hblocked := h [.checkpoint .blocked] [1] _ hdone (by decide) .blocked (by decide)
  cases hblocked

end Quota

end OtelSqlite.Sqlite
