import Mathlib.Algebra.Order.BigOperators.Group.List
import OtelSqlite.Storage.Session

/-!
# Counters of the persistence policy

`persist_with_policy` once more, with the counters it moves: the atomics of `WriterStats`,
which wrap, and what is added to the exported metrics. Without the counters it is the policy
of `Persist`. A strict pass adds its rows to both counters of written records, a salvage pass
only to the atomic. Which pass commits a batch, and which of its rows, is read off the answers
of SQLite. Histograms, spans and the progress mark are left out.
-/

namespace OtelSqlite.Storage.Counted

open OtelSqlite.Core OtelSqlite.Lib OtelSqlite.Lib.Fallible

variable {O T : Type} {attempt : Attempt T}

/-- The counters of `WriterStats` that inserts move. -/
structure Stats where
  recordsWritten : UInt64
  transactionsCommitted : UInt64
  batchesReceived : UInt64
  errors : UInt64
  quarantinedRecords : UInt64
  transientRetries : UInt64
  deriving DecidableEq, Repr

/-- What has been added to the exported counters. -/
structure Metrics where
  storageRecordsWrittenTotal : Nat
  storageErrorsTotal : Nat
  storageQuarantinedRecordsTotal : Nat
  storageTransientRetriesTotal : Nat
  deriving DecidableEq, Repr

structure Counters where
  stats : Stats
  metrics : Metrics
  deriving DecidableEq, Repr

def Counters.zero : Counters := ⟨⟨0, 0, 0, 0, 0, 0⟩, ⟨0, 0, 0, 0⟩⟩

namespace Counters

variable (c : Counters)

/-- A strict transaction has committed. -/
def committed (written : Nat) : Counters where
  stats := { c.stats with
    recordsWritten := c.stats.recordsWritten + .ofNat written
    transactionsCommitted := c.stats.transactionsCommitted + 1 }
  metrics := { c.metrics with
    storageRecordsWrittenTotal := c.metrics.storageRecordsWrittenTotal + written }

/-- A salvage pass has committed. -/
def salvaged (outcome : SalvageOutcome) : Counters where
  stats := { c.stats with
    recordsWritten := c.stats.recordsWritten + .ofNat outcome.kept
    quarantinedRecords := c.stats.quarantinedRecords + .ofNat outcome.dropped
    transactionsCommitted := c.stats.transactionsCommitted + 1 }
  metrics := { c.metrics with
    storageQuarantinedRecordsTotal :=
      c.metrics.storageQuarantinedRecordsTotal + outcome.dropped }

/-- A pass has been rolled back. -/
def rolledBack : Counters where
  stats := { c.stats with errors := c.stats.errors + 1 }
  metrics := { c.metrics with storageErrorsTotal := c.metrics.storageErrorsTotal + 1 }

def retried : Counters where
  stats := { c.stats with transientRetries := c.stats.transientRetries + 1 }
  metrics := { c.metrics with
    storageTransientRetriesTotal := c.metrics.storageTransientRetriesTotal + 1 }

def received : Counters :=
  { c with stats := { c.stats with batchesReceived := c.stats.batchesReceived + 1 } }

end Counters

abbrev Writer := Fallible Counters FailureClass

def count (f : Counters → Counters) : Writer Unit := ⟨fun c => (.ok (), f c)⟩

/-- A transaction around an insert pass. Only an error of the pass itself is counted, one of
`BEGIN` or `COMMIT` is not. -/
def countedPass (attempt : Attempt T) (batch : LogWriteBatch O T) (tolerant : Bool)
    (onCommit : SalvageOutcome → Counters → Counters) : Writer (Pass T) :=
  match attempt.begin with
  | some failure => fail failure
  | none =>
    match insertLogsInner attempt batch tolerant with
    | .error failure => count .rolledBack >>= fun _ => fail failure
    | .ok pass =>
      match attempt.commit with
      | some failure => fail failure
      | none => count (onCommit pass.outcome) >>= fun _ => pure pass

def runTransaction (attempt : Attempt T) (batch : LogWriteBatch O T) : Writer (Pass T) :=
  countedPass attempt batch false fun outcome c => c.committed outcome.kept

def finishSalvage (attempt : Attempt T) (batch : LogWriteBatch O T) : Writer (Pass T) :=
  countedPass attempt batch true fun outcome c => c.salvaged outcome

/-- One round of the policy loop; `retry` is what a retryable failure leads to. -/
def persistRound (weather : Weather T) (batch : LogWriteBatch O T) (attempt : Attempt T)
    (retry : Writer (Persisted T)) : Writer (Persisted T) :=
  Fallible.attempt (runTransaction attempt batch) >>= fun
    | .ok pass => pure ⟨none, pass.inserted, pass.quarantined⟩
    | .error .poison => finishSalvage weather.salvage batch >>= fun pass =>
      pure ⟨some pass.outcome, pass.inserted, pass.quarantined⟩
    | .error .retryable => retry
    | .error .fatal => fail .fatal

def persistLoop (weather : Weather T) (batch : LogWriteBatch O T) : Nat → Writer (Persisted T)
  | 0 => persistRound weather batch (weather.strict maxTransientRetries) (fail .retryable)
  | retries + 1 =>
    persistRound weather batch (weather.strict (maxTransientRetries - (retries + 1)))
      (count .retried >>= fun _ => persistLoop weather batch retries)

def persistWithPolicy (weather : Weather T) (batch : LogWriteBatch O T) : Writer (Persisted T) :=
  persistLoop weather batch maxTransientRetries

/-- The insert branch of `execute`. -/
def executeInsert (weather : Weather T) (batch : LogWriteBatch O T) : Writer (Persisted T) :=
  if batch.records = [] then pure ⟨none, [], []⟩
  else count .received >>= fun _ => persistWithPolicy weather batch

/-- The writer's loop over insert batches: it ends at the first one that fails. -/
def writeBatches : List (Weather T × LogWriteBatch O T) → Counters → Counters × List (Persisted T)
  | [], c => (c, [])
  | (weather, batch) :: rest, c =>
    match (executeInsert weather batch).run c with
    | (.error _, c') => (c', [])
    | (.ok persisted, c') =>
      ((writeBatches rest c').1, persisted :: (writeBatches rest c').2)

/-- The log records committed by a sequence of batches. -/
def committedRecords (persisted : List (Persisted T)) : List T :=
  persisted.flatMap Persisted.inserted

section Counts

variable {c c' : Counters} {m : Writer (Persisted T)} {result : Except FailureClass (Persisted T)}

/-- A pass that commits counts the rows it has inserted. -/
theorem kept_transaction {batch : LogWriteBatch O T} {tolerant : Bool} {pass : Pass T}
    (h : transaction attempt batch tolerant = .ok pass) :
    pass.outcome.kept = pass.inserted.length := by
  obtain ⟨hinserted, hkept, -⟩ := Sql.transaction_ok h
  rw [hinserted, hkept]

/-- What a stretch of the run adds to the two counters of written records. -/
structure Adds (c c' : Counters) (written exported : Nat) : Prop where
  recordsWritten : c'.stats.recordsWritten = c.stats.recordsWritten + .ofNat written
  recordsWrittenTotal : c'.metrics.storageRecordsWrittenTotal =
    c.metrics.storageRecordsWrittenTotal + exported

theorem Adds.nothing (hstats : c'.stats.recordsWritten = c.stats.recordsWritten)
    (hmetrics : c'.metrics.storageRecordsWrittenTotal = c.metrics.storageRecordsWrittenTotal) :
    Adds c c' 0 0 :=
  ⟨hstats.trans (UInt64.add_zero _).symm, hmetrics⟩

theorem Adds.trans {c'' : Counters} {written written' exported exported' : Nat}
    (h : Adds c c' written exported) (h' : Adds c' c'' written' exported') :
    Adds c c'' (written + written') (exported + exported') where
  recordsWritten := by
    rw [h'.recordsWritten, h.recordsWritten, UInt64.ofNat_add, UInt64.add_assoc]
  recordsWrittenTotal := by
    rw [h'.recordsWrittenTotal, h.recordsWrittenTotal, Nat.add_assoc]

/-- The rows that a batch with this result has written. -/
def written : Except FailureClass (Persisted T) → Nat
  | .ok persisted => persisted.inserted.length
  | .error _ => 0

/-- Those of them that the metric counts: the ones of a strict pass. -/
def exported : Except FailureClass (Persisted T) → Nat
  | .ok persisted => if persisted.salvage.isNone then persisted.inserted.length else 0
  | .error _ => 0

/-- From any counters the program has this result and counts what it has written. -/
def Counts (m : Writer (Persisted T)) (result : Except FailureClass (Persisted T)) : Prop :=
  ∀ c, ∃ c', m.run c = (result, c') ∧ Adds c c' (written result) (exported result)

theorem counts_fail (failure : FailureClass) :
    Counts (fail failure : Writer (Persisted T)) (.error failure) :=
  fun c => ⟨c, rfl, .nothing rfl rfl⟩

/-- What has moved other counters only may come first. -/
theorem Counts.resume (h : Counts m result) {c₁ : Counters} (hadds : Adds c c₁ 0 0) :
    ∃ c', m.run c₁ = (result, c') ∧ Adds c c' (written result) (exported result) := by
  obtain ⟨c', hrun, hadds'⟩ := h c₁
  refine ⟨c', hrun, ?_⟩
  simpa only [Nat.zero_add] using hadds.trans hadds'

theorem Counts.after (h : Counts m result) {f : Counters → Counters} (hf : ∀ c, Adds c (f c) 0 0) :
    Counts (count f >>= fun _ => m) result :=
  fun c => h.resume (hf c)

/-- A pass commits with its effect on the counters, or fails and writes nothing. -/
theorem countedPass_cases (attempt : Attempt T) (batch : LogWriteBatch O T) (tolerant : Bool)
    (onCommit : SalvageOutcome → Counters → Counters) (c : Counters) :
    (∃ pass, transaction attempt batch tolerant = .ok pass ∧
      (countedPass attempt batch tolerant onCommit).run c = (.ok pass, onCommit pass.outcome c)) ∨
    ∃ failure c', transaction attempt batch tolerant = .error failure ∧
      (countedPass attempt batch tolerant onCommit).run c = (.error failure, c') ∧
      Adds c c' 0 0 := by
  unfold countedPass transaction
  cases attempt.begin with
  | some failure => exact .inr ⟨failure, c, rfl, rfl, .nothing rfl rfl⟩
  | none =>
    cases insertLogsInner attempt batch tolerant with
    | error failure => exact .inr ⟨failure, c.rolledBack, rfl, rfl, .nothing rfl rfl⟩
    | ok pass =>
      cases attempt.commit with
      | some failure => exact .inr ⟨failure, c, rfl, rfl, .nothing rfl rfl⟩
      | none => exact .inl ⟨pass, rfl, rfl⟩

/-- A salvage pass adds its rows to the atomic only. -/
theorem counts_salvage (attempt : Attempt T) (batch : LogWriteBatch O T) :
    Counts (finishSalvage attempt batch >>= fun pass =>
        pure ⟨some pass.outcome, pass.inserted, pass.quarantined⟩)
      ((transaction attempt batch true).map fun pass =>
        ⟨some pass.outcome, pass.inserted, pass.quarantined⟩) := by
  intro c
  obtain ⟨pass, hsalvage, hrun⟩ | ⟨failure, c', hsalvage, hrun, hadds⟩ :=
    countedPass_cases attempt batch true (fun outcome c => c.salvaged outcome) c
  · rw [finishSalvage, run_bind_of_ok hrun, hsalvage]
    refine ⟨_, rfl, ⟨?_, rfl⟩⟩
    rw [Except.map, written, ← kept_transaction hsalvage]
    rfl
  · rw [finishSalvage, run_bind_of_error hrun, hsalvage]
    exact ⟨c', rfl, hadds⟩

/-- One round has the result of the policy and counts what it writes. -/
theorem counts_persistRound (weather : Weather T) (batch : LogWriteBatch O T) (attempt : Attempt T)
    {retry : Writer (Persisted T)} (hretry : Counts retry result) :
    Counts (persistRound weather batch attempt retry)
      (Storage.persistRound weather batch attempt result) := by
  intro c
  rw [persistRound, run_bind_of_ok run_attempt, Storage.persistRound]
  obtain ⟨pass, hstrict, hrun⟩ | ⟨failure, c₁, hstrict, hrun, hadds⟩ :=
    countedPass_cases attempt batch false (fun outcome c => c.committed outcome.kept) c
  · rw [runTransaction, hrun, hstrict]
    refine ⟨_, rfl, ⟨?_, ?_⟩⟩
    · rw [written, ← kept_transaction hstrict]
      rfl
    · rw [exported, ← kept_transaction hstrict]
      rfl
  · rw [runTransaction, hrun, hstrict]
    cases failure with
    | fatal => exact (counts_fail .fatal).resume hadds
    | retryable => exact hretry.resume hadds
    | poison =>
      have hsalvage := (counts_salvage weather.salvage batch).resume hadds
      cases htx : transaction weather.salvage batch true with
      | error failure | ok pass => rwa [htx] at hsalvage

theorem counts_persistLoop (weather : Weather T) (batch : LogWriteBatch O T) (retries : Nat) :
    Counts (persistLoop weather batch retries) (Storage.persistLoop weather batch retries) := by
  induction retries with
  | zero => exact counts_persistRound weather batch _ (counts_fail _)
  | succ retries ih =>
    exact counts_persistRound weather batch _ (ih.after fun c => .nothing rfl rfl)

/-- The result of the insert branch of `execute`. -/
def insertResult (weather : Weather T) (batch : LogWriteBatch O T) :
    Except FailureClass (Persisted T) :=
  if batch.records = [] then .ok ⟨none, [], []⟩ else Storage.persistWithPolicy weather batch

theorem counts_executeInsert (weather : Weather T) (batch : LogWriteBatch O T) :
    Counts (executeInsert weather batch) (insertResult weather batch) := by
  unfold executeInsert insertResult
  split
  · exact fun c => ⟨c, rfl, .nothing rfl rfl⟩
  · exact (counts_persistLoop weather batch _).after fun c => .nothing rfl rfl

end Counts

section Sequence

/-- The batches of a sequence as the policy persists them, up to the first failure. -/
def persistAll : List (Weather T × LogWriteBatch O T) → List (Persisted T)
  | [] => []
  | (weather, batch) :: rest =>
    match insertResult weather batch with
    | .error _ => []
    | .ok persisted => persisted :: persistAll rest

/-- A sequence of batches adds the rows of all to the statistics and those of strict passes to
the metric. -/
theorem writeBatches_spec (writes : List (Weather T × LogWriteBatch O T)) (c : Counters) :
    (writeBatches writes c).2 = persistAll writes ∧
      Adds c (writeBatches writes c).1
        ((persistAll writes).map (written ∘ .ok)).sum
        ((persistAll writes).map (exported ∘ .ok)).sum := by
  induction writes generalizing c with
  | nil => exact ⟨rfl, .nothing rfl rfl⟩
  | cons write writes ih =>
    obtain ⟨weather, batch⟩ := write
    obtain ⟨c', hrun, hadds⟩ := counts_executeInsert weather batch c
    rw [writeBatches, hrun, persistAll]
    cases hresult : insertResult weather batch with
    | error failure =>
      rw [hresult] at hadds
      exact ⟨rfl, hadds⟩
    | ok persisted =>
      rw [hresult] at hadds
      obtain ⟨hlater, hadds'⟩ := ih c'
      exact ⟨congrArg (persisted :: ·) hlater, hadds.trans hadds'⟩

theorem length_committedRecords (persisted : List (Persisted T)) :
    (committedRecords persisted).length = (persisted.map (written ∘ .ok)).sum :=
  List.length_flatMap

theorem exported_le_written (persisted : Persisted T) :
    exported (.ok persisted) ≤ written (.ok persisted) := by
  rw [exported, written]
  split
  · exact le_rfl
  · exact Nat.zero_le _

theorem exported_eq_written_iff (persisted : Persisted T) :
    exported (.ok persisted) = written (.ok persisted) ↔
      (persisted.salvage.isSome = true → persisted.inserted = []) := by
  cases h : persisted.salvage <;> simp [exported, written, h, eq_comm]

/-- The metric has all rows exactly if no salvage pass kept any. -/
theorem sum_exported_eq_iff (persisted : List (Persisted T)) :
    (persisted.map (exported ∘ .ok)).sum = (persisted.map (written ∘ .ok)).sum ↔
      ∀ p ∈ persisted, p.salvage.isSome = true → p.inserted = [] := by
  induction persisted with
  | nil => simp
  | cons p persisted ih =>
    have hle : (persisted.map (exported ∘ .ok)).sum ≤ (persisted.map (written ∘ .ok)).sum :=
      List.sum_le_sum fun p _ => exported_le_written p
    have hle' := exported_le_written p
    rw [List.map_cons, List.map_cons, List.sum_cons, List.sum_cons, List.forall_mem_cons, ← ih,
      ← exported_eq_written_iff]
    simp only [Function.comp_apply]
    omega

end Sequence

section Answers

/-- This answer ends one of the strict passes from the `a`-th on, and retryable errors end those
before it. -/
def EndsFrom (weather : Weather T) (records : List T) (answer : Option FailureClass) (a : Nat) :
    Prop :=
  ∃ j ≤ maxTransientRetries, a ≤ j ∧
    (∀ i < j, a ≤ i → (weather.strict i).stop false records = some .retryable) ∧
    (weather.strict j).stop false records = answer

/-- By the answers of SQLite a strict pass commits the batch, or there is nothing to commit. -/
def CommitsStrict (write : Weather T × LogWriteBatch O T) : Prop :=
  write.2.records = [] ∨ EndsFrom write.1 write.2.records none 0

/-- By the answers of SQLite the salvage pass behind a poison error commits the batch. -/
def CommitsSalvage (write : Weather T × LogWriteBatch O T) : Prop :=
  write.2.records ≠ [] ∧ EndsFrom write.1 write.2.records (some .poison) 0 ∧
    write.1.salvage.stop true write.2.records = none

instance (weather : Weather T) (records : List T) (answer : Option FailureClass) (a : Nat) :
    Decidable (EndsFrom weather records answer a) :=
  inferInstanceAs (Decidable (∃ j ≤ _, _))

instance (write : Weather T × LogWriteBatch O T) : Decidable (CommitsStrict write) :=
  inferInstanceAs (Decidable (_ ∨ _))

instance (write : Weather T × LogWriteBatch O T) : Decidable (CommitsSalvage write) :=
  inferInstanceAs (Decidable (_ ∧ _))

/-- The batches up to the first one that no pass commits. -/
def committing (writes : List (Weather T × LogWriteBatch O T)) :
    List (Weather T × LogWriteBatch O T) :=
  writes.takeWhile fun write => CommitsStrict write ∨ CommitsSalvage write

/-- The number of records in those of them that a strict pass commits. -/
def strictRecords (writes : List (Weather T × LogWriteBatch O T)) : Nat :=
  ((committing writes).map fun write =>
    if CommitsStrict write then write.2.records.length else 0).sum

variable {weather : Weather T} {batch : LogWriteBatch O T}

theorem endsFrom_iff {records : List T} {answer : Option FailureClass} {a : Nat}
    (ha : a ≤ maxTransientRetries) : EndsFrom weather records answer a ↔
      (weather.strict a).stop false records = answer ∨
        (weather.strict a).stop false records = some .retryable ∧
          EndsFrom weather records answer (a + 1) := by
  constructor
  · rintro ⟨j, hj, haj, hbefore, hstop⟩
    rcases Nat.eq_or_lt_of_le haj with rfl | hlt
    · exact .inl hstop
    · exact .inr ⟨hbefore a hlt le_rfl, j, hj, hlt, fun i hi hai => hbefore i hi (by omega), hstop⟩
  · rintro (hstop | ⟨hretry, j, hj, haj, hbefore, hstop⟩)
    · exact ⟨a, ha, le_rfl, fun i hi hai => absurd hi (Nat.not_lt.mpr hai), hstop⟩
    · refine ⟨j, hj, by omega, fun i hi hai => ?_, hstop⟩
      rcases Nat.eq_or_lt_of_le hai with rfl | hlt
      · exact hretry
      · exact hbefore i hi hlt

/-- How a round commits: in its strict pass or, behind a poison error, in the salvage pass. -/
theorem persistRound_ok_iff {retry : Except FailureClass (Persisted T)} {salvaged : Bool} :
    (∃ p, Storage.persistRound weather batch attempt retry = .ok p ∧
        p.salvage.isSome = salvaged) ↔
      (attempt.stop false batch.records = (if salvaged then some .poison else none) ∧
        (salvaged = true → weather.salvage.stop true batch.records = none)) ∨
      attempt.stop false batch.records = some .retryable ∧
        ∃ p, retry = .ok p ∧ p.salvage.isSome = salvaged := by
  unfold Storage.persistRound
  cases hstrict : transaction attempt batch false with
  | ok pass =>
    rw [Sql.stop_eq_none_iff.mpr ⟨pass, hstrict⟩]
    cases salvaged <;> simp
  | error failure =>
    rw [Sql.transaction_error_iff.mp hstrict]
    cases failure with
    | poison =>
      cases hsalvage : transaction weather.salvage batch true with
      | ok pass =>
        rw [Sql.stop_eq_none_iff.mpr ⟨pass, hsalvage⟩]
        cases salvaged <;> simp
      | error failure =>
        rw [Sql.transaction_error_iff.mp hsalvage]
        cases salvaged <;> simp
    | retryable | fatal => cases salvaged <;> simp

theorem persistLoop_ok_iff {salvaged : Bool} {retries : Nat}
    (hretries : retries ≤ maxTransientRetries) :
    (∃ p, Storage.persistLoop weather batch retries = .ok p ∧ p.salvage.isSome = salvaged) ↔
      EndsFrom weather batch.records (if salvaged then some .poison else none)
          (maxTransientRetries - retries) ∧
        (salvaged = true → weather.salvage.stop true batch.records = none) := by
  induction retries with
  | zero =>
    have hlast : ¬EndsFrom weather batch.records (if salvaged then some .poison else none)
        (maxTransientRetries + 1) := fun ⟨j, hj, hlt, _⟩ => absurd hj (Nat.not_le.mpr hlt)
    rw [Storage.persistLoop, persistRound_ok_iff, Nat.sub_zero, endsFrom_iff le_rfl]
    simp [hlast]
  | succ retries ih =>
    have hnext : maxTransientRetries - (retries + 1) + 1 = maxTransientRetries - retries := by
      omega
    rw [Storage.persistLoop, persistRound_ok_iff, ih (by omega),
      endsFrom_iff (a := maxTransientRetries - (retries + 1)) (Nat.sub_le _ _), hnext]
    tauto

theorem insertResult_strict_iff :
    (∃ p, insertResult weather batch = .ok p ∧ p.salvage.isSome = false) ↔
      CommitsStrict (weather, batch) := by
  unfold insertResult CommitsStrict
  split
  · next hempty => simp [hempty]
  · next hne =>
    refine (persistLoop_ok_iff le_rfl).trans ?_
    simp [hne]

theorem insertResult_salvage_iff :
    (∃ p, insertResult weather batch = .ok p ∧ p.salvage.isSome = true) ↔
      CommitsSalvage (weather, batch) := by
  unfold insertResult CommitsSalvage
  split
  · next hempty => simp [hempty]
  · next hne =>
    refine (persistLoop_ok_iff le_rfl).trans ?_
    simp [hne]

theorem insertResult_keeps {p : Persisted T} (h : insertResult weather batch = .ok p) :
    p.inserted = if p.salvage.isSome then spared weather.salvage 0 batch.records
      else batch.records := by
  unfold insertResult at h
  split at h
  · next hempty =>
    obtain rfl := Except.ok.inj h
    exact hempty.symm
  · exact (Sql.keepsSpared_persistWithPolicy h).inserted

/-- The result of a batch, read off the answers of SQLite. -/
theorem insertResult_cases (weather : Weather T) (batch : LogWriteBatch O T) :
    (∃ p, insertResult weather batch = .ok p ∧ CommitsStrict (weather, batch) ∧
      ¬CommitsSalvage (weather, batch) ∧ p.salvage = none ∧ p.inserted = batch.records) ∨
    (∃ p, insertResult weather batch = .ok p ∧ ¬CommitsStrict (weather, batch) ∧
      CommitsSalvage (weather, batch) ∧ p.salvage.isSome = true ∧
      p.inserted = spared weather.salvage 0 batch.records) ∨
    ∃ failure, insertResult weather batch = .error failure ∧
      ¬(CommitsStrict (weather, batch) ∨ CommitsSalvage (weather, batch)) := by
  rw [← insertResult_strict_iff, ← insertResult_salvage_iff]
  cases h : insertResult weather batch with
  | error failure => exact .inr (.inr ⟨failure, rfl, by simp⟩)
  | ok p =>
    have hkeeps := insertResult_keeps h
    cases hsalvage : p.salvage with
    | none =>
      rw [hsalvage] at hkeeps
      exact .inl ⟨p, rfl, by simp [hsalvage], by simp [hsalvage], hsalvage, hkeeps⟩
    | some outcome =>
      rw [hsalvage] at hkeeps
      exact .inr (.inl ⟨p, rfl, by simp [hsalvage], by simp [hsalvage], by simp [hsalvage], hkeeps⟩)

/-- The metric gets the records of the batches that a strict pass commits. -/
theorem sum_exported_persistAll (writes : List (Weather T × LogWriteBatch O T)) :
    ((persistAll writes).map (exported ∘ .ok)).sum = strictRecords writes := by
  induction writes with
  | nil => rfl
  | cons write writes ih =>
    obtain ⟨weather, batch⟩ := write
    rw [persistAll]
    rcases insertResult_cases weather batch with ⟨p, hp, hs, hn, hnone, hrows⟩ |
      ⟨p, hp, hs, hn, hsome, hrows⟩ | ⟨failure, hp, hnone⟩
    · have hexported : exported (.ok p) = batch.records.length := by
        simp [exported, hnone, hrows]
      simp [hp, strictRecords, committing, hs, hexported, ih]
    · have hexported : exported (.ok p) = 0 := by
        simp [exported, Option.isSome_iff_ne_none.mp hsome]
      simp [hp, strictRecords, committing, hs, hn, hexported, ih]
    · simp [hp, strictRecords, committing, hnone]

/-- A salvage pass keeps no row, read off the answers. -/
theorem salvages_nothing_iff (writes : List (Weather T × LogWriteBatch O T)) :
    (∀ p ∈ persistAll writes, p.salvage.isSome = true → p.inserted = []) ↔
      ∀ write ∈ committing writes, CommitsSalvage write →
        spared write.1.salvage 0 write.2.records = [] := by
  induction writes with
  | nil => simp [persistAll, committing]
  | cons write writes ih =>
    obtain ⟨weather, batch⟩ := write
    rw [persistAll]
    rcases insertResult_cases weather batch with ⟨p, hp, hs, hn, hnone, hrows⟩ |
      ⟨p, hp, hs, hn, hsome, hrows⟩ | ⟨failure, hp, hnone⟩
    · simp [hp, committing, hs, hn, hnone, ih]
    · simp [hp, committing, hs, hn, hsome, hrows, ih]
    · simp [hp, committing, hnone]

end Answers

/-- The metric, the statistic and the number of committed records are equal exactly if the
answers of SQLite let no salvage pass keep a row, up to the first batch that no pass commits,
and the records that strict passes commit are fewer than 2^64. -/
theorem written_counters_exact_iff (writes : List (Weather T × LogWriteBatch O T)) :
    let final := writeBatches writes .zero
    (final.1.metrics.storageRecordsWrittenTotal = final.1.stats.recordsWritten.toNat ∧
        final.1.stats.recordsWritten.toNat = (committedRecords final.2).length) ↔
      strictRecords writes < 2 ^ 64 ∧ ∀ write ∈ committing writes, CommitsSalvage write →
        spared write.1.salvage 0 write.2.records = [] := by
  dsimp only
  obtain ⟨hpersisted, hstats, hmetrics⟩ := writeBatches_spec writes .zero
  rw [hpersisted, length_committedRecords, ← salvages_nothing_iff, ← sum_exported_eq_iff, hstats,
    hmetrics, sum_exported_persistAll]
  generalize ((persistAll writes).map (written ∘ .ok)).sum = rows
  generalize strictRecords writes = counted
  have hzero : Counters.zero.stats.recordsWritten = 0 := rfl
  have hzero' : Counters.zero.metrics.storageRecordsWrittenTotal = 0 := rfl
  rw [hzero, hzero', UInt64.zero_add, Nat.zero_add, UInt64.toNat_ofNat']
  have hlt : rows % 2 ^ 64 < 2 ^ 64 := Nat.mod_lt _ (by decide)
  constructor
  · rintro ⟨hcounted, hrows⟩
    exact ⟨hcounted ▸ hlt, hcounted.trans hrows⟩
  · rintro ⟨hfits, rfl⟩
    rw [Nat.mod_eq_of_lt hfits]
    exact ⟨rfl, rfl⟩

section Sample

/-- An attempt in which every call succeeds but the insertion of the record 2, which is
poison. -/
def poisonTwo : Attempt Nat where
  begin := none
  resolve := none
  execute _ record := if record = 2 then some .poison else none
  commit := none

/-- A batch of one healthy and one poisonous record. -/
def mixedBatch : LogWriteBatch Unit Nat := ⟨(), [1, 2], [1], [⟨1, 2, true⟩]⟩

/-- A strict pass of two records, then a salvage pass that has to drop its only one. -/
def nothingSalvaged : List (Weather Nat × LogWriteBatch Unit Nat) :=
  [(⟨fun _ => poisonTwo, poisonTwo, none⟩, ⟨(), [1, 3], [1], [⟨1, 2, true⟩]⟩),
    (⟨fun _ => poisonTwo, poisonTwo, none⟩, ⟨(), [2], [2], [⟨2, 1, true⟩]⟩)]

theorem written_counters_exact_iff_strict :
    let final := writeBatches nothingSalvaged .zero
    strictRecords nothingSalvaged = 2 ∧ CommitsSalvage (nothingSalvaged.get ⟨1, by decide⟩) ∧
      final.1.metrics.storageRecordsWrittenTotal = final.1.stats.recordsWritten.toNat ∧
      final.1.stats.recordsWritten.toNat = (committedRecords final.2).length :=
  ⟨by decide +kernel, by decide +kernel,
    (written_counters_exact_iff nothingSalvaged).mpr ⟨by decide +kernel, by decide +kernel⟩⟩

/-- The salvage pass keeps one record: the statistic counts it, the metric does not. -/
theorem salvaged_record_not_exported :
    let final := writeBatches [(⟨fun _ => poisonTwo, poisonTwo, none⟩, mixedBatch)] .zero
    committedRecords final.2 = [1] ∧ final.1.stats.recordsWritten = 1 ∧
      final.1.metrics.storageRecordsWrittenTotal = 0 := by
  decide +kernel

end Sample

end OtelSqlite.Storage.Counted
