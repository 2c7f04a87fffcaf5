import OtelSqlite.Lib.Fallible
import OtelSqlite.Storage.Persist

/-!
# Persisting one batch, statement by statement

The policy of `OtelSqlite.Storage.Persist` on a connection. An open transaction has its
own view of the database; the commit publishes it and nothing else does. The session
counts the passes and logs every failed call. What the statements do to a database is a
parameter, so "inserted once" is said of any database.
-/

namespace OtelSqlite.Storage

open OtelSqlite.Core OtelSqlite.Lib OtelSqlite.Lib.Fallible

variable {D O T : Type} {records : List T}

/-- The two statements of an insert. -/
structure Statements (D O T : Type) where
  upsertResource : D → O → D
  insertEvent : D → O → T → D

/-- The resource row and then one row for each record. -/
def Statements.put (statements : Statements D O T) (origin : O) (db : D) (records : List T) : D :=
  records.foldl (fun db record => statements.insertEvent db origin record)
    (statements.upsertResource db origin)

/-- The database behind an insert with this outcome. -/
def Statements.putPersisted (statements : Statements D O T) (origin : O) (db : D) :
    Except FailureClass (Persisted T) → D
  | .ok persisted => statements.put origin db persisted.inserted
  | .error _ => db

structure Session (D : Type) where
  database : D
  /-- What the open transaction sees. -/
  view : D
  strictPasses : Nat
  tolerantPasses : Nat
  failures : List FailureClass

namespace Session

def start (db : D) : Session D := ⟨db, db, 0, 0, []⟩

def seeing (s : Session D) (view : D) : Session D := { s with view := view }

/-- The commit. -/
def published (s : Session D) : Session D := { s with database := s.view }

def counted (s : Session D) (tolerant : Bool) : Session D :=
  { s with
    strictPasses := s.strictPasses + if tolerant then 0 else 1
    tolerantPasses := s.tolerantPasses + if tolerant then 1 else 0 }

def failedWith (s : Session D) (failure : FailureClass) : Session D :=
  { s with failures := s.failures ++ [failure] }

@[simp] theorem view_failedWith (s : Session D) (failure : FailureClass) :
    (s.failedWith failure).view = s.view := rfl

@[simp] theorem view_seeing (s : Session D) (view : D) : (s.seeing view).view = view := rfl

end Session

abbrev Sql (D : Type) := Fallible (Session D) FailureClass

namespace Sql

/-- A call with the answer of SQLite, and its effect if it succeeds. -/
def call (answer : Option FailureClass) (effect : Session D → Session D) : Sql D Unit := ⟨fun s =>
  match answer with
  | none => (.ok (), effect s)
  | some failure => (.error failure, s.failedWith failure)⟩

def countPass (tolerant : Bool) : Sql D Unit := ⟨fun s => (.ok (), s.counted tolerant)⟩

variable (statements : Statements D O T)

def insertRow (attempt : Attempt T) (origin : O) (i : Nat) (record : T) : Sql D Unit :=
  call (attempt.execute i record) fun s => s.seeing (statements.insertEvent s.view origin record)

/-- The record loop, which goes on behind a poisonous row if it is tolerant. -/
def insertLoop (attempt : Attempt T) (origin : O) (tolerant : Bool) :
    Nat → List (T × Nat) → Pass T → Sql D (Pass T)
  | _, [], pass => pure pass
  | i, (record, ticket) :: rest, pass =>
    Fallible.attempt (insertRow statements attempt origin i record) >>= fun
      | .ok () => insertLoop attempt origin tolerant (i + 1) rest (pass.keep record tolerant ticket)
      | .error failure =>
        if tolerant = true ∧ failure = .poison then
          insertLoop attempt origin tolerant (i + 1) rest (pass.drop record ticket)
        else fail failure

def insertLogsInner (attempt : Attempt T) (batch : LogWriteBatch O T) (tolerant : Bool) :
    Sql D (Pass T) := do
  call attempt.resolve fun s => s.seeing (statements.upsertResource s.view batch.origin)
  insertLoop statements attempt batch.origin tolerant 0
    (batch.records.zip (expand batch.segments ++ List.replicate batch.records.length 0)) Pass.start

/-- `run_transaction`, or the transaction of `finish_salvage` if it is tolerant. -/
def insertPass (attempt : Attempt T) (batch : LogWriteBatch O T) (tolerant : Bool) :
    Sql D (Pass T) := do
  countPass tolerant
  call attempt.begin fun s => s.seeing s.database
  let pass ← insertLogsInner statements attempt batch tolerant
  call attempt.commit Session.published
  return pass

/-- One round of the policy loop; `retry` is what a retryable failure leads to. -/
def persistRound (weather : Weather T) (batch : LogWriteBatch O T) (attempt : Attempt T)
    (retry : Sql D (Option SalvageOutcome)) : Sql D (Option SalvageOutcome) :=
  Fallible.attempt (insertPass statements attempt batch false) >>= fun
    | .ok _ => pure none
    | .error .poison => do
      let pass ← insertPass statements weather.salvage batch true
      return some pass.outcome
    | .error .retryable => retry
    | .error .fatal => fail .fatal

def persistLoop (weather : Weather T) (batch : LogWriteBatch O T) :
    Nat → Sql D (Option SalvageOutcome)
  | 0 => persistRound statements weather batch (weather.strict maxTransientRetries) (fail .retryable)
  | retries + 1 =>
    persistRound statements weather batch (weather.strict (maxTransientRetries - (retries + 1)))
      (persistLoop weather batch retries)

def persistWithPolicy (weather : Weather T) (batch : LogWriteBatch O T) :
    Sql D (Option SalvageOutcome) :=
  persistLoop statements weather batch maxTransientRetries

end Sql

section Script

/-- The records whose insertion is not answered with a poison error. -/
def spared (attempt : Attempt T) : Nat → List T → List T
  | _, [] => []
  | i, record :: rest =>
    if attempt.execute i record = some .poison then spared attempt (i + 1) rest
    else record :: spared attempt (i + 1) rest

/-- The first answer to a row that ends the record loop. -/
def rowsStop (attempt : Attempt T) (tolerant : Bool) : Nat → List T → Option FailureClass
  | _, [] => none
  | i, record :: rest =>
    if attempt.execute i record = none ∨
        tolerant = true ∧ attempt.execute i record = some .poison then
      rowsStop attempt tolerant (i + 1) rest
    else attempt.execute i record

/-- The first answer that ends a pass over these records. -/
def Attempt.stop (attempt : Attempt T) (tolerant : Bool) (records : List T) :
    Option FailureClass :=
  attempt.begin.or (attempt.resolve.or ((rowsStop attempt tolerant 0 records).or attempt.commit))

/-- Of the failures that do not end a pass none is fatal or retryable. -/
structure Logged (stop : Option FailureClass) (before after : List FailureClass) : Prop where
  fatal : .fatal ∈ after ↔ .fatal ∈ before ∨ stop = some .fatal
  retryable : after.count .retryable =
    before.count .retryable + if stop = some .retryable then 1 else 0

theorem Logged.refl (log : List FailureClass) : Logged none log log := ⟨by simp, by simp⟩

theorem Logged.trans {stop : Option FailureClass} {a b c : List FailureClass}
    (h : Logged none a b) (h' : Logged stop b c) : Logged stop a c := by
  refine ⟨?_, ?_⟩
  · rw [h'.fatal, h.fatal]
    simp
  · rw [h'.retryable, h.retryable]
    simp

theorem Logged.failed (failure : FailureClass) (log : List FailureClass) :
    Logged (some failure) log (log ++ [failure]) := by
  refine ⟨by simp [eq_comm], ?_⟩
  cases failure <;> simp

theorem Logged.tolerated (log : List FailureClass) : Logged none log (log ++ [.poison]) :=
  ⟨by simp, by simp⟩

end Script

section Loop

variable {attempt : Attempt T} {tolerant : Bool} {i : Nat} {rows : List (T × Nat)}
  {pass pass' : Pass T}

/-- The pure loop fails with the first answer that ends it. -/
theorem errorOf_insertLoop : errorOf (insertLoop attempt tolerant i rows pass) =
    rowsStop attempt tolerant i (rows.map Prod.fst) := by
  induction rows generalizing i pass with
  | nil => rfl
  | cons row rest ih =>
    obtain ⟨record, ticket⟩ := row
    simp only [insertLoop, List.map_cons, rowsStop]
    cases hanswer : attempt.execute i record with
    | none => simpa using ih
    | some answer =>
      by_cases hgoes : tolerant = true ∧ answer = .poison
      · obtain ⟨rfl, rfl⟩ := hgoes
        simpa using ih
      · simp [hgoes, errorOf]

/-- A pass that reaches the end of its rows has inserted the spared ones, and has counted them
and the others. -/
theorem insertLoop_ok (h : insertLoop attempt tolerant i rows pass = .ok pass') :
    pass'.inserted = pass.inserted ++ spared attempt i (rows.map Prod.fst) ∧
      pass'.outcome.kept = pass.outcome.kept + (spared attempt i (rows.map Prod.fst)).length ∧
      pass'.outcome.kept + pass'.outcome.dropped =
        pass.outcome.kept + pass.outcome.dropped + rows.length := by
  induction rows generalizing i pass with
  | nil =>
    obtain rfl := Except.ok.inj h
    simp [spared]
  | cons row rest ih =>
    obtain ⟨record, ticket⟩ := row
    simp only [insertLoop] at h
    simp only [List.map_cons, spared, List.length_cons]
    cases hanswer : attempt.execute i record with
    | none =>
      rw [hanswer] at h
      obtain ⟨hinserted, hkept, htotal⟩ := ih h
      rw [if_neg (by simp), List.length_cons, hinserted]
      refine ⟨by simp [Pass.keep], hkept.trans ?_, htotal.trans ?_⟩ <;>
        simp only [Pass.keep] <;> omega
    | some answer =>
      rw [hanswer] at h
      dsimp only at h
      split_ifs at h with hgoes
      obtain ⟨hinserted, hkept, htotal⟩ := ih h
      rw [if_pos (congrArg some hgoes.2)]
      refine ⟨hinserted, hkept, htotal.trans ?_⟩
      simp only [Pass.drop]
      omega

/-- A strict pass that reaches the end of its rows spares all of them. -/
theorem spared_of_strict (h : rowsStop attempt false i records = none) :
    spared attempt i records = records := by
  induction records generalizing i with
  | nil => rfl
  | cons record rest ih =>
    simp only [rowsStop, Bool.false_eq_true, false_and, or_false] at h
    split at h
    · next hanswer => rw [spared, if_neg (by simp [hanswer]), ih h]
    · next hanswer => exact absurd h hanswer

end Loop

namespace Sql

variable {statements : Statements D O T} {s : Session D} {answer : Option FailureClass}
  {effect : Session D → Session D} {failure : FailureClass} {s' : Session D} {attempt : Attempt T}
  {batch : LogWriteBatch O T} {tolerant : Bool} {retry : Sql D (Option SalvageOutcome)}

theorem run_call_of_none (h : answer = none) : (call answer effect).run s = (.ok (), effect s) := by
  subst h
  rfl

theorem run_call_of_some (h : answer = some failure) :
    (call answer effect).run s = (.error failure, s.failedWith failure) := by
  subst h
  rfl

/-- The statements of a pass touch its view and the log of failures. -/
structure Inside (stop : Option FailureClass) (s s' : Session D) : Prop where
  database : s'.database = s.database
  strictPasses : s'.strictPasses = s.strictPasses
  tolerantPasses : s'.tolerantPasses = s.tolerantPasses
  logged : Logged stop s.failures s'.failures

theorem Inside.trans {stop : Option FailureClass} {s'' : Session D} (h : Inside none s s')
    (h' : Inside stop s' s'') : Inside stop s s'' :=
  ⟨h'.database.trans h.database, h'.strictPasses.trans h.strictPasses,
    h'.tolerantPasses.trans h.tolerantPasses, h.logged.trans h'.logged⟩

theorem inside_seeing (s : Session D) (view : D) : Inside none s (s.seeing view) :=
  ⟨rfl, rfl, rfl, .refl _⟩

theorem inside_failedWith (s : Session D) (failure : FailureClass) :
    Inside (some failure) s (s.failedWith failure) :=
  ⟨rfl, rfl, rfl, .failed failure _⟩

theorem inside_tolerated (s : Session D) : Inside none s (s.failedWith .poison) :=
  ⟨rfl, rfl, rfl, .tolerated _⟩

/-- The loop on the session ends as the pure one, and its view has the spared rows. -/
theorem run_insertLoop (statements : Statements D O T) (attempt : Attempt T) (origin : O)
    (tolerant : Bool) (i : Nat) (rows : List (T × Nat)) (pass : Pass T) (s : Session D) :
    ∃ s', (insertLoop statements attempt origin tolerant i rows pass).run s =
        (Storage.insertLoop attempt tolerant i rows pass, s') ∧
      Inside (rowsStop attempt tolerant i (rows.map Prod.fst)) s s' ∧
      (rowsStop attempt tolerant i (rows.map Prod.fst) = none →
        s'.view = (spared attempt i (rows.map Prod.fst)).foldl
          (fun db record => statements.insertEvent db origin record) s.view) := by
  induction rows generalizing i pass s with
  | nil => exact ⟨s, rfl, ⟨rfl, rfl, rfl, .refl _⟩, fun _ => rfl⟩
  | cons row rest ih =>
    obtain ⟨record, ticket⟩ := row
    simp only [insertLoop, Storage.insertLoop, List.map_cons, rowsStop, spared]
    rw [run_bind_of_ok run_attempt, insertRow]
    cases hanswer : attempt.execute i record with
    | none =>
      rw [run_call_of_none rfl]
      obtain ⟨s', hrun, hinside, hview⟩ := ih (i + 1) (pass.keep record tolerant ticket)
        (s.seeing (statements.insertEvent s.view origin record))
      refine ⟨s', hrun, ?_, ?_⟩
      · simpa using (inside_seeing s _).trans hinside
      · simpa using hview
    | some failure =>
      rw [run_call_of_some rfl]
      by_cases hgoes : tolerant = true ∧ failure = .poison
      · obtain ⟨rfl, rfl⟩ := hgoes
        obtain ⟨s', hrun, hinside, hview⟩ := ih (i + 1) (pass.drop record ticket)
          (s.failedWith .poison)
        refine ⟨s', ?_, ?_, ?_⟩
        · simpa using hrun
        · simpa using (inside_tolerated s).trans hinside
        · simpa using hview
      · refine ⟨s.failedWith failure, ?_, ?_, ?_⟩
        · simp [hgoes]
        · simpa [hgoes] using inside_failedWith s failure
        · simp [hgoes]

theorem map_fst_zip_tickets (batch : LogWriteBatch O T) :
    (batch.records.zip
      (expand batch.segments ++ List.replicate batch.records.length 0)).map Prod.fst =
        batch.records := by
  apply List.map_fst_zip
  simp

/-- The first answer that ends the statements of a pass. -/
def statementsStop (attempt : Attempt T) (tolerant : Bool) (records : List T) :
    Option FailureClass :=
  attempt.resolve.or (rowsStop attempt tolerant 0 records)

theorem errorOf_insertLogsInner (attempt : Attempt T) (batch : LogWriteBatch O T)
    (tolerant : Bool) : errorOf (Storage.insertLogsInner attempt batch tolerant) =
      statementsStop attempt tolerant batch.records := by
  unfold Storage.insertLogsInner statementsStop
  cases attempt.resolve with
  | some answer => rfl
  | none => rw [errorOf_insertLoop, map_fst_zip_tickets, Option.none_or]

theorem run_insertLogsInner (statements : Statements D O T) (attempt : Attempt T)
    (batch : LogWriteBatch O T) (tolerant : Bool) (s : Session D) :
    ∃ s', (insertLogsInner statements attempt batch tolerant).run s =
        (Storage.insertLogsInner attempt batch tolerant, s') ∧
      Inside (statementsStop attempt tolerant batch.records) s s' ∧
      (statementsStop attempt tolerant batch.records = none →
        s'.view = statements.put batch.origin s.view (spared attempt 0 batch.records)) := by
  unfold insertLogsInner Storage.insertLogsInner statementsStop
  cases hresolve : attempt.resolve with
  | some failure =>
    rw [run_bind_of_error (run_call_of_some rfl)]
    exact ⟨_, rfl, inside_failedWith s failure, fun h => by cases h⟩
  | none =>
    rw [run_bind_of_ok (run_call_of_none rfl), Option.none_or]
    obtain ⟨s', hrun, hinside, hview⟩ := run_insertLoop statements attempt batch.origin tolerant 0
      (batch.records.zip (expand batch.segments ++ List.replicate batch.records.length 0))
      Pass.start (s.seeing (statements.upsertResource s.view batch.origin))
    rw [map_fst_zip_tickets] at hinside hview
    exact ⟨s', hrun, (inside_seeing s _).trans hinside, hview⟩

/-- How a pass ends: with all of its rows or none. -/
structure PassEnds (statements : Statements D O T) (attempt : Attempt T)
    (batch : LogWriteBatch O T) (tolerant : Bool) (s s' : Session D) : Prop where
  strictPasses : s'.strictPasses = s.strictPasses + if tolerant then 0 else 1
  tolerantPasses : s'.tolerantPasses = s.tolerantPasses + if tolerant then 1 else 0
  logged : Logged (attempt.stop tolerant batch.records) s.failures s'.failures
  committed : attempt.stop tolerant batch.records = none →
    s'.database = statements.put batch.origin s.database (spared attempt 0 batch.records)
  rolledBack : attempt.stop tolerant batch.records ≠ none → s'.database = s.database

/-- A pass that a call ends leaves the database alone. -/
theorem Inside.passEnds (h : Inside (some failure) (s.counted tolerant) s')
    (hstop : attempt.stop tolerant batch.records = some failure) :
    PassEnds statements attempt batch tolerant s s' where
  strictPasses := h.strictPasses
  tolerantPasses := h.tolerantPasses
  logged := hstop ▸ h.logged
  committed hnone := by
    rw [hstop] at hnone
    cases hnone
  rolledBack _ := h.database

theorem stop_eq (attempt : Attempt T) (tolerant : Bool) (records : List T) :
    attempt.stop tolerant records =
      attempt.begin.or ((statementsStop attempt tolerant records).or attempt.commit) := by
  rw [Attempt.stop, statementsStop, Option.or_assoc]

theorem run_insertPass (statements : Statements D O T) (attempt : Attempt T)
    (batch : LogWriteBatch O T) (tolerant : Bool) (s : Session D) :
    ∃ s', (insertPass statements attempt batch tolerant).run s =
        (transaction attempt batch tolerant, s') ∧
      PassEnds statements attempt batch tolerant s s' := by
  have hstop := stop_eq attempt tolerant batch.records
  rw [← errorOf_insertLogsInner] at hstop
  have hcount : (countPass tolerant).run s = (.ok (), s.counted tolerant) := rfl
  rw [insertPass, run_bind_of_ok hcount, transaction]
  cases hbegin : attempt.begin with
  | some failure =>
    rw [hbegin] at hstop
    rw [run_bind_of_error (run_call_of_some rfl)]
    exact ⟨_, rfl, (inside_failedWith _ failure).passEnds hstop⟩
  | none =>
    rw [hbegin, Option.none_or] at hstop
    rw [run_bind_of_ok (run_call_of_none rfl)]
    obtain ⟨s₁, hrun, hinside, hview⟩ := run_insertLogsInner statements attempt batch tolerant
      ((s.counted tolerant).seeing (s.counted tolerant).database)
    replace hinside := (inside_seeing (s.counted tolerant) _).trans hinside
    rw [← errorOf_insertLogsInner] at hinside hview
    cases hinner : Storage.insertLogsInner attempt batch tolerant with
    | error failure =>
      rw [hinner] at hstop hinside
      rw [run_bind_of_error (hrun.trans (by rw [hinner]))]
      exact ⟨s₁, rfl, hinside.passEnds hstop⟩
    | ok pass =>
      rw [hinner] at hstop hinside hview
      rw [run_bind_of_ok (hrun.trans (by rw [hinner]))]
      cases hcommit : attempt.commit with
      | some failure =>
        rw [hcommit] at hstop
        rw [run_bind_of_error (run_call_of_some rfl)]
        exact ⟨_, rfl, (hinside.trans (inside_failedWith s₁ failure)).passEnds hstop⟩
      | none =>
        rw [hcommit] at hstop
        rw [run_bind_of_ok (run_call_of_none rfl)]
        refine ⟨s₁.published, rfl, hinside.strictPasses,
          hinside.tolerantPasses, ?_, fun _ => hview rfl, fun h => absurd hstop h⟩
        rw [hstop]
        exact hinside.logged

/-- The pure transaction fails with the answer that ended its pass. -/
theorem errorOf_transaction : errorOf (transaction attempt batch tolerant) =
    attempt.stop tolerant batch.records := by
  rw [stop_eq, transaction, ← errorOf_insertLogsInner]
  cases attempt.begin with
  | some answer => rfl
  | none =>
    cases Storage.insertLogsInner attempt batch tolerant with
    | error answer => rfl
    | ok pass => cases attempt.commit <;> rfl

theorem transaction_error_iff : transaction attempt batch tolerant = .error failure ↔
      attempt.stop tolerant batch.records = some failure := by
  rw [← errorOf_transaction, errorOf_eq_some_iff]

/-- What a transaction without an error has inserted and counted. -/
theorem transaction_ok {pass : Pass T} (h : transaction attempt batch tolerant = .ok pass) :
    pass.inserted = spared attempt 0 batch.records ∧
      pass.outcome.kept = (spared attempt 0 batch.records).length ∧
      pass.outcome.kept + pass.outcome.dropped = batch.records.length := by
  unfold transaction at h
  split at h
  · cases h
  split at h
  · cases h
  next pass' hinner =>
    split at h
    · cases h
    obtain rfl := Except.ok.inj h
    unfold Storage.insertLogsInner at hinner
    split at hinner
    · cases hinner
    have hpass := insertLoop_ok hinner
    rw [map_fst_zip_tickets] at hpass
    simpa [Pass.start] using hpass

theorem stop_eq_none_iff :
    attempt.stop tolerant batch.records = none ↔
      ∃ pass, transaction attempt batch tolerant = .ok pass := by
  rw [← errorOf_transaction, errorOf_eq_none_iff]

theorem rowsStop_eq_none_of_stop (h : attempt.stop tolerant records = none) :
    rowsStop attempt tolerant 0 records = none := by
  simp only [Attempt.stop, Option.or_eq_none_iff] at h
  exact h.2.2.1

section Rounds

variable {statements : Statements D O T} {weather : Weather T} {batch : LogWriteBatch O T}
  {attempt : Attempt T} {retry : Sql D (Option SalvageOutcome)} {s : Session D}

/-- How a round ends: with its strict pass, with the salvage pass behind a poison error, or as
its retry does. -/
inductive RoundEnds (statements : Statements D O T) (weather : Weather T)
    (batch : LogWriteBatch O T) (attempt : Attempt T) (retry : Sql D (Option SalvageOutcome))
    (s : Session D) : Except FailureClass (Option SalvageOutcome) × Session D → Prop
  | committed {s' : Session D} (hstop : attempt.stop false batch.records = none)
      (hends : PassEnds statements attempt batch false s s') :
      RoundEnds statements weather batch attempt retry s (.ok none, s')
  | salvaged {s₁ s' : Session D} (hstop : attempt.stop false batch.records = some .poison)
      (hends : PassEnds statements attempt batch false s s₁)
      (hsalvage : PassEnds statements weather.salvage batch true s₁ s') :
      RoundEnds statements weather batch attempt retry s
        ((transaction weather.salvage batch true).map fun pass => some pass.outcome, s')
  | retried {s₁ : Session D} (hstop : attempt.stop false batch.records = some .retryable)
      (hends : PassEnds statements attempt batch false s s₁) :
      RoundEnds statements weather batch attempt retry s (retry.run s₁)
  | refused {s' : Session D} (hstop : attempt.stop false batch.records = some .fatal)
      (hends : PassEnds statements attempt batch false s s') :
      RoundEnds statements weather batch attempt retry s (.error .fatal, s')

theorem roundEnds_persistRound : RoundEnds statements weather batch attempt retry s
    ((persistRound statements weather batch attempt retry).run s) := by
  obtain ⟨s₁, hrun, hends⟩ := run_insertPass statements attempt batch false s
  rw [persistRound, run_bind_of_ok run_attempt, hrun]
  cases hpass : transaction attempt batch false with
  | ok pass => exact .committed (stop_eq_none_iff.mpr ⟨pass, hpass⟩) hends
  | error failure =>
    have hstop := transaction_error_iff.mp hpass
    cases failure with
    | poison =>
      obtain ⟨s', hsalvage, hends'⟩ := run_insertPass statements weather.salvage batch true s₁
      have hround : RoundEnds statements weather batch attempt retry s _ :=
        .salvaged hstop hends hends'
      cases hpass : transaction weather.salvage batch true with
      | error failure =>
        rw [hpass] at hsalvage hround
        dsimp only
        rw [run_bind_of_error hsalvage]
        exact hround
      | ok pass =>
        rw [hpass] at hsalvage hround
        dsimp only
        rw [run_bind_of_ok hsalvage]
        exact hround
    | retryable => exact .retried hstop hends
    | fatal => exact .refused hstop hends

end Rounds

section ExactlyOnce

variable {statements : Statements D O T} {weather : Weather T} {batch : LogWriteBatch O T}
  {strictPasses : Nat} {s s₁ : Session D} {persisted : Except FailureClass (Persisted T)}
  {r : Except FailureClass (Option SalvageOutcome) × Session D}

/-- What the policy has done to a session for which the pure policy returns `persisted`. -/
structure PolicyEnds (statements : Statements D O T) (batch : LogWriteBatch O T)
    (strictPasses : Nat) (s : Session D) (persisted : Except FailureClass (Persisted T))
    (r : Except FailureClass (Option SalvageOutcome) × Session D) : Prop where
  result : r.1 = persisted.map Persisted.salvage
  database : r.2.database = statements.putPersisted batch.origin s.database persisted
  strictPasses : r.2.strictPasses ≤ s.strictPasses + strictPasses
  tolerantPasses : r.2.tolerantPasses ≤ s.tolerantPasses + 1

/-- A pass that was rolled back in front changes nothing but the number of passes. -/
theorem PolicyEnds.behind (h : PolicyEnds statements batch strictPasses s₁ persisted r)
    (hdatabase : s₁.database = s.database) (hstrict : s₁.strictPasses = s.strictPasses + 1)
    (htolerant : s₁.tolerantPasses = s.tolerantPasses) :
    PolicyEnds statements batch (strictPasses + 1) s persisted r where
  result := h.result
  database := hdatabase ▸ h.database
  strictPasses := by
    have := h.strictPasses
    omega
  tolerantPasses := htolerant ▸ h.tolerantPasses

theorem policyEnds_persistRound
    (hretry : ∀ s, PolicyEnds statements batch strictPasses s persisted (retry.run s))
    (attempt : Attempt T) (s : Session D) :
    PolicyEnds statements batch (strictPasses + 1) s
      (Storage.persistRound weather batch attempt persisted)
      ((persistRound statements weather batch attempt retry).run s) := by
  have hround : RoundEnds statements weather batch attempt retry s _ := roundEnds_persistRound
  generalize (persistRound statements weather batch attempt retry).run s = r at hround ⊢
  unfold Storage.persistRound
  cases hround with
  | committed hstop hends =>
    obtain ⟨pass, hpass⟩ := stop_eq_none_iff.mp hstop
    have hput := hends.committed hstop
    rw [← (transaction_ok hpass).1] at hput
    rw [hpass]
    refine ⟨rfl, hput, ?_, ?_⟩
    · exact hends.strictPasses.le.trans (by simp)
    · exact hends.tolerantPasses.le.trans (by simp)
  | @salvaged s₁ s' hstop hends hsalvage =>
    have hback := hends.rolledBack (by simp [hstop])
    have hstrict : s'.strictPasses ≤ s.strictPasses + (strictPasses + 1) := by
      rw [hsalvage.strictPasses, hends.strictPasses]
      simp
    have htolerant : s'.tolerantPasses ≤ s.tolerantPasses + 1 := by
      rw [hsalvage.tolerantPasses, hends.tolerantPasses]
      simp
    rw [transaction_error_iff.mpr hstop]
    cases hpass : transaction weather.salvage batch true with
    | error failure =>
      have hfailed := hsalvage.rolledBack (by simp [transaction_error_iff.mp hpass])
      exact ⟨rfl, hfailed.trans hback, hstrict, htolerant⟩
    | ok pass =>
      have hput := hsalvage.committed (stop_eq_none_iff.mpr ⟨pass, hpass⟩)
      rw [hback, ← (transaction_ok hpass).1] at hput
      exact ⟨rfl, hput, hstrict, htolerant⟩
  | retried hstop hends =>
    rw [transaction_error_iff.mpr hstop]
    exact (hretry _).behind (hends.rolledBack (by simp [hstop])) hends.strictPasses
      hends.tolerantPasses
  | refused hstop hends =>
    rw [transaction_error_iff.mpr hstop]
    refine ⟨rfl, hends.rolledBack (by simp [hstop]), ?_, ?_⟩
    · exact hends.strictPasses.le.trans (by simp)
    · exact hends.tolerantPasses.le.trans (by simp)

theorem policyEnds_persistLoop (statements : Statements D O T) (weather : Weather T)
    (batch : LogWriteBatch O T) (retries : Nat) (s : Session D) :
    PolicyEnds statements batch (retries + 1) s (Storage.persistLoop weather batch retries)
      ((persistLoop statements weather batch retries).run s) := by
  induction retries generalizing s with
  | zero =>
    refine policyEnds_persistRound (fun s => ?_) _ s
    exact ⟨rfl, rfl, le_rfl, Nat.le_succ _⟩
  | succ retries ih => exact policyEnds_persistRound ih _ s

/-- The policy on a session, in one statement: the answer of the pure policy, and the rows
it says it has inserted or none. -/
theorem run_persistWithPolicy (statements : Statements D O T) (weather : Weather T)
    (batch : LogWriteBatch O T) (db : D) :
    ∃ s', (persistWithPolicy statements weather batch).run (.start db) =
        ((Storage.persistWithPolicy weather batch).map Persisted.salvage, s') ∧
      s'.database = statements.putPersisted batch.origin db
        (Storage.persistWithPolicy weather batch) :=
  have hends := policyEnds_persistLoop statements weather batch maxTransientRetries (.start db)
  ⟨_, Prod.ext hends.result rfl, hends.database⟩

end ExactlyOnce

section Inserted

variable {weather : Weather T} {batch : LogWriteBatch O T} {persisted : Persisted T}

/-- What was inserted is what the strict pass or the salvage pass could keep, and the salvage
pass has counted it. -/
structure KeepsSpared (weather : Weather T) (batch : LogWriteBatch O T)
    (persisted : Persisted T) : Prop where
  inserted : persisted.inserted =
    if persisted.salvage.isSome then spared weather.salvage 0 batch.records else batch.records
  counted : ∀ outcome, persisted.salvage = some outcome →
    outcome.kept = (spared weather.salvage 0 batch.records).length ∧
      outcome.kept + outcome.dropped = batch.records.length

theorem keepsSpared_persistRound {retry : Except FailureClass (Persisted T)}
    (hretry : ∀ persisted, retry = .ok persisted → KeepsSpared weather batch persisted)
    (h : Storage.persistRound weather batch attempt retry = .ok persisted) :
    KeepsSpared weather batch persisted := by
  unfold Storage.persistRound at h
  cases hstrict : transaction attempt batch false with
  | ok pass =>
    rw [hstrict] at h
    obtain rfl := Except.ok.inj h
    have hall := rowsStop_eq_none_of_stop (stop_eq_none_iff.mpr ⟨pass, hstrict⟩)
    exact ⟨(transaction_ok hstrict).1.trans (spared_of_strict hall), fun _ h => (by cases h)⟩
  | error failure =>
    rw [hstrict] at h
    cases failure with
    | poison =>
      cases hsalvage : transaction weather.salvage batch true with
      | ok pass =>
        rw [hsalvage] at h
        obtain rfl := Except.ok.inj h
        obtain ⟨hinserted, hcounted⟩ := transaction_ok hsalvage
        exact ⟨hinserted, fun outcome h => Option.some.inj h ▸ hcounted⟩
      | error failure =>
        rw [hsalvage] at h
        cases h
    | retryable => exact hretry persisted h
    | fatal => cases h

theorem keepsSpared_persistWithPolicy
    (h : Storage.persistWithPolicy weather batch = .ok persisted) :
    KeepsSpared weather batch persisted := by
  have hloop : ∀ retries persisted, Storage.persistLoop weather batch retries = .ok persisted →
      KeepsSpared weather batch persisted := by
    intro retries
    induction retries with
    | zero => exact fun persisted => keepsSpared_persistRound (fun _ h => by cases h)
    | succ retries ih => exact fun persisted => keepsSpared_persistRound ih
  exact hloop _ persisted h

end Inserted

section Excuse

variable (weather : Weather T) (records : List T)

/-- A failed policy has met a fatal error, or more retryable ones than it may retry. -/
def Excused (run : Except FailureClass (Option SalvageOutcome) × Session D) : Prop :=
  ∀ failure, run.1 = .error failure →
    .fatal ∈ run.2.failures ∨ maxTransientRetries < run.2.failures.count .retryable

/-- From the `a`-th strict pass on, if a poison error ends one behind retryable errors, then
no poison error ends the salvage pass, and no retryable one while a retry is left. -/
def SalvagesFrom (a : Nat) : Prop :=
  ∀ j, a ≤ j → j ≤ maxTransientRetries →
    (∀ i, a ≤ i → i < j → (weather.strict i).stop false records = some .retryable) →
    (weather.strict j).stop false records = some .poison →
    weather.salvage.stop true records ≠ some .poison ∧
      (j < maxTransientRetries → weather.salvage.stop true records ≠ some .retryable)

variable {weather records} {a : Nat}

theorem salvagesFrom_iff (ha : a ≤ maxTransientRetries) :
    SalvagesFrom weather records a ↔
      ((weather.strict a).stop false records = some .poison →
        weather.salvage.stop true records ≠ some .poison ∧
          (a < maxTransientRetries → weather.salvage.stop true records ≠ some .retryable)) ∧
      ((weather.strict a).stop false records = some .retryable →
        SalvagesFrom weather records (a + 1)) := by
  constructor
  · intro h
    refine ⟨fun hpoison => h a le_rfl ha (fun i hi hlt => absurd hi (Nat.not_le.mpr hlt)) hpoison,
      fun hretry j hj hle hbefore => h j (by omega) hle fun i hi hlt => ?_⟩
    rcases Nat.eq_or_lt_of_le hi with rfl | hi
    · exact hretry
    · exact hbefore i hi hlt
  · rintro ⟨hfirst, hlater⟩ j hj hle hbefore hpoison
    rcases Nat.eq_or_lt_of_le hj with rfl | hj
    · exact hfirst hpoison
    · exact hlater (hbefore a le_rfl hj) j hj hle (fun i hi => hbefore i (by omega)) hpoison

variable {statements : Statements D O T} {batch : LogWriteBatch O T}

/-- No fatal error so far, and `a` retryable ones. -/
structure Retried (s : Session D) (a : Nat) : Prop where
  fatal : .fatal ∉ s.failures
  retryable : s.failures.count .retryable = a

theorem Retried.after (h : Retried s a) (hlogged : Logged stop s.failures s'.failures)
    (hstop : stop ≠ some .fatal) : Retried s' (a + if stop = some .retryable then 1 else 0) := by
  refine ⟨fun hfatal => ?_, by rw [hlogged.retryable, h.retryable]⟩
  rcases hlogged.fatal.mp hfatal with hfatal | hfatal
  · exact h.fatal hfatal
  · exact hstop hfatal

/-- The salvage pass behind `a` retryable errors. -/
theorem excused_salvage (ha : a ≤ maxTransientRetries) (hs : Retried s a)
    (hends : PassEnds statements weather.salvage batch true s s') :
    Excused ((transaction weather.salvage batch true).map fun pass => some pass.outcome, s') ↔
      weather.salvage.stop true batch.records ≠ some .poison ∧
        (a < maxTransientRetries → weather.salvage.stop true batch.records ≠ some .retryable) := by
  have hlogged := hends.logged
  cases hstop : weather.salvage.stop true batch.records with
  | none =>
    obtain ⟨pass, hpass⟩ := stop_eq_none_iff.mp hstop
    rw [hpass]
    exact iff_of_true (fun _ h => (by cases h)) ⟨fun h => (by cases h), fun _ h => (by cases h)⟩
  | some failure =>
    rw [hstop] at hlogged
    have herror : Excused ((transaction weather.salvage batch true).map
        fun pass => some pass.outcome, s') ↔
        .fatal ∈ s'.failures ∨ maxTransientRetries < s'.failures.count .retryable := by
      rw [transaction_error_iff.mpr hstop]
      exact ⟨fun h => h failure rfl, fun h _ _ => h⟩
    rw [herror]
    cases failure with
    | fatal =>
      exact iff_of_true (.inl (hlogged.fatal.mpr (.inr rfl)))
        ⟨fun h => (by cases h), fun _ h => (by cases h)⟩
    | poison =>
      have hs' := hs.after hlogged (by simp)
      have hcount := hs'.retryable
      simp only [Option.some.injEq, reduceCtorEq, if_false, Nat.add_zero] at hcount
      refine iff_of_false (not_or.mpr ⟨hs'.fatal, ?_⟩) fun h => h.1 rfl
      omega
    | retryable =>
      have hs' := hs.after hlogged (by simp)
      have hcount := hs'.retryable
      simp only [if_true] at hcount
      simp only [hs'.fatal, hcount, false_or, ne_eq, Option.some.injEq, reduceCtorEq,
        not_false_eq_true, true_and, not_true_eq_false, imp_false]
      omega

theorem excused_persistRound (ha : a ≤ maxTransientRetries) (hretry : ∀ s, Retried s (a + 1) →
      (Excused (retry.run s) ↔ SalvagesFrom weather batch.records (a + 1))) (hs : Retried s a) :
    Excused ((persistRound statements weather batch (weather.strict a) retry).run s) ↔
      SalvagesFrom weather batch.records a := by
  have hround : RoundEnds statements weather batch (weather.strict a) retry s _ :=
    roundEnds_persistRound
  generalize (persistRound statements weather batch (weather.strict a) retry).run s = r at hround ⊢
  rw [salvagesFrom_iff ha]
  cases hround with
  | committed hstop hends =>
    rw [hstop]
    exact iff_of_true (fun _ h => (by cases h)) ⟨fun h => (by cases h), fun h => (by cases h)⟩
  | @salvaged s₁ s' hstop hends hsalvage =>
    have hs₁ : Retried s₁ a := hs.after (hstop ▸ hends.logged) (by simp)
    rw [hstop, excused_salvage ha hs₁ hsalvage]
    simp
  | @retried s₁ hstop hends =>
    have hs₁ : Retried s₁ (a + 1) := hs.after (hstop ▸ hends.logged) (by simp)
    rw [hstop, hretry s₁ hs₁]
    simp
  | refused hstop hends =>
    have hfatal := hends.logged.fatal.mpr (.inr hstop)
    rw [hstop]
    exact iff_of_true (fun _ _ => .inl hfatal) ⟨fun h => (by cases h), fun h => (by cases h)⟩

/-- The policy has an excuse for every failure exactly if its salvage pass gives it one. -/
theorem excused_persistLoop {retries : Nat} (hretries : retries ≤ maxTransientRetries)
    (hs : Retried s (maxTransientRetries - retries)) :
    Excused ((persistLoop statements weather batch retries).run s) ↔
      SalvagesFrom weather batch.records (maxTransientRetries - retries) := by
  induction retries generalizing s with
  | zero =>
    refine excused_persistRound le_rfl (fun s hs => ?_) hs
    -- the fifth retryable error is one more than may be retried
    refine iff_of_true (fun _ _ => .inr ?_) fun j hj hle => absurd hj (Nat.not_le.mpr ?_)
    · rw [run_fail, hs.retryable]
      exact Nat.lt_succ_self _
    · exact Nat.lt_succ_of_le hle
  | succ retries ih =>
    have hnext : maxTransientRetries - (retries + 1) + 1 = maxTransientRetries - retries := by
      omega
    refine excused_persistRound (Nat.sub_le _ _) (fun s hs => ?_) hs
    rw [hnext] at hs ⊢
    exact ih (Nat.le_of_succ_le hretries) hs

end Excuse

end Sql

/-- A batch is persisted as a whole, up to its poisonous rows, or not at all. -/
theorem persist_exactly_once (statements : Statements D O T) (weather : Weather T)
    (batch : LogWriteBatch O T) (db : D) :
    let r := (Sql.persistWithPolicy statements weather batch).run (.start db)
    (r.1 = .ok none → r.2.database = statements.put batch.origin db batch.records) ∧
      (∀ outcome, r.1 = .ok (some outcome) →
        r.2.database =
            statements.put batch.origin db (spared weather.salvage 0 batch.records) ∧
          outcome.kept = (spared weather.salvage 0 batch.records).length ∧
          outcome.kept + outcome.dropped = batch.records.length) ∧
      (∀ failure, r.1 = .error failure → r.2.database = db) ∧
      r.2.strictPasses ≤ 5 ∧ r.2.tolerantPasses ≤ 1 := by
  intro r
  have hends := Sql.policyEnds_persistLoop statements weather batch maxTransientRetries (.start db)
  have hresult : r.1 = (persistWithPolicy weather batch).map Persisted.salvage := hends.result
  have hput : r.2.database = statements.putPersisted batch.origin db
    (persistWithPolicy weather batch) := hends.database
  cases hpolicy : persistWithPolicy weather batch with
  | error failure =>
    rw [hpolicy] at hresult hput
    refine ⟨fun h => ?_, fun _ h => ?_, fun _ _ => hput, hends.strictPasses,
      hends.tolerantPasses⟩
    · cases hresult.symm.trans h
    · cases hresult.symm.trans h
  | ok persisted =>
    obtain ⟨hinserted, hcounted⟩ := Sql.keepsSpared_persistWithPolicy hpolicy
    rw [hpolicy] at hresult hput
    refine ⟨fun h => ?_, fun outcome h => ?_, fun _ h => ?_, hends.strictPasses,
      hends.tolerantPasses⟩
    · have hstrict : persisted.salvage = none := Except.ok.inj (hresult.symm.trans h)
      rw [hput, Statements.putPersisted, hinserted, hstrict]
      rfl
    · have hsalvage : persisted.salvage = some outcome := Except.ok.inj (hresult.symm.trans h)
      rw [hput, Statements.putPersisted, hinserted, hsalvage]
      exact ⟨rfl, hcounted outcome hsalvage⟩
    · cases hresult.symm.trans h

/-- The writer is stopped without a fatal error and within its retries exactly if the
salvage pass behind a poison error is. -/
theorem writer_failure_excused_iff (statements : Statements D O T) (weather : Weather T)
    (batch : LogWriteBatch O T) (db : D) :
    Sql.Excused ((Sql.persistWithPolicy statements weather batch).run (.start db)) ↔
      Sql.SalvagesFrom weather batch.records 0 :=
  Sql.excused_persistLoop le_rfl ⟨List.not_mem_nil, rfl⟩

section Sample

/-- Rows in a list. -/
def rowList : Statements (List Nat) Nat Nat where
  upsertResource db _ := db
  insertEvent db _ record := record :: db

def oneRecord : LogWriteBatch Nat Nat := ⟨0, [7], [], []⟩

/-- The resource row is refused every time. -/
def poisonousResource : Weather Nat where
  strict _ := ⟨none, some .poison, fun _ _ => none, none⟩
  salvage := ⟨none, some .poison, fun _ _ => none, none⟩
  upkeep := none

/-- A row is refused and the database is busy when the salvage pass begins. -/
def busySalvage : Weather Nat where
  strict _ := ⟨none, none, fun _ _ => some .poison, none⟩
  salvage := ⟨some .retryable, none, fun _ _ => none, none⟩
  upkeep := none

end Sample

/-- Poison errors alone stop the writer, and so does a single busy answer. -/
theorem salvage_errors_stop_writer :
    ¬Sql.Excused ((Sql.persistWithPolicy rowList poisonousResource oneRecord).run (.start [])) ∧
      ¬Sql.Excused ((Sql.persistWithPolicy rowList busySalvage oneRecord).run (.start [])) := by
  constructor
  · intro h
    have hlog : ((Sql.persistWithPolicy rowList poisonousResource oneRecord).run
        (.start [])).2.failures = [.poison, .poison] := by decide
    have hexcuse := h .poison rfl
    rw [hlog] at hexcuse
    revert hexcuse
    decide
  · intro h
    have hlog : ((Sql.persistWithPolicy rowList busySalvage oneRecord).run
        (.start [])).2.failures = [.poison, .retryable] := by decide
    have hexcuse := h .retryable rfl
    rw [hlog] at hexcuse
    revert hexcuse
    decide

end OtelSqlite.Storage
