import OtelSqlite.Runtime.Watchdog
import OtelSqlite.Sqlite.WriterRefinement

/-!
# What the writer thread leaves for its observers

The guards of the writer clear its evidence on every exit, so the watchdog sees a dead
thread and never one in maintenance. A run that ends well has counted each command for what
it did: a heavy operation that was deferred and a retention that is disabled are no runs and
no progress.
-/

namespace OtelSqlite.Sqlite

open OtelSqlite.Lib OtelSqlite.Lib.Fallible OtelSqlite.Model OtelSqlite.Core
open OtelSqlite.Storage (FailureClass WriterStats BatcherStats StorageHealth)
open OtelSqlite.Runtime (MaintenanceOperation WatchdogConfig evaluate)

variable {T α : Type} {libraries : Libraries} {rowIds : RowIds} {payload : T → LogRecord}
  {w w' : Writer}

section Cleared

/-- No maintenance is in progress. -/
def Writer.Untended (w : Writer) : Prop :=
  w.stats.maintenanceInProgress = false ∧ w.stats.maintenanceStartedMs = 0

/-- Nothing is in progress. -/
def Writer.Cleared (w : Writer) : Prop := w.stats.inFlight = 0 ∧ w.Untended

theorem untended_onConn (m : Upkeep α) : Preserves Writer.Untended (onConn m) := fun _ h => h

/-- The guard clears the flag whatever ran under it. -/
theorem untended_maintenanceGuard (clock : Nat) (m : Writing α) :
    Preserves Writer.Untended (maintenanceGuard clock m) := fun _ _ => ⟨rfl, rfl⟩

variable (libraries rowIds payload) in
theorem untended_executeCommand (turn : Turn T) :
    Preserves Writer.Untended (executeCommand libraries rowIds payload turn) := by
  unfold executeCommand
  split
  · split
    · exact fun _ h => h
    refine Preserves.bind (fun _ h => h) fun _ => ?_
    refine Preserves.bind (fun _ h => h) fun salvage => ?_
    exact Preserves.bind (fun _ h => h) fun _ _ h => h
  · exact .pure ()
  · exact untended_maintenanceGuard _ _
  · exact untended_maintenanceGuard _ _

theorem untended_quotaFirst (quota : Option Nat) (turn : Turn T) :
    Preserves Writer.Untended (quotaFirst quota turn) := by
  unfold quotaFirst
  split
  · split
    · refine (untended_onConn databaseBytes).bind fun size => ?_
      split
      · exact .pure ()
      · exact untended_maintenanceGuard _ _
    · exact .pure ()
  · exact .pure ()

variable (libraries rowIds payload) in
theorem cleared_takeTurn (quota : Option Nat) (turn : Turn T) :
    Preserves Writer.Cleared (takeTurn libraries rowIds payload quota turn) := by
  intro w hw
  have hbody := (untended_quotaFirst quota turn).bind fun _ =>
    untended_executeCommand libraries rowIds payload turn
  exact ⟨rfl, hbody { w with stats := w.stats.beginCommand turn.backlog } hw.2⟩

variable (libraries rowIds payload) in
theorem cleared_commandLoop (quota faultAfter : Option Nat) (processed : Nat)
    (turns : List (Turn T)) :
    Preserves Writer.Cleared
      (commandLoop libraries rowIds payload quota faultAfter processed turns) := by
  induction turns generalizing processed with
  | nil => exact .pure ()
  | cons turn turns ih =>
    refine Preserves.bind (fun _ h => h) fun _ => ?_
    refine (cleared_takeTurn libraries rowIds payload quota turn).bind fun _ => ?_
    refine Preserves.bind (fun w hw => ?_) fun _ => ih (processed + 1)
    obtain hgoes | ⟨hfault, -⟩ := run_faultExit faultAfter (processed + 1) w
    · rwa [hgoes]
    · rwa [hfault]

theorem cleared_serve (quota faultAfter : Option Nat) (clock : Nat) (turns : List (Turn T)) :
    Preserves Writer.Cleared (serve libraries rowIds payload quota faultAfter clock turns) := by
  refine Preserves.bind (fun _ h => h) fun _ => ?_
  refine Preserves.bind (fun _ h => h) fun _ => ?_
  refine (cleared_commandLoop libraries rowIds payload quota faultAfter 0 turns).bind fun _ => ?_
  exact Preserves.bind (fun _ h => h) fun _ _ h => h

variable (libraries rowIds payload) in
/-- The thread is seen as dead and as doing nothing, however its run ended. -/
theorem cleared_runWriter (quota faultAfter : Option Nat) (bootstrap : Option FailureClass)
    (clock : Nat) (turns : List (Turn T)) (hw : w.Cleared) :
    let w' := ((runWriter libraries rowIds payload quota faultAfter bootstrap clock turns).run w).2
    w'.stats.running = false ∧ w'.Cleared := by
  refine ⟨rfl, ?_⟩
  cases bootstrap with
  | some failure => exact hw
  | none => exact cleared_serve quota faultAfter clock turns _ hw

end Cleared

section Account

variable {turn : Turn T} {quota faultAfter : Option Nat} {turns : List (Turn T)}

/-- What is counted of the commands, and the last progress. -/
structure Account where
  batchesReceived : Nat
  maintenanceRuns : Nat
  deferredRuns : Nat
  lastProgressMs : Nat
  deriving DecidableEq, Repr

def Writer.account (w : Writer) : Account :=
  ⟨w.batchesReceived, w.maintenanceRuns, w.deferredRuns, w.stats.lastProgressMs⟩

namespace Account

def insert (a : Account) (clock : Nat) : Account :=
  { a with batchesReceived := a.batchesReceived + 1, lastProgressMs := clock }

def maintain (a : Account) (clock : Nat) : Account :=
  { a with maintenanceRuns := a.maintenanceRuns + 1, lastProgressMs := clock }

/-- The account behind a command that was executed. -/
def after (a : Account) (turn : Turn T) : Account :=
  match turn.command with
  | .insertLogs batch => if batch.records = [] then a else a.insert turn.clock
  | .flush => a
  | .checkpoint _ => a.maintain turn.clock
  | .maintenance operation =>
    if defers operation turn.backlog then { a with deferredRuns := a.deferredRuns + 1 }
    else if operation = .prune none then a
    else a.maintain turn.clock

end Account

theorem run_onConn_ok {m : Upkeep α} {a : α} (h : (onConn m).run w = (.ok a, w')) :
    w'.account = w.account := by
  have hstate : ((onConn m).run w).2 = w' := congrArg Prod.snd h
  rw [← hstate]
  rfl

/-- What an operation says of itself is whether it ran. -/
theorem runMaintenance_account {operation : MaintenanceOperation} {ran : Bool}
    (h : (runMaintenance turn operation).run w = (.ok ran, w')) :
    (if ran then w'.account.maintain turn.clock else w'.account) =
      if defers operation turn.backlog then
        { w.account with deferredRuns := w.account.deferredRuns + 1 }
      else if operation = .prune none then w.account
      else w.account.maintain turn.clock := by
  unfold runMaintenance at h
  split at h
  · next hdefers =>
    cases h
    rw [if_pos hdefers]
    rfl
  next hdefers =>
    rw [if_neg hdefers]
    cases operation with
    | analyze | vacuum | rebuildFts =>
      obtain ⟨_, w₁, hconn, hpure⟩ := run_bind_ok_iff.mp h
      cases hpure
      rw [if_pos rfl, if_neg (by simp), run_onConn_ok hconn]
    | prune window =>
      cases window with
      | none =>
        cases h
        rfl
      | some window =>
        obtain ⟨_, w₁, hconn, hpure⟩ := run_bind_ok_iff.mp h
        cases hpure
        rw [if_pos rfl, if_neg (by simp), run_onConn_ok hconn]

theorem run_guarded_ok {enter leave : Writer → Writer} {m : Writing α} {a : α}
    (h : (guarded enter leave m).run w = (.ok a, w')) :
    ∃ w₁, m.run (enter w) = (.ok a, w₁) ∧ w' = leave w₁ := by
  have hresult : (m.run (enter w)).1 = .ok a := congrArg Prod.fst h
  have hstate : leave (m.run (enter w)).2 = w' := congrArg Prod.snd h
  exact ⟨_, Prod.ext hresult rfl, hstate.symm⟩

theorem executeCommand_account
    (h : (executeCommand libraries rowIds payload turn).run w = (.ok (), w')) :
    w'.account = w.account.after turn := by
  unfold executeCommand at h
  unfold Account.after
  cases hcommand : turn.command with
  | insertLogs batch =>
    rw [hcommand] at h
    dsimp only at h ⊢
    split_ifs at h ⊢ with hrecords
    · cases h
      rfl
    · obtain ⟨_, w₁, hcount, h⟩ := run_bind_ok_iff.mp h
      obtain ⟨salvage, w₂, hpersist, h⟩ := run_bind_ok_iff.mp h
      obtain ⟨_, w₃, hmark, h⟩ := run_bind_ok_iff.mp h
      cases hcount
      have hstate : ((persistBatch libraries rowIds payload turn batch).run _).2 = w₂ :=
        congrArg Prod.snd hpersist
      cases hmark
      cases h
      rw [← hstate]
      rfl
  | flush =>
    rw [hcommand] at h
    cases h
    rfl
  | checkpoint mode =>
    rw [hcommand] at h
    obtain ⟨w₁, hbody, rfl⟩ := run_guarded_ok h
    obtain ⟨_, w₂, hconn, hrest⟩ := run_bind_ok_iff.mp hbody
    cases hrest
    show (Account.maintain w₂.account turn.clock) = _
    rw [run_onConn_ok hconn]
    rfl
  | maintenance operation =>
    rw [hcommand] at h
    obtain ⟨w₁, hbody, rfl⟩ := run_guarded_ok h
    obtain ⟨ran, w₂, hmaintenance, hrest⟩ := run_bind_ok_iff.mp hbody
    have haccount := runMaintenance_account hmaintenance
    cases ran with
    | false | true =>
      cases hrest
      exact haccount

/-- The enforcement of the quota counts no command, and only an insert of records comes
behind one. -/
theorem quotaFirst_account (quota : Option Nat) (turn : Turn T) (w : Writer) :
    ∃ w₁, (quotaFirst quota turn).run w = (.ok (), w₁) ∧ w₁.account.after turn =
      w.account.after turn := by
  cases quota with
  | none => exact ⟨w, rfl, rfl⟩
  | some limit =>
    by_cases hrecords : Storage.recordCount turn.command.kind ≠ 0
    · rw [quotaFirst, if_pos hrecords]
      refine ⟨_, Prod.ext (enforceQuota_ok limit turn.clock w) rfl, ?_⟩
      have hcounts : Keeps (fun w : Writer => (w.batchesReceived, w.maintenanceRuns, w.deferredRuns))
          (enforceQuota limit turn.clock) := by
        refine Keeps.bind (fun _ _ h => h) fun size => ?_
        split
        · exact fun _ => .pure ()
        refine fun shown => preserves_guarded (fun _ h => h) ?_ (fun _ h => h)
        refine Preserves.bind (fun _ h => h) fun outcome => ?_
        cases outcome with
        | error failure => exact .pure ()
        | ok report => exact Preserves.bind (fun _ h => h) fun _ _ h => h
      have hsame := hcounts _ w rfl
      simp only [Prod.mk.injEq] at hsame
      obtain ⟨hbatches, hruns, hdeferred⟩ := hsame
      cases hcommand : turn.command with
      | insertLogs batch =>
        have hne : batch.records ≠ [] := by
          rintro hnil
          rw [hcommand] at hrecords
          exact hrecords (by simp [WriterCommand.kind, Storage.recordCount, hnil])
        simp only [Account.after, hcommand, if_neg hne, Account.insert, Writer.account, hbatches,
          hruns, hdeferred]
      | flush | checkpoint mode | maintenance operation =>
        rw [hcommand] at hrecords
        exact absurd rfl hrecords
    · rw [quotaFirst, if_neg hrecords]
      exact ⟨w, rfl, rfl⟩

theorem takeTurn_account (h : (takeTurn libraries rowIds payload quota turn).run w = (.ok (), w')) :
    w'.account = w.account.after turn := by
  unfold takeTurn at h
  obtain ⟨w₂, hbody, rfl⟩ := run_guarded_ok h
  obtain ⟨w₁, hquota, hsame⟩ := quotaFirst_account quota turn
    { w with stats := w.stats.beginCommand turn.backlog }
  rw [run_bind_of_ok hquota] at hbody
  exact (executeCommand_account hbody).trans hsame

theorem commandLoop_account {processed : Nat}
    (h : (commandLoop libraries rowIds payload quota faultAfter processed turns).run w =
      (.ok (), w')) : w'.account = turns.foldl Account.after w.account := by
  induction turns generalizing processed w with
  | nil =>
    cases h
    rfl
  | cons turn turns ih =>
    rw [commandLoop] at h
    obtain ⟨_, w₁, hdepth, h₁⟩ := run_bind_ok_iff.mp h
    obtain ⟨_, w₂, hturn, h₂⟩ := run_bind_ok_iff.mp h₁
    obtain ⟨_, w₃, hfault, h₃⟩ := run_bind_ok_iff.mp h₂
    cases hdepth
    have hsame : w₃ = w₂ := by
      obtain hgoes | ⟨hfails, -⟩ := run_faultExit faultAfter (processed + 1) w₂
      · exact congrArg Prod.snd (hfault.symm.trans hgoes)
      · rw [hfails] at hfault
        cases hfault
    rw [ih h₃, hsame, takeTurn_account hturn]
    rfl

theorem serve_account {clock : Nat}
    (h : (serve libraries rowIds payload quota faultAfter clock turns).run w = (.ok (), w')) :
    w'.stats.queueDepth = 0 ∧
      w'.account = turns.foldl Account.after { w.account with lastProgressMs := clock } := by
  obtain ⟨_, w₁, hfirst, h₁⟩ := run_bind_ok_iff.mp h
  obtain ⟨_, w₂, hmark, h₂⟩ := run_bind_ok_iff.mp h₁
  obtain ⟨_, w₃, hloop, h₃⟩ := run_bind_ok_iff.mp h₂
  obtain ⟨_, w₄, hdepth, hlast⟩ := run_bind_ok_iff.mp h₃
  cases hmark
  cases hdepth
  have hstate : ((onConn (checkpointIn .truncate)).run _).2 = w' := congrArg Prod.snd hlast
  refine ⟨by rw [← hstate]; rfl, (run_onConn_ok hlast).trans ?_⟩
  refine (commandLoop_account hloop).trans ?_
  rw [← run_onConn_ok hfirst]
  rfl

end Account

/-- **What the writer leaves behind.** However its run ends, the evidence is cleared and the
watchdog sees a dead writer, whatever the other threads have left. A run that ends well has
accounted for every command of the queue. -/
theorem writer_evidence (quota faultAfter : Option Nat) (bootstrap : Option FailureClass)
    (clock : Nat) (turns : List (Turn T)) (hw : w.Cleared) {result : Except FailureClass Unit}
    (hrun : (runWriter libraries rowIds payload quota faultAfter bootstrap clock turns).run w =
      (result, w')) :
    w'.Cleared ∧
      (∀ product config batcher ledger capacity now, evaluate product config
        ((StorageHealth.mk w'.stats batcher ledger capacity).sample now) =
          ⟨.unhealthy, .writerNotRunning⟩) ∧
      (result = .ok () → w'.stats.queueDepth = 0 ∧
        w'.account = turns.foldl Account.after { w.account with lastProgressMs := clock }) := by
  have hstate := congrArg Prod.snd hrun
  obtain ⟨hdead, hcleared⟩ := cleared_runWriter libraries rowIds payload quota faultAfter
    bootstrap clock turns hw
  rw [hstate] at hdead hcleared
  refine ⟨hcleared, fun product config batcher ledger capacity now => ?_, ?_⟩
  · have hsample : ((StorageHealth.mk w'.stats batcher ledger capacity).sample now).writerRunning =
        false := hdead
    rw [evaluate, hsample]
    rfl
  · rintro rfl
    obtain ⟨w₁, hinner, rfl⟩ := run_guarded_ok hrun
    unfold runInner at hinner
    obtain ⟨w₂, hbody, rfl⟩ := run_guarded_ok hinner
    obtain ⟨_, w₃, hready, hserve⟩ := run_bind_ok_iff.mp hbody
    cases bootstrap with
    | some failure => cases hserve
    | none =>
      cases hready
      obtain ⟨hdepth, haccount⟩ := serve_account hserve
      exact ⟨hdepth, haccount⟩

/-- The sample queue up to the insert that fails. -/
def healthyRun : Except FailureClass Unit × Writer :=
  (runWriter lengthDigest nextRowId id (some 100) none none 5 (sampleTurns.take 3)).run sampleWriter

theorem writer_evidence_sample :
    healthyRun.1.isOk = true ∧ healthyRun.2.Cleared ∧ healthyRun.2.account = ⟨1, 1, 1, 7⟩ := by
  have hok : healthyRun.1 = .ok () := rfl
  obtain ⟨hcleared, -, hended⟩ := writer_evidence (some 100) none none 5 (sampleTurns.take 3)
    (w := sampleWriter) ⟨rfl, rfl, rfl⟩
    (Prod.ext hok rfl : healthyRun = (.ok (), healthyRun.2))
  refine ⟨by rw [hok]; rfl, hcleared, (hended rfl).2.trans ?_⟩
  decide

end OtelSqlite.Sqlite
