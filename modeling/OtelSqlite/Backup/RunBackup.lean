import OtelSqlite.Backup.Effects
import OtelSqlite.Backup.RoundTrip
import OtelSqlite.Backup.Snapshot

/-!
# A backup run and the plaintext it may leave

`run_backup` takes the snapshot first and encrypts it afterwards. The snapshot is
deleted only behind a successful encryption, so whatever makes the encryption fail
(the key file to begin with) leaves the plaintext in the output directory.
-/

namespace OtelSqlite.Backup

open OtelSqlite.Lib OtelSqlite.Lib.Fallible OtelSqlite.Lib.Disk

/-- What the machine gives a run: SQLite, the hash, the cipher, a random nonce, the
clock (none before the epoch) and the modification times. -/
structure Host where
  engine : Engine
  sha256 : Bytes → String
  aead : Aead
  base : Nonce
  epoch : Option Nat
  modified : Path → Option Nat

structure BackupArgs where
  db : Path
  outDir : String
  keep : Nat
  keyFile : Option Path

inductive RunError where
  | context (text : String) (cause : BackupError)
  | clock (text : String)
  | backup (cause : BackupError)
  deriving DecidableEq, Repr

abbrev RunIo := Fallible (Disk Path) RunError

def Path.display (p : Path) : String := p.dir ++ "/" ++ p.name

section Run

variable (host : Host) (args : BackupArgs)

def nowEpochSecs : RunIo Nat :=
  match host.epoch with
  | some epoch => pure epoch
  | none => fail (.clock
      "system clock is before the Unix epoch; refusing to name a backup artifact")

/-- The search for a free path reads the directory as it is now. -/
def freePath (epoch : Nat) (encrypted : Bool) : RunIo Path :=
  ⟨fun d => (.ok (uniqueBackupPath d.files args.outDir epoch encrypted), d)⟩

/-- The encrypted branch: encrypt, delete the plaintext, describe the artifact. -/
def encryptSnapshot (epoch : Nat) (plain keyFile : Path) (report : BackupReport) :
    RunIo BackupReport := do
  let encrypted ← freePath args epoch true
  (encryptFile host.aead host.base plain encrypted keyFile).mapError .backup
  (io (removeFile plain)).mapError
    (.context s!"failed to remove plaintext snapshot {plain.display}")
  let digest ← (sha256Hex host.sha256 encrypted).mapError .backup
  pure { report with
    backup := encrypted
    encrypted := true
    sha256 := digest
    verify := { report.verify with path := encrypted, sha256 := digest } }

/-- The report and the number of pruned files, which are printed. -/
def runBackup : RunIo (BackupReport × Nat) := do
  (io step).mapError (.context s!"cannot create {args.outDir}") -- create_dir_all
  let epoch ← nowEpochSecs host
  let plain ← freePath args epoch false
  let report ← (backupTo host.engine host.sha256 args.db plain).mapError .backup
  let report ← match args.keyFile with
    | some keyFile => encryptSnapshot host args epoch plain keyFile report
    | none => pure report
  let pruned ← (pruneOldBackups host.modified args.outDir args.keep).mapError .backup
  pure (report, pruned)

end Run

section Plaintext

variable {host : Host} {args : BackupArgs} {epoch : Nat} {keyFile : Path} {d : Disk Path}

/-- The snapshot that a run with this clock takes is taken under this path. -/
def plainPath (args : BackupArgs) (epoch : Nat) (d : Disk Path) : Path :=
  uniqueBackupPath d.files args.outDir epoch false

/-- The path of the encrypted artifact, which is chosen after the snapshot. -/
def artifactPath (args : BackupArgs) (epoch : Nat) (d : Disk Path) : Path :=
  uniqueBackupPath d.files args.outDir epoch true

/-- The last character of a name tells an encrypted artifact from a snapshot file. -/
theorem ne_artifactPath {d' : Disk Path} {p : Path}
    (hp : p ∈ snapshotFiles (plainPath args epoch d)) : p ≠ artifactPath args epoch d' := by
  obtain ⟨suffix, hsuffix, rfl⟩ := List.mem_map.mp hp
  obtain ⟨front, hfront⟩ := name_uniqueBackupPath d.files args.outDir epoch false
  obtain ⟨front', hfront'⟩ := name_uniqueBackupPath d'.files args.outDir epoch true
  intro h
  have hname : front ++ "bak" ++ suffix = front' ++ "otsb" := by
    rw [← show _ = front ++ "bak" from hfront, ← show _ = front' ++ "otsb" from hfront']
    exact congrArg Path.name h
  have hlast := congrArg (fun name : String => name.toList.getLast?) hname
  simp only [databaseSuffixes, List.mem_cons, List.not_mem_nil, or_false] at hsuffix
  rcases hsuffix with rfl | rfl | rfl | rfl <;> simp [String.toList_append] at hlast

/-- A snapshot is taken and cannot be encrypted. -/
def Stranded (host : Host) (args : BackupArgs) (keyFile : Path) (d : Disk Path) : Prop :=
  ∃ epoch, host.epoch = some epoch ∧ d.faults 0 = false ∧
    Snapshottable host.engine args.db (plainPath args epoch d) d.advance ∧
    ¬ Encryptable host.aead host.base (plainPath args epoch d)
      (artifactPath args epoch (afterSnapshot host.engine (plainPath args epoch d) d.advance))
      keyFile (afterSnapshot host.engine (plainPath args epoch d) d.advance)

/-- No file of the snapshot that was not there before is there after the run. -/
def NoPlaintextLeft (host : Host) (args : BackupArgs) (d : Disk Path) : Prop :=
  ∀ epoch, host.epoch = some epoch → ∀ p ∈ snapshotFiles (plainPath args epoch d),
    d.files.lookup p = none → ((runBackup host args).run d).2.files.lookup p = none

/-- An encryption that fails ends the run in front of the deletion. -/
theorem encryptSnapshot_of_not_encryptable {plain : Path} {bytes : Bytes} (report : BackupReport)
    (hplain : plain ≠ artifactPath args epoch d) (hlookup : d.files.lookup plain = some bytes)
    (h : ¬ Encryptable host.aead host.base plain (artifactPath args epoch d) keyFile d) :
    ∃ e d', (encryptSnapshot host args epoch plain keyFile report).run d = (.error e, d') ∧
      d'.files.lookup plain = some bytes := by
  have hfree : (freePath args epoch true).run d = (.ok (artifactPath args epoch d), d) := rfl
  rw [encryptSnapshot, run_bind_of_ok hfree]
  obtain ⟨_, d', hok⟩ | ⟨e, d', herror⟩ := run_cases
    (encryptFile host.aead host.base plain (artifactPath args epoch d) keyFile) d
  · exact absurd (succeeds_encryptFile_iff.mp ⟨_, d', hok⟩) h
  · have hkept := preserves_encryptFile host.aead host.base plain keyFile
      (independent_lookup hplain) d hlookup
    rw [herror] at hkept
    exact ⟨_, d', run_bind_of_error (run_mapError_of_error herror), hkept⟩

/-- Behind an encryption the plaintext is deleted and nothing brings it back. -/
theorem encryptSnapshot_of_encryptable {p plain : Path} {report : BackupReport}
    (hartifact : p ≠ artifactPath args epoch d) (hstuck : d.stuck p = false)
    (hlookup : p ≠ plain → d.files.lookup p = none)
    (h : Encryptable host.aead host.base plain (artifactPath args epoch d) keyFile d) :
    ((encryptSnapshot host args epoch plain keyFile report).run d).2.files.lookup p = none := by
  have hfree : (freePath args epoch true).run d = (.ok (artifactPath args epoch d), d) := rfl
  obtain ⟨_, d', hok⟩ := succeeds_encryptFile_iff.mpr h
  rw [encryptSnapshot, run_bind_of_ok hfree, run_bind_of_ok (run_mapError_ok_iff.mpr hok)]
  have hother : Independent (artifactPath args epoch d) fun d => d.files.lookup p = none :=
    independent_lookup hartifact
  refine after_bind (I := fun d : Disk Path => d.files.lookup p = none) ?_ fun _ => ?_
  · show ((removeFile plain).run d').2.files.lookup p = none
    by_cases hp : p = plain
    · subst hp
      have hkept := preserves_encryptFile host.aead host.base p keyFile
        (independent_stuck (artifactPath args epoch d)) d rfl
      rw [hok] at hkept
      exact lookup_removeFile (by rw [hkept, hstuck])
    · have hkept := preserves_encryptFile host.aead host.base plain keyFile hother d (hlookup hp)
      rw [hok] at hkept
      exact absent_removeFile plain d' hkept
  · exact (preserves_sha256Hex hother.toPassive _).mapError.bind fun _ => .pure _

/-- Behind the directory and the clock comes the snapshot. -/
theorem runBackup_of_created (hepoch : host.epoch = some epoch) (hfault : d.faults 0 = false) :
    (runBackup host args).run d =
      (do
        let plain := plainPath args epoch d
        let report ← (backupTo host.engine host.sha256 args.db plain).mapError .backup
        let report ← match args.keyFile with
          | some keyFile => encryptSnapshot host args epoch plain keyFile report
          | none => pure report
        let pruned ← (pruneOldBackups host.modified args.outDir args.keep).mapError .backup
        pure (report, pruned) : RunIo (BackupReport × Nat)).run d.advance := by
  have hdir : (io step).run d = (.ok (), d.advance) :=
    io_ok_iff.mpr (step_ok_iff.mpr ⟨hfault, rfl⟩)
  have hclock : (nowEpochSecs host).run d.advance = (.ok epoch, d.advance) := by
    rw [nowEpochSecs, hepoch]
    rfl
  have hfree : (freePath args epoch false).run d.advance =
      (.ok (plainPath args epoch d), d.advance) := rfl
  rw [runBackup, run_bind_of_ok (run_mapError_ok_iff.mpr hdir), run_bind_of_ok hclock,
    run_bind_of_ok hfree]

/-- The part of a run behind a successful snapshot. -/
theorem runBackup_of_snapshottable (hkey : args.keyFile = some keyFile)
    (hepoch : host.epoch = some epoch) (hfault : d.faults 0 = false)
    (hsnap : Snapshottable host.engine args.db (plainPath args epoch d) d.advance) :
    ∃ report, (runBackup host args).run d =
      (do
        let report ← encryptSnapshot host args epoch (plainPath args epoch d) keyFile report
        let pruned ← (pruneOldBackups host.modified args.outDir args.keep).mapError .backup
        pure (report, pruned) : RunIo (BackupReport × Nat)).run
          (afterSnapshot host.engine (plainPath args epoch d) d.advance) := by
  obtain ⟨report, hbackup⟩ : ∃ report,
      (backupTo host.engine host.sha256 args.db (plainPath args epoch d)).run d.advance =
        (.ok report, afterSnapshot host.engine (plainPath args epoch d) d.advance) :=
    backupTo_ok_iff.mpr ⟨hsnap, rfl⟩
  refine ⟨report, ?_⟩
  rw [runBackup_of_created hepoch hfault, run_bind_of_ok (run_mapError_ok_iff.mpr hbackup), hkey]

/-- A run whose snapshot is not taken leaves nothing of it. -/
theorem runBackup_of_not_snapshottable {p : Path} (hepoch : host.epoch = some epoch)
    (hp : p ∈ snapshotFiles (plainPath args epoch d)) (hstuck : d.stuck p = false)
    (habsent : d.files.lookup p = none)
    (h : ¬ (d.faults 0 = false ∧
      Snapshottable host.engine args.db (plainPath args epoch d) d.advance)) :
    ((runBackup host args).run d).2.files.lookup p = none := by
  obtain ⟨_, d₁, hdir⟩ | ⟨e, d₁, hdir⟩ := run_cases (io step) d
  · obtain ⟨hfault, rfl⟩ := step_ok_iff.mp (io_ok_iff.mp hdir)
    rw [runBackup_of_created hepoch hfault]
    obtain ⟨report, d₂, hbackup⟩ | ⟨e, d₂, hbackup⟩ := run_cases
      (backupTo host.engine host.sha256 args.db (plainPath args epoch d)) d.advance
    · exact absurd ⟨hfault, (backupTo_ok_iff.mp ⟨report, hbackup⟩).1⟩ h
    · rw [run_bind_of_error (run_mapError_of_error hbackup)]
      exact absent_backupTo_of_error hbackup hp hstuck habsent
  · have hfiles : d₁.files = d.files := keeps_step.mapError.of_run hdir
    rw [runBackup, run_bind_of_error (run_mapError_of_error hdir), hfiles]
    exact habsent

/-- With a key file and files that can be deleted, no plaintext is left iff no snapshot
is taken that cannot be encrypted. -/
theorem no_plaintext_left_iff (host : Host) (args : BackupArgs) (keyFile : Path) (d : Disk Path)
    (hkey : args.keyFile = some keyFile)
    (hdelete : ∀ epoch, host.epoch = some epoch → ∀ p ∈ snapshotFiles (plainPath args epoch d),
      d.stuck p = false) :
    NoPlaintextLeft host args d ↔ ¬ Stranded host args keyFile d := by
  constructor
  · rintro h ⟨epoch, hepoch, hfault, hsnap, hnot⟩
    obtain ⟨report, hrun⟩ := runBackup_of_snapshottable hkey hepoch hfault hsnap
    obtain ⟨bytes, hbytes⟩ := exists_snapshot hsnap
    obtain ⟨e, d', herror, hleft⟩ := encryptSnapshot_of_not_encryptable report
      (ne_artifactPath (mem_snapshotFiles _)) hbytes hnot
    have habsent := h epoch hepoch _ (mem_snapshotFiles _) hsnap.free
    rw [hrun, run_bind_of_error herror] at habsent
    exact Option.some_ne_none _ (hleft.symm.trans habsent)
  · intro h epoch hepoch p hp habsent
    have hstuck := hdelete epoch hepoch p hp
    by_cases hsnap : d.faults 0 = false ∧
        Snapshottable host.engine args.db (plainPath args epoch d) d.advance
    · have henc := not_not.mp fun hnot => h ⟨epoch, hepoch, hsnap.1, hsnap.2, hnot⟩
      obtain ⟨report, hrun⟩ := runBackup_of_snapshottable hkey hepoch hsnap.1 hsnap.2
      rw [hrun]
      refine after_bind (I := fun d : Disk Path => d.files.lookup p = none) ?_ fun _ => ?_
      · exact encryptSnapshot_of_encryptable (ne_artifactPath hp)
          (by simpa [afterSnapshot] using hstuck) (fun hne => absent_sidecar hsnap.2 hp hne) henc
      · exact (absent_pruneOldBackups _ _ _).mapError.bind fun _ => .pure _
    · exact runBackup_of_not_snapshottable hepoch hp hstuck habsent hsnap

end Plaintext

section Example

/-- SQLite makes a database of three bytes. -/
def smallEngine : Engine where
  checkSource := .ok ("ok", 0)
  copy := (.ok (), fun suffix => if suffix = "" then some [1, 2, 3] else none)
  normalize := (.ok (), fun suffix => if suffix = "" then some [1, 2, 3] else none)
  inspect := fun _ => .ok ⟨"ok", 0, ⟨0, 0, 0⟩⟩
  single _ := ⟨by simp, fun _ _ hne => if_neg hne⟩

def smallHost : Host where
  engine := smallEngine
  sha256 := fun _ => ""
  aead := taggingAead
  base := zeroNonce
  epoch := some 1788093296
  modified := fun _ => none

def liveDatabase : Path := ⟨"data", "otel-logs.db"⟩

def smallArgs : BackupArgs := ⟨liveDatabase, "backups", 30, some (file "key")⟩

/-- A database, a key file of this length and an empty directory for backups. -/
def diskWithKeyOf (length : Nat) : Disk Path where
  files := (∅ : AList fun _ : Path => Bytes).insert liveDatabase [1]
    |>.insert (file "key") (List.replicate length 7)
  offers := fun _ => 2
  faults := fun _ => false
  stuck := fun _ => false

theorem no_plaintext_left_iff_small : NoPlaintextLeft smallHost smallArgs (diskWithKeyOf 32) := by
  refine (no_plaintext_left_iff smallHost smallArgs (file "key") (diskWithKeyOf 32) rfl
    fun _ _ _ _ => rfl).mpr ?_
  rintro ⟨epoch, hepoch, -, -, hnot⟩
  cases hepoch
  have hsealed : (sealFrames taggingAead ⟨List.replicate 32 7, rfl⟩ zeroNonce 0
      (framing (fun _ => 2) [1, 2, 3])).isSome = true := by decide +kernel
  obtain ⟨frames, hframes⟩ := Option.isSome_iff_exists.mp hsealed
  exact hnot ⟨⟨List.replicate 32 7, rfl⟩, [1, 2, 3], frames, by decide +kernel, by decide +kernel,
    by decide +kernel, hframes, by decide +kernel, fun _ _ => rfl⟩

/-- A key file of 31 bytes: the run fails and the snapshot stays. -/
theorem short_key_leaves_plaintext :
    smallArgs.keyFile = some (file "key") ∧ (∀ p, (diskWithKeyOf 31).stuck p = false) ∧
      ((runBackup smallHost smallArgs).run (diskWithKeyOf 31)).1 =
        .error (.backup (.invalidKeyLen 31)) ∧
      ((runBackup smallHost smallArgs).run (diskWithKeyOf 31)).2.files.lookup
        ⟨"backups", "otel-logs.db.20260830T123456Z.bak"⟩ = some [1, 2, 3] ∧
      ¬ NoPlaintextLeft smallHost smallArgs (diskWithKeyOf 31) := by
  refine ⟨rfl, fun _ => rfl, by decide +kernel, by decide +kernel, fun h => ?_⟩
  have habsent := h 1788093296 rfl ⟨"backups", "otel-logs.db.20260830T123456Z.bak"⟩
    (by decide +kernel) (by decide +kernel)
  revert habsent
  decide +kernel

end Example

end OtelSqlite.Backup
