import OtelSqlite.Backup.RunBackup

/-!
# Restoring a backup

`restore_into`: refuse a destination that is in use, decrypt if there is a key, verify, copy,
verify the copy. Two guards are alive at different times: one removes the decrypted
temporary on every path, the other removes the target and its sidecars on every failure
behind the first verification.
-/

namespace OtelSqlite.Backup

open OtelSqlite.Lib OtelSqlite.Lib.Fallible OtelSqlite.Lib.Disk

variable {p : Path} {content : Option Bytes} {report : RestoreReport}

structure RestoreReport where
  backup : Path
  target : Path
  verifiedBefore : VerifyReport
  verifiedAfter : VerifyReport
  deriving DecidableEq, Repr

/-- The destination directory: whether it exists when no file is in it, and whether it has
entries other than files. -/
structure Destination where
  dir : String
  there : Bool
  others : Bool

def Destination.target (dest : Destination) : Path := ⟨dest.dir, "otel-logs.db"⟩

def Destination.temp (dest : Destination) : Path := ⟨dest.dir, "otel-logs.db.decrypting"⟩

def RowCounts.debug (counts : RowCounts) : String :=
  s!"RowCounts \x7b log_events: {counts.logEvents}, log_resources: {counts.logResources}, " ++
    s!"fts_rows: {counts.ftsRows} \x7d"

section Restore

/-- `Path::exists`: a query that fails counts as "no". -/
def probe (there : Disk Path → Bool) : BackupIo Bool :=
  ⟨fun d => (.ok (!d.faults 0 && there d), d.advance)⟩

/-- `dest_dir.exists() && fs::read_dir(dest_dir)?.next().is_some()`. -/
def occupied (dest : Destination) : BackupIo Bool := do
  if ← probe fun d => dest.there || d.files.keys.any (·.dir == dest.dir) then do
    let entries ← io (listing dest.dir)
    let next ← attempt (io step)
    match next with
    | .error _ => pure true -- an entry that cannot be read
    | .ok () => pure (dest.others || !entries.isEmpty)
  else pure false

/-- `fs::copy`. -/
def copyFile (source target : Path) : BackupIo Unit := do
  let content ← io (openFile source)
  io step -- metadata
  io (create target)
  io step -- permissions
  io (writeAll target content)

variable (before after : Engine) (sha256 : Bytes → String)

/-- The part of `restore_into` under the guard that removes the target. -/
def copyVerified (backup plain target : Path) (verified : VerifyReport) :
    BackupIo RestoreReport := do
  copyFile plain target
  io step -- restrict_permissions
  let copied ← verify after sha256 target
  sound target copied.integrity copied.foreignKeyViolations
  if copied.sha256 ≠ verified.sha256 then
    fail (.contentMismatch target "restored bytes do not match the verified backup")
  else if copied.rowCounts ≠ verified.rowCounts then
    fail (.contentMismatch target
      (s!"restored row counts {copied.rowCounts.debug} do not match the verified backup " ++
        verified.rowCounts.debug))
  else pure ⟨backup, target, verified, copied⟩

/-- The part of `restore_into` behind the decryption. -/
def restorePlain (backup plain target : Path) : BackupIo RestoreReport := do
  let verified ← verify before sha256 plain
  sound plain verified.integrity verified.foreignKeyViolations
  (copyVerified after sha256 backup plain target verified).onError
    (removeQuietly (snapshotFiles target))

/-- The part of `restore_into` behind the checks of the destination. -/
def restoreChecked (aead : Aead) (backup : Path) (dest : Destination) :
    Option Path → BackupIo RestoreReport
  | none => restorePlain before after sha256 backup backup dest.target
  | some keyPath =>
    (do
      decryptTo aead backup keyPath dest.temp
      restorePlain before after sha256 backup dest.temp dest.target).ensuring
        (io (removeFile dest.temp))

/-- `before` and `after` are what SQLite finds in the two verifications. -/
def restoreInto (aead : Aead) (backup : Path) (dest : Destination) (keyPath : Option Path) :
    BackupIo RestoreReport := do
  if ← probe fun d => (d.files.lookup dest.target).isSome then
    fail (.destinationExists dest.target)
  else if ← occupied dest then fail (.destinationNotEmpty ⟨dest.dir, ""⟩)
  else do
    io step -- create_dir_all
    restoreChecked before after sha256 aead backup dest keyPath

end Restore

section Frames

variable {before after : Engine} {sha256 : Bytes → String} {backup plain target : Path}
  {verified : VerifyReport} {d d' : Disk Path} {I : Disk Path → Prop}

theorem preserves_copyFile (h : Stable target I) : Preserves I (copyFile plain target) :=
  (h.openFile plain).mapError.bind fun _ => h.step.mapError.bind fun _ =>
    h.create.mapError.bind fun _ => h.step.mapError.bind fun _ => (h.writeAll _).mapError

theorem preserves_copyVerified (h : Stable target I) :
    Preserves I (copyVerified after sha256 backup plain target verified) := by
  refine (preserves_copyFile h).bind fun _ => h.step.mapError.bind fun _ =>
    (preserves_verify h.toPassive target).bind fun copied => (preserves_sound _ _ _).bind fun _ => ?_
  split_ifs
  · exact .fail _
  · exact .fail _
  · exact .pure _

/-- The cleanup does not touch a file that is not in the list, and brings none back. -/
theorem preserves_removeQuietly {ps : List Path} (h : p ∈ ps → content = none) :
    Preserves (fun d => d.files.lookup p = content) (removeQuietly ps) := by
  by_cases hp : p ∈ ps
  · rw [h hp]
    exact absent_removeQuietly ps
  · clear h
    induction ps with
    | nil => exact .pure _
    | cons q ps ih =>
      rw [List.mem_cons, not_or] at hp
      exact (independent_lookup hp.1).removeFile.mapError.attempt.bind fun _ => ih hp.2

theorem keeps_stuck_removeQuietly (ps : List Path) : Keeps Disk.stuck (removeQuietly ps) := by
  intro stuck
  induction ps with
  | nil => exact .pure _
  | cons q ps ih => exact (independent_stuck q).removeFile.mapError.attempt.bind fun _ => ih

theorem dir_of_mem_snapshotFiles (h : p ∈ snapshotFiles target) : p.dir = target.dir := by
  obtain ⟨suffix, -, rfl⟩ := List.mem_map.mp h
  rfl

/-- Only the target and its sidecars are touched. -/
theorem preserves_restorePlain (hp : p ≠ target) (hdir : p.dir = target.dir → content = none) :
    Preserves (fun d => d.files.lookup p = content)
      (restorePlain before after sha256 backup plain target) := by
  have hlookup : Independent target fun d => d.files.lookup p = content := independent_lookup hp
  have hstable := hlookup.toStable
  refine (preserves_verify hstable.toPassive plain).bind fun _ => (preserves_sound _ _ _).bind fun _ =>
    (preserves_copyVerified hstable).onError (preserves_removeQuietly fun hmem => hdir ?_)
  exact dir_of_mem_snapshotFiles hmem

theorem keeps_stuck_restorePlain :
    Keeps Disk.stuck (restorePlain before after sha256 backup plain target) := by
  intro stuck
  have hkept : Independent target fun d : Disk Path => d.stuck = stuck := independent_stuck target
  have hstable := hkept.toStable
  exact (preserves_verify hstable.toPassive plain).bind fun _ => (preserves_sound _ _ _).bind fun _ =>
    (preserves_copyVerified hstable).onError (keeps_stuck_removeQuietly _ stuck)

/-- A failure leaves no target: before the guard there is none, behind it the guard removes it. -/
theorem failsWith_restorePlain (hfree : d.files.lookup target = none)
    (hstuck : d.stuck target = false) :
    FailsWith (fun d => d.files.lookup target = none)
      (restorePlain before after sha256 backup plain target) d := by
  have hpassive : Passive fun d : Disk Path =>
      d.files.lookup target = none ∧ d.stuck target = false := ⟨id, id⟩
  have hverify : Preserves _ (verify before sha256 plain) := preserves_verify hpassive plain
  refine failsWith_bind_iff.mpr ⟨fun e d₁ h => (hverify.of_run ⟨hfree, hstuck⟩ h).1, ?_⟩
  intro verified d₁ hrun
  obtain ⟨hfree₁, hstuck₁⟩ := hverify.of_run ⟨hfree, hstuck⟩ hrun
  refine failsWith_bind_iff.mpr ⟨(preserves_sound _ _ _).failsWith hfree₁, fun _ d₂ hsound => ?_⟩
  obtain ⟨-, rfl⟩ := sound_ok_iff.mp hsound
  refine failsWith_onError fun e d₃ herror => lookup_removeQuietly (mem_snapshotFiles target) ?_
  have hstable : Stable target fun d : Disk Path => d.stuck target = false :=
    { advance := id, accept := id, put := fun _ => id }
  exact (preserves_copyVerified hstable).of_run hstuck₁ herror

theorem copyFile_ok (h : (copyFile plain target).run d = (.ok (), d')) :
    ∃ bytes, d.files.lookup plain = some bytes ∧ d'.files.lookup target = some bytes := by
  simp only [copyFile, run_bind_ok_iff, io_ok_iff, openFile_ok_iff, step_ok_iff, create_ok_iff,
    writeAll_ok_iff] at h
  obtain ⟨content, _, ⟨-, hcontent, rfl⟩, _, _, ⟨-, rfl⟩, _, _, ⟨-, rfl⟩, _, _, ⟨-, rfl⟩, -, rfl⟩ := h
  exact ⟨content, hcontent, by simp⟩

/-- A restore that ends well has copied the file it was given. -/
theorem restorePlain_ok
    (h : (restorePlain before after sha256 backup plain target).run d = (.ok report, d')) :
    ∃ bytes, d.files.lookup plain = some bytes ∧ d'.files.lookup target = some bytes := by
  have hfiles : ∀ files, Passive fun d : Disk Path => d.files = files := fun _ => ⟨id, id⟩
  rw [restorePlain, run_bind_ok_iff] at h
  obtain ⟨verified, d₁, hverify, h⟩ := h
  have hkept₁ := (preserves_verify (hfiles d.files) plain).of_run rfl hverify
  rw [run_bind_ok_iff] at h
  obtain ⟨_, d₂, hsound, h⟩ := h
  obtain ⟨-, rfl⟩ := sound_ok_iff.mp hsound
  rw [run_onError_ok_iff, copyVerified, run_bind_ok_iff] at h
  obtain ⟨_, d₃, hcopy, h⟩ := h
  obtain ⟨bytes, hplain, htarget⟩ := copyFile_ok hcopy
  refine ⟨bytes, by rw [← hkept₁, hplain], ?_⟩
  -- behind the copy nothing is written
  rw [← htarget]
  refine congrArg (AList.lookup target) (Preserves.of_run (I := fun d => d.files = d₃.files) ?_ rfl h)
  refine (hfiles _).step.mapError.bind fun _ => (preserves_verify (hfiles _) target).bind fun copied =>
    (preserves_sound _ _ _).bind fun _ => ?_
  split_ifs
  · exact .fail _
  · exact .fail _
  · exact .pure _

end Frames

section Destination

variable {dest : Destination} {d d' : Disk Path}

/-- There is no file in the directory. -/
def Destination.Free (dest : Destination) (d : Disk Path) : Prop :=
  ∀ p : Path, p.dir = dest.dir → d.files.lookup p = none

/-- If there are files in the directory, one of the two existence checks is answered and
sees them. -/
def Destination.Seen (dest : Destination) (d : Disk Path) : Prop :=
  dest.Free d ∨ (d.faults 0 = false ∧ d.files.lookup dest.target ≠ none) ∨ d.faults 1 = false

theorem run_probe (there : Disk Path → Bool) :
    (probe there).run d = (.ok (!d.faults 0 && there d), d.advance) := rfl

theorem free_of_keys (h : d.files.keys.any (·.dir == dest.dir) = false) : dest.Free d := by
  intro p hp
  rw [AList.lookup_eq_none]
  intro hmem
  have hany : d.files.keys.any (·.dir == dest.dir) = true :=
    List.any_eq_true.mpr ⟨p, hmem, by simp [hp]⟩
  rw [h] at hany
  cases hany

theorem preserves_occupied {I : Disk Path → Prop} (h : Passive I) : Preserves I (occupied dest) := by
  have hprobe : ∀ there, Preserves I (probe there) := fun _ _ hd => h.advance hd
  have hlisting : Preserves I (listing dest.dir) := h.step.bind fun _ _ hd => hd
  refine (hprobe _).bind fun there => ?_
  cases there with
  | false => exact .pure _
  | true =>
    refine hlisting.mapError.bind fun entries => h.step.mapError.attempt.bind fun next => ?_
    cases next <;> exact .pure _

/-- A directory that was seen and is not occupied has no files. -/
theorem free_of_occupied (hseen : d.faults 0 = false)
    (h : (occupied dest).run d = (.ok false, d')) : dest.Free d := by
  rw [occupied, run_bind_of_ok (run_probe _)] at h
  cases hany : d.files.keys.any (·.dir == dest.dir) with
  | false => exact free_of_keys hany
  | true =>
    simp only [hseen, hany, Bool.or_true, Bool.not_false, Bool.and_self, if_true,
      run_bind_ok_iff, io_ok_iff, listing, step_ok_iff] at h
    obtain ⟨entries, _, ⟨_, _, ⟨-, rfl⟩, hentries⟩, next, _, -, h⟩ := h
    cases hentries
    cases next with
    | error e => cases h
    | ok u =>
      have hempty : (d.files.keys.filter fun p => p.dir == dest.dir).isEmpty = true := by
        have hvalue := Except.ok.inj (congrArg Prod.fst h)
        simp only [Bool.or_eq_false_iff, Bool.not_eq_false'] at hvalue
        exact hvalue.2
      obtain ⟨p, hmem, hp⟩ := List.any_eq_true.mp hany
      rw [List.isEmpty_iff, List.filter_eq_nil_iff] at hempty
      exact absurd hp (hempty p hmem)

end Destination

section Outcome

variable {before after : Engine} {sha256 : Bytes → String} {aead : Aead} {backup : Path}
  {dest : Destination} {keyPath : Option Path} {d d' : Disk Path}

/-- The bytes that a restore of the backup is to give. -/
def Restores (aead : Aead) (backup : Path) (keyPath : Option Path) (d : Disk Path)
    (bytes : Bytes) : Prop :=
  match keyPath with
  | none => d.files.lookup backup = some bytes
  | some keyPath => ∃ (key : Key) (artifact : Bytes), d.files.lookup keyPath = some key.1 ∧
      d.files.lookup backup = some artifact ∧ decode aead key artifact = .ok bytes

theorem Restores.congr {bytes : Bytes} (h : Restores aead backup keyPath d' bytes)
    (hfiles : d'.files = d.files) : Restores aead backup keyPath d bytes := by
  cases keyPath <;> simpa only [Restores, hfiles] using h

theorem temp_ne_target : dest.temp ≠ dest.target := by
  intro h
  have hname : "otel-logs.db.decrypting" = "otel-logs.db" := congrArg Path.name h
  exact absurd hname (by decide)

/-- Nothing else is touched, in the destination or elsewhere. -/
theorem preserves_restoreChecked (htarget : p ≠ dest.target) (htemp : p ≠ dest.temp)
    (hdir : p.dir = dest.dir → content = none) :
    Preserves (fun d => d.files.lookup p = content)
      (restoreChecked before after sha256 aead backup dest keyPath) := by
  cases keyPath with
  | none => exact preserves_restorePlain htarget hdir
  | some keyPath =>
    have hlookup : Independent dest.temp fun d => d.files.lookup p = content :=
      independent_lookup htemp
    exact ((preserves_decryptTo aead backup keyPath hlookup).bind fun _ =>
      preserves_restorePlain htarget hdir).ensuring hlookup.removeFile.mapError

/-- The temporary is gone, whatever the outcome. -/
theorem absent_temp_restoreChecked {result : Except BackupError RestoreReport}
    (hfree : d.files.lookup dest.temp = none) (hstuck : d.stuck dest.temp = false)
    (h : (restoreChecked before after sha256 aead backup dest keyPath).run d = (result, d')) :
    d'.files.lookup dest.temp = none := by
  obtain rfl : _ = d' := congrArg Prod.snd h
  clear h
  cases keyPath with
  | none => exact preserves_restorePlain temp_ne_target (fun _ => rfl) d hfree
  | some keyPath =>
    refine lookup_removeFile ?_
    have hkept : Preserves (fun d' : Disk Path => d'.stuck = d.stuck) (do
        decryptTo aead backup keyPath dest.temp
        restorePlain before after sha256 backup dest.temp dest.target) :=
      (preserves_decryptTo aead backup keyPath (independent_stuck dest.temp)).bind fun _ =>
        keeps_stuck_restorePlain d.stuck
    rw [hkept d rfl, hstuck]

theorem failsWith_restoreChecked (hfree : d.files.lookup dest.target = none)
    (hstuck : d.stuck dest.target = false) :
    FailsWith (fun d => d.files.lookup dest.target = none)
      (restoreChecked before after sha256 aead backup dest keyPath) d := by
  cases keyPath with
  | none => exact failsWith_restorePlain hfree hstuck
  | some keyPath =>
    refine failsWith_ensuring (failsWith_bind_iff.mpr ⟨?_, ?_⟩) (absent_removeFile _).mapError
    · exact (preserves_decryptTo aead backup keyPath
        (independent_lookup temp_ne_target.symm)).failsWith hfree
    · intro _ d₁ hrun
      have hstuck₁ : d₁.stuck = d.stuck :=
        (preserves_decryptTo aead backup keyPath (independent_stuck dest.temp)).of_run rfl hrun
      refine failsWith_restorePlain ?_ (by rw [hstuck₁, hstuck])
      exact (preserves_decryptTo aead backup keyPath
        (independent_lookup temp_ne_target.symm)).of_run hfree hrun

theorem restoreChecked_ok (h : (restoreChecked before after sha256 aead backup dest keyPath).run d =
      (.ok report, d')) :
    ∃ bytes, Restores aead backup keyPath d bytes ∧ d'.files.lookup dest.target = some bytes := by
  cases keyPath with
  | none => exact restorePlain_ok h
  | some keyPath =>
    obtain ⟨d₂, hrun, rfl⟩ := run_ensuring_ok_iff.mp h
    obtain ⟨_, d₁, hdecrypt, hplain⟩ := run_bind_ok_iff.mp hrun
    obtain ⟨key, artifact, plaintext, hkey, hartifact, hdecode, htemp⟩ := decryptTo_ok hdecrypt
    obtain ⟨bytes, hbytes, htarget⟩ := restorePlain_ok hplain
    obtain rfl : plaintext = bytes := Option.some.inj (htemp.symm.trans hbytes)
    refine ⟨plaintext, ⟨key, artifact, hkey, hartifact, hdecode⟩, ?_⟩
    exact (independent_lookup temp_ne_target.symm).removeFile d₂ htarget

variable (before after sha256 aead backup keyPath) in
/-- The checks of the destination end the restore with the files as they were, or there is
no file in the directory. -/
theorem restoreInto_cases (hseen : dest.Seen d) :
    (∃ e d₁, (restoreInto before after sha256 aead backup dest keyPath).run d = (.error e, d₁) ∧
      d₁.files = d.files) ∨
    ∃ d₁ : Disk Path, (restoreInto before after sha256 aead backup dest keyPath).run d =
        (restoreChecked before after sha256 aead backup dest keyPath).run d₁ ∧
      d₁.files = d.files ∧ d₁.stuck = d.stuck ∧ dest.Free d := by
  rw [restoreInto, run_bind_of_ok (run_probe _)]
  cases hfirst : (!d.faults 0 && (d.files.lookup dest.target).isSome) with
  | true => exact .inl ⟨_, _, rfl, rfl⟩
  | false =>
    have hfiles : Passive fun d₁ : Disk Path => d₁.files = d.files := ⟨id, id⟩
    have hstuck : Passive fun d₁ : Disk Path => d₁.stuck = d.stuck := ⟨id, id⟩
    simp only [Bool.false_eq_true, if_false]
    obtain ⟨full, d₁, hrun⟩ | ⟨e, d₁, hrun⟩ := run_cases (occupied dest) d.advance
    · have hfiles₁ := (preserves_occupied hfiles).of_run (s := d.advance) rfl hrun
      have hstuck₁ := (preserves_occupied hstuck).of_run (s := d.advance) rfl hrun
      rw [run_bind_of_ok hrun]
      cases full with
      | true => exact .inl ⟨_, _, rfl, hfiles₁⟩
      | false =>
        have hfree : dest.Free d := by
          obtain hfree | ⟨hfault, hthere⟩ | hfault := hseen
          · exact hfree
          · obtain ⟨bytes, hbytes⟩ := Option.ne_none_iff_exists'.mp hthere
            simp [hfault, hbytes] at hfirst
          · exact free_of_occupied (d := d.advance) hfault hrun
        simp only [Bool.false_eq_true, if_false]
        obtain ⟨_, d₂, hstep⟩ | ⟨e, d₂, hstep⟩ := run_cases (io step) d₁
        · rw [run_bind_of_ok hstep]
          exact .inr ⟨d₂, rfl, hfiles.step.mapError.of_run hfiles₁ hstep,
            hstuck.step.mapError.of_run hstuck₁ hstep, hfree⟩
        · rw [run_bind_of_error hstep]
          exact .inl ⟨e, d₂, rfl, hfiles.step.mapError.of_run hfiles₁ hstep⟩
    · rw [run_bind_of_error hrun]
      exact .inl ⟨e, d₁, rfl, (preserves_occupied hfiles).of_run (s := d.advance) rfl hrun⟩

/-- Behind the checks a failure leaves the files as they were. -/
theorem restoreChecked_of_error {e : BackupError} (hfree : dest.Free d)
    (hdeletable : ∀ p, d.stuck p = false)
    (h : (restoreChecked before after sha256 aead backup dest keyPath).run d = (.error e, d'))
    (p : Path) : d'.files.lookup p = d.files.lookup p := by
  by_cases htarget : p = dest.target
  · subst htarget
    rw [failsWith_restoreChecked (hfree _ rfl) (hdeletable _) e d' h, hfree _ rfl]
  by_cases htemp : p = dest.temp
  · subst htemp
    rw [absent_temp_restoreChecked (hfree _ rfl) (hdeletable _) h, hfree _ rfl]
  exact (preserves_restoreChecked htarget htemp (hfree p)).of_run rfl h

end Outcome

/-- A restore that fails leaves every file as it was, provided that the checks see what is in
the destination; one that ends well leaves the backup's bytes, or their decryption, as the
target and touches nothing else. A snapshot that fails leaves no destination, and no
sidecars either unless nothing at all was changed. -/
theorem restore_and_snapshot_all_or_nothing (aead : Aead) (sha256 : Bytes → String)
    (before after : Engine) (d d' : Disk Path) (hdeletable : ∀ p, d.stuck p = false) :
    (∀ backup dest keyPath, Destination.Seen dest d →
      (∀ e, (restoreInto before after sha256 aead backup dest keyPath).run d = (.error e, d') →
        ∀ p, d'.files.lookup p = d.files.lookup p) ∧
      (∀ report,
        (restoreInto before after sha256 aead backup dest keyPath).run d = (.ok report, d') →
        (∃ bytes, Restores aead backup keyPath d bytes ∧
          d'.files.lookup dest.target = some bytes) ∧
        d'.files.lookup dest.temp = none ∧
        ∀ p, p ≠ dest.target → d'.files.lookup p = d.files.lookup p)) ∧
    (∀ engine source dest e, (backupTo engine sha256 source dest).run d = (.error e, d') →
      d.files.lookup dest = none →
      d'.files.lookup dest = none ∧
        (d' = d ∨ ∀ p ∈ snapshotFiles dest, d'.files.lookup p = none)) := by
  constructor
  · intro backup dest keyPath hseen
    obtain ⟨e₁, d₁, hrun, hfiles⟩ | ⟨d₁, hrun, hfiles, hstuck, hfree⟩ :=
      restoreInto_cases before after sha256 aead backup keyPath hseen
    · rw [hrun]
      constructor
      · intro e h
        cases h
        exact fun p => by rw [hfiles]
      · intro report h
        cases h
    · rw [hrun]
      have hfree₁ : dest.Free d₁ := fun p hp => by rw [hfiles, hfree p hp]
      have hdeletable₁ : ∀ p, d₁.stuck p = false := fun p => by rw [hstuck, hdeletable]
      constructor
      · intro e h p
        rw [restoreChecked_of_error hfree₁ hdeletable₁ h, hfiles]
      · intro report h
        have htemp := absent_temp_restoreChecked (hfree₁ _ rfl) (hdeletable₁ _) h
        refine ⟨?_, htemp, fun p hp => ?_⟩
        · obtain ⟨bytes, hrestores, htarget⟩ := restoreChecked_ok h
          exact ⟨bytes, hrestores.congr hfiles, htarget⟩
        · by_cases hp' : p = dest.temp
          · rw [hp', htemp, hfree _ rfl]
          · rw [(preserves_restoreChecked hp hp' (hfree₁ p)).of_run rfl h, hfiles]
  · intro engine source dest e h hfree
    refine ⟨absent_backupTo_of_error h (mem_snapshotFiles dest) (hdeletable dest) hfree, ?_⟩
    exact (backupTo_of_error h).imp_right fun hremoved p hp => hremoved p hp (hdeletable p)

section Example

/-- A directory that does not exist yet. -/
def smallDestination : Destination := ⟨"restored", false, false⟩

theorem restore_and_snapshot_all_or_nothing_decrypted :
    ∃ report d', (restoreInto smallEngine smallEngine (fun _ => "") taggingAead (file "artifact")
        smallDestination (some (file "key"))).run smallDiskEncrypted = (.ok report, d') ∧
      (∃ bytes, Restores taggingAead (file "artifact") (some (file "key")) smallDiskEncrypted bytes ∧
        d'.files.lookup ⟨"restored", "otel-logs.db"⟩ = some bytes) ∧
      d'.files.lookup ⟨"restored", "otel-logs.db.decrypting"⟩ = none := by
  have hrun : ((restoreInto smallEngine smallEngine (fun _ => "") taggingAead (file "artifact")
      smallDestination (some (file "key"))).run smallDiskEncrypted).1 =
        .ok ⟨file "artifact", smallDestination.target,
          ⟨smallDestination.temp, "ok", 0, ⟨0, 0, 0⟩, ""⟩,
          ⟨smallDestination.target, "ok", 0, ⟨0, 0, 0⟩, ""⟩⟩ := by decide +kernel
  refine ⟨_, _, Prod.ext hrun rfl, ?_⟩
  obtain ⟨hbytes, htemp, -⟩ := ((restore_and_snapshot_all_or_nothing taggingAead (fun _ => "")
    smallEngine smallEngine smallDiskEncrypted _ (fun _ => rfl)).1 (file "artifact")
      smallDestination (some (file "key")) (.inr (.inr rfl))).2 _ (Prod.ext hrun rfl)
  exact ⟨hbytes, htemp⟩

/-- A `-wal` file of an earlier snapshot, and no database to take a snapshot of. -/
def staleDisk : Disk Path where
  files := (∅ : AList fun _ : Path => Bytes).insert (file "snapshot-wal") [1]
  offers := fun _ => 1
  faults := fun _ => false
  stuck := fun _ => false

/-- A backup, a file in the destination and calls that fail: 0 and 1 are the existence queries,
9 is where the copy opens the verified backup. -/
def unseenDisk (name : String) (faults : List Nat) : Disk Path where
  files := smallDisk.files.insert ⟨"restored", name⟩ [9]
  offers := fun _ => 1
  faults := fun i => i ∈ faults
  stuck := fun _ => false

/-- A snapshot that fails in front of the guard leaves a sidecar that was there before. A restore
that does not see what is in its destination fails and has removed it: the target, if both
queries fail, a sidecar, if only that of the directory does. -/
theorem stale_sidecar_left_and_unseen_files_removed :
    ((∀ p, staleDisk.stuck p = false) ∧ staleDisk.files.lookup (file "snapshot") = none ∧
      ∃ d', (backupTo smallEngine (fun _ => "") liveDatabase (file "snapshot")).run staleDisk =
          (.error (.io .notFound), d') ∧
        file "snapshot-wal" ∈ snapshotFiles (file "snapshot") ∧
        d'.files.lookup (file "snapshot-wal") = some [1]) ∧
    (∃ d', (restoreInto smallEngine smallEngine (fun _ => "") taggingAead (file "plain")
          ⟨"restored", true, false⟩ none).run (unseenDisk "otel-logs.db" [0, 1, 9]) =
        (.error (.io .other), d') ∧
      d'.files.lookup ⟨"restored", "otel-logs.db"⟩ = none) ∧
    ∃ d', (restoreInto smallEngine smallEngine (fun _ => "") taggingAead (file "plain")
          ⟨"restored", true, false⟩ none).run (unseenDisk "otel-logs.db-wal" [1, 9]) =
        (.error (.io .other), d') ∧
      d'.files.lookup ⟨"restored", "otel-logs.db-wal"⟩ = none := by
  refine ⟨⟨fun _ => rfl, by decide +kernel, staleDisk, Prod.ext (by decide +kernel) rfl,
      by decide +kernel, by decide +kernel⟩,
    ⟨_, Prod.ext (by decide +kernel) rfl, by decide +kernel⟩,
    ⟨_, Prod.ext (by decide +kernel) rfl, by decide +kernel⟩⟩

end Example

end OtelSqlite.Backup
