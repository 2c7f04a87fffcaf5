import OtelSqlite.Backup.Artifacts

/-!
# The snapshot of a live database

`backup_to`: check the source, copy it, make the copy a single file, verify the
copy, and remove the copy and its sidecars on any failure after the first check.
What SQLite answers and what it leaves on the disk are parameters.
-/

namespace OtelSqlite.Backup

open OtelSqlite.Lib OtelSqlite.Lib.Fallible OtelSqlite.Lib.Disk

variable {p : Path}

structure RowCounts where
  logEvents : Nat
  logResources : Nat
  ftsRows : Nat
  deriving DecidableEq, Repr

/-- What the queries of `verify` find in a database file. -/
structure Inspection where
  integrity : String
  foreignKeyViolations : Nat
  rowCounts : RowCounts
  deriving DecidableEq, Repr

structure VerifyReport where
  path : Path
  integrity : String
  foreignKeyViolations : Nat
  rowCounts : RowCounts
  sha256 : String
  deriving DecidableEq, Repr

structure BackupReport where
  source : Path
  backup : Path
  encrypted : Bool
  sha256 : String
  verify : VerifyReport
  deriving DecidableEq, Repr

section Sidecars

def Path.append (p : Path) (suffix : String) : Path := ⟨p.dir, p.name ++ suffix⟩

/-- The database file itself and its sidecars, by what their names add. -/
def databaseSuffixes : List String := ["", "-wal", "-shm", "-journal"]

/-- A database file and its sidecars. -/
def snapshotFiles (p : Path) : List Path := databaseSuffixes.map p.append

theorem Path.append_inj {s t : String} : p.append s = p.append t ↔ s = t := by
  simp [Path.append]

@[simp] theorem Path.append_empty (p : Path) : p.append "" = p := by
  simp [Path.append]

theorem mem_snapshotFiles (p : Path) : p ∈ snapshotFiles p :=
  List.mem_map.mpr ⟨"", by decide, p.append_empty⟩

end Sidecars

/-- What SQLite does in a run: its verdict on the source, the two calls that work on
the copy with the files they leave, and what it finds in a file. In journal mode
`DELETE` a database is a single file. -/
structure Engine where
  checkSource : Except BackupError (String × Nat)
  copy : Except BackupError Unit × (String → Option Bytes)
  normalize : Except BackupError Unit × (String → Option Bytes)
  inspect : Bytes → Except BackupError Inspection
  single : normalize.1 = .ok () →
    normalize.2 "" ≠ none ∧ ∀ suffix ∈ databaseSuffixes, suffix ≠ "" → normalize.2 suffix = none

section Calls

variable {α : Type}

def lift (result : Except BackupError α) : BackupIo α := ⟨fun d => (result, d)⟩

def setFile (d : Disk Path) (p : Path) : Option Bytes → Disk Path
  | some bytes => d.put p bytes
  | none => d.delete p

/-- The database and its sidecars are as SQLite left them. -/
def place (p : Path) (remains : String → Option Bytes) (d : Disk Path) : Disk Path :=
  databaseSuffixes.foldl (fun d suffix => setFile d (p.append suffix) (remains suffix)) d

def engineCall (p : Path) (call : Except BackupError Unit × (String → Option Bytes)) :
    BackupIo Unit :=
  ⟨fun d => (call.1, place p call.2 d)⟩

/-- Delete every path that can be deleted. -/
def removeQuietly : List Path → BackupIo Unit
  | [] => pure ()
  | p :: ps => do
    let _ ← attempt (io (removeFile p))
    removeQuietly ps

/-- The digest of the bytes, however the reads chunk them. -/
def sha256Hex (sha256 : Bytes → String) (p : Path) : BackupIo String := do
  let content ← io (openFile p)
  io step -- the reads
  pure (sha256 content)

def verify (engine : Engine) (sha256 : Bytes → String) (p : Path) : BackupIo VerifyReport := do
  let content ← io (openFile p)
  let found ← lift (engine.inspect content)
  let digest ← sha256Hex sha256 p
  pure ⟨p, found.integrity, found.foreignKeyViolations, found.rowCounts, digest⟩

/-- The checks that the source, the copy and a restored file go through. -/
def sound (p : Path) (integrity : String) (violations : Nat) : BackupIo Unit :=
  if integrity ≠ "ok" then fail (.integrity p integrity)
  else if 0 < violations then fail (.foreignKeyViolations p violations)
  else pure ()

/-- The part of `backup_to` under the guard that removes the destination. -/
def snapshot (engine : Engine) (sha256 : Bytes → String) (source dest : Path) :
    BackupIo BackupReport := do
  engineCall dest engine.copy
  engineCall dest engine.normalize
  io step -- restrict_permissions
  let report ← verify engine sha256 dest
  sound dest report.integrity report.foreignKeyViolations
  pure ⟨source, dest, false, report.sha256, report⟩

def backupTo (engine : Engine) (sha256 : Bytes → String) (source dest : Path) :
    BackupIo BackupReport := do
  if ← io (exist dest) then fail (.destinationExists dest)
  else if !(← io (exist source)) then fail (.io .notFound)
  else do
    let (integrity, violations) ← lift engine.checkSource
    sound source integrity violations
    (snapshot engine sha256 source dest).onError (removeQuietly (snapshotFiles dest))

end Calls

section Place

variable {d : Disk Path} {p q : Path} {remains : String → Option Bytes}

theorem lookup_setFile (d : Disk Path) (p : Path) (content : Option Bytes) :
    (setFile d p content).files.lookup p = content := by
  cases content <;> simp [setFile]

theorem lookup_setFile_ne (h : q ≠ p) (content : Option Bytes) :
    (setFile d p content).files.lookup q = d.files.lookup q := by
  cases content <;> simp [setFile, h]

@[simp] theorem setFile_faults (content : Option Bytes) :
    (setFile d p content).faults = d.faults := by
  cases content <;> rfl

@[simp] theorem setFile_stuck (content : Option Bytes) :
    (setFile d p content).stuck = d.stuck := by
  cases content <;> rfl

@[simp] theorem place_faults : (place p remains d).faults = d.faults := by
  simp [place, databaseSuffixes]

@[simp] theorem place_stuck : (place p remains d).stuck = d.stuck := by
  simp [place, databaseSuffixes]

/-- Every file of the database is as SQLite left it. -/
theorem lookup_place {suffix : String} (h : suffix ∈ databaseSuffixes) :
    (place p remains d).files.lookup (p.append suffix) = remains suffix := by
  simp only [place, databaseSuffixes, List.foldl_cons, List.foldl_nil]
  simp only [databaseSuffixes, List.mem_cons, List.not_mem_nil, or_false] at h
  rcases h with rfl | rfl | rfl | rfl <;>
    simp [lookup_setFile, lookup_setFile_ne, Path.append_inj, -Path.append_empty]

theorem lookup_place_self : (place p remains d).files.lookup p = remains "" := by
  have h : (place p remains d).files.lookup (p.append "") = remains "" :=
    lookup_place (by decide)
  rwa [p.append_empty] at h

end Place

section Cleanup

variable {d : Disk Path} {p : Path}

theorem absent_removeQuietly (ps : List Path) :
    Preserves (fun d => d.files.lookup p = none) (removeQuietly ps) := by
  induction ps with
  | nil => exact .pure _
  | cons q ps ih => exact (absent_removeFile q).mapError.attempt.bind fun _ => ih

/-- After the cleanup none of the paths is left that can be deleted. -/
theorem lookup_removeQuietly {ps : List Path} (hp : p ∈ ps) (hstuck : d.stuck p = false) :
    ((removeQuietly ps).run d).2.files.lookup p = none := by
  induction ps generalizing d with
  | nil => cases hp
  | cons q ps ih =>
    rw [removeQuietly, run_bind_of_ok run_attempt]
    by_cases hpq : p = q
    · subst hpq
      exact absent_removeQuietly ps _ (lookup_removeFile hstuck)
    · refine ih ((List.mem_cons.mp hp).resolve_left hpq) ?_
      exact (congrFun ((independent_stuck q).removeFile d rfl) p).trans hstuck

end Cleanup

section Outcome

variable {engine : Engine} {sha256 : Bytes → String} {source dest : Path} {d d' : Disk Path}
  {integrity : String} {violations : Nat}

theorem lift_ok_iff {α : Type} {result : Except BackupError α} {a : α} :
    (lift result).run d = (.ok a, d') ↔ result = .ok a ∧ d' = d := by
  simp [lift, eq_comm (a := d')]

theorem engineCall_ok_iff {call : Except BackupError Unit × (String → Option Bytes)} {u : Unit} :
    (engineCall dest call).run d = (.ok u, d') ↔ call.1 = .ok () ∧ d' = place dest call.2 d := by
  simp [engineCall, eq_comm (a := d')]

theorem sound_error (h : ¬ (integrity = "ok" ∧ violations = 0)) :
    ∃ e, (sound p integrity violations).run d = (.error e, d) := by
  by_cases hok : integrity = "ok"
  · have hpos : 0 < violations := by
      by_contra hzero
      exact h ⟨hok, by omega⟩
    exact ⟨.foreignKeyViolations p violations, by simp [sound, hok, hpos]⟩
  · exact ⟨.integrity p integrity, by simp [sound, hok]⟩

theorem sound_ok_iff {u : Unit} :
    (sound dest integrity violations).run d = (.ok u, d') ↔
      (integrity = "ok" ∧ violations = 0) ∧ d' = d := by
  by_cases hsound : integrity = "ok" ∧ violations = 0
  · obtain ⟨rfl, rfl⟩ := hsound
    simp [sound, eq_comm (a := d')]
  · obtain ⟨e, hrun⟩ := sound_error (p := dest) (d := d) hsound
    simp [hrun, hsound]

theorem sha256Hex_ok_iff {digest : String} :
    (sha256Hex sha256 dest).run d = (.ok digest, d') ↔
      Quiet 2 d.faults ∧ (∃ content, d.files.lookup dest = some content ∧
        digest = sha256 content) ∧ d' = d.advance.advance := by
  simp only [sha256Hex, run_bind_ok_iff, io_ok_iff, openFile_ok_iff, step_ok_iff, quiet_succ,
    quiet_zero, and_true]
  constructor
  · rintro ⟨content, _, ⟨h₀, hl, rfl⟩, _, _, ⟨h₁, rfl⟩, h⟩
    cases h
    exact ⟨⟨h₀, h₁⟩, ⟨content, hl, rfl⟩, rfl⟩
  · rintro ⟨⟨h₀, h₁⟩, ⟨content, hl, rfl⟩, rfl⟩
    exact ⟨content, _, ⟨h₀, hl, rfl⟩, (), _, ⟨h₁, rfl⟩, rfl⟩

/-- What a snapshot needs: a source that exists and checks out, calls of SQLite that end
well with a copy that checks out, and calls that do not fail. -/
structure Snapshottable (engine : Engine) (source dest : Path) (d : Disk Path) : Prop where
  free : d.files.lookup dest = none
  source : d.files.lookup source ≠ none
  checked : engine.checkSource = .ok ("ok", 0)
  copied : engine.copy.1 = .ok ()
  normalized : engine.normalize.1 = .ok ()
  verified : ∀ content, engine.normalize.2 "" = some content →
    ∃ counts, engine.inspect content = .ok ⟨"ok", 0, counts⟩
  quiet : Quiet 4 d.faults

/-- The disk after a snapshot. -/
def afterSnapshot (engine : Engine) (dest : Path) (d : Disk Path) : Disk Path :=
  (place dest engine.normalize.2 (place dest engine.copy.2 d)).advance.advance.advance.advance

theorem snapshot_ok_iff :
    (∃ r, (snapshot engine sha256 source dest).run d = (.ok r, d')) ↔
      (engine.copy.1 = .ok () ∧ engine.normalize.1 = .ok () ∧
        (∀ content, engine.normalize.2 "" = some content →
          ∃ counts, engine.inspect content = .ok ⟨"ok", 0, counts⟩) ∧ Quiet 4 d.faults) ∧
      d' = afterSnapshot engine dest d := by
  simp only [snapshot, verify, run_bind_ok_iff, engineCall_ok_iff, io_ok_iff, step_ok_iff,
    openFile_ok_iff, lift_ok_iff, sha256Hex_ok_iff, sound_ok_iff, run_pure]
  constructor
  · rintro ⟨r, _, _, ⟨hcopy, rfl⟩, _, _, ⟨hnormalize, rfl⟩, _, _, ⟨h₀, rfl⟩, report, _,
      ⟨content, _, ⟨h₁, hl, rfl⟩, found, _, ⟨hinspect, rfl⟩, digest, _, ⟨hquiet, -, rfl⟩, hreport⟩,
      _, _, ⟨⟨hok, hzero⟩, rfl⟩, hr⟩
    cases hreport
    cases hr
    rw [advance_files, lookup_place_self] at hl
    simp only [advance_faults, place_faults] at h₀ h₁ hquiet
    refine ⟨⟨hcopy, hnormalize, ?_, ?_⟩, rfl⟩
    · intro content' hcontent'
      obtain rfl : content = content' := Option.some.inj (hl.symm.trans hcontent')
      obtain ⟨integrity, violations, counts⟩ := found
      simp only at hok hzero
      subst hok hzero
      exact ⟨counts, hinspect⟩
    · rw [quiet_succ, quiet_succ]
      exact ⟨h₀, h₁, hquiet⟩
  · rintro ⟨⟨hcopy, hnormalize, hverified, hquiet⟩, rfl⟩
    rw [quiet_succ, quiet_succ] at hquiet
    obtain ⟨h₀, h₁, hquiet⟩ := hquiet
    obtain ⟨content, hcontent⟩ := Option.ne_none_iff_exists'.mp (engine.single hnormalize).1
    obtain ⟨counts, hinspect⟩ := hverified content hcontent
    have hl : (place dest engine.normalize.2 (place dest engine.copy.2 d)).files.lookup dest =
        some content := lookup_place_self.trans hcontent
    refine ⟨_, (), _, ⟨hcopy, rfl⟩, (), _, ⟨hnormalize, rfl⟩, (), _, ⟨by simpa using h₀, rfl⟩, _, _,
      ⟨content, _, ⟨by simpa using h₁, hl, rfl⟩, _, _, ⟨hinspect, rfl⟩, sha256 content, _,
        ⟨by simpa using hquiet, ⟨content, hl, rfl⟩, rfl⟩, rfl⟩, (), _, ⟨⟨rfl, rfl⟩, rfl⟩, rfl⟩

theorem run_exist (p : Path) : (io (exist p)).run d = (.ok (d.files.lookup p).isSome, d) := rfl

/-- Before the guard nothing is changed; from then on the snapshot decides. -/
theorem backupTo_run :
    (backupTo engine sha256 source dest).run d =
        (((snapshot engine sha256 source dest).onError
          (removeQuietly (snapshotFiles dest))).run d) ∧
      d.files.lookup dest = none ∧ d.files.lookup source ≠ none ∧
        engine.checkSource = .ok ("ok", 0) ∨
    (∃ e, (backupTo engine sha256 source dest).run d = (.error e, d)) ∧
      ¬ (d.files.lookup dest = none ∧ d.files.lookup source ≠ none ∧
        engine.checkSource = .ok ("ok", 0)) := by
  rw [backupTo, run_bind_of_ok (run_exist dest)]
  cases hdest : d.files.lookup dest with
  | some content => exact .inr ⟨⟨_, rfl⟩, fun h => by cases h.1⟩
  | none =>
    simp only [Option.isSome_none, Bool.false_eq_true, if_false]
    rw [run_bind_of_ok (run_exist source)]
    cases hsource : d.files.lookup source with
    | none => exact .inr ⟨⟨_, rfl⟩, fun h => h.2.1 rfl⟩
    | some content =>
      simp only [Option.isSome_some, Bool.not_true, Bool.false_eq_true, if_false]
      cases hcheck : engine.checkSource with
      | error e => exact .inr ⟨⟨e, rfl⟩, fun h => by cases h.2.2⟩
      | ok checked =>
        obtain ⟨integrity, violations⟩ := checked
        have hlift : (lift (Except.ok (integrity, violations))).run d =
          (.ok (integrity, violations), d) := rfl
        rw [run_bind_of_ok hlift]
        by_cases hsound : integrity = "ok" ∧ violations = 0
        · obtain ⟨rfl, rfl⟩ := hsound
          have hrun : (sound source "ok" 0).run d = (.ok (), d) := rfl
          exact .inl ⟨run_bind_of_ok hrun, trivial, Option.some_ne_none _, rfl⟩
        · obtain ⟨e, hrun⟩ := sound_error (p := source) (d := d) hsound
          refine .inr ⟨⟨e, run_bind_of_error hrun⟩, fun h => hsound ?_⟩
          have hpair := Except.ok.inj h.2.2
          exact ⟨congrArg Prod.fst hpair, congrArg Prod.snd hpair⟩

theorem backupTo_ok_iff :
    (∃ r, (backupTo engine sha256 source dest).run d = (.ok r, d')) ↔
      Snapshottable engine source dest d ∧ d' = afterSnapshot engine dest d := by
  obtain ⟨hrun, hfree, hsource, hchecked⟩ | ⟨⟨e, hrun⟩, hnot⟩ := backupTo_run
  · rw [hrun]
    simp only [run_onError_ok_iff, snapshot_ok_iff]
    constructor
    · rintro ⟨⟨hcopy, hnormalize, hverified, hquiet⟩, rfl⟩
      exact ⟨⟨hfree, hsource, hchecked, hcopy, hnormalize, hverified, hquiet⟩, rfl⟩
    · rintro ⟨h, rfl⟩
      exact ⟨⟨h.copied, h.normalized, h.verified, h.quiet⟩, rfl⟩
  · rw [hrun]
    constructor
    · rintro ⟨r, h⟩
      cases h
    · rintro ⟨h, -⟩
      exact absurd ⟨h.free, h.source, h.checked⟩ hnot

section Preserves

variable {I : Disk Path → Prop}

theorem preserves_sound (p : Path) (integrity : String) (violations : Nat) :
    Preserves I (sound p integrity violations) := by
  rw [sound]
  split_ifs
  · exact .fail _
  · exact .fail _
  · exact .pure _

theorem preserves_sha256Hex (h : Passive I) (p : Path) : Preserves I (sha256Hex sha256 p) :=
  (h.openFile p).mapError.bind fun _ => h.step.mapError.bind fun _ => .pure _

/-- A verification only reads. -/
theorem preserves_verify (h : Passive I) (p : Path) : Preserves I (verify engine sha256 p) := by
  have hlift : ∀ {α : Type} (result : Except BackupError α), Preserves I (lift result) :=
    fun _ _ hd => hd
  exact (h.openFile p).mapError.bind fun _ => (hlift _).bind fun _ =>
    (preserves_sha256Hex h p).bind fun _ => .pure _

end Preserves

theorem keeps_stuck_snapshot : Keeps Disk.stuck (snapshot engine sha256 source dest) := by
  intro stuck
  have hcall : ∀ call, Preserves (fun d : Disk Path => d.stuck = stuck) (engineCall dest call) :=
    fun call d hd => place_stuck.trans hd
  have hpassive : Passive fun d : Disk Path => d.stuck = stuck := ⟨id, id⟩
  exact (hcall _).bind fun _ => (hcall _).bind fun _ => hpassive.step.mapError.bind fun _ =>
    (preserves_verify hpassive dest).bind fun _ => (preserves_sound _ _ _).bind fun _ => .pure _

/-- A snapshot that fails has changed nothing, or the guard has removed what can be deleted. -/
theorem backupTo_of_error {e : BackupError}
    (h : (backupTo engine sha256 source dest).run d = (.error e, d')) :
    d' = d ∨ ∀ p ∈ snapshotFiles dest, d.stuck p = false → d'.files.lookup p = none := by
  obtain ⟨hrun, -⟩ | ⟨⟨e', hrun⟩, -⟩ := backupTo_run
  · rw [hrun] at h
    refine .inr fun p hp hstuck => ?_
    obtain ⟨r, d₁, hsnap⟩ | ⟨e₁, d₁, hsnap⟩ := run_cases (snapshot engine sha256 source dest) d
    · rw [run_onError_ok_iff.mpr hsnap] at h
      cases h
    · rw [run_onError_of_error hsnap] at h
      cases h
      have hkept : d₁.stuck = d.stuck := (keeps_stuck_snapshot).of_run hsnap
      exact lookup_removeQuietly hp (by rw [hkept, hstuck])
  · rw [hrun] at h
    cases h
    exact .inl rfl

/-- A snapshot that fails leaves no file of its own that can be deleted. -/
theorem absent_backupTo_of_error {e : BackupError}
    (h : (backupTo engine sha256 source dest).run d = (.error e, d')) (hp : p ∈ snapshotFiles dest)
    (hstuck : d.stuck p = false) (habsent : d.files.lookup p = none) :
    d'.files.lookup p = none := by
  obtain rfl | hremoved := backupTo_of_error h
  · exact habsent
  · exact hremoved p hp hstuck

/-- A snapshot is a single file. -/
theorem exists_snapshot (h : Snapshottable engine source dest d) :
    ∃ bytes, (afterSnapshot engine dest d).files.lookup dest = some bytes := by
  obtain ⟨bytes, hbytes⟩ := Option.ne_none_iff_exists'.mp (engine.single h.normalized).1
  exact ⟨bytes, lookup_place_self.trans hbytes⟩

theorem absent_sidecar (h : Snapshottable engine source dest d) (hp : p ∈ snapshotFiles dest)
    (hne : p ≠ dest) : (afterSnapshot engine dest d).files.lookup p = none := by
  obtain ⟨suffix, hsuffix, rfl⟩ := List.mem_map.mp hp
  have hsidecar : suffix ≠ "" := by
    rintro rfl
    exact hne dest.append_empty
  exact (lookup_place hsuffix).trans ((engine.single h.normalized).2 suffix hsuffix hsidecar)

end Outcome

end OtelSqlite.Backup
