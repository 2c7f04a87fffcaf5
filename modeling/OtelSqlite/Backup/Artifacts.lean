import OtelSqlite.Backup.Container

/-!
# Names of backup artifacts and their retention

The name of an artifact from the time of the backup, the search for a free name,
and the removal of all but the newest artifacts of a directory. Directories hold
files only, and what the metadata calls say about a file is a parameter.
-/

namespace OtelSqlite.Backup

open OtelSqlite.Lib OtelSqlite.Lib.Fallible OtelSqlite.Lib.Disk

section Timestamp

/-- A number that is not negative with leading zeros up to a width. -/
def zeroPadded (width : Nat) (n : Int) : String :=
  String.ofList (List.replicate (width - (toString n).length) '0') ++ toString n

/-- `YYYYMMDDTHHMMSSZ`. The divisions of `i64` truncate. -/
def utcTimestamp (epochSecs : Nat) : String :=
  let days : Int := (epochSecs / 86400 : Nat)
  let secondsInDay : Int := (epochSecs % 86400 : Nat)
  let z := days + 719468
  let era := (if z ≥ 0 then z else z - 146096).tdiv 146097
  let doe := z - era * 146097
  let yoe := (doe - doe.tdiv 1460 + doe.tdiv 36524 - doe.tdiv 146096).tdiv 365
  let year := yoe + era * 400
  let dayOfYear := doe - (365 * yoe + yoe.tdiv 4 - yoe.tdiv 100)
  let mp := (5 * dayOfYear + 2).tdiv 153
  let day := dayOfYear - (153 * mp + 2).tdiv 5 + 1
  let month := if mp < 10 then mp + 3 else mp - 9
  let year := if month ≤ 2 then year + 1 else year
  let hour := secondsInDay.tdiv 3600
  let minute := (secondsInDay.tmod 3600).tdiv 60
  let second := secondsInDay.tmod 60
  zeroPadded 4 year ++ zeroPadded 2 month ++ zeroPadded 2 day ++ "T" ++
    zeroPadded 2 hour ++ zeroPadded 2 minute ++ zeroPadded 2 second ++ "Z"

example : utcTimestamp 1788093296 = "20260830T123456Z" := by decide +kernel

end Timestamp

section Names

def otelDbPrefix : String := "otel-logs.db."

def tempArtifactSuffixes : List String := [".decrypting", ".tmp", ".part", ".partial"]

def extension (encrypted : Bool) : String := if encrypted then "otsb" else "bak"

/-- An artifact's name in front of its extension. -/
def stem (epochSecs : Nat) : String := otelDbPrefix ++ utcTimestamp epochSecs

def backupFilename (epochSecs : Nat) (encrypted : Bool) : String :=
  stem epochSecs ++ "." ++ extension encrypted

/-- The name with the counter, for a timestamp that is taken. -/
def numberedFilename (epochSecs : Nat) (encrypted : Bool) (counter : Nat) : String :=
  stem epochSecs ++ "-" ++ counter.repr ++ "." ++ extension encrypted

/-- The plain name if it is free, else the first free numbered one. Among one more
numbers than there are files one is free, so the search ends. -/
def uniqueBackupPath (files : AList fun _ : Path => Bytes) (dir : String) (epochSecs : Nat)
    (encrypted : Bool) : Path :=
  let candidate : Path := ⟨dir, backupFilename epochSecs encrypted⟩
  if (files.lookup candidate).isNone then candidate
  else
    let numbered := (List.range (files.keys.length + 1)).map fun i =>
      (⟨dir, numberedFilename epochSecs encrypted (i + 1)⟩ : Path)
    (numbered.find? fun p => (files.lookup p).isNone).getD candidate

def isBackupArtifact (name : String) : Bool :=
  match name.toList.dropPrefix? otelDbPrefix.toList with
  | none => false
  | some suffix =>
    !suffix.isEmpty && suffix.head? != some '.' &&
      !(tempArtifactSuffixes.any fun temp => temp.toList.isSuffixOf name.toList)

theorem numberedFilename_injective (epochSecs : Nat) (encrypted : Bool) :
    Function.Injective (numberedFilename epochSecs encrypted) := by
  intro i j h
  simp only [numberedFilename, String.append_assoc, String.append_right_inj] at h
  rw [← String.append_assoc, ← String.append_assoc, String.append_left_inj,
    String.append_left_inj] at h
  -- the digits read back give the number
  have hread := congrArg (fun digits : String => Nat.ofDigitChars 10 digits.toList 0) h
  simpa [Nat.toList_repr] using hread

/-- The names that the search goes through; number 0 is the plain one. -/
def artifactName (epochSecs : Nat) (encrypted : Bool) : Nat → String
  | 0 => backupFilename epochSecs encrypted
  | n + 1 => numberedFilename epochSecs encrypted (n + 1)

section Search

variable (files : AList fun _ : Path => Bytes) (dir : String) (epochSecs : Nat) (encrypted : Bool)

/-- Among the numbered paths that the search goes through one is free. -/
theorem exists_free_numbered : ∃ i ∈ List.range (files.keys.length + 1),
    files.lookup ⟨dir, numberedFilename epochSecs encrypted (i + 1)⟩ = none := by
  by_contra! hall
  let numbered := (List.range (files.keys.length + 1)).map fun i =>
    (⟨dir, numberedFilename epochSecs encrypted (i + 1)⟩ : Path)
  have hnodup : numbered.Nodup := by
    refine List.nodup_range.map fun i j h => ?_
    have := numberedFilename_injective epochSecs encrypted (Path.mk.inj h).2
    omega
  have hsub : numbered ⊆ files.keys := by
    intro p hp
    obtain ⟨i, hi, rfl⟩ := List.mem_map.mp hp
    exact AList.lookup_isSome.mp (Option.isSome_iff_ne_none.mpr (hall i hi))
  have hle := (List.subperm_of_subset hnodup hsub).length_le
  rw [List.length_map, List.length_range] at hle
  omega

/-- The path found is the first one that is free. -/
theorem uniqueBackupPath_spec : ∃ n,
    uniqueBackupPath files dir epochSecs encrypted = ⟨dir, artifactName epochSecs encrypted n⟩ ∧
      (⟨dir, artifactName epochSecs encrypted n⟩ : Path) ∉ files ∧
      ∀ k < n, (⟨dir, artifactName epochSecs encrypted k⟩ : Path) ∈ files := by
  by_cases hplain : (⟨dir, backupFilename epochSecs encrypted⟩ : Path) ∈ files
  · let free (i : Nat) : Bool :=
      (files.lookup ⟨dir, numberedFilename epochSecs encrypted (i + 1)⟩).isNone
    cases hfind : (List.range (files.keys.length + 1)).find? free with
    | none =>
      obtain ⟨i, hi, hnone⟩ := exists_free_numbered files dir epochSecs encrypted
      exact absurd (Option.isNone_iff_eq_none.mpr hnone) (List.find?_eq_none.mp hfind i hi)
    | some i =>
      obtain ⟨hfree, -, hfirst⟩ := List.find?_range_eq_some.mp hfind
      refine ⟨i + 1, ?_, ?_, ?_⟩
      · rw [uniqueBackupPath, if_neg (by simpa [AList.lookup_eq_none] using hplain)]
        simp only [List.find?_map]
        exact congrArg (Option.getD · _) (congrArg (Option.map _) hfind)
      · exact AList.lookup_eq_none.mp (Option.isNone_iff_eq_none.mp hfree)
      · intro k hk
        cases k with
        | zero => exact hplain
        | succ k =>
          have htaken := hfirst k (by omega)
          simpa [free, artifactName, AList.lookup_isSome] using htaken
  · refine ⟨0, ?_, hplain, fun k hk => absurd hk (Nat.not_lt_zero k)⟩
    rw [uniqueBackupPath, if_pos (by simpa [AList.lookup_eq_none] using hplain)]
    rfl

/-- The name ends in the extension. -/
theorem name_uniqueBackupPath : ∃ front,
    (uniqueBackupPath files dir epochSecs encrypted).name = front ++ extension encrypted := by
  obtain ⟨n, h, -⟩ := uniqueBackupPath_spec files dir epochSecs encrypted
  rw [h]
  cases n <;> exact ⟨_, rfl⟩

end Search

end Names

section Retention

/-- Newest first; a file without a modification time is older than all others, and
ties go by the name. -/
def newerFirst (modified : Path → Option Nat) (a b : Path) : Bool :=
  let age (p : Path) : Nat := (modified p).elim 0 (· + 1)
  age b < age a || (age a == age b && decide (b.name ≤ a.name))

def listing (dir : String) : Fallible (Disk Path) FileError (List Path) := do
  step
  ⟨fun d => (.ok (d.files.keys.filter fun p => p.dir == dir), d)⟩

/-- Remove the files in order, up to the first that cannot be removed. -/
def removeEach : List Path → Nat → BackupIo Nat
  | [], removed => pure removed
  | p :: ps, removed => do
    io (removeFile p)
    removeEach ps (removed + 1)

def pruneOldBackups (modified : Path → Option Nat) (dir : String) (keep : Nat) : BackupIo Nat :=
  if keep = 0 then pure 0
  else do
    let entries ← io (listing dir)
    let backups := entries.filter fun p => isBackupArtifact p.name
    removeEach ((backups.mergeSort (newerFirst modified)).drop keep) 0

theorem absent_removeEach {p : Path} (ps : List Path) (removed : Nat) :
    Preserves (fun d => d.files.lookup p = none) (removeEach ps removed) := by
  induction ps generalizing removed with
  | nil => exact .pure _
  | cons q ps ih => exact (absent_removeFile q).mapError.bind fun _ => ih _

/-- Pruning brings nothing back. -/
theorem absent_pruneOldBackups {p : Path} (modified : Path → Option Nat) (dir : String)
    (keep : Nat) :
    Preserves (fun d => d.files.lookup p = none) (pruneOldBackups modified dir keep) := by
  rw [pruneOldBackups]
  split_ifs with h
  · exact .pure _
  · have hlisting : Preserves (fun d => d.files.lookup p = none) (listing dir) :=
      (keeps_step.preserves (Q := fun files => files.lookup p = none)).bind fun _ _ hd => hd
    exact hlisting.mapError.bind fun _ => absent_removeEach _ _

end Retention

end OtelSqlite.Backup
