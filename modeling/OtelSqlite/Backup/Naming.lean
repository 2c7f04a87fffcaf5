import Mathlib.Data.Nat.Nth
import OtelSqlite.Backup.UtcTimestamp

/-!
# The names of backups taken one after another

`unique_backup_path` takes the first number that is free. The name of a backup is therefore
given by the numbers that were free in the beginning and by how many earlier backups have its
timestamp and its kind. Names of different seconds sort like the seconds; within one second
the counter comes in front of the extension, and `-` sorts before `.`.
-/

namespace OtelSqlite.Backup

open OtelSqlite.Lib OtelSqlite.Lib.Calendar

section Texts

variable {epochSecs epochSecs' n n' : Nat} {encrypted encrypted' : Bool} {c : Char}

theorem toList_zeroPadded (width n : Nat) : (zeroPadded width n).toList =
    List.replicate (width - (Nat.toDigits 10 n).length) '0' ++ Nat.toDigits 10 n := by
  have htext : toString (n : Int) = String.ofList (Nat.toDigits 10 n) := rfl
  rw [zeroPadded, htext, String.length_ofList, String.toList_append, String.toList_ofList,
    String.toList_ofList]

theorem isAlphanum_of_mem_zeroPadded {width : Nat} (h : c ∈ (zeroPadded width n).toList) :
    c.isAlphanum = true := by
  rw [toList_zeroPadded, List.mem_append] at h
  rcases h with h | h
  · rw [List.eq_of_mem_replicate h]
    rfl
  · rw [Char.isAlphanum, Nat.isDigit_of_mem_toDigits (by decide) (by decide) h, Bool.or_true]

theorem isAlphanum_of_mem_utcTimestamp (h : c ∈ (utcTimestamp epochSecs).toList) :
    c.isAlphanum = true := by
  obtain ⟨t, hfields, -⟩ := utcFields_correct epochSecs
  rw [utcTimestamp_eq_render, hfields] at h
  simp only [UtcFields.render, fieldsOf, String.toList_append, List.mem_append, or_assoc] at h
  rcases h with h | h | h | h | h | h | h | h
  case inr.inr.inr.inl =>
    obtain rfl := List.mem_singleton.mp h
    rfl
  case inr.inr.inr.inr.inr.inr.inr =>
    obtain rfl := List.mem_singleton.mp h
    rfl
  all_goals exact isAlphanum_of_mem_zeroPadded h

theorem utcTimestamp_ne_nil (epochSecs : Nat) : (utcTimestamp epochSecs).toList ≠ [] := by
  simp [utcTimestamp_eq_render, UtcFields.render]

/-- What stands between the timestamp and the extension. -/
def counterText : Nat → List Char
  | 0 => []
  | n + 1 => '-' :: (n + 1).repr.toList

theorem toList_artifactName (epochSecs : Nat) (encrypted : Bool) (n : Nat) :
    (artifactName epochSecs encrypted n).toList = otelDbPrefix.toList ++
      ((utcTimestamp epochSecs).toList ++ (counterText n ++ '.' :: (extension encrypted).toList)) := by
  cases n <;> simp [artifactName, backupFilename, numberedFilename, stem, counterText]

theorem counterText_injective : Function.Injective counterText := by
  intro n n' h
  cases n <;> cases n'
  case zero.zero => rfl
  case succ.succ n n' =>
    -- the digits read back give the number
    have hread := congrArg (fun digits => Nat.ofDigitChars 10 digits 0) (List.cons.inj h).2
    simpa [Nat.toList_repr] using hread
  all_goals cases h

theorem takeWhile_counterText (n : Nat) (rest : List Char) :
    (counterText n ++ '.' :: rest).takeWhile Char.isAlphanum = [] := by
  cases n <;> rfl

theorem ne_dot_of_mem_counterText (h : c ∈ counterText n) : (c != '.') = true := by
  cases n with
  | zero => exact absurd h List.not_mem_nil
  | succ n =>
    rcases List.mem_cons.mp h with rfl | h
    · rfl
    · rw [Nat.toList_repr] at h
      rw [bne_iff_ne]
      rintro rfl
      exact absurd (Nat.isDigit_of_mem_toDigits (by decide) (by decide) h) (by decide)

/-- The name tells the timestamp, the kind and the number. -/
theorem artifactName_eq_iff :
    artifactName epochSecs encrypted n = artifactName epochSecs' encrypted' n' ↔
      (utcTimestamp epochSecs = utcTimestamp epochSecs' ∧ encrypted = encrypted') ∧ n = n' := by
  constructor
  · intro h
    have htext := congrArg String.toList h
    rw [toList_artifactName, toList_artifactName, List.append_cancel_left_eq] at htext
    obtain ⟨hstamp, htext⟩ := append_inj_of_delimited
      (fun _ => isAlphanum_of_mem_utcTimestamp) (fun _ => isAlphanum_of_mem_utcTimestamp)
      (takeWhile_counterText n _) (takeWhile_counterText n' _) htext
    obtain ⟨hcounter, hextension⟩ := append_inj_of_delimited (p := (· != '.'))
      (fun _ => ne_dot_of_mem_counterText) (fun _ => ne_dot_of_mem_counterText) rfl rfl htext
    refine ⟨⟨String.toList_injective hstamp, ?_⟩, counterText_injective hcounter⟩
    cases encrypted <;> cases encrypted' <;> first | rfl | cases hextension
  · rintro ⟨⟨hstamp, rfl⟩, rfl⟩
    apply String.toList_injective
    rw [toList_artifactName, toList_artifactName, hstamp]

theorem isBackupArtifact_artifactName (epochSecs : Nat) (encrypted : Bool) (n : Nat) :
    isBackupArtifact (artifactName epochSecs encrypted n) = true := by
  obtain ⟨c, stamp, hstamp⟩ := List.exists_cons_of_ne_nil (utcTimestamp_ne_nil epochSecs)
  have hdot : c ≠ '.' := by
    rintro rfl
    exact absurd (isAlphanum_of_mem_utcTimestamp (hstamp ▸ List.mem_cons_self)) (by decide)
  -- the last characters differ
  have htemps : (tempArtifactSuffixes.any fun temp =>
      temp.toList.isSuffixOf (artifactName epochSecs encrypted n).toList) = false := by
    rw [List.any_eq_false]
    intro temp htemp
    rw [List.isSuffixOf_iff_suffix]
    rintro ⟨front, heq⟩
    have hlast := congrArg List.getLast? heq
    rw [toList_artifactName] at hlast
    simp only [tempArtifactSuffixes, List.mem_cons, List.not_mem_nil, or_false] at htemp
    rcases htemp with rfl | rfl | rfl | rfl <;> cases encrypted <;> simp [extension] at hlast
  rw [isBackupArtifact, htemps, toList_artifactName, List.dropPrefix?_append_of_beq _ BEq.rfl]
  simp [hstamp, hdot]

/-- Names of different seconds sort like the seconds, up to the year 9999. -/
theorem artifactName_lt (hlt : epochSecs < epochSecs')
    (h : (epochSecs' : Int) ≤ endOfYear9999.unixSecond) :
    artifactName epochSecs encrypted n < artifactName epochSecs' encrypted' n' := by
  obtain ⟨hlength, hstamps⟩ := toList_utcTimestamp_lt hlt h
  rw [String.lt_iff, toList_artifactName, toList_artifactName]
  exact List.append_left_lt ((append_lt_append_iff hlength).mpr (.inl hstamps))

end Texts

/-- Counting goes up one by one. -/
theorem exists_of_lt_count {p : Nat → Prop} [DecidablePred p] {r m : Nat}
    (h : r < Nat.count p m) : ∃ k < m, p k ∧ Nat.count p k = r := by
  induction m with
  | zero => simp at h
  | succ m ih =>
    by_cases hlt : r < Nat.count p m
    · obtain ⟨k, hk, hpk, hcount⟩ := ih hlt
      exact ⟨k, Nat.lt_succ_of_lt hk, hpk, hcount⟩
    · by_cases hpm : p m
      · rw [Nat.count_succ, if_pos hpm] at h
        exact ⟨m, Nat.lt_succ_self m, hpm, by omega⟩
      · rw [Nat.count_succ, if_neg hpm] at h
        omega

section Creations

/-- One backup: when it is taken, whether it is encrypted, and what it leaves. -/
structure Creation where
  epochSecs : Nat
  encrypted : Bool
  mtime : Nat
  content : Bytes
  deriving DecidableEq, Repr

/-- Backups taken one after another: each with its path, in the order of creation, and the
files behind them. -/
def createBackups (dir : String) (files : AList fun _ : Path => Bytes) :
    List Creation → List (Creation × Path) × AList fun _ : Path => Bytes
  | [] => ([], files)
  | c :: cs =>
    let path := uniqueBackupPath files dir c.epochSecs c.encrypted
    let later := createBackups dir (files.insert path c.content) cs
    ((c, path) :: later.1, later.2)

/-- The backup's path with a number. -/
def Creation.path (dir : String) (c : Creation) (n : Nat) : Path :=
  ⟨dir, artifactName c.epochSecs c.encrypted n⟩

/-- Backups that search through the same names. -/
def Creation.Alike (c e : Creation) : Prop :=
  utcTimestamp c.epochSecs = utcTimestamp e.epochSecs ∧ c.encrypted = e.encrypted

instance (c e : Creation) : Decidable (c.Alike e) := inferInstanceAs (Decidable (_ ∧ _))

/-- As many of the free numbers are passed over as there are earlier backups that are alike. -/
noncomputable def Creation.number (dir : String) (files : AList fun _ : Path => Bytes)
    (earlier : List Creation) (c : Creation) : Nat :=
  Nat.nth (fun n => c.path dir n ∉ files) (earlier.countP fun e => c.Alike e)

/-- The paths of backups from the files and the creations before them. -/
noncomputable def numberedPaths (dir : String) (files : AList fun _ : Path => Bytes) :
    (earlier later : List Creation) → List (Creation × Path)
  | _, [] => []
  | earlier, c :: cs =>
    (c, c.path dir (c.number dir files earlier)) :: numberedPaths dir files (earlier ++ [c]) cs

variable {dir : String} {files now : AList fun _ : Path => Bytes} {earlier : List Creation}
  {c e : Creation} {n : Nat}

theorem Creation.path_eq_iff {k : Nat} : c.path dir n = e.path dir k ↔ c.Alike e ∧ n = k := by
  rw [path, path, Path.mk.injEq, eq_self_iff_true, true_and, artifactName_eq_iff]
  rfl

/-- A number is free now if it was free before and enough free ones are below it. -/
def Passed (dir : String) (files : AList fun _ : Path => Bytes) (earlier : List Creation)
    (now : AList fun _ : Path => Bytes) : Prop :=
  ∀ (c : Creation) (n : Nat), c.path dir n ∉ now ↔ c.path dir n ∉ files ∧
    earlier.countP (fun e => c.Alike e) ≤ Nat.count (fun k => c.path dir k ∉ files) n

theorem passed_nil (dir : String) (files : AList fun _ : Path => Bytes) :
    Passed dir files [] files := fun _ _ => (and_iff_left (Nat.zero_le _)).symm

/-- The first number that is free now. -/
theorem Passed.count_eq (h : Passed dir files earlier now) (hfree : c.path dir n ∉ now)
    (hfirst : ∀ k < n, c.path dir k ∈ now) :
    Nat.count (fun k => c.path dir k ∉ files) n = earlier.countP fun e => c.Alike e := by
  obtain ⟨-, hle⟩ := (h c n).mp hfree
  refine Nat.le_antisymm (Nat.le_of_not_lt fun hlt => ?_) hle
  obtain ⟨k, hk, hbefore, hcount⟩ := exists_of_lt_count hlt
  exact (h c k).mpr ⟨hbefore, hcount.ge⟩ (hfirst k hk)

theorem Passed.number_eq (h : Passed dir files earlier now) (hfree : c.path dir n ∉ now)
    (hfirst : ∀ k < n, c.path dir k ∈ now) : c.number dir files earlier = n := by
  rw [Creation.number, ← h.count_eq hfree hfirst]
  exact Nat.nth_count (p := fun k => c.path dir k ∉ files) ((h c n).mp hfree).1

theorem Passed.insert (h : Passed dir files earlier now) (hfree : c.path dir n ∉ now)
    (hfirst : ∀ k < n, c.path dir k ∈ now) (content : Bytes) :
    Passed dir files (earlier ++ [c]) (now.insert (c.path dir n) content) := by
  intro e k
  rw [AList.mem_insert, not_or, h e k, Creation.path_eq_iff, List.countP_append,
    List.countP_singleton]
  by_cases halike : e.Alike c
  · have hpath : e.path dir = c.path dir := funext fun _ => Creation.path_eq_iff.mpr ⟨halike, rfl⟩
    have hsame : (fun x => decide (e.Alike x)) = fun x => decide (c.Alike x) := by
      funext x
      exact decide_eq_decide.mpr (by rw [Creation.Alike, Creation.Alike, halike.1, halike.2])
    have hcount := h.count_eq hfree hfirst
    rw [hpath, hsame, if_pos (decide_eq_true halike)]
    constructor
    · rintro ⟨hne, hk, hle⟩
      refine ⟨hk, Nat.lt_of_le_of_ne hle fun heq => hne ⟨halike, ?_⟩⟩
      -- two free numbers with as many free ones below them are the same
      exact (Nat.count_injective hk ((h c n).mp hfree).1 (heq.symm.trans hcount.symm))
    · rintro ⟨hk, hlt⟩
      refine ⟨fun hsame => ?_, hk, Nat.le_of_succ_le hlt⟩
      rw [hsame.2, hcount] at hlt
      exact Nat.lt_irrefl _ hlt
  · rw [if_neg (by simpa using halike), Nat.add_zero]
    exact and_iff_right fun hsame => halike hsame.1

theorem createBackups_fst_of_passed (creations : List Creation)
    (h : Passed dir files earlier now) :
    (createBackups dir now creations).1 = numberedPaths dir files earlier creations := by
  induction creations generalizing earlier now with
  | nil => rfl
  | cons c cs ih =>
    obtain ⟨n, hpath, hfree, hfirst⟩ := uniqueBackupPath_spec now dir c.epochSecs c.encrypted
    rw [createBackups, numberedPaths, h.number_eq hfree hfirst, hpath]
    exact congrArg _ (ih (h.insert hfree hfirst c.content))

/-- The search names the backups by their numbers. -/
theorem createBackups_fst (dir : String) (files : AList fun _ : Path => Bytes)
    (creations : List Creation) :
    (createBackups dir files creations).1 = numberedPaths dir files [] creations :=
  createBackups_fst_of_passed creations (passed_nil dir files)

end Creations

end OtelSqlite.Backup
