import OtelSqlite.Backup.Naming

/-!
# Which backups retention keeps

Retention sorts by modification time and, on equal times, by name, and removes the surplus in
this order up to the first file that cannot be removed. An earlier backup is gone whenever a
later one is exactly if it sorts behind it and everything from behind the later one up to the
earlier one can be removed.
-/

namespace OtelSqlite.Backup

open OtelSqlite.Lib OtelSqlite.Lib.Fallible OtelSqlite.Lib.Disk OtelSqlite.Lib.Calendar

section Order

variable (modified : Path → Option Nat)

/-- The sort key: no modification time is older than any. -/
def age (p : Path) : Nat := (modified p).elim 0 (· + 1)

/-- Retention takes the first path for the older one. -/
def SortsBehind (p q : Path) : Prop :=
  age modified p < age modified q ∨ age modified p = age modified q ∧ p.name < q.name

variable {modified} {a b c : Path}

theorem newerFirst_iff : newerFirst modified a b = true ↔
    age modified b < age modified a ∨ age modified a = age modified b ∧ b.name ≤ a.name := by
  rw [newerFirst, Bool.or_eq_true, Bool.and_eq_true, decide_eq_true_eq, decide_eq_true_eq,
    beq_iff_eq]
  rfl

theorem newerFirst_trans (hab : newerFirst modified a b = true)
    (hbc : newerFirst modified b c = true) : newerFirst modified a c = true := by
  rw [newerFirst_iff] at hab hbc ⊢
  rcases hab with hab | ⟨hab, hab'⟩
  · left
    omega
  · rcases hbc with hbc | ⟨hbc, hbc'⟩
    · left
      omega
    · exact .inr ⟨hab.trans hbc, String.le_trans hbc' hab'⟩

theorem newerFirst_total (modified : Path → Option Nat) (a b : Path) :
    (newerFirst modified a b || newerFirst modified b a) = true := by
  rw [Bool.or_eq_true, newerFirst_iff, newerFirst_iff]
  rcases Nat.lt_trichotomy (age modified a) (age modified b) with h | h | h
  · exact .inr (.inl h)
  · rcases String.le_total a.name b.name with hname | hname
    · exact .inr (.inr ⟨h.symm, hname⟩)
    · exact .inl (.inr ⟨h, hname⟩)
  · exact .inl (.inl h)

/-- The artifacts of a directory in the order of retention. -/
def newestFirst (modified : Path → Option Nat) (dir : String)
    (files : AList fun _ : Path => Bytes) : List Path :=
  ((files.keys.filter fun p => p.dir == dir).filter fun p => isBackupArtifact p.name).mergeSort
    (newerFirst modified)

theorem pairwise_newestFirst (dir : String) (files : AList fun _ : Path => Bytes) :
    (newestFirst modified dir files).Pairwise fun a b => newerFirst modified a b = true := by
  have htrans : ∀ a b c, newerFirst modified a b = true → newerFirst modified b c = true →
      newerFirst modified a c = true := fun _ _ _ => newerFirst_trans
  exact List.pairwise_mergeSort htrans (newerFirst_total modified) _

theorem mem_newestFirst_iff {dir : String} {files : AList fun _ : Path => Bytes} {p : Path} :
    p ∈ newestFirst modified dir files ↔
      p ∈ files ∧ p.dir = dir ∧ isBackupArtifact p.name = true := by
  rw [newestFirst, List.mem_mergeSort, List.mem_filter, List.mem_filter, beq_iff_eq, and_assoc,
    AList.mem_keys]

theorem nodup_newestFirst (dir : String) (files : AList fun _ : Path => Bytes) :
    (newestFirst modified dir files).Nodup :=
  (List.mergeSort_perm _ _).nodup_iff.mpr ((files.nodupKeys.filter _).filter _)

theorem SortsBehind.asymm (h : SortsBehind modified a b) : ¬SortsBehind modified b a := by
  rintro (h' | ⟨hage', hname'⟩)
  · rcases h with h | ⟨hage, -⟩ <;> omega
  · rcases h with h | ⟨-, hname⟩
    · omega
    · exact String.lt_asymm hname hname'

/-- Nothing sorts the other way round, since the files of one directory differ in name. -/
theorem sortsBehind_of_newerFirst (h : newerFirst modified a b = true) (hne : a ≠ b)
    (hdir : a.dir = b.dir) : SortsBehind modified b a := by
  rcases newerFirst_iff.mp h with hage | ⟨hage, hname⟩
  · exact .inl hage
  · refine .inr ⟨hage.symm, String.not_le.mp fun hle => hne ?_⟩
    obtain ⟨dir, name⟩ := a
    rw [Path.mk.injEq]
    exact ⟨hdir, String.le_antisymm hle hname⟩

theorem pairwise_sortsBehind (dir : String) (files : AList fun _ : Path => Bytes) :
    (newestFirst modified dir files).Pairwise fun a b => SortsBehind modified b a := by
  have hpairs : (newestFirst modified dir files).Pairwise fun a b =>
      newerFirst modified a b = true ∧ a ≠ b :=
    (pairwise_newestFirst dir files).and (nodup_newestFirst dir files)
  refine hpairs.imp_of_mem fun ha hb h => sortsBehind_of_newerFirst h.1 h.2 ?_
  exact (mem_newestFirst_iff.mp ha).2.1.trans (mem_newestFirst_iff.mp hb).2.1.symm

end Order

section Cut

variable {α : Type} {r : α → α → Prop} {l : List α} {f : α → Bool} {x y : α}

/-- What comes before the first entry without `f`, if `r` says which entry is in front. -/
theorem mem_takeWhile_iff (hsorted : l.Pairwise r) (hasymm : ∀ x y, r x y → ¬r y x) :
    y ∈ l.takeWhile f ↔ y ∈ l ∧ ∀ x ∈ l, ¬r y x → f x = true := by
  induction l with
  | nil => simp
  | cons a l ih =>
    obtain ⟨hfirst, hsorted⟩ := List.pairwise_cons.mp hsorted
    rw [List.takeWhile_cons]
    constructor
    · intro h
      split at h
      case isTrue ha =>
        rcases List.mem_cons.mp h with rfl | h
        · refine ⟨List.mem_cons_self, fun x hx hyx => ?_⟩
          rcases List.mem_cons.mp hx with rfl | hx
          · exact ha
          · exact absurd (hfirst x hx) hyx
        · obtain ⟨hy, hall⟩ := (ih hsorted).mp h
          refine ⟨List.mem_cons_of_mem _ hy, fun x hx hyx => ?_⟩
          rcases List.mem_cons.mp hx with rfl | hx
          · exact ha
          · exact hall x hx hyx
      case isFalse => exact absurd h List.not_mem_nil
    · rintro ⟨hy, hall⟩
      have hback : ¬r y a := by
        rcases List.mem_cons.mp hy with rfl | hy
        · exact fun h => hasymm y y h h
        · exact hasymm a y (hfirst y hy)
      rw [if_pos (hall a List.mem_cons_self hback)]
      rcases List.mem_cons.mp hy with rfl | hy
      · exact List.mem_cons_self
      · refine List.mem_cons_of_mem _ ((ih hsorted).mpr ⟨hy, fun x hx => ?_⟩)
        exact hall x (List.mem_cons_of_mem _ hx)

/-- Behind a cut stands everything that cannot stand before something behind it. -/
theorem mem_drop_of_pairwise (hsorted : l.Pairwise r) {k : Nat} (hx : x ∈ l) (hy : y ∈ l.drop k)
    (hxy : ¬r x y) : x ∈ l.drop k := by
  rw [← List.take_append_drop k l] at hx hsorted
  rcases List.mem_append.mp hx with hx | hx
  · exact absurd ((List.pairwise_append.mp hsorted).2.2 x hx y hy) hxy
  · exact hx

/-- Behind a cut that leaves something in front there is something in front of each entry. -/
theorem exists_front_of_mem_drop (hsorted : l.Pairwise r) {k : Nat} (hk : 1 ≤ k)
    (hy : y ∈ l.drop k) : ∃ x ∈ l, r x y := by
  obtain ⟨k, rfl⟩ := Nat.exists_eq_add_of_le' hk
  cases l with
  | nil => simp at hy
  | cons a l =>
    exact ⟨a, List.mem_cons_self, (List.pairwise_cons.mp hsorted).1 y (List.mem_of_mem_drop hy)⟩

/-- `x` falls with `y` at every cut exactly if it is behind `y` and nothing without `f` comes in
between. -/
theorem falls_with_iff (hsorted : l.Pairwise r) (hasymm : ∀ x y, r x y → ¬r y x) (hx : x ∈ l)
    (hy : y ∈ l) (hne : x ≠ y) :
    (∀ k, 1 ≤ k → y ∈ (l.drop k).takeWhile f → x ∈ (l.drop k).takeWhile f) ↔
      (f y = true → (∃ z ∈ l, r z y) →
        r y x ∧ ∀ z ∈ l, r y z → ¬r x z → f z = true) := by
  have hdrop (k : Nat) : (l.drop k).Pairwise r := hsorted.sublist (List.drop_sublist k l)
  constructor
  · rintro hfalls hfy ⟨z, hz, hzy⟩
    -- the cut right in front of `y`
    obtain ⟨front, rest, rfl⟩ := List.append_of_mem hy
    obtain ⟨hy', hrest⟩ := List.pairwise_cons.mp (List.pairwise_append.mp hsorted).2.1
    have hbehind : ∀ z ∈ front ++ y :: rest, r y z → z ∈ rest := by
      intro z hz hyz
      rcases List.mem_append.mp hz with hz | hz
      · exact absurd hyz (hasymm z y ((List.pairwise_append.mp hsorted).2.2 z hz y List.mem_cons_self))
      · exact (List.mem_cons.mp hz).resolve_left fun h => hasymm y y (h ▸ hyz) (h ▸ hyz)
    have hfront : 1 ≤ front.length := by
      refine List.length_pos_of_mem ((List.mem_append.mp hz).resolve_right fun hz => ?_)
      rcases List.mem_cons.mp hz with rfl | hz
      · exact hasymm z z hzy hzy
      · exact hasymm z y hzy (hy' z hz)
    have hgone := hfalls front.length hfront
    rw [List.drop_left, List.takeWhile_cons, if_pos hfy] at hgone
    have hxrest := (List.mem_cons.mp (hgone List.mem_cons_self)).resolve_left hne
    obtain ⟨hmem, hall⟩ := (mem_takeWhile_iff hrest hasymm).mp hxrest
    exact ⟨hy' x hmem, fun z hz hyz => hall z (hbehind z hz hyz)⟩
  · intro hcond k hk hgone
    obtain ⟨hmem, hall⟩ := (mem_takeWhile_iff (hdrop k) hasymm).mp hgone
    have hfy : f y = true := hall y hmem fun h => hasymm y y h h
    obtain ⟨hyx, hbetween⟩ := hcond hfy (exists_front_of_mem_drop hsorted hk hmem)
    refine (mem_takeWhile_iff (hdrop k) hasymm).mpr
      ⟨mem_drop_of_pairwise hsorted hx hmem (hasymm y x hyx), fun z hz hxz => ?_⟩
    by_cases hyz : r y z
    · exact hbetween z (List.mem_of_mem_drop hz) hyz hxz
    · exact hall z hz hyz

end Cut

section Prune

variable {d d' : Disk Path} {p : Path}

theorem removeFile_ok_iff {u : Unit} : (removeFile p).run d = (.ok u, d') ↔
    d.stuck p = false ∧ d.files.lookup p ≠ none ∧ d' = d.delete p := by
  cases hstuck : d.stuck p <;> cases hl : d.files.lookup p <;>
    simp [removeFile, hstuck, hl, eq_comm (a := d')]

/-- Of files that are there those in front of the first stuck one are removed. -/
theorem lookup_removeEach {ps : List Path} (hnodup : ps.Nodup) (hthere : ∀ q ∈ ps, q ∈ d.files)
    (n : Nat) (p : Path) : ((removeEach ps n).run d).2.files.lookup p =
      if p ∈ ps.takeWhile fun q => !d.stuck q then none else d.files.lookup p := by
  induction ps generalizing d n with
  | nil => rfl
  | cons q ps ih =>
    obtain ⟨hq, hnodup⟩ := List.nodup_cons.mp hnodup
    cases hstuck : d.stuck q with
    | true =>
      have hfails : (io (removeFile q)).run d = (.error (.io .other), d) :=
        run_mapError_of_error (by simp [removeFile, hstuck])
      rw [removeEach, run_bind_of_error hfails]
      simp [hstuck]
    | false =>
      have hremove : (removeFile q).run d = (.ok (), d.delete q) := by
        refine removeFile_ok_iff.mpr ⟨hstuck, ?_, rfl⟩
        exact Option.isSome_iff_ne_none.mp (AList.lookup_isSome.mpr (hthere q List.mem_cons_self))
      have hrest : ∀ p ∈ ps, p ∈ (d.delete q).files := by
        intro p hp
        refine AList.mem_erase.mpr ⟨?_, hthere p (List.mem_cons_of_mem _ hp)⟩
        rintro rfl
        exact hq hp
      rw [removeEach, run_bind_of_ok (io_ok_iff.mpr hremove), ih hnodup hrest]
      by_cases hpq : p = q
      · subst hpq
        simp [hstuck]
      · simp [hstuck, hpq, Disk.delete]

variable {modified : Path → Option Nat} {dir : String} {keep : Nat}

/-- With a listing that works the surplus is removed in order. -/
theorem run_pruneOldBackups (hkeep : 1 ≤ keep) (hlisting : d.faults 0 = false) :
    (pruneOldBackups modified dir keep).run d =
      (removeEach ((newestFirst modified dir d.files).drop keep) 0).run d.advance := by
  have hentries : (listing dir).run d =
      (.ok (d.files.keys.filter fun p => p.dir == dir), d.advance) :=
    run_bind_of_ok (a := ()) (step_ok_iff.mpr ⟨hlisting, rfl⟩)
  rw [pruneOldBackups, if_neg (Nat.ne_of_gt hkeep), run_bind_of_ok (io_ok_iff.mpr hentries)]
  rfl

/-- What pruning leaves, however it ends. -/
theorem lookup_pruneOldBackups (hkeep : 1 ≤ keep) (p : Path) :
    ((pruneOldBackups modified dir keep).run d).2.files.lookup p =
      if d.faults 0 = false ∧
          p ∈ ((newestFirst modified dir d.files).drop keep).takeWhile fun q => !d.stuck q
        then none else d.files.lookup p := by
  cases hlisting : d.faults 0 with
  | true =>
    have hstep : step.run d = (.error .other, d.advance) := by simp [step, hlisting]
    have hfails : (io (listing dir)).run d = (.error (.io .other), d.advance) :=
      run_mapError_of_error (run_bind_of_error hstep)
    rw [pruneOldBackups, if_neg (Nat.ne_of_gt hkeep), run_bind_of_error hfails]
    simp
  | false =>
    rw [run_pruneOldBackups hkeep hlisting, lookup_removeEach]
    · exact if_congr (and_iff_right rfl).symm rfl rfl
    · exact (nodup_newestFirst dir d.files).sublist (List.drop_sublist _ _)
    · exact fun q hq => (mem_newestFirst_iff.mp (List.mem_of_mem_drop hq)).1

end Prune

section Creation

variable {dir : String} {files : AList fun _ : Path => Bytes} {creations : List Creation}

theorem map_fst_createBackups (dir : String) (files : AList fun _ : Path => Bytes)
    (creations : List Creation) :
    (createBackups dir files creations).1.map Prod.fst = creations := by
  induction creations generalizing files with
  | nil => rfl
  | cons c cs ih => exact congrArg (c :: ·) (ih _)

/-- No file goes away. -/
theorem mem_createBackups {p : Path} (h : p ∈ files) :
    p ∈ (createBackups dir files creations).2 := by
  induction creations generalizing files with
  | nil => exact h
  | cons c cs ih => exact ih (AList.mem_insert _ |>.mpr (.inr h))

/-- What holds of each backup when all have been taken. -/
structure Stored (dir : String) (before after : AList fun _ : Path => Bytes)
    (made : Creation × Path) : Prop where
  fresh : made.2 ∉ before
  there : made.2 ∈ after
  path_eq : ∃ n, made.2 = made.1.path dir n

theorem stored_createBackups : ∀ made ∈ (createBackups dir files creations).1,
    Stored dir files (createBackups dir files creations).2 made := by
  induction creations generalizing files with
  | nil => exact fun made h => absurd h List.not_mem_nil
  | cons c cs ih =>
    intro made hmade
    obtain ⟨n, hpath, hfree, -⟩ := uniqueBackupPath_spec files dir c.epochSecs c.encrypted
    rw [createBackups, hpath] at hmade ⊢
    rcases List.mem_cons.mp hmade with rfl | hmade
    · exact ⟨hfree, mem_createBackups (AList.mem_insert _ |>.mpr (.inl rfl)), n, rfl⟩
    · obtain ⟨hfresh, hthere, hpath'⟩ := ih made hmade
      exact ⟨fun h => hfresh (AList.mem_insert _ |>.mpr (.inr h)), hthere, hpath'⟩

theorem pairwise_ne_createBackups :
    (createBackups dir files creations).1.Pairwise fun older newer => older.2 ≠ newer.2 := by
  induction creations generalizing files with
  | nil => exact List.Pairwise.nil
  | cons c cs ih =>
    refine List.pairwise_cons.mpr ⟨fun newer hnewer heq => ?_, ih⟩
    exact (stored_createBackups newer hnewer).fresh (AList.mem_insert _ |>.mpr (.inl heq.symm))

/-- No backup is gone while an earlier one is there. -/
def KeepsNewest (made : List (Creation × Path)) (files : AList fun _ : Path => Bytes) : Prop :=
  made.Pairwise fun older newer => files.lookup newer.2 = none → files.lookup older.2 = none

theorem Stored.mem_newestFirst {before after : AList fun _ : Path => Bytes}
    {made : Creation × Path} (h : Stored dir before after made) (modified : Path → Option Nat) :
    made.2 ∈ newestFirst modified dir after := by
  obtain ⟨n, hpath⟩ := h.path_eq
  refine mem_newestFirst_iff.mpr ⟨h.there, ?_⟩
  rw [hpath]
  exact ⟨rfl, isBackupArtifact_artifactName _ _ n⟩

variable {modified : Path → Option Nat} {made : List (Creation × Path)}
  {older newer : Creation × Path} {d : Disk Path}

/-- What it takes that the earlier backup is gone whenever the later one is. Nothing if the later
one cannot be removed or no artifact sorts in front of it. Else the earlier one has to sort
behind it, and what sorts from there up to the earlier one has to be removable. -/
def FallsWith (modified : Path → Option Nat) (dir : String) (d : Disk Path)
    (older newer : Creation × Path) : Prop :=
  d.stuck newer.2 = false →
    (∃ p ∈ d.files, p.dir = dir ∧ isBackupArtifact p.name = true ∧
      SortsBehind modified newer.2 p) →
    (older.1.mtime = newer.1.mtime → older.2.name < newer.2.name) ∧
      ∀ p ∈ d.files, p.dir = dir → isBackupArtifact p.name = true →
        SortsBehind modified p newer.2 → ¬SortsBehind modified p older.2 → d.stuck p = false

/-- The earlier backup sorts behind the later one unless their times are equal and the names do
not ascend. -/
theorem sortsBehind_iff (holder : modified older.2 = some older.1.mtime)
    (hnewer : modified newer.2 = some newer.1.mtime) (hle : older.1.mtime ≤ newer.1.mtime) :
    SortsBehind modified older.2 newer.2 ↔
      (older.1.mtime = newer.1.mtime → older.2.name < newer.2.name) := by
  rw [SortsBehind, age, age, holder, hnewer, Option.elim_some, Option.elim_some]
  constructor
  · rintro (hlt | ⟨-, hname⟩) heq
    · omega
    · exact hname
  · intro hname
    by_cases heq : older.1.mtime = newer.1.mtime
    · exact .inr ⟨congrArg (· + 1) heq, hname heq⟩
    · left
      omega

/-- Two backups of the directory, and every number to keep. -/
theorem gone_together_iff (holder : older.2 ∈ newestFirst modified dir d.files)
    (hnewer : newer.2 ∈ newestFirst modified dir d.files) (hne : older.2 ≠ newer.2)
    (hlisting : d.faults 0 = false)
    (hbehind : SortsBehind modified older.2 newer.2 ↔
      (older.1.mtime = newer.1.mtime → older.2.name < newer.2.name)) :
    (∀ keep, 1 ≤ keep →
        ((pruneOldBackups modified dir keep).run d).2.files.lookup newer.2 = none →
          ((pruneOldBackups modified dir keep).run d).2.files.lookup older.2 = none) ↔
      FallsWith modified dir d older newer := by
  have hgone (p : Path) (hp : p ∈ newestFirst modified dir d.files) (keep : Nat)
      (hkeep : 1 ≤ keep) :
      ((pruneOldBackups modified dir keep).run d).2.files.lookup p = none ↔
        p ∈ ((newestFirst modified dir d.files).drop keep).takeWhile fun q => !d.stuck q := by
    have hthere : d.files.lookup p ≠ none := fun h =>
      AList.lookup_eq_none.mp h (mem_newestFirst_iff.mp hp).1
    simp [lookup_pruneOldBackups hkeep, hlisting, hthere]
  have hfalls := falls_with_iff (f := fun q => !d.stuck q) (pairwise_sortsBehind dir d.files)
    (fun _ _ h => h.asymm) holder hnewer hne
  simp only [Bool.not_eq_true', mem_newestFirst_iff, and_imp, hbehind] at hfalls
  refine (forall₂_congr fun keep hkeep => ?_).trans (hfalls.trans ?_)
  · rw [hgone _ hnewer keep hkeep, hgone _ holder keep hkeep]
  · simp only [FallsWith, and_assoc]

theorem pairwise_name_lt (dir : String) (files : AList fun _ : Path => Bytes)
    (creations : List Creation) :
    (createBackups dir files creations).1.Pairwise fun older newer =>
      older.1.epochSecs < newer.1.epochSecs →
        (newer.1.epochSecs : Int) ≤ endOfYear9999.unixSecond → older.2.name < newer.2.name := by
  refine List.pairwise_iff_forall_sublist.mpr fun {older newer} hpair hlt hyear => ?_
  obtain ⟨n, hpath⟩ := (stored_createBackups older (hpair.subset (by simp))).path_eq
  obtain ⟨n', hpath'⟩ := (stored_createBackups newer (hpair.subset (by simp))).path_eq
  rw [hpath, hpath']
  exact artifactName_lt hlt hyear

end Creation

/-- Two backups a second apart that the file system dates alike. -/
def secondApart : List Creation := [⟨1788093296, false, 0, []⟩, ⟨1788093297, false, 0, [1]⟩]

/-- The disk behind some backups, with every call working and every file removable. -/
def diskAfter (creations : List Creation) : Disk Path where
  files := (createBackups "backups" ∅ creations).2
  offers := fun _ => 0
  faults := fun _ => false
  stuck := fun _ => false

/-- Two backups within one second that the file system dates alike. -/
def sameSecond : List Creation := [⟨1788093296, false, 0, []⟩, ⟨1788093296, false, 0, [1]⟩]

/-- Where the two are stored. -/
def unnumberedPath : Path := ⟨"backups", "otel-logs.db.20260830T123456Z.bak"⟩

def numberedPath : Path := ⟨"backups", "otel-logs.db.20260830T123456Z-1.bak"⟩

theorem newestFirst_sameSecond :
    newestFirst (fun _ => some 0) "backups" (diskAfter sameSecond).files =
      [unnumberedPath, numberedPath] := by
  have hentries : (((diskAfter sameSecond).files.keys.filter fun p =>
      p.dir == "backups").filter fun p => isBackupArtifact p.name) =
        [numberedPath, unnumberedPath] := by decide +kernel
  have horder : newerFirst (fun _ => some 0) numberedPath unnumberedPath = false := by
    decide +kernel
  rw [newestFirst, hentries]
  simp [List.mergeSort, List.MergeSort.Internal.splitInTwo, horder]

end OtelSqlite.Backup
