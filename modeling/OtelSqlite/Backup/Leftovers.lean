import OtelSqlite.Backup.RoundTrip

/-!
# What a failed encryption or decryption leaves

Both functions remove their output when the streaming part fails. The calls that close the
output come behind that part and return their error at once, so a failure there leaves the
complete output under its final name. Which call that is follows from the files and from how
the disk answers the reads.
-/

namespace OtelSqlite.Backup

open OtelSqlite.Lib OtelSqlite.Lib.Fallible OtelSqlite.Lib.Disk

/-- The key, the plaintext and the cipher are good for an artifact, and of the calls that write
and close it only some of the last three fail. -/
def FailsWhileClosing (aead : Aead) (base : Nonce) (plain keyPath : Path) (d : Disk Path) : Prop :=
  ∃ (key : Key) (content frames : Bytes),
    d.files.lookup keyPath = some key.1 ∧ d.files.lookup plain = some content ∧
    sealFrames aead key base 0 (framing d.offers content) = some frames ∧
    (framing d.offers content).length ≤ u32Max ∧
    Quiet (encryptCalls (framing d.offers content).length - 3) d.faults ∧
    ¬Quiet (encryptCalls (framing d.offers content).length) d.faults

/-- The key is good for the artifact, and of the calls that write and close the plaintext only
some of those that close it fail. -/
def FailsWhileClosingPlaintext (aead : Aead) (encrypted keyPath : Path) (d : Disk Path) : Prop :=
  ∃ (key : Key) (artifact plaintext : Bytes),
    d.files.lookup keyPath = some key.1 ∧ d.files.lookup encrypted = some artifact ∧
    decode aead key artifact = .ok plaintext ∧
    Quiet (decryptCalls d.offers artifact) d.faults ∧
    ¬Quiet (decryptCalls d.offers artifact + closingCalls artifact) d.faults

variable {aead : Aead} {base : Nonce} {plain encrypted out keyPath : Path} {d : Disk Path}

theorem passive_absent (out : Path) : Passive fun d => d.files.lookup out = none := ⟨id, id⟩

theorem failsWith_encryptFile_iff (hd : Clear out d) :
    FailsWith (fun d => d.files.lookup out = none) (encryptFile aead base plain out keyPath) d ↔
      ¬FailsWhileClosing aead base plain keyPath d := by
  by_cases hfiles : ∃ (key : Key) (content : Bytes),
      d.files.lookup keyPath = some key.1 ∧ d.files.lookup plain = some content
  · obtain ⟨key, content, hkey, hplain⟩ := hfiles
    rw [(course_encryptFile hkey hplain hd.1).failsWith_iff hd, encryptCalls_sub_add]
    refine not_congr ⟨?_, ?_⟩
    · rintro ⟨hresult, hquiet, hloud⟩
      obtain ⟨frames, hseal, hbound⟩ := sealFrom_ne_none_iff.mp hresult
      exact ⟨key, content, frames, hkey, hplain, hseal, hbound, hquiet, hloud⟩
    · rintro ⟨key', content', frames, hkey', hplain', hseal, hbound, hquiet, hloud⟩
      obtain rfl : key = key' := Subtype.ext (Option.some.inj (hkey.symm.trans hkey'))
      obtain rfl : content = content' := Option.some.inj (hplain.symm.trans hplain')
      exact ⟨sealFrom_ne_none_iff.mpr ⟨frames, hseal, hbound⟩, hquiet, hloud⟩
  · -- without them it stops before it creates the artifact
    refine iff_of_true (failsWith_bind_iff.mpr ⟨?_, fun key d₁ hread =>
      failsWith_bind_iff.mpr ⟨?_, fun base d₂ hnonce =>
        failsWith_bind_iff.mpr ⟨?_, fun content d₃ hopen => ?_⟩⟩⟩) ?_
    · exact (preserves_readKey (passive_absent out) keyPath).failsWith hd.1
    · obtain ⟨-, rfl⟩ := readKey_ok_iff.mp hread
      exact ((passive_absent out).step.mapError.bind fun _ => .pure _).failsWith hd.1
    · obtain ⟨-, rfl⟩ := readKey_ok_iff.mp hread
      obtain ⟨-, -, rfl⟩ := reaches_randomBaseNonce.ok_iff.mp hnonce
      exact ((passive_absent out).openFile plain).mapError.failsWith hd.1
    · obtain ⟨⟨-, hkey⟩, rfl⟩ := readKey_ok_iff.mp hread
      obtain ⟨-, -, rfl⟩ := reaches_randomBaseNonce.ok_iff.mp hnonce
      obtain ⟨-, hplain, -⟩ := openFile_ok_iff.mp (io_ok_iff.mp hopen)
      exact absurd ⟨key, content, hkey, hplain⟩ hfiles
    · rintro ⟨key, content, -, hkey, hplain, -⟩
      exact hfiles ⟨key, content, hkey, hplain⟩

theorem failsWith_decryptTo_iff (hd : Clear out d) :
    FailsWith (fun d => d.files.lookup out = none) (decryptTo aead encrypted keyPath out) d ↔
      ¬FailsWhileClosingPlaintext aead encrypted keyPath d := by
  by_cases hfiles : ∃ (key : Key) (artifact : Bytes),
      d.files.lookup keyPath = some key.1 ∧ d.files.lookup encrypted = some artifact
  · obtain ⟨key, artifact, hkey, hartifact⟩ := hfiles
    rw [(course_decryptTo hkey hartifact).failsWith_iff hd]
    refine not_congr ⟨?_, ?_⟩
    · rintro ⟨hresult, hquiet, hloud⟩
      obtain ⟨plaintext, hplain⟩ := Option.ne_none_iff_exists'.mp hresult
      exact ⟨key, artifact, plaintext, hkey, hartifact, ok_of_toOption hplain, hquiet, hloud⟩
    · rintro ⟨key', artifact', plaintext, hkey', hartifact', hplain, hquiet, hloud⟩
      obtain rfl : key = key' := Subtype.ext (Option.some.inj (hkey.symm.trans hkey'))
      obtain rfl : artifact = artifact' := Option.some.inj (hartifact.symm.trans hartifact')
      exact ⟨hplain ▸ Option.some_ne_none plaintext, hquiet, hloud⟩
  · refine iff_of_true (failsWith_bind_iff.mpr ⟨?_, fun key d₁ hread =>
      failsWith_bind_iff.mpr ⟨?_, fun artifact d₂ hopen => ?_⟩⟩) ?_
    · exact (preserves_readKey (passive_absent out) keyPath).failsWith hd.1
    · obtain ⟨-, rfl⟩ := readKey_ok_iff.mp hread
      exact ((passive_absent out).openFile encrypted).mapError.failsWith hd.1
    · obtain ⟨⟨-, hkey⟩, rfl⟩ := readKey_ok_iff.mp hread
      obtain ⟨-, hartifact, -⟩ := openFile_ok_iff.mp (io_ok_iff.mp hopen)
      exact absurd ⟨key, artifact, hkey, hartifact⟩ hfiles
    · rintro ⟨key, artifact, -, hkey, hartifact, -⟩
      exact hfiles ⟨key, artifact, hkey, hartifact⟩

/-- A failed encryption or decryption leaves no output iff it did not fail while it closed a
complete output: in `into_inner`, `sync_all` or `restrict_permissions` for an encryption and
a version 2 decryption, in `restrict_permissions` for a version 1 decryption. -/
theorem failed_output_removed_iff (aead : Aead) (out : Path) (d : Disk Path)
    (hfree : d.files.lookup out = none) (hdeletable : d.stuck out = false) :
    (∀ base plain keyPath,
      (∀ e d', (encryptFile aead base plain out keyPath).run d = (.error e, d') →
        d'.files.lookup out = none) ↔
      ¬FailsWhileClosing aead base plain keyPath d) ∧
    (∀ encrypted keyPath,
      (∀ e d', (decryptTo aead encrypted keyPath out).run d = (.error e, d') →
        d'.files.lookup out = none) ↔
      ¬FailsWhileClosingPlaintext aead encrypted keyPath d) :=
  ⟨fun _ _ _ => failsWith_encryptFile_iff ⟨hfree, hdeletable⟩,
    fun _ _ => failsWith_decryptTo_iff ⟨hfree, hdeletable⟩⟩

section Example

/-- The disk, where the call of this number fails and no other. -/
def failing (d : Disk Path) (n : Nat) : Disk Path := { d with faults := fun i => i == n }

/-- A plaintext that cannot be opened: the call behind the key's three and the nonce's. -/
theorem failed_output_removed_iff_open :
    ∃ d', (encryptFile taggingAead zeroNonce (file "plain") (file "artifact")
        (file "key")).run (failing smallDisk 4) = (.error (.io .other), d') ∧
      d'.files.lookup (file "artifact") = none := by
  have hrun : ((encryptFile taggingAead zeroNonce (file "plain") (file "artifact")
      (file "key")).run (failing smallDisk 4)).1 = .error (.io .other) := by decide +kernel
  refine ⟨_, Prod.ext hrun rfl, ?_⟩
  refine ((failed_output_removed_iff taggingAead (file "artifact") (failing smallDisk 4)
    (by decide +kernel) rfl).1 zeroNonce (file "plain") (file "key")).mpr ?_ _ _
      (Prod.ext hrun rfl)
  rintro ⟨key, content, frames, -, -, -, -, hquiet, -⟩
  have hfault := hquiet 4 (by rw [encryptCalls]; omega)
  cases hfault

/-- A version 1 backup of three bytes next to its key. -/
def smallDiskV1 : Disk Path where
  files := smallDisk.files.insert (file "artifact") (backupFileMagic ++ backupFileVersionV1 ::
    (zeroNonce.1 ++ ([1, 2, 3] ++ List.replicate 12 0 ++ List.replicate 4 7)))
  offers := fun _ => 2
  faults := fun _ => false
  stuck := fun _ => false

/-- The complete output stays behind an error of `sync_all` in an encryption, and behind an
error of `restrict_permissions` in a decryption of either version. -/
theorem failed_output_left :
    (∃ d', (failing smallDisk 18).files.lookup (file "artifact") = none ∧
      (encryptFile taggingAead zeroNonce (file "plain") (file "artifact") (file "key")).run
        (failing smallDisk 18) = (.error (.io .other), d') ∧
      d'.files.lookup (file "artifact") = smallDiskEncrypted.files.lookup (file "artifact") ∧
      d'.files.lookup (file "artifact") ≠ none) ∧
    (∃ d', (failing smallDiskEncrypted 35).files.lookup (file "restored") = none ∧
      (decryptTo taggingAead (file "artifact") (file "key") (file "restored")).run
        (failing smallDiskEncrypted 35) = (.error (.io .other), d') ∧
      d'.files.lookup (file "restored") = some [1, 2, 3]) ∧
    (∃ d', (failing smallDiskV1 13).files.lookup (file "restored") = none ∧
      (decryptTo taggingAead (file "artifact") (file "key") (file "restored")).run
        (failing smallDiskV1 13) = (.error (.io .other), d') ∧
      d'.files.lookup (file "restored") = some [1, 2, 3]) := by
  refine ⟨⟨_, by decide +kernel, Prod.ext (by decide +kernel) rfl, by decide +kernel,
      by decide +kernel⟩,
    ⟨_, by decide +kernel, Prod.ext (by decide +kernel) rfl, by decide +kernel⟩,
    ⟨_, by decide +kernel, Prod.ext (by decide +kernel) rfl, by decide +kernel⟩⟩

end Example

end OtelSqlite.Backup
