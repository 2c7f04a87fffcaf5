import OtelSqlite.Backup.Tampering
import OtelSqlite.Lib.Logged

/-!
# The nonces of an encryption

`encrypt_file` once more, for a cipher that is an operation of its own: the program has no
other way to encrypt. With a cipher that logs its arguments, it is the program of
`Backup.Stream` once the log is erased. Whatever the disk and the cipher do, the nonces of
the calls are those of the frame indices from zero on, each once: the loop gives up behind
the last index of 32 bits.
-/

namespace OtelSqlite.Backup.Noted

open OtelSqlite.Lib OtelSqlite.Lib.Fallible OtelSqlite.Lib.Disk

/-- The arguments of one call of the cipher. -/
structure Sealing where
  key : Key
  nonce : Nonce
  plaintext : Bytes

abbrev NotedIo := Logged (Disk Path) BackupError Sealing

abbrev Cipher := Key → Nonce → Bytes → NotedIo (Option Bytes)

/-- The cipher, with a log of the calls made to it. -/
def recording (aead : Aead) : Cipher := fun key nonce plaintext => do
  Logged.note ⟨key, nonce, plaintext⟩
  pure (aead.encrypt key nonce plaintext)

def io {α : Type} (m : Fallible (Disk Path) FileError α) : NotedIo α := .lift (Backup.io m)

def fail {α : Type} (error : BackupError) : NotedIo α := .lift (Fallible.fail error)

section Program

variable (encrypt : Cipher)

def encryptFrames (key : Key) (base : Nonce) (out : Path) (counter : Nat) (rest : Bytes) :
    NotedIo Unit := do
  let chunk ← io (read rest streamChunkBytes)
  if _ : chunk.1 = [] then pure ()
  else do
    match ← encrypt key (frameNonce base counter) chunk.1 with
    | none => fail (.corruptBackup "AES-GCM encryption failed")
    | some ciphertext =>
      if u32Max < ciphertext.length then
        fail (.corruptBackup "encrypted frame exceeds u32 range")
      else do
        io (writeAll out (toBeBytes ciphertext.length))
        io (writeAll out ciphertext)
        if counter = u32Max then fail (.corruptBackup "backup exceeds 256 TiB frame limit")
        else encryptFrames key base out (counter + 1) (rest.drop chunk.1.length)
termination_by rest.length
decreasing_by exact chunk.drop_lt ‹_›

def writeArtifact (key : Key) (base : Nonce) (out : Path) (content : Bytes) : NotedIo Unit := do
  io (writeAll out backupFileMagic)
  io (writeAll out [backupFileVersion])
  io (writeAll out base.1)
  encryptFrames encrypt key base out 0 content
  io step -- flush

def encryptFile (base : Nonce) (plain out keyPath : Path) : NotedIo Unit := do
  let key ← Logged.lift (readKey keyPath)
  let base ← Logged.lift (randomBaseNonce base)
  let content ← io (openFile plain)
  Logged.lift (createArtifact out)
  (writeArtifact encrypt key base out content).onError (Backup.io (removeFile out))
  Logged.lift finishOutput

end Program

/-- The calls one encryption makes to the cipher. -/
def cipherCalls (aead : Aead) (base : Nonce) (plain out keyPath : Path) (d : Disk Path) :
    List Sealing :=
  (encryptFile (recording aead) base plain out keyPath).log d

section Erase

variable (aead : Aead) (key : Key) (base : Nonce) (out : Path)

@[simp] theorem erase_io {α : Type} (m : Fallible (Disk Path) FileError α) :
    (io m).erase = Backup.io m := rfl

@[simp] theorem erase_fail {α : Type} (error : BackupError) :
    (fail error : NotedIo α).erase = Fallible.fail error := rfl

/-- What the recording cipher returns is what the cipher returns for the logged arguments. -/
@[simp] theorem erase_recording (nonce : Nonce) (plaintext : Bytes) :
    (recording aead key nonce plaintext).erase = pure (aead.encrypt key nonce plaintext) := rfl

theorem erase_encryptFrames (counter : Nat) (rest : Bytes) :
    (encryptFrames (recording aead) key base out counter rest).erase =
      Backup.encryptFrames aead key base out counter rest := by
  induction hlen : rest.length using Nat.strong_induction_on generalizing counter rest with
  | _ n ih =>
    rw [encryptFrames, Backup.encryptFrames, Logged.erase_bind, erase_io]
    refine congrArg _ (funext fun chunk => ?_)
    by_cases hchunk : chunk.1 = []
    · rw [dif_pos hchunk, dif_pos hchunk, Logged.erase_pure]
    · rw [dif_neg hchunk, dif_neg hchunk, Logged.erase_bind, erase_recording, pure_bind]
      cases aead.encrypt key (frameNonce base counter) chunk.1 with
      | none => rfl
      | some ciphertext =>
        simp only [Logged.erase_ite, Logged.erase_bind, erase_io, erase_fail,
          ih _ (hlen ▸ chunk.drop_lt hchunk) (counter + 1) _ rfl]

theorem erase_encryptFile (plain keyPath : Path) :
    (encryptFile (recording aead) base plain out keyPath).erase =
      Backup.encryptFile aead base plain out keyPath := by
  simp only [encryptFile, Backup.encryptFile, writeArtifact, Backup.writeArtifact,
    Logged.erase_bind, Logged.erase_onError, Logged.erase_lift, erase_io, erase_encryptFrames]

end Erase

section Nonces

/-- The calls for frames from `counter` on. After a success there is room for one more index,
and the calls were for these pieces. -/
def Numbered (base : Nonce) (counter : Nat) (pieces : List Bytes)
    (r : Except BackupError Unit × Disk Path × List Sealing) : Prop :=
  ∃ n, counter + n ≤ u32Max + 1 ∧
    r.2.2.map Sealing.nonce = (List.range' counter n).map (frameNonce base) ∧
    (r.1 = .ok () → counter + n ≤ u32Max ∧ r.2.2.map Sealing.plaintext = pieces)

variable {aead : Aead} {key : Key} {base : Nonce} {out : Path} {counter : Nat} {d : Disk Path}
  {pieces : List Bytes} {m : NotedIo Unit}

theorem Numbered.of_error {error : BackupError} (h : counter ≤ u32Max + 1) :
    Numbered base counter pieces (.error error, d, []) :=
  ⟨0, h, rfl, nofun⟩

/-- A call without the cipher comes first: it fails, or the rest hands out the nonces. -/
theorem Numbered.lift_bind {α : Type} {call : BackupIo α} {m : α → NotedIo Unit}
    (hcounter : counter ≤ u32Max + 1)
    (h : ∀ a d', call.run d = (.ok a, d') → Numbered base counter pieces ((m a).run d')) :
    Numbered base counter pieces ((Logged.lift call >>= m).run d) :=
  Logged.run_lift_bind_of (fun _ _ => .of_error hcounter) h

/-- A call of the cipher comes first. -/
theorem Numbered.cons {piece : Bytes} {m : Option Bytes → NotedIo Unit}
    (h : Numbered base (counter + 1) pieces
      ((m (aead.encrypt key (frameNonce base counter) piece)).run d)) :
    Numbered base counter (piece :: pieces)
      ((recording aead key (frameNonce base counter) piece >>= m).run d) := by
  obtain ⟨n, hn, hnonces, hok⟩ := h
  refine ⟨n + 1, by omega, ?_, fun h => ?_⟩
  · rw [List.range'_succ, List.map_cons, ← hnonces]
    rfl
  · obtain ⟨hroom, hpieces⟩ := hok h
    refine ⟨by omega, ?_⟩
    rw [← hpieces]
    rfl

/-- What follows without the cipher adds no call. -/
theorem Numbered.bind_lift {after : BackupIo Unit} (h : Numbered base counter pieces (m.run d)) :
    Numbered base counter pieces ((m >>= fun _ => Logged.lift after).run d) := by
  rcases hrun : m.run d with ⟨error | ⟨⟩, d', calls⟩
  · rw [Logged.run_bind_of_error hrun, ← hrun]
    exact h
  · rw [hrun] at h
    obtain ⟨n, hn, hnonces, hok⟩ := h
    rw [Logged.run_bind_of_ok hrun, Logged.log_lift, List.append_nil]
    exact ⟨n, hn, hnonces, fun _ => hok rfl⟩

theorem Numbered.onError {cleanup : BackupIo Unit} (h : Numbered base counter pieces (m.run d)) :
    Numbered base counter pieces ((m.onError cleanup).run d) := by
  rcases hrun : m.run d with ⟨error | ⟨⟩, d', calls⟩
  · rw [hrun] at h
    obtain ⟨n, hn, hnonces, -⟩ := h
    rw [Logged.run_onError_of_error hrun]
    exact ⟨n, hn, hnonces, nofun⟩
  · rw [Logged.run_onError_of_ok hrun, ← hrun]
    exact h

/-- A frame calls the cipher with its own nonce, and the loop does not go on behind the last. -/
theorem numbered_encryptFrames (hcounter : counter ≤ u32Max) (rest : Bytes) :
    Numbered base counter (framing d.offers rest)
      ((encryptFrames (recording aead) key base out counter rest).run d) := by
  induction hlen : rest.length using Nat.strong_induction_on generalizing counter rest d with
  | _ n ih =>
    rw [encryptFrames]
    refine .lift_bind (by omega) fun chunk d₁ hread => ?_
    obtain ⟨-, rfl, rfl⟩ := read_ok_iff.mp (io_ok_iff.mp hread)
    by_cases hchunk : (Chunk.of rest streamChunkBytes (d.offers 0)).1 = []
    · rw [dif_pos hchunk, framing, dif_pos hchunk]
      exact ⟨0, by omega, rfl, fun _ => ⟨hcounter, rfl⟩⟩
    · rw [dif_neg hchunk, framing, dif_neg hchunk]
      refine Numbered.cons ?_
      have hfailed {error : BackupError} {d' : Disk Path} {pieces : List Bytes} :
          Numbered base (counter + 1) pieces (.error error, d', []) := .of_error (by omega)
      cases aead.encrypt key (frameNonce base counter) (Chunk.of rest streamChunkBytes _).1 with
      | none => exact hfailed
      | some ciphertext =>
        dsimp only
        split
        · exact hfailed
        · refine .lift_bind (by omega) fun _ d₂ hprefix => ?_
          obtain ⟨-, rfl⟩ := writeAll_ok_iff.mp (io_ok_iff.mp hprefix)
          refine .lift_bind (by omega) fun _ d₃ hwrite => ?_
          obtain ⟨-, rfl⟩ := writeAll_ok_iff.mp (io_ok_iff.mp hwrite)
          split
          · exact hfailed
          · exact ih _ (hlen ▸ Chunk.drop_lt _ hchunk) (by omega) _ rfl

theorem numbered_writeArtifact (content : Bytes) :
    Numbered base 0 (framing d.offers content)
      ((writeArtifact (recording aead) key base out content).run d) := by
  rw [writeArtifact]
  refine .lift_bind (Nat.zero_le _) fun _ d₁ h₁ => ?_
  obtain ⟨-, rfl⟩ := writeAll_ok_iff.mp (io_ok_iff.mp h₁)
  refine .lift_bind (Nat.zero_le _) fun _ d₂ h₂ => ?_
  obtain ⟨-, rfl⟩ := writeAll_ok_iff.mp (io_ok_iff.mp h₂)
  refine .lift_bind (Nat.zero_le _) fun _ d₃ h₃ => ?_
  obtain ⟨-, rfl⟩ := writeAll_ok_iff.mp (io_ok_iff.mp h₃)
  exact (numbered_encryptFrames (Nat.zero_le _) content).bind_lift

theorem numbered_encryptFile (plain keyPath : Path) :
    Numbered base 0 (framing d.offers ((d.files.lookup plain).getD []))
      ((encryptFile (recording aead) base plain out keyPath).run d) := by
  rw [encryptFile]
  refine .lift_bind (Nat.zero_le _) fun key d₁ hkey => ?_
  obtain ⟨-, rfl⟩ := readKey_ok_iff.mp hkey
  refine .lift_bind (Nat.zero_le _) fun base' d₂ hbase => ?_
  obtain ⟨-, rfl, rfl⟩ := reaches_randomBaseNonce.ok_iff.mp hbase
  refine .lift_bind (Nat.zero_le _) fun content d₃ hopen => ?_
  obtain ⟨-, hcontent, rfl⟩ := openFile_ok_iff.mp (io_ok_iff.mp hopen)
  refine .lift_bind (Nat.zero_le _) fun _ d₄ hcreate => ?_
  obtain ⟨-, -, rfl⟩ := createArtifact_ok_iff.mp hcreate
  have hplain : d.files.lookup plain = some content := hcontent
  rw [hplain]
  exact (numbered_writeArtifact content).onError.bind_lift

/-- Frame nonces with indices of 32 bits are told apart by them. -/
theorem nodup_map_frameNonce {n : Nat} (h : n ≤ u32Max + 1) :
    ((List.range n).map (frameNonce base)).Nodup := by
  refine List.nodup_range.map_on fun i hi j hj heq => ?_
  rw [List.mem_range] at hi hj
  exact (frameNonce_inj (by omega) (by omega) heq).2

end Nonces

/-- One encryption calls the cipher with no nonce twice, and it fails where the frame counter
would wrap. The calls of an encryption that succeeds are those for the pieces the reads
return, one for each. -/
theorem frame_nonces_never_repeat (aead : Aead) (base : Nonce) (plain out keyPath : Path)
    (d : Disk Path) :
    (encryptFile (recording aead) base plain out keyPath).erase =
      Backup.encryptFile aead base plain out keyPath ∧
    ((cipherCalls aead base plain out keyPath d).map Sealing.nonce).Nodup ∧
    (∃ n ≤ u32Max + 1, (cipherCalls aead base plain out keyPath d).map Sealing.nonce =
      (List.range n).map (frameNonce base)) ∧
    (u32Max < (cipherCalls aead base plain out keyPath d).length →
      ((Backup.encryptFile aead base plain out keyPath).run d).1 ≠ .ok ()) ∧
    ∀ content, d.files.lookup plain = some content →
      (((Backup.encryptFile aead base plain out keyPath).run d).1 = .ok () →
        (cipherCalls aead base plain out keyPath d).map Sealing.plaintext =
          framing d.offers content) ∧
      (u32Max < (framing d.offers content).length →
        ((Backup.encryptFile aead base plain out keyPath).run d).1 ≠ .ok ()) := by
  have hnumbered : Numbered base 0 (framing d.offers ((d.files.lookup plain).getD []))
      ((encryptFile (recording aead) base plain out keyPath).run d) :=
    numbered_encryptFile plain keyPath
  obtain ⟨n, hn, hnonces, hok⟩ := hnumbered
  rw [← List.range_eq_range'] at hnonces
  rw [Nat.zero_add] at hn hok
  have hnonces : (cipherCalls aead base plain out keyPath d).map Sealing.nonce =
      (List.range n).map (frameNonce base) := hnonces
  have hlength : (cipherCalls aead base plain out keyPath d).length = n := by
    simpa using congrArg List.length hnonces
  have hsucceeded : ((Backup.encryptFile aead base plain out keyPath).run d).1 = .ok () →
      n ≤ u32Max ∧ (cipherCalls aead base plain out keyPath d).map Sealing.plaintext =
        framing d.offers ((d.files.lookup plain).getD []) := by
    rw [← erase_encryptFile, Logged.run_erase]
    exact hok
  refine ⟨erase_encryptFile aead base out plain keyPath, ?_, ⟨n, hn, hnonces⟩, ?_, ?_⟩
  · rw [hnonces]
    exact nodup_map_frameNonce hn
  · intro hfull hsuccess
    have hroom := (hsucceeded hsuccess).1
    omega
  · intro content hcontent
    rw [hcontent] at hsucceeded
    refine ⟨fun hsuccess => (hsucceeded hsuccess).2, fun hlong hsuccess => ?_⟩
    obtain ⟨hroom, hpieces⟩ := hsucceeded hsuccess
    have hcount := congrArg List.length hpieces
    rw [List.length_map, hlength, Option.getD_some] at hcount
    omega

/-- Three bytes in reads of two: two calls, with the nonces of the frames 0 and 1. -/
theorem frame_nonces_never_repeat_small :
    (cipherCalls taggingAead zeroNonce (file "plain") (file "artifact") (file "key")
        smallDisk).map Sealing.plaintext = [[1, 2], [3]] ∧
      ((cipherCalls taggingAead zeroNonce (file "plain") (file "artifact") (file "key")
        smallDisk).map Sealing.nonce).Nodup := by
  obtain ⟨-, hnodup, -, -, hcontent⟩ := frame_nonces_never_repeat taggingAead zeroNonce
    (file "plain") (file "artifact") (file "key") smallDisk
  have hpieces := (hcontent [1, 2, 3] (by decide +kernel)).1 (by decide +kernel)
  exact ⟨hpieces.trans (by decide +kernel), hnodup⟩

end OtelSqlite.Backup.Noted
