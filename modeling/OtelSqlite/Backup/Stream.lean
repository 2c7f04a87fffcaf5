import OtelSqlite.Backup.Container

/-!
# Encryption and decryption of a backup file

`encrypt_file` and `decrypt_to` call by call. A call that the code lets fail may
fail at any time, and reads are as short as the disk makes them.
-/

namespace OtelSqlite.Backup

open OtelSqlite.Lib OtelSqlite.Lib.Fallible OtelSqlite.Lib.Disk

/-- The read is capped at one byte more than a key has. -/
def readKey (path : Path) : BackupIo Key := do
  let content ← io (openFile path)
  io step -- metadata
  let bytes := content.take (encryptionKeyLen + 1)
  io step -- read_to_end
  if h : bytes.length = encryptionKeyLen then pure ⟨bytes, h⟩
  else fail (.invalidKeyLen (max content.length bytes.length))

/-- `base` is what the system's random source returns, if it returns. -/
def randomBaseNonce (base : Nonce) : BackupIo Nonce := do
  io step
  pure base

/-- `create_new`, with its own error for a path that exists. -/
def createArtifact (out : Path) : BackupIo Unit :=
  (createNew out).mapError fun
    | .alreadyExists => .destinationExists out
    | error => .io error

section Encrypt

variable (aead : Aead)

/-- The frame loop from frame `counter` on, with `rest` still to be read. -/
def encryptFrames (key : Key) (base : Nonce) (out : Path) (counter : Nat) (rest : Bytes) :
    BackupIo Unit := do
  let chunk ← io (read rest streamChunkBytes)
  if _ : chunk.1 = [] then pure ()
  else
    match aead.encrypt key (frameNonce base counter) chunk.1 with
    | none => fail (.corruptBackup "AES-GCM encryption failed")
    | some ciphertext =>
      if u32Max < ciphertext.length then
        fail (.corruptBackup "encrypted frame exceeds u32 range")
      else do
        io (writeAll out (toBeBytes ciphertext.length))
        io (writeAll out ciphertext)
        if counter = u32Max then fail (.corruptBackup "backup exceeds 256 TiB frame limit")
        else encryptFrames key base out (counter + 1) (rest.drop chunk.1.length)
termination_by rest.length
decreasing_by exact chunk.drop_lt ‹_›

/-- The part of `encrypt_file` whose failure removes the output. -/
def writeArtifact (key : Key) (base : Nonce) (out : Path) (content : Bytes) : BackupIo Unit := do
  io (writeAll out backupFileMagic)
  io (writeAll out [backupFileVersion])
  io (writeAll out base.1)
  encryptFrames aead key base out 0 content
  io step -- flush

/-- Close the output: `into_inner`, `sync_all` and the permissions. -/
def finishOutput : BackupIo Unit := do
  io step
  io step
  io step

def encryptFile (base : Nonce) (plain out keyPath : Path) : BackupIo Unit := do
  let key ← readKey keyPath
  let base ← randomBaseNonce base
  let content ← io (openFile plain)
  createArtifact out
  (writeArtifact aead key base out content).onError (io (removeFile out))
  finishOutput

end Encrypt

/-- Reads exactly `len` bytes unless the file ends first. -/
def readExactOrEof (rest : Bytes) (len : Nat) :
    BackupIo { bytes : Bytes // bytes = rest.take len } :=
  io (readFull rest len)

section Decrypt

variable (aead : Aead)

/-- The nonce at the start of a legacy body. -/
def leadingNonce (rest : Bytes) (h : ¬ rest.length < nonceLen) : Nonce :=
  ⟨rest.take nonceLen, by rw [List.length_take]; omega⟩

/-- The legacy body: one nonce and one ciphertext for the whole file. -/
def decryptV1Body (key : Key) (rest : Bytes) (out : Path) : BackupIo Unit := do
  io step -- read_to_end
  if h : rest.length < nonceLen then
    fail (.corruptBackup "truncated v1 backup (missing nonce)")
  else
    match aead.decrypt key (leadingNonce rest h) (rest.drop nonceLen) with
    | none => fail (.corruptBackup "authentication failed: wrong key or corrupted backup")
    | some plaintext => do
      (do
        io (create out)
        io (writeAll out plaintext)
        io step /- sync_all -/).onError (io (removeFile out))
      io step -- restrict_permissions

/-- The frame loop from frame `counter` on, with `rest` still to be read. -/
def decryptFrames (key : Key) (base : Nonce) (out : Path) (counter : Nat) (rest : Bytes) :
    BackupIo Unit := do
  let header ← readExactOrEof rest 4
  if _ : header.1.length = 0 then pure () -- clean EOF at frame boundary
  else if header.1.length ≠ 4 then fail (.corruptBackup "truncated frame length prefix")
  else
    let frameLen := fromBeBytes header.1
    if frameLen = 0 ∨ maxFrameCiphertext < frameLen then
      fail (.corruptBackup s!"corrupt frame length {frameLen}")
    else do
      let ciphertext ← readExactOrEof (rest.drop header.1.length) frameLen
      if ciphertext.1.length ≠ frameLen then fail (.corruptBackup "truncated frame payload")
      else
        match aead.decrypt key (frameNonce base counter) ciphertext.1 with
        | none => fail (.corruptBackup "authentication failed: wrong key or corrupted backup")
        | some plaintext => do
          io (writeAll out plaintext)
          if counter = u32Max then fail (.corruptBackup "backup exceeds 256 TiB frame limit")
          else
            decryptFrames key base out (counter + 1)
              ((rest.drop header.1.length).drop ciphertext.1.length)
termination_by rest.length
decreasing_by
  have hle : header.1.length ≤ rest.length := by
    rw [header.2, List.length_take]
    omega
  rw [List.length_drop, List.length_drop]
  omega

/-- The part of `decrypt_v2_body` whose failure removes the output. -/
def writePlaintext (key : Key) (base : Nonce) (out : Path) (rest : Bytes) : BackupIo Unit := do
  decryptFrames aead key base out 0 rest
  io step -- flush

def decryptV2Body (key : Key) (rest : Bytes) (out : Path) : BackupIo Unit := do
  let base ← readExactOrEof rest nonceLen
  if h : base.1.length = nonceLen then do
    io (create out)
    (writePlaintext aead key ⟨base.1, h⟩ out (rest.drop nonceLen)).onError (io (removeFile out))
    finishOutput
  else fail (.corruptBackup "truncated v2 backup header (missing base nonce)")

def decryptTo (encrypted keyPath out : Path) : BackupIo Unit := do
  let key ← readKey keyPath
  let input ← io (openFile encrypted)
  let magic ← readExactOrEof input backupFileMagic.length
  if magic.1.length ≠ backupFileMagic.length ∨ magic.1 ≠ backupFileMagic then
    fail (.corruptBackup "not an otel-sqlite encrypted backup (bad magic)")
  else do
    let rest := input.drop backupFileMagic.length
    let version ← readExactOrEof rest 1
    match version.1 with
    | [] => fail (.corruptBackup "truncated backup header (missing version)")
    | version :: _ =>
      let rest := rest.drop 1
      if version = backupFileVersionV1 then decryptV1Body aead key rest out
      else if version = backupFileVersion then decryptV2Body aead key rest out
      else fail (.corruptBackup s!"unsupported backup file version {version.toNat}")

end Decrypt

section Calls

variable {key : Key} {d d' : Disk Path}

/-- A key is read as it is in its file, which has exactly its length. -/
theorem readKey_ok_iff {path : Path} :
    (readKey path).run d = (.ok key, d') ↔
      (Quiet 3 d.faults ∧ d.files.lookup path = some key.1) ∧
        d' = d.advance.advance.advance := by
  simp only [readKey, run_bind_ok_iff, io_ok_iff, openFile_ok_iff, step_ok_iff, quiet_succ,
    quiet_zero, and_true]
  constructor
  · rintro ⟨content, _, ⟨h₀, hcontent, rfl⟩, _, _, ⟨h₁, rfl⟩, _, _, ⟨h₂, rfl⟩, h⟩
    by_cases hlen : (content.take (encryptionKeyLen + 1)).length = encryptionKeyLen
    · rw [dif_pos hlen, run_pure, Prod.mk.injEq, Except.ok.injEq] at h
      obtain ⟨rfl, rfl⟩ := h
      have hshort : content.length ≤ encryptionKeyLen + 1 := by
        rw [List.length_take] at hlen
        omega
      refine ⟨⟨⟨h₀, h₁, h₂⟩, ?_⟩, rfl⟩
      show d.files.lookup path = some (content.take (encryptionKeyLen + 1))
      rw [hcontent, List.take_of_length_le hshort]
    · rw [dif_neg hlen, run_fail] at h
      cases h
  · rintro ⟨⟨⟨h₀, h₁, h₂⟩, hkey⟩, rfl⟩
    have htake : key.1.take (encryptionKeyLen + 1) = key.1 :=
      List.take_of_length_le (by rw [key.2]; omega)
    refine ⟨key.1, _, ⟨h₀, hkey, rfl⟩, (), _, ⟨h₁, rfl⟩, (), _, ⟨h₂, rfl⟩, ?_⟩
    rw [dif_pos (by rw [htake, key.2]), run_pure]
    exact congrArg (fun k => (Except.ok k, _)) (Subtype.ext htake)

theorem createArtifact_ok_iff {out : Path} {u : Unit} :
    (createArtifact out).run d = (.ok u, d') ↔
      d.faults 0 = false ∧ d.files.lookup out = none ∧ d' = d.advance.put out [] :=
  run_mapError_ok_iff.trans createNew_ok_iff

theorem reaches_finishOutput : Reaches finishOutput 3 d () d.advance.advance.advance :=
  .bind (n := 1) (k := 2) Reaches.step.mapError
    (.bind (n := 1) (k := 1) Reaches.step.mapError Reaches.step.mapError)

theorem reaches_readKey {path : Path} (h : d.files.lookup path = some key.1) :
    Reaches (readKey path) 3 d key d.advance.advance.advance where
  ok_iff := by simp [readKey_ok_iff, h, Subtype.ext_iff, eq_comm, and_assoc]
  faults_eq := rfl

theorem reaches_randomBaseNonce {base : Nonce} :
    Reaches (randomBaseNonce base) 1 d base d.advance :=
  .bind (k := 0) Reaches.step.mapError .pure

end Calls

end OtelSqlite.Backup
